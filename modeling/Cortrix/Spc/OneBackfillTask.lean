import Cortrix.Spc.EnrichRetrySweeper

/-!
# One live backfill task for a document

* `Deduped` : no document has two live backfill tasks, and a sweep between its check and its insert has a document without
  one (`Deduped.step`, `Deduped.run`);
* `one_backfill_task` : so it is over every run, and no document that is due is forgotten.
-/

namespace Cortrix.Spc.RetrySweeper
open Lib Async

variable {s s' : State} {a : Act} {t t' : Tasks} {ns doc : String}

/-! ## Live tasks -/

theorem isActive_iff {r : TaskRow} : isActive ns doc r = true ↔
    r.namespaceId = ns ∧ r.docId = doc ∧ doc ≠ "" ∧ r.taskType = kTaskEnrichBackfill ∧ r.status.live = true := by
  simp [isActive, and_assoc]

theorem activeCount_eq_zero (h : hasActiveTask ns doc t = false) : activeCount ns doc t = 0 := by
  rw [activeCount, changes_eq_zero]
  intro r hr
  simpa using List.any_eq_false.mp h r hr

theorem isActive_of_advanced {r r' : TaskRow} (h : Scheduler.Advanced r r') (hact : isActive ns doc r' = true) :
    isActive ns doc r = true := by
  obtain ⟨hns, hdoc, hne, htype, hlive⟩ := isActive_iff.mp hact
  have hdocId : r.docId = doc := by
    rcases h.docId with he | hc
    · exact he.symm.trans hdoc
    · rw [hc] at hlive
      cases hlive
  exact isActive_iff.mpr ⟨h.namespaceId.symm.trans hns, hdocId, hne, h.taskType.symm.trans htype, h.live hlive⟩

theorem activeCount_advances (h : Scheduler.Advances t t') : activeCount ns doc t' ≤ activeCount ns doc t := by
  obtain ⟨f, rfl, hf⟩ := h
  unfold activeCount changes
  rw [List.countP_map]
  apply List.countP_mono_left
  intro r hr hact
  exact isActive_of_advanced (hf r hr) hact

theorem advances_claim (taskId : String) (now : Int) : Scheduler.Advances t (tryClaimDebounceMerge taskId now t).1 := by
  rw [StatusMachine.tryClaimDebounceMerge_fst]
  exact Scheduler.advances_guardedUpdate fun _ _ => ⟨rfl, rfl, rfl, rfl, rfl, .inl rfl, .inl rfl⟩

/-- What a step outside the insert of the sweep does to the table: ids stay unique and no count grows. -/
structure Calm (t t' : Tasks) : Prop where
  keyed : Keyed (fun r => r.taskId) t → Keyed (fun r => r.taskId) t'
  count : ∀ ns doc, activeCount ns doc t' ≤ activeCount ns doc t

theorem Calm.refl (t : Tasks) : Calm t t := ⟨id, fun _ _ => le_refl _⟩

theorem Calm.of_advances (h : Scheduler.Advances t t') : Calm t t' :=
  ⟨fun hkey => h.keyed hkey, fun _ _ => activeCount_advances h⟩

theorem calm_refreshQueued (taskId : String) (req : SubmitRequest) (now : Int) :
    Calm t (refreshQueued taskId req now t).1 := by
  unfold refreshQueued
  rcases guardedUpdate_cases taskId (· == .queued) (refreshRow req now) (conflict taskId) t with
    ⟨r, hr, hid, hq, he⟩ | ⟨-, he⟩ <;> rw [he]
  · refine ⟨fun hkey => hkey.updateWhere fun _ _ => rfl, fun ns doc => ?_⟩
    apply changes_updateWhere_le
    intro r _ hst hact
    have hqueued := beq_iff_eq.mp (statusIn_iff.mp hst).2
    obtain ⟨hns, hdoc, hne, htype, -⟩ := isActive_iff.mp hact
    exact isActive_iff.mpr ⟨hns, hdoc, hne, htype, by rw [hqueued]; rfl⟩
  · exact Calm.refl t

theorem calm_requeueStaleProcessing (nowUnix zombieHours now : Int) :
    Calm t (requeueStaleProcessing nowUnix zombieHours now t).1 := by
  refine ⟨fun hkey => hkey.updateWhere fun _ _ => rfl, fun ns doc => ?_⟩
  apply changes_updateWhere_le
  intro r _ hst hact
  simp only [Bool.and_eq_true, beq_iff_eq] at hst
  obtain ⟨hns, hdoc, hne, htype, -⟩ := isActive_iff.mp hact
  exact isActive_iff.mpr ⟨hns, hdoc, hne, htype, by rw [hst.1]; rfl⟩

theorem calm_createOther {row : TaskRow} (htype : row.taskType ≠ kTaskEnrichBackfill) :
    Calm t ((insertRow (fun r => r.taskId) row t).getD t) := by
  rcases hins : insertRow (fun r : TaskRow => r.taskId) row t with _ | t'
  · exact Calm.refl t
  · refine ⟨fun hkey => hkey.insertRow hins, fun ns doc => ?_⟩
    obtain ⟨-, rfl⟩ := insertRow_eq_some.mp hins
    have hnot : isActive ns doc row = false := by
      rw [Bool.eq_false_iff]
      intro hact
      exact htype (isActive_iff.mp hact).2.2.2.1
    show changes _ (t ++ [row]) ≤ changes _ t
    simp [changes, hnot]

theorem calm_deleteExpired (cutoff : Int) :
    Calm t (deleteWhere (fun r => !r.status.live && decide (r.updatedAt < cutoff)) t) :=
  ⟨fun hkey => hkey.deleteWhere, fun _ _ => changes_deleteWhere_le⟩

/-! ## Steps on the tasks -/

/-- The document the sweep has found without a live task, and has not submitted yet. -/
def Sweep.claims : Sweep → Option (String × String)
  | .leasing p doc => some (p.ns, doc)
  | .calling p doc _ => some (p.ns, doc)
  | _ => none

/-- What a step does to the tasks and to the document the sweep is about to submit. -/
inductive Effect (s : State) (s' : State) : Prop
  | calm (htasks : Calm s.tasks s'.tasks) (hclaims : ∀ x, s'.sweep.claims = some x → s.sweep.claims = some x)
  | checked (p : Place) (doc : String) (htasks : s'.tasks = s.tasks) (hsweep : s'.sweep = .leasing p doc)
      (hnone : hasActiveTask p.ns doc s.tasks = false)
  | created (p : Place) (doc newId : String) (now : Int) (hsweep : s.sweep = .calling p doc .creating)
      (hnew : ∀ r ∈ s.tasks, r.taskId ≠ (backfillRow p.ns doc newId now).taskId)
      (htasks : s'.tasks = s.tasks ++ [backfillRow p.ns doc newId now]) (hsweep' : s'.sweep.claims = none)

variable {sweep : Sweep} {failed ok : Bool} {rows : List EnrichStateRow} {at_ : Int} {doc' : String}

theorem Effect.still {ledger : String → List EnrichStateRow}
    (hclaims : ∀ x, sweep.claims = some x → s.sweep.claims = some x) : Effect s { s with ledger, sweep } :=
  .calm (Calm.refl _) hclaims

theorem effect_checkStep (h : checkStep s failed = some s') : Effect s s' := by
  unfold checkStep at h
  split at h
  · split at h
    · split at h
      · cases h
      split at h
      · cases h
        exact .still nofun
      split at h
      · cases h
        exact .still nofun
      · rename_i hactive
        cases h
        exact .checked _ _ rfl rfl (Bool.eq_false_iff.mpr hactive)
    · cases h
  · cases h

theorem effect_leaseStep (h : leaseStep s ok = some s') : Effect s s' := by
  unfold leaseStep at h
  split at h
  · rename_i p doc hs
    split at h <;> cases h
    · refine .still ?_
      rintro x ⟨⟩
      rw [hs]
      rfl
    · exact .still nofun
  · cases h

theorem effect_lookupStep {answer : Lookup} (h : lookupStep s answer = some s') : Effect s s' := by
  unfold lookupStep at h
  split at h
  · rename_i p doc hs
    have hclaims : s.sweep.claims = some (p.ns, doc) := by
      rw [hs]
      rfl
    split at h
    · cases h
      exact .still nofun
    · cases h
      exact .still fun x hx => hclaims.trans hx
    · split at h <;> cases h
      exact .still fun x hx => hclaims.trans hx
  · cases h

theorem effect_claimStep {now : Int} (h : claimStep s now failed = some s') : Effect s s' := by
  unfold claimStep at h
  split at h
  · rename_i p doc r hs
    have hclaims : s.sweep.claims = some (p.ns, doc) := by
      rw [hs]
      rfl
    split at h
    · split at h
      · cases h
        exact .still fun x hx => hclaims.trans hx
      · have hadv := advances_claim (t := s.tasks) r.taskId now
        split at h <;> rename_i hclaim <;> cases h <;> rw [hclaim] at hadv
        · exact .calm (Calm.of_advances hadv) nofun
        · exact .calm (Calm.of_advances hadv) fun x hx => hclaims.trans hx
    · cases h
  · cases h

theorem effect_refreshStep {now : Int} {readOk : Bool} (h : refreshStep s now readOk = some s') : Effect s s' := by
  unfold refreshStep at h
  split at h
  · rename_i p doc r hs
    have hclaims : s.sweep.claims = some (p.ns, doc) := by
      rw [hs]
      rfl
    split at h
    · cases h
    · have hcalm := calm_refreshQueued (t := s.tasks) r.taskId (backfillRequest p.ns doc) now
      split at h <;> rename_i hrefresh <;> rw [hrefresh] at hcalm
      · split at h <;> cases h
        · exact .calm hcalm nofun
        · exact .calm hcalm fun x hx => hclaims.trans hx
      · cases h
        exact .calm hcalm fun x hx => hclaims.trans hx
  · cases h

theorem effect_createStep {newId : String} {now : Int} (h : createStep s newId now ok = some s') : Effect s s' := by
  unfold createStep at h
  split at h
  · rename_i p doc hs
    split at h
    · rcases createTask_cases (fun _ => none) newId now (Scheduler.requestTask (backfillRequest p.ns doc)) s.tasks with
        ⟨hnew, he⟩ | ⟨-, he⟩ <;> simp only [he] at h <;> cases h
      · exact .created p doc newId now hs hnew rfl rfl
      · exact .still nofun
    · cases h
      exact .still nofun
  · cases h

theorem effect_unleaseStep (h : unleaseStep s ok = some s') : Effect s s' := by
  unfold unleaseStep at h
  split at h
  · split at h <;> cases h
    · exact .still nofun
    · exact .still nofun
  · cases h

theorem effect_of_step (hkey : Keyed (fun r => r.taskId) s.tasks) (h : step s a = some s') : Effect s s' := by
  have hsame : ∀ x, s.sweep.claims = some x → s.sweep.claims = some x := fun _ hx => hx
  cases a with
  | check failed => exact effect_checkStep h
  | lease ok => exact effect_leaseStep h
  | lookup answer => exact effect_lookupStep h
  | claim now failed => exact effect_claimStep h
  | refresh now readOk => exact effect_refreshStep h
  | create newId now ok => exact effect_createStep h
  | unlease ok => exact effect_unleaseStep h
  | sweepStart namespaces now cap | skipNamespace | sweepReturn =>
    simp only [step] at h
    split at h <;> cases h
    exact .still nofun
  | enterNamespace due | leaveNamespace =>
    simp only [step] at h
    split at h
    · split at h <;> cases h
      exact .still nofun
    · cases h
  | sweepThrow =>
    cases h
    exact .still nofun
  | transition tr =>
    cases h
    exact .calm (Calm.of_advances (Scheduler.advances_transition hkey tr)) hsame
  | claimOther taskId now =>
    cases h
    exact .calm (Calm.of_advances (advances_claim taskId now)) hsame
  | refreshOther taskId req now =>
    cases h
    exact .calm (calm_refreshQueued taskId req now) hsame
  | createOther row =>
    simp only [step] at h
    split at h <;> cases h
    rename_i htype
    exact .calm (calm_createOther htype) hsame
  | deleteExpired cutoff =>
    cases h
    exact .calm (calm_deleteExpired cutoff) hsame
  | restart nowUnix zombieHours now requeued =>
    cases h
    refine .calm ?_ nofun
    show Calm s.tasks (if requeued then _ else _)
    split
    · exact calm_requeueStaleProcessing nowUnix zombieHours now
    · exact Calm.refl _
  | makeAllPendingDueNow ns now =>
    cases h
    exact .still hsame

/-! ## At most one -/

structure Deduped (s : State) : Prop where
  keyed : Keyed (fun r => r.taskId) s.tasks
  one : ∀ ns doc, activeCount ns doc s.tasks ≤ 1
  claimed : ∀ ns doc, s.sweep.claims = some (ns, doc) → activeCount ns doc s.tasks = 0

theorem activeCount_created (ns doc ns' doc' newId : String) (now : Int) (t : Tasks) :
    activeCount ns' doc' (t ++ [backfillRow ns doc newId now]) ≤
      activeCount ns' doc' t + if (ns', doc') = (ns, doc) then 1 else 0 := by
  show changes _ (t ++ [_]) ≤ changes _ t + _
  unfold changes
  rw [List.countP_append, List.countP_singleton]
  by_cases hact : isActive ns' doc' (backfillRow ns doc newId now) = true
  · obtain ⟨hns, hdoc, -⟩ := isActive_iff.mp hact
    have hsame : (ns', doc') = (ns, doc) := by
      rw [← hns, ← hdoc]
      rfl
    rw [if_pos hact, if_pos hsame]
  · simp [hact]

theorem Deduped.step (hi : Deduped s) (h : RetrySweeper.step s a = some s') : Deduped s' := by
  rcases effect_of_step hi.keyed h with ⟨htasks, hclaims⟩ | ⟨p, doc, htasks, hsweep, hnone⟩ |
    ⟨p, doc, newId, now, hsweep, hnew, htasks, hsweep'⟩
  · refine ⟨htasks.keyed hi.keyed, fun ns doc => ?_, fun ns doc hc => ?_⟩
    · have := htasks.count ns doc
      have := hi.one ns doc
      omega
    · have := htasks.count ns doc
      have := hi.claimed ns doc (hclaims _ hc)
      omega
  · refine ⟨htasks ▸ hi.keyed, fun ns doc => htasks ▸ hi.one ns doc, fun ns' doc' hc => ?_⟩
    rw [hsweep] at hc
    cases hc
    rw [htasks]
    exact activeCount_eq_zero hnone
  · have hzero : activeCount p.ns doc s.tasks = 0 := hi.claimed p.ns doc (by rw [hsweep]; rfl)
    refine ⟨?_, fun ns' doc' => ?_, fun ns' doc' hc => ?_⟩
    · rw [htasks]
      exact hi.keyed.insertRow (insertRow_eq_some.mpr ⟨hnew, rfl⟩)
    · have hle := activeCount_created p.ns doc ns' doc' newId now s.tasks
      rw [htasks]
      by_cases heq : (ns', doc') = (p.ns, doc)
      · cases heq
        rw [if_pos rfl] at hle
        omega
      · have := hi.one ns' doc'
        rw [if_neg heq] at hle
        omega
    · rw [hsweep'] at hc
      cases hc

theorem Deduped.run {acts : List Act} (hi : Deduped s) (h : Lib.run RetrySweeper.step s acts = some s') : Deduped s' :=
  run_inv (fun hi _ h => Deduped.step hi h) hi (along_true s acts) h

/-! ## Due documents -/

def docPending (doc : String) (rows : List EnrichStateRow) : Bool := rows.any fun r => r.docId == doc && r.isPending

theorem docDue_iff {now : Int} :
    docDue now doc rows = true ↔ ∃ r ∈ rows, r.docId = doc ∧ r.isPending = true ∧ ∃ n, r.nextRetryAt = some n ∧ n ≤ now := by
  simp [docDue, EnrichStateRow.due, Option.any_eq_true]

theorem docPending_iff : docPending doc rows = true ↔ ∃ r ∈ rows, r.docId = doc ∧ r.isPending = true := by
  simp [docPending]

theorem docPending_of_due {now : Int} (h : docDue now doc rows = true) : docPending doc rows = true := by
  obtain ⟨r, hr, hdoc, hp, -⟩ := docDue_iff.mp h
  exact docPending_iff.mpr ⟨r, hr, hdoc, hp⟩

theorem docPending_updateWhere {p : EnrichStateRow → Bool} {f : EnrichStateRow → EnrichStateRow}
    (hf : ∀ r, (f r).docId = r.docId ∧ (f r).status = r.status) (h : docPending doc rows = true) :
    docPending doc (updateWhere p f rows) = true := by
  obtain ⟨r, hr, hdoc, hp⟩ := docPending_iff.mp h
  refine docPending_iff.mpr ⟨_, mem_updateWhere_of_mem hr, ?_⟩
  split
  · refine ⟨(hf r).1.trans hdoc, ?_⟩
    unfold EnrichStateRow.isPending at hp ⊢
    rw [(hf r).2]
    exact hp
  · exact ⟨hdoc, hp⟩

theorem docDue_lease_other {now leaseUntil : Int} (hne : doc' ≠ doc) (h : docDue now doc rows = true) :
    docDue now doc (leaseDocRetries doc' leaseUntil at_ rows) = true := by
  obtain ⟨r, hr, hdoc, hdue⟩ := docDue_iff.mp h
  refine docDue_iff.mpr ⟨_, mem_updateWhere_of_mem hr, ?_⟩
  have hother : (r.docId == doc') = false := by
    rw [hdoc, beq_eq_false_iff_ne]
    exact Ne.symm hne
  simp only [hother, Bool.false_and]
  exact ⟨hdoc, hdue⟩

theorem docDue_unlease {now : Int} (h : docPending doc rows = true) :
    docDue now doc (leaseDocRetries doc now at_ rows) = true := by
  obtain ⟨r, hr, hdoc, hp⟩ := docPending_iff.mp h
  refine docDue_iff.mpr ⟨_, mem_updateWhere_of_mem hr, ?_⟩
  simp only [hdoc, hp, beq_self_eq_true, Bool.and_self, if_true]
  exact ⟨trivial, hp, now, rfl, le_refl now⟩

theorem docDue_makeAllPendingDueNow {now : Int} (h : docDue now doc rows = true) :
    docDue now doc (makeAllPendingDueNow at_ rows) = true := by
  obtain ⟨r, hr, hdoc, hp, n, hn, hle⟩ := docDue_iff.mp h
  refine docDue_iff.mpr ⟨_, mem_updateWhere_of_mem hr, ?_⟩
  by_cases hlater : at_ < n
  · simp only [hp, hn, Option.all_some, Bool.true_and, decide_eq_true hlater, if_true]
    exact ⟨hdoc, hp, at_, rfl, by omega⟩
  · simp only [hp, hn, Option.all_some, Bool.true_and, decide_eq_false hlater]
    exact ⟨hdoc, hp, n, hn, hle⟩

/-! ## Leases handed back -/

def Sweep.info : Sweep → Option SweepInfo
  | .idle => none
  | .namespaces info _ => some info
  | .docs p => some p.info
  | .leasing p _ => some p.info
  | .calling p _ _ => some p.info
  | .unleasing p _ => some p.info

/-- The document whose lease the sweep has taken and not settled. -/
def Sweep.holds : Sweep → Option (String × String)
  | .calling p doc _ => some (p.ns, doc)
  | .unleasing p doc => some (p.ns, doc)
  | _ => none

/-- The sweep goes on, and a lease it hands back is written. -/
def keepsSweep : Act → Bool
  | .sweepReturn => false
  | .sweepThrow => false
  | .restart _ _ _ _ => false
  | .unlease ok => ok
  | _ => true

structure Kept (now : Int) (ns doc : String) (s : State) : Prop where
  running : ∃ info, s.sweep.info = some info ∧ info.now = now ∧
    ((ns, doc) ∈ info.created ∨ docDue now doc (s.ledger ns) = true ∨
      s.sweep.holds = some (ns, doc) ∧ docPending doc (s.ledger ns) = true)

variable {now : Int}

theorem Kept.goOn {info' : SweepInfo} (hk : Kept now ns doc s) (hledger : s'.ledger = s.ledger)
    (hinfo' : s'.sweep.info = some info')
    (hinfo : ∀ info, s.sweep.info = some info → info'.now = info.now ∧ ∀ x ∈ info.created, x ∈ info'.created)
    (hholds : ∀ x, s.sweep.holds = some x → s'.sweep.holds = some x ∨ x ∈ info'.created) : Kept now ns doc s' := by
  obtain ⟨info, hi, hnow, hstate⟩ := hk.running
  obtain ⟨hnow', hsub⟩ := hinfo info hi
  refine ⟨info', hinfo', hnow'.trans hnow, ?_⟩
  rw [hledger]
  rcases hstate with hc | hd | ⟨hh, hp⟩
  · exact Or.inl (hsub _ hc)
  · exact Or.inr (Or.inl hd)
  · rcases hholds _ hh with hh' | hc
    · exact Or.inr (Or.inr ⟨hh', hp⟩)
    · exact Or.inl hc

theorem Kept.move {tasks : Tasks} {info : SweepInfo} (hk : Kept now ns doc s) (hinfo : s.sweep.info = some info)
    (hinfo' : sweep.info = some info) (hholds : ∀ x, s.sweep.holds = some x → sweep.holds = some x) :
    Kept now ns doc { s with tasks, sweep } := by
  refine hk.goOn rfl hinfo' ?_ fun x hx => Or.inl (hholds x hx)
  intro info₁ hi
  rw [hinfo] at hi
  cases hi
  exact ⟨rfl, fun _ hx => hx⟩

theorem Kept.call {p : Place} {c : Call} {tasks : Tasks} (hk : Kept now ns doc s) (hs : s.sweep = .calling p doc' c)
    (hinfo : sweep.info = some p.info) (hholds : sweep.holds = some (p.ns, doc')) :
    Kept now ns doc { s with tasks, sweep } := by
  refine hk.move (by rw [hs]; rfl) hinfo fun x hx => ?_
  rw [hs] at hx
  exact hholds.trans hx

theorem lease_ledger_same (s : State) (p : Place) (doc : String) (leaseUntil : Int) :
    (s.lease p doc leaseUntil).ledger p.ns = leaseDocRetries doc leaseUntil p.info.now (s.ledger p.ns) :=
  Function.update_self ..

theorem lease_ledger_other (s : State) (p : Place) (doc : String) (leaseUntil : Int) (hne : ns ≠ p.ns) :
    (s.lease p doc leaseUntil).ledger ns = s.ledger ns :=
  Function.update_of_ne hne ..

theorem docPending_lease {leaseUntil : Int} (h : docPending doc rows = true) :
    docPending doc (leaseDocRetries doc' leaseUntil at_ rows) = true :=
  docPending_updateWhere (fun _ => ⟨rfl, rfl⟩) h

theorem Kept.lease {p : Place} {leaseUntil : Int} (hk : Kept now ns doc s) (hinfo : s.sweep.info = some p.info)
    (hinfo' : sweep.info = some p.info) (hholds : s.sweep.holds = some (ns, doc) → (p.ns, doc') = (ns, doc))
    (hown : (p.ns, doc') = (ns, doc) → docPending doc (s.ledger ns) = true →
      docDue now doc ((s.lease p doc' leaseUntil).ledger ns) = true ∨ sweep.holds = some (ns, doc)) :
    Kept now ns doc { s.lease p doc' leaseUntil with sweep } := by
  obtain ⟨info, hi, hnow, hstate⟩ := hk.running
  rw [hinfo] at hi
  cases hi
  refine ⟨p.info, hinfo', hnow, ?_⟩
  rcases hstate with hc | hrest
  · exact Or.inl hc
  by_cases hsame : (p.ns, doc') = (ns, doc)
  · have hp : docPending doc (s.ledger ns) = true := by
      rcases hrest with hd | ⟨-, hp⟩
      · exact docPending_of_due hd
      · exact hp
    rcases hown hsame hp with hd | hh
    · exact Or.inr (Or.inl hd)
    · refine Or.inr (Or.inr ⟨hh, ?_⟩)
      cases hsame
      show docPending doc ((s.lease p doc leaseUntil).ledger p.ns) = true
      rw [lease_ledger_same]
      exact docPending_lease hp
  · rcases hrest with hd | ⟨hh, -⟩
    · refine Or.inr (Or.inl ?_)
      show docDue now doc ((s.lease p doc' leaseUntil).ledger ns) = true
      by_cases hns : ns = p.ns
      · subst hns
        rw [lease_ledger_same]
        exact docDue_lease_other (fun he => hsame (by rw [he])) hd
      · rw [lease_ledger_other s p doc' leaseUntil hns]
        exact hd
    · exact absurd (hholds hh) hsame

theorem Kept.checkStep (hk : Kept now ns doc s) (h : checkStep s failed = some s') : Kept now ns doc s' := by
  unfold RetrySweeper.checkStep at h
  split at h
  · rename_i p hs
    have hinfo : s.sweep.info = some p.info := by rw [hs]; rfl
    have hholds : s.sweep.holds = none := by rw [hs]; rfl
    split at h
    · split at h
      · cases h
      split at h
      · cases h
        exact hk.move hinfo rfl (by rw [hholds]; nofun)
      split at h <;> cases h
      · exact hk.move hinfo rfl (by rw [hholds]; nofun)
      · exact hk.move hinfo rfl (by rw [hholds]; nofun)
    · cases h
  · cases h

theorem Kept.leaseStep (hk : Kept now ns doc s) (h : leaseStep s ok = some s') : Kept now ns doc s' := by
  unfold RetrySweeper.leaseStep at h
  split at h
  · rename_i p doc' hs
    have hinfo : s.sweep.info = some p.info := by rw [hs]; rfl
    have hholds : s.sweep.holds = none := by rw [hs]; rfl
    split at h <;> cases h
    · refine hk.lease hinfo rfl (by rw [hholds]; nofun) fun hsame _ => Or.inr ?_
      rw [← hsame]
      rfl
    · exact hk.move hinfo rfl (by rw [hholds]; nofun)
  · cases h

theorem Kept.lookupStep {answer : Lookup} (hk : Kept now ns doc s) (h : lookupStep s answer = some s') :
    Kept now ns doc s' := by
  unfold RetrySweeper.lookupStep at h
  split at h
  · rename_i p doc' hs
    split at h
    · cases h
      exact hk.call hs rfl rfl
    · cases h
      exact hk.call hs rfl rfl
    · split at h <;> cases h
      exact hk.call hs rfl rfl
  · cases h

theorem Kept.claimStep (hk : Kept now ns doc s) (h : claimStep s at_ failed = some s') : Kept now ns doc s' := by
  unfold RetrySweeper.claimStep at h
  split at h
  · rename_i p doc' r hs
    split at h
    · split at h
      · cases h
        exact hk.call hs rfl rfl
      · split at h <;> cases h
        · exact hk.call hs rfl rfl
        · exact hk.call hs rfl rfl
    · cases h
  · cases h

theorem Kept.refreshStep {readOk : Bool} (hk : Kept now ns doc s) (h : refreshStep s at_ readOk = some s') :
    Kept now ns doc s' := by
  unfold RetrySweeper.refreshStep at h
  split at h
  · rename_i p doc' r hs
    split at h
    · cases h
    · split at h
      · split at h <;> cases h
        · exact hk.call hs rfl rfl
        · exact hk.call hs rfl rfl
      · cases h
        exact hk.call hs rfl rfl
  · cases h

theorem Kept.createStep {newId : String} (hk : Kept now ns doc s) (h : createStep s newId at_ ok = some s') :
    Kept now ns doc s' := by
  unfold RetrySweeper.createStep at h
  split at h
  · rename_i p doc' hs
    have hinfo : s.sweep.info = some p.info := by rw [hs]; rfl
    have hholds : s.sweep.holds = some (p.ns, doc') := by rw [hs]; rfl
    split at h
    · split at h <;> cases h
      · -- the lease is settled by the task
        have hinfo' : (Sweep.docs (p.create doc')).info = some (p.create doc').info := rfl
        refine hk.goOn rfl hinfo' ?_ ?_
        · intro info hi
          rw [hinfo] at hi
          cases hi
          exact ⟨rfl, fun x hx => List.mem_append_left _ hx⟩
        · intro x hx
          rw [hholds] at hx
          cases hx
          exact Or.inr (List.mem_append_right _ (List.mem_singleton_self _))
      · exact hk.call hs rfl rfl
    · cases h
      exact hk.call hs rfl rfl
  · cases h

theorem Kept.unleaseStep (hk : Kept now ns doc s) (h : unleaseStep s true = some s') : Kept now ns doc s' := by
  unfold RetrySweeper.unleaseStep at h
  split at h
  · rename_i p doc' hs
    have hinfo : s.sweep.info = some p.info := by rw [hs]; rfl
    have hholds : s.sweep.holds = some (p.ns, doc') := by rw [hs]; rfl
    obtain ⟨info, hi, hnow, -⟩ := hk.running
    rw [hinfo] at hi
    cases hi
    rw [if_pos rfl] at h
    cases h
    refine hk.lease hinfo rfl (fun hh => Option.some.inj (hholds.symm.trans hh)) fun hsame hp => Or.inl ?_
    cases hsame
    rw [lease_ledger_same, hnow]
    exact docDue_unlease hp
  · cases h

theorem Kept.step (hk : Kept now ns doc s) (hkeeps : keepsSweep a = true) (h : RetrySweeper.step s a = some s') :
    Kept now ns doc s' := by
  -- a step on the tasks only
  have htasks : ∀ tasks, Kept now ns doc { s with tasks } := by
    intro tasks
    obtain ⟨info, hi, -⟩ := hk.running
    exact hk.move hi hi fun _ hx => hx
  cases a with
  | check failed => exact hk.checkStep h
  | lease ok => exact hk.leaseStep h
  | lookup answer => exact hk.lookupStep h
  | claim now failed => exact hk.claimStep h
  | refresh now readOk => exact hk.refreshStep h
  | create newId now ok => exact hk.createStep h
  | unlease ok =>
    rw [show ok = true from hkeeps] at h
    exact hk.unleaseStep h
  | sweepStart namespaces now cap =>
    obtain ⟨info, hi, -⟩ := hk.running
    simp only [RetrySweeper.step] at h
    split at h
    · rename_i hidle
      rw [hidle] at hi
      cases hi
    · cases h
  | skipNamespace =>
    simp only [RetrySweeper.step] at h
    split at h <;> cases h
    rename_i hs
    exact hk.move (by rw [hs]; rfl) rfl (by rw [hs]; nofun)
  | enterNamespace due | leaveNamespace =>
    simp only [RetrySweeper.step] at h
    split at h
    · rename_i hs
      split at h <;> cases h
      exact hk.move (by rw [hs]; rfl) rfl (by rw [hs]; nofun)
    · cases h
  | sweepReturn | sweepThrow => cases hkeeps
  | transition tr | claimOther taskId now | refreshOther taskId req now | deleteExpired cutoff =>
    cases h
    exact htasks _
  | createOther row =>
    simp only [RetrySweeper.step] at h
    split at h <;> cases h
    exact htasks _
  | restart nowUnix zombieHours now requeued => cases hkeeps
  | makeAllPendingDueNow ns' at_ =>
    cases h
    obtain ⟨info, hi, hnow, hstate⟩ := hk.running
    refine ⟨info, hi, hnow, ?_⟩
    dsimp only
    by_cases hns : ns = ns'
    · subst hns
      rw [Function.update_self]
      rcases hstate with hc | hd | ⟨hh, hp⟩
      · exact Or.inl hc
      · exact Or.inr (Or.inl (docDue_makeAllPendingDueNow hd))
      · exact Or.inr (Or.inr ⟨hh, docPending_updateWhere (fun _ => ⟨rfl, rfl⟩) hp⟩)
    · rw [Function.update_of_ne hns]
      exact hstate

theorem Kept.run {acts : List Act} (hk : Kept now ns doc s)
    (hkeeps : Along RetrySweeper.step (fun _ a => keepsSweep a = true) s acts)
    (h : Lib.run RetrySweeper.step s acts = some s') : Kept now ns doc s' :=
  run_inv (fun hk hq h => Kept.step hk hq h) hk hkeeps h

/-! ## Every run -/

/-- From a table without two live backfill tasks of one document: no run leads to one, and a document that is due at the
time of a running sweep has got a task of this sweep, or is due at that time still, when the sweep returns. -/
theorem one_backfill_task (tasks : Tasks) (ledger : String → List EnrichStateRow) (acts : List Act) (s : State)
    (hkey : Keyed (fun r => r.taskId) tasks) (hone : ∀ ns doc, activeCount ns doc tasks ≤ 1)
    (hrun : run step (State.init tasks ledger) acts = some s) :
    (∀ ns doc, activeCount ns doc s.tasks ≤ 1) ∧
    ∀ ns doc info rest s₁ s₂, s.sweep.info = some info → docDue info.now doc (s.ledger ns) = true →
      Along step (fun _ a => keepsSweep a = true) s rest → run step s rest = some s₁ → step s₁ .sweepReturn = some s₂ →
      (∃ info₁, s₁.sweep.info = some info₁ ∧ (ns, doc) ∈ info₁.created) ∨ docDue info.now doc (s₂.ledger ns) = true := by
  have hinit : Deduped (State.init tasks ledger) := ⟨hkey, hone, nofun⟩
  have hi := hinit.run hrun
  refine ⟨hi.one, ?_⟩
  intro ns doc info rest s₁ s₂ hinfo hdue hkeeps hrest hreturn
  have hk : Kept info.now ns doc s := ⟨info, hinfo, rfl, Or.inr (Or.inl hdue)⟩
  obtain ⟨info₁, hinfo₁, -, hstate⟩ := (hk.run hkeeps hrest).running
  simp only [step] at hreturn
  split at hreturn <;> cases hreturn
  rename_i hs₁
  rcases hstate with hc | hd | ⟨hh, -⟩
  · exact Or.inl ⟨info₁, hinfo₁, hc⟩
  · exact Or.inr hd
  · rw [hs₁] at hh
    cases hh

/-! ## A sweep after the lease has run out -/

def owing : EnrichStateRow := ⟨7, "d", "c7", .pendingRetry, "f03", 1, utf8 "timeout".toList, some 100, 90, 0⟩

/-- A first sweep creates the task of the document; a second one, at the end of the lease, has listed it again. -/
def sweptTwice : List Act :=
  [.sweepStart ["n"] 100 32, .enterNamespace ["d"], .check false, .lease true, .lookup (.answer 5 100 none),
   .create "t1" 100000 true, .leaveNamespace, .sweepReturn, .sweepStart ["n"] 800 32, .enterNamespace ["d"]]

theorem one_backfill_task_sweptTwice : ∃ s s₁ s₂, run step (State.init [] fun _ => [owing]) sweptTwice = some s ∧
    run step s [.check false, .leaveNamespace] = some s₁ ∧ step s₁ .sweepReturn = some s₂ ∧
    activeCount "n" "d" s.tasks = 1 ∧ (∀ ns doc, activeCount ns doc s.tasks ≤ 1) ∧
    docDue 800 "d" (s₂.ledger "n") = true := by
  have hmain := one_backfill_task [] (fun _ => [owing]) sweptTwice _ Keyed.nil (fun _ _ => Nat.zero_le 1) rfl
  refine ⟨_, _, _, rfl, rfl, rfl, by decide, hmain.1, ?_⟩
  refine (hmain.2 "n" "d" ⟨800, 32, []⟩ [.check false, .leaveNamespace] _ _ rfl (by decide) (by decide) rfl
    rfl).resolve_left ?_
  rintro ⟨info₁, ⟨⟩, hmem⟩
  cases hmem

end Cortrix.Spc.RetrySweeper
