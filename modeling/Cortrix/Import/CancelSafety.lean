import Cortrix.Import.ImportTaskQueue
import Mathlib.Data.List.Perm.Lattice

/-!
# The import queue keeps its count and its cancels

* `Sound s` : the flags are those of the tasks in hand, each under its own; a full queue has `queue_max_size` tasks in
  hand; a task whose flag a `Cancel` set in time ends cancelled. `Legal t t'` : the statuses moved along `Edge`;
* `Clean s a` : no second `Submit` of a task in hand, no `Cancel` takes a task that is still queued, none sets
  `cancelling` while the worker is between a read of the row and the write of it.
-/

namespace Cortrix.Import
open Lib

/-- Submitted, and neither refused nor at the end of its run. -/
def Phase.inHand : Phase → Bool
  | .rejected => false
  | .ended => false
  | _ => true

/-- The row of the task is the call's. -/
def Phase.isJob : Phase → Bool
  | .creating _ _ => false
  | .rollingBack => false
  | .rejected => false
  | _ => true

/-- The flag the call has registered and not erased. -/
def Call.held (c : Call) : Option (String × Nat) := if c.phase.inHand then some (c.taskId, c.flag) else none

def Call.job (c : Call) : Option String := if c.phase.isJob then some c.taskId else none

/-- The row of the call has not got its last status. -/
def Phase.unwritten : Phase → Bool
  | .erasing => false
  | p => p.isJob && p.inHand

structure Sound (s : State) : Prop where
  /-- A `Cancel` of a task in hand finds the flag its worker looks at. -/
  registered : ∀ c ∈ s.calls, c.phase.inHand = true → lookup Prod.fst c.taskId s.flags = some (c.taskId, c.flag)
  exact : ∀ e ∈ s.flags, ∃ c ∈ s.calls, c.phase.inHand = true ∧ (c.taskId, c.flag) = e
  full : s.full = true → s.queueMaxSize ≤ (s.calls.filter fun c => c.phase.inHand).length
  cancelled : ∀ id ∈ s.cancelled, (∃ r, get id s.store = some r ∧ r.status = .kCancelled) ∨
    ∃ c ∈ s.calls, c.taskId = id ∧ c.phase.unwritten = true

/-- No row goes, a new one is queued, and a status moves along `Edge`. -/
structure Legal (t t' : Store) : Prop where
  moves : ∀ id r, get id t = some r → ∃ r', get id t' = some r' ∧ (r'.status = r.status ∨ Edge r.status r'.status = true)
  born : ∀ id r', get id t = none → get id t' = some r' → r'.status = .kQueued

/-- The worker has read the row and overwrites it next, with the status it read. -/
def Phase.midWrite : Phase → Bool
  | .stamping _ => true
  | .reporting _ _ _ => true
  | _ => false

/-- A `Cancel` call does not take a queued task, and does not set `cancelling` behind the read of a worker. -/
def CancelCall.Clean (s : State) (c : CancelCall) : Prop :=
  (c.phase = .casQueued → ∀ r ∈ get c.taskId s.store, r.status ≠ .kQueued) ∧
  (c.phase = .casRunning → ∀ x ∈ s.calls, x.taskId = c.taskId → x.phase.midWrite = false)

def Clean (s : State) : Act → Prop
  | .submit taskId _ _ => s.full = true ∨ lookup Prod.fst taskId s.flags = none
  | .runCancel k => ∀ c ∈ s.cancels[k]?, c.Clean s
  | _ => True

instance (s : State) (c : CancelCall) : Decidable (c.Clean s) := inferInstanceAs (Decidable (_ ∧ _))

instance (s : State) : ∀ a, Decidable (Clean s a)
  | .submit _ _ _ => inferInstanceAs (Decidable (_ ∨ _))
  | .runCancel k => inferInstanceAs (Decidable (∀ c ∈ s.cancels[k]?, c.Clean s))
  | .run _ _ => .isTrue trivial
  | .report _ _ _ => .isTrue trivial
  | .workReturns _ _ => .isTrue trivial
  | .cancel _ => .isTrue trivial

/-! ## The task store -/

variable {id : String} {r r' : ImportTaskProgress} {t t' : Store}

theorem get_taskId (h : get id t = some r) : r.taskId = id := (lookup_eq_some h).2

theorem get_update (k : String) (r : ImportTaskProgress) (t : Store) :
    get k (update r t) = if k = r.taskId then (get k t).map fun _ => r else get k t := by
  unfold get update
  rw [lookup_updateWhere_of]
  · split
    · rename_i hk
      rcases hl : lookup ImportTaskProgress.taskId k t with - | x
      · rfl
      · have hx : x.taskId = r.taskId := (lookup_eq_some hl).2.trans hk
        simp [hx]
    · rename_i hk
      rcases hl : lookup ImportTaskProgress.taskId k t with - | x
      · rfl
      · have hx : x.taskId ≠ r.taskId := fun heq => hk ((lookup_eq_some hl).2.symm.trans heq)
        simp [hx]
  · intro x hx
    exact (beq_iff_eq.mp hx).symm

variable {task : ImportTaskProgress} {raised : List Nat}

theorem get_create (h : create task t = some t') :
    get task.taskId t = none ∧ get task.taskId t' = some task ∧ ∀ k, k ≠ task.taskId → get k t' = get k t := by
  obtain ⟨hne, rfl⟩ := insertRow_eq_some.mp h
  have hnone : get task.taskId t = none := lookup_eq_none.mpr hne
  unfold get lookup at hnone ⊢
  refine ⟨hnone, ?_, fun k hk => ?_⟩
  · rw [List.find?_append, hnone]
    simp
  · rw [List.find?_append]
    simp [hk.symm]

theorem create_eq_none (h : create task t = none) : ∃ r, get task.taskId t = some r := by
  obtain ⟨r, hr, hk⟩ := insertRow_eq_none.mp h
  rw [← Option.isSome_iff_exists, Option.isSome_iff_ne_none]
  exact fun hnone => lookup_eq_none.mp hnone r hr hk

theorem compareAndSetStatus_spec {expected next : ImportTaskStatus} {b : Bool}
    (h : compareAndSetStatus id expected next t = (t', b)) :
    (b = true ∧ ∃ r, get id t = some r ∧ r.status = expected ∧ t' = update { r with status := next } t) ∨
      (b = false ∧ t' = t ∧ ∀ r, get id t = some r → r.status ≠ expected) := by
  unfold compareAndSetStatus at h
  split at h
  · rename_i r hr
    split at h
    · rename_i hst
      cases h
      exact .inl ⟨rfl, r, hr, hst, rfl⟩
    · rename_i hst
      cases h
      refine .inr ⟨rfl, rfl, fun x hx => ?_⟩
      rw [hr, Option.some.injEq] at hx
      rw [← hx]
      exact hst
  · rename_i hr
    cases h
    refine .inr ⟨rfl, rfl, fun x hx => ?_⟩
    rw [hr] at hx
    cases hx

theorem Legal.refl (t : Store) : Legal t t := by
  refine ⟨fun id r hr => ⟨r, hr, .inl rfl⟩, fun id r' hnone hr => ?_⟩
  rw [hnone] at hr
  cases hr

structure Moved (id : String) (t t' : Store) : Prop where
  others : ∀ k, k ≠ id → get k t' = get k t
  legal : Legal t t'

theorem Moved.refl (id : String) (t : Store) : Moved id t t := ⟨fun _ _ => rfl, .refl t⟩

theorem Moved.update (hr : get id t = some r) (hid : r'.taskId = id)
    (hmove : r'.status = r.status ∨ Edge r.status r'.status = true) : Moved id t (update r' t) := by
  subst hid
  refine ⟨fun k hk => by rw [get_update, if_neg hk], fun k x hx => ?_, fun k x hnone hx => ?_⟩
  · rw [get_update]
    split
    · rename_i hk
      rw [hk, hr] at hx
      cases hx
      exact ⟨r', by rw [hk, hr]; rfl, hmove⟩
    · exact ⟨x, hx, .inl rfl⟩
  · rw [get_update, hnone] at hx
    split at hx <;> cases hx

theorem Moved.create (h : create task t = some t') (hst : task.status = .kQueued) : Moved task.taskId t t' := by
  obtain ⟨hnone, hnew, hothers⟩ := get_create h
  refine ⟨hothers, fun k x hx => ?_, fun k x hx hx' => ?_⟩
  · by_cases hk : k = task.taskId
    · rw [hk, hnone] at hx
      cases hx
    · exact ⟨x, by rw [hothers k hk, hx], .inl rfl⟩
  · by_cases hk : k = task.taskId
    · rw [hk, hnew, Option.some.injEq] at hx'
      rw [← hx']
      exact hst
    · rw [hothers k hk, hx] at hx'
      cases hx'

/-! ## The invariant -/

def Active (st : ImportTaskStatus) : Prop := st = .kRunning ∨ st = .kCancelling

def Terminal (st : ImportTaskStatus) : Prop := st = .kCompleted ∨ st = .kFailed ∨ st = .kCancelled

def RowIs (id : String) (P : ImportTaskStatus → Prop) (t : Store) : Prop := ∃ r, get id t = some r ∧ P r.status

def RowOk (t : Store) (c : Call) : Prop :=
  match c.phase with
  | .creating _ _ => True
  | .rollingBack => RowIs c.taskId (fun _ => True) t
  | .rejected => RowIs c.taskId (fun _ => True) t
  | .queued => RowIs c.taskId (· = .kQueued) t
  | .starting => RowIs c.taskId (· = .kQueued) t
  | .refused => False
  | .settling => False
  | .started => RowIs c.taskId Active t
  | .stamping row => get c.taskId t = some row ∧ Active row.status
  | .working => RowIs c.taskId Active t
  | .reporting row _ _ => get c.taskId t = some row ∧ Active row.status
  | .checking _ => RowIs c.taskId Active t
  | .finalizing terminal _ => RowIs c.taskId Active t ∧ Terminal terminal
  | .writing row terminal _ => RowIs c.taskId Active t ∧ row.taskId = c.taskId ∧ Terminal terminal
  | .erasing => RowIs c.taskId Terminal t
  | .ended => RowIs c.taskId Terminal t

def Doomed (raised : List Nat) (t : Store) (c : Call) : Prop :=
  match c.phase with
  | .creating _ _ => False
  | .rollingBack => False
  | .rejected => False
  | .finalizing terminal _ => terminal = .kCancelled
  | .writing _ terminal _ => terminal = .kCancelled
  | .erasing => RowIs c.taskId (· = .kCancelled) t
  | .ended => RowIs c.taskId (· = .kCancelled) t
  | _ => c.flag ∈ raised

/-- A `Cancel` found this flag of the task. -/
structure Found (s : State) (id : String) (f : Nat) : Prop where
  origin : (∃ x ∈ s.calls, x.held = some (id, f)) ∨ RowIs id (fun _ => True) s.store
  own : ∀ y ∈ s.calls, ∀ g, y.held = some (id, g) → g = f ∨ RowIs id (fun _ => True) s.store ∧ y.job = none

structure Inv (s : State) : Prop where
  held : s.flags.Perm (s.calls.filterMap Call.held)
  flagKeys : Keyed Prod.fst s.flags
  jobs : (s.calls.filterMap Call.job).Nodup
  rows : ∀ c ∈ s.calls, RowOk s.store c
  doomed : ∀ id ∈ s.cancelled, ∃ c ∈ s.calls, c.taskId = id ∧ Doomed s.raised s.store c
  found : ∀ k ∈ s.cancels, ∀ f ∈ k.flag, Found s k.taskId f

theorem inv_init (n : Int) : Inv (init n) :=
  ⟨.refl _, .nil, List.nodup_nil, fun _ h => absurd h List.not_mem_nil, fun _ h => absurd h List.not_mem_nil,
    fun _ h => absurd h List.not_mem_nil⟩

variable {s s' : State} {c c' x : Call} {others cs : List Call} {P Q : ImportTaskStatus → Prop}

theorem RowIs.mono (h : RowIs id P t) (hpq : ∀ st, P st → Q st) : RowIs id Q t := by
  obtain ⟨r, hr, hp⟩ := h
  exact ⟨r, hr, hpq _ hp⟩

theorem RowIs.legal (h : RowIs id P t) (hl : Legal t t') : RowIs id (fun _ => True) t' := by
  obtain ⟨r, hr, -⟩ := h
  obtain ⟨r', hr', -⟩ := hl.moves id r hr
  exact ⟨r', hr', trivial⟩

theorem rowIs_update (hr : get id t = some r) (hid : r'.taskId = id) : RowIs id P (update r' t) ↔ P r'.status := by
  unfold RowIs
  rw [get_update, if_pos hid.symm, hr]
  simp

theorem rowIs_setStatus {st : ImportTaskStatus} (hr : get id t = some r) (hst : P st) :
    RowIs id P (update { r with status := st } t) := by
  have hid : r.taskId = id := get_taskId hr
  have hrow : RowIs id P (update { r with status := st } t) ↔ P st := rowIs_update hr hid
  exact hrow.mpr hst

theorem rowOk_congr (h : get c.taskId t' = get c.taskId t) : RowOk t' c ↔ RowOk t c := by
  unfold RowOk RowIs
  rw [h]

theorem doomed_congr (h : get c.taskId t' = get c.taskId t) : Doomed raised t' c ↔ Doomed raised t c := by
  unfold Doomed RowIs
  rw [h]

theorem Call.held_eq_some {e : String × Nat} : c.held = some e ↔ c.phase.inHand = true ∧ (c.taskId, c.flag) = e := by
  unfold Call.held
  split <;> simp_all

theorem Call.job_eq_some {k : String} : c.job = some k ↔ c.phase.isJob = true ∧ c.taskId = k := by
  unfold Call.job
  split <;> simp_all

theorem Doomed.isJob (h : Doomed raised t c) : c.job = some c.taskId := by
  refine Call.job_eq_some.mpr ⟨?_, rfl⟩
  unfold Doomed at h
  rcases hp : c.phase <;> rw [hp] at h <;> first | rfl | exact h.elim

theorem Call.rejected_of (hheld : c.held = none) (hjob : c.job = none) : c.phase = .rejected := by
  unfold Call.held at hheld
  unfold Call.job at hjob
  rcases hp : c.phase <;> rw [hp] at hheld hjob <;> simp_all [Phase.inHand, Phase.isJob]

theorem RowOk.rowIs (h : RowOk t c) (hp : c.phase.isJob = true ∨ c.phase = .rollingBack ∨ c.phase = .rejected) :
    RowIs c.taskId (fun _ => True) t := by
  unfold RowOk at h
  have hany : ∀ {P}, RowIs c.taskId P t → RowIs c.taskId (fun _ => True) t := fun hP => hP.mono fun _ _ => trivial
  rcases hphase : c.phase <;> rw [hphase] at h hp
  case creating => simp [Phase.isJob] at hp
  case refused => exact h.elim
  case settling => exact h.elim
  case stamping row => exact ⟨row, h.1, trivial⟩
  case reporting row _ _ => exact ⟨row, h.1, trivial⟩
  case finalizing => exact hany h.1
  case writing => exact hany h.1
  all_goals exact hany h

/-! ## What keeps the invariant -/

theorem Inv.perm (h : Inv s) (hp : s.calls.Perm cs) : Inv { s with calls := cs } := by
  refine ⟨h.held.trans (hp.filterMap _), h.flagKeys, (hp.filterMap Call.job).nodup_iff.mp h.jobs,
    fun c hc => h.rows c (hp.mem_iff.mpr hc), fun id hid => ?_, fun k hk f hf => ?_⟩
  · obtain ⟨c, hc, hd⟩ := h.doomed id hid
    exact ⟨c, hp.mem_iff.mp hc, hd⟩
  · obtain ⟨horigin, hown⟩ := h.found k hk f hf
    refine ⟨horigin.imp_left ?_, fun y hy => hown y (hp.mem_iff.mpr hy)⟩
    rintro ⟨x, hx, heq⟩
    exact ⟨x, hp.mem_iff.mp hx, heq⟩

theorem Inv.held_ne (h : Inv { s with calls := c :: others }) (hc : c.phase.inHand = true) (hx : x ∈ others)
    (hid : x.taskId = c.taskId) : x.held = none := by
  have hkeys := h.flagKeys
  unfold Keyed at hkeys
  have hheld : c.held = some (c.taskId, c.flag) := Call.held_eq_some.mpr ⟨hc, rfl⟩
  rw [(h.held.map Prod.fst).nodup_iff, List.filterMap_cons_some hheld, List.map_cons, List.nodup_cons] at hkeys
  rw [Option.eq_none_iff_forall_ne_some]
  rintro ⟨k, g⟩ hheldx
  obtain ⟨-, heq⟩ := Call.held_eq_some.mp hheldx
  apply hkeys.1
  rw [← hid, show x.taskId = k from congrArg Prod.fst heq]
  exact List.mem_map.mpr ⟨(k, g), List.mem_filterMap.mpr ⟨x, hx, hheldx⟩, rfl⟩

theorem Inv.job_ne (h : Inv { s with calls := c :: others }) (hc : c.phase.isJob = true) (hx : x ∈ others)
    (hid : x.taskId = c.taskId) : x.job = none := by
  have hjobs := h.jobs
  have hjob : c.job = some c.taskId := Call.job_eq_some.mpr ⟨hc, rfl⟩
  rw [List.filterMap_cons_some hjob, List.nodup_cons] at hjobs
  rw [Option.eq_none_iff_forall_ne_some]
  intro k hjobx
  obtain ⟨-, rfl⟩ := Call.job_eq_some.mp hjobx
  exact hjobs.1 (hid ▸ List.mem_filterMap.mpr ⟨x, hx, hjobx⟩)

theorem Inv.rejected_of_same (h : Inv { s with calls := c :: others }) (hhand : c.phase.inHand = true)
    (hjob : c.phase.isJob = true) (hx : x ∈ others) (hid : x.taskId = c.taskId) : x.phase = .rejected :=
  Call.rejected_of (h.held_ne hhand hx hid) (h.job_ne hjob hx hid)

theorem RowOk.of_moved (h : RowOk t x) (hm : Moved id t t') (hid : x.taskId = id → x.phase = .rejected) :
    RowOk t' x := by
  by_cases heq : x.taskId = id
  · have hphase := hid heq
    have hrow : RowIs x.taskId (fun _ => True) t' := (h.rowIs (.inr (.inr hphase))).legal hm.legal
    unfold RowOk
    rw [hphase]
    exact hrow
  · exact (rowOk_congr (hm.others _ heq)).mpr h

theorem Doomed.of_moved (h : Doomed raised t x) (hm : Moved id t t') (hid : x.taskId = id → x.phase = .rejected) :
    Doomed raised t' x := by
  by_cases heq : x.taskId = id
  · unfold Doomed at h
    rw [hid heq] at h
    exact h.elim
  · exact (doomed_congr (hm.others _ heq)).mpr h

theorem Found.move {f : Nat} (h : Found { s with calls := c :: others } id f) (hheld : c'.held = c.held)
    (hjob : c'.job = c.job) (hl : Legal s.store t') : Found { s with store := t', calls := c' :: others } id f := by
  obtain ⟨horigin, hown⟩ := h
  refine ⟨?_, ?_⟩
  · rcases horigin with ⟨x, hx, hxheld⟩ | hrow
    · left
      rcases List.mem_cons.mp hx with rfl | hx
      · exact ⟨c', List.mem_cons_self, hheld.trans hxheld⟩
      · exact ⟨x, List.mem_cons_of_mem _ hx, hxheld⟩
    · exact .inr (hrow.legal hl)
  · intro y hy g hg
    rcases List.mem_cons.mp hy with rfl | hy
    · rw [hheld] at hg
      rw [hjob]
      exact (hown c List.mem_cons_self g hg).imp_right fun hrow => ⟨hrow.1.legal hl, hrow.2⟩
    · exact (hown y (List.mem_cons_of_mem _ hy) g hg).imp_right fun hrow => ⟨hrow.1.legal hl, hrow.2⟩

theorem Inv.move (h : Inv { s with calls := c :: others }) (htask : c'.taskId = c.taskId) (hheld : c'.held = c.held)
    (hjob : c'.job = c.job) (hm : Moved c.taskId s.store t')
    (hsame : t' = s.store ∨ c.phase.inHand = true ∧ c.phase.isJob = true) (hrow : RowOk t' c')
    (hdoomed : Doomed s.raised s.store c → Doomed s.raised t' c') :
    Inv { s with store := t', calls := c' :: others } := by
  refine ⟨?_, h.flagKeys, ?_, ?_, fun id hid => ?_, fun k hk f hf => (h.found k hk f hf).move hheld hjob hm.legal⟩
  · have hperm := h.held
    rw [List.filterMap_cons] at hperm ⊢
    rw [hheld]
    exact hperm
  · have hjobs := h.jobs
    rw [List.filterMap_cons] at hjobs ⊢
    rw [hjob]
    exact hjobs
  · rw [List.forall_mem_cons]
    refine ⟨hrow, fun x hx => ?_⟩
    have hx' := h.rows x (List.mem_cons_of_mem _ hx)
    rcases hsame with rfl | ⟨hhand, hisJob⟩
    · exact hx'
    · exact hx'.of_moved hm fun hid => h.rejected_of_same hhand hisJob hx hid
  · obtain ⟨x, hx, hxid, hd⟩ := h.doomed id hid
    rcases List.mem_cons.mp hx with rfl | hx
    · exact ⟨c', List.mem_cons_self, htask.trans hxid, hdoomed hd⟩
    · refine ⟨x, List.mem_cons_of_mem _ hx, hxid, ?_⟩
      rcases hsame with rfl | ⟨hhand, hisJob⟩
      · exact hd
      · exact hd.of_moved hm fun hid => h.rejected_of_same hhand hisJob hx hid

theorem Inv.created (h : Inv { s with calls := c :: others }) (hhand : c.phase.inHand = true) (hjob : c.job = none)
    (hid : task.taskId = c.taskId) (hst : task.status = .kQueued) (hcreate : create task s.store = some t') :
    Inv { s with store := t', calls := { c with phase := .queued } :: others } := by
  obtain ⟨hnone, hnew, -⟩ := get_create hcreate
  have hm := Moved.create hcreate hst
  rw [hid] at hnone hnew hm
  have hnorow : ¬ RowIs c.taskId (fun _ => True) s.store := by
    rintro ⟨r, hr, -⟩
    rw [hnone] at hr
    cases hr
  have hheld : ({ c with phase := .queued } : Call).held = c.held := by
    unfold Call.held
    rw [hhand]
    rfl
  -- a call of this id that runs its task, or was refused, would have the row
  have hother : ∀ x ∈ others, x.taskId = c.taskId → ∃ ns n, x.phase = .creating ns n := by
    intro x hx hxid
    have hx' := h.rows x (List.mem_cons_of_mem _ hx)
    rw [← hxid] at hnorow
    rcases hphase : x.phase
    case creating ns n => exact ⟨ns, n, rfl⟩
    all_goals exact absurd (hx'.rowIs (by rw [hphase]; simp [Phase.isJob])) hnorow
  refine ⟨?_, h.flagKeys, ?_, ?_, fun id hid' => ?_, fun k hk f hf => ?_⟩
  · have hperm := h.held
    rw [List.filterMap_cons] at hperm ⊢
    rw [hheld]
    exact hperm
  · have hjobs := h.jobs
    rw [List.filterMap_cons_none hjob] at hjobs
    rw [List.filterMap_cons_some (show ({ c with phase := .queued } : Call).job = some c.taskId from rfl), List.nodup_cons]
    refine ⟨fun hmem => ?_, hjobs⟩
    obtain ⟨x, hx, hxjob⟩ := List.mem_filterMap.mp hmem
    obtain ⟨hisJob, hxid⟩ := Call.job_eq_some.mp hxjob
    obtain ⟨ns, n, hphase⟩ := hother x hx hxid
    rw [hphase] at hisJob
    cases hisJob
  · rw [List.forall_mem_cons]
    refine ⟨⟨task, hnew, hst⟩, fun x hx => ?_⟩
    have hx' := h.rows x (List.mem_cons_of_mem _ hx)
    by_cases hxid : x.taskId = c.taskId
    · obtain ⟨ns, n, hphase⟩ := hother x hx hxid
      unfold RowOk
      rw [hphase]
      trivial
    · exact (rowOk_congr (hm.others _ hxid)).mpr hx'
  · obtain ⟨x, hx, hxid, hd⟩ := h.doomed id hid'
    have hne : x.taskId ≠ c.taskId := by
      intro heq
      have hx' := h.rows x hx
      obtain ⟨hisJob, -⟩ := Call.job_eq_some.mp hd.isJob
      exact hnorow (heq ▸ hx'.rowIs (.inl hisJob))
    rcases List.mem_cons.mp hx with rfl | hx
    · exact absurd rfl hne
    · exact ⟨x, List.mem_cons_of_mem _ hx, hxid, (doomed_congr (hm.others _ hne)).mpr hd⟩
  · obtain ⟨horigin, hown⟩ := h.found k hk f hf
    refine ⟨?_, fun y hy g hg => ?_⟩
    · rcases horigin with ⟨x, hx, hxheld⟩ | hrow
      · left
        rcases List.mem_cons.mp hx with rfl | hx
        · exact ⟨_, List.mem_cons_self, hheld.trans hxheld⟩
        · exact ⟨x, List.mem_cons_of_mem _ hx, hxheld⟩
      · exact .inr (hrow.legal hm.legal)
    · rcases List.mem_cons.mp hy with rfl | hy
      · rw [hheld] at hg
        left
        refine (hown c List.mem_cons_self g hg).resolve_right fun hrow => ?_
        obtain ⟨-, heq⟩ := Call.held_eq_some.mp hg
        rw [show k.taskId = c.taskId from (congrArg Prod.fst heq).symm] at hrow
        exact hnorow hrow.1
      · exact (hown y (List.mem_cons_of_mem _ hy) g hg).imp_right fun hrow => ⟨hrow.1.legal hm.legal, hrow.2⟩

theorem Inv.erased (h : Inv { s with calls := c :: others }) (hhand : c.phase.inHand = true)
    (htask : c'.taskId = c.taskId) (hheld : c'.held = none) (hjob : c'.job = c.job)
    (hexists : RowIs c.taskId (fun _ => True) s.store) (hrow : RowOk s.store c')
    (hdoomed : Doomed s.raised s.store c → Doomed s.raised s.store c') :
    Inv { s.eraseFlag c.taskId with calls := c' :: others } := by
  have hheldc : c.held = some (c.taskId, c.flag) := Call.held_eq_some.mpr ⟨hhand, rfl⟩
  refine ⟨?_, h.flagKeys.deleteWhere, ?_, ?_, fun id hid => ?_, fun k hk f hf => ?_⟩
  · have hperm := h.held
    rw [List.filterMap_cons_some hheldc] at hperm
    rw [List.filterMap_cons_none hheld]
    have hrest : (others.filterMap Call.held).filter (fun e => !(e.1 == c.taskId)) = others.filterMap Call.held := by
      rw [List.filter_eq_self]
      intro e he
      obtain ⟨x, hx, hxheld⟩ := List.mem_filterMap.mp he
      obtain ⟨-, heq⟩ := Call.held_eq_some.mp hxheld
      rw [Bool.not_eq_true', beq_eq_false_iff_ne]
      intro hid
      rw [h.held_ne hhand hx ((congrArg Prod.fst heq).trans hid)] at hxheld
      cases hxheld
    have hfilter := hperm.filter fun e => !(e.1 == c.taskId)
    rwa [List.filter_cons_of_neg (by simp), hrest] at hfilter
  · have hjobs := h.jobs
    rw [List.filterMap_cons] at hjobs ⊢
    rw [hjob]
    exact hjobs
  · rw [List.forall_mem_cons]
    exact ⟨hrow, fun x hx => h.rows x (List.mem_cons_of_mem _ hx)⟩
  · obtain ⟨x, hx, hxid, hd⟩ := h.doomed id hid
    rcases List.mem_cons.mp hx with rfl | hx
    · exact ⟨c', List.mem_cons_self, htask.trans hxid, hdoomed hd⟩
    · exact ⟨x, List.mem_cons_of_mem _ hx, hxid, hd⟩
  · obtain ⟨horigin, hown⟩ := h.found k hk f hf
    refine ⟨?_, fun y hy g hg => ?_⟩
    · rcases horigin with ⟨x, hx, hxheld⟩ | hrow
      · rcases List.mem_cons.mp hx with rfl | hx
        · right
          obtain ⟨-, heq⟩ := Call.held_eq_some.mp hxheld
          rw [show k.taskId = x.taskId from (congrArg Prod.fst heq).symm]
          exact hexists
        · exact .inl ⟨x, List.mem_cons_of_mem _ hx, hxheld⟩
      · exact .inr hrow
    · rcases List.mem_cons.mp hy with rfl | hy
      · rw [hheld] at hg
        cases hg
      · exact hown y (List.mem_cons_of_mem _ hy) g hg

theorem Inv.mem_flags (h : Inv s) (hc : c ∈ s.calls) {e : String × Nat} (hheld : c.held = some e) : e ∈ s.flags :=
  h.held.mem_iff.mpr (List.mem_filterMap.mpr ⟨c, hc, hheld⟩)

theorem Inv.setCall {i : Nat} (h : Inv s) (s' : State) (hc : s.calls[i]? = some c) (hcalls : s'.calls = s.calls)
    (hmove : ∀ others, Inv { s with calls := c :: others } → Inv { s' with calls := c' :: others }) :
    Inv (s'.setCall i c') := by
  obtain ⟨others, hp, hp'⟩ := exists_others hc c'
  rw [← hcalls] at hp'
  exact (hmove others (h.perm hp)).perm hp'.symm

/-! ## The steps -/

theorem Inv.submit (h : Inv s) (taskId namespaceId : String) (rowsTotal : Int)
    (hfree : s.full = true ∨ lookup Prod.fst taskId s.flags = none) : Inv (s.submit taskId namespaceId rowsTotal) := by
  unfold State.submit
  split
  · exact h
  rename_i hroom
  have hnone := hfree.resolve_left hroom
  have hins : insertRow Prod.fst (taskId, s.made) s.flags = some (s.flags ++ [(taskId, s.made)]) :=
    insertRow_eq_some.mpr ⟨lookup_eq_none.mp hnone, rfl⟩
  have hups : upsertRow Prod.fst (taskId, s.made) s.flags = s.flags ++ [(taskId, s.made)] := by
    rw [upsertRow, hins]
  have hnohand : ∀ x ∈ s.calls, ∀ g, x.held ≠ some (taskId, g) := by
    intro x hx g hxheld
    have hmem : (taskId, g) ∈ s.flags := h.held.mem_iff.mpr (List.mem_filterMap.mpr ⟨x, hx, hxheld⟩)
    exact lookup_eq_none.mp hnone _ hmem rfl
  have hrows := h.rows
  refine ⟨?_, ?_, ?_, ?_, fun id hid => ?_, fun k hk f hf => ?_⟩
  · show (upsertRow Prod.fst (taskId, s.made) s.flags).Perm _
    rw [hups, List.filterMap_append]
    exact h.held.append_right _
  · show Keyed Prod.fst (upsertRow Prod.fst (taskId, s.made) s.flags)
    rw [hups]
    exact h.flagKeys.insertRow hins
  · show ((s.calls ++ [_]).filterMap Call.job).Nodup
    rw [List.filterMap_append, List.filterMap_cons_none rfl, List.filterMap_nil, List.append_nil]
    exact h.jobs
  · intro c hc
    rcases List.mem_append.mp hc with hold | hnew
    · exact hrows c hold
    · rw [List.mem_singleton.mp hnew]
      trivial
  · obtain ⟨x, hx, hd⟩ := h.doomed id hid
    exact ⟨x, List.mem_append_left _ hx, hd⟩
  · obtain ⟨horigin, hown⟩ := h.found k hk f hf
    refine ⟨horigin.imp_left ?_, fun y hy g hg => ?_⟩
    · rintro ⟨x, hx, heq⟩
      exact ⟨x, List.mem_append_left _ hx, heq⟩
    · rcases List.mem_append.mp hy with hold | hnew
      · exact hown y hold g hg
      · rw [List.mem_singleton] at hnew
        subst hnew
        obtain ⟨-, heq⟩ := Call.held_eq_some.mp hg
        right
        refine ⟨horigin.resolve_left ?_, rfl⟩
        rintro ⟨x, hx, hxheld⟩
        rw [← show taskId = k.taskId from congrArg Prod.fst heq] at hxheld
        exact hnohand x hx f hxheld

theorem RowIs.not_none (h : RowIs id P t) : get id t ≠ none := by
  obtain ⟨r, hr, -⟩ := h
  rw [hr]
  exact Option.some_ne_none r

theorem RowIs.of_get (h : RowIs id P t) (hr : get id t = some r) : P r.status := by
  obtain ⟨r', hr', hp⟩ := h
  rw [hr, Option.some.injEq] at hr'
  rw [hr']
  exact hp

theorem Active.edge {st st' : ImportTaskStatus} (h : Active st) (h' : Terminal st') : Edge st st' = true := by
  rcases h with rfl | rfl <;> rcases h' with rfl | rfl | rfl <;> rfl

theorem terminal_terminalOf (raised : Bool) (err : Option String) : Terminal (terminalOf raised err) := by
  unfold terminalOf
  split
  · exact .inr (.inr rfl)
  · split
    · exact .inl rfl
    · exact .inr (.inl rfl)

variable {i k : Nat} {now : Int}

theorem Inv.moveCall (h : Inv s) (hc : s.calls[i]? = some c) (htask : c'.taskId = c.taskId) (hheld : c'.held = c.held)
    (hjob : c'.job = c.job) (hrow : RowOk s.store c')
    (hdoomed : Doomed s.raised s.store c → Doomed s.raised s.store c') :
    Inv (s.setCall i c') ∧ Legal s.store (s.setCall i c').store :=
  ⟨h.setCall s hc rfl fun _ h => h.move htask hheld hjob (.refl _ _) (.inl rfl) hrow hdoomed, .refl _⟩

theorem Inv.moveRow (h : Inv s) (hc : s.calls[i]? = some c) (hhand : c.phase.inHand = true)
    (hisJob : c.phase.isJob = true) (htask : c'.taskId = c.taskId) (hheld : c'.held = c.held) (hjob : c'.job = c.job)
    (hm : Moved c.taskId s.store t') (hrow : RowOk t' c')
    (hdoomed : Doomed s.raised s.store c → Doomed s.raised t' c') :
    Inv ({ s with store := t' }.setCall i c') ∧ Legal s.store ({ s with store := t' }.setCall i c').store :=
  ⟨h.setCall { s with store := t' } hc rfl fun _ h =>
    h.move htask hheld hjob hm (.inr ⟨hhand, hisJob⟩) hrow hdoomed, hm.legal⟩

theorem Inv.touchRow (h : Inv s) (hc : s.calls[i]? = some c) (hhand : c.phase.inHand = true)
    (hisJob : c.phase.isJob = true) (htask : c'.taskId = c.taskId) (hheld : c'.held = c.held) (hjob : c'.job = c.job)
    (hr : get c.taskId s.store = some r) (hid : r'.taskId = r.taskId) (hst : r'.status = r.status)
    (hrow : RowIs c.taskId Active (update r' s.store) → RowOk (update r' s.store) c') (hactive : Active r.status)
    (hdoomed : Doomed s.raised s.store c → Doomed s.raised (update r' s.store) c') :
    Inv ({ s with store := update r' s.store }.setCall i c') ∧
      Legal s.store ({ s with store := update r' s.store }.setCall i c').store := by
  have hrid : r'.taskId = c.taskId := hid.trans (get_taskId hr)
  refine h.moveRow hc hhand hisJob htask hheld hjob (.update hr hrid (.inl hst)) (hrow ?_) hdoomed
  rw [rowIs_update hr hrid, hst]
  exact hactive

theorem Inv.advance (h : Inv s) (hc : s.calls[i]? = some c) (hs : advance s i now c = some s') :
    Inv s' ∧ Legal s.store s'.store := by
  have hrow := h.rows c (List.mem_of_getElem? hc)
  obtain ⟨taskId, flag, phase⟩ := c
  unfold Import.advance at hs
  unfold RowOk at hrow
  rcases phase
  case creating namespaceId rowsTotal =>
    dsimp only at hs
    split at hs
    · rename_i t hcreate
      cases hs
      exact ⟨h.setCall { s with store := t } hc rfl fun _ h => h.created rfl rfl rfl rfl hcreate,
        (Moved.create hcreate rfl).legal⟩
    · rename_i hcreate
      cases hs
      obtain ⟨r, hr⟩ := create_eq_none hcreate
      exact h.moveCall hc rfl rfl rfl ⟨r, hr, trivial⟩ False.elim
  case rollingBack =>
    cases hs
    exact ⟨h.setCall (s.eraseFlag taskId) hc rfl fun _ h => h.erased rfl rfl rfl rfl hrow hrow False.elim,
      .refl _⟩
  case rejected => cases hs
  case queued =>
    have hown : (taskId, flag) ∈ s.flags := h.mem_flags (List.mem_of_getElem? hc) rfl
    dsimp only at hs
    split at hs
    · rename_i e hflag
      cases hs
      -- the flag it finds is its own
      obtain ⟨hmem, hkey⟩ := lookup_eq_some hflag
      obtain rfl := h.flagKeys.eq_of_key hown hmem hkey.symm
      exact h.moveCall hc rfl rfl rfl hrow id
    · rename_i hflag
      exact absurd rfl (lookup_eq_none.mp hflag _ hown)
  case starting =>
    dsimp only at hs
    split at hs
    · rename_i t hcas
      cases hs
      obtain ⟨-, r, hr, hst, rfl⟩ | ⟨hfalse, -⟩ := compareAndSetStatus_spec hcas
      · have hrid := get_taskId hr
        have hm : Moved taskId s.store (update { r with status := .kRunning } s.store) :=
          .update hr hrid (.inr (by rw [hst]; rfl))
        have hactive : RowIs taskId Active (update { r with status := .kRunning } s.store) :=
          rowIs_setStatus hr (Or.inl rfl)
        exact h.moveRow hc rfl rfl rfl rfl rfl hm hactive id
      · cases hfalse
    · rename_i t hcas
      obtain ⟨htrue, -⟩ | ⟨-, -, hne⟩ := compareAndSetStatus_spec hcas
      · cases htrue
      · obtain ⟨r, hr, hst⟩ := hrow
        exact absurd hst (hne r hr)
  case refused => exact hrow.elim
  case settling => exact hrow.elim
  case started =>
    dsimp only at hs
    split at hs
    · rename_i r hr
      cases hs
      exact h.moveCall hc rfl rfl rfl ⟨hr, hrow.of_get hr⟩ id
    · rename_i hnone
      exact absurd hnone hrow.not_none
  case stamping r =>
    cases hs
    exact h.touchRow hc rfl rfl rfl rfl rfl hrow.1 rfl rfl id hrow.2 id
  case working => cases hs
  case reporting r rowsImported rowsTotal =>
    cases hs
    exact h.touchRow hc rfl rfl rfl rfl rfl hrow.1 rfl rfl id hrow.2 id
  case checking err =>
    cases hs
    refine h.moveCall hc rfl rfl rfl ⟨hrow, terminal_terminalOf _ _⟩ fun hraised => ?_
    show terminalOf (decide (flag ∈ s.raised)) err = .kCancelled
    unfold terminalOf
    rw [if_pos (decide_eq_true (show flag ∈ s.raised from hraised))]
  case finalizing terminal err =>
    obtain ⟨hactive, hterminal⟩ := hrow
    dsimp only at hs
    split at hs
    · rename_i r hr
      cases hs
      exact h.moveCall hc rfl rfl rfl ⟨hactive, get_taskId hr, hterminal⟩ id
    · rename_i hnone
      exact absurd hnone hactive.not_none
  case writing r terminal err =>
    cases hs
    obtain ⟨⟨r₀, hr₀, hactive⟩, hrid, hterminal⟩ := hrow
    have hrid' : (r.finalized terminal err now).taskId = taskId := hrid
    have hm : Moved taskId s.store (update (r.finalized terminal err now) s.store) :=
      .update hr₀ hrid' (.inr (hactive.edge hterminal))
    exact h.moveRow hc rfl rfl rfl rfl rfl hm ((rowIs_update (P := Terminal) hr₀ hrid').mpr hterminal)
      fun hcancelled => (rowIs_update (P := (· = .kCancelled)) hr₀ hrid').mpr hcancelled
  case erasing =>
    cases hs
    exact ⟨h.setCall (s.eraseFlag taskId) hc rfl fun _ h =>
      h.erased rfl rfl rfl rfl (hrow.mono fun _ _ => trivial) hrow id, .refl _⟩
  case ended => cases hs

theorem Inv.leaveWork (h : Inv s) (hc : s.calls[i]? = some c) (hphase : c.phase = .working) {p : Phase}
    (hhand : p.inHand = true) (hisJob : p.isJob = true)
    (hrow : RowIs c.taskId Active s.store → RowOk s.store { c with phase := p })
    (hdoomed : c.flag ∈ s.raised → Doomed s.raised s.store { c with phase := p }) :
    Inv (s.setCall i { c with phase := p }) ∧ Legal s.store (s.setCall i { c with phase := p }).store := by
  have hheld : ({ c with phase := p } : Call).held = c.held := by
    unfold Call.held
    rw [hphase, hhand]
    rfl
  have hjob : ({ c with phase := p } : Call).job = c.job := by
    unfold Call.job
    rw [hphase, hisJob]
    rfl
  have hrow' := h.rows c (List.mem_of_getElem? hc)
  unfold RowOk at hrow'
  rw [hphase] at hrow'
  refine h.moveCall hc rfl hheld hjob (hrow hrow') fun hd => ?_
  unfold Doomed at hd
  rw [hphase] at hd
  exact hdoomed hd

/-! ## The steps of a `Cancel` -/

variable {q q' : CancelCall}

theorem Inv.moveCancel (h : Inv s) (hq : s.cancels[k]? = some q) (q' : CancelCall) (htask : q'.taskId = q.taskId)
    (hflag : q'.flag = q.flag) : Inv { s with cancels := s.cancels.set k q' } := by
  refine ⟨h.held, h.flagKeys, h.jobs, h.rows, h.doomed, fun x hx f hf => ?_⟩
  have hfound : Found s x.taskId f := by
    rcases List.mem_or_eq_of_mem_set hx with hold | rfl
    · exact h.found x hold f hf
    · rw [hflag] at hf
      rw [htask]
      exact h.found q (List.mem_of_getElem? hq) f hf
  exact ⟨hfound.origin, hfound.own⟩

theorem Inv.rewrite (h : Inv s) (hm : Moved id s.store t') (hrows : ∀ c ∈ s.calls, RowOk t' c)
    (hdoomed : ∀ c ∈ s.calls, Doomed s.raised s.store c → Doomed s.raised t' c) : Inv { s with store := t' } := by
  refine ⟨h.held, h.flagKeys, h.jobs, hrows, fun id hid => ?_, fun x hx f hf => ?_⟩
  · obtain ⟨c, hc, hcid, hd⟩ := h.doomed id hid
    exact ⟨c, hc, hcid, hdoomed c hc hd⟩
  · obtain ⟨horigin, hown⟩ := h.found x hx f hf
    exact ⟨horigin.imp_right fun hrow => hrow.legal hm.legal,
      fun y hy g hg => (hown y hy g hg).imp_right fun hrow => ⟨hrow.1.legal hm.legal, hrow.2⟩⟩

theorem Inv.signalled (h : Inv s) (hq : q ∈ s.cancels) {f : Nat} (hf : q.flag = some f) :
    Inv { s with
      raised := f :: s.raised
      cancelled :=
        if s.calls.any fun x => x.taskId == q.taskId && x.phase.beforeCheck then q.taskId :: s.cancelled
        else s.cancelled } := by
  have hmono : ∀ c, Doomed s.raised s.store c → Doomed (f :: s.raised) s.store c := by
    intro c hd
    unfold Doomed at hd ⊢
    rcases hp : c.phase <;> rw [hp] at hd <;> first | exact List.mem_cons_of_mem _ hd | exact hd
  have hold : ∀ id ∈ s.cancelled, ∃ c ∈ s.calls, c.taskId = id ∧ Doomed (f :: s.raised) s.store c := by
    intro id hid
    obtain ⟨c, hc, hcid, hd⟩ := h.doomed id hid
    exact ⟨c, hc, hcid, hmono c hd⟩
  refine ⟨h.held, h.flagKeys, h.jobs, h.rows, fun id hid => ?_, fun x hx g hg => ?_⟩
  · split at hid
    · rename_i hany
      rcases List.mem_cons.mp hid with rfl | hid
      · obtain ⟨x, hx, hxp⟩ := List.any_eq_true.mp hany
        obtain ⟨hxid, hbefore⟩ := (Bool.and_eq_true _ _).mp hxp
        have hxid : x.taskId = q.taskId := beq_iff_eq.mp hxid
        -- the worker looks at the flag that was found
        have hflag : x.flag = f := by
          refine ((h.found q hq f hf).own x hx x.flag ?_).resolve_right ?_
          · refine Call.held_eq_some.mpr ⟨?_, by rw [hxid]⟩
            rcases hp : x.phase <;> rw [hp] at hbefore <;> first | rfl | cases hbefore
          · rintro ⟨-, hjob⟩
            have hisJob : x.phase.isJob = true := by
              rcases hp : x.phase <;> rw [hp] at hbefore <;> first | rfl | cases hbefore
            rw [Call.job_eq_some.mpr ⟨hisJob, rfl⟩] at hjob
            cases hjob
        refine ⟨x, hx, hxid, ?_⟩
        have hmem : x.flag ∈ f :: s.raised := by rw [hflag]; exact List.mem_cons_self
        unfold Doomed
        rcases hp : x.phase <;> rw [hp] at hbefore <;> first | exact hmem | cases hbefore
      · exact hold id hid
    · exact hold id hid
  · obtain ⟨horigin, hown⟩ := h.found x hx g hg
    exact ⟨horigin, hown⟩

theorem RowOk.cancelling (hrow : RowOk s.store c) (hr : get id s.store = some r) (hst : r.status = .kRunning)
    (hmid : c.taskId = id → c.phase.midWrite = false) : RowOk (update { r with status := .kCancelling } s.store) c := by
  have hrid := get_taskId hr
  by_cases hid : c.taskId = id
  · have hactive : RowIs c.taskId Active (update { r with status := .kCancelling } s.store) :=
      rowIs_setStatus (hid ▸ hr) (Or.inr rfl)
    have hnot : ∀ {P}, RowIs c.taskId P s.store → P .kRunning := by
      intro P hP
      rw [← hst]
      exact hP.of_get (hid ▸ hr)
    have hmid := hmid hid
    unfold RowOk at hrow ⊢
    rcases hp : c.phase <;> rw [hp] at hrow hmid
    case creating => trivial
    case rollingBack => exact hactive.mono fun _ _ => trivial
    case rejected => exact hactive.mono fun _ _ => trivial
    case queued => cases hnot hrow
    case starting => cases hnot hrow
    case refused => exact hrow
    case settling => exact hrow
    case started => exact hactive
    case stamping => cases hmid
    case working => exact hactive
    case reporting => cases hmid
    case checking => exact hactive
    case finalizing => exact ⟨hactive, hrow.2⟩
    case writing => exact ⟨hactive, hrow.2⟩
    case erasing => exact absurd (hnot hrow) (by rintro (h | h | h) <;> cases h)
    case ended => exact absurd (hnot hrow) (by rintro (h | h | h) <;> cases h)
  · refine (rowOk_congr ?_).mpr hrow
    rw [get_update, if_neg (fun heq => hid (heq.trans hrid))]

theorem Doomed.cancelling (hd : Doomed raised s.store c) (hr : get id s.store = some r) (hst : r.status = .kRunning) :
    Doomed raised (update { r with status := .kCancelling } s.store) c := by
  have hrid := get_taskId hr
  by_cases hid : c.taskId = id
  · unfold Doomed at hd ⊢
    have hnot : ¬ RowIs c.taskId (· = .kCancelled) s.store := by
      intro hP
      have := hP.of_get (hid ▸ hr)
      rw [hst] at this
      cases this
    rcases hp : c.phase <;> rw [hp] at hd <;> first | exact absurd hd hnot | exact hd
  · refine (doomed_congr ?_).mpr hd
    rw [get_update, if_neg (fun heq => hid (heq.trans hrid))]

theorem Inv.advanceCancel (h : Inv s) (hq : s.cancels[k]? = some q) (hclean : q.Clean s)
    (hs : advanceCancel s k q = some s') : Inv s' ∧ Legal s.store s'.store := by
  obtain ⟨taskId, flag, phase⟩ := q
  obtain ⟨hqueued, hrunning⟩ := hclean
  unfold Import.advanceCancel at hs
  rcases phase
  case getting =>
    dsimp only at hs
    split at hs <;> cases hs <;> exact ⟨h.moveCancel hq _ rfl rfl, .refl _⟩
  case signalling =>
    dsimp only at hs
    split at hs
    · rename_i f
      cases hs
      have hmoved := h.moveCancel hq ⟨taskId, some f, .casQueued⟩ rfl rfl
      have hk := (List.getElem?_eq_some_iff.mp hq).1
      exact ⟨hmoved.signalled (List.mem_set hk _) rfl, .refl _⟩
    · cases hs
      exact ⟨h.moveCancel hq _ rfl rfl, .refl _⟩
  case casQueued =>
    dsimp only at hs
    split at hs
    · rename_i t hcas
      obtain ⟨-, r, hr, hst, -⟩ | ⟨hfalse, -⟩ := compareAndSetStatus_spec hcas
      · exact absurd hst (hqueued rfl r hr)
      · cases hfalse
    · cases hs
      exact ⟨h.moveCancel hq _ rfl rfl, .refl _⟩
  case casRunning =>
    cases hs
    rcases hcas : compareAndSetStatus taskId .kRunning .kCancelling s.store with ⟨t, b⟩
    have hmoved := h.moveCancel hq ⟨taskId, flag, .returned true⟩ rfl rfl
    obtain ⟨-, r, hr, hst, rfl⟩ | ⟨-, rfl, -⟩ := compareAndSetStatus_spec hcas
    · have hrid : r.taskId = taskId := get_taskId hr
      have hm : Moved taskId s.store (update { r with status := .kCancelling } s.store) :=
        .update hr hrid (.inr (by rw [hst]; rfl))
      refine ⟨hmoved.rewrite hm (fun c hc => ?_) (fun c _ hd => Doomed.cancelling hd hr hst), hm.legal⟩
      exact (h.rows c hc).cancelling hr hst (hrunning rfl c hc)
    · exact ⟨hmoved, .refl _⟩
  case returned => cases hs

/-! ## Every run -/

variable {a : Act}

theorem Inv.step (h : Inv s) (hclean : Clean s a) (hs : step s a = some s') : Inv s' ∧ Legal s.store s'.store := by
  rcases a with ⟨taskId, namespaceId, rowsTotal⟩ | ⟨i, now⟩ | ⟨i, rowsImported, rowsTotal⟩ | ⟨i, err⟩ | taskId | k
  · cases hs
    refine ⟨h.submit taskId namespaceId rowsTotal hclean, ?_⟩
    unfold State.submit
    split <;> exact .refl _
  · obtain ⟨c, hc, hs⟩ := Option.bind_eq_some_iff.mp hs
    exact h.advance hc hs
  · unfold Import.step at hs
    dsimp only at hs
    split at hs
    · rename_i c hc
      split at hs
      · rename_i hphase
        split at hs
        · rename_i r hr
          cases hs
          exact h.leaveWork hc hphase rfl rfl (fun hrow => ⟨hr, hrow.of_get hr⟩) id
        · cases hs
          exact ⟨h, .refl _⟩
      · cases hs
    · cases hs
  · unfold Import.step at hs
    dsimp only at hs
    split at hs
    · rename_i c hc
      split at hs
      · rename_i hphase
        cases hs
        exact h.leaveWork hc hphase rfl rfl id id
      · cases hs
    · cases hs
  · cases hs
    refine ⟨⟨h.held, h.flagKeys, h.jobs, h.rows, h.doomed, fun x hx f hf => ?_⟩, .refl _⟩
    rcases List.mem_append.mp hx with hold | hnew
    · obtain ⟨horigin, hown⟩ := h.found x hold f hf
      exact ⟨horigin, hown⟩
    · rw [List.mem_singleton.mp hnew] at hf ⊢
      obtain ⟨e, hlookup, rfl⟩ := Option.map_eq_some_iff.mp hf
      obtain ⟨hmem, hkey⟩ := lookup_eq_some hlookup
      obtain ⟨x, hx, hheld⟩ := List.mem_filterMap.mp (h.held.mem_iff.mp hmem)
      refine ⟨.inl ⟨x, hx, ?_⟩, fun y hy g hg => .inl ?_⟩
      · rw [hheld, ← hkey]
      · have hmem' : (taskId, g) ∈ s.flags := h.mem_flags hy hg
        exact congrArg Prod.snd (h.flagKeys.eq_of_key hmem' hmem hkey.symm)
  · obtain ⟨q, hq, hs⟩ := Option.bind_eq_some_iff.mp hs
    exact h.advanceCancel hq (hclean q hq) hs

theorem Inv.sound (h : Inv s) : Sound s := by
  have hmem : ∀ c ∈ s.calls, c.phase.inHand = true → (c.taskId, c.flag) ∈ s.flags := by
    intro c hc hhand
    exact h.mem_flags hc (Call.held_eq_some.mpr ⟨hhand, rfl⟩)
  refine ⟨fun c hc hhand => h.flagKeys.lookup_of_mem (hmem c hc hhand), fun e he => ?_, fun hfull => ?_,
    fun id hid => ?_⟩
  · obtain ⟨c, hc, hheld⟩ := List.mem_filterMap.mp (h.held.mem_iff.mp he)
    exact ⟨c, hc, Call.held_eq_some.mp hheld⟩
  · have hfilter : (s.calls.filterMap Call.held).length = (s.calls.filter fun c => c.phase.inHand).length := by
      rw [← List.countP_eq_length_filter, List.length_filterMap_eq_countP]
      congr 1
      funext c
      unfold Call.held
      split <;> simp_all
    have hle := of_decide_eq_true hfull
    rwa [h.held.length_eq, hfilter] at hle
  · obtain ⟨c, hc, rfl, hd⟩ := h.doomed id hid
    by_cases hun : c.phase.unwritten = true
    · exact .inr ⟨c, hc, rfl, hun⟩
    · left
      unfold Doomed at hd
      rcases hp : c.phase <;> rw [hp] at hd hun <;>
        first | exact hd | exact hd.elim | exact absurd rfl hun

theorem inv_run {n : Int} {as : List Act} (hclean : Along step Clean (init n) as) (hrun : run step (init n) as = some s) :
    Inv s :=
  run_inv (fun h hc hs => (h.step hc hs).1) (inv_init n) hclean hrun

theorem rolledBack_calls (hc : s.calls[i]? = some c) (hphase : c.phase = .rollingBack)
    (hs : step s (.run i now) = some s') : s'.store = s.store ∧ ∀ j, j ≠ i → s'.calls[j]? = s.calls[j]? := by
  obtain ⟨c', hc', hs⟩ := Option.bind_eq_some_iff.mp hs
  rw [hc] at hc'
  cases hc'
  unfold Import.advance at hs
  rw [hphase] at hs
  cases hs
  exact ⟨rfl, fun j hj => List.getElem?_set_ne hj.symm⟩

/-- On a run of clean steps every state is sound, every further clean step moves the rows along `Edge`, and a refused
`Submit`, turned away or rolled back, leaves the other tasks as they are. -/
theorem clean_run_sound {n : Int} {as : List Act} (hclean : Along step Clean (init n) as)
    (hrun : run step (init n) as = some s) :
    Sound s ∧ ∀ a s', Clean s a → step s a = some s' → Sound s' ∧ Legal s.store s'.store ∧
      (∀ taskId namespaceId rowsTotal, a = .submit taskId namespaceId rowsTotal → s.full = true → s' = s) ∧
      ∀ i now c, a = .run i now → s.calls[i]? = some c → c.phase = .rollingBack →
        s'.store = s.store ∧ ∀ j, j ≠ i → s'.calls[j]? = s.calls[j]? := by
  have hinv := inv_run hclean hrun
  refine ⟨hinv.sound, fun a s' hc hs => ?_⟩
  obtain ⟨hinv', hlegal⟩ := hinv.step hc hs
  refine ⟨hinv'.sound, hlegal, ?_, ?_⟩
  · rintro taskId namespaceId rowsTotal rfl hfull
    cases hs
    unfold State.submit
    rw [if_pos hfull]
  · rintro i now c rfl hc hphase
    exact rolledBack_calls hc hphase hs

/-- A running task is cancelled in time: it ends cancelled and the queue is empty again. -/
def cancelRunning : List Act :=
  [.submit "a" "ns" 10, .run 0 1, .run 0 2, .run 0 3, .run 0 4, .run 0 5, .cancel "a", .runCancel 0, .runCancel 0,
    .runCancel 0, .runCancel 0, .workReturns 0 none, .run 0 6, .run 0 7, .run 0 8, .run 0 9]

theorem clean_run_sound_cancelRunning :
    ∃ s, run step (init 1) cancelRunning = some s ∧ s.cancelled = ["a"] ∧
      (get "a" s.store).map ImportTaskProgress.status = some .kCancelled ∧ s.flags = [] ∧ Sound s := by
  refine ⟨_, rfl, rfl, rfl, rfl, ?_⟩
  have hclean : Along step Clean (init 1) cancelRunning := by decide
  exact (clean_run_sound hclean rfl).1

/-- Three runs that go wrong, each with one worker. The cancelled queued task keeps its place in the queue, with its
run over. The second `Submit` of a running task is refused and takes the flag of the first away. The worker reports
its progress over a `cancelling` row and makes it `running` again. -/
theorem queue_leaks_and_loses_cancels :
    (∃ s, run step (init 1) [.submit "a" "ns" 10, .run 0 1, .cancel "a", .runCancel 0, .runCancel 0, .runCancel 0,
        .run 0 2, .run 0 3, .run 0 4, .run 0 5] = some s ∧
      s.full = true ∧ ∀ c ∈ s.calls, c.phase = .ended) ∧
    (∃ s, run step (init 2) [.submit "a" "ns" 10, .run 0 1, .run 0 2, .run 0 3, .run 0 4, .run 0 5,
        .submit "a" "ns" 10, .run 1 6, .run 1 7] = some s ∧
      s.calls.map Call.phase = [.working, .rejected] ∧ s.flags = []) ∧
    (∃ s s', run step (init 2) [.submit "a" "ns" 10, .run 0 1, .run 0 2, .run 0 3, .run 0 4, .run 0 5, .report 0 3 0,
        .cancel "a", .runCancel 0, .runCancel 0, .runCancel 0, .runCancel 0] = some s ∧
      step s (.run 0 6) = some s' ∧
      (get "a" s.store).map ImportTaskProgress.status = some .kCancelling ∧
      (get "a" s'.store).map ImportTaskProgress.status = some .kRunning) :=
  ⟨⟨_, rfl, rfl, by decide⟩, ⟨_, rfl, rfl, rfl⟩, ⟨_, _, rfl, rfl, rfl, rfl⟩⟩

end Cortrix.Import
