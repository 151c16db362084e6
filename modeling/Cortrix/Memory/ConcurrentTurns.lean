import Cortrix.Memory.SessionTurns

/-!
# The turns of one session on several workers

Runs in which nothing fails, over any number of workers.

* `turn_stored_unless_refused` : a finished turn is stored once, unless its document had a live transaction then.
-/

namespace Cortrix.Memory
open Lib Metadata Query Spc Store.Documents

namespace SessionTurns

variable {cfg : Config} {s s' t : State} {p q : Nat} {blockId : UInt64}

def TurnAct.faultless : TurnAct → Bool
  | .start acquired written => acquired && written
  | .embedFails _ => false
  | .reserve _ => true
  | .append error => error.isNone
  | .addPoints error => error.isNone
  | .insert ok => ok
  | .commit error => error.isNone
  | .release => true
  | .rollback appended rowGone pointGone => appended && rowGone && pointGone
  | .publish ok _ _ => ok
  | .markError written => written

theorem Books.row_free (h : Books cfg s p) (hat : s.stages p = .pointed blockId) :
    ∀ b ∈ s.blocks, b.blockId ≠ blockId := by
  intro b hb hid
  have hown : (b.blockId, p) ∈ s.drawn := h.own b.blockId (by rw [hat, hid]; rfl)
  have hrows := h.rows
  rw [hat] at hrows
  have hmem : b ∈ ownRows s.drawn p s.blocks := List.mem_filter.mpr ⟨hb, by simpa using hown⟩
  rw [hrows] at hmem
  cases hmem

theorem Turned.books_self {a : TurnAct} (h : Turned cfg s p a s') (hok : a.faultless = true)
    (hcalm : ∀ id msg, s.stages p ≠ .failing id msg) (hp : Books cfg s p) : Books cfg s' p := by
  cases h with
  | dropped hat _ | started hat | failed hat =>
    exact hp.goOn hat goTo_self ⟨rfl, rfl, rfl, rfl⟩ rfl rfl (.inl rfl) (.inl rfl)
  | notEmbedded _ => cases hok
  | refused hat hun _ =>
    obtain ⟨-, hpoint, hrow⟩ := unused_iff.mp hun
    refine ⟨?_, ?_, fun id hid => ?_, fun id hid => ?_⟩
    · rw [goTo_self]
      exact (ownRows_draw fun _ => hrow).trans (by rw [hp.rows, hat]; rfl)
    · rw [goTo_self]
      exact (ownPoints_draw fun _ => hpoint).trans (by rw [hp.points, hat]; rfl)
    · rw [goTo_self] at hid
      cases hid
    · rw [goTo_self] at hid
      cases hid
  | reserved hat hun _ =>
    obtain ⟨-, hpoint, hrow⟩ := unused_iff.mp hun
    refine ⟨?_, ?_, fun id hid => ?_, fun id hid => ?_⟩
    · rw [goTo_self]
      exact (ownRows_draw fun _ => hrow).trans (by rw [hp.rows, hat]; rfl)
    · rw [goTo_self]
      exact (ownPoints_draw fun _ => hpoint).trans (by rw [hp.points, hat]; rfl)
    · rw [goTo_self] at hid
      cases hid
    · rw [goTo_self] at hid
      cases hid
      exact List.mem_cons_self
  | appended hat => exact hp.goOn hat goTo_self ⟨rfl, rfl, rfl, rfl⟩ rfl rfl (.inl rfl) (.inr rfl)
  | notAppended _ => cases hok
  | @pointed blockId hat =>
    have hown : (blockId, p) ∈ s.drawn := hp.own blockId (by rw [hat]; rfl)
    have hpoints := hp.points
    rw [hat] at hpoints
    refine ⟨?_, ?_, fun id hid => ?_, fun id hid => ?_⟩
    · rw [goTo_self]
      exact hp.rows.trans (by rw [hat]; rfl)
    · rw [goTo_self]
      show List.filter (fun id => s.drawn.contains (id, p)) (blockId :: s.points) = [blockId]
      rw [List.filter_cons_of_pos (by simpa using hown)]
      exact congrArg (blockId :: ·) hpoints
    · rw [goTo_self] at hid
      cases hid
    · rw [goTo_self] at hid
      exact hp.own id (by rw [hat]; exact hid)
  | notPointed _ => cases hok
  | @inserted blockId hat _ =>
    have hown : (blockId, p) ∈ s.drawn := hp.own blockId (by rw [hat]; rfl)
    have hrows := hp.rows
    rw [hat] at hrows
    refine ⟨?_, ?_, fun id hid => ?_, fun id hid => ?_⟩
    · rw [goTo_self]
      show List.filter (fun b => s.drawn.contains (b.blockId, p)) (s.blocks ++ [cfg.block p blockId]) = _
      rw [List.filter_append, List.filter_cons_of_pos (by simpa [Config.block, MemoryTurns.assemble] using hown)]
      exact congrArg (· ++ [cfg.block p blockId]) hrows
    · rw [goTo_self]
      exact hp.points.trans (by rw [hat]; rfl)
    · rw [goTo_self] at hid
      cases hid
    · rw [goTo_self] at hid
      exact hp.own id (by rw [hat]; exact hid)
  | notInserted hat hno =>
    rcases hno with rfl | ⟨b, hb, hid⟩
    · cases hok
    · exact absurd hid (hp.row_free hat b hb)
  | @recorded blockId hat =>
    refine ⟨?_, ?_, fun id hid => ?_, fun id hid => ?_⟩
    · rw [goTo_self]
      exact hp.rows.trans (by rw [hat]; rfl)
    · rw [goTo_self]
      exact hp.points.trans (by rw [hat]; rfl)
    · rw [goTo_self] at hid
      cases hid
      exact List.mem_cons_self
    · rw [goTo_self] at hid
      exact hp.own id (by rw [hat]; exact hid)
  | notRecorded _ => cases hok
  | released hat | published hat => exact hp.goOn hat goTo_self ⟨rfl, rfl, rfl, rfl⟩ rfl rfl (.inr rfl) (.inr rfl)
  | notRolledBack hat => exact absurd hat (hcalm _ _)
  | rolledBack hat => exact absurd hat (hcalm _ _)

/-! ## The document of a session -/

/-- A worker is between the first and the last status write of the turn. -/
def Stage.busy : Stage → Bool
  | .popped | .done _ | .ended => false
  | _ => true

theorem Stage.not_busy_of_final {stage : Stage} (h : stage.final = true) : stage.busy = false := by
  cases stage <;> first | rfl | cases h

/-- The status of a session's document, and the turn that accounts for it. -/
def Accounted (cfg : Config) (s : State) (d : Doc) : Prop :=
  d.status = .ready ∨
    d.status = .error ∧ (∃ p ∈ s.queue.accepted, cfg.isTurn p = true ∧ cfg.docId p = d.docId ∧ s.stages p = .ended) ∨
      d.status = .processing ∧
        ∃ p ∈ s.queue.working, cfg.isTurn p = true ∧ cfg.docId p = d.docId ∧ (s.stages p).busy = true

theorem Accounted.isLive {d : Doc} (h : Accounted cfg s d) : live d = true := by
  rcases h with h | ⟨h, -⟩ | ⟨h, -⟩ <;> simp [live, h]

theorem Accounted.frame {d : Doc} (h : Accounted cfg s d)
    (hended : ∀ p ∈ s.queue.accepted, cfg.docId p = d.docId → s.stages p = .ended →
      p ∈ s'.queue.accepted ∧ s'.stages p = .ended)
    (hbusy : ∀ p ∈ s.queue.working, cfg.docId p = d.docId → (s.stages p).busy = true →
      p ∈ s'.queue.working ∧ (s'.stages p).busy = true) : Accounted cfg s' d := by
  rcases h with h | ⟨h, p, hp, hturn, hdoc, hst⟩ | ⟨h, p, hp, hturn, hdoc, hst⟩
  · exact .inl h
  · obtain ⟨hp', hst'⟩ := hended p hp hdoc hst
    exact .inr (.inl ⟨h, p, hp', hturn, hdoc, hst'⟩)
  · obtain ⟨hp', hst'⟩ := hbusy p hp hdoc hst
    exact .inr (.inr ⟨h, p, hp', hturn, hdoc, hst'⟩)

/-! ## Runs without a failure -/

/-- What runs without a failure keep. -/
structure Inv (cfg : Config) (s : State) : Prop where
  queue : TaskQueue.Inv s.queue
  tasks : ∀ p, cfg.isTurn p = true → s.queue.tasks p = cfg.tasks p
  turns : ∀ p ∈ s.queue.accepted, cfg.isTurn p = true →
    (cfg.tasks p).cancelled = false ∧ ∃ d ∈ s.docs, d.docId = cfg.docId p ∧ isSession d = true
  working : ∀ p ∈ s.queue.working, cfg.isTurn p = true → p ∈ s.queue.accepted
  /-- A turn that is not handed out has not been started, -/
  idle : ∀ p, cfg.isTurn p = true → p ∉ s.queue.accepted ∨ p ∈ s.queue.queue.queue → s.stages p = .popped
  /-- and one that has left its worker is over. -/
  left : ∀ p ∈ s.queue.accepted, cfg.isTurn p = true → p ∉ s.queue.queue.queue → p ∉ s.queue.working →
    (s.stages p).final = true
  calm : ∀ p, cfg.isTurn p = true → ∀ id msg, s.stages p ≠ .failing id msg
  distinct : Distinct s.drawn
  books : ∀ p, cfg.isTurn p = true → Books cfg s p
  ids : Keyed Doc.docId s.docs
  status : ∀ d ∈ s.docs, isSession d = true → Accounted cfg s d

theorem inv_init (cfg : Config) : Inv cfg (init cfg) where
  queue := TaskQueue.Inv.start ..
  tasks _ _ := rfl
  turns p hp := by cases hp
  working p hp := by cases hp
  idle _ _ _ := rfl
  left p hp := by cases hp
  calm _ _ _ _ := by simp [init]
  distinct _ _ _ h := by cases h
  books _ _ := ⟨rfl, rfl, fun _ h => by simp [init, Stage.logged] at h, fun _ h => by simp [init, Stage.block] at h⟩
  ids := Keyed.nil
  status d hd := by cases hd

namespace Turned

variable {a : TurnAct}

theorem writes (h : Turned cfg s p a s') (hok : a.faultless = true) (hp : Books cfg s p)
    (hcalm : ∀ id msg, s.stages p ≠ .failing id msg) (hcancel : (s.queue.tasks p).cancelled = false)
    (hdead : ∀ d ∈ s.docs, d.docId = cfg.docId p → d.status ≠ .deleted)
    (hpub : ∀ marker nowMs, docPublishVersion marker (cfg.docId p) nowMs s.docs =
      (updateStatusLocked (cfg.docId p) .ready "" s.docs).1) :
    s'.docs = s.docs ∧ (s'.stages p).busy = true ∨
      ∃ status msg, s'.docs = (updateStatusLocked (cfg.docId p) status msg s.docs).1 ∧
        (status = .ready ∨ status = .error ∧ s'.stages p = .ended ∨
          status = .processing ∧ (s'.stages p).busy = true) := by
  cases h with
  | dropped _ hno =>
    rcases hno with hno | rfl | ⟨d, hd, hid, hst⟩
    · rw [hcancel] at hno
      cases hno
    · cases hok
    · exact absurd hst (hdead d hd hid)
  | @started written _ =>
    have hw : written = true := hok
    refine .inr ⟨.processing, "", if_pos hw, .inr (.inr ⟨rfl, ?_⟩)⟩
    rw [goTo_self]
    rfl
  | notEmbedded _ => cases hok
  | refused _ _ _ | reserved _ _ _ | appended _ | pointed _ | inserted _ _ | recorded _ | released _ =>
    exact .inl ⟨rfl, by rw [goTo_self]; rfl⟩
  | notAppended _ | notPointed _ => cases hok
  | notInserted hat hno =>
    rcases hno with rfl | ⟨b, hb, hid⟩
    · cases hok
    · exact absurd hid (hp.row_free hat b hb)
  | notRecorded _ => cases hok
  | notRolledBack hat => exact absurd hat (hcalm _ _)
  | rolledBack hat => exact absurd hat (hcalm _ _)
  | @published _ ok marker nowMs _ =>
    have hw : ok = true := hok
    exact .inr ⟨.ready, "", (if_pos hw).trans (hpub marker nowMs), .inl rfl⟩
  | @failed msg written _ =>
    have hw : written = true := hok
    exact .inr ⟨.error, msg, if_pos hw, .inr (.inl ⟨rfl, goTo_self⟩)⟩

theorem calm (h : Turned cfg s p a s') (hok : a.faultless = true) (hp : Books cfg s p) :
    ∀ id msg, s'.stages p ≠ .failing id msg := by
  intro id msg hst
  cases h with
  | notInserted hat hno =>
    rcases hno with rfl | ⟨b, hb, hid⟩
    · cases hok
    · exact hp.row_free hat b hb hid
  | notPointed _ => cases hok
  | _ =>
    rw [goTo_self] at hst
    cases hst

end Turned

theorem Inv.turn (hI : Inv cfg s) (hturn : cfg.isTurn p = true) (hwork : p ∈ s.queue.working) {a : TurnAct}
    (h : Turned cfg s p a s') (hok : a.faultless = true) : Inv cfg s' := by
  have hacc := hI.working p hwork hturn
  have hbooks := hI.books p hturn
  obtain ⟨hcancel, d, hd, hid, hsession⟩ := hI.turns p hacc hturn
  have hlive := (hI.status d hd hsession).isLive
  have hwrites := h.writes hok hbooks (hI.calm p hturn) (by rw [hI.tasks p hturn, hcancel])
    (fun d' hd' hid' => by
      rw [hI.ids.eq_of_key hd' hd (hid'.trans hid.symm)]
      simpa [live] using hlive)
    (fun marker nowMs => hid ▸ docPublishVersion_session hI.ids hd hsession hlive marker nowMs)
  have hqueue := h.queue_eq
  have hother : ∀ q, q ≠ p → s'.stages q = s.stages q := fun q hne => h.stages_of_ne hne
  have hsessions : ∀ q, (∃ d ∈ s.docs, d.docId = cfg.docId q ∧ isSession d = true) →
      ∃ d ∈ s'.docs, d.docId = cfg.docId q ∧ isSession d = true := by
    intro q hq
    rcases hwrites with ⟨hdocs, -⟩ | ⟨status, msg, hdocs, -⟩ <;> rw [hdocs]
    · exact hq
    · exact exists_session hq
  constructor
  · rw [hqueue]
    exact hI.queue
  · rw [hqueue]
    exact hI.tasks
  · rw [hqueue]
    intro q hq hqturn
    obtain ⟨hc, hd⟩ := hI.turns q hq hqturn
    exact ⟨hc, hsessions q hd⟩
  · rw [hqueue]
    exact hI.working
  · rw [hqueue]
    intro q hqturn hidle
    have hne : q ≠ p := by
      rintro rfl
      rcases hidle with hno | hin
      · exact hno hacc
      · exact hI.queue.left q hwork hin
    rw [hother q hne]
    exact hI.idle q hqturn hidle
  · rw [hqueue]
    intro q hq hqturn hnq hnw
    rw [hother q fun he => hnw (he ▸ hwork)]
    exact hI.left q hq hqturn hnq hnw
  · intro q hqturn
    by_cases hne : q = p
    · rw [hne]
      exact h.calm hok hbooks
    · rw [hother q hne]
      exact hI.calm q hqturn
  · exact h.distinct hI.distinct
  · intro q hqturn
    by_cases hne : q = p
    · rw [hne]
      exact h.books_self hok (hI.calm p hturn) hbooks
    · exact h.books_other hne hI.distinct hbooks (hI.books q hqturn)
  · rcases hwrites with ⟨hdocs, -⟩ | ⟨status, msg, hdocs, -⟩ <;> rw [hdocs]
    · exact hI.ids
    · exact hI.ids.updateWhere fun _ _ => rfl
  · -- the row of the turn's document has the status just written, the others keep theirs
    have hended : ∀ q, s.stages q = .ended → s'.stages q = .ended := by
      intro q hst
      have hne : q ≠ p := by
        rintro rfl
        have := h.not_final
        rw [hst] at this
        cases this
      rw [hother q hne]
      exact hst
    intro d' hd' hsession'
    rcases hwrites with ⟨hdocs, hbusy⟩ | ⟨status, msg, hdocs, hst⟩
    · rw [hdocs] at hd'
      refine (hI.status d' hd' hsession').frame (fun q hq _ hst => ⟨hqueue ▸ hq, hended q hst⟩) fun q hq _ hst => ?_
      refine ⟨hqueue ▸ hq, ?_⟩
      by_cases hne : q = p
      · rw [hne]
        exact hbusy
      · rw [hother q hne]
        exact hst
    · rw [hdocs] at hd'
      rcases mem_updateStatusLocked hd' with ⟨d₀, hd₀, hid₀, -, rfl⟩ | ⟨hd', hdead⟩
      · rcases hst with rfl | ⟨rfl, hst⟩ | ⟨rfl, hst⟩
        · exact .inl rfl
        · exact .inr (.inl ⟨rfl, p, hqueue ▸ hacc, hturn, hid₀.symm, hst⟩)
        · exact .inr (.inr ⟨rfl, p, hqueue ▸ hwork, hturn, hid₀.symm, hst⟩)
      · have hacc' := hI.status d' hd' hsession'
        refine hacc'.frame (fun q hq _ hst => ⟨hqueue ▸ hq, hended q hst⟩) fun q hq hdoc hst => ?_
        have hne : q ≠ p := by
          rintro rfl
          have := hdead hdoc.symm
          rw [hacc'.isLive] at this
          cases this
        exact ⟨hqueue ▸ hq, by rw [hother q hne]; exact hst⟩

theorem Inv.queued (hI : Inv cfg s) {queue' : TaskQueue.State} (hq : TaskQueue.Inv queue')
    (htasks : ∀ p, cfg.isTurn p = true → queue'.tasks p = s.queue.tasks p)
    (haccepted : ∀ p ∈ s.queue.accepted, p ∈ queue'.accepted)
    (hturns : ∀ p ∈ queue'.accepted, cfg.isTurn p = true → p ∈ s.queue.accepted ∨
      (cfg.tasks p).cancelled = false ∧ ∃ d ∈ s.docs, d.docId = cfg.docId p ∧ isSession d = true)
    (hworking : ∀ p ∈ queue'.working, cfg.isTurn p = true → p ∈ queue'.accepted)
    (hidle : ∀ p, cfg.isTurn p = true → p ∉ queue'.accepted ∨ p ∈ queue'.queue.queue →
      p ∉ s.queue.accepted ∨ p ∈ s.queue.queue.queue)
    (hleft : ∀ p ∈ queue'.accepted, cfg.isTurn p = true → p ∉ queue'.queue.queue → p ∉ queue'.working →
      (s.stages p).final = true)
    (hbusy : ∀ p ∈ s.queue.working, (s.stages p).busy = true → cfg.isTurn p = true → p ∈ queue'.working) :
    Inv cfg { s with queue := queue' } where
  queue := hq
  tasks p hp := (htasks p hp).trans (hI.tasks p hp)
  turns p hp hturn := (hturns p hp hturn).elim (fun h => hI.turns p h hturn) id
  working := hworking
  idle p hturn h := hI.idle p hturn (hidle p hturn h)
  left := hleft
  calm := hI.calm
  distinct := hI.distinct
  books p hturn :=
    have h := hI.books p hturn
    ⟨h.rows, h.points, h.logged, h.own⟩
  ids := hI.ids
  status d hd hsession := by
    rcases hI.status d hd hsession with h | ⟨h, p, hp, hturn, hdoc, hst⟩ | ⟨h, p, hp, hturn, hdoc, hst⟩
    · exact .inl h
    · exact .inr (.inl ⟨h, p, haccepted p hp, hturn, hdoc, hst⟩)
    · exact .inr (.inr ⟨h, p, hbusy p hp hst hturn, hturn, hdoc, hst⟩)

theorem Inv.foreign (hI : Inv cfg s) (h : Foreign s s') : Inv cfg s' := by
  constructor
  · rw [h.queue]
    exact hI.queue
  · rw [h.queue]
    exact hI.tasks
  · rw [h.queue]
    intro p hp hturn
    obtain ⟨hc, d, hd, hid, hsession⟩ := hI.turns p hp hturn
    exact ⟨hc, d, h.old d hd hsession, hid, hsession⟩
  · rw [h.queue]
    exact hI.working
  · rw [h.queue, h.stages]
    exact hI.idle
  · rw [h.queue, h.stages]
    exact hI.left
  · rw [h.stages]
    exact hI.calm
  · rw [h.drawn]
    exact hI.distinct
  · intro p hturn
    refine (hI.books p hturn).frame (by rw [h.stages]) ?_ ?_ (by rw [h.recorded]; exact fun _ hin => hin) (by rw [h.drawn]; exact fun _ hin => hin)
    · rw [h.drawn, h.rows]
    · rw [h.drawn, h.points]
  · exact h.ids hI.ids
  · intro d hd hsession
    rcases h.new d hd hsession with hd | hready
    · refine (hI.status d hd hsession).frame (fun p hp _ hst => ?_) fun p hp _ hst => ?_
      · rw [h.queue, h.stages]
        exact ⟨hp, hst⟩
      · rw [h.queue, h.stages]
        exact ⟨hp, hst⟩
    · exact .inl hready

theorem Inv.submit (hI : Inv cfg s) {order : List Nat}
    (hdoc : cfg.isTurn p = true → s.docs.any (cfg.sessionOf p) = true ∧ (cfg.tasks p).cancelled = false)
    (h : s.queued (.push p order) = some s') : Inv cfg s' := by
  obtain ⟨queue', hq, rfl⟩ := queued_eq_some h
  have hqI := hI.queue.step hq
  obtain rfl | ⟨hnew, hsort, rfl⟩ := TaskQueue.step_push hq
  · exact hI
  rw [not_or] at hnew
  refine hI.queued hqI (fun _ _ => rfl) (fun x hx => List.mem_cons_of_mem _ hx) (fun x hx hturn => ?_)
    (fun x hx hturn => List.mem_cons_of_mem _ (hI.working x hx hturn)) (fun x hturn hidle => ?_)
    (fun x hx hturn hnq hnw => ?_) (fun x hx _ _ => hx)
  · rcases List.mem_cons.mp hx with rfl | hx
    · obtain ⟨hany, hc⟩ := hdoc hturn
      obtain ⟨d, hd, hof⟩ := List.any_eq_true.mp hany
      simp only [Config.sessionOf, Bool.and_eq_true, beq_iff_eq, and_assoc] at hof
      exact .inr ⟨hc, d, hd, hof.1, hof.2.1⟩
    · exact .inl hx
  · rcases hidle with hno | hin
    · exact .inl fun hx => hno (List.mem_cons_of_mem _ hx)
    · rcases List.mem_append.mp (hsort.1.mem_iff.mp hin) with hin | hx
      · exact .inr hin
      · rw [List.mem_singleton.mp hx]
        exact .inl hnew.1
  · have hne : x ≠ p := by
      rintro rfl
      exact hnq (hsort.1.mem_iff.mpr (by simp))
    exact hI.left x (List.mem_of_ne_of_mem hne hx) hturn (fun hin => hnq (hsort.1.mem_iff.mpr (by simp [hin]))) hnw

theorem Inv.pop (hI : Inv cfg s) (h : s.queued .pop = some s') : Inv cfg s' := by
  obtain ⟨queue', hq, rfl⟩ := queued_eq_some h
  have hqI := hI.queue.step hq
  -- a turn in the queue is not cancelled, and is not skipped
  have hkept : ∀ x ∈ s.queue.accepted, cfg.isTurn x = true → (s.queue.tasks x).cancelled = false := by
    intro x hx hturn
    rw [hI.tasks x hturn]
    exact (hI.turns x hx hturn).1
  obtain ⟨skipped, hskip, ⟨hqueue, rfl⟩ | ⟨p, rest, hqueue, -, rfl⟩⟩ := TaskQueue.step_pop hq
  · refine hI.queued hqI (fun _ _ => rfl) (fun _ hx => hx) (fun x hx _ => .inl hx) hI.working ?_ ?_ (fun x hx _ _ => hx)
    · rintro x - (hno | hin)
      · exact .inl hno
      · cases hin
    · intro x hx hturn _ hnw
      refine hI.left x hx hturn (fun hin => ?_) hnw
      have hc := hskip x (hqueue ▸ hin)
      rw [hkept x hx hturn] at hc
      cases hc
  · refine hI.queued hqI (fun _ _ => rfl) (fun _ hx => hx) (fun x hx _ => .inl hx) ?_ ?_ ?_
      (fun x hx _ _ => List.mem_cons_of_mem _ hx)
    · intro x hx hturn
      rcases List.mem_cons.mp hx with rfl | hx
      · exact hI.queue.accepted_of_queued (by rw [hqueue]; simp)
      · exact hI.working x hx hturn
    · rintro x - (hno | hin)
      · exact .inl hno
      · exact .inr (by rw [hqueue]; exact List.mem_append_right _ (List.mem_cons_of_mem _ hin))
    · intro x hx hturn hnq hnw
      obtain ⟨hne, hnw⟩ := not_or.mp (mt List.mem_cons.mpr hnw)
      refine hI.left x hx hturn (fun hin => ?_) hnw
      rw [hqueue] at hin
      rcases List.mem_append.mp hin with hin | hin
      · have hc := hskip x hin
        rw [hkept x hx hturn] at hc
        cases hc
      · rcases List.mem_cons.mp hin with rfl | hin
        · exact hne rfl
        · exact hnq hin

theorem Inv.finish (hI : Inv cfg s) (hfinal : cfg.isTurn p = true → (s.stages p).final = true)
    (h : s.queued (.finishTask p) = some s') : Inv cfg s' := by
  obtain ⟨queue', hq, rfl⟩ := queued_eq_some h
  have hqI := hI.queue.step hq
  obtain ⟨-, rfl⟩ := TaskQueue.step_finishTask hq
  refine hI.queued hqI (fun _ _ => rfl) (fun _ hx => hx) (fun x hx _ => .inl hx)
    (fun x hx hturn => hI.working x (List.mem_of_mem_erase hx) hturn) (fun _ _ h => h) ?_ ?_
  · intro x hx hturn hnq hnw
    by_cases hne : x = p
    · rw [hne]
      exact hfinal (hne ▸ hturn)
    · exact hI.left x hx hturn hnq fun hw => hnw ((List.mem_erase_of_ne hne).mpr hw)
  · intro x hx hbusy hturn
    have hne : x ≠ p := by
      rintro rfl
      exact absurd hbusy (by rw [Stage.not_busy_of_final (hfinal hturn)]; exact Bool.false_ne_true)
    exact (List.mem_erase_of_ne hne).mpr hx

def Act.faultless : Act → Bool
  | .turn _ a => a.faultless
  | .load _ _ => false
  | _ => true

theorem inv_step {a : Act} (hI : Inv cfg s) (hok : a.faultless = true) (h : step cfg s a = some s') : Inv cfg s' := by
  cases a with
  | openSession _ _ _ | lock _ | unlock _ | documents _ | addBlock _ | addPoint _ | deleteBlock _ | deletePoint _ =>
    exact hI.foreign (foreign_of_step rfl h)
  | submit p order =>
    simp only [step] at h
    split at h
    · cases h
    · rename_i hdoc
      exact hI.submit (fun hturn => by simpa [hturn] using hdoc) h
  | pop => exact hI.pop h
  | cancelQueuedVersions ns st sp =>
    simp only [step] at h
    split at h
    · rename_i hver
      obtain ⟨queue', hq, rfl⟩ := queued_eq_some h
      have hqI := hI.queue.step hq
      cases hq
      refine hI.queued hqI (fun p hp => ?_) (fun _ hx => hx) (fun x hx _ => .inl hx) hI.working (fun _ _ h => h) hI.left
        (fun x hx _ _ => hx)
      refine cancelQueuedVersions_of_ne s.queue.tasks s.queue.queue fun hst => ?_
      have htype : (cfg.tasks p).sourceType = "memory_session" := by
        simp only [Config.isTurn, Bool.and_eq_true, beq_iff_eq] at hp
        exact hp.1
      rw [hI.tasks p hp, htype] at hst
      rw [← hst] at hver
      revert hver
      decide
    · cases h
  | beginRunning p =>
    simp only [step] at h
    split at h
    · cases h
    · rename_i hno
      obtain ⟨queue', hq, rfl⟩ := queued_eq_some h
      have hqI := hI.queue.step hq
      obtain ⟨-, rfl⟩ := TaskQueue.step_beginRunning hq
      refine hI.queued hqI (fun _ _ => rfl) (fun _ hx => hx) (fun x hx _ => .inl hx) ?_ (fun _ _ h => h)
        (fun x hx hturn hnq hnw => hI.left x hx hturn hnq fun hw => hnw (List.mem_cons_of_mem _ hw))
        (fun x hx _ _ => List.mem_cons_of_mem _ hx)
      intro x hx hturn
      rcases List.mem_cons.mp hx with rfl | hx
      · exact absurd hturn hno
      · exact hI.working x hx hturn
  | turn p a =>
    simp only [step] at h
    split at h
    · rename_i hgo
      obtain ⟨hturn, hwork⟩ := (Bool.and_eq_true _ _).mp hgo
      exact hI.turn hturn (by simpa using hwork) (turnStep_cases h) hok
    · cases h
  | finishTask p =>
    simp only [step] at h
    split at h
    · cases h
    · rename_i hfin
      exact hI.finish (fun hturn => by simpa [hturn] using hfin) h
  | load rowGone pointGone => cases hok

/-! ## The moment of `BeginWrite` -/

/-- Turn `p` calls `BeginWrite` in state `t` of the run. -/
def Began (cfg : Config) (acts : List Act) (p : Nat) (t : State) : Prop :=
  ∃ pre blockId, pre ++ [.turn p (.reserve blockId)] <+: acts ∧ Lib.run (step cfg) (init cfg) pre = some t

theorem Began.append {acts : List Act} (h : Began cfg acts p t) (a : Act) : Began cfg (acts ++ [a]) p t := by
  obtain ⟨pre, b, hpre, hrun⟩ := h
  exact ⟨pre, b, hpre.trans (List.prefix_append _ _), hrun⟩

def Stage.refused : Stage → Bool
  | .failed _ => true
  | .ended => true
  | _ => false

/-- What the stages say of the `BeginWrite` of each turn. -/
structure Hist (cfg : Config) (acts : List Act) (s : State) : Prop where
  admitted : ∀ p, cfg.isTurn p = true → (s.stages p).block ≠ none →
    ∃ t, Began cfg acts p t ∧ t.locked (cfg.docId p) = false
  refused : ∀ p, cfg.isTurn p = true → (s.stages p).refused = true →
    ∃ t, Began cfg acts p t ∧ t.locked (cfg.docId p) = true

theorem Hist.step {acts : List Act} {a : Act} (hrun : Lib.run (step cfg) (init cfg) acts = some s) (hI : Inv cfg s)
    (hH : Hist cfg acts s) (hok : a.faultless = true) (h : SessionTurns.step cfg s a = some s') :
    Hist cfg (acts ++ [a]) s' := by
  have hadmitted : ∀ q, cfg.isTurn q = true → (s.stages q).block ≠ none →
      ∃ t, Began cfg (acts ++ [a]) q t ∧ t.locked (cfg.docId q) = false := by
    intro q hturn hst
    obtain ⟨t, ht, hlock⟩ := hH.admitted q hturn hst
    exact ⟨t, ht.append a, hlock⟩
  have hrefused : ∀ q, cfg.isTurn q = true → (s.stages q).refused = true →
      ∃ t, Began cfg (acts ++ [a]) q t ∧ t.locked (cfg.docId q) = true := by
    intro q hturn hst
    obtain ⟨t, ht, hlock⟩ := hH.refused q hturn hst
    exact ⟨t, ht.append a, hlock⟩
  rcases stages_step h with ⟨p, b, rfl, hturn, hwork, hT⟩ | hstages
  · have hnow : ∀ {id : UInt64}, b = .reserve id → Began cfg (acts ++ [.turn p b]) p s :=
      fun {id} hb => hb ▸ ⟨acts, id, List.prefix_refl _, hrun⟩
    have hacc := hI.working p hwork hturn
    obtain ⟨hcancel, d, hd, hid, hsession⟩ := hI.turns p hacc hturn
    have hmine : ((s'.stages p).block ≠ none → ∃ t, Began cfg (acts ++ [.turn p b]) p t ∧ t.locked (cfg.docId p) = false) ∧
        ((s'.stages p).refused = true → ∃ t, Began cfg (acts ++ [.turn p b]) p t ∧ t.locked (cfg.docId p) = true) := by
      cases hT with
      | dropped hat hno =>
        rcases hno with hno | rfl | ⟨d', hd', hid', hst⟩
        · rw [hI.tasks p hturn, hcancel] at hno
          cases hno
        · cases hok
        · rw [hI.ids.eq_of_key hd' hd (hid'.trans hid.symm)] at hst
          have := (hI.status d hd hsession).isLive
          rw [live, hst] at this
          cases this
      | refused _ _ hlock =>
        rw [goTo_self]
        exact ⟨fun hne => absurd rfl hne, fun _ => ⟨s, hnow rfl, hlock⟩⟩
      | reserved _ _ hlock =>
        rw [goTo_self]
        exact ⟨fun _ => ⟨s, hnow rfl, hlock⟩, fun hno => by cases hno⟩
      | started _ =>
        rw [goTo_self]
        exact ⟨fun hne => absurd rfl hne, fun hno => by cases hno⟩
      | notEmbedded _ | notAppended _ | notPointed _ | notRecorded _ => cases hok
      | notInserted hat hno =>
        rcases hno with rfl | ⟨x, hx, hxid⟩
        · cases hok
        · exact absurd hxid ((hI.books p hturn).row_free hat x hx)
      | notRolledBack hat => exact absurd hat (hI.calm p hturn _ _)
      | rolledBack hat => exact absurd hat (hI.calm p hturn _ _)
      | failed hat =>
        rw [goTo_self]
        exact ⟨fun hne => absurd rfl hne, fun _ => hrefused p hturn (by rw [hat]; rfl)⟩
      | appended hat | pointed hat | inserted hat _ | recorded hat | released hat | published hat =>
        rw [goTo_self]
        exact ⟨fun _ => hadmitted p hturn (by rw [hat]; exact Option.some_ne_none _), fun hno => by cases hno⟩
    refine ⟨fun q hq hst => ?_, fun q hq hst => ?_⟩ <;> by_cases hne : q = p
    · exact hne ▸ hmine.1 (hne ▸ hst)
    · exact hadmitted q hq (hT.stages_of_ne hne ▸ hst)
    · exact hne ▸ hmine.2 (hne ▸ hst)
    · exact hrefused q hq (hT.stages_of_ne hne ▸ hst)
  · refine ⟨fun q hq hst => hadmitted q hq ?_, fun q hq hst => hrefused q hq ?_⟩
    · rw [← hstages]
      exact hst
    · rw [← hstages]
      exact hst

theorem inv_run {acts : List Act} (hrun : Lib.run (step cfg) (init cfg) acts = some s)
    (hok : ∀ a ∈ acts, a.faultless = true) : Inv cfg s ∧ Hist cfg acts s := by
  have halong : Along (step cfg) (fun _ a => a.faultless = true) (init cfg) acts := by
    rw [along_iff_forall]
    intro pre a t hpre _
    exact hok a (hpre.subset (by simp))
  refine run_history (H := fun acts s => Inv cfg s ∧ Hist cfg acts s) ⟨inv_init cfg, ?_, ?_⟩ ?_ halong hrun
  · exact fun _ _ h => absurd rfl h
  · exact fun _ _ h => by cases h
  · rintro as t a t' ht ⟨hI, hH⟩ hfa hstep
    exact ⟨inv_step hI hfa hstep, hH.step ht hI hfa hstep⟩

/-! ## What becomes of a turn -/

/-- The task was accepted and has left the queue and its worker. -/
def Finished (s : State) (p : Nat) : Prop :=
  p ∈ s.queue.accepted ∧ p ∉ s.queue.queue.queue ∧ p ∉ s.queue.working

def AllFinished (s : State) : Prop := s.queue.queue.queue = [] ∧ s.queue.working = []

instance (s : State) (p : Nat) : Decidable (Finished s p) := inferInstanceAs (Decidable (_ ∧ _ ∧ _))

instance (s : State) : Decidable (AllFinished s) := inferInstanceAs (Decidable (_ ∧ _))

/-- The turn has one committed block and one live point, under an id of its own. -/
def Stored (cfg : Config) (s : State) (p : Nat) : Prop :=
  ∃ blockId, ownRows s.drawn p s.blocks = [cfg.block p blockId] ∧ ownPoints s.drawn p s.points = [blockId] ∧
    blockId ∈ s.recorded ∧ ∀ q, (blockId, q) ∈ s.drawn → q = p

/-- Nothing is stored under the ids of the turn. -/
def Absent (s : State) (p : Nat) : Prop := ownRows s.drawn p s.blocks = [] ∧ ownPoints s.drawn p s.points = []

/-- Whatever the workers do, a finished turn is stored once if its document had no live transaction when it called
`BeginWrite`, and not at all if it had one; and when all is finished the session's document is ready, unless the last
status is the error of a refused turn. -/
theorem turn_stored_unless_refused (cfg : Config) (acts : List Act) (s : State)
    (hrun : Lib.run (step cfg) (init cfg) acts = some s) (hok : ∀ a ∈ acts, a.faultless = true) :
    (∀ p, cfg.isTurn p = true → Finished s p → ∃ t, Began cfg acts p t ∧
      if t.locked (cfg.docId p) then Absent s p else Stored cfg s p) ∧
    (AllFinished s → ∀ d ∈ s.docs, isSession d = true → d.status = .ready ∨
      d.status = .error ∧ ∃ p, cfg.isTurn p = true ∧ Finished s p ∧ cfg.docId p = d.docId ∧
        ∃ t, Began cfg acts p t ∧ t.locked d.docId = true) := by
  obtain ⟨hI, hH⟩ := inv_run hrun hok
  constructor
  · rintro p hturn ⟨hacc, hnq, hnw⟩
    have hfinal := hI.left p hacc hturn hnq hnw
    have hbooks := hI.books p hturn
    cases hst : s.stages p with
    | done blockId =>
      obtain ⟨t, hbegan, hlock⟩ := hH.admitted p hturn (by rw [hst]; exact Option.some_ne_none _)
      refine ⟨t, hbegan, ?_⟩
      rw [hlock, if_neg (by simp)]
      have hown : (blockId, p) ∈ s.drawn := hbooks.own blockId (by rw [hst]; rfl)
      refine ⟨blockId, ?_, ?_, hbooks.logged blockId (by rw [hst]; rfl), fun q hq => hI.distinct _ _ _ hq hown⟩
      · exact hbooks.rows.trans (by rw [hst]; rfl)
      · exact hbooks.points.trans (by rw [hst]; rfl)
    | ended =>
      obtain ⟨t, hbegan, hlock⟩ := hH.refused p hturn (by rw [hst]; rfl)
      refine ⟨t, hbegan, ?_⟩
      rw [hlock, if_pos rfl]
      exact ⟨hbooks.rows.trans (by rw [hst]; rfl), hbooks.points.trans (by rw [hst]; rfl)⟩
    | _ =>
      rw [hst] at hfinal
      cases hfinal
  · rintro ⟨hqueue, hworking⟩ d hd hsession
    rcases hI.status d hd hsession with h | ⟨h, p, hp, hturn, hdoc, hst⟩ | ⟨-, p, hp, -⟩
    · exact .inl h
    · obtain ⟨t, hbegan, hlock⟩ := hH.refused p hturn (by rw [hst]; rfl)
      refine .inr ⟨h, p, hturn, ⟨hp, ?_, ?_⟩, hdoc, t, hbegan, hdoc ▸ hlock⟩
      · rw [hqueue]
        exact List.not_mem_nil
      · rw [hworking]
        exact List.not_mem_nil
    · rw [hworking] at hp
      cases hp

def oneSession : Config where
  namespaceName := "n"
  maxSize := 10
  tasks _ := { docId := "d", namespaceName := "n", sourceType := "memory_session", sourcePath := "s", priority := .kP0 }
  queryText _ := "q"
  responseText _ := "a"

/-- From the reservation to the ready write. -/
def write (p : Nat) (blockId : UInt64) : List Act :=
  [.turn p (.reserve blockId), .turn p (.append none), .turn p (.addPoints none), .turn p (.insert true),
    .turn p (.commit none), .turn p .release, .turn p (.publish true true 0)]

/-- Two workers take two turns of the session; the second one asks for the document while the first one writes. -/
def twoTurns : List Act :=
  [.openSession "d" "s" "", .submit 0 [0], .submit 1 [0, 1], .pop, .pop, .turn 0 (.start true true),
    .turn 1 (.start true true), .turn 0 (.reserve 7), .turn 1 (.reserve 8)] ++ (write 0 7).tail ++
      [.turn 1 (.markError true), .finishTask 0, .finishTask 1]

theorem turn_stored_unless_refused_twoTurns : ∃ s, Lib.run (step oneSession) (init oneSession) twoTurns = some s ∧
    (∀ p, oneSession.isTurn p = true → Finished s p → ∃ t, Began oneSession twoTurns p t ∧
      if t.locked (oneSession.docId p) then Absent s p else Stored oneSession s p) ∧
    (AllFinished s → ∀ d ∈ s.docs, isSession d = true → d.status = .ready ∨
      d.status = .error ∧ ∃ p, oneSession.isTurn p = true ∧ Finished s p ∧ oneSession.docId p = d.docId ∧
        ∃ t, Began oneSession twoTurns p t ∧ t.locked d.docId = true) := by
  have h : (Lib.run (step oneSession) (init oneSession) twoTurns).isSome = true := by decide +kernel
  obtain ⟨s, hs⟩ := Option.isSome_iff_exists.mp h
  have hok : ∀ a ∈ twoTurns, a.faultless = true := List.all_eq_true.mp (by decide)
  exact ⟨s, hs, turn_stored_unless_refused oneSession twoTurns s hs hok⟩

/-- The second turn is not stored, and the document is left in error. -/
theorem twoTurns_second_lost : ∃ s, Lib.run (step oneSession) (init oneSession) twoTurns = some s ∧
    (∀ a ∈ twoTurns, a.faultless = true) ∧ AllFinished s ∧ Finished s 1 ∧ ¬ Stored oneSession s 1 ∧
      ∃ d ∈ s.docs, isSession d = true ∧ d.status = .error := by
  have h : (Lib.run (step oneSession) (init oneSession) twoTurns).any (fun s =>
      decide (AllFinished s) && decide (Finished s 1) && (ownRows s.drawn 1 s.blocks).isEmpty &&
        s.docs.any fun d => isSession d && d.status == .error) = true := by
    decide +kernel
  obtain ⟨s, hs, h⟩ := (Option.any_eq_true _ _).mp h
  simp only [Bool.and_eq_true, decide_eq_true_eq, List.isEmpty_iff, List.any_eq_true, beq_iff_eq, and_assoc] at h
  obtain ⟨hall, hfin, hrows, hdoc⟩ := h
  refine ⟨s, hs, List.all_eq_true.mp (by decide), hall, hfin, ?_, hdoc⟩
  rintro ⟨b, hb, -⟩
  rw [hrows] at hb
  cases hb

end SessionTurns

end Cortrix.Memory
