import Cortrix.Memory.ConcurrentTurns

/-!
# The earlier turns of a session after a crash

Every run of the turns' machine, with its failures, crashes and loads.

* `intact_iff_spared` : committed turns stay intact along a run exactly when every load spares the sessions.
-/

namespace Cortrix.Memory
open Lib Metadata Query Spc Store.Documents

namespace SessionTurns

variable {cfg : Config} {s s' t : State} {p q : Nat} {blockId : UInt64}

/-! ## What is promised -/

def HasRow (s : State) (id : UInt64) : Prop := ∃ b ∈ s.blocks, b.blockId = id

/-- A block whose transaction has a COMMITTED record is there with its point and its session's document, and the ready
write of a turn makes each session's document ready. -/
structure Intact (s : State) : Prop where
  rows : ∀ id ∈ s.recorded, ∃ b ∈ s.blocks, b.blockId = id ∧ ∃ d ∈ s.docs, d.docId = b.docId ∧ isSession d = true
  points : ∀ id ∈ s.recorded, id ∈ s.points
  ready : ∀ d ∈ s.docs, isSession d = true → ∀ marker nowMs,
    ∃ d' ∈ docPublishVersion marker d.docId nowMs s.docs, d'.docId = d.docId ∧ d'.status = .ready

/-- A load finds no committed turn in a session's document that is being processed. -/
def Spared (s : State) : Act → Prop
  | .load _ _ => ∀ d ∈ s.docs, isSession d = true → d.status = .processing → ∀ b ∈ s.blocks, b.docId = d.docId →
      b.blockId ∉ s.recorded
  | _ => True

/-! ## What every step keeps -/

def usual : DocStatus → Bool
  | .ready | .processing | .error | .pending => true
  | _ => false

/-- What a worker has written of its turn is there, and nobody else holds its id. -/
structure Held (cfg : Config) (s : State) (p : Nat) : Prop where
  own : ∀ id, (s.stages p).block = some id → (id, p) ∈ s.drawn
  fresh : ∀ id, (s.stages p).block = some id → (s.stages p).logged = none → id ∉ s.recorded
  row : ∀ id, (s.stages p).row = some id → HasRow s id
  point : ∀ id, (s.stages p).point = some id → id ∈ s.points
  unlogged : ∀ id, s.stages p = .reserved id → ∀ x ∈ s.pending, x.blockId ≠ id

structure Safe (cfg : Config) (s : State) : Prop where
  ids : Keyed Doc.docId s.docs
  rowIds : Keyed CortrixBlock.blockId s.blocks
  pendingIds : Keyed Pending.blockId s.pending
  status : ∀ d ∈ s.docs, isSession d = true → usual d.status = true
  distinct : Distinct s.drawn
  queue : TaskQueue.Inv s.queue
  working : ∀ p ∈ s.queue.working, cfg.isTurn p = true → p ∈ s.queue.accepted
  turns : ∀ p ∈ s.queue.accepted, cfg.isTurn p = true → ∃ d ∈ s.docs, d.docId = cfg.docId p ∧ isSession d = true
  idle : ∀ p, cfg.isTurn p = true → p ∉ s.queue.accepted ∨ p ∈ s.queue.queue.queue → s.stages p = .popped
  held : ∀ p ∈ s.queue.working, cfg.isTurn p = true → Held cfg s p
  drawn : ∀ id p, (id, p) ∈ s.drawn → cfg.isTurn p = true ∧ p ∈ s.queue.accepted
  /-- What is stored under the id of a turn is its block. -/
  rows : ∀ b ∈ s.blocks, ∀ p, (b.blockId, p) ∈ s.drawn → b.docId = cfg.docId p
  pending : ∀ x ∈ s.pending, (∃ p, (x.blockId, p) ∈ s.drawn) ∧ x.blockId ∉ s.recorded
  recorded : ∀ id ∈ s.recorded, (∃ p, (id, p) ∈ s.drawn) ∧ HasRow s id ∧ id ∈ s.points

theorem Safe.live_of_session (hS : Safe cfg s) {d : Doc} (hd : d ∈ s.docs) (hsession : isSession d = true) :
    live d = true := by
  have := hS.status d hd hsession
  unfold live
  cases hst : d.status <;> simp [hst, usual] at this ⊢

theorem Safe.session_of_row (hS : Safe cfg s) {b : CortrixBlock} (hb : b ∈ s.blocks) (hp : (b.blockId, p) ∈ s.drawn) :
    ∃ d ∈ s.docs, d.docId = b.docId ∧ isSession d = true := by
  obtain ⟨hturn, hacc⟩ := hS.drawn _ _ hp
  obtain ⟨d, hd, hid, hsession⟩ := hS.turns p hacc hturn
  exact ⟨d, hd, hid.trans (hS.rows b hb p hp).symm, hsession⟩

theorem Safe.intact (hS : Safe cfg s) : Intact s := by
  refine ⟨fun id hid => ?_, fun id hid => (hS.recorded id hid).2.2, fun d hd hsession marker nowMs => ?_⟩
  · obtain ⟨⟨p, hp⟩, ⟨b, hb, rfl⟩, -⟩ := hS.recorded id hid
    exact ⟨b, hb, rfl, hS.session_of_row hb hp⟩
  · have hlive := hS.live_of_session hd hsession
    rw [docPublishVersion_session hS.ids hd hsession hlive]
    refine ⟨_, mem_updateWhere_of_mem hd, ?_⟩
    rw [if_pos (by simp [statusGuard, hlive])]
    exact ⟨rfl, rfl⟩

theorem safe_init (cfg : Config) : Safe cfg (init cfg) where
  ids := Keyed.nil
  rowIds := Keyed.nil
  pendingIds := Keyed.nil
  status d hd := by cases hd
  distinct _ _ _ h := by cases h
  queue := TaskQueue.Inv.start ..
  working p hp := by cases hp
  turns p hp := by cases hp
  idle _ _ _ := rfl
  held p hp := by cases hp
  drawn _ _ h := by cases h
  rows b hb := by cases hb
  pending x hx := by cases hx
  recorded id hid := by cases hid

/-! ## The step of a turn -/

namespace Turned

variable {a : TurnAct}

theorem recorded_cases (h : Turned cfg s p a s') {id : UInt64} (hid : id ∈ s'.recorded) :
    id ∈ s.recorded ∨ s.stages p = .inserted id ∧ s'.stages p = .recorded id ∧ ∀ x ∈ s'.pending, x.blockId ≠ id := by
  cases h with
  | recorded hat =>
    rcases List.mem_cons.mp hid with rfl | hid
    · refine .inr ⟨hat, goTo_self, fun x hx => ?_⟩
      simpa using (List.mem_filter.mp hx).2
    · exact .inl hid
  | _ => exact .inl hid

theorem keeps (h : Turned cfg s p a s') {id : UInt64} (hid : ∀ msg, s.stages p ≠ .failing id msg) :
    (HasRow s id → HasRow s' id) ∧ (id ∈ s.points → id ∈ s'.points) := by
  cases h with
  | pointed _ => exact ⟨fun h => h, fun h => List.mem_cons_of_mem _ h⟩
  | inserted _ _ => exact ⟨fun ⟨b, hb, h⟩ => ⟨b, List.mem_append_left _ hb, h⟩, fun h => h⟩
  | @rolledBack blockId msg rowGone pointGone hat =>
    have hne : id ≠ blockId := fun he => hid msg (he ▸ hat)
    constructor
    · rintro ⟨b, hb, rfl⟩
      refine ⟨b, ?_, rfl⟩
      show b ∈ if rowGone then _ else _
      split
      · exact mem_deleteWhere.mpr ⟨hb, by simpa using hne⟩
      · exact hb
    · intro hpoint
      show id ∈ if pointGone then _ else _
      split
      · exact List.mem_filter.mpr ⟨hpoint, by simpa using hne⟩
      · exact hpoint
  | _ => exact ⟨fun h => h, fun h => h⟩

theorem blocks_cases (h : Turned cfg s p a s') {b : CortrixBlock} (hb : b ∈ s'.blocks) :
    b ∈ s.blocks ∨ ∃ id, s.stages p = .pointed id ∧ b = cfg.block p id := by
  cases h with
  | @inserted blockId hat _ =>
    rcases List.mem_append.mp hb with hb | hb
    · exact .inl hb
    · exact .inr ⟨blockId, hat, List.mem_singleton.mp hb⟩
  | @rolledBack blockId msg rowGone _ _ =>
    replace hb : b ∈ if rowGone then deleteWhere (fun b => b.blockId == blockId) s.blocks else s.blocks := hb
    split at hb
    · exact .inl (mem_deleteWhere.mp hb).1
    · exact .inl hb
  | _ => exact .inl hb

theorem rowIds (h : Turned cfg s p a s') (hkey : Keyed CortrixBlock.blockId s.blocks) :
    Keyed CortrixBlock.blockId s'.blocks := by
  cases h with
  | inserted _ hnew => exact keyed_append.mpr ⟨hkey, hnew⟩
  | @rolledBack _ _ rowGone _ _ =>
    show Keyed _ (if rowGone then _ else _)
    split
    · exact hkey.deleteWhere
    · exact hkey
  | _ => exact hkey

theorem pending_cases (h : Turned cfg s p a s') {x : Pending} (hx : x ∈ s'.pending) :
    (∃ x₀ ∈ s.pending, x₀.blockId = x.blockId) ∨ s.stages p = .reserved x.blockId ∧ s'.stages p = .begun x.blockId := by
  cases h with
  | appended hat =>
    rcases List.mem_cons.mp hx with rfl | hx
    · exact .inr ⟨hat, goTo_self⟩
    · exact .inl ⟨x, hx, rfl⟩
  | recorded _ => exact .inl ⟨x, (List.mem_filter.mp hx).1, rfl⟩
  | rolledBack _ =>
    obtain ⟨x₀, hx₀, rfl⟩ := mem_updateWhere.mp hx
    refine .inl ⟨x₀, hx₀, ?_⟩
    split <;> rfl
  | _ => exact .inl ⟨x, hx, rfl⟩

theorem pendingIds (h : Turned cfg s p a s') (hp : Held cfg s p) (hkey : Keyed Pending.blockId s.pending) :
    Keyed Pending.blockId s'.pending := by
  cases h with
  | appended hat =>
    refine List.nodup_cons.mpr ⟨fun hin => ?_, hkey⟩
    obtain ⟨x, hx, hid⟩ := List.mem_map.mp hin
    exact hp.unlogged _ hat x hx hid
  | recorded _ => exact hkey.sublist (List.filter_sublist.map _)
  | rolledBack _ => exact hkey.updateWhere fun _ _ => rfl
  | _ => exact hkey

theorem docs_cases (h : Turned cfg s p a s')
    (hpub : ∀ marker nowMs, docPublishVersion marker (cfg.docId p) nowMs s.docs =
      (updateStatusLocked (cfg.docId p) .ready "" s.docs).1) :
    s'.docs = s.docs ∨ ∃ status msg, usual status = true ∧ s'.docs = (updateStatusLocked (cfg.docId p) status msg s.docs).1 := by
  cases h with
  | @started written _ =>
    cases written
    · exact .inl rfl
    · exact .inr ⟨.processing, "", rfl, rfl⟩
  | @published _ ok marker nowMs _ =>
    cases ok
    · exact .inl rfl
    · exact .inr ⟨.ready, "", rfl, hpub marker nowMs⟩
  | @failed msg written _ =>
    cases written
    · exact .inl rfl
    · exact .inr ⟨.error, msg, rfl, rfl⟩
  | _ => exact .inl rfl

theorem held_self (h : Turned cfg s p a s') (hp : Held cfg s p)
    (hnew : ∀ id, unused s id = true → id ∉ s.recorded ∧ ∀ x ∈ s.pending, x.blockId ≠ id) : Held cfg s' p := by
  cases h with
  | dropped _ _ | started _ | notEmbedded _ | refused _ _ _ | notAppended _ | notRecorded _ | notRolledBack _
  | rolledBack _ | failed _ =>
    constructor <;> intro id hid <;> rw [goTo_self] at hid <;> cases hid
  | reserved _ hun _ =>
    obtain ⟨hrec, hpend⟩ := hnew _ hun
    constructor <;> intro id hid <;> rw [goTo_self] at hid <;> cases hid
    · exact List.mem_cons_self
    · exact fun _ => hrec
    · exact hpend
  | appended hat | notPointed hat | notInserted hat _ =>
    constructor <;> intro id hid <;> rw [goTo_self] at hid <;> cases hid
    · exact hp.own _ (by rw [hat]; rfl)
    · exact fun _ => hp.fresh _ (by rw [hat]; rfl) (by rw [hat]; rfl)
  | pointed hat =>
    constructor <;> intro id hid <;> rw [goTo_self] at hid <;> cases hid
    · exact hp.own _ (by rw [hat]; rfl)
    · exact fun _ => hp.fresh _ (by rw [hat]; rfl) (by rw [hat]; rfl)
    · exact List.mem_cons_self
  | inserted hat _ =>
    constructor <;> intro id hid <;> rw [goTo_self] at hid <;> cases hid
    · exact hp.own _ (by rw [hat]; rfl)
    · exact fun _ => hp.fresh _ (by rw [hat]; rfl) (by rw [hat]; rfl)
    · exact ⟨_, List.mem_append_right _ (List.mem_singleton_self _), rfl⟩
    · exact hp.point _ (by rw [hat]; rfl)
  | recorded hat | released hat | published hat =>
    constructor <;> intro id hid <;> rw [goTo_self] at hid <;> cases hid
    · exact hp.own _ (by rw [hat]; rfl)
    · exact fun hno => by
        rw [goTo_self] at hno
        cases hno
    · exact hp.row _ (by rw [hat]; rfl)
    · exact hp.point _ (by rw [hat]; rfl)

end Turned

theorem Held.other {a : TurnAct} (h : Turned cfg s p a s') (hne : q ≠ p) (hd : Distinct s.drawn) (hp : Held cfg s p)
    (hq : Held cfg s q) : Held cfg s' q := by
  have hst := h.stages_of_ne hne
  have hforeign : ∀ id, (id, q) ∈ s.drawn → (s.stages p).block ≠ some id := by
    intro id hid hblock
    exact hne (hd id q p hid (hp.own id hblock))
  have hkeep : ∀ id, (s.stages q).block = some id → (HasRow s id → HasRow s' id) ∧ (id ∈ s.points → id ∈ s'.points) := by
    intro id hid
    refine h.keeps fun msg hat => hforeign id (hq.own id hid) ?_
    rw [hat]
    rfl
  refine ⟨fun id hid => ?_, fun id hid hlog => ?_, fun id hid => ?_, fun id hid => ?_, fun id hid x hx => ?_⟩
  · exact h.drawn_subset _ (hq.own id (hst ▸ hid))
  · rw [hst] at hid hlog
    intro hrec
    rcases h.recorded_cases hrec with hrec | ⟨hat, -⟩
    · exact hq.fresh id hid hlog hrec
    · exact hforeign id (hq.own id hid) (by rw [hat]; rfl)
  · rw [hst] at hid
    exact (hkeep id (Stage.block_of_row hid)).1 (hq.row id hid)
  · rw [hst] at hid
    exact (hkeep id (Stage.block_of_point hid)).2 (hq.point id hid)
  · rw [hst] at hid
    intro hxid
    rcases h.pending_cases hx with ⟨x₀, hx₀, hid₀⟩ | ⟨hat, -⟩
    · exact hq.unlogged id hid x₀ hx₀ (hid₀.trans hxid)
    · exact hforeign id (hq.own id (by rw [hid]; rfl)) (by rw [hat, hxid]; rfl)

theorem drawn_cases {a : TurnAct} (h : Turned cfg s p a s') {x : UInt64 × Nat} (hx : x ∈ s'.drawn) :
    x ∈ s.drawn ∨ x.2 = p ∧ unused s x.1 = true := by
  cases h with
  | refused _ hun _ | reserved _ hun _ =>
    rcases List.mem_cons.mp hx with rfl | hx
    · exact .inr ⟨rfl, hun⟩
    · exact .inl hx
  | _ => exact .inl hx

theorem Safe.turn (hS : Safe cfg s) (hturn : cfg.isTurn p = true) (hwork : p ∈ s.queue.working) {a : TurnAct}
    (h : Turned cfg s p a s') : Safe cfg s' := by
  have hacc := hS.working p hwork hturn
  have hp := hS.held p hwork hturn
  obtain ⟨d₀, hd₀, hid₀, hsession₀⟩ := hS.turns p hacc hturn
  have hdocs := h.docs_cases fun marker nowMs =>
    hid₀ ▸ docPublishVersion_session hS.ids hd₀ hsession₀ (hS.live_of_session hd₀ hsession₀) marker nowMs
  have hqueue := h.queue_eq
  have hnew : ∀ id, unused s id = true → id ∉ s.recorded ∧ ∀ x ∈ s.pending, x.blockId ≠ id := by
    intro id hun
    have hno := (unused_iff.mp hun).1
    constructor
    · intro hrec
      obtain ⟨⟨r, hr⟩, -⟩ := hS.recorded id hrec
      exact hno r hr
    · rintro x hx rfl
      obtain ⟨⟨r, hr⟩, -⟩ := hS.pending x hx
      exact hno r hr
  constructor
  · rcases hdocs with hdocs | ⟨status, msg, -, hdocs⟩ <;> rw [hdocs]
    · exact hS.ids
    · exact hS.ids.updateWhere fun _ _ => rfl
  · exact h.rowIds hS.rowIds
  · exact h.pendingIds hp hS.pendingIds
  · intro d hd hsession
    rcases hdocs with hdocs | ⟨status, msg, husual, hdocs⟩ <;> rw [hdocs] at hd
    · exact hS.status d hd hsession
    · rcases mem_updateStatusLocked hd with ⟨d', hd', -, -, rfl⟩ | ⟨hd, -⟩
      · exact husual
      · exact hS.status d hd hsession
  · exact h.distinct hS.distinct
  · rw [hqueue]
    exact hS.queue
  · rw [hqueue]
    exact hS.working
  · rw [hqueue]
    intro q hq hqturn
    rcases hdocs with hdocs | ⟨status, msg, -, hdocs⟩ <;> rw [hdocs]
    · exact hS.turns q hq hqturn
    · exact exists_session (hS.turns q hq hqturn)
  · rw [hqueue]
    intro q hqturn hidle
    have hne : q ≠ p := by
      rintro rfl
      rcases hidle with hno | hin
      · exact hno hacc
      · exact hS.queue.left q hwork hin
    rw [h.stages_of_ne hne]
    exact hS.idle q hqturn hidle
  · rw [hqueue]
    intro q hq hqturn
    by_cases hne : q = p
    · rw [hne]
      exact h.held_self hp hnew
    · exact Held.other h hne hS.distinct hp (hS.held q hq hqturn)
  · rw [hqueue]
    intro id q hq
    rcases drawn_cases h hq with hq | ⟨rfl, -⟩
    · exact hS.drawn id q hq
    · exact ⟨hturn, hacc⟩
  · intro b hb q hq
    rcases h.blocks_cases hb with hb | ⟨id, hat, rfl⟩
    · rcases drawn_cases h hq with hq | ⟨-, hun⟩
      · exact hS.rows b hb q hq
      · exact absurd rfl ((unused_iff.mp hun).2.2 b hb)
    · -- the id of the block just inserted is the turn's own
      have hown : (id, p) ∈ s'.drawn := h.drawn_subset _ (hp.own id (by rw [hat]; rfl))
      rw [(h.distinct hS.distinct) id q p hq hown]
      rfl
  · intro x hx
    rcases h.pending_cases hx with ⟨x₀, hx₀, hid⟩ | ⟨hat, hat'⟩
    · obtain ⟨⟨q, hq⟩, hrec⟩ := hS.pending x₀ hx₀
      rw [hid] at hq hrec
      refine ⟨⟨q, h.drawn_subset _ hq⟩, fun hin => ?_⟩
      rcases h.recorded_cases hin with hin | ⟨-, -, hno⟩
      · exact hrec hin
      · exact hno x hx rfl
    · refine ⟨⟨p, h.drawn_subset _ (hp.own _ (by rw [hat]; rfl))⟩, fun hin => ?_⟩
      rcases h.recorded_cases hin with hin | ⟨-, -, hno⟩
      · exact hp.fresh _ (by rw [hat]; rfl) (by rw [hat]; rfl) hin
      · exact hno x hx rfl
  · intro id hid
    rcases h.recorded_cases hid with hid | ⟨hat, hat', -⟩
    · obtain ⟨⟨q, hq⟩, hrow, hpoint⟩ := hS.recorded id hid
      have hkeep : (HasRow s id → HasRow s' id) ∧ (id ∈ s.points → id ∈ s'.points) :=
        h.keeps fun msg hat => hp.fresh id (by rw [hat]; rfl) (by rw [hat]; rfl) hid
      exact ⟨⟨q, h.drawn_subset _ hq⟩, hkeep.1 hrow, hkeep.2 hpoint⟩
    · have hself := h.held_self hp hnew
      exact ⟨⟨p, hself.own id (by rw [hat']; rfl)⟩, hself.row id (by rw [hat']; rfl), hself.point id (by rw [hat']; rfl)⟩

/-! ## A crash and the load -/

theorem not_crashed_of_loaded {rowGone pointGone : UInt64 → Bool} {b : CortrixBlock}
    (hb : b ∈ (loadStep s rowGone pointGone).blocks) : b ∈ s.blocks ∧ crashedDoc s.docs b.docId = false := by
  obtain ⟨hb, hno⟩ := mem_deleteWhere.mp hb
  exact ⟨(mem_deleteWhere.mp hb).1, hno⟩

theorem loaded (hkey : Keyed CortrixBlock.blockId s.blocks) (rowGone pointGone : UInt64 → Bool) {b : CortrixBlock}
    (hb : b ∈ s.blocks) (hundo : b.blockId ∉ unfinished s) (hdoc : crashedDoc s.docs b.docId = false) :
    b ∈ (loadStep s rowGone pointGone).blocks ∧
      (b.blockId ∈ s.points → b.blockId ∈ (loadStep s rowGone pointGone).points) := by
  refine ⟨mem_deleteWhere.mpr ⟨mem_deleteWhere.mpr ⟨hb, by simp [hundo]⟩, hdoc⟩, fun hpoint => ?_⟩
  refine List.mem_filter.mpr ⟨hpoint, ?_⟩
  have hno : b.blockId ∉ ((deleteWhere (fun b => (unfinished s).contains b.blockId && rowGone b.blockId) s.blocks).filter
      fun b => crashedDoc s.docs b.docId).map (·.blockId) := by
    intro hin
    obtain ⟨x, hx, hid⟩ := List.mem_map.mp hin
    obtain ⟨hx, hcrashed⟩ := List.mem_filter.mp hx
    rw [hkey.eq_of_key (mem_deleteWhere.mp hx).1 hb hid, hdoc] at hcrashed
    cases hcrashed
  rw [List.contains_eq_mem, List.contains_eq_mem, decide_eq_false hundo, decide_eq_false hno]
  rfl

theorem Safe.crashedDoc_eq_false (hS : Safe cfg s) {d : Doc} (hd : d ∈ s.docs) (hsession : isSession d = true)
    (hst : d.status ≠ .processing) : crashedDoc s.docs d.docId = false := by
  unfold crashedDoc
  rw [List.any_eq_false]
  intro d' hd' hcrashed
  obtain ⟨hid, hstatus⟩ := (Bool.and_eq_true _ _).mp hcrashed
  rw [hS.ids.eq_of_key hd' hd (beq_iff_eq.mp hid)] at hstatus
  have husual := hS.status d hd hsession
  cases h : d.status <;> simp [h, usual] at hstatus husual hst

theorem mem_loaded_docs {rowGone pointGone : UInt64 → Bool} {d : Doc} :
    d ∈ (loadStep s rowGone pointGone).docs ↔ ∃ d₀ ∈ s.docs, d₀.status ≠ .deleting ∧
      d = if d₀.status = .processing then { d₀ with status := .pending } else d₀ := by
  show d ∈ deleteWhere _ (updateWhere _ _ s.docs) ↔ _
  rw [mem_deleteWhere, mem_updateWhere]
  constructor
  · rintro ⟨⟨d₀, hd₀, rfl⟩, hno⟩
    refine ⟨d₀, hd₀, fun hdel => ?_, ?_⟩
    · simp [hdel] at hno
    · simp only [beq_iff_eq]
  · rintro ⟨d₀, hd₀, hno, rfl⟩
    refine ⟨⟨d₀, hd₀, by simp only [beq_iff_eq]⟩, ?_⟩
    split
    · rfl
    · simpa using hno

theorem Safe.load (hS : Safe cfg s) (rowGone pointGone : UInt64 → Bool)
    (hspared : Spared s (.load rowGone pointGone)) : Safe cfg (loadStep s rowGone pointGone) := by
  have hsessions : ∀ id, (∃ d ∈ s.docs, d.docId = id ∧ isSession d = true) →
      ∃ d ∈ (loadStep s rowGone pointGone).docs, d.docId = id ∧ isSession d = true := by
    rintro _ ⟨d, hd, rfl, hsession⟩
    have husual := hS.status d hd hsession
    refine ⟨_, mem_loaded_docs.mpr ⟨d, hd, fun hdel => ?_, rfl⟩, ?_⟩
    · rw [hdel] at husual
      cases husual
    · split
      · exact ⟨rfl, hsession⟩
      · exact ⟨rfl, hsession⟩
  have hsame : ∀ x ∈ s.pending, ∀ y ∈ s.pending, x.blockId = y.blockId → x = y := fun x hx y hy h =>
    hS.pendingIds.eq_of_key hx hy h
  constructor
  · have hrecovered : Keyed Doc.docId (docRecoverProcessing s.docs) := hS.ids.updateWhere fun _ _ => rfl
    exact hrecovered.deleteWhere
  · exact hS.rowIds.deleteWhere.deleteWhere
  · exact Keyed.nil
  · intro d hd hsession
    obtain ⟨d₀, hd₀, -, rfl⟩ := mem_loaded_docs.mp hd
    by_cases hst : d₀.status = .processing
    · rw [if_pos hst]
      rfl
    · rw [if_neg hst] at hsession ⊢
      exact hS.status d₀ hd₀ hsession
  · exact hS.distinct
  · exact ⟨.nil, hS.queue.once, fun _ => Nat.le_refl _, fun _ _ => rfl, fun _ => rfl, fun _ h => absurd h List.not_mem_nil⟩
  · exact fun p hp => absurd hp List.not_mem_nil
  · exact fun p hp hturn => hsessions _ (hS.turns p hp hturn)
  · rintro p hturn (hno | hin)
    · exact hS.idle p hturn (.inl hno)
    · exact absurd hin List.not_mem_nil
  · exact fun p hp => absurd hp List.not_mem_nil
  · exact hS.drawn
  · exact fun b hb p hp => hS.rows b (not_crashed_of_loaded hb).1 p hp
  · exact fun x hx => absurd hx List.not_mem_nil
  · intro id hid
    rcases List.mem_append.mp hid with hid | hid
    · -- a recorded block is under no open transaction, and in no document that is being processed
      obtain ⟨⟨p, hp⟩, ⟨b, hb, rfl⟩, hpoint⟩ := hS.recorded id hid
      have hundo : b.blockId ∉ unfinished s := by
        intro hin
        obtain ⟨x, hx, hxid⟩ := List.mem_map.mp hin
        have := (hS.pending x (List.mem_filter.mp hx).1).2
        rw [hxid] at this
        exact this hid
      obtain ⟨d, hd, hdoc, hsession⟩ := hS.session_of_row hb hp
      have hcrashed : crashedDoc s.docs b.docId = false := by
        rw [← hdoc]
        exact hS.crashedDoc_eq_false hd hsession fun hst => hspared d hd hsession hst b hb hdoc.symm hid
      obtain ⟨hrow, hpoint'⟩ := loaded hS.rowIds rowGone pointGone hb hundo hcrashed
      exact ⟨⟨p, hp⟩, ⟨b, hrow, rfl⟩, hpoint' hpoint⟩
    · -- one that is inferred to be committed has both, and counts where its row stays
      obtain ⟨hin, hkept⟩ := List.mem_filter.mp hid
      obtain ⟨b, hb, hbid⟩ := List.any_eq_true.mp hkept
      obtain rfl := beq_iff_eq.mp hbid
      obtain ⟨x, hx, hxid⟩ := List.mem_map.mp hin
      obtain ⟨hx, hwhole⟩ := List.mem_filter.mp hx
      have hundo : b.blockId ∉ unfinished s := by
        intro hin'
        obtain ⟨y, hy, hyid⟩ := List.mem_map.mp hin'
        obtain ⟨hy, hpart⟩ := List.mem_filter.mp hy
        rw [hsame y hy x hx (hyid.trans hxid.symm)] at hpart
        rw [hpart] at hwhole
        cases hwhole
      have hpoint : b.blockId ∈ s.points := by
        simp only [Bool.not_eq_true', Bool.or_eq_false_iff, Bool.not_eq_false', allStoresHave, Bool.and_eq_true,
          List.contains_eq_mem, decide_eq_true_eq] at hwhole
        exact hxid ▸ hwhole.2.2
      have hloaded : b ∈ (loadStep s rowGone pointGone).blocks := hb
      obtain ⟨hb, hcrashed⟩ := not_crashed_of_loaded hloaded
      obtain ⟨hrow, hpoint'⟩ := loaded hS.rowIds rowGone pointGone hb hundo hcrashed
      obtain ⟨p, hp⟩ := (hS.pending x hx).1
      rw [hxid] at hp
      exact ⟨⟨p, hp⟩, ⟨b, hrow, rfl⟩, hpoint' hpoint⟩

/-! ## The other steps -/

/-- A step of the queue. A turn that is handed out has not been started. -/
theorem Safe.queued (hS : Safe cfg s) {queue' : TaskQueue.State} (hq : TaskQueue.Inv queue')
    (haccepted : ∀ p ∈ s.queue.accepted, p ∈ queue'.accepted)
    (hturns : ∀ p ∈ queue'.accepted, cfg.isTurn p = true →
      p ∈ s.queue.accepted ∨ ∃ d ∈ s.docs, d.docId = cfg.docId p ∧ isSession d = true)
    (hidle : ∀ p, p ∉ queue'.accepted ∨ p ∈ queue'.queue.queue → p ∉ s.queue.accepted ∨ p ∈ s.queue.queue.queue)
    (hworking : ∀ p ∈ queue'.working, cfg.isTurn p = true → p ∈ s.queue.working ∨ p ∈ s.queue.queue.queue) :
    Safe cfg { s with queue := queue' } where
  ids := hS.ids
  rowIds := hS.rowIds
  pendingIds := hS.pendingIds
  status := hS.status
  distinct := hS.distinct
  queue := hq
  working p hp hturn := by
    rcases hworking p hp hturn with h | h
    · exact haccepted p (hS.working p h hturn)
    · exact haccepted p (hS.queue.accepted_of_queued h)
  turns p hp hturn := (hturns p hp hturn).elim (fun h => hS.turns p h hturn) id
  idle p hturn h := hS.idle p hturn (hidle p h)
  held p hp hturn := by
    rcases hworking p hp hturn with h | h
    · have hheld := hS.held p h hturn
      exact ⟨hheld.own, hheld.fresh, hheld.row, hheld.point, hheld.unlogged⟩
    · have hst : s.stages p = .popped := hS.idle p hturn (.inr h)
      constructor <;> intro id hid <;> rw [hst] at hid <;> cases hid
  drawn id p hp := (hS.drawn id p hp).imp_right fun h => haccepted p h
  rows := hS.rows
  pending := hS.pending
  recorded := hS.recorded

theorem Safe.foreign (hS : Safe cfg s) (h : Foreign s s') : Safe cfg s' := by
  have hrow : ∀ id p, (id, p) ∈ s.drawn → HasRow s id → HasRow s' id := by
    rintro id p hp ⟨b, hb, rfl⟩
    exact ⟨b, (h.mem_blocks_iff (State.drew_iff.mpr ⟨p, hp⟩)).mpr hb, rfl⟩
  have hpoint : ∀ id p, (id, p) ∈ s.drawn → id ∈ s.points → id ∈ s'.points := fun id p hp =>
    (h.mem_points_iff (State.drew_iff.mpr ⟨p, hp⟩)).mpr
  constructor
  · exact h.ids hS.ids
  · exact h.rowIds hS.rowIds
  · rw [h.pending]
    exact hS.pendingIds
  · intro d hd hsession
    rcases h.new d hd hsession with hd | hready
    · exact hS.status d hd hsession
    · rw [hready]
      rfl
  · rw [h.drawn]
    exact hS.distinct
  · rw [h.queue]
    exact hS.queue
  · rw [h.queue]
    exact hS.working
  · rw [h.queue]
    intro p hp hturn
    obtain ⟨d, hd, hid, hsession⟩ := hS.turns p hp hturn
    exact ⟨d, h.old d hd hsession, hid, hsession⟩
  · rw [h.queue, h.stages]
    exact hS.idle
  · rw [h.queue]
    intro p hp hturn
    have hheld := hS.held p hp hturn
    refine ⟨?_, ?_, fun id hid => ?_, fun id hid => ?_, ?_⟩
    · rw [h.stages, h.drawn]
      exact hheld.own
    · rw [h.stages, h.recorded]
      exact hheld.fresh
    · rw [h.stages] at hid
      exact hrow id p (hheld.own id (Stage.block_of_row hid)) (hheld.row id hid)
    · rw [h.stages] at hid
      exact hpoint id p (hheld.own id (Stage.block_of_point hid)) (hheld.point id hid)
    · rw [h.stages, h.pending]
      exact hheld.unlogged
  · rw [h.drawn, h.queue]
    exact hS.drawn
  · rw [h.drawn]
    intro b hb p hp
    exact hS.rows b ((h.mem_blocks_iff (State.drew_iff.mpr ⟨p, hp⟩)).mp hb) p hp
  · rw [h.pending, h.drawn, h.recorded]
    exact hS.pending
  · rw [h.recorded, h.drawn]
    intro id hid
    obtain ⟨⟨p, hp⟩, hr, hpt⟩ := hS.recorded id hid
    exact ⟨⟨p, hp⟩, hrow id p hp hr, hpoint id p hp hpt⟩

theorem safe_step {a : Act} (hS : Safe cfg s) (hspared : Spared s a) (h : step cfg s a = some s') : Safe cfg s' := by
  cases a with
  | openSession _ _ _ | lock _ | unlock _ | documents _ | addBlock _ | addPoint _ | deleteBlock _ | deletePoint _ =>
    exact hS.foreign (foreign_of_step rfl h)
  | submit p order =>
    simp only [step] at h
    split at h
    · cases h
    · rename_i hdoc
      obtain ⟨queue', hq, rfl⟩ := queued_eq_some h
      have hqI := hS.queue.step hq
      obtain rfl | ⟨hnew, hsort, rfl⟩ := TaskQueue.step_push hq
      · exact hS
      rw [not_or] at hnew
      refine hS.queued hqI (fun x hx => List.mem_cons_of_mem _ hx) (fun x hx hturn => ?_) ?_ fun x hx _ => .inl hx
      · rcases List.mem_cons.mp hx with rfl | hx
        · have hdoc : s.docs.any (cfg.sessionOf x) = true ∧ (cfg.tasks x).cancelled = false := by simpa [hturn] using hdoc
          obtain ⟨d, hd, hof⟩ := List.any_eq_true.mp hdoc.1
          simp only [Config.sessionOf, Bool.and_eq_true, beq_iff_eq, and_assoc] at hof
          exact .inr ⟨d, hd, hof.1, hof.2.1⟩
        · exact .inl hx
      · rintro x (hno | hin)
        · exact .inl fun hx => hno (List.mem_cons_of_mem _ hx)
        · rcases List.mem_append.mp (hsort.1.mem_iff.mp hin) with hin | hx
          · exact .inr hin
          · rw [List.mem_singleton.mp hx]
            exact .inl hnew.1
  | pop =>
    obtain ⟨queue', hq, rfl⟩ := queued_eq_some h
    have hqI := hS.queue.step hq
    obtain ⟨skipped, -, ⟨-, rfl⟩ | ⟨p, rest, hqueue, -, rfl⟩⟩ := TaskQueue.step_pop hq
    · refine hS.queued hqI (fun _ hx => hx) (fun x hx _ => .inl hx) ?_ fun x hx _ => .inl hx
      rintro x (hno | hin)
      · exact .inl hno
      · cases hin
    · refine hS.queued hqI (fun _ hx => hx) (fun x hx _ => .inl hx) ?_ fun x hx _ => ?_
      · rintro x (hno | hin)
        · exact .inl hno
        · exact .inr (by rw [hqueue]; exact List.mem_append_right _ (List.mem_cons_of_mem _ hin))
      · rcases List.mem_cons.mp hx with rfl | hx
        · exact .inr (by rw [hqueue]; simp)
        · exact .inl hx
  | cancelQueuedVersions ns st sp =>
    simp only [step] at h
    split at h
    · obtain ⟨queue', hq, rfl⟩ := queued_eq_some h
      have hqI := hS.queue.step hq
      cases hq
      exact hS.queued hqI (fun _ hx => hx) (fun x hx _ => .inl hx) (fun _ h => h) fun x hx _ => .inl hx
    · cases h
  | beginRunning p =>
    simp only [step] at h
    split at h
    · cases h
    · rename_i hno
      obtain ⟨queue', hq, rfl⟩ := queued_eq_some h
      have hqI := hS.queue.step hq
      obtain ⟨-, rfl⟩ := TaskQueue.step_beginRunning hq
      refine hS.queued hqI (fun _ hx => hx) (fun x hx _ => .inl hx) (fun _ h => h) fun x hx hturn => ?_
      rcases List.mem_cons.mp hx with rfl | hx
      · exact absurd hturn hno
      · exact .inl hx
  | turn p a =>
    simp only [step] at h
    split at h
    · rename_i hgo
      obtain ⟨hturn, hwork⟩ := (Bool.and_eq_true _ _).mp hgo
      exact hS.turn hturn (by simpa using hwork) (turnStep_cases h)
    · cases h
  | finishTask p =>
    simp only [step] at h
    split at h
    · cases h
    · obtain ⟨queue', hq, rfl⟩ := queued_eq_some h
      have hqI := hS.queue.step hq
      obtain ⟨-, rfl⟩ := TaskQueue.step_finishTask hq
      exact hS.queued hqI (fun _ hx => hx) (fun x hx _ => .inl hx) (fun _ h => h)
        fun x hx _ => .inl (List.mem_of_mem_erase hx)
  | load rowGone pointGone =>
    cases h
    exact hS.load rowGone pointGone hspared

/-! ## The loads that keep the turns -/

theorem spared_of_intact (hS : Safe cfg s) {a : Act} (h : step cfg s a = some s') (hgood : Intact s') : Spared s a := by
  cases a with
  | load rowGone pointGone =>
    cases h
    intro d hd _ hst b hb hdoc hrec
    obtain ⟨b', hb', hid, -⟩ := hgood.rows b.blockId (List.mem_append_left _ hrec)
    obtain ⟨hb', hno⟩ := not_crashed_of_loaded hb'
    rw [hS.rowIds.eq_of_key hb' hb hid] at hno
    have hcrashed : crashedDoc s.docs b.docId = true := List.any_eq_true.mpr ⟨d, hd, by simp [hdoc, hst]⟩
    rw [hcrashed] at hno
    cases hno
  | _ => exact trivial

/-- In every state of a run the committed turns are there and the sessions can go on, exactly when no load finds a
session's document in `processing` that has a committed turn. -/
theorem intact_iff_spared (cfg : Config) (acts : List Act) (s : State)
    (hrun : Lib.run (step cfg) (init cfg) acts = some s) :
    (∀ pre t, pre <+: acts → Lib.run (step cfg) (init cfg) pre = some t → Intact t) ↔
      Along (step cfg) Spared (init cfg) acts :=
  along_iff_prefixes (Safe cfg) Intact (fun _ => True) (fun hS => hS.intact)
    (fun hS _ hstep hgood => spared_of_intact hS hstep hgood) (fun hS _ hq hstep => safe_step hS hq hstep)
    (safe_init cfg) (fun _ _ => trivial) hrun

def oneTurn : List Act :=
  [.openSession "d" "s" "", .submit 0 [0], .pop, .turn 0 (.start true true)] ++ write 0 7 ++ [.finishTask 0]

/-- A crash after the first turn, before the next one is taken. -/
def crashBetween : List Act :=
  oneTurn ++ [.submit 1 [1], .load (fun _ => true) (fun _ => true)]

theorem intact_iff_spared_crashBetween : ∃ s, Lib.run (step oneSession) (init oneSession) crashBetween = some s ∧
    ((∀ pre t, pre <+: crashBetween → Lib.run (step oneSession) (init oneSession) pre = some t → Intact t) ↔
      Along (step oneSession) Spared (init oneSession) crashBetween) := by
  have h : (Lib.run (step oneSession) (init oneSession) crashBetween).isSome = true := by decide +kernel
  obtain ⟨s, hs⟩ := Option.isSome_iff_exists.mp h
  exact ⟨s, hs, intact_iff_spared oneSession crashBetween s hs⟩

/-- A crash while a worker has the second turn of the session. -/
def crashDuring : List Act :=
  oneTurn ++ [.submit 1 [1], .pop, .turn 1 (.start true true), .load (fun _ => true) (fun _ => true)]

/-- The block of the first turn, which was committed, is gone. -/
theorem crashDuring_first_lost : ∃ s, Lib.run (step oneSession) (init oneSession) crashDuring = some s ∧
    7 ∈ s.recorded ∧ s.blocks = [] ∧ s.points = [] ∧ ¬ Intact s := by
  have h : (Lib.run (step oneSession) (init oneSession) crashDuring).any
      (fun s => s.recorded.contains 7 && s.blocks.isEmpty && s.points.isEmpty) = true := by
    decide +kernel
  obtain ⟨s, hs, h⟩ := (Option.any_eq_true _ _).mp h
  simp only [Bool.and_eq_true, List.contains_eq_mem, decide_eq_true_eq, List.isEmpty_iff, and_assoc] at h
  obtain ⟨hrec, hblocks, hpoints⟩ := h
  refine ⟨s, hs, hrec, hblocks, hpoints, fun hgood => ?_⟩
  have hpoint := hgood.points 7 hrec
  rw [hpoints] at hpoint
  cases hpoint

end SessionTurns

end Cortrix.Memory
