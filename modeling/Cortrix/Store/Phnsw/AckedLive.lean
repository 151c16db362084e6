import Cortrix.Store.Phnsw.RecoveryExact

/-!
# Acknowledged and searchable

Between its start and its end the process only submits, flushes and snapshots. A call returns Ok once its batch is
durable; what hnswlib throws while the batch is applied is swallowed.

* `Room` : the condition on the application of one record; `acked_live` : a run whose steps meet it keeps `AckedLive`.
-/

namespace Cortrix.Store.Phnsw

namespace Graph
variable {g : Graph}

theorem applyEntry_full {maxElements : Nat} {e : WalEntry} (htype : e.type = .insert)
    (hnew : (g.points e.blockId).isSome = false) (hfull : maxElements ≤ g.count) : applyEntry maxElements g e = g := by
  have hnone : g.points e.blockId = none := Option.not_isSome_iff_eq_none.mp (by simp [hnew])
  unfold applyEntry
  rw [htype]
  simp [applyInsert, isMarkedDeleted, addPoint, hnone, hfull]

theorem live_applyEntry_of_ne (maxElements : Nat) (e : WalEntry) {label : UInt64} (h : label ≠ e.blockId) :
    (applyEntry maxElements g e).live label = g.live label := by
  by_cases hroom : e.type = .insert → (g.points e.blockId).isSome ∨ g.count < maxElements
  · rw [live_applyEntry maxElements e hroom, VectorMap.apply, Function.update_of_ne h]
  · rw [Classical.not_imp, not_or, Bool.not_eq_true, Nat.not_lt] at hroom
    rw [applyEntry_full hroom.1 hroom.2.1 hroom.2.2]

end Graph

namespace VectorMap

def value (e : WalEntry) : Option (List UInt32) := if e.type = .insert then some e.vector else none

theorem foldl_apply_of_ne (m : VectorMap) {es : List WalEntry} {label : UInt64} (h : ∀ e ∈ es, e.blockId ≠ label) :
    es.foldl apply m label = m label := by
  induction es generalizing m with
  | nil => rfl
  | cons e es ih =>
    obtain ⟨he, hes⟩ := List.forall_mem_cons.mp h
    rw [List.foldl_cons, ih _ hes, apply, Function.update_of_ne (Ne.symm he)]

theorem foldl_apply_last (m : VectorMap) (pre : List WalEntry) {e : WalEntry} {post : List WalEntry}
    (h : ∀ x ∈ post, x.blockId ≠ e.blockId) : (pre ++ e :: post).foldl apply m e.blockId = value e := by
  rw [List.foldl_append, List.foldl_cons, foldl_apply_of_ne _ h, apply, Function.update_self]
  rfl

end VectorMap

namespace PHnsw
open Lib
open WalEntry (Loggable)

/-- The batch being applied, neither acknowledged nor visible: the write lock is held. -/
def Pc.applying : Pc → List WalEntry
  | .apply _ batch => batch
  | _ => []

/-- Of the records acknowledged from the `before`th on, the last one of a label tells what the index has of it. -/
def AckedLive (before : Nat) (s : State) : Prop :=
  ∀ p, s.process = .up p → ∀ pre e post, s.acked.drop before = pre ++ e :: post →
    (∀ x ∈ post ++ p.pc.applying, x.blockId ≠ e.blockId) → p.index.live e.blockId = VectorMap.value e

/-- The calls and the threads of one process, its life between `Recover` and its end. -/
def InProcess : Act → Prop
  | .addPoint _ _ _ | .markDelete _ _ | .flush _ | .snapshot _ _ | .advance => True
  | .open_ | .recover | .crash => False

/-- An INSERT about to be applied has an element already, or finds room, or is overwritten within its batch. -/
def RoomAdvance (cfg : Config) (p : Running) : Pc → Prop
  | .apply (e :: rest) _ => e.type = .insert →
    (p.index.points e.blockId).isSome ∨ p.index.count < cfg.maxElements ∨ ∃ x ∈ rest, x.blockId = e.blockId
  | _ => True

/-- The condition on one step; a frame has 32 bits for its length. -/
def Room (cfg : Config) (s : State) : Act → Prop
  | .addPoint _ _ _ => 21 + 4 * cfg.dim < 2 ^ 32
  | .advance =>
    match s.process with
    | .up p => RoomAdvance cfg p p.pc
    | .down _ => True
  | _ => True

instance (cfg : Config) (p : Running) : (pc : Pc) → Decidable (RoomAdvance cfg p pc)
  | .apply (_ :: _) _ => inferInstanceAs (Decidable (_ → _))
  | .apply [] _ | .idle | .records _ _ | .header _ | .sync _ | .saveMeta _ _ | .clean | .truncate | .truncateHeader
  | .truncateSync => .isTrue trivial

instance (cfg : Config) (s : State) : (a : Act) → Decidable (Room cfg s a)
  | .addPoint _ _ _ => Nat.decLt _ _
  | .advance =>
    match h : s.process with
    | .up p => decidable_of_iff (RoomAdvance cfg p p.pc) (by simp [Room, h])
    | .down _ => .isTrue (by simp [Room, h])
  | .open_ | .recover | .markDelete _ _ | .flush _ | .snapshot _ _ | .crash => .isTrue trivial

/-! ## The invariant -/

/-- The records of the batch not applied yet. -/
def Pc.toServe : Pc → List WalEntry
  | .records done rest => done ++ rest
  | .header batch | .sync batch => batch
  | .apply rest _ => rest
  | _ => []

/-- The records of the batch still to be applied, where its application has begun. -/
def Pc.toApply : Pc → List WalEntry
  | .apply rest _ => rest
  | _ => []

/-- The records of the batch that are applied. -/
def Pc.Applied : Pc → List WalEntry → Prop
  | .apply rest batch, done => batch = done ++ rest
  | _, done => done = []

/-- The live map is the one of the records acknowledged and applied, but for the labels still to come. -/
structure Serving (cfg : Config) (m₀ : VectorMap) (before : Nat) (s : State) (p : Running) : Prop where
  up : s.process = .up p
  loggable : ∀ e ∈ p.pc.toServe ++ p.queue, Loggable cfg.dim e
  length : before ≤ s.acked.length
  live : ∃ done, p.pc.Applied done ∧ ∀ label, (∀ x ∈ p.pc.toApply, x.blockId ≠ label) →
    p.index.live label = (s.acked.drop before ++ done).foldl VectorMap.apply m₀ label

variable {cfg : Config} {m₀ : VectorMap} {before : Nat} {s s' : State} {p : Running}

theorem live_applied {e : WalEntry} {rest done : List WalEntry} (acked : List WalEntry) {g : Graph}
    (hlive : ∀ label, (∀ x ∈ e :: rest, x.blockId ≠ label) →
      g.live label = (acked ++ done).foldl VectorMap.apply m₀ label)
    (hroom : e.type = .insert →
      (g.points e.blockId).isSome ∨ g.count < cfg.maxElements ∨ ∃ x ∈ rest, x.blockId = e.blockId)
    {label : UInt64} (hlabel : ∀ x ∈ rest, x.blockId ≠ label) :
    (g.applyEntry cfg.maxElements e).live label =
      (acked ++ (done ++ [e])).foldl VectorMap.apply m₀ label := by
  rw [← List.append_assoc, List.foldl_append, List.foldl_cons, List.foldl_nil, VectorMap.apply]
  by_cases heq : label = e.blockId
  · subst heq
    have hroom' : e.type = .insert → (g.points e.blockId).isSome ∨ g.count < cfg.maxElements := by
      intro htype
      rcases hroom htype with h | h | ⟨x, hx, h⟩
      · exact .inl h
      · exact .inr h
      · exact absurd h (hlabel x hx)
    rw [Graph.live_applyEntry cfg.maxElements e hroom', VectorMap.apply, Function.update_self, Function.update_self]
  · rw [Graph.live_applyEntry_of_ne cfg.maxElements e heq, Function.update_of_ne heq]
    exact hlive label (List.forall_mem_cons.mpr ⟨Ne.symm heq, hlabel⟩)

theorem Serving.move (h : Serving cfg m₀ before s p) {p' : Running} (hup : s'.process = .up p')
    (hacked : s'.acked = s.acked) (hindex : p'.index = p.index)
    (hserve : ∀ e ∈ p'.pc.toServe ++ p'.queue, e ∈ p.pc.toServe ++ p.queue)
    (hdone : ∀ done, p.pc.Applied done → p'.pc.Applied done)
    (htoApply : ∀ x ∈ p.pc.toApply, x ∈ p'.pc.toApply) : Serving cfg m₀ before s' p' := by
  obtain ⟨done, happlied, hlive⟩ := h.live
  refine ⟨hup, fun e he => h.loggable e (hserve e he), hacked ▸ h.length, done, hdone done happlied, fun label hl => ?_⟩
  rw [hindex, hacked]
  exact hlive label fun x hx => hl x (htoApply x hx)

theorem Serving.step {a : Act} (h : Serving cfg m₀ before s p) (hact : InProcess a) (hq : Room cfg s a)
    (hstep : step cfg s a = some s') : ∃ p', Serving cfg m₀ before s' p' := by
  have hup : ∀ {p'}, s.process = .up p' → p' = p := fun hp => Process.up.inj (hp.symm.trans h.up)
  cases step_next hstep with
  | openFailed _ _ | recoveryFailed _ _ _ | opened _ _ _ | notRecovered _ _ | recovered _ _ _ | crashed _ =>
    exact hact.elim
  | submitted hp ha =>
    obtain rfl := hup hp
    obtain ⟨done, happlied, hlive⟩ := h.live
    refine ⟨_, rfl, fun e he => ?_, h.length, done, happlied, hlive⟩
    rw [← List.append_assoc] at he
    rcases List.mem_append.mp he with he | he
    · exact h.loggable e he
    · rw [List.mem_singleton.mp he]
      exact ha.loggable fun _ _ _ hadd => by rwa [hadd] at hq
  | @flushed p' hp hpc n hn =>
    obtain rfl := hup hp
    refine ⟨_, h.move rfl rfl rfl ?_ ?_ ?_⟩
    · intro e he
      simp only [Pc.toServe, List.nil_append, List.take_append_drop] at he
      exact List.mem_append_right _ he
    · simp only [hpc]
      exact fun _ => id
    · simp [hpc, Pc.toApply]
  | saving hp hpc ts crc | @record p' hp done rest e hpc | counted hp hpc | headed hp hpc | synced hp hpc
  | committed hp hpc | cleaned hp hpc | truncated hp hpc | truncatedHeader hp hpc | snapshotted hp hpc =>
    obtain rfl := hup hp
    refine ⟨_, h.move rfl rfl rfl ?_ ?_ ?_⟩ <;> simp [hpc, Pc.toServe, Pc.toApply, Pc.Applied]
  | @applied p' hp e e' rest batch hpc hdec =>
    obtain rfl := hup hp
    have hserve := h.loggable
    rw [hpc] at hserve
    obtain ⟨he, hrest⟩ := List.forall_mem_cons.mp hserve
    -- the frame decodes to the record that was submitted
    rw [WalEntry.deserialize_serialize he] at hdec
    cases hdec
    have hroom : RoomAdvance cfg p' p'.pc := by
      simp only [Room, hp] at hq
      exact hq
    obtain ⟨done, happlied, hlive⟩ := h.live
    rw [hpc] at hroom happlied hlive
    refine ⟨_, rfl, hrest, h.length, done ++ [e], ?_, fun label hl => ?_⟩
    · show batch = done ++ [e] ++ rest
      rw [List.append_assoc, List.singleton_append]
      exact happlied
    · exact live_applied _ hlive hroom hl
  | @unreadable p' hp e rest batch hpc _ hdec =>
    obtain rfl := hup hp
    have he := h.loggable e (by rw [hpc]; exact List.mem_cons_self)
    rw [WalEntry.deserialize_serialize he] at hdec
    cases hdec
  | @acknowledged p' hp batch hpc =>
    obtain rfl := hup hp
    obtain ⟨done, happlied, hlive⟩ := h.live
    rw [hpc] at happlied hlive
    obtain rfl : batch = done := happlied.trans (List.append_nil _)
    refine ⟨_, rfl, fun e he => h.loggable e (List.mem_append_right _ he), ?_, [], rfl, fun label _ => ?_⟩
    · rw [List.length_append]
      exact h.length.trans (Nat.le_add_right _ _)
    · rw [List.drop_append_of_le_length h.length, List.append_nil]
      exact hlive label (by simp [Pc.toApply])

theorem Serving.ackedLive (h : Serving cfg m₀ before s p) : AckedLive before s := by
  intro p' hup pre e post hacked hlater
  obtain rfl : p' = p := Process.up.inj (hup.symm.trans h.up)
  obtain ⟨done, happlied, hlive⟩ := h.live
  have hsub : (∀ x ∈ p'.pc.toApply, x ∈ p'.pc.applying) ∧ ∀ x ∈ done, x ∈ p'.pc.applying := by
    cases hpc : p'.pc <;> rw [hpc] at happlied
    case apply rest batch =>
      obtain rfl : batch = done ++ rest := happlied
      exact ⟨fun x hx => List.mem_append_right _ hx, fun x hx => List.mem_append_left _ hx⟩
    all_goals
      obtain rfl : done = [] := happlied
      exact ⟨by simp [Pc.toApply], by simp⟩
  rw [hlive e.blockId fun x hx => hlater x (List.mem_append_right _ (hsub.1 x hx)), hacked, List.append_assoc,
    List.cons_append]
  refine VectorMap.foldl_apply_last m₀ pre fun x hx => hlater x ?_
  rcases List.mem_append.mp hx with hx | hx
  · exact List.mem_append_left _ hx
  · exact List.mem_append_right _ (hsub.2 x hx)

/-! ## Acknowledged means live -/

/-- From any start of the process, in every state of a run in which each INSERT has an element or finds room: what was
acknowledged last for a label is live with its vector, or gone if it was a delete. -/
theorem acked_live {cfg : Config} {s₀ s : State} {r : Recovered} (hstart : s₀.process = .up (ready r))
    {acts : List Act} (hacts : ∀ a ∈ acts, InProcess a) (hroom : Along (step cfg) (Room cfg) s₀ acts)
    (h : run (step cfg) s₀ acts = some s) : AckedLive s₀.acked.length s := by
  have hinit : Serving cfg r.index.live s₀.acked.length s₀ (ready r) := by
    refine ⟨hstart, by simp [ready, Pc.toServe], le_refl _, [], rfl, fun label _ => ?_⟩
    rw [List.drop_length]
    rfl
  have hin : Along (step cfg) (fun _ a => InProcess a) s₀ acts :=
    along_iff_forall.mpr fun pre a t hpre _ => hacts a (hpre.subset (by simp))
  obtain ⟨p, hp⟩ : ∃ p, Serving cfg r.index.live s₀.acked.length s p :=
    run_inv (I := fun s => ∃ p, Serving cfg r.index.live s₀.acked.length s p)
      (fun hs hq hstep => hs.elim fun _ hs => hs.step hq.1 hq.2 hstep) ⟨_, hinit⟩ (hin.and hroom) h
  exact hp.ackedLive

def opened : Recovered :=
  { index := Graph.empty, appliedLsn := 0, snapshotLsn := 0, replayed := [],
    wal := { image := WalWriter.walImage 1 0 0 [], dim := 1, entryCount := 0, committedLsn := 0,
             headerTrusted := true } }

def started : State := { init with process := .up (ready opened) }

/-- One element of room: a label written, deleted, and written again in a batch. -/
def rewritten : List Act :=
  [.addPoint 1 [7] 0] ++ flushed 1 ++ [.markDelete 1 0, .addPoint 1 [9] 0] ++ flushed 2

theorem acked_live_rewritten :
    ∃ s, run (step ⟨1, 1, 2, by decide⟩) started rewritten = some s ∧
      s.acked = [⟨.insert, 0, 1, [7]⟩, ⟨.delete, 0, 1, []⟩, ⟨.insert, 0, 1, [9]⟩] ∧ AckedLive 0 s := by
  have hacked : (run (step ⟨1, 1, 2, by decide⟩) started rewritten).any (fun s =>
      s.acked == [⟨.insert, 0, 1, [7]⟩, ⟨.delete, 0, 1, []⟩, ⟨.insert, 0, 1, [9]⟩]) = true := by decide +kernel
  obtain ⟨s, hrun, hs⟩ := (Option.any_eq_true _ _).mp hacked
  have hroom : Along (step ⟨1, 1, 2, by decide⟩) (Room ⟨1, 1, 2, by decide⟩) started rewritten := by decide +kernel
  have hacts : ∀ a ∈ rewritten, InProcess a := by
    intro a ha
    simp only [rewritten, flushed, List.mem_append, List.mem_cons, List.mem_replicate, List.not_mem_nil, or_false] at ha
    rcases ha with ((rfl | rfl | ⟨-, rfl⟩) | rfl | rfl) | rfl | ⟨-, rfl⟩ <;> trivial
  have hlive : AckedLive started.acked.length s := acked_live rfl hacts hroom hrun
  exact ⟨s, hrun, beq_iff_eq.mp hs, hlive⟩

/-- With room for one element, the second of two new labels is acknowledged and not there. -/
theorem acked_not_live :
    ∃ s, run (step ⟨1, 1, 2, by decide⟩) started ([.addPoint 1 [7] 0, .addPoint 2 [9] 0] ++ flushed 2) = some s ∧
      s.acked = [⟨.insert, 0, 1, [7]⟩, ⟨.insert, 0, 2, [9]⟩] ∧ ¬ AckedLive 0 s := by
  have hlost : (run (step ⟨1, 1, 2, by decide⟩) started ([.addPoint 1 [7] 0, .addPoint 2 [9] 0] ++ flushed 2)).any
      (fun s => s.acked == [⟨.insert, 0, 1, [7]⟩, ⟨.insert, 0, 2, [9]⟩] &&
        match s.process with
        | .up p => decide (p.pc = .idle) && p.index.live 2 == none
        | .down _ => false) = true := by decide +kernel
  obtain ⟨s, hrun, hs⟩ := (Option.any_eq_true _ _).mp hlost
  rw [Bool.and_eq_true] at hs
  have hacked := beq_iff_eq.mp hs.1
  refine ⟨s, hrun, hacked, fun hlive => ?_⟩
  obtain ⟨p, hup, hcheck⟩ : ∃ p, s.process = .up p ∧ (decide (p.pc = .idle) && p.index.live 2 == none) = true := by
    cases hup : s.process with
    | up p => exact ⟨p, rfl, by simpa [hup] using hs.2⟩
    | down image => simp [hup] at hs
  simp only [Bool.and_eq_true, decide_eq_true_eq, beq_iff_eq] at hcheck
  have := hlive p hup [⟨.insert, 0, 1, [7]⟩] ⟨.insert, 0, 2, [9]⟩ [] (by rw [hacked]; rfl)
    (by simp [hcheck.1, Pc.applying])
  rw [hcheck.2] at this
  cases this

end PHnsw

end Cortrix.Store.Phnsw
