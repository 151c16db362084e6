import Cortrix.Memory.MemoryTransparency

/-!
# Editing does not fork a memory

* `Related s` : one block was created by editing the other, and what follows from that; `InFlight s id` : an `Edit` of
  the block has inserted the new one and not yet overwritten it;
* `Sound s` : of two related active blocks one is in flight, so there is one at most once no `Edit` is between its
  writes; no two calls have edited one memory; a failed call has written nothing;
* `Clean s a` : an `Edit` inserts only while the block it edits is not invalidated in the store and in no other `Edit`'s
  flight, and the overwriting of the old block does not fail;
* `Inv` : the blocks form chains, of which only the end is not invalidated; `Effect` : what a step can do;
* `edit_forks` : four runs that are not clean.
-/

namespace Cortrix.Memory
open Lib

namespace MemoryTransparency

def MemoryBlockRecord.status (r : MemoryBlockRecord) : String := readString r.metadata "status"

/-- One block was created by editing the other; the equivalence this generates. -/
def Related (s : State) : String → String → Prop := Relation.EqvGen fun new old => (new, old) ∈ s.edits

/-- The block that is overwritten next. -/
def Phase.overwrites : Phase → Option String
  | .updating edited _ => some edited.blockId
  | _ => none

/-- An `Edit` of the block is between its two writes. -/
def InFlight (s : State) (id : String) : Prop := ∃ c ∈ s.calls, c.phase.overwrites = some id

instance (s : State) (id : String) : Decidable (InFlight s id) := inferInstanceAs (Decidable (∃ c ∈ s.calls, _))

def Call.hasEdited (c : Call) (id : String) : Prop := ∃ newId, c.phase = .returned (.edited ⟨newId, id⟩)

structure Sound (s : State) : Prop where
  forks : ∀ a ∈ s.store, ∀ b ∈ s.store, a.status = "active" → b.status = "active" → Related s a.blockId b.blockId →
    a.blockId = b.blockId ∨ InFlight s a.blockId ∨ InFlight s b.blockId
  settled : (∀ id, ¬ InFlight s id) → ∀ a ∈ s.store, ∀ b ∈ s.store, a.status = "active" → b.status = "active" →
    Related s a.blockId b.blockId → a.blockId = b.blockId
  once : s.calls.Pairwise fun c c' => ∀ id, c.hasEdited id → ¬ c'.hasEdited id
  errors : ∀ c ∈ s.calls, ∀ e, c.phase = .returned (.failed e) → c.wrote = false

/-- The two writes of an `Edit` are in order: the insert finds the old block as it should be, the update succeeds. -/
def Phase.Clean (s : State) (ok : Bool) (ulid : String) : Phase → Prop
  | .inserting _ old => ok = true → (∀ r ∈ s.store, r.blockId ≠ ulid) →
      (∀ r ∈ s.store, r.blockId = old.blockId → r.status ≠ "invalidated") ∧ ¬ InFlight s old.blockId
  | .updating _ _ => ok = true
  | _ => True

def Clean (s : State) : Act → Prop
  | .run i ok _ ulid => ∀ c ∈ s.calls[i]?, c.phase.Clean s ok ulid
  | _ => True

instance (s : State) (ok : Bool) (ulid : String) : ∀ p : Phase, Decidable (p.Clean s ok ulid)
  | .inserting _ old => inferInstanceAs (Decidable (ok = true → _ → (∀ r ∈ s.store, _) ∧ ¬ InFlight s old.blockId))
  | .updating _ _ => inferInstanceAs (Decidable (ok = true))
  | .creating _ | .fetching _ | .finding _ | .deleting _ | .returned _ => .isTrue trivial

instance (s : State) : ∀ a, Decidable (Clean s a)
  | .run i ok _ ulid => inferInstanceAs (Decidable (∀ c ∈ s.calls[i]?, c.phase.Clean s ok ulid))
  | .create _ _ | .edit _ _ | .delete _ _ => .isTrue trivial

/-! ## Statuses -/

theorem getKey_setKey (k k' : String) (v : JsonValue) (m : Metadata) :
    getKey k' (setKey k v m) = if k' = k then some v else getKey k' m := by
  unfold getKey setKey
  rw [lookup_upsertRow]
  split <;> rfl

theorem readString_setKey_ne {k key : String} {v : JsonValue} {m : Metadata} (h : key ≠ k) :
    readString (setKey k v m) key = readString m key := by
  unfold readString
  rw [getKey_setKey, if_neg h]

theorem readString_setKey (k s : String) (m : Metadata) : readString (setKey k (.str s) m) k = s := by
  unfold readString
  rw [getKey_setKey, if_pos rfl]

theorem status_editedBlock (old : MemoryBlockRecord) (newId : String) (nowMs : Int) :
    (editedBlock old newId nowMs).status = "invalidated" := by
  unfold MemoryBlockRecord.status editedBlock
  rw [readString_setKey_ne (by decide), readString_setKey_ne (by decide), readString_setKey_ne (by decide),
    readString_setKey_ne (by decide), readString_setKey]

theorem status_deletedBlock (old : MemoryBlockRecord) (sessionUserId : String) (nowMs : Int) :
    (deletedBlock old sessionUserId nowMs).status = "invalidated" := by
  unfold MemoryBlockRecord.status deletedBlock
  rw [readString_setKey_ne (by decide), readString_setKey_ne (by decide), readString_setKey_ne (by decide),
    readString_setKey_ne (by decide), readString_setKey_ne (by decide), readString_setKey]

/-! ## The store -/

variable {t t' : Store} {r r' b : MemoryBlockRecord}

theorem mem_update (h : r' ∈ updateMemoryBlock b t) :
    ∃ r ∈ t, r'.blockId = r.blockId ∧ (r'.status = r.status ∧ r.blockId ≠ b.blockId ∨
      r'.status = b.status ∧ r.blockId = b.blockId) := by
  obtain ⟨r, hr, rfl⟩ := mem_updateWhere.mp h
  by_cases hid : r.blockId = b.blockId
  · have hp : (r.blockId == b.blockId) = true := beq_iff_eq.mpr hid
    rw [if_pos hp]
    exact ⟨r, hr, rfl, .inr ⟨rfl, hid⟩⟩
  · have hp : ¬ (r.blockId == b.blockId) = true := fun h => hid (beq_iff_eq.mp h)
    rw [if_neg hp]
    exact ⟨r, hr, rfl, .inl ⟨rfl, hid⟩⟩

def Stored (t : Store) (id : String) : Prop := ∃ r ∈ t, r.blockId = id

def Invalidated (t : Store) (id : String) : Prop := ∀ r ∈ t, r.blockId = id → r.status = "invalidated"

instance (t : Store) (id : String) : Decidable (Stored t id) := inferInstanceAs (Decidable (∃ r ∈ t, _))

instance (t : Store) (id : String) : Decidable (Invalidated t id) := inferInstanceAs (Decidable (∀ r ∈ t, _))

variable {id : String}

theorem Stored.update (h : Stored t id) : Stored (updateMemoryBlock b t) id := by
  obtain ⟨r, hr, rfl⟩ := h
  refine ⟨_, mem_updateWhere_of_mem hr, ?_⟩
  split <;> rfl

theorem Stored.append (h : Stored t id) (xs : Store) : Stored (t ++ xs) id := by
  obtain ⟨r, hr, hid⟩ := h
  exact ⟨r, List.mem_append_left _ hr, hid⟩

theorem Invalidated.update (h : Invalidated t id) (hb : b.status = "invalidated") :
    Invalidated (updateMemoryBlock b t) id := by
  intro r' hr' hid
  obtain ⟨r, hr, heq, ⟨hst, -⟩ | ⟨hst, -⟩⟩ := mem_update hr'
  · rw [hst]
    exact h r hr (heq.symm.trans hid)
  · rw [hst, hb]

theorem invalidated_update (hb : b.status = "invalidated") : Invalidated (updateMemoryBlock b t) b.blockId := by
  intro r' hr' hid
  obtain ⟨r, -, heq, ⟨-, hne⟩ | ⟨hst, -⟩⟩ := mem_update hr'
  · exact absurd (heq.symm.trans hid) hne
  · rw [hst, hb]

theorem Invalidated.append (h : Invalidated t id) (hb : b.blockId ≠ id) : Invalidated (t ++ [b]) id := by
  intro r hr hid
  rcases List.mem_append.mp hr with hold | hnew
  · exact h r hold hid
  · rw [List.mem_singleton.mp hnew] at hid
    exact absurd hid hb

/-! ## The invariant -/

/-- The pair a call has put into `edits`. -/
def Call.inserted (c : Call) : Option (String × String) :=
  match c.phase with
  | .updating edited newId => some (newId, edited.blockId)
  | .returned (.edited result) => some (result.newMemoryId, result.oldMemoryId)
  | _ => none

def CallOk (t : Store) (c : Call) : Prop :=
  match c.phase with
  | .creating _ => c.wrote = false
  | .fetching _ => c.wrote = false
  | .inserting _ old => c.wrote = false ∧ Stored t old.blockId
  | .updating edited _ => edited.status = "invalidated"
  | .finding _ => c.wrote = false
  | .deleting _ => c.wrote = false
  | .returned (.failed _) => c.wrote = false
  | .returned _ => True

/-- Every block of a chain of edits has the same `tip`, and a block nobody has edited is its own. -/
structure IsTip (edits : List (String × String)) (tip : String → String) : Prop where
  along : ∀ e ∈ edits, tip e.1 = tip e.2
  self : ∀ id, (∀ e ∈ edits, e.2 ≠ id) → tip id = id

structure Inv (s : State) : Prop where
  tip : ∃ tip, IsTip s.edits tip
  ends : ∀ e ∈ s.edits, Stored s.store e.1 ∧ Stored s.store e.2
  olds : (s.edits.map Prod.snd).Nodup
  inserted : s.edits.Perm (s.calls.filterMap Call.inserted)
  done : ∀ e ∈ s.edits, InFlight s e.2 ∨ Invalidated s.store e.2
  calls : ∀ c ∈ s.calls, CallOk s.store c

theorem inv_init (t : Store) : Inv (init t) :=
  ⟨⟨id, fun _ h => absurd h List.not_mem_nil, fun _ _ => rfl⟩, fun _ h => absurd h List.not_mem_nil, List.nodup_nil,
    .refl _, fun _ h => absurd h List.not_mem_nil, fun _ h => absurd h List.not_mem_nil⟩

theorem IsTip.cons {edits : List (String × String)} {tip : String → String} {new old : String} (h : IsTip edits tip)
    (hnew : ∀ e ∈ edits, e.1 ≠ new ∧ e.2 ≠ new) (hold : ∀ e ∈ edits, e.2 ≠ old) :
    IsTip ((new, old) :: edits) fun id => if id = new ∨ tip id = old then new else tip id := by
  have htipold : tip old = old := h.self old hold
  refine ⟨fun e he => ?_, fun id hid => ?_⟩
  · rcases List.mem_cons.mp he with rfl | he
    · simp [htipold]
    · obtain ⟨hn1, hn2⟩ := hnew e he
      simp only [hn1, hn2, false_or, h.along e he]
  · have hidold : id ≠ old := (hid _ List.mem_cons_self).symm
    have hself : tip id = id := h.self id fun e he => hid e (List.mem_cons_of_mem _ he)
    by_cases hidnew : id = new
    · simp [hidnew]
    · simp [hidnew, hself, hidold]

theorem tip_eq_of_related {s : State} {tip : String → String} (h : IsTip s.edits tip) {x y : String}
    (hrel : Related s x y) : tip x = tip y := by
  induction hrel with
  | rel x y hxy => exact h.along _ hxy
  | refl => rfl
  | symm _ _ _ ih => exact ih.symm
  | trans _ _ _ _ _ ih ih' => exact ih.trans ih'

theorem edited_of_related {s : State} (h : Inv s) {x y : String} (hrel : Related s x y) (hne : x ≠ y) :
    ∃ e ∈ s.edits, e.2 = x ∨ e.2 = y := by
  obtain ⟨tip, htip⟩ := h.tip
  by_contra hno
  have hx : tip x = x := htip.self x fun e he heq => hno ⟨e, he, .inl heq⟩
  have hy : tip y = y := htip.self y fun e he heq => hno ⟨e, he, .inr heq⟩
  exact hne (hx.symm.trans ((tip_eq_of_related htip hrel).trans hy))

variable {s s' : State}

theorem Inv.forks (h : Inv s) {a b : MemoryBlockRecord} (ha : a ∈ s.store) (hb : b ∈ s.store)
    (hactive : a.status = "active") (hactive' : b.status = "active") (hrel : Related s a.blockId b.blockId) :
    a.blockId = b.blockId ∨ InFlight s a.blockId ∨ InFlight s b.blockId := by
  by_cases hne : a.blockId = b.blockId
  · exact .inl hne
  right
  have hnot : ∀ r ∈ s.store, r.status = "active" → ∀ e ∈ s.edits, e.2 = r.blockId → InFlight s r.blockId := by
    intro r hr hst e he heq
    rcases h.done e he with hflight | hinv
    · exact heq ▸ hflight
    · have := hinv r hr heq.symm
      rw [hst] at this
      exact absurd this (by decide)
  obtain ⟨e, he, heq | heq⟩ := edited_of_related h hrel hne
  · exact .inl (hnot a ha hactive e he heq)
  · exact .inr (hnot b hb hactive' e he heq)

theorem Inv.sound (h : Inv s) : Sound s := by
  refine ⟨fun a ha b hb => h.forks ha hb, fun hnone a ha b hb hactive hactive' hrel => ?_, ?_, fun c hc e hphase => ?_⟩
  · rcases h.forks ha hb hactive hactive' hrel with heq | hflight | hflight
    · exact heq
    · exact absurd hflight (hnone _)
    · exact absurd hflight (hnone _)
  · have hnd : ((s.calls.filterMap Call.inserted).map Prod.snd).Nodup :=
      (h.inserted.map Prod.snd).nodup_iff.mp h.olds
    rw [List.map_filterMap, List.Nodup, List.pairwise_filterMap] at hnd
    refine hnd.imp fun hne id hedited hedited' => ?_
    obtain ⟨n, hn⟩ := hedited
    obtain ⟨n', hn'⟩ := hedited'
    refine hne id ?_ id ?_ rfl
    · simp [Call.inserted, hn]
    · simp [Call.inserted, hn']
  · have hok := h.calls c hc
    unfold CallOk at hok
    rwa [hphase] at hok

/-! ## What keeps the invariant -/

variable {c c' x : Call} {i : Nat}

/-- A block that is neither invalidated nor in flight has not been edited. -/
theorem Inv.not_edited (h : Inv s) (hstored : Stored s.store id)
    (hvalid : ∀ r ∈ s.store, r.blockId = id → r.status ≠ "invalidated") (hflight : ¬ InFlight s id) :
    ∀ e ∈ s.edits, e.2 ≠ id := by
  rintro e he rfl
  obtain ⟨r, hr, hid⟩ := hstored
  rcases h.done e he with hin | hinv
  · exact hflight hin
  · exact hvalid r hr hid (hinv r hr hid)

/-- The store is left, or one block in it is invalidated. -/
inductive Rewritten (t : Store) : Store → Prop
  | same : Rewritten t t
  | update (b : MemoryBlockRecord) (hb : b.status = "invalidated") : Rewritten t (updateMemoryBlock b t)

theorem Rewritten.stored (h : Rewritten t t') (hid : Stored t id) : Stored t' id := by
  rcases h with - | ⟨b, hb⟩
  · exact hid
  · exact hid.update

theorem Rewritten.invalidated (h : Rewritten t t') (hid : Invalidated t id) : Invalidated t' id := by
  rcases h with - | ⟨b, hb⟩
  · exact hid
  · exact hid.update hb

theorem CallOk.mono (h : CallOk t c) (hs : ∀ id, Stored t id → Stored t' id) : CallOk t' c := by
  unfold CallOk at h ⊢
  rcases hp : c.phase <;> rw [hp] at h
  case inserting req old => exact ⟨h.1, hs _ h.2⟩
  case returned a => rcases a <;> exact h
  all_goals exact h

theorem overwrites_of_inserted (h : c.inserted = none) : c.phase.overwrites = none := by
  unfold Call.inserted at h
  unfold Phase.overwrites
  split
  · rename_i hphase
    rw [hphase] at h
    cases h
  · rfl

theorem inserted_set {edits : List (String × String)} (h : edits.Perm (s.calls.filterMap Call.inserted))
    (hc : s.calls[i]? = some c) (hins : c.inserted = none) (c' : Call) :
    (c'.inserted.toList ++ edits).Perm ((s.calls.set i c').filterMap Call.inserted) := by
  obtain ⟨others, hp, hp'⟩ := exists_others hc c'
  have hold := h.trans (hp.filterMap Call.inserted)
  rw [List.filterMap_cons_none hins] at hold
  refine List.Perm.trans ?_ (hp'.filterMap Call.inserted).symm
  rcases hi : c'.inserted with - | e
  · rw [List.filterMap_cons_none hi]
    exact hold
  · rw [List.filterMap_cons_some hi]
    exact hold.cons e

theorem InFlight.set {s' : State} (h : InFlight s id) (hc : s.calls[i]? = some c) (hcalls : s'.calls = s.calls.set i c')
    (hins : c.inserted = none) : InFlight s' id := by
  obtain ⟨x, hx, hid⟩ := h
  rcases mem_set_of_mem hc c' hx with rfl | hx
  · rw [overwrites_of_inserted hins] at hid
    cases hid
  · exact ⟨x, hcalls ▸ hx, hid⟩

theorem Inv.move (h : Inv s) (hc : s.calls[i]? = some c) (hrw : Rewritten s.store t') (hins : c.inserted = none)
    (hins' : c'.inserted = none) (hok : CallOk t' c') : Inv ({ s with store := t' }.setCall i c') := by
  refine ⟨h.tip, fun e he => ?_, h.olds, ?_, fun e he => ?_,
    forall_mem_set (fun x hx => (h.calls x hx).mono fun _ => hrw.stored) hok⟩
  · obtain ⟨h1, h2⟩ := h.ends e he
    exact ⟨hrw.stored h1, hrw.stored h2⟩
  · have hperm := inserted_set h.inserted hc hins c'
    rwa [hins'] at hperm
  · exact (h.done e he).imp (fun hflight => hflight.set hc rfl hins) hrw.invalidated

theorem insert_eq_some (h : insertMemoryBlock b t = some t') : (∀ r ∈ t, r.blockId ≠ b.blockId) ∧ t' = t ++ [b] :=
  insertRow_eq_some.mp h

theorem stored_ne (h : Stored t id) (hne : ∀ r ∈ t, r.blockId ≠ b.blockId) : b.blockId ≠ id := by
  obtain ⟨r, hr, rfl⟩ := h
  exact (hne r hr).symm

theorem Inv.created (h : Inv s) (hc : s.calls[i]? = some c) (hins : c.inserted = none)
    (ht : insertMemoryBlock b s.store = some t') (hins' : c'.inserted = none) (hok : CallOk t' c') :
    Inv ({ s with store := t' }.setCall i c') := by
  obtain ⟨hne, rfl⟩ := insert_eq_some ht
  refine ⟨h.tip, fun e he => ?_, h.olds, ?_, fun e he => ?_,
    forall_mem_set (fun x hx => (h.calls x hx).mono fun _ hid => hid.append _) hok⟩
  · obtain ⟨h1, h2⟩ := h.ends e he
    exact ⟨h1.append _, h2.append _⟩
  · have hperm := inserted_set h.inserted hc hins c'
    rwa [hins'] at hperm
  · rcases h.done e he with hflight | hinv
    · exact .inl (hflight.set hc rfl hins)
    · exact .inr (hinv.append (stored_ne (h.ends e he).2 hne))

theorem Inv.insertedEdit (h : Inv s) (hc : s.calls[i]? = some c) (hins : c.inserted = none)
    (old edited : MemoryBlockRecord) (ht : insertMemoryBlock b s.store = some t') (hold : Stored s.store old.blockId)
    (hnone : ∀ e ∈ s.edits, e.2 ≠ old.blockId) (hid : edited.blockId = old.blockId)
    (hphase : c'.phase = .updating edited b.blockId) (hst : edited.status = "invalidated") :
    Inv ({ s with store := t', edits := (b.blockId, old.blockId) :: s.edits }.setCall i c') := by
  obtain ⟨hne, rfl⟩ := insert_eq_some ht
  have hins' : c'.inserted = some (b.blockId, old.blockId) := by
    unfold Call.inserted
    rw [hphase, ← hid]
  refine ⟨?_, fun e he => ?_, ?_, ?_, fun e he => ?_,
    forall_mem_set (fun x hx => (h.calls x hx).mono fun _ hid => hid.append _) ?_⟩
  · obtain ⟨tip, htip⟩ := h.tip
    refine ⟨_, htip.cons (fun e he => ?_) hnone⟩
    obtain ⟨h1, h2⟩ := h.ends e he
    exact ⟨(stored_ne h1 hne).symm, (stored_ne h2 hne).symm⟩
  · rcases List.mem_cons.mp he with rfl | he
    · exact ⟨⟨b, List.mem_append_right _ List.mem_cons_self, rfl⟩, hold.append _⟩
    · obtain ⟨h1, h2⟩ := h.ends e he
      exact ⟨h1.append _, h2.append _⟩
  · show (old.blockId :: s.edits.map Prod.snd).Nodup
    refine List.nodup_cons.mpr ⟨fun hmem => ?_, h.olds⟩
    obtain ⟨e, he, heq⟩ := List.mem_map.mp hmem
    exact hnone e he heq
  · have hperm := inserted_set h.inserted hc hins c'
    rwa [hins'] at hperm
  · rcases List.mem_cons.mp he with rfl | he
    · exact .inl ⟨c', mem_set_self hc _, by rw [hphase, ← hid]; rfl⟩
    · rcases h.done e he with hflight | hinv
      · exact .inl (hflight.set hc rfl hins)
      · exact .inr (hinv.append (stored_ne (h.ends e he).2 hne))
  · unfold CallOk
    rw [hphase]
    exact hst

theorem Inv.updated (h : Inv s) (hc : s.calls[i]? = some c) {edited : MemoryBlockRecord} {newId : String}
    (hphase : c.phase = .updating edited newId) (hphase' : c'.phase = .returned (.edited ⟨newId, edited.blockId⟩)) :
    Inv ({ s with store := updateMemoryBlock edited s.store }.setCall i c') := by
  have hst : edited.status = "invalidated" := by
    have hok := h.calls c (List.mem_of_getElem? hc)
    unfold CallOk at hok
    rwa [hphase] at hok
  have hins : c'.inserted = c.inserted := by
    unfold Call.inserted
    rw [hphase, hphase']
  refine ⟨h.tip, fun e he => ?_, h.olds, ?_, fun e he => ?_,
    forall_mem_set (fun x hx => (h.calls x hx).mono fun _ hid => hid.update) ?_⟩
  · obtain ⟨h1, h2⟩ := h.ends e he
    exact ⟨h1.update, h2.update⟩
  · obtain ⟨others, hp, hp'⟩ := exists_others hc c'
    have hold := h.inserted.trans (hp.filterMap Call.inserted)
    refine List.Perm.trans ?_ (hp'.filterMap Call.inserted).symm
    rw [List.filterMap_cons] at hold ⊢
    rw [hins]
    exact hold
  · by_cases hid : e.2 = edited.blockId
    · exact .inr (hid ▸ invalidated_update hst)
    · refine (h.done e he).imp (fun hflight => ?_) fun hinv => hinv.update hst
      obtain ⟨x, hx, hxid⟩ := hflight
      rcases mem_set_of_mem hc c' hx with rfl | hx
      · rw [hphase] at hxid
        exact absurd (Option.some.inj hxid).symm hid
      · exact ⟨x, hx, hxid⟩
  · unfold CallOk
    rw [hphase']
    trivial

/-! ## The steps -/

variable {epochOf : String → Option Int} {ok : Bool} {nowMs : Int} {ulid : String}

theorem getMemoryBlock_stored (h : getMemoryBlock id t = some r) : r ∈ t ∧ r.blockId = id :=
  lookup_eq_some h

theorem fetchOwnedMemory_ok {found : Option MemoryBlockRecord} {memoryId sessionUserId : String}
    (h : fetchOwnedMemory found memoryId sessionUserId = .ok r) : found = some r := by
  unfold fetchOwnedMemory at h
  split at h
  · cases h
  · split at h
    · cases h
    · cases h
      rfl

theorem eq_some_of_ite {o : Option Store} (h : (if ok then o else none) = some t) : ok = true ∧ o = some t := by
  split at h
  · rename_i hok
    exact ⟨hok, h⟩
  · cases h

theorem Inv.advance (h : Inv s) (hc : s.calls[i]? = some c) (hclean : c.phase.Clean s ok ulid)
    (hs : advance epochOf s i c ok nowMs ulid = some s') : Inv s' := by
  have hcall := h.calls c (List.mem_of_getElem? hc)
  obtain ⟨sessionUserId, phase, wrote⟩ := c
  unfold MemoryTransparency.advance at hs
  rcases phase
  case creating req =>
    dsimp only at hs
    split at hs
    · rename_i t ht
      cases hs
      exact h.created hc rfl (eq_some_of_ite ht).2 rfl trivial
    · cases hs
      exact h.move hc .same rfl rfl hcall
  case fetching req =>
    dsimp only at hs
    split at hs
    · cases hs
      exact h.move hc .same rfl rfl hcall
    · rename_i old hfetch
      split at hs
      · cases hs
        exact h.move hc .same rfl rfl hcall
      · cases hs
        have hfound := fetchOwnedMemory_ok hfetch
        split at hfound
        · obtain ⟨hmem, -⟩ := getMemoryBlock_stored hfound
          exact h.move hc .same rfl rfl ⟨hcall, old, hmem, rfl⟩
        · cases hfound
  case inserting req old =>
    dsimp only at hs
    split at hs
    · rename_i t ht
      cases hs
      obtain ⟨hok, ht⟩ := eq_some_of_ite ht
      obtain ⟨hvalid, hflight⟩ := hclean hok (insert_eq_some ht).1
      exact h.insertedEdit hc rfl old (editedBlock old ulid nowMs) ht hcall.2 (h.not_edited hcall.2 hvalid hflight) rfl rfl
        (status_editedBlock old ulid nowMs)
    · cases hs
      exact h.move hc .same rfl rfl hcall.1
  case updating edited newId =>
    obtain rfl : ok = true := hclean
    cases hs
    exact h.updated hc rfl rfl
  case finding memoryId =>
    dsimp only at hs
    split at hs
    · cases hs
      exact h.move hc .same rfl rfl hcall
    · split at hs
      · cases hs
        exact h.move hc .same rfl rfl trivial
      · cases hs
        exact h.move hc .same rfl rfl hcall
  case deleting old =>
    dsimp only at hs
    split at hs
    · cases hs
      exact h.move hc (.update _ (status_deletedBlock old sessionUserId nowMs)) rfl rfl trivial
    · cases hs
      exact h.move hc .same rfl rfl hcall
  case returned => cases hs

theorem Inv.start (h : Inv s) (hins : c.inserted = none) (hok : CallOk s.store c) :
    Inv { s with calls := s.calls ++ [c] } := by
  refine ⟨h.tip, h.ends, h.olds, ?_, fun e he => ?_, fun x hx => ?_⟩
  · show s.edits.Perm ((s.calls ++ [c]).filterMap Call.inserted)
    rw [List.filterMap_append, List.filterMap_cons_none hins, List.filterMap_nil, List.append_nil]
    exact h.inserted
  · refine (h.done e he).imp_left fun ⟨x, hx, hid⟩ => ?_
    exact ⟨x, List.mem_append_left _ hx, hid⟩
  · rcases List.mem_append.mp hx with hold | hnew
    · exact h.calls x hold
    · rw [List.mem_singleton.mp hnew]
      exact hok

variable {a : Act}

theorem Inv.step (h : Inv s) (hclean : Clean s a) (hs : step epochOf s a = some s') : Inv s' := by
  rcases a with ⟨req, sessionUserId⟩ | ⟨req, sessionUserId⟩ | ⟨memoryId, sessionUserId⟩ | ⟨i, ok, nowMs, ulid⟩
  · cases hs
    unfold startCreate
    split
    · exact h.start rfl rfl
    · exact h.start rfl rfl
  · cases hs
    exact h.start rfl rfl
  · cases hs
    exact h.start rfl rfl
  · obtain ⟨c, hc, hs⟩ := Option.bind_eq_some_iff.mp hs
    exact h.advance hc (hclean c hc) hs

/-- What a step of call `i` can do: it leaves the store, invalidates one block of it or adds one; a call that has written
is marked; and a block that is edited was not invalidated. -/
structure Effect (s : State) (i : Nat) (c : Call) (s' : State) : Prop where
  store : Rewritten s.store s'.store ∨ ∃ b, (∀ r ∈ s.store, r.blockId ≠ b.blockId) ∧ s'.store = s.store ++ [b]
  call : ∃ c', s'.calls = s.calls.set i c' ∧ (c.wrote = true → c'.wrote = true) ∧ (s'.store = s.store ∨ c'.wrote = true)
  edits : s'.edits = s.edits ∨ ∃ new old, s'.edits = (new, old) :: s.edits ∧
    ∀ r ∈ s.store, r.blockId = old → r.status ≠ "invalidated"

theorem Effect.quiet (c' : Call) (hwrote : c.wrote = true → c'.wrote = true) : Effect s i c (s.setCall i c') :=
  ⟨.inl .same, ⟨c', rfl, hwrote, .inl rfl⟩, .inl rfl⟩

theorem advance_effect (hcall : CallOk s.store c) (hclean : c.phase.Clean s ok ulid)
    (hs : advance epochOf s i c ok nowMs ulid = some s') : Effect s i c s' := by
  obtain ⟨sessionUserId, phase, wrote⟩ := c
  unfold MemoryTransparency.advance at hs
  rcases phase
  case creating req =>
    dsimp only at hs
    split at hs <;> cases hs
    · rename_i t ht
      obtain ⟨hne, rfl⟩ := insert_eq_some (eq_some_of_ite ht).2
      exact ⟨.inr ⟨_, hne, rfl⟩, ⟨_, rfl, fun _ => rfl, .inr rfl⟩, .inl rfl⟩
    · exact .quiet _ id
  case fetching req =>
    dsimp only at hs
    split at hs
    · cases hs
      exact .quiet _ id
    · split at hs <;> cases hs <;> exact .quiet _ id
  case inserting req old =>
    dsimp only at hs
    split at hs <;> cases hs
    · rename_i t ht
      obtain ⟨hok, ht⟩ := eq_some_of_ite ht
      obtain ⟨hne, rfl⟩ := insert_eq_some ht
      exact ⟨.inr ⟨_, hne, rfl⟩, ⟨_, rfl, fun _ => rfl, .inr rfl⟩, .inr ⟨ulid, old.blockId, rfl, (hclean hok hne).1⟩⟩
    · exact .quiet _ id
  case updating edited newId =>
    obtain rfl : ok = true := hclean
    cases hs
    exact ⟨.inl (.update edited hcall), ⟨_, rfl, fun _ => rfl, .inr rfl⟩, .inl rfl⟩
  case finding memoryId =>
    dsimp only at hs
    split at hs
    · cases hs
      exact .quiet _ id
    · split at hs <;> cases hs <;> exact .quiet _ id
  case deleting old =>
    dsimp only at hs
    split at hs <;> cases hs
    · exact ⟨.inl (.update _ (status_deletedBlock old sessionUserId nowMs)), ⟨_, rfl, fun _ => rfl, .inr rfl⟩, .inl rfl⟩
    · exact .quiet _ id
  case returned => cases hs

theorem step_effect (h : Inv s) (hclean : Clean s a) (hs : step epochOf s a = some s') :
    (∃ i ok nowMs ulid c, a = .run i ok nowMs ulid ∧ s.calls[i]? = some c ∧ Effect s i c s') ∨
      ∃ c, s' = { s with calls := s.calls ++ [c] } := by
  rcases a with ⟨req, sessionUserId⟩ | ⟨req, sessionUserId⟩ | ⟨memoryId, sessionUserId⟩ | ⟨i, ok, nowMs, ulid⟩
  case run =>
    obtain ⟨c, hc, hs⟩ := Option.bind_eq_some_iff.mp hs
    exact .inl ⟨i, ok, nowMs, ulid, c, rfl, hc, advance_effect (h.calls c (List.mem_of_getElem? hc)) (hclean c hc) hs⟩
  all_goals exact .inr ⟨_, (Option.some.inj hs).symm⟩

/-! ## Every run -/

theorem inv_run {t : Store} {as : List Act} (hclean : Along (step epochOf) Clean (init t) as)
    (hrun : run (step epochOf) (init t) as = some s) : Inv s :=
  run_inv (fun h hc hs => h.step hc hs) (inv_init t) hclean hrun

/-- Call `i` has written to the store. -/
def Wrote (s : State) (i : Nat) : Prop := ∃ c, s.calls[i]? = some c ∧ c.wrote = true

theorem wrote_step (h : Inv s) (hclean : Clean s a) (hs : step epochOf s a = some s') (hw : Wrote s i) : Wrote s' i := by
  obtain ⟨c, hc, hwrote⟩ := hw
  have hlt := (List.getElem?_eq_some_iff.mp hc).1
  rcases step_effect h hclean hs with ⟨j, -, -, -, d, -, hd, heffect⟩ | ⟨d, rfl⟩
  · obtain ⟨d', hcalls, hkept, -⟩ := heffect.call
    by_cases hij : j = i
    · subst hij
      obtain rfl := Option.some.inj (hd.symm.trans hc)
      exact ⟨d', by rw [hcalls, List.getElem?_set_self hlt], hkept hwrote⟩
    · exact ⟨c, by rw [hcalls, List.getElem?_set_ne hij, hc], hwrote⟩
  · exact ⟨c, by rw [List.getElem?_append_left hlt, hc], hwrote⟩

theorem wrote_run {as : List Act} (h : Inv s) (hclean : Along (step epochOf) Clean s as)
    (hrun : run (step epochOf) s as = some s') (hw : Wrote s i) : Wrote s' i :=
  (run_inv (I := fun u => Inv u ∧ Wrote u i) (fun hu hc hs => ⟨hu.1.step hc hs, wrote_step hu.1 hc hs hu.2⟩) ⟨h, hw⟩ hclean
    hrun).2

/-- A block that is invalidated stays so, and no `Edit` of it inserts any more. -/
theorem invalidated_run {as : List Act} (h : Inv s) (hclean : Along (step epochOf) Clean s as)
    (hrun : run (step epochOf) s as = some s') (hstored : Stored s.store id) (hinv : Invalidated s.store id) :
    ∀ e ∈ s'.edits, e.2 = id → e ∈ s.edits := by
  refine (run_inv (I := fun u => Inv u ∧ (Stored u.store id ∧ Invalidated u.store id) ∧
    ∀ e ∈ u.edits, e.2 = id → e ∈ s.edits) ?_ ⟨h, ⟨hstored, hinv⟩, fun e he _ => he⟩ hclean hrun).2.2
  rintro u a u' ⟨hu, ⟨hstored, hinv⟩, hedits⟩ hc hs
  refine ⟨hu.step hc hs, ?_⟩
  rcases step_effect hu hc hs with ⟨j, -, -, -, d, -, -, heffect⟩ | ⟨d, rfl⟩
  · refine ⟨?_, ?_⟩
    · rcases heffect.store with hrw | ⟨b, hne, hstore⟩
      · exact ⟨hrw.stored hstored, hrw.invalidated hinv⟩
      · rw [hstore]
        exact ⟨hstored.append _, hinv.append (stored_ne hstored hne)⟩
    · rcases heffect.edits with heq | ⟨new, old, heq, hvalid⟩
      · rw [heq]
        exact hedits
      · rw [heq]
        intro e he heid
        rcases List.mem_cons.mp he with rfl | he
        · obtain ⟨r, hr, hrid⟩ := hstored
          exact absurd (hinv r hr hrid) (hvalid r hr (hrid.trans heid.symm))
        · exact hedits e he heid
  · exact ⟨⟨hstored, hinv⟩, hedits⟩

/-- On a run of clean steps, from any blocks: every state is sound; a step of a call that returns an error in the end has
left the store as it was; and a block that is invalidated before a step is edited by no later one. -/
theorem edited_chain {t : Store} {as bs : List Act} {a : Act} {u w : State}
    (hclean : Along (step epochOf) Clean (init t) (as ++ a :: bs)) (hrun : run (step epochOf) (init t) as = some s)
    (hstep : step epochOf s a = some u) (hrest : run (step epochOf) u bs = some w) :
    Sound s ∧ Sound w ∧
      (∀ i ok nowMs ulid c e, a = .run i ok nowMs ulid → w.calls[i]? = some c → c.phase = .returned (.failed e) →
        u.store = s.store) ∧
      ∀ id, Stored s.store id → Invalidated s.store id → ∀ e ∈ w.edits, e.2 = id → e ∈ s.edits := by
  obtain ⟨hclean, hafter⟩ := along_append.mp hclean
  obtain ⟨hc, hafter'⟩ := along_cons.mp (hafter s hrun)
  have hs := inv_run hclean hrun
  have hu := hs.step hc hstep
  have hw : Inv w := run_inv (fun h hc hs => h.step hc hs) hu (hafter' u hstep) hrest
  refine ⟨hs.sound, hw.sound, ?_, fun id hstored hinv => ?_⟩
  · rintro i ok nowMs ulid c e rfl hget hphase
    rcases step_effect hs hc hstep with ⟨j, _, _, _, d, hrun', hd, heffect⟩ | ⟨d, heq⟩
    · obtain ⟨rfl, -⟩ := Act.run.inj hrun'
      obtain ⟨d', hcalls, -, hsame | hwrote⟩ := heffect.call
      · exact hsame
      · have hget' : u.calls[i]? = some d' := by
          rw [hcalls, List.getElem?_set_self (List.getElem?_eq_some_iff.mp hd).1]
        obtain ⟨c', hc', hwrote'⟩ := wrote_run hu (hafter' u hstep) hrest ⟨d', hget', hwrote⟩
        obtain rfl := Option.some.inj (hget.symm.trans hc')
        exact absurd hwrote' (by simp [hw.sound.errors c (List.mem_of_getElem? hget) e hphase])
    · rw [heq]
  · exact invalidated_run hs (along_cons.mpr ⟨hc, hafter'⟩) (run_cons.mpr ⟨u, hstep, hrest⟩) hstored hinv

/-- No text is read as a time. -/
def noEpoch : String → Option Int := fun _ => none

/-- A memory is created and edited; an `Edit` of the old block is refused by its `expected_modified_at`. -/
def editOnce : List Act :=
  [.create ⟨"u", "likes tea", "preference"⟩ "u", .run 0 true 1 "m1",
    .edit ⟨"m1", some "likes coffee", none, some 1⟩ "u", .run 1 true 0 "", .run 1 true 2 "m2", .run 1 true 0 "",
    .edit ⟨"m1", some "likes milk", none, some 1⟩ "u"]

/-- Then the new block is edited and the result deleted. -/
def editAgain : List Act :=
  [.edit ⟨"m2", some "likes water", none, some 2⟩ "u", .run 3 true 0 "", .run 3 true 3 "m3", .run 3 true 0 "",
    .delete "m3" "u", .run 4 true 0 "", .run 4 true 4 ""]

theorem edited_chain_editTwice : ∃ s u w,
    run (step noEpoch) (init []) editOnce = some s ∧ step noEpoch s (.run 2 true 0 "") = some u ∧
      run (step noEpoch) u editAgain = some w ∧
      w.store.map (fun r => (r.blockId, r.status)) =
        [("m1", "invalidated"), ("m2", "invalidated"), ("m3", "invalidated")] ∧
      Sound w ∧ ∀ e ∈ w.edits, e.2 = "m1" → e ∈ s.edits := by
  refine ⟨_, _, _, rfl, rfl, rfl, by decide, ?_⟩
  have hclean : Along (step noEpoch) Clean (init []) (editOnce ++ .run 2 true 0 "" :: editAgain) := by decide
  obtain ⟨-, hsound, -, hedits⟩ := edited_chain hclean rfl rfl rfl
  exact ⟨hsound, hedits "m1" (by decide) (by decide)⟩

def createM1 : List Act := [.create ⟨"u", "likes tea", "preference"⟩ "u", .run 0 true 1 "m1"]

def Phase.isReturned : Phase → Bool
  | .returned _ => true
  | _ => false

/-- Two related blocks are active, and no call is under way. -/
def Forked (s : State) : Prop :=
  (∃ a ∈ s.store, ∃ b ∈ s.store, a.status = "active" ∧ b.status = "active" ∧ a.blockId ≠ b.blockId ∧
    Related s a.blockId b.blockId) ∧
  ∀ c ∈ s.calls, c.phase.isReturned = true

def State.active (s : State) : List String :=
  (s.store.filter fun r => r.status == "active").map MemoryBlockRecord.blockId

theorem forked_of (x y : String) (hrel : Related s x y) (hne : x ≠ y) (hx : x ∈ s.active) (hy : y ∈ s.active)
    (hret : ∀ c ∈ s.calls, c.phase.isReturned = true) : Forked s := by
  obtain ⟨a, ha, rfl⟩ := List.mem_map.mp hx
  obtain ⟨b, hb, rfl⟩ := List.mem_map.mp hy
  obtain ⟨ha, hast⟩ := List.mem_filter.mp ha
  obtain ⟨hb, hbst⟩ := List.mem_filter.mp hb
  exact ⟨⟨a, ha, b, hb, beq_iff_eq.mp hast, beq_iff_eq.mp hbst, hne, hrel⟩, hret⟩

theorem related_siblings {x y z : String} (hy : (y, x) ∈ s.edits) (hz : (z, x) ∈ s.edits) : Related s y z :=
  .trans _ _ _ (.rel _ _ hy) (.symm _ _ (.rel _ _ hz))

/-- Three ways to a fork, and one to a memory that comes back. The invalidated `m1` is edited again, after `m2` has taken
its place. Two `Edit`s carry the same `expected_modified_at` and both succeed. The update of `m1` fails: the call returns
an error, and both blocks are active. An `Edit` has fetched `m1`, a `Delete` of it succeeds, and the `Edit` goes on. -/
theorem edit_forks :
    (∃ s, run (step noEpoch) (init []) (createM1 ++
        [.edit ⟨"m1", some "likes coffee", none, some 1⟩ "u", .run 1 true 0 "", .run 1 true 2 "m2", .run 1 true 0 "",
          .edit ⟨"m1", some "likes water", none, some 2⟩ "u", .run 2 true 0 "", .run 2 true 3 "m3", .run 2 true 0 ""]) =
        some s ∧ Forked s) ∧
    (∃ s, run (step noEpoch) (init []) (createM1 ++
        [.edit ⟨"m1", some "likes coffee", none, some 1⟩ "u", .edit ⟨"m1", some "likes water", none, some 1⟩ "u",
          .run 1 true 0 "", .run 2 true 0 "", .run 1 true 2 "m2", .run 1 true 0 "", .run 2 true 2 "m3",
          .run 2 true 0 ""]) = some s ∧
        s.calls.map Call.phase = [.returned (.created "m1"), .returned (.edited ⟨"m2", "m1"⟩),
          .returned (.edited ⟨"m3", "m1"⟩)] ∧ Forked s) ∧
    (∃ s, run (step noEpoch) (init []) (createM1 ++
        [.edit ⟨"m1", some "likes coffee", none, none⟩ "u", .run 1 true 0 "", .run 1 true 2 "m2", .run 1 false 0 ""]) =
        some s ∧
        s.calls.map Call.phase = [.returned (.created "m1"),
          .returned (.failed (.mem03 .kInvalidateFailed "invalidate old block failed"))] ∧ Forked s) ∧
    (∃ s, run (step noEpoch) (init []) (createM1 ++
        [.edit ⟨"m1", some "likes coffee", none, some 1⟩ "u", .run 1 true 0 "", .delete "m1" "u", .run 2 true 0 "",
          .run 2 true 2 "", .run 1 true 3 "m2", .run 1 true 3 ""]) = some s ∧
        s.calls.map Call.phase = [.returned (.created "m1"), .returned (.edited ⟨"m2", "m1"⟩), .returned .deleted] ∧
        s.active = ["m2"]) := by
  refine ⟨⟨_, rfl, ?_⟩, ⟨_, rfl, rfl, ?_⟩, ⟨_, rfl, rfl, ?_⟩, ⟨_, rfl, rfl, by decide⟩⟩
  · exact forked_of "m2" "m3" (related_siblings (x := "m1") (by decide) (by decide)) (by decide) (by decide) (by decide)
      (by decide)
  · exact forked_of "m2" "m3" (related_siblings (x := "m1") (by decide) (by decide)) (by decide) (by decide) (by decide)
      (by decide)
  · exact forked_of "m2" "m1" (.rel _ _ (by decide)) (by decide) (by decide) (by decide) (by decide)

end MemoryTransparency

end Cortrix.Memory
