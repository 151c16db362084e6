import Cortrix.Catalog.NamespaceLifecycle
import Cortrix.Catalog.RejectedCreation
import Cortrix.Lib.Parties
import Cortrix.Resource.BorrowSafety

/-!
# Router and pool do not lock each other out, and agree

* `Deadlocked s`, `deadlocked_iff` : a cycle is a `CreateNamespace` with the pool lock at `mu_` and a `DeleteNamespace`
  with `mu_` at the pool lock; `Ordered` : the steps that do not lead to it;
* `Agree s` : the resident namespaces are the active ones; `Settled` : no admission of an active namespace is rejected,
  and none puts a namespace into the pool that has been deleted;
* `Agreed` : what every settled step keeps, one lemma for each section; `lifecycle`.
-/

namespace Cortrix.Catalog.NamespaceLifecycle
open Lib Resource DefaultINSRouter
open NamespacePool (PoolErrorCode Borrow Slot slotOf)

/-- A cycle of calls, each waiting for a lock the next one has. -/
def Deadlocked (s : State) : Prop := Lib.Deadlocked Call.wants Call.holds s.calls

/-- A `CreateNamespace` has the pool lock and waits for `mu_`. -/
def Call.atLoad : Call → Bool
  | .create _ .load => true
  | _ => false

/-- A `DeleteNamespace` has `mu_` and waits for the pool lock. -/
def Call.atEvict : Call → Bool
  | .delete _ .evict => true
  | _ => false

/-- The call does not go for the second lock while another one goes for it from the other side. -/
def Call.Ordered (cfg : NamespacePool.Config) (s : State) (used : Nat) : Call → Prop
  | .create m .admitting => gate cfg s.pool m.namespaceId 0 used = .ok false → ∀ c ∈ s.calls, c.atEvict = false
  | .delete nsId .deleting => Live s.router.catalog.toTables nsId → ∀ c ∈ s.calls, c.atLoad = false
  | _ => True

def Ordered (cfg : NamespacePool.Config) (s : State) : Act → Prop
  | .run i _ used => ∀ call ∈ s.calls[i]?, call.Ordered cfg s used
  | _ => True

/-- The namespaces in the pool are those whose row is active. -/
def Agree (s : State) : Prop :=
  ∀ nsId, (slotOf s.pool nsId).isSome = true ↔ Live s.router.catalog.toTables nsId

def Quiet (s : State) : Prop := (∀ c ∈ s.calls, c = .returned) ∧ s.pool.borrows = []

/-- After the startup: every active namespace has been loaded. -/
structure Started (s : State) : Prop where
  calls : s.calls = []
  coherent : s.router.Coherent
  pool : NamespacePool.Inv s.pool
  borrows : s.pool.borrows = []
  awake : ∀ slot ∈ s.pool.slots, slot.pendingDelete = false
  agree : Agree s

/-- An admission that is rejected finds the row deleted already, and one that has loaded finds it active, or the
`DeleteNamespace` of it still before its eviction. -/
def Call.Settled (cfg : NamespacePool.Config) (s : State) (used : Nat) : Call → Prop
  | .create m .admitting =>
    (∃ code, gate cfg s.pool m.namespaceId 0 used = .error code) → ¬ Live s.router.catalog.toTables m.namespaceId
  | .create m (.install _) => Live s.router.catalog.toTables m.namespaceId ∨ .delete m.namespaceId .evict ∈ s.calls
  | _ => True

def Settled (cfg : NamespacePool.Config) (s : State) : Act → Prop
  | .run i _ used => ∀ call ∈ s.calls[i]?, call.Settled cfg s used
  | _ => True

variable {cfg : NamespacePool.Config} {s s' : State} {i : Nat} {call call' : Call} {now : Int} {used : Nat}

/-! ## Steps -/

theorem step_lock (h : step cfg s (.lock i) = some s') :
    ∃ call access call', s.calls[i]? = some call ∧ call.next = some (access, call') ∧
      s' = { s with calls := s.calls.set i call' } := by
  obtain ⟨call, hcall, h⟩ := Option.bind_eq_some_iff.mp h
  obtain ⟨⟨access, call'⟩, hnext, h⟩ := Option.bind_eq_some_iff.mp h
  dsimp only at h
  split at h
  · exact ⟨call, access, call', hcall, hnext, (Option.some.inj h).symm⟩
  · cases h

theorem step_run (h : step cfg s (.run i now used) = some s') :
    ∃ call s₁ call', s.calls[i]? = some call ∧ runCall cfg s now used call = some (s₁, call') ∧
      s' = { s₁ with calls := s.calls.set i call' } := by
  obtain ⟨call, hcall, h⟩ := Option.bind_eq_some_iff.mp h
  obtain ⟨⟨s₁, call'⟩, hrun, h⟩ := Option.map_eq_some_iff.mp h
  exact ⟨call, s₁, call', hcall, hrun, h.symm⟩

variable {a : Act} {c : Call} {s₁ : State} {l : List Call}

theorem step_invoke (ha : (∀ i, a ≠ .lock i) ∧ ∀ i now used, a ≠ .run i now used) (h : step cfg s a = some s') :
    ∃ call, invoke s a = some call ∧ s' = { s with calls := s.calls ++ [call] } := by
  rcases a with _ | _ | _ | _ | _ | i | ⟨i, now, used⟩
  case lock => exact absurd rfl (ha.1 i)
  case run => exact absurd rfl (ha.2 i now used)
  all_goals
    unfold step at h
    obtain ⟨call, hcall, h⟩ := Option.map_eq_some_iff.mp h
    exact ⟨call, hcall, h.symm⟩

/-! ## The cycle -/

theorem waits_with {a b : Access Lock} (ha : a ∈ c.wants) (hb : b ∈ c.holds) :
    c.atLoad = true ∧ a = onMu ∧ b = onPool ∨ c.atEvict = true ∧ a = onPool ∧ b = onMu := by
  have hone : ∀ {x y : Access Lock}, x ∈ [y] → x = y := fun h => List.mem_singleton.mp h
  rcases c with ⟨m, _ | _ | _ | _ | _ | _ | _ | _ | _⟩ | ⟨nsId, _ | _ | _ | _ | _⟩ | ⟨nsId, _ | _⟩ | ⟨nsId, _ | _⟩ |
    ⟨b, _ | _ | _ | _⟩ | _
  case create.load => exact .inl ⟨rfl, (Option.some.inj ha).symm, hone hb⟩
  case delete.evict => exact .inr ⟨rfl, (Option.some.inj ha).symm, hone hb⟩
  all_goals first | exact absurd hb List.not_mem_nil | cases ha

theorem atLoad_waits (h : c.atLoad = true) : onMu ∈ c.wants ∧ onPool ∈ c.holds := by
  rcases c with ⟨m, _ | _ | _ | _ | _ | _ | _ | _ | _⟩ | _ | _ | _ | _ | _
  case create.load => exact ⟨rfl, List.mem_singleton_self _⟩
  all_goals cases h

theorem atEvict_waits (h : c.atEvict = true) : onPool ∈ c.wants ∧ onMu ∈ c.holds := by
  rcases c with _ | ⟨nsId, _ | _ | _ | _ | _⟩ | _ | _ | _ | _
  case delete.evict => exact ⟨rfl, List.mem_singleton_self _⟩
  all_goals cases h

theorem deadlocked_iff : Deadlocked s ↔ (∃ c ∈ s.calls, c.atLoad = true) ∧ ∃ c ∈ s.calls, c.atEvict = true := by
  constructor
  · intro h
    constructor
    · -- otherwise every call takes `mu_` before the pool lock
      by_contra hload
      refine not_deadlocked_of_rank (fun l => if l = .mu then 0 else 1) (fun c hc a ha b hb => ?_) h
      rcases waits_with ha hb with ⟨hat, -, -⟩ | ⟨-, rfl, rfl⟩
      · exact absurd ⟨c, hc, hat⟩ hload
      · decide
    · by_contra hevict
      refine not_deadlocked_of_rank (fun l => if l = .mu then 1 else 0) (fun c hc a ha b hb => ?_) h
      rcases waits_with ha hb with ⟨-, rfl, rfl⟩ | ⟨hat, -, -⟩
      · decide
      · exact absurd ⟨c, hc, hat⟩ hevict
  · rintro ⟨⟨c, hc, hload⟩, d, hd, hevict⟩
    obtain ⟨hcw, hch⟩ := atLoad_waits hload
    obtain ⟨hdw, hdh⟩ := atEvict_waits hevict
    exact deadlocked_of_pair hc hd ⟨onMu, hcw, onMu, hdh, by decide⟩ ⟨onPool, hdw, onPool, hch, by decide⟩

theorem next_not_at {access : Access Lock} (h : call.next = some (access, call')) :
    call'.atLoad = false ∧ call'.atEvict = false := by
  rcases call with ⟨m, _ | _ | _ | _ | _ | _ | _ | _ | _⟩ | ⟨nsId, _ | _ | _ | _ | _⟩ | ⟨nsId, _ | _⟩ | ⟨nsId, _ | _⟩ |
    ⟨b, _ | _ | _ | _⟩ | _ <;> cases h <;> exact ⟨rfl, rfl⟩

theorem invoke_not_at (h : invoke s a = some call) : call.atLoad = false ∧ call.atEvict = false := by
  unfold invoke at h
  rcases a with m | _ | _ | _ | b | _ | _ <;> dsimp only at h
  · cases h
    split <;> exact ⟨rfl, rfl⟩
  · cases h
    exact ⟨rfl, rfl⟩
  · cases h
    exact ⟨rfl, rfl⟩
  · cases h
    exact ⟨rfl, rfl⟩
  · split at h
    · cases h
      exact ⟨rfl, rfl⟩
    · cases h
  · cases h
  · cases h

theorem runCall_at (h : runCall cfg s now used call = some (s₁, call')) :
    (call'.atLoad = true ↔ ∃ m, call = .create m .admitting ∧ gate cfg s.pool m.namespaceId 0 used = .ok false) ∧
      (call'.atEvict = true ↔ ∃ nsId, call = .delete nsId .deleting ∧ Live s.router.catalog.toTables nsId) := by
  rcases call with ⟨m, _ | _ | _ | _ | _ | _ | unit | _ | _⟩ | ⟨nsId, _ | _ | _ | _ | _⟩ | ⟨nsId, _ | _⟩ |
    ⟨nsId, _ | _⟩ | ⟨b, _ | _ | _ | _⟩ | _
  case create.inserting =>
    unfold runCall runCreate at h
    dsimp only at h
    split at h <;> cases h <;> simp [Call.atLoad, Call.atEvict]
  case create.admitting =>
    unfold runCall runCreate at h
    dsimp only at h
    split at h <;> rename_i hgate <;> cases h <;>
      simp [Call.atLoad, Call.atEvict, hgate]
  case create.install =>
    rcases unit with e | u <;> cases h <;>
      simp [Call.atLoad, Call.atEvict]
  case delete.deleting =>
    unfold runCall runDelete at h
    dsimp only at h
    rcases deleteNamespaceRow_spec s.router nsId with ⟨hlive, r', hr, -⟩ | ⟨hlive, hr⟩
    · rw [hr] at h
      cases h
      simp [Call.atLoad, Call.atEvict, hlive]
    · rw [hr] at h
      cases h
      simp [Call.atLoad, Call.atEvict, hlive]
  case release.decrementing =>
    unfold runCall runRelease at h
    dsimp only at h
    split at h
    · cases h
      split <;> simp [Call.atLoad, Call.atEvict]
    · cases h
  all_goals cases h <;> simp [Call.atLoad, Call.atEvict]

theorem not_deadlocked_step (h : ¬ Deadlocked s) (ho : Ordered cfg s a) (hs : step cfg s a = some s') :
    ¬ Deadlocked s' := by
  rw [deadlocked_iff] at h ⊢
  rintro ⟨⟨c, hc, hload⟩, d, hd, hevict⟩
  rcases a with _ | _ | _ | _ | _ | i | ⟨i, now, used⟩
  case lock =>
    obtain ⟨call, access, call', -, hnext, rfl⟩ := step_lock hs
    obtain ⟨hnl, hne⟩ := next_not_at hnext
    rcases List.mem_or_eq_of_mem_set hc with hc' | rfl
    · rcases List.mem_or_eq_of_mem_set hd with hd' | rfl
      · exact h ⟨⟨c, hc', hload⟩, d, hd', hevict⟩
      · rw [hne] at hevict
        cases hevict
    · rw [hnl] at hload
      cases hload
  case run =>
    obtain ⟨call, s₁, call', hcall, hrun, rfl⟩ := step_run hs
    obtain ⟨hatLoad, hatEvict⟩ := runCall_at hrun
    have hcond := ho call hcall
    rcases List.mem_or_eq_of_mem_set hc with hc' | rfl
    · rcases List.mem_or_eq_of_mem_set hd with hd' | rfl
      · exact h ⟨⟨c, hc', hload⟩, d, hd', hevict⟩
      · obtain ⟨nsId, rfl, hlive⟩ := hatEvict.mp hevict
        rw [hcond hlive c hc'] at hload
        cases hload
    · obtain ⟨m, rfl, hgate⟩ := hatLoad.mp hload
      rcases List.mem_or_eq_of_mem_set hd with hd' | rfl
      · rw [hcond hgate d hd'] at hevict
        cases hevict
      · obtain ⟨nsId, heq, -⟩ := hatEvict.mp hevict
        cases heq
  all_goals
    obtain ⟨call, hinvoke, rfl⟩ := step_invoke (by simp) hs
    obtain ⟨hnl, hne⟩ := invoke_not_at hinvoke
    rcases List.mem_append.mp hc with hc | hc
    · rcases List.mem_append.mp hd with hd | hd
      · exact h ⟨⟨c, hc, hload⟩, d, hd, hevict⟩
      · rw [List.mem_singleton.mp hd, hne] at hevict
        cases hevict
    · rw [List.mem_singleton.mp hc, hnl] at hload
      cases hload

theorem ordered_of_not_deadlocked (hs : step cfg s a = some s') (h : ¬ Deadlocked s') : Ordered cfg s a := by
  rw [deadlocked_iff] at h
  rcases a with _ | _ | _ | _ | _ | _ | ⟨i, now, used⟩
  case run =>
    obtain ⟨call, s₁, call', hcall, hrun, rfl⟩ := step_run hs
    obtain ⟨hatLoad, hatEvict⟩ := runCall_at hrun
    intro call₀ hcall₀
    obtain rfl := Option.some.inj (hcall.symm.trans hcall₀)
    rcases call with ⟨m, _ | _ | _ | _ | _ | _ | _ | _ | _⟩ | ⟨nsId, _ | _ | _ | _ | _⟩ | _ | _ | _ | _
    case create.admitting =>
      intro hgate c hc
      rw [Bool.eq_false_iff]
      intro hevict
      have hne : c ≠ .create m .admitting := by
        rintro rfl
        cases hevict
      exact h ⟨⟨call', mem_set_self hcall _, hatLoad.mpr ⟨m, rfl, hgate⟩⟩, c, (mem_set_of_mem hcall call' hc).resolve_left hne, hevict⟩
    case delete.deleting =>
      intro hlive c hc
      rw [Bool.eq_false_iff]
      intro hload
      have hne : c ≠ .delete nsId .deleting := by
        rintro rfl
        cases hload
      exact h ⟨⟨c, (mem_set_of_mem hcall call' hc).resolve_left hne, hload⟩, call', mem_set_self hcall _, hatEvict.mpr ⟨nsId, rfl, hlive⟩⟩
    all_goals trivial
  all_goals trivial

/-! ## Rows, slots and the calls between them -/

/-- The namespace whose rows are inserted and that is not in the pool yet. -/
def Call.admits : Call → Option String
  | .create m .admitCreate => some m.namespaceId
  | .create m .admitting => some m.namespaceId
  | .create m .load => some m.namespaceId
  | .create m .loading => some m.namespaceId
  | .create m (.install _) => some m.namespaceId
  | _ => none

/-- The namespace whose admission was rejected. -/
def Call.removes : Call → Option String
  | .create m (.remove _) => some m.namespaceId
  | .create m (.removing _) => some m.namespaceId
  | _ => none

/-- The namespace whose row is marked and whose slot is not evicted yet. -/
def Call.evicts : Call → Option String
  | .delete nsId .evict => some nsId
  | .delete nsId .evicting => some nsId
  | _ => none

/-- The namespace whose last reader has gone and whose slot is not reaped yet. -/
def Call.reaps : Call → Option String
  | .release b .reap => some b.nsId
  | .release b .reaping => some b.nsId
  | _ => none

def ids (r : Router) : List String := r.catalog.namespaces.map NSMetadata.namespaceId

/-- Rows and slots agree but for the calls in flight: of namespaces that are being admitted (`adm`), whose admission was
rejected (`rem`), that are to be evicted (`evi`) or reaped (`rea`). -/
structure Agreed (r : Router) (p : NamespacePool.State) (adm rem evi rea : List String) : Prop where
  coherent : r.Coherent
  pool : NamespacePool.Inv p
  unique : adm.Nodup
  unborn : ∀ ns ∈ adm, ∀ slot ∈ p.slots, slot.nsId ≠ ns
  mapped : ∀ ns ∈ adm ++ rem, ∃ n ∈ r.catalog.nsUnits, n.nsId = ns
  live : ∀ ns, Live r.catalog.toTables ns → (∃ slot ∈ p.slots, slot.nsId = ns ∧ slot.pendingDelete = false) ∨ ns ∈ adm
  resident : ∀ slot ∈ p.slots, slot.pendingDelete = false → Live r.catalog.toTables slot.nsId ∨ slot.nsId ∈ evi
  pending : ∀ slot ∈ p.slots, slot.pendingDelete = true →
    ¬ Live r.catalog.toTables slot.nsId ∧ (slot.refcount ≠ 0 ∨ slot.nsId ∈ rea)
  known : ∀ slot ∈ p.slots, slot.nsId ∈ ids r
  evicting : ∀ ns ∈ evi, ns ∈ ids r ∧ ¬ Live r.catalog.toTables ns

variable {r r' : Router} {p p' : NamespacePool.State} {adm rem evi rea adm' rem' evi' rea' : List String} {nsId : String}

theorem Agreed.perm (h : Agreed r p adm rem evi rea) (ha : adm.Perm adm') (hr : rem.Perm rem') (he : evi.Perm evi')
    (hx : rea.Perm rea') : Agreed r p adm' rem' evi' rea' := by
  refine ⟨h.coherent, h.pool, ha.nodup_iff.mp h.unique, fun ns hn => h.unborn ns (ha.mem_iff.mpr hn),
    fun ns hn => h.mapped ns ((ha.append hr).mem_iff.mpr hn), fun ns hl => ?_, fun slot hs hp => ?_,
    fun slot hs hp => ?_, h.known, fun ns hn => h.evicting ns (he.mem_iff.mpr hn)⟩
  · rcases h.live ns hl with hslot | hadm
    · exact .inl hslot
    · exact .inr (ha.mem_iff.mp hadm)
  · rcases h.resident slot hs hp with hl | hevi
    · exact .inl hl
    · exact .inr (he.mem_iff.mp hevi)
  · obtain ⟨hl, hc | hrea⟩ := h.pending slot hs hp
    · exact ⟨hl, .inl hc⟩
    · exact ⟨hl, .inr (hx.mem_iff.mp hrea)⟩

/-! ## The sections of the router -/

theorem Agreed.router (h : Agreed r p adm rem evi rea) (hcat : r'.catalog = r.catalog) (hcoh : r'.Coherent) :
    Agreed r' p adm rem evi rea := by
  obtain ⟨-, hpool, hunique, hunborn, hmapped, hlive, hresident, hpending, hknown, hevicting⟩ := h
  unfold ids at hknown hevicting
  rw [← hcat] at hmapped hlive hresident hpending hknown hevicting
  exact ⟨hcoh, hpool, hunique, hunborn, hmapped, hlive, hresident, hpending, hknown, hevicting⟩

theorem Agreed.insert (h : Agreed r p adm rem evi rea) {m : NSMetadata} {c : CatalogDb}
    (hins : insertNamespaceCatalog r.catalog m now = .ok c) :
    Agreed { r with catalog := c } p (m.namespaceId :: adm) rem evi rea := by
  have hrows := insertNamespaceCatalog_ok hins
  obtain ⟨-, hfresh, -⟩ := fresh_of_withRows hrows
  have hns : c.namespaces = r.catalog.namespaces ++ [namespaceRow m now] := congrArg Tables.namespaces hrows
  have hmaps : c.nsUnits = r.catalog.nsUnits ++ [nsUnitRow m now] := congrArg Tables.nsUnits hrows
  have hnew : ∀ ns ∈ ids r, ns ≠ m.namespaceId := by
    intro ns hmem
    obtain ⟨n, hn, rfl⟩ := List.mem_map.mp hmem
    exact hfresh n hn
  have hids : ∀ ns ∈ ids r, ns ∈ ids { r with catalog := c } := by
    intro ns hmem
    show ns ∈ c.namespaces.map NSMetadata.namespaceId
    rw [hns, List.map_append]
    exact List.mem_append_left _ hmem
  have hgrow : ∀ ns, Live r.catalog.toTables ns → Live c.toTables ns := by
    rintro ns ⟨n, hn, hl⟩
    refine ⟨n, ?_, hl⟩
    rw [hns]
    exact List.mem_append_left _ hn
  have hback : ∀ ns, Live c.toTables ns → Live r.catalog.toTables ns ∨ ns = m.namespaceId := by
    rintro ns ⟨n, hn, hl⟩
    rw [hns] at hn
    rcases List.mem_append.mp hn with hn | hn
    · exact .inl ⟨n, hn, hl⟩
    · rw [List.mem_singleton.mp hn] at hl
      exact .inr (beq_iff_eq.mp (Bool.and_eq_true_iff.mp hl).1).symm
  have hmapped_ids : ∀ ns ∈ adm ++ rem, ns ∈ ids r := by
    intro ns hmem
    obtain ⟨n, hn, rfl⟩ := h.mapped ns hmem
    exact (r.catalog.foreignKeys.2.2.1 n hn).1
  refine ⟨h.coherent.inserted hrows, h.pool, ?_, fun ns hmem slot hslot => ?_, fun ns hmem => ?_, fun ns hl => ?_,
    fun slot hslot hp => ?_, fun slot hslot hp => ?_, fun slot hslot => hids _ (h.known slot hslot), fun ns hmem => ?_⟩
  · refine List.nodup_cons.mpr ⟨fun hmem => ?_, h.unique⟩
    exact hnew _ (hmapped_ids _ (List.mem_append_left _ hmem)) rfl
  · rcases List.mem_cons.mp hmem with rfl | hmem
    · exact hnew _ (h.known slot hslot)
    · exact h.unborn ns hmem slot hslot
  · show ∃ n ∈ c.nsUnits, n.nsId = ns
    rw [hmaps]
    rcases List.mem_cons.mp hmem with rfl | hmem
    · exact ⟨nsUnitRow m now, List.mem_append_right _ (List.mem_singleton_self _), rfl⟩
    · obtain ⟨n, hn, hid⟩ := h.mapped ns hmem
      exact ⟨n, List.mem_append_left _ hn, hid⟩
  · rcases hback ns hl with hl | rfl
    · rcases h.live ns hl with hslot | hadm
      · exact .inl hslot
      · exact .inr (List.mem_cons_of_mem _ hadm)
    · exact .inr List.mem_cons_self
  · exact (h.resident slot hslot hp).imp_left (hgrow _)
  · obtain ⟨hl, hc⟩ := h.pending slot hslot hp
    refine ⟨fun hl' => ?_, hc⟩
    rcases hback _ hl' with hl' | heq
    · exact hl hl'
    · exact hnew _ (h.known slot hslot) heq
  · obtain ⟨hid, hl⟩ := h.evicting ns hmem
    refine ⟨hids ns hid, fun hl' => ?_⟩
    rcases hback _ hl' with hl' | heq
    · exact hl hl'
    · exact hnew _ hid heq

theorem live_softDelete {t : DefaultINSRouter.Tables} {ns : String} :
    Live (softDelete nsId t) ns ↔ Live t ns ∧ ns ≠ nsId := by
  constructor
  · rintro ⟨n, hn, hl⟩
    obtain ⟨old, hold, rfl⟩ := mem_updateWhere.mp hn
    split at hl
    · simp [isLive] at hl
    · rename_i hdead
      refine ⟨⟨old, hold, hl⟩, ?_⟩
      rintro rfl
      exact hdead hl
  · rintro ⟨⟨n, hn, hl⟩, hne⟩
    refine ⟨_, mem_updateWhere_of_mem hn, ?_⟩
    have hother : isLive nsId n = false := by
      rw [Bool.eq_false_iff]
      intro hl'
      have h₁ := beq_iff_eq.mp (Bool.and_eq_true_iff.mp hl).1
      have h₂ := beq_iff_eq.mp (Bool.and_eq_true_iff.mp hl').1
      exact hne (h₁.symm.trans h₂)
    rw [if_neg (by simp [hother])]
    exact hl

theorem Agreed.delete (h : Agreed r p adm rem evi rea) (hlive : Live r.catalog.toTables nsId)
    (hdel : deleteNamespaceRow r nsId = (r', .ok ()))
    (hrows : r'.catalog.toTables = softDelete nsId r.catalog.toTables) :
    Agreed r' p adm rem (nsId :: evi) rea := by
  have hcoh : r'.Coherent := by
    have := h.coherent.deleteNamespaceRow nsId
    rwa [hdel] at this
  have hids : ids r' = ids r := by
    unfold ids
    rw [hrows]
    exact softDelete_ids _ _
  have hl : ∀ ns, Live r'.catalog.toTables ns ↔ Live r.catalog.toTables ns ∧ ns ≠ nsId := by
    intro ns
    rw [hrows]
    exact live_softDelete
  refine ⟨hcoh, h.pool, h.unique, h.unborn, fun ns hmem => ?_, fun ns hlive' => h.live ns ((hl ns).mp hlive').1,
    fun slot hslot hp => ?_, fun slot hslot hp => ?_, fun slot hslot => ?_, fun ns hmem => ?_⟩
  · rw [hrows]
    exact h.mapped ns hmem
  · by_cases heq : slot.nsId = nsId
    · exact .inr (by rw [heq]; exact List.mem_cons_self)
    · rcases h.resident slot hslot hp with hlive' | hevi
      · exact .inl ((hl _).mpr ⟨hlive', heq⟩)
      · exact .inr (List.mem_cons_of_mem _ hevi)
  · obtain ⟨hdead, hc⟩ := h.pending slot hslot hp
    exact ⟨fun hlive' => hdead ((hl _).mp hlive').1, hc⟩
  · rw [hids]
    exact h.known slot hslot
  · rw [hids]
    rcases List.mem_cons.mp hmem with rfl | hmem
    · obtain ⟨n, hn, hlive'⟩ := hlive
      refine ⟨List.mem_map.mpr ⟨n, hn, beq_iff_eq.mp (Bool.and_eq_true_iff.mp hlive').1⟩, fun hlive'' => ?_⟩
      exact ((hl _).mp hlive'').2 rfl
    · obtain ⟨hid, hdead⟩ := h.evicting ns hmem
      exact ⟨hid, fun hlive' => hdead ((hl _).mp hlive').1⟩

theorem Agreed.remove (h : Agreed r p adm (nsId :: rem) evi rea) :
    Agreed (removeNamespaceCatalogRows r nsId) p adm rem evi rea := by
  obtain ⟨n, hn, hid⟩ := h.mapped nsId (List.mem_append_right _ List.mem_cons_self)
  obtain ⟨hcat, hcoh⟩ := removeNamespaceCatalogRows_spec h.coherent hn hid
  have hless : Agreed r p adm rem evi rea := by
    refine ⟨h.coherent, h.pool, h.unique, h.unborn, fun ns hmem => h.mapped ns ?_, h.live, h.resident, h.pending,
      h.known, h.evicting⟩
    rcases List.mem_append.mp hmem with hmem | hmem
    · exact List.mem_append_left _ hmem
    · exact List.mem_append_right _ (List.mem_cons_of_mem _ hmem)
  exact hless.router hcat hcoh

theorem Agreed.reject (h : Agreed r p (nsId :: adm) rem evi rea) (hdead : ¬ Live r.catalog.toTables nsId) :
    Agreed r p adm (nsId :: rem) evi rea := by
  refine ⟨h.coherent, h.pool, (List.nodup_cons.mp h.unique).2, fun ns hmem => h.unborn ns (List.mem_cons_of_mem _ hmem),
    fun ns hmem => h.mapped ns ?_, fun ns hl => ?_, h.resident, h.pending, h.known, h.evicting⟩
  · exact List.perm_middle.mem_iff.mp hmem
  · rcases h.live ns hl with hslot | hmem
    · exact .inl hslot
    · rcases List.mem_cons.mp hmem with rfl | hmem
      · exact absurd hl hdead
      · exact .inr hmem

/-! ## The sections of the pool -/

theorem slotOf_none (h : Agreed r p (nsId :: adm) rem evi rea) : slotOf p nsId = none :=
  lookup_eq_none.mpr (h.unborn nsId List.mem_cons_self)

theorem Agreed.updateSlot (h : Agreed r p adm rem evi rea) (nsId : String) (hpool : NamespacePool.Inv p')
    {f : Slot → Slot} (hslots : p'.slots = updateWhere (fun slot => slot.nsId == nsId) f p.slots)
    (hf : ∀ slot, (f slot).nsId = slot.nsId ∧ (f slot).pendingDelete = slot.pendingDelete)
    (hmark : ∀ slot ∈ p.slots, slot.nsId = nsId → slot.pendingDelete = true → (f slot).refcount ≠ 0 ∨ nsId ∈ rea')
    (hrea : ∀ ns ∈ rea, ns ∈ rea') : Agreed r p' adm rem evi rea' := by
  have hold : ∀ slot' ∈ p'.slots, ∃ slot ∈ p.slots, slot'.nsId = slot.nsId ∧
      slot'.pendingDelete = slot.pendingDelete ∧ (slot' = slot ∨ slot.nsId = nsId ∧ slot' = f slot) := by
    intro slot' hslot'
    rw [hslots] at hslot'
    rcases NamespacePool.mem_updateSlot hslot' with ⟨slot, hslot, hns, rfl⟩ | ⟨hslot, -⟩
    · exact ⟨slot, hslot, (hf slot).1, (hf slot).2, .inr ⟨hns, rfl⟩⟩
    · exact ⟨slot', hslot, rfl, rfl, .inl rfl⟩
  have hnew : ∀ slot ∈ p.slots, ∃ slot' ∈ p'.slots,
      slot'.nsId = slot.nsId ∧ slot'.pendingDelete = slot.pendingDelete := by
    intro slot hslot
    rw [hslots]
    refine ⟨_, mem_updateWhere_of_mem hslot, ?_⟩
    split
    · exact hf slot
    · exact ⟨rfl, rfl⟩
  refine ⟨h.coherent, hpool, h.unique, fun ns hmem slot' hslot' => ?_, h.mapped, fun ns hl => ?_,
    fun slot' hslot' hp => ?_, fun slot' hslot' hp => ?_, fun slot' hslot' => ?_, h.evicting⟩
  · obtain ⟨slot, hslot, hns, -⟩ := hold slot' hslot'
    rw [hns]
    exact h.unborn ns hmem slot hslot
  · rcases h.live ns hl with ⟨slot, hslot, hns, hp⟩ | hadm
    · obtain ⟨slot', hslot', hns', hp'⟩ := hnew slot hslot
      exact .inl ⟨slot', hslot', hns'.trans hns, hp'.trans hp⟩
    · exact .inr hadm
  · obtain ⟨slot, hslot, hns, hp', -⟩ := hold slot' hslot'
    rw [hns]
    exact h.resident slot hslot (hp'.symm.trans hp)
  · obtain ⟨slot, hslot, hns, hp', hwhich⟩ := hold slot' hslot'
    rw [hns]
    obtain ⟨hdead, hc⟩ := h.pending slot hslot (hp'.symm.trans hp)
    refine ⟨hdead, ?_⟩
    rcases hwhich with rfl | ⟨heq, rfl⟩
    · exact hc.imp_right (hrea _)
    · rw [heq]
      exact hmark slot hslot heq (hp'.symm.trans hp)
  · obtain ⟨slot, hslot, hns, -⟩ := hold slot' hslot'
    rw [hns]
    exact h.known slot hslot

theorem Agreed.sameSlots (h : Agreed r p adm rem evi rea) (hpool : NamespacePool.Inv p') (hslots : p'.slots = p.slots)
    (hrea : ∀ slot ∈ p.slots, slot.pendingDelete = true → slot.refcount ≠ 0 ∨ slot.nsId ∈ rea') :
    Agreed r p' adm rem evi rea' := by
  obtain ⟨hcoh, -, hunique, hunborn, hmapped, hlive, hresident, hpending, hknown, hevicting⟩ := h
  have hpending' : ∀ slot ∈ p.slots, slot.pendingDelete = true →
      ¬ Live r.catalog.toTables slot.nsId ∧ (slot.refcount ≠ 0 ∨ slot.nsId ∈ rea') :=
    fun slot hslot hp => ⟨(hpending slot hslot hp).1, hrea slot hslot hp⟩
  rw [← hslots] at hunborn hlive hresident hpending' hknown
  exact ⟨hcoh, hpool, hunique, hunborn, hmapped, hlive, hresident, hpending', hknown, hevicting⟩

theorem Agreed.dropSlot (h : Agreed r p adm rem evi rea) (nsId : String) (hpool : NamespacePool.Inv p')
    (hslots : p'.slots = deleteWhere (fun slot => slot.nsId == nsId) p.slots) (hdead : ¬ Live r.catalog.toTables nsId)
    (hevi : ∀ ns ∈ evi, ns ≠ nsId → ns ∈ evi') (hrea : ∀ ns ∈ rea, ns ≠ nsId → ns ∈ rea')
    (hevi' : ∀ ns ∈ evi', ns ∈ evi) : Agreed r p' adm rem evi' rea' := by
  have hold : ∀ slot ∈ p'.slots, slot ∈ p.slots ∧ slot.nsId ≠ nsId := by
    intro slot hslot
    rw [hslots] at hslot
    obtain ⟨hslot, hne⟩ := mem_deleteWhere.mp hslot
    exact ⟨hslot, beq_eq_false_iff_ne.mp hne⟩
  refine ⟨h.coherent, hpool, h.unique, fun ns hmem slot hslot => h.unborn ns hmem slot (hold slot hslot).1, h.mapped,
    fun ns hl => ?_, fun slot hslot hp => ?_, fun slot hslot hp => ?_,
    fun slot hslot => h.known slot (hold slot hslot).1, fun ns hmem => h.evicting ns (hevi' ns hmem)⟩
  · rcases h.live ns hl with ⟨slot, hslot, rfl, hp⟩ | hadm
    · have hne : slot.nsId ≠ nsId := by
        intro heq
        rw [heq] at hl
        exact hdead hl
      refine .inl ⟨slot, ?_, rfl, hp⟩
      rw [hslots]
      exact mem_deleteWhere.mpr ⟨hslot, beq_eq_false_iff_ne.mpr hne⟩
    · exact .inr hadm
  · obtain ⟨hslot, hne⟩ := hold slot hslot
    exact (h.resident slot hslot hp).imp_right fun hmem => hevi _ hmem hne
  · obtain ⟨hslot, hne⟩ := hold slot hslot
    obtain ⟨hl, hc⟩ := h.pending slot hslot hp
    exact ⟨hl, hc.imp_right fun hmem => hrea _ hmem hne⟩

theorem Agreed.acquire (h : Agreed r p adm rem evi rea) (nsId : String) :
    Agreed r (NamespacePool.acquire p nsId).1 adm rem evi rea := by
  have hpool := h.pool.acquire nsId
  unfold NamespacePool.acquire at hpool ⊢
  split
  · exact h
  · rename_i slot hslot
    rw [hslot] at hpool
    dsimp only at hpool ⊢
    split
    · exact h
    · rename_i hawake
      rw [if_neg hawake] at hpool
      refine h.updateSlot nsId hpool rfl (fun _ => ⟨rfl, rfl⟩) (fun slot' hslot' hns hp => ?_) fun _ hmem => hmem
      rw [h.pool.slot_of_slotOf hslot slot' hslot' hns] at hp
      exact absurd hp hawake

theorem Agreed.releaseDec (h : Agreed r p adm rem evi rea) {b : Borrow} (hb : b ∈ p.borrows) :
    Agreed r (NamespacePool.releaseDec p b) adm rem evi (if maybeReap p b then b.nsId :: rea else rea) := by
  have hpool := h.pool.releaseDec hb
  have hmore : ∀ ns ∈ rea, ns ∈ if maybeReap p b then b.nsId :: rea else rea := by
    intro ns hmem
    split
    · exact List.mem_cons_of_mem _ hmem
    · exact hmem
  unfold NamespacePool.releaseDec at hpool ⊢
  rcases hslot : slotOf p b.nsId with - | slot
  · rw [hslot] at hpool
    exact h.sameSlots hpool rfl fun slot hslot' hp => (h.pending slot hslot' hp).2.imp_right (hmore _)
  · rw [hslot] at hpool
    refine h.updateSlot b.nsId hpool rfl (fun _ => ⟨rfl, rfl⟩) (fun slot' hslot' hns hp => ?_) hmore
    rw [h.pool.slot_of_slotOf hslot slot' hslot' hns] at hp ⊢
    by_cases hone : slot.refcount = 1
    · have hreap : maybeReap p b = true := by
        unfold maybeReap
        rw [hslot]
        simp [hone, hp]
      rw [hreap]
      exact .inr List.mem_cons_self
    · refine .inl ?_
      show slot.refcount - 1 ≠ 0
      omega

theorem Agreed.releaseReap (h : Agreed r p adm rem evi (nsId :: rea)) :
    Agreed r (NamespacePool.releaseReap p nsId) adm rem evi rea := by
  have hpool := h.pool.releaseReap nsId
  unfold NamespacePool.releaseReap at hpool ⊢
  have hlookup : slotOf { p with reaping := p.reaping.erase nsId } nsId = slotOf p nsId := rfl
  dsimp only at hpool ⊢
  rw [hlookup] at hpool ⊢
  rcases hslot : slotOf p nsId with - | slot
  · rw [hslot] at hpool
    refine h.sameSlots hpool rfl fun slot hmem hp => ?_
    rcases (h.pending slot hmem hp).2 with hc | hrea
    · exact .inl hc
    · rcases List.mem_cons.mp hrea with heq | hrea
      · exact absurd heq (lookup_eq_none.mp hslot slot hmem)
      · exact .inr hrea
  · rw [hslot] at hpool
    obtain ⟨hmem, hns⟩ := NamespacePool.slotOf_eq_some hslot
    dsimp only at hpool ⊢
    split
    · rename_i hzero
      rw [if_pos hzero] at hpool
      have hdead := (h.pending slot hmem hzero.1).1
      rw [hns] at hdead
      refine h.dropSlot nsId hpool rfl hdead (fun _ hx _ => hx) (fun ns hx hne => ?_) fun _ hx => hx
      exact (List.mem_cons.mp hx).resolve_left hne
    · rename_i hnot
      rw [if_neg hnot] at hpool
      refine h.sameSlots hpool rfl fun slot' hmem' hp => ?_
      rcases (h.pending slot' hmem' hp).2 with hc | hrea
      · exact .inl hc
      · rcases List.mem_cons.mp hrea with heq | hrea
        · have hsame := h.pool.slot_of_slotOf hslot slot' hmem' heq
          refine .inl fun hc => hnot ?_
          rw [← hsame]
          exact ⟨hp, hc⟩
        · exact .inr hrea

theorem Agreed.mark (h : Agreed r p adm rem (nsId :: evi) rea) (hpool : NamespacePool.Inv p')
    (hslots : p'.slots =
      updateWhere (fun slot => slot.nsId == nsId) (fun slot => { slot with pendingDelete := true }) p.slots)
    (hborrowed : ∀ slot ∈ p.slots, slot.nsId = nsId → slot.refcount ≠ 0) : Agreed r p' adm rem evi rea := by
  have hdead := (h.evicting nsId List.mem_cons_self).2
  have hold : ∀ slot' ∈ p'.slots, (∃ slot ∈ p.slots, slot.nsId = nsId ∧ slot' = { slot with pendingDelete := true }) ∨
      slot' ∈ p.slots ∧ slot'.nsId ≠ nsId := by
    intro slot' hslot'
    rw [hslots] at hslot'
    exact NamespacePool.mem_updateSlot hslot'
  refine ⟨h.coherent, hpool, h.unique, fun ns hmem slot' hslot' => ?_, h.mapped, fun ns hl => ?_,
    fun slot' hslot' hp => ?_, fun slot' hslot' hp => ?_, fun slot' hslot' => ?_,
    fun ns hmem => h.evicting ns (List.mem_cons_of_mem _ hmem)⟩
  · rcases hold slot' hslot' with ⟨slot, hslot, -, rfl⟩ | ⟨hslot, -⟩
    · exact h.unborn ns hmem slot hslot
    · exact h.unborn ns hmem slot' hslot
  · rcases h.live ns hl with ⟨slot, hslot, rfl, hp⟩ | hadm
    · have hne : slot.nsId ≠ nsId := by
        intro heq
        rw [heq] at hl
        exact hdead hl
      refine .inl ⟨slot, ?_, rfl, hp⟩
      rw [hslots]
      exact (NamespacePool.updateSlot_mem hslot).2 hne
    · exact .inr hadm
  · rcases hold slot' hslot' with ⟨slot, -, -, rfl⟩ | ⟨hslot, hne⟩
    · cases hp
    · exact (h.resident slot' hslot hp).imp_right fun hmem => (List.mem_cons.mp hmem).resolve_left hne
  · rcases hold slot' hslot' with ⟨slot, hslot, hns, rfl⟩ | ⟨hslot, -⟩
    · refine ⟨?_, .inl (hborrowed slot hslot hns)⟩
      show ¬ Live r.catalog.toTables slot.nsId
      rw [hns]
      exact hdead
    · exact h.pending slot' hslot hp
  · rcases hold slot' hslot' with ⟨slot, hslot, -, rfl⟩ | ⟨hslot, -⟩
    · exact h.known slot hslot
    · exact h.known slot' hslot

theorem Agreed.evict (h : Agreed r p adm rem (nsId :: evi) rea) :
    Agreed r (NamespacePool.evictForDelete p nsId) adm rem evi rea := by
  have hpool := h.pool.evictForDelete nsId
  have hdead := (h.evicting nsId List.mem_cons_self).2
  have hless : ∀ ns ∈ nsId :: evi, ns ≠ nsId → ns ∈ evi := fun ns hmem hne => (List.mem_cons.mp hmem).resolve_left hne
  unfold NamespacePool.evictForDelete at hpool ⊢
  rcases hslot : slotOf p nsId with - | slot
  · have hnone := lookup_eq_none.mp hslot
    refine ⟨h.coherent, h.pool, h.unique, h.unborn, h.mapped, h.live, fun slot hmem hp => ?_, h.pending, h.known,
      fun ns hmem => h.evicting ns (List.mem_cons_of_mem _ hmem)⟩
    exact (h.resident slot hmem hp).imp_right fun hevi => hless _ hevi (hnone slot hmem)
  · rw [hslot] at hpool
    dsimp only at hpool ⊢
    split
    · rename_i hborrowed
      rw [if_pos hborrowed] at hpool
      refine h.mark hpool rfl fun slot' hslot' hns => ?_
      rw [h.pool.slot_of_slotOf hslot slot' hslot' hns]
      omega
    · rename_i hfree
      rw [if_neg hfree] at hpool
      exact h.dropSlot nsId hpool rfl hdead hless (fun _ hx _ => hx) fun _ hx => List.mem_cons_of_mem _ hx

theorem Agreed.install (h : Agreed r p (nsId :: adm) rem evi rea)
    (hrow : Live r.catalog.toTables nsId ∨ nsId ∈ evi) : Agreed r (installSlot p nsId) adm rem evi rea := by
  have hnone := slotOf_none h
  have hpool : NamespacePool.Inv (installSlot p nsId) := by
    refine h.pool.install ?_ (fun _ => ⟨rfl, rfl, rfl⟩) fun _ _ => rfl
    unfold NamespacePool.idle
    rw [hnone]
    rfl
  have hslots : (installSlot p nsId).slots = p.slots ++ [⟨nsId, p.fresh, p.fresh, 0, false⟩] := by
    unfold installSlot NamespacePool.install
    rw [hnone]
  have hcases : ∀ slot ∈ (installSlot p nsId).slots, slot ∈ p.slots ∨ slot = ⟨nsId, p.fresh, p.fresh, 0, false⟩ := by
    intro slot hslot
    rw [hslots] at hslot
    exact (List.mem_append.mp hslot).imp_right List.mem_singleton.mp
  obtain ⟨hnew, hunique⟩ := List.nodup_cons.mp h.unique
  refine ⟨h.coherent, hpool, hunique, fun ns hmem slot hslot => ?_,
    fun ns hmem => h.mapped ns (List.mem_cons_of_mem _ hmem), fun ns hl => ?_, fun slot hslot hp => ?_, fun slot hslot hp => ?_, fun slot hslot => ?_, h.evicting⟩
  · rcases hcases slot hslot with hslot | rfl
    · exact h.unborn ns (List.mem_cons_of_mem _ hmem) slot hslot
    · rintro rfl
      exact hnew hmem
  · rw [hslots]
    rcases h.live ns hl with ⟨slot, hslot, hns, hp⟩ | hadm
    · exact .inl ⟨slot, List.mem_append_left _ hslot, hns, hp⟩
    · rcases List.mem_cons.mp hadm with rfl | hadm
      · exact .inl ⟨_, List.mem_append_right _ (List.mem_singleton_self _), rfl, rfl⟩
      · exact .inr hadm
  · rcases hcases slot hslot with hslot | rfl
    · exact h.resident slot hslot hp
    · exact hrow
  · rcases hcases slot hslot with hslot | rfl
    · exact h.pending slot hslot hp
    · cases hp
  · rcases hcases slot hslot with hslot | rfl
    · exact h.known slot hslot
    · obtain ⟨n, hn, rfl⟩ := h.mapped nsId List.mem_cons_self
      exact (r.catalog.foreignKeys.2.2.1 n hn).1

/-! ## Calls in flight -/

/-- Rows and slots agree but for these calls, and no load has failed. -/
structure AgreedOn (r : Router) (p : NamespacePool.State) (calls : List Call) : Prop where
  agreed : Agreed r p (calls.filterMap Call.admits) (calls.filterMap Call.removes) (calls.filterMap Call.evicts)
    (calls.filterMap Call.reaps)
  loaded : ∀ m e, .create m (.install (.error e)) ∉ calls

theorem AgreedOn.perm {l' : List Call} (h : AgreedOn r p l) (hl : l.Perm l') : AgreedOn r p l' :=
  ⟨h.agreed.perm (hl.filterMap _) (hl.filterMap _) (hl.filterMap _) (hl.filterMap _),
    fun m e hmem => h.loaded m e (hl.mem_iff.mpr hmem)⟩

theorem AgreedOn.set (h : AgreedOn r p s.calls) (hcall : s.calls[i]? = some call)
    (hmove : ∀ others, AgreedOn r p (call :: others) → AgreedOn r' p' (call' :: others)) :
    AgreedOn r' p' (s.calls.set i call') := by
  obtain ⟨others, hold, hnew⟩ := exists_others hcall call'
  exact (hmove others (h.perm hold)).perm hnew.symm

def Call.plain (c : Call) : Bool := c.admits.isNone && c.removes.isNone && c.evicts.isNone && c.reaps.isNone

theorem Call.plain_iff : c.plain = true ↔ c.admits = none ∧ c.removes = none ∧ c.evicts = none ∧ c.reaps = none := by
  unfold Call.plain
  simp only [Bool.and_eq_true, Option.isNone_iff_eq_none, and_assoc]

theorem AgreedOn.cons_plain (hc : call.plain = true) : AgreedOn r p (call :: l) ↔ AgreedOn r p l := by
  obtain ⟨ha, hr, he, hx⟩ := Call.plain_iff.mp hc
  have hload : ∀ m e, call ≠ .create m (.install (.error e)) := by
    rintro m e rfl
    cases ha
  constructor
  · rintro ⟨h, hl⟩
    rw [List.filterMap_cons_none ha, List.filterMap_cons_none hr, List.filterMap_cons_none he,
      List.filterMap_cons_none hx] at h
    exact ⟨h, fun m e hmem => hl m e (List.mem_cons_of_mem _ hmem)⟩
  · rintro ⟨h, hl⟩
    refine ⟨?_, fun m e hmem => ?_⟩
    · rw [List.filterMap_cons_none ha, List.filterMap_cons_none hr, List.filterMap_cons_none he,
        List.filterMap_cons_none hx]
      exact h
    · rcases List.mem_cons.mp hmem with heq | hmem
      · exact hload m e heq.symm
      · exact hl m e hmem

theorem AgreedOn.same (h : AgreedOn r p (call :: l)) (ha : call'.admits = call.admits)
    (hr : call'.removes = call.removes) (he : call'.evicts = call.evicts) (hx : call'.reaps = call.reaps)
    (hload : ∀ m e, call' ≠ .create m (.install (.error e))) : AgreedOn r p (call' :: l) := by
  refine ⟨?_, fun m e hmem => ?_⟩
  · have := h.agreed
    rw [List.filterMap_cons, List.filterMap_cons, List.filterMap_cons, List.filterMap_cons] at this ⊢
    rw [ha, hr, he, hx]
    exact this
  · rcases List.mem_cons.mp hmem with heq | hmem
    · exact hload m e heq.symm
    · exact h.loaded m e (List.mem_cons_of_mem _ hmem)

theorem AgreedOn.rest (h : AgreedOn r p (call :: l)) : ∀ m e, .create m (.install (.error e)) ∉ l :=
  fun m e hmem => h.loaded m e (List.mem_cons_of_mem _ hmem)

theorem not_mem_cons_of (hne : ∀ m e, call ≠ .create m (.install (.error e)))
    (h : ∀ m e, .create m (.install (.error e)) ∉ l) : ∀ m e, Call.create m (.install (.error e)) ∉ call :: l := by
  intro m e hmem
  rcases List.mem_cons.mp hmem with heq | hmem
  · exact hne m e heq.symm
  · exact h m e hmem

theorem invoke_plain (h : invoke s a = some call) : call.plain = true := by
  unfold invoke at h
  rcases a with m | _ | _ | _ | b | _ | _ <;> dsimp only at h
  · cases h
    split <;> rfl
  · cases h
    rfl
  · cases h
    rfl
  · cases h
    rfl
  · split at h
    · cases h
      rfl
    · cases h
  · cases h
  · cases h

theorem AgreedOn.next {access : Access Lock} (hnext : call.next = some (access, call')) (h : AgreedOn r p (call :: l)) :
    AgreedOn r p (call' :: l) := by
  rcases call with ⟨m, _ | _ | _ | _ | _ | _ | _ | _ | _⟩ | ⟨nsId, _ | _ | _ | _ | _⟩ | ⟨nsId, _ | _⟩ | ⟨nsId, _ | _⟩ |
    ⟨b, _ | _ | _ | _⟩ | _ <;> cases hnext <;> exact h.same rfl rfl rfl rfl (by simp)

theorem AgreedOn.runCreate {m : NSMetadata} {pc : CreatePc} (h : AgreedOn s.router s.pool (.create m pc :: l))
    (hsettled : (Call.create m pc).Settled cfg s used)
    (hevict : ∀ nsId, .delete nsId .evict ∈ s.calls → .delete nsId .evict ∈ l)
    (hrun : runCreate cfg s m now used pc = some (s₁, call')) : AgreedOn s₁.router s₁.pool (call' :: l) := by
  rcases pc with _ | _ | _ | _ | _ | _ | unit | _ | _
  case inserting =>
    have hrest := (AgreedOn.cons_plain (by rfl)).mp h
    unfold NamespaceLifecycle.runCreate at hrun
    dsimp only at hrun
    split at hrun
    · cases hrun
      exact (AgreedOn.cons_plain (by rfl)).mpr hrest
    · rename_i c hins
      cases hrun
      exact ⟨hrest.agreed.insert hins, not_mem_cons_of (by simp) hrest.loaded⟩
  case admitting =>
    unfold NamespaceLifecycle.runCreate at hrun
    dsimp only at hrun
    split at hrun
    · rename_i code hgate
      cases hrun
      have hagreed : Agreed s.router s.pool (m.namespaceId :: l.filterMap Call.admits) _ _ _ := h.agreed
      exact ⟨hagreed.reject (hsettled ⟨code, hgate⟩), not_mem_cons_of (by simp) h.rest⟩
    · -- the namespace is not in the pool
      rename_i hgate
      have hagreed : Agreed s.router s.pool (m.namespaceId :: l.filterMap Call.admits) _ _ _ := h.agreed
      unfold gate at hgate
      split at hgate
      · cases hgate
      · split at hgate
        · cases hgate
        · have hresident := Except.ok.inj hgate
          unfold NamespacePool.alreadyResident at hresident
          rw [slotOf_none hagreed] at hresident
          cases hresident
    · cases hrun
      exact h.same rfl rfl rfl rfl (by simp)
  case loading =>
    have hagreed : Agreed s.router s.pool (m.namespaceId :: l.filterMap Call.admits) _ _ _ := h.agreed
    obtain ⟨n, hn, hid⟩ := hagreed.mapped m.namespaceId List.mem_cons_self
    obtain ⟨u, hu⟩ := getActiveUnit_ok hagreed.coherent hn hid now
    obtain ⟨-, hcat, hcoh⟩ := getActiveUnit_spec hagreed.coherent m.namespaceId now
    unfold NamespaceLifecycle.runCreate at hrun
    rcases hres : s.router.getActiveUnit m.namespaceId now with ⟨unit, router⟩
    rw [hres] at hu hcat hcoh hrun
    obtain rfl : unit = .ok u := hu
    cases hrun
    exact ⟨hagreed.router hcat hcoh, not_mem_cons_of (by simp) h.rest⟩
  case install =>
    rcases unit with e | u
    · exact absurd List.mem_cons_self (h.loaded m e)
    · cases hrun
      have hagreed : Agreed s.router s.pool (m.namespaceId :: l.filterMap Call.admits) _ (l.filterMap Call.evicts) _ :=
        h.agreed
      refine (AgreedOn.cons_plain (by rfl)).mpr ⟨hagreed.install ?_, h.rest⟩
      rcases hsettled with hlive | hmem
      · exact .inl hlive
      · exact .inr (List.mem_filterMap.mpr ⟨.delete m.namespaceId .evict, hevict _ hmem, rfl⟩)
  case removing =>
    cases hrun
    have hagreed : Agreed s.router s.pool _ (m.namespaceId :: l.filterMap Call.removes) _ _ := h.agreed
    exact (AgreedOn.cons_plain (by rfl)).mpr ⟨hagreed.remove, h.rest⟩
  all_goals cases hrun

theorem AgreedOn.runDelete {pc : DeletePc} (h : AgreedOn s.router s.pool (.delete nsId pc :: l))
    (hrun : runDelete s nsId pc = some (s₁, call')) : AgreedOn s₁.router s₁.pool (call' :: l) := by
  rcases pc with _ | _ | _ | _ | _
  case deleting =>
    have hrest := (AgreedOn.cons_plain (by rfl)).mp h
    unfold NamespaceLifecycle.runDelete at hrun
    rcases deleteNamespaceRow_spec s.router nsId with ⟨hlive, r', hr, hrows⟩ | ⟨-, hr⟩
    · rw [hr] at hrun
      cases hrun
      exact ⟨hrest.agreed.delete hlive hr hrows, not_mem_cons_of (by simp) hrest.loaded⟩
    · rw [hr] at hrun
      cases hrun
      exact (AgreedOn.cons_plain (by rfl)).mpr hrest
  case evicting =>
    cases hrun
    have hagreed : Agreed s.router s.pool _ _ (nsId :: l.filterMap Call.evicts) _ := h.agreed
    exact (AgreedOn.cons_plain (by rfl)).mpr ⟨hagreed.evict, h.rest⟩
  case evicted =>
    cases hrun
    exact h.same rfl rfl rfl rfl (by simp)
  all_goals cases hrun

theorem AgreedOn.runRelease {b : Borrow} {pc : ReleasePc} (h : AgreedOn s.router s.pool (.release b pc :: l))
    (hrun : runRelease s b pc = some (s₁, call')) : AgreedOn s₁.router s₁.pool (call' :: l) := by
  rcases pc with _ | _ | _ | _
  case decrementing =>
    have hrest := (AgreedOn.cons_plain (by rfl)).mp h
    unfold NamespaceLifecycle.runRelease at hrun
    dsimp only at hrun
    split at hrun
    · rename_i hb
      cases hrun
      have hdec := hrest.agreed.releaseDec hb
      rcases hreap : maybeReap s.pool b with - | -
      · rw [hreap] at hdec
        exact (AgreedOn.cons_plain (by rfl)).mpr ⟨hdec, hrest.loaded⟩
      · rw [hreap] at hdec
        exact ⟨hdec, not_mem_cons_of (by simp) hrest.loaded⟩
    · cases hrun
  case reaping =>
    cases hrun
    have hagreed : Agreed s.router s.pool _ _ _ (b.nsId :: l.filterMap Call.reaps) := h.agreed
    exact (AgreedOn.cons_plain (by rfl)).mpr ⟨hagreed.releaseReap, h.rest⟩
  all_goals cases hrun

theorem AgreedOn.runCall (h : AgreedOn s.router s.pool (call :: l)) (hsettled : call.Settled cfg s used)
    (hevict : ∀ nsId, .delete nsId .evict ∈ s.calls → call = .delete nsId .evict ∨
      .delete nsId .evict ∈ l) (hrun : runCall cfg s now used call = some (s₁, call')) :
    AgreedOn s₁.router s₁.pool (call' :: l) := by
  rcases call with ⟨m, pc⟩ | ⟨nsId, pc⟩ | ⟨nsId, _ | _⟩ | ⟨nsId, _ | _⟩ | ⟨b, pc⟩ | _
  · exact h.runCreate hsettled (fun nsId hmem => (hevict nsId hmem).resolve_left (by simp)) hrun
  · exact h.runDelete hrun
  · cases hrun
  · cases hrun
    have hrest := (AgreedOn.cons_plain (by rfl)).mp h
    obtain ⟨-, hcat, hcoh⟩ := getActiveUnit_spec hrest.agreed.coherent nsId now
    exact (AgreedOn.cons_plain (by rfl)).mpr ⟨hrest.agreed.router hcat hcoh, hrest.loaded⟩
  · cases hrun
  · cases hrun
    have hrest := (AgreedOn.cons_plain (by rfl)).mp h
    exact (AgreedOn.cons_plain (by rfl)).mpr ⟨hrest.agreed.acquire nsId, hrest.loaded⟩
  · exact h.runRelease hrun
  · cases hrun

theorem AgreedOn.step (h : AgreedOn s.router s.pool s.calls) (hsettled : Settled cfg s a) (hs : step cfg s a = some s') :
    AgreedOn s'.router s'.pool s'.calls := by
  rcases a with _ | _ | _ | _ | _ | i | ⟨i, now, used⟩
  case lock =>
    obtain ⟨call, access, call', hcall, hnext, rfl⟩ := step_lock hs
    exact h.set hcall fun others hothers => hothers.next hnext
  case run =>
    obtain ⟨call, s₁, call', hcall, hrun, rfl⟩ := step_run hs
    obtain ⟨others, hold, hnew⟩ := exists_others hcall call'
    have hevict : ∀ nsId, .delete nsId .evict ∈ s.calls → call = .delete nsId .evict ∨ .delete nsId .evict ∈ others :=
      fun nsId hmem => (List.mem_cons.mp (hold.mem_iff.mp hmem)).imp_left Eq.symm
    have hmoved := (h.perm hold).runCall (hsettled call hcall) hevict hrun
    exact hmoved.perm hnew.symm
  all_goals
    obtain ⟨call, hinvoke, rfl⟩ := step_invoke (by simp) hs
    exact ((AgreedOn.cons_plain (invoke_plain hinvoke)).mpr h).perm (List.perm_append_singleton _ _).symm

/-! ## Runs -/

theorem Started.agreedOn (h : Started s) : AgreedOn s.router s.pool s.calls := by
  rw [h.calls]
  refine ⟨⟨h.coherent, h.pool, List.nodup_nil, ?_, ?_, fun ns hl => ?_, fun slot hslot _ => ?_, fun slot hslot hp => ?_,
    fun slot hslot => ?_, ?_⟩, ?_⟩
  · simp
  · simp
  · obtain ⟨slot, hslot⟩ := Option.isSome_iff_exists.mp ((h.agree ns).mpr hl)
    obtain ⟨hmem, hns⟩ := NamespacePool.slotOf_eq_some hslot
    exact .inl ⟨slot, hmem, hns, h.awake slot hmem⟩
  · refine .inl ((h.agree slot.nsId).mp ?_)
    rw [slotOf, h.pool.keyed.lookup_of_mem hslot]
    rfl
  · rw [h.awake slot hslot] at hp
    cases hp
  · have hlive : Live s.router.catalog.toTables slot.nsId := by
      refine (h.agree slot.nsId).mp ?_
      rw [slotOf, h.pool.keyed.lookup_of_mem hslot]
      rfl
    obtain ⟨n, hn, hl⟩ := hlive
    exact List.mem_map.mpr ⟨n, hn, beq_iff_eq.mp (Bool.and_eq_true_iff.mp hl).1⟩
  · simp
  · simp

theorem AgreedOn.agree_of_quiet (h : AgreedOn s.router s.pool s.calls) (hq : Quiet s) : Agree s := by
  obtain ⟨hcalls, hborrows⟩ := hq
  have hnone : ∀ f : Call → Option String, f .returned = none → s.calls.filterMap f = [] := by
    intro f hf
    rw [List.filterMap_eq_nil_iff]
    intro c hc
    rw [hcalls c hc]
    exact hf
  have hagreed := h.agreed
  rw [hnone _ rfl, hnone _ rfl, hnone _ rfl, hnone _ rfl] at hagreed
  intro ns
  constructor
  · intro hsome
    obtain ⟨slot, hslot⟩ := Option.isSome_iff_exists.mp hsome
    obtain ⟨hmem, rfl⟩ := NamespacePool.slotOf_eq_some hslot
    rcases hp : slot.pendingDelete with - | -
    · exact (hagreed.resident slot hmem hp).resolve_right List.not_mem_nil
    · -- a marked slot is still borrowed
      have hc := (hagreed.pending slot hmem hp).2.resolve_right List.not_mem_nil
      obtain ⟨b, hb, -⟩ := hagreed.pool.exists_borrow hmem hc
      rw [hborrows] at hb
      cases hb
  · intro hl
    obtain ⟨slot, hmem, rfl, -⟩ := (hagreed.live ns hl).resolve_right List.not_mem_nil
    rw [slotOf, hagreed.pool.keyed.lookup_of_mem hmem]
    rfl

instance (x : Except PoolErrorCode Bool) : Decidable (∃ code, x = .error code) :=
  match x with
  | .error code => .isTrue ⟨code, rfl⟩
  | .ok _ => .isFalse fun ⟨_, h⟩ => nomatch h

instance (cfg : NamespacePool.Config) (s : State) (used : Nat) : ∀ c : Call, Decidable (c.Ordered cfg s used)
  | .create m .admitting => inferInstanceAs (Decidable (gate cfg s.pool m.namespaceId 0 used = .ok false → _))
  | .delete nsId .deleting => inferInstanceAs (Decidable (Live s.router.catalog.toTables nsId → _))
  | .create _ .insert | .create _ .inserting | .create _ .admitCreate | .create _ .load | .create _ .loading
  | .create _ (.install _) | .create _ (.remove _) | .create _ (.removing _)
  | .delete _ .delete | .delete _ .evict | .delete _ .evicting | .delete _ .evicted
  | .getActiveUnit _ _ | .acquire _ _ | .release _ _ | .returned => .isTrue trivial

instance (cfg : NamespacePool.Config) (s : State) (used : Nat) : ∀ c : Call, Decidable (c.Settled cfg s used)
  | .create m .admitting =>
    inferInstanceAs (Decidable ((∃ code, gate cfg s.pool m.namespaceId 0 used = .error code) → ¬ Live _ _))
  | .create m (.install _) => inferInstanceAs (Decidable (Live s.router.catalog.toTables m.namespaceId ∨ _))
  | .create _ .insert | .create _ .inserting | .create _ .admitCreate | .create _ .load | .create _ .loading
  | .create _ (.remove _) | .create _ (.removing _)
  | .delete _ _ | .getActiveUnit _ _ | .acquire _ _ | .release _ _ | .returned => .isTrue trivial

instance (cfg : NamespacePool.Config) (s : State) : ∀ a : Act, Decidable (Ordered cfg s a)
  | .run i _ used => inferInstanceAs (Decidable (∀ call ∈ s.calls[i]?, call.Ordered cfg s used))
  | .createNamespace _ | .deleteNamespace _ | .getActiveUnit _ | .acquire _ | .release _ | .lock _ => .isTrue trivial

instance (cfg : NamespacePool.Config) (s : State) : ∀ a : Act, Decidable (Settled cfg s a)
  | .run i _ used => inferInstanceAs (Decidable (∀ call ∈ s.calls[i]?, call.Settled cfg s used))
  | .createNamespace _ | .deleteNamespace _ | .getActiveUnit _ | .acquire _ | .release _ | .lock _ => .isTrue trivial

instance (s : State) : Decidable (Quiet s) := inferInstanceAs (Decidable ((∀ c ∈ s.calls, c = .returned) ∧ _ = []))

def empty : State where
  router := { catalog := emptyCatalog }
  pool := .init []

theorem started_empty : Started empty where
  calls := rfl
  coherent := ⟨.empty _ _ _, .empty _ _ _⟩
  pool := .init []
  borrows := rfl
  awake _ h := absurd h List.not_mem_nil
  agree nsId := by
    constructor
    · intro h
      cases h
    · rintro ⟨n, hn, -⟩
      exact absurd hn List.not_mem_nil

def config : NamespacePool.Config := ⟨64, 0⟩

def loads : List Act := [.createNamespace metadata, .lock 0, .run 0 1 0, .lock 0, .run 0 1 0]

/-- The namespace is created, borrowed, deleted and given back. -/
def oneAfterTheOther : List Act :=
  loads ++ [.lock 0, .run 0 1 0, .run 0 1 0, .acquire "a", .lock 1, .run 1 2 0, .deleteNamespace "a", .lock 2, .run 2 3 0,
    .lock 2, .run 2 3 0, .run 2 3 0, .release ⟨"a", 0, 0⟩, .lock 3, .run 3 4 0, .lock 3, .run 3 4 0]

/-- The namespace is deleted while it is loaded. -/
def deletedAtLoad : List Act := loads ++ [.deleteNamespace "a", .lock 1, .run 1 1 0]

end Cortrix.Catalog.NamespaceLifecycle
