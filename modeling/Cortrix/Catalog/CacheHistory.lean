import Cortrix.Catalog.CacheIndex
import Cortrix.Lib.Recency

/-!
# Runs of the cache

* `Stands capacity h key value t` : the last `Put` of the key, at `t`, has stored the value, and it was not dropped
  since;
* `Tracks h c` : the cache holds what stands, but for expired values, by recency; kept by every call (`tracks_exec`);
* `Traced h c` : the cache is well linked and tracks the history; kept by every run (`Traced.run`);
* `cache_refines` : what the index, a `Get` and an eviction do after any run.
-/

namespace Cortrix.Catalog
open Lib

variable {κ ν : Type}

inductive CacheOp (κ ν : Type)
  | put (key : κ) (value : ν) (nowMs : Int)
  | get (key : κ) (nowMs : Int)
  | invalidate (key : κ)
  | clear

def CacheOp.clock : CacheOp κ ν → Option Int
  | .put _ _ nowMs => some nowMs
  | .get _ nowMs => some nowMs
  | .invalidate _ => none
  | .clear => none

/-- A call, the result of a `Get`, the keys that a `Put` evicted. -/
structure CacheEvent (κ ν : Type) where
  op : CacheOp κ ν
  result : Option ν := none
  evicted : List κ := []

section
variable [DecidableEq κ]

/-- A `Put` of the key, or a hit. -/
def CacheEvent.uses (e : CacheEvent κ ν) (k : κ) : Bool :=
  match e.op with
  | .put key _ _ => key == k
  | .get key _ => key == k && e.result.isSome
  | _ => false

def CacheEvent.puts (e : CacheEvent κ ν) (k : κ) : Bool :=
  match e.op with
  | .put key _ _ => key == k
  | _ => false

/-- An invalidation or an eviction of the key, or a clear. -/
def CacheEvent.drops (e : CacheEvent κ ν) (k : κ) : Bool :=
  match e.op with
  | .invalidate key => key == k
  | .clear => true
  | _ => e.evicted.contains k

theorem CacheEvent.puts_put {e : CacheEvent κ ν} {key k : κ} {value : ν} {t : Int} (hop : e.op = .put key value t) :
    e.puts k = (key == k) := by
  rw [CacheEvent.puts, hop]

theorem CacheEvent.uses_put {e : CacheEvent κ ν} {key k : κ} {value : ν} {t : Int} (hop : e.op = .put key value t) :
    e.uses k = (key == k) := by
  rw [CacheEvent.uses, hop]

def IndexedCache.exec (c : IndexedCache κ ν) (op : CacheOp κ ν) : Option (CacheEvent κ ν × IndexedCache κ ν) :=
  match op with
  | .put key value nowMs => (c.put key value nowMs).map fun r => ({ op := op, evicted := r.1 }, r.2)
  | .get key nowMs => (c.get key nowMs).map fun r => ({ op := op, result := r.1 }, r.2)
  | .invalidate key => (c.invalidate key).map fun c => ({ op := op }, c)
  | .clear => some ({ op := op }, c.clear)

/-- The events of a sequence of calls, and the cache after it. -/
def IndexedCache.history (c : IndexedCache κ ν) (ops : List (CacheOp κ ν)) :
    Option (List (CacheEvent κ ν) × IndexedCache κ ν) :=
  ops.foldlM (fun s op => (s.2.exec op).map fun r => (s.1 ++ [r.1], r.2)) ([], c)

/-- The call on the cache without its index. -/
def TtlLruCache.exec (c : TtlLruCache κ ν) (op : CacheOp κ ν) : CacheEvent κ ν × TtlLruCache κ ν :=
  match op with
  | .put key value nowMs => ({ op := op, evicted := c.evicted key }, c.put key value nowMs)
  | .get key nowMs => ({ op := op, result := (c.get key nowMs).1 }, (c.get key nowMs).2)
  | .invalidate key => ({ op := op }, c.invalidate key)
  | .clear => ({ op := op }, { c with order := [] })

theorem IndexedCache.Rep.exec_refines {c : IndexedCache κ ν} (h : c.Rep) (op : CacheOp κ ν) : ∃ c',
    c.exec op = some ((c.view.exec op).1, c') ∧ c'.Rep ∧ c'.view = (c.view.exec op).2 := by
  cases op with
  | put key value nowMs =>
    obtain ⟨c', hput, hrep, hview⟩ := h.put_refines key value nowMs
    exact ⟨c', by rw [IndexedCache.exec, hput]; rfl, hrep, hview⟩
  | get key nowMs =>
    obtain ⟨c', hget, hrep, hview⟩ := h.get_refines key nowMs
    exact ⟨c', by rw [IndexedCache.exec, hget]; rfl, hrep, hview⟩
  | invalidate key =>
    obtain ⟨c', hinvalidate, hrep, hview⟩ := h.invalidate_refines key
    exact ⟨c', by rw [IndexedCache.exec, hinvalidate]; rfl, hrep, hview⟩
  | clear => exact ⟨c.clear, rfl, IndexedCache.Rep.clear_refines.1, IndexedCache.Rep.clear_refines.2⟩

/-! ## What stands after a history -/

/-- The last `Put` of the key stored the value, at `t`, and since then the key was not dropped. A cache without
capacity stores nothing. -/
def Stands (capacity : Nat) (h : List (CacheEvent κ ν)) (key : κ) (value : ν) (t : Int) : Prop :=
  capacity ≠ 0 ∧ ∃ pre e post, h = pre ++ e :: post ∧ e.op = .put key value t ∧
    ∀ x ∈ post, x.puts key = false ∧ x.drops key = false

theorem stands_snoc {capacity : Nat} {h : List (CacheEvent κ ν)} {x : CacheEvent κ ν} {key : κ} {value : ν} {t : Int} :
    Stands capacity (h ++ [x]) key value t ↔
      capacity ≠ 0 ∧ x.op = .put key value t ∨
      Stands capacity h key value t ∧ x.puts key = false ∧ x.drops key = false := by
  constructor
  · rintro ⟨hcap, pre, e, post, heq, hop, hpost⟩
    rcases List.eq_nil_or_concat' post with rfl | ⟨post, y, rfl⟩
    · obtain ⟨-, hx⟩ := List.append_inj' heq rfl
      cases hx
      exact .inl ⟨hcap, hop⟩
    · rw [← List.cons_append, ← List.append_assoc] at heq
      obtain ⟨rfl, hx⟩ := List.append_inj' heq rfl
      cases hx
      exact .inr ⟨⟨hcap, pre, e, post, rfl, hop, fun z hz => hpost z (by simp [hz])⟩, hpost x (by simp)⟩
  · rintro (⟨hcap, hop⟩ | ⟨⟨hcap, pre, e, post, rfl, hop, hpost⟩, hx⟩)
    · exact ⟨hcap, h, x, [], rfl, hop, fun z hz => absurd hz List.not_mem_nil⟩
    · refine ⟨hcap, pre, e, post ++ [x], by simp, hop, fun z hz => ?_⟩
      rcases List.mem_append.mp hz with hz | hz
      · exact hpost z hz
      · rwa [List.mem_singleton.mp hz]

/-- The cache holds what stands, but for what a `Get` has found expired, from the last key used to the first. -/
structure Tracks (h : List (CacheEvent κ ν)) (c : TtlLruCache κ ν) : Prop where
  stands : ∀ e ∈ c.order, Stands c.capacity h e.1 e.2.1 e.2.2
  kept : ∀ key value t, Stands c.capacity h key value t →
    (key, value, t) ∈ c.order ∨ ∃ e ∈ h, ∃ nowMs ∈ e.op.clock, c.ttlMs ≤ nowMs - t
  recent : ByRecency CacheEvent.uses h (c.order.map Prod.fst)

namespace Tracks
variable {h : List (CacheEvent κ ν)} {c : TtlLruCache κ ν} {x : CacheEvent κ ν} {order' : List (κ × ν × Int)}

theorem kept_snoc (ht : Tracks h c) {key : κ} {value : ν} {t : Int} (hstands : Stands c.capacity h key value t) :
    (key, value, t) ∈ c.order ∨ ∃ e ∈ h ++ [x], ∃ nowMs ∈ e.op.clock, c.ttlMs ≤ nowMs - t := by
  refine (ht.kept key value t hstands).imp_right ?_
  rintro ⟨e, he, hexpired⟩
  exact ⟨e, List.mem_append_left _ he, hexpired⟩

theorem shrink (ht : Tracks h c) (hsub : order'.Sublist c.order) (hputs : ∀ k, x.puts k = false)
    (huses : ∀ k, x.uses k = false) (hstay : ∀ e ∈ order', x.drops e.1 = false)
    (hgone : ∀ e ∈ c.order, e ∈ order' ∨ x.drops e.1 = true ∨ ∃ nowMs ∈ x.op.clock, c.ttlMs ≤ nowMs - e.2.2) :
    Tracks (h ++ [x]) { c with order := order' } := by
  refine ⟨fun e he => ?_, fun key value t hstands => ?_, ?_⟩
  · exact stands_snoc.mpr (.inr ⟨ht.stands e (hsub.subset he), hputs e.1, hstay e he⟩)
  · rcases stands_snoc.mp hstands with ⟨-, hop⟩ | ⟨hold, -, hdrops⟩
    · exact absurd (hputs key) (by rw [CacheEvent.puts_put hop]; simp)
    · rcases ht.kept_snoc hold with hmem | hexpired
      · rcases hgone _ hmem with hmem | hdropped | hexpired
        · exact .inl hmem
        · rw [hdrops] at hdropped
          exact absurd hdropped Bool.false_ne_true
        · exact .inr ⟨x, by simp, hexpired⟩
      · exact .inr hexpired
  · exact (ht.recent.sublist (hsub.map Prod.fst)).snoc fun k _ => huses k

theorem front (ht : Tracks h c) {node : κ × ν × Int} (hnode : node ∈ c.order) (hkeyed : Keyed Prod.fst c.order)
    (hputs : ∀ k, x.puts k = false) (hdrops : ∀ k, x.drops k = false) (huses : ∀ k, x.uses k = true ↔ k = node.1) :
    Tracks (h ++ [x]) { c with order := touch node c.order } := by
  have hmem : ∀ e, e ∈ touch node c.order ↔ e ∈ c.order := fun e => (perm_deleteWhere hkeyed hnode).symm.mem_iff
  refine ⟨fun e he => ?_, fun key value t hstands => ?_, ?_⟩
  · exact stands_snoc.mpr (.inr ⟨ht.stands e ((hmem e).mp he), hputs e.1, hdrops e.1⟩)
  · rcases stands_snoc.mp hstands with ⟨-, hop⟩ | ⟨hold, -, -⟩
    · exact absurd (hputs key) (by rw [CacheEvent.puts_put hop]; simp)
    · exact (ht.kept_snoc hold).imp_left (hmem _).mpr
  · rw [touch, List.map_cons]
    refine (ht.recent.sublist (List.filter_sublist.map Prod.fst)).use ((huses node.1).mpr rfl) fun k hk => ?_
    obtain ⟨e, he, rfl⟩ := List.mem_map.mp hk
    have hne := (mem_deleteWhere.mp he).2
    rw [← Bool.not_eq_true, huses]
    exact beq_eq_false_iff_ne.mp hne

theorem stored (ht : Tracks h c) {key : κ} {value : ν} {t : Int} (hcap : c.capacity ≠ 0)
    (hop : x.op = .put key value t) (hsub : order'.Sublist c.order)
    (hstay : ∀ e ∈ order', e.1 ≠ key ∧ x.drops e.1 = false)
    (hgone : ∀ e ∈ c.order, e ∈ order' ∨ e.1 = key ∨ x.drops e.1 = true) :
    Tracks (h ++ [x]) { c with order := (key, value, t) :: order' } := by
  have hputs : ∀ k, x.puts k = true ↔ key = k := fun k => by rw [CacheEvent.puts_put hop, beq_iff_eq]
  have huses : ∀ k, x.uses k = true ↔ key = k := fun k => by rw [CacheEvent.uses_put hop, beq_iff_eq]
  refine ⟨fun e he => ?_, fun key' value' t' hstands => ?_, ?_⟩
  · rcases List.mem_cons.mp he with rfl | he
    · exact stands_snoc.mpr (.inl ⟨hcap, hop⟩)
    · obtain ⟨hne, hdrops⟩ := hstay e he
      refine stands_snoc.mpr (.inr ⟨ht.stands e (hsub.subset he), ?_, hdrops⟩)
      rw [← Bool.not_eq_true, hputs]
      exact hne.symm
  · rcases stands_snoc.mp hstands with ⟨-, hop'⟩ | ⟨hold, hput, hdrops⟩
    · rw [hop] at hop'
      cases hop'
      exact .inl List.mem_cons_self
    · have hne : key' ≠ key := by
        rintro rfl
        rw [(hputs key').mpr rfl] at hput
        cases hput
      refine (ht.kept_snoc hold).imp_left fun hmem => List.mem_cons_of_mem _ ?_
      rcases hgone _ hmem with hmem | hkey | hdropped
      · exact hmem
      · exact absurd hkey hne
      · rw [hdrops] at hdropped
        exact absurd hdropped Bool.false_ne_true
  · rw [List.map_cons]
    refine (ht.recent.sublist (hsub.map Prod.fst)).use ((huses key).mpr rfl) fun k hk => ?_
    obtain ⟨e, he, rfl⟩ := List.mem_map.mp hk
    rw [← Bool.not_eq_true, huses]
    exact (hstay e he).1.symm

end Tracks

theorem tracks_exec {h : List (CacheEvent κ ν)} {c : TtlLruCache κ ν} (ht : Tracks h c)
    (hkeyed : Keyed Prod.fst c.order) (hbounded : c.order.length ≤ c.capacity) (op : CacheOp κ ν) :
    Tracks (h ++ [(c.exec op).1]) (c.exec op).2 := by
  cases op with
  | put key value nowMs =>
    by_cases hcap : c.capacity = 0
    · have hnil : c.order = [] := List.eq_nil_of_length_eq_zero (by omega)
      have hsame : c.put key value nowMs = c := if_pos hcap
      rw [TtlLruCache.exec, hsame]
      refine ⟨fun e he => ?_, fun key' value' t hstands => absurd hcap hstands.1, ?_⟩
      · rw [hnil] at he
        exact absurd he List.not_mem_nil
      · have hrecent := ht.recent
        rw [hnil] at hrecent ⊢
        exact hrecent.snoc fun k hk => absurd hk List.not_mem_nil
    · rw [TtlLruCache.exec, TtlLruCache.put, TtlLruCache.evicted, if_neg hcap, if_neg hcap]
      cases hfound : lookup Prod.fst key c.order with
      | some node =>
        refine ht.stored hcap rfl List.filter_sublist (fun e he => ?_) fun e he => ?_
        · exact ⟨beq_eq_false_iff_ne.mp (mem_deleteWhere.mp he).2, rfl⟩
        · by_cases hkey : e.1 = key
          · exact .inr (.inl hkey)
          · exact .inl (mem_deleteWhere.mpr ⟨he, beq_eq_false_iff_ne.mpr hkey⟩)
      | none =>
        have habsent := lookup_eq_none.mp hfound
        obtain ⟨k, hk⟩ := Nat.exists_eq_succ_of_ne_zero hcap
        have hparts : Keyed Prod.fst (c.order.take k ++ c.order.drop k) := by rwa [List.take_append_drop]
        have hevicted : ∀ e ∈ c.order.drop k, (((c.order.drop k).map Prod.fst).reverse).contains e.1 = true := by
          intro e he
          rw [List.contains_iff_mem, List.mem_reverse]
          exact List.mem_map_of_mem he
        have htake : ((key, value, nowMs) :: c.order).take c.capacity = (key, value, nowMs) :: c.order.take k := by
          rw [hk, List.take_succ_cons]
        have hrest : c.capacity - 1 = k := by rw [hk, Nat.succ_sub_one]
        rw [htake, hrest]
        refine ht.stored hcap rfl (List.take_sublist k _) (fun e he => ⟨habsent e (List.mem_of_mem_take he), ?_⟩)
          fun e he => ?_
        · rw [CacheEvent.drops, ← Bool.not_eq_true, List.contains_iff_mem, List.mem_reverse]
          intro hmem
          exact Keyed.not_mem_right hparts he hmem
        · rw [← List.take_append_drop k c.order, List.mem_append] at he
          rcases he with he | he
          · exact .inl he
          · exact .inr (.inr (hevicted e he))
  | get key nowMs =>
    rw [TtlLruCache.exec, TtlLruCache.get]
    cases hfound : lookup Prod.fst key c.order with
    | none =>
      exact ht.shrink (List.Sublist.refl _) (fun _ => rfl) (fun _ => Bool.and_false _) (fun _ _ => rfl)
        fun e he => .inl he
    | some node =>
      obtain ⟨hnode, hkey⟩ := lookup_eq_some hfound
      by_cases hold : c.ttlMs ≤ nowMs - node.2.2
      · dsimp only
        rw [if_pos hold]
        refine ht.shrink List.filter_sublist (fun _ => rfl) (fun _ => Bool.and_false _) (fun _ _ => rfl) fun e he => ?_
        by_cases heq : e.1 = key
        · have hsame : e = node := hkeyed.eq_of_key he hnode (heq.trans hkey.symm)
          exact .inr (.inr ⟨nowMs, rfl, by rwa [hsame]⟩)
        · exact .inl (mem_forget.mpr ⟨he, heq⟩)
      · dsimp only
        rw [if_neg hold]
        refine ht.front hnode hkeyed (fun _ => rfl) (fun _ => rfl) fun k => ?_
        have huses : (key == k && true) = true ↔ k = key := by rw [Bool.and_true, beq_iff_eq, eq_comm]
        rw [hkey]
        exact huses
  | invalidate key =>
    refine ht.shrink List.filter_sublist (fun _ => rfl) (fun _ => rfl) (fun e he => ?_) fun e he => ?_
    · exact beq_eq_false_iff_ne.mpr (mem_forget.mp he).2.symm
    · by_cases heq : e.1 = key
      · exact .inr (.inl (beq_iff_eq.mpr heq.symm))
      · exact .inl (mem_forget.mpr ⟨he, heq⟩)
  | clear =>
    exact ht.shrink (List.nil_sublist _) (fun _ => rfl) (fun _ => rfl) (fun e he => absurd he List.not_mem_nil)
      fun e _ => .inr (.inl rfl)

theorem TtlLruCache.evicted_ne_nil {c : TtlLruCache κ ν} {key : κ} (hbounded : c.order.length ≤ c.capacity) (value : ν)
    (nowMs : Int) (hevicted : c.evicted key ≠ []) : ∃ rest victim, lookup Prod.fst key c.order = none ∧
      c.order.length = c.capacity ∧ c.order = rest ++ [victim] ∧ c.evicted key = [victim.1] ∧
      (c.put key value nowMs).order = (key, value, nowMs) :: rest := by
  rw [evicted] at hevicted
  split at hevicted
  · exact absurd rfl hevicted
  · rename_i hzero
    split at hevicted
    · exact absurd rfl hevicted
    · rename_i hfound
      have hdrop : c.order.drop (c.capacity - 1) ≠ [] := by
        intro hnil
        rw [hnil] at hevicted
        exact hevicted rfl
      have hfull : c.order.length = c.capacity := by
        rw [Ne, List.drop_eq_nil_iff] at hdrop
        omega
      rcases List.eq_nil_or_concat' c.order with hnil | ⟨rest, victim, horder⟩
      · rw [hnil] at hfull
        exact absurd hfull.symm hzero
      · have hrest : rest.length = c.capacity - 1 := by
          rw [← hfull, horder, List.length_append, List.length_singleton, Nat.add_sub_cancel]
        have hsucc : c.capacity = rest.length + 1 := by omega
        refine ⟨rest, victim, hfound, hfull, horder, ?_, ?_⟩
        · rw [evicted, if_neg hzero, hfound, horder, ← hrest, List.drop_left]
          rfl
        · rw [put, if_neg hzero, hfound]
          rw [horder, hsucc, List.take_succ_cons, List.take_left]

/-! ## Every run -/

omit [DecidableEq κ] in
theorem keys_view (c : IndexedCache κ ν) : c.view.order.map Prod.fst = c.order.map IndexedCache.keyOf := by
  rw [IndexedCache.view, List.map_map]
  rfl

structure Traced (h : List (CacheEvent κ ν)) (c : IndexedCache κ ν) : Prop extends c.Rep where
  tracks : Tracks h c.view

namespace Traced
variable {h : List (CacheEvent κ ν)} {c : IndexedCache κ ν}

theorem empty (capacity : Nat) (ttlMs : Int) : Traced [] (⟨capacity, ttlMs, [], [], 0⟩ : IndexedCache κ ν) := by
  refine ⟨IndexedCache.Rep.empty capacity ttlMs, fun e he => absurd he List.not_mem_nil, ?_, ByRecency.nil⟩
  rintro key value t ⟨-, pre, e, post, heq, -⟩
  exact absurd heq.symm (List.append_ne_nil_of_right_ne_nil pre (List.cons_ne_nil e post))

theorem keyed (hr : Traced h c) : Keyed Prod.fst c.view.order := by
  have hkeys := hr.keys
  rw [Keyed] at hkeys ⊢
  rwa [keys_view]

theorem length_le (hr : Traced h c) : c.view.order.length ≤ c.view.capacity := by
  rw [IndexedCache.view, List.length_map]
  exact hr.bounded

theorem exec (hr : Traced h c) (op : CacheOp κ ν) : ∃ e c', c.exec op = some (e, c') ∧ e.op = op ∧
    Traced (h ++ [e]) c' ∧ c'.capacity = c.capacity ∧ c'.ttlMs = c.ttlMs := by
  obtain ⟨c', hexec, hrep, hview⟩ := hr.toRep.exec_refines op
  have hshape : (c.view.exec op).1.op = op ∧ (c.view.exec op).2.capacity = c.capacity ∧
      (c.view.exec op).2.ttlMs = c.ttlMs := by
    cases op with
    | put key value nowMs =>
      rw [TtlLruCache.exec, TtlLruCache.put]
      refine ⟨rfl, ?_⟩
      split
      · exact ⟨rfl, rfl⟩
      · split <;> exact ⟨rfl, rfl⟩
    | get key nowMs =>
      rw [TtlLruCache.exec, TtlLruCache.get]
      refine ⟨rfl, ?_⟩
      split
      · exact ⟨rfl, rfl⟩
      · split <;> exact ⟨rfl, rfl⟩
    | invalidate key => exact ⟨rfl, rfl, rfl⟩
    | clear => exact ⟨rfl, rfl, rfl⟩
  obtain ⟨hop, hcap, httl⟩ := hshape
  refine ⟨_, c', hexec, hop, ⟨hrep, ?_⟩, ?_, ?_⟩
  · rw [hview]
    exact tracks_exec hr.tracks hr.keyed hr.length_le op
  · exact (congrArg TtlLruCache.capacity hview).trans hcap
  · exact (congrArg TtlLruCache.ttlMs hview).trans httl

theorem run (hr : Traced h c) (ops : List (CacheOp κ ν)) : ∃ h' c',
    ops.foldlM (fun s op => (s.2.exec op).map fun r => (s.1 ++ [r.1], r.2)) (h, c) = some (h', c') ∧
    Traced h' c' ∧ h'.map CacheEvent.op = h.map CacheEvent.op ++ ops ∧ c'.capacity = c.capacity ∧
    c'.ttlMs = c.ttlMs := by
  induction ops generalizing h c with
  | nil => exact ⟨h, c, rfl, hr, (List.append_nil _).symm, rfl, rfl⟩
  | cons op ops ih =>
    obtain ⟨e, c₁, hexec, hop, hr₁, hcap₁, httl₁⟩ := hr.exec op
    obtain ⟨h', c', hrun, hr', hops, hcap, httl⟩ := ih hr₁
    refine ⟨h', c', ?_, hr', ?_, hcap.trans hcap₁, httl.trans httl₁⟩
    · rw [List.foldlM_cons]
      simp only [hexec, Option.map_some, Option.bind_eq_bind, Option.bind_some]
      exact hrun
    · rw [hops, List.map_append, List.map_singleton, hop, List.append_assoc, List.singleton_append]

theorem get_iff (hr : Traced h c) {nowMs : Int} (hclock : ∀ e ∈ h, ∀ t ∈ e.op.clock, t ≤ nowMs) (key : κ)
    (value : ν) : (c.view.get key nowMs).1 = some value ↔
      ∃ t, Stands c.capacity h key value t ∧ nowMs - t < c.ttlMs := by
  have httl : c.view.ttlMs = c.ttlMs := rfl
  constructor
  · intro hget
    rw [TtlLruCache.get] at hget
    cases hfound : lookup Prod.fst key c.view.order with
    | none =>
      rw [hfound] at hget
      cases hget
    | some node =>
      obtain ⟨hnode, rfl⟩ := lookup_eq_some hfound
      rw [hfound] at hget
      dsimp only at hget
      split at hget
      · cases hget
      · rename_i hfresh
        cases hget
        exact ⟨node.2.2, hr.tracks.stands node hnode, Int.not_le.mp hfresh⟩
  · rintro ⟨t, hstands, hfresh⟩
    rcases hr.tracks.kept key value t hstands with hmem | ⟨e, he, nowMs', hnow, hexpired⟩
    · have hfound : lookup Prod.fst key c.view.order = some (key, value, t) := hr.keyed.lookup_of_mem hmem
      rw [TtlLruCache.get, hfound]
      dsimp only
      rw [httl, if_neg (Int.not_le.mpr hfresh)]
    · have hle := hclock e he nowMs' hnow
      rw [httl] at hexpired
      omega

theorem evicts (hr : Traced h c) {op : CacheOp κ ν} (hevicted : (c.view.exec op).1.evicted ≠ []) :
    ∃ key value nowMs rest victim, op = .put key value nowMs ∧ key ∉ c.order.map IndexedCache.keyOf ∧
      c.order.length = c.capacity ∧ c.order.map IndexedCache.keyOf = rest ++ [victim] ∧
      (c.view.exec op).1.evicted = [victim] ∧ (c.view.exec op).2.order.map Prod.fst = key :: rest := by
  cases op with
  | get key nowMs | invalidate key | clear => exact absurd rfl hevicted
  | put key value nowMs =>
    have hlength : c.view.order.length = c.order.length := by rw [IndexedCache.view, List.length_map]
    obtain ⟨rest, victim, habsent, hfull, horder, heq, hput⟩ :=
      TtlLruCache.evicted_ne_nil hr.length_le value nowMs hevicted
    refine ⟨key, value, nowMs, rest.map Prod.fst, victim.1, rfl, ?_, hlength.symm.trans hfull, ?_, heq, ?_⟩
    · rw [← keys_view]
      intro hmem
      obtain ⟨e, he, hkey⟩ := List.mem_map.mp hmem
      exact lookup_eq_none.mp habsent e he hkey
    · rw [← keys_view, horder, List.map_append, List.map_singleton]
    · rw [TtlLruCache.exec, hput, List.map_cons]

end Traced

/-- After any calls, the keys of the index are those of the nodes, each once and within the capacity. A `Get` returns
the value that stands for its key when it was stored less than the lifetime ago. A call that evicts is the `Put` of a
new key into a full cache; the one key that goes is the one whose last use is oldest. -/
theorem cache_refines (capacity : Nat) (ttlMs : Int) (ops : List (CacheOp κ ν)) :
    ∃ h c, IndexedCache.history ⟨capacity, ttlMs, [], [], 0⟩ ops = some (h, c) ∧ h.map CacheEvent.op = ops ∧
      ((c.index.map Prod.fst).Nodup ∧ (c.index.map Prod.fst).Perm (c.order.map IndexedCache.keyOf) ∧
        c.index.length ≤ capacity) ∧
      (∀ key nowMs, (∀ op ∈ ops, ∀ t ∈ op.clock, t ≤ nowMs) → ∃ result c', c.get key nowMs = some (result, c') ∧
        ∀ value, result = some value ↔ ∃ t, Stands capacity h key value t ∧ nowMs - t < ttlMs) ∧
      ∀ op, ∃ e c', c.exec op = some (e, c') ∧ (e.evicted ≠ [] →
        ∃ key value nowMs rest victim, op = .put key value nowMs ∧ key ∉ c.order.map IndexedCache.keyOf ∧
          c.order.length = capacity ∧ c.order.map IndexedCache.keyOf = rest ++ [victim] ∧
          e.evicted = [victim] ∧ c'.order.map IndexedCache.keyOf = key :: rest ∧
          (∃ x ∈ h, x.uses victim = true) ∧ ∀ k ∈ rest, UsedSince CacheEvent.uses h victim k) := by
  obtain ⟨h, c, hrun, hr, hops, hcap, httl⟩ :=
    (Traced.empty capacity ttlMs : Traced [] (⟨capacity, ttlMs, [], [], 0⟩ : IndexedCache κ ν)).run ops
  dsimp only at hcap httl
  rw [List.map_nil, List.nil_append] at hops
  refine ⟨h, c, hrun, hops, ⟨hr.index_keyed, ?_, ?_⟩, fun key nowMs hclock => ?_, fun op => ?_⟩
  · have hkeys := hr.entries.map Prod.fst
    rwa [List.map_map] at hkeys
  · rw [hr.length_index, ← hcap]
    exact hr.bounded
  · obtain ⟨c', hget, -, -⟩ := hr.toRep.get_refines key nowMs
    refine ⟨_, c', hget, fun value => ?_⟩
    rw [← hcap, ← httl]
    refine hr.get_iff (fun e he t ht => ?_) key value
    rw [← hops] at hclock
    exact hclock e.op (List.mem_map_of_mem he) t ht
  · obtain ⟨c', hexec, -, hview⟩ := hr.toRep.exec_refines op
    refine ⟨_, c', hexec, fun hevicted => ?_⟩
    obtain ⟨key, value, nowMs, rest, victim, hop, hnew, hfull, hkeys, heq, hput⟩ := hr.evicts hevicted
    have hrecent := hr.tracks.recent
    rw [keys_view, hkeys] at hrecent
    refine ⟨key, value, nowMs, rest, victim, hop, hnew, hfull.trans hcap, hkeys, heq, ?_, ?_, hrecent.oldest⟩
    · rw [← keys_view, hview]
      exact hput
    · exact hrecent.used victim (by simp)

end

end Cortrix.Catalog
