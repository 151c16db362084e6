import Cortrix.Query.ChunkRetrieval

/-!
# Hidden documents on the retrieval routes

* `Gathered.restrict` : what is gathered, for some chunks only; `gather_restrict` : gathering restricts;
* `Invisible` : what the routes promise; `invisible_iff_wellKeyed` : when they keep it.
-/

namespace Cortrix.Query
open Lib Metadata PostFilter Store.Documents

namespace ChunkRetrieval

variable {env : Env} {st : ChunkStore} {ctx : QueryContext} {g g' : Gathered} {c : String}

def hiddenChild (st : ChunkStore) (childId : String) : Bool :=
  st.rows.blocks.any fun b => b.childId == childId && (st.rows.docGet b.docId).any st.rows.hidden

def visible (st : ChunkStore) (childId : String) : Bool := !hiddenChild st childId

/-- The hits without those of hidden documents; a question or a contextual point is of the document of its chunk. -/
def Hits.visible (st : ChunkStore) (hits : Hits) : Hits where
  vector := hits.vector.filter fun h => (vectorVote st h).all fun v => ChunkRetrieval.visible st v.child
  bm25 := hits.bm25.filter fun h => (ftsVote st h).all fun v => ChunkRetrieval.visible st v.child
  sparse := hits.sparse.filter fun h => ChunkRetrieval.visible st h.childId

/-- The chunks of hidden documents are stored under the hash of their id. -/
def WellKeyed (env : Env) (st : ChunkStore) : Prop :=
  ∀ b ∈ st.rows.blocks, b.childId ≠ "" → (st.rows.docGet b.docId).any st.rows.hidden = true →
    b.blockId = env.hashChildIdToBlockId b.childId

def Shown (st : ChunkStore) (docId : String) : Prop := ∀ d, st.rows.docGet docId = some d → st.rows.hidden d = false

structure Invisible (env : Env) (st : ChunkStore) : Prop where
  chunk : ∀ limits ctx oversample hits, ∀ rc ∈ executeChunkRetrieval env st limits ctx oversample hits,
    ∀ b ∈ st.rows.blocks, b.childId = rc.childId → Shown st b.docId
  /-- As if the hits of hidden documents had not been there. -/
  trace : ∀ limits ctx oversample hits, executeChunkRetrieval env st limits ctx oversample hits =
    executeChunkRetrieval env st limits ctx oversample (hits.visible st)
  document : ∀ fts topK raw bm25 out, DocDiscovery.RunDocDiscoveryCore st.rows fts true topK raw bm25 out →
    ∀ hit ∈ out, Shown st hit.docId
  /-- Both functions of the post-filter show nothing of a deleted document. -/
  item : ∀ f topK blocks docId, ∀ i ∈ apply st.rows f topK blocks ++ fetchByDocId st.rows f topK docId,
    ∀ d, st.rows.docGet i.docId = some d → d.status ≠ .deleted

/-! ## The cache -/

variable {p : String → Bool} {m : List (String × ChunkRow)} {v : Vote}

theorem lookup_filter_fst {β : Type} (hp : p c = true) (m : List (String × β)) :
    lookup Prod.fst c (m.filter fun e => p e.1) = lookup Prod.fst c m := by
  unfold lookup
  rw [List.find?_filter]
  congr 1
  funext e
  by_cases he : e.1 = c
  · simp [he, hp]
  · simp [he]

theorem lookup_emplace (c' : String) (row : ChunkRow) (m : List (String × ChunkRow)) :
    lookup Prod.fst c' (emplace c row m) =
      if c' = c then some ((lookup Prod.fst c m).getD (c, row)) else lookup Prod.fst c' m := by
  unfold emplace
  by_cases hin : (lookup Prod.fst c m).isSome = true
  · rw [if_pos hin]
    obtain ⟨e, he⟩ := Option.isSome_iff_exists.mp hin
    split
    · rename_i heq
      rw [heq, he, Option.getD_some]
    · rfl
  · rw [if_neg hin]
    rw [Option.not_isSome_iff_eq_none] at hin
    by_cases heq : c' = c
    · subst heq
      rw [if_pos rfl, hin, Option.getD_none]
      unfold lookup at hin ⊢
      rw [List.find?_append, hin, Option.none_or]
      exact List.find?_cons_of_pos (by simp)
    · rw [if_neg heq]
      unfold lookup
      rw [List.find?_append, List.find?_cons_of_neg (by simpa using Ne.symm heq), List.find?_nil, Option.or_none]

theorem filter_push {α : Type} (q : α → Bool) (l : List α) (a : α) :
    (l ++ [a]).filter q = if q a then l.filter q ++ [a] else l.filter q := by
  rw [List.filter_append]
  split
  · rename_i hq
    rw [List.filter_cons_of_pos hq, List.filter_nil]
  · rename_i hq
    rw [List.filter_cons_of_neg hq, List.filter_nil, List.append_nil]

theorem filter_emplace (row : ChunkRow) (m : List (String × ChunkRow)) :
    (emplace c row m).filter (fun e => p e.1) =
      if p c then emplace c row (m.filter fun e => p e.1) else m.filter fun e => p e.1 := by
  by_cases hp : p c = true
  · rw [if_pos hp]
    unfold emplace
    rw [lookup_filter_fst hp]
    split
    · rfl
    · rw [filter_push, if_pos hp]
  · rw [if_neg hp]
    unfold emplace
    split
    · rfl
    · rw [filter_push, if_neg hp]

/-! ## Restricted to some chunks -/

def Gathered.restrict (p : String → Bool) (g : Gathered) : Gathered where
  byChild := g.byChild.filter fun e => p e.1
  hypeSeen := g.hypeSeen.filter p
  dense := g.dense.filter fun h => p h.childId
  contextualized := g.contextualized.filter fun h => p h.childId
  sparse := g.sparse.filter fun h => p h.childId
  fts5 := g.fts5.filter fun h => p h.childId
  hype := g.hype.filter fun h => p h.childId

theorem resolveChildRow_restrict (hp : p c = true) (m : List (String × ChunkRow)) :
    resolveChildRow env st c (m.filter fun e => p e.1) =
      (resolveChildRow env st c m).map fun m => m.filter fun e => p e.1 := by
  unfold resolveChildRow
  rw [lookup_filter_fst hp]
  split
  · rfl
  · rw [Option.map_map]
    congr 1
    funext row
    rw [Function.comp_apply, filter_emplace, if_pos hp]

theorem resolveChildRow_other (hp : ¬ p c = true) {m' : List (String × ChunkRow)}
    (h : resolveChildRow env st c m = some m') : m'.filter (fun e => p e.1) = m.filter fun e => p e.1 := by
  unfold resolveChildRow at h
  split at h
  · rw [Option.some.inj h]
  · obtain ⟨row, -, rfl⟩ := Option.map_eq_some_iff.mp h
    rw [filter_emplace, if_neg hp]

/-- A vote does the same to what is gathered of some chunks, when its chunk is one of them. -/
theorem cast_restrict (hv : p v.child = true) (g : Gathered) :
    (cast env st ctx g v).restrict p = cast env st ctx (g.restrict p) v := by
  cases v with
  | dense c x row | fts5 c x row =>
    have hp : p c = true := hv
    simp only [cast, Gathered.restrict, filter_emplace, filter_push, if_pos hp]
  | hype c x =>
    have hp : p c = true := hv
    have hin : (g.hypeSeen.filter p).contains c = g.hypeSeen.contains c := by
      rw [Bool.eq_iff_iff, List.contains_iff_mem, List.contains_iff_mem, List.mem_filter]
      exact and_iff_left hp
    simp only [cast]
    rw [show (g.restrict p).hypeSeen = g.hypeSeen.filter p from rfl, hin,
      show (g.restrict p).byChild = g.byChild.filter fun e => p e.1 from rfl, resolveChildRow_restrict hp]
    split
    · rfl
    · cases resolveChildRow env st c g.byChild <;>
        simp only [Gathered.restrict, Option.map_some, Option.map_none, filter_push, if_pos hp]
  | contextual c x =>
    have hp : p c = true := hv
    simp only [cast]
    rw [show (g.restrict p).byChild = g.byChild.filter fun e => p e.1 from rfl, resolveChildRow_restrict hp]
    split
    · rfl
    · cases resolveChildRow env st c g.byChild <;>
        simp only [Gathered.restrict, Option.map_some, Option.map_none, filter_push, if_pos hp]
  | sparse c x =>
    have hp : p c = true := hv
    simp only [cast]
    rw [show (g.restrict p).byChild = g.byChild.filter fun e => p e.1 from rfl, resolveChildRow_restrict hp]
    cases resolveChildRow env st c g.byChild <;>
      simp only [Gathered.restrict, Option.map_some, Option.map_none, filter_push, if_pos hp]

theorem cast_other (hv : ¬ p v.child = true) (g : Gathered) : (cast env st ctx g v).restrict p = g.restrict p := by
  cases v with
  | dense c x row | fts5 c x row =>
    have hp : ¬ p c = true := hv
    simp only [cast, Gathered.restrict, filter_emplace, filter_push, if_neg hp]
  | hype c x =>
    have hp : ¬ p c = true := hv
    simp only [cast]
    split
    · rfl
    · split
      · rename_i m hm
        simp only [Gathered.restrict, filter_push, if_neg hp, resolveChildRow_other hp hm]
      · simp only [Gathered.restrict, filter_push, if_neg hp]
  | contextual c x =>
    have hp : ¬ p c = true := hv
    simp only [cast]
    split
    · rfl
    · split
      · rename_i m hm
        simp only [Gathered.restrict, filter_push, if_neg hp, resolveChildRow_other hp hm]
      · rfl
  | sparse c x =>
    have hp : ¬ p c = true := hv
    simp only [cast]
    split
    · rename_i m hm
      simp only [Gathered.restrict, filter_push, if_neg hp, resolveChildRow_other hp hm]
    · rfl

theorem foldl_cast_restrict (p : String → Bool) (vs : List Vote) (g : Gathered) :
    (vs.foldl (cast env st ctx) g).restrict p =
      (vs.filter fun v => p v.child).foldl (cast env st ctx) (g.restrict p) := by
  induction vs generalizing g with
  | nil => rfl
  | cons v vs ih =>
    rw [List.foldl_cons, ih, List.filter_cons]
    split
    · rename_i hv
      rw [cast_restrict hv, List.foldl_cons]
    · rename_i hv
      rw [cast_other hv]

theorem filterMap_visible {α : Type} (f : α → Option Vote) (p : String → Bool) (l : List α) :
    (l.filter fun a => (f a).all fun v => p v.child).filterMap f = (l.filterMap f).filter fun v => p v.child := by
  induction l with
  | nil => rfl
  | cons a l ih =>
    rw [List.filter_cons]
    cases hf : f a with
    | none => rw [Option.all_none, if_pos rfl, List.filterMap_cons_none hf, List.filterMap_cons_none hf, ih]
    | some v =>
      rw [Option.all_some, List.filterMap_cons_some hf, List.filter_cons]
      split
      · rw [List.filterMap_cons_some hf, ih]
      · exact ih

theorem votes_visible (hits : Hits) :
    votes st (hits.visible st) = (votes st hits).filter fun v => visible st v.child := by
  unfold votes Hits.visible
  rw [List.filter_append, List.filter_append, filterMap_visible, filterMap_visible]
  congr 1
  induction hits.sparse with
  | nil => rfl
  | cons h l ih =>
    rw [List.filter_cons, List.map_cons, List.filter_cons, show (sparseVote h).child = h.childId from rfl]
    split
    · rw [List.map_cons, ih]
    · exact ih

theorem gather_restrict (hits : Hits) :
    gather env st ctx (hits.visible st) = (gather env st ctx hits).restrict (visible st) := by
  unfold gather
  rw [foldl_cast_restrict, votes_visible]
  rfl

/-! ## Where the cached chunks come from -/

/-- A cached chunk is that of its block, or has lost its document because the block is not under the hash. -/
def FromBlock (env : Env) (st : ChunkStore) (childId : String) (row : ChunkRow) : Prop :=
  ∃ b ∈ st.rows.blocks, b.childId = childId ∧ childId ≠ "" ∧
    (row.docId = b.docId ∨ row.docId = "" ∧ b.blockId ≠ env.hashChildIdToBlockId childId)

/-- The cached chunks come from their blocks, and every chunk in a list is cached. -/
structure Sourced (env : Env) (st : ChunkStore) (g : Gathered) : Prop where
  cached : ∀ c e, lookup Prod.fst c g.byChild = some e → FromBlock env st c e.2
  listed : ∀ l ∈ g.lists, ∀ h ∈ l, (lookup Prod.fst h.childId g.byChild).isSome = true

theorem fromBlock_rowOf {b : CortrixBlock} (hb : b ∈ st.rows.blocks) (hc : b.childId ≠ "") :
    FromBlock env st b.childId (rowOf b) := ⟨b, hb, rfl, hc, .inl rfl⟩

theorem fromBlock_resolve {row : ChunkRow} (h : resolveSourceChildBlock env st c = some row) :
    FromBlock env st c row := by
  unfold resolveSourceChildBlock at h
  split at h
  · cases h
  · rename_i hc
    split at h
    · rename_i b hb
      cases h
      obtain ⟨hb, hchild⟩ := Option.filter_eq_some_iff.mp hb
      obtain rfl : b.childId = c := by simpa using hchild
      exact fromBlock_rowOf (lookup_eq_some hb).1 hc
    · rename_i hnone
      obtain ⟨b, hb, rfl⟩ := Option.map_eq_some_iff.mp h
      obtain ⟨hmem, rfl⟩ := lookup_eq_some hb
      refine ⟨b, hmem, rfl, hc, .inr ⟨rfl, fun hkey => ?_⟩⟩
      have hget : st.rows.blockGet b.blockId = some b := st.blocksKeyed.lookup_of_mem hmem
      rw [← hkey, hget] at hnone
      simp [Option.filter] at hnone

theorem Sourced.grow (h : Sourced env st g)
    (hcached : ∀ c e, lookup Prod.fst c m = some e → lookup Prod.fst c g.byChild = some e ∨ FromBlock env st c e.2)
    (hkeep : ∀ c, (lookup Prod.fst c g.byChild).isSome = true → (lookup Prod.fst c m).isSome = true)
    (hbyChild : g'.byChild = m)
    (hlists : ∀ l ∈ g'.lists, ∀ x ∈ l, (∃ l₀ ∈ g.lists, x ∈ l₀) ∨ (lookup Prod.fst x.childId m).isSome = true) :
    Sourced env st g' where
  cached c e he := by
    rw [hbyChild] at he
    rcases hcached c e he with he | hfrom
    · exact h.cached c e he
    · exact hfrom
  listed l hl x hx := by
    rw [hbyChild]
    rcases hlists l hl x hx with ⟨l₀, hl₀, hx₀⟩ | hsome
    · exact hkeep x.childId (h.listed l₀ hl₀ x hx₀)
    · exact hsome

theorem emplace_spec {row : ChunkRow} (hfrom : FromBlock env st c row) (m : List (String × ChunkRow)) :
    (∀ c' e, lookup Prod.fst c' (emplace c row m) = some e → lookup Prod.fst c' m = some e ∨ FromBlock env st c' e.2) ∧
      (∀ c', (lookup Prod.fst c' m).isSome = true → (lookup Prod.fst c' (emplace c row m)).isSome = true) ∧
        (lookup Prod.fst c (emplace c row m)).isSome = true := by
  refine ⟨fun c' e he => ?_, fun c' hc' => ?_, ?_⟩
  · rw [lookup_emplace] at he
    split at he
    · rename_i heq
      subst heq
      cases hl : lookup Prod.fst c' m with
      | none =>
        rw [hl, Option.getD_none] at he
        cases he
        exact .inr hfrom
      | some e' =>
        rw [hl, Option.getD_some] at he
        exact .inl he
    · exact .inl he
  · rw [lookup_emplace]
    split
    · rfl
    · exact hc'
  · rw [lookup_emplace, if_pos rfl]
    rfl

theorem resolveChildRow_spec {m' : List (String × ChunkRow)} (h : resolveChildRow env st c m = some m') :
    (∀ c' e, lookup Prod.fst c' m' = some e → lookup Prod.fst c' m = some e ∨ FromBlock env st c' e.2) ∧
      (∀ c', (lookup Prod.fst c' m).isSome = true → (lookup Prod.fst c' m').isSome = true) ∧
        (lookup Prod.fst c m').isSome = true := by
  unfold resolveChildRow at h
  split at h
  · rename_i hin
    cases h
    exact ⟨fun _ _ => .inl, fun _ => id, hin⟩
  · obtain ⟨row, hrow, rfl⟩ := Option.map_eq_some_iff.mp h
    exact emplace_spec (fromBlock_resolve hrow) m

/-- The vote carries the row of its block. -/
def Vote.Sound (env : Env) (st : ChunkStore) : Vote → Prop
  | .dense c _ row => FromBlock env st c row
  | .fts5 c _ row => FromBlock env st c row
  | _ => True

theorem sound_of_mem_votes {hits : Hits} (h : v ∈ votes st hits) : v.Sound env st := by
  rcases List.mem_append.mp h with h | h
  · rcases List.mem_append.mp h with h | h
    · obtain ⟨hit, -, hv⟩ := List.mem_filterMap.mp h
      unfold vectorVote at hv
      split at hv
      · rename_i b hb
        split at hv
        · rename_i child hclass
          cases hv
          unfold classifyVectorHit at hclass
          split at hclass
          · split at hclass
            · split at hclass <;> cases hclass
            · cases hclass
          · split at hclass
            · cases hclass
            · rename_i hc
              cases hclass
              exact fromBlock_rowOf (lookup_eq_some hb).1 hc
        · cases hv
          trivial
        · cases hv
      · obtain ⟨l, -, rfl⟩ := Option.map_eq_some_iff.mp hv
        trivial
    · obtain ⟨hit, -, hv⟩ := List.mem_filterMap.mp h
      obtain ⟨b, hb, hv⟩ := Option.bind_eq_some_iff.mp hv
      split at hv
      · cases hv
      · rename_i hc
        cases hv
        exact fromBlock_rowOf (lookup_eq_some hb).1 hc
  · obtain ⟨hit, -, rfl⟩ := List.mem_map.mp h
    trivial

theorem Sourced.push (h : Sourced env st g) (x : SparseHit)
    (hm : (∀ c e, lookup Prod.fst c m = some e → lookup Prod.fst c g.byChild = some e ∨ FromBlock env st c e.2) ∧
      (∀ c, (lookup Prod.fst c g.byChild).isSome = true → (lookup Prod.fst c m).isSome = true) ∧
        (lookup Prod.fst x.childId m).isSome = true) (hbyChild : g'.byChild = m)
    (hlists : ∀ l ∈ g'.lists, l ∈ g.lists ∨ ∃ l₀ ∈ g.lists, l = l₀ ++ [x]) : Sourced env st g' := by
  refine h.grow hm.1 hm.2.1 hbyChild fun l hl y hy => ?_
  rcases hlists l hl with hl | ⟨l₀, hl₀, rfl⟩
  · exact .inl ⟨l, hl, hy⟩
  · rcases List.mem_append.mp hy with hy | hy
    · exact .inl ⟨l₀, hl₀, hy⟩
    · rw [List.mem_singleton.mp hy]
      exact .inr hm.2.2

theorem Sourced.cast (h : Sourced env st g) (hv : v.Sound env st) :
    Sourced env st (ChunkRetrieval.cast env st ctx g v) := by
  cases v with
  | dense c x row | fts5 c x row =>
    exact h.push ⟨c, x⟩ (emplace_spec hv g.byChild) rfl (by simp [Gathered.lists, ChunkRetrieval.cast])
  | hype c x =>
    simp only [ChunkRetrieval.cast]
    split
    · exact h
    · split
      · rename_i m hm
        exact h.push ⟨c, x⟩ (resolveChildRow_spec hm) rfl (by simp [Gathered.lists])
      · exact ⟨h.cached, h.listed⟩
  | contextual c x =>
    simp only [ChunkRetrieval.cast]
    split
    · exact h
    · split
      · rename_i m hm
        exact h.push ⟨c, x⟩ (resolveChildRow_spec hm) rfl (by simp [Gathered.lists])
      · exact h
  | sparse c x =>
    simp only [ChunkRetrieval.cast]
    split
    · rename_i m hm
      exact h.push ⟨c, x⟩ (resolveChildRow_spec hm) rfl (by simp [Gathered.lists])
    · exact h

theorem sourced_gather (hits : Hits) : Sourced env st (gather env st ctx hits) := by
  have hfold : ∀ (vs : List Vote) (g : Gathered), (∀ v ∈ vs, v.Sound env st) → Sourced env st g →
      Sourced env st (vs.foldl (ChunkRetrieval.cast env st ctx) g) := by
    intro vs
    induction vs with
    | nil => exact fun g _ h => h
    | cons v vs ih =>
      intro g hvs h
      exact ih _ (fun x hx => hvs x (List.mem_cons_of_mem _ hx)) (h.cast (hvs v List.mem_cons_self))
  refine hfold _ _ (fun v hv => sound_of_mem_votes hv) ⟨fun c e he => (by cases he), fun l hl x hx => ?_⟩
  simp only [Gathered.lists, List.mem_cons, List.not_mem_nil, or_false] at hl
  rcases hl with rfl | rfl | rfl | rfl | rfl <;> cases hx

/-! ## The filter -/

theorem hiddenChild_iff : hiddenChild st c = true ↔
    ∃ b ∈ st.rows.blocks, b.childId = c ∧ ∃ d, st.rows.docGet b.docId = some d ∧ st.rows.hidden d = true := by
  simp [hiddenChild, List.any_eq_true, Option.any_eq_true]

/-- The filter drops the hits of the chunks of hidden documents. -/
theorem gone_iff (hk : WellKeyed env st) (h : Sourced env st g) {l : List SparseHit} (hl : l ∈ g.lists) {x : SparseHit}
    (hx : x ∈ l) :
    ((g.docOf x.childId).any fun d => (g.gone st).contains d) = hiddenChild st x.childId := by
  obtain ⟨e, he⟩ := Option.isSome_iff_exists.mp (h.listed l hl x hx)
  obtain ⟨b, hb, hchild, hc, hdoc⟩ := h.cached x.childId e he
  have hdocOf : g.docOf x.childId = some e.2.docId := by
    unfold Gathered.docOf
    rw [he, Option.map_some]
  rw [hdocOf, Option.any_some, Bool.eq_iff_iff, List.contains_iff_mem, Gathered.gone, DocDiscovery.mem_loadHiddenDocIds,
    hiddenChild_iff]
  constructor
  · rintro ⟨-, hne, d, hd, hhid⟩
    rcases hdoc with hdoc | ⟨hlost, -⟩
    · exact ⟨b, hb, hchild, d, hdoc ▸ hd, hhid⟩
    · exact absurd hlost hne
  · rintro ⟨b', hb', hchild', d, hd, hhid⟩
    obtain rfl : b' = b := st.childUnique b' hb' b hb (hchild'.trans hchild.symm) (hchild' ▸ hc)
    have hkey := hk b' hb' (hchild' ▸ hc) ((Option.any_eq_true _ _).mpr ⟨d, hd, hhid⟩)
    rw [hchild'] at hkey
    have hdoc : e.2.docId = b'.docId := hdoc.resolve_right fun hlost => hlost.2 hkey
    have hne : e.2.docId ≠ "" := by
      obtain ⟨hmem, hid⟩ := lookup_eq_some hd
      rw [hdoc, ← hid]
      exact st.docsNamed d hmem
    refine ⟨List.mem_filter.mpr ⟨List.mem_filterMap.mpr ⟨x, List.mem_flatten.mpr ⟨l, hl, hx⟩, hdocOf⟩, by simpa using hne⟩,
      hne, d, hdoc ▸ hd, hhid⟩

theorem lists_dropHidden (hk : WellKeyed env st) (h : Sourced env st g) :
    dropHidden st g = { g.restrict (visible st) with byChild := g.byChild, hypeSeen := g.hypeSeen } := by
  have hfilter : ∀ l ∈ g.lists, l.filter (fun x => !((g.docOf x.childId).any fun d => (g.gone st).contains d)) =
      l.filter fun x => visible st x.childId := by
    intro l hl
    apply List.filter_congr
    intro x hx
    rw [gone_iff hk h hl hx]
    rfl
  unfold dropHidden Gathered.restrict
  dsimp only
  rw [hfilter g.dense (by simp [Gathered.lists]), hfilter g.fts5 (by simp [Gathered.lists]),
    hfilter g.sparse (by simp [Gathered.lists]), hfilter g.contextualized (by simp [Gathered.lists]),
    hfilter g.hype (by simp [Gathered.lists])]

/-! ## The results -/

theorem mem_fuse {topN : Int} {hit : RrfFusedHit} (h : hit ∈ fuseFivePathRrf g topN) :
    hit.childId ∈ g.paths.flatMap (·.2) := by
  unfold fuseFivePathRrf at h
  have hmem : hit ∈ ((g.paths.flatMap (·.2)).dedup).map (fuseChunk g.paths) := by
    split at h
    · exact List.mem_mergeSort.mp (List.mem_of_mem_take h)
    · exact List.mem_mergeSort.mp h
  obtain ⟨c, hc, rfl⟩ := List.mem_map.mp hmem
  exact List.mem_dedup.mp hc

theorem paths_restrict {seen : List String}
    (hc : c ∈ ({ g.restrict p with byChild := m, hypeSeen := seen } : Gathered).paths.flatMap (·.2)) : p c = true := by
  simp only [Gathered.paths, Gathered.restrict, List.flatMap_cons, List.flatMap_nil, List.append_nil, List.mem_append,
    List.mem_map, List.mem_filter] at hc
  rcases hc with ⟨x, ⟨-, hx⟩, rfl⟩ | ⟨x, ⟨-, hx⟩, rfl⟩ | ⟨x, ⟨-, hx⟩, rfl⟩ | ⟨x, ⟨-, hx⟩, rfl⟩ | ⟨x, ⟨-, hx⟩, rfl⟩ <;>
    exact hx

theorem mem_finish {n : Int} {rc : RankedChunk} (h : rc ∈ finish env st ctx n g) :
    rc.childId ∈ g.paths.flatMap (·.2) := by
  unfold finish at h
  obtain ⟨hit, hhit, hrc⟩ := List.mem_filterMap.mp (List.mem_mergeSort.mp (List.mem_of_mem_take h))
  obtain ⟨e, -, rfl⟩ := Option.map_eq_some_iff.mp hrc
  exact mem_fuse hhit

theorem finish_congr {n : Int} (hpaths : g.paths = g'.paths)
    (hcache : ∀ c ∈ g.paths.flatMap (·.2), lookup Prod.fst c g.byChild = lookup Prod.fst c g'.byChild) :
    finish env st ctx n g = finish env st ctx n g' := by
  have hfuse : fuseFivePathRrf g n = fuseFivePathRrf g' n := by
    unfold fuseFivePathRrf
    rw [hpaths]
  have hranked : (fuseFivePathRrf g n).filterMap (assembleChunk env st ctx g.byChild) =
      (fuseFivePathRrf g' n).filterMap (assembleChunk env st ctx g'.byChild) := by
    rw [← hfuse]
    apply List.filterMap_congr
    intro hit hhit
    unfold assembleChunk
    rw [hcache hit.childId (mem_fuse hhit)]
  unfold finish
  rw [hranked]

theorem restrict_restrict (p : String → Bool) (g : Gathered) : (g.restrict p).restrict p = g.restrict p := by
  simp only [Gathered.restrict, List.filter_filter, Bool.and_self]

/-! ## What the routes promise -/

theorem paths_dropHidden (hk : WellKeyed env st) (h : Sourced env st g) :
    (dropHidden st g).paths = (g.restrict (visible st)).paths := by
  rw [lists_dropHidden hk h]
  rfl

theorem visible_of_mem (hk : WellKeyed env st) (h : Sourced env st g) (hc : c ∈ (dropHidden st g).paths.flatMap (·.2)) :
    visible st c = true := by
  rw [lists_dropHidden hk h] at hc
  exact paths_restrict hc

theorem chunk_visible (hk : WellKeyed env st) {limits : Limits} {oversample : Rat} {hits : Hits} {rc : RankedChunk}
    (h : rc ∈ executeChunkRetrieval env st limits ctx oversample hits) : visible st rc.childId = true :=
  visible_of_mem hk (sourced_gather hits) (mem_finish h)

theorem chunks_without_hidden (hk : WellKeyed env st) (limits : Limits) (ctx : QueryContext) (oversample : Rat)
    (hits : Hits) : executeChunkRetrieval env st limits ctx oversample hits =
      executeChunkRetrieval env st limits ctx oversample (hits.visible st) := by
  have hsrc : Sourced env st (gather env st ctx hits) := sourced_gather hits
  have hsrc' : Sourced env st (gather env st ctx (hits.visible st)) := sourced_gather (hits.visible st)
  have hpaths : (dropHidden st (gather env st ctx hits)).paths =
      (dropHidden st (gather env st ctx (hits.visible st))).paths := by
    rw [paths_dropHidden hk hsrc, paths_dropHidden hk hsrc', gather_restrict, restrict_restrict]
  refine finish_congr hpaths fun c hc => ?_
  have hvis := visible_of_mem hk hsrc hc
  show lookup Prod.fst c (gather env st ctx hits).byChild = lookup Prod.fst c (gather env st ctx (hits.visible st)).byChild
  rw [gather_restrict]
  exact (lookup_filter_fst hvis _).symm

theorem shown_of_hit {fts : List DocDiscovery.DocFtsRow} {topK : Int} {raw : Option (List (UInt64 × Rat))}
    {bm25 : Option (DocDiscovery.DocFtsRow → Option Rat)} {out : List DocDiscovery.DocDiscoveryHit}
    {hit : DocDiscovery.DocDiscoveryHit} (h : DocDiscovery.RunDocDiscoveryCore st.rows fts true topK raw bm25 out)
    (hmem : hit ∈ out) : Shown st hit.docId := by
  intro d hd
  obtain ⟨hdoc, hid⟩ := lookup_eq_some hd
  exact DocDiscovery.hit_not_hidden h hmem hd (hid ▸ st.docsNamed d hdoc)

theorem item_not_deleted {f : QueryFilter} {topK : Int} {blocks : List ScoredBlock} {docId : String} {i : PostFilter.ResultItem}
    {d : CortrixDoc} (h : i ∈ apply st.rows f topK blocks ++ fetchByDocId st.rows f topK docId)
    (hd : st.rows.docGet i.docId = some d) : d.status ≠ .deleted := by
  rcases List.mem_append.mp h with h | h
  · obtain ⟨sb, -, hitem⟩ := mem_applyFrom h
    obtain ⟨b, d', -, hd', hlive, -, -, hid, -⟩ := resultItem_eq_some hitem
    rw [hid, hd'] at hd
    rwa [← Option.some.inj hd]
  · unfold fetchByDocId at h
    dsimp only at h
    split at h
    · cases h
    · rename_i hlive
      obtain ⟨b, hb, rfl⟩ := List.mem_map.mp h
      have hdoc : b.docId = docId := by
        simpa using (List.mem_filter.mp (List.mem_of_mem_filter (List.mem_of_mem_take hb))).2
      rw [show ((⟨b.blockId, b.docId, 1, _, _, _, _⟩ : PostFilter.ResultItem).docId) = docId from hdoc] at hd
      rw [hd, Option.any_some] at hlive
      simpa using hlive

/-- A chunk whose block is not under the hash of its id is found by the sparse path, its document unknown. -/
theorem legacy_returned {b : CortrixBlock} (hb : b ∈ st.rows.blocks) (hc : b.childId ≠ "")
    (hkey : b.blockId ≠ env.hashChildIdToBlockId b.childId) :
    ∃ rc ∈ executeChunkRetrieval env st {} {} 1 { sparse := [⟨b.childId, 1⟩] }, rc.childId = b.childId := by
  have hnone : (st.rows.blockGet (env.hashChildIdToBlockId b.childId)).filter (fun x => x.childId == b.childId) = none := by
    rw [Option.filter_eq_none_iff]
    intro x hx hchild
    obtain ⟨hxmem, hxid⟩ := lookup_eq_some hx
    have hsame : x.childId = b.childId := by simpa using hchild
    rw [st.childUnique x hxmem b hb hsame (hsame ▸ hc)] at hxid
    exact hkey hxid
  obtain ⟨x, hx⟩ : ∃ x, lookup CortrixBlock.childId b.childId st.rows.blocks = some x := by
    cases hl : lookup CortrixBlock.childId b.childId st.rows.blocks with
    | none => exact absurd rfl (lookup_eq_none.mp hl b hb)
    | some x => exact ⟨x, rfl⟩
  have hrow : resolveSourceChildBlock env st b.childId = some ⟨x.contentText, none, "", x.parentId⟩ := by
    unfold resolveSourceChildBlock
    rw [if_neg hc, hnone, hx]
    rfl
  have hgather : gather env st {} { sparse := [⟨b.childId, 1⟩] } =
      { byChild := [(b.childId, ⟨x.contentText, none, "", x.parentId⟩)], sparse := [⟨b.childId, 1⟩] } := by
    have hcast : gather env st {} { sparse := [⟨b.childId, 1⟩] } = cast env st {} {} (.sparse b.childId 1) := rfl
    rw [hcast]
    simp only [cast, resolveChildRow, lookup, List.find?_nil, Option.isSome_none, Bool.false_eq_true, if_false, hrow,
      Option.map_some, emplace, List.nil_append]
  have hdrop : dropHidden st (gather env st {} { sparse := [⟨b.childId, 1⟩] }) =
      gather env st {} { sparse := [⟨b.childId, 1⟩] } := by
    rw [hgather]
    simp [dropHidden, Gathered.docOf, Gathered.gone, lookup, DocDiscovery.mem_loadHiddenDocIds]
  unfold executeChunkRetrieval
  rw [hdrop, hgather]
  simp [finish, fuseFivePathRrf, Gathered.paths, candidateK, fuseChunk, assembleChunk, lookup]

/-- The routes keep their promise exactly when every chunk of a hidden document is stored under its hash. -/
theorem invisible_iff_wellKeyed (env : Env) (st : ChunkStore) : Invisible env st ↔ WellKeyed env st := by
  constructor
  · intro h b hb hc hhid
    by_contra hkey
    obtain ⟨rc, hrc, hchild⟩ := legacy_returned hb hc hkey
    obtain ⟨d, hd, hhid⟩ := (Option.any_eq_true _ _).mp hhid
    rw [h.chunk {} {} 1 _ rc hrc b hb hchild.symm d hd] at hhid
    cases hhid
  · intro hk
    refine ⟨fun limits ctx oversample hits rc hrc b hb hchild d hd => ?_, chunks_without_hidden hk,
      fun fts topK raw bm25 out h hit hmem => shown_of_hit h hmem, fun f topK blocks docId i hi d hd => item_not_deleted hi hd⟩
    have hvis := chunk_visible hk hrc
    rw [visible, Bool.not_eq_true'] at hvis
    rw [← Bool.not_eq_true]
    intro hhid
    rw [hiddenChild_iff.mpr ⟨b, hb, hchild, d, hd, hhid⟩] at hvis
    cases hvis

def deletedDoc : CortrixDoc where
  docId := "d"
  sourceType := "http_upload"
  sourcePath := "a.txt"
  status := .deleted
  errorMessage := ""
  createdAt := ""
  deletedAt := some 1
  deletedFromStatus := none

def legacyBlock : CortrixBlock where
  blockId := 5
  docId := "d"
  blockType := 1
  contentText := "text"
  childId := "c"

def legacyStore : ChunkStore where
  rows := ⟨[deletedDoc], [legacyBlock]⟩
  blocksKeyed := by decide
  docsNamed := by decide
  childUnique := by
    intro b hb b' hb' _ _
    rw [List.mem_singleton.mp hb, List.mem_singleton.mp hb']

def legacyEnv : Env := ⟨fun _ => 7, fun _ => "", fun _ => false⟩

theorem legacyStore_chunk_returned : legacyStore.rows.hidden deletedDoc = true ∧
    ∃ rc ∈ executeChunkRetrieval legacyEnv legacyStore {} {} 1 { sparse := [⟨"c", 1⟩] }, rc.childId = "c" := by
  have hreturned := @legacy_returned legacyEnv legacyStore legacyBlock (List.mem_singleton_self _) (by decide) (by decide)
  exact ⟨by decide, hreturned⟩

end ChunkRetrieval

end Cortrix.Query
