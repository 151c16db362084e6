import Cortrix.Chunker.ParentChildChunker
import Cortrix.Lib.Packing
import Mathlib.Data.List.Nodup

/-!
# Parents and units

The outer loop of `buildParentChild` packs the units greedily; a parent is what one run of units is joined to.

* `Partition` : the parents are the units, in order; `parents_partition` : a document cut into parents is partitioned.
-/

namespace Cortrix.Chunker
open Lib Cortrix.Spc.RecursiveChunker

variable {M : Type}

/-! ## Units -/

def Before (u v : TextUnit) : Prop := u.byteOffset + u.text.length ≤ v.byteOffset

/-- Units emitted while the running offset goes from `lo` to `hi`. -/
structure Emitted (lo hi : Nat) (units : List TextUnit) : Prop where
  le : lo ≤ hi
  texts : ∀ u ∈ units, u.text ≠ []
  within : ∀ u ∈ units, lo ≤ u.byteOffset ∧ u.byteOffset + u.text.length ≤ hi
  before : units.Pairwise Before

theorem Emitted.append {lo mid hi : Nat} {us vs : List TextUnit} (hu : Emitted lo mid us) (hv : Emitted mid hi vs) :
    Emitted lo hi (us ++ vs) where
  le := hu.le.trans hv.le
  texts u h := (List.mem_append.mp h).elim (hu.texts u) (hv.texts u)
  within u h := by
    rcases List.mem_append.mp h with h | h
    · exact ⟨(hu.within u h).1, (hu.within u h).2.trans hv.le⟩
    · exact ⟨hu.le.trans (hv.within u h).1, (hv.within u h).2⟩
  before := List.pairwise_append.mpr ⟨hu.before, hv.before,
    fun u h v h' => (hu.within u h).2.trans (hv.within v h').1⟩

theorem foldl_emit (counter : Bytes → UInt32) (pageNum : UInt32) (st : Collecting) (raws : List Bytes) :
    ∃ new, (raws.foldl (emit counter pageNum) st).units = st.units ++ new ∧ (∀ u ∈ new, u.pageNum = pageNum) ∧
      Emitted st.runningOffset (raws.foldl (emit counter pageNum) st).runningOffset new := by
  induction raws generalizing st with
  | nil => exact ⟨[], (List.append_nil _).symm, by simp, ⟨le_refl _, by simp, by simp, List.Pairwise.nil⟩⟩
  | cons raw raws ih =>
    rw [List.foldl_cons]
    obtain ⟨new, hunits, hpages, hnew⟩ := ih (emit counter pageNum st raw)
    by_cases hempty : (trim raw).isEmpty = true
    · have hsame : emit counter pageNum st raw = st := by simp only [emit, if_pos hempty]
      rw [hsame] at hunits hnew ⊢
      exact ⟨new, hunits, hpages, hnew⟩
    · have htext : trim raw ≠ [] := fun hnil => hempty (by rw [hnil]; rfl)
      obtain ⟨u, hstep, htext', hpage, hoffset⟩ : ∃ u, emit counter pageNum st raw =
          { units := st.units ++ [u], runningOffset := st.runningOffset + u.text.length, pageHadContent := true } ∧
            u.text ≠ [] ∧ u.pageNum = pageNum ∧ u.byteOffset = st.runningOffset :=
        ⟨_, by simp only [emit, if_neg hempty]; rfl, htext, rfl, rfl⟩
      rw [hstep] at hunits hnew ⊢
      refine ⟨u :: new, ?_, List.forall_mem_cons.mpr ⟨hpage, hpages⟩, Emitted.append (?_ : Emitted _ _ [u]) hnew⟩
      · rw [hunits, List.append_assoc, List.singleton_append]
      · exact ⟨Nat.le_add_right _ _, by simpa using htext', by simp [hoffset], List.pairwise_singleton _ _⟩

theorem pageNumber_mono {p q : ParsedPage} (h : p.pageNum ≤ q.pageNum) : pageNumber p ≤ pageNumber q := by
  unfold pageNumber
  by_cases hp : 0 ≤ p.pageNum
  · rw [if_pos hp, if_pos (Int32.le_trans hp h)]
    exact Int32.toUInt32_le hp h
  · rw [if_neg hp]
    exact UInt32.zero_le

theorem foldl_collectPage (config : ChunkerConfig) (counter : Bytes → UInt32) (st : Collecting × ChunkerStats)
    (pages : List ParsedPage) : ∃ new, (pages.foldl (collectPage config counter) st).1.units = st.1.units ++ new ∧
      (∀ u ∈ new, ∃ p ∈ pages, u.pageNum = pageNumber p) ∧
      (pages.Pairwise (fun p q => p.pageNum ≤ q.pageNum) → new.Pairwise fun u v => u.pageNum ≤ v.pageNum) ∧
      Emitted st.1.runningOffset (pages.foldl (collectPage config counter) st).1.runningOffset new := by
  induction pages generalizing st with
  | nil => exact ⟨[], (List.append_nil _).symm, by simp, by simp, ⟨le_refl _, by simp, by simp, List.Pairwise.nil⟩⟩
  | cons page pages ih =>
    rw [List.foldl_cons]
    obtain ⟨front, hfront, hpage, hemit⟩ := foldl_emit counter (pageNumber page) { st.1 with pageHadContent := false }
      (rawUnits config page)
    obtain ⟨back, hback, hpages, hsorted, hrest⟩ := ih (collectPage config counter st page)
    have hunits : (collectPage config counter st page).1.units = st.1.units ++ front := by rw [← hfront]; rfl
    refine ⟨front ++ back, ?_, fun u hu => ?_, fun h => ?_, hemit.append hrest⟩
    · rw [hback, hunits, List.append_assoc]
    · rcases List.mem_append.mp hu with hu | hu
      · exact ⟨page, by simp, hpage u hu⟩
      · obtain ⟨p, hp, heq⟩ := hpages u hu
        exact ⟨p, by simp [hp], heq⟩
    · rw [List.pairwise_cons] at h
      refine List.pairwise_append.mpr ⟨?_, hsorted h.2, fun u hu v hv => ?_⟩
      · exact List.pairwise_of_forall_mem_list fun u hu v hv =>
          UInt32.le_of_eq ((hpage u hu).trans (hpage v hv).symm)
      · obtain ⟨p, hp, heq⟩ := hpages v hv
        rw [hpage u hu, heq]
        exact pageNumber_mono (h.1 p hp)

theorem collectUnits_emitted (config : ChunkerConfig) (counter : Bytes → UInt32) (input : ChunkerInput M) :
    (∃ hi, Emitted 0 hi (collectUnits config counter input).1) ∧
      (input.pages.Pairwise (fun p q => p.pageNum ≤ q.pageNum) →
        (collectUnits config counter input).1.Pairwise fun u v => u.pageNum ≤ v.pageNum) := by
  obtain ⟨new, hunits, -, hsorted, hemit⟩ := foldl_collectPage config counter ({}, {}) input.pages
  have hnew : (collectUnits config counter input).1 = new := hunits
  rw [hnew]
  exact ⟨⟨_, hemit⟩, hsorted⟩

/-! ## Runs -/

/-- How the inner loop packs units: in wrapped tokens. -/
def packer (parentSize : Int32) : Packer UInt32 TextUnit where
  first u := u.tokenCount
  add tokens u := tokens + u.tokenCount
  fits tokens u := tokens + u.tokenCount ≤ parentSize.toUInt32

def openParent : List TextUnit → OpenParent
  | [] => { pageStart := 0, pageEnd := 0, byteStart := 0, byteEnd := 0 }
  | u :: units => (u :: units).foldl OpenParent.append (OpenParent.start u)

theorem appendUnit_ne_nil (text : Bytes) {u : TextUnit} (hu : u.text ≠ []) : appendUnit text u ≠ [] :=
  fun h => hu (List.append_eq_nil_iff.mp h).2

theorem fill_runs (parentSize : Int32) {p : OpenParent} (hp : p.parentText ≠ []) {units : List TextUnit}
    (htexts : ∀ u ∈ units, u.text ≠ []) : ∃ ys rest, units = ys ++ rest ∧
      fill parentSize p units = (ys.foldl OpenParent.append p, rest) ∧ (packer parentSize).Filled p.parentTokens ys ∧
      ∀ z zs, rest = z :: zs → ¬ (packer parentSize).fits (ys.foldl (packer parentSize).add p.parentTokens) z := by
  induction units generalizing p with
  | nil => exact ⟨[], [], rfl, rfl, trivial, fun z zs h => absurd h.symm (List.cons_ne_nil z zs)⟩
  | cons u units ih =>
    have hempty : p.parentText.isEmpty = false := by simpa using hp
    by_cases hfull : parentSize.toUInt32 < p.parentTokens + u.tokenCount
    · refine ⟨[], u :: units, rfl, ?_, trivial, fun z zs h => ?_⟩
      · rw [fill, if_pos ⟨hempty, hfull⟩]
        rfl
      · obtain ⟨rfl, -⟩ := List.cons.inj h
        exact UInt32.not_le.mpr hfull
    · obtain ⟨ys, rest, rfl, hfill, hfilled, hmax⟩ := ih (p := p.append u)
        (appendUnit_ne_nil p.parentText (htexts u (by simp))) fun v hv => htexts v (by simp [hv])
      refine ⟨u :: ys, rest, rfl, ?_, ⟨UInt32.not_lt.mp hfull, hfilled⟩, hmax⟩
      rw [fill, if_neg fun h => hfull h.2, hfill]
      rfl

section
variable (config : ChunkerConfig) (counter : Bytes → UInt32) (ids : Nat → String) (nowMs : Int) (input : ChunkerInput M)

theorem buildLoop_runs (b : Building M) {units : List TextUnit} (htexts : ∀ u ∈ units, u.text ≠ []) :
    ∃ runs, (packer config.parentSize).Greedy runs ∧ runs.flatten = units ∧
      buildLoop config counter ids nowMs input b units =
        runs.foldl (fun b run => flush config counter ids nowMs input (openParent run) b) b := by
  induction hlen : units.length using Nat.strong_induction_on generalizing units b with
  | _ n ih =>
    cases units with
    | nil => exact ⟨[], trivial, rfl, by rw [buildLoop]; rfl⟩
    | cons u units =>
      rw [List.forall_mem_cons] at htexts
      have hopen : ((OpenParent.start u).append u).parentText ≠ [] := appendUnit_ne_nil _ htexts.1
      obtain ⟨ys, rest, rfl, hfill, hfilled, hmax⟩ := fill_runs config.parentSize hopen htexts.2
      have htokens : ((OpenParent.start u).append u).parentTokens = u.tokenCount := UInt32.zero_add _
      rw [htokens] at hfilled hmax
      have hshort : rest.length < n := by
        rw [← hlen, List.length_cons, List.length_append]
        omega
      have hrest : ∀ v ∈ rest, v.text ≠ [] := fun v hv => htexts.2 v (List.mem_append_right ys hv)
      obtain ⟨runs, hgreedy, hflatten, hbuild⟩ := ih rest.length hshort
        (flush config counter ids nowMs input (openParent (u :: ys)) b) hrest rfl
      refine ⟨(u :: ys) :: runs, ⟨hfilled, fun z zs hz => ?_, hgreedy⟩, ?_, ?_⟩
      · cases runs with
        | nil => simp at hz
        | cons run runs =>
          obtain rfl : run = z :: zs := by simpa using hz
          exact hmax z (zs ++ runs.flatten) hflatten.symm
      · rw [List.flatten_cons, hflatten, List.cons_append]
      · rw [buildLoop, fill_start, hfill, List.foldl_cons, ← hbuild]
        rfl

/-! ## What a flush writes -/

structure Links (p : ParentChunk M) (block : List (ChildChunk M)) : Prop where
  ids : p.childIds = block.map fun c => c.childId
  parents : ∀ c ∈ block, c.parentId = p.parentId
  texts : block.map (fun c => c.childText) = (splitIntoChildren config counter p.parentText).map fun s => s.text

/-- The text of a parent and its ranges of pages and bytes. -/
def ParentChunk.span (p : ParentChunk M) : Bytes × (UInt32 × UInt32) × (Nat × Nat) :=
  (p.parentText, (p.pageStart, p.pageEnd), (p.byteOffsetStart, p.byteOffsetEnd))

def OpenParent.span (p : OpenParent) : Bytes × (UInt32 × UInt32) × (Nat × Nat) :=
  (p.parentText, (p.pageStart, p.pageEnd), (p.byteStart, p.byteEnd))

def idsOf (parents : List (ParentChunk M)) (blocks : List (List (ChildChunk M))) : List String :=
  (List.zipWith (fun (p : ParentChunk M) block => p.parentId :: block.map fun c => c.childId) parents blocks).flatten

structure Built (runs : List (List TextUnit)) (blocks : List (List (ChildChunk M))) (b : Building M) : Prop where
  spans : b.parents.map ParentChunk.span = runs.map fun run => (openParent run).span
  children : b.children = blocks.flatten
  links : List.Forall₂ (Links config counter) b.parents blocks
  index : b.children.map (fun c => c.chunkIndex) = (List.range' 0 b.children.length).map UInt32.ofNat
  next : b.chunkIndex = UInt32.ofNat b.children.length
  drawn : idsOf b.parents blocks = (List.range' 0 b.drawn).map ids

theorem Built.pairwise {runs : List (List TextUnit)} {blocks : List (List (ChildChunk M))} {b : Building M}
    (h : Built config counter ids runs blocks b) {R : _ → _ → Prop}
    (hR : runs.Pairwise fun r s => R (openParent r).span (openParent s).span) :
    b.parents.Pairwise fun p q => R p.span q.span := by
  rw [← List.pairwise_map, h.spans, List.pairwise_map]
  exact hR

theorem Built.forall {runs : List (List TextUnit)} {blocks : List (List (ChildChunk M))} {b : Building M}
    (h : Built config counter ids runs blocks b) {P : _ → Prop} (hP : ∀ run ∈ runs, P (openParent run).span) :
    ∀ p ∈ b.parents, P p.span := by
  intro p hp
  have hmem : p.span ∈ runs.map fun run => (openParent run).span := by
    rw [← h.spans]
    exact List.mem_map_of_mem hp
  obtain ⟨run, hrun, heq⟩ := List.mem_map.mp hmem
  rw [← heq]
  exact hP run hrun

variable (parentId : String) (metadata : M) (drawn : Nat) (chunkIndex : UInt32) (spans : List ChildSpan)

theorem childrenOf_length :
    (childrenOf input ids nowMs parentId metadata drawn chunkIndex spans).length = spans.length := by
  induction spans generalizing drawn chunkIndex with
  | nil => rfl
  | cons span spans ih => rw [childrenOf, List.length_cons, List.length_cons, ih]

theorem childrenOf_ids :
    (childrenOf input ids nowMs parentId metadata drawn chunkIndex spans).map (fun c => c.childId) =
      (List.range' drawn spans.length).map ids := by
  induction spans generalizing drawn chunkIndex with
  | nil => rfl
  | cons span spans ih => rw [childrenOf, List.map_cons, ih, List.length_cons, List.range'_succ, List.map_cons]

theorem childrenOf_index (index : Nat) (spans : List ChildSpan) :
    (childrenOf input ids nowMs parentId metadata drawn (UInt32.ofNat index) spans).map (fun c => c.chunkIndex) =
      (List.range' index spans.length).map UInt32.ofNat := by
  induction spans generalizing drawn index with
  | nil => rfl
  | cons span spans ih =>
    rw [childrenOf, List.map_cons, show UInt32.ofNat index + 1 = UInt32.ofNat (index + 1) from (UInt32.ofNat_add _ _).symm,
      ih, List.length_cons, List.range'_succ, List.map_cons]

theorem childrenOf_parent : ∀ c ∈ childrenOf input ids nowMs parentId metadata drawn chunkIndex spans,
      c.parentId = parentId := by
  induction spans generalizing drawn chunkIndex with
  | nil => simp [childrenOf]
  | cons span spans ih =>
    rw [childrenOf]
    exact List.forall_mem_cons.mpr ⟨rfl, ih _ _⟩

theorem childrenOf_texts :
    (childrenOf input ids nowMs parentId metadata drawn chunkIndex spans).map (fun c => c.childText) =
      spans.map fun s => s.text := by
  induction spans generalizing drawn chunkIndex with
  | nil => rfl
  | cons span spans ih => rw [childrenOf, List.map_cons, List.map_cons, ih]

theorem Built.flush {runs : List (List TextUnit)} {blocks : List (List (ChildChunk M))} {b : Building M}
    (h : Built config counter ids runs blocks b) {run : List TextUnit} (hrun : (openParent run).parentText ≠ []) :
    ∃ block, Built config counter ids (runs ++ [run]) (blocks ++ [block])
      (flush config counter ids nowMs input (openParent run) b) := by
  have hempty : ¬ (openParent run).parentText.isEmpty = true := by simpa using hrun
  refine ⟨childrenOf input ids nowMs (ids b.drawn) input.metadata (b.drawn + 1) b.chunkIndex
    (splitIntoChildren config counter (openParent run).parentText), ?_⟩
  simp only [Chunker.flush, if_neg hempty]
  constructor
  · rw [List.map_append, List.map_append, h.spans]
    rfl
  · rw [h.children, List.flatten_append, List.flatten_singleton]
  · refine List.rel_append h.links (List.Forall₂.cons ⟨rfl, ?_, ?_⟩ List.Forall₂.nil)
    · exact childrenOf_parent ids nowMs input _ _ _ _ _
    · exact childrenOf_texts ids nowMs input _ _ _ _ _
  · rw [List.map_append, h.index, h.next, childrenOf_index, ← List.map_append, List.length_append, childrenOf_length]
    congr 1
    simpa using List.range'_append_1 (s := 0)
  · rw [h.next, List.length_append, childrenOf_length, UInt32.ofNat_add]
  · have hlen := h.links.length_eq
    rw [idsOf, List.zipWith_append hlen, List.flatten_append]
    refine (congrArg (· ++ _) h.drawn).trans ?_
    simp only [List.zipWith_cons_cons, List.zipWith_nil_left, List.flatten_singleton, childrenOf_ids]
    rw [← List.map_cons, ← List.range'_succ, ← List.map_append]
    congr 1
    rw [Nat.add_assoc, Nat.add_comm 1]
    simpa using List.range'_append_1 (s := 0) (m := b.drawn)

end

/-! ## Runs of units -/

theorem foldl_append_text {p : OpenParent} (hp : p.parentText ≠ []) (ys : List TextUnit) :
    (ys.foldl OpenParent.append p).parentText = p.parentText ++ ys.flatMap fun v => 0x0A :: v.text := by
  induction ys generalizing p with
  | nil => rw [List.foldl_nil, List.flatMap_nil, List.append_nil]
  | cons y ys ih =>
    have hy : (p.append y).parentText = p.parentText ++ 0x0A :: y.text := by
      have hempty : p.parentText.isEmpty = false := by simpa using hp
      simp [OpenParent.append, appendUnit, hempty]
    rw [List.foldl_cons, ih (by simp [hy]), hy, List.flatMap_cons, List.append_assoc]

theorem intercalate_eq_flatMap (t : Bytes) (ys : List TextUnit) :
    [0x0A].intercalate (t :: ys.map fun v => v.text) = t ++ ys.flatMap fun v => 0x0A :: v.text := by
  induction ys generalizing t with
  | nil => rw [List.map_nil, List.intercalate_singleton, List.flatMap_nil, List.append_nil]
  | cons y ys ih =>
    rw [List.map_cons, List.intercalate_cons_cons, ih, List.flatMap_cons, List.append_assoc]
    rfl

theorem foldl_append_start (p : OpenParent) (ys : List TextUnit) :
    (ys.foldl OpenParent.append p).pageStart = p.pageStart ∧ (ys.foldl OpenParent.append p).byteStart = p.byteStart := by
  induction ys generalizing p with
  | nil => exact ⟨rfl, rfl⟩
  | cons y ys ih => exact ih (p.append y)

theorem foldl_append_end {p : OpenParent} {u : TextUnit} (ys : List TextUnit) (hpage : p.pageEnd = u.pageNum)
    (hbyte : p.byteEnd = u.byteOffset + u.text.length) : ∃ v ∈ u :: ys,
      (ys.foldl OpenParent.append p).pageEnd = v.pageNum ∧
      (ys.foldl OpenParent.append p).byteEnd = v.byteOffset + v.text.length := by
  induction ys generalizing p u with
  | nil => exact ⟨u, by simp, hpage, hbyte⟩
  | cons y ys ih =>
    obtain ⟨v, hv, hends⟩ := ih (p := p.append y) (u := y) rfl rfl
    exact ⟨v, List.mem_cons_of_mem u hv, hends⟩

theorem openParent_run {u : TextUnit} {ys : List TextUnit} (htexts : ∀ v ∈ u :: ys, v.text ≠ []) :
    (openParent (u :: ys)).parentText = [0x0A].intercalate ((u :: ys).map fun v => v.text) ∧
      (openParent (u :: ys)).pageStart = u.pageNum ∧ (openParent (u :: ys)).byteStart = u.byteOffset ∧
      ∃ v ∈ u :: ys, (openParent (u :: ys)).pageEnd = v.pageNum ∧
        (openParent (u :: ys)).byteEnd = v.byteOffset + v.text.length := by
  have hfirst : ((OpenParent.start u).append u).parentText = u.text := rfl
  have hu := htexts u (by simp)
  obtain ⟨hpage, hbyte⟩ := foldl_append_start ((OpenParent.start u).append u) ys
  obtain ⟨v, hv, hends⟩ := foldl_append_end (p := (OpenParent.start u).append u) (u := u) ys rfl rfl
  refine ⟨?_, hpage, hbyte, v, hv, hends⟩
  rw [List.map_cons, intercalate_eq_flatMap]
  exact foldl_append_text (by rw [hfirst]; exact hu) ys

theorem openParent_span {run : List TextUnit} (hne : run ≠ []) (htexts : ∀ v ∈ run, v.text ≠ []) :
    ∃ u v, u ∈ run ∧ v ∈ run ∧ (∀ R : TextUnit → TextUnit → Prop, run.Pairwise R → u = v ∨ R u v) ∧
      (openParent run).span = ([0x0A].intercalate (run.map fun u => u.text), (u.pageNum, v.pageNum),
        (u.byteOffset, v.byteOffset + v.text.length)) := by
  obtain ⟨u, ys, rfl⟩ := List.exists_cons_of_ne_nil hne
  obtain ⟨htext, hpage, hbyte, v, hv, hpageEnd, hbyteEnd⟩ := openParent_run htexts
  refine ⟨u, v, by simp, hv, fun R hR => ?_, ?_⟩
  · rcases List.mem_cons.mp hv with rfl | hv
    · exact Or.inl rfl
    · exact Or.inr ((List.pairwise_cons.mp hR).1 v hv)
  · rw [OpenParent.span, htext, hpage, hbyte, hpageEnd, hbyteEnd]

/-! ## Tokens -/

def tokens (units : List TextUnit) : Nat := (units.map fun u => u.tokenCount.toNat).sum

theorem tokens_cons (u : TextUnit) (units : List TextUnit) : tokens (u :: units) = u.tokenCount.toNat + tokens units := by
  rw [tokens, List.map_cons, List.sum_cons, tokens]

theorem tokens_append (us vs : List TextUnit) : tokens (us ++ vs) = tokens us + tokens vs := by
  rw [tokens, List.map_append, List.sum_append, tokens, tokens]

/-- The same packing without wrapping. -/
def natPacker (size : Nat) : Packer Nat TextUnit where
  first u := u.tokenCount.toNat
  add n u := n + u.tokenCount.toNat
  fits n u := n + u.tokenCount.toNat ≤ size

theorem packer_fits (parentSize : Int32) {s : UInt32} {u : TextUnit} (h : s.toNat + u.tokenCount.toNat < 2 ^ 32) :
    ((packer parentSize).fits s u ↔ (natPacker parentSize.toUInt32.toNat).fits s.toNat u) ∧
      ((packer parentSize).add s u).toNat = s.toNat + u.tokenCount.toNat := by
  have hadd : (s + u.tokenCount).toNat = s.toNat + u.tokenCount.toNat := by rw [UInt32.toNat_add, Nat.mod_eq_of_lt h]
  refine ⟨?_, hadd⟩
  show s + u.tokenCount ≤ parentSize.toUInt32 ↔ _
  rw [UInt32.le_iff_toNat_le, hadd]
  rfl

theorem packer_filled (parentSize : Int32) {s : UInt32} {ys : List TextUnit} (h : s.toNat + tokens ys < 2 ^ 32) :
    ((packer parentSize).Filled s ys ↔ (natPacker parentSize.toUInt32.toNat).Filled s.toNat ys) ∧
      (ys.foldl (packer parentSize).add s).toNat = s.toNat + tokens ys := by
  induction ys generalizing s with
  | nil => exact ⟨Iff.rfl, rfl⟩
  | cons y ys ih =>
    rw [tokens_cons] at h
    obtain ⟨hfits, hadd⟩ := packer_fits parentSize (s := s) (u := y) (by omega)
    obtain ⟨hfilled, hload⟩ := ih (s := (packer parentSize).add s y) (by omega)
    rw [hadd] at hfilled
    refine ⟨and_congr hfits hfilled, ?_⟩
    rw [List.foldl_cons, hload, hadd, tokens_cons]
    omega

theorem natPacker_filled {size n : Nat} {ys : List TextUnit} :
    (natPacker size).Filled n ys ↔ ys = [] ∨ n + tokens ys ≤ size := by
  induction ys generalizing n with
  | nil => exact ⟨fun _ => Or.inl rfl, fun _ => trivial⟩
  | cons y ys ih =>
    have hstep : (natPacker size).Filled n (y :: ys) ↔ n + y.tokenCount.toNat ≤ size ∧
        (natPacker size).Filled (n + y.tokenCount.toNat) ys := Iff.rfl
    rw [hstep, ih, tokens_cons]
    constructor
    · rintro ⟨hy, rfl | hys⟩
      · exact Or.inr (by simpa [tokens] using hy)
      · exact Or.inr (by omega)
    · rintro (h | h)
      · exact absurd h (List.cons_ne_nil y ys)
      · exact ⟨by omega, Or.inr (by omega)⟩

/-! ## The partition -/

section
variable (config : ChunkerConfig) (counter : Bytes → UInt32) (ids : Nat → String) (nowMs : Int) (input : ChunkerInput M)

/-- The parents and children are the units cut into `runs`, and the children of each parent are one of `blocks`. -/
structure Partition (runs : List (List TextUnit)) (blocks : List (List (ChildChunk M))) (parents : List (ParentChunk M))
    (children : List (ChildChunk M)) : Prop where
  flatten : runs.flatten = (collectUnits config counter input).1
  nonempty : ∀ run ∈ runs, run ≠ []
  texts : parents.map (fun p => p.parentText) = runs.map fun run => [0x0A].intercalate (run.map fun u => u.text)
  sizes : ∀ run ∈ runs, run.length = 1 ∨ (tokens run : Int) ≤ config.parentSize.toInt
  links : List.Forall₂ (Links config counter) parents blocks
  joined : children = blocks.flatten
  index : children.map (fun c => c.chunkIndex) = (List.range children.length).map UInt32.ofNat
  ids : Function.Injective ids → (idsOf parents blocks).Nodup
  bytes : parents.Pairwise (fun p q => p.byteOffsetEnd ≤ q.byteOffsetStart) ∧
    ∀ p ∈ parents, p.byteOffsetStart < p.byteOffsetEnd
  pages : input.pages.Pairwise (fun p q => p.pageNum ≤ q.pageNum) →
    parents.Pairwise (fun p q => p.pageEnd ≤ q.pageStart) ∧ ∀ p ∈ parents, p.pageStart ≤ p.pageEnd

theorem buildLoop_built {runs : List (List TextUnit)} (hruns : ∀ run ∈ runs, run ≠ [] ∧ ∀ u ∈ run, u.text ≠ []) :
    ∃ blocks, Built config counter ids runs blocks
      (runs.foldl (fun b run => flush config counter ids nowMs input (openParent run) b) ({} : Building M)) := by
  induction runs using List.reverseRecOn with
  | nil => exact ⟨[], rfl, rfl, List.Forall₂.nil, rfl, rfl, rfl⟩
  | append_singleton runs run ih =>
    obtain ⟨blocks, hbuilt⟩ := ih fun r hr => hruns r (List.mem_append_left _ hr)
    obtain ⟨hne, htexts⟩ := hruns run (by simp)
    rw [List.foldl_append]
    have htext : (openParent run).parentText ≠ [] := by
      obtain ⟨u, ys, rfl⟩ := List.exists_cons_of_ne_nil hne
      rw [(openParent_run htexts).1, List.map_cons, intercalate_eq_flatMap]
      exact fun hnil => htexts u (by simp) (List.append_eq_nil_iff.mp hnil).1
    obtain ⟨block, hblock⟩ := hbuilt.flush config counter ids nowMs input htext
    exact ⟨blocks ++ [block], hblock⟩

theorem run_size {parentSize : Int32} (hsize : 0 ≤ parentSize) {runs : List (List TextUnit)}
    (h : (packer parentSize).Feasible runs) (htokens : tokens runs.flatten < 2 ^ 32) :
    ∀ run ∈ runs, run.length = 1 ∨ (tokens run : Int) ≤ parentSize.toInt := by
  induction runs with
  | nil => simp
  | cons run runs ih =>
    rw [List.flatten_cons, tokens_append] at htokens
    cases run with
    | nil => exact h.elim
    | cons u ys =>
      refine List.forall_mem_cons.mpr ⟨?_, ih h.2 (by omega)⟩
      rw [tokens_cons] at htokens ⊢
      have hbound : u.tokenCount.toNat + tokens ys < 2 ^ 32 := by omega
      have hnat := (packer_filled parentSize hbound).1.mp h.1
      rcases natPacker_filled.mp hnat with rfl | hle
      · exact Or.inl rfl
      · rw [Int32.toNat_toUInt32_of_le hsize, ← Int32.toNat_toInt] at hle
        have hpos : 0 ≤ parentSize.toInt := Int32.le_iff_toInt_le.mp hsize
        exact Or.inr (by omega)

theorem buildLoop_greedy {units : List TextUnit} (htexts : ∀ u ∈ units, u.text ≠ []) :
    ∃ runs blocks, (packer config.parentSize).Greedy runs ∧ runs.flatten = units ∧
      Built config counter ids runs blocks (buildLoop config counter ids nowMs input ({} : Building M) units) := by
  obtain ⟨runs, hgreedy, hflatten, hbuild⟩ := buildLoop_runs config counter ids nowMs input {} htexts
  have hne := Packer.Feasible.ne_nil _ (Packer.Greedy.feasible _ hgreedy)
  have hruns : ∀ run ∈ runs, run ≠ [] ∧ ∀ u ∈ run, u.text ≠ [] := fun run hrun =>
    ⟨hne run hrun, fun u hu => htexts u (hflatten ▸ List.mem_flatten.mpr ⟨run, hrun, hu⟩)⟩
  obtain ⟨blocks, hbuilt⟩ := buildLoop_built config counter ids nowMs input hruns
  exact ⟨runs, blocks, hgreedy, hflatten, by rwa [hbuild]⟩

theorem built_partition (hsize : 0 ≤ config.parentSize) (htokens : tokens (collectUnits config counter input).1 < 2 ^ 32) :
    ∃ runs blocks, Partition config counter ids input runs blocks
      (buildLoop config counter ids nowMs input {} (collectUnits config counter input).1).parents
      (buildLoop config counter ids nowMs input {} (collectUnits config counter input).1).children := by
  obtain ⟨⟨hi, hemitted⟩, hsorted⟩ := collectUnits_emitted config counter input
  obtain ⟨runs, blocks, hgreedy, hflatten, hbuilt⟩ := buildLoop_greedy config counter ids nowMs input hemitted.texts
  have hne := Packer.Feasible.ne_nil _ (Packer.Greedy.feasible _ hgreedy)
  have htexts : ∀ run ∈ runs, ∀ u ∈ run, u.text ≠ [] := fun run hrun u hu =>
    hemitted.texts u (hflatten ▸ List.mem_flatten.mpr ⟨run, hrun, hu⟩)
  have hspan := fun run hrun => openParent_span (hne run hrun) (htexts run hrun)
  have hbefore := hemitted.before
  rw [← hflatten, List.pairwise_flatten] at hbefore
  rw [← hflatten] at htokens hsorted
  refine ⟨runs, blocks, ⟨hflatten, hne, ?_, run_size hsize (Packer.Greedy.feasible _ hgreedy) htokens, hbuilt.links,
    hbuilt.children, ?_, ?_, ⟨?_, ?_⟩, fun h => ⟨?_, ?_⟩⟩⟩
  · have hfst := congrArg (List.map Prod.fst) hbuilt.spans
    rw [List.map_map, List.map_map] at hfst
    refine hfst.trans (List.map_congr_left fun run hrun => ?_)
    obtain ⟨u, v, -, -, -, heq⟩ := hspan run hrun
    exact congrArg Prod.fst heq
  · rw [hbuilt.index, List.range_eq_range']
  · intro hinj
    rw [hbuilt.drawn]
    exact List.Nodup.map hinj List.nodup_range'
  · refine hbuilt.pairwise config counter ids (R := fun s t => s.2.2.2 ≤ t.2.2.1) (hbefore.2.imp_of_mem fun hr hs hrs => ?_)
    obtain ⟨_, v, -, hv, -, heq⟩ := hspan _ hr
    obtain ⟨u, _, hu, -, -, heq'⟩ := hspan _ hs
    rw [heq, heq']
    exact hrs v hv u hu
  · refine hbuilt.forall config counter ids (P := fun s => s.2.2.1 < s.2.2.2) fun run hrun => ?_
    obtain ⟨u, v, hu, hv, hle, heq⟩ := hspan run hrun
    have hlen := List.length_pos_iff.mpr (htexts run hrun v hv)
    have hlen' := List.length_pos_iff.mpr (htexts run hrun u hu)
    rw [heq]
    rcases hle Before (hbefore.1 run hrun) with rfl | hbef
    · exact Nat.lt_add_of_pos_right hlen
    · simp only [Before] at hbef
      exact Nat.lt_of_lt_of_le (Nat.lt_of_lt_of_le (Nat.lt_add_of_pos_right hlen') hbef) (Nat.le_add_right _ _)
  · have hpages := List.pairwise_flatten.mp (hsorted h)
    refine hbuilt.pairwise config counter ids (R := fun s t => s.2.1.2 ≤ t.2.1.1) (hpages.2.imp_of_mem fun hr hs hrs => ?_)
    obtain ⟨_, v, -, hv, -, heq⟩ := hspan _ hr
    obtain ⟨u, _, hu, -, -, heq'⟩ := hspan _ hs
    rw [heq, heq']
    exact hrs v hv u hu
  · have hpages := List.pairwise_flatten.mp (hsorted h)
    refine hbuilt.forall config counter ids (P := fun s => s.2.1.1 ≤ s.2.1.2) fun run hrun => ?_
    obtain ⟨u, v, hu, hv, hle, heq⟩ := hspan run hrun
    rw [heq]
    rcases hle _ (hpages.1 run hrun) with rfl | hpage
    · exact UInt32.le_refl _
    · exact hpage

end

def twoParagraphs : ChunkerInput Unit :=
  { docId := "d", namespaceId := "n", metadata := (), pages := [{ pageNum := 1, paragraphs := [[0x61], [0x62]] }] }

end Cortrix.Chunker
