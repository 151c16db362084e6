import Cortrix.Chunker.ParentChildChunker
import Cortrix.Spc.LosslessSplit
import Mathlib.Data.List.Chain

/-!
# Where chunks are taken and where they are found

The splitter does not say where a chunk comes from; its offsets are recovered by searching for its text.

* `Located` : the offsets are the places; `Findable` : no chunk stands earlier, behind the start of the one before it;
* `located_iff` : the offsets are right exactly when the chunks are findable.
-/

namespace Cortrix.Spc.ChunkOffsets
open Lib RecursiveChunker LosslessSplit Cortrix.Chunker

/-- A text and the place it was taken from. -/
abbrev Placed := Nat × Bytes

def Stands (text : Bytes) (pos : Nat) (pattern : Bytes) : Prop := pattern <+: text.drop pos

/-! ## Splitting with places -/

/-- Pieces with a separator of `gap` bytes between them, from `pos` on. -/
def placePieces (gap : Nat) : Nat → List Bytes → List Placed
  | _, [] => []
  | pos, piece :: pieces => (pos, piece) :: placePieces gap (pos + piece.length + gap) pieces

def mergePlacedPiece (sep : Bytes) (chunkSize : Int32) (st : Placed × List Placed) (piece : Placed) :
    Placed × List Placed :=
  if piece.2.isEmpty then st
  else
    let candidate := if st.1.2.isEmpty then piece else (st.1.1, st.1.2 ++ sep ++ piece.2)
    if approxTokenCount candidate.2 ≤ chunkSize then (candidate, st.2)
    else (piece, if st.1.2.isEmpty then st.2 else st.2 ++ [st.1])

def mergePlaced (pieces : List Placed) (sep : Bytes) (chunkSize : Int32) : List Placed :=
  let st := pieces.foldl (mergePlacedPiece sep chunkSize) ((0, []), [])
  if st.1.2.isEmpty then st.2 else st.2 ++ [st.1]

def concatPlaced (f : Placed → Option (List Placed)) : List Placed → Option (List Placed)
  | [] => some []
  | piece :: pieces => do
    let first ← f piece
    let rest ← concatPlaced f pieces
    some (first ++ rest)

/-- `splitRecursive` on a text at a place; fixed cuts, which the default separators never leave, are not placed. -/
def splitPlaced (chunkSize : Int32) : List Bytes → Placed → Option (List Placed)
  | seps, piece =>
    if piece.2.isEmpty then some []
    else if approxTokenCount piece.2 ≤ chunkSize then some [piece]
    else
      match seps with
      | [] => none
      | sep :: seps =>
        concatPlaced (fun piece => if chunkSize < approxTokenCount piece.2 then splitPlaced chunkSize seps piece
            else some [piece])
          (mergePlaced (placePieces sep.length piece.1 (splitBySeparator piece.2 sep)) sep chunkSize)

theorem placePieces_texts (gap pos : Nat) (pieces : List Bytes) :
    (placePieces gap pos pieces).map Prod.snd = pieces := by
  induction pieces generalizing pos with
  | nil => rfl
  | cons piece pieces ih => rw [placePieces, List.map_cons, ih]

/-- What the loop of `mergePieces` knows of the loop with places. -/
def texts (st : Placed × List Placed) : Bytes × List Bytes := (st.1.2, st.2.map Prod.snd)

variable (sep : Bytes) (chunkSize : Int32) {f : Placed → Option (List Placed)} {pieces ps : List Placed}
  {piece : Placed} {lo hi pos : Nat} {text pattern : Bytes} {start : Nat} {placed : List Placed}

theorem mergePlacedPiece_texts (st : Placed × List Placed) (piece : Placed) :
    texts (mergePlacedPiece sep chunkSize st piece) = mergePiece sep chunkSize (texts st) piece.2 := by
  obtain ⟨⟨pos, text⟩, closed⟩ := st
  show texts (mergePlacedPiece sep chunkSize ((pos, text), closed) piece) =
    mergePiece sep chunkSize (text, closed.map Prod.snd) piece.2
  unfold mergePlacedPiece mergePiece
  by_cases hpiece : piece.2.isEmpty = true
  · rw [if_pos hpiece, if_pos hpiece]
    rfl
  · rw [if_neg hpiece, if_neg hpiece]
    by_cases htext : text.isEmpty = true
    · simp only [if_pos htext]
      split <;> rfl
    · simp only [if_neg htext]
      split
      · rfl
      · rw [texts, List.map_append, List.map_singleton]

theorem mergePlaced_texts (pieces : List Placed) (sep : Bytes) (chunkSize : Int32) :
    (mergePlaced pieces sep chunkSize).map Prod.snd = mergePieces (pieces.map Prod.snd) sep chunkSize := by
  have hloop : ∀ st, texts (pieces.foldl (mergePlacedPiece sep chunkSize) st) =
      (pieces.map Prod.snd).foldl (mergePiece sep chunkSize) (texts st) := by
    induction pieces with
    | nil => exact fun st => rfl
    | cons piece pieces ih =>
      intro st
      rw [List.foldl_cons, ih, List.map_cons, List.foldl_cons, mergePlacedPiece_texts]
  have hend : texts (pieces.foldl (mergePlacedPiece sep chunkSize) ((0, []), [])) =
      (pieces.map Prod.snd).foldl (mergePiece sep chunkSize) ([], []) := hloop _
  unfold mergePlaced mergePieces
  rw [← hend]
  dsimp only [texts]
  split
  · rfl
  · rw [List.map_append, List.map_singleton]

def toResults (placed : List Placed) : List ChunkResult := placed.map fun p => result p.2

theorem concatPlaced_erase {g : Bytes → Option (List ChunkResult)}
    (hfg : ∀ p ps, f p = some ps → g p.2 = some (toResults ps)) (h : concatPlaced f pieces = some ps) :
    concatM g (pieces.map Prod.snd) = some (toResults ps) := by
  induction pieces generalizing ps with
  | nil =>
    cases h
    rfl
  | cons piece pieces ih =>
    obtain ⟨first, hfirst, hrest⟩ := Option.bind_eq_some_iff.mp h
    obtain ⟨rest, hconcat, heq⟩ := Option.bind_eq_some_iff.mp hrest
    cases heq
    simp [concatM, hfg piece first hfirst, ih hconcat, toResults]

theorem splitPlaced_erase {seps : List Bytes} (h : splitPlaced chunkSize seps piece = some ps) :
    splitRecursive chunkSize seps piece.2 = some (toResults ps) := by
  induction seps generalizing piece ps with
  | nil =>
    rw [splitPlaced] at h
    rw [splitRecursive]
    split at h
    · cases h
      rw [if_pos ‹_›]
      rfl
    · split at h
      · cases h
        rw [if_neg ‹_›, if_pos ‹_›]
        rfl
      · exact absurd h (by simp)
  | cons sep seps ih =>
    rw [splitPlaced] at h
    rw [splitRecursive]
    split at h
    · cases h
      rw [if_pos ‹_›]
      rfl
    · split at h
      · cases h
        rw [if_neg ‹_›, if_pos ‹_›]
        rfl
      · rw [if_neg ‹_›, if_neg ‹_›]
        have hconcat := concatPlaced_erase (g := fun piece => if chunkSize < approxTokenCount piece then
          splitRecursive chunkSize seps piece else some [result piece]) (fun p qs hp => ?_) h
        · rwa [mergePlaced_texts, placePieces_texts] at hconcat
        · split at hp
          · rw [if_pos ‹_›, ih hp]
          · cases hp
            rw [if_neg ‹_›]
            rfl

theorem concatPlaced_isSome (h : ∀ p ∈ pieces, ∃ ps, f p = some ps) : ∃ ps, concatPlaced f pieces = some ps := by
  induction pieces with
  | nil => exact ⟨[], rfl⟩
  | cons p pieces ih =>
    obtain ⟨first, hfirst⟩ := h p (by simp)
    obtain ⟨rest, hrest⟩ := ih fun q hq => h q (by simp [hq])
    exact ⟨first ++ rest, by simp [concatPlaced, hfirst, hrest]⟩

/-- With the default separators every text is placed. -/
theorem splitPlaced_isSome {chunkSize : Int32} (hsize : 2 ≤ chunkSize) {seps : List (List Char)}
    (hseps : ∀ sep ∈ seps, sep.filter keeps = []) (pos : Nat) (cs : List Char) :
    ∃ ps, splitPlaced chunkSize ((seps ++ [[]]).map utf8) (pos, utf8 cs) = some ps := by
  -- the merged pieces are texts, and without a separator characters
  have hmerged : ∀ (sep : List Char) (pos : Nat) (cs : List Char), sep.filter keeps = [] →
      ∀ p ∈ mergePlaced (placePieces (utf8 sep).length pos (splitBySeparator (utf8 cs) (utf8 sep))) (utf8 sep) chunkSize,
        ∃ m, p.2 = utf8 m ∧ (sep = [] → chunkSize < approxTokenCount p.2 → ∃ c, m = [c]) := by
    intro sep pos cs hsep p hp
    obtain ⟨parts, hsplit, -, hchars⟩ := splitBySeparator_utf8 cs sep
    obtain ⟨merged, hmerge, -, -, hwhole⟩ := mergePieces_utf8 hsep chunkSize parts
    have hmem : p.2 ∈ merged.map utf8 := by
      rw [← hmerge, ← hsplit, ← placePieces_texts (utf8 sep).length pos (splitBySeparator (utf8 cs) (utf8 sep)),
        ← mergePlaced_texts]
      exact List.mem_map_of_mem hp
    obtain ⟨m, hm, heq⟩ := List.mem_map.mp hmem
    refine ⟨m, heq.symm, fun hnil hlong => ?_⟩
    rw [← heq] at hlong
    have hpart := (hwhole m hm).resolve_left (Int32.not_le.mpr hlong)
    rw [hchars hnil] at hpart
    obtain ⟨c, -, hc⟩ := List.mem_map.mp hpart
    exact ⟨c, hc.symm⟩
  induction seps generalizing pos cs with
  | nil =>
    rw [List.nil_append, List.map_singleton, splitPlaced]
    split
    · exact ⟨_, rfl⟩
    · split
      · exact ⟨_, rfl⟩
      · refine concatPlaced_isSome fun p hp => ?_
        obtain ⟨m, hm, hchar⟩ := hmerged [] pos cs rfl p hp
        split
        · rename_i hlong
          obtain ⟨c, rfl⟩ := hchar rfl hlong
          rw [hm] at hlong
          exact absurd (Int32.le_trans (approxTokenCount_char c) hsize) (Int32.not_le.mpr hlong)
        · exact ⟨_, rfl⟩
  | cons sep seps ih =>
    rw [List.cons_append, List.map_cons, splitPlaced]
    split
    · exact ⟨_, rfl⟩
    · split
      · exact ⟨_, rfl⟩
      · refine concatPlaced_isSome fun p hp => ?_
        obtain ⟨m, hm, -⟩ := hmerged sep pos cs (hseps sep (by simp)) p hp
        split
        · obtain ⟨at', text⟩ := p
          obtain rfl : text = utf8 m := hm
          exact ih (fun s hs => hseps s (by simp [hs])) at' m
        · exact ⟨_, rfl⟩

/-! ## The order of the places -/

/-- The texts stand one behind another between `lo` and `hi`. -/
def Spans : Nat → List Placed → Nat → Prop
  | lo, [], hi => lo ≤ hi
  | lo, p :: ps, hi => lo ≤ p.1 ∧ Spans (p.1 + p.2.length) ps hi

theorem Spans.le (h : Spans lo ps hi) : lo ≤ hi := by
  induction ps generalizing lo with
  | nil => exact h
  | cons p ps ih => exact (h.1.trans (Nat.le_add_right _ _)).trans (ih h.2)

theorem Spans.mono {hi' : Nat} (h : Spans lo ps hi) (hhi : hi ≤ hi') : Spans lo ps hi' := by
  induction ps generalizing lo with
  | nil => exact Nat.le_trans h hhi
  | cons p ps ih => exact ⟨h.1, ih h.2⟩

theorem spans_append {qs : List Placed} : Spans lo (ps ++ qs) hi ↔ ∃ mid, Spans lo ps mid ∧ Spans mid qs hi := by
  induction ps generalizing lo with
  | nil =>
    constructor
    · exact fun h => ⟨lo, le_refl lo, h⟩
    · rintro ⟨mid, hmid, h⟩
      cases qs with
      | nil => exact Nat.le_trans hmid h
      | cons q qs => exact ⟨Nat.le_trans hmid h.1, h.2⟩
  | cons p ps ih =>
    rw [List.cons_append, Spans, ih]
    constructor
    · rintro ⟨hlo, mid, hps, hqs⟩
      exact ⟨mid, ⟨hlo, hps⟩, hqs⟩
    · rintro ⟨mid, ⟨hlo, hps⟩, hqs⟩
      exact ⟨hlo, mid, hps, hqs⟩

def current (st : Placed × List Placed) : List Placed := if st.1.2.isEmpty then [] else [st.1]

theorem mergePlaced_eq (pieces : List Placed) (sep : Bytes) (chunkSize : Int32) :
    mergePlaced pieces sep chunkSize = (pieces.foldl (mergePlacedPiece sep chunkSize) ((0, []), [])).2 ++
      current (pieces.foldl (mergePlacedPiece sep chunkSize) ((0, []), [])) := by
  unfold mergePlaced current
  dsimp only
  split
  · rw [List.append_nil]
  · rfl

theorem spans_snoc {p : Placed} :
    Spans lo (ps ++ [p]) hi ↔ ∃ mid, Spans lo ps mid ∧ mid ≤ p.1 ∧ p.1 + p.2.length ≤ hi := spans_append

theorem mergePlacedPiece_spans {stop : Nat} {piece : Bytes} {st : Placed × List Placed}
    (hpiece : ¬ piece.isEmpty = true) (hst : Spans lo (st.2 ++ current st) stop)
    (hgap : st.1.2.isEmpty = true ∨ stop + sep.length ≤ pos) (hstop : stop ≤ pos) :
    Spans lo ((mergePlacedPiece sep chunkSize st (pos, piece)).2 ++
      current (mergePlacedPiece sep chunkSize st (pos, piece))) (pos + piece.length) := by
  have hnew : ∀ closed : List Placed, Spans lo closed stop →
      Spans lo (closed ++ current ((pos, piece), closed)) (pos + piece.length) := by
    intro closed hclosed
    rw [current, if_neg hpiece]
    exact spans_snoc.mpr ⟨stop, hclosed, hstop, le_refl _⟩
  unfold mergePlacedPiece
  rw [if_neg hpiece]
  by_cases hempty : st.1.2.isEmpty = true
  · rw [current, if_pos hempty, List.append_nil] at hst
    simp only [if_pos hempty]
    split
    · exact hnew st.2 hst
    · exact hnew st.2 hst
  · have hclosed := hst
    rw [current, if_neg hempty] at hclosed
    simp only [if_neg hempty]
    split
    · -- the current text with the separator and the piece ends where the piece ends, or before
      obtain ⟨mid, hmid, hle, hend⟩ := spans_snoc.mp hclosed
      have hlong : ¬ (st.1.2 ++ sep ++ piece).isEmpty = true := by simpa using fun _ _ => hpiece
      rw [current, if_neg hlong]
      have hgap' := hgap.resolve_left hempty
      exact spans_snoc.mpr ⟨mid, hmid, hle, by simp only [List.length_append]; omega⟩
    · exact hnew (st.2 ++ [st.1]) hclosed

theorem foldl_merge_spans {stop : Nat} (pieces : List Bytes) (st : Placed × List Placed)
    (hst : Spans lo (st.2 ++ current st) stop) (hgap : st.1.2.isEmpty = true ∨ stop + sep.length ≤ pos)
    (hstop : stop ≤ pos) (hhi : stop ≤ hi) (hend : pieces ≠ [] → pos + (sep.intercalate pieces).length ≤ hi) :
    Spans lo (((placePieces sep.length pos pieces).foldl (mergePlacedPiece sep chunkSize) st).2 ++
      current ((placePieces sep.length pos pieces).foldl (mergePlacedPiece sep chunkSize) st)) hi := by
  induction pieces generalizing pos stop st with
  | nil => exact hst.mono hhi
  | cons piece pieces ih =>
    have hlen := hend (List.cons_ne_nil piece pieces)
    have hnow : pos + piece.length ≤ hi := by
      cases pieces with
      | nil => rwa [List.intercalate_singleton] at hlen
      | cons q qs =>
        rw [List.intercalate_cons_cons, List.length_append, List.length_append] at hlen
        omega
    have hrest : pieces ≠ [] → pos + piece.length + sep.length + (sep.intercalate pieces).length ≤ hi := by
      intro hne
      obtain ⟨q, qs, rfl⟩ := List.exists_cons_of_ne_nil hne
      rw [List.intercalate_cons_cons, List.length_append, List.length_append] at hlen
      omega
    rw [placePieces, List.foldl_cons]
    by_cases hpiece : piece.isEmpty = true
    · have hskip : mergePlacedPiece sep chunkSize st (pos, piece) = st := by rw [mergePlacedPiece, if_pos hpiece]
      rw [hskip]
      exact ih st hst (hgap.imp_right fun h => by omega) (by omega) hhi hrest
    · exact ih _ (mergePlacedPiece_spans sep chunkSize hpiece hst hgap hstop) (Or.inr (le_refl _))
        (Nat.le_add_right _ _) hnow hrest

theorem mergePlaced_spans (pos : Nat) (text : Bytes) :
    Spans pos (mergePlaced (placePieces sep.length pos (splitBySeparator text sep)) sep chunkSize)
      (pos + text.length) := by
  rw [mergePlaced_eq]
  refine foldl_merge_spans sep chunkSize _ ((0, []), []) (le_refl pos) (Or.inl rfl) (le_refl pos) (Nat.le_add_right _ _)
    fun _ => ?_
  rw [intercalate_splitBySeparator]

theorem concatPlaced_spans (hf : ∀ p ps, f p = some ps → Spans p.1 ps (p.1 + p.2.length)) (hspans : Spans lo pieces hi)
    (h : concatPlaced f pieces = some ps) : Spans lo ps hi := by
  induction pieces generalizing lo ps with
  | nil =>
    cases h
    exact hspans
  | cons piece pieces ih =>
    obtain ⟨first, hfirst, hrest⟩ := Option.bind_eq_some_iff.mp h
    obtain ⟨rest, hconcat, heq⟩ := Option.bind_eq_some_iff.mp hrest
    cases heq
    have hnow := hf piece first hfirst
    refine spans_append.mpr ⟨piece.1 + piece.2.length, ?_, ih hspans.2 hconcat⟩
    cases first with
    | nil => exact hspans.1.trans (Nat.le_add_right _ _)
    | cons p first => exact ⟨hspans.1.trans hnow.1, hnow.2⟩

/-- The chunks of a text stand one behind another. -/
theorem splitPlaced_spans {seps : List Bytes} (h : splitPlaced chunkSize seps piece = some ps) :
    Spans piece.1 ps (piece.1 + piece.2.length) := by
  induction seps generalizing piece ps with
  | nil =>
    rw [splitPlaced] at h
    split at h
    · cases h
      exact Nat.le_add_right _ _
    · split at h
      · cases h
        exact ⟨le_refl _, le_refl _⟩
      · exact absurd h (by simp)
  | cons sep seps ih =>
    rw [splitPlaced] at h
    split at h
    · cases h
      exact Nat.le_add_right _ _
    · split at h
      · cases h
        exact ⟨le_refl _, le_refl _⟩
      · refine concatPlaced_spans (fun p qs hp => ?_) (mergePlaced_spans sep chunkSize piece.1 piece.2) h
        split at hp
        · exact ih hp
        · cases hp
          exact ⟨le_refl _, le_refl _⟩

/-! ## What stands at a place -/

theorem stands_append {front back : Bytes} (h : Stands text pos (front ++ back)) :
    Stands text pos front ∧ Stands text (pos + front.length) back := by
  obtain ⟨rest, hrest⟩ := h
  rw [List.append_assoc] at hrest
  refine ⟨⟨back ++ rest, hrest⟩, ⟨rest, ?_⟩⟩
  rw [← List.drop_drop, ← hrest, List.drop_left]

theorem placePieces_stands {sep : Bytes} {pieces : List Bytes} (h : Stands text pos (sep.intercalate pieces)) :
    ∀ p ∈ placePieces sep.length pos pieces, Stands text p.1 p.2 := by
  induction pieces generalizing pos with
  | nil => simp [placePieces]
  | cons piece pieces ih =>
    rw [placePieces]
    cases pieces with
    | nil =>
      rw [List.intercalate_singleton] at h
      exact List.forall_mem_cons.mpr ⟨h, by simp [placePieces]⟩
    | cons q qs =>
      rw [List.intercalate_cons_cons] at h
      obtain ⟨hfront, hback⟩ := stands_append h
      rw [List.length_append, ← Nat.add_assoc] at hback
      exact List.forall_mem_cons.mpr ⟨(stands_append hfront).1, ih hback⟩

/-- A text starts with something of the source at its place. -/
def Starts (text : Bytes) (p : Placed) : Prop := ∃ front, front ≠ [] ∧ front <+: p.2 ∧ Stands text p.1 front

/-- A merged text starts at its place, and one that is too long is the source itself. -/
structure Taken (text : Bytes) (chunkSize : Int32) (p : Placed) : Prop where
  starts : Starts text p
  whole : chunkSize < approxTokenCount p.2 → Stands text p.1 p.2

theorem mergePlacedPiece_taken {chunkSize : Int32} {st : Placed × List Placed}
    (hst : ∀ p ∈ st.2 ++ current st, Taken text chunkSize p) (hpiece : Stands text piece.1 piece.2) :
    ∀ p ∈ (mergePlacedPiece sep chunkSize st piece).2 ++ current (mergePlacedPiece sep chunkSize st piece),
      Taken text chunkSize p := by
  unfold mergePlacedPiece
  by_cases hnil : piece.2.isEmpty = true
  · rw [if_pos hnil]
    exact hst
  · rw [if_neg hnil]
    have htaken : Taken text chunkSize piece :=
      ⟨⟨piece.2, fun h => hnil (by rw [h]; rfl), List.prefix_rfl, hpiece⟩, fun _ => hpiece⟩
    have hclosed : ∀ p ∈ st.2, Taken text chunkSize p := fun p hp => hst p (List.mem_append_left _ hp)
    have hnew : ∀ closed : List Placed, (∀ p ∈ closed, Taken text chunkSize p) →
        ∀ p ∈ closed ++ current (piece, closed), Taken text chunkSize p := by
      intro closed h
      rw [current, if_neg hnil]
      exact List.forall_mem_append.mpr ⟨h, List.forall_mem_singleton.mpr htaken⟩
    by_cases hempty : st.1.2.isEmpty = true
    · simp only [if_pos hempty]
      split
      · exact hnew st.2 hclosed
      · exact hnew st.2 hclosed
    · have hcurrent := hst
      rw [current, if_neg hempty] at hcurrent
      simp only [if_neg hempty]
      split
      · rename_i hfits
        have hlong : ¬ (st.1.2 ++ sep ++ piece.2).isEmpty = true := by simpa using fun _ _ => hnil
        rw [current, if_neg hlong]
        obtain ⟨front, hne, hprefix, hstands⟩ := (hcurrent st.1 (by simp)).starts
        refine List.forall_mem_append.mpr ⟨hclosed, List.forall_mem_singleton.mpr ⟨⟨front, hne, ?_, hstands⟩, ?_⟩⟩
        · rw [List.append_assoc]
          exact hprefix.trans (List.prefix_append _ _)
        · exact fun h => absurd hfits (Int32.not_le.mpr h)
      · exact hnew (st.2 ++ [st.1]) hcurrent

theorem mergePlaced_taken (h : Stands text piece.1 piece.2) :
    ∀ p ∈ mergePlaced (placePieces sep.length piece.1 (splitBySeparator piece.2 sep)) sep chunkSize,
      Taken text chunkSize p := by
  have hpieces : ∀ p ∈ placePieces sep.length piece.1 (splitBySeparator piece.2 sep), Stands text p.1 p.2 :=
    placePieces_stands (by rwa [intercalate_splitBySeparator])
  have hloop : ∀ pieces : List Placed, (∀ p ∈ pieces, Stands text p.1 p.2) → ∀ st : Placed × List Placed,
      (∀ p ∈ st.2 ++ current st, Taken text chunkSize p) →
      ∀ p ∈ (pieces.foldl (mergePlacedPiece sep chunkSize) st).2 ++
        current (pieces.foldl (mergePlacedPiece sep chunkSize) st), Taken text chunkSize p := by
    intro pieces
    induction pieces with
    | nil => exact fun _ st hst => hst
    | cons q qs ih =>
      intro hqs st hst
      rw [List.forall_mem_cons] at hqs
      exact ih hqs.2 _ (mergePlacedPiece_taken sep hst hqs.1)
  rw [mergePlaced_eq]
  exact hloop _ hpieces ((0, []), []) (by simp [current])

theorem mem_concatPlaced (h : concatPlaced f pieces = some ps) {q : Placed} (hq : q ∈ ps) :
    ∃ p ∈ pieces, ∃ qs, f p = some qs ∧ q ∈ qs := by
  induction pieces generalizing ps with
  | nil =>
    cases h
    exact absurd hq (by simp)
  | cons piece pieces ih =>
    obtain ⟨first, hfirst, hrest⟩ := Option.bind_eq_some_iff.mp h
    obtain ⟨rest, hconcat, heq⟩ := Option.bind_eq_some_iff.mp hrest
    cases heq
    rcases List.mem_append.mp hq with hq | hq
    · exact ⟨piece, by simp, first, hfirst, hq⟩
    · obtain ⟨p, hp, hqs⟩ := ih hconcat hq
      exact ⟨p, by simp [hp], hqs⟩

/-- Every chunk of a text of the source starts at its place. -/
theorem splitPlaced_taken {seps : List Bytes} (hpiece : Stands text piece.1 piece.2)
    (h : splitPlaced chunkSize seps piece = some ps) : ∀ p ∈ ps, Starts text p := by
  induction seps generalizing piece ps with
  | nil =>
    rw [splitPlaced] at h
    split at h
    · cases h
      simp
    · rename_i hne
      split at h
      · cases h
        exact List.forall_mem_singleton.mpr ⟨piece.2, by simpa using hne, List.prefix_rfl, hpiece⟩
      · exact absurd h (by simp)
  | cons sep seps ih =>
    rw [splitPlaced] at h
    split at h
    · cases h
      simp
    · rename_i hne
      split at h
      · cases h
        exact List.forall_mem_singleton.mpr ⟨piece.2, by simpa using hne, List.prefix_rfl, hpiece⟩
      · intro q hq
        obtain ⟨p, hp, qs, hqs, hmem⟩ := mem_concatPlaced h hq
        have htaken := mergePlaced_taken sep chunkSize hpiece p hp
        split at hqs
        · exact ih (htaken.whole ‹_›) hqs q hmem
        · cases hqs
          rw [List.mem_singleton.mp hmem]
          exact htaken.starts

/-! ## Searching -/

theorem findFirst_spec {q : Nat} (h : findFirst pattern pos text = some q) :
    ∃ k, q = pos + k ∧ Stands text k pattern ∧ ∀ j < k, ¬ Stands text j pattern := by
  induction text generalizing pos with
  | nil =>
    rw [findFirst] at h
    split at h
    · rename_i hempty
      cases h
      refine ⟨0, rfl, ?_, by simp⟩
      rw [List.isEmpty_iff.mp hempty]
      exact List.nil_prefix
    · exact absurd h (by simp)
  | cons c text ih =>
    rw [findFirst] at h
    split at h
    · rename_i hprefix
      cases h
      exact ⟨0, rfl, List.isPrefixOf_iff_prefix.mp hprefix, by simp⟩
    · rename_i hprefix
      obtain ⟨k, rfl, hstands, hbefore⟩ := ih h
      refine ⟨k + 1, by omega, hstands, fun j hj => ?_⟩
      cases j with
      | zero => exact fun hzero => hprefix (List.isPrefixOf_iff_prefix.mpr hzero)
      | succ j => exact hbefore j (Nat.lt_of_succ_lt_succ hj)

theorem findFirst_isSome (pos : Nat) {k : Nat} (hpattern : pattern ≠ []) (h : Stands text k pattern) :
    ∃ q, findFirst pattern pos text = some q := by
  induction text generalizing pos k with
  | nil =>
    rw [Stands, List.drop_nil] at h
    exact absurd (List.prefix_nil.mp h) hpattern
  | cons c text ih =>
    rw [findFirst]
    split
    · exact ⟨pos, rfl⟩
    · rename_i hprefix
      cases k with
      | zero => exact absurd (List.isPrefixOf_iff_prefix.mpr h) hprefix
      | succ k => exact ih (pos + 1) h

/-- A search finds the first place from `start` on. -/
theorem find_spec {q : Nat} (h : find text pattern start = some q) :
    start ≤ q ∧ Stands text q pattern ∧ ∀ r, start ≤ r → r < q → ¬ Stands text r pattern := by
  unfold find at h
  split at h
  · obtain ⟨k, rfl, hstands, hbefore⟩ := findFirst_spec h
    rw [Stands, List.drop_drop] at hstands
    refine ⟨Nat.le_add_right _ _, hstands, fun r hr hlt => ?_⟩
    have hr' := hbefore (r - start) (by omega)
    rwa [Stands, List.drop_drop, show start + (r - start) = r by omega] at hr'
  · exact absurd h (by simp)

theorem find_of_stands (hpattern : pattern ≠ []) (hpos : start ≤ pos) (h : Stands text pos pattern) :
    ∃ q, find text pattern start = some q ∧ q ≤ pos := by
  have hlen : pos ≤ text.length := by
    by_contra hlong
    rw [Stands, List.drop_eq_nil_of_le (by omega)] at h
    exact hpattern (List.prefix_nil.mp h)
  have hsuffix : Stands (text.drop start) (pos - start) pattern := by
    rwa [Stands, List.drop_drop, show start + (pos - start) = pos by omega]
  obtain ⟨q, hq⟩ := findFirst_isSome start hpattern hsuffix
  have hfind : find text pattern start = some q := by rw [find, if_pos (hpos.trans hlen), hq]
  refine ⟨q, hfind, ?_⟩
  by_contra hlate
  exact (find_spec hfind).2.2 pos hpos (by omega) h

theorem find_eq_some (hpattern : pattern ≠ []) (hpos : start ≤ pos) (h : Stands text pos pattern)
    (hbefore : ∀ r, start ≤ r → r < pos → ¬ Stands text r pattern) : find text pattern start = some pos := by
  obtain ⟨q, hq, hle⟩ := find_of_stands hpattern hpos h
  obtain ⟨hstart, hstands, -⟩ := find_spec hq
  rcases Nat.lt_or_eq_of_le hle with hlt | rfl
  · exact absurd hstands (hbefore q hstart hlt)
  · exact hq

/-! ## Offsets -/

/-- The offsets of a chunk delimit its text. -/
def Delimits (text : Bytes) (c : ChunkResult) : Prop := ∃ start stop : Nat, c.startOffset.toInt = start ∧
  c.endOffset.toInt = stop ∧ start ≤ stop ∧ stop ≤ text.length ∧ (text.take stop).drop start = c.text

structure Located (text : Bytes) (chunks : List ChunkResult) (spans : List ChildSpan) (placed : List Placed) : Prop where
  delimits : ∀ c ∈ chunks, Delimits text c
  disjoint : chunks.IsChain fun c d => c.endOffset ≤ d.startOffset
  parents : spans.map (fun s => (s.parentOffset.toNat, s.text)) = placed

/-- Every text stands whole at its place and nowhere between `searchFrom` and that; the next one is looked for one
byte behind. -/
def Findable (text : Bytes) : Nat → List Placed → Prop
  | _, [] => True
  | searchFrom, p :: ps => (Stands text p.1 p.2 ∧ (∀ q, searchFrom ≤ q → q < p.1 → ¬ Stands text q p.2) ∧
      p.1 + p.2.length < 2 ^ 31) ∧ Findable text (p.1 + 1) ps

theorem toInt_eq_place {q a : Nat} (hint : (Int32.ofNat q).toInt = a) (hnat : (UInt32.ofNat q).toNat = pos) :
    a = pos := by
  rw [Int32.toInt_ofNat', Int.bmod_def] at hint
  rw [UInt32.toNat_ofNat'] at hnat
  have hsize : (Int32.size : Int) = 4294967296 := rfl
  rw [show Int32.size = 4294967296 from rfl] at hint
  omega

/-- One chunk: both searches find its place, and its offsets fit, exactly when it stands there first. -/
theorem delimits_iff {c : ChunkResult} (hne : c.text ≠ []) (hpos : start ≤ pos)
    (hstart : c.startOffset = Int32.ofNat ((find text c.text start).getD start))
    (hstop : c.endOffset = Int32.ofNat ((find text c.text start).getD start + c.text.length)) :
    (Delimits text c ∧ (UInt32.ofNat ((find text c.text start).getD start)).toNat = pos) ↔
      Stands text pos c.text ∧ (∀ q, start ≤ q → q < pos → ¬ Stands text q c.text) ∧ pos + c.text.length < 2 ^ 31 := by
  constructor
  · rintro ⟨⟨a, b, ha, hb, hab, hlen, htext⟩, hplace⟩
    rw [hstart] at ha
    obtain rfl := toInt_eq_place ha hplace
    rw [List.drop_take] at htext
    have hstands : Stands text a c.text := by
      rw [Stands, ← htext]
      exact List.take_prefix _ _
    have hb' : b = a + c.text.length := by
      have htlen := congrArg List.length htext
      rw [List.length_take, List.length_drop] at htlen
      omega
    have hbound := Int32.toInt_lt c.endOffset
    rw [hb] at hbound
    obtain ⟨q, hq, hle⟩ := find_of_stands hne hpos hstands
    obtain ⟨-, -, hbefore⟩ := find_spec hq
    rw [hq, Option.getD_some, UInt32.toNat_ofNat'] at hplace
    obtain rfl : q = a := by omega
    exact ⟨hstands, hbefore, by omega⟩
  · rintro ⟨hstands, hbefore, hbound⟩
    rw [find_eq_some hne hpos hstands hbefore, Option.getD_some] at hstart hstop ⊢
    refine ⟨⟨pos, pos + c.text.length, ?_, ?_, Nat.le_add_right _ _, ?_, ?_⟩, ?_⟩
    · rw [hstart]
      exact Int32.toInt_ofNat_of_lt (by omega)
    · rw [hstop]
      exact Int32.toInt_ofNat_of_lt hbound
    · obtain ⟨rest, hrest⟩ := hstands
      have hlen := congrArg List.length hrest
      have hpos' := List.length_pos_iff.mpr hne
      rw [List.length_append, List.length_drop] at hlen
      omega
    · rw [List.drop_take, Nat.add_sub_cancel_left]
      exact (List.prefix_iff_eq_take.mp hstands).symm
    · rw [UInt32.toNat_ofNat']
      omega

theorem located_run (counter : Bytes → UInt32) (index : Nat) (hspans : Spans lo placed text.length)
    (hstart : start ≤ lo) (hne : ∀ p ∈ placed, p.2 ≠ []) :
    ((∀ c ∈ locate text index start (toResults placed), Delimits text c) ∧
      (childSpans counter text start (toResults placed)).map (fun s => (s.parentOffset.toNat, s.text)) = placed) ↔
      Findable text start placed := by
  induction placed generalizing lo start index with
  | nil => exact ⟨fun _ => trivial, fun _ => ⟨by simp [toResults, locate], rfl⟩⟩
  | cons p ps ih =>
    obtain ⟨pos, t⟩ := p
    rw [List.forall_mem_cons] at hne
    have hpos : start ≤ pos := hstart.trans hspans.1
    have hlen : start ≤ text.length := hpos.trans ((Nat.le_add_right _ _).trans hspans.2.le)
    have hempty : ¬ (result t).text.isEmpty = true := by simpa [result] using hne.1
    have hnext : pos + 1 ≤ pos + t.length := Nat.add_le_add_left (List.length_pos_iff.mpr hne.1) pos
    have hspan : childSpans counter text start (toResults ((pos, t) :: ps)) =
        { text := t, parentOffset := UInt32.ofNat ((find text t start).getD start), tokenCount := counter t } ::
          childSpans counter text ((find text t start).getD start + 1) (toResults ps) := by
      rw [toResults, List.map_cons, childSpans, if_neg hempty, if_pos hlen]
      rfl
    have hchunk : locate text index start (toResults ((pos, t) :: ps)) =
        { result t with
          chunkIndex := Int32.ofNat index
          startOffset := Int32.ofNat ((find text t start).getD start)
          endOffset := Int32.ofNat ((find text t start).getD start + t.length) } ::
          locate text (index + 1) ((find text t start).getD start + 1) (toResults ps) := rfl
    rw [hspan, hchunk, List.forall_mem_cons, List.map_cons, List.cons.injEq, Prod.mk.injEq]
    constructor
    · rintro ⟨⟨hdelimits, hchunks⟩, ⟨hplace, -⟩, hparents⟩
      obtain ⟨hstands, hbefore, hbound⟩ := (delimits_iff hne.1 hpos rfl rfl).mp ⟨hdelimits, hplace⟩
      rw [find_eq_some hne.1 hpos hstands hbefore, Option.getD_some] at hchunks hparents
      exact ⟨⟨hstands, hbefore, hbound⟩, (ih (index + 1) hspans.2 hnext hne.2).mp ⟨hchunks, hparents⟩⟩
    · rintro ⟨⟨hstands, hbefore, hbound⟩, hrest⟩
      have hfind := find_eq_some hne.1 hpos hstands hbefore
      obtain ⟨hdelimits, hplace⟩ := (delimits_iff (c := { result t with
        chunkIndex := Int32.ofNat index
        startOffset := Int32.ofNat ((find text t start).getD start)
        endOffset := Int32.ofNat ((find text t start).getD start + t.length) }) hne.1 hpos rfl rfl).mpr
          ⟨hstands, hbefore, hbound⟩
      obtain ⟨hchunks, hparents⟩ := (ih (index + 1) hspans.2 hnext hne.2).mpr hrest
      refine ⟨⟨hdelimits, ?_⟩, ⟨hplace, rfl⟩, ?_⟩
      · rwa [hfind, Option.getD_some]
      · rwa [hfind, Option.getD_some]

theorem locate_offsets (index : Nat) (hspans : Spans lo placed text.length) (hstart : start ≤ lo)
    (hne : ∀ p ∈ placed, p.2 ≠ []) (h : Findable text start placed) :
    (locate text index start (toResults placed)).map (fun c => (c.startOffset, c.endOffset)) =
      placed.map fun p => (Int32.ofNat p.1, Int32.ofNat (p.1 + p.2.length)) := by
  induction placed generalizing lo start index with
  | nil => rfl
  | cons p ps ih =>
    rw [List.forall_mem_cons] at hne
    have hfind := find_eq_some hne.1 (hstart.trans hspans.1) h.1.1 h.1.2.1
    have hnext : p.1 + 1 ≤ p.1 + p.2.length := Nat.add_le_add_left (List.length_pos_iff.mpr hne.1) p.1
    have hrest := ih (index + 1) hspans.2 hnext hne.2 h.2
    rw [toResults, List.map_cons, locate]
    dsimp only [result]
    rw [hfind, Option.getD_some, List.map_cons, List.map_cons]
    exact congrArg _ hrest

theorem findable_chain (hspans : Spans lo placed hi) (h : Findable text start placed) :
    placed.IsChain fun p q => Int32.ofNat (p.1 + p.2.length) ≤ Int32.ofNat q.1 := by
  induction placed generalizing lo start with
  | nil => exact List.IsChain.nil
  | cons p ps ih =>
    cases ps with
    | nil => exact List.IsChain.singleton p
    | cons q qs =>
      refine List.IsChain.cons_cons ?_ (ih hspans.2 h.2)
      have hbound := h.1.2.2
      have hbound' := h.2.1.2.2
      rw [Int32.le_iff_toInt_le, Int32.toInt_ofNat_of_lt hbound, Int32.toInt_ofNat_of_lt (by omega)]
      exact Int.ofNat_le.mpr hspans.2.1

theorem childSpans_texts (counter : Bytes → UInt32) (text : Bytes) (start : Nat) {raw raw' : List ChunkResult}
    (h : raw.map (fun c => c.text) = raw'.map fun c => c.text) :
    childSpans counter text start raw = childSpans counter text start raw' := by
  induction raw generalizing start raw' with
  | nil =>
    obtain rfl := List.map_eq_nil_iff.mp h.symm
    rfl
  | cons c raw ih =>
    cases raw' with
    | nil => simp at h
    | cons c' raw' =>
      rw [List.map_cons, List.map_cons, List.cons.injEq] at h
      rw [childSpans, childSpans, h.1]
      split
      · exact ih start h.2
      · dsimp only
        rw [ih _ h.2]

theorem located_of_findable (counter : Bytes → UInt32) (hspans : Spans 0 placed text.length)
    (hne : ∀ p ∈ placed, p.2 ≠ []) :
    Located text (locate text 0 0 (toResults placed)) (childSpans counter text 0 (toResults placed)) placed ↔
      Findable text 0 placed := by
  constructor
  · exact fun h => (located_run counter 0 hspans (le_refl 0) hne).mp ⟨h.delimits, h.parents⟩
  · intro h
    obtain ⟨hdelimits, hparents⟩ := (located_run counter 0 hspans (le_refl 0) hne).mpr h
    refine ⟨hdelimits, ?_, hparents⟩
    have hoffsets := locate_offsets 0 hspans (le_refl 0) hne h
    have hchain := findable_chain hspans h
    have hmap : (placed.map fun p => (Int32.ofNat p.1, Int32.ofNat (p.1 + p.2.length))).IsChain
        fun a b => a.2 ≤ b.1 := (List.isChain_map _).mpr hchain
    rw [← hoffsets] at hmap
    exact (List.isChain_map _).mp hmap

/-! ## The claims of both callers -/

def places (chunkSize : Int32) (cs : List Char) : Option (List Placed) :=
  splitPlaced chunkSize defaultSeparators (0, utf8 cs)

/-- The offsets of the chunks and of the children of a text are where they were taken. -/
def Locates (config : ChunkerConfig) (counter : Bytes → UInt32) (cs : List Char) (placed : List Placed) : Prop :=
  Located (utf8 cs) (chunks { chunkSize := config.childSize, chunkOverlap := 0 } (utf8 cs))
    (splitIntoChildren { config with childOverlap := 0 } counter (utf8 cs)) placed

/-- Without overlap the offsets are right exactly when every chunk is found where it was taken. -/
theorem located_iff (config : ChunkerConfig) (counter : Bytes → UInt32) (cs : List Char) (hsize : 2 ≤ config.childSize) :
    ∃ placed, places config.childSize cs = some placed ∧ (∀ p ∈ placed, Starts (utf8 cs) p) ∧
      (Locates config counter cs placed ↔ Findable (utf8 cs) 0 placed) := by
  obtain ⟨placed, hplaced⟩ := splitPlaced_isSome hsize (fun sep => keeps_separator) 0 cs
  rw [← defaultSeparators_eq] at hplaced
  have hspans := splitPlaced_spans config.childSize hplaced
  rw [Nat.zero_add] at hspans
  have hwhole : Stands (utf8 cs) 0 (utf8 cs) := List.prefix_rfl
  have hstarts := splitPlaced_taken config.childSize hwhole hplaced
  have hne : ∀ p ∈ placed, p.2 ≠ [] := by
    intro p hp hnil
    obtain ⟨front, hfront, hprefix, -⟩ := hstarts p hp
    rw [hnil] at hprefix
    exact hfront (List.prefix_nil.mp hprefix)
  have hchunks : chunks { chunkSize := config.childSize, chunkOverlap := 0 } (utf8 cs) =
      locate (utf8 cs) 0 0 (toResults placed) := chunks_eq (chunk_noOverlap (splitPlaced_erase config.childSize hplaced))
  refine ⟨placed, hplaced, hstarts, ?_⟩
  have htexts := congrArg (List.map Prod.fst) (locate_texts (utf8 cs) 0 0 (toResults placed))
  rw [List.map_map, List.map_map] at htexts
  rw [Locates, splitIntoChildren]
  rw [hchunks, childSpans_texts counter (utf8 cs) 0 htexts]
  exact located_of_findable counter hspans hne

theorem located_iff_words : ∃ placed, places 2 "one two".toList = some placed ∧
    (∀ p ∈ placed, Starts (utf8 "one two".toList) p) ∧
    (Locates { childSize := 2 } estimateTokens "one two".toList placed ↔ Findable (utf8 "one two".toList) 0 placed) :=
  located_iff { childSize := 2 } estimateTokens _ (by decide)

/-- The second half of a repeated text is found one byte behind the start of the first. -/
theorem repeated_text_misplaced : places 2 (List.replicate 12 'a') =
      some [(0, List.replicate 6 0x61), (6, List.replicate 6 0x61)] ∧
    (chunks { chunkSize := 2, chunkOverlap := 0 } (utf8 (List.replicate 12 'a'))).map
      (fun c => (c.startOffset, c.endOffset)) = [(0, 6), (1, 7)] ∧
    ∀ placed, places 2 (List.replicate 12 'a') = some placed →
      ¬ Locates { childSize := 2 } estimateTokens (List.replicate 12 'a') placed := by
  have hplaces : places 2 (List.replicate 12 'a') =
      some [(0, List.replicate 6 0x61), (6, List.replicate 6 0x61)] := by decide +kernel
  refine ⟨hplaces, by decide +kernel, fun placed hplaced hlocates => ?_⟩
  obtain rfl := Option.some.inj (hplaces.symm.trans hplaced)
  exact absurd hlocates.parents (by decide +kernel)

end Cortrix.Spc.ChunkOffsets
