import Cortrix.Spc.HfTokenizer

/-!
# What tokenization leaves of a text

In BPE mode the tokens are the encoded text, cut up. In Unigram mode this holds when the end of the text can be reached;
a text that ends inside a character can have no way to its end, and then no token is left.

* `walk_iff_covers`, `flatten_walk` : the walks of the program are these choices, and they put the text together;
* `lossless_iff` : when no byte is lost.
-/

namespace Cortrix.Spc.HfTokenizer
open Lib Lib.Viterbi

/-! ## BPE -/

theorem flatten_Utf8Chars (s : Bytes) : (Utf8Chars s).flatten = s := by
  fun_induction Utf8Chars s with
  | case1 => rfl
  | case2 b s ih => rw [List.flatten_cons, ih, List.take_append_drop]

theorem nextWord_append_drop (t : Bytes) : nextWord t ++ t.drop (nextWord t).length = t := by
  obtain ⟨rest, hrest⟩ : nextWord t <+: t := by
    refine ⟨(t.dropWhile isSpace).dropWhile (!isSpace ·), ?_⟩
    rw [nextWord, List.append_assoc, List.takeWhile_append_dropWhile, List.takeWhile_append_dropWhile]
  rw [← congrArg (List.drop (nextWord t).length) hrest, List.drop_left, hrest]

theorem flatten_words (t : Bytes) : (words t).flatten = t := by
  fun_induction words t with
  | case1 => rfl
  | case2 c t ih => rw [List.flatten_cons, ih, nextWord_append_drop]

theorem ByteEncode_flatten (l : List Bytes) : (l.map ByteEncode).flatten = ByteEncode l.flatten := by
  induction l with
  | nil => rfl
  | cons w l ih => rw [List.map_cons, List.flatten_cons, ih, List.flatten_cons, ByteEncode, ByteEncode, ByteEncode,
      List.flatMap_append]

theorem flatten_BpePreTokenize (text : Bytes) : (BpePreTokenize text).flatten = ByteEncode (spacePrefixed text) := by
  rw [BpePreTokenize, ByteEncode_flatten, flatten_words]

theorem flatten_mergePass (pair : Bytes × Bytes) (chars : List Bytes) :
    (mergePass pair chars).flatten = chars.flatten := by
  fun_induction mergePass pair chars with
  | case1 => rfl
  | case2 => rfl
  | case3 a b chars h ih =>
    obtain ⟨rfl, rfl⟩ := h
    rw [List.flatten_cons, ih, List.flatten_cons, List.flatten_cons, List.append_assoc]
  | case4 a b chars _ ih =>
    rw [List.flatten_cons, ih]
    rfl

variable {σ : Type} (t : HfTokenizer σ)

theorem flatten_mergeLoop (chars : List Bytes) : (t.mergeLoop chars).flatten = chars.flatten := by
  fun_induction t.mergeLoop chars with
  | case1 => rfl
  | case2 => exact flatten_mergePass _ _
  | case3 chars pair _ _ ih => rw [ih, flatten_mergePass]

theorem flatten_BpeWord (word : Bytes) : (t.BpeWord word).flatten = word := by
  unfold BpeWord
  split
  · exact flatten_Utf8Chars word
  · rw [flatten_mergeLoop, flatten_Utf8Chars]

theorem bpe_flatten (text : Bytes) :
    ((BpePreTokenize text).flatMap t.BpeWord).flatten = ByteEncode (spacePrefixed text) := by
  rw [← flatten_BpePreTokenize]
  induction BpePreTokenize text with
  | nil => rfl
  | cons w l ih => rw [List.flatMap_cons, List.flatten_append, ih, flatten_BpeWord, List.flatten_cons]

/-! ## Unigram -/

variable [LinearOrder σ] (A : ScoreArith σ)

/-- The positions of `s` that a choice of pieces leads to, each of its scores above the least one: a token of the
vocabulary that ends on a boundary, or what the first byte says is a character. -/
inductive Covers (s : Bytes) : Nat → σ → Prop
  | start : Covers s 0 A.zero
  | token {i len : Nat} {x w : σ} : Covers s i x → 0 < len → len ≤ 128 → i + len ≤ s.length →
      ¬ midCharacter s s.length (i + len) → t.vocab_scores_ (substr s i len) = some w →
      A.kNegInf < A.add x w → Covers s (i + len) (A.add x w)
  | character {i : Nat} {x : σ} : Covers s i x → i + Utf8CharLen (s.getD i 0) ≤ s.length →
      A.kNegInf < A.add x A.unk → Covers s (i + Utf8CharLen (s.getD i 0)) (A.add x A.unk)

theorem mem_edgesAt {s : Bytes} {n i : Nat} {edge : Edge σ i} : edge ∈ t.edgesAt A s n i ↔
    (∃ len w, 0 < len ∧ len ≤ 128 ∧ i + len ≤ n ∧ ¬ midCharacter s n (i + len) ∧
      t.vocab_scores_ (substr s i len) = some w ∧ edge.stop = i + len ∧ edge.apply = (A.add · w)) ∨
    i + Utf8CharLen (s.getD i 0) ≤ n ∧ edge.stop = i + Utf8CharLen (s.getD i 0) ∧ edge.apply = (A.add · A.unk) := by
  unfold edgesAt
  rw [List.mem_append, List.mem_filterMap]
  refine or_congr ?_ ?_
  · constructor
    · rintro ⟨k, hk, hedge⟩
      obtain ⟨w, hw, rfl⟩ := Option.map_eq_some_iff.mp hedge
      have hk' : k < n - i ∧ k < 128 := Nat.lt_min.mp (List.mem_range.mp hk)
      unfold tokenScore at hw
      split at hw
      · exact absurd hw (by simp)
      · rename_i hmid
        exact ⟨k + 1, w, Nat.succ_pos k, hk'.2, by omega, hmid, hw, rfl, rfl⟩
    · rintro ⟨len, w, hpos, hle, hend, hmid, hw, hstop, happly⟩
      obtain ⟨stop, lt, apply, mono⟩ := edge
      obtain rfl : stop = i + len := hstop
      obtain rfl : apply = (A.add · w) := happly
      obtain ⟨k, rfl⟩ : ∃ k, len = k + 1 := ⟨len - 1, by omega⟩
      refine ⟨k, List.mem_range.mpr (Nat.lt_min.mpr ⟨by omega, hle⟩), ?_⟩
      rw [tokenScore, if_neg hmid, hw]
      rfl
  · split
    · rename_i hend
      rw [List.mem_singleton]
      constructor
      · rintro rfl
        exact ⟨hend, rfl, rfl⟩
      · rintro ⟨_, hstop, happly⟩
        obtain ⟨stop, lt, apply, mono⟩ := edge
        obtain rfl : stop = i + Utf8CharLen (s.getD i 0) := hstop
        obtain rfl : apply = (A.add · A.unk) := happly
        rfl
    · rename_i hend
      exact ⟨fun h => absurd h (by simp), fun h => absurd h.1 hend⟩

variable {t A}

theorem exists_edge {i e : Nat} {f : σ → σ} {l : List (Edge σ i)} (hlt : i < e) (hmono : Monotone f)
    (h : ∀ edge : Edge σ i, edge.stop = e → edge.apply = f → edge ∈ l) :
    ∃ edge ∈ l, edge.stop = e ∧ edge.apply = f :=
  ⟨⟨e, hlt, f, hmono⟩, h _ rfl rfl, rfl, rfl⟩

theorem exists_walk_step {s : Bytes} {i stop : Nat} {x w : σ} (hlt : i < stop)
    (hedge : ∀ edge : Edge σ i, edge.stop = stop → edge.apply = (A.add · w) → edge ∈ t.edgesAt A s s.length i)
    (hlow : A.kNegInf < A.add x w) (h : ∃ segs, Walk (t.edgesAt A s s.length) A.kNegInf A.zero segs i x) :
    ∃ segs, Walk (t.edgesAt A s s.length) A.kNegInf A.zero segs stop (A.add x w) := by
  obtain ⟨segs, hwalk⟩ := h
  obtain ⟨edge, hmem, hstop, happly⟩ := exists_edge hlt (A.add_mono w) hedge
  have hstep := hwalk.step hmem (by rwa [happly])
  rw [hstop, happly] at hstep
  exact ⟨_, hstep⟩

theorem walk_iff_covers {s : Bytes} {e : Nat} {x : σ} :
    (∃ segs, Walk (t.edgesAt A s s.length) A.kNegInf A.zero segs e x) ↔ t.Covers A s e x := by
  constructor
  · rintro ⟨segs, h⟩
    induction h with
    | start => exact .start
    | @step segs i x edge _ hmem hlow ih =>
      rcases (t.mem_edgesAt A).mp hmem with ⟨len, w, hpos, hle, hend, hmid, hw, hstop, happly⟩ | ⟨hend, hstop, happly⟩
      · rw [happly] at hlow
        rw [hstop, happly]
        exact .token ih hpos hle hend hmid hw hlow
      · rw [happly] at hlow
        rw [hstop, happly]
        exact .character ih hend hlow
  · intro h
    induction h with
    | start => exact ⟨[], .start⟩
    | @token i len x w _ hpos hle hend hmid hw hlow ih =>
      refine exists_walk_step (Nat.lt_add_of_pos_right hpos) (fun edge hstop happly => ?_) hlow ih
      exact (t.mem_edgesAt A).mpr (.inl ⟨len, w, hpos, hle, hend, hmid, hw, hstop, happly⟩)
    | @character i x _ hend hlow ih =>
      refine exists_walk_step (Nat.lt_add_of_pos_right (Utf8CharLen_pos _)) (fun edge hstop happly => ?_) hlow ih
      exact (t.mem_edgesAt A).mpr (.inr ⟨hend, hstop, happly⟩)

theorem flatten_walk {edges : (i : Nat) → List (Edge σ i)} {bot zero : σ} {s : Bytes} {segs : List (Nat × Nat)}
    {e : Nat} {x : σ} (h : Walk edges bot zero segs e x) :
    (segs.map fun seg => substr s seg.1 (seg.2 - seg.1)).flatten = s.take e := by
  induction h with
  | start => rfl
  | @step segs i x edge _ _ _ ih =>
    rw [List.map_append, List.flatten_append, ih, List.map_cons, List.map_nil, List.flatten_singleton, substr,
      ← List.take_add, Nat.add_sub_cancel' edge.lt.le]

/-! ## Nothing lost -/

variable (t A)

/-- The pieces of the Unigram mode put together are the processed text. -/
def UnigramLossless (text : Bytes) : Prop :=
  ∃ pieces, t.UnigramPieces A (t.UnigramPreProcess text) = some pieces ∧ pieces.flatten = t.UnigramPreProcess text ∧
    t.UnigramEncode A (t.UnigramPreProcess text) = some (pieces.map t.tokenId)

/-- The tokens of the BPE mode put together are the encoded text. -/
def BpeLossless (text : Bytes) : Prop :=
  ((BpePreTokenize text).flatMap t.BpeWord).flatten = ByteEncode (spacePrefixed text)

/-- From no position in front of the end that a choice of pieces leads to does a character end behind the largest
`int`. -/
def InRange (s : Bytes) : Prop := ∀ i x, t.Covers A s i x → i < s.length → i + Utf8CharLen (s.getD i 0) < 2 ^ 31

theorem overruns_eq_false {s : Bytes} :
    overruns A s (forward (t.edgesAt A s s.length) A.kNegInf A.zero s.length) s.length = false ↔ t.InRange A s := by
  have hcovers : ∀ i, i < s.length → ((forward (t.edgesAt A s s.length) A.kNegInf A.zero s.length).score i ≠ A.kNegInf ↔
      ∃ x, t.Covers A s i x) := by
    intro i hi
    have hvisited : Visited (t.edgesAt A s s.length) A.kNegInf A.zero s.length _ := visited_forward A.low s.length
    have hfloor := hvisited.floor i
    constructor
    · intro hne
      obtain ⟨segs, x, hwalk⟩ := (reached_iff A.low hi.le).mp (lt_of_le_of_ne hfloor hne.symm)
      exact ⟨x, walk_iff_covers.mp ⟨segs, hwalk⟩⟩
    · rintro ⟨x, hx⟩
      obtain ⟨segs, hwalk⟩ := walk_iff_covers.mpr hx
      exact ((reached_iff A.low hi.le).mpr ⟨segs, x, hwalk⟩).ne'
  unfold overruns InRange
  rw [List.any_eq_false]
  constructor
  · intro h i x hx hi
    by_contra hge
    exact h i (List.mem_range.mpr hi) (decide_eq_true ⟨(hcovers i hi).mpr ⟨x, hx⟩, not_lt.mp hge⟩)
  · intro h i hi hover
    obtain ⟨hne, hge⟩ := of_decide_eq_true hover
    obtain ⟨x, hx⟩ := (hcovers i (List.mem_range.mp hi)).mp hne
    exact absurd (h i x hx (List.mem_range.mp hi)) (not_lt.mpr hge)

theorem UnigramPieces_of_lt {s : Bytes} (h : s.length + 1 < 2 ^ 31) : t.UnigramPieces A s =
    if overruns A s (forward (t.edgesAt A s s.length) A.kNegInf A.zero s.length) s.length then none
    else some ((backtrack (forward (t.edgesAt A s s.length) A.kNegInf A.zero s.length) s.length).reverse.map
      fun seg => substr s seg.1 (seg.2 - seg.1)) := by
  unfold UnigramPieces
  rw [toInt_of_fits (by omega) (by omega), toInt_of_fits (by omega) (by omega), if_neg (show ¬ (s.length : Int) + 1 ≤ 0 by omega),
    Int.toNat_natCast]
  split
  · rename_i h0
    have hlen : s.length = 0 := by exact_mod_cast h0
    rw [hlen, backtrack_zero]
    rfl
  · rfl

theorem UnigramPieces_of_full {s : Bytes} (h : s.length + 1 = 2 ^ 31) : t.UnigramPieces A s = none := by
  have hsum : toInt ((s.length : Int) + 1) ≤ 0 := by
    rw [show (s.length : Int) + 1 = 2 ^ 31 by omega]
    decide
  unfold UnigramPieces
  rw [toInt_of_fits (by omega) (by omega), if_neg (by omega), if_pos hsum]

/-- The pieces are never longer than what the `int` says of the size. -/
theorem length_UnigramPieces {s : Bytes} {pieces : List Bytes} (h : t.UnigramPieces A s = some pieces) :
    (pieces.flatten.length : Int) ≤ toInt s.length := by
  unfold UnigramPieces at h
  split at h
  · rename_i h0
    cases h
    exact h0.ge
  · split at h
    · cases h
    · rename_i hpositive
      have hn : ((toInt s.length).toNat : Int) = toInt s.length := by
        refine Int.toNat_of_nonneg ?_
        by_contra hneg
        have hlow := le_toInt (s.length : Int)
        rw [toInt_of_fits (n := toInt s.length + 1) (by omega) (by omega)] at hpositive
        omega
      generalize (toInt s.length).toNat = n at hn h
      dsimp only at h
      split at h
      · cases h
      · cases h
        rw [← hn, Nat.cast_le]
        by_cases hreached : A.kNegInf < (forward (t.edgesAt A s n) A.kNegInf A.zero n).score n
        · rw [flatten_walk (forward_attained A.low n hreached)]
          exact List.length_take_le n s
        · rcases Nat.eq_zero_or_pos n with rfl | hpos
          · rw [backtrack_zero]
            exact le_rfl
          · rw [backtrack_of_unreached A.low hpos hreached]
            exact Nat.zero_le n

theorem fits_of_pieces {s : Bytes} {pieces : List Bytes} (h : t.UnigramPieces A s = some pieces)
    (hflat : pieces.flatten = s) : s.length + 1 < 2 ^ 31 := by
  have hlt : s.length < 2 ^ 31 := by
    by_contra hge
    have hlen := t.length_UnigramPieces A h
    rw [hflat] at hlen
    exact absurd hlen (not_le.mpr (toInt_lt (by omega)))
  by_contra hge
  rw [t.UnigramPieces_of_full A (by omega)] at h
  cases h

theorem unigramLossless_iff (text : Bytes) :
    t.UnigramLossless A text ↔ (t.UnigramPreProcess text).length + 1 < 2 ^ 31 ∧ t.InRange A (t.UnigramPreProcess text) ∧
      ∃ x, t.Covers A (t.UnigramPreProcess text) (t.UnigramPreProcess text).length x := by
  unfold UnigramLossless
  generalize t.UnigramPreProcess text = s
  constructor
  · rintro ⟨pieces, hpieces, hflat, _⟩
    have hlt := t.fits_of_pieces A hpieces hflat
    rw [t.UnigramPieces_of_lt A hlt] at hpieces
    split at hpieces
    · cases hpieces
    · rename_i hover
      refine ⟨hlt, (t.overruns_eq_false A).mp (Bool.eq_false_iff.mpr hover), ?_⟩
      by_contra hnone
      push Not at hnone
      have hunreached : ¬ A.kNegInf < (forward (t.edgesAt A s s.length) A.kNegInf A.zero s.length).score s.length :=
        fun h => by
          obtain ⟨segs, x, hwalk⟩ := (reached_iff A.low le_rfl).mp h
          exact hnone x (walk_iff_covers.mp ⟨segs, hwalk⟩)
      have hpos : 0 < s.length := by
        refine Nat.pos_of_ne_zero fun h0 => ?_
        rw [h0] at hnone
        exact hnone A.zero .start
      rw [backtrack_of_unreached A.low hpos hunreached] at hpieces
      cases hpieces
      rw [← hflat] at hpos
      exact absurd hpos (by simp)
  · rintro ⟨hlt, hrange, x, hx⟩
    obtain ⟨segs, hwalk⟩ := walk_iff_covers.mpr hx
    have hreached := (reached_iff A.low le_rfl).mpr ⟨segs, x, hwalk⟩
    have hpieces := t.UnigramPieces_of_lt A hlt
    rw [(t.overruns_eq_false A).mpr hrange] at hpieces
    refine ⟨_, hpieces, ?_, ?_⟩
    · rw [flatten_walk (forward_attained A.low _ hreached), List.take_length]
    · rw [UnigramEncode, hpieces]
      rfl

/-- No byte of a text is lost when one more than its size fits an `int`, no sum behind a position does not, and some
choice of pieces leads to its end. -/
theorem lossless_iff (text : Bytes) : t.UnigramLossless A text ∧ t.BpeLossless text ↔
    (t.UnigramPreProcess text).length + 1 < 2 ^ 31 ∧ t.InRange A (t.UnigramPreProcess text) ∧
      ∃ x, t.Covers A (t.UnigramPreProcess text) (t.UnigramPreProcess text).length x := by
  rw [unigramLossless_iff]
  exact and_iff_left (t.bpe_flatten text)

/-- The first byte of a character of two bytes, alone: the text has no tokens. -/
theorem cut_character_lost : (({} : HfTokenizer Rat).UnigramEncode exactScores
      (({} : HfTokenizer Rat).UnigramPreProcess [0xC3]) = some []) ∧
    ¬ (({} : HfTokenizer Rat).UnigramLossless exactScores [0xC3] ∧ ({} : HfTokenizer Rat).BpeLossless [0xC3]) := by
  have hpieces : ({} : HfTokenizer Rat).UnigramPieces exactScores (({} : HfTokenizer Rat).UnigramPreProcess [0xC3]) =
      some [] := by decide +kernel
  refine ⟨by rw [UnigramEncode, hpieces]; rfl, ?_⟩
  rintro ⟨⟨pieces, h, hflat, _⟩, _⟩
  rw [hpieces] at h
  cases h
  exact absurd hflat (by decide)

end Cortrix.Spc.HfTokenizer
