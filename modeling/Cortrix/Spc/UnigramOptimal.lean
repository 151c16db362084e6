import Cortrix.Lib.Utf8
import Cortrix.Spc.TokenCoverage
import Mathlib.Algebra.BigOperators.Group.List.Basic
import Mathlib.Data.List.Induction

/-!
# The best segmentation

Over well-formed text the Unigram mode chooses, among all segmentations into tokens and single characters, one with the
greatest score.

* `unigramEncode_optimal` : the pieces chosen are a best segmentation, each with its id, as long as the sizes fit.
-/

namespace Cortrix.Spc.HfTokenizer
open Lib Lib.Viterbi

structure Piece where
  text : Bytes
  score : Rat

variable (t : HfTokenizer Rat)

/-- A token of the vocabulary of at most 128 bytes, or a single character. -/
def IsPiece (p : Piece) : Prop :=
  p.text ≠ [] ∧ p.text.length ≤ 128 ∧ t.vocab_scores_ p.text = some p.score ∨
    ∃ c, p.text = String.utf8EncodeChar c ∧ p.score = -100

def chars (ps : List Piece) : Bytes := ps.flatMap Piece.text

def total (ps : List Piece) : Rat := (ps.map Piece.score).sum

structure Segmentation (s : Bytes) (ps : List Piece) : Prop where
  pieces : ∀ p ∈ ps, t.IsPiece p
  whole : chars ps = s

/-- The tokens are well-formed texts, and no score is below -10^6. -/
def Ordinary : Prop := ∀ tok w, t.vocab_scores_ tok = some w → (∃ cs, tok = utf8 cs) ∧ -10 ^ 6 ≤ w

/-! ## Bytes of characters -/

theorem Utf8CharLen_of_leads {b : UInt8} {n : Nat} (h : Leads b n) : Utf8CharLen b = n + 1 := by
  rw [leads_iff] at h
  simp only [Utf8CharLen, UInt8.lt_iff_toNat_lt, UInt8.reduceToNat]
  repeat' split
  all_goals omega

theorem Utf8CharLen_char (c : Char) (s : Bytes) :
    Utf8CharLen ((String.utf8EncodeChar c ++ s).getD 0 0) = (String.utf8EncodeChar c).length := by
  obtain ⟨b, rest, hc, hlead, _⟩ := utf8Char_shape c
  rw [hc, List.cons_append, List.getD_cons_zero, Utf8CharLen_of_leads hlead, List.length_cons]

theorem getD_append_length (s u : Bytes) : (s ++ u).getD s.length 0 = u.getD 0 0 := by
  rw [List.getD_eq_getElem?_getD, List.getElem?_append_right le_rfl, Nat.sub_self, List.getD_eq_getElem?_getD]

theorem substr_append (s u v : Bytes) : substr (s ++ (u ++ v)) s.length u.length = u := by
  rw [substr, List.drop_left, List.take_left]

theorem not_midCharacter (s : Bytes) (es : List Char) :
    ¬ midCharacter (s ++ utf8 es) (s ++ utf8 es).length s.length := by
  rintro ⟨hlt, hmid⟩
  cases es with
  | nil => exact absurd hlt (by simp [utf8_nil])
  | cons c es =>
    obtain ⟨b, rest, hc, hlead, _⟩ := utf8Char_shape c
    rw [getD_append_length, utf8_cons, hc, List.cons_append, List.getD_cons_zero, continues_iff] at hmid
    exact hlead.not_continues hmid

/-! ## Walks are segmentations -/

section
variable {t} (hvocab : t.Ordinary)
include hvocab

variable {p : Piece} {ps : List Piece} {cs : List Char}

theorem IsPiece.utf8 (h : t.IsPiece p) : ∃ cs, p.text = Lib.utf8 cs := by
  rcases h with ⟨_, _, hw⟩ | ⟨c, hc, _⟩
  · exact (hvocab _ _ hw).1
  · exact ⟨[c], by rw [hc, utf8_cons, utf8_nil, List.append_nil]⟩

omit hvocab in
theorem IsPiece.ne_nil (h : t.IsPiece p) : p.text ≠ [] := by
  rcases h with ⟨hne, _⟩ | ⟨c, hc, _⟩
  · exact hne
  · rw [hc]
    exact utf8Char_ne_nil c

theorem IsPiece.score_ge (h : t.IsPiece p) : -10 ^ 6 ≤ p.score := by
  rcases h with ⟨_, _, hw⟩ | ⟨c, _, hs⟩
  · exact (hvocab _ _ hw).2
  · rw [hs]
    norm_num

theorem chars_utf8 (h : ∀ p ∈ ps, t.IsPiece p) : ∃ cs, chars ps = Lib.utf8 cs := by
  induction ps with
  | nil => exact ⟨[], rfl⟩
  | cons p ps ih =>
    obtain ⟨hp, hps⟩ := List.forall_mem_cons.mp h
    obtain ⟨cs, hcs⟩ := hp.utf8 hvocab
    obtain ⟨ds, hds⟩ := ih hps
    exact ⟨cs ++ ds, by rw [chars, List.flatMap_cons, hcs, utf8_append, ← hds, chars]⟩

theorem edge_piece {ds es : List Char} {edge : Edge Rat (utf8 ds).length}
    (hmem : edge ∈ t.edgesAt exactScores (utf8 (ds ++ es)) (utf8 (ds ++ es)).length (utf8 ds).length) :
    ∃ p fs gs, es = fs ++ gs ∧ p.text = utf8 fs ∧ edge.stop = (utf8 ds).length + p.text.length ∧ t.IsPiece p ∧
      ∀ x, edge.apply x = x + p.score := by
  rw [utf8_append] at hmem
  rcases (t.mem_edgesAt exactScores).mp hmem with
    ⟨len, w, hpos, hle, hend, _, hw, hstop, happly⟩ | ⟨hend, hstop, happly⟩
  · obtain ⟨fs, hfs⟩ := (hvocab _ _ hw).1
    have htake : substr (utf8 ds ++ utf8 es) (utf8 ds).length len = (utf8 es).take len := by
      rw [substr, List.drop_left]
    have hlen : ((utf8 es).take len).length = len := by
      rw [List.length_append] at hend
      exact List.length_take_of_le (by omega)
    rw [htake] at hw hfs
    obtain ⟨gs, rfl, _⟩ := utf8_prefix (show utf8 es = utf8 fs ++ (utf8 es).drop len by
      rw [← hfs, List.take_append_drop])
    refine ⟨⟨(utf8 (fs ++ gs)).take len, w⟩, fs, gs, rfl, hfs, by rw [hstop, hlen], .inl ⟨?_, hlen.trans_le hle, hw⟩,
      fun x => by rw [happly]; rfl⟩
    intro hnil
    exact hpos.ne (hlen.symm.trans (congrArg List.length hnil)).symm
  · cases es with
    | nil =>
      rw [utf8_nil, List.append_nil] at hend
      have := Utf8CharLen_pos ((utf8 ds).getD (utf8 ds).length 0)
      omega
    | cons c gs =>
      refine ⟨⟨String.utf8EncodeChar c, -100⟩, [c], gs, rfl, ?_, ?_, .inr ⟨c, rfl, rfl⟩, fun x => by rw [happly]; rfl⟩
      · rw [utf8_cons, utf8_nil, List.append_nil]
      · rw [hstop, getD_append_length, utf8_cons, Utf8CharLen_char]

theorem walk_segmentation {segs : List (Nat × Nat)} {e : Nat} {x : Rat}
    (h : Walk (t.edgesAt exactScores (utf8 cs) (utf8 cs).length) exactScores.kNegInf exactScores.zero segs e x) :
    ∃ ps ds es, cs = ds ++ es ∧ e = (utf8 ds).length ∧ (∀ p ∈ ps, t.IsPiece p) ∧ total ps = x ∧
      ps.map Piece.text = segs.map fun seg => substr (utf8 cs) seg.1 (seg.2 - seg.1) := by
  induction h with
  | start => exact ⟨[], [], cs, rfl, rfl, by simp, rfl, rfl⟩
  | @step segs i x edge _ hmem _ ih =>
    obtain ⟨ps, ds, es, rfl, rfl, hps, htotal, htexts⟩ := ih
    obtain ⟨p, fs, gs, rfl, htext, hstop, hp, happly⟩ := edge_piece hvocab hmem
    refine ⟨ps ++ [p], ds ++ fs, gs, by rw [List.append_assoc], ?_, ?_, ?_, ?_⟩
    · rw [hstop, htext, utf8_append, List.length_append]
    · exact List.forall_mem_append.mpr ⟨hps, List.forall_mem_singleton.mpr hp⟩
    · rw [happly, ← htotal, total, total, List.map_append, List.sum_append, List.map_cons, List.map_nil,
        List.sum_singleton]
    · rw [List.map_append, List.map_append, htexts, List.map_cons, List.map_nil, List.map_cons, List.map_nil, hstop,
        Nat.add_sub_cancel_left, utf8_append, utf8_append, ← htext, substr_append]

/-! ## Segmentations are walks -/

theorem total_ge (h : ∀ p ∈ ps, t.IsPiece p) : -10 ^ 6 * ((chars ps).length : Rat) ≤ total ps := by
  induction ps with
  | nil => exact le_of_eq (by simp [chars, total])
  | cons p ps ih =>
    obtain ⟨hp, hps⟩ := List.forall_mem_cons.mp h
    have hscore := hp.score_ge hvocab
    have hrest := ih hps
    have hlen : (1 : Rat) ≤ p.text.length := Nat.one_le_cast.mpr (List.length_pos_iff.mpr hp.ne_nil)
    have hchars : ((chars (p :: ps)).length : Rat) = p.text.length + (chars ps).length := by
      rw [chars, List.flatMap_cons, List.length_append, Nat.cast_add, chars]
    have htotal : total (p :: ps) = p.score + total ps := by
      rw [total, List.map_cons, List.sum_cons, total]
    rw [hchars, htotal]
    linarith

omit hvocab in
theorem piece_edge (s : Bytes) (es : List Char) (hp : t.IsPiece p) :
    ∃ edge ∈ t.edgesAt exactScores (s ++ (p.text ++ utf8 es)) (s ++ (p.text ++ utf8 es)).length s.length,
      edge.stop = s.length + p.text.length ∧ edge.apply = (· + p.score) := by
  refine exists_edge (Nat.lt_add_of_pos_right (List.length_pos_iff.mpr hp.ne_nil)) (exactScores.add_mono p.score)
    fun edge hstop happly => (t.mem_edgesAt exactScores).mpr ?_
  have hend : s.length + p.text.length ≤ (s ++ (p.text ++ utf8 es)).length := by
    rw [List.length_append, List.length_append]
    omega
  rcases hp with ⟨hne, hle, hw⟩ | ⟨c, hc, hs⟩
  · refine .inl ⟨p.text.length, p.score, List.length_pos_iff.mpr hne, hle, hend, ?_, ?_, hstop, happly⟩
    · have h := not_midCharacter (s ++ p.text) es
      have hlen : (s ++ p.text).length = s.length + p.text.length := List.length_append
      rwa [List.append_assoc, hlen] at h
    · rwa [substr_append]
  · have hchar : Utf8CharLen ((s ++ (p.text ++ utf8 es)).getD s.length 0) = p.text.length := by
      rw [getD_append_length, hc, Utf8CharLen_char]
    refine .inr ⟨?_, ?_, ?_⟩
    · rwa [hchar]
    · rwa [hchar]
    · rw [happly, hs]
      rfl

theorem segmentation_walk (hsize : (utf8 cs).length < 2 ^ 31) (h : ∀ p ∈ ps, t.IsPiece p) (rest : Bytes)
    (hcs : utf8 cs = chars ps ++ rest) :
    ∃ segs, Walk (t.edgesAt exactScores (utf8 cs) (utf8 cs).length) exactScores.kNegInf exactScores.zero segs
      (chars ps).length (total ps) := by
  induction ps using List.reverseRecOn generalizing rest with
  | nil => exact ⟨[], .start⟩
  | append_singleton ps p ih =>
    obtain ⟨hps, hp⟩ := List.forall_mem_append.mp h
    have hchars : chars (ps ++ [p]) = chars ps ++ p.text := by
      rw [chars, List.flatMap_append, List.flatMap_singleton, chars]
    have htotal : total (ps ++ [p]) = total ps + p.score := by
      rw [total, List.map_append, List.sum_append, List.map_cons, List.map_nil, List.sum_singleton, total]
    have hlow : exactScores.kNegInf < total (ps ++ [p]) := by
      have hge := total_ge hvocab h
      have hlen : (chars (ps ++ [p])).length ≤ (utf8 cs).length := by
        rw [hcs, List.length_append]
        exact Nat.le_add_right _ _
      have hbound : ((chars (ps ++ [p])).length : Rat) ≤ 2 ^ 31 := by exact_mod_cast hlen.trans hsize.le
      have hkNegInf : exactScores.kNegInf = -10 ^ 30 := rfl
      rw [hkNegInf]
      linarith
    obtain ⟨ds, hds⟩ := chars_utf8 hvocab h
    obtain ⟨es, _, hes⟩ := utf8_prefix (hds ▸ hcs)
    rw [hchars, hes, List.append_assoc] at hcs
    obtain ⟨segs, hwalk⟩ := ih hps _ hcs
    obtain ⟨edge, hmem, hstop, happly⟩ := piece_edge (chars ps) es (hp p (by simp))
    rw [← hcs] at hmem
    have hscore : edge.apply (total ps) = total (ps ++ [p]) := by rw [happly, htotal]
    have hstep := hwalk.step hmem (by rwa [hscore])
    rw [hstop, hscore, ← List.length_append, ← hchars] at hstep
    exact ⟨_, hstep⟩

/-! ## The choice -/

omit hvocab in
theorem characters_segmentation (cs : List Char) :
    t.Segmentation (utf8 cs) (cs.map fun c => ⟨String.utf8EncodeChar c, -100⟩) where
  pieces p hp := by
    obtain ⟨c, _, rfl⟩ := List.mem_map.mp hp
    exact .inr ⟨c, rfl, rfl⟩
  whole := by
    rw [chars, List.flatMap_map]
    rfl

theorem whole_walk (hsize : (utf8 cs).length < 2 ^ 31) (h : t.Segmentation (utf8 cs) ps) :
    ∃ segs, Walk (t.edgesAt exactScores (utf8 cs) (utf8 cs).length)
      exactScores.kNegInf exactScores.zero segs (utf8 cs).length (total ps) := by
  have hwalk := segmentation_walk hvocab hsize h.pieces []
  rw [List.append_nil, h.whole] at hwalk
  exact hwalk rfl

/-- In front of the end of a well-formed text there is a character, which ends in it. -/
theorem inRange_utf8 (hsize : (utf8 cs).length < 2 ^ 31) : t.InRange exactScores (utf8 cs) := by
  intro i x hx hi
  obtain ⟨segs, hwalk⟩ := walk_iff_covers.mpr hx
  obtain ⟨-, ds, es, rfl, rfl, -⟩ := walk_segmentation hvocab hwalk
  cases es with
  | nil =>
    rw [List.append_nil] at hi
    exact absurd hi (Nat.lt_irrefl _)
  | cons c es =>
    rw [utf8_append, utf8_cons, List.length_append, List.length_append] at hsize
    rw [utf8_append, getD_append_length, utf8_cons, Utf8CharLen_char]
    omega

/-- Well-formed text is not lost. -/
theorem lossless_of_utf8 {text : Bytes} (htext : t.UnigramPreProcess text = utf8 cs)
    (hsize : (utf8 cs).length + 1 < 2 ^ 31) : t.UnigramLossless exactScores text := by
  rw [unigramLossless_iff, htext]
  obtain ⟨segs, hwalk⟩ := whole_walk hvocab (by omega) (characters_segmentation cs)
  exact ⟨hsize, inRange_utf8 hvocab (by omega), _, walk_iff_covers.mp ⟨segs, hwalk⟩⟩

theorem pieces_utf8 (hsize : (utf8 cs).length + 1 < 2 ^ 31) :
    t.UnigramPieces exactScores (utf8 cs) =
      some ((backtrack (forward (t.edgesAt exactScores (utf8 cs) (utf8 cs).length) exactScores.kNegInf exactScores.zero
        (utf8 cs).length) (utf8 cs).length).reverse.map fun seg => substr (utf8 cs) seg.1 (seg.2 - seg.1)) := by
  have hrange := (t.overruns_eq_false exactScores).mpr (inRange_utf8 hvocab (show (utf8 cs).length < 2 ^ 31 by omega))
  rw [t.UnigramPieces_of_lt exactScores hsize, hrange]
  rfl

end

/-- The pieces are a segmentation with the greatest score, and each has the id of the vocabulary or the unknown one. -/
def Optimal (cs : List Char) : Prop :=
  ∃ ps, t.Segmentation (utf8 cs) ps ∧ (∀ qs, t.Segmentation (utf8 cs) qs → total qs ≤ total ps) ∧
    t.UnigramPieces exactScores (utf8 cs) = some (ps.map Piece.text) ∧
    t.UnigramEncode exactScores (utf8 cs) = some (ps.map fun p => match t.vocab_ p.text with
      | some id => id
      | none => t.unk_id_)

theorem optimal_of_fits (hvocab : t.Ordinary) {cs : List Char} (hsize : (utf8 cs).length + 1 < 2 ^ 31) : t.Optimal cs := by
  have hlt : (utf8 cs).length < 2 ^ 31 := by omega
  obtain ⟨segs, hwalk⟩ := whole_walk hvocab hlt (characters_segmentation cs)
  have hreached := (reached_iff exactScores.low le_rfl).mpr ⟨segs, _, hwalk⟩
  have hchosen := forward_attained exactScores.low (utf8 cs).length hreached
  obtain ⟨ps, ds, es, _, _, hps, htotal, htexts⟩ := walk_segmentation hvocab hchosen
  have hpieces : t.UnigramPieces exactScores (utf8 cs) = some (ps.map Piece.text) := by
    rw [pieces_utf8 hvocab hsize, htexts]
  refine ⟨ps, ⟨hps, ?_⟩, fun qs hqs => ?_, hpieces, ?_⟩
  · rw [chars, List.flatMap_def, htexts, flatten_walk hchosen, List.take_length]
  · obtain ⟨segs', hwalk'⟩ := whole_walk hvocab hlt hqs
    rw [htotal]
    exact forward_best exactScores.low hwalk' le_rfl
  · rw [UnigramEncode, hpieces, Option.map_some, List.map_map]
    refine congrArg some (List.map_congr_left fun p _ => ?_)
    rw [Function.comp_apply, tokenId]
    cases t.vocab_ p.text <;> rfl

theorem fits_of_optimal {cs : List Char} (h : t.Optimal cs) : (utf8 cs).length + 1 < 2 ^ 31 := by
  obtain ⟨ps, hsegmentation, -, hpieces, -⟩ := h
  refine t.fits_of_pieces exactScores hpieces ?_
  rw [← List.flatMap_def]
  exact hsegmentation.whole

/-- **The Unigram mode segments best** exactly when one more than the size of the text fits an `int`. -/
theorem unigramEncode_optimal (t : HfTokenizer Rat) (hvocab : t.Ordinary) (cs : List Char) :
    t.Optimal cs ↔ (utf8 cs).length + 1 < 2 ^ 31 :=
  ⟨t.fits_of_optimal, t.optimal_of_fits hvocab⟩

def twoTokens : HfTokenizer Rat where
  vocab_ tok := if tok = [0x61] then some 5 else if tok = [0x61, 0x62] then some 6 else none
  vocab_scores_ tok := if tok = [0x61] then some (-1) else if tok = [0x61, 0x62] then some (-3 / 2) else none

theorem unigramEncode_optimal_twoTokens : twoTokens.Optimal ['a', 'b', 'c'] := by
  refine (unigramEncode_optimal twoTokens (fun tok w hw => ?_) ['a', 'b', 'c']).mpr (by decide +kernel)
  unfold twoTokens at hw
  dsimp only at hw
  split at hw
  · rename_i htok
    cases hw
    exact ⟨⟨['a'], htok⟩, by norm_num⟩
  · split at hw
    · rename_i htok
      cases hw
      exact ⟨⟨['a', 'b'], htok⟩, by norm_num⟩
    · exact absurd hw (by simp)

example : twoTokens.UnigramEncode exactScores (utf8 ['a', 'b', 'c']) = some [6, 3] := by decide +kernel

theorem length_utf8_replicate (n : Nat) : (utf8 (List.replicate n 'a')).length = n := by
  induction n with
  | zero => rfl
  | succ n ih =>
    rw [List.replicate_succ, utf8_cons, List.length_append, ih, Nat.add_comm]
    rfl

/-- A text of as many bytes as the largest `int` counts: the size of the vectors overflows. -/
theorem largest_text_not_encoded :
    ({} : HfTokenizer Rat).UnigramEncode exactScores (utf8 (List.replicate (2 ^ 31 - 1) 'a')) = none ∧
      ¬ ({} : HfTokenizer Rat).Optimal (List.replicate (2 ^ 31 - 1) 'a') := by
  have hlen := length_utf8_replicate (2 ^ 31 - 1)
  have hnone := ({} : HfTokenizer Rat).UnigramPieces_of_full exactScores (s := utf8 (List.replicate (2 ^ 31 - 1) 'a'))
    (by omega)
  refine ⟨by rw [UnigramEncode, hnone]; rfl, fun h => ?_⟩
  have hfits := ({} : HfTokenizer Rat).fits_of_optimal h
  omega

end Cortrix.Spc.HfTokenizer
