import Cortrix.Common.Ints
import Cortrix.Lib.Bytes
import Cortrix.Lib.Viterbi

/-!
# The tokenizer

A text is cut into tokens in one of two modes. BPE cuts it into words, encodes their bytes as characters and merges
adjacent pieces by rank; Unigram replaces the spaces and looks for the segmentation with the best score.

* `ScoreArith` : what the program does with scores. The sum of two floats is rounded, and rounding is monotone.
-/

namespace Cortrix.Spc
open Lib Lib.Viterbi

structure ScoreArith (σ : Type) [LinearOrder σ] where
  zero : σ
  kNegInf : σ
  /-- The penalty of an unknown character. -/
  unk : σ
  add : σ → σ → σ
  add_mono : ∀ w, Monotone (add · w)
  low : kNegInf < zero

def exactScores : ScoreArith Rat where
  zero := 0
  kNegInf := -10 ^ 30
  unk := -100
  add := (· + ·)
  add_mono w := fun _ _ h => Rat.add_le_add_right.mpr h
  low := by norm_num

structure HfTokenizer (σ : Type) where
  vocab_ : Bytes → Option Int := fun _ => none
  vocab_scores_ : Bytes → Option σ := fun _ => none
  merge_ranks_ : Bytes × Bytes → Option Int := fun _ => none
  unk_id_ : Int := 3
  /-- U+2581. -/
  replacement_ : Bytes := [0xe2, 0x96, 0x81]
  add_prefix_space_ : Bool := true

namespace HfTokenizer

/-! ## Characters -/

def Char32ToUtf8 (cp : Nat) : Bytes :=
  if cp < 0x80 then [UInt8.ofNat cp]
  else if cp < 0x800 then [UInt8.ofNat (0xC0 + cp / 64), UInt8.ofNat (0x80 + cp % 64)]
  else if cp < 0x10000 then
    [UInt8.ofNat (0xE0 + cp / 4096), UInt8.ofNat (0x80 + cp / 64 % 64), UInt8.ofNat (0x80 + cp % 64)]
  else
    [UInt8.ofNat (0xF0 + cp / 262144), UInt8.ofNat (0x80 + cp / 4096 % 64), UInt8.ofNat (0x80 + cp / 64 % 64),
      UInt8.ofNat (0x80 + cp % 64)]

/-- The length of a character with this first byte. A byte in the middle of a character counts alone. -/
def Utf8CharLen (first_byte : UInt8) : Nat :=
  if first_byte < 0x80 then 1
  else if first_byte < 0xC0 then 1
  else if first_byte < 0xE0 then 2
  else if first_byte < 0xF0 then 3
  else 4

theorem Utf8CharLen_pos (b : UInt8) : 0 < Utf8CharLen b := by
  unfold Utf8CharLen
  repeat' split
  all_goals decide

/-- A character that the string cuts off leaves its first byte alone. -/
def charSize (b : UInt8) (s : Bytes) : Nat := if s.length < Utf8CharLen b then 1 else Utf8CharLen b

theorem charSize_pos (b : UInt8) (s : Bytes) : 0 < charSize b s := by
  unfold charSize
  split
  · exact Nat.one_pos
  · exact Utf8CharLen_pos b

def Utf8Chars : Bytes → List Bytes
  | [] => []
  | b :: s => (b :: s).take (charSize b (b :: s)) :: Utf8Chars ((b :: s).drop (charSize b (b :: s)))
termination_by s => s.length
decreasing_by
  have := charSize_pos b (b :: s)
  rw [List.length_drop, List.length_cons]
  omega

/-! ## BPE -/

/-- The codes of the bytes: those that stand for themselves come first, the others are numbered from 256. -/
def InitByteEncoder : List (Nat × Nat) :=
  let bs := List.range' 33 94 ++ List.range' 161 12 ++ List.range' 174 82
  let others := (List.range 256).filter (· ∉ bs)
  bs.zip bs ++ others.zip (List.range' 256 others.length)

def byte_encoder_ (c : UInt8) : Bytes := ((InitByteEncoder.lookup c.toNat).map Char32ToUtf8).getD []

def ByteEncode (text : Bytes) : Bytes := text.flatMap byte_encoder_

def isSpace (c : UInt8) : Bool := c = 0x20 || c = 0x09 || c = 0x0a || c = 0x0d

def spacePrefixed : Bytes → Bytes
  | [] => []
  | c :: text => if c ≠ 0x20 then 0x20 :: c :: text else c :: text

/-- Spaces, then bytes up to the next space. -/
def nextWord (t : Bytes) : Bytes := t.takeWhile isSpace ++ (t.dropWhile isSpace).takeWhile (!isSpace ·)

theorem nextWord_pos (c : UInt8) (t : Bytes) : 0 < (nextWord (c :: t)).length := by
  unfold nextWord
  cases hc : isSpace c
  · simp [hc]
  · simp [hc]

def words : Bytes → List Bytes
  | [] => []
  | c :: t => nextWord (c :: t) :: words ((c :: t).drop (nextWord (c :: t)).length)
termination_by t => t.length
decreasing_by
  have := nextWord_pos c t
  rw [List.length_drop, List.length_cons]
  omega

def BpePreTokenize (text : Bytes) : List Bytes := (words (spacePrefixed text)).map ByteEncode

variable {σ : Type} (t : HfTokenizer σ)

/-- `best_rank` and the pair found, behind the next pair. -/
def better (best : Int × Option (Bytes × Bytes)) (pair : Bytes × Bytes) : Int × Option (Bytes × Bytes) :=
  match t.merge_ranks_ pair with
  | some rank => if rank < best.1 then (rank, some pair) else best
  | none => best

/-- The adjacent pair with the lowest rank, the first of them. -/
def bestPair (chars : List Bytes) : Option (Bytes × Bytes) :=
  ((chars.zip chars.tail).foldl t.better (2147483647, none)).2

/-- All occurrences of a pair merged, from the left. -/
def mergePass (pair : Bytes × Bytes) : List Bytes → List Bytes
  | [] => []
  | [a] => [a]
  | a :: b :: chars =>
    if a = pair.1 ∧ b = pair.2 then (pair.1 ++ pair.2) :: mergePass pair chars
    else a :: mergePass pair (b :: chars)

theorem length_mergePass_le (pair : Bytes × Bytes) (chars : List Bytes) :
    (mergePass pair chars).length ≤ chars.length := by
  fun_induction mergePass pair chars with
  | case1 => exact le_rfl
  | case2 => exact le_rfl
  | case3 a b chars _ ih => simp only [List.length_cons]; omega
  | case4 a b chars _ ih => simpa using ih

theorem length_mergePass_lt {pair : Bytes × Bytes} {chars : List Bytes} (h : pair ∈ chars.zip chars.tail) :
    (mergePass pair chars).length < chars.length := by
  fun_induction mergePass pair chars with
  | case1 => simp at h
  | case2 => simp at h
  | case3 a b chars _ ih =>
    have := length_mergePass_le pair chars
    simp only [List.length_cons]
    omega
  | case4 a b chars hne ih =>
    rw [List.tail_cons, List.zip_cons_cons, List.mem_cons] at h
    rcases h with rfl | h
    · exact absurd ⟨rfl, rfl⟩ hne
    · rw [List.length_cons, List.length_cons]
      exact Nat.succ_lt_succ (ih h)

theorem better_snd {best : Int × Option (Bytes × Bytes)} {p pair : Bytes × Bytes}
    (h : (t.better best p).2 = some pair) : best.2 = some pair ∨ pair = p := by
  unfold better at h
  split at h
  · split at h
    · exact .inr (Option.some.inj h).symm
    · exact .inl h
  · exact .inl h

theorem foldl_better_snd {l : List (Bytes × Bytes)} {best : Int × Option (Bytes × Bytes)} {pair : Bytes × Bytes}
    (h : (l.foldl t.better best).2 = some pair) : best.2 = some pair ∨ pair ∈ l := by
  induction l generalizing best with
  | nil => exact .inl h
  | cons p l ih =>
    rcases ih h with hbest | hmem
    · exact (t.better_snd hbest).imp_right fun heq => List.mem_cons.mpr (.inl heq)
    · exact .inr (List.mem_cons_of_mem p hmem)

theorem bestPair_mem {chars : List Bytes} {pair : Bytes × Bytes} (h : t.bestPair chars = some pair) :
    pair ∈ chars.zip chars.tail :=
  (t.foldl_better_snd h).resolve_left (by simp)

/-- A merge shortens the list, so the loop ends. -/
def mergeLoop (chars : List Bytes) : List Bytes :=
  match _hpair : t.bestPair chars with
  | none => chars
  | some pair => if (mergePass pair chars).length ≤ 1 then mergePass pair chars else mergeLoop (mergePass pair chars)
termination_by chars.length
decreasing_by exact length_mergePass_lt (t.bestPair_mem _hpair)

def BpeWord (word : Bytes) : List Bytes :=
  if (Utf8Chars word).length ≤ 1 then Utf8Chars word else t.mergeLoop (Utf8Chars word)

/-! ## Unigram -/

def UnigramPreProcess (text : Bytes) : Bytes :=
  (if t.add_prefix_space_ then t.replacement_ else []) ++ text.flatMap fun c => if c = 0x20 then t.replacement_ else [c]

/-- The byte at `e` goes on with a character. The end of the string is always a boundary. -/
def midCharacter (s : Bytes) (n e : Nat) : Prop := e < n ∧ s.getD e 0 &&& 0xC0 = 0x80

instance (s : Bytes) (n e : Nat) : Decidable (midCharacter s n e) := inferInstanceAs (Decidable (_ ∧ _))

def substr (s : Bytes) (i len : Nat) : Bytes := (s.drop i).take len

/-- The score of the token of `len` bytes at `i`, if it may be taken. -/
def tokenScore (s : Bytes) (n i len : Nat) : Option σ :=
  if midCharacter s n (i + len) then none else t.vocab_scores_ (substr s i len)

variable [LinearOrder σ] (A : ScoreArith σ)

/-- The tokens that are tried from `i`, and the character at `i` as an unknown one. -/
def edgesAt (s : Bytes) (n i : Nat) : List (Edge σ i) :=
  (List.range (Nat.min (n - i) 128)).filterMap (fun k =>
    (t.tokenScore s n i (k + 1)).map fun w => ⟨i + (k + 1), by omega, (A.add · w), A.add_mono w⟩) ++
  if i + Utf8CharLen (s.getD i 0) ≤ n then
    [⟨i + Utf8CharLen (s.getD i 0), Nat.lt_add_of_pos_right (Utf8CharLen_pos _), (A.add · A.unk), A.add_mono A.unk⟩]
  else []

/-- From a reached position the end of the character is no `int` any more. -/
def overruns (s : Bytes) (cells : Cells σ) (n : Nat) : Bool :=
  (List.range n).any fun i => decide (cells.score i ≠ A.kNegInf ∧ 2 ^ 31 ≤ i + Utf8CharLen (s.getD i 0))

/-- The pieces of the backtrack. There is no result where `n + 1` is no size of a vector with a first entry, or where
`i + char_len` overflows. -/
def UnigramPieces (processed : Bytes) : Option (List Bytes) :=
  if toInt processed.length = 0 then some []
  else if toInt (toInt processed.length + 1) ≤ 0 then none
  else
    let n := (toInt processed.length).toNat
    let cells := forward (t.edgesAt A processed n) A.kNegInf A.zero n
    if overruns A processed cells n then none
    else some ((backtrack cells n).reverse.map fun seg => substr processed seg.1 (seg.2 - seg.1))

def tokenId (tok : Bytes) : Int := (t.vocab_ tok).getD t.unk_id_

def UnigramEncode (processed : Bytes) : Option (List Int) := (t.UnigramPieces A processed).map fun tokens =>
  tokens.map t.tokenId

end HfTokenizer

end Cortrix.Spc
