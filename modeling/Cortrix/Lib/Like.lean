import Cortrix.Lib.Bytes
import Mathlib.Data.List.Infix

/-!
# `LIKE` with an escape character

SQLite compares a pattern and a text character by character: `%` stands for any characters, `_` for one, the escape
character makes the next one stand for itself, and the letters of ASCII match in either case.

* `like esc pattern s`, `likeText esc pattern s` on texts;
* `escape esc s` : a pattern for `s` itself; `likeText_escape_prefix` : with a `%` behind it, it matches the texts that
  start like `s` up to the case of ASCII letters.
-/

namespace Lib.Like

def percent : UInt8 := 0x25
def underscore : UInt8 := 0x5F

/-! ## Characters -/

/-- What the first byte of a longer character contributes. -/
def leadBits (b : UInt8) : Nat :=
  if b < 0xE0 then b.toNat - 0xC0
  else if b < 0xF0 then b.toNat - 0xE0
  else if b < 0xF8 then b.toNat - 0xF0
  else if b < 0xFC then b.toNat - 0xF8
  else if b < 0xFE then b.toNat - 0xFC
  else 0

def isContinuation (b : UInt8) : Bool := decide (0x80 ≤ b ∧ b < 0xC0)

/-- An overlong spelling, a surrogate or a noncharacter reads as U+FFFD. -/
def finish (c : Nat) : Nat := if c < 0x80 ∨ c / 2048 = 27 ∨ c / 2 = 0x7FFF then 0xFFFD else c

/-- The characters of a text; `pending` is what a longer character has spelt so far. -/
def chars : Option Nat → Bytes → List Nat
  | none, [] => []
  | some c, [] => [finish c]
  | none, b :: bs => if 0xC0 ≤ b then chars (some (leadBits b)) bs else b.toNat :: chars none bs
  | some c, b :: bs =>
    if isContinuation b then chars (some ((c * 64 + b.toNat % 64) % 2 ^ 32)) bs
    else if 0xC0 ≤ b then finish c :: chars (some (leadBits b)) bs
    else finish c :: b.toNat :: chars none bs

def lower (c : Nat) : Nat := if 0x41 ≤ c ∧ c ≤ 0x5A then c + 0x20 else c

def same (c d : Nat) : Bool := decide (lower c = lower d)

/-! ## Matching -/

/-- The first character passes, and the rest matches. -/
def firstThen (ok : Nat → Bool) (rest : List Nat → Bool) : List Nat → Bool
  | x :: s => ok x && rest s
  | [] => false

def like (esc : Nat) : List Nat → List Nat → Bool
  | [], s => s.isEmpty
  | c :: p, s =>
    if c = percent.toNat then s.tails.any (like esc p)
    else if c = esc then
      match p with
      | d :: p => firstThen (same d) (like esc p) s
      | [] => false
    else firstThen (fun x => same c x || decide (c = underscore.toNat)) (like esc p) s

/-- A text ends at its first NUL. -/
def cut (s : Bytes) : Bytes := s.takeWhile (· ≠ 0)

def likeText (esc : UInt8) (pattern s : Bytes) : Bool := like esc.toNat (chars none (cut pattern)) (chars none (cut s))

/-! ## Escaped patterns -/

variable (esc : UInt8)

def special (b : UInt8) : Bool := b == percent || b == underscore || b == esc

def escape (s : Bytes) : Bytes := s.flatMap fun b => if special esc b then [esc, b] else [b]

def escapeChars (s : List Nat) : List Nat :=
  s.flatMap fun c => if c = percent.toNat ∨ c = underscore.toNat ∨ c = esc.toNat then [esc.toNat, c] else [c]

variable {esc}

theorem le_finish (c : Nat) : 0x80 ≤ finish c := by
  unfold finish
  split <;> omega

/-- An ASCII byte ends a character that was being spelt. -/
theorem chars_ascii (pending : Option Nat) {b : UInt8} (hb : b < 0x80) (bs : Bytes) :
    chars pending (b :: bs) = chars pending [] ++ b.toNat :: chars none bs := by
  have hlead : ¬ 0xC0 ≤ b := by
    rw [UInt8.le_iff_toNat_le]
    rw [UInt8.lt_iff_toNat_lt] at hb
    simp at hb ⊢
    omega
  have hcont : isContinuation b = false := by
    simp only [isContinuation, decide_eq_false_iff_not, not_and]
    intro hge
    rw [UInt8.le_iff_toNat_le] at hge
    rw [UInt8.lt_iff_toNat_lt] at hb
    omega
  cases pending <;> simp [chars, hlead, hcont]

theorem escapeChars_cons (c : Nat) (s : List Nat) : escapeChars esc (c :: s) =
    (if c = percent.toNat ∨ c = underscore.toNat ∨ c = esc.toNat then [esc.toNat, c] else [c]) ++ escapeChars esc s :=
  List.flatMap_cons

theorem escapeChars_append (s t : List Nat) : escapeChars esc (s ++ t) = escapeChars esc s ++ escapeChars esc t :=
  List.flatMap_append

theorem special_ascii (hesc : esc < 0x80) {b : UInt8} (h : special esc b = true) : b < 0x80 := by
  simp only [special, Bool.or_eq_true, beq_iff_eq] at h
  rcases h with (rfl | rfl) | rfl
  · decide
  · decide
  · exact hesc

theorem special_iff (b : UInt8) :
    special esc b = true ↔ b.toNat = percent.toNat ∨ b.toNat = underscore.toNat ∨ b.toNat = esc.toNat := by
  simp only [special, Bool.or_eq_true, beq_iff_eq, UInt8.toNat_inj, or_assoc]

theorem escapeChars_plain {c : Nat} (h : ¬ (c = percent.toNat ∨ c = underscore.toNat ∨ c = esc.toNat))
    (s : List Nat) : escapeChars esc (c :: s) = c :: escapeChars esc s := by
  rw [escapeChars_cons, if_neg h, List.singleton_append]

theorem escapeChars_finish (hesc : esc < 0x80) (c : Nat) (s : List Nat) :
    escapeChars esc (finish c :: s) = finish c :: escapeChars esc s := by
  refine escapeChars_plain ?_ s
  have hlarge := le_finish c
  have hpercent : percent.toNat < 0x80 := by decide
  have hunderscore : underscore.toNat < 0x80 := by decide
  have hsmall : esc.toNat < 0x80 := UInt8.lt_iff_toNat_lt.mp hesc
  omega

theorem escapeChars_pending (hesc : esc < 0x80) (pending : Option Nat) :
    escapeChars esc (chars pending []) = chars pending [] := by
  cases pending with
  | none => rfl
  | some c =>
    rw [chars, escapeChars_finish hesc]
    rfl

/-- Reading an escaped text gives the escaped characters, whatever ASCII character follows. -/
theorem chars_escape (hesc : esc < 0x80) (pending : Option Nat) (s rest : Bytes)
    (hrest : ∀ pending, chars pending rest = chars pending [] ++ chars none rest) :
    chars pending (escape esc s ++ rest) = escapeChars esc (chars pending s) ++ chars none rest := by
  induction s generalizing pending with
  | nil =>
    rw [escapeChars_pending hesc, ← hrest]
    rfl
  | cons b s ih =>
    have hcons : escape esc (b :: s) ++ rest = (if special esc b then [esc, b] else [b]) ++ (escape esc s ++ rest) := by
      rw [escape, List.flatMap_cons, List.append_assoc]
      rfl
    rw [hcons]
    by_cases hspecial : special esc b = true
    · have hb := special_ascii hesc hspecial
      rw [if_pos hspecial]
      show chars pending (esc :: b :: (escape esc s ++ rest)) = _
      rw [chars_ascii pending hesc, chars_ascii none hb, ih, chars_ascii pending hb, escapeChars_append,
        escapeChars_pending hesc, escapeChars_cons, if_pos ((special_iff b).mp hspecial)]
      simp [chars]
    · rw [if_neg hspecial]
      have hplain : ¬ (b.toNat = percent.toNat ∨ b.toNat = underscore.toNat ∨ b.toNat = esc.toNat) :=
        fun h => hspecial ((special_iff b).mpr h)
      show chars pending (b :: (escape esc s ++ rest)) = _
      by_cases hlead : 0xC0 ≤ b
      · have hcont : isContinuation b = false := by
          simpa [isContinuation] using fun _ => hlead
        cases pending with
        | none => simp only [chars, hlead, if_true, ih]
        | some c =>
          simp only [chars, hcont, hlead, if_true, ih, Bool.false_eq_true, if_false, escapeChars_finish hesc,
            List.cons_append]
      · cases pending with
        | none => simp only [chars, hlead, if_false, ih, escapeChars_plain hplain, List.cons_append]
        | some c =>
          cases hcont : isContinuation b with
          | false =>
            simp only [chars, hcont, hlead, Bool.false_eq_true, if_false, ih, escapeChars_finish hesc,
              escapeChars_plain hplain, List.cons_append]
          | true => simp only [chars, hcont, if_true, ih]

/-! ## What an escaped pattern matches -/

/-- An escaped character matches itself, up to its case. -/
theorem like_escapeChars_cons (he : esc ≠ percent) (c : Nat) (cs p s : List Nat) :
    like esc.toNat (escapeChars esc (c :: cs) ++ p) s =
      firstThen (same c) (like esc.toNat (escapeChars esc cs ++ p)) s := by
  have hne : esc.toNat ≠ percent.toNat := fun h => he (UInt8.toNat_inj.mp h)
  by_cases hspecial : c = percent.toNat ∨ c = underscore.toNat ∨ c = esc.toNat
  · rw [escapeChars_cons, if_pos hspecial]
    show like esc.toNat (esc.toNat :: c :: (escapeChars esc cs ++ p)) s = _
    simp only [like, hne, if_false, if_true]
  · rw [escapeChars_plain hspecial, List.cons_append]
    rw [not_or, not_or] at hspecial
    have hany : like esc.toNat (c :: (escapeChars esc cs ++ p)) s =
        firstThen (fun x => same c x || decide (c = underscore.toNat)) (like esc.toNat (escapeChars esc cs ++ p)) s := by
      cases hp : escapeChars esc cs ++ p <;> simp only [like, hspecial.1, hspecial.2.2, if_false]
    rw [hany]
    simp only [hspecial.2.1, decide_false, Bool.or_false]

theorem like_escapeChars (he : esc ≠ percent) (cs s : List Nat) :
    like esc.toNat (escapeChars esc cs) s = true ↔ cs.map lower = s.map lower := by
  induction cs generalizing s with
  | nil =>
    show s.isEmpty = true ↔ _
    rw [List.isEmpty_iff, List.map_nil, List.nil_eq, List.map_eq_nil_iff]
  | cons c cs ih =>
    have hcons := like_escapeChars_cons he c cs [] s
    rw [List.append_nil] at hcons
    rw [hcons]
    cases s with
    | nil => simp [firstThen]
    | cons x s => simp [firstThen, same, ih]

theorem like_escapeChars_prefix (he : esc ≠ percent) (cs s : List Nat) :
    like esc.toNat (escapeChars esc cs ++ [percent.toNat]) s = true ↔ cs.map lower <+: s.map lower := by
  induction cs generalizing s with
  | nil =>
    show (s.tails.any (like esc.toNat [])) = true ↔ _
    rw [List.any_eq_true]
    refine ⟨fun _ => List.nil_prefix, fun _ => ⟨[], (List.mem_tails _ _).mpr List.nil_suffix, rfl⟩⟩
  | cons c cs ih =>
    rw [like_escapeChars_cons he]
    cases s with
    | nil => simp [firstThen]
    | cons x s => simp [firstThen, same, ih]

/-- The characters of a text up to the case of ASCII letters. -/
def folded (s : Bytes) : List Nat := (chars none (cut s)).map lower

theorem cut_zero (s : Bytes) : cut (0 :: s) = [] := List.takeWhile_cons_of_neg (by simp)

theorem cut_cons {b : UInt8} (hb : b ≠ 0) (s : Bytes) : cut (b :: s) = b :: cut s :=
  List.takeWhile_cons_of_pos (by simpa using hb)

theorem escape_cons (b : UInt8) (s : Bytes) :
    escape esc (b :: s) = (if special esc b then [esc, b] else [b]) ++ escape esc s := List.flatMap_cons

/-- A NUL in the text cuts off what stands behind it. -/
theorem cut_escape (hesc : esc ≠ 0) (s rest : Bytes) :
    cut (escape esc s ++ rest) = escape esc (cut s) ++ if 0 ∈ s then [] else cut rest := by
  induction s with
  | nil => rfl
  | cons b s ih =>
    rw [escape_cons, List.append_assoc]
    by_cases hb : b = 0
    · have hplain : ¬ special esc b = true := by
        simp only [special, Bool.or_eq_true, beq_iff_eq, hb, not_or]
        exact ⟨⟨by decide, by decide⟩, hesc.symm⟩
      rw [if_neg hplain, hb, if_pos List.mem_cons_self, cut_zero]
      exact cut_zero _
    · have hmem : (if 0 ∈ b :: s then [] else cut rest) = if 0 ∈ s then [] else cut rest := by
        refine if_congr ?_ rfl rfl
        rw [List.mem_cons, or_iff_right (Ne.symm hb)]
      rw [cut_cons hb, escape_cons, hmem, List.append_assoc, ← ih]
      split
      · show cut (esc :: b :: (escape esc s ++ rest)) = esc :: b :: cut (escape esc s ++ rest)
        rw [cut_cons hesc, cut_cons hb]
      · exact cut_cons hb _

theorem cut_of_notMem {s : Bytes} (h : 0 ∉ s) : cut s = s := by
  induction s with
  | nil => rfl
  | cons b s ih =>
    rw [List.mem_cons, not_or] at h
    rw [cut_cons (Ne.symm h.1), ih h.2]

/-- The texts that start like `s`; behind a NUL in `s` the `%` is cut off. -/
theorem likeText_escape_prefix (hascii : esc < 0x80) (hesc : esc ≠ 0) (he : esc ≠ percent) (s t : Bytes) :
    likeText esc (escape esc s ++ [percent]) t = true ↔
      if 0 ∈ s then folded s = folded t else folded s <+: folded t := by
  unfold likeText folded
  rw [cut_escape hesc]
  by_cases hzero : 0 ∈ s
  · rw [if_pos hzero, if_pos hzero]
    have hread := chars_escape hascii none (cut s) [] fun pending => by simp [chars]
    rw [show chars none [] = [] from rfl, List.append_nil (escapeChars _ _)] at hread
    rw [hread, like_escapeChars he]
  · rw [if_neg hzero, if_neg hzero, cut_of_notMem hzero]
    have hread := chars_escape hascii none s [percent] fun pending => chars_ascii pending (by decide) []
    show like esc.toNat (chars none (escape esc s ++ [percent])) _ = true ↔ _
    rw [hread]
    exact like_escapeChars_prefix he _ _

end Lib.Like
