import Cortrix.Lib.Bytes

/-!
# UTF-8

A well-formed text is the encoding of a list of characters.

* `utf8 cs` : the encoding; `utf8Char_shape` : the bytes of one character;
* `utf8_prefix` : an encoding that starts with an encoding starts with its characters;
* `LongestPrefix limit cs ds` : the most characters that fit; `utf8_take` : a cut anywhere leaves them and a part of one
  more.
-/

namespace Lib

def utf8 (cs : List Char) : Bytes := cs.flatMap String.utf8EncodeChar

/-- A byte inside a character. -/
def Continues (b : UInt8) : Prop := 0x80 ≤ b ∧ b < 0xC0

instance (b : UInt8) : Decidable (Continues b) := inferInstanceAs (Decidable (_ ∧ _))

/-- The first byte of a character with `n` bytes behind it. -/
def Leads (b : UInt8) (n : Nat) : Prop :=
  n = 0 ∧ b < 0x80 ∨ n = 1 ∧ 0xC0 ≤ b ∧ b < 0xE0 ∨ n = 2 ∧ 0xE0 ≤ b ∧ b < 0xF0 ∨ n = 3 ∧ 0xF0 ≤ b

theorem utf8_nil : utf8 [] = [] := rfl

theorem utf8_cons (c : Char) (cs : List Char) : utf8 (c :: cs) = String.utf8EncodeChar c ++ utf8 cs := List.flatMap_cons

theorem utf8_append (cs ds : List Char) : utf8 (cs ++ ds) = utf8 cs ++ utf8 ds := List.flatMap_append

theorem utf8Char_shape (c : Char) : ∃ b rest, String.utf8EncodeChar c = b :: rest ∧ Leads b rest.length ∧
    ∀ x ∈ rest, Continues x := by
  have htail : ∀ n, Continues (UInt8.ofNat (n % 64 + 128)) := by
    have hall : ∀ m < 64, Continues (UInt8.ofNat (m + 128)) := by decide
    exact fun n => hall _ (Nat.mod_lt n (by decide))
  unfold String.utf8EncodeChar
  dsimp only
  split
  · rename_i hv
    have hall : ∀ m < 128, UInt8.ofNat m < 0x80 := by decide
    exact ⟨_, [], rfl, Or.inl ⟨rfl, hall _ (Nat.lt_succ_of_le hv)⟩, by simp⟩
  · split
    · have hall : ∀ m < 32, 0xC0 ≤ UInt8.ofNat (m + 192) ∧ UInt8.ofNat (m + 192) < 0xE0 := by decide
      refine ⟨_, [_], rfl, Or.inr (Or.inl ⟨rfl, hall _ (Nat.mod_lt _ (by decide))⟩), ?_⟩
      exact List.forall_mem_singleton.mpr (htail _)
    · split
      · have hall : ∀ m < 16, 0xE0 ≤ UInt8.ofNat (m + 224) ∧ UInt8.ofNat (m + 224) < 0xF0 := by decide
        refine ⟨_, [_, _], rfl, Or.inr (Or.inr (Or.inl ⟨rfl, hall _ (Nat.mod_lt _ (by decide))⟩)), ?_⟩
        exact List.forall_mem_cons.mpr ⟨htail _, List.forall_mem_singleton.mpr (htail _)⟩
      · have hall : ∀ m < 8, 0xF0 ≤ UInt8.ofNat (m + 240) := by decide
        refine ⟨_, [_, _, _], rfl, Or.inr (Or.inr (Or.inr ⟨rfl, hall _ (Nat.mod_lt _ (by decide))⟩)), ?_⟩
        exact List.forall_mem_cons.mpr ⟨htail _, List.forall_mem_cons.mpr ⟨htail _,
          List.forall_mem_singleton.mpr (htail _)⟩⟩

theorem leads_iff (b : UInt8) (n : Nat) : Leads b n ↔
    n = 0 ∧ b.toNat < 0x80 ∨ n = 1 ∧ 0xC0 ≤ b.toNat ∧ b.toNat < 0xE0 ∨
    n = 2 ∧ 0xE0 ≤ b.toNat ∧ b.toNat < 0xF0 ∨ n = 3 ∧ 0xF0 ≤ b.toNat := by
  simp only [Leads, UInt8.le_iff_toNat_le, UInt8.lt_iff_toNat_lt, UInt8.reduceToNat]

theorem Leads.not_continues {b : UInt8} {n : Nat} (h : Leads b n) : ¬ Continues b := by
  rintro ⟨hge, hlt⟩
  simp only [UInt8.le_iff_toNat_le, UInt8.lt_iff_toNat_lt, UInt8.reduceToNat] at hge hlt
  rw [leads_iff] at h
  omega

theorem utf8Char_ne_nil (c : Char) : String.utf8EncodeChar c ≠ [] := String.utf8EncodeChar_ne_nil

theorem utf8Char_prefix {c d : Char} {s t : Bytes}
    (h : String.utf8EncodeChar c ++ s = String.utf8EncodeChar d ++ t) : c = d ∧ s = t := by
  have hchar : c = d := by
    have hdecode := congrArg (fun l : Bytes => l.toByteArray.utf8DecodeChar? 0) h
    simp only [List.toByteArray_append, ByteArray.utf8DecodeChar?_utf8EncodeChar_append] at hdecode
    exact Option.some.inj hdecode
  subst hchar
  exact ⟨rfl, List.append_cancel_left h⟩

theorem utf8_prefix {cs ds : List Char} {s : Bytes} (h : utf8 cs = utf8 ds ++ s) :
    ∃ es, cs = ds ++ es ∧ s = utf8 es := by
  induction ds generalizing cs with
  | nil => exact ⟨cs, rfl, h.symm⟩
  | cons d ds ih =>
    rw [utf8_cons, List.append_assoc] at h
    cases cs with
    | nil =>
      have hnil := (List.append_eq_nil_iff.mp h.symm).1
      exact absurd hnil (utf8Char_ne_nil d)
    | cons c cs =>
      rw [utf8_cons] at h
      obtain ⟨rfl, hrest⟩ := utf8Char_prefix h
      obtain ⟨es, rfl, hs⟩ := ih hrest
      exact ⟨es, rfl, hs⟩

/-- Where the second part does not go on with a character, the first one ends with one. -/
theorem utf8_split {cs : List Char} {s t : Bytes} (h : utf8 cs = s ++ t)
    (ht : ∀ b rest, t = b :: rest → ¬ Continues b) : ∃ ds es, cs = ds ++ es ∧ s = utf8 ds ∧ t = utf8 es := by
  induction cs generalizing s with
  | nil =>
    obtain ⟨rfl, rfl⟩ := List.append_eq_nil_iff.mp h.symm
    exact ⟨[], [], rfl, rfl, rfl⟩
  | cons c cs ih =>
    obtain ⟨b, rest, hc, hlead, hrest⟩ := utf8Char_shape c
    rw [utf8_cons] at h
    rcases List.append_eq_append_iff.mp h with ⟨u, hs, htail⟩ | ⟨u, hchar, ht'⟩
    · -- the first part holds the whole character
      obtain ⟨ds, es, hcs, hu, hes⟩ := ih htail
      exact ⟨c :: ds, es, by rw [hcs, List.cons_append], by rw [hs, hu, utf8_cons], hes⟩
    · cases s with
      | nil => exact ⟨[], c :: cs, rfl, rfl, by rw [utf8_cons, h, List.nil_append]⟩
      | cons a s =>
        cases u with
        | nil =>
          rw [List.append_nil] at hchar
          rw [List.nil_append] at ht'
          exact ⟨[c], cs, rfl, by rw [← hchar, utf8_cons, utf8_nil, List.append_nil], ht'⟩
        | cons x u =>
          -- the cut falls into the character
          rw [hc, List.cons_append, List.cons.injEq] at hchar
          have hx : x ∈ rest := by rw [hchar.2]; simp
          exact absurd (hrest x hx) (ht x _ ht')

theorem utf8_inj {cs ds : List Char} (h : utf8 cs = utf8 ds) : cs = ds := by
  have happend : utf8 cs = utf8 ds ++ [] := by rw [h, List.append_nil]
  obtain ⟨es, rfl, hes⟩ := utf8_prefix happend
  cases es with
  | nil => exact List.append_nil ds
  | cons e es =>
    rw [utf8_cons] at hes
    exact absurd (List.append_eq_nil_iff.mp hes.symm).1 (utf8Char_ne_nil e)

/-! ## Cuts -/

theorem continues_iff (b : UInt8) : b &&& 0xC0 = 0x80 ↔ Continues b := by
  have hall : ∀ n < 256, (UInt8.ofNat n &&& 0xC0 = 0x80 ↔ 0x80 ≤ UInt8.ofNat n ∧ UInt8.ofNat n < 0xC0) := by
    decide +kernel
  have h := hall b.toNat b.toNat_lt
  rwa [UInt8.ofNat_toNat] at h

/-- No character starts with a byte from `0xF8` on. -/
theorem utf8Char_head_lt {c : Char} {b : UInt8} {rest : Bytes} (h : String.utf8EncodeChar c = b :: rest) :
    b < 0xF8 := by
  unfold String.utf8EncodeChar at h
  dsimp only at h
  split at h
  · rename_i hv
    have hall : ∀ m < 128, UInt8.ofNat m < 0xF8 := by decide
    cases h
    exact hall _ (Nat.lt_succ_of_le hv)
  · split at h
    · have hall : ∀ m < 32, UInt8.ofNat (m + 192) < 0xF8 := by decide
      cases h
      exact hall _ (Nat.mod_lt _ (by decide))
    · split at h
      · have hall : ∀ m < 16, UInt8.ofNat (m + 224) < 0xF8 := by decide
        cases h
        exact hall _ (Nat.mod_lt _ (by decide))
      · have hall : ∀ m < 8, UInt8.ofNat (m + 240) < 0xF8 := by decide
        cases h
        exact hall _ (Nat.mod_lt _ (by decide))

/-- The longest prefix whose encoding has at most `limit` bytes. -/
def LongestPrefix (limit : Nat) (cs ds : List Char) : Prop :=
  ds <+: cs ∧ (utf8 ds).length ≤ limit ∧ ∀ es, es <+: cs → (utf8 es).length ≤ limit → es <+: ds

/-- The first bytes of an encoding: the characters that fit, and a part of the next one. -/
theorem utf8_take (cs : List Char) (limit : Nat) : ∃ ds part, LongestPrefix limit cs ds ∧
    (utf8 cs).take limit = utf8 ds ++ part ∧ (part = [] ∨ ∃ c q, String.utf8EncodeChar c = part ++ q ∧ q ≠ []) := by
  induction cs generalizing limit with
  | nil => exact ⟨[], [], ⟨List.nil_prefix, Nat.zero_le _, fun es hes _ => hes⟩, List.take_nil, .inl rfl⟩
  | cons c cs ih =>
    rw [utf8_cons]
    by_cases hlen : limit < (String.utf8EncodeChar c).length
    · refine ⟨[], (String.utf8EncodeChar c).take limit, ⟨List.nil_prefix, Nat.zero_le _, fun es hes hfit => ?_⟩, ?_, ?_⟩
      · cases es with
        | nil => exact List.prefix_rfl
        | cons e es =>
          obtain ⟨rfl, -⟩ := List.cons_prefix_cons.mp hes
          rw [utf8_cons, List.length_append] at hfit
          omega
      · rw [List.take_append_of_le_length (by omega), utf8_nil, List.nil_append]
      · refine .inr ⟨c, (String.utf8EncodeChar c).drop limit, (List.take_append_drop _ _).symm, fun hnil => ?_⟩
        rw [List.drop_eq_nil_iff] at hnil
        omega
    · obtain ⟨ds, part, ⟨hpre, hfit, hmax⟩, htake, hpart⟩ := ih (limit - (String.utf8EncodeChar c).length)
      refine ⟨c :: ds, part, ⟨List.cons_prefix_cons.mpr ⟨rfl, hpre⟩, ?_, fun es hes hle => ?_⟩, ?_, hpart⟩
      · rw [utf8_cons, List.length_append]
        omega
      · cases es with
        | nil => exact List.nil_prefix
        | cons e es =>
          obtain ⟨rfl, htail⟩ := List.cons_prefix_cons.mp hes
          rw [utf8_cons, List.length_append] at hle
          exact List.cons_prefix_cons.mpr ⟨rfl, hmax es htail (by omega)⟩
      · rw [List.take_append, htake, List.take_of_length_le (by omega), utf8_cons, List.append_assoc]

end Lib
