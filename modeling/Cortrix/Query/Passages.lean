import Cortrix.Lib.Utf8
import Mathlib.Data.List.Induction

/-!
# Passages of the rerank prompt

* `sanitizePassage` : a text with its line breaks and tabs as spaces, cut to a number of bytes and then to whole
  characters; `none` is a read outside the string;
* `sanitizePassage_longest` : a well-formed text is cut to the longest prefix that fits.
-/

namespace Cortrix.Query.LlmRerank
open Lib

def spaceOut (ch : UInt8) : UInt8 := if ch = 0x0A ∨ ch = 0x0D ∨ ch = 0x09 then 0x20 else ch

def copyLoop (maxChars : Nat) : Bytes → Bytes → Bytes
  | [], out => out
  | ch :: text, out => if maxChars ≤ out.length then out else copyLoop maxChars text (out ++ [spaceOut ch])

/-- `lead_pos` after the loop that walks back over continuation bytes. -/
def walkBack (out : Bytes) : Nat → Nat → Option Nat
  | 0, _ => some 0
  | pos + 1, cont =>
    if cont < 3 then do
      let b ← out[pos]?
      if b &&& 0xC0 = 0x80 then walkBack out pos (cont + 1) else some (pos + 1)
    else some (pos + 1)

def expectedLength (lead : UInt8) : Nat :=
  if lead &&& 0xE0 = 0xC0 then 2 else if lead &&& 0xF0 = 0xE0 then 3 else if lead &&& 0xF8 = 0xF0 then 4 else 1

def trimPartial (out : Bytes) : Option Bytes := do
  let leadPos ← walkBack out out.length 0
  if 0 < leadPos then do
    let lead ← out[leadPos - 1]?
    if out.length - (leadPos - 1) < expectedLength lead then some (out.take (leadPos - 1)) else some out
  else some out

def sanitizePassage (text : Bytes) (maxChars : Int32) : Option Bytes :=
  let maxChars := if maxChars < 0 then 0 else maxChars
  let out := copyLoop maxChars.toInt.toNat text []
  if out.isEmpty then some out else trimPartial out

/-! ## The loops -/

theorem copyLoop_eq (maxChars : Nat) (text out : Bytes) (h : out.length ≤ maxChars) :
    copyLoop maxChars text out = out ++ (text.map spaceOut).take (maxChars - out.length) := by
  induction text generalizing out with
  | nil => rw [copyLoop, List.map_nil, List.take_nil, List.append_nil]
  | cons ch text ih =>
    rw [copyLoop]
    split
    · rw [Nat.sub_eq_zero_of_le (by assumption), List.take_zero, List.append_nil]
    · have hlen : (out ++ [spaceOut ch]).length = out.length + 1 := List.length_append
      obtain ⟨k, hk⟩ : ∃ k, maxChars - out.length = k + 1 := ⟨maxChars - out.length - 1, by omega⟩
      rw [ih _ (by omega), hlen, hk, List.map_cons, List.take_succ_cons, show maxChars - (out.length + 1) = k by omega,
        List.append_assoc, List.singleton_append]

theorem walkBack_inside {out : Bytes} {pos : Nat} (h : pos ≤ out.length) (cont : Nat) :
    ∃ leadPos, walkBack out pos cont = some leadPos ∧ leadPos ≤ pos := by
  induction pos generalizing cont with
  | zero => exact ⟨0, rfl, le_refl 0⟩
  | succ pos ih =>
    rw [walkBack]
    split
    · rw [List.getElem?_eq_getElem (by omega)]
      simp only [Option.bind_eq_bind, Option.bind_some]
      split
      · obtain ⟨leadPos, hwalk, hle⟩ := ih (by omega) (cont + 1)
        exact ⟨leadPos, hwalk, by omega⟩
      · exact ⟨pos + 1, rfl, le_refl _⟩
    · exact ⟨pos + 1, rfl, le_refl _⟩

theorem trimPartial_isSome (out : Bytes) : (trimPartial out).isSome := by
  obtain ⟨leadPos, hwalk, hle⟩ := walkBack_inside (le_refl out.length) 0
  rw [trimPartial, hwalk]
  simp only [Option.bind_eq_bind, Option.bind_some]
  split
  · rw [List.getElem?_eq_getElem (by omega)]
    simp only [Option.bind_some]
    split <;> rfl
  · rfl

theorem sanitizePassage_isSome (text : Bytes) (maxChars : Int32) : (sanitizePassage text maxChars).isSome := by
  unfold sanitizePassage
  dsimp only
  generalize copyLoop _ text [] = out
  split
  · rfl
  · exact trimPartial_isSome out

theorem walkBack_char {pre conts rest : Bytes} {lead : UInt8} {cont : Nat} (hlead : ¬ Continues lead)
    (hconts : ∀ x ∈ conts, Continues x) (hle : cont + conts.length ≤ 3) :
    walkBack (pre ++ lead :: (conts ++ rest)) (pre.length + 1 + conts.length) cont = some (pre.length + 1) := by
  induction conts using List.reverseRecOn generalizing rest cont with
  | nil =>
    have hread : (pre ++ lead :: rest)[pre.length]? = some lead := by simp
    rw [List.length_nil, Nat.add_zero, List.nil_append, walkBack, hread]
    simp only [Option.bind_eq_bind, Option.bind_some, continues_iff, if_neg hlead, ite_self]
  | append_singleton conts x ih =>
    rw [List.length_append, List.length_singleton] at hle
    have hread : (pre ++ lead :: (conts ++ [x] ++ rest))[pre.length + 1 + conts.length]? = some x := by
      rw [List.append_assoc, ← List.cons_append, ← List.append_assoc]
      rw [List.getElem?_append_right (by simp; omega)]
      simp [Nat.add_assoc, Nat.add_comm 1]
    have hx := hconts x (by simp)
    rw [List.length_append, List.length_singleton, ← Nat.add_assoc, walkBack, if_pos (by omega), hread]
    simp only [Option.bind_eq_bind, Option.bind_some, continues_iff, if_pos hx]
    rw [List.append_assoc]
    exact ih (fun y hy => hconts y (by simp [hy])) (by omega)

theorem expectedLength_of_leads {lead : UInt8} {n : Nat} (h : Leads lead n) (hlt : lead < 0xF8) :
    expectedLength lead = n + 1 := by
  have hall : ∀ m < 256, expectedLength (UInt8.ofNat m) =
      if m < 0xC0 then 1 else if m < 0xE0 then 2 else if m < 0xF0 then 3 else if m < 0xF8 then 4 else 1 := by
    decide +kernel
  have hlead := hall lead.toNat lead.toNat_lt
  rw [UInt8.ofNat_toNat] at hlead
  rw [hlead]
  rw [leads_iff] at h
  simp only [UInt8.lt_iff_toNat_lt, UInt8.reduceToNat] at hlt
  repeat' split
  all_goals omega

/-! ## Whole characters -/

/-- The first bytes of a character at the end: it is kept when it is whole. -/
theorem trimPartial_char {pre part q : Bytes} {c : Char} (hc : String.utf8EncodeChar c = part ++ q)
    (hpart : part ≠ []) : trimPartial (pre ++ part) = some (if q = [] then pre ++ part else pre) := by
  obtain ⟨lead, rest, hshape, hlead, hconts⟩ := utf8Char_shape c
  have hlt := utf8Char_head_lt hshape
  rw [hshape] at hc
  cases part with
  | nil => exact absurd rfl hpart
  | cons b conts =>
    rw [List.cons_append, List.cons.injEq] at hc
    obtain ⟨rfl, rfl⟩ := hc
    have hthree : conts.length + q.length ≤ 3 := by
      rw [List.length_append] at hlead
      unfold Leads at hlead
      omega
    have hwalk : walkBack (pre ++ lead :: (conts ++ [])) (pre.length + 1 + conts.length) 0 = some (pre.length + 1) :=
      walkBack_char hlead.not_continues (fun x hx => hconts x (List.mem_append_left q hx)) (by omega)
    rw [List.append_nil] at hwalk
    have hread : (pre ++ lead :: conts)[pre.length]? = some lead := by simp
    have hexpected : expectedLength lead = conts.length + q.length + 1 := by
      rw [expectedLength_of_leads hlead hlt, List.length_append]
    have hlen : (pre ++ lead :: conts).length = pre.length + 1 + conts.length := by
      rw [List.length_append, List.length_cons]
      omega
    rw [trimPartial, hlen, hwalk]
    simp only [Option.bind_eq_bind, Option.bind_some, if_pos (Nat.succ_pos pre.length), Nat.add_sub_cancel, hread,
      hexpected]
    by_cases hq : q = []
    · subst hq
      rw [if_neg (by rw [List.length_nil]; omega), if_pos rfl]
    · have hpos := List.length_pos_iff.mpr hq
      rw [if_pos (by omega), if_neg hq, List.take_left]

def spaceOutChar (c : Char) : Char := if c = '\n' ∨ c = '\r' ∨ c = '\t' then ' ' else c

theorem utf8Char_of_mem {c : Char} {b : UInt8} (h : b ∈ String.utf8EncodeChar c) (hlt : b < 0x80) :
    String.utf8EncodeChar c = [b] := by
  obtain ⟨lead, rest, hshape, hlead, hconts⟩ := utf8Char_shape c
  rw [hshape] at h ⊢
  rcases List.mem_cons.mp h with rfl | hmem
  · have hnil : rest.length = 0 := by
      rw [leads_iff] at hlead
      simp only [UInt8.lt_iff_toNat_lt, UInt8.reduceToNat] at hlt
      omega
    rw [List.eq_nil_of_length_eq_zero hnil]
  · exact absurd (hconts b hmem).1 (UInt8.not_le.mpr hlt)

theorem map_spaceOut_char (c : Char) :
    (String.utf8EncodeChar c).map spaceOut = String.utf8EncodeChar (spaceOutChar c) := by
  by_cases hc : c = '\n' ∨ c = '\r' ∨ c = '\t'
  · rcases hc with rfl | rfl | rfl <;> decide
  · have hchar : ∀ d : Char, String.utf8EncodeChar c = String.utf8EncodeChar d → c = d := by
      intro d h
      obtain ⟨hd, -⟩ := utf8Char_prefix (congrArg (· ++ []) h)
      exact hd
    rw [spaceOutChar, if_neg hc]
    refine (List.map_congr_left fun b hb => ?_).trans (List.map_id _)
    refine if_neg fun hbreak => hc ?_
    rcases hbreak with rfl | rfl | rfl
    · exact .inl (hchar '\n' (utf8Char_of_mem hb (by decide)))
    · exact .inr (.inl (hchar '\r' (utf8Char_of_mem hb (by decide))))
    · exact .inr (.inr (hchar '\t' (utf8Char_of_mem hb (by decide))))

theorem map_spaceOut_utf8 (cs : List Char) : (utf8 cs).map spaceOut = utf8 (cs.map spaceOutChar) := by
  induction cs with
  | nil => rfl
  | cons c cs ih => rw [utf8_cons, List.map_append, map_spaceOut_char, ih, List.map_cons, utf8_cons]

theorem trimPartial_utf8 {ds : List Char} {part : Bytes} (hne : utf8 ds ++ part ≠ [])
    (hpart : part = [] ∨ ∃ c q, String.utf8EncodeChar c = part ++ q ∧ q ≠ []) :
    trimPartial (utf8 ds ++ part) = some (utf8 ds) := by
  by_cases hnil : part = []
  · subst hnil
    rw [List.append_nil] at hne ⊢
    rcases List.eq_nil_or_concat' ds with rfl | ⟨es, c, rfl⟩
    · exact absurd rfl hne
    · rw [utf8_append, utf8_cons, utf8_nil, List.append_nil]
      exact trimPartial_char (q := []) (List.append_nil _).symm (utf8Char_ne_nil c)
  · obtain ⟨c, q, hc, hq⟩ := hpart.resolve_left hnil
    rw [trimPartial_char hc hnil, if_neg hq]

/-- A text is cut without a read outside of it, and a well-formed one to the longest prefix of whole characters. -/
theorem sanitizePassage_longest :
    (∀ (text : Bytes) (maxChars : Int32), (sanitizePassage text maxChars).isSome) ∧
    ∀ (cs : List Char) (maxChars : Int32), 0 ≤ maxChars →
      ∃ ds, sanitizePassage (utf8 cs) maxChars = some (utf8 ds) ∧
        LongestPrefix maxChars.toInt.toNat (cs.map spaceOutChar) ds := by
  refine ⟨sanitizePassage_isSome, ?_⟩
  intro cs maxChars hmax
  obtain ⟨ds, part, hlongest, htake, hpart⟩ := utf8_take (cs.map spaceOutChar) maxChars.toInt.toNat
  refine ⟨ds, ?_, hlongest⟩
  rw [sanitizePassage, if_neg (Int32.not_lt.mpr hmax)]
  rw [copyLoop_eq _ _ _ (Nat.zero_le _), List.nil_append, List.length_nil, Nat.sub_zero, map_spaceOut_utf8, htake]
  split
  · rename_i hempty
    have hnil := List.append_eq_nil_iff.mp (List.isEmpty_iff.mp hempty)
    rw [hnil.1, hnil.2, List.append_nil]
  · rename_i hempty
    exact trimPartial_utf8 (fun hnil => hempty (List.isEmpty_iff.mpr hnil)) hpart

/-- The limit falls into the second character. -/
theorem sanitizePassage_longest_zh : ∃ ds, sanitizePassage (utf8 ['中', '文']) 4 = some (utf8 ds) ∧
    LongestPrefix (4 : Int32).toInt.toNat (['中', '文'].map spaceOutChar) ds :=
  sanitizePassage_longest.2 ['中', '文'] 4 (by decide)

end Cortrix.Query.LlmRerank
