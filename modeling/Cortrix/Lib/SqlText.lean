import Mathlib.Data.List.Basic

/-!
# The text of a parameterized statement

* `Piece` : a stretch of plain text, a name between quotes, or the placeholder of a parameter; `text` : what is written
  for pieces;
* `marks text` : a text read from the left: the characters outside quotes, the quoted stretches, and the placeholders
  with their digits;
* `marks_text` : what is read from the text of well-formed pieces is those pieces;
* `placeholders`, `names` : the parameters and the quoted names of a text.
-/

namespace Lib.SqlText

inductive Piece
  | plain (s : String)
  | quoted (quote : Char) (name : String)
  | param (n : Nat)

inductive Mark
  | char (c : Char)
  | quoted (quote : Char) (name : List Char)
  | param (digits : List Char)

def isQuote (c : Char) : Bool := c == '\x22' || c == '\x27'

/-- Outside quotes, behind an opening quote, or behind the sign of a placeholder. -/
inductive Mode
  | outside
  | quoted (quote : Char) (read : List Char)
  | param (digits : List Char)

/-- A character outside quotes. -/
def enter (c : Char) : List Mark × Mode :=
  if isQuote c then ([], .quoted c [])
  else if c = '$' then ([], .param [])
  else ([.char c], .outside)

def read : Mode → Char → List Mark × Mode
  | .outside, c => enter c
  | .quoted quote name, c => if c = quote then ([.quoted quote name], .outside) else ([], .quoted quote (name ++ [c]))
  | .param digits, c =>
    if c.isDigit then ([], .param (digits ++ [c])) else (.param digits :: (enter c).1, (enter c).2)

/-- A quotation that is not closed reads as its characters. -/
def finish : Mode → List Mark
  | .outside => []
  | .quoted quote name => (quote :: name).map .char
  | .param digits => [.param digits]

def scan : Mode → List Char → List Mark
  | m, [] => finish m
  | m, c :: cs => (read m c).1 ++ scan (read m c).2 cs

def marks (s : List Char) : List Mark := scan .outside s

def Mark.param? : Mark → Option (List Char)
  | .param digits => some digits
  | _ => none

def Mark.name? : Mark → Option (List Char)
  | .quoted _ name => some name
  | _ => none

def placeholders (s : List Char) : List (List Char) := (marks s).filterMap Mark.param?

def names (s : List Char) : List (List Char) := (marks s).filterMap Mark.name?

namespace Piece

def text : Piece → List Char
  | plain s => s.toList
  | quoted quote name => quote :: name.toList ++ [quote]
  | param n => '$' :: Nat.toDigits 10 n

def marks : Piece → List Mark
  | plain s => s.toList.map .char
  | quoted quote name => [.quoted quote name.toList]
  | param n => [.param (Nat.toDigits 10 n)]

/-- A plain stretch has no special character and does not start with a digit; a name has no quote. -/
def WellFormed : Piece → Prop
  | plain s => s.toList ≠ [] ∧ (∀ c ∈ s.toList.head?, c.isDigit = false) ∧ ∀ c ∈ s.toList, isQuote c = false ∧ c ≠ '$'
  | quoted quote name => isQuote quote = true ∧ quote ∉ name.toList
  | param _ => True

instance (p : Piece) : Decidable p.WellFormed :=
  match p with
  | plain _ =>
    -- over the characters of the text, not over all there are
    @instDecidableAnd _ _ inferInstance (@instDecidableAnd _ _ (Option.decidableForallMem _) (List.decidableBAll _ _))
  | quoted _ _ => inferInstanceAs (Decidable (_ ∧ _))
  | param _ => inferInstanceAs (Decidable True)

end Piece

def text (ps : List Piece) : List Char := ps.flatMap Piece.text

variable {ps : List Piece} {p : Piece} {s rest : List Char}

theorem enter_plain {c : Char} (hquote : isQuote c = false) (hdollar : c ≠ '$') : enter c = ([.char c], .outside) := by
  rw [enter, hquote, if_neg Bool.false_ne_true, if_neg hdollar]

theorem enter_quote {c : Char} (hquote : isQuote c = true) : enter c = ([], .quoted c []) := if_pos hquote

theorem scan_plain (h : ∀ c ∈ s, isQuote c = false ∧ c ≠ '$') (rest : List Char) :
    scan .outside (s ++ rest) = s.map .char ++ scan .outside rest := by
  induction s with
  | nil => rfl
  | cons c s ih =>
    obtain ⟨hquote, hdollar⟩ := h c List.mem_cons_self
    rw [List.cons_append, scan, read, enter_plain hquote hdollar, ih fun c hc => h c (List.mem_cons_of_mem _ hc)]
    rfl

theorem scan_quoted {quote : Char} (name : List Char) (h : quote ∉ s) (rest : List Char) :
    scan (.quoted quote name) (s ++ quote :: rest) = .quoted quote (name ++ s) :: scan .outside rest := by
  induction s generalizing name with
  | nil =>
    rw [List.nil_append, List.append_nil, scan, read, if_pos rfl]
    rfl
  | cons c s ih =>
    rw [List.mem_cons, not_or] at h
    rw [List.cons_append, scan, read, if_neg (Ne.symm h.1), ih _ h.2, List.append_assoc]
    rfl

theorem scan_param (digits : List Char) (hs : ∀ c ∈ s, c.isDigit = true) (hrest : ∀ c ∈ rest.head?, c.isDigit = false) :
    scan (.param digits) (s ++ rest) = .param (digits ++ s) :: scan .outside rest := by
  induction s generalizing digits with
  | nil =>
    rw [List.nil_append, List.append_nil]
    cases rest with
    | nil => rfl
    | cons c rest =>
      have hdigit : c.isDigit = false := hrest c rfl
      rw [scan, read, hdigit, if_neg Bool.false_ne_true, scan, read]
      rfl
  | cons c s ih =>
    rw [List.cons_append, scan, read, hs c List.mem_cons_self, if_pos rfl,
      ih _ fun c hc => hs c (List.mem_cons_of_mem _ hc), List.append_assoc]
    rfl

theorem head_text (h : ∀ p ∈ ps, p.WellFormed) : ∀ c ∈ (text ps).head?, c.isDigit = false := by
  cases ps with
  | nil =>
    intro c hc
    cases hc
  | cons p ps =>
    have hp := h p List.mem_cons_self
    rw [text, List.flatMap_cons]
    cases p with
    | plain s =>
      obtain ⟨hne, hdigit, -⟩ := hp
      intro c hc
      rw [Piece.text, List.head?_append_of_ne_nil _ hne] at hc
      exact hdigit c hc
    | quoted quote name =>
      intro c hc
      obtain rfl : quote = c := Option.some.inj hc
      have hquote := hp.1
      rw [isQuote, Bool.or_eq_true, beq_iff_eq, beq_iff_eq] at hquote
      rcases hquote with rfl | rfl <;> rfl
    | param n =>
      intro c hc
      obtain rfl : '$' = c := Option.some.inj hc
      rfl

theorem marks_text (h : ∀ p ∈ ps, p.WellFormed) : marks (text ps) = ps.flatMap Piece.marks := by
  unfold marks
  induction ps with
  | nil => rfl
  | cons p ps ih =>
    have hp := h p List.mem_cons_self
    have hps : ∀ p ∈ ps, p.WellFormed := fun p hp => h p (List.mem_cons_of_mem _ hp)
    have hhead := head_text hps
    have ih := ih hps
    rw [text, List.flatMap_cons, List.flatMap_cons, ← ih]
    change scan .outside (p.text ++ text ps) = _
    cases p with
    | plain s => exact scan_plain hp.2.2 (text ps)
    | quoted quote name =>
      rw [Piece.text, List.cons_append, List.cons_append, List.append_assoc, scan, read, enter_quote hp.1]
      exact scan_quoted [] hp.2 (text ps)
    | param n =>
      rw [Piece.text, List.cons_append]
      refine scan_param [] (fun c hc => ?_) hhead
      exact Nat.isDigit_of_mem_toDigits (by decide) (by decide) hc

/-! ## The parameters and the names of a text -/

def Piece.param? : Piece → Option Nat
  | param n => some n
  | _ => none

def Piece.name? : Piece → Option String
  | quoted _ name => some name
  | _ => none

theorem filterMap_plain {β : Type} {f : Mark → Option β} (hchar : ∀ c, f (.char c) = none) (s : String) :
    (Piece.plain s).marks.filterMap f = [] := by
  rw [Piece.marks, List.filterMap_eq_nil_iff]
  intro m hm
  obtain ⟨c, -, rfl⟩ := List.mem_map.mp hm
  exact hchar c

theorem filterMap_marks {β : Type} {f : Mark → Option β} {g : Piece → Option β} (h : ∀ p ∈ ps, p.WellFormed)
    (hpiece : ∀ p : Piece, p.marks.filterMap f = (g p).toList) : (marks (text ps)).filterMap f = ps.filterMap g := by
  rw [marks_text h, List.filterMap_flatMap, List.filterMap_eq_flatMap_toList]
  exact congrArg ps.flatMap (funext hpiece)

theorem placeholders_text (h : ∀ p ∈ ps, p.WellFormed) :
    placeholders (text ps) = (ps.filterMap Piece.param?).map (Nat.toDigits 10) := by
  rw [List.map_filterMap]
  refine filterMap_marks h fun p => ?_
  cases p with
  | plain s => exact filterMap_plain (fun _ => rfl) s
  | quoted quote name => rfl
  | param n => rfl

theorem names_text (h : ∀ p ∈ ps, p.WellFormed) : names (text ps) = (ps.filterMap Piece.name?).map String.toList := by
  rw [List.map_filterMap]
  refine filterMap_marks h fun p => ?_
  cases p with
  | plain s => exact filterMap_plain (fun _ => rfl) s
  | quoted quote name => rfl
  | param n => rfl

/-! ## Pieces between separators -/

theorem text_append (ps ps' : List Piece) : text (ps ++ ps') = text ps ++ text ps' := List.flatMap_append

theorem text_intercalate (sep : List Piece) (pss : List (List Piece)) :
    text (sep.intercalate pss) = (text sep).intercalate (pss.map text) := by
  induction pss with
  | nil => rfl
  | cons ps pss ih =>
    cases pss with
    | nil => rw [List.map_singleton, List.intercalate_singleton, List.intercalate_singleton]
    | cons ps' pss =>
      rw [List.map_cons, List.map_cons, List.intercalate_cons_cons, List.intercalate_cons_cons, text_append,
        text_append, ih, List.map_cons]

theorem filterMap_intercalate {β : Type} {f : Piece → Option β} {sep : List Piece} (h : sep.filterMap f = [])
    (pss : List (List Piece)) : (sep.intercalate pss).filterMap f = pss.flatMap fun ps => ps.filterMap f := by
  induction pss with
  | nil => rfl
  | cons ps pss ih =>
    cases pss with
    | nil => rw [List.intercalate_singleton, List.flatMap_singleton]
    | cons ps' pss =>
      rw [List.intercalate_cons_cons, List.filterMap_append, List.filterMap_append, h, ih, List.append_nil]
      rfl

theorem mem_intercalate {sep : List Piece} {pss : List (List Piece)} (h : p ∈ sep.intercalate pss) :
    p ∈ sep ∨ ∃ ps ∈ pss, p ∈ ps := by
  induction pss with
  | nil => exact absurd h List.not_mem_nil
  | cons ps pss ih =>
    cases pss with
    | nil =>
      rw [List.intercalate_singleton] at h
      exact .inr ⟨ps, List.mem_cons_self, h⟩
    | cons ps' pss =>
      rw [List.intercalate_cons_cons, List.mem_append, List.mem_append] at h
      rcases h with (h | h) | h
      · exact .inr ⟨ps, List.mem_cons_self, h⟩
      · exact .inl h
      · obtain hsep | ⟨ps, hps, hp⟩ := ih h
        · exact .inl hsep
        · exact .inr ⟨ps, List.mem_cons_of_mem _ hps, hp⟩

end Lib.SqlText
