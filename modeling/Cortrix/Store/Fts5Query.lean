import Cortrix.Lib.Like
import Cortrix.Lib.Quote

/-!
# The full-text query of a user's text

`SanitizeFts5Query` cuts the text at whitespace, drops the tokens without a letter, digit or byte of a longer character,
and writes each of the others as a string literal, with ` OR ` between them.

* `fts5Lex s` : the tokens the query parser of FTS5 sees in `s`; `fts5Lex_joined` : in joined literals it sees these
  and `OR`;
* `sanitized_query` : so no text of a user is syntax.
-/

namespace Cortrix.Store
open Lib (Bytes)
open Lib.Quote
open Lib.Like (cut)

def isFtsSpace (c : UInt8) : Bool := c == 0x20 || c == 0x09 || c == 0x0A || c == 0x0D

def isalnum (c : UInt8) : Bool :=
  (0x30 ≤ c && c ≤ 0x39) || (0x41 ≤ c && c ≤ 0x5A) || (0x61 ≤ c && c ≤ 0x7A)

def dquote : UInt8 := 0x22

def orSeparator : Bytes := [0x20, 0x4F, 0x52, 0x20]

def hasAlnum (token : Bytes) : Bool := token.any fun c => isalnum c || decide (127 < c)

def escapeToken (token : Bytes) : Bytes := token.flatMap fun c => if c = dquote then [dquote, c] else [c]

/-- Skip whitespace, then take a run of other bytes. -/
def nextToken (rest : Bytes) : Option (Bytes × Bytes) :=
  match rest.dropWhile isFtsSpace with
  | [] => none
  | c :: cs => some (c :: cs.takeWhile (!isFtsSpace ·), cs.dropWhile (!isFtsSpace ·))

theorem length_dropWhile_le {α : Type} (p : α → Bool) (s : List α) : (s.dropWhile p).length ≤ s.length :=
  (List.dropWhile_suffix p).length_le

variable {rest : Bytes} {c : UInt8} (tokens : List Bytes)

theorem length_nextToken {token rest' : Bytes} (h : nextToken rest = some (token, rest')) :
    rest'.length < rest.length := by
  have hle := length_dropWhile_le isFtsSpace rest
  unfold nextToken at h
  cases hr : rest.dropWhile isFtsSpace with
  | nil => simp [hr] at h
  | cons c cs =>
    rw [hr] at h hle
    obtain ⟨-, rfl⟩ := by simpa using h
    have := length_dropWhile_le (!isFtsSpace ·) cs
    rw [List.length_cons] at hle
    omega

/-- The loop of `SanitizeFts5Query` on what is left of the query. -/
def sanitizeLoop (rest sanitized : Bytes) (first_token : Bool) : Bytes :=
  match h : nextToken rest with
  | none => sanitized
  | some (token, rest') =>
    have := length_nextToken h
    if hasAlnum token then
      sanitizeLoop rest'
        ((if first_token then sanitized else sanitized ++ orSeparator) ++ [dquote] ++ escapeToken token ++ [dquote]) false
    else sanitizeLoop rest' sanitized first_token
termination_by rest.length

def SanitizeFts5Query (raw_query : Bytes) : Bytes :=
  if raw_query.isEmpty then [] else sanitizeLoop raw_query [] true

/-! ## The tokens of the text -/

def whitespaceTokens (s : Bytes) : List Bytes := (s.splitOnP isFtsSpace).filter (!·.isEmpty)

theorem whitespaceTokens_nil : whitespaceTokens [] = [] := by
  simp [whitespaceTokens]

theorem whitespaceTokens_space (hc : isFtsSpace c = true) (s : Bytes) :
    whitespaceTokens (c :: s) = whitespaceTokens s := by
  simp [whitespaceTokens, List.splitOnP_cons_eq_if_modifyHead, hc]

theorem whitespaceTokens_dropWhile (s : Bytes) : whitespaceTokens (s.dropWhile isFtsSpace) = whitespaceTokens s := by
  induction s with
  | nil => rfl
  | cons c s ih =>
    by_cases hc : isFtsSpace c = true
    · rw [List.dropWhile_cons_of_pos hc, ih, whitespaceTokens_space hc]
    · rw [List.dropWhile_cons_of_neg hc]

theorem splitOnP_run (s : Bytes) :
    ∃ more, s.splitOnP isFtsSpace = s.takeWhile (!isFtsSpace ·) :: more ∧
      more.filter (!·.isEmpty) = whitespaceTokens (s.dropWhile (!isFtsSpace ·)) := by
  induction s with
  | nil => exact ⟨[], by simp, by simp [whitespaceTokens]⟩
  | cons c s ih =>
    obtain ⟨more, hs, hmore⟩ := ih
    by_cases hc : isFtsSpace c = true
    · refine ⟨s.splitOnP isFtsSpace, by simp [List.splitOnP_cons_eq_if_modifyHead, hc], ?_⟩
      rw [List.dropWhile_cons_of_neg (by simp [hc]), whitespaceTokens_space hc, whitespaceTokens]
    · have hc' : isFtsSpace c = false := by simpa using hc
      refine ⟨more, ?_, ?_⟩
      · simp [List.splitOnP_cons_eq_if_modifyHead, hc', hs]
      · rw [List.dropWhile_cons_of_pos (by simp [hc']), hmore]

theorem whitespaceTokens_of_none {s : Bytes} (h : nextToken s = none) : whitespaceTokens s = [] := by
  rw [← whitespaceTokens_dropWhile]
  unfold nextToken at h
  cases hs : s.dropWhile isFtsSpace with
  | nil => exact whitespaceTokens_nil
  | cons c cs => simp [hs] at h

theorem whitespaceTokens_of_some {s token : Bytes} (h : nextToken s = some (token, rest)) :
    whitespaceTokens s = token :: whitespaceTokens rest := by
  rw [← whitespaceTokens_dropWhile]
  unfold nextToken at h
  cases hs : s.dropWhile isFtsSpace with
  | nil => simp [hs] at h
  | cons c cs =>
    have hc : isFtsSpace c = false := by
      have := List.head?_dropWhile_not isFtsSpace s
      rw [hs] at this
      simpa using this
    obtain ⟨rfl, rfl⟩ := by simpa [hs] using h
    obtain ⟨more, hsplit, hmore⟩ := splitOnP_run cs
    rw [← hmore, whitespaceTokens, List.splitOnP_cons_eq_if_modifyHead, hsplit]
    simp [hc]

/-! ## What the loop computes -/

/-- The tokens of the text that a query looks for. -/
def keptTokens (s : Bytes) : List Bytes := (whitespaceTokens s).filter hasAlnum

def joined (literals : List Bytes) : Bytes := orSeparator.intercalate (literals.map (quoted dquote))

theorem escapeToken_eq (token : Bytes) : escapeToken token = double dquote token := by
  simp only [escapeToken, double]
  congr 1
  funext c
  split
  · rename_i hc; rw [hc]
  · rfl

theorem joined_cons (token : Bytes) (tokens : List Bytes) :
    joined (token :: tokens) = quoted dquote token ++ tokens.flatMap fun t => orSeparator ++ quoted dquote t := by
  induction tokens generalizing token with
  | nil => simp [joined]
  | cons t tokens ih =>
    rw [List.flatMap_cons, List.append_assoc, ← ih]
    simp [joined, List.intercalate_cons_cons]

theorem sanitizeLoop_eq (rest sanitized : Bytes) (first_token : Bool) :
    sanitizeLoop rest sanitized first_token =
      sanitized ++ if first_token then joined (keptTokens rest)
        else (keptTokens rest).flatMap fun t => orSeparator ++ quoted dquote t := by
  fun_induction sanitizeLoop rest sanitized first_token with
  | case1 rest sanitized first_token h =>
    simp [keptTokens, whitespaceTokens_of_none h, joined]
  | case2 rest sanitized first_token token rest' h _ hkept ih =>
    have hk : keptTokens rest = token :: keptTokens rest' := by
      rw [keptTokens, whitespaceTokens_of_some h, List.filter_cons_of_pos hkept, keptTokens]
    simp only [dite_eq_ite] at ih
    rw [ih, hk, joined_cons, escapeToken_eq]
    cases first_token <;> simp [quoted]
  | case3 rest sanitized first_token token rest' h _ hkept ih =>
    have hk : keptTokens rest = keptTokens rest' := by
      rw [keptTokens, whitespaceTokens_of_some h, List.filter_cons_of_neg hkept, keptTokens]
    rw [ih, hk]

theorem SanitizeFts5Query_eq (raw_query : Bytes) : SanitizeFts5Query raw_query = joined (keptTokens raw_query) := by
  unfold SanitizeFts5Query
  split
  · rename_i h
    rw [List.isEmpty_iff.1 h]
    rfl
  · rw [sanitizeLoop_eq]
    rfl

/-! ## The query language -/

inductive Fts5Token where
  | string (text : Bytes)
  | or | and | not
  | bareword (word : Bytes)
  | symbol (c : UInt8)
  | unterminated (text : Bytes)
  /-- `syntax error near`. -/
  | unexpected (c : UInt8)

def isBareword (c : UInt8) : Bool := isalnum c || c == 0x5F || c == 0x1A || decide (127 < c)

def isSymbol (c : UInt8) : Bool := [0x28, 0x29, 0x7B, 0x7D, 0x3A, 0x2C, 0x2B, 0x2D, 0x2A, 0x5E].contains c

/-- The keywords are in upper case. -/
def wordToken (word : Bytes) : Fts5Token :=
  if word = [0x4F, 0x52] then .or
  else if word = [0x41, 0x4E, 0x44] then .and
  else if word = [0x4E, 0x4F, 0x54] then .not
  else .bareword word

/-- The token at the first byte `c` behind whitespace, and the rest unless parsing ends there. -/
def fts5Token (c : UInt8) (cs : Bytes) : Fts5Token × Option Bytes :=
  if c = dquote then
    match readBody dquote cs with
    | (text, some rest) => (.string text, some rest)
    | (text, none) => (.unterminated text, none)
  else if isBareword c then (wordToken (c :: cs.takeWhile isBareword), some (cs.dropWhile isBareword))
  else if isSymbol c then (.symbol c, some cs)
  else (.unexpected c, none)

def nextFts5 (s : Bytes) : Option (Fts5Token × Option Bytes) :=
  match s.dropWhile isFtsSpace with
  | [] => none
  | c :: cs => some (fts5Token c cs)

theorem length_fts5Token {cs : Bytes} (h : (fts5Token c cs).2 = some rest) : rest.length ≤ cs.length := by
  unfold fts5Token at h
  split at h
  · split at h
    · rename_i text rest' hread
      obtain rfl : rest' = rest := by simpa using h
      have : (readBody dquote cs).2 = some rest' := by rw [hread]
      exact (length_of_readBody dquote this).le
    · simp at h
  · split at h
    · obtain rfl := by simpa using h
      exact length_dropWhile_le _ _
    · split at h
      · obtain rfl := by simpa using h
        exact le_rfl
      · simp at h

theorem length_nextFts5 {s : Bytes} {token : Fts5Token} (h : nextFts5 s = some (token, some rest)) :
    rest.length < s.length := by
  have h1 := length_dropWhile_le isFtsSpace s
  unfold nextFts5 at h
  cases hs : s.dropWhile isFtsSpace with
  | nil => simp [hs] at h
  | cons c cs =>
    rw [hs] at h h1
    have h2 : (fts5Token c cs).2 = some rest := by rw [Option.some.inj h]
    have := length_fts5Token h2
    rw [List.length_cons] at h1
    omega

def fts5Lex (s : Bytes) : List Fts5Token :=
  match h : nextFts5 s with
  | none => []
  | some (token, none) => [token]
  | some (token, some rest) =>
    have := length_nextFts5 h
    token :: fts5Lex rest
termination_by s.length

theorem fts5Lex_of_next {s : Bytes} {token : Fts5Token} {rest : Option Bytes} (h : nextFts5 s = some (token, rest)) :
    fts5Lex s = token :: (rest.map fts5Lex).getD [] := by
  rw [fts5Lex]
  split
  · simp_all
  · rename_i h'
    obtain ⟨rfl, rfl⟩ := by simpa [h] using h'
    rfl
  · rename_i h'
    obtain ⟨rfl, rfl⟩ := by simpa [h] using h'
    rfl

theorem fts5Lex_nil : fts5Lex [] = [] := by
  rw [fts5Lex]
  rfl

theorem fts5Lex_cons (hc : isFtsSpace c = false) {cs : Bytes} {token : Fts5Token} {rest : Option Bytes}
    (h : fts5Token c cs = (token, rest)) : fts5Lex (c :: cs) = token :: (rest.map fts5Lex).getD [] := by
  apply fts5Lex_of_next
  rw [nextFts5, List.dropWhile_cons_of_neg (by simp [hc]), ← h]

theorem nextFts5_space (hc : isFtsSpace c = true) (s : Bytes) : nextFts5 (c :: s) = nextFts5 s := by
  rw [nextFts5, nextFts5, List.dropWhile_cons_of_pos hc]

theorem fts5Lex_space (hc : isFtsSpace c = true) (s : Bytes) : fts5Lex (c :: s) = fts5Lex s := by
  cases h : nextFts5 s with
  | none =>
    have h' := nextFts5_space hc s
    rw [h] at h'
    rw [fts5Lex, fts5Lex]
    split <;> split <;> simp_all
  | some next => rw [fts5Lex_of_next h, fts5Lex_of_next ((nextFts5_space hc s).trans h)]

theorem fts5Lex_quoted (text : Bytes) (h : rest.head? ≠ some dquote) :
    fts5Lex (quoted dquote text ++ rest) = .string text :: fts5Lex rest := by
  have htoken : fts5Token dquote (double dquote text ++ [dquote] ++ rest) = (.string text, some rest) := by
    rw [fts5Token, if_pos rfl, List.append_assoc, List.singleton_append, readBody_quoted dquote text h]
  exact fts5Lex_cons (by decide) htoken

theorem fts5Lex_unterminated (text : Bytes) : fts5Lex (dquote :: double dquote text) = [.unterminated text] := by
  have htoken : fts5Token dquote (double dquote text) = (.unterminated text, none) := by
    rw [fts5Token, if_pos rfl, readBody_double]
  exact fts5Lex_cons (by decide) htoken

theorem fts5Lex_orSeparator (rest : Bytes) : fts5Lex (orSeparator ++ rest) = .or :: fts5Lex rest := by
  have hword : fts5Token 0x4F (0x52 :: 0x20 :: rest) = (.or, some (0x20 :: rest)) := by
    rw [fts5Token, if_neg (by decide), if_pos (by decide)]
    rfl
  rw [orSeparator, List.cons_append, fts5Lex_space (by decide)]
  simp only [List.cons_append, List.nil_append]
  rw [fts5Lex_cons (by decide) hword, Option.map_some, Option.getD_some, fts5Lex_space (by decide)]

theorem head_alternatives : (tokens.flatMap fun t => orSeparator ++ quoted dquote t).head? ≠ some dquote := by
  cases tokens with
  | nil => simp
  | cons t tokens => simp [orSeparator, dquote]

theorem fts5Lex_alternatives :
    fts5Lex (tokens.flatMap fun t => orSeparator ++ quoted dquote t) =
      tokens.flatMap fun t => [.or, .string t] := by
  induction tokens with
  | nil => exact fts5Lex_nil
  | cons t tokens ih =>
    rw [List.flatMap_cons, List.flatMap_cons, List.append_assoc, fts5Lex_orSeparator,
      fts5Lex_quoted t (head_alternatives tokens), ih]
    rfl

theorem intersperse_cons {α : Type} (sep x : α) (xs : List α) :
    (x :: xs).intersperse sep = x :: xs.flatMap fun y => [sep, y] := by
  induction xs generalizing x with
  | nil => rfl
  | cons y xs ih => rw [List.intersperse_cons_cons, ih]; rfl

theorem fts5Lex_joined : fts5Lex (joined tokens) = (tokens.map Fts5Token.string).intersperse .or := by
  cases tokens with
  | nil => exact fts5Lex_nil
  | cons t tokens =>
    rw [joined_cons, fts5Lex_quoted t (head_alternatives tokens), fts5Lex_alternatives, List.map_cons,
      intersperse_cons, List.flatMap_map]

/-! ## A query that ends at its first NUL -/

/-- What the parser can see of a text that was sanitised. -/
def Fts5Token.Harmless (token : Fts5Token) : Prop :=
  token = .or ∨ (∃ text, token = .string text) ∨ ∃ text, token = .unterminated text

theorem cut_append_of_notMem {s : Bytes} (h : (0 : UInt8) ∉ s) (t : Bytes) : cut (s ++ t) = s ++ cut t :=
  List.takeWhile_append_of_pos fun a ha => by
    have : a ≠ 0 := fun h0 => h (h0 ▸ ha)
    simpa using this

theorem cut_append_of_mem {s : Bytes} (h : (0 : UInt8) ∈ s) (t : Bytes) : cut (s ++ t) = cut s := by
  induction s with
  | nil => simp at h
  | cons c s ih =>
    by_cases hc : c = 0
    · simp [cut, hc]
    · have hs : (0 : UInt8) ∈ s := by simpa [Ne.symm hc] using h
      have := ih hs
      simp_all [cut]

theorem cut_double (s : Bytes) : cut (double dquote s) = double dquote (cut s) := by
  induction s with
  | nil => rfl
  | cons c s ih =>
    by_cases hc : c = dquote
    · subst hc
      rw [double_cons_self]
      simp only [cut] at ih ⊢
      rw [List.takeWhile_cons_of_pos (by decide), List.takeWhile_cons_of_pos (by decide), ih,
        List.takeWhile_cons_of_pos (by decide), double_cons_self]
    · rw [double_cons_of_ne _ hc]
      by_cases h0 : c = 0
      · simp [cut, h0]
      · simp only [cut] at ih ⊢
        rw [List.takeWhile_cons_of_pos (by simpa using h0), List.takeWhile_cons_of_pos (by simpa using h0), ih,
          double_cons_of_ne _ hc]

theorem fts5Lex_cut_quoted (text rest : Bytes) (h : (cut rest).head? ≠ some dquote) :
    fts5Lex (cut (quoted dquote text ++ rest)) = .string text :: fts5Lex (cut rest) ∨
      fts5Lex (cut (quoted dquote text ++ rest)) = [.unterminated (cut text)] := by
  by_cases h0 : (0 : UInt8) ∈ text
  · right
    have hmem : (0 : UInt8) ∈ dquote :: double dquote text := List.mem_cons_of_mem _ ((mem_double _).2 h0)
    have hcut : cut (dquote :: double dquote text) = dquote :: double dquote (cut text) := by
      rw [← cut_double]
      exact List.takeWhile_cons_of_pos (by decide)
    rw [quoted, ← List.cons_append, List.append_assoc, cut_append_of_mem hmem, hcut, fts5Lex_unterminated]
  · left
    have hmem : (0 : UInt8) ∉ quoted dquote text := by
      simp [quoted, mem_double, h0, dquote]
    rw [cut_append_of_notMem hmem, fts5Lex_quoted text h]

theorem head_cut_alternatives : (cut (tokens.flatMap fun t => orSeparator ++ quoted dquote t)).head? ≠ some dquote := by
  cases tokens with
  | nil => simp [cut]
  | cons t tokens => simp [cut, orSeparator, dquote]

theorem harmless_cut_alternatives :
    ∀ token ∈ fts5Lex (cut (tokens.flatMap fun t => orSeparator ++ quoted dquote t)), token.Harmless := by
  induction tokens with
  | nil => simp [cut, fts5Lex_nil]
  | cons t tokens ih =>
    rw [List.flatMap_cons, List.append_assoc, cut_append_of_notMem (by decide), fts5Lex_orSeparator]
    obtain h | h := fts5Lex_cut_quoted t _ (head_cut_alternatives tokens)
    · rw [h]
      rintro token (_ | ⟨_, _ | ⟨_, hmem⟩⟩)
      · exact .inl rfl
      · exact .inr (.inl ⟨t, rfl⟩)
      · exact ih token hmem
    · rw [h]
      rintro token (_ | ⟨_, _ | ⟨_, hmem⟩⟩)
      · exact .inl rfl
      · exact .inr (.inr ⟨cut t, rfl⟩)
      · cases hmem

theorem harmless_cut_joined : ∀ token ∈ fts5Lex (cut (joined tokens)), token.Harmless := by
  cases tokens with
  | nil => simp [joined, cut, fts5Lex_nil]
  | cons t tokens =>
    rw [joined_cons]
    obtain h | h := fts5Lex_cut_quoted t _ (head_cut_alternatives tokens)
    · rw [h]
      rintro token (_ | ⟨_, hmem⟩)
      · exact .inr (.inl ⟨t, rfl⟩)
      · exact harmless_cut_alternatives tokens token hmem
    · rw [h]
      rintro token (_ | ⟨_, hmem⟩)
      · exact .inr (.inr ⟨cut t, rfl⟩)
      · cases hmem

/-! ## Sanitised queries -/

/-- A sanitised text has no syntax but ` OR `: it is empty, or consists of literals whose bodies spell the kept tokens,
and so the parser sees only these literals and the keyword, also where the text ends at a NUL. -/
theorem sanitized_query (raw_query : Bytes) :
    (SanitizeFts5Query raw_query = [] ∧ keptTokens raw_query = [] ∨
      ∃ bodies : List Bytes, bodies ≠ [] ∧
        SanitizeFts5Query raw_query = orSeparator.intercalate (bodies.map fun body => dquote :: (body ++ [dquote])) ∧
        bodies.map (undouble dquote) = (keptTokens raw_query).map some) ∧
    fts5Lex (SanitizeFts5Query raw_query) = ((keptTokens raw_query).map Fts5Token.string).intersperse .or ∧
    ∀ token ∈ fts5Lex (cut (SanitizeFts5Query raw_query)), token.Harmless := by
  rw [SanitizeFts5Query_eq]
  refine ⟨?_, fts5Lex_joined _, harmless_cut_joined _⟩
  cases hk : keptTokens raw_query with
  | nil => exact .inl ⟨rfl, rfl⟩
  | cons token tokens =>
    refine .inr ⟨(token :: tokens).map (double dquote), by simp, ?_, by simp⟩
    rw [joined, List.map_map]
    rfl

example : SanitizeFts5Query [0x61, 0x22, 0x62, 0x20, 0x2A, 0x20, 0x4F, 0x52] =
    [0x22, 0x61, 0x22, 0x22, 0x62, 0x22, 0x20, 0x4F, 0x52, 0x20, 0x22, 0x4F, 0x52, 0x22] := by decide +kernel

end Cortrix.Store
