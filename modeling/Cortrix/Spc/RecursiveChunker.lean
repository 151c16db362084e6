import Cortrix.Lib.Bytes
import Mathlib.Data.List.Induction

/-!
# The recursive text splitter

A text that is too long is cut at the first separator of a list, small pieces are merged again, and a piece that is
still too long is cut at the next separator; without separators it is cut at fixed positions.

* the `while` loops of the fixed cut and of the overlap have fuel;
* `chunk_isSome` : the fuel is enough, so a chunker always returns.
-/

namespace Cortrix.Spc.RecursiveChunker
open Lib

structure ChunkResult where
  text : Bytes
  chunkIndex : Int32 := 0
  startOffset : Int32 := 0
  endOffset : Int32 := 0
  tokenCountApprox : Int32 := 0

def defaultSeparators : List Bytes :=
  [[0x0C], [0x0A, 0x0A], [0x0A], [0xE3, 0x80, 0x82], [0x2E], [0xEF, 0xBC, 0x81], [0xEF, 0xBC, 0x9F], [0x21], [0x3F],
    [0xEF, 0xBC, 0x9B], [0x3B], [0x20], []]

structure ChunkConfig where
  chunkSize : Int32 := 512
  chunkOverlap : Int32 := 50
  separators : List Bytes := defaultSeparators

/-! ## Counting -/

def isBlank (c : UInt8) : Bool := c == 0x20 || c == 0x0A || c == 0x09 || c == 0x0D

/-- `tokens` after a run of `word` ASCII bytes. -/
def endWord (word : Nat) (tokens : Int32) : Int32 :=
  if word = 0 then tokens else tokens + max 1 (Int32.ofNat ((word + 2) / 3))

/-- The bytes behind the first one of a character, as the counter skips them. -/
def followBytes (c : UInt8) : Nat := if 0xF0 ≤ c then 3 else if 0xE0 ≤ c then 2 else 1

/-- The loop of `ApproxTokenCount`: `skip` bytes belong to a character already counted, `word` bytes to an open word. -/
def countTokens : Nat → Nat → Int32 → Bytes → Int32
  | _, word, tokens, [] => endWord word tokens
  | skip + 1, word, tokens, _ :: text => countTokens skip word tokens text
  | 0, word, tokens, c :: text =>
    if c < 0x80 then
      if isBlank c then countTokens 0 0 (endWord word tokens) text else countTokens 0 (word + 1) tokens text
    else countTokens (followBytes c) 0 (endWord word tokens + if 0xE0 ≤ c then 2 else 1) text

def approxTokenCount (text : Bytes) : Int32 := if text.isEmpty then 0 else max 1 (countTokens 0 0 0 text)

/-! ## Splitting and merging -/

def isContinuation (c : UInt8) : Bool := decide (0x80 ≤ c ∧ c < 0xC0)

/-- Back to the start of the character at `pos`. -/
def backUp (text : Bytes) : Nat → Nat
  | 0 => 0
  | pos + 1 => if isContinuation (text.getD (pos + 1) 0) then backUp text pos else pos + 1

def utf8SafeBoundary (text : Bytes) (pos : Nat) : Nat := if text.length ≤ pos then text.length else backUp text pos

def charLen (c : UInt8) : Nat := if 0xF0 ≤ c then 4 else if 0xE0 ≤ c then 3 else if 0xC0 ≤ c then 2 else 1

/-- The rest of the current character, `more` bytes at most, and the characters behind it. -/
def splitChars : Nat → Bytes → Bytes × List Bytes
  | _, [] => ([], [])
  | more + 1, c :: text => let r := splitChars more text; (c :: r.1, r.2)
  | 0, c :: text => let r := splitChars (charLen c - 1) text; ([], (c :: r.1) :: r.2)

/-- The rest of the current piece and the pieces behind it; `skip` bytes belong to a separator. -/
def splitAtSep (sep : Bytes) : Nat → Bytes → Bytes × List Bytes
  | _, [] => ([], [])
  | skip + 1, _ :: text => splitAtSep sep skip text
  | 0, c :: text =>
    if sep.isPrefixOf (c :: text) then let r := splitAtSep sep (sep.length - 1) text; ([], r.1 :: r.2)
    else let r := splitAtSep sep 0 text; (c :: r.1, r.2)

def splitBySeparator (text sep : Bytes) : List Bytes :=
  if sep.isEmpty then (splitChars 0 text).2 else let r := splitAtSep sep 0 text; r.1 :: r.2

/-- One turn of the loop of `MergePieces`, on the current piece and the merged ones. -/
def mergePiece (sep : Bytes) (chunkSize : Int32) (st : Bytes × List Bytes) (piece : Bytes) : Bytes × List Bytes :=
  if piece.isEmpty then st
  else
    let candidate := if st.1.isEmpty then piece else st.1 ++ sep ++ piece
    if approxTokenCount candidate ≤ chunkSize then (candidate, st.2)
    else (piece, if st.1.isEmpty then st.2 else st.2 ++ [st.1])

def mergePieces (pieces : List Bytes) (sep : Bytes) (chunkSize : Int32) : List Bytes :=
  let st := pieces.foldl (mergePiece sep chunkSize) ([], [])
  if st.1.isEmpty then st.2 else st.2 ++ [st.1]

/-! ## The fixed cut -/

def substr (text : Bytes) (pos len : Nat) : Bytes := (text.drop pos).take len

/-- The inner loop: the end of a chunk that starts at `pos`, and its text. -/
def shrink (text : Bytes) (chunkSize : Int32) (pos : Nat) : Nat → Nat → Bytes → Option (Nat × Bytes)
  | 0, _, _ => none
  | fuel + 1, stop, chunk =>
    if chunkSize < approxTokenCount chunk ∧ 1 < chunk.length then
      let stop' := utf8SafeBoundary text (pos + (stop - pos) * 3 / 4)
      -- the loop is left with the longer chunk
      if stop' ≤ pos then some (pos + 1, chunk)
      else shrink text chunkSize pos fuel stop' (substr text pos (stop' - pos))
    else some (stop, chunk)

/-- `min(pos + static_cast<size_t>(chunk_size) * 3, text.size())`, at a boundary behind `pos`. -/
def firstStop (text : Bytes) (chunkSize : Int32) (pos : Nat) : Nat :=
  let stop := utf8SafeBoundary text (min ((pos + (chunkSize.toInt * 3 % 2 ^ 64).toNat) % 2 ^ 64) text.length)
  if stop ≤ pos then pos + 1 else stop

def hardCut (text : Bytes) (chunkSize : Int32) : Nat → Nat → Option (List Bytes)
  | 0, _ => none
  | fuel + 1, pos =>
    if pos < text.length then do
      let stop := firstStop text chunkSize pos
      let cut ← shrink text chunkSize pos (text.length + 1) stop (substr text pos (stop - pos))
      let rest ← hardCut text chunkSize fuel cut.1
      some (cut.2 :: rest)
    else some []

/-! ## The recursion -/

def result (text : Bytes) : ChunkResult := { text := text, tokenCountApprox := approxTokenCount text }

/-- The results for every element of a list, in order. -/
def concatM (f : Bytes → Option (List ChunkResult)) : List Bytes → Option (List ChunkResult)
  | [] => some []
  | piece :: pieces => do
    let first ← f piece
    let rest ← concatM f pieces
    some (first ++ rest)

/-- `seps` are the separators from the current depth on. -/
def splitRecursive (chunkSize : Int32) : List Bytes → Bytes → Option (List ChunkResult)
  | seps, text =>
    if text.isEmpty then some []
    else if approxTokenCount text ≤ chunkSize then some [result text]
    else
      match seps with
      | [] => (hardCut text chunkSize (text.length + 1) 0).map fun cuts => cuts.map result
      | sep :: seps =>
        concatM (fun piece =>
            if chunkSize < approxTokenCount piece then splitRecursive chunkSize seps piece else some [result piece])
          (mergePieces (splitBySeparator text sep) sep chunkSize)

/-! ## Offsets and overlap -/

/-- The first place from `pos` on at which `pattern` stands in `text`, the text from `pos` on. -/
def findFirst (pattern : Bytes) : Nat → Bytes → Option Nat
  | pos, [] => if pattern.isEmpty then some pos else none
  | pos, c :: text => if pattern.isPrefixOf (c :: text) then some pos else findFirst pattern (pos + 1) text

/-- `text.find(pattern, from)`. -/
def find (text pattern : Bytes) (start : Nat) : Option Nat :=
  if start ≤ text.length then findFirst pattern start (text.drop start) else none

/-- The chunks with their indices and offsets; `searchFrom` is where the next one is looked for. -/
def locate (text : Bytes) : Nat → Nat → List ChunkResult → List ChunkResult
  | _, _, [] => []
  | index, searchFrom, chunk :: chunks =>
    let pos := (find text chunk.text searchFrom).getD searchFrom
    { chunk with
        chunkIndex := Int32.ofNat index
        startOffset := Int32.ofNat pos
        endOffset := Int32.ofNat (pos + chunk.text.length) } :: locate text (index + 1) (pos + 1) chunks

/-- The start of the overlap in the previous chunk; `pos` is an `int` that the loop only lowers. -/
def overlapStart (prev : Bytes) (chunkOverlap : Int32) : Nat → Nat → Int32 → Option Nat
  | 0, _, _ => none
  | fuel + 1, pos, overlapTokens =>
    if 0 < pos ∧ overlapTokens < chunkOverlap then
      let pos' := utf8SafeBoundary prev (pos - 1)
      overlapStart prev chunkOverlap fuel pos' (approxTokenCount (prev.drop pos'))
    else some pos

def prependOverlap (chunkOverlap : Int32) (prev chunk : ChunkResult) : Option ChunkResult := do
  let size := Int32.ofNat prev.text.length
  let pos ← overlapStart prev.text chunkOverlap (size.toInt.toNat + 1) size.toInt.toNat 0
  let overlapBytes := size - Int32.ofNat pos
  if 0 < overlapBytes ∧ overlapBytes < size then
    let text := prev.text.drop (prev.text.length - overlapBytes.toInt.toNat) ++ chunk.text
    let start := chunk.startOffset - overlapBytes
    some { chunk with
      text := text
      startOffset := if start < 0 then 0 else start
      tokenCountApprox := approxTokenCount text }
  else some chunk

/-- Each chunk gets the end of the one before it, as that one has become. -/
def applyOverlap (chunkOverlap : Int32) (prev : ChunkResult) : List ChunkResult → Option (List ChunkResult)
  | [] => some []
  | chunk :: chunks => do
    let first ← prependOverlap chunkOverlap prev chunk
    let rest ← applyOverlap chunkOverlap first chunks
    some (first :: rest)

def chunk (config : ChunkConfig) (text : Bytes) : Option (List ChunkResult) :=
  if text.isEmpty then some []
  else do
    let raw ← splitRecursive config.chunkSize config.separators text
    match locate text 0 0 raw with
    | [] => some []
    | first :: chunks =>
      if 0 < config.chunkOverlap then (applyOverlap config.chunkOverlap first chunks).map (first :: ·)
      else some (first :: chunks)

/-! ## The loops end -/

variable (text : Bytes) (chunkSize : Int32) {pos : Nat} {pieces : List Bytes} {sep : Bytes}

theorem backUp_le (pos : Nat) : backUp text pos ≤ pos := by
  induction pos with
  | zero => exact le_refl 0
  | succ pos ih =>
    rw [backUp]
    split
    · exact ih.trans (Nat.le_succ pos)
    · exact le_refl _

theorem utf8SafeBoundary_le (pos : Nat) : utf8SafeBoundary text pos ≤ pos := by
  unfold utf8SafeBoundary
  split
  · assumption
  · exact backUp_le text pos

theorem shrink_isSome {fuel stop : Nat} (chunk : Bytes) (hpos : pos < stop) (hfuel : stop - pos < fuel) :
    ∃ cut, shrink text chunkSize pos fuel stop chunk = some cut ∧ pos < cut.1 := by
  induction fuel generalizing stop chunk with
  | zero => omega
  | succ fuel ih =>
    rw [shrink]
    split
    · dsimp only
      split
      · exact ⟨_, rfl, Nat.lt_succ_self pos⟩
      · rename_i hstop
        have hle := utf8SafeBoundary_le text (pos + (stop - pos) * 3 / 4)
        exact ih _ (by omega) (by omega)
    · exact ⟨_, rfl, hpos⟩

theorem lt_firstStop (pos : Nat) : pos < firstStop text chunkSize pos := by
  unfold firstStop
  dsimp only
  split <;> omega

theorem firstStop_le (hpos : pos < text.length) : firstStop text chunkSize pos ≤ text.length := by
  unfold firstStop
  dsimp only
  split
  · exact hpos
  · exact (utf8SafeBoundary_le text _).trans (min_le_right _ _)

theorem hardCut_isSome {fuel : Nat} (hfuel : text.length - pos < fuel) :
    ∃ cuts, hardCut text chunkSize fuel pos = some cuts := by
  induction fuel generalizing pos with
  | zero => omega
  | succ fuel ih =>
    rw [hardCut]
    split
    · rename_i hpos
      have hstop := lt_firstStop text chunkSize pos
      have hle := firstStop_le text chunkSize hpos
      obtain ⟨cut, hcut, hlt⟩ := shrink_isSome text chunkSize
        (substr text pos (firstStop text chunkSize pos - pos)) hstop (show _ < text.length + 1 by omega)
      have hshort : text.length - cut.1 < fuel := by omega
      obtain ⟨rest, hrest⟩ := ih hshort
      exact ⟨cut.2 :: rest, by simp [hcut, hrest]⟩
    · exact ⟨[], rfl⟩

theorem concatM_isSome {f : Bytes → Option (List ChunkResult)} (h : ∀ p ∈ pieces, ∃ rs, f p = some rs) :
    ∃ rs, concatM f pieces = some rs := by
  induction pieces with
  | nil => exact ⟨[], rfl⟩
  | cons p pieces ih =>
    obtain ⟨first, hfirst⟩ := h p (by simp)
    obtain ⟨rest, hrest⟩ := ih fun q hq => h q (by simp [hq])
    exact ⟨first ++ rest, by simp [concatM, hfirst, hrest]⟩

theorem splitRecursive_isSome (seps : List Bytes) (text : Bytes) :
    ∃ rs, splitRecursive chunkSize seps text = some rs := by
  induction seps generalizing text with
  | nil =>
    have hfuel : text.length - 0 < text.length + 1 := Nat.lt_succ_self text.length
    obtain ⟨cuts, hcuts⟩ := hardCut_isSome text chunkSize hfuel
    rw [splitRecursive]
    split
    · exact ⟨_, rfl⟩
    · split
      · exact ⟨_, rfl⟩
      · exact ⟨cuts.map result, by rw [hcuts, Option.map_some]⟩
  | cons sep seps ih =>
    rw [splitRecursive]
    split
    · exact ⟨_, rfl⟩
    · split
      · exact ⟨_, rfl⟩
      · refine concatM_isSome fun p _ => ?_
        split
        · exact ih p
        · exact ⟨_, rfl⟩

theorem splitRecursive_empty (seps : List Bytes) {text : Bytes} (h : text.isEmpty = true) :
    splitRecursive chunkSize seps text = some [] := by
  cases seps with
  | nil => rw [splitRecursive, if_pos h]
  | cons sep seps => rw [splitRecursive, if_pos h]

theorem overlapStart_isSome (prev : Bytes) (chunkOverlap : Int32) {fuel : Nat} (tokens : Int32) (h : pos < fuel) :
    ∃ start, overlapStart prev chunkOverlap fuel pos tokens = some start := by
  induction fuel generalizing pos tokens with
  | zero => omega
  | succ fuel ih =>
    rw [overlapStart]
    split
    · rename_i hpos
      have hle := utf8SafeBoundary_le prev (pos - 1)
      exact ih _ (by omega)
    · exact ⟨pos, rfl⟩

theorem prependOverlap_isSome (chunkOverlap : Int32) (prev chunk : ChunkResult) :
    ∃ c, prependOverlap chunkOverlap prev chunk = some c := by
  obtain ⟨start, hstart⟩ := overlapStart_isSome prev.text chunkOverlap 0
    (Nat.lt_succ_self (Int32.ofNat prev.text.length).toInt.toNat)
  simp only [prependOverlap, hstart, Option.bind_eq_bind, Option.bind_some]
  split
  · exact ⟨_, rfl⟩
  · exact ⟨_, rfl⟩

theorem applyOverlap_isSome (chunkOverlap : Int32) (prev : ChunkResult) (chunks : List ChunkResult) :
    ∃ cs, applyOverlap chunkOverlap prev chunks = some cs := by
  induction chunks generalizing prev with
  | nil => exact ⟨[], rfl⟩
  | cons chunk chunks ih =>
    obtain ⟨first, hfirst⟩ := prependOverlap_isSome chunkOverlap prev chunk
    obtain ⟨rest, hrest⟩ := ih first
    exact ⟨first :: rest, by simp [applyOverlap, hfirst, hrest]⟩

theorem chunk_isSome (config : ChunkConfig) (text : Bytes) : ∃ chunks, chunk config text = some chunks := by
  unfold chunk
  split
  · exact ⟨[], rfl⟩
  · obtain ⟨raw, hraw⟩ := splitRecursive_isSome config.chunkSize config.separators text
    simp only [hraw, Option.bind_eq_bind, Option.bind_some]
    split
    · exact ⟨[], rfl⟩
    · rename_i first chunks _
      split
      · obtain ⟨rest, hrest⟩ := applyOverlap_isSome config.chunkOverlap first chunks
        exact ⟨first :: rest, by rw [hrest, Option.map_some]⟩
      · exact ⟨first :: chunks, rfl⟩

theorem chunk_noOverlap {chunkSize : Int32} {seps : List Bytes} {text : Bytes} {raw : List ChunkResult}
    (h : splitRecursive chunkSize seps text = some raw) :
    chunk { chunkSize := chunkSize, chunkOverlap := 0, separators := seps } text = some (locate text 0 0 raw) := by
  unfold chunk
  split
  · rename_i hempty
    rw [splitRecursive_empty chunkSize seps hempty] at h
    cases h
    rfl
  · simp only [h, Option.bind_eq_bind, Option.bind_some]
    split
    · rename_i hnil
      rw [hnil]
    · rename_i first rest hchunks
      rw [if_neg (by decide), hchunks]

def chunks (config : ChunkConfig) (text : Bytes) : List ChunkResult :=
  (chunk config text).get (Option.isSome_iff_exists.mpr (chunk_isSome config text))

theorem chunks_eq {config : ChunkConfig} {text : Bytes} {rs : List ChunkResult} (h : chunk config text = some rs) :
    chunks config text = rs := by
  simp only [chunks, h, Option.get_some]

/-! ## Splitting -/

theorem splitChars_flatten (more : Nat) (text : Bytes) :
    (splitChars more text).1 ++ (splitChars more text).2.flatten = text := by
  induction text generalizing more with
  | nil => rw [splitChars, List.flatten_nil, List.append_nil]
  | cons c text ih =>
    cases more with
    | zero =>
      rw [splitChars, List.nil_append, List.flatten_cons, List.cons_append, ih]
    | succ more => rw [splitChars, List.cons_append, ih]

theorem splitAtSep_intercalate (hsep : sep ≠ []) {skip : Nat} {text : Bytes} (hskip : skip ≤ text.length) :
    sep.intercalate ((splitAtSep sep skip text).1 :: (splitAtSep sep skip text).2) = text.drop skip := by
  induction text generalizing skip with
  | nil => cases skip <;> rfl
  | cons c text ih =>
    cases skip with
    | succ skip =>
      rw [splitAtSep, List.drop_succ_cons]
      exact ih (Nat.le_of_succ_le_succ hskip)
    | zero =>
      rw [splitAtSep, List.drop_zero]
      split
      · rename_i hprefix
        obtain ⟨rest, hrest⟩ := List.isPrefixOf_iff_prefix.mp hprefix
        obtain ⟨s, sep', rfl⟩ := List.exists_cons_of_ne_nil hsep
        rw [List.cons_append, List.cons.injEq] at hrest
        obtain ⟨rfl, rfl⟩ := hrest
        have hlen : (s :: sep').length - 1 = sep'.length := rfl
        have hskip' : (s :: sep').length - 1 ≤ (sep' ++ rest).length := by
          rw [hlen, List.length_append]
          omega
        have hdrop := ih hskip'
        show (s :: sep').intercalate ([] :: _ :: _) = _
        rw [List.intercalate_cons_cons, List.nil_append, hdrop, hlen, List.drop_left]
        rfl
      · have hrest := ih (Nat.zero_le text.length)
        rw [List.drop_zero] at hrest
        dsimp only
        cases hpieces : (splitAtSep sep 0 text).2 with
        | nil =>
          rw [hpieces, List.intercalate_singleton] at hrest
          rw [List.intercalate_singleton, hrest]
        | cons q qs =>
          rw [hpieces, List.intercalate_cons_cons] at hrest
          rw [List.intercalate_cons_cons, List.cons_append, List.cons_append, hrest]

theorem intercalate_nil_left (pieces : List Bytes) : ([] : Bytes).intercalate pieces = pieces.flatten := by
  induction pieces with
  | nil => rfl
  | cons p pieces ih =>
    cases pieces with
    | nil => rw [List.intercalate_singleton, List.flatten_singleton]
    | cons q qs =>
      rw [List.intercalate_cons_cons, ih, List.append_nil]
      rfl

theorem intercalate_splitBySeparator (sep : Bytes) : sep.intercalate (splitBySeparator text sep) = text := by
  unfold splitBySeparator
  split
  · rename_i hsep
    rw [List.isEmpty_iff.mp hsep, intercalate_nil_left]
    have hflatten := splitChars_flatten 0 text
    have hfirst : (splitChars 0 text).1 = [] := by cases text <;> rfl
    rwa [hfirst, List.nil_append] at hflatten
  · rename_i hsep
    have hsep' : sep ≠ [] := fun h => hsep (List.isEmpty_iff.mpr h)
    exact splitAtSep_intercalate hsep' (Nat.zero_le text.length)

/-! ## Merging -/

theorem intercalate_snoc (h : pieces ≠ []) (p : Bytes) :
    sep.intercalate (pieces ++ [p]) = sep.intercalate pieces ++ sep ++ p := by
  induction pieces with
  | nil => exact absurd rfl h
  | cons q qs ih =>
    cases qs with
    | nil => rw [List.singleton_append, List.intercalate_cons_cons, List.intercalate_singleton,
        List.intercalate_singleton, List.append_assoc]
    | cons r rs =>
      have hrest := ih (by simp)
      rw [List.cons_append, List.cons_append, List.intercalate_cons_cons, List.intercalate_cons_cons, ← List.cons_append,
        hrest]
      simp only [List.append_assoc]

theorem intercalate_ne_nil {α : Type} {sep : List α} {pieces : List (List α)} (hne : pieces ≠ [])
    (h : ∀ p ∈ pieces, p ≠ []) :
    sep.intercalate pieces ≠ [] := by
  obtain ⟨p, ps, rfl⟩ := List.exists_cons_of_ne_nil hne
  have hp := h p (by simp)
  cases ps with
  | nil => rwa [List.intercalate_singleton]
  | cons q qs =>
    rw [List.intercalate_cons_cons]
    intro hnil
    simp only [List.append_eq_nil_iff] at hnil
    exact hp hnil.1.1

/-- A run of pieces that are merged: it fits, or it is one piece. -/
def Fits (sep : Bytes) (chunkSize : Int32) (group : List Bytes) : Prop :=
  group ≠ [] ∧ (approxTokenCount (sep.intercalate group) ≤ chunkSize ∨ ∃ p, group = [p])

/-- The loop of `MergePieces` after `pieces`: `groups` are closed, `current` is the one still open. -/
structure Merging (sep : Bytes) (chunkSize : Int32) (pieces : List Bytes) (st : Bytes × List Bytes)
    (groups : List (List Bytes)) (current : List Bytes) : Prop where
  runs : groups.flatten ++ current = pieces.filter fun p => !p.isEmpty
  merged : st.2 = groups.map sep.intercalate
  joined : st.1 = sep.intercalate current
  fits : ∀ g ∈ groups, Fits sep chunkSize g
  open_fits : current = [] ∨ Fits sep chunkSize current

theorem Merging.current_empty {chunkSize : Int32} {st : Bytes × List Bytes} {groups : List (List Bytes)}
    {current : List Bytes} (h : Merging sep chunkSize pieces st groups current) :
    st.1.isEmpty = true ↔ current = [] := by
  rw [h.joined, List.isEmpty_iff]
  constructor
  · intro hnil
    by_contra hne
    refine intercalate_ne_nil hne (fun p hp => ?_) hnil
    have hmem : p ∈ pieces.filter fun p => !p.isEmpty := by
      rw [← h.runs]
      exact List.mem_append_right _ hp
    simpa using (List.mem_filter.mp hmem).2
  · rintro rfl
    rfl

theorem Merging.step {chunkSize : Int32} {st : Bytes × List Bytes} {groups : List (List Bytes)} {current : List Bytes}
    (h : Merging sep chunkSize pieces st groups current) (p : Bytes) :
    ∃ groups' current', Merging sep chunkSize (pieces ++ [p]) (mergePiece sep chunkSize st p) groups' current' := by
  unfold mergePiece
  by_cases hp : p.isEmpty = true
  · rw [if_pos hp]
    refine ⟨groups, current, { h with runs := ?_ }⟩
    rw [h.runs, List.filter_append, List.filter_cons_of_neg (by simp [hp])]
    simp
  · rw [if_neg hp]
    have hpieces : (pieces ++ [p]).filter (fun p => !p.isEmpty) = pieces.filter (fun p => !p.isEmpty) ++ [p] := by
      rw [List.filter_append, List.filter_cons_of_pos (by simp [hp]), List.filter_nil]
    have hcandidate : (if st.1.isEmpty then p else st.1 ++ sep ++ p) = sep.intercalate (current ++ [p]) := by
      by_cases hcurrent : current = []
      · rw [if_pos (h.current_empty.mpr hcurrent), hcurrent, List.nil_append, List.intercalate_singleton]
      · rw [if_neg fun hempty => hcurrent (h.current_empty.mp hempty), intercalate_snoc hcurrent, h.joined]
    rw [hcandidate]
    dsimp only
    split
    · rename_i hfits
      refine ⟨groups, current ++ [p], ⟨?_, h.merged, rfl, h.fits, Or.inr ⟨by simp, Or.inl hfits⟩⟩⟩
      rw [hpieces, ← h.runs, List.append_assoc]
    · have hnew : Fits sep chunkSize [p] := ⟨by simp, Or.inr ⟨p, rfl⟩⟩
      by_cases hcurrent : current = []
      · rw [if_pos (h.current_empty.mpr hcurrent)]
        refine ⟨groups, [p], ⟨?_, h.merged, List.intercalate_singleton.symm, h.fits, Or.inr hnew⟩⟩
        rw [hpieces, ← h.runs, hcurrent, List.append_nil]
      · rw [if_neg fun hempty => hcurrent (h.current_empty.mp hempty)]
        refine ⟨groups ++ [current], [p], ⟨?_, ?_, List.intercalate_singleton.symm, fun g hg => ?_, Or.inr hnew⟩⟩
        · rw [hpieces, ← h.runs, List.flatten_append, List.flatten_singleton]
        · rw [List.map_append, List.map_singleton, h.merged, h.joined]
        · rcases List.mem_append.mp hg with hg | hg
          · exact h.fits g hg
          · rw [List.mem_singleton.mp hg]
            exact h.open_fits.resolve_left hcurrent

/-- The merged texts are runs of the non-empty pieces, in order, with the separator put back between them. -/
theorem mergePieces_groups (pieces : List Bytes) (sep : Bytes) (chunkSize : Int32) :
    ∃ groups : List (List Bytes), groups.flatten = pieces.filter (fun p => !p.isEmpty) ∧
      mergePieces pieces sep chunkSize = groups.map sep.intercalate ∧ ∀ g ∈ groups, Fits sep chunkSize g := by
  have hloop : ∃ groups current, Merging sep chunkSize pieces (pieces.foldl (mergePiece sep chunkSize) ([], []))
      groups current := by
    induction pieces using List.reverseRecOn with
    | nil => exact ⟨[], [], ⟨rfl, rfl, rfl, by simp, Or.inl rfl⟩⟩
    | append_singleton pieces p ih =>
      obtain ⟨groups, current, h⟩ := ih
      rw [List.foldl_append]
      exact h.step p
  obtain ⟨groups, current, h⟩ := hloop
  unfold mergePieces
  by_cases hcurrent : current = []
  · rw [if_pos (h.current_empty.mpr hcurrent)]
    refine ⟨groups, ?_, h.merged, h.fits⟩
    rw [← h.runs, hcurrent, List.append_nil]
  · rw [if_neg fun hempty => hcurrent (h.current_empty.mp hempty)]
    refine ⟨groups ++ [current], ?_, ?_, fun g hg => ?_⟩
    · rw [← h.runs, List.flatten_append, List.flatten_singleton]
    · rw [List.map_append, List.map_singleton, h.merged, h.joined]
    · rcases List.mem_append.mp hg with hg | hg
      · exact h.fits g hg
      · rw [List.mem_singleton.mp hg]
        exact h.open_fits.resolve_left hcurrent

end Cortrix.Spc.RecursiveChunker
