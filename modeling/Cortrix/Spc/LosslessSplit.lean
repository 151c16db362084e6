import Cortrix.Lib.Utf8
import Cortrix.Spc.RecursiveChunker

/-!
# What recursive splitting keeps

Every default separator is a run of whole characters, so a well-formed text is cut between its characters only, and
the last separator leaves pieces of one character, which fit.

* `splitRecursive_lossless` : by induction on the separators, up to the empty one.
-/

namespace Cortrix.Spc.LosslessSplit
open Lib RecursiveChunker

def separatorChars : List (List Char) :=
  [['\x0c'], ['\n', '\n'], ['\n'], ['。'], ['.'], ['！'], ['？'], ['!'], ['?'], ['；'], [';'], [' ']]

theorem defaultSeparators_eq : defaultSeparators = (separatorChars ++ [[]]).map utf8 := by decide

/-- A character that is no part of a separator. -/
def keeps (c : Char) : Bool := !separatorChars.flatten.contains c

variable {sep : List Char} {chunkSize : Int32}

theorem keeps_separator (hsep : sep ∈ separatorChars) : sep.filter keeps = [] := by
  refine List.filter_eq_nil_iff.mpr fun c hc => ?_
  have hmem : c ∈ separatorChars.flatten := List.mem_flatten.mpr ⟨sep, hsep, hc⟩
  simp [keeps, hmem]

/-! ## Counting one character -/

theorem countTokens_behind {skip : Nat} (tokens : Int32) {rest : Bytes} (h : rest.length ≤ skip) :
    countTokens skip 0 tokens rest = tokens := by
  induction rest generalizing skip with
  | nil => cases skip <;> simp [countTokens, endWord]
  | cons b rest ih =>
    cases skip with
    | zero => simp at h
    | succ skip =>
      rw [countTokens]
      exact ih (by simpa using h)

theorem leads_cases {b : UInt8} {n : Nat} (h : Leads b n) : charLen b - 1 = n ∧ (b < 0x80 → n = 0) ∧
    (¬ b < 0x80 → n = followBytes b) := by
  rw [leads_iff] at h
  simp only [charLen, followBytes, UInt8.le_iff_toNat_le, UInt8.lt_iff_toNat_lt, UInt8.reduceToNat]
  split_ifs <;> omega

theorem approxTokenCount_char (c : Char) : approxTokenCount (utf8 [c]) ≤ 2 := by
  obtain ⟨b, rest, hc, hlead, -⟩ := utf8Char_shape c
  obtain ⟨-, hascii, hwide⟩ := leads_cases hlead
  rw [utf8_cons, utf8_nil, List.append_nil, hc]
  by_cases hb : b < 0x80
  · have hrest := List.eq_nil_of_length_eq_zero (hascii hb)
    rw [hrest, approxTokenCount, List.isEmpty_cons, countTokens, if_pos hb]
    by_cases hblank : isBlank b = true
    · rw [if_pos hblank]
      decide
    · rw [if_neg hblank]
      decide
  · have hcount : countTokens 0 0 0 (b :: rest) = endWord 0 0 + if 0xE0 ≤ b then 2 else 1 := by
      rw [countTokens, if_neg hb, countTokens_behind _ (hwide hb).le]
    rw [approxTokenCount, List.isEmpty_cons, hcount]
    by_cases hcjk : 0xE0 ≤ b
    · rw [if_pos hcjk]
      decide
    · rw [if_neg hcjk]
      decide

/-! ## Pieces -/

theorem utf8_intercalate (sep : List Char) (pieces : List (List Char)) :
    (utf8 sep).intercalate (pieces.map utf8) = utf8 (sep.intercalate pieces) := by
  induction pieces with
  | nil => rfl
  | cons p pieces ih =>
    cases pieces with
    | nil => rw [List.map_singleton, List.intercalate_singleton, List.intercalate_singleton]
    | cons q qs =>
      rw [List.map_cons, List.map_cons, List.intercalate_cons_cons, List.intercalate_cons_cons, utf8_append, utf8_append,
        ← List.map_cons, ih]

/-- A separator that stands in a well-formed text stands between two of its characters. -/
theorem intercalate_eq_utf8 (hsep : sep ≠ []) {pieces : List Bytes} {cs : List Char}
    (h : (utf8 sep).intercalate pieces = utf8 cs) :
    ∃ parts : List (List Char), pieces = parts.map utf8 ∧ sep.intercalate parts = cs := by
  induction pieces generalizing cs with
  | nil => exact ⟨[], rfl, utf8_inj h⟩
  | cons p pieces ih =>
    cases pieces with
    | nil =>
      rw [List.intercalate_singleton] at h
      exact ⟨[cs], by rw [h, List.map_singleton], List.intercalate_singleton⟩
    | cons q qs =>
      rw [List.intercalate_cons_cons, List.append_assoc] at h
      obtain ⟨s, sep', rfl⟩ := List.exists_cons_of_ne_nil hsep
      obtain ⟨b, rest, hs, hlead, -⟩ := utf8Char_shape s
      obtain ⟨ds, es, rfl, rfl, hes⟩ := utf8_split h.symm (by
        intro x xs hx
        rw [utf8_cons, hs, List.cons_append, List.cons_append, List.cons.injEq] at hx
        rw [← hx.1]
        exact hlead.not_continues)
      obtain ⟨fs, rfl, hfs⟩ := utf8_prefix hes.symm
      obtain ⟨parts, hparts, rfl⟩ := ih hfs
      refine ⟨ds :: parts, by rw [hparts, List.map_cons], ?_⟩
      obtain ⟨r, rs, rfl⟩ : ∃ r rs, parts = r :: rs := by
        cases parts with
        | nil => exact absurd hparts (by simp)
        | cons r rs => exact ⟨r, rs, rfl⟩
      rw [List.intercalate_cons_cons, List.append_assoc]

theorem splitChars_rest (rest text : Bytes) :
    splitChars rest.length (rest ++ text) = (rest, (splitChars 0 text).2) := by
  induction rest with
  | nil => cases text <;> rfl
  | cons b rest ih => rw [List.length_cons, List.cons_append, splitChars, ih]

theorem splitChars_utf8 (cs : List Char) : (splitChars 0 (utf8 cs)).2 = (cs.map fun c => [c]).map utf8 := by
  induction cs with
  | nil => rfl
  | cons c cs ih =>
    obtain ⟨b, rest, hc, hlead, -⟩ := utf8Char_shape c
    have hchar : utf8 [c] = b :: rest := by rw [utf8_cons, utf8_nil, List.append_nil, hc]
    rw [utf8_cons, hc, List.cons_append, splitChars, (leads_cases hlead).1, splitChars_rest, ih, List.map_cons,
      List.map_cons, hchar]

theorem intercalate_nil_map (cs : List Char) : ([] : List Char).intercalate (cs.map fun c => [c]) = cs := by
  induction cs with
  | nil => rfl
  | cons c cs ih =>
    cases cs with
    | nil => rfl
    | cons d ds =>
      rw [List.map_cons] at ih
      rw [List.map_cons, List.map_cons, List.intercalate_cons_cons, ih]
      rfl

theorem splitBySeparator_utf8 (cs sep : List Char) : ∃ parts : List (List Char),
    splitBySeparator (utf8 cs) (utf8 sep) = parts.map utf8 ∧ sep.intercalate parts = cs ∧
      (sep = [] → parts = cs.map fun c => [c]) := by
  cases sep with
  | nil =>
    refine ⟨cs.map fun c => [c], ?_, intercalate_nil_map cs, fun _ => rfl⟩
    rw [← splitChars_utf8]
    rfl
  | cons s sep =>
    obtain ⟨parts, hparts, hcs⟩ :=
      intercalate_eq_utf8 (List.cons_ne_nil s sep) (intercalate_splitBySeparator (utf8 cs) (utf8 (s :: sep)))
    exact ⟨parts, hparts, hcs, fun h => absurd h (List.cons_ne_nil s sep)⟩

theorem filter_intercalate (hsep : sep.filter keeps = []) (parts : List (List Char)) :
    (sep.intercalate parts).filter keeps = parts.flatten.filter keeps := by
  induction parts with
  | nil => rfl
  | cons p parts ih =>
    cases parts with
    | nil => rw [List.intercalate_singleton, List.flatten_singleton]
    | cons q qs =>
      rw [List.intercalate_cons_cons, List.filter_append, List.filter_append, hsep, List.append_nil, ih,
        ← List.filter_append]
      rfl

/-! ## Merged texts -/

theorem flatten_filter_isEmpty (parts : List (List Char)) : (parts.filter fun p => !p.isEmpty).flatten = parts.flatten := by
  induction parts with
  | nil => rfl
  | cons p parts ih =>
    cases p with
    | nil => rw [List.filter_cons_of_neg (by simp), ih, List.flatten_cons, List.nil_append]
    | cons c p => rw [List.filter_cons_of_pos (by simp), List.flatten_cons, List.flatten_cons, ih]

theorem flatten_eq_map {groups : List (List Bytes)} {parts : List (List Char)} (h : groups.flatten = parts.map utf8) :
    ∃ gs : List (List (List Char)), groups = gs.map (fun g => g.map utf8) ∧ gs.flatten = parts := by
  induction groups generalizing parts with
  | nil => exact ⟨[], rfl, (List.map_eq_nil_iff.mp h.symm).symm⟩
  | cons g groups ih =>
    rw [List.flatten_cons] at h
    obtain ⟨ps, qs, rfl, hps, hqs⟩ := List.map_eq_append_iff.mp h.symm
    obtain ⟨gs, rfl, rfl⟩ := ih hqs.symm
    exact ⟨ps :: gs, by rw [List.map_cons, hps], List.flatten_cons⟩

theorem filter_map_utf8 (parts : List (List Char)) :
    (parts.map utf8).filter (fun p => !p.isEmpty) = (parts.filter fun p => !p.isEmpty).map utf8 := by
  rw [List.filter_map]
  congr 1
  refine List.filter_congr fun p _ => ?_
  cases p with
  | nil => rfl
  | cons c p =>
    obtain ⟨b, rest, hc, -, -⟩ := utf8Char_shape c
    simp [utf8_cons, hc]

/-- What merging makes of the pieces of a well-formed text. -/
theorem mergePieces_utf8 (hsep : sep.filter keeps = []) (chunkSize : Int32) (parts : List (List Char)) :
    ∃ merged : List (List Char), mergePieces (parts.map utf8) (utf8 sep) chunkSize = merged.map utf8 ∧
      merged.flatten.filter keeps = parts.flatten.filter keeps ∧ (∀ m ∈ merged, m ≠ []) ∧
        ∀ m ∈ merged, approxTokenCount (utf8 m) ≤ chunkSize ∨ m ∈ parts := by
  obtain ⟨groups, hflatten, hmerged, hfits⟩ := mergePieces_groups (parts.map utf8) (utf8 sep) chunkSize
  rw [filter_map_utf8] at hflatten
  obtain ⟨gs, rfl, hgs⟩ := flatten_eq_map hflatten
  have hparts : ∀ g ∈ gs, ∀ p ∈ g, p ∈ parts ∧ p ≠ [] := by
    intro g hg p hp
    have hmem : p ∈ parts.filter fun p => !p.isEmpty := by
      rw [← hgs]
      exact List.mem_flatten.mpr ⟨g, hg, hp⟩
    exact ⟨(List.mem_filter.mp hmem).1, by simpa using (List.mem_filter.mp hmem).2⟩
  refine ⟨gs.map sep.intercalate, ?_, ?_, fun m hm => ?_, fun m hm => ?_⟩
  · rw [hmerged, List.map_map, List.map_map]
    exact List.map_congr_left fun g _ => utf8_intercalate sep g
  · rw [← flatten_filter_isEmpty parts, ← hgs]
    clear hflatten hmerged hfits hgs hparts
    induction gs with
    | nil => rfl
    | cons g gs ih =>
      rw [List.map_cons, List.flatten_cons, List.filter_append, ih, filter_intercalate hsep, List.flatten_cons,
        List.flatten_append, List.filter_append]
  · obtain ⟨g, hg, rfl⟩ := List.mem_map.mp hm
    have hne : g ≠ [] := by
      have hmap := (hfits _ (List.mem_map_of_mem hg)).1
      simpa using hmap
    exact intercalate_ne_nil hne fun p hp => (hparts g hg p hp).2
  · obtain ⟨g, hg, rfl⟩ := List.mem_map.mp hm
    rcases (hfits _ (List.mem_map_of_mem hg)).2 with hle | ⟨p, hp⟩
    · rw [utf8_intercalate] at hle
      exact Or.inl hle
    · obtain ⟨q, rfl, -⟩ := List.map_eq_singleton_iff.mp hp
      rw [List.intercalate_singleton]
      exact Or.inr (hparts [q] hg q (by simp)).1

/-! ## The chunks -/

/-- The chunks of `cs` hold its characters but for separators, and each fits. -/
structure Lossless (chunkSize : Int32) (cs : List Char) (chunks : List (List Char)) : Prop where
  ne_nil : ∀ p ∈ chunks, p ≠ []
  fits : ∀ p ∈ chunks, approxTokenCount (utf8 p) ≤ chunkSize
  content : chunks.flatten.filter keeps = cs.filter keeps

def results (chunks : List (List Char)) : List ChunkResult := chunks.map fun p => result (utf8 p)

/-- What `f` makes of the text of `cs` loses nothing. -/
def Splits (chunkSize : Int32) (f : Bytes → Option (List ChunkResult)) (cs : List Char) : Prop :=
  ∃ chunks, f (utf8 cs) = some (results chunks) ∧ Lossless chunkSize cs chunks

theorem Splits.whole {f : Bytes → Option (List ChunkResult)} {cs : List Char} (hne : cs ≠ [])
    (hfits : approxTokenCount (utf8 cs) ≤ chunkSize) (hf : f (utf8 cs) = some [result (utf8 cs)]) :
    Splits chunkSize f cs :=
  ⟨[cs], hf, by simpa using hne, by simpa using hfits, by rw [List.flatten_singleton]⟩

theorem concatM_splits {f : Bytes → Option (List ChunkResult)} {merged : List (List Char)}
    (h : ∀ m ∈ merged, Splits chunkSize f m) :
    ∃ chunks, concatM f (merged.map utf8) = some (results chunks) ∧ Lossless chunkSize merged.flatten chunks := by
  induction merged with
  | nil => exact ⟨[], rfl, by simp, by simp, rfl⟩
  | cons m merged ih =>
    obtain ⟨first, hfirst, hm⟩ := h m (by simp)
    obtain ⟨rest, hrest, hms⟩ := ih fun x hx => h x (by simp [hx])
    refine ⟨first ++ rest, ?_, ⟨fun p hp => ?_, fun p hp => ?_, ?_⟩⟩
    · simp [concatM, hfirst, hrest, results]
    · exact (List.mem_append.mp hp).elim (hm.ne_nil p) (hms.ne_nil p)
    · exact (List.mem_append.mp hp).elim (hm.fits p) (hms.fits p)
    · rw [List.flatten_append, List.filter_append, hm.content, hms.content, List.flatten_cons, List.filter_append]

/-- One separator, when every merged piece that is too long is split without loss. -/
theorem splits_separator (hsep : sep.filter keeps = []) (seps : List Bytes) (cs : List Char)
    (h : ∀ m, m ≠ [] → chunkSize < approxTokenCount (utf8 m) →
      (sep = [] → ∃ c, m = [c]) → Splits chunkSize (splitRecursive chunkSize seps) m) :
    Splits chunkSize (splitRecursive chunkSize (utf8 sep :: seps)) cs := by
  by_cases hnil : cs = []
  · subst hnil
    exact ⟨[], by rw [splitRecursive]; rfl, by simp, by simp, rfl⟩
  have hne : (utf8 cs).isEmpty = false := by
    obtain ⟨c, cs', rfl⟩ := List.exists_cons_of_ne_nil hnil
    obtain ⟨b, rest, hc, -, -⟩ := utf8Char_shape c
    simp [utf8_cons, hc]
  by_cases hfits : approxTokenCount (utf8 cs) ≤ chunkSize
  · refine Splits.whole hnil hfits ?_
    rw [splitRecursive, hne, if_neg (by simp), if_pos hfits]
  · obtain ⟨parts, hsplit, hparts, hchars⟩ := splitBySeparator_utf8 cs sep
    obtain ⟨merged, hmerged, hcontent, hnonempty, hwhole⟩ := mergePieces_utf8 hsep chunkSize parts
    have hpieces : ∀ m ∈ merged, Splits chunkSize (fun piece => if chunkSize < approxTokenCount piece then
        splitRecursive chunkSize seps piece else some [result piece]) m := by
      intro m hm
      by_cases hlong : chunkSize < approxTokenCount (utf8 m)
      · -- a piece of its own, which is one character where there is no separator
        have hmem : m ∈ parts := (hwhole m hm).resolve_left (Int32.not_le.mpr hlong)
        obtain ⟨chunks, hchunks, hm'⟩ := h m (hnonempty m hm) hlong fun hempty => by
          rw [hchars hempty] at hmem
          obtain ⟨c, -, hc⟩ := List.mem_map.mp hmem
          exact ⟨c, hc.symm⟩
        exact ⟨chunks, (if_pos hlong).trans hchunks, hm'⟩
      · exact Splits.whole (hnonempty m hm) (Int32.not_lt.mp hlong) (if_neg hlong)
    obtain ⟨chunks, hconcat, hlossless⟩ := concatM_splits hpieces
    refine ⟨chunks, ?_, hlossless.ne_nil, hlossless.fits, ?_⟩
    · rw [splitRecursive, hne, if_neg (by simp), if_neg hfits, hsplit, hmerged, hconcat]
    · rw [hlossless.content, hcontent, ← hparts, filter_intercalate hsep]

theorem splitRecursive_lossless (hsize : 2 ≤ chunkSize) {seps : List (List Char)}
    (hseps : ∀ sep ∈ seps, sep.filter keeps = []) (cs : List Char) :
    Splits chunkSize (splitRecursive chunkSize ((seps ++ [[]]).map utf8)) cs := by
  induction seps generalizing cs with
  | nil =>
    refine splits_separator rfl [] cs fun m _ hlong hchar => ?_
    obtain ⟨c, rfl⟩ := hchar rfl
    exact absurd (Int32.le_trans (approxTokenCount_char c) hsize) (Int32.not_le.mpr hlong)
  | cons sep seps ih =>
    refine splits_separator (hseps sep (by simp)) _ cs fun m _ _ _ => ?_
    exact ih (fun s hs => hseps s (by simp [hs])) m

theorem locate_texts (text : Bytes) (index searchFrom : Nat) (chunks : List ChunkResult) :
    (locate text index searchFrom chunks).map (fun c => (c.text, c.tokenCountApprox)) =
      chunks.map fun c => (c.text, c.tokenCountApprox) := by
  induction chunks generalizing index searchFrom with
  | nil => rfl
  | cons chunk chunks ih => rw [locate, List.map_cons, List.map_cons, ih]

/-- The chunks of a text as texts, each with its own token count. -/
def Keeps (chunkSize : Int32) (cs : List Char) : Prop :=
  ∃ chunks, chunk { chunkSize := chunkSize, chunkOverlap := 0 } (utf8 cs) = some chunks ∧
    (∀ c ∈ chunks, c.tokenCountApprox = approxTokenCount c.text) ∧
      ∃ texts, chunks.map (fun c => c.text) = texts.map utf8 ∧ Lossless chunkSize cs texts

/-- Without overlap the chunks of every well-formed text are well-formed, fit, and hold the text but for separators;
every byte string is chunked, whatever the configuration. -/
theorem chunk_lossless : (∀ (chunkSize : Int32) (cs : List Char), 2 ≤ chunkSize → Keeps chunkSize cs) ∧
    ∀ config text, ∃ chunks, chunk config text = some chunks := by
  refine ⟨fun chunkSize cs hsize => ?_, chunk_isSome⟩
  obtain ⟨texts, hsplit, hlossless⟩ := splitRecursive_lossless hsize (fun sep => keeps_separator) cs
  rw [← defaultSeparators_eq] at hsplit
  have hlocate := locate_texts (utf8 cs) 0 0 (results texts)
  refine ⟨_, chunk_noOverlap hsplit, fun c hc => ?_, texts, ?_, hlossless⟩
  · have hmem : (c.text, c.tokenCountApprox) ∈ (results texts).map fun c => (c.text, c.tokenCountApprox) := by
      rw [← hlocate]
      exact List.mem_map.mpr ⟨c, hc, rfl⟩
    obtain ⟨r, hr, heq⟩ := List.mem_map.mp hmem
    obtain ⟨p, -, rfl⟩ := List.mem_map.mp hr
    rw [Prod.mk.injEq] at heq
    rw [← heq.1, ← heq.2]
    rfl
  · have hfst := congrArg (List.map Prod.fst) hlocate
    rw [List.map_map, List.map_map] at hfst
    rw [show (fun c : ChunkResult => c.text) = Prod.fst ∘ fun c => (c.text, c.tokenCountApprox) from rfl, hfst, results,
      List.map_map]
    rfl

theorem chunk_lossless_words : Keeps 2 "one two".toList :=
  chunk_lossless.1 2 _ (by decide)

end Cortrix.Spc.LosslessSplit
