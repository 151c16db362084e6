import Cortrix.Lib.Like
import Cortrix.Lib.Table
import Cortrix.Lib.Txn

/-!
# Deletion by source prefix

`doc_delete_by_source_prefix` clears the documents of one source with their blocks: the prefix is escaped into a `LIKE`
pattern, and a count and two deletions run in a transaction.

* every statement's outcome is given;
* `Exact` : a call that returns 0 has removed exactly the documents of the prefix, one that returns -1 nothing;
* `deletion_exact_iff` : when a call is exact, for every store, prefix and failure.
-/

namespace Cortrix.Store.SourcePrefix
open Lib Lib.Like Lib.Txn

/-! ## Tables -/

structure Doc where
  docId : Bytes
  sourcePath : Bytes
  columns : Bytes
  deriving DecidableEq

structure Block where
  blockId : Int
  docId : Bytes
  columns : Bytes
  deriving DecidableEq

structure Tables where
  docs : List Doc
  blocks : List Block
  deriving DecidableEq

/-- A block of a document with `p`. -/
def hasDoc (p : Doc → Bool) (t : Tables) (b : Block) : Bool := t.docs.any fun d => decide (d.docId = b.docId) && p d

/-! ## The call -/

def escapeChar : UInt8 := 0x5C

def likePattern (sourcePathPrefix : Bytes) : Bytes := escape escapeChar sourcePathPrefix ++ [percent]

/-- `source_path LIKE ? ESCAPE '\'`. -/
def matchesPattern (pattern : Bytes) (d : Doc) : Bool := likeText escapeChar pattern d.sourcePath

def countBlocks (pattern : Bytes) (t : Tables) : Nat := changes (hasDoc (matchesPattern pattern) t) t.blocks

def deleteBlocks (pattern : Bytes) (t : Tables) : Tables :=
  { t with blocks := deleteWhere (hasDoc (matchesPattern pattern) t) t.blocks }

/-- A block that refers to one of the rows makes the foreign key refuse the statement. -/
def deleteDocs (pattern : Bytes) (t : Tables) : Tables :=
  if t.blocks.any (hasDoc (matchesPattern pattern) t) then t
  else { t with docs := deleteWhere (matchesPattern pattern) t.docs }

/-- What the engine and the testing seam do in one call. -/
structure Env where
  opFault : Bool := false
  beginTxn : Outcome := .ok
  count : Stmt := .good
  delBlocks : Stmt := .good
  delDocs : Stmt := .good
  commit : Outcome := .ok

structure Reply where
  rc : Int
  deletedBlocks : Nat
  conn : Conn Tables

/-- Whether the statement was prepared; whether the step succeeded is not looked at. -/
def bindAndStep (st : Stmt) (f : Tables → Tables) (c : Conn Tables) : Bool × Conn Tables :=
  match st.prepare with
  | some _ => (false, c)
  | none => (true, (c.exec st.step f).2)

def docDeleteBySourcePrefix (env : Env) (sourcePathPrefix : Bytes) (c : Conn Tables) : Reply :=
  if env.opFault then ⟨-1, 0, c⟩
  else if sourcePathPrefix.isEmpty then ⟨0, 0, c⟩
  else
    let pattern := likePattern sourcePathPrefix
    let begun := c.startTxn env.beginTxn
    if !begun.1 then ⟨-1, 0, begun.2⟩
    else
      let counted := bindAndStep env.count id begun.2
      -- without a row the count stays 0
      let blockCount := if env.count.step = .ok then countBlocks pattern begun.2.data else 0
      if !counted.1 then ⟨-1, 0, counted.2.rollback .ok⟩
      else
        let cleared := bindAndStep env.delBlocks (deleteBlocks pattern) counted.2
        if !cleared.1 then ⟨-1, 0, cleared.2.rollback .ok⟩
        else
          let removed := bindAndStep env.delDocs (deleteDocs pattern) cleared.2
          if !removed.1 then ⟨-1, 0, removed.2.rollback .ok⟩
          else
            let done := removed.2.endTxn env.commit
            if !done.1 then ⟨-1, 0, done.2⟩ else ⟨0, blockCount, done.2⟩

/-! ## What a call promises -/

/-- The path starts byte for byte with the prefix. -/
def starts (sourcePathPrefix : Bytes) (d : Doc) : Bool := sourcePathPrefix.isPrefixOf d.sourcePath

def without (sourcePathPrefix : Bytes) (t : Tables) : Tables where
  docs := deleteWhere (starts sourcePathPrefix) t.docs
  blocks := deleteWhere (hasDoc (starts sourcePathPrefix) t) t.blocks

def Exact (sourcePathPrefix : Bytes) (t : Tables) (r : Reply) : Prop :=
  (r.rc = 0 → r.conn = ⟨without sourcePathPrefix t, none⟩ ∧
    r.deletedBlocks = changes (hasDoc (starts sourcePathPrefix) t) t.blocks) ∧
  (r.rc = -1 → r.conn = ⟨t, none⟩)

/-! ## When it is kept -/

/-- The path starts like the prefix up to the case of ASCII letters; a NUL in the prefix ends it, and the path. -/
def startsLike (sourcePathPrefix : Bytes) (d : Doc) : Bool :=
  if 0 ∈ sourcePathPrefix then decide (folded sourcePathPrefix = folded d.sourcePath)
  else (folded sourcePathPrefix).isPrefixOf (folded d.sourcePath)

/-- Each of the three statements that succeed takes the rows of the prefix, and none that fails had any to take. -/
structure AsBytes (env : Env) (sourcePathPrefix : Bytes) (t : Tables) : Prop where
  count : ∀ b ∈ t.blocks,
    env.count.step = .ok ∧ hasDoc (startsLike sourcePathPrefix) t b = true ↔ hasDoc (starts sourcePathPrefix) t b = true
  blocks : ∀ b ∈ t.blocks, env.delBlocks.step = .ok ∧ hasDoc (startsLike sourcePathPrefix) t b = true ↔
    hasDoc (starts sourcePathPrefix) t b = true
  docs : ∀ d ∈ t.docs, (env.delDocs.step = .ok ∧
      (env.delBlocks.step = .ok ∨ ∀ b ∈ t.blocks, hasDoc (startsLike sourcePathPrefix) t b = false)) ∧
      startsLike sourcePathPrefix d = true ↔ starts sourcePathPrefix d = true

/-- After the engine has rolled back in the middle of the call, the statements that follow find nothing to delete. -/
structure NothingEscapes (env : Env) (sourcePathPrefix : Bytes) (t : Tables) : Prop where
  blocks : env.delBlocks.step = .ok → ∀ b ∈ t.blocks, hasDoc (startsLike sourcePathPrefix) t b = false
  docs : env.delDocs.prepare = none → env.delDocs.step = .ok →
    (∃ b ∈ t.blocks, hasDoc (startsLike sourcePathPrefix) t b = true) ∨
      ∀ d ∈ t.docs, startsLike sourcePathPrefix d = false

def Keeps (env : Env) (sourcePathPrefix : Bytes) (t : Tables) : Prop :=
  env.opFault = true ∨ env.beginTxn ≠ .ok ∨ env.count.prepare ≠ none ∨ env.delBlocks.prepare ≠ none ∨
  if env.count.step = .aborted ∨ env.delBlocks.step = .aborted then NothingEscapes env sourcePathPrefix t
  else env.delDocs.prepare ≠ none ∨ env.delDocs.step = .aborted ∨ env.commit = .aborted ∨
    env.commit = .ok ∧ AsBytes env sourcePathPrefix t

/-! ## The statements -/

variable {env : Env} {p : Bytes} {t : Tables}

theorem matchesPattern_eq (p : Bytes) : matchesPattern (likePattern p) = startsLike p := by
  funext d
  rw [Bool.eq_iff_iff, matchesPattern, likePattern,
    likeText_escape_prefix (by decide) (by decide) (by decide), startsLike]
  split
  · rw [decide_eq_true_iff]
  · rw [List.isPrefixOf_iff_prefix]

def cleared (env : Env) (p : Bytes) (t : Tables) : Tables :=
  if env.delBlocks.step = .ok then deleteBlocks (likePattern p) t else t

def removed (env : Env) (p : Bytes) (t : Tables) : Tables :=
  if env.delDocs.step = .ok then deleteDocs (likePattern p) (cleared env p t) else cleared env p t

/-- The engine has ended the transaction before the documents are deleted. -/
abbrev Lost (env : Env) : Prop := env.count.step = .aborted ∨ env.delBlocks.step = .aborted

theorem exec_cleared (env : Env) (p : Bytes) (t : Tables) :
    (Conn.exec env.delBlocks.step (deleteBlocks (likePattern p)) (Conn.exec env.count.step id ⟨t, some t⟩).2).2 =
      ⟨cleared env p t, if Lost env then none else some t⟩ := by
  have hcount : (Conn.exec env.count.step id ⟨t, some t⟩).2 =
      ⟨t, if env.count.step = .aborted then none else some t⟩ := by
    rw [Conn.exec_open]
    cases env.count.step <;> rfl
  rw [hcount, cleared]
  by_cases hlost : env.count.step = .aborted
  · rw [if_pos hlost, Conn.exec_closed, if_pos (Or.inl hlost)]
  · rw [if_neg hlost, Conn.exec_open]
    by_cases hstep : env.delBlocks.step = .aborted
    · rw [if_pos hstep, if_pos (Or.inr hstep), if_neg (by rw [hstep]; decide)]
    · rw [if_neg hstep, if_neg (not_or.mpr ⟨hlost, hstep⟩)]

theorem call_eq (hp : p ≠ []) (hfault : env.opFault = false) (hbegin : env.beginTxn = .ok)
    (hcount : env.count.prepare = none) (hblocks : env.delBlocks.prepare = none) :
    docDeleteBySourcePrefix env p ⟨t, none⟩ =
      if env.delDocs.prepare ≠ none then ⟨-1, 0, ⟨if Lost env then cleared env p t else t, none⟩⟩
      else if Lost env then ⟨-1, 0, ⟨removed env p t, none⟩⟩
      else if env.delDocs.step = .aborted ∨ env.commit = .aborted then ⟨-1, 0, ⟨t, none⟩⟩
      else if env.commit = .failed then ⟨-1, 0, ⟨removed env p t, some t⟩⟩
      else ⟨0, if env.count.step = .ok then countBlocks (likePattern p) t else 0, ⟨removed env p t, none⟩⟩ := by
  have hempty : p.isEmpty = false := by simpa using hp
  have hbegun : Conn.startTxn env.beginTxn ⟨t, none⟩ = (true, ⟨t, some t⟩) := by simp [Conn.startTxn, hbegin]
  unfold docDeleteBySourcePrefix bindAndStep
  simp only [hfault, hempty, hbegun, hcount, hblocks, exec_cleared, Bool.false_eq_true, if_false, Bool.not_true]
  cases hdocs : env.delDocs.prepare with
  | some msg =>
    by_cases hlost : Lost env
    · simp [hlost]
    · simp [hlost, Conn.rollback_open]
  | none =>
    by_cases hlost : Lost env
    · simp only [hlost, if_true, Conn.exec_closed, Conn.endTxn_closed, removed]
      simp
    · simp only [hlost, if_false, Conn.exec_open, removed]
      cases env.delDocs.step <;> cases env.commit <;> simp [Conn.endTxn_open, Conn.endTxn_closed]

/-! ## What they leave -/

theorem any_hasDoc_eq_false {q : Doc → Bool} : t.blocks.any (hasDoc q t) = false ↔
    ∀ b ∈ t.blocks, hasDoc q t b = false := by
  simp

theorem deleteDocs_deleteBlocks (pattern : Bytes) (t : Tables) : deleteDocs pattern (deleteBlocks pattern t) =
    ⟨deleteWhere (matchesPattern pattern) t.docs, deleteWhere (hasDoc (matchesPattern pattern) t) t.blocks⟩ := by
  unfold deleteDocs
  rw [if_neg]
  · rfl
  · rw [Bool.not_eq_true, List.any_eq_false]
    intro b hb
    have hgone := (mem_deleteWhere.mp hb).2
    rw [Bool.not_eq_true]
    exact hgone

theorem removed_blocks (env : Env) (p : Bytes) (t : Tables) : (removed env p t).blocks = (cleared env p t).blocks := by
  unfold removed deleteDocs
  split
  · split <;> rfl
  · rfl

theorem cleared_blocks (env : Env) (p : Bytes) (t : Tables) :
    (cleared env p t).blocks = deleteWhere (fun b => decide (env.delBlocks.step = .ok) && hasDoc (startsLike p) t b)
      t.blocks := by
  unfold cleared
  by_cases hstep : env.delBlocks.step = .ok
  · rw [if_pos hstep, deleteBlocks, matchesPattern_eq]
    simp [hstep]
  · rw [if_neg hstep, eq_comm, deleteWhere_eq_self]
    simp [hstep]

theorem cleared_docs (env : Env) (p : Bytes) (t : Tables) : (cleared env p t).docs = t.docs := by
  unfold cleared
  split <;> rfl

/-- Whether the deletion of the documents has an effect. -/
abbrev DocsGo (env : Env) (p : Bytes) (t : Tables) : Prop :=
  env.delDocs.step = .ok ∧ (env.delBlocks.step = .ok ∨ ∀ b ∈ t.blocks, hasDoc (startsLike p) t b = false)

theorem removed_docs (env : Env) (p : Bytes) (t : Tables) :
    (removed env p t).docs = deleteWhere (fun d => decide (DocsGo env p t) && startsLike p d) t.docs := by
  have hall : DocsGo env p t → deleteWhere (startsLike p) t.docs =
      deleteWhere (fun d => decide (DocsGo env p t) && startsLike p d) t.docs := by
    intro hgo
    rw [deleteWhere_inj]
    intro d _
    rw [decide_eq_true hgo, Bool.true_and]
  have hnone : ¬ DocsGo env p t →
      t.docs = deleteWhere (fun d => decide (DocsGo env p t) && startsLike p d) t.docs := by
    intro hgo
    rw [eq_comm, deleteWhere_eq_self]
    intro d _
    rw [decide_eq_false hgo, Bool.false_and]
  unfold removed
  by_cases hdocs : env.delDocs.step = .ok
  · rw [if_pos hdocs, cleared]
    by_cases hblocks : env.delBlocks.step = .ok
    · rw [if_pos hblocks, deleteDocs_deleteBlocks, matchesPattern_eq]
      exact hall ⟨hdocs, Or.inl hblocks⟩
    · rw [if_neg hblocks, deleteDocs, matchesPattern_eq]
      by_cases hany : t.blocks.any (hasDoc (startsLike p) t) = true
      · rw [if_pos hany]
        refine hnone fun hgo => ?_
        rw [any_hasDoc_eq_false.mpr (hgo.2.resolve_left hblocks)] at hany
        cases hany
      · rw [if_neg hany]
        exact hall ⟨hdocs, Or.inr (any_hasDoc_eq_false.mp (Bool.eq_false_iff.mpr hany))⟩
  · rw [if_neg hdocs, cleared_docs]
    exact hnone fun hgo => hdocs hgo.1

theorem eq_tables {t t' : Tables} : t = t' ↔ t.docs = t'.docs ∧ t.blocks = t'.blocks := by
  cases t
  cases t'
  exact Tables.mk.injEq .. ▸ Iff.rfl

theorem cleared_eq_self : cleared env p t = t ↔
    (env.delBlocks.step = .ok → ∀ b ∈ t.blocks, hasDoc (startsLike p) t b = false) := by
  rw [eq_tables, cleared_docs, cleared_blocks, deleteWhere_eq_self, and_iff_right rfl]
  constructor
  · intro h hstep b hb
    simpa [hstep] using h b hb
  · intro h b hb
    by_cases hstep : env.delBlocks.step = .ok
    · simp [h hstep b hb]
    · simp [hstep]

theorem removed_eq_self : removed env p t = t ↔ cleared env p t = t ∧
    (env.delDocs.step = .ok → (∃ b ∈ t.blocks, hasDoc (startsLike p) t b = true) ∨
      ∀ d ∈ t.docs, startsLike p d = false) := by
  have hdocs : (removed env p t).docs = t.docs ↔ (DocsGo env p t → ∀ d ∈ t.docs, startsLike p d = false) := by
    rw [removed_docs, deleteWhere_eq_self]
    constructor
    · intro h hgo d hd
      simpa [decide_eq_true hgo] using h d hd
    · intro h d hd
      by_cases hgo : DocsGo env p t
      · rw [h hgo d hd, Bool.and_false]
      · rw [decide_eq_false hgo, Bool.false_and]
  rw [eq_tables, hdocs, removed_blocks, ← cleared_docs env p t, and_comm, eq_tables, cleared_docs, and_iff_right rfl]
  refine and_congr_right fun hblocks => ?_
  have hfree := cleared_eq_self.mp (eq_tables.mpr ⟨cleared_docs env p t, hblocks⟩)
  constructor
  · intro h hstep
    by_cases hany : ∃ b ∈ t.blocks, hasDoc (startsLike p) t b = true
    · exact Or.inl hany
    · refine Or.inr (h ⟨hstep, Or.inr fun b hb => ?_⟩)
      exact Bool.eq_false_iff.mpr fun htrue => hany ⟨b, hb, htrue⟩
  · rintro h ⟨hstep, hgo⟩
    rcases h hstep with ⟨b, hb, htrue⟩ | hnone
    · have hfalse : hasDoc (startsLike p) t b = false := by
        rcases hgo with hok | hall
        · exact hfree hok b hb
        · exact hall b hb
      rw [htrue] at hfalse
      cases hfalse
    · exact hnone

theorem count_iff {n : Prop} [Decidable n] {like start : Block → Bool} {l : List Block} {q : Prop}
    (h : ∀ b ∈ l, q ∧ like b = true ↔ start b = true) :
    (if n then changes like l else 0) = changes start l ↔ ∀ b ∈ l, n ∧ like b = true ↔ start b = true := by
  constructor
  · intro heq
    by_cases hn : n
    · rw [if_pos hn] at heq
      by_cases hq : q
      · exact fun b hb => by simpa [hn, hq] using h b hb
      · have hnone : ∀ b ∈ l, start b = false := fun b hb => by simpa [hq] using h b hb
        have hlike := changes_eq_zero.mp (heq.trans (changes_eq_zero.mpr hnone))
        exact fun b hb => by simp [hnone b hb, hlike b hb]
    · rw [if_neg hn] at heq
      have hnone := changes_eq_zero.mp heq.symm
      exact fun b hb => by simp [hn, hnone b hb]
  · intro heq
    by_cases hn : n
    · rw [if_pos hn]
      exact List.countP_congr fun b hb => by simpa [hn] using heq b hb
    · rw [if_neg hn, eq_comm, changes_eq_zero]
      exact fun b hb => by simpa [hn] using heq b hb

theorem asBytes_iff : AsBytes env p t ↔ removed env p t = without p t ∧
    (if env.count.step = .ok then countBlocks (likePattern p) t else 0) = changes (hasDoc (starts p) t) t.blocks := by
  rw [eq_tables, removed_docs, removed_blocks, cleared_blocks, without, deleteWhere_inj, deleteWhere_inj, countBlocks,
    matchesPattern_eq]
  simp only [Bool.and_eq_true, decide_eq_true_eq]
  constructor
  · intro h
    exact ⟨⟨h.docs, h.blocks⟩, (count_iff h.blocks).mpr h.count⟩
  · rintro ⟨⟨hdocs, hblocks⟩, hcount⟩
    exact ⟨(count_iff hblocks).mp hcount, hblocks, hdocs⟩

theorem nothingEscapes_iff : NothingEscapes env p t ↔
    (if env.delDocs.prepare = none then removed env p t else cleared env p t) = t := by
  by_cases hprep : env.delDocs.prepare = none
  · rw [if_pos hprep, removed_eq_self, cleared_eq_self]
    exact ⟨fun h => ⟨h.blocks, h.docs hprep⟩, fun h => ⟨h.1, fun _ => h.2⟩⟩
  · rw [if_neg hprep, cleared_eq_self]
    exact ⟨fun h => h.blocks, fun h => ⟨h, fun hnone => absurd hnone hprep⟩⟩

/-! ## Exact calls -/

theorem exact_error {c : Conn Tables} : Exact p t ⟨-1, 0, c⟩ ↔ c = ⟨t, none⟩ :=
  ⟨fun h => h.2 rfl, fun h => ⟨fun hrc => by simp at hrc, fun _ => h⟩⟩

theorem exact_ok {n : Nat} {c : Conn Tables} :
    Exact p t ⟨0, n, c⟩ ↔ c = ⟨without p t, none⟩ ∧ n = changes (hasDoc (starts p) t) t.blocks :=
  ⟨fun h => h.1 rfl, fun h => ⟨fun _ => h, fun hrc => by simp at hrc⟩⟩

theorem call_early (hp : p ≠ []) (h : env.opFault = true ∨ env.beginTxn ≠ .ok ∨ env.count.prepare ≠ none ∨
    env.delBlocks.prepare ≠ none) : docDeleteBySourcePrefix env p ⟨t, none⟩ = ⟨-1, 0, ⟨t, none⟩⟩ := by
  have hempty : p.isEmpty = false := by simpa using hp
  unfold docDeleteBySourcePrefix bindAndStep
  by_cases hfault : env.opFault = true
  · rw [if_pos hfault]
  · rw [if_neg hfault, hempty, if_neg Bool.false_ne_true]
    by_cases hbegin : env.beginTxn = .ok
    · have hbegun : Conn.startTxn env.beginTxn ⟨t, none⟩ = (true, ⟨t, some t⟩) := by simp [Conn.startTxn, hbegin]
      cases hcount : env.count.prepare with
      | some msg => simp [hbegun, Conn.rollback_open]
      | none =>
        cases hblocks : env.delBlocks.prepare with
        | some msg => cases hstep : env.count.step <;> simp [hbegun, Conn.exec_open, Conn.rollback_open]
        | none => simp [hfault, hbegin, hcount, hblocks] at h
    · simp [Conn.startTxn, hbegin]

/-- A call on a store without open transactions is exact under this condition and no other. -/
theorem deletion_exact_iff (hp : p ≠ []) :
    Exact p t (docDeleteBySourcePrefix env p ⟨t, none⟩) ↔ Keeps env p t := by
  by_cases hearly : env.opFault = true ∨ env.beginTxn ≠ .ok ∨ env.count.prepare ≠ none ∨ env.delBlocks.prepare ≠ none
  · rw [call_early hp hearly, exact_error, eq_self, true_iff]
    rcases hearly with h | h | h | h
    · exact Or.inl h
    · exact Or.inr (Or.inl h)
    · exact Or.inr (Or.inr (Or.inl h))
    · exact Or.inr (Or.inr (Or.inr (Or.inl h)))
  · simp only [not_or, ne_eq, not_not, Bool.not_eq_true] at hearly
    obtain ⟨hfault, hbegin, hcount, hblocks⟩ := hearly
    have hkeeps : Keeps env p t ↔ if Lost env then NothingEscapes env p t
        else env.delDocs.prepare ≠ none ∨ env.delDocs.step = .aborted ∨ env.commit = .aborted ∨
          env.commit = .ok ∧ AsBytes env p t := by
      simp [Keeps, hfault, hbegin, hcount, hblocks]
    rw [call_eq hp hfault hbegin hcount hblocks, hkeeps]
    by_cases hlost : Lost env
    · rw [if_pos hlost, if_pos hlost, nothingEscapes_iff]
      by_cases hprep : env.delDocs.prepare = none
      · rw [if_neg (not_not.mpr hprep), if_pos hprep, if_pos hlost, exact_error, Conn.mk.injEq, and_iff_left rfl]
      · rw [if_pos hprep, if_neg hprep, if_pos hlost, exact_error, Conn.mk.injEq, and_iff_left rfl]
    · rw [if_neg hlost, if_neg hlost, if_neg hlost]
      by_cases hprep : env.delDocs.prepare = none
      · rw [if_neg (not_not.mpr hprep)]
        by_cases haborted : env.delDocs.step = .aborted ∨ env.commit = .aborted
        · rw [if_pos haborted, exact_error, eq_self, true_iff]
          exact Or.inr (haborted.imp_right Or.inl)
        · rw [if_neg haborted]
          rw [not_or] at haborted
          cases hcommit : env.commit with
          | ok =>
            rw [if_neg (by decide), exact_ok, Conn.mk.injEq, and_iff_left rfl, ← asBytes_iff]
            simp [hprep, haborted.1]
          | failed =>
            rw [if_pos rfl, exact_error]
            simp [hprep, haborted.1]
          | aborted => exact absurd hcommit haborted.2
      · rw [if_pos hprep, exact_error]
        simp [hprep]

/-! ## Calls -/

def bytesOf (s : String) : Bytes := s.toList.map fun c => UInt8.ofNat c.toNat

/-- The documents of two tables whose names differ in case, with a block each. -/
def twoTables : Tables where
  docs := [⟨bytesOf "d1", bytesOf "db/users/1", []⟩, ⟨bytesOf "d2", bytesOf "db/Users/1", []⟩]
  blocks := [⟨1, bytesOf "d1", []⟩, ⟨2, bytesOf "d2", []⟩]

def oneTable : Tables where
  docs := twoTables.docs.take 1
  blocks := twoTables.blocks.take 1

theorem deletion_exact_iff_oneTable : Exact (bytesOf "db/users/") oneTable
    (docDeleteBySourcePrefix {} (bytesOf "db/users/") ⟨oneTable, none⟩) := by
  refine (deletion_exact_iff (by decide)).mpr (Or.inr (Or.inr (Or.inr (Or.inr ?_))))
  rw [if_neg (by decide)]
  exact Or.inr (Or.inr (Or.inr ⟨rfl, by decide +kernel, by decide +kernel, by decide +kernel⟩))

/-- `LIKE` does not tell the two tables apart: clearing the first clears both. -/
theorem other_case_deleted : ¬ Exact (bytesOf "db/users/") twoTables
    (docDeleteBySourcePrefix {} (bytesOf "db/users/") ⟨twoTables, none⟩) := by
  intro h
  have hconn := (h.1 (by decide +kernel)).1
  exact absurd hconn (by decide +kernel)

end Cortrix.Store.SourcePrefix
