import Cortrix.Lib.Run
import Cortrix.Lib.Lru

/-!
# SpladeSparseRetriever

The table `sparse_inverted_index` and the cache of posting lists over it. The mutex is held through `Add`, `Remove` and
`Search`; a `Search` is told by its reads, one a term of the query. Each SQL statement may fail: the fault of a write,
the terms that the scan of `Remove` has returned, and the rows a load has returned are given with the action. Weights
are of any linear order with a product and a sum.
-/

namespace Cortrix.Retrieval
open Lib

structure SpladeConfig where
  defaultTopK : Int
  postingListCap : Int
  postingCacheCapacity : Nat

variable {N C W : Type}

structure Posting (N C W : Type) where
  nsId : N
  termId : Nat
  childId : C
  weight : W

/-- `std::map`: a term has one weight. -/
structure SparseVector (W : Type) where
  terms : List (Nat × W)
  unique : (terms.map Prod.fst).Nodup

/-- A `Search` that has these terms of its query still to read. -/
structure Searching (N C W : Type) where
  nsId : N
  remaining : List (Nat × W)
  topK : Int
  scores : List (C × W)

structure State (N C W : Type) where
  table : List (Posting N C W)
  isOpen : Bool
  lru : List ((N × Nat) × List (C × W))
  cacheHits : Nat
  cacheMisses : Nat
  lastSearchFailed : Bool
  search : Option (Searching N C W)

/-- A retriever that has not been opened, over the table as it is on disk. -/
def State.init (table : List (Posting N C W)) : State N C W := ⟨table, false, [], 0, 0, false, none⟩

/-! ## Writes -/

inductive WriteFault
  | begin | prepareDelete | delete | prepareInsert | insert (termId : Nat) | commit

section
variable [DecidableEq N] [DecidableEq C]

def ofChild (nsId : N) (childId : C) (p : Posting N C W) : Bool := p.nsId == nsId && p.childId == childId

def removePostings (nsId : N) (childId : C) (table : List (Posting N C W)) : List (Posting N C W) :=
  deleteWhere (ofChild nsId childId) table

def replacePostings (nsId : N) (childId : C) (vec : SparseVector W) (table : List (Posting N C W)) :
    List (Posting N C W) :=
  removePostings nsId childId table ++ vec.terms.map fun tw => ⟨nsId, tw.1, childId, tw.2⟩

/-- The terms of a child: what the scan of `Remove` returns when it is not cut short. -/
def childTerms (nsId : N) (childId : C) (table : List (Posting N C W)) : List Nat :=
  (table.filter (ofChild nsId childId)).map Posting.termId

def invalidateTerms (nsId : N) (terms : List Nat) (lru : List ((N × Nat) × List (C × W))) :
    List ((N × Nat) × List (C × W)) :=
  (terms.map fun t => (nsId, t)).foldl (fun lru key => forget key lru) lru

/-! ## Reads -/

def postings (nsId : N) (termId : Nat) (table : List (Posting N C W)) : List (C × W) :=
  (table.filter fun p => p.nsId == nsId && p.termId == termId).map fun p => (p.childId, p.weight)

/-- The rows a load has returned, and whether it has come to the end. -/
structure Load (C W : Type) where
  rows : List (C × W)
  complete : Bool

variable [LinearOrder W]

/-- The `SELECT .. ORDER BY weight DESC LIMIT ?` may return these rows; one that is cut short, the first of them. -/
def Load.valid (load : Load C W) (cap : Int) (rows : List (C × W)) : Bool :=
  if load.complete then decide (IsTop cap rows load.rows)
  else decide (IsTop load.rows.length rows load.rows ∧ load.rows.length ≤ limitOf cap rows.length)

def getPostingList (cfg : SpladeConfig) (nsId : N) (termId : Nat) (load : Load C W) (s : State N C W) :
    Option (List (C × W) × State N C W) :=
  match lookup Prod.fst (nsId, termId) s.lru with
  | some e => some (e.2, { s with lru := touch e s.lru, cacheHits := s.cacheHits + 1 })
  | none =>
    if load.valid cfg.postingListCap (postings nsId termId s.table) then
      some (load.rows, { s with
        lru := put cfg.postingCacheCapacity ((nsId, termId), load.rows) s.lru, cacheMisses := s.cacheMisses + 1 })
    else none

variable [Zero W] [Add W] [Mul W]

def addScore (childId : C) (x : W) : List (C × W) → List (C × W)
  | [] => [(childId, 0 + x)]
  | (c, y) :: rest => if c = childId then (c, y + x) :: rest else (c, y) :: addScore childId x rest

def accumulate (queryWeight : W) (list : List (C × W)) (scores : List (C × W)) : List (C × W) :=
  list.foldl (fun scores e => addScore e.1 (queryWeight * e.2) scores) scores

/-! ## Steps -/

inductive Act (N C W : Type)
  | openDb
  | closeDb
  | add (nsId : N) (childId : C) (vec : SparseVector W) (scanned : List Nat) (fault : Option WriteFault)
  | remove (nsId : N) (childId : C) (scanned : List Nat) (fault : Option WriteFault)
  | searchBegin (query : SparseVector W) (nsId : N) (topK : Int)
  | read (load : Load C W)
  | searchEnd (out : List (C × W))

inductive Reply (C W : Type)
  | ok
  /-- `kInvertedIndexWriteFailed`: the retriever is not open, or the named statement has failed. -/
  | error (fault : Option WriteFault)
  | hits (out : List (C × W))

/-- `Remove`: the DELETE, and the invalidation of the terms that the scan has returned. -/
def removeExec (s : State N C W) (nsId : N) (childId : C) (scanned : List Nat) (fault : Option WriteFault) :
    Option (State N C W × Reply C W) :=
  if s.isOpen = false then some (s, .error none)
  else if ∀ t ∈ scanned, t ∈ childTerms nsId childId s.table then
    match fault with
    | some f => some (s, .error (some f))
    | none =>
      some ({ s with
        table := removePostings nsId childId s.table, lru := invalidateTerms nsId scanned s.lru }, .ok)
  else none

/-- `Add`: an empty vector removes the child, any other replaces its postings and invalidates its own terms. -/
def addExec (s : State N C W) (nsId : N) (childId : C) (vec : SparseVector W) (scanned : List Nat)
    (fault : Option WriteFault) : Option (State N C W × Reply C W) :=
  if vec.terms.isEmpty then removeExec s nsId childId scanned fault
  else if s.isOpen = false then some (s, .error none)
  else
    match fault with
    | some f => some (s, .error (some f))
    | none =>
      some ({ s with
        table := replacePostings nsId childId vec s.table
        lru := invalidateTerms nsId (vec.terms.map Prod.fst) s.lru }, .ok)

/-- The number of hits a search returns at most; none of a default that is not positive. -/
def topLimit (cfg : SpladeConfig) (topK : Int) : Int :=
  let k := if 0 < topK then topK else cfg.defaultTopK
  if 0 < k then k else -1

def readExec (cfg : SpladeConfig) (s : State N C W) (load : Load C W) : Option (State N C W × Reply C W) :=
  match s.search with
  | some ⟨nsId, (termId, queryWeight) :: rest, topK, scores⟩ =>
    (getPostingList cfg nsId termId load s).map fun r =>
      ({ r.2 with search := some ⟨nsId, rest, topK, accumulate queryWeight r.1 scores⟩ }, .ok)
  | _ => none

def exec (cfg : SpladeConfig) (s : State N C W) : Act N C W → Option (State N C W × Reply C W)
  | .openDb => if s.search.isNone then some ({ s with isOpen := true }, .ok) else none
  | .closeDb => if s.search.isNone then some ({ s with isOpen := false, lru := [] }, .ok) else none
  | .add nsId childId vec scanned fault =>
    if s.search.isNone then addExec s nsId childId vec scanned fault else none
  | .remove nsId childId scanned fault =>
    if s.search.isNone then removeExec s nsId childId scanned fault else none
  | .searchBegin query nsId topK =>
    if s.search.isNone then
      if s.isOpen = false then some ({ s with lastSearchFailed := true }, .hits [])
      else some ({ s with lastSearchFailed := false, search := some ⟨nsId, query.terms, topK, []⟩ }, .ok)
    else none
  | .read load => readExec cfg s load
  | .searchEnd out =>
    match s.search with
    | some ⟨_, [], topK, scores⟩ =>
      if IsTop (topLimit cfg topK) scores out then some ({ s with search := none }, .hits out) else none
    | _ => none

def step (cfg : SpladeConfig) (s : State N C W) (a : Act N C W) : Option (State N C W) := (exec cfg s a).map Prod.fst

/-- The posting list that the step reads, with its namespace and its term. -/
def reads (cfg : SpladeConfig) (s : State N C W) : Act N C W → Option (N × Nat × List (C × W))
  | .read load =>
    match s.search with
    | some ⟨nsId, (termId, _) :: _, _, _⟩ => (getPostingList cfg nsId termId load s).map fun r => (nsId, termId, r.1)
    | _ => none
  | _ => none

end

end Cortrix.Retrieval
