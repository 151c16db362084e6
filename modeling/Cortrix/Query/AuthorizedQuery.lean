import Cortrix.Catalog.DefaultNsRouter
import Cortrix.Common.Json
import Cortrix.Query.ScatterGather

/-!
# The namespaces a query may reach

`Execute` of a cross-namespace query: the permission checks on the tables, `AuthorizeNamespaces` over them, and the
join of the answers.

* `Admitted`, `Confined` : the namespaces queried, and the results; `execute_spec` : every outcome of a query, whatever
  the tables, the executor and the waits of the join.
-/

namespace Cortrix.Query
open Lib Cortrix.Store
open Catalog.DefaultINSRouter (NSMetadata)

structure AuthContext where
  userId : String
  tenantId : String

/-! ## The permission checks -/

inductive NsAclRole
  | VIEWER
  | EDITOR
  | ADMIN

def parseNsAclRole (token : String) : Option NsAclRole :=
  if token = "viewer" then some .VIEWER
  else if token = "editor" then some .EDITOR
  else if token = "admin" then some .ADMIN
  else none

/-- A row of `ns_acl`; a grant to a whole tenant names no user. -/
structure AclRow where
  nsId : String
  granteeTenantId : String
  granteeUserId : Option String
  role : String

inductive AclStmt
  | owner
  | userGrant
  | tenantGrant
  | visibility

/-- What the checks of one namespace read: the tables, and the statements that the engine executes. -/
structure Reads where
  namespaces : List NSMetadata
  acl : List AclRow
  executes : AclStmt → Bool

namespace Reads
variable (t : Reads) (auth : AuthContext) (nsId : String)

def row : Option NSMetadata := t.namespaces.find? fun r => r.namespaceId == cText nsId

def checkOwnerTenant : Bool := t.executes .owner && (t.row nsId).any fun r => auth.tenantId == cText r.tenantId

def grant (stmt : AclStmt) (userId : Option String) : Option NsAclRole :=
  if t.executes stmt then
    (t.acl.find? fun g => g.nsId == cText nsId && g.granteeTenantId == cText auth.tenantId && g.granteeUserId == userId).bind
      fun g => parseNsAclRole (cText g.role)
  else none

/-- The grant to the user, or else the grant to the tenant. -/
def getAclRole : Option NsAclRole :=
  match if auth.userId = "" then none else t.grant auth nsId .userGrant (some (cText auth.userId)) with
  | some role => some role
  | none => t.grant auth nsId .tenantGrant none

def visibility : String := if t.executes .visibility then ((t.row nsId).map fun r => cText r.visibility).getD "" else ""

def canRead : Bool :=
  t.checkOwnerTenant auth nsId || (t.getAclRole auth nsId).isSome || t.visibility nsId == "public"

/-- The namespace is the tenant's or public, or granted to the user or to the tenant. -/
def Readable : Prop :=
  (∃ r ∈ t.namespaces, r.namespaceId = cText nsId ∧ (auth.tenantId = cText r.tenantId ∨ cText r.visibility = "public")) ∨
    ∃ g ∈ t.acl, g.nsId = cText nsId ∧ g.granteeTenantId = cText auth.tenantId ∧
      (g.granteeUserId = none ∨ g.granteeUserId = some (cText auth.userId))

variable {t auth nsId}

theorem row_eq_some {r : NSMetadata} (h : t.row nsId = some r) : r ∈ t.namespaces ∧ r.namespaceId = cText nsId :=
  ⟨List.mem_of_find?_eq_some h, by simpa using List.find?_some h⟩

theorem grant_isSome {stmt : AclStmt} {userId : Option String} (h : (t.grant auth nsId stmt userId).isSome = true) :
    ∃ g ∈ t.acl, g.nsId = cText nsId ∧ g.granteeTenantId = cText auth.tenantId ∧ g.granteeUserId = userId := by
  unfold grant at h
  split at h
  · obtain ⟨role, hrole⟩ := Option.isSome_iff_exists.mp h
    obtain ⟨g, hg, -⟩ := Option.bind_eq_some_iff.mp hrole
    have hkey := List.find?_some hg
    simp only [Bool.and_eq_true, beq_iff_eq] at hkey
    exact ⟨g, List.mem_of_find?_eq_some hg, hkey.1.1, hkey.1.2, hkey.2⟩
  · cases h

/-- A statement that fails gives nobody access. -/
theorem canRead_readable (h : t.canRead auth nsId = true) : t.Readable auth nsId := by
  unfold canRead at h
  rw [Bool.or_eq_true, Bool.or_eq_true, beq_iff_eq] at h
  rcases h with (howner | hgrant) | hpublic
  · obtain ⟨-, hany⟩ := (Bool.and_eq_true _ _).mp howner
    obtain ⟨r, hr, htenant⟩ := Option.any_eq_true _ _ |>.mp hany
    obtain ⟨hmem, hns⟩ := row_eq_some hr
    exact .inl ⟨r, hmem, hns, .inl (beq_iff_eq.mp htenant)⟩
  · right
    unfold getAclRole at hgrant
    split at hgrant
    · rename_i role huser
      split at huser
      · cases huser
      · obtain ⟨g, hg, hns, htenant, hu⟩ := grant_isSome (by rw [huser]; rfl)
        exact ⟨g, hg, hns, htenant, .inr hu⟩
    · obtain ⟨g, hg, hns, htenant, hu⟩ := grant_isSome hgrant
      exact ⟨g, hg, hns, htenant, .inl hu⟩
  · unfold visibility at hpublic
    split at hpublic
    · cases hr : t.row nsId with
      | none =>
        rw [hr] at hpublic
        exact absurd hpublic (by decide)
      | some r =>
        rw [hr] at hpublic
        obtain ⟨hmem, hns⟩ := row_eq_some hr
        exact .inl ⟨r, hmem, hns, .inr hpublic⟩
    · exact absurd hpublic (by decide)

end Reads

/-- The adapter of the permission service: what each check reads at its time, and the namespaces that are resident. -/
structure TenantPermissionAdapter where
  authEnabled : Bool
  active : List String
  reads : String → Reads

namespace TenantPermissionAdapter
variable (p : TenantPermissionAdapter) (auth : AuthContext)

def allows (nsId : String) : Bool := !p.authEnabled || (p.reads nsId).canRead auth nsId

/-- `BatchCheck` : the unauthorized ones. -/
def batchCheck (nss : List String) : List String := nss.filter fun nsId => !p.allows auth nsId

def listAuthorizedNamespaces : List String := p.active.filter (p.allows auth)

end TenantPermissionAdapter

/-! ## The query -/

inductive CrossNsException
  | authInvalidCredentials
  | tooManyNamespaces (requestedCount : Nat) (maxNamespaces : Int)
  | nsUnauthorized (unauthorizedNamespaces : List String)

def CrossNsException.message : CrossNsException → String
  | .authInvalidCredentials => "Request is not authenticated"
  | .tooManyNamespaces _ _ => "Requested namespace count exceeds the per-query limit"
  | .nsUnauthorized _ => "Some namespaces are unauthorized"

def dedupPreserveOrder (xs : List String) : List String :=
  xs.foldl (fun out s => if out.contains s then out else out ++ [s]) []

/-- What the request names; `["*"]` names what the caller may read. -/
def namedBy (listed : TenantPermissionAdapter) (auth : AuthContext) (requested : List String) : List String :=
  if requested = ["*"] then listed.listAuthorizedNamespaces auth else requested

def effectiveMaxNamespaces (maxNamespaces : Int) : Int := if maxNamespaces < 1 then 1 else maxNamespaces

def expandNamespaces (listed : TenantPermissionAdapter) (auth : AuthContext) (requested : List String)
    (maxNamespaces : Int) : Except CrossNsException (List String) :=
  let expanded := dedupPreserveOrder (namedBy listed auth requested)
  if effectiveMaxNamespaces maxNamespaces < expanded.length then
    .error (.tooManyNamespaces expanded.length (effectiveMaxNamespaces maxNamespaces))
  else .ok expanded

/-- The tables may change between the listing and the check. -/
def authorizeNamespaces (listed checked : TenantPermissionAdapter) (auth : AuthContext) (requested : List String)
    (maxNamespaces : Int) : Except CrossNsException (List String) :=
  if auth.userId = "" then .error .authInvalidCredentials
  else
    match expandNamespaces listed auth requested maxNamespaces with
    | .error e => .error e
    | .ok expanded =>
      let unauthorized := checked.batchCheck auth expanded
      if unauthorized.isEmpty then .ok expanded else .error (.nsUnauthorized unauthorized)

/-- The executor of one namespace; it reports under that name. -/
structure ScatterExecutor where
  executeForNamespace : String → NamespaceQueryResult
  names : ∀ nsId, (executeForNamespace nsId).namespaceId = nsId

structure ScoredResult where
  childId : String
  score : Float32Bits

/-- The executor of namespaces that are one unit each; `none` is an exception. -/
structure SingleUnitExecutor where
  retrieve : String → Int → Option (List ScoredResult)
  reranker : Option (List ScoredResult → Option (List RankedChunk))
  candidateMultiplier : Int := 3
  maxCandidates : Int := 50

/-- How the join waits for a namespace: the answer is there at its deadline; the overall deadline is over then. -/
structure Wait where
  ready : Bool
  late : Bool
  latencyMs : Int

structure QueryOptions where
  topK : Int := 10
  rerank : Bool := true
  hasDeadline : Bool := false
  parentExpandTopK : Int := 0
  parentMaxBytes : Int := 0

namespace SingleUnitExecutor
variable (e : SingleUnitExecutor) (o : QueryOptions)

def candidateK (topK : Int) : Int :=
  let k := max 1 topK
  let cand := k * max 1 e.candidateMultiplier
  max k (if max 1 e.maxCandidates < cand then max 1 e.maxCandidates else cand)

def indexCorrupt (nsId indexState : String) (latencyMs : Int) : NamespaceQueryResult where
  namespaceId := nsId
  errorCode := "CX_ERR_INDEX_CORRUPT"
  errorCategory := "permanent"
  latencyMs := latencyMs
  structuredData := [("index_state", indexState)]

/-- Without a reranker the candidates keep their fused score, and no text. -/
def byFusedScore (candidates : List ScoredResult) : List RankedChunk :=
  (candidates.map fun c => { childId := c.childId, chunkText := [], score := c.score, rerankScore := c.score }).mergeSort
    fun a b => !b.rerankScore.gt a.rerankScore

def executeForNamespace (latencyMs : Int) (nsId : String) : NamespaceQueryResult :=
  if o.rerank && e.reranker.isNone then indexCorrupt nsId "reranker_unconfigured" latencyMs
  else
    let ranked := (e.retrieve nsId (e.candidateK o.topK)).bind fun candidates =>
      if o.rerank then e.reranker.bind fun rerank => rerank candidates else some (byFusedScore candidates)
    match ranked with
    | none => indexCorrupt nsId "query_failed" latencyMs
    | some chunks => { namespaceId := nsId, latencyMs, chunks := cutTo (cutAt o.topK) chunks }

def toScatterExecutor (latencyMs : String → Int) : ScatterExecutor where
  executeForNamespace nsId := e.executeForNamespace o (latencyMs nsId) nsId
  names nsId := by
    unfold executeForNamespace
    split
    · rfl
    · dsimp only
      split <;> rfl

end SingleUnitExecutor

def makeNamespaceTimeoutRow (nsId : String) (latencyMs : Int) : NamespaceQueryResult where
  namespaceId := nsId
  errorCode := "CX_ERR_NS_TIMEOUT"
  errorCategory := "timeout"
  retryable := true
  retryAfterMs := 1000
  latencyMs := latencyMs

def joinRow (exec : ScatterExecutor) (wait : String → Wait) (nsId : String) : NamespaceQueryResult :=
  if (wait nsId).ready then exec.executeForNamespace nsId else makeNamespaceTimeoutRow nsId (wait nsId).latencyMs

def cutByOverallDeadline (row : NamespaceQueryResult) (late : Bool) : Bool :=
  row.errorCode == "CX_ERR_NS_TIMEOUT" && late

def execute (sha256 : Bytes → Digest) (exec : ScatterExecutor) (wait : String → Wait) (o : QueryOptions)
    (listed checked : TenantPermissionAdapter) (auth : AuthContext) (requested : List String) (maxNamespaces : Int) :
    Except CrossNsException CrossNsResponse :=
  match authorizeNamespaces listed checked auth requested maxNamespaces with
  | .error e => .error e
  | .ok nss =>
    if nss.length = 1 ∧ ¬ o.hasDeadline then
      .ok (gatherAndRerank sha256 (nss.map exec.executeForNamespace) nss o.topK o.rerank false o.parentExpandTopK
        o.parentMaxBytes)
    else
      .ok (gatherAndRerank sha256 (nss.map (joinRow exec wait)) nss o.topK o.rerank
        (nss.any fun nsId => cutByOverallDeadline (joinRow exec wait nsId) (wait nsId).late) o.parentExpandTopK
        o.parentMaxBytes)

/-! ## What a query returns -/

theorem dedupPreserveOrder_spec (xs : List String) :
    (dedupPreserveOrder xs).Nodup ∧ ∀ s, s ∈ dedupPreserveOrder xs ↔ s ∈ xs := by
  unfold dedupPreserveOrder
  induction xs using List.reverseRecOn with
  | nil => exact ⟨List.nodup_nil, fun _ => Iff.rfl⟩
  | append_singleton xs x ih =>
    obtain ⟨hnodup, hmem⟩ := ih
    rw [List.foldl_append, List.foldl_cons, List.foldl_nil]
    split
    · rename_i hseen
      refine ⟨hnodup, fun s => ?_⟩
      rw [hmem, List.mem_append, List.mem_singleton, iff_self_or]
      rintro rfl
      exact (hmem s).mp (List.contains_iff_mem.mp hseen)
    · rename_i hnew
      rw [List.contains_iff_mem] at hnew
      refine ⟨List.nodup_append.mpr ⟨hnodup, List.nodup_singleton x, ?_⟩, fun s => ?_⟩
      · rintro a ha b hb rfl
        exact hnew (List.mem_singleton.mp hb ▸ ha)
      · rw [List.mem_append, List.mem_append, hmem]

theorem primary_mem (g : Bucket ResultItem) : primary g ∈ g.all := by
  have hfold : ∀ (xs : List ResultItem) (p : ResultItem), p ∈ g.all → (∀ x ∈ xs, x ∈ g.all) →
      xs.foldl (fun p x => if x.score.gt p.score then x else p) p ∈ g.all := by
    intro xs
    induction xs with
    | nil => exact fun p hp _ => hp
    | cons x xs ih =>
      intro p hp hxs
      obtain ⟨hx, hxs⟩ := List.forall_mem_cons.mp hxs
      rw [List.foldl_cons]
      apply ih _ _ hxs
      split
      · exact hx
      · exact hp
  exact hfold g.rest g.first List.mem_cons_self fun x hx => List.mem_cons_of_mem _ hx

/-- A result is a collected chunk, up to its parent text. -/
theorem mem_gather {sha256 : Bytes → Digest} {results : List NamespaceQueryResult} {queriedOrder : List String}
    {topK : Int} {rerank scatterTimedOut : Bool} {expandTopK maxBytes : Int} {item : ResultItem}
    (h : item ∈
      (gatherAndRerank sha256 results queriedOrder topK rerank scatterTimedOut expandTopK maxBytes).results) :
    ∃ x ∈ collect sha256 results, bare item = bare x := by
  have hbare := List.mem_map_of_mem (f := bare) h
  rw [gather_results, enforceParentExpansionBudget_bare] at hbare
  obtain ⟨x, hx, heq⟩ := List.mem_map.mp hbare
  obtain ⟨g, hg, rfl⟩ := List.mem_map.mp ((cutTo_sublist ..).subset hx)
  refine ⟨primary g, ?_, heq.symm⟩
  have hall := List.mem_flatMap.mpr ⟨g, hg, primary_mem g⟩
  exact (sortItems_perm _).mem_iff.mp ((Bucket.buckets_perm _).mem_iff.mp hall)

/-- The namespaces queried: each once, not more than the limit, those the request names, and all of them readable. -/
structure Admitted (listed checked : TenantPermissionAdapter) (auth : AuthContext) (requested : List String)
    (maxNamespaces : Int) (nss : List String) : Prop where
  authenticated : auth.userId ≠ ""
  nodup : nss.Nodup
  length_le : (nss.length : Int) ≤ effectiveMaxNamespaces maxNamespaces
  named : ∀ nsId, nsId ∈ nss ↔ nsId ∈ namedBy listed auth requested
  readable : checked.authEnabled = true → ∀ nsId ∈ nss, (checked.reads nsId).Readable auth nsId

/-- Every queried namespace is reported once, and a result is a chunk of the namespace that it names. -/
structure Confined (sha256 : Bytes → Digest) (exec : ScatterExecutor) (resp : CrossNsResponse) : Prop where
  reported : (resp.info.namespacesSucceeded ++ resp.info.namespacesFailed.map (·.namespaceId)).Perm
    resp.info.namespacesQueried
  results : ∀ item ∈ resp.results, item.namespaceId ∈ resp.info.namespacesQueried ∧
    ∃ rc ∈ (exec.executeForNamespace item.namespaceId).chunks,
      bare item = bare (toResultItem rc item.namespaceId (contentHashOfContent sha256 rc.chunkText))

theorem gather_confined (sha256 : Bytes → Digest) (exec : ScatterExecutor) {row : String → NamespaceQueryResult}
    (hrow : ∀ nsId, row nsId = exec.executeForNamespace nsId ∨ ∃ ms, row nsId = makeNamespaceTimeoutRow nsId ms)
    (nss : List String) (topK : Int) (rerank scatterTimedOut : Bool) (expandTopK maxBytes : Int) :
    Confined sha256 exec
      (gatherAndRerank sha256 (nss.map row) nss topK rerank scatterTimedOut expandTopK maxBytes) := by
  have hname : ∀ nsId, (row nsId).namespaceId = nsId := by
    intro nsId
    rcases hrow nsId with h | ⟨ms, h⟩
    · rw [h]
      exact exec.names nsId
    · rw [h]
      rfl
  refine ⟨?_, fun item hitem => ?_⟩
  · have hperm := partition_perm (nss.map row)
    have hnames : (nss.map row).map (·.namespaceId) = nss := by
      rw [List.map_map]
      exact List.map_id'' hname nss
    rwa [hnames] at hperm
  · obtain ⟨x, hx, heq⟩ := mem_gather hitem
    obtain ⟨r, hr, hx⟩ := List.mem_flatMap.mp hx
    obtain ⟨rc, hrc, rfl⟩ := List.mem_map.mp hx
    obtain ⟨nsId, hns, rfl⟩ := List.mem_map.mp (List.mem_filter.mp hr).1
    have hitem : item.namespaceId = nsId := (congrArg ResultItem.namespaceId heq).trans (hname nsId)
    rw [hitem]
    refine ⟨hns, rc, ?_, ?_⟩
    · rcases hrow nsId with h | ⟨ms, h⟩
      · rwa [h] at hrc
      · rw [h] at hrc
        cases hrc
    · rw [heq, hname]

/-- A query that returns was admitted and its results are confined to what it may read; one that does not says why, and
names exactly the namespaces that were refused. -/
theorem execute_spec (sha256 : Bytes → Digest) (exec : ScatterExecutor) (wait : String → Wait) (o : QueryOptions)
    (listed checked : TenantPermissionAdapter) (auth : AuthContext) (requested : List String) (maxNamespaces : Int) :
    match execute sha256 exec wait o listed checked auth requested maxNamespaces with
    | .ok resp =>
      Admitted listed checked auth requested maxNamespaces resp.info.namespacesQueried ∧ Confined sha256 exec resp
    | .error .authInvalidCredentials => auth.userId = ""
    | .error (.tooManyNamespaces n cap) =>
      n = (dedupPreserveOrder (namedBy listed auth requested)).length ∧ cap = effectiveMaxNamespaces maxNamespaces ∧
        cap < n
    | .error (.nsUnauthorized nss) =>
      nss ≠ [] ∧ ∀ nsId, nsId ∈ nss ↔ nsId ∈ namedBy listed auth requested ∧ checked.allows auth nsId = false := by
  obtain ⟨hnodup, hmem⟩ := dedupPreserveOrder_spec (namedBy listed auth requested)
  unfold execute authorizeNamespaces expandNamespaces
  by_cases huser : auth.userId = ""
  · rw [if_pos huser]
    exact huser
  rw [if_neg huser]
  by_cases hcap : effectiveMaxNamespaces maxNamespaces < (dedupPreserveOrder (namedBy listed auth requested)).length
  · rw [if_pos hcap]
    exact ⟨rfl, rfl, hcap⟩
  rw [if_neg hcap]
  dsimp only
  by_cases hall : (checked.batchCheck auth (dedupPreserveOrder (namedBy listed auth requested))).isEmpty = true
  · have hadmitted : Admitted listed checked auth requested maxNamespaces
        (dedupPreserveOrder (namedBy listed auth requested)) := by
      refine ⟨huser, hnodup, not_lt.mp hcap, hmem, fun henabled nsId hns => Reads.canRead_readable ?_⟩
      have hallowed := List.filter_eq_nil_iff.mp (List.isEmpty_iff.mp hall) nsId hns
      rw [Bool.not_eq_true, Bool.not_eq_false'] at hallowed
      unfold TenantPermissionAdapter.allows at hallowed
      rwa [henabled, Bool.not_true, Bool.false_or] at hallowed
    rw [if_pos hall]
    dsimp only
    split_ifs
    · exact ⟨hadmitted, gather_confined sha256 exec (fun _ => .inl rfl) ..⟩
    · refine ⟨hadmitted, gather_confined sha256 exec (fun nsId => ?_) ..⟩
      unfold joinRow
      split
      · exact .inl rfl
      · exact .inr ⟨_, rfl⟩
  · rw [if_neg hall]
    refine ⟨fun hnil => hall (List.isEmpty_iff.mpr hnil), fun nsId => ?_⟩
    unfold TenantPermissionAdapter.batchCheck
    rw [List.mem_filter, hmem, Bool.not_eq_true']

/-! ## Two namespaces, one of them late -/

/-- `a` is the tenant's own and `b` is public. -/
def twoTables : TenantPermissionAdapter where
  authEnabled := true
  active := ["a", "b", "c"]
  reads _ := {
    namespaces := [{ namespaceId := "a", tenantId := "t" }, { namespaceId := "b", tenantId := "u", visibility := "public" },
      { namespaceId := "c", tenantId := "u" }]
    acl := []
    executes := fun _ => true }

def fusedOnly : SingleUnitExecutor where
  retrieve nsId _ := some [⟨nsId ++ "1", ⟨0x3F000000⟩⟩, ⟨nsId ++ "2", ⟨0x3F800000⟩⟩]
  reranker := none

def plainOptions : QueryOptions := { rerank := false, hasDeadline := true }

def onlyA (nsId : String) : Wait := ⟨nsId == "a", true, 30⟩

theorem execute_spec_twoTables : ∃ resp,
    execute (fun _ => digestOfA) (fusedOnly.toScatterExecutor plainOptions fun _ => 7) onlyA plainOptions twoTables
      twoTables ⟨"alice", "t"⟩ ["*"] 5 = .ok resp ∧
    resp.info.namespacesQueried = ["a", "b"] ∧ resp.info.namespacesSucceeded = ["a"] ∧
    Admitted twoTables twoTables ⟨"alice", "t"⟩ ["*"] 5 ["a", "b"] ∧
    Confined (fun _ => digestOfA) (fusedOnly.toScatterExecutor plainOptions fun _ => 7) resp := by
  have hspec := execute_spec (fun _ => digestOfA) (fusedOnly.toScatterExecutor plainOptions fun _ => 7) onlyA
    plainOptions twoTables twoTables ⟨"alice", "t"⟩ ["*"] 5
  have hnss : authorizeNamespaces twoTables twoTables ⟨"alice", "t"⟩ ["*"] 5 = .ok ["a", "b"] := rfl
  obtain ⟨resp, hresp, hqueried, hsucceeded⟩ : ∃ resp,
      execute (fun _ => digestOfA) (fusedOnly.toScatterExecutor plainOptions fun _ => 7) onlyA plainOptions twoTables
        twoTables ⟨"alice", "t"⟩ ["*"] 5 = .ok resp ∧
      resp.info.namespacesQueried = ["a", "b"] ∧ resp.info.namespacesSucceeded = ["a"] := by
    unfold execute
    rw [hnss]
    exact ⟨_, rfl, rfl, rfl⟩
  rw [hresp] at hspec
  exact ⟨resp, hresp, hqueried, hsucceeded, hqueried ▸ hspec.1, hspec.2⟩

end Cortrix.Query
