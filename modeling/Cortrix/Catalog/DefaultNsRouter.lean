import Cortrix.Catalog.TtlLruCache
import Cortrix.Resource.NamespacePool

/-!
# The namespace router

`DefaultINSRouter` over the tables `namespaces`, `units` and `ns_units` of the catalog database, with its two caches.
-/

namespace Cortrix.Catalog.DefaultINSRouter
open Lib
open Resource.NamespacePool (PoolErrorCode)

inductive UnitState
  | kActive
  | kSealing
  | kSealed
  | kArchived
  | kMigrating
  deriving DecidableEq

def unitStateFromString (s : String) : UnitState :=
  if s = "sealing" then .kSealing
  else if s = "sealed" then .kSealed
  else if s = "archived" then .kArchived
  else if s = "migrating" then .kMigrating
  else .kActive

inductive IndexType
  | kHnsw
  | kBruteForce
  | kQuantizedHnsw
  deriving DecidableEq

def indexTypeFromString (s : String) : IndexType :=
  if s = "bruteforce" then .kBruteForce
  else if s = "quantized_hnsw" then .kQuantizedHnsw
  else .kHnsw

/-- The `*_config` columns. -/
structure NsConfigs where
  rerankerConfig : Option String := none
  enricherConfig : Option String := none
  parserConfig : Option String := none
  memoryConfig : Option String := none
  watcherConfig : Option String := none
  cleaningConfig : Option String := none
  ragFusionConfig : Option String := none
  cragConfig : Option String := none
  complexityConfig : Option String := none
  sparseConfig : Option String := none
  docSummaryConfig : Option String := none
  deriving DecidableEq

def NsConfigs.columnDefaults : NsConfigs where
  rerankerConfig := some "\x7b\x7d"
  enricherConfig := some "\x7b\x7d"
  parserConfig := some "\x7b\x7d"
  memoryConfig := some "\x7b\x7d"
  watcherConfig := some "\x7b\x7d"
  cleaningConfig := some "\x7b\x7d"
  ragFusionConfig := some "\x7b\x7d"
  cragConfig := some "\x7b\x7d"
  complexityConfig := some "\x7b\x7d"
  sparseConfig := some "\x7b\x7d"
  docSummaryConfig := some "\x7b\x7d"

/-- `NSMetadata`; a row of `namespaces` as `GetNamespace` reads it. -/
structure NSMetadata where
  namespaceId : String
  name : String := ""
  tenantId : String := ""
  isolationMode : String := "shared"
  visibility : String := "tenant"
  ownerUserId : Option String := none
  clonedFromNsId : Option String := none
  cloneType : Option String := none
  clonedAt : Option Int := none
  status : String := "active"
  createdAt : Int := 0
  configs : NsConfigs := {}
  deriving DecidableEq

structure UnitRow where
  unitId : String
  tenantId : String
  state : String := "active"
  indexType : String := "hnsw"
  sealedAt : Option Int := none
  archivedAt : Option Int := none
  vectorCount : Int := 0
  sizeBytes : Int := 0
  lastWriteAt : Int := 0
  sealThresholdVectors : Int := 9223372036854775807
  sealThresholdBytes : Int := 9223372036854775807
  sealIdleDays : Int := 2147483647
  ownerNodeId : String := "local"
  createdAt : Int

structure UnitDescriptor where
  unitId : String
  tenantId : String
  state : UnitState := .kActive
  indexType : IndexType := .kHnsw
  sealedAt : Option Int := none
  archivedAt : Option Int := none
  vectorCount : Int := 0
  sizeBytes : Int := 0
  lastWriteAt : Int := 0
  sealThresholdVectors : Int := 9223372036854775807
  sealThresholdBytes : Int := 9223372036854775807
  sealIdleDays : Int := 2147483647
  ownerNodeId : String := "local"
  createdAt : Int := 0
  deriving DecidableEq

def UnitRow.descriptor (u : UnitRow) : UnitDescriptor where
  unitId := u.unitId
  tenantId := u.tenantId
  state := unitStateFromString u.state
  indexType := indexTypeFromString u.indexType
  sealedAt := u.sealedAt
  archivedAt := u.archivedAt
  vectorCount := u.vectorCount
  sizeBytes := u.sizeBytes
  lastWriteAt := u.lastWriteAt
  sealThresholdVectors := u.sealThresholdVectors
  sealThresholdBytes := u.sealThresholdBytes
  sealIdleDays := u.sealIdleDays
  ownerNodeId := u.ownerNodeId
  createdAt := u.createdAt

structure NsUnit where
  nsId : String
  unitId : String
  isPrimary : Int := 1
  createdAt : Int

def NsUnit.key (m : NsUnit) : String × String := (m.nsId, m.unitId)

/-! ## The tables and their constraints -/

/-- Of the other tables, only the keys that take part in a foreign key: `tenants`, and what `file_locations.unit_id` and
the import tables refer to. -/
structure Tables where
  tenants : List String
  namespaces : List NSMetadata := []
  units : List UnitRow := []
  nsUnits : List NsUnit := []
  fileUnits : List String := []
  importNamespaces : List String := []

def Tables.PrimaryKeys (t : Tables) : Prop :=
  Keyed NSMetadata.namespaceId t.namespaces ∧ Keyed UnitRow.unitId t.units ∧ Keyed NsUnit.key t.nsUnits

def Tables.ForeignKeys (t : Tables) : Prop :=
  (∀ n ∈ t.namespaces, n.tenantId ∈ t.tenants) ∧ (∀ u ∈ t.units, u.tenantId ∈ t.tenants) ∧
    (∀ m ∈ t.nsUnits, m.nsId ∈ t.namespaces.map NSMetadata.namespaceId ∧ m.unitId ∈ t.units.map UnitRow.unitId) ∧
    (∀ u ∈ t.fileUnits, u ∈ t.units.map UnitRow.unitId) ∧
    ∀ n ∈ t.importNamespaces, n ∈ t.namespaces.map NSMetadata.namespaceId

instance (t : Tables) : Decidable t.PrimaryKeys := inferInstanceAs (Decidable (_ ∧ _ ∧ _))

instance (t : Tables) : Decidable t.ForeignKeys := inferInstanceAs (Decidable (_ ∧ _ ∧ _ ∧ _ ∧ _))

structure CatalogDb extends Tables where
  primaryKeys : toTables.PrimaryKeys
  foreignKeys : toTables.ForeignKeys

inductive Violation
  | primaryKey
  | foreignKey

/-- A statement. The foreign keys are enforced at its end. -/
def CatalogDb.execute (c : CatalogDb) (f : Tables → Tables) : Except Violation CatalogDb :=
  if hp : (f c.toTables).PrimaryKeys then
    if hf : (f c.toTables).ForeignKeys then .ok ⟨f c.toTables, hp, hf⟩ else .error .foreignKey
  else .error .primaryKey

/-- The statements of a transaction, up to the first that is refused. -/
def CatalogDb.executeAll (c : CatalogDb) : List (Tables → Tables) → Except Violation CatalogDb
  | [] => .ok c
  | f :: fs => (c.execute f).bind fun c => c.executeAll fs

/-! ## The statements -/

def insertNamespace (n : NSMetadata) (t : Tables) : Tables := { t with namespaces := t.namespaces ++ [n] }

def insertUnit (u : UnitRow) (t : Tables) : Tables := { t with units := t.units ++ [u] }

def insertNsUnit (m : NsUnit) (t : Tables) : Tables := { t with nsUnits := t.nsUnits ++ [m] }

/-- `DELETE FROM units WHERE unit_id IN (SELECT unit_id FROM ns_units WHERE ns_id = ?)`. -/
def deleteUnits (nsId : String) (t : Tables) : Tables :=
  { t with units := deleteWhere (fun u => t.nsUnits.any fun m => m.nsId == nsId && m.unitId == u.unitId) t.units }

def deleteNsUnits (nsId : String) (t : Tables) : Tables :=
  { t with nsUnits := deleteWhere (fun m => m.nsId == nsId) t.nsUnits }

def deleteNamespaces (nsId : String) (t : Tables) : Tables :=
  { t with namespaces := deleteWhere (fun n => n.namespaceId == nsId) t.namespaces }

/-- The rows of `WHERE ns_id = ? AND status != 'deleted'`. -/
def isLive (nsId : String) (n : NSMetadata) : Bool := n.namespaceId == nsId && n.status != "deleted"

/-- `UPDATE namespaces SET status = 'deleted' WHERE ns_id = ? AND status != 'deleted'`. -/
def softDelete (nsId : String) (t : Tables) : Tables :=
  { t with namespaces := updateWhere (isLive nsId) (fun n => { n with status := "deleted" }) t.namespaces }

/-! ## Reading -/

inductive CatalogErrorCode
  | kNsNotFound
  | kNsAlreadyExists
  | kUnitNotFound
  | kTenantNotFound
  | kInvalidConfigJson
  | kInternalError
  deriving DecidableEq

structure CatalogStatus where
  code : CatalogErrorCode
  detail : String
  deriving DecidableEq

def nsNotFound (nsId : String) : CatalogStatus := ⟨.kNsNotFound, "namespace '" ++ nsId ++ "'"⟩

def readNamespace (t : Tables) (nsId : String) : Except CatalogStatus NSMetadata :=
  match lookup NSMetadata.namespaceId nsId t.namespaces with
  | some n => .ok n
  | none => .error (nsNotFound nsId)

def readUnit (t : Tables) (unitId : String) : Except CatalogStatus UnitDescriptor :=
  match lookup UnitRow.unitId unitId t.units with
  | some u => .ok u.descriptor
  | none => .error ⟨.kUnitNotFound, "unit '" ++ unitId ++ "'"⟩

/-- The earlier one of `ORDER BY is_primary DESC, created_at ASC`; of two that tie, the one visited first. -/
def preferred (best : Option NsUnit) (m : NsUnit) : Option NsUnit :=
  match best with
  | none => some m
  | some b => if b.isPrimary < m.isPrimary ∨ b.isPrimary = m.isPrimary ∧ m.createdAt < b.createdAt then some m else some b

def activeUnitId (t : Tables) (nsId : String) : Except CatalogStatus String :=
  match (t.nsUnits.filter fun m => m.nsId == nsId).foldl preferred none with
  | some m => .ok m.unitId
  | none => .error (nsNotFound nsId)

/-! ## The router -/

structure Router where
  catalog : CatalogDb
  nsCache : TtlLruCache String NSMetadata := ⟨10000, 60000, []⟩
  unitCache : TtlLruCache String UnitDescriptor := ⟨1000, 60000, []⟩

namespace Router
variable (r : Router)

def getNamespace (nsId : String) (now : Int) : Except CatalogStatus NSMetadata × Router :=
  match r.nsCache.get nsId now with
  | (some n, cache) => (.ok n, { r with nsCache := cache })
  | (none, cache) =>
    match readNamespace r.catalog.toTables nsId with
    | .ok n => (.ok n, { r with nsCache := cache.put nsId n now })
    | .error e => (.error e, { r with nsCache := cache })

def getActiveUnit (nsId : String) (now : Int) : Except CatalogStatus UnitDescriptor × Router :=
  match activeUnitId r.catalog.toTables nsId with
  | .error e => (.error e, r)
  | .ok unitId =>
    match r.unitCache.get unitId now with
    | (some u, cache) => (.ok u, { r with unitCache := cache })
    | (none, cache) =>
      match readUnit r.catalog.toTables unitId with
      | .ok u => (.ok u, { r with unitCache := cache.put unitId u now })
      | .error e => (.error e, { r with unitCache := cache })

/-- A read of the router by another component, at a moment of the steady clock. -/
inductive Read
  | getNamespace (nsId : String) (now : Int)
  | getActiveUnit (nsId : String) (now : Int)

def read : Read → Router
  | .getNamespace nsId now => (r.getNamespace nsId now).2
  | .getActiveUnit nsId now => (r.getActiveUnit nsId now).2

def readAll (reads : List Read) : Router := reads.foldl read r

end Router

/-! ## Creating and deleting -/

def namespaceRow (m : NSMetadata) (now : Int) : NSMetadata where
  namespaceId := m.namespaceId
  name := m.name
  tenantId := m.tenantId
  isolationMode := if m.isolationMode = "" then "shared" else m.isolationMode
  visibility := if m.visibility = "" then "tenant" else m.visibility
  ownerUserId := m.ownerUserId
  status := if m.status = "" then "active" else m.status
  createdAt := now
  configs := .columnDefaults

def unitIdOf (nsId : String) : String := "unit-" ++ nsId

def unitRow (m : NSMetadata) (now : Int) : UnitRow where
  unitId := unitIdOf m.namespaceId
  tenantId := m.tenantId
  lastWriteAt := now
  createdAt := now

def nsUnitRow (m : NSMetadata) (now : Int) : NsUnit where
  nsId := m.namespaceId
  unitId := unitIdOf m.namespaceId
  createdAt := now

/-- `InsertNamespaceCatalog`: on an error the transaction is rolled back. -/
def insertNamespaceCatalog (c : CatalogDb) (m : NSMetadata) (now : Int) : Except CatalogStatus CatalogDb :=
  match c.execute (insertNamespace (namespaceRow m now)) with
  | .error .primaryKey => .error ⟨.kNsAlreadyExists, "namespace '" ++ m.namespaceId ++ "'"⟩
  | .error .foreignKey =>
    .error ⟨.kTenantNotFound, "tenant '" ++ m.tenantId ++
      "' does not exist; check the tenant_id of the API key (single-tenant CE uses default_tenant)"⟩
  | .ok c₁ =>
    match c₁.execute (insertUnit (unitRow m now)) with
    | .error _ => .error ⟨.kInternalError, "insert unit failed"⟩
    | .ok c₂ =>
      match c₂.execute (insertNsUnit (nsUnitRow m now)) with
      | .error _ => .error ⟨.kInternalError, "insert ns_units failed"⟩
      | .ok c₃ => .ok c₃

def removeRows (nsId : String) : List (Tables → Tables) :=
  [deleteUnits nsId, deleteNsUnits nsId, deleteNamespaces nsId]

/-- `RemoveNamespaceCatalogRows`: best effort, rolled back when a statement is refused. -/
def removeNamespaceCatalogRows (r : Router) (nsId : String) : Router :=
  let catalog := match r.catalog.executeAll (removeRows nsId) with
    | .ok c => c
    | .error _ => r.catalog
  { r with catalog := catalog, nsCache := r.nsCache.invalidate nsId }

/-- What `AdmitCreate` of the pool does: it reads the router, and answers. -/
structure Admission where
  reads : List Router.Read := []
  answer : Except PoolErrorCode Unit := .ok ()

/-- An error of `CreateNamespace`: its own, or that of the pool. -/
inductive Failure
  | catalog (status : CatalogStatus)
  | pool (code : PoolErrorCode)

/-- `CreateNamespace`, at a moment of the wall clock; without a pool there is no admission. -/
def createNamespace (r : Router) (m : NSMetadata) (now : Int) (pool : Option Admission) :
    Router × Except Failure Unit :=
  if m.namespaceId = "" then (r, .error (.catalog ⟨.kInvalidConfigJson, "ns_id is empty"⟩))
  else
    match insertNamespaceCatalog r.catalog m now with
    | .error e => (r, .error (.catalog e))
    | .ok c =>
      let r := { r with catalog := c }
      match pool with
      | none => (r, .ok ())
      | some admission =>
        let r := r.readAll admission.reads
        match admission.answer with
        | .ok () => (r, .ok ())
        | .error code => (removeNamespaceCatalogRows r m.namespaceId, .error (.pool code))

/-- The catalog part of `DeleteNamespace`. -/
def deleteNamespaceRow (r : Router) (nsId : String) : Router × Except CatalogStatus Unit :=
  match r.catalog.execute (softDelete nsId) with
  | .error _ => (r, .error ⟨.kInternalError, "soft-delete ns failed"⟩)
  | .ok c =>
    if changes (isLive nsId) r.catalog.namespaces = 0 then (r, .error (nsNotFound nsId))
    else ({ r with catalog := c, nsCache := r.nsCache.invalidate nsId }, .ok ())

end Cortrix.Catalog.DefaultINSRouter
