import Cortrix.Lib.Session
import Cortrix.Lib.Table

/-!
# The tenant service

`TenantService` over the catalog database: the seven calls that write, each as the SQL statements it issues, so that the
calls can interleave on the connection they share.
-/

namespace Cortrix.TenantService
open Lib Session

inductive TenantRole
  | OWNER
  | ADMIN
  | MEMBER
  | VIEWER
  deriving DecidableEq

/-- `ToString`, the token in `user_tenants.role`. -/
def TenantRole.toString : TenantRole → String
  | .OWNER => "owner"
  | .ADMIN => "admin"
  | .MEMBER => "member"
  | .VIEWER => "viewer"

def parseTenantRole (token : String) : Option TenantRole :=
  if token = "owner" then some .OWNER
  else if token = "admin" then some .ADMIN
  else if token = "member" then some .MEMBER
  else if token = "viewer" then some .VIEWER
  else none

def isManager (role : TenantRole) : Bool := role = .OWNER || role = .ADMIN

structure Tenant where
  tenantId : String
  name : String
  type : String
  dedupScope : String := "tenant"
  createdAt : Int := 0

structure UserTenant where
  userId : String
  tenantId : String
  role : String
  createdAt : Int := 0
  deriving DecidableEq

def UserTenant.key (m : UserTenant) : String × String := (m.userId, m.tenantId)

/-- The tables of the catalog. A row of `namespaces` and of `units` is its key and its `tenant_id`; `deleted` are the
ids of the tenants deleted so far. -/
structure Catalog where
  tenants : List Tenant
  userTenants : List UserTenant
  keyed : Keyed UserTenant.key userTenants
  namespaces : List (String × String) := []
  units : List (String × String) := []
  deleted : List String := []

/-! ## The statements -/

inductive Write
  | insertTenant (t : Tenant)
  | insertUserTenant (m : UserTenant)
  /-- `DELETE FROM user_tenants WHERE tenant_id=? AND user_id=?`. -/
  | deleteUserTenant (tenantId userId : String)
  /-- `UPDATE user_tenants SET role=? WHERE tenant_id=? AND user_id=?`. -/
  | setRole (role tenantId userId : String)
  /-- `DELETE FROM user_tenants WHERE tenant_id=?`. -/
  | deleteUserTenants (tenantId : String)
  | deleteTenant (tenantId : String)
  /-- Another component writes the namespaces and units. -/
  | setReferences (namespaces units : List (String × String))

def UserTenant.isOf (tenantId userId : String) (m : UserTenant) : Bool := m.tenantId == tenantId && m.userId == userId

/-- The catalog after the statement; `none` on a constraint violation. -/
def Write.apply : Write → Catalog → Option Catalog
  | .insertTenant t, d => (insertRow Tenant.tenantId t d.tenants).map fun ts => { d with tenants := ts }
  | .insertUserTenant m, d =>
    match h : insertRow UserTenant.key m d.userTenants with
    | some ms => some { d with userTenants := ms, keyed := d.keyed.insertRow h }
    | none => none
  | .deleteUserTenant tenantId userId, d =>
    some { d with userTenants := deleteWhere (UserTenant.isOf tenantId userId) d.userTenants, keyed := d.keyed.deleteWhere }
  | .setRole role tenantId userId, d =>
    some { d with
      userTenants := updateWhere (UserTenant.isOf tenantId userId) (fun m => { m with role := role }) d.userTenants
      keyed := d.keyed.updateWhere fun _ _ => rfl }
  | .deleteUserTenants tenantId, d =>
    some { d with userTenants := deleteWhere (fun m => m.tenantId == tenantId) d.userTenants, keyed := d.keyed.deleteWhere }
  | .deleteTenant tenantId, d =>
    -- foreign keys of namespaces and of units
    if (d.namespaces ++ d.units).any fun n => n.2 == tenantId then none
    else
      some { d with
        tenants := deleteWhere (fun t => t.tenantId == tenantId) d.tenants
        deleted := tenantId :: d.deleted }
  | .setReferences namespaces units, d => some { d with namespaces := namespaces, units := units }

/-! ## Private helpers -/

/-- The data of a query that got it. -/
def dataOf : Got Catalog → Option Catalog
  | .data d => some d
  | .unprepared => none
  | .failed => none

def Catalog.member (d : Catalog) (tenantId userId : String) : Option UserTenant :=
  lookup UserTenant.key (userId, tenantId) d.userTenants

def callerRole (tenantId userId : String) (x : Got Catalog) : Option TenantRole :=
  (dataOf x).bind fun d => (d.member tenantId userId).bind fun m => parseTenantRole m.role

def tenantExists (tenantId : String) (x : Got Catalog) : Bool :=
  (dataOf x).any fun d => d.tenants.any fun t => t.tenantId == tenantId

def Catalog.owners (d : Catalog) (tenantId : String) : Nat :=
  changes (fun m => m.tenantId == tenantId && m.role == "owner") d.userTenants

def ownerCount (tenantId : String) (x : Got Catalog) : Nat := (dataOf x).elim 0 fun d => d.owners tenantId

/-! ## The calls -/

inductive TenantErrorCode
  | kTenantNotFound
  | kTenantAlreadyExists
  | kTenantEmailDuplicate
  | kTenantDeleteHasNamespaces
  | kTenantDeleteHasMembers
  | kTenantTransferTargetNotMember
  | kTenantLastOwnerRemoval
  | kMemberAlreadyExists
  | kMemberNotFound
  | kTenantTransactionFailed
  | kCallerRoleInsufficient

/-- An error: a `TenantStatus`, or that of the caller whose transaction a `CreatePersonal` runs in. -/
inductive Failure
  | tenant (code : TenantErrorCode) (detail : String)
  | registration

/-- What a call returns; the tenant for the two that create one. -/
abbrev Result := Except Failure (Option Tenant)

abbrev Proc := Prog Catalog Write Result

def tenantStatus (code : TenantErrorCode) (detail : String) : Proc := .ret (.error (.tenant code detail))

def statusOk : Proc := .ret (.ok none)

def errmsgOf : Wrote → String
  | .refused _ errmsg => errmsg
  | .unprepared errmsg => errmsg
  | .done => "not an error"

/-- The two inserts of `CreatePersonal`. An error goes to `onError`, success to `onDone`. -/
def createPersonalOn (tenant : Tenant) (userId : String) (onError : Proc → Proc) (onDone : Proc) : Proc :=
  .execute (.insertTenant tenant) fun x =>
    match x with
    | .unprepared _ => onError (tenantStatus .kTenantTransactionFailed "tenants insert prepare")
    | .refused true _ => onError (tenantStatus .kTenantEmailDuplicate tenant.name)
    | .refused false errmsg => onError (tenantStatus .kTenantTransactionFailed ("tenants insert: " ++ errmsg))
    | .done =>
      .execute (.insertUserTenant ⟨userId, tenant.tenantId, "owner", tenant.createdAt⟩) fun x =>
        match x with
        | .unprepared _ => onError (tenantStatus .kTenantTransactionFailed "user_tenants insert prepare")
        | .refused _ errmsg => onError (tenantStatus .kTenantTransactionFailed ("user_tenants insert: " ++ errmsg))
        | .done => onDone

def personalTenant (uuid email : String) (now : Int) : Tenant where
  tenantId := "tenant-" ++ uuid
  name := email
  type := "personal"
  createdAt := now

/-- `CreatePersonal`. On the connection of a caller it runs in that caller's transaction, which the caller commits, or
rolls back on an error; without one each insert is committed by itself. -/
def createPersonal (inTransaction : Bool) (userId email uuid : String) (now : Int) : Proc :=
  let tenant := personalTenant uuid email now
  if inTransaction then
    .beginTxn fun begun =>
      if begun then
        createPersonalOn tenant userId Prog.rollback
          (.commit fun committed =>
            if committed then .ret (.ok (some tenant)) else .rollback (.ret (.error .registration)))
      else .ret (.error .registration)
  else createPersonalOn tenant userId id (.ret (.ok (some tenant)))

def createOrganization (name ownerUserId uuid : String) (now : Int) : Proc :=
  let tenant : Tenant := { tenantId := "tenant-" ++ uuid, name := name, type := "organization", createdAt := now }
  .beginTxn fun begun =>
    if !begun then tenantStatus .kTenantTransactionFailed "begin tx"
    else
      .execute (.insertTenant tenant) fun x =>
        match x with
        | .unprepared _ => .rollback (tenantStatus .kTenantTransactionFailed "tenants insert prepare")
        | .refused true _ => .rollback (tenantStatus .kTenantAlreadyExists tenant.tenantId)
        | .refused false errmsg => .rollback (tenantStatus .kTenantTransactionFailed ("tenants insert: " ++ errmsg))
        | .done =>
          .execute (.insertUserTenant ⟨ownerUserId, tenant.tenantId, "owner", now⟩) fun x =>
            match x with
            | .unprepared _ => .rollback (tenantStatus .kTenantTransactionFailed "user_tenants insert prepare")
            | .refused _ errmsg =>
              .rollback (tenantStatus .kTenantTransactionFailed ("user_tenants insert: " ++ errmsg))
            | .done =>
              .commit fun committed =>
                if committed then .ret (.ok (some tenant))
                else .rollback (tenantStatus .kTenantTransactionFailed "commit tx")

def notManager (tenantId : String) : Proc :=
  tenantStatus .kCallerRoleInsufficient ("caller is not OWNER/ADMIN of " ++ tenantId)

def addMember (tenantId userId : String) (role : TenantRole) (caller : String) (now : Int) : Proc :=
  .query fun x =>
    if !tenantExists tenantId x then tenantStatus .kTenantNotFound tenantId
    else
      .query fun x =>
        if !(callerRole tenantId caller x).any isManager then notManager tenantId
        else
          .query fun x =>
            if (callerRole tenantId userId x).isSome then
              tenantStatus .kMemberAlreadyExists (userId ++ " already in " ++ tenantId)
            else
              .execute (.insertUserTenant ⟨userId, tenantId, role.toString, now⟩) fun x =>
                match x with
                | .unprepared _ => tenantStatus .kTenantTransactionFailed "add member prepare"
                | .refused true _ => tenantStatus .kMemberAlreadyExists userId
                | .refused false errmsg => tenantStatus .kTenantTransactionFailed ("add member: " ++ errmsg)
                | .done => statusOk

def writeMember (w : Write) (what : String) : Proc :=
  .execute w fun x =>
    match x with
    | .unprepared _ => tenantStatus .kTenantTransactionFailed (what ++ " prepare")
    | .refused _ errmsg => tenantStatus .kTenantTransactionFailed (what ++ ": " ++ errmsg)
    | .done => statusOk

def removeMember (tenantId userId caller : String) : Proc :=
  .query fun x =>
    if !(callerRole tenantId caller x).any isManager then notManager tenantId
    else
      .query fun x =>
        match callerRole tenantId userId x with
        | none => tenantStatus .kMemberNotFound (userId ++ " not in " ++ tenantId)
        | some target =>
          if target = .OWNER then
            .query fun x =>
              if ownerCount tenantId x ≤ 1 then
                tenantStatus .kTenantLastOwnerRemoval ("cannot remove the last owner of " ++ tenantId)
              else writeMember (.deleteUserTenant tenantId userId) "remove member"
          else writeMember (.deleteUserTenant tenantId userId) "remove member"

def updateMemberRole (tenantId userId : String) (newRole : TenantRole) (caller : String) : Proc :=
  .query fun x =>
    if !(callerRole tenantId caller x).any isManager then notManager tenantId
    else
      .query fun x =>
        match callerRole tenantId userId x with
        | none => tenantStatus .kMemberNotFound (userId ++ " not in " ++ tenantId)
        | some target =>
          if target = .OWNER ∧ newRole ≠ .OWNER then
            .query fun x =>
              if ownerCount tenantId x ≤ 1 then
                tenantStatus .kTenantLastOwnerRemoval ("cannot demote the last owner of " ++ tenantId)
              else writeMember (.setRole newRole.toString tenantId userId) "update role"
          else writeMember (.setRole newRole.toString tenantId userId) "update role"

/-- Two writes in a transaction of their own; the second is issued whether or not the first has failed. -/
def bothOrNone (first second : Write) (what : String) : Proc :=
  .beginTxn fun begun =>
    if !begun then tenantStatus .kTenantTransactionFailed "begin tx"
    else
      .execute first fun x =>
        .execute second fun y =>
          if x ≠ .done ∨ y ≠ .done then
            .rollback (tenantStatus .kTenantTransactionFailed (what ++ ": " ++ errmsgOf y))
          else
            .commit fun committed =>
              if committed then statusOk else .rollback (tenantStatus .kTenantTransactionFailed "commit tx")

def delete (tenantId caller : String) : Proc :=
  .query fun x =>
    if !tenantExists tenantId x then tenantStatus .kTenantNotFound tenantId
    else
      .query fun x =>
        if callerRole tenantId caller x ≠ some .OWNER then
          tenantStatus .kCallerRoleInsufficient ("only the OWNER may delete " ++ tenantId)
        else
          .query fun x =>
            match x with
            | .unprepared => tenantStatus .kTenantTransactionFailed "ns count prepare"
            | x =>
              -- a count that cannot be read counts as none
              let nsCount := (dataOf x).elim 0 fun d => changes (fun n => n.2 == tenantId) d.namespaces
              if 0 < nsCount then
                tenantStatus .kTenantDeleteHasNamespaces
                  (tenantId ++ " owns " ++ toString nsCount ++ " namespace(s)")
              else
                .query fun x =>
                  match x with
                  | .unprepared => tenantStatus .kTenantTransactionFailed "member count prepare"
                  | x =>
                    let memberCount := (dataOf x).elim 0 fun d =>
                      changes (fun m => m.tenantId == tenantId && m.role != "owner") d.userTenants
                    if 0 < memberCount then
                      tenantStatus .kTenantDeleteHasMembers
                        (tenantId ++ " still has " ++ toString memberCount ++ " non-owner member(s)")
                    else bothOrNone (.deleteUserTenants tenantId) (.deleteTenant tenantId) "delete tenant"

def transferOwnership (tenantId newOwnerUserId caller : String) : Proc :=
  .query fun x =>
    if !tenantExists tenantId x then tenantStatus .kTenantNotFound tenantId
    else
      .query fun x =>
        if callerRole tenantId caller x ≠ some .OWNER then
          tenantStatus .kCallerRoleInsufficient ("only the current OWNER may transfer ownership of " ++ tenantId)
        else
          .query fun x =>
            if (callerRole tenantId newOwnerUserId x).isNone then
              tenantStatus .kTenantTransferTargetNotMember (newOwnerUserId ++ " is not a member of " ++ tenantId)
            else
              -- promoted first, demoted second, which may be the same user
              bothOrNone (.setRole "owner" tenantId newOwnerUserId) (.setRole "admin" tenantId caller)
                "transfer ownership"

/-- A call with its arguments, the id drawn and the time read. -/
inductive Op
  | createPersonal (inTransaction : Bool) (userId email uuid : String) (now : Int)
  | createOrganization (name ownerUserId uuid : String) (now : Int)
  | addMember (tenantId userId : String) (role : TenantRole) (caller : String) (now : Int)
  | removeMember (tenantId userId caller : String)
  | updateMemberRole (tenantId userId : String) (newRole : TenantRole) (caller : String)
  | delete (tenantId caller : String)
  | transferOwnership (tenantId newOwnerUserId caller : String)
  | setReferences (namespaces units : List (String × String))

def Op.prog : Op → Proc
  | .createPersonal inTransaction userId email uuid now => TenantService.createPersonal inTransaction userId email uuid now
  | .createOrganization name ownerUserId uuid now => TenantService.createOrganization name ownerUserId uuid now
  | .addMember tenantId userId role caller now => TenantService.addMember tenantId userId role caller now
  | .removeMember tenantId userId caller => TenantService.removeMember tenantId userId caller
  | .updateMemberRole tenantId userId newRole caller => TenantService.updateMemberRole tenantId userId newRole caller
  | .delete tenantId caller => TenantService.delete tenantId caller
  | .transferOwnership tenantId newOwnerUserId caller => TenantService.transferOwnership tenantId newOwnerUserId caller
  | .setReferences namespaces units => writeMember (.setReferences namespaces units) "catalog"

abbrev State := Session.State Catalog Write Result

abbrev Act := Session.Act Op

def step : State → Act → Option State := Session.step Write.apply Op.prog

def init (d : Catalog) : State := ⟨⟨d, none⟩, []⟩

end Cortrix.TenantService
