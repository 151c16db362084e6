import Cortrix.Tenant.TenantService

/-!
# Every tenant has an owner

* `HasOwner d t`, `Owned d` : what is to hold of the committed catalog; `Gap g d` : it holds but for the tenant `g` that
  a transaction is making or deleting;
* `KeepsOwner d t u` : the last-owner check of `RemoveMember` and `UpdateMemberRole`, as a statement of the catalog;
* `rules`, `Clean` : a write that takes an owner's role away finds the check passing, a member is added to a tenant that
  is there, a tenant that is deleted has no members left;
* `committed_owned` : on every run of such steps; `Serial`, `serial_clean` : calls that do not overlap take only such
  steps, unless a sole owner transfers the ownership to himself.
-/

namespace Cortrix.TenantService
open Lib Session

def HasOwner (d : Catalog) (tenantId : String) : Prop :=
  ∃ m ∈ d.userTenants, m.tenantId = tenantId ∧ m.role = "owner"

def HasTenant (d : Catalog) (tenantId : String) : Prop := ∃ t ∈ d.tenants, t.tenantId = tenantId

instance (d : Catalog) (tenantId : String) : Decidable (HasOwner d tenantId) :=
  inferInstanceAs (Decidable (∃ m ∈ d.userTenants, _))

instance (d : Catalog) (tenantId : String) : Decidable (HasTenant d tenantId) :=
  inferInstanceAs (Decidable (∃ t ∈ d.tenants, _))

def Owned (d : Catalog) : Prop := ∀ t ∈ d.tenants, HasOwner d t.tenantId

instance (d : Catalog) : Decidable (Owned d) := inferInstanceAs (Decidable (∀ t ∈ d.tenants, _))

def NoneLeft (d : Catalog) : Prop := ∀ m ∈ d.userTenants, m.tenantId ∈ d.deleted → HasTenant d m.tenantId

/-- If the user is an owner of the tenant, it has another one. -/
def KeepsOwner (d : Catalog) (tenantId userId : String) : Prop :=
  ∀ m ∈ d.member tenantId userId, m.role = "owner" → 1 < d.owners tenantId

instance (d : Catalog) (tenantId userId : String) : Decidable (KeepsOwner d tenantId userId) :=
  inferInstanceAs (Decidable (∀ m ∈ d.member tenantId userId, _))

/-- Every tenant but `g` has an owner. -/
structure Gap (g : Option String) (d : Catalog) : Prop where
  owned : ∀ t ∈ d.tenants, g ≠ some t.tenantId → HasOwner d t.tenantId
  noneLeft : NoneLeft d

/-- What a write may find. -/
def Allowed : Write → Catalog → Prop
  | .insertTenant _, _ => True
  | .insertUserTenant m, d => HasTenant d m.tenantId
  | .deleteUserTenant tenantId userId, d => KeepsOwner d tenantId userId
  | .setRole role tenantId userId, d => role = "owner" ∨ KeepsOwner d tenantId userId
  | .deleteUserTenants _, _ => True
  | .deleteTenant tenantId, d => ∀ m ∈ d.userTenants, m.tenantId ≠ tenantId
  | .setReferences _ _, _ => True

instance : ∀ w d, Decidable (Allowed w d)
  | .insertTenant _, _ => .isTrue trivial
  | .insertUserTenant m, d => inferInstanceAs (Decidable (HasTenant d m.tenantId))
  | .deleteUserTenant tenantId userId, d => inferInstanceAs (Decidable (KeepsOwner d tenantId userId))
  | .setRole _ tenantId userId, d => inferInstanceAs (Decidable (_ ∨ KeepsOwner d tenantId userId))
  | .deleteUserTenants _, _ => .isTrue trivial
  | .deleteTenant _, d => inferInstanceAs (Decidable (∀ m ∈ d.userTenants, _))
  | .setReferences _ _, _ => .isTrue trivial

/-- The writes that need no other write to make up for them. -/
def Small : Write → Prop
  | .insertTenant _ => False
  | .insertUserTenant _ => True
  | .deleteUserTenant _ _ => True
  | .setRole _ _ _ => True
  | .deleteUserTenants _ => False
  | .deleteTenant _ => False
  | .setReferences _ _ => True

/-- The gaps before and after a write of a transaction. -/
def Moves : Write → Option String → Option String → Prop
  | .insertTenant t, g, g' => g = none ∧ g' = some t.tenantId
  | .insertUserTenant m, g, g' => m.role = "owner" ∧ g = some m.tenantId ∧ g' = none
  | .deleteUserTenant _ _, _, _ => False
  | .setRole _ _ _, g, g' => g' = g
  | .deleteUserTenants tenantId, g, g' => g = none ∧ g' = some tenantId
  | .deleteTenant tenantId, g, g' => g = some tenantId ∧ g' = none
  | .setReferences _ _, _, _ => False

def Good (r : Result) : Prop := ∃ t, r = .ok t

/-! ## Owners -/

variable {d d' : Catalog} {tenantId userId t u : String} {g g' : Option String} {w : Write} {m : UserTenant}

theorem isOf_iff : UserTenant.isOf tenantId userId m = true ↔ m.tenantId = tenantId ∧ m.userId = userId := by
  simp [UserTenant.isOf]

theorem member_of_isOf (hm : m ∈ d.userTenants) (h : UserTenant.isOf tenantId userId m = true) :
    d.member tenantId userId = some m := by
  obtain ⟨rfl, rfl⟩ := isOf_iff.mp h
  exact d.keyed.lookup_of_mem hm

theorem exists_ne_of_one_lt {p : UserTenant → Bool} {ms : List UserTenant} (hnd : ms.Nodup) (h : 1 < changes p ms)
    (m : UserTenant) : ∃ x ∈ ms, p x = true ∧ x ≠ m := by
  by_contra hno
  have hle : changes p ms ≤ ms.count m := by
    unfold changes List.count
    refine List.countP_mono_left fun x hx hp => ?_
    by_contra hne
    exact hno ⟨x, hx, hp, by simpa using hne⟩
  have := List.nodup_iff_count_le_one.mp hnd m
  omega

/-- A tenant that keeps an owner when the user's role goes has one who is another user. -/
theorem KeepsOwner.other (h : KeepsOwner d t u) (hown : HasOwner d t) :
    ∃ m ∈ d.userTenants, m.tenantId = t ∧ m.role = "owner" ∧ m.userId ≠ u := by
  obtain ⟨m, hm, hmt, hrole⟩ := hown
  by_cases hu : m.userId = u
  · have hmember : d.member t u = some m := member_of_isOf hm (isOf_iff.mpr ⟨hmt, hu⟩)
    obtain ⟨x, hx, hp, hne⟩ := exists_ne_of_one_lt d.keyed.nodup (h m hmember hrole) m
    obtain ⟨hxt, hxrole⟩ := (Bool.and_eq_true _ _).mp hp
    have hxt := beq_iff_eq.mp hxt
    refine ⟨x, hx, hxt, beq_iff_eq.mp hxrole, fun hxu => hne (d.keyed.eq_of_key hx hm ?_)⟩
    unfold UserTenant.key
    rw [hxu, hu, hxt, hmt]
  · exact ⟨m, hm, hmt, hrole, hu⟩

theorem KeepsOwner.stays (h : KeepsOwner d t u) {s : String} (hown : HasOwner d s) :
    ∃ m ∈ d.userTenants, UserTenant.isOf t u m = false ∧ m.tenantId = s ∧ m.role = "owner" := by
  by_cases hs : s = t
  · subst hs
    obtain ⟨m, hm, hmt, hrole, hmu⟩ := h.other hown
    refine ⟨m, hm, ?_, hmt, hrole⟩
    rw [Bool.eq_false_iff]
    exact fun his => hmu (isOf_iff.mp his).2
  · obtain ⟨m, hm, hmt, hrole⟩ := hown
    refine ⟨m, hm, ?_, hmt, hrole⟩
    rw [Bool.eq_false_iff]
    exact fun his => hs (hmt.symm.trans (isOf_iff.mp his).1)

/-! ## The writes -/

theorem Gap.insertTenant {x : Tenant} (h : Gap none d) (ha : (Write.insertTenant x).apply d = some d') :
    Gap (some x.tenantId) d' := by
  obtain ⟨ts, hins, rfl⟩ := Option.map_eq_some_iff.mp ha
  obtain ⟨-, rfl⟩ := insertRow_eq_some.mp hins
  refine ⟨fun y hy hne => ?_, fun m hm hdel => ?_⟩
  · rcases List.mem_append.mp hy with hold | hnew
    · exact h.owned y hold (by simp)
    · rw [List.mem_singleton.mp hnew] at hne
      exact absurd rfl hne
  · obtain ⟨y, hy, hym⟩ := h.noneLeft m hm hdel
    exact ⟨y, List.mem_append_left _ hy, hym⟩

theorem insertUserTenant_eq_some (ha : (Write.insertUserTenant m).apply d = some d') :
    d'.userTenants = d.userTenants ++ [m] ∧ d'.tenants = d.tenants ∧ d'.deleted = d.deleted := by
  unfold Write.apply at ha
  dsimp only at ha
  split at ha
  · rename_i ms hins
    cases ha
    exact ⟨(insertRow_eq_some.mp hins).2, rfl, rfl⟩
  · cases ha

theorem Gap.insertUserTenant (h : Gap g d) (hallowed : Allowed (.insertUserTenant m) d)
    (ha : (Write.insertUserTenant m).apply d = some d') : Gap g d' := by
  obtain ⟨hms, hts, hdel⟩ := insertUserTenant_eq_some ha
  refine ⟨fun x hx hne => ?_, fun x hx hxdel => ?_⟩
  · rw [hts] at hx
    obtain ⟨y, hy, hyx⟩ := h.owned x hx hne
    exact ⟨y, by rw [hms]; exact List.mem_append_left _ hy, hyx⟩
  · rw [hdel] at hxdel
    unfold HasTenant
    rw [hts]
    rw [hms] at hx
    rcases List.mem_append.mp hx with hold | hnew
    · exact h.noneLeft x hold hxdel
    · rw [List.mem_singleton.mp hnew]
      exact hallowed

theorem Gap.insertOwner (h : Gap (some m.tenantId) d) (hrole : m.role = "owner")
    (hallowed : Allowed (.insertUserTenant m) d) (ha : (Write.insertUserTenant m).apply d = some d') : Gap none d' := by
  obtain ⟨hms, hts, -⟩ := insertUserTenant_eq_some ha
  have hgap := h.insertUserTenant hallowed ha
  refine ⟨fun x hx _ => ?_, hgap.noneLeft⟩
  by_cases hxt : m.tenantId = x.tenantId
  · exact ⟨m, by rw [hms]; simp, hxt, hrole⟩
  · exact hgap.owned x hx fun h => hxt (Option.some.inj h)

theorem Gap.deleteUserTenant (h : Gap g d) (hallowed : KeepsOwner d t u)
    (ha : (Write.deleteUserTenant t u).apply d = some d') : Gap g d' := by
  cases ha
  refine ⟨fun x hx hne => ?_, fun m hm hdel => h.noneLeft m (mem_deleteWhere.mp hm).1 hdel⟩
  obtain ⟨m, hm, his, hmt, hrole⟩ := hallowed.stays (h.owned x hx hne)
  exact ⟨m, mem_deleteWhere.mpr ⟨hm, his⟩, hmt, hrole⟩

theorem Gap.setRole {role : String} (h : Gap g d) (hallowed : role = "owner" ∨ KeepsOwner d t u)
    (ha : (Write.setRole role t u).apply d = some d') : Gap g d' := by
  cases ha
  have hkeep : ∀ m ∈ d.userTenants, UserTenant.isOf t u m = false →
      m ∈ updateWhere (UserTenant.isOf t u) (fun m => { m with role := role }) d.userTenants := by
    intro m hm his
    exact mem_updateWhere.mpr ⟨m, hm, by rw [his]; rfl⟩
  refine ⟨fun x hx hne => ?_, fun m hm hdel => ?_⟩
  · have hown := h.owned x hx hne
    rcases hallowed with rfl | hkeeps
    · obtain ⟨m, hm, hmt, hrole⟩ := hown
      by_cases his : UserTenant.isOf t u m = true
      · exact ⟨{ m with role := "owner" }, mem_updateWhere.mpr ⟨m, hm, by rw [his]; rfl⟩, hmt, rfl⟩
      · exact ⟨m, hkeep m hm (by simpa using his), hmt, hrole⟩
    · obtain ⟨m, hm, his, hmt, hrole⟩ := hkeeps.stays hown
      exact ⟨m, hkeep m hm his, hmt, hrole⟩
  · obtain ⟨x, hx, rfl⟩ := mem_updateWhere.mp hm
    by_cases his : UserTenant.isOf t u x = true
    · rw [if_pos his] at hdel ⊢
      exact h.noneLeft x hx hdel
    · rw [if_neg his] at hdel ⊢
      exact h.noneLeft x hx hdel

theorem Gap.deleteUserTenants (h : Gap none d) (ha : (Write.deleteUserTenants t).apply d = some d') :
    Gap (some t) d' := by
  cases ha
  refine ⟨fun x hx hne => ?_, fun m hm hdel => h.noneLeft m (mem_deleteWhere.mp hm).1 hdel⟩
  obtain ⟨m, hm, hmt, hrole⟩ := h.owned x hx (by simp)
  refine ⟨m, mem_deleteWhere.mpr ⟨hm, ?_⟩, hmt, hrole⟩
  rw [beq_eq_false_iff_ne, hmt]
  exact fun hxt => hne (by rw [hxt])

theorem Gap.deleteTenant (h : Gap (some t) d) (hallowed : ∀ m ∈ d.userTenants, m.tenantId ≠ t)
    (ha : (Write.deleteTenant t).apply d = some d') : Gap none d' := by
  unfold Write.apply at ha
  dsimp only at ha
  split at ha
  · cases ha
  · cases ha
    refine ⟨fun x hx _ => ?_, fun m hm hdel => ?_⟩
    · obtain ⟨hx, hxt⟩ := mem_deleteWhere.mp hx
      exact h.owned x hx fun heq => beq_eq_false_iff_ne.mp hxt (Option.some.inj heq).symm
    · obtain ⟨x, hx, hxm⟩ := h.noneLeft m hm ((List.mem_cons.mp hdel).resolve_left (hallowed m hm))
      refine ⟨x, mem_deleteWhere.mpr ⟨hx, ?_⟩, hxm⟩
      rw [beq_eq_false_iff_ne, hxm]
      exact hallowed m hm

theorem Gap.small (hsmall : Small w) (hallowed : Allowed w d) (ha : w.apply d = some d') (h : Gap g d) : Gap g d' := by
  cases w with
  | insertTenant => exact hsmall.elim
  | insertUserTenant => exact h.insertUserTenant hallowed ha
  | deleteUserTenant => exact h.deleteUserTenant hallowed ha
  | setRole => exact h.setRole hallowed ha
  | deleteUserTenants | deleteTenant => exact hsmall.elim
  | setReferences =>
    cases ha
    exact ⟨h.owned, h.noneLeft⟩

theorem Gap.moves (hmoves : Moves w g g') (hallowed : Allowed w d) (ha : w.apply d = some d') (h : Gap g d) :
    Gap g' d' := by
  cases w with
  | insertTenant =>
    obtain ⟨rfl, rfl⟩ := hmoves
    exact h.insertTenant ha
  | insertUserTenant =>
    obtain ⟨hrole, rfl, rfl⟩ := hmoves
    exact h.insertOwner hrole hallowed ha
  | deleteUserTenant => exact hmoves.elim
  | setRole =>
    obtain rfl : g' = g := hmoves
    exact h.setRole hallowed ha
  | deleteUserTenants =>
    obtain ⟨rfl, rfl⟩ := hmoves
    exact h.deleteUserTenants ha
  | deleteTenant =>
    obtain ⟨rfl, rfl⟩ := hmoves
    exact h.deleteTenant hallowed ha
  | setReferences => exact hmoves.elim

def rules : Rules Catalog Write Result (Option String) where
  apply := Write.apply
  J := Gap
  whole := none
  Allowed := Allowed
  Small := Small
  Moves := Moves
  Good := Good
  small_keeps := Gap.small
  moves_keeps := Gap.moves

instance (w : Write) (d : Catalog) : Decidable (rules.Allowed w d) := inferInstanceAs (Decidable (Allowed w d))

/-! ## The calls are disciplined -/

/-- `CreatePersonal` is run in the transaction of its caller. -/
def Op.inTransaction : Op → Bool
  | .createPersonal inTransaction _ _ _ _ => inTransaction
  | _ => true

theorem succeeds_ok (x : Option Tenant) : Succeeds rules.Good (.ret (.ok x) : Proc) := ⟨_, rfl, x, rfl⟩

theorem disciplined_createPersonalOn (tenant : Tenant) (userId : String) {onDone : Proc}
    (hdone : Disciplined rules (.txn none) onDone) :
    Disciplined rules (.txn none) (createPersonalOn tenant userId Prog.rollback onDone) := by
  refine ⟨some tenant.tenantId, ⟨rfl, rfl⟩, ⟨none, ⟨rfl, rfl, rfl⟩, hdone, ?_⟩, ?_⟩
  · exact Wrote.forall_not_done (fun _ => trivial) fun _ _ => trivial
  · exact Wrote.forall_not_done (fun _ => trivial) fun constraint _ => by cases constraint <;> exact trivial

theorem disciplined_createPersonal (userId email uuid : String) (now : Int) :
    Disciplined rules .out (createPersonal true userId email uuid now) :=
  ⟨disciplined_createPersonalOn _ _ ⟨rfl, succeeds_ok _, trivial⟩, trivial⟩

theorem disciplined_createOrganization (name ownerUserId uuid : String) (now : Int) :
    Disciplined rules .out (createOrganization name ownerUserId uuid now) := by
  refine ⟨⟨some _, ⟨rfl, rfl⟩, ⟨none, ⟨rfl, rfl, rfl⟩, ⟨rfl, succeeds_ok _, trivial⟩, ?_⟩, ?_⟩,
    trivial⟩
  · exact Wrote.forall_not_done (fun _ => trivial) fun _ _ => trivial
  · exact Wrote.forall_not_done (fun _ => trivial) fun constraint _ => by cases constraint <;> exact trivial

theorem disciplined_writeMember {w : Write} (hw : Small w) (what : String) :
    Disciplined rules .out (writeMember w what) :=
  ⟨hw, succeeds_ok _, Wrote.forall_not_done (fun _ => trivial) fun _ _ => trivial⟩

theorem disciplined_bothOrNone (first second : Write) (h : Moves first none g) (h' : Moves second g none)
    (what : String) : Disciplined rules .out (bothOrNone first second what) := by
  refine ⟨⟨g, h, ⟨none, h', ⟨rfl, succeeds_ok _, trivial⟩, ?_⟩, ?_⟩, trivial⟩
  · intro y hy
    dsimp only
    rw [if_pos (.inr hy)]
    exact trivial
  · intro x hx y
    dsimp only
    rw [if_pos (.inl hx)]
    exact trivial

theorem disciplined_addMember (tenantId userId : String) (role : TenantRole) (caller : String) (now : Int) :
    Disciplined rules .out (addMember tenantId userId role caller now) := by
  intro x
  dsimp only
  split
  · exact trivial
  intro x
  dsimp only
  split
  · exact trivial
  intro x
  dsimp only
  split
  · exact trivial
  refine ⟨trivial, succeeds_ok _, Wrote.forall_not_done (fun _ => trivial) fun constraint _ => ?_⟩
  cases constraint <;> exact trivial

theorem disciplined_removeMember (tenantId userId caller : String) :
    Disciplined rules .out (removeMember tenantId userId caller) := by
  intro x
  dsimp only
  split
  · exact trivial
  intro x
  dsimp only
  split
  · exact trivial
  · split
    · intro x
      dsimp only
      split
      · exact trivial
      · exact disciplined_writeMember (w := .deleteUserTenant tenantId userId) trivial _
    · exact disciplined_writeMember (w := .deleteUserTenant tenantId userId) trivial _

theorem disciplined_updateMemberRole (tenantId userId : String) (newRole : TenantRole) (caller : String) :
    Disciplined rules .out (updateMemberRole tenantId userId newRole caller) := by
  intro x
  dsimp only
  split
  · exact trivial
  intro x
  dsimp only
  split
  · exact trivial
  · split
    · intro x
      dsimp only
      split
      · exact trivial
      · exact disciplined_writeMember (w := .setRole newRole.toString tenantId userId) trivial _
    · exact disciplined_writeMember (w := .setRole newRole.toString tenantId userId) trivial _

theorem disciplined_delete (tenantId caller : String) : Disciplined rules .out (delete tenantId caller) := by
  intro x
  dsimp only
  split
  · exact trivial
  intro x
  dsimp only
  split
  · exact trivial
  intro x
  dsimp only
  split
  · exact trivial
  · split
    · exact trivial
    · intro x
      dsimp only
      split
      · exact trivial
      · split
        · exact trivial
        · exact disciplined_bothOrNone (.deleteUserTenants tenantId) (.deleteTenant tenantId) (g := some tenantId) ⟨rfl, rfl⟩
            ⟨rfl, rfl⟩ _

theorem disciplined_transferOwnership (tenantId newOwnerUserId caller : String) :
    Disciplined rules .out (transferOwnership tenantId newOwnerUserId caller) := by
  intro x
  dsimp only
  split
  · exact trivial
  intro x
  dsimp only
  split
  · exact trivial
  intro x
  dsimp only
  split
  · exact trivial
  · exact disciplined_bothOrNone (.setRole "owner" tenantId newOwnerUserId) (.setRole "admin" tenantId caller) (g := none)
      rfl rfl _

theorem disciplined_prog (op : Op) (h : op.inTransaction = true) : Disciplined rules .out op.prog := by
  rcases op with ⟨inTransaction, userId, email, uuid, now⟩ | ⟨name, ownerUserId, uuid, now⟩ |
    ⟨tenantId, userId, role, caller, now⟩ | ⟨tenantId, userId, caller⟩ | ⟨tenantId, userId, newRole, caller⟩ |
    ⟨tenantId, caller⟩ | ⟨tenantId, newOwnerUserId, caller⟩ | ⟨namespaces, units⟩
  · obtain rfl : inTransaction = true := h
    exact disciplined_createPersonal userId email uuid now
  · exact disciplined_createOrganization name ownerUserId uuid now
  · exact disciplined_addMember tenantId userId role caller now
  · exact disciplined_removeMember tenantId userId caller
  · exact disciplined_updateMemberRole tenantId userId newRole caller
  · exact disciplined_delete tenantId caller
  · exact disciplined_transferOwnership tenantId newOwnerUserId caller
  · exact disciplined_writeMember (w := .setReferences namespaces units) trivial _

/-! ## Every run -/

/-- `CreatePersonal` is started in a transaction, and every statement is clean. -/
def Clean (s : State) : Act → Prop
  | .start op => op.inTransaction = true
  | .run i st errmsg => ∀ c ∈ s.calls[i]?, c.Clean rules s.conn st errmsg

instance (s : State) : ∀ a, Decidable (Clean s a)
  | .start op => inferInstanceAs (Decidable (op.inTransaction = true))
  | .run i st errmsg => inferInstanceAs (Decidable (∀ c ∈ s.calls[i]?, c.Clean rules s.conn st errmsg))

/-- The call of a step has returned, without an error. -/
def Returned (s : State) : Act → Prop
  | .start _ => False
  | .run i _ _ => ∃ c t, s.calls[i]? = some c ∧ c.prog.result = some (.ok t)

variable {s s' : State} {a : Act}

theorem Clean.session (h : Clean s a) : Session.Clean rules Op.prog s a := by
  rcases a with op | ⟨i, st, errmsg⟩
  · exact disciplined_prog op h
  · exact h

theorem inv_run {as : List Act} (hd : Owned d) (hdel : d.deleted = []) (hclean : Along step Clean (init d) as)
    (hrun : run step (init d) as = some s) : Inv rules s := by
  have hgap : Gap none d := by
    refine ⟨fun t ht _ => hd t ht, fun m _ hm => ?_⟩
    rw [hdel] at hm
    cases hm
  exact run_inv (fun h hc hs => (h.step hc.session hs).1) (inv_init (R := rules) hgap) hclean hrun

/-- On a run of clean steps every committed tenant has an owner, no membership refers to a deleted tenant, and the
catalog changes only in the step in which a call returns without an error. -/
theorem committed_owned {as : List Act} (hd : Owned d) (hdel : d.deleted = [])
    (hclean : Along step Clean (init d) as) (hrun : run step (init d) as = some s) :
    Owned s.committed ∧ NoneLeft s.committed ∧
      ∀ a s', Clean s a → step s a = some s' → s'.committed = s.committed ∨ Returned s' a := by
  have hinv := inv_run hd hdel hclean hrun
  have hgap : Gap none s.committed := hinv.committed
  refine ⟨fun t ht => hgap.owned t ht (by simp), hgap.noneLeft, fun a s' hc hs => ?_⟩
  rcases (hinv.step hc.session hs).2 with hsame | ⟨i, st, errmsg, c, rfl, hget, r, hr, t, rfl⟩
  · exact .inl hsame
  · exact .inr ⟨c, t, hget, hr⟩

/-- A catalog with one organization and its owner. -/
def soleOwner : Catalog where
  tenants := [⟨"t", "org", "organization", "tenant", 0⟩]
  userTenants := [⟨"u", "t", "owner", 0⟩]
  keyed := by decide

/-- The call of an index, run for a number of statements the engine executes. -/
def runs (i n : Nat) : List Act := List.replicate n (.run i .good "")

/-- A second owner is added and takes over from the first, who is demoted, then removed. -/
def handOver : List Act :=
  .start (.addMember "t" "v" .ADMIN "u" 1) :: runs 0 4 ++ .start (.transferOwnership "t" "v" "u") :: runs 1 7 ++
    .start (.removeMember "t" "u" "v") :: runs 2 3

theorem committed_owned_handOver :
    ∃ s, run step (init soleOwner) handOver = some s ∧ Owned s.committed ∧
      s.committed.userTenants = [⟨"v", "t", "owner", 1⟩] := by
  refine ⟨_, rfl, ?_, rfl⟩
  have hclean : Along step Clean (init soleOwner) handOver := by decide
  exact (committed_owned (by decide) rfl hclean rfl).1

def twoOwners : Catalog where
  tenants := [⟨"t", "org", "organization", "tenant", 0⟩]
  userTenants := [⟨"u", "t", "owner", 0⟩, ⟨"v", "t", "owner", 0⟩]
  keyed := by decide

/-- The sole owner transfers the ownership to himself, and is an admin then. Two owners remove each other, each having
counted two owners. `CreatePersonal` without a transaction: the tenant is there before its owner is. -/
theorem tenant_loses_owner :
    (∃ s, run step (init soleOwner) (.start (.transferOwnership "t" "u" "u") :: runs 0 7) = some s ∧
      s.calls.map (fun c => c.prog.result) = [some (.ok none)] ∧ ¬ Owned s.committed) ∧
    (∃ s, run step (init twoOwners) (.start (.removeMember "t" "v" "u") :: .start (.removeMember "t" "u" "v") ::
        (runs 0 3 ++ runs 1 3 ++ runs 0 1 ++ runs 1 1)) = some s ∧
      s.calls.map (fun c => c.prog.result) = [some (.ok none), some (.ok none)] ∧ ¬ Owned s.committed) ∧
    (∃ s, run step (init soleOwner) (.start (.createPersonal false "w" "w@x.org" "1" 1) :: runs 0 1) = some s ∧
      ¬ Owned s.committed) :=
  ⟨⟨_, rfl, rfl, by decide⟩, ⟨_, rfl, rfl, by decide⟩, ⟨_, rfl, by decide⟩⟩

/-! ## Calls one after another -/

/-- A sole owner does not transfer the ownership to himself. -/
def Op.Fair (d : Catalog) : Op → Prop
  | .transferOwnership tenantId newOwnerUserId caller => newOwnerUserId = caller → 1 < d.owners tenantId
  | _ => True

instance (d : Catalog) : ∀ op : Op, Decidable (op.Fair d)
  | .transferOwnership tenantId newOwnerUserId caller =>
    inferInstanceAs (Decidable (newOwnerUserId = caller → 1 < d.owners tenantId))
  | .createPersonal .. => .isTrue trivial
  | .createOrganization .. => .isTrue trivial
  | .addMember .. => .isTrue trivial
  | .removeMember .. => .isTrue trivial
  | .updateMemberRole .. => .isTrue trivial
  | .delete .. => .isTrue trivial
  | .setReferences .. => .isTrue trivial

theorem parseTenantRole_owner {token : String} : parseTenantRole token = some .OWNER ↔ token = "owner" := by
  unfold parseTenantRole
  split
  · simp_all
  · split
    · simp_all
    · split
      · simp_all
      · split <;> simp_all

theorem keepsOwner_of_role {role : TenantRole} (h : callerRole t u (.data d) = some role) (hne : role ≠ .OWNER) :
    KeepsOwner d t u := by
  intro m hm hrole
  have hbind : (d.member t u).bind (fun m => parseTenantRole m.role) = some role := h
  obtain ⟨m', hm', hparse⟩ := Option.bind_eq_some_iff.mp hbind
  rw [hm] at hm'
  cases hm'
  rw [parseTenantRole_owner.mpr hrole] at hparse
  exact absurd (Option.some.inj hparse).symm hne

theorem keepsOwner_of_ownerCount {x : Got Catalog} (hx : ∀ d', x = .data d' → d' = d) (h : ¬ ownerCount t x ≤ 1) :
    KeepsOwner d t u := by
  intro _ _ _
  rcases x with - | - | d'
  · exact absurd (Nat.zero_le 1) h
  · exact absurd (Nat.zero_le 1) h
  · obtain rfl := hx d' rfl
    exact Nat.lt_of_not_le h

theorem guarded_writeMember {w : Write} (hw : Allowed w d) (what : String) :
    Guarded rules d false (writeMember w what) :=
  ⟨hw, fun _ _ => trivial, Wrote.forall_not_done (fun _ => rfl) fun _ _ => rfl⟩

theorem guarded_bothOrNone (first second : Write) (what : String) (hfirst : Allowed first d)
    (hsecond : ∀ d', first.apply d = some d' → Allowed second d') :
    Guarded rules d false (bothOrNone first second what) := by
  refine ⟨⟨hfirst, fun d' hd' => ⟨hsecond d' hd', fun _ _ => ⟨rfl, rfl, rfl⟩, fun y hy => ?_⟩, fun x hx y => ?_⟩, rfl⟩
  · show Closing (if _ then _ else _)
    rw [if_pos (.inr hy)]
    rfl
  · show Closing (if _ then _ else _)
    rw [if_pos (.inl hx)]
    rfl

theorem hasTenant_of_insert {x : Tenant} (ha : (Write.insertTenant x).apply d = some d') : HasTenant d' x.tenantId := by
  obtain ⟨ts, hins, rfl⟩ := Option.map_eq_some_iff.mp ha
  obtain ⟨-, rfl⟩ := insertRow_eq_some.mp hins
  exact ⟨x, by simp, rfl⟩

theorem guarded_createPersonalOn (tenant : Tenant) (userId : String) {onDone : Proc}
    (hdone : ∀ d', Guarded rules d' true onDone) :
    Guarded rules d true (createPersonalOn tenant userId Prog.rollback onDone) := by
  refine ⟨trivial, fun d' hd' => ⟨hasTenant_of_insert hd', fun d'' _ => hdone d'', ?_⟩, ?_⟩
  · exact Wrote.forall_not_done (fun _ => rfl) fun _ _ => rfl
  · exact Wrote.forall_not_done (fun _ => rfl) fun constraint _ => by cases constraint <;> rfl

theorem guarded_createPersonal (userId email uuid : String) (now : Int) :
    Guarded rules d false (createPersonal true userId email uuid now) :=
  ⟨guarded_createPersonalOn _ _ fun _ => ⟨rfl, rfl, rfl⟩, rfl⟩

theorem guarded_createOrganization (name ownerUserId uuid : String) (now : Int) :
    Guarded rules d false (createOrganization name ownerUserId uuid now) := by
  refine ⟨⟨trivial, fun d' hd' => ⟨hasTenant_of_insert hd', fun _ _ => ⟨rfl, rfl, rfl⟩, ?_⟩, ?_⟩, rfl⟩
  · exact Wrote.forall_not_done (fun _ => rfl) fun _ _ => rfl
  · exact Wrote.forall_not_done (fun _ => rfl) fun constraint _ => by cases constraint <;> rfl

theorem guarded_query {b : Bool} {k : Got Catalog → Proc}
    (h : ∀ x, (∀ d', x = .data d' → d' = d) → Guarded rules d b (k x)) : Guarded rules d b (.query k) := by
  refine ⟨h _ fun d' hd' => ?_, h _ fun d' hd' => ?_, h _ fun d' hd' => ?_⟩
  · cases hd'
  · cases hd'
  · cases hd'
    rfl

theorem data_of_callerRole {x : Got Catalog} {role : TenantRole} (hx : ∀ d', x = .data d' → d' = d)
    (h : callerRole t u x = some role) : x = .data d := by
  rcases x with - | - | d'
  · cases h
  · cases h
  · rw [hx d' rfl]

theorem guarded_addMember (tenantId userId : String) (role : TenantRole) (caller : String) (now : Int) :
    Guarded rules d false (addMember tenantId userId role caller now) := by
  refine guarded_query fun x hx => ?_
  split
  · trivial
  rename_i hexists
  refine guarded_query fun y _ => ?_
  split
  · trivial
  refine guarded_query fun y _ => ?_
  split
  · trivial
  have hallowed : HasTenant d tenantId := by
    rcases x with - | - | d'
    · exact absurd rfl hexists
    · exact absurd rfl hexists
    · rw [hx d' rfl] at hexists
      simpa [tenantExists, dataOf, HasTenant] using hexists
  refine ⟨hallowed, fun _ _ => trivial, Wrote.forall_not_done (fun _ => rfl) fun constraint _ => ?_⟩
  cases constraint <;> rfl

theorem guarded_removeMember (tenantId userId caller : String) :
    Guarded rules d false (removeMember tenantId userId caller) := by
  refine guarded_query fun y _ => ?_
  split
  · trivial
  refine guarded_query fun x hx => ?_
  split
  · trivial
  · rename_i target htarget
    rw [data_of_callerRole hx htarget] at htarget
    split
    · refine guarded_query fun x hx => ?_
      split
      · trivial
      · rename_i hcount
        exact guarded_writeMember (w := .deleteUserTenant tenantId userId) (keepsOwner_of_ownerCount hx hcount) _
    · rename_i hne
      exact guarded_writeMember (w := .deleteUserTenant tenantId userId) (keepsOwner_of_role htarget hne) _

theorem guarded_updateMemberRole (tenantId userId : String) (newRole : TenantRole) (caller : String) :
    Guarded rules d false (updateMemberRole tenantId userId newRole caller) := by
  refine guarded_query fun y _ => ?_
  split
  · trivial
  refine guarded_query fun x hx => ?_
  split
  · trivial
  · rename_i target htarget
    rw [data_of_callerRole hx htarget] at htarget
    split
    · refine guarded_query fun x hx => ?_
      split
      · trivial
      · rename_i hcount
        exact guarded_writeMember (w := .setRole newRole.toString tenantId userId)
          (Or.inr (keepsOwner_of_ownerCount hx hcount)) _
    · rename_i hne
      refine guarded_writeMember (w := .setRole newRole.toString tenantId userId) ?_ _
      by_cases htarget' : target = .OWNER
      · have hnew : newRole = .OWNER := by
          by_contra hnew
          exact hne ⟨htarget', hnew⟩
        exact Or.inl (by rw [hnew]; rfl)
      · exact Or.inr (keepsOwner_of_role htarget htarget')

theorem guarded_delete (tenantId caller : String) : Guarded rules d false (delete tenantId caller) := by
  refine guarded_query fun x _ => ?_
  split
  · trivial
  refine guarded_query fun x _ => ?_
  split
  · trivial
  refine guarded_query fun x _ => ?_
  split
  · trivial
  dsimp only
  split
  · trivial
  refine guarded_query fun x _ => ?_
  split
  · trivial
  split
  · trivial
  refine guarded_bothOrNone (.deleteUserTenants tenantId) (.deleteTenant tenantId) _ trivial ?_
  intro d' hd' m hm
  cases hd'
  exact beq_eq_false_iff_ne.mp (mem_deleteWhere.mp hm).2

theorem one_lt_changes {p : UserTenant → Bool} {ms : List UserTenant} {x y : UserTenant} (hx : x ∈ ms) (hy : y ∈ ms)
    (hpx : p x = true) (hpy : p y = true) (hne : x ≠ y) : 1 < changes p ms := by
  have hnd : [x, y].Nodup := by simp [hne]
  have hsub : [x, y] ⊆ ms.filter p := by
    intro z hz
    rcases List.mem_cons.mp hz with rfl | hz
    · exact List.mem_filter.mpr ⟨hx, hpx⟩
    · rw [List.mem_singleton.mp hz]
      exact List.mem_filter.mpr ⟨hy, hpy⟩
  have hle := (hnd.subperm hsub).length_le
  rwa [← List.countP_eq_length_filter] at hle

theorem owners_setRole_owner {n : String} (ha : (Write.setRole "owner" t n).apply d = some d') :
    d.owners t ≤ d'.owners t := by
  cases ha
  unfold Catalog.owners changes
  dsimp only
  rw [updateWhere, List.countP_map]
  refine List.countP_mono_left fun m _ hm => ?_
  obtain ⟨hmt, -⟩ := (Bool.and_eq_true _ _).mp hm
  by_cases his : UserTenant.isOf t n m = true
  · simp [his, beq_iff_eq.mp hmt]
  · simpa [his] using hm

theorem keepsOwner_of_promoted {n caller : String} {x : UserTenant} (hmember : d.member t n = some x)
    (hfair : n = caller → 1 < d.owners t) (ha : (Write.setRole "owner" t n).apply d = some d') :
    KeepsOwner d' t caller := by
  intro m hm hrole
  by_cases hn : n = caller
  · have := owners_setRole_owner ha
    have := hfair hn
    omega
  · cases ha
    obtain ⟨hmmem, hmkey⟩ := lookup_eq_some (Option.mem_def.mp hm)
    obtain ⟨hx, hxkey⟩ := lookup_eq_some hmember
    obtain ⟨hmu, hmt⟩ := Prod.mk.inj hmkey
    obtain ⟨hxu, hxt⟩ := Prod.mk.inj hxkey
    have his : UserTenant.isOf t n x = true := isOf_iff.mpr ⟨hxt, hxu⟩
    have hxmem : { x with role := "owner" } ∈
        updateWhere (UserTenant.isOf t n) (fun m => { m with role := "owner" }) d.userTenants :=
      mem_updateWhere.mpr ⟨x, hx, by rw [his]; rfl⟩
    refine one_lt_changes hmmem hxmem (by simp [hmt, hrole]) (by simp [hxt]) fun heq => hn ?_
    rw [← hxu, ← hmu, heq]

theorem guarded_transferOwnership (tenantId newOwnerUserId caller : String)
    (hfair : newOwnerUserId = caller → 1 < d.owners tenantId) :
    Guarded rules d false (transferOwnership tenantId newOwnerUserId caller) := by
  refine guarded_query fun x _ => ?_
  split
  · trivial
  refine guarded_query fun x _ => ?_
  split
  · trivial
  refine guarded_query fun x hx => ?_
  split
  · trivial
  rename_i htarget
  refine guarded_bothOrNone (.setRole "owner" tenantId newOwnerUserId) (.setRole "admin" tenantId caller) _ (Or.inl rfl)
    fun d' hd' => Or.inr ?_
  rcases hrole : callerRole tenantId newOwnerUserId x with - | role
  · rw [hrole] at htarget
    exact absurd rfl htarget
  rw [data_of_callerRole hx hrole] at hrole
  have hbind : (d.member tenantId newOwnerUserId).bind (fun m => parseTenantRole m.role) = some role := hrole
  obtain ⟨m, hm, -⟩ := Option.bind_eq_some_iff.mp hbind
  exact keepsOwner_of_promoted hm hfair hd'

theorem guarded_prog (op : Op) (hin : op.inTransaction = true) (hfair : op.Fair d) :
    Guarded rules d false op.prog := by
  rcases op with ⟨inTransaction, userId, email, uuid, now⟩ | ⟨name, ownerUserId, uuid, now⟩ |
    ⟨tenantId, userId, role, caller, now⟩ | ⟨tenantId, userId, caller⟩ | ⟨tenantId, userId, newRole, caller⟩ |
    ⟨tenantId, caller⟩ | ⟨tenantId, newOwnerUserId, caller⟩ | ⟨namespaces, units⟩
  · obtain rfl : inTransaction = true := hin
    exact guarded_createPersonal userId email uuid now
  · exact guarded_createOrganization name ownerUserId uuid now
  · exact guarded_addMember tenantId userId role caller now
  · exact guarded_removeMember tenantId userId caller
  · exact guarded_updateMemberRole tenantId userId newRole caller
  · exact guarded_delete tenantId caller
  · exact guarded_transferOwnership tenantId newOwnerUserId caller hfair
  · exact guarded_writeMember (w := .setReferences namespaces units) trivial _

/-- A call starts when the others have ended, `CreatePersonal` in a transaction its caller has opened, no sole owner
transfers to himself, and the engine gives up no transaction. -/
def Serial (s : State) : Act → Prop
  | .start op => (∀ c ∈ s.calls, c.Ended) ∧ op.inTransaction = true ∧ op.Fair s.conn.data
  | .run _ st _ => st.step ≠ .aborted

instance (s : State) : ∀ a, Decidable (Serial s a)
  | .start op => inferInstanceAs (Decidable ((∀ c ∈ s.calls, c.Ended) ∧ op.inTransaction = true ∧ op.Fair s.conn.data))
  | .run _ st _ => inferInstanceAs (Decidable (st.step ≠ .aborted))

theorem Serial.session (h : Serial s a) : Session.Serial rules Op.prog s a := by
  rcases a with op | ⟨i, st, errmsg⟩
  · obtain ⟨hended, hin, hfair⟩ := h
    exact ⟨hended, disciplined_prog op hin, guarded_prog op hin hfair⟩
  · exact h

/-- The hand-over, then a personal tenant whose `COMMIT` fails, and is rolled back. -/
def oneByOne : List Act :=
  handOver ++ .start (.createPersonal true "w" "w@x.org" "1" 2) :: runs 3 3 ++
    [.run 3 ⟨none, .failed⟩ "disk full", .run 3 .good ""]

end Cortrix.TenantService
