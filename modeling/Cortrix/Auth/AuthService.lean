import Cortrix.Auth.AuthTables
import Cortrix.Auth.PasswordUtils
import Cortrix.Lib.Run

/-!
# AuthService and AdminUsersService: accounts under concurrent calls

Any number of calls over the tables, each SQL statement a step of its own. A call reads the clock after its first
statement; the statements succeed.
-/

namespace Cortrix.Auth
open Lib

structure Config where
  passwordMinLength : Int
  maxLoginAttempts : Int
  lockoutDuration : Int

inductive LoginPc
  | unlock
  | verify
  | fail
  | succeed
  /-- The tokens and the INSERT of the refresh token. -/
  | issue
  deriving DecidableEq

/-- A `Login` that has read the row of the account and found it neither disabled nor locked. -/
structure LoginCall where
  number : Nat
  userId : Bytes
  passwordHash : Bytes
  password : Bytes
  now : Int
  attempts : Int
  /-- `locked_until` lay in the future. -/
  lockedAtStart : Bool
  pc : LoginPc

structure ResetCall where
  email : Bytes
  codeId : Nat
  passwordHash : Bytes
  now : Int
  deriving DecidableEq

structure UserUpdate where
  displayName : Option Bytes := none
  role : Option Bytes := none
  emailVerified : Option Bool := none
  deriving DecidableEq

inductive Event
  /-- A call for tokens has read the row of the account. -/
  | started (call : Nat) (userId : Bytes)
  /-- A `Login` has reached the password check; `passed` is `none` when the hasher failed. -/
  | checked (userId : Bytes) (passed : Option Bool) (lockedAtStart : Bool)
  /-- The counter starts anew: a successful login, an expired lock, a password reset. -/
  | reset (userId : Bytes)
  | disabled (userId : Bytes)
  | enabled (userId : Bytes)
  | tokenReturned (call : Nat) (userId : Bytes)
  deriving DecidableEq

structure State where
  tables : Tables := {}
  logins : List LoginCall := []
  resets : List ResetCall := []
  /-- The subjects of the `RefreshAccessToken` calls that have found their refresh token good. -/
  refreshes : List Bytes := []
  clock : Int := 0
  nextCall : Nat := 0
  log : List Event := []

inductive Act
  | register (id email password passwordHash displayName : Bytes) (now : Int)
  | loginRead (email password : Bytes) (now : Int)
  | loginUnlock (i : Nat)
  | loginVerify (i : Nat)
  | loginFail (i : Nat)
  | loginSucceed (i : Nat)
  | loginIssue (i : Nat) (jti tokenHash : Bytes) (expiresAt : Int)
  | requestPasswordReset (email code : Bytes) (now : Int)
  /-- `ConfirmPasswordReset` up to its transaction. -/
  | resetCheck (email code newPassword newHash : Bytes) (now : Int)
  | resetCommit (i : Nat)
  | verifyEmail (email code : Bytes) (now : Int)
  /-- `RefreshAccessToken` with a token of this jti, hash and subject, up to the row of the account. -/
  | refreshLookup (jti tokenHash sub : Bytes) (now : Int)
  /-- Its read of that row. -/
  | refreshUser (i : Nat)
  | disable (id : Bytes) (now : Int)
  | enable (id : Bytes) (now : Int)
  | update (id : Bytes) (u : UserUpdate) (now : Int)

/-! ## Statements -/

def State.updateUser (s : State) (id : Bytes) (f : User → User) : State :=
  { s with tables := { s.tables with users := updateWhere (fun u => u.id == id) f s.tables.users } }

def State.emit (s : State) (e : Event) : State := { s with log := s.log ++ [e] }

/-- The clock never goes back. -/
def State.at (s : State) (now : Int) : Option State := if s.clock ≤ now then some { s with clock := now } else none

def State.setPc (s : State) (i : Nat) (c : LoginCall) (pc : LoginPc) : State :=
  { s with logins := s.logins.set i { c with pc } }

def kDisplayNameMax : Nat := 64

/-- The rules, and `INSERT INTO users`: the id is the primary key, the email is unique. -/
def register (cfg : Config) (s : State) (id email password passwordHash displayName : Bytes) (now : Int) : State :=
  let user : User := { id, email := cText email, passwordHash, displayName := cText displayName, updatedAt := now }
  if !validateEmail email || !validatePassword password cfg.passwordMinLength || displayName.isEmpty ||
      decide (kDisplayNameMax < displayName.length) then s
  else if s.tables.users.any fun u => u.id == user.id || u.email == user.email then s
  else { s with tables := { s.tables with users := s.tables.users ++ [user] } }

def loginRead (s : State) (email password : Bytes) (now : Int) : State :=
  match lookup User.email (cText email) s.tables.users with
  | none => s
  | some u =>
    let lockedUntil := u.lockedUntil.getD 0
    let call (pc : LoginPc) : LoginCall :=
      { number := s.nextCall, userId := u.id, passwordHash := u.passwordHash, password, now,
        attempts := u.loginAttempts, lockedAtStart := u.lockedUntil.any fun t => decide (now < t), pc }
    let s := { s with nextCall := s.nextCall + 1 }.emit (.started s.nextCall u.id)
    match u.status with
    | .disabled => s
    | .locked => if now < lockedUntil then s else { s with logins := s.logins ++ [call .unlock] }
    | .active => { s with logins := s.logins ++ [call .verify] }

def loginStep (cfg : Config) (verify : Bytes → Bytes → Option Bool) (s : State) (i : Nat) (c : LoginCall) :
    Act → Option State
  | .loginUnlock _ =>
    if c.pc = .unlock then
      some (((s.updateUser c.userId fun u =>
        { u with status := .active, loginAttempts := 0, lockedUntil := none, updatedAt := c.now }).setPc i
          { c with attempts := 0 } .verify).emit (.reset c.userId))
    else none
  | .loginVerify _ =>
    if c.pc = .verify then
      let s := s.emit (.checked c.userId (verify c.password c.passwordHash) c.lockedAtStart)
      match verify c.password c.passwordHash with
      | none => some { s with logins := s.logins.eraseIdx i }
      | some false => some (s.setPc i c .fail)
      | some true => some (s.setPc i c .succeed)
    else none
  | .loginFail _ =>
    if c.pc = .fail then
      let newAttempts := c.attempts + 1
      let f : User → User := fun u =>
        if cfg.maxLoginAttempts ≤ newAttempts then
          { u with status := .locked, loginAttempts := newAttempts, lockedUntil := some (c.now + cfg.lockoutDuration),
                   updatedAt := c.now }
        else { u with loginAttempts := newAttempts, updatedAt := c.now }
      some { s.updateUser c.userId f with logins := s.logins.eraseIdx i }
    else none
  | .loginSucceed _ =>
    if c.pc = .succeed then
      let f : User → User := fun u => { u with loginAttempts := 0, lockedUntil := none, updatedAt := c.now }
      some (((s.updateUser c.userId f).setPc i c .issue).emit (.reset c.userId))
    else none
  | .loginIssue _ jti tokenHash expiresAt =>
    if c.pc = .issue then
      let row : RefreshToken := { jti, userId := c.userId, tokenHash, expiresAt }
      match insertRow RefreshToken.jti row s.tables.refreshTokens with
      | none => some { s with logins := s.logins.eraseIdx i }
      | some refreshTokens =>
        some ({ s with tables := { s.tables with refreshTokens }, logins := s.logins.eraseIdx i }.emit
          (.tokenReturned c.number c.userId))
    else none
  | _ => none

def codeTtl : Int := 15 * 60

/-- `RequestPasswordReset`, with the code `IssueVerificationCode` has drawn. -/
def requestPasswordReset (s : State) (email code : Bytes) (now : Int) : State :=
  if (lookup User.email (cText email) s.tables.users).isSome then
    let row : VerificationCode :=
      { id := s.tables.codes.length + 1, email := cText email, code, type := .passwordReset, expiresAt := now + codeTtl,
        createdAt := now }
    { s with tables := { s.tables with codes := s.tables.codes ++ [row] } }
  else s

def newest (rows : List VerificationCode) : Option VerificationCode :=
  rows.foldl (fun best c => if best.any fun b => decide (c.createdAt ≤ b.createdAt) then best else some c) none

/-- The newest code for an email, a type and a text: its id when it is unused and not expired, or the reason. -/
def checkVerificationCode (t : Tables) (email : Bytes) (type : CodeType) (code : Bytes) (now : Int) :
    Except String Nat :=
  let rows := t.codes.filter fun c => c.email == cText email && decide (c.type = type) && c.code == cText code
  match newest rows with
  | none => .error "reason=invalid"
  | some c =>
    if c.used then .error "reason=reused"
    else if c.expiresAt ≤ now then .error "reason=expired"
    else .ok c.id

def resetCheck (cfg : Config) (s : State) (email code newPassword newHash : Bytes) (now : Int) : State :=
  if !validatePassword newPassword cfg.passwordMinLength then s
  else
    match checkVerificationCode s.tables email .passwordReset code now with
    | .error _ => s
    | .ok codeId => { s with resets := s.resets ++ [⟨email, codeId, newHash, now⟩] }

def markCodeUsed (id : Nat) (t : Tables) : Tables :=
  { t with codes := updateWhere (fun c => c.id == id) (fun c => { c with used := true }) t.codes }

/-- The UPDATE of the users table in `ConfirmPasswordReset`. -/
def resetPassword (email passwordHash : Bytes) (now : Int) (t : Tables) : Tables :=
  let f : User → User := fun u =>
    { u with passwordHash, updatedAt := now, loginAttempts := 0, status := .active, lockedUntil := none }
  { t with users := updateWhere (fun u => u.email == cText email) f t.users }

def resetCommit (other : Bytes → Tables → Tables) (s : State) (i : Nat) (c : ResetCall) : State :=
  let events := ((lookup User.email (cText c.email) s.tables.users).map fun u => Event.reset u.id).toList
  { s with
    tables := revokeTokens other c.email (markCodeUsed c.codeId (resetPassword c.email c.passwordHash c.now s.tables))
    resets := s.resets.eraseIdx i, log := s.log ++ events }

def verifyEmail (s : State) (email code : Bytes) (now : Int) : State :=
  if (lookup User.email (cText email) s.tables.users).any (·.emailVerified) then s
  else
    match checkVerificationCode s.tables email .emailVerify code now with
    | .error _ => s
    | .ok id =>
      let f : User → User := fun u => { u with emailVerified := true, updatedAt := now }
      let users := updateWhere (fun u => u.email == cText email) f s.tables.users
      { s with tables := markCodeUsed id { s.tables with users } }

def refreshLookup (s : State) (jti tokenHash sub : Bytes) (now : Int) : State :=
  match lookup RefreshToken.jti jti s.tables.refreshTokens with
  | none => s
  | some r =>
    if r.revoked || decide (r.expiresAt ≤ now) || r.tokenHash != tokenHash then s
    else { s with refreshes := s.refreshes ++ [sub] }

def refreshUser (s : State) (i : Nat) (sub : Bytes) : State :=
  let s' := { s with refreshes := s.refreshes.eraseIdx i, nextCall := s.nextCall + 1 }.emit (.started s.nextCall sub)
  match lookup User.id sub s.tables.users with
  | none => s'
  | some u => if u.status = .active then s'.emit (.tokenReturned s.nextCall sub) else s'

def setStatus (s : State) (id : Bytes) (status : UserStatus) (event : Event) (now : Int) : State :=
  match lookup User.id id s.tables.users with
  | none => s
  | some _ => (s.updateUser id fun u => { u with status, updatedAt := now }).emit event

def validRole (role : Bytes) : Bool := role == [0x61, 0x64, 0x6D, 0x69, 0x6E] || role == [0x75, 0x73, 0x65, 0x72]

def adminUpdate (s : State) (id : Bytes) (p : UserUpdate) (now : Int) : State :=
  if p.role.any (fun role => !validRole role) ||
      p.displayName.any (fun name => name.isEmpty || decide (kDisplayNameMax < name.length)) then s
  else if p = {} then s
  else s.updateUser id fun u =>
    { u with displayName := (p.displayName.map cText).getD u.displayName, role := p.role.getD u.role,
             emailVerified := p.emailVerified.getD u.emailVerified, updatedAt := now }

/-- One step; `verify` is the hasher, `other` as in `revokeTokens`. -/
def step (cfg : Config) (verify : Bytes → Bytes → Option Bool) (other : Bytes → Tables → Tables) (s : State) :
    Act → Option State
  | .register id email password passwordHash displayName now =>
    (s.at now).map fun s => register cfg s id email password passwordHash displayName now
  | .loginRead email password now => (s.at now).map fun s => loginRead s email password now
  | .loginUnlock i => s.logins[i]?.bind fun c => loginStep cfg verify s i c (.loginUnlock i)
  | .loginVerify i => s.logins[i]?.bind fun c => loginStep cfg verify s i c (.loginVerify i)
  | .loginFail i => s.logins[i]?.bind fun c => loginStep cfg verify s i c (.loginFail i)
  | .loginSucceed i => s.logins[i]?.bind fun c => loginStep cfg verify s i c (.loginSucceed i)
  | .loginIssue i jti tokenHash expiresAt =>
    s.logins[i]?.bind fun c => loginStep cfg verify s i c (.loginIssue i jti tokenHash expiresAt)
  | .requestPasswordReset email code now => (s.at now).map fun s => requestPasswordReset s email code now
  | .resetCheck email code newPassword newHash now =>
    (s.at now).map fun s => resetCheck cfg s email code newPassword newHash now
  | .resetCommit i => s.resets[i]?.map fun c => resetCommit other s i c
  | .verifyEmail email code now => (s.at now).map fun s => verifyEmail s email code now
  | .refreshLookup jti tokenHash sub now => (s.at now).map fun s => refreshLookup s jti tokenHash sub now
  | .refreshUser i => s.refreshes[i]?.map fun sub => refreshUser s i sub
  | .disable id now => (s.at now).map fun s => setStatus s id .disabled (.disabled id) now
  | .enable id now => (s.at now).map fun s => setStatus s id .active (.enabled id) now
  | .update id u now => (s.at now).map fun s => adminUpdate s id u now

/-! ## What a step does to the accounts -/

variable {cfg : Config} {verify : Bytes → Bytes → Option Bool} {other : Bytes → Tables → Tables} {s s' : State}
  {t : Tables}

theorem at_map_eq_some {now : Int} {g : State → State} :
    (s.at now).map g = some s' ↔ s.clock ≤ now ∧ s' = g { s with clock := now } :=
  guarded_map_eq_some

/-- A step that has nothing to do with logins and locks. -/
structure Quiet (s s' : State) : Prop where
  users : ∃ p, ∃ f : User → User, (∀ u, (f u).id = u.id ∧ (f u).email = u.email) ∧
    (∀ u, (f u).status = u.status ∧ (f u).lockedUntil = u.lockedUntil ∧ (f u).loginAttempts = u.loginAttempts) ∧
    s'.tables.users = updateWhere p f s.tables.users
  logins : s'.logins = s.logins
  nextCall : s'.nextCall = s.nextCall
  log : s'.log = s.log
  clock : s.clock ≤ s'.clock

theorem Quiet.of_users (husers : s'.tables.users = s.tables.users) (hlogins : s'.logins = s.logins)
    (hnext : s'.nextCall = s.nextCall) (hlog : s'.log = s.log) (hclock : s.clock ≤ s'.clock) : Quiet s s' where
  users := ⟨fun _ => false, id, fun _ => ⟨rfl, rfl⟩, fun _ => ⟨rfl, rfl, rfl⟩,
    husers.trans (updateWhere_of_none fun _ _ => rfl).symm⟩
  logins := hlogins
  nextCall := hnext
  log := hlog
  clock := hclock

theorem Quiet.of_update {p : User → Bool} {f : User → User}
    (husers : s'.tables.users = updateWhere p f s.tables.users) (hf : ∀ u, (f u).id = u.id ∧ (f u).email = u.email)
    (hlock : ∀ u, (f u).status = u.status ∧ (f u).lockedUntil = u.lockedUntil ∧ (f u).loginAttempts = u.loginAttempts)
    (hlogins : s'.logins = s.logins) (hnext : s'.nextCall = s.nextCall) (hlog : s'.log = s.log)
    (hclock : s.clock ≤ s'.clock) : Quiet s s' :=
  ⟨⟨p, f, hf, hlock, husers⟩, hlogins, hnext, hlog, hclock⟩

/-- The steps that are quiet whatever they find. -/
def Act.quiet : Act → Bool
  | .requestPasswordReset .. | .resetCheck .. | .verifyEmail .. | .refreshLookup .. | .update .. => true
  | _ => false

theorem quiet_of_step {a : Act} (ha : a.quiet = true) (h : step cfg verify other s a = some s') : Quiet s s' := by
  cases a <;> first | cases ha; done | skip
  case requestPasswordReset email code now =>
    obtain ⟨hnow, rfl⟩ := at_map_eq_some.mp h
    unfold requestPasswordReset
    split
    · exact .of_users rfl rfl rfl rfl hnow
    · exact .of_users rfl rfl rfl rfl hnow
  case resetCheck email code newPassword newHash now =>
    obtain ⟨hnow, rfl⟩ := at_map_eq_some.mp h
    unfold resetCheck
    split
    · exact .of_users rfl rfl rfl rfl hnow
    · split <;> exact .of_users rfl rfl rfl rfl hnow
  case verifyEmail email code now =>
    obtain ⟨hnow, rfl⟩ := at_map_eq_some.mp h
    unfold verifyEmail
    split
    · exact .of_users rfl rfl rfl rfl hnow
    · split
      · exact .of_users rfl rfl rfl rfl hnow
      · exact .of_update rfl (fun _ => ⟨rfl, rfl⟩) (fun _ => ⟨rfl, rfl, rfl⟩) rfl rfl rfl hnow
  case refreshLookup jti tokenHash sub now =>
    obtain ⟨hnow, rfl⟩ := at_map_eq_some.mp h
    unfold refreshLookup
    split
    · exact .of_users rfl rfl rfl rfl hnow
    · split <;> exact .of_users rfl rfl rfl rfl hnow
  case update id p now =>
    obtain ⟨hnow, rfl⟩ := at_map_eq_some.mp h
    unfold adminUpdate
    split
    · exact .of_users rfl rfl rfl rfl hnow
    · split
      · exact .of_users rfl rfl rfl rfl hnow
      · exact .of_update rfl (fun _ => ⟨rfl, rfl⟩) (fun _ => ⟨rfl, rfl, rfl⟩) rfl rfl rfl hnow

theorem register_cases (cfg : Config) (s : State) (id email password passwordHash displayName : Bytes) (now : Int) :
    register cfg s id email password passwordHash displayName now = s ∨
    ∃ u : User, u.status = .active ∧ u.lockedUntil = none ∧ u.loginAttempts = 0 ∧
      (∀ v ∈ s.tables.users, v.id ≠ u.id ∧ v.email ≠ u.email) ∧
      register cfg s id email password passwordHash displayName now =
        { s with tables := { s.tables with users := s.tables.users ++ [u] } } := by
  unfold register
  simp only
  split
  · exact .inl rfl
  · split
    · exact .inl rfl
    · rename_i hfree
      exact .inr ⟨_, rfl, rfl, rfl, by simpa using hfree, rfl⟩

/-! ## The keys of the users table -/

structure Schema (t : Tables) : Prop where
  ids : Keyed User.id t.users
  emails : Keyed User.email t.users

theorem Schema.update (h : Schema t) {t' : Tables} {p : User → Bool} {f : User → User}
    (husers : t'.users = updateWhere p f t.users) (hf : ∀ u, (f u).id = u.id ∧ (f u).email = u.email) : Schema t' := by
  constructor
  · rw [husers]
    exact h.ids.updateWhere fun u _ => (hf u).1
  · rw [husers]
    exact h.emails.updateWhere fun u _ => (hf u).2

theorem Schema.of_users (h : Schema t) {t' : Tables} (husers : t'.users = t.users) : Schema t' :=
  ⟨husers ▸ h.ids, husers ▸ h.emails⟩

theorem Schema.updateWhere_email (h : Schema t) {email : Bytes} {v : User}
    (hv : lookup User.email email t.users = some v) (f : User → User) :
    updateWhere (fun u => u.email == email) f t.users =
      updateWhere (fun u => u.id == v.id) f t.users := by
  obtain ⟨hmem, hemail⟩ := lookup_eq_some hv
  apply List.map_congr_left
  intro u hu
  have hsame : (u.email == email) = (u.id == v.id) := by
    rw [Bool.eq_iff_iff, beq_iff_eq, beq_iff_eq]
    constructor
    · exact fun heq => congrArg User.id (h.emails.eq_of_key hu hmem (heq.trans hemail.symm))
    · exact fun heq => (congrArg User.email (h.ids.eq_of_key hu hmem heq)).trans hemail
  simp only [hsame]

theorem loginStep_users {i : Nat} {c : LoginCall} {a : Act} (h : loginStep cfg verify s i c a = some s') :
    s'.tables.users = s.tables.users ∨ ∃ f : User → User, (∀ u, (f u).id = u.id ∧ (f u).email = u.email) ∧
      s'.tables.users = (s.updateUser c.userId f).tables.users := by
  unfold loginStep at h
  split at h
  · split_ifs at h
    cases h
    refine .inr ⟨_, ?_, rfl⟩
    exact fun _ => ⟨rfl, rfl⟩
  · split_ifs at h
    split at h <;> cases h <;> exact .inl rfl
  · split_ifs at h
    cases h
    refine .inr ⟨_, ?_, rfl⟩
    intro u
    split <;> exact ⟨rfl, rfl⟩
  · split_ifs at h
    cases h
    refine .inr ⟨_, ?_, rfl⟩
    exact fun _ => ⟨rfl, rfl⟩
  · split_ifs at h
    dsimp only at h
    split at h <;> cases h <;> exact .inl rfl
  · cases h

theorem Schema.of_login (h : Schema s.tables) {i : Nat} {a : Act}
    (hstep : (s.logins[i]?.bind fun c => loginStep cfg verify s i c a) = some s') : Schema s'.tables := by
  obtain ⟨c, -, hc⟩ := Option.bind_eq_some_iff.mp hstep
  rcases loginStep_users hc with husers | ⟨f, hf, husers⟩
  · exact h.of_users husers
  · exact h.update husers hf

theorem Schema.of_step (h : Schema s.tables) {a : Act} (hstep : step cfg verify other s a = some s')
    (hreset : ∀ i, a = .resetCommit i → ∀ c ∈ s.resets[i]?, StaysLiteral c.email) : Schema s'.tables := by
  have quiet (ha : a.quiet = true) : Schema s'.tables := by
    obtain ⟨p, f, hf, -, husers⟩ := (quiet_of_step ha hstep).users
    exact h.update husers hf
  cases a with
  | register id email password passwordHash displayName now =>
    obtain ⟨-, rfl⟩ := at_map_eq_some.mp hstep
    rcases register_cases cfg { s with clock := now } id email password passwordHash displayName now with
      hr | ⟨u, -, -, -, hfree, hr⟩ <;> rw [hr]
    · exact h
    · exact ⟨keyed_append.mpr ⟨h.ids, fun v hv => (hfree v hv).1⟩,
        keyed_append.mpr ⟨h.emails, fun v hv => (hfree v hv).2⟩⟩
  | loginRead email password now =>
    obtain ⟨-, rfl⟩ := at_map_eq_some.mp hstep
    refine h.of_users ?_
    unfold loginRead
    split
    · rfl
    · dsimp only
      split
      · rfl
      · split <;> rfl
      · rfl
  | loginUnlock i => exact h.of_login hstep
  | loginVerify i => exact h.of_login hstep
  | loginFail i => exact h.of_login hstep
  | loginSucceed i => exact h.of_login hstep
  | loginIssue i jti tokenHash expiresAt => exact h.of_login hstep
  | requestPasswordReset email code now => exact quiet rfl
  | resetCheck email code newPassword newHash now => exact quiet rfl
  | resetCommit i =>
    obtain ⟨c, hc, rfl⟩ := Option.map_eq_some_iff.mp hstep
    exact h.update (revokeTokens_users (hreset i rfl c hc) other _) fun _ => ⟨rfl, rfl⟩
  | verifyEmail email code now => exact quiet rfl
  | refreshLookup jti tokenHash sub now => exact quiet rfl
  | refreshUser i =>
    obtain ⟨sub, -, rfl⟩ := Option.map_eq_some_iff.mp hstep
    refine h.of_users ?_
    unfold refreshUser
    split
    · rfl
    · split <;> rfl
  | disable id now | enable id now =>
    obtain ⟨-, rfl⟩ := at_map_eq_some.mp hstep
    unfold setStatus
    split
    · exact h
    · exact h.update rfl fun _ => ⟨rfl, rfl⟩
  | update id u now => exact quiet rfl

/-! ## A small instance -/

def sampleEmail : Bytes := [0x61, 0x40, 0x62, 0x2E, 0x63]

def sampleRegister (now : Int) : Act :=
  .register [1] sampleEmail [0x61, 0x62, 0x63, 0x64, 0x65, 0x66, 0x67, 0x31] [7] [0x61] now

def sampleConfig : Config := { passwordMinLength := 8, maxLoginAttempts := 2, lockoutDuration := 60 }

def sampleVerify (password hash : Bytes) : Option Bool := some (password == hash)

end Cortrix.Auth
