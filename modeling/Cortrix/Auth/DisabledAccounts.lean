import Cortrix.Auth.AuthService

/-!
# A disabled account stays disabled until it is enabled

The status column holds the decision of an administrator and the lock of the login. A `Login` that read the row before
the account was disabled writes its lock over the decision, or the end of an expired one; a password reset makes any
account active.

* `Watch` : what the log tells: the accounts disabled, the calls that started while their account was, whether one of
  these returned a token;
* `Keeps` : no such write while the account is disabled; then every state is `Kept` (`kept_of_keeps`).
-/

namespace Cortrix.Auth.DisabledAccounts
open Lib

structure Watch where
  /-- Disabled, and not enabled since. -/
  disabled : List Bytes := []
  /-- Started while their account was disabled. -/
  suspects : List Nat := []
  /-- A suspect has returned a token. -/
  leaked : Bool := false

def Watch.note (w : Watch) : Event → Watch
  | .started call userId => if userId ∈ w.disabled then { w with suspects := call :: w.suspects } else w
  | .disabled id => { w with disabled := id :: w.disabled }
  | .enabled id => { w with disabled := w.disabled.filter (· ≠ id) }
  | .tokenReturned call _ => if call ∈ w.suspects then { w with leaked := true } else w
  | .checked .. | .reset _ => w

def watch (s : State) : Watch := s.log.foldl Watch.note {}

def statusOf (t : Tables) (id : Bytes) : Option UserStatus := (lookup User.id id t.users).map User.status

/-- Every disabled account has the status, and no call that started in the meantime got a token. -/
def Kept (s : State) : Prop :=
  (∀ id ∈ (watch s).disabled, statusOf s.tables id = some .disabled) ∧ (watch s).leaked = false

/-- What a step must not do: a login writes its lock, or the end of a lock, into an account that is disabled; a reset
commits for one, or with an email that ends its literal. -/
def Keeps (cfg : Config) (s : State) : Act → Prop
  | .loginUnlock i => ∀ c ∈ s.logins[i]?, c.userId ∉ (watch s).disabled
  | .loginFail i => ∀ c ∈ s.logins[i]?, cfg.maxLoginAttempts ≤ c.attempts + 1 → c.userId ∉ (watch s).disabled
  | .resetCommit i =>
    ∀ c ∈ s.resets[i]?, StaysLiteral c.email ∧ ∀ u ∈ s.tables.users, u.email = cText c.email → u.id ∉ (watch s).disabled
  | _ => True

instance (s : State) : Decidable (Kept s) := inferInstanceAs (Decidable (_ ∧ _))

instance (cfg : Config) (s : State) : ∀ a, Decidable (Keeps cfg s a)
  | .loginUnlock i => inferInstanceAs (Decidable (∀ c ∈ s.logins[i]?, _))
  | .loginFail i => inferInstanceAs (Decidable (∀ c ∈ s.logins[i]?, _ → _))
  | .resetCommit i => inferInstanceAs (Decidable (∀ c ∈ s.resets[i]?, _ ∧ ∀ u ∈ s.tables.users, _ → _))
  | .register .. | .loginRead .. | .loginVerify _ | .loginSucceed _ | .loginIssue .. | .requestPasswordReset ..
  | .resetCheck .. | .verifyEmail .. | .refreshLookup .. | .refreshUser _ | .disable .. | .enable .. | .update .. =>
    .isTrue trivial

def start (t : Tables) (clock : Int) : State := { tables := t, clock }

/-! ## The status through a statement -/

variable {t : Tables} {id : Bytes} {s s' : State} {cfg : Config} {verify : Bytes → Bytes → Option Bool}
  {other : Bytes → Tables → Tables}

theorem statusOf_update {p : User → Bool} {f : User → User} (hid : ∀ u, (f u).id = u.id)
    (h : ∀ u ∈ t.users, u.id = id → p u = true → (f u).status = u.status) :
    statusOf { t with users := updateWhere p f t.users } id = statusOf t id := by
  unfold statusOf
  rw [lookup_updateWhere hid, Option.map_map]
  apply Option.map_congr
  intro u hu
  obtain ⟨hmem, hkey⟩ := lookup_eq_some hu
  by_cases hp : p u = true
  · simp [hp, h u hmem hkey hp]
  · simp [hp]

theorem statusOf_append (h : statusOf t id = some .disabled) (u : User) :
    statusOf { t with users := t.users ++ [u] } id = some .disabled := by
  unfold statusOf at h ⊢
  obtain ⟨v, hv, hstatus⟩ := Option.map_eq_some_iff.mp h
  simp [lookup_append_of_some hv, hstatus]

theorem statusOf_setStatus {u : User} {status : UserStatus} {now : Int} (h : lookup User.id id t.users = some u) :
    statusOf
        { t with users := updateWhere (fun v => v.id == id) (fun v => { v with status, updatedAt := now }) t.users }
        id = some status := by
  unfold statusOf
  rw [lookup_updateWhere (by intro u; rfl), h]
  simp [(lookup_eq_some h).2]

/-! ## The invariant -/

structure Inv (s : State) : Prop where
  kept : Kept s
  schema : Schema s.tables
  suspects : ∀ n ∈ (watch s).suspects, n < s.nextCall
  /-- No call in flight is a suspect. -/
  logins : ∀ c ∈ s.logins, c.number < s.nextCall ∧ c.number ∉ (watch s).suspects

theorem watch_emit (s : State) (e : Event) : watch (s.emit e) = (watch s).note e := by
  simp [watch, State.emit]

theorem Inv.not_disabled (h : Inv s) {u : User} (hu : u ∈ s.tables.users) (hstatus : u.status ≠ .disabled) :
    u.id ∉ (watch s).disabled := by
  intro hmem
  have hd := h.kept.1 u.id hmem
  unfold statusOf at hd
  rw [h.schema.ids.lookup_of_mem hu] at hd
  exact hstatus (Option.some.inj hd)

theorem Inv.frame (h : Inv s) (hschema : Schema s'.tables) (hwatch : watch s' = watch s)
    (hnext : s'.nextCall = s.nextCall) (hlogins : ∀ c ∈ s'.logins, ∃ d ∈ s.logins, d.number = c.number)
    (hstatus : ∀ id ∈ (watch s).disabled, statusOf s.tables id = some .disabled →
      statusOf s'.tables id = some .disabled) : Inv s' := by
  obtain ⟨⟨hdisabled, hleaked⟩, -, hsuspects, hflight⟩ := h
  refine ⟨⟨?_, ?_⟩, hschema, ?_, ?_⟩
  · rw [hwatch]
    exact fun id hid => hstatus id hid (hdisabled id hid)
  · rwa [hwatch]
  · rwa [hwatch, hnext]
  · intro c hc
    obtain ⟨d, hd, hnumber⟩ := hlogins c hc
    rw [hwatch, hnext, ← hnumber]
    exact hflight d hd

theorem Inv.update (h : Inv s) (hschema : Schema s'.tables) {p : User → Bool} {f : User → User}
    (husers : s'.tables.users = updateWhere p f s.tables.users) (hid : ∀ u, (f u).id = u.id)
    (hf : ∀ u ∈ s.tables.users, u.id ∈ (watch s).disabled → p u = true → (f u).status = u.status)
    (hwatch : watch s' = watch s) (hnext : s'.nextCall = s.nextCall)
    (hlogins : ∀ c ∈ s'.logins, ∃ d ∈ s.logins, d.number = c.number) : Inv s' := by
  refine h.frame hschema hwatch hnext hlogins fun id hmem hdisabled => ?_
  have hsame : statusOf s'.tables id = statusOf { s.tables with users := updateWhere p f s.tables.users } id := by
    unfold statusOf
    rw [husers]
  rw [hsame, statusOf_update hid fun u hu hkey => hf u hu (hkey ▸ hmem)]
  exact hdisabled

theorem number_of_set {i : Nat} {c c' : LoginCall} (hc : s.logins[i]? = some c) (hnumber : c'.number = c.number) :
    ∀ d ∈ s.logins.set i c', ∃ e ∈ s.logins, e.number = d.number := by
  intro d hd
  rcases List.mem_or_eq_of_mem_set hd with hd | rfl
  · exact ⟨d, hd, rfl⟩
  · exact ⟨c, List.mem_of_getElem? hc, hnumber.symm⟩

theorem number_of_eraseIdx {i : Nat} : ∀ d ∈ s.logins.eraseIdx i, ∃ e ∈ s.logins, e.number = d.number :=
  fun d hd => ⟨d, List.mem_of_mem_eraseIdx hd, rfl⟩

/-! ## Calls that start -/

theorem Inv.started (h : Inv s) (userId : Bytes) :
    Inv ({ s with nextCall := s.nextCall + 1 }.emit (.started s.nextCall userId)) := by
  obtain ⟨⟨hdisabled, hleaked⟩, hschema, hsuspects, hflight⟩ := h
  have hwatch := watch_emit { s with nextCall := s.nextCall + 1 } (.started s.nextCall userId)
  have hnote : watch { s with nextCall := s.nextCall + 1 } = watch s := rfl
  rw [hnote, Watch.note] at hwatch
  by_cases hmem : userId ∈ (watch s).disabled
  · rw [if_pos hmem] at hwatch
    refine ⟨⟨?_, ?_⟩, hschema, ?_, ?_⟩
    · rw [hwatch]
      exact hdisabled
    · rw [hwatch]
      exact hleaked
    · rw [hwatch]
      intro n hn
      rcases List.mem_cons.mp hn with rfl | hn
      · exact Nat.lt_succ_self _
      · exact Nat.lt_succ_of_lt (hsuspects n hn)
    · rw [hwatch]
      intro c hc
      obtain ⟨hlt, hnot⟩ := hflight c hc
      refine ⟨Nat.lt_succ_of_lt hlt, fun hc => ?_⟩
      rcases List.mem_cons.mp hc with heq | hc
      · exact absurd heq (Nat.ne_of_lt hlt)
      · exact hnot hc
  · rw [if_neg hmem] at hwatch
    refine ⟨⟨?_, ?_⟩, hschema, ?_, ?_⟩
    · rwa [hwatch]
    · rwa [hwatch]
    · rw [hwatch]
      exact fun n hn => Nat.lt_succ_of_lt (hsuspects n hn)
    · rw [hwatch]
      exact fun c hc => ⟨Nat.lt_succ_of_lt (hflight c hc).1, (hflight c hc).2⟩

theorem Inv.fresh (h : Inv s) {userId : Bytes} (hid : userId ∉ (watch s).disabled) :
    s.nextCall ∉ (watch ({ s with nextCall := s.nextCall + 1 }.emit (.started s.nextCall userId))).suspects := by
  have hnote : watch { s with nextCall := s.nextCall + 1 } = watch s := rfl
  rw [watch_emit, hnote, Watch.note, if_neg hid]
  exact fun hmem => Nat.lt_irrefl _ (h.suspects _ hmem)

theorem Inv.addLogin (h : Inv s) {c : LoginCall} (hc : c.number < s.nextCall ∧ c.number ∉ (watch s).suspects) :
    Inv { s with logins := s.logins ++ [c] } := by
  refine ⟨h.kept, h.schema, h.suspects, fun d hd => ?_⟩
  rcases List.mem_append.mp hd with hd | hd
  · exact h.logins d hd
  · rw [List.mem_singleton.mp hd]
    exact hc

theorem Inv.loginRead (h : Inv s) (email password : Bytes) (now : Int) : Inv (loginRead s email password now) := by
  unfold Auth.loginRead
  split
  · exact h
  · rename_i u hu
    have hmem := (lookup_eq_some hu).1
    have hstarted := h.started u.id
    have hfresh (hne : u.status ≠ .disabled) := h.fresh (h.not_disabled hmem hne)
    dsimp only
    split
    · exact hstarted
    · rename_i hlocked
      split
      · exact hstarted
      · exact hstarted.addLogin ⟨Nat.lt_succ_self _, hfresh (by simp [hlocked])⟩
    · rename_i hactive
      exact hstarted.addLogin ⟨Nat.lt_succ_self _, hfresh (by simp [hactive])⟩

theorem Inv.tokenReturned (h : Inv s) {call : Nat} (hcall : call ∉ (watch s).suspects) (userId : Bytes) :
    Inv (s.emit (.tokenReturned call userId)) := by
  have hwatch : watch (s.emit (.tokenReturned call userId)) = watch s := by
    rw [watch_emit, Watch.note, if_neg hcall]
  exact h.frame h.schema hwatch rfl (fun c hc => ⟨c, hc, rfl⟩) fun _ _ hdisabled => hdisabled

theorem Inv.refreshUser (h : Inv s) (i : Nat) (sub : Bytes) : Inv (refreshUser s i sub) := by
  have herase : Inv { s with refreshes := s.refreshes.eraseIdx i } :=
    h.frame h.schema rfl rfl (fun c hc => ⟨c, hc, rfl⟩) fun _ _ hdisabled => hdisabled
  have hstarted := herase.started sub
  unfold Auth.refreshUser
  split
  · exact hstarted
  · rename_i u hu
    obtain ⟨hmem, hkey⟩ := lookup_eq_some hu
    split
    · rename_i hactive
      refine hstarted.tokenReturned (herase.fresh ?_) sub
      exact hkey ▸ herase.not_disabled hmem (by simp [hactive])
    · exact hstarted

/-! ## The decisions -/

theorem statusOf_setStatus_ne {id' : Bytes} (hne : id' ≠ id) (status : UserStatus) (now : Int) :
    statusOf
        { t with users := updateWhere (fun v => v.id == id) (fun v => { v with status, updatedAt := now }) t.users }
        id' = statusOf t id' := by
  refine statusOf_update (fun _ => rfl) fun u _ hu hp => ?_
  exact absurd (hu.symm.trans (beq_iff_eq.mp hp)) hne

theorem Inv.disable (h : Inv s) (id : Bytes) (now : Int) : Inv (setStatus s id .disabled (.disabled id) now) := by
  unfold setStatus
  split
  · exact h
  · rename_i u hu
    have hwatch := watch_emit (s.updateUser id fun u => { u with status := .disabled, updatedAt := now }) (.disabled id)
    refine ⟨⟨?_, ?_⟩, ?_, ?_, ?_⟩
    · rw [hwatch]
      intro id' hmem
      rcases List.mem_cons.mp hmem with rfl | hmem
      · exact statusOf_setStatus hu
      · by_cases heq : id' = id
        · rw [heq]
          exact statusOf_setStatus hu
        · exact (statusOf_setStatus_ne heq _ _).trans (h.kept.1 id' hmem)
    · rw [hwatch]
      exact h.kept.2
    · exact h.schema.update rfl fun _ => ⟨rfl, rfl⟩
    · rw [hwatch]
      exact h.suspects
    · rw [hwatch]
      exact h.logins

theorem Inv.enable (h : Inv s) (id : Bytes) (now : Int) : Inv (setStatus s id .active (.enabled id) now) := by
  unfold setStatus
  split
  · exact h
  · rename_i u hu
    have hwatch := watch_emit (s.updateUser id fun u => { u with status := .active, updatedAt := now }) (.enabled id)
    refine ⟨⟨?_, ?_⟩, ?_, ?_, ?_⟩
    · rw [hwatch]
      intro id' hmem
      obtain ⟨hmem, hne⟩ := List.mem_filter.mp hmem
      exact (statusOf_setStatus_ne (of_decide_eq_true hne) _ _).trans (h.kept.1 id' hmem)
    · rw [hwatch]
      exact h.kept.2
    · exact h.schema.update rfl fun _ => ⟨rfl, rfl⟩
    · rw [hwatch]
      exact h.suspects
    · rw [hwatch]
      exact h.logins

/-! ## The steps -/

theorem Inv.loginStep (h : Inv s) {i : Nat} {c : LoginCall} {a : Act} (hc : s.logins[i]? = some c)
    (hunlock : ∀ j, a = .loginUnlock j → c.userId ∉ (watch s).disabled)
    (hfail : ∀ j, a = .loginFail j → cfg.maxLoginAttempts ≤ c.attempts + 1 → c.userId ∉ (watch s).disabled)
    (hstep : loginStep cfg verify s i c a = some s') (hschema : Schema s'.tables) : Inv s' := by
  unfold Auth.loginStep at hstep
  split at hstep
  · rename_i j
    split_ifs at hstep
    cases hstep
    refine h.update hschema rfl (fun _ => rfl) ?_ (watch_emit _ _) rfl (number_of_set hc rfl)
    intro u _ hmem hp
    exact absurd (beq_iff_eq.mp hp ▸ hmem) (hunlock j rfl)
  · split_ifs at hstep
    have hchecked : Inv (s.emit (.checked c.userId (verify c.password c.passwordHash) c.lockedAtStart)) :=
      h.frame h.schema (watch_emit _ _) rfl (fun c hc => ⟨c, hc, rfl⟩) fun _ _ hdisabled => hdisabled
    split at hstep <;> cases hstep
    · exact hchecked.frame hschema rfl rfl number_of_eraseIdx fun _ _ hdisabled => hdisabled
    · exact hchecked.frame hschema rfl rfl (number_of_set hc rfl) fun _ _ hdisabled => hdisabled
    · exact hchecked.frame hschema rfl rfl (number_of_set hc rfl) fun _ _ hdisabled => hdisabled
  · rename_i j
    split_ifs at hstep
    cases hstep
    refine h.update hschema rfl ?_ ?_ rfl rfl number_of_eraseIdx
    · intro u
      split <;> rfl
    · intro u _ hmem hp
      split
      · rename_i hmax
        exact absurd (beq_iff_eq.mp hp ▸ hmem) (hfail j rfl hmax)
      · rfl
  · split_ifs at hstep
    cases hstep
    exact h.update hschema rfl (fun _ => rfl) (fun _ _ _ _ => rfl) (watch_emit _ _) rfl (number_of_set hc rfl)
  · split_ifs at hstep
    have hnot := (h.logins c (List.mem_of_getElem? hc)).2
    dsimp only at hstep
    split at hstep <;> cases hstep
    · exact h.frame hschema rfl rfl number_of_eraseIdx fun _ _ hdisabled => hdisabled
    · rename_i refreshTokens _
      have herase : Inv { s with tables := { s.tables with refreshTokens }, logins := s.logins.eraseIdx i } :=
        h.frame (h.schema.of_users rfl) rfl rfl number_of_eraseIdx fun _ _ hdisabled => hdisabled
      exact herase.tokenReturned hnot c.userId
  · cases hstep

theorem Inv.step (h : Inv s) {a : Act} (hk : Keeps cfg s a) (hstep : step cfg verify other s a = some s') : Inv s' := by
  have hschema : Schema s'.tables := by
    refine h.schema.of_step hstep fun i ha c hc => ?_
    subst ha
    exact (hk c hc).1
  have clocked (now : Int) : Inv { s with clock := now } :=
    h.frame h.schema rfl rfl (fun c hc => ⟨c, hc, rfl⟩) fun _ _ hdisabled => hdisabled
  have quiet (ha : a.quiet = true) : Inv s' := by
    obtain ⟨⟨p, f, hf, hlock, husers⟩, hlogins, hnext, hlog, -⟩ := quiet_of_step ha hstep
    have hwatch : watch s' = watch s := by
      unfold watch
      rw [hlog]
    refine h.update hschema husers (fun u => (hf u).1) (fun u _ _ _ => (hlock u).1) hwatch hnext ?_
    rw [hlogins]
    exact fun c hc => ⟨c, hc, rfl⟩
  cases a with
  | register id email password passwordHash displayName now =>
    obtain ⟨-, rfl⟩ := at_map_eq_some.mp hstep
    rcases register_cases cfg { s with clock := now } id email password passwordHash displayName now with
      hr | ⟨u, -, -, -, -, hr⟩
    · rw [hr]
      exact clocked now
    · rw [hr] at hschema ⊢
      exact h.frame hschema rfl rfl (fun c hc => ⟨c, hc, rfl⟩) fun _ _ hdisabled => statusOf_append hdisabled u
  | loginRead email password now =>
    obtain ⟨-, rfl⟩ := at_map_eq_some.mp hstep
    exact (clocked now).loginRead email password now
  | loginUnlock i =>
    obtain ⟨c, hc, hstep⟩ := Option.bind_eq_some_iff.mp hstep
    exact h.loginStep hc (fun _ _ => hk c hc) (by simp) hstep hschema
  | loginVerify i | loginSucceed i | loginIssue i jti tokenHash expiresAt =>
    obtain ⟨c, hc, hstep⟩ := Option.bind_eq_some_iff.mp hstep
    exact h.loginStep hc (by simp) (by simp) hstep hschema
  | loginFail i =>
    obtain ⟨c, hc, hstep⟩ := Option.bind_eq_some_iff.mp hstep
    exact h.loginStep hc (by simp) (fun _ _ => hk c hc) hstep hschema
  | requestPasswordReset email code now => exact quiet rfl
  | resetCheck email code newPassword newHash now => exact quiet rfl
  | resetCommit i =>
    obtain ⟨c, hc, rfl⟩ := Option.map_eq_some_iff.mp hstep
    obtain ⟨hliteral, hreset⟩ := hk c hc
    have hwatch : watch (resetCommit other s i c) = watch s := by
      unfold resetCommit
      cases lookup User.email (cText c.email) s.tables.users <;> simp [watch, Watch.note]
    refine h.update hschema (revokeTokens_users hliteral other _) (fun _ => rfl) ?_ hwatch rfl fun c hc => ⟨c, hc, rfl⟩
    intro u hu hmem hp
    exact absurd hmem (hreset u hu (beq_iff_eq.mp hp))
  | verifyEmail email code now => exact quiet rfl
  | refreshLookup jti tokenHash sub now => exact quiet rfl
  | refreshUser i =>
    obtain ⟨sub, -, rfl⟩ := Option.map_eq_some_iff.mp hstep
    exact h.refreshUser i sub
  | disable id now =>
    obtain ⟨-, rfl⟩ := at_map_eq_some.mp hstep
    exact (clocked now).disable id now
  | enable id now =>
    obtain ⟨-, rfl⟩ := at_map_eq_some.mp hstep
    exact (clocked now).enable id now
  | update id u now => exact quiet rfl

theorem inv_start {t : Tables} (ht : Schema t) (clock : Int) : Inv (start t clock) where
  kept := ⟨by simp [start, watch], rfl⟩
  schema := ht
  suspects := by simp [start, watch]
  logins := by simp [start]

/-! ## Runs -/

/-- A disabled account stays disabled in every run in which no write of the status meets it. -/
theorem kept_of_keeps (cfg : Config) (verify : Bytes → Bytes → Option Bool) (other : Bytes → Tables → Tables)
    {t : Tables} (ht : Schema t) (clock : Int) {as : List Act} {s : State}
    (hkeeps : Along (step cfg verify other) (Keeps cfg) (start t clock) as)
    (h : run (step cfg verify other) (start t clock) as = some s) : Kept s :=
  (run_inv (I := Inv) (Q := Keeps cfg) (fun hinv hk hstep => hinv.step hk hstep) (inv_start ht clock) hkeeps h).kept

/-- A login with a wrong password, one with the right password, a refresh; disabled, a login and a refresh. -/
def disabledRun : List Act :=
  [sampleRegister 0, .loginRead sampleEmail [8] 1, .loginVerify 0, .loginFail 0,
    .loginRead sampleEmail [7] 2, .loginVerify 0, .loginSucceed 0, .loginIssue 0 [5] [6] 99,
    .refreshLookup [5] [6] [1] 3, .disable [1] 4, .refreshUser 0, .loginRead sampleEmail [7] 5]

theorem kept_of_keeps_disabledRun :
    ∃ s, run (step sampleConfig sampleVerify fun _ t => t) (start {} 0) disabledRun = some s ∧
      (watch s).disabled = [[1]] ∧ (watch s).suspects = [3, 2] ∧ Kept s := by
  have hrun : (run (step sampleConfig sampleVerify fun _ t => t) (start {} 0) disabledRun).any (fun s =>
      decide ((watch s).disabled = [[1]] ∧ (watch s).suspects = [3, 2])) = true := by
    decide +kernel
  obtain ⟨s, hs, hp⟩ := (Option.any_eq_true _ _).mp hrun
  obtain ⟨hdisabled, hsuspects⟩ := of_decide_eq_true hp
  have hkeeps : Along (step sampleConfig sampleVerify fun _ t => t) (Keeps sampleConfig) (start {} 0) disabledRun := by
    decide +kernel
  exact ⟨s, hs, hdisabled, hsuspects,
    kept_of_keeps (t := {}) sampleConfig sampleVerify (fun _ t => t) ⟨Keyed.nil, Keyed.nil⟩ 0 hkeeps hs⟩

def resetRun : List Act :=
  [sampleRegister 0, .requestPasswordReset sampleEmail [3] 1, .disable [1] 2,
    .resetCheck sampleEmail [3] [0x61, 0x62, 0x63, 0x64, 0x65, 0x66, 0x67, 0x32] [9] 3,
    .resetCommit 0]

/-- It makes the account active. -/
theorem reset_enables_account :
    ¬ ∀ (cfg : Config) (verify : Bytes → Bytes → Option Bool) (other : Bytes → Tables → Tables) (t : Tables)
      (clock : Int) (as : List Act) (s : State), Schema t → run (step cfg verify other) (start t clock) as = some s →
      Kept s := by
  intro hall
  have hrun : (run (step sampleConfig sampleVerify fun _ t => t) (start {} 0) resetRun).any (fun s =>
      decide (¬ Kept s)) = true := by
    decide +kernel
  obtain ⟨s, hs, hp⟩ := (Option.any_eq_true _ _).mp hrun
  exact of_decide_eq_true hp (hall _ _ _ {} 0 _ s ⟨Keyed.nil, Keyed.nil⟩ hs)

/-- A login that has read the row before locks the account, and the lock expires. -/
example : (run (step { sampleConfig with maxLoginAttempts := 1 } sampleVerify fun _ t => t) (start {} 0)
    [sampleRegister 0, .loginRead sampleEmail [8] 1, .loginVerify 0, .disable [1] 2, .loginFail 0,
      .loginRead sampleEmail [7] 61, .loginUnlock 0]).any (fun s =>
        statusOf s.tables [1] = some .active ∧ (watch s).disabled = [[1]]) = true := by
  decide +kernel

end Cortrix.Auth.DisabledAccounts
