import Cortrix.Auth.AuthService

/-!
# The login lock

A `Login` reads the counter in one statement and writes it back, plus one, in another. Two that overlap write the same
value, so more wrong passwords are tried than the counter says; and `Enable` makes an account active without clearing
`locked_until`.

* `fails log id` : the wrong passwords of an account since its counter last started anew;
* `Keeps` : a wrong password is checked against a counter that has not moved since it was read, by no other login whose
  write is still due, and no account is enabled before its lock ends; then every state is `Bounded`
  (`bounded_of_keeps`).
-/

namespace Cortrix.Auth.LoginLock
open Lib

def tally (id : Bytes) (n : Nat) : Event → Nat
  | .checked u (some false) _ => if u = id then n + 1 else n
  | .reset u | .enabled u => if u = id then 0 else n
  | _ => n

/-- The checks an account has failed since the last event that resets its counter. -/
def fails (log : List Event) (id : Bytes) : Nat := log.foldl (tally id) 0

/-- A `Login` that started under a lock has reached the check. -/
def Early : Event → Prop
  | .checked _ _ lockedAtStart => lockedAtStart = true
  | _ => False

def Bounded (cfg : Config) (s : State) : Prop :=
  (∀ id, (fails s.log id : Int) ≤ cfg.maxLoginAttempts) ∧ ∀ e ∈ s.log, ¬ Early e

def Unlocked (u : User) : Prop := u.status = .active ∨ u.lockedUntil = none

instance (u : User) : Decidable (Unlocked u) := inferInstanceAs (Decidable (_ ∨ _))

def Keeps (verify : Bytes → Bytes → Option Bool) (s : State) : Act → Prop
  | .loginVerify i => ∀ c ∈ s.logins[i]?, verify c.password c.passwordHash = some false →
    (∀ u ∈ s.tables.users, u.id = c.userId → Unlocked u ∧ u.loginAttempts ≤ c.attempts) ∧
    ∀ d ∈ s.logins, d.userId = c.userId → d.pc ≠ .fail
  | .enable id now => ∀ u ∈ s.tables.users, u.id = id → ∀ lockedUntil ∈ u.lockedUntil, lockedUntil ≤ now
  | .resetCommit i => ∀ c ∈ s.resets[i]?, StaysLiteral c.email
  | _ => True

instance (verify : Bytes → Bytes → Option Bool) (s : State) : ∀ a, Decidable (Keeps verify s a)
  | .loginVerify i => inferInstanceAs (Decidable (∀ c ∈ s.logins[i]?, _ → (∀ u ∈ s.tables.users, _ → _) ∧ _))
  | .enable _ _ => inferInstanceAs (Decidable (∀ u ∈ s.tables.users, _ → ∀ lockedUntil ∈ u.lockedUntil, _))
  | .resetCommit i => inferInstanceAs (Decidable (∀ c ∈ s.resets[i]?, _))
  | .register .. | .loginRead .. | .loginUnlock _ | .loginFail _ | .loginSucceed _ | .loginIssue ..
  | .requestPasswordReset .. | .resetCheck .. | .verifyEmail .. | .refreshLookup .. | .refreshUser _ | .disable ..
  | .update .. => .isTrue trivial

variable {s s' : State} {cfg : Config} {verify : Bytes → Bytes → Option Bool} {other : Bytes → Tables → Tables}
  {id : Bytes} {c : LoginCall}

/-! ## The tally -/

theorem fails_append (log : List Event) (e : Event) (id : Bytes) :
    fails (log ++ [e]) id = tally id (fails log id) e := by
  simp [fails]

/-! ## The invariant -/

structure Sound (s : State) (c : LoginCall) : Prop where
  attempts : 0 ≤ c.attempts
  start : c.lockedAtStart = false
  row : ∃ u ∈ s.tables.users, u.id = c.userId
  /-- Its write will count every wrong password. -/
  due : c.pc = .fail → (fails s.log c.userId : Int) ≤ c.attempts + 1

structure Inv (cfg : Config) (s : State) : Prop where
  schema : Schema s.tables
  bounded : Bounded cfg s
  attempts : ∀ u ∈ s.tables.users, 0 ≤ u.loginAttempts
  active : ∀ u ∈ s.tables.users, u.status = .active → ∀ lockedUntil ∈ u.lockedUntil, lockedUntil ≤ s.clock
  /-- The counter of an account that is not locked counts its wrong passwords, but for a write that is due. -/
  counted : ∀ u ∈ s.tables.users, Unlocked u → (∀ d ∈ s.logins, d.userId = u.id → d.pc ≠ .fail) →
    (fails s.log u.id : Int) < cfg.maxLoginAttempts ∧ (fails s.log u.id : Int) ≤ u.loginAttempts
  unknown : ∀ id, (∀ u ∈ s.tables.users, u.id ≠ id) → fails s.log id = 0
  logins : ∀ c ∈ s.logins, Sound s c

theorem Inv.move (h : Inv cfg s) (hschema : Schema s'.tables)
    (hrow : ∀ u' ∈ s'.tables.users, ∃ u ∈ s.tables.users, u.id = u'.id ∧ u'.loginAttempts = u.loginAttempts ∧
      u'.lockedUntil = u.lockedUntil ∧ (u'.status = .active → u.status = .active))
    (hids : ∀ u ∈ s.tables.users, ∃ u' ∈ s'.tables.users, u'.id = u.id)
    (hfails : ∀ id, fails s'.log id = fails s.log id) (hearly : ∀ e ∈ s'.log, ¬ Early e) (hclock : s.clock ≤ s'.clock)
    (hlogins : ∀ c ∈ s'.logins, Sound s c) (hdue : ∀ d ∈ s.logins, d.pc = .fail → d ∈ s'.logins) : Inv cfg s' where
  schema := hschema
  bounded := ⟨fun id => hfails id ▸ h.bounded.1 id, hearly⟩
  attempts u' hu' := by
    obtain ⟨u, hu, -, hattempts, -⟩ := hrow u' hu'
    exact hattempts ▸ h.attempts u hu
  active u' hu' hactive t ht := by
    obtain ⟨u, hu, -, -, hlocked, hstatus⟩ := hrow u' hu'
    exact (h.active u hu (hstatus hactive) t (hlocked ▸ ht)).trans hclock
  counted u' hu' hunlocked hnone := by
    obtain ⟨u, hu, hid, hattempts, hlocked, hstatus⟩ := hrow u' hu'
    have hu_unlocked : Unlocked u := hunlocked.imp hstatus fun hlock => hlocked ▸ hlock
    have hcounted := h.counted u hu hu_unlocked fun d hd hdu hfail => hnone d (hdue d hd hfail) (hdu.trans hid) hfail
    rwa [hfails, ← hid, hattempts]
  unknown id hid := by
    rw [hfails]
    refine h.unknown id fun u hu heq => ?_
    obtain ⟨u', hu', hkey⟩ := hids u hu
    exact hid u' hu' (hkey.trans heq)
  logins c hc := by
    obtain ⟨hattempts, hstart, ⟨u, hu, hid⟩, hwrite⟩ := hlogins c hc
    obtain ⟨u', hu', hkey⟩ := hids u hu
    refine ⟨hattempts, hstart, ⟨u', hu', hkey.trans hid⟩, fun hfail => ?_⟩
    rw [hfails]
    exact hwrite hfail

theorem Inv.move_users (h : Inv cfg s) (husers : s'.tables.users = s.tables.users)
    (hfails : ∀ id, fails s'.log id = fails s.log id) (hearly : ∀ e ∈ s'.log, ¬ Early e) (hclock : s.clock ≤ s'.clock)
    (hlogins : ∀ c ∈ s'.logins, Sound s c) (hdue : ∀ d ∈ s.logins, d.pc = .fail → d ∈ s'.logins) : Inv cfg s' := by
  refine h.move (h.schema.of_users husers) ?_ ?_ hfails hearly hclock hlogins hdue
  · rw [husers]
    exact fun u hu => ⟨u, hu, rfl, rfl, rfl, id⟩
  · rw [husers]
    exact fun u hu => ⟨u, hu, rfl⟩

theorem Inv.quiet (h : Inv cfg s) (hq : Quiet s s') : Inv cfg s' := by
  obtain ⟨⟨p, f, hf, hlock, husers⟩, hlogins, -, hlog, hclock⟩ := hq
  refine h.move (h.schema.update husers hf) ?_ ?_ ?_ ?_ hclock ?_ ?_
  · rw [husers]
    intro u' hu'
    obtain ⟨u, hu, rfl⟩ := mem_updateWhere.mp hu'
    obtain ⟨hid, -⟩ := hf u
    obtain ⟨hstatus, hlocked, hattempts⟩ := hlock u
    by_cases hp : p u = true
    · rw [if_pos hp]
      exact ⟨u, hu, hid.symm, hattempts, hlocked, fun hactive => hstatus ▸ hactive⟩
    · rw [if_neg hp]
      exact ⟨u, hu, rfl, rfl, rfl, id⟩
  · rw [husers]
    intro u hu
    refine ⟨_, mem_updateWhere_of_mem hu, ?_⟩
    split
    · exact (hf u).1
    · rfl
  · rw [hlog]
    exact fun _ => rfl
  · rw [hlog]
    exact h.bounded.2
  · rw [hlogins]
    exact h.logins
  · rw [hlogins]
    exact fun d hd _ => hd

theorem Inv.emit (h : Inv cfg s) {e : Event} (he : ∀ id n, tally id n e = n) (hearly : ¬ Early e) :
    Inv cfg (s.emit e) := by
  refine h.move_users rfl (fun id => ?_) (fun e' he' => ?_) (Int.le_refl _) h.logins fun d hd _ => hd
  · exact (fails_append s.log e id).trans (he id _)
  · rcases List.mem_append.mp he' with he' | he'
    · exact h.bounded.2 e' he'
    · exact List.mem_singleton.mp he' ▸ hearly

theorem Inv.setLogin (h : Inv cfg s) {i : Nat} {d : LoginCall} (hc : s.logins[i]? = some c) (hpc : c.pc ≠ .fail)
    (hd : Sound s d) : Inv cfg { s with logins := s.logins.set i d } := by
  refine h.move_users rfl (fun _ => rfl) h.bounded.2 (Int.le_refl _) (fun x hx => ?_) fun x hx hfail => ?_
  · rcases List.mem_or_eq_of_mem_set hx with hx | rfl
    · exact h.logins x hx
    · exact hd
  · obtain ⟨j, hj⟩ := List.mem_iff_getElem?.mp hx
    have hij : i ≠ j := by
      rintro rfl
      rw [hc] at hj
      cases hj
      exact hpc hfail
    refine List.mem_of_getElem? (i := j) ?_
    rw [List.getElem?_set_ne hij]
    exact hj

theorem Inv.eraseLogin (h : Inv cfg s) {i : Nat} (hc : s.logins[i]? = some c) (hpc : c.pc ≠ .fail) :
    Inv cfg { s with logins := s.logins.eraseIdx i } := by
  refine h.move_users rfl (fun _ => rfl) h.bounded.2 (Int.le_refl _)
    (fun d hd => h.logins d (List.mem_of_mem_eraseIdx hd)) fun d hd hfail => ?_
  refine List.mem_eraseIdx_iff_getElem?.mpr ?_
  obtain ⟨j, hj⟩ := List.mem_iff_getElem?.mp hd
  refine ⟨j, ?_, hj⟩
  rintro rfl
  rw [hc] at hj
  cases hj
  exact hpc hfail

theorem Inv.restart (h : Inv cfg s) (hmax : 1 ≤ cfg.maxLoginAttempts) {g : Bytes} {f : User → User} {e : Event}
    (husers : s'.tables.users = updateWhere (fun u => u.id == g) f s.tables.users)
    (hf : ∀ u, (f u).id = u.id ∧ (f u).email = u.email) (hattempts : ∀ u ∈ s.tables.users, 0 ≤ (f u).loginAttempts)
    (hactive : ∀ u ∈ s.tables.users, u.id = g → ∀ lockedUntil ∈ (f u).lockedUntil, lockedUntil ≤ s.clock)
    (hlog : s'.log = s.log ++ [e]) (he : e = .reset g ∨ e = .enabled g) (hlogins : s'.logins = s.logins)
    (hclock : s'.clock = s.clock) : Inv cfg s' := by
  have hzero : fails s'.log g = 0 := by
    rw [hlog, fails_append]
    rcases he with rfl | rfl <;> simp [tally]
  have hother {id : Bytes} (hne : g ≠ id) : fails s'.log id = fails s.log id := by
    rw [hlog, fails_append]
    rcases he with rfl | rfl <;> simp [tally, hne]
  have hids {u : User} (hu : u ∈ s.tables.users) : ∃ u' ∈ s'.tables.users, u'.id = u.id := by
    rw [husers]
    refine ⟨_, mem_updateWhere_of_mem hu, ?_⟩
    split
    · exact (hf u).1
    · rfl
  constructor
  · exact h.schema.update husers hf
  · refine ⟨fun id => ?_, fun e' he' => ?_⟩
    · by_cases hid : g = id
      · rw [← hid, hzero]
        exact Int.le_trans (by decide) hmax
      · rw [hother hid]
        exact h.bounded.1 id
    · rw [hlog] at he'
      rcases List.mem_append.mp he' with he' | he'
      · exact h.bounded.2 e' he'
      · rw [List.mem_singleton.mp he']
        rcases he with rfl | rfl <;> exact id
  · rw [husers]
    intro u' hu'
    obtain ⟨u, hu, rfl⟩ := mem_updateWhere.mp hu'
    split
    · exact hattempts u hu
    · exact h.attempts u hu
  · rw [husers, hclock]
    intro u' hu'
    obtain ⟨u, hu, rfl⟩ := mem_updateWhere.mp hu'
    split
    · rename_i hg
      exact fun _ => hactive u hu (beq_iff_eq.mp hg)
    · exact h.active u hu
  · rw [husers, hlogins]
    intro u' hu'
    obtain ⟨u, hu, rfl⟩ := mem_updateWhere.mp hu'
    split
    · rename_i hg
      intro _ _
      rw [(hf u).1, beq_iff_eq.mp hg, hzero]
      exact ⟨hmax, hattempts u hu⟩
    · rename_i hg
      rw [hother fun heq => hg (beq_iff_eq.mpr heq.symm)]
      exact h.counted u hu
  · intro id hid
    by_cases heq : g = id
    · rw [← heq, hzero]
    · rw [hother heq]
      refine h.unknown id fun u hu hkey => ?_
      obtain ⟨u', hu', hkey'⟩ := hids hu
      exact hid u' hu' (hkey'.trans hkey)
  · rw [hlogins]
    intro c hc
    obtain ⟨hcount, hstart, ⟨u, hu, hid⟩, hdue⟩ := h.logins c hc
    obtain ⟨u', hu', hkey⟩ := hids hu
    refine ⟨hcount, hstart, ⟨u', hu', hkey.trans hid⟩, fun hfail => ?_⟩
    by_cases heq : g = c.userId
    · rw [← heq, hzero]
      exact Int.add_nonneg hcount (by decide)
    · rw [hother heq]
      exact hdue hfail

theorem Inv.failed (h : Inv cfg s) {i : Nat} (hc : s.logins[i]? = some c)
    (hrow : ∀ u ∈ s.tables.users, u.id = c.userId → Unlocked u ∧ u.loginAttempts ≤ c.attempts)
    (hnone : ∀ d ∈ s.logins, d.userId = c.userId → d.pc ≠ .fail) :
    Inv cfg ((s.emit (.checked c.userId (some false) c.lockedAtStart)).setPc i c .fail) := by
  obtain ⟨hattempts, hstart, ⟨u, hu, hid⟩, -⟩ := h.logins c (List.mem_of_getElem? hc)
  obtain ⟨hunlocked, hle⟩ := hrow u hu hid
  obtain ⟨hlt, hcount⟩ := h.counted u hu hunlocked fun d hd hdu => hnone d hd (hdu.trans hid)
  rw [hid] at hlt hcount
  have hfails (id : Bytes) : fails (s.log ++ [.checked c.userId (some false) c.lockedAtStart]) id =
      if c.userId = id then fails s.log id + 1 else fails s.log id := fails_append ..
  have hnew : { c with pc := .fail } ∈ s.logins.set i { c with pc := .fail } :=
    List.mem_set (List.getElem?_eq_some_iff.mp hc).1 _
  constructor
  · exact h.schema
  · refine ⟨fun id => ?_, fun e he => ?_⟩
    · have hbound := h.bounded.1 id
      show (fails (s.log ++ _) id : Int) ≤ _
      rw [hfails]
      split
      · rename_i heq
        rw [← heq]
        omega
      · exact hbound
    · rcases List.mem_append.mp he with he | he
      · exact h.bounded.2 e he
      · rw [List.mem_singleton.mp he]
        simp [Early, hstart]
  · exact h.attempts
  · exact h.active
  · intro v hv hvlocked hvnone
    have hne : c.userId ≠ v.id := fun heq => hvnone _ hnew heq rfl
    show (fails (s.log ++ _) v.id : Int) < _ ∧ (fails (s.log ++ _) v.id : Int) ≤ _
    rw [hfails, if_neg hne]
    refine h.counted v hv hvlocked fun d hd hdv hfail => ?_
    obtain ⟨j, hj⟩ := List.mem_iff_getElem?.mp hd
    have hij : i ≠ j := by
      rintro rfl
      rw [hc] at hj
      cases hj
      exact hne hdv
    refine hvnone d ?_ hdv hfail
    refine List.mem_of_getElem? (i := j) ?_
    show (s.logins.set i _)[j]? = some d
    rw [List.getElem?_set_ne hij]
    exact hj
  · intro id hunknown
    show fails (s.log ++ _) id = 0
    rw [hfails, if_neg fun heq => hunknown u hu (hid.trans heq)]
    exact h.unknown id hunknown
  · intro d hd
    rcases List.mem_or_eq_of_mem_set hd with hd | rfl
    · obtain ⟨hdattempts, hdstart, hdrow, hdue⟩ := h.logins d hd
      refine ⟨hdattempts, hdstart, hdrow, fun hfail => ?_⟩
      show (fails (s.log ++ _) d.userId : Int) ≤ _
      rw [hfails, if_neg fun heq => hnone d hd heq.symm hfail]
      exact hdue hfail
    · refine ⟨hattempts, hstart, ⟨u, hu, hid⟩, fun _ => ?_⟩
      show (fails (s.log ++ _) c.userId : Int) ≤ c.attempts + 1
      rw [hfails, if_pos rfl]
      omega

theorem Inv.loginFail (h : Inv cfg s) {i : Nat} (hc : s.logins[i]? = some c) (hpc : c.pc = .fail) {f : User → User}
    (hf : f = fun u =>
      if cfg.maxLoginAttempts ≤ c.attempts + 1 then
        { u with status := .locked, loginAttempts := c.attempts + 1, lockedUntil := some (c.now + cfg.lockoutDuration),
                 updatedAt := c.now }
      else { u with loginAttempts := c.attempts + 1, updatedAt := c.now }) :
    Inv cfg { s.updateUser c.userId f with logins := s.logins.eraseIdx i } := by
  obtain ⟨hattempts, -, -, hdue⟩ := h.logins c (List.mem_of_getElem? hc)
  have hcount := hdue hpc
  have hkeys (u : User) : (f u).id = u.id ∧ (f u).email = u.email := by
    rw [hf]
    split <;> exact ⟨rfl, rfl⟩
  have hnew (u : User) : (f u).loginAttempts = c.attempts + 1 := by
    rw [hf]
    dsimp only
    split <;> rfl
  constructor
  · exact h.schema.update rfl hkeys
  · exact h.bounded
  · intro u' hu'
    obtain ⟨u, hu, rfl⟩ := mem_updateWhere.mp hu'
    split
    · rw [hnew]
      exact Int.add_nonneg hattempts (by decide)
    · exact h.attempts u hu
  · intro u' hu'
    obtain ⟨u, hu, rfl⟩ := mem_updateWhere.mp hu'
    split
    · rw [hf]
      split
      · intro hactive
        cases hactive
      · exact h.active u hu
    · exact h.active u hu
  · intro u' hu'
    obtain ⟨u, hu, rfl⟩ := mem_updateWhere.mp hu'
    split
    · rename_i hid
      rw [(hkeys u).1, hnew, beq_iff_eq.mp hid]
      intro hunlocked _
      refine ⟨lt_of_le_of_lt hcount ?_, hcount⟩
      by_contra hmax
      -- at the limit the write locks the account
      rw [hf] at hunlocked
      simp only [if_pos (not_lt.mp hmax)] at hunlocked
      rcases hunlocked with hactive | hnone
      · cases hactive
      · cases hnone
    · rename_i hid
      intro hunlocked hnone
      refine h.counted u hu hunlocked fun d hd hdu hfail => ?_
      obtain ⟨j, hj⟩ := List.mem_iff_getElem?.mp hd
      refine hnone d (List.mem_eraseIdx_iff_getElem?.mpr ⟨j, ?_, hj⟩) hdu hfail
      rintro rfl
      rw [hc] at hj
      cases hj
      exact hid (beq_iff_eq.mpr hdu.symm)
  · intro id hunknown
    refine h.unknown id fun u hu heq => ?_
    have hmem := mem_updateWhere_of_mem (p := fun v : User => v.id == c.userId) (f := f) hu
    refine hunknown _ hmem ?_
    split
    · exact (hkeys u).1.trans heq
    · exact heq
  · intro d hd
    obtain ⟨hdattempts, hdstart, ⟨u, hu, hid⟩, hddue⟩ := h.logins d (List.mem_of_mem_eraseIdx hd)
    refine ⟨hdattempts, hdstart, ⟨_, mem_updateWhere_of_mem hu, ?_⟩, hddue⟩
    split
    · exact (hkeys u).1.trans hid
    · exact hid

/-! ## The steps -/

theorem Inv.loginStep (h : Inv cfg s) (hmax : 1 ≤ cfg.maxLoginAttempts) {i : Nat} {a : Act}
    (hc : s.logins[i]? = some c)
    (hcheck : ∀ j, a = .loginVerify j → verify c.password c.passwordHash = some false →
      (∀ u ∈ s.tables.users, u.id = c.userId → Unlocked u ∧ u.loginAttempts ≤ c.attempts) ∧
      ∀ d ∈ s.logins, d.userId = c.userId → d.pc ≠ .fail)
    (hstep : loginStep cfg verify s i c a = some s') : Inv cfg s' := by
  obtain ⟨hattempts, hstart, ⟨u, hu, hid⟩, -⟩ := h.logins c (List.mem_of_getElem? hc)
  unfold Auth.loginStep at hstep
  split at hstep
  · split_ifs at hstep with hpc
    cases hstep
    have hrestart : Inv cfg ((s.updateUser c.userId fun u =>
        { u with status := .active, loginAttempts := 0, lockedUntil := none, updatedAt := c.now }).emit
          (.reset c.userId)) :=
      h.restart hmax rfl (fun _ => ⟨rfl, rfl⟩) (fun _ _ => Int.le_refl _) (by simp) rfl (.inl rfl) rfl rfl
    refine hrestart.setLogin (d := { c with attempts := 0, pc := .verify }) hc (by simp [hpc]) ?_
    refine ⟨Int.le_refl _, hstart, ⟨_, mem_updateWhere_of_mem hu, ?_⟩, by simp⟩
    split <;> exact hid
  · rename_i j
    split_ifs at hstep with hpc
    have hsame (pc : LoginPc) (hne : pc ≠ .fail) : Sound s { c with pc } :=
      ⟨hattempts, hstart, ⟨u, hu, hid⟩, fun hfail => absurd hfail hne⟩
    have hne : c.pc ≠ .fail := by simp [hpc]
    have hearly (passed : Option Bool) : ¬ Early (.checked c.userId passed c.lockedAtStart) := by simp [Early, hstart]
    split at hstep <;> rename_i hverify <;> cases hstep <;> rw [hverify]
    · exact (h.eraseLogin hc hne).emit (fun _ _ => rfl) (hearly none)
    · obtain ⟨hrow, hnone⟩ := hcheck j rfl hverify
      exact h.failed hc hrow hnone
    · exact (h.setLogin hc hne (hsame .succeed (by simp))).emit (fun _ _ => rfl) (hearly (some true))
  · split_ifs at hstep with hpc
    cases hstep
    exact h.loginFail hc hpc rfl
  · split_ifs at hstep with hpc
    cases hstep
    have hrestart : Inv cfg ((s.updateUser c.userId fun u =>
        { u with loginAttempts := 0, lockedUntil := none, updatedAt := c.now }).emit (.reset c.userId)) :=
      h.restart hmax rfl (fun _ => ⟨rfl, rfl⟩) (fun _ _ => Int.le_refl _) (by simp) rfl (.inl rfl) rfl rfl
    refine hrestart.setLogin (d := { c with pc := .issue }) hc (by simp [hpc]) ?_
    refine ⟨hattempts, hstart, ⟨_, mem_updateWhere_of_mem hu, ?_⟩, by simp⟩
    split <;> exact hid
  · split_ifs at hstep with hpc
    have herase := h.eraseLogin hc (by simp [hpc])
    dsimp only at hstep
    split at hstep <;> cases hstep
    · exact herase
    · rename_i refreshTokens _
      have hinsert : Inv cfg { s with tables := { s.tables with refreshTokens }, logins := s.logins.eraseIdx i } :=
        herase.move_users rfl (fun _ => rfl) h.bounded.2 (Int.le_refl _) herase.logins fun _ hd _ => hd
      exact hinsert.emit (fun _ _ => rfl) id
  · cases hstep

theorem Inv.register (h : Inv cfg s) (hmax : 1 ≤ cfg.maxLoginAttempts)
    (id email password passwordHash displayName : Bytes) (now : Int) :
    Inv cfg (register cfg s id email password passwordHash displayName now) := by
  rcases register_cases cfg s id email password passwordHash displayName now with
    hr | ⟨u, hactive, hlocked, hattempts, hfree, hr⟩ <;> rw [hr]
  · exact h
  · have hzero : fails s.log u.id = 0 := h.unknown u.id fun v hv => (hfree v hv).1
    constructor
    · exact ⟨keyed_append.mpr ⟨h.schema.ids, fun v hv => (hfree v hv).1⟩,
        keyed_append.mpr ⟨h.schema.emails, fun v hv => (hfree v hv).2⟩⟩
    · exact h.bounded
    · intro v hv
      rcases List.mem_append.mp hv with hv | hv
      · exact h.attempts v hv
      · rw [List.mem_singleton.mp hv, hattempts]
    · intro v hv
      rcases List.mem_append.mp hv with hv | hv
      · exact h.active v hv
      · rw [List.mem_singleton.mp hv, hlocked]
        simp
    · intro v hv
      rcases List.mem_append.mp hv with hv | hv
      · exact h.counted v hv
      · rw [List.mem_singleton.mp hv]
        intro _ _
        show (fails s.log u.id : Int) < _ ∧ (fails s.log u.id : Int) ≤ _
        rw [hzero, hattempts]
        exact ⟨hmax, Int.le_refl _⟩
    · exact fun id hunknown => h.unknown id fun v hv => hunknown v (List.mem_append_left _ hv)
    · intro c hc
      obtain ⟨hcount, hstart, ⟨v, hv, hid⟩, hdue⟩ := h.logins c hc
      exact ⟨hcount, hstart, ⟨v, List.mem_append_left _ hv, hid⟩, hdue⟩

theorem Inv.addLogin (h : Inv cfg s) {c : LoginCall} (hc : Sound s c) :
    Inv cfg { s with logins := s.logins ++ [c] } := by
  refine h.move_users rfl (fun _ => rfl) h.bounded.2 (Int.le_refl _) (fun d hd => ?_) fun d hd _ =>
    List.mem_append_left _ hd
  rcases List.mem_append.mp hd with hd | hd
  · exact h.logins d hd
  · rw [List.mem_singleton.mp hd]
    exact hc

theorem Inv.started (h : Inv cfg s) (userId : Bytes) :
    Inv cfg ({ s with nextCall := s.nextCall + 1 }.emit (.started s.nextCall userId)) := by
  have hnext : Inv cfg { s with nextCall := s.nextCall + 1 } :=
    h.move_users rfl (fun _ => rfl) h.bounded.2 (Int.le_refl _) h.logins fun _ hd _ => hd
  exact hnext.emit (fun _ _ => rfl) id

theorem Inv.loginRead (h : Inv cfg s) (email password : Bytes) : Inv cfg (loginRead s email password s.clock) := by
  unfold Auth.loginRead
  split
  · exact h
  · rename_i u hu
    have hmem := (lookup_eq_some hu).1
    have hstarted := h.started u.id
    dsimp only
    split
    · exact hstarted
    · split
      · exact hstarted
      · rename_i hexpired
        refine hstarted.addLogin ⟨h.attempts u hmem, ?_, ⟨u, hmem, rfl⟩, by simp⟩
        cases hlocked : u.lockedUntil with
        | none => rfl
        | some lockedUntil => simpa [hlocked] using hexpired
    · rename_i hactive
      refine hstarted.addLogin ⟨h.attempts u hmem, ?_, ⟨u, hmem, rfl⟩, by simp⟩
      cases hlocked : u.lockedUntil with
      | none => rfl
      | some lockedUntil => simpa using h.active u hmem hactive lockedUntil hlocked

theorem Inv.refreshUser (h : Inv cfg s) (i : Nat) (sub : Bytes) : Inv cfg (refreshUser s i sub) := by
  have herase : Inv cfg { s with refreshes := s.refreshes.eraseIdx i } :=
    h.move_users rfl (fun _ => rfl) h.bounded.2 (Int.le_refl _) h.logins fun _ hd _ => hd
  have hstarted := herase.started sub
  unfold Auth.refreshUser
  split
  · exact hstarted
  · split
    · exact hstarted.emit (fun _ _ => rfl) id
    · exact hstarted

theorem Inv.disable (h : Inv cfg s) (id : Bytes) (now : Int) :
    Inv cfg (setStatus s id .disabled (.disabled id) now) := by
  unfold setStatus
  split
  · exact h
  · refine Inv.emit ?_ (fun _ _ => rfl) (by simp [Early])
    refine h.move (h.schema.update rfl fun _ => ⟨rfl, rfl⟩) ?_ ?_ (fun _ => rfl) h.bounded.2 (Int.le_refl _) ?_
      fun _ hd _ => hd
    · intro u' hu'
      obtain ⟨u, hu, rfl⟩ := mem_updateWhere.mp hu'
      refine ⟨u, hu, ?_⟩
      split
      · exact ⟨rfl, rfl, rfl, fun hactive => by cases hactive⟩
      · exact ⟨rfl, rfl, rfl, fun hactive => hactive⟩
    · intro u hu
      refine ⟨_, mem_updateWhere_of_mem hu, ?_⟩
      split <;> rfl
    · exact h.logins

theorem Inv.enable (h : Inv cfg s) (hmax : 1 ≤ cfg.maxLoginAttempts) (id : Bytes)
    (hk : ∀ u ∈ s.tables.users, u.id = id → ∀ lockedUntil ∈ u.lockedUntil, lockedUntil ≤ s.clock) :
    Inv cfg (setStatus s id .active (.enabled id) s.clock) := by
  unfold setStatus
  split
  · exact h
  · exact h.restart hmax rfl (fun _ => ⟨rfl, rfl⟩) (fun u hu => h.attempts u hu) hk rfl (.inr rfl) rfl rfl

theorem Inv.resetCommit (h : Inv cfg s) (hmax : 1 ≤ cfg.maxLoginAttempts) {i : Nat} {c : ResetCall}
    (hliteral : StaysLiteral c.email) : Inv cfg (resetCommit other s i c) := by
  have husers : (Auth.resetCommit other s i c).tables.users =
      (resetPassword c.email c.passwordHash c.now s.tables).users := revokeTokens_users hliteral other _
  have hlog : (Auth.resetCommit other s i c).log = s.log ++
      ((lookup User.email (cText c.email) s.tables.users).map fun u => Event.reset u.id).toList := rfl
  cases hv : lookup User.email (cText c.email) s.tables.users with
  | none =>
    rw [hv] at hlog
    have hsame : (Auth.resetCommit other s i c).tables.users = s.tables.users :=
      husers.trans (updateWhere_of_none fun u hu => beq_eq_false_iff_ne.mpr (lookup_eq_none.mp hv u hu))
    have hlog' : (Auth.resetCommit other s i c).log = s.log := hlog.trans (List.append_nil _)
    refine h.move_users hsame (fun id => ?_) ?_ (Int.le_refl _) h.logins fun _ hd _ => hd
    · rw [hlog']
    · rw [hlog']
      exact h.bounded.2
  | some v =>
    rw [hv] at hlog
    refine h.restart hmax (husers.trans (h.schema.updateWhere_email hv _)) (fun _ => ⟨rfl, rfl⟩)
      (fun _ _ => Int.le_refl _) (by simp) hlog (.inl rfl) rfl rfl

theorem Inv.step (h : Inv cfg s) (hmax : 1 ≤ cfg.maxLoginAttempts) {a : Act} (hk : Keeps verify s a)
    (hstep : step cfg verify other s a = some s') : Inv cfg s' := by
  have clocked {now : Int} (hnow : s.clock ≤ now) : Inv cfg { s with clock := now } :=
    h.move_users rfl (fun _ => rfl) h.bounded.2 hnow h.logins fun _ hd _ => hd
  cases a with
  | register id email password passwordHash displayName now =>
    obtain ⟨hnow, rfl⟩ := at_map_eq_some.mp hstep
    exact (clocked hnow).register hmax ..
  | loginRead email password now =>
    obtain ⟨hnow, rfl⟩ := at_map_eq_some.mp hstep
    exact (clocked hnow).loginRead email password
  | loginUnlock i | loginFail i | loginSucceed i | loginIssue i jti tokenHash expiresAt =>
    obtain ⟨c, hc, hstep⟩ := Option.bind_eq_some_iff.mp hstep
    exact h.loginStep hmax hc (by simp) hstep
  | loginVerify i =>
    obtain ⟨c, hc, hstep⟩ := Option.bind_eq_some_iff.mp hstep
    exact h.loginStep hmax hc (fun _ _ => hk c hc) hstep
  | requestPasswordReset email code now | resetCheck email code newPassword newHash now | verifyEmail email code now
  | refreshLookup jti tokenHash sub now | update id u now => exact h.quiet (quiet_of_step rfl hstep)
  | resetCommit i =>
    obtain ⟨c, hc, rfl⟩ := Option.map_eq_some_iff.mp hstep
    exact h.resetCommit hmax (hk c hc)
  | refreshUser i =>
    obtain ⟨sub, -, rfl⟩ := Option.map_eq_some_iff.mp hstep
    exact h.refreshUser i sub
  | disable id now =>
    obtain ⟨hnow, rfl⟩ := at_map_eq_some.mp hstep
    exact (clocked hnow).disable id now
  | enable id now =>
    obtain ⟨hnow, rfl⟩ := at_map_eq_some.mp hstep
    exact (clocked hnow).enable hmax id hk

def start (clock : Int) : State := { clock }

theorem inv_start (hmax : 1 ≤ cfg.maxLoginAttempts) (clock : Int) : Inv cfg (start clock) where
  schema := ⟨Keyed.nil, Keyed.nil⟩
  bounded := ⟨fun _ => (Int.le_of_lt Int.zero_lt_one).trans hmax, by simp [start]⟩
  attempts := by simp [start]
  active := by simp [start]
  counted := by simp [start]
  unknown _ _ := rfl
  logins := by simp [start]

/-! ## Runs -/

/-- The lock holds in every run whose wrong passwords are checked one at a time. -/
theorem bounded_of_keeps (cfg : Config) (verify : Bytes → Bytes → Option Bool) (other : Bytes → Tables → Tables)
    (hmax : 1 ≤ cfg.maxLoginAttempts) (clock : Int) {as : List Act} {s : State}
    (hkeeps : Along (step cfg verify other) (Keeps verify) (start clock) as)
    (h : run (step cfg verify other) (start clock) as = some s) : Bounded cfg s :=
  (run_inv (I := Inv cfg) (Q := Keeps verify) (fun hinv hk hstep => hinv.step hmax hk hstep) (inv_start hmax clock)
    hkeeps h).bounded

/-- Two wrong passwords, one after the other, lock the account; after the lock a wrong password and the right one. -/
def lockRun : List Act :=
  [sampleRegister 0, .loginRead sampleEmail [8] 1, .loginVerify 0, .loginFail 0, .loginRead sampleEmail [9] 2,
    .loginVerify 0, .loginFail 0, .loginRead sampleEmail [7] 3, .loginRead sampleEmail [8] 62, .loginUnlock 0,
    .loginVerify 0, .loginFail 0, .loginRead sampleEmail [7] 63, .loginVerify 0, .loginSucceed 0,
    .loginRead sampleEmail [9] 64, .loginVerify 1]

theorem bounded_of_keeps_lockRun :
    ∃ s, run (step sampleConfig sampleVerify fun _ t => t) (start 0) lockRun = some s ∧
      s.log.contains (.checked [1] (some false) false) = true ∧ fails s.log [1] = 1 ∧ Bounded sampleConfig s := by
  have hrun : (run (step sampleConfig sampleVerify fun _ t => t) (start 0) lockRun).any (fun s =>
      s.log.contains (.checked [1] (some false) false) && decide (fails s.log [1] = 1)) = true := by
    decide +kernel
  obtain ⟨s, hs, hp⟩ := (Option.any_eq_true _ _).mp hrun
  obtain ⟨hlog, hfails⟩ := Bool.and_eq_true_iff.mp hp
  have hkeeps : Along (step sampleConfig sampleVerify fun _ t => t) (Keeps sampleVerify) (start 0) lockRun := by
    decide +kernel
  exact ⟨s, hs, hlog, of_decide_eq_true hfails,
    bounded_of_keeps sampleConfig sampleVerify (fun _ t => t) (by decide) 0 hkeeps hs⟩

/-- Three logins that overlap: each reads the counter before another writes it. -/
def overlapRun : List Act :=
  [sampleRegister 0, .loginRead sampleEmail [8] 1, .loginRead sampleEmail [9] 1, .loginRead sampleEmail [10] 1,
    .loginVerify 0, .loginVerify 1, .loginVerify 2]

/-- Three wrong passwords are checked where two are allowed. -/
theorem lock_outrun :
    ¬ ∀ (cfg : Config) (verify : Bytes → Bytes → Option Bool) (other : Bytes → Tables → Tables) (clock : Int)
      (as : List Act) (s : State), 1 ≤ cfg.maxLoginAttempts → 0 < cfg.lockoutDuration →
      run (step cfg verify other) (start clock) as = some s → Bounded cfg s := by
  intro hall
  have hrun : (run (step sampleConfig sampleVerify fun _ t => t) (start 0) overlapRun).any (fun s =>
      decide (fails s.log [1] = 3)) = true := by
    decide +kernel
  obtain ⟨s, hs, hp⟩ := (Option.any_eq_true _ _).mp hrun
  have hbound := (hall sampleConfig sampleVerify (fun _ t => t) 0 _ s (by decide) (by decide) hs).1 [1]
  rw [of_decide_eq_true hp] at hbound
  exact absurd hbound (by decide)

/-- `Enable` leaves `locked_until` ahead: the next login reaches the check. -/
example : (run (step { sampleConfig with maxLoginAttempts := 1 } sampleVerify fun _ t => t) (start 0)
    [sampleRegister 0, .loginRead sampleEmail [8] 1, .loginVerify 0, .loginFail 0, .enable [1] 2,
      .loginRead sampleEmail [8] 3, .loginVerify 0]).any (fun s =>
        s.log.contains (.checked [1] (some false) true)) = true := by
  decide +kernel

end Cortrix.Auth.LoginLock
