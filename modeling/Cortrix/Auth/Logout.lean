import Cortrix.Auth.AuthTables
import Cortrix.Auth.Jwt
import Cortrix.Lib.Run

/-!
# Logout is final

A logged-out token is known by the hash of its spelling, in a set in memory and in a table. `CleanupExpired` clears the
set and loads it again from the table, in two steps, and `Logout` inserts into the two in two steps.

* `step` : the statements of `Login`, `RefreshAccessToken`, `ValidateAccessToken`, `Logout`, `CleanupExpired` and of a
  restart, over any codec and hash; the SQL statements succeed;
* `Watch` : what the log tells: the tokens logged out, the refresh tokens they take with them, whether one of them was
  accepted after all;
* `Keeps` : the spellings and the interleavings for which a logout is final (`final_of_keeps`).
-/

namespace Cortrix.Auth.Logout
open Lib

structure BlacklistRow where
  tokenHash : Bytes
  expiresAt : Int

inductive LogoutPc
  /-- The hash is in the set. -/
  | row
  /-- The row is in the table. -/
  | revoke
  deriving DecidableEq

structure LogoutCall where
  token : Bytes
  payload : Payload
  pc : LogoutPc := .row

inductive CleanupPc
  | clear
  | load
  deriving DecidableEq

inductive Event
  | issued (token : Bytes) (p : Payload)
  | loggedOut (token : Bytes) (p : Payload)
  /-- `ValidateAccessToken` has accepted the token. -/
  | validated (token : Bytes)
  /-- `RefreshAccessToken` has accepted the token. -/
  | refreshed (token : Bytes)
  deriving DecidableEq

structure State where
  users : List User := []
  refreshTokens : List RefreshToken := []
  blacklistRows : List BlacklistRow := []
  tokenBlacklist : List Bytes := []
  logouts : List LogoutCall := []
  cleanups : List CleanupPc := []
  /-- The set has been cleared and not loaded since. -/
  cleared : Bool := false
  clock : Nat := 0
  log : List Event := []

inductive Act
  | login (token : Bytes) (now : Nat)
  | refreshAccessToken (token : Bytes) (now : Nat)
  | validateAccessToken (token : Bytes) (now : Nat)
  | logout (token : Bytes) (now : Nat)
  | logoutRow (i : Nat)
  | logoutRevoke (i : Nat)
  | cleanupExpired (now : Nat)
  | cleanupClear (i : Nat)
  | cleanupLoad (i : Nat) (now : Nat)
  | restart (now : Nat)

def State.emit (s : State) (e : Event) : State := { s with log := s.log ++ [e] }

/-- Seconds since the epoch; the clock never goes back. -/
def State.at (s : State) (now : Nat) : Option State := if s.clock ≤ now then some { s with clock := now } else none

variable (cd : Codec) (hash : Bytes → Bytes)

/-- The INSERT of the refresh token; the token is one the service has made, with a lifetime ahead. -/
def login (s : State) (token : Bytes) (now : Nat) : State :=
  match payloadOf cd token with
  | .error _ => s
  | .ok p =>
    if p.isRefresh && decide ((now : Int) < p.exp) then
      let row : RefreshToken :=
        { jti := cText p.jti, userId := cText p.sub, tokenHash := hash token, expiresAt := p.exp }
      match insertRow RefreshToken.jti row s.refreshTokens with
      | none => s
      | some refreshTokens => { s with refreshTokens }.emit (.issued token p)
    else s

def refreshAccessToken (s : State) (token : Bytes) (now : Nat) : State :=
  match decode cd token now with
  | .error _ => s
  | .ok p =>
    if !p.isRefresh then s
    else
      match lookup RefreshToken.jti (cText p.jti) s.refreshTokens with
      | none => s
      | some r =>
        if r.revoked || decide (r.expiresAt ≤ (now : Int)) || hash token != r.tokenHash then s
        else if (lookup User.id (cText p.sub) s.users).any fun u => decide (u.status = .active) then
          s.emit (.refreshed token)
        else s

def validateAccessToken (s : State) (token : Bytes) (now : Nat) : State :=
  match decode cd token now with
  | .error _ => s
  | .ok p =>
    if p.isRefresh then s
    else if s.tokenBlacklist.any fun h => decide (h = hash token) then s
    else s.emit (.validated token)

/-- A token that does not decode is logged out without a trace. -/
def logout (s : State) (token : Bytes) (now : Nat) : State :=
  match decode cd token now with
  | .error _ => s
  | .ok payload =>
    { s with tokenBlacklist := hash token :: s.tokenBlacklist, logouts := s.logouts ++ [{ token, payload }] }

def logoutRow (s : State) (i : Nat) (c : LogoutCall) : State :=
  let row : BlacklistRow := { tokenHash := hash c.token, expiresAt := c.payload.exp }
  { s with
    blacklistRows := (insertRow BlacklistRow.tokenHash row s.blacklistRows).getD s.blacklistRows
    logouts := s.logouts.set i { c with pc := .revoke } }

def logoutRevoke (s : State) (i : Nat) (c : LogoutCall) : State :=
  let live : RefreshToken → Bool := fun r => r.userId == cText c.payload.sub && !r.revoked
  let refreshTokens :=
    if c.payload.sid.isEmpty then s.refreshTokens
    else updateWhere live (fun r => { r with revoked := true }) s.refreshTokens
  { s with refreshTokens, logouts := s.logouts.eraseIdx i }.emit (.loggedOut c.token c.payload)

/-- `LoadBlacklist`: the rows that have not expired are added to the set. -/
def loadBlacklist (s : State) (now : Nat) : State :=
  let rows := s.blacklistRows.filter fun r => decide ((now : Int) < r.expiresAt)
  { s with tokenBlacklist := rows.map BlacklistRow.tokenHash ++ s.tokenBlacklist, cleared := false }

def cleanupExpired (s : State) (now : Nat) : State :=
  { s with
    blacklistRows := deleteWhere (fun r => decide (r.expiresAt < (now : Int))) s.blacklistRows
    refreshTokens := deleteWhere (fun r => decide (r.expiresAt < (now : Int))) s.refreshTokens
    cleanups := s.cleanups ++ [.clear] }

def step (s : State) : Act → Option State
  | .login token now => (s.at now).map fun s => login cd hash s token now
  | .refreshAccessToken token now => (s.at now).map fun s => refreshAccessToken cd hash s token now
  | .validateAccessToken token now => (s.at now).map fun s => validateAccessToken cd hash s token now
  | .logout token now => (s.at now).map fun s => logout cd hash s token now
  | .logoutRow i =>
    s.logouts[i]?.bind fun c => if c.pc = .row then some (logoutRow hash s i c) else none
  | .logoutRevoke i =>
    s.logouts[i]?.bind fun c => if c.pc = .revoke then some (logoutRevoke s i c) else none
  | .cleanupExpired now => (s.at now).map fun s => cleanupExpired s now
  | .cleanupClear i =>
    s.cleanups[i]?.bind fun pc =>
      if pc = .clear then some { s with tokenBlacklist := [], cleared := true, cleanups := s.cleanups.set i .load }
      else none
  | .cleanupLoad i now =>
    (s.at now).bind fun s => s.cleanups[i]?.bind fun pc =>
      if pc = .load then some { loadBlacklist s now with cleanups := s.cleanups.eraseIdx i } else none
  | .restart now =>
    (s.at now).map fun s => loadBlacklist { s with tokenBlacklist := [], logouts := [], cleanups := [] } now

/-! ## The property -/

structure Watch where
  issued : List (Bytes × Payload) := []
  out : List Bytes := []
  /-- Refresh tokens of a user who has logged out since they were issued. -/
  dead : List Bytes := []
  leaked : Bool := false

def signed (token : Bytes) : Option (Bytes × Bytes) := (segments token).toOption.map fun parts => (parts.1, parts.2.1)

def Watch.note (w : Watch) : Event → Watch
  | .issued token p => { w with issued := (token, p) :: w.issued }
  | .loggedOut token p =>
    { w with out := token :: w.out, dead := ((w.issued.filter fun x => x.2.sub = p.sub).map Prod.fst) ++ w.dead }
  | .validated token => if w.out.any fun t => decide (signed t = signed token) then { w with leaked := true } else w
  | .refreshed token => if w.dead.any fun t => decide (t = token) then { w with leaked := true } else w

def watch (s : State) : Watch := s.log.foldl Watch.note {}

/-- No token logged out, in whatever spelling, and no refresh token of its user has been accepted since. -/
def Kept (s : State) : Prop := (watch s).leaked = false

/-- A logged-out token comes in its own spelling, and not between a clear and the load behind it. A token logged out
has an expiry and a session; when its row goes into the table its hash is still in the set, or a load is due; and a
row that is there already is its own. -/
def Keeps (s : State) : Act → Prop
  | .validateAccessToken token now => (decode cd token now).isOk = true →
    ∀ t ∈ (watch s).out, signed t = signed token → token = t ∧ s.cleared = false
  | .logout token _ => ∀ p ∈ (payloadOf cd token).toOption, p.exp ≠ 0 ∧ p.sid ≠ []
  | .logoutRow i => ∀ c ∈ s.logouts[i]?, (s.cleared = true ∨ hash c.token ∈ s.tokenBlacklist) ∧
    ∀ r ∈ s.blacklistRows, r.tokenHash = hash c.token → r.expiresAt = c.payload.exp
  | _ => True

instance (s : State) : ∀ a, Decidable (Keeps cd hash s a)
  | .validateAccessToken token now =>
    inferInstanceAs (Decidable ((decode cd token now).isOk = true →
      ∀ t ∈ (watch s).out, signed t = signed token → token = t ∧ s.cleared = false))
  | .logout token _ => inferInstanceAs (Decidable (∀ p ∈ (payloadOf cd token).toOption, _ ∧ _))
  | .logoutRow i => inferInstanceAs (Decidable (∀ c ∈ s.logouts[i]?, _ ∧ ∀ r ∈ s.blacklistRows, _ → _))
  | .login .. | .refreshAccessToken .. | .logoutRevoke _ | .cleanupExpired _ | .cleanupClear _ | .cleanupLoad ..
  | .restart _ => .isTrue trivial

def start (users : List User) (clock : Nat) : State := { users, clock }

/-! ## The invariant -/

variable {cd : Codec} {hash : Bytes → Bytes} {s s' : State} {token t : Bytes} {p q : Payload} {c : LogoutCall}
  {now : Nat}

/-- A token that has expired, or has its row and, unless a load is due, its place in the set. -/
def Blocked (hash : Bytes → Bytes) (s : State) (token : Bytes) (p : Payload) : Prop :=
  p.exp ≤ s.clock ∨ (∃ r ∈ s.blacklistRows, r.tokenHash = hash token ∧ r.expiresAt = p.exp) ∧
    (s.cleared = true ∨ hash token ∈ s.tokenBlacklist)

structure Sound (cd : Codec) (hash : Bytes → Bytes) (s : State) (c : LogoutCall) : Prop where
  payload : payloadOf cd c.token = .ok c.payload
  exp : c.payload.exp ≠ 0
  sid : c.payload.sid ≠ []
  blocked : c.pc = .revoke → Blocked hash s c.token c.payload

/-- A refresh token has expired, or its row is there. -/
def HasRow (s : State) (p : Payload) (P : RefreshToken → Prop) : Prop :=
  p.exp < s.clock ∨ ∃ r ∈ s.refreshTokens, r.jti = cText p.jti ∧ r.expiresAt = p.exp ∧ P r

structure Inv (cd : Codec) (hash : Bytes → Bytes) (s : State) : Prop where
  kept : Kept s
  keyed : Keyed RefreshToken.jti s.refreshTokens
  out : ∀ t ∈ (watch s).out, ∃ p, payloadOf cd t = .ok p ∧ p.exp ≠ 0 ∧ Blocked hash s t p
  logouts : ∀ c ∈ s.logouts, Sound cd hash s c
  issued : ∀ x ∈ (watch s).issued, payloadOf cd x.1 = .ok x.2 ∧ x.2.exp ≠ 0 ∧
    HasRow s x.2 fun r => r.userId = cText x.2.sub
  dead : ∀ t ∈ (watch s).dead, ∃ p, payloadOf cd t = .ok p ∧ p.exp ≠ 0 ∧ HasRow s p fun r => r.revoked = true

theorem watch_emit (s : State) (e : Event) : watch (s.emit e) = (watch s).note e := by
  simp [watch, State.emit]

theorem Inv.frame (h : Inv cd hash s) (hwatch : watch s' = watch s) (hkeyed : Keyed RefreshToken.jti s'.refreshTokens)
    (hblocked : ∀ t p, Blocked hash s t p → Blocked hash s' t p) (hlogouts : ∀ c ∈ s'.logouts, Sound cd hash s' c)
    (hclock : s.clock ≤ s'.clock)
    (hrows : ∀ r ∈ s.refreshTokens, r.expiresAt < s'.clock ∨ ∃ r' ∈ s'.refreshTokens, r'.jti = r.jti ∧
      r'.expiresAt = r.expiresAt ∧ r'.userId = r.userId ∧ (r.revoked = true → r'.revoked = true)) :
    Inv cd hash s' := by
  have row {p : Payload} {P : RefreshToken → Prop} (hrow : HasRow s p P)
      (hP : ∀ r r' : RefreshToken, r'.userId = r.userId → (r.revoked = true → r'.revoked = true) → P r → P r') :
      HasRow s' p P := by
    rcases hrow with hexp | ⟨r, hr, hjti, hexp, hp⟩
    · exact .inl (by omega)
    · rcases hrows r hr with hexpired | ⟨r', hr', hjti', hexp', huser, hrevoked⟩
      · exact .inl (hexp ▸ hexpired)
      · exact .inr ⟨r', hr', hjti'.trans hjti, hexp'.trans hexp, hP r r' huser hrevoked hp⟩
  refine ⟨?_, hkeyed, ?_, hlogouts, ?_, ?_⟩
  · unfold Kept
    rw [hwatch]
    exact h.kept
  · rw [hwatch]
    intro t ht
    obtain ⟨p, hp, hexp, hb⟩ := h.out t ht
    exact ⟨p, hp, hexp, hblocked t p hb⟩
  · rw [hwatch]
    intro x hx
    obtain ⟨hp, hexp, hrow⟩ := h.issued x hx
    exact ⟨hp, hexp, row hrow fun r r' huser _ hr => huser.trans hr⟩
  · rw [hwatch]
    intro t ht
    obtain ⟨p, hp, hexp, hrow⟩ := h.dead t ht
    exact ⟨p, hp, hexp, row hrow fun r r' _ hrevoked hr => hrevoked hr⟩

theorem Inv.frame_rows (h : Inv cd hash s) (hwatch : watch s' = watch s) (hrefresh : s'.refreshTokens = s.refreshTokens)
    (hblocked : ∀ t p, Blocked hash s t p → Blocked hash s' t p) (hlogouts : ∀ c ∈ s'.logouts, Sound cd hash s' c)
    (hclock : s.clock ≤ s'.clock) : Inv cd hash s' := by
  refine h.frame hwatch (hrefresh ▸ h.keyed) hblocked hlogouts hclock fun r hr => .inr ⟨r, ?_, rfl, rfl, rfl, id⟩
  rw [hrefresh]
  exact hr

theorem Sound.mono (h : Sound cd hash s c) (hblocked : ∀ t p, Blocked hash s t p → Blocked hash s' t p) :
    Sound cd hash s' c :=
  ⟨h.payload, h.exp, h.sid, fun hpc => hblocked _ _ (h.blocked hpc)⟩

theorem Blocked.grow (h : Blocked hash s t p) (hclock : s.clock ≤ s'.clock)
    (hrows : ∀ r ∈ s.blacklistRows, r ∈ s'.blacklistRows) (hset : ∀ x ∈ s.tokenBlacklist, x ∈ s'.tokenBlacklist)
    (hcleared : s'.cleared = s.cleared) : Blocked hash s' t p := by
  rcases h with hexp | ⟨⟨r, hr, hhash, hexp⟩, hknown⟩
  · exact .inl (by omega)
  · rw [← hcleared] at hknown
    exact .inr ⟨⟨r, hrows r hr, hhash, hexp⟩, hknown.imp_right (hset _)⟩

theorem Inv.clocked (h : Inv cd hash s) (hnow : s.clock ≤ now) : Inv cd hash { s with clock := now } := by
  have hblocked (t : Bytes) (p : Payload) (hb : Blocked hash s t p) : Blocked hash { s with clock := now } t p :=
    hb.grow hnow (fun _ hr => hr) (fun _ hx => hx) rfl
  exact h.frame_rows rfl rfl hblocked (fun c hc => (h.logouts c hc).mono hblocked) hnow

/-! ## Tokens accepted -/

theorem Inv.emit (h : Inv cd hash s) {e : Event} (he : (watch s).note e = watch s) : Inv cd hash (s.emit e) :=
  h.frame_rows ((watch_emit s e).trans he) rfl (fun _ _ hb => hb) (fun c hc => (h.logouts c hc).mono fun _ _ hb => hb)
    (Nat.le_refl _)

theorem Inv.refreshAccessToken (h : Inv cd hash s) (token : Bytes) :
    Inv cd hash (refreshAccessToken cd hash s token s.clock) := by
  unfold Auth.Logout.refreshAccessToken
  split
  · exact h
  · rename_i p hp
    obtain ⟨hpayload, hfresh⟩ := decode_eq_ok.mp hp
    split
    · exact h
    · split
      · exact h
      · rename_i r hr
        split
        · exact h
        · rename_i hgood
          split
          · refine h.emit ?_
            obtain ⟨hmem, hjti⟩ := lookup_eq_some hr
            rw [Watch.note, if_neg]
            intro hany
            have hdead : token ∈ (watch s).dead := by simpa using hany
            obtain ⟨p', hp', hexp, hrow⟩ := h.dead token hdead
            cases hpayload.symm.trans hp'
            rcases hrow with hlt | ⟨r', hr', hjti', -, hrevoked⟩
            · exact hfresh ⟨hexp, hlt.le⟩
            · rw [h.keyed.eq_of_key hr' hmem (hjti'.trans hjti.symm)] at hrevoked
              simp [hrevoked] at hgood
          · exact h

theorem Inv.validateAccessToken (h : Inv cd hash s) (token : Bytes)
    (hk : Keeps cd hash s (.validateAccessToken token s.clock)) :
    Inv cd hash (validateAccessToken cd hash s token s.clock) := by
  unfold Auth.Logout.validateAccessToken
  split
  · exact h
  · rename_i p hp
    obtain ⟨hpayload, hfresh⟩ := decode_eq_ok.mp hp
    split
    · exact h
    · split
      · exact h
      · rename_i hset
        refine h.emit ?_
        rw [Watch.note, if_neg]
        intro hany
        obtain ⟨t, ht, hsigned⟩ := List.any_eq_true.mp hany
        obtain ⟨rfl, hcleared⟩ := hk (by rw [hp]; rfl) t ht (of_decide_eq_true hsigned)
        obtain ⟨p', hp', hexp, hblocked⟩ := h.out token ht
        cases hpayload.symm.trans hp'
        rcases hblocked with hle | ⟨-, hstale | hmem⟩
        · exact hfresh ⟨hexp, hle⟩
        · rw [hcleared] at hstale
          cases hstale
        · exact hset (List.any_eq_true.mpr ⟨_, hmem, decide_eq_true rfl⟩)

/-! ## Login and logout -/

theorem Inv.login (h : Inv cd hash s) (token : Bytes) : Inv cd hash (login cd hash s token s.clock) := by
  unfold Auth.Logout.login
  split
  · exact h
  · rename_i p hp
    split
    · rename_i hgood
      dsimp only
      split
      · exact h
      · rename_i refreshTokens hinsert
        have hlater : (s.clock : Int) < p.exp := by
          simp only [Bool.and_eq_true, decide_eq_true_eq] at hgood
          exact hgood.2
        have hkeyed := h.keyed.insertRow hinsert
        obtain ⟨-, rfl⟩ := insertRow_eq_some.mp hinsert
        have hrows : Inv cd hash { s with refreshTokens := s.refreshTokens ++
            [{ jti := cText p.jti, userId := cText p.sub, tokenHash := hash token, expiresAt := p.exp }] } :=
          h.frame rfl hkeyed (fun _ _ hb => hb) (fun c hc => (h.logouts c hc).mono fun _ _ hb => hb) (Nat.le_refl _)
            fun r hr => .inr ⟨r, List.mem_append_left _ hr, rfl, rfl, rfl, id⟩
        have hwatch := watch_emit { s with refreshTokens := s.refreshTokens ++
            [{ jti := cText p.jti, userId := cText p.sub, tokenHash := hash token, expiresAt := p.exp }] }
          (.issued token p)
        refine ⟨?_, hkeyed, ?_, fun c hc => (hrows.logouts c hc).mono fun _ _ hb => hb, ?_, ?_⟩
        · unfold Kept
          rw [hwatch]
          exact h.kept
        · rw [hwatch]
          exact hrows.out
        · rw [hwatch]
          intro x hx
          rcases List.mem_cons.mp hx with rfl | hx
          · have hexp : p.exp ≠ 0 := by omega
            exact ⟨hp, hexp, .inr ⟨_, List.mem_append_right _ (List.mem_singleton_self _), rfl, rfl, rfl⟩⟩
          · exact hrows.issued x hx
        · rw [hwatch]
          exact hrows.dead
    · exact h

theorem Inv.logout (h : Inv cd hash s) (token : Bytes) (hk : Keeps cd hash s (.logout token s.clock)) :
    Inv cd hash (logout cd hash s token s.clock) := by
  unfold Auth.Logout.logout
  split
  · exact h
  · rename_i payload hp
    have hpayload := (decode_eq_ok.mp hp).1
    obtain ⟨hexp, hsid⟩ := hk payload (by rw [hpayload]; rfl)
    have hblocked (t : Bytes) (p : Payload) (hb : Blocked hash s t p) :
        Blocked hash { s with tokenBlacklist := hash token :: s.tokenBlacklist,
                              logouts := s.logouts ++ [{ token, payload }] } t p :=
      hb.grow (Nat.le_refl _) (fun _ hr => hr) (fun _ hx => List.mem_cons_of_mem _ hx) rfl
    refine h.frame_rows rfl rfl hblocked (fun c hc => ?_) (Nat.le_refl _)
    rcases List.mem_append.mp hc with hc | hc
    · exact (h.logouts c hc).mono hblocked
    · rw [List.mem_singleton.mp hc]
      exact ⟨hpayload, hexp, hsid, fun hpc => by cases hpc⟩

theorem Inv.logoutRow (h : Inv cd hash s) {i : Nat} (hc : s.logouts[i]? = some c)
    (hknown : s.cleared = true ∨ hash c.token ∈ s.tokenBlacklist)
    (hown : ∀ r ∈ s.blacklistRows, r.tokenHash = hash c.token → r.expiresAt = c.payload.exp) :
    Inv cd hash (logoutRow hash s i c) := by
  obtain ⟨hpayload, hexp, hsid, -⟩ := h.logouts c (List.mem_of_getElem? hc)
  have hrows : ∀ r ∈ s.blacklistRows, r ∈ (Auth.Logout.logoutRow hash s i c).blacklistRows := by
    intro r hr
    unfold Auth.Logout.logoutRow
    dsimp only
    cases hinsert : insertRow BlacklistRow.tokenHash { tokenHash := hash c.token, expiresAt := c.payload.exp }
        s.blacklistRows with
    | none => exact hr
    | some rows =>
      obtain ⟨-, rfl⟩ := insertRow_eq_some.mp hinsert
      exact List.mem_append_left _ hr
  have hrow : ∃ r ∈ (Auth.Logout.logoutRow hash s i c).blacklistRows,
      r.tokenHash = hash c.token ∧ r.expiresAt = c.payload.exp := by
    cases hinsert : insertRow BlacklistRow.tokenHash { tokenHash := hash c.token, expiresAt := c.payload.exp }
        s.blacklistRows with
    | none =>
      obtain ⟨r, hr, hhash⟩ := insertRow_eq_none.mp hinsert
      exact ⟨r, hrows r hr, hhash, hown r hr hhash⟩
    | some rows =>
      refine ⟨{ tokenHash := hash c.token, expiresAt := c.payload.exp }, ?_, rfl, rfl⟩
      unfold Auth.Logout.logoutRow
      dsimp only
      rw [hinsert]
      obtain ⟨-, rfl⟩ := insertRow_eq_some.mp hinsert
      exact List.mem_append_right _ (List.mem_singleton_self _)
  have hblocked (t : Bytes) (p : Payload) (hb : Blocked hash s t p) :
      Blocked hash (Auth.Logout.logoutRow hash s i c) t p :=
    hb.grow (Nat.le_refl _) hrows (fun _ hx => hx) rfl
  refine h.frame_rows rfl rfl hblocked (fun d hd => ?_) (Nat.le_refl _)
  rcases List.mem_or_eq_of_mem_set hd with hd | rfl
  · exact (h.logouts d hd).mono hblocked
  · exact ⟨hpayload, hexp, hsid, fun _ => .inr ⟨hrow, hknown⟩⟩

theorem revoked_of_user {sub : Bytes} {r : RefreshToken}
    (hr : r ∈ updateWhere (fun r : RefreshToken => r.userId == sub && !r.revoked) (fun r => { r with revoked := true })
      s.refreshTokens) (huser : r.userId = sub) : r.revoked = true := by
  obtain ⟨r', hr', rfl⟩ := mem_updateWhere.mp hr
  split
  · rfl
  · rename_i hnot
    rw [if_neg hnot] at huser
    simpa [huser] using hnot

theorem Inv.logoutRevoke (h : Inv cd hash s) {i : Nat} (hc : s.logouts[i]? = some c) (hpc : c.pc = .revoke) :
    Inv cd hash (logoutRevoke s i c) := by
  obtain ⟨hpayload, hexp, hsid, hblocked⟩ := h.logouts c (List.mem_of_getElem? hc)
  have hempty : c.payload.sid.isEmpty = false := by simpa using hsid
  unfold Auth.Logout.logoutRevoke
  dsimp only
  rw [if_neg (by simp [hempty])]
  have hrevoked : Inv cd hash { s with
      refreshTokens := updateWhere (fun r => r.userId == cText c.payload.sub && !r.revoked)
        (fun r => { r with revoked := true }) s.refreshTokens, logouts := s.logouts.eraseIdx i } := by
    refine h.frame rfl (h.keyed.updateWhere fun _ _ => rfl) (fun _ _ hb => hb)
      (fun d hd => (h.logouts d (List.mem_of_mem_eraseIdx hd)).mono fun _ _ hb => hb) (Nat.le_refl _) fun r hr => ?_
    refine .inr ⟨_, mem_updateWhere_of_mem hr, ?_⟩
    split
    · exact ⟨rfl, rfl, rfl, fun _ => rfl⟩
    · exact ⟨rfl, rfl, rfl, id⟩
  have hwatch := watch_emit { s with
      refreshTokens := updateWhere (fun r => r.userId == cText c.payload.sub && !r.revoked)
        (fun r => { r with revoked := true }) s.refreshTokens, logouts := s.logouts.eraseIdx i }
    (.loggedOut c.token c.payload)
  refine ⟨?_, hrevoked.keyed, ?_, fun d hd => (hrevoked.logouts d hd).mono fun _ _ hb => hb, ?_, ?_⟩
  · unfold Kept
    rw [hwatch]
    exact h.kept
  · rw [hwatch]
    intro t ht
    rcases List.mem_cons.mp ht with rfl | ht
    · exact ⟨c.payload, hpayload, hexp, hblocked hpc⟩
    · exact hrevoked.out t ht
  · rw [hwatch]
    exact hrevoked.issued
  · rw [hwatch]
    intro t ht
    rcases List.mem_append.mp ht with ht | ht
    · obtain ⟨x, hx, rfl⟩ := List.mem_map.mp ht
      obtain ⟨hx, hsub⟩ := List.mem_filter.mp hx
      obtain ⟨hp, hne, hrow⟩ := hrevoked.issued x hx
      refine ⟨x.2, hp, hne, hrow.imp_right ?_⟩
      rintro ⟨r, hr, hjti, hexpires, huser⟩
      exact ⟨r, hr, hjti, hexpires, revoked_of_user hr (huser.trans (congrArg cText (of_decide_eq_true hsub)))⟩
    · exact hrevoked.dead t ht

/-! ## CleanupExpired and restarts -/

theorem Inv.cleanupExpired (h : Inv cd hash s) : Inv cd hash (cleanupExpired s s.clock) := by
  have hblocked (t : Bytes) (p : Payload) (hb : Blocked hash s t p) :
      Blocked hash (Auth.Logout.cleanupExpired s s.clock) t p := by
    rcases hb with hexp | ⟨⟨r, hr, hhash, hexp⟩, hknown⟩
    · exact .inl hexp
    · by_cases hold : r.expiresAt < (s.clock : Int)
      · exact .inl (hexp ▸ hold.le)
      · exact .inr ⟨⟨r, mem_deleteWhere.mpr ⟨hr, by simpa using hold⟩, hhash, hexp⟩, hknown⟩
  refine h.frame rfl h.keyed.deleteWhere hblocked (fun c hc => (h.logouts c hc).mono hblocked) (Nat.le_refl _)
    fun r hr => ?_
  by_cases hold : r.expiresAt < (s.clock : Int)
  · exact .inl hold
  · exact .inr ⟨r, mem_deleteWhere.mpr ⟨hr, by simpa using hold⟩, rfl, rfl, rfl, id⟩

theorem Inv.cleanupClear (h : Inv cd hash s) (cleanups : List CleanupPc) :
    Inv cd hash { s with tokenBlacklist := [], cleared := true, cleanups } := by
  have hblocked (t : Bytes) (p : Payload) (hb : Blocked hash s t p) :
      Blocked hash { s with tokenBlacklist := [], cleared := true, cleanups } t p :=
    hb.imp_right fun hb => ⟨hb.1, .inl rfl⟩
  exact h.frame_rows rfl rfl hblocked (fun c hc => (h.logouts c hc).mono hblocked) (Nat.le_refl _)

theorem Blocked.load (h : Blocked hash s t p) : Blocked hash (loadBlacklist s s.clock) t p := by
  rcases h with hexp | ⟨⟨r, hr, hhash, hexp⟩, -⟩
  · exact .inl hexp
  · by_cases hold : p.exp ≤ s.clock
    · exact .inl hold
    · refine .inr ⟨⟨r, hr, hhash, hexp⟩, .inr ?_⟩
      refine List.mem_append_left _ (List.mem_map.mpr ⟨r, List.mem_filter.mpr ⟨hr, ?_⟩, hhash⟩)
      simpa [hexp] using hold

theorem Inv.cleanupLoad (h : Inv cd hash s) (cleanups : List CleanupPc) :
    Inv cd hash { loadBlacklist s s.clock with cleanups } := by
  have hblocked (t : Bytes) (p : Payload) (hb : Blocked hash s t p) :
      Blocked hash { loadBlacklist s s.clock with cleanups } t p := hb.load
  exact h.frame_rows rfl rfl hblocked (fun c hc => (h.logouts c hc).mono hblocked) (Nat.le_refl _)

theorem Inv.restart (h : Inv cd hash s) :
    Inv cd hash (loadBlacklist { s with tokenBlacklist := [], logouts := [], cleanups := [] } s.clock) := by
  have hempty : Inv cd hash { s with tokenBlacklist := [], cleared := true, logouts := [], cleanups := [] } := by
    refine (h.cleanupClear []).frame_rows rfl rfl (fun _ _ hb => hb) (fun c hc => ?_) (Nat.le_refl _)
    exact absurd hc List.not_mem_nil
  exact hempty.cleanupLoad []

/-! ## The steps -/

theorem at_eq_some : s.at now = some s' ↔ s.clock ≤ now ∧ s' = { s with clock := now } :=
  guarded_eq_some

theorem at_map_eq_some {g : State → State} :
    (s.at now).map g = some s' ↔ s.clock ≤ now ∧ s' = g { s with clock := now } :=
  guarded_map_eq_some

theorem Inv.step (h : Inv cd hash s) {a : Act} (hk : Keeps cd hash s a) (hstep : step cd hash s a = some s') :
    Inv cd hash s' := by
  cases a with
  | login token now =>
    obtain ⟨hnow, rfl⟩ := at_map_eq_some.mp hstep
    exact (h.clocked hnow).login token
  | refreshAccessToken token now =>
    obtain ⟨hnow, rfl⟩ := at_map_eq_some.mp hstep
    exact (h.clocked hnow).refreshAccessToken token
  | validateAccessToken token now =>
    obtain ⟨hnow, rfl⟩ := at_map_eq_some.mp hstep
    exact (h.clocked hnow).validateAccessToken token hk
  | logout token now =>
    obtain ⟨hnow, rfl⟩ := at_map_eq_some.mp hstep
    exact (h.clocked hnow).logout token hk
  | logoutRow i =>
    obtain ⟨c, hc, hstep⟩ := Option.bind_eq_some_iff.mp hstep
    obtain ⟨-, hs'⟩ := Option.ite_none_right_eq_some.mp hstep
    cases hs'
    obtain ⟨hknown, hown⟩ := hk c hc
    exact h.logoutRow hc hknown hown
  | logoutRevoke i =>
    obtain ⟨c, hc, hstep⟩ := Option.bind_eq_some_iff.mp hstep
    obtain ⟨hpc, hs'⟩ := Option.ite_none_right_eq_some.mp hstep
    cases hs'
    exact h.logoutRevoke hc hpc
  | cleanupExpired now =>
    obtain ⟨hnow, rfl⟩ := at_map_eq_some.mp hstep
    exact (h.clocked hnow).cleanupExpired
  | cleanupClear i =>
    obtain ⟨pc, hpc, hstep⟩ := Option.bind_eq_some_iff.mp hstep
    obtain ⟨-, hs'⟩ := Option.ite_none_right_eq_some.mp hstep
    cases hs'
    exact h.cleanupClear _
  | cleanupLoad i now =>
    obtain ⟨t, ht, hstep⟩ := Option.bind_eq_some_iff.mp hstep
    obtain ⟨hnow, rfl⟩ := at_eq_some.mp ht
    obtain ⟨pc, hpc, hstep⟩ := Option.bind_eq_some_iff.mp hstep
    obtain ⟨-, hs'⟩ := Option.ite_none_right_eq_some.mp hstep
    cases hs'
    exact (h.clocked hnow).cleanupLoad _
  | restart now =>
    obtain ⟨hnow, rfl⟩ := at_map_eq_some.mp hstep
    exact (h.clocked hnow).restart

theorem inv_start (cd : Codec) (hash : Bytes → Bytes) (users : List User) (clock : Nat) :
    Inv cd hash (start users clock) where
  kept := rfl
  keyed := Keyed.nil
  out _ ht := absurd ht List.not_mem_nil
  logouts _ hc := absurd hc List.not_mem_nil
  issued _ hx := absurd hx List.not_mem_nil
  dead _ ht := absurd ht List.not_mem_nil

/-! ## Runs -/

/-- A logout is final in every run that keeps to the spellings and interleavings of `Keeps`. -/
theorem final_of_keeps (cd : Codec) (hash : Bytes → Bytes) (users : List User) (clock : Nat) {as : List Act} {s : State}
    (hkeeps : Along (step cd hash) (Keeps cd hash) (start users clock) as)
    (h : run (step cd hash) (start users clock) as = some s) : Kept s :=
  (run_inv (I := Inv cd hash) (Q := Keeps cd hash) (fun hinv hk hstep => hinv.step hk hstep)
    (inv_start cd hash users clock) hkeeps h).kept

def sampleHeader : Bytes :=
  [0x7B, 0x22, 0x61, 0x6C, 0x67, 0x22, 0x3A, 0x22, 0x48, 0x53, 0x32, 0x35, 0x36, 0x22, 0x2C, 0x22, 0x74, 0x79, 0x70,
   0x22, 0x3A, 0x22, 0x4A, 0x57, 0x54, 0x22, 0x7D]

def sampleClaims : Bytes :=
  [0x7B, 0x22, 0x65, 0x78, 0x70, 0x22, 0x3A, 0x39, 0x2C, 0x22, 0x73, 0x69, 0x64, 0x22, 0x3A, 0x22, 0x73, 0x22, 0x2C,
   0x22, 0x73, 0x75, 0x62, 0x22, 0x3A, 0x22, 0x75, 0x22, 0x7D]

/-- What HMAC-SHA256 makes of the two under the secret `k`. -/
def sampleMac : Bytes :=
  [0x0A, 0x47, 0xFA, 0x63, 0xB5, 0x14, 0x2D, 0xF3, 0x01, 0x83, 0x8E, 0x4C, 0x8C, 0x7C, 0xE7, 0xB9, 0xB7, 0x9C, 0x4E,
   0x7C, 0xD4, 0xE0, 0x9B, 0x0D, 0x66, 0x17, 0x4C, 0x37, 0x70, 0x67, 0xB5, 0xB5]

/-- The claims of a refresh token of the same session. -/
def refreshClaims : Bytes :=
  [0x7B, 0x22, 0x65, 0x78, 0x70, 0x22, 0x3A, 0x39, 0x2C, 0x22, 0x6A, 0x74, 0x69, 0x22, 0x3A, 0x22, 0x6A, 0x22, 0x2C,
   0x22, 0x73, 0x69, 0x64, 0x22, 0x3A, 0x22, 0x73, 0x22, 0x2C, 0x22, 0x73, 0x75, 0x62, 0x22, 0x3A, 0x22, 0x75, 0x22,
   0x2C, 0x22, 0x74, 0x79, 0x70, 0x65, 0x22, 0x3A, 0x22, 0x72, 0x65, 0x66, 0x72, 0x65, 0x73, 0x68, 0x22, 0x7D]

def refreshPayload : Payload where
  sub := [0x75]
  sid := [0x73]
  exp := 9
  type := [0x72, 0x65, 0x66, 0x72, 0x65, 0x73, 0x68]
  jti := [0x6A]

def refreshMac : Bytes :=
  [0x0F, 0xFA, 0xA0, 0x47, 0x80, 0x52, 0x0E, 0x07, 0x9B, 0xB8, 0x6D, 0x4D, 0xB1, 0xE8, 0x64, 0x17, 0x30, 0xE0, 0xE6,
   0xEE, 0xFC, 0x1E, 0x82, 0x8D, 0x17, 0xE2, 0x65, 0xB1, 0x14, 0x6F, 0x06, 0x3B]

def sampleCodec : Codec where
  hmac _ message :=
    if message = base64UrlEncode sampleHeader ++ dot :: base64UrlEncode refreshClaims then refreshMac else sampleMac
  parseHeader json := if json = sampleHeader then some true else none
  parseClaims json :=
    if json = sampleClaims then some { sub := [0x75], sid := [0x73], exp := 9 }
    else if json = refreshClaims then some refreshPayload
    else none
  acceptSecrets := [[0x6B]]

def sampleToken : Bytes := encode sampleCodec [0x6B] sampleHeader sampleClaims

def refreshToken : Bytes := encode sampleCodec [0x6B] sampleHeader refreshClaims

def sampleDigest : Bytes :=
  [0x37, 0x66, 0x33, 0x64, 0x66, 0x35, 0x30, 0x63, 0x63, 0x35, 0x31, 0x37, 0x66, 0x32, 0x64, 0x66, 0x36, 0x31, 0x39,
   0x39, 0x65, 0x36, 0x64, 0x32, 0x63, 0x65, 0x64, 0x63, 0x65, 0x66, 0x66, 0x30, 0x36, 0x38, 0x32, 0x33, 0x63, 0x32,
   0x64, 0x31, 0x30, 0x62, 0x66, 0x64, 0x62, 0x31, 0x36, 0x32, 0x31, 0x32, 0x62, 0x63, 0x36, 0x34, 0x30, 0x39, 0x33,
   0x38, 0x65, 0x39, 0x36, 0x35, 0x32, 0x39]

def sampleDigestPad : Bytes :=
  [0x31, 0x35, 0x39, 0x66, 0x64, 0x38, 0x39, 0x63, 0x37, 0x31, 0x61, 0x39, 0x39, 0x30, 0x32, 0x62, 0x64, 0x66, 0x62,
   0x65, 0x38, 0x64, 0x31, 0x36, 0x31, 0x62, 0x61, 0x32, 0x35, 0x39, 0x39, 0x35, 0x34, 0x64, 0x33, 0x33, 0x61, 0x66,
   0x30, 0x65, 0x39, 0x32, 0x34, 0x66, 0x35, 0x33, 0x32, 0x39, 0x63, 0x64, 0x32, 0x31, 0x37, 0x36, 0x30, 0x38, 0x33,
   0x38, 0x30, 0x64, 0x63, 0x30, 0x30, 0x32]

def refreshDigest : Bytes :=
  [0x34, 0x35, 0x37, 0x33, 0x63, 0x34, 0x62, 0x31, 0x62, 0x63, 0x39, 0x65, 0x62, 0x65, 0x39, 0x31, 0x34, 0x32, 0x34,
   0x37, 0x62, 0x64, 0x63, 0x65, 0x32, 0x61, 0x36, 0x61, 0x33, 0x62, 0x32, 0x39, 0x35, 0x33, 0x33, 0x30, 0x35, 0x62,
   0x30, 0x64, 0x39, 0x33, 0x38, 0x34, 0x66, 0x34, 0x65, 0x30, 0x34, 0x31, 0x62, 0x66, 0x35, 0x62, 0x65, 0x64, 0x34,
   0x64, 0x37, 0x32, 0x34, 0x30, 0x39, 0x33]

def sampleHash (token : Bytes) : Bytes :=
  if token = sampleToken then sampleDigest else if token = refreshToken then refreshDigest else sampleDigestPad

def sampleUser : User where
  id := [0x75]
  email := [0x75, 0x40, 0x78]
  passwordHash := []
  displayName := []
  updatedAt := 0

/-- A login, both tokens in use, a logout, and both tokens tried after it, after a cleanup and after a restart. -/
def logoutRun : List Act :=
  [.login refreshToken 1, .validateAccessToken sampleToken 1, .refreshAccessToken refreshToken 2, .logout sampleToken 3,
    .logoutRow 0, .logoutRevoke 0, .validateAccessToken sampleToken 4, .refreshAccessToken refreshToken 4,
    .cleanupExpired 5, .cleanupClear 0, .cleanupLoad 0 5, .validateAccessToken sampleToken 6,
    .refreshAccessToken refreshToken 6, .restart 7, .validateAccessToken sampleToken 8,
    .refreshAccessToken refreshToken 8]

theorem final_of_keeps_logoutRun :
    ∃ s, run (step sampleCodec sampleHash) (start [sampleUser] 0) logoutRun = some s ∧
      s.log = [.issued refreshToken refreshPayload, .validated sampleToken, .refreshed refreshToken,
        .loggedOut sampleToken { sub := [0x75], sid := [0x73], exp := 9 }] ∧
      (watch s).dead = [refreshToken] ∧ Kept s := by
  have hrun : (run (step sampleCodec sampleHash) (start [sampleUser] 0) logoutRun).any (fun s =>
      decide (s.log = [.issued refreshToken refreshPayload, .validated sampleToken, .refreshed refreshToken,
        .loggedOut sampleToken { sub := [0x75], sid := [0x73], exp := 9 }] ∧ (watch s).dead = [refreshToken])) = true := by
    decide +kernel
  obtain ⟨s, hs, hp⟩ := (Option.any_eq_true _ _).mp hrun
  obtain ⟨hlog, hdead⟩ := of_decide_eq_true hp
  have hkeeps : Along (step sampleCodec sampleHash) (Keeps sampleCodec sampleHash) (start [sampleUser] 0) logoutRun := by
    decide +kernel
  exact ⟨s, hs, hlog, hdead, final_of_keeps sampleCodec sampleHash [sampleUser] 0 hkeeps hs⟩

def respelledRun : List Act :=
  [.logout sampleToken 1, .logoutRow 0, .logoutRevoke 0, .validateAccessToken (sampleToken ++ [padChar]) 2]

/-- It is accepted. -/
theorem logout_not_final :
    ¬ ∀ (cd : Codec) (hash : Bytes → Bytes) (users : List User) (clock : Nat) (as : List Act) (s : State),
      run (step cd hash) (start users clock) as = some s → Kept s := by
  intro hall
  have hrun : (run (step sampleCodec sampleHash) (start [] 0) respelledRun).any (fun s =>
      (watch s).leaked) = true := by
    decide +kernel
  obtain ⟨s, hs, hp⟩ := (Option.any_eq_true _ _).mp hrun
  have hkept := hall sampleCodec sampleHash [] 0 _ s hs
  rw [Kept, hp] at hkept
  cases hkept

/-- A cleanup between the set and the row. -/
example : (run (step sampleCodec sampleHash) (start [] 0)
    [.logout sampleToken 1, .cleanupExpired 2, .cleanupClear 0, .cleanupLoad 0 3, .logoutRow 0, .logoutRevoke 0,
      .validateAccessToken sampleToken 4]).any (fun s => (watch s).leaked) = true := by
  decide +kernel

end Cortrix.Auth.Logout
