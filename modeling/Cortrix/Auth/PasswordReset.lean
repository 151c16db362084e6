import Cortrix.Auth.AuthService
import Cortrix.Lib.Session

/-!
# ConfirmPasswordReset: one account, completely, once

The calls share a connection and interleave statement by statement. The code is checked before the transaction, so two
calls that carry it may both pass; the results of two of the three writes are ignored; and one write is built from the
email text.

* `Performs r t t'` : what a reset is for; `Applied` : resets one after the other; `Kept` : the committed tables are
  those of the calls that succeeded, no two of them with one code, and no transaction stays open;
* `Keeps` : each write finds what it needs and succeeds, and the transactions do not get into each other's way; then
  every state is `Kept` (`kept_of_clean`).
-/

namespace Cortrix.Auth.PasswordReset
open Lib Lib.Txn Lib.Session

/-! ## The statements -/

inductive Write
  | updateUser (email passwordHash : Bytes) (now : Int)
  | markUsed (id : Nat)
  | revoke (email : Bytes)

def apply (other : Bytes → Tables → Tables) : Write → Tables → Option Tables
  | .updateUser email passwordHash now, t => some (resetPassword email passwordHash now t)
  | .markUsed id, t => some (markCodeUsed id t)
  | .revoke email, t => some (revokeTokens other email t)

inductive AuthErrorCode
  | invalidRequest | serviceUnavailable | invalidResetCode | internalError

structure AuthError where
  code : AuthErrorCode
  message : String

/-- The arguments, what the hasher makes of the password, and the clock. -/
structure Request where
  email : Bytes
  code : Bytes
  newPassword : Bytes
  hash : Except AuthError Bytes
  now : Int

/-- A success names the reset. -/
abbrev Outcome := Except AuthError ResetCall

abbrev Program := Prog Tables Write Outcome

def unavailable (message : String) : Program := .ret (.error ⟨.serviceUnavailable, message⟩)

def atCommit (r : ResetCall) : Program :=
  .commit fun ok => if ok then .ret (.ok r) else .rollback (unavailable "commit failed")

def atRevoke (r : ResetCall) : Program := .execute (.revoke r.email) fun _ => atCommit r

def atMark (r : ResetCall) : Program := .execute (.markUsed r.codeId) fun _ => atRevoke r

def atUpdate (r : ResetCall) : Program :=
  .execute (.updateUser r.email r.passwordHash r.now) fun
    | .done => atMark r
    | .unprepared _ => .rollback (unavailable "password update prepare failed")
    | .refused _ _ => .rollback (unavailable "password update failed")

def atBegin (r : ResetCall) : Program := .beginTxn fun ok => if ok then atUpdate r else unavailable "begin tx failed"

/-- A lookup that fails to step reads as no row. -/
def confirmPasswordReset (cfg : Config) (o : Request) : Program :=
  if !validatePassword o.newPassword cfg.passwordMinLength then
    .ret (.error ⟨.invalidRequest, "rules_violated=password_complexity"⟩)
  else .query fun
    | .unprepared => unavailable "code lookup prepare failed"
    | .failed => .ret (.error ⟨.invalidResetCode, "reason=invalid"⟩)
    | .data t =>
      match checkVerificationCode t o.email .passwordReset o.code o.now with
      | .error reason => .ret (.error ⟨.invalidResetCode, reason⟩)
      | .ok id =>
        match o.hash with
        | .error e => .ret (.error e)
        | .ok hash => atBegin ⟨o.email, id, hash, o.now⟩

/-! ## What a reset is for -/

def Performs (r : ResetCall) (t t' : Tables) : Prop :=
  ∃ v, lookup User.email r.email t.users = some v ∧
    t'.users = updateWhere (fun u => u.id == v.id)
      (fun u => { u with passwordHash := r.passwordHash, updatedAt := r.now, loginAttempts := 0, status := .active,
                         lockedUntil := none }) t.users ∧
    t'.codes = updateWhere (fun c => c.id == r.codeId) (fun c => { c with used := true }) t.codes ∧
    t'.refreshTokens = updateWhere (fun k => k.userId == v.id) (fun k => { k with revoked := true }) t.refreshTokens

inductive Applied (t₀ : Tables) : List ResetCall → Tables → Prop
  | start : Applied t₀ [] t₀
  | next {rs : List ResetCall} {t t' : Tables} {r : ResetCall} (h : Applied t₀ rs t) (hr : Performs r t t') :
    Applied t₀ (rs ++ [r]) t'

def success (c : Call Tables Write Outcome) : Option ResetCall :=
  match c.prog.result with
  | some (.ok r) => some r
  | _ => none

def successes (calls : List (Call Tables Write Outcome)) : List ResetCall := calls.filterMap success

structure Kept (t₀ : Tables) (s : Session.State Tables Write Outcome) : Prop where
  /-- The calls that succeeded have changed what they are for, the others nothing. -/
  applied : ∃ rs, rs.Perm (successes s.calls) ∧ Applied t₀ rs s.committed
  once : ((successes s.calls).map ResetCall.codeId).Nodup
  closed : (∀ c ∈ s.calls, c.prog.result.isSome = true) → s.conn.saved = none

/-! ## The condition -/

def Allowed : Write → Tables → Prop
  | .updateUser email _ _, t => ∃ u ∈ t.users, u.email = cText email
  | .markUsed id, t => ∃ c ∈ t.codes, c.id = id ∧ c.used = false
  | .revoke email, _ => Plain email

def Write.ignored : Write → Bool
  | .updateUser .. => false
  | .markUsed _ | .revoke _ => true

structure Clean (other : Bytes → Tables → Tables) (conn : Conn Tables) (c : Call Tables Write Outcome) (st : Stmt)
    (errmsg : String) : Prop where
  allowed : ∀ w ∈ c.prog.write, Allowed w conn.data
  /-- A write whose result is ignored does not fail. -/
  heeded : ∀ w ∈ c.prog.write, w.ignored = true → st = .good
  /-- The engine gives up a transaction only on a statement of its call that is followed by the rollback. -/
  notLost : st.step = .aborted → conn.saved.isSome = true → c.inTxn = true ∧
    ∀ x ∈ advance (apply other) conn c st errmsg, x.2.prog.isRollback = true
  /-- A rollback does not meet the transaction of another call. -/
  notStray : c.prog.isRollback = true → conn.saved.isSome = true → c.inTxn = true

instance : ∀ (w : Write) (t : Tables), Decidable (Allowed w t)
  | .updateUser email _ _, t => inferInstanceAs (Decidable (∃ u ∈ t.users, u.email = cText email))
  | .markUsed id, t => inferInstanceAs (Decidable (∃ c ∈ t.codes, c.id = id ∧ c.used = false))
  | .revoke email, _ => inferInstanceAs (Decidable (Plain email))

instance (other : Bytes → Tables → Tables) (conn : Conn Tables) (c : Call Tables Write Outcome) (st : Stmt)
    (errmsg : String) : Decidable (Clean other conn c st errmsg) :=
  decidable_of_iff
    ((∀ w ∈ c.prog.write, Allowed w conn.data) ∧ (∀ w ∈ c.prog.write, w.ignored = true → st = .good) ∧
      (st.step = .aborted → conn.saved.isSome = true → c.inTxn = true ∧
        ∀ x ∈ advance (apply other) conn c st errmsg, x.2.prog.isRollback = true) ∧
      (c.prog.isRollback = true → conn.saved.isSome = true → c.inTxn = true))
    ⟨fun h => ⟨h.1, h.2.1, h.2.2.1, h.2.2.2⟩, fun h => ⟨h.allowed, h.heeded, h.notLost, h.notStray⟩⟩

def Keeps (other : Bytes → Tables → Tables) (s : Session.State Tables Write Outcome) : Session.Act Request → Prop
  | .start _ => True
  | .run i st errmsg => ∀ c ∈ s.calls[i]?, Clean other s.conn c st errmsg

instance (other : Bytes → Tables → Tables) (s : Session.State Tables Write Outcome) : ∀ a, Decidable (Keeps other s a)
  | .start _ => .isTrue trivial
  | .run i st errmsg => inferInstanceAs (Decidable (∀ c ∈ s.calls[i]?, Clean other s.conn c st errmsg))

def start (t : Tables) : Session.State Tables Write Outcome := ⟨⟨t, none⟩, []⟩

/-! ## The invariant -/

variable {cfg : Config} {other : Bytes → Tables → Tables} {t t₀ : Tables} {s s' : Session.State Tables Write Outcome}
  {c c' : Call Tables Write Outcome} {r : ResetCall} {rs : List ResetCall} {d d' d₀ : Tables}

inductive Idle (cfg : Config) : Program → Prop
  | fresh {p : Program} (o : Request) (hp : p = confirmPasswordReset cfg o) : Idle cfg p
  | checked (r : ResetCall) : Idle cfg (atBegin r)
  | ended (x : Outcome) : Idle cfg (.ret x)
  /-- The engine has rolled its transaction back. -/
  | lost (e : AuthError) : Idle cfg (.rollback (.ret (.error e)))

/-- Inside its transaction, which started from `d₀` and has got to `d`. -/
inductive Inside (d₀ : Tables) : Tables → Program → Prop
  | update (r : ResetCall) : Inside d₀ d₀ (atUpdate r)
  | mark (r : ResetCall) (howner : ∃ u ∈ d₀.users, u.email = cText r.email) :
    Inside d₀ (resetPassword r.email r.passwordHash r.now d₀) (atMark r)
  | revoke (r : ResetCall) (howner : ∃ u ∈ d₀.users, u.email = cText r.email)
    (hunused : ∃ c ∈ d₀.codes, c.id = r.codeId ∧ c.used = false) :
    Inside d₀ (markCodeUsed r.codeId (resetPassword r.email r.passwordHash r.now d₀)) (atRevoke r)
  | commit (d : Tables) (r : ResetCall) (hperforms : Performs r d₀ d)
    (hunused : ∃ c ∈ d₀.codes, c.id = r.codeId ∧ c.used = false) : Inside d₀ d (atCommit r)
  | doomed (d : Tables) (e : AuthError) : Inside d₀ d (.rollback (.ret (.error e)))

/-- The committed tables after the resets `rs`. -/
structure Whole (t₀ : Tables) (rs : List ResetCall) (d : Tables) : Prop where
  applied : Applied t₀ rs d
  once : (rs.map ResetCall.codeId).Nodup
  used : ∀ r ∈ rs, ∀ c ∈ d.codes, c.id = r.codeId → c.used = true
  schema : Schema d

inductive Shape (cfg : Config) (s : Session.State Tables Write Outcome) : Prop
  | closed (hsaved : s.conn.saved = none) (hcalls : ∀ c ∈ s.calls, c.inTxn = false ∧ Idle cfg c.prog)
  | opened (d₀ : Tables) (hsaved : s.conn.saved = some d₀) (j : Nat) (c : Call Tables Write Outcome)
      (hj : s.calls[j]? = some c) (hin : c.inTxn = true) (hinside : Inside d₀ s.conn.data c.prog)
      (hothers : ∀ k x, k ≠ j → s.calls[k]? = some x → x.inTxn = false ∧ Idle cfg x.prog)

structure Inv (cfg : Config) (t₀ : Tables) (s : Session.State Tables Write Outcome) : Prop where
  whole : ∃ rs, rs.Perm (successes s.calls) ∧ Whole t₀ rs s.committed
  shape : Shape cfg s

/-! ## A reset, done in full -/

theorem performs_writes (h : Schema d₀) (howner : ∃ u ∈ d₀.users, u.email = cText r.email) (hplain : Plain r.email) :
    Performs r d₀ (revokeTokens other r.email
      (markCodeUsed r.codeId (resetPassword r.email r.passwordHash r.now d₀))) := by
  rw [cText_plain hplain] at howner
  obtain ⟨v, hmem, hemail⟩ := howner
  have hv : lookup User.email r.email d₀.users = some v := hemail ▸ h.emails.lookup_of_mem hmem
  refine ⟨v, hv, ?_, ?_, ?_⟩
  · rw [revokeTokens_plain hplain]
    show updateWhere (fun u => u.email == cText r.email) _ d₀.users = _
    rw [cText_plain hplain]
    exact h.updateWhere_email hv _
  · rw [revokeTokens_plain hplain]
    rfl
  · rw [revokeTokens_plain hplain]
    have howner : (lookup User.email r.email
        (resetPassword r.email r.passwordHash r.now d₀).users).map User.id = some v.id := by
      unfold resetPassword
      rw [lookup_updateWhere (by intro u; rfl), hv]
      simp only [Option.map_some, Option.some.injEq]
      split <;> rfl
    show updateWhere (fun k => !k.revoked && _ == some k.userId) _ d₀.refreshTokens = _
    rw [show (lookup User.email r.email (markCodeUsed r.codeId
        (resetPassword r.email r.passwordHash r.now d₀)).users).map User.id = some v.id from howner]
    apply List.map_congr_left
    intro k _
    -- a token that was revoked stays as it is
    cases hk : k.revoked with
    | false =>
      by_cases hid : k.userId = v.id
      · simp [hk, hid]
      · simp [hid, Ne.symm hid]
    | true =>
      have hsame : { k with revoked := true } = k := by
        rw [← hk]
      simp [hsame]

theorem Whole.performs (h : Whole t₀ rs d₀) (hperforms : Performs r d₀ d)
    (hunused : ∃ c ∈ d₀.codes, c.id = r.codeId ∧ c.used = false) : Whole t₀ (rs ++ [r]) d := by
  have hnext := h.applied.next hperforms
  obtain ⟨v, hv, husers, hcodes, -⟩ := hperforms
  refine ⟨hnext, ?_, ?_, ?_⟩
  · rw [List.map_append, List.map_singleton]
    refine List.nodup_append.mpr ⟨h.once, List.nodup_singleton _, ?_⟩
    intro id hid id' hid' heq
    obtain ⟨r', hr', rfl⟩ := List.mem_map.mp hid
    obtain ⟨c, hc, hcode, hused⟩ := hunused
    rw [h.used r' hr' c hc (hcode.trans ((List.mem_singleton.mp hid').symm.trans heq.symm))] at hused
    cases hused
  · rw [hcodes]
    intro r' hr' c' hc' hid
    obtain ⟨c, hc, rfl⟩ := mem_updateWhere.mp hc'
    split
    · rfl
    · rename_i hne
      rw [if_neg hne] at hid
      rcases List.mem_append.mp hr' with hr' | hr'
      · exact h.used r' hr' c hc hid
      · rw [List.mem_singleton.mp hr'] at hid
        exact absurd (beq_iff_eq.mpr hid) hne
  · exact h.schema.update husers fun _ => ⟨rfl, rfl⟩

/-! ## The calls that succeeded -/

theorem successes_append (calls : List (Call Tables Write Outcome)) (hc : success c = none) :
    successes (calls ++ [c]) = successes calls := by
  simp [successes, hc]

theorem successes_set {calls : List (Call Tables Write Outcome)} {i : Nat} (hc : calls[i]? = some c)
    (hnone : success c = none) : (successes (calls.set i c')).Perm (successes calls ++ (success c').toList) := by
  obtain ⟨hi, hget⟩ := List.getElem?_eq_some_iff.mp hc
  have hcalls : calls = calls.take i ++ c :: calls.drop (i + 1) := by
    rw [← hget, List.getElem_cons_drop hi, List.take_append_drop]
  have hset : calls.set i c' = calls.take i ++ c' :: calls.drop (i + 1) := by
    rw [List.set_eq_take_append_cons_drop, if_pos hi]
  have hbefore : successes calls = successes (calls.take i) ++ successes (calls.drop (i + 1)) := by
    conv_lhs => rw [hcalls]
    unfold successes
    rw [List.filterMap_append, List.filterMap_cons_none hnone]
  rw [hset, hbefore]
  unfold successes
  rw [List.filterMap_append]
  cases hc' : success c' with
  | none =>
    rw [List.filterMap_cons_none hc']
    simp
  | some r =>
    rw [List.filterMap_cons_some hc', List.append_assoc]
    exact (List.perm_append_singleton r _).symm.append_left _

/-! ## One statement -/

variable {conn conn' : Conn Tables} {st : Stmt} {errmsg : String}

/-- Outside of a transaction a statement leaves the connection, unless it opens a transaction. -/
theorem Idle.advance (hidle : Idle cfg c.prog) (hin : c.inTxn = false) (hclean : Clean other conn c st errmsg)
    (hs : advance (apply other) conn c st errmsg = some (conn', c')) :
    (conn' = conn ∧ c'.inTxn = false ∧ Idle cfg c'.prog ∧ success c' = none) ∨
    (conn.saved = none ∧ conn' = ⟨conn.data, some conn.data⟩ ∧ c'.inTxn = true ∧ ∃ r, c'.prog = atUpdate r) := by
  have hfault : conn.fault st.step = conn := fault_eq fun ho hsome => by
    have hown := (hclean.notLost ho hsome).1
    rw [hin] at hown
    cases hown
  obtain ⟨prog, inTxn, failed⟩ := c
  obtain rfl : inTxn = false := hin
  rcases hidle with ⟨o, hp⟩ | r | x | e
  · dsimp only at hp
    rw [hp, confirmPasswordReset] at hs
    split at hs
    · cases hs
    · rcases advance_query hs with ⟨rfl, x, hx, rfl⟩ | ⟨rfl, rfl⟩
      · refine .inl ⟨rfl, rfl, ?_⟩
        rcases hx with rfl | rfl
        · exact ⟨.ended _, rfl⟩
        · dsimp only
          split
          · exact ⟨.ended _, rfl⟩
          · split
            · exact ⟨.ended _, rfl⟩
            · exact ⟨.checked _, rfl⟩
      · exact .inl ⟨hfault, rfl, .ended _, rfl⟩
  · rcases advance_beginTxn hs with ⟨hsaved, rfl, rfl⟩ | ⟨rfl, rfl⟩
    · exact .inr ⟨hsaved, rfl, rfl, r, rfl⟩
    · exact .inl ⟨rfl, rfl, .ended _, rfl⟩
  · cases hs
  · cases hs
    refine .inl ⟨?_, rfl, .ended _, rfl⟩
    obtain ⟨data, saved⟩ := conn
    cases saved with
    | none => rfl
    | some d => cases hclean.notStray rfl rfl

/-- Where a call inside its transaction gets to. -/
inductive Moved (cfg : Config) (d₀ : Tables) (conn : Conn Tables) (c : Call Tables Write Outcome) : Prop
  | inside (hsaved : conn.saved = some d₀) (hin : c.inTxn = true) (hinside : Inside d₀ conn.data c.prog)
    (hnone : success c = none)
  | undone (hconn : conn = ⟨d₀, none⟩) (hin : c.inTxn = false) (hidle : Idle cfg c.prog) (hnone : success c = none)
  | done (d : Tables) (r : ResetCall) (hconn : conn = ⟨d, none⟩) (hin : c.inTxn = false) (hprog : c.prog = .ret (.ok r))
    (hperforms : Performs r d₀ d) (hunused : ∃ c ∈ d₀.codes, c.id = r.codeId ∧ c.used = false)

theorem moved_refused (d₀ d : Tables) (e : AuthError) (o : Txn.Outcome) (failed : Bool) :
    Moved cfg d₀ ((Conn.mk d (some d₀)).fault o) ⟨.rollback (.ret (.error e)), true && o != .aborted, failed⟩ := by
  by_cases ho : o = .aborted
  · subst ho
    exact .undone rfl rfl (.lost e) rfl
  · rw [fault_eq fun h => absurd h ho]
    exact .inside rfl (by simp [ho]) (.doomed d e) rfl

theorem Inside.advance (hinside : Inside d₀ d c.prog) (hin : c.inTxn = true) (hschema : Schema d₀)
    (hclean : Clean other ⟨d, some d₀⟩ c st errmsg)
    (hs : advance (apply other) ⟨d, some d₀⟩ c st errmsg = some (conn', c')) : Moved cfg d₀ conn' c' := by
  obtain ⟨prog, inTxn, failed⟩ := c
  obtain rfl : inTxn = true := hin
  rcases hinside with r | ⟨r, howner⟩ | ⟨r, howner, hunused⟩ | ⟨d, r, hperforms, hunused⟩ | ⟨d, e⟩
  · rcases advance_execute hs with ⟨d, happly, rfl, rfl⟩ | ⟨x, hx, hrefused⟩
    · cases happly
      exact .inside rfl rfl (.mark r (hclean.allowed _ rfl)) rfl
    · cases x with
      | done => exact absurd rfl hx
      | unprepared | refused =>
        rcases hrefused with ⟨rfl, rfl⟩ | ⟨rfl, rfl⟩
        · exact .inside rfl rfl (.doomed _ _) rfl
        · exact moved_refused _ _ _ st.step true
  · have hgood := hclean.heeded _ rfl rfl
    subst hgood
    cases hs
    refine .inside rfl rfl (.revoke r howner (hclean.allowed _ rfl)) rfl
  · have hgood := hclean.heeded _ rfl rfl
    subst hgood
    cases hs
    have hplain : Plain r.email := hclean.allowed _ rfl
    exact .inside rfl rfl (.commit _ r (performs_writes hschema howner hplain) hunused) rfl
  · rcases advance_commit hs with ⟨rfl, rfl⟩ | ⟨rfl, rfl⟩
    · exact .done d r rfl rfl rfl hperforms hunused
    · exact moved_refused d₀ d _ st.step true
  · cases hs
    exact .undone rfl rfl (.ended _) rfl

/-! ## The steps -/

theorem success_of_advance (hs : advance (apply other) conn c st errmsg = some (conn', c')) : success c = none := by
  obtain ⟨prog, inTxn, failed⟩ := c
  cases prog with
  | ret => cases hs
  | query | execute | beginTxn | commit | rollback => rfl

theorem success_fresh (cfg : Config) (o : Request) : success ({ prog := confirmPasswordReset cfg o }) = none := by
  unfold success confirmPasswordReset
  by_cases hpassword : (!validatePassword o.newPassword cfg.passwordMinLength) = true
  · rw [if_pos hpassword]
    rfl
  · rw [if_neg hpassword]
    rfl

theorem mem_set {i : Nat} {calls : List (Call Tables Write Outcome)} {P : Call Tables Write Outcome → Prop}
    (hothers : ∀ k x, k ≠ i → calls[k]? = some x → P x) (hc' : P c') : ∀ x ∈ calls.set i c', P x := by
  intro x hx
  obtain ⟨k, hk⟩ := List.mem_iff_getElem?.mp hx
  by_cases hki : k = i
  · subst hki
    rw [List.getElem?_set_self'] at hk
    obtain ⟨-, -, rfl⟩ := Option.map_eq_some_iff.mp hk
    exact hc'
  · rw [List.getElem?_set_ne (Ne.symm hki)] at hk
    exact hothers k x hki hk

theorem getElem?_set_of_some {i : Nat} {calls : List (Call Tables Write Outcome)} (hc : calls[i]? = some c) :
    (calls.set i c')[i]? = some c' := by
  rw [List.getElem?_set_self', hc]
  rfl

theorem Inv.start (h : Inv cfg t₀ s) (o : Request) :
    Inv cfg t₀ { s with calls := s.calls ++ [{ prog := confirmPasswordReset cfg o }] } := by
  obtain ⟨⟨rs, hperm, hwhole⟩, hshape⟩ := h
  have hnew : ({ prog := confirmPasswordReset cfg o } : Call Tables Write Outcome).inTxn = false ∧
      Idle cfg (confirmPasswordReset cfg o) := ⟨rfl, .fresh o rfl⟩
  refine ⟨⟨rs, ?_, hwhole⟩, ?_⟩
  · rw [successes_append _ (success_fresh cfg o)]
    exact hperm
  · rcases hshape with ⟨hsaved, hcalls⟩ | ⟨d₀, hsaved, j, c, hj, hin, hinside, hothers⟩
    · refine .closed hsaved fun x hx => ?_
      rcases List.mem_append.mp hx with hx | hx
      · exact hcalls x hx
      · rw [List.mem_singleton.mp hx]
        exact hnew
    · refine .opened d₀ hsaved j c ?_ hin hinside fun k x hkj hx => ?_
      · rw [List.getElem?_append_left (List.getElem?_eq_some_iff.mp hj).1]
        exact hj
      · rw [List.getElem?_append] at hx
        split at hx
        · exact hothers k x hkj hx
        · rw [List.getElem?_singleton] at hx
          obtain ⟨-, hx⟩ := Option.ite_none_right_eq_some.mp hx
          rw [← Option.some.inj hx]
          exact hnew

theorem Inv.advance (h : Inv cfg t₀ s) {i : Nat} (hc : s.calls[i]? = some c) (hclean : Clean other s.conn c st errmsg)
    (hs : advance (apply other) s.conn c st errmsg = some (conn', c')) : Inv cfg t₀ ⟨conn', s.calls.set i c'⟩ := by
  obtain ⟨⟨rs, hperm, hwhole⟩, hshape⟩ := h
  have hset : (successes (s.calls.set i c')).Perm (successes s.calls ++ (success c').toList) :=
    successes_set hc (success_of_advance hs)
  have unchanged (hnone : success c' = none) : rs.Perm (successes (s.calls.set i c')) := by
    rw [hnone, Option.toList_none, List.append_nil] at hset
    exact hperm.trans hset.symm
  rcases hshape with ⟨hsaved, hcalls⟩ | ⟨d₀, hsaved, j, c₀, hj, hin, hinside, hothers⟩
  · obtain ⟨hout, hidle⟩ := hcalls c (List.mem_of_getElem? hc)
    have hcommitted : s.committed = s.conn.data := by
      unfold Session.State.committed
      rw [hsaved]
      rfl
    rw [hcommitted] at hwhole
    rcases hidle.advance hout hclean hs with ⟨rfl, hout', hidle', hnone⟩ | ⟨-, rfl, hin', r, hprog⟩
    · refine ⟨⟨rs, unchanged hnone, hcommitted ▸ hwhole⟩, .closed hsaved ?_⟩
      exact mem_set (fun k x _ hx => hcalls x (List.mem_of_getElem? hx)) ⟨hout', hidle'⟩
    · have hnone : success c' = none := by
        unfold success
        rw [hprog]
        rfl
      refine ⟨⟨rs, unchanged hnone, hwhole⟩, .opened s.conn.data rfl i c' (getElem?_set_of_some hc) hin' ?_ ?_⟩
      · rw [hprog]
        exact .update r
      · intro k x hki hx
        rw [List.getElem?_set_ne (Ne.symm hki)] at hx
        exact hcalls x (List.mem_of_getElem? hx)
  · obtain ⟨⟨data, saved⟩, calls⟩ := s
    obtain rfl : saved = some d₀ := hsaved
    by_cases hij : i = j
    · subst hij
      obtain rfl := Option.some.inj (hc.symm.trans hj)
      rcases hinside.advance hin hwhole.schema hclean hs with
        ⟨hsaved', hin', hinside', hnone⟩ | ⟨rfl, hout', hidle', hnone⟩ | ⟨d, r, rfl, hout', hprog, hperforms, hunused⟩
      · have hcommitted : (⟨conn', calls.set i c'⟩ : Session.State Tables Write Outcome).committed = d₀ := by
          unfold Session.State.committed
          rw [hsaved']
          rfl
        refine ⟨⟨rs, unchanged hnone, hcommitted ▸ hwhole⟩,
          .opened d₀ hsaved' i c' (getElem?_set_of_some hc) hin' hinside' fun k x hki hx => ?_⟩
        rw [List.getElem?_set_ne (Ne.symm hki)] at hx
        exact hothers k x hki hx
      · exact ⟨⟨rs, unchanged hnone, hwhole⟩, .closed rfl (mem_set hothers ⟨hout', hidle'⟩)⟩
      · have hsuccess : success c' = some r := by
          unfold success
          rw [hprog]
          rfl
        rw [hsuccess, Option.toList_some] at hset
        refine ⟨⟨rs ++ [r], (hperm.append_right [r]).trans hset.symm, hwhole.performs hperforms hunused⟩,
          .closed rfl (mem_set hothers ⟨hout', ?_⟩)⟩
        rw [hprog]
        exact .ended _
    · obtain ⟨hout, hidle⟩ := hothers i c hij hc
      rcases hidle.advance hout hclean hs with ⟨rfl, hout', hidle', hnone⟩ | ⟨hnone, -⟩
      · refine ⟨⟨rs, unchanged hnone, hwhole⟩, .opened d₀ rfl j c₀ ?_ hin hinside fun k x hkj hx => ?_⟩
        · rw [List.getElem?_set_ne hij]
          exact hj
        · by_cases hki : k = i
          · subst hki
            rw [getElem?_set_of_some hc] at hx
            cases hx
            exact ⟨hout', hidle'⟩
          · rw [List.getElem?_set_ne (Ne.symm hki)] at hx
            exact hothers k x hkj hx
      · cases hnone

theorem Inv.step (h : Inv cfg t₀ s) {a : Session.Act Request} (hk : Keeps other s a)
    (hs : Session.step (apply other) (confirmPasswordReset cfg) s a = some s') : Inv cfg t₀ s' := by
  rcases a with o | ⟨i, st, errmsg⟩
  · cases hs
    exact h.start o
  · obtain ⟨c, hc, hs⟩ := Option.bind_eq_some_iff.mp hs
    obtain ⟨x, hx, rfl⟩ := Option.map_eq_some_iff.mp hs
    exact h.advance hc (hk c hc) hx

theorem inv_start (ht : Schema t₀) : Inv cfg t₀ (start t₀) :=
  ⟨⟨[], .refl _, .start, List.nodup_nil, fun _ hr => absurd hr List.not_mem_nil, ht⟩,
    .closed rfl fun _ hc => absurd hc List.not_mem_nil⟩

theorem Inv.kept (h : Inv cfg t₀ s) : Kept t₀ s := by
  obtain ⟨⟨rs, hperm, hwhole⟩, hshape⟩ := h
  refine ⟨⟨rs, hperm, hwhole.applied⟩, (hperm.map ResetCall.codeId).nodup_iff.mp hwhole.once, fun hended => ?_⟩
  rcases hshape with ⟨hsaved, -⟩ | ⟨d₀, -, j, c, hj, -, hinside, -⟩
  · exact hsaved
  · have hprog := hended c (List.mem_of_getElem? hj)
    generalize s.conn.data = d at hinside
    generalize c.prog = p at hinside hprog
    cases hinside <;> cases hprog

/-! ## Runs -/

/-- A reset affects one account, completely and once, in every run whose statements are clean. -/
theorem kept_of_clean (cfg : Config) (other : Bytes → Tables → Tables) {t₀ : Tables} (ht : Schema t₀)
    {as : List (Session.Act Request)} {s : Session.State Tables Write Outcome}
    (hclean : Along (Session.step (apply other) (confirmPasswordReset cfg)) (Keeps other) (start t₀) as)
    (h : run (Session.step (apply other) (confirmPasswordReset cfg)) (start t₀) as = some s) : Kept t₀ s :=
  (run_inv (I := Inv cfg t₀) (Q := Keeps other) (fun hinv hk hs => hinv.step hk hs) (inv_start ht) hclean h).kept

def sampleTables (email : Bytes) : Tables where
  users := [{ id := [1], email, passwordHash := [7], displayName := [0x61], updatedAt := 0 }]
  codes := [{ id := 1, email, code := [3], type := .passwordReset, expiresAt := 900, createdAt := 0 }]
  refreshTokens := [{ jti := [5], userId := [1], tokenHash := [6], expiresAt := 99 }]

def sampleRequest (email : Bytes) : Request :=
  { email, code := [3], newPassword := [0x61, 0x62, 0x63, 0x64, 0x65, 0x66, 0x67, 0x32], hash := .ok [9], now := 5 }

/-- Two resets with one code, one after the other; the first finds its connection busy once. -/
def resetsInTurn : List (Session.Act Request) :=
  [.start (sampleRequest sampleEmail), .start (sampleRequest sampleEmail), .run 0 .good "", .run 0 .good "",
    .run 0 .good "", .run 0 .good "", .run 0 .good "", .run 0 ⟨none, .failed⟩ "busy", .run 0 .good "", .run 1 .good "",
    .run 1 .good "", .run 1 .good "", .run 1 .good "", .run 1 .good "", .run 1 .good ""]

theorem kept_of_clean_resetsInTurn :
    ∃ s, run (Session.step (apply fun _ t => t) (confirmPasswordReset sampleConfig)) (start (sampleTables sampleEmail))
        resetsInTurn = some s ∧ successes s.calls = [⟨sampleEmail, 1, [9], 5⟩] ∧ Kept (sampleTables sampleEmail) s := by
  have hrun : (run (Session.step (apply fun _ t => t) (confirmPasswordReset sampleConfig))
      (start (sampleTables sampleEmail)) resetsInTurn).any (fun s =>
        decide (successes s.calls = [⟨sampleEmail, 1, [9], 5⟩])) = true := by
    decide +kernel
  obtain ⟨s, hs, hp⟩ := (Option.any_eq_true _ _).mp hrun
  have hclean : Along (Session.step (apply fun _ t => t) (confirmPasswordReset sampleConfig)) (Keeps fun _ t => t)
      (start (sampleTables sampleEmail)) resetsInTurn := by
    decide +kernel
  have hschema : Schema (sampleTables sampleEmail) := ⟨List.nodup_singleton _, List.nodup_singleton _⟩
  exact ⟨s, hs, of_decide_eq_true hp, kept_of_clean sampleConfig (fun _ t => t) hschema hclean hs⟩

/-- Two resets that check the one code before either has used it. -/
def resetsTogether : List (Session.Act Request) :=
  [.start (sampleRequest sampleEmail), .start (sampleRequest sampleEmail), .run 0 .good "", .run 1 .good ""] ++
    List.replicate 5 (.run 0 .good "") ++ List.replicate 5 (.run 1 .good "")

/-- Both succeed. -/
theorem code_used_twice :
    ¬ ∀ (cfg : Config) (other : Bytes → Tables → Tables) (t₀ : Tables) (as : List (Session.Act Request))
      (s : Session.State Tables Write Outcome), Schema t₀ → (∀ o, .start o ∈ as → validateEmail o.email = true) →
      run (Session.step (apply other) (confirmPasswordReset cfg)) (start t₀) as = some s → Kept t₀ s := by
  intro hall
  have hrun : (run (Session.step (apply fun _ t => t) (confirmPasswordReset sampleConfig))
      (start (sampleTables sampleEmail)) resetsTogether).any (fun s =>
        decide ((successes s.calls).map ResetCall.codeId = [1, 1])) = true := by
    decide +kernel
  obtain ⟨s, hs, hp⟩ := (Option.any_eq_true _ _).mp hrun
  have hemail : ∀ o, .start o ∈ resetsTogether → validateEmail o.email = true := by
    intro o ho
    obtain rfl : o = sampleRequest sampleEmail := by simpa [resetsTogether] using ho
    decide +kernel
  have hschema : Schema (sampleTables sampleEmail) := ⟨List.nodup_singleton _, List.nodup_singleton _⟩
  have hkept := hall _ _ _ _ s hschema hemail hs
  have honce := hkept.once
  rw [of_decide_eq_true hp] at honce
  exact absurd honce (by decide)

/-- `o'n@b.c`: the reset succeeds and the refresh token lives. -/
example : validateEmail [0x6F, 0x27, 0x6E, 0x40, 0x62, 0x2E, 0x63] = true ∧
    (run (Session.step (apply fun _ t => t) (confirmPasswordReset sampleConfig))
      (start (sampleTables [0x6F, 0x27, 0x6E, 0x40, 0x62, 0x2E, 0x63]))
      (.start (sampleRequest [0x6F, 0x27, 0x6E, 0x40, 0x62, 0x2E, 0x63]) :: List.replicate 6 (.run 0 .good ""))).any
      (fun s => decide ((successes s.calls).length = 1) && s.committed.refreshTokens.any (!·.revoked)) = true := by
  decide +kernel

end Cortrix.Auth.PasswordReset
