import Cortrix.Lib.Parties
import Cortrix.Lib.Run
import Cortrix.Lib.Txn

/-!
# Calls that interleave on one database connection

A call is a program of SQL statements. The calls share a connection, so a statement of one call may run inside the
transaction of another; every step is one statement of one call, with the outcome the engine gives it.

* `Prog σ ω ρ` : a program over data `σ` with writes `ω` and results `ρ`; `Call`, `State`, `Act`, `step`;
* `State.committed` : the data as a rollback would leave it;
* `Disciplined mode p` : `p` repairs inside its transaction what the transaction breaks, and writes outside of one as
  its last statement; `Clean` : the write is allowed on the data it finds.
-/

namespace Lib.Session
open Txn

variable {σ ω ρ ο γ : Type}

/-- The answer to a statement that reads. -/
inductive Got (σ : Type)
  | unprepared
  | failed
  | data (d : σ)

/-- The answer to a statement that writes. -/
inductive Wrote
  | done
  | unprepared (errmsg : String)
  | refused (constraint : Bool) (errmsg : String)
  deriving DecidableEq

theorem Wrote.forall_not_done {P : Wrote → Prop} (hunprepared : ∀ errmsg, P (.unprepared errmsg))
    (hrefused : ∀ constraint errmsg, P (.refused constraint errmsg)) : ∀ x, x ≠ .done → P x
  | .done, h => absurd rfl h
  | .unprepared errmsg, _ => hunprepared errmsg
  | .refused constraint errmsg, _ => hrefused constraint errmsg

inductive Prog (σ ω ρ : Type)
  | ret (r : ρ)
  | query (k : Got σ → Prog σ ω ρ)
  | execute (w : ω) (k : Wrote → Prog σ ω ρ)
  | beginTxn (k : Bool → Prog σ ω ρ)
  | commit (k : Bool → Prog σ ω ρ)
  | rollback (next : Prog σ ω ρ)

def Prog.isRollback : Prog σ ω ρ → Bool
  | .rollback _ => true
  | .ret _ => false
  | .query _ => false
  | .execute _ _ => false
  | .beginTxn _ => false
  | .commit _ => false

def Prog.write : Prog σ ω ρ → Option ω
  | .execute w _ => some w
  | .ret _ => none
  | .query _ => none
  | .beginTxn _ => none
  | .commit _ => none
  | .rollback _ => none

def Prog.result : Prog σ ω ρ → Option ρ
  | .ret r => some r
  | .rollback _ => none
  | .query _ => none
  | .execute _ _ => none
  | .beginTxn _ => none
  | .commit _ => none

/-- A call: what is left of its program, whether it is inside its own transaction, and whether a statement of that
transaction has failed. -/
structure Call (σ ω ρ : Type) where
  prog : Prog σ ω ρ
  inTxn : Bool := false
  failed : Bool := false

structure State (σ ω ρ : Type) where
  conn : Conn σ
  calls : List (Call σ ω ρ) := []

/-- The call after a statement the engine has refused; it knows that its transaction is gone. -/
def Call.refused (c : Call σ ω ρ) (o : Outcome) (p : Prog σ ω ρ) : Call σ ω ρ :=
  ⟨p, c.inTxn && o != .aborted, c.inTxn⟩

def State.committed (s : State σ ω ρ) : σ := s.conn.saved.getD s.conn.data

/-- The next statement of a call, answered by the engine. -/
def advance (apply : ω → σ → Option σ) (conn : Conn σ) (c : Call σ ω ρ) (st : Stmt) (errmsg : String) :
    Option (Conn σ × Call σ ω ρ) :=
  match c.prog with
  | .ret _ => none
  | .query k =>
    if st.prepare.isSome then some (conn, { c with prog := k .unprepared })
    else if st.step = .ok then some (conn, { c with prog := k (.data conn.data) })
    else some (conn.fault st.step, { c with prog := k .failed, inTxn := c.inTxn && st.step != .aborted })
  | .execute w k =>
    match st.prepare with
    | some msg => some (conn, { c with prog := k (.unprepared msg), failed := c.inTxn })
    | none =>
      if st.step = .ok then
        match apply w conn.data with
        | some d => some ({ conn with data := d }, { c with prog := k .done })
        | none => some (conn, { c with prog := k (.refused true errmsg), failed := c.inTxn })
      else some (conn.fault st.step, c.refused st.step (k (.refused false errmsg)))
  | .beginTxn k =>
    if st.step = .ok ∧ conn.saved = none then some (⟨conn.data, some conn.data⟩, ⟨k true, true, false⟩)
    else some (conn, { c with prog := k false })
  | .commit k =>
    if st.step = .ok ∧ conn.saved.isSome then some (⟨conn.data, none⟩, ⟨k true, false, false⟩)
    else some (conn.fault st.step, c.refused st.step (k false))
  | .rollback next => some (conn.abort, ⟨next, false, false⟩)

inductive Act (ο : Type)
  | start (o : ο)
  | run (i : Nat) (st : Stmt) (errmsg : String)

def step (apply : ω → σ → Option σ) (progOf : ο → Prog σ ω ρ) (s : State σ ω ρ) : Act ο → Option (State σ ω ρ)
  | .start o => some { s with calls := s.calls ++ [{ prog := progOf o }] }
  | .run i st errmsg =>
    s.calls[i]?.bind fun c => (advance apply s.conn c st errmsg).map fun x => ⟨x.1, s.calls.set i x.2⟩

/-! ## Discipline -/

/-- Where a call stands: outside its transaction, inside with the data in `g`, or on its way to the rollback. -/
inductive Mode (γ : Type)
  | out
  | txn (g : γ)
  | doomed

/-- What the calls are held to. `J g` is the data with the gap `g`, `J whole` the data that may be committed. -/
structure Rules (σ ω ρ γ : Type) where
  apply : ω → σ → Option σ
  J : γ → σ → Prop
  whole : γ
  /-- The write is allowed on the data. -/
  Allowed : ω → σ → Prop
  /-- A write that leaves every gap as it is. -/
  Small : ω → Prop
  Moves : ω → γ → γ → Prop
  Good : ρ → Prop
  small_keeps : ∀ {w d d' g}, Small w → Allowed w d → apply w d = some d' → J g d → J g d'
  moves_keeps : ∀ {w d d' g g'}, Moves w g g' → Allowed w d → apply w d = some d' → J g d → J g' d'

/-- `p` succeeds at once. -/
def Succeeds (good : ρ → Prop) (p : Prog σ ω ρ) : Prop := ∃ r, p.result = some r ∧ good r

def Disciplined (R : Rules σ ω ρ γ) : Mode γ → Prog σ ω ρ → Prop
  | .out, .ret _ => True
  | .txn _, .ret _ => False
  | .doomed, .ret _ => False
  | m, .query k => ∀ x, Disciplined R m (k x)
  | .out, .execute w k => R.Small w ∧ Succeeds R.Good (k .done) ∧ ∀ x, x ≠ .done → Disciplined R .out (k x)
  | .txn g, .execute w k =>
    ∃ g', R.Moves w g g' ∧ Disciplined R (.txn g') (k .done) ∧ ∀ x, x ≠ .done → Disciplined R .doomed (k x)
  | .doomed, .execute _ k => ∀ x, Disciplined R .doomed (k x)
  | .out, .beginTxn k => Disciplined R (.txn R.whole) (k true) ∧ Disciplined R .out (k false)
  | .txn _, .beginTxn _ => False
  | .doomed, .beginTxn _ => False
  | .out, .commit _ => False
  | .txn g, .commit k => g = R.whole ∧ Succeeds R.Good (k true) ∧ Disciplined R .doomed (k false)
  | .doomed, .commit _ => False
  | .out, .rollback _ => False
  | .txn _, .rollback next => Disciplined R .out next
  | .doomed, .rollback next => Disciplined R .out next

variable {R : Rules σ ω ρ γ}

/-- The next statement is clean. A write that may yet be committed is allowed on the data it finds. The engine gives
up a transaction only on a statement of its call that is followed by the rollback, and that rollback does not meet
the transaction of another call. -/
structure Call.Clean (R : Rules σ ω ρ γ) (conn : Conn σ) (c : Call σ ω ρ) (st : Stmt) (errmsg : String) : Prop where
  allowed : ∀ w ∈ c.prog.write, c.failed = false → R.Allowed w conn.data
  notLost : st.step = .aborted → conn.saved.isSome = true → c.inTxn = true ∧
    ∀ x ∈ advance R.apply conn c st errmsg, x.2.prog.isRollback = true
  notStray : c.prog.isRollback = true → conn.saved.isSome = true → c.inTxn = true

instance [∀ w d, Decidable (R.Allowed w d)] (conn : Conn σ) (c : Call σ ω ρ) (st : Stmt) (errmsg : String) :
    Decidable (c.Clean R conn st errmsg) :=
  decidable_of_iff
    ((∀ w ∈ c.prog.write, c.failed = false → R.Allowed w conn.data) ∧
      (st.step = .aborted → conn.saved.isSome = true → c.inTxn = true ∧
        ∀ x ∈ advance R.apply conn c st errmsg, x.2.prog.isRollback = true) ∧
      (c.prog.isRollback = true → conn.saved.isSome = true → c.inTxn = true))
    ⟨fun h => ⟨h.1, h.2.1, h.2.2⟩, fun h => ⟨h.allowed, h.notLost, h.notStray⟩⟩

/-- The calls that start are disciplined, the statements clean. -/
def Clean (R : Rules σ ω ρ γ) (progOf : ο → Prog σ ω ρ) (s : State σ ω ρ) : Act ο → Prop
  | .start o => Disciplined R .out (progOf o)
  | .run i st errmsg => ∀ c ∈ s.calls[i]?, c.Clean R s.conn st errmsg

/-! ## The invariant -/

variable {progOf : ο → Prog σ ω ρ}

/-- A call outside a transaction of its own. After the engine has taken its transaction it is about to roll back. -/
inductive Call.Idle (R : Rules σ ω ρ γ) (c : Call σ ω ρ) : Prop
  | out (hin : c.inTxn = false) (hfailed : c.failed = false) (hprog : Disciplined R .out c.prog)
  | lost (next : Prog σ ω ρ) (hin : c.inTxn = false) (hprog : c.prog = .rollback next)
      (hnext : Disciplined R .out next)

/-- The call whose transaction is open. -/
inductive Call.Inside (R : Rules σ ω ρ γ) (d : σ) (c : Call σ ω ρ) : Prop
  | txn (g : γ) (hin : c.inTxn = true) (hfailed : c.failed = false) (hprog : Disciplined R (.txn g) c.prog)
      (hdata : R.J g d)
  | doomed (hin : c.inTxn = true) (hfailed : c.failed = true) (hprog : Disciplined R .doomed c.prog)

inductive Inv (R : Rules σ ω ρ γ) (s : State σ ω ρ) : Prop
  | closed (hsaved : s.conn.saved = none) (hdata : R.J R.whole s.conn.data) (hcalls : ∀ c ∈ s.calls, c.Idle R)
  | opened (d₀ : σ) (hsaved : s.conn.saved = some d₀) (hdata : R.J R.whole d₀) (c : Call σ ω ρ)
      (others : List (Call σ ω ρ)) (hperm : s.calls.Perm (c :: others)) (hinside : c.Inside R s.conn.data)
      (hothers : ∀ x ∈ others, x.Idle R)

theorem Inv.committed {s : State σ ω ρ} (h : Inv R s) : R.J R.whole s.committed := by
  unfold State.committed
  rcases h with ⟨hsaved, hdata, -⟩ | ⟨d₀, hsaved, hdata, -, -, -, -, -⟩
  · rw [hsaved]
    exact hdata
  · rw [hsaved]
    exact hdata

theorem inv_init {d : σ} (h : R.J R.whole d) : Inv R ⟨⟨d, none⟩, []⟩ := .closed rfl h fun _ h => absurd h List.not_mem_nil

variable {s s' : State σ ω ρ} {c c' : Call σ ω ρ} {conn conn' : Conn σ} {others : List (Call σ ω ρ)} {st : Stmt}
  {errmsg : String} {d d₀ : σ} {p : Prog σ ω ρ} {m : Mode γ}

theorem fault_eq {o : Outcome} (h : o = .aborted → conn.saved.isSome = true → False) : conn.fault o = conn := by
  obtain ⟨d, saved⟩ := conn
  rcases saved with - | d₀
  · exact Conn.fault_closed o d
  · rw [Conn.fault, if_neg]
    intro ho
    exact h ho rfl

theorem Disciplined.of_isRollback (h : Disciplined R m p) (hp : p.isRollback = true) :
    ∃ next, p = .rollback next ∧ Disciplined R .out next := by
  cases p with
  | rollback next =>
    refine ⟨next, rfl, ?_⟩
    rcases m with - | g | -
    · exact h.elim
    · exact h
    · exact h
  | ret | query | execute | beginTxn | commit => cases hp

/-- What a statement of a call without an open transaction of its own does. The data changes only by an allowed small
write after which the call has succeeded; a transaction is opened only when none is. -/
inductive Outside (R : Rules σ ω ρ γ) (conn conn' : Conn σ) (c' : Call σ ω ρ) : Prop
  | same (hconn : conn' = conn) (hidle : c'.Idle R)
  | wrote (w : ω) (d : σ) (hconn : conn' = { conn with data := d }) (hidle : c'.Idle R) (hsmall : R.Small w)
      (hallowed : R.Allowed w conn.data) (happly : R.apply w conn.data = some d) (hgood : Succeeds R.Good c'.prog)
  | began (hclosed : conn.saved = none) (hconn : conn' = ⟨conn.data, some conn.data⟩) (hin : c'.inTxn = true)
      (hfailed : c'.failed = false) (hprog : Disciplined R (.txn R.whole) c'.prog)

/-! What a step of a program does, by its next statement. -/

section Advance

variable {apply : ω → σ → Option σ} {inTxn failed : Bool}

theorem advance_query {k : Got σ → Prog σ ω ρ}
    (hs : advance apply conn ⟨.query k, inTxn, failed⟩ st errmsg = some (conn', c')) :
    conn' = conn ∧ (∃ x, (x = .unprepared ∨ x = .data conn.data) ∧ c' = ⟨k x, inTxn, failed⟩) ∨
      conn' = conn.fault st.step ∧ c' = ⟨k .failed, inTxn && st.step != .aborted, failed⟩ := by
  unfold advance at hs
  dsimp only at hs
  split at hs
  · cases hs
    exact .inl ⟨rfl, .unprepared, .inl rfl, rfl⟩
  · split at hs
    · cases hs
      exact .inl ⟨rfl, .data _, .inr rfl, rfl⟩
    · cases hs
      exact .inr ⟨rfl, rfl⟩

theorem advance_execute {w : ω} {k : Wrote → Prog σ ω ρ}
    (hs : advance apply conn ⟨.execute w k, inTxn, failed⟩ st errmsg = some (conn', c')) :
    (∃ d, apply w conn.data = some d ∧ conn' = { conn with data := d } ∧ c' = ⟨k .done, inTxn, failed⟩) ∨
      ∃ x, x ≠ .done ∧ (conn' = conn ∧ c' = ⟨k x, inTxn, inTxn⟩ ∨
        conn' = conn.fault st.step ∧ c' = ⟨k x, inTxn && st.step != .aborted, inTxn⟩) := by
  unfold advance at hs
  dsimp only at hs
  split at hs
  · cases hs
    exact .inr ⟨_, by simp, .inl ⟨rfl, rfl⟩⟩
  · split at hs
    · split at hs
      · rename_i d happly
        cases hs
        exact .inl ⟨d, happly, rfl, rfl⟩
      · cases hs
        exact .inr ⟨_, by simp, .inl ⟨rfl, rfl⟩⟩
    · cases hs
      exact .inr ⟨_, by simp, .inr ⟨rfl, rfl⟩⟩

theorem advance_beginTxn {k : Bool → Prog σ ω ρ}
    (hs : advance apply conn ⟨.beginTxn k, inTxn, failed⟩ st errmsg = some (conn', c')) :
    conn.saved = none ∧ conn' = ⟨conn.data, some conn.data⟩ ∧ c' = ⟨k true, true, false⟩ ∨
      conn' = conn ∧ c' = ⟨k false, inTxn, failed⟩ := by
  unfold advance at hs
  dsimp only at hs
  split at hs
  · rename_i hbegin
    cases hs
    exact .inl ⟨hbegin.2, rfl, rfl⟩
  · cases hs
    exact .inr ⟨rfl, rfl⟩

theorem advance_commit {k : Bool → Prog σ ω ρ}
    (hs : advance apply conn ⟨.commit k, inTxn, failed⟩ st errmsg = some (conn', c')) :
    conn' = ⟨conn.data, none⟩ ∧ c' = ⟨k true, false, false⟩ ∨
      conn' = conn.fault st.step ∧ c' = ⟨k false, inTxn && st.step != .aborted, inTxn⟩ := by
  unfold advance at hs
  dsimp only at hs
  split at hs
  · cases hs
    exact .inl ⟨rfl, rfl⟩
  · cases hs
    exact .inr ⟨rfl, rfl⟩

end Advance

theorem Succeeds.disciplined (h : Succeeds R.Good p) : Disciplined R .out p := by
  obtain ⟨r, hr, -⟩ := h
  cases p with
  | ret => trivial
  | query | execute | beginTxn | commit | rollback => cases hr

theorem Call.Idle.advance (h : c.Idle R) (hclean : c.Clean R conn st errmsg)
    (hs : advance R.apply conn c st errmsg = some (conn', c')) : Outside R conn conn' c' := by
  obtain ⟨prog, inTxn, failed⟩ := c
  rcases h with ⟨hin, hfailed, hprog⟩ | ⟨next, hin, hprog, hnext⟩
  · obtain rfl : inTxn = false := hin
    obtain rfl : failed = false := hfailed
    have hfault : conn.fault st.step = conn := fault_eq fun ho hsome => by cases (hclean.notLost ho hsome).1
    cases prog with
    | ret => cases hs
    | query k =>
      rcases advance_query hs with ⟨rfl, x, -, rfl⟩ | ⟨rfl, rfl⟩
      · exact .same rfl (.out rfl rfl (hprog _))
      · exact .same hfault (.out rfl rfl (hprog _))
    | execute w k =>
      obtain ⟨hsmall, hgood, hbad⟩ := hprog
      rcases advance_execute hs with ⟨d, happly, rfl, rfl⟩ | ⟨x, hx, ⟨rfl, rfl⟩ | ⟨rfl, rfl⟩⟩
      · exact .wrote w d rfl (.out rfl rfl hgood.disciplined) hsmall (hclean.allowed w rfl rfl) happly hgood
      · exact .same rfl (.out rfl rfl (hbad x hx))
      · exact .same hfault (.out rfl rfl (hbad x hx))
    | beginTxn k =>
      rcases advance_beginTxn hs with ⟨hclosed, rfl, rfl⟩ | ⟨rfl, rfl⟩
      · exact .began hclosed rfl rfl rfl hprog.1
      · exact .same rfl (.out rfl rfl hprog.2)
    | commit | rollback => exact hprog.elim
  · obtain rfl : inTxn = false := hin
    obtain rfl : prog = .rollback next := hprog
    cases hs
    have hclosed : conn.saved = none := by
      rw [Option.eq_none_iff_forall_ne_some]
      intro d₀ hsome
      cases hclean.notStray rfl (by rw [hsome]; rfl)
    obtain ⟨d, saved⟩ := conn
    obtain rfl : saved = none := hclosed
    exact .same rfl (.out rfl rfl hnext)

/-- What a statement of the call whose transaction is open does: it goes on inside, or the transaction ends, committed
as the call succeeds or undone. -/
inductive Within (R : Rules σ ω ρ γ) (d₀ : σ) (conn' : Conn σ) (c' : Call σ ω ρ) : Prop
  | inside (hsaved : conn'.saved = some d₀) (hinside : c'.Inside R conn'.data)
  | committed (hsaved : conn'.saved = none) (hdata : R.J R.whole conn'.data) (hidle : c'.Idle R)
      (hgood : Succeeds R.Good c'.prog)
  | undone (hconn : conn' = ⟨d₀, none⟩) (hidle : c'.Idle R)

theorem within_refused {o : Outcome} (hm : Disciplined R .doomed p) (hlost : o = .aborted → p.isRollback = true) :
    Within R d₀ ((Conn.mk d (some d₀)).fault o) ⟨p, true && o != .aborted, true⟩ := by
  by_cases ho : o = .aborted
  · obtain ⟨next, rfl, hnext⟩ := hm.of_isRollback (hlost ho)
    subst ho
    exact .undone rfl (.lost next rfl rfl hnext)
  · rw [fault_eq fun h _ => ho h]
    exact .inside rfl (.doomed (by simp [ho]) rfl hm)

theorem Call.Inside.advance (h : c.Inside R d) (hclean : c.Clean R ⟨d, some d₀⟩ st errmsg)
    (hs : advance R.apply ⟨d, some d₀⟩ c st errmsg = some (conn', c')) : Within R d₀ conn' c' := by
  have hlost : st.step = .aborted → c'.prog.isRollback = true := by
    intro ho
    exact (hclean.notLost ho rfl).2 _ (Option.mem_def.mpr hs)
  obtain ⟨prog, inTxn, failed⟩ := c
  rcases h with ⟨g, hin, hfailed, hprog, hdata⟩ | ⟨hin, hfailed, hprog⟩
  · obtain rfl : inTxn = true := hin
    obtain rfl : failed = false := hfailed
    cases prog with
    | ret => cases hs
    | query k =>
      rcases advance_query hs with ⟨rfl, x, -, rfl⟩ | ⟨rfl, rfl⟩
      · exact .inside rfl (.txn g rfl rfl (hprog x) hdata)
      · by_cases ho : st.step = .aborted
        · obtain ⟨next, hp, hnext⟩ := (hprog .failed).of_isRollback (hlost ho)
          rw [ho]
          exact .undone rfl (.lost next rfl hp hnext)
        · rw [fault_eq fun h _ => ho h]
          exact .inside rfl (.txn g (by simp [ho]) rfl (hprog _) hdata)
    | execute w k =>
      obtain ⟨g', hmoves, hdone, hbad⟩ := hprog
      rcases advance_execute hs with ⟨d', happly, rfl, rfl⟩ | ⟨x, hx, ⟨rfl, rfl⟩ | ⟨rfl, rfl⟩⟩
      · exact .inside rfl (.txn g' rfl rfl hdone (R.moves_keeps hmoves (hclean.allowed w rfl rfl) happly hdata))
      · exact .inside rfl (.doomed rfl rfl (hbad x hx))
      · exact within_refused (hbad x hx) hlost
    | beginTxn => exact hprog.elim
    | commit k =>
      obtain ⟨rfl, hgood, hbad⟩ := hprog
      rcases advance_commit hs with ⟨rfl, rfl⟩ | ⟨rfl, rfl⟩
      · exact .committed rfl hdata (.out rfl rfl hgood.disciplined) hgood
      · exact within_refused hbad hlost
    | rollback next =>
      cases hs
      exact .undone rfl (.out rfl rfl hprog)
  · obtain rfl : inTxn = true := hin
    obtain rfl : failed = true := hfailed
    cases prog with
    | ret => cases hs
    | query k =>
      rcases advance_query hs with ⟨rfl, x, -, rfl⟩ | ⟨rfl, rfl⟩
      · exact .inside rfl (.doomed rfl rfl (hprog x))
      · exact within_refused (hprog .failed) hlost
    | execute w k =>
      rcases advance_execute hs with ⟨d', -, rfl, rfl⟩ | ⟨x, -, ⟨rfl, rfl⟩ | ⟨rfl, rfl⟩⟩
      · exact .inside rfl (.doomed rfl rfl (hprog .done))
      · exact .inside rfl (.doomed rfl rfl (hprog x))
      · exact within_refused (hprog x) hlost
    | beginTxn | commit => exact hprog.elim
    | rollback next =>
      cases hs
      exact .undone rfl (.out rfl rfl hprog)

theorem Call.Inside.small {w : ω} (h : c.Inside R conn.data) (hsmall : R.Small w) (hallowed : R.Allowed w conn.data)
    (happly : R.apply w conn.data = some d) : c.Inside R d := by
  rcases h with ⟨g, hin, hfailed, hprog, hdata⟩ | ⟨hin, hfailed, hprog⟩
  · exact .txn g hin hfailed hprog (R.small_keeps hsmall hallowed happly hdata)
  · exact .doomed hin hfailed hprog

theorem Call.Inside.inTxn (h : c.Inside R d) : c.inTxn = true := by
  rcases h with ⟨-, hin, -, -, -⟩ | ⟨hin, -, -⟩ <;> exact hin

theorem Call.Idle.inTxn (h : c.Idle R) : c.inTxn = false := by
  rcases h with ⟨hin, -, -⟩ | ⟨-, hin, -, -⟩ <;> exact hin

/-- The calls before and after call `x` has moved, with the others told apart from the one whose transaction is open. -/
theorem split_idle {x x' : Call σ ω ρ} {rest calls calls' : List (Call σ ω ρ)} (hcalls : calls.Perm (c :: others))
    (hx : calls.Perm (x :: rest)) (hx' : calls'.Perm (x' :: rest)) (hin : c.inTxn = true) (hout : x.inTxn = false) :
    ∃ others', others.Perm (x :: others') ∧ calls'.Perm (c :: x' :: others') := by
  have hmem : x ∈ c :: others := hcalls.mem_iff.mp (hx.mem_iff.mpr List.mem_cons_self)
  have hne : x ≠ c := by
    rintro rfl
    rw [hin] at hout
    cases hout
  obtain ⟨a, b, rfl⟩ := List.append_of_mem ((List.mem_cons.mp hmem).resolve_left hne)
  have hmid : (a ++ x :: b).Perm (x :: (a ++ b)) := List.perm_middle
  have hrest : rest.Perm (c :: (a ++ b)) := by
    have h := hx.symm.trans (hcalls.trans ((hmid.cons c).trans (.swap x c (a ++ b))))
    exact (List.perm_cons x).mp h
  exact ⟨a ++ b, hmid, hx'.trans ((hrest.cons x').trans (.swap c x' (a ++ b)))⟩

variable {a : Act ο}

/-- The rule of the steps: the committed data stays good, and changes only in a step in which a call succeeds. -/
theorem Inv.step (h : Inv R s) (hclean : Clean R progOf s a) (hs : step R.apply progOf s a = some s') :
    Inv R s' ∧ (s'.committed = s.committed ∨
      ∃ i st errmsg c, a = .run i st errmsg ∧ s'.calls[i]? = some c ∧ Succeeds R.Good c.prog) := by
  rcases a with o | ⟨i, st, errmsg⟩
  · cases hs
    have hnew : ({ prog := progOf o } : Call σ ω ρ).Idle R := .out rfl rfl hclean
    refine ⟨?_, .inl rfl⟩
    rcases h with ⟨hsaved, hdata, hcalls⟩ | ⟨d₀, hsaved, hdata, c, others, hperm, hinside, hothers⟩
    · refine .closed hsaved hdata fun x hx => ?_
      rcases List.mem_append.mp hx with hold | hnew'
      · exact hcalls x hold
      · rw [List.mem_singleton.mp hnew']
        exact hnew
    · refine .opened d₀ hsaved hdata c (others ++ [_]) (hperm.append_right _) hinside fun x hx => ?_
      rcases List.mem_append.mp hx with hold | hnew'
      · exact hothers x hold
      · rw [List.mem_singleton.mp hnew']
        exact hnew
  · obtain ⟨x, hx, hs⟩ := Option.bind_eq_some_iff.mp hs
    obtain ⟨⟨conn', x'⟩, hadv, rfl⟩ := Option.map_eq_some_iff.mp hs
    have hcl := hclean x hx
    obtain ⟨rest, hp, hp'⟩ := exists_others hx x'
    have hget : (s.calls.set i x')[i]? = some x' := by
      rw [List.getElem?_set_self (List.getElem?_eq_some_iff.mp hx).1]
    obtain ⟨conn, calls⟩ := s
    obtain ⟨data, saved⟩ := conn
    rcases h with ⟨hsaved, hdata, hcalls⟩ | ⟨d₀, hsaved, hdata, c, others, hperm, hinside, hothers⟩
    · obtain rfl : saved = none := hsaved
      have hrest : ∀ y ∈ rest, y.Idle R := fun y hy => hcalls y (hp.mem_iff.mpr (List.mem_cons_of_mem _ hy))
      have hidles : x'.Idle R → ∀ y ∈ calls.set i x', y.Idle R := by
        intro hx' y hy
        rcases List.mem_cons.mp (hp'.mem_iff.mp hy) with rfl | hy
        · exact hx'
        · exact hrest y hy
      rcases (hcalls x (List.mem_of_getElem? hx)).advance hcl hadv with
        ⟨rfl, hidle⟩ | ⟨w, d, rfl, hidle, hsmall, hallowed, happly, hgood⟩ | ⟨-, rfl, hin, hfailed, hprog⟩
      · exact ⟨.closed rfl hdata (hidles hidle), .inl rfl⟩
      · exact ⟨.closed rfl (R.small_keeps hsmall hallowed happly hdata) (hidles hidle),
          .inr ⟨i, st, errmsg, x', rfl, hget, hgood⟩⟩
      · exact ⟨.opened data rfl hdata x' rest hp' (.txn R.whole hin hfailed hprog hdata) hrest, .inl rfl⟩
    · obtain rfl : saved = some d₀ := hsaved
      by_cases hin : x.inTxn = true
      · have hxc : x = c := by
          rcases List.mem_cons.mp (hperm.mem_iff.mp (List.mem_of_getElem? hx)) with rfl | hmem
          · rfl
          · rw [(hothers x hmem).inTxn] at hin
            cases hin
        subst hxc
        have hrest : rest.Perm others := (List.perm_cons x).mp (hp.symm.trans hperm)
        have hidles : x'.Idle R → ∀ y ∈ calls.set i x', y.Idle R := by
          intro hx' y hy
          rcases List.mem_cons.mp (hp'.mem_iff.mp hy) with rfl | hy
          · exact hx'
          · exact hothers y (hrest.mem_iff.mp hy)
        rcases hinside.advance hcl hadv with
          ⟨hsaved, hinside'⟩ | ⟨hsaved, hdata', hidle, hgood⟩ | ⟨rfl, hidle⟩
        · refine ⟨.opened d₀ hsaved hdata x' others (hp'.trans (hrest.cons x')) hinside' hothers, .inl ?_⟩
          unfold State.committed
          rw [hsaved]
          rfl
        · exact ⟨.closed hsaved hdata' (hidles hidle), .inr ⟨i, st, errmsg, x', rfl, hget, hgood⟩⟩
        · exact ⟨.closed rfl hdata (hidles hidle), .inl rfl⟩
      · have hout : x.inTxn = false := by simpa using hin
        obtain ⟨others', hperm', hpc⟩ := split_idle hperm hp hp' hinside.inTxn hout
        have hrest : ∀ y ∈ others', y.Idle R := fun y hy => hothers y (hperm'.mem_iff.mpr (List.mem_cons_of_mem _ hy))
        have hothers' : x'.Idle R → ∀ y ∈ x' :: others', y.Idle R := fun hx' =>
          List.forall_mem_cons.mpr ⟨hx', hrest⟩
        rcases (hothers x (hperm'.mem_iff.mpr List.mem_cons_self)).advance hcl hadv with
          ⟨rfl, hidle⟩ | ⟨w, d, rfl, hidle, hsmall, hallowed, happly, -⟩ | ⟨hclosed, -, -, -, -⟩
        · exact ⟨.opened d₀ rfl hdata c (x' :: others') hpc hinside (hothers' hidle), .inl rfl⟩
        · exact ⟨.opened d₀ rfl hdata c (x' :: others') hpc (hinside.small hsmall hallowed happly) (hothers' hidle),
            .inl rfl⟩
        · cases hclosed

/-! ## Calls one after another -/

def Call.Ended (c : Call σ ω ρ) : Prop := c.prog.result.isSome = true

instance (c : Call σ ω ρ) : Decidable c.Ended := inferInstanceAs (Decidable (_ = true))

/-- Nothing is left but writes that are undone. -/
def Closing : Prog σ ω ρ → Prop
  | .ret _ => True
  | .query k => ∀ x, Closing (k x)
  | .execute _ k => ∀ x, Closing (k x)
  | .beginTxn _ => False
  | .commit _ => False
  | .rollback next => next.result.isSome = true

/-- Run from data that only the program itself changes, every write that may be committed is allowed. -/
def Guarded (R : Rules σ ω ρ γ) : σ → Bool → Prog σ ω ρ → Prop
  | _, _, .ret _ => True
  | d, b, .query k => Guarded R d b (k .unprepared) ∧ Guarded R d b (k .failed) ∧ Guarded R d b (k (.data d))
  | d, b, .execute w k => R.Allowed w d ∧ (∀ d' ∈ R.apply w d, Guarded R d' b (k .done)) ∧
    ∀ x, x ≠ .done → if b then Closing (k x) else (k x).result.isSome = true
  | d, _, .beginTxn k => Guarded R d true (k true) ∧ (k false).result.isSome = true
  | _, b, .commit k => b = true ∧ (k true).result.isSome = true ∧ Closing (k false)
  | _, _, .rollback next => next.result.isSome = true

/-- What a call that runs alone has ahead of it. -/
def Call.Alone (R : Rules σ ω ρ γ) (d : σ) (c : Call σ ω ρ) : Prop :=
  if c.failed then c.inTxn = true ∧ Closing c.prog else Guarded R d c.inTxn c.prog

/-- All calls but one have ended. -/
inductive Single (R : Rules σ ω ρ γ) (s : State σ ω ρ) : Prop
  | none (hended : ∀ c ∈ s.calls, c.Ended)
  | one (c : Call σ ω ρ) (others : List (Call σ ω ρ)) (hperm : s.calls.Perm (c :: others))
      (halone : c.Alone R s.conn.data) (hended : ∀ x ∈ others, x.Ended)

/-- A call that starts finds the others ended and is guarded on the data as it is; the engine gives up no
transaction. -/
def Serial (R : Rules σ ω ρ γ) (progOf : ο → Prog σ ω ρ) (s : State σ ω ρ) : Act ο → Prop
  | .start o => (∀ c ∈ s.calls, c.Ended) ∧ Disciplined R .out (progOf o) ∧ Guarded R s.conn.data false (progOf o)
  | .run _ st _ => st.step ≠ .aborted

theorem advance_of_ended (h : c.Ended) : advance R.apply conn c st errmsg = none := by
  obtain ⟨prog, inTxn, failed⟩ := c
  cases prog with
  | ret => rfl
  | query | execute | beginTxn | commit | rollback => cases h

theorem Guarded.of_result {b : Bool} (h : p.result.isSome = true) : Guarded R d b p := by
  cases p with
  | ret => trivial
  | query | execute | beginTxn | commit | rollback => cases h

theorem Call.Alone.of_result (h : c.Ended) (hin : c.failed = false) : c.Alone R d := by
  unfold Call.Alone
  rw [hin]
  exact Guarded.of_result h

theorem Call.Alone.of_refused {inTxn : Bool} (h : if inTxn then Closing p else p.result.isSome = true) :
    (⟨p, inTxn, inTxn⟩ : Call σ ω ρ).Alone R d := by
  unfold Call.Alone
  rcases inTxn
  · exact Guarded.of_result h
  · exact ⟨rfl, h⟩

theorem Call.Alone.advance (h : c.Alone R conn.data) (hab : st.step ≠ .aborted)
    (hs : advance R.apply conn c st errmsg = some (conn', c')) : c'.Alone R conn'.data := by
  have hfault : conn.fault st.step = conn := fault_eq fun ho => absurd ho hab
  obtain ⟨prog, inTxn, failed⟩ := c
  have hin : (inTxn && st.step != .aborted) = inTxn := by simp [hab]
  unfold Call.Alone at h
  rcases failed
  · cases prog with
    | ret => cases hs
    | query k =>
      obtain ⟨hunprepared, hfailed, hdata⟩ := h
      rcases advance_query hs with ⟨rfl, x, rfl | rfl, rfl⟩ | ⟨rfl, rfl⟩
      · exact hunprepared
      · exact hdata
      · rw [hfault, hin]
        exact hfailed
    | execute w k =>
      obtain ⟨-, hdone, hbad⟩ := h
      rcases advance_execute hs with ⟨d, happly, rfl, rfl⟩ | ⟨x, hx, ⟨rfl, rfl⟩ | ⟨rfl, rfl⟩⟩
      · exact hdone d happly
      · exact .of_refused (hbad x hx)
      · rw [hfault, hin]
        exact .of_refused (hbad x hx)
    | beginTxn k =>
      rcases advance_beginTxn hs with ⟨-, rfl, rfl⟩ | ⟨rfl, rfl⟩
      · exact h.1
      · exact .of_result h.2 rfl
    | commit k =>
      obtain ⟨hb, hgood, hbad⟩ := h
      obtain rfl : inTxn = true := hb
      rcases advance_commit hs with ⟨rfl, rfl⟩ | ⟨rfl, rfl⟩
      · exact .of_result hgood rfl
      · rw [hfault, hin]
        exact .of_refused hbad
    | rollback next =>
      cases hs
      exact .of_result h rfl
  · obtain ⟨hb, hclosing⟩ := h
    obtain rfl : inTxn = true := hb
    cases prog with
    | ret => cases hs
    | query k =>
      rcases advance_query hs with ⟨rfl, x, -, rfl⟩ | ⟨rfl, rfl⟩
      · exact ⟨rfl, hclosing x⟩
      · rw [hfault, hin]
        exact ⟨rfl, hclosing _⟩
    | execute w k =>
      rcases advance_execute hs with ⟨d, -, rfl, rfl⟩ | ⟨x, -, ⟨rfl, rfl⟩ | ⟨rfl, rfl⟩⟩
      · exact ⟨rfl, hclosing .done⟩
      · exact ⟨rfl, hclosing x⟩
      · rw [hfault, hin]
        exact ⟨rfl, hclosing x⟩
    | beginTxn | commit => exact hclosing.elim
    | rollback next =>
      cases hs
      exact .of_result hclosing rfl

theorem Call.Inside.not_ended (h : c.Inside R d) : ¬ c.Ended := by
  obtain ⟨prog, inTxn, failed⟩ := c
  intro hended
  cases prog with
  | ret =>
    rcases h with ⟨g, -, -, hprog, -⟩ | ⟨-, -, hprog⟩
    · exact hprog
    · exact hprog
  | query | execute | beginTxn | commit | rollback => cases hended

theorem Single.inTxn (hinv : Inv R s) (hsingle : Single R s) (hopen : s.conn.saved.isSome = true) (hc : c ∈ s.calls)
    (hnot : ¬ c.Ended) : c.inTxn = true := by
  rcases hinv with ⟨hsaved, -, -⟩ | ⟨d₀, -, -, x, others, hperm, hinside, -⟩
  · rw [hsaved] at hopen
    cases hopen
  · have hx : x ∈ s.calls := hperm.mem_iff.mpr List.mem_cons_self
    rcases hsingle with hended | ⟨y, rest, hp, -, hended⟩
    · exact absurd (hended c hc) hnot
    · have hxy : x = y := by
        refine (List.mem_cons.mp (hp.mem_iff.mp hx)).resolve_right fun hmem => ?_
        exact hinside.not_ended (hended x hmem)
      have hcy : c = y := (List.mem_cons.mp (hp.mem_iff.mp hc)).resolve_right fun hmem => hnot (hended c hmem)
      rw [hcy, ← hxy]
      exact hinside.inTxn

/-- Calls that run one after the other, each guarded on the data it starts from, take only clean steps. -/
theorem Single.step (hinv : Inv R s) (hsingle : Single R s) (hserial : Serial R progOf s a) :
    Clean R progOf s a ∧ ∀ s', step R.apply progOf s a = some s' → Inv R s' ∧ Single R s' := by
  have hclean : Clean R progOf s a := by
    rcases a with o | ⟨i, st, errmsg⟩
    · exact hserial.2.1
    · intro c hc
      have hmem := List.mem_of_getElem? (Option.mem_def.mp hc)
      have halone : ¬ c.Ended → c.Alone R s.conn.data := by
        intro hnot
        rcases hsingle with hended | ⟨y, rest, hp, halone, hended⟩
        · exact absurd (hended c hmem) hnot
        · rw [(List.mem_cons.mp (hp.mem_iff.mp hmem)).resolve_right fun hm => hnot (hended c hm)]
          exact halone
      refine ⟨fun w hw hfailed => ?_, fun ho => absurd ho hserial, fun hroll hopen => ?_⟩
      · obtain ⟨prog, inTxn, failed⟩ := c
        obtain rfl : failed = false := hfailed
        cases prog with
        | execute w' k =>
          obtain rfl : w' = w := Option.some.inj hw
          exact (halone (by simp [Call.Ended, Prog.result])).1
        | ret | query | beginTxn | commit | rollback => cases hw
      · refine hsingle.inTxn hinv hopen hmem fun hended => ?_
        obtain ⟨prog, inTxn, failed⟩ := c
        cases prog with
        | rollback => cases hended
        | ret | query | execute | beginTxn | commit => cases hroll
  refine ⟨hclean, fun s' hs => ⟨(hinv.step hclean hs).1, ?_⟩⟩
  rcases a with o | ⟨i, st, errmsg⟩
  · cases hs
    obtain ⟨hended, -, hguarded⟩ := hserial
    exact .one { prog := progOf o } s.calls List.perm_append_comm hguarded hended
  · obtain ⟨x, hx, hs⟩ := Option.bind_eq_some_iff.mp hs
    obtain ⟨⟨conn', x'⟩, hadv, rfl⟩ := Option.map_eq_some_iff.mp hs
    have hmem := List.mem_of_getElem? hx
    have hnot : ¬ x.Ended := by
      intro hended
      rw [advance_of_ended hended] at hadv
      cases hadv
    obtain ⟨rest, hp, hp'⟩ := exists_others hx x'
    rcases hsingle with hended | ⟨y, others, hperm, halone, hended⟩
    · exact absurd (hended x hmem) hnot
    · obtain rfl : x = y := (List.mem_cons.mp (hperm.mem_iff.mp hmem)).resolve_right fun hm => hnot (hended x hm)
      have hrest : rest.Perm others := (List.perm_cons x).mp (hp.symm.trans hperm)
      exact .one x' others (hp'.trans (hrest.cons x')) (halone.advance hserial hadv) hended

end Lib.Session
