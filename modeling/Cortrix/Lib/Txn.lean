import Mathlib.Data.List.Basic

/-!
# Transactions of a database connection

A connection sees its data and, while a transaction is open, the data the transaction started from. Every statement
comes with the outcome the engine gives it: it may fail and leave the transaction open, or fail and have the engine
roll the whole transaction back.

* `Conn σ` : the connection; `Conn.abort`, `Conn.fault`, `Conn.rollback`;
* `Conn.startTxn`, `Conn.exec`, `Conn.endTxn` : single statements, whose success the caller may look at or ignore;
* `Sql σ ε α` : a procedure that issues statements and returns a value or an error; `beginTxn`, `commit`, `execute`,
  `query`, `abandon` (`ROLLBACK`, then the error);
* `Ends m c Q E` : run from `c`, the procedure returns a value and a connection that meet `Q`, or an error and a
  connection that meet `E`; one rule for each statement inside an open transaction.
-/

namespace Lib.Txn

variable {σ ε α β : Type}

/-- What the engine answers to a statement. -/
inductive Outcome
  | ok
  /-- An error after which an open transaction stays open. -/
  | failed
  /-- An error for which the engine has rolled the transaction back. -/
  | aborted
  deriving DecidableEq

/-- A prepared statement: the error text of a prepare that fails, and the outcome of running it. -/
structure Stmt where
  prepare : Option String
  step : Outcome
  deriving DecidableEq

def Stmt.good : Stmt := ⟨none, .ok⟩

/-- A connection; `saved` is what a rollback of the open transaction goes back to. -/
structure Conn (σ : Type) where
  data : σ
  saved : Option σ
  deriving DecidableEq

namespace Conn

def abort (c : Conn σ) : Conn σ :=
  match c.saved with
  | some s => ⟨s, none⟩
  | none => c

/-- The connection after a statement with this outcome has done nothing else. -/
def fault (o : Outcome) (c : Conn σ) : Conn σ := if o = .aborted then c.abort else c

/-- `ROLLBACK`, which is an error without an open transaction. -/
def rollback (o : Outcome) (c : Conn σ) : Conn σ := if o = .failed then c else c.abort

@[simp] theorem abort_open (t s : σ) : (Conn.mk t (some s)).abort = ⟨s, none⟩ := rfl

@[simp] theorem fault_closed (o : Outcome) (t : σ) : (Conn.mk t none).fault o = ⟨t, none⟩ := by
  unfold fault
  split <;> rfl

@[simp] theorem rollback_closed (o : Outcome) (t : σ) : (Conn.mk t none).rollback o = ⟨t, none⟩ := by
  unfold rollback
  split <;> rfl

theorem rollback_open {rb : Outcome} (hrb : rb ≠ .failed) (t s : σ) :
    (Conn.mk t (some s)).rollback rb = ⟨s, none⟩ := by
  rw [rollback, if_neg hrb, abort_open]

theorem rollback_fault {rb : Outcome} (hrb : rb ≠ .failed) (o : Outcome) (t s : σ) :
    ((Conn.mk t (some s)).fault o).rollback rb = ⟨s, none⟩ := by
  by_cases ho : o = .aborted
  · rw [fault, if_pos ho, abort_open, rollback_closed]
  · rw [fault, if_neg ho, rollback_open hrb]

/-! ### Single statements, each with whether it succeeded -/

def startTxn (o : Outcome) (c : Conn σ) : Bool × Conn σ :=
  if o = .ok ∧ c.saved = none then (true, ⟨c.data, some c.data⟩) else (false, c)

def exec (o : Outcome) (f : σ → σ) (c : Conn σ) : Bool × Conn σ :=
  if o = .ok then (true, ⟨f c.data, c.saved⟩) else (false, c.fault o)

/-- `COMMIT`, nothing being done when it fails. -/
def endTxn (o : Outcome) (c : Conn σ) : Bool × Conn σ :=
  if o = .ok ∧ c.saved.isSome then (true, ⟨c.data, none⟩) else (false, c.fault o)

theorem exec_closed (o : Outcome) (f : σ → σ) (t : σ) :
    exec o f ⟨t, none⟩ = (decide (o = .ok), ⟨if o = .ok then f t else t, none⟩) := by
  unfold exec
  by_cases ho : o = .ok <;> simp [ho]

theorem exec_open (o : Outcome) (f : σ → σ) (t s : σ) :
    exec o f ⟨t, some s⟩ = (decide (o = .ok),
      if o = .aborted then ⟨s, none⟩ else ⟨if o = .ok then f t else t, some s⟩) := by
  unfold exec
  cases o <;> simp [fault]

theorem endTxn_closed (o : Outcome) (t : σ) : endTxn o ⟨t, none⟩ = (false, ⟨t, none⟩) := by
  unfold endTxn
  simp

theorem endTxn_open (o : Outcome) (t s : σ) :
    endTxn o ⟨t, some s⟩ = match o with
      | .ok => (true, ⟨t, none⟩)
      | .failed => (false, ⟨t, some s⟩)
      | .aborted => (false, ⟨s, none⟩) := by
  unfold endTxn
  cases o <;> simp [fault]

end Conn

/-! ## Procedures -/

abbrev Sql (σ ε α : Type) : Type := ExceptT ε (StateM (Conn σ)) α

def beginTxn (o : Outcome) (e : ε) : Sql σ ε Unit := fun c =>
  if o = .ok ∧ c.saved = none then (.ok (), ⟨c.data, some c.data⟩) else (.error e, c)

/-- `ROLLBACK`, its own outcome ignored, and the error. -/
def abandon (rb : Outcome) (e : ε) : Sql σ ε α := fun c => (.error e, c.rollback rb)

/-- `COMMIT`, given up with a rollback when it fails. -/
def commit (o rb : Outcome) (e : ε) : Sql σ ε Unit := fun c =>
  if o = .ok ∧ c.saved.isSome then (.ok (), ⟨c.data, none⟩) else abandon rb e (c.fault o)

/-- A statement that writes; `onStep` is run after a failure of the statement itself. -/
def execute (st : Stmt) (onPrepare : String → Sql σ ε α) (onStep : Sql σ ε α) (f : σ → α × σ) : Sql σ ε α := fun c =>
  match st.prepare with
  | some m => onPrepare m c
  | none => if st.step = .ok then (.ok (f c.data).1, ⟨(f c.data).2, c.saved⟩) else onStep (c.fault st.step)

/-- A statement that reads one row: a failure of the statement itself reads as no row. -/
def query (st : Stmt) (onPrepare : String → Sql σ ε α) (noRow : α) (g : σ → α) : Sql σ ε α := fun c =>
  match st.prepare with
  | some m => onPrepare m c
  | none => if st.step = .ok then (.ok (g c.data), c) else (.ok noRow, c.fault st.step)

/-! ## Rules -/

/-- From `c` the procedure ends in `Q` with a value or in `E` with an error. -/
def Ends (m : Sql σ ε α) (c : Conn σ) (Q : α → Conn σ → Prop) (E : ε → Conn σ → Prop) : Prop :=
  match (m c).1 with
  | .ok a => Q a (m c).2
  | .error e => E e (m c).2

/-- No transaction is open and the data is `s`: what a procedure that gives up leaves. -/
def RolledBack (s : σ) (_ : ε) (c : Conn σ) : Prop := c = ⟨s, none⟩

theorem rolledBack (s : σ) (e : ε) : RolledBack s e ⟨s, none⟩ := rfl

variable {m : Sql σ ε α} {c : Conn σ} {Q Q' : α → Conn σ → Prop} {E : ε → Conn σ → Prop} {o rb : Outcome} {e : ε}
  {st : Stmt} {t s : σ}

theorem Ends.ok {a : α} (h : Ends m c Q E) (hm : (m c).1 = .ok a) : Q a (m c).2 := by
  rwa [Ends, hm] at h

theorem Ends.error (h : Ends m c Q E) (hm : (m c).1 = .error e) : E e (m c).2 := by
  rwa [Ends, hm] at h

theorem Ends.mono (h : Ends m c Q E) (hQ : ∀ a c', Q a c' → Q' a c') : Ends m c Q' E := by
  unfold Ends at h ⊢
  cases hm : (m c).1 with
  | ok a =>
    rw [hm] at h
    exact hQ a _ h
  | error e =>
    rwa [hm] at h

theorem ends_pure {a : α} (h : Q a c) : Ends (pure a : Sql σ ε α) c Q E := h

theorem ends_bind {f : α → Sql σ ε β} {R : β → Conn σ → Prop} (h : Ends m c (fun a c' => Ends (f a) c' R E) E) :
    Ends (m >>= f) c R E := by
  have hbind : (m >>= f) c = match (m c).1 with
      | .ok a => f a (m c).2
      | .error e => (.error e, (m c).2) := by
    show (ExceptT.bindCont f (m c).1) (m c).2 = _
    cases (m c).1 <;> rfl
  unfold Ends at h ⊢
  rw [hbind]
  cases hm : (m c).1 with
  | ok a =>
    rwa [hm] at h
  | error e =>
    rwa [hm] at h

theorem ends_abandon (hrb : rb ≠ .failed) (h : E e ⟨s, none⟩) : Ends (abandon rb e) ⟨t, some s⟩ Q E := by
  show E e ((Conn.mk t (some s)).rollback rb)
  rw [Conn.rollback_open hrb]
  exact h

theorem ends_begin {Q : Unit → Conn σ → Prop} (h : Q () ⟨t, some t⟩) (he : E e ⟨t, none⟩) :
    Ends (beginTxn o e) ⟨t, none⟩ Q E := by
  unfold Ends beginTxn
  by_cases ho : o = .ok
  · simpa only [ho, true_and, if_true] using h
  · simpa only [ho, false_and, if_false] using he

theorem ends_commit {Q : Unit → Conn σ → Prop} (hrb : rb ≠ .failed) (h : Q () ⟨t, none⟩) (he : E e ⟨s, none⟩) :
    Ends (commit o rb e) ⟨t, some s⟩ Q E := by
  unfold Ends commit
  by_cases ho : o = .ok
  · simpa only [ho, true_and, Option.isSome_some, if_true] using h
  · simp only [ho, false_and, if_false, abandon, Conn.rollback_fault hrb]
    exact he

theorem ends_commit_lost {Q : Unit → Conn σ → Prop} (he : E e ⟨t, none⟩) : Ends (commit o rb e) ⟨t, none⟩ Q E := by
  unfold Ends commit
  simpa [abandon] using he

theorem ends_execute {onPrepare : String → ε} {onStep : ε} {f : σ → α × σ} (hrb : rb ≠ .failed)
    (h : Q (f t).1 ⟨(f t).2, some s⟩) (hprep : ∀ msg, st.prepare = some msg → E (onPrepare msg) ⟨s, none⟩)
    (hstep : E onStep ⟨s, none⟩) :
    Ends (execute st (fun msg => abandon rb (onPrepare msg)) (abandon rb onStep) f) ⟨t, some s⟩ Q E := by
  unfold Ends execute
  cases hp : st.prepare with
  | some msg =>
    show E (onPrepare msg) ((Conn.mk t (some s)).rollback rb)
    rw [Conn.rollback_open hrb]
    exact hprep msg hp
  | none =>
    by_cases ho : st.step = .ok
    · simpa only [ho, if_true] using h
    · simp only [ho, if_false, abandon, Conn.rollback_fault hrb]
      exact hstep

theorem ends_query {onPrepare : String → Sql σ ε α} {noRow : α} {g : σ → α}
    (hprep : ∀ msg, st.prepare = some msg → Ends (onPrepare msg) c Q E)
    (h : st.prepare = none → st.step = .ok → Q (g c.data) c)
    (hfail : st.prepare = none → st.step ≠ .ok → Q noRow (c.fault st.step)) :
    Ends (query st onPrepare noRow g) c Q E := by
  unfold Ends query
  cases hp : st.prepare with
  | some msg => exact hprep msg hp
  | none =>
    by_cases ho : st.step = .ok
    · simpa only [ho, if_true] using h hp ho
    · simpa only [ho, if_false] using hfail hp ho

end Lib.Txn
