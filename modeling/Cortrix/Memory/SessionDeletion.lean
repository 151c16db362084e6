import Cortrix.Common.Json
import Cortrix.Common.Status
import Cortrix.Lib.Txn

/-!
# Deletion of a memory session

`SessionDelete` looks the session up and deletes its interactions and its row in a transaction, looking at the result of
the last deletion only.

* every statement's outcome is given;
* `Atomic` : Ok means that exactly the session is gone, an error that nothing is, and no transaction stays open;
* `atomic_iff` : when a call is atomic, for every store, session id and failure.
-/

namespace Cortrix.Memory.SessionDeletion
open Lib Lib.Txn

structure Session where
  sessionId : String
  columns : String
  deriving DecidableEq

structure Interaction where
  id : String
  sessionId : String
  columns : String
  deriving DecidableEq

structure Tables where
  sessions : List Session
  interactions : List Interaction
  deriving DecidableEq

def isSession (sessionId : String) (s : Session) : Bool := s.sessionId == sessionId

def ofSession (sessionId : String) (i : Interaction) : Bool := i.sessionId == sessionId

def deleteInteractions (sessionId : String) (t : Tables) : Tables :=
  { t with interactions := deleteWhere (ofSession sessionId) t.interactions }

def deleteSession (sessionId : String) (t : Tables) : Tables :=
  { t with sessions := deleteWhere (isSession sessionId) t.sessions }

/-- What the engine and the testing seam do in one call; a statement that cannot be prepared fails in its step. -/
structure Env where
  opFault : Bool := false
  check : Outcome := .ok
  beginTxn : Outcome := .ok
  delInteractions : Outcome := .ok
  delSession : Outcome := .ok
  commit : Outcome := .ok
  errmsg : String := ""

def sessionDelete (env : Env) (sessionId : String) (c : Conn Tables) : Status × Conn Tables :=
  if env.opFault then (⟨.internal, "injected store failure"⟩, c)
  else
    let bound := cText sessionId
    if !(env.check == .ok && c.data.sessions.any (isSession bound)) then
      (⟨.notFound, "Session not found: " ++ sessionId⟩, c.fault env.check)
    else
      let begun := c.startTxn env.beginTxn
      let cleared := begun.2.exec env.delInteractions (deleteInteractions bound)
      let removed := cleared.2.exec env.delSession (deleteSession bound)
      if !removed.1 then (⟨.internal, "SessionDelete failed: " ++ env.errmsg⟩, removed.2.rollback .ok)
      else (Status.okStatus, (removed.2.endTxn env.commit).2)

/-! ## Atomic calls -/

def without (sessionId : String) (t : Tables) : Tables := deleteSession sessionId (deleteInteractions sessionId t)

def Atomic (sessionId : String) (t : Tables) (r : Status × Conn Tables) : Prop :=
  if r.1.isOk then r.2 = ⟨without sessionId t, none⟩ else r.2 = ⟨t, none⟩

def HasInteractions (sessionId : String) (t : Tables) : Prop := t.interactions.any (ofSession sessionId) = true

/-- The transaction is open when the session row is to be deleted. -/
abbrev Open (env : Env) : Prop := env.beginTxn = .ok ∧ env.delInteractions ≠ .aborted

/-- A call that ends with Ok has deleted and committed everything, or its id names no row (it has a NUL) and the engine
has taken everything back; one that fails had a transaction to roll back, or nothing that it deleted before. -/
def Keeps (env : Env) (sessionId : String) (t : Tables) : Prop :=
  env.opFault = true ∨ env.check ≠ .ok ∨ t.sessions.any (isSession (cText sessionId)) = false ∨
  if env.delSession = .ok then
    (cText sessionId = sessionId ∧ (env.delInteractions = .ok ∨ ¬ HasInteractions sessionId t) ∧
      (Open env → env.commit = .ok)) ∨
    (Open env ∧ env.commit = .aborted ∧ t.sessions.any (isSession sessionId) = false ∧ ¬ HasInteractions sessionId t)
  else Open env ∨ env.delInteractions ≠ .ok ∨ ¬ HasInteractions (cText sessionId) t

/-! ## The statements -/

variable {env : Env} {sessionId : String} {t : Tables}

theorem deleteInteractions_eq_self : deleteInteractions sessionId t = t ↔ ¬ HasInteractions sessionId t := by
  have hblocks : deleteInteractions sessionId t = t ↔ deleteWhere (ofSession sessionId) t.interactions = t.interactions :=
    ⟨fun h => congrArg Tables.interactions h, fun h => by rw [deleteInteractions, h]⟩
  rw [hblocks, deleteWhere_eq_self, HasInteractions, List.any_eq_true]
  simp

theorem without_eq_self : without sessionId t = t ↔
    t.sessions.any (isSession sessionId) = false ∧ ¬ HasInteractions sessionId t := by
  rw [← deleteInteractions_eq_self, List.any_eq_false]
  constructor
  · intro h
    have hsessions : deleteWhere (isSession sessionId) t.sessions = t.sessions := congrArg Tables.sessions h
    refine ⟨fun s hs => by simpa using deleteWhere_eq_self.mp hsessions s hs, ?_⟩
    have hinteractions : deleteWhere (ofSession sessionId) t.interactions = t.interactions :=
      congrArg Tables.interactions h
    rw [deleteInteractions, hinteractions]
  · rintro ⟨hsessions, hinteractions⟩
    have hself : deleteWhere (isSession sessionId) t.sessions = t.sessions :=
      deleteWhere_eq_self.mpr fun s hs => by simpa using hsessions s hs
    rw [without, hinteractions, deleteSession, hself]

/-- The tables when the session row is to be deleted. -/
def cleared (env : Env) (sessionId : String) (t : Tables) : Tables :=
  if env.delInteractions = .ok then deleteInteractions sessionId t else t

theorem exec_cleared (env : Env) (sessionId : String) (t : Tables) :
    (Conn.exec env.delInteractions (deleteInteractions sessionId) (Conn.startTxn env.beginTxn ⟨t, none⟩).2).2 =
      ⟨cleared env sessionId t, if Open env then some t else none⟩ := by
  by_cases hbegin : env.beginTxn = .ok
  · have hbegun : Conn.startTxn env.beginTxn ⟨t, none⟩ = (true, ⟨t, some t⟩) := by simp [Conn.startTxn, hbegin]
    rw [hbegun, Conn.exec_open, cleared]
    by_cases haborted : env.delInteractions = .aborted
    · have hclosed : ¬ Open env := fun h => h.2 haborted
      rw [if_pos haborted, if_neg hclosed, if_neg (by rw [haborted]; decide)]
    · have hopen : Open env := ⟨hbegin, haborted⟩
      rw [if_neg haborted, if_pos hopen]
  · have hbegun : Conn.startTxn env.beginTxn ⟨t, none⟩ = (false, ⟨t, none⟩) := by simp [Conn.startTxn, hbegin]
    have hclosed : ¬ Open env := fun h => hbegin h.1
    rw [hbegun, Conn.exec_closed, if_neg hclosed, cleared]

theorem call_eq (hfault : env.opFault = false) (hcheck : env.check = .ok)
    (hfound : t.sessions.any (isSession (cText sessionId)) = true) :
    sessionDelete env sessionId ⟨t, none⟩ =
      if env.delSession = .ok then (Status.okStatus,
        (Conn.endTxn env.commit ⟨deleteSession (cText sessionId) (cleared env (cText sessionId) t),
          if Open env then some t else none⟩).2)
      else (⟨.internal, "SessionDelete failed: " ++ env.errmsg⟩,
        ⟨if Open env then t else cleared env (cText sessionId) t, none⟩) := by
  unfold sessionDelete
  simp only [hfault, hcheck, hfound, exec_cleared, Bool.false_eq_true, if_false, beq_self_eq_true, Bool.and_self,
    Bool.not_true]
  by_cases hopen : Open env
  · rw [if_pos hopen, if_pos hopen, Conn.exec_open]
    cases hstep : env.delSession <;> simp [Conn.rollback_open]
  · rw [if_neg hopen, if_neg hopen, Conn.exec_closed]
    cases hstep : env.delSession <;> simp

theorem call_early (h : env.opFault = true ∨ env.check ≠ .ok ∨ t.sessions.any (isSession (cText sessionId)) = false) :
    Atomic sessionId t (sessionDelete env sessionId ⟨t, none⟩) := by
  unfold sessionDelete
  by_cases hfault : env.opFault = true
  · rw [if_pos hfault]
    rfl
  · rw [if_neg hfault]
    have hmiss : (env.check == .ok && t.sessions.any (isSession (cText sessionId))) = false := by
      rcases h with h | h | h
      · exact absurd h hfault
      · simp [h]
      · simp [h]
    simp only [hmiss, Bool.not_false, if_true, Conn.fault_closed]
    rfl

/-- The call deletes what was asked for when its id is bound whole and no interaction stays. -/
theorem deleted_eq (hfound : t.sessions.any (isSession (cText sessionId)) = true) :
    deleteSession (cText sessionId) (cleared env (cText sessionId) t) = without sessionId t ↔
      cText sessionId = sessionId ∧ (env.delInteractions = .ok ∨ ¬ HasInteractions sessionId t) := by
  constructor
  · intro h
    have hsessions : deleteWhere (isSession (cText sessionId)) t.sessions =
        deleteWhere (isSession sessionId) t.sessions := by
      have hcleared : (cleared env (cText sessionId) t).sessions = t.sessions := by
        unfold cleared
        split <;> rfl
      have hboth := congrArg Tables.sessions h
      rwa [deleteSession, hcleared] at hboth
    obtain ⟨s, hs, his⟩ := List.any_eq_true.mp hfound
    have his' := (deleteWhere_inj.mp hsessions s hs).mp his
    rw [isSession, beq_iff_eq] at his his'
    have hid : cText sessionId = sessionId := his.symm.trans his'
    refine ⟨hid, ?_⟩
    by_cases hstep : env.delInteractions = .ok
    · exact Or.inl hstep
    · have hinteractions := congrArg Tables.interactions h
      rw [cleared, if_neg hstep] at hinteractions
      refine Or.inr (deleteInteractions_eq_self.mp ?_)
      show { t with interactions := (without sessionId t).interactions } = t
      rw [← hinteractions]
      rfl
  · rintro ⟨hid, hgone⟩
    rw [hid, without, cleared]
    by_cases hstep : env.delInteractions = .ok
    · rw [if_pos hstep]
    · rw [if_neg hstep, deleteInteractions_eq_self.mpr (hgone.resolve_left hstep)]

/-- A call on a connection without an open transaction is atomic under this condition and no other. -/
theorem atomic_iff (env : Env) (sessionId : String) (t : Tables) :
    Atomic sessionId t (sessionDelete env sessionId ⟨t, none⟩) ↔ Keeps env sessionId t := by
  by_cases hearly : env.opFault = true ∨ env.check ≠ .ok ∨ t.sessions.any (isSession (cText sessionId)) = false
  · refine iff_of_true (call_early hearly) ?_
    rcases hearly with h | h | h
    · exact Or.inl h
    · exact Or.inr (Or.inl h)
    · exact Or.inr (Or.inr (Or.inl h))
  · simp only [not_or, ne_eq, not_not, Bool.not_eq_true, Bool.not_eq_false] at hearly
    obtain ⟨hfault, hcheck, hfound⟩ := hearly
    rw [call_eq hfault hcheck hfound]
    unfold Keeps
    rw [hfault, hcheck, hfound]
    by_cases hstep : env.delSession = .ok
    · rw [if_pos hstep, if_pos hstep]
      have hok : Atomic sessionId t (Status.okStatus, (Conn.endTxn env.commit
          ⟨deleteSession (cText sessionId) (cleared env (cText sessionId) t), if Open env then some t else none⟩).2) ↔
          (Conn.endTxn env.commit ⟨deleteSession (cText sessionId) (cleared env (cText sessionId) t),
            if Open env then some t else none⟩).2 = ⟨without sessionId t, none⟩ := Iff.rfl
      rw [hok]
      by_cases hopen : Open env
      · rw [if_pos hopen, Conn.endTxn_open]
        cases hcommit : env.commit with
        | ok => simp [deleted_eq hfound]
        | failed => simp [Open, hopen.1, hopen.2]
        | aborted => simp [Open, hopen.1, hopen.2, eq_comm (a := t), without_eq_self]
      · rw [if_neg hopen, Conn.endTxn_closed]
        simp [deleted_eq hfound, hopen]
    · rw [if_neg hstep, if_neg hstep]
      have herror : Atomic sessionId t (⟨.internal, "SessionDelete failed: " ++ env.errmsg⟩,
          ⟨if Open env then t else cleared env (cText sessionId) t, none⟩) ↔
          (if Open env then t else cleared env (cText sessionId) t) = t := by
        unfold Atomic
        simp [Status.isOk]
      rw [herror]
      by_cases hopen : Open env
      · simp [Open, hopen.1, hopen.2]
      · rw [if_neg hopen, cleared]
        by_cases hdel : env.delInteractions = .ok
        · simp [hdel, hopen, deleteInteractions_eq_self]
        · simp [hdel]

/-! ## Calls -/

def oneSession : Tables where
  sessions := [⟨"s1", ""⟩]
  interactions := [⟨"i1", "s1", "question"⟩]

theorem atomic_iff_oneSession : Atomic "s1" oneSession (sessionDelete {} "s1" ⟨oneSession, none⟩) :=
  (atomic_iff {} "s1" oneSession).mpr (Or.inr (Or.inr (Or.inr (Or.inl ⟨by decide, Or.inl rfl, fun _ => rfl⟩))))

/-- A `COMMIT` that fails is reported as Ok, with the transaction left open. -/
theorem lost_commit : ¬ Atomic "s1" oneSession (sessionDelete { commit := .failed } "s1" ⟨oneSession, none⟩) := by
  intro h
  have hconn : (sessionDelete { commit := .failed } "s1" ⟨oneSession, none⟩).2 = ⟨without "s1" oneSession, none⟩ := h
  exact absurd hconn (by decide)

end Cortrix.Memory.SessionDeletion
