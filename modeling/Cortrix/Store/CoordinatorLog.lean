import Cortrix.Store.CoordinatorSteps

/-!
# What the coordinator does to pending.wal
-/

namespace Cortrix.Store
open Lib

namespace WriteCoordinator
open PendingLogWriter
open PendingEntry (Fits serialize stored)

def Call.record : Call → Option PendingEntry
  | .beginAppend e | .commitAppend e _ _ | .rollbackAppend e _ => some e
  | _ => none

def appending (s : State) (tid : Nat) : Option PendingEntry := (s.calls tid).bind Call.record

/-- The file ends where its scan ends. -/
def AtEnd (image : Bytes) : Prop := (scanRecords image).2 = image.length

instance (image : Bytes) : Decidable (AtEnd image) := inferInstanceAs (Decidable (_ = _))

/-! ## One append -/

theorem scanRecords_image {image : Bytes} {e : PendingEntry} (o : AppendOutcome)
    (h : PendingLogWriter.kHeaderSize ≤ image.length)
    (hend : AtEnd image) (hfit : Fits e) :
    scanRecords (o.image image e.serialize) =
        ((scanRecords image).1 ++ [stored e], (o.image image e.serialize).length) ∨
      o ≠ .ok ∧ (scanRecords (o.image image e.serialize)).1 = (scanRecords image).1 := by
  have hwhole := scanRecords_append [e] h hend (by simpa using hfit)
  simp only [List.map_cons, List.map_nil, List.flatten_cons, List.flatten_nil, List.append_nil] at hwhole
  cases o with
  | ok => exact Or.inl hwhole
  | failed landed err =>
    by_cases hlanded : landed < e.serialize.length
    · refine Or.inr ⟨by simp, ?_⟩
      rw [AppendOutcome.image, scanRecords_eq (by rw [List.length_append]; omega), scanRecords_eq h]
      rw [AtEnd, scanRecords_eq h] at hend
      exact congrArg Prod.fst (scan_append_torn (c := PendingEntry.codec) hend hfit hlanded)
    · rw [AppendOutcome.image, List.take_of_length_le (by omega)]
      exact Or.inl hwhole

theorem AppendOutcome.wellHeaded {image : Bytes} (o : AppendOutcome) (h : WellHeaded image) (frame : Bytes) :
    WellHeaded (o.image image frame) := by
  cases o with
  | ok => exact h.append _
  | failed landed err => exact h.append _

/-! ## One step -/

/-- What a step did to the file and to the acknowledged records. -/
inductive LogStep (s s' : State) : Act → Prop
  | same {a : Act} (himage : s'.image = s.image) (hacked : s'.acked = s.acked) (ha : ∀ tid o, a ≠ .append tid o) :
    LogStep s s' a
  | append {tid : Nat} {o : AppendOutcome} {e : PendingEntry} (hrec : appending s tid = some e)
      (himage : s'.image = o.image s.image e.serialize)
      (hacked : s'.acked = if o = .ok then s.acked ++ [e] else s.acked) : LogStep s s' (.append tid o)
  | compact {tid : Nat} (himage : s'.image = PendingLogWriter.compact s.image)
      (hacked : s'.acked = unfinished s.acked) : LogStep s s' (.compact tid true)

/-- Outside recovery a step leaves the file alone, appends a record, or compacts. -/
theorem Next.log {cfg : Config} {s s' : State} {a : Act} (h : Next cfg s a s')
    (hlive : ∀ order outcome complete, a ≠ .recover order outcome complete) : LogStep s s' a := by
  have happ : ∀ {tid c e}, s.calls tid = some c → c.record = some e → appending s tid = some e := by
    intro tid c e hc he
    rw [appending, hc, Option.bind_some, he]
  cases h with
  | beginAcked hc | beginFailed hc | commitAcked hc | commitRetry hc | commitFailed hc | rollbackAcked hc
  | rollbackFailed hc st => exact .append (happ hc rfl) rfl rfl
  | compacted hc => exact .compact rfl rfl
  | recovered h => exact absurd rfl (hlive _ _ _)
  | refused ha hrunning hidle st =>
    refine .same rfl rfl ?_
    rintro tid o rfl
    cases ha
  | _ => exact .same rfl rfl (by simp)

/-- The records in flight are what their frames store. -/
def Plain (s : State) : Prop := ∀ tid e, appending s tid = some e → stored e = e

theorem Plain.setCall {s s' : State} (h : Plain s) {tid : Nat} {c : Option Call}
    (hcalls : s'.calls = Function.update s.calls tid c) (hc : ∀ e, c.bind Call.record = some e → stored e = e) :
    Plain s' := by
  intro t e he
  rw [appending, hcalls] at he
  rcases eq_or_ne t tid with rfl | hne
  · rw [Function.update_self] at he
    exact hc e he
  · rw [Function.update_of_ne hne] at he
    exact h t e he

theorem Plain.next {cfg : Config} {s s' : State} {a : Act} (hp : Plain s) (h : Next cfg s a s') : Plain s' := by
  have hnone : ∀ e, (none : Option PendingEntry) = some e → stored e = e := fun _ h => nomatch h
  cases h with
  | refused ha hrunning hidle st => exact hp.setCall rfl hnone
  | begun hrunning hidle hres | committing hrunning hidle hmark | rollingBack hrunning hidle hmark =>
    refine hp.setCall rfl ?_
    rintro e ⟨⟩
    rfl
  | commitRetry hc =>
    refine hp.setCall rfl ?_
    rintro e ⟨⟩
    exact hp _ _ (by rw [appending, hc]; rfl)
  | wrote hlive => exact hp
  | wroteLabel hlive => exact hp
  | recovered h =>
    intro tid e he
    simp only [stepRecover] at h
    repeat' split at h
    all_goals cases h
    all_goals cases he
  | _ => exact hp.setCall rfl hnone

end WriteCoordinator
end Cortrix.Store
