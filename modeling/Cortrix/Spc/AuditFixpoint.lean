import Cortrix.Spc.RepairedRows

/-!
# An audit and the next one

After an audit every chunk that lacks an artifact is tracked and no complete chunk is given up on, and an audit that runs
next finds nothing to write. The one way out is a count that has reached `kEnrichNoTerminal`: the bound stands for no
bound, and a chunk that owes nothing but its index label is given up on all the same, by this audit and by every later
one.

* `audited_iff_counted`; `spent_label` : a count at the bound.
-/

namespace Cortrix.Spc
open Lib BackfillWorker

/-! ## The audit and its counters -/

/-- What the audit reports, with the table as it stands. -/
structure AuditReport where
  rows : List EnrichStateRow
  synthesized : Nat
  settled : Nat

def AuditReport.add (now : Int) (a : AuditReport) : AuditWrite → AuditReport
  | .settle blockId => { a with rows := settleTerminalRow blockId now a.rows, settled := a.settled + 1 }
  | .reowe w terminalAt => { a with rows := reoweEnrichState w terminalAt a.rows, synthesized := a.synthesized + 1 }

def childBlocks (blocks : List Block) : List Block := blocks.filter fun b => b.childId != ""

/-- `SynthesizeEnrichAuditRows`, with the settled rows counted. -/
def auditReport (configured : List String) (now : Int) (st : UnitStore) (rows : List EnrichStateRow) : AuditReport :=
  let v := (AuditView.ofStore configured st).track rows
  (childBlocks st.blocks).foldl (fun a b => ((auditBlock v now b).map (a.add now)).getD a) ⟨rows, 0, 0⟩

def auditWrites (configured : List String) (now : Int) (st : UnitStore) (rows : List EnrichStateRow) :
    List AuditWrite :=
  (childBlocks st.blocks).filterMap (auditBlock ((AuditView.ofStore configured st).track rows) now)

/-! ## What an audit is for -/

section Purpose
variable (configured : List String) (st : UnitStore)

/-- An artifact of a configured member is missing where the gates expect one. -/
def Lacks (x : Block) : Prop := ∃ tok ∈ configured, ¬ Present st x tok

/-- The columns and the vector are there, and the index label is all that is missing. -/
def OwesOnlyLabel (x : Block) : Prop :=
  Lacks configured st x ∧ (∀ tok ∈ configured, tok ≠ "f35" → Present st x tok) ∧ x.vector.isSome

/-- The postcondition of an audit that found `rows` and left `rows'`. -/
structure Audited (rows rows' : List EnrichStateRow) : Prop where
  tracked : ∀ x ∈ childBlocks st.blocks, Lacks configured st x →
    ∃ r, rowOf x.blockId rows' = some r ∧ (r.status = .pendingRetry ∨ r.status = .failedPermanent)
  settled : ∀ x ∈ childBlocks st.blocks, ¬ Lacks configured st x →
    ∀ r, rowOf x.blockId rows' = some r → r.status ≠ .failedPermanent
  labels : ∀ x ∈ childBlocks st.blocks, OwesOnlyLabel configured st x →
    ∀ r, rowOf x.blockId rows' = some r → r.status ≠ .failedPermanent
  attempts : ∀ b r, rowOf b rows = some r → ∃ r', rowOf b rows' = some r' ∧ r.attempts ≤ r'.attempts
  pending : ∀ b r, rowOf b rows = some r → r.status = .pendingRetry → rowOf b rows' = some r

/-- An audit of `rows` changes no row and reports nothing. -/
def Steady (now : Int) (rows : List EnrichStateRow) : Prop := auditReport configured now st rows = ⟨rows, 0, 0⟩

/-- No chunk that owes nothing but its label has a count that passes for no bound, unless it is in flight. -/
def Counted (rows : List EnrichStateRow) : Prop :=
  ∀ x ∈ childBlocks st.blocks, OwesOnlyLabel configured st x →
    ∀ r, rowOf x.blockId rows = some r → r.status ≠ .pendingRetry → r.attempts < kEnrichNoTerminal

end Purpose

/-! ## The statements of an audit -/

variable {configured : List String} {st : UnitStore} {rows : List EnrichStateRow} {now : Int} {x : Block} {b : Nat}

namespace AuditWrite

def blockId : AuditWrite → Nat
  | settle blockId => blockId
  | reowe w _ => w.blockId

def settles : AuditWrite → Bool
  | settle _ => true
  | reowe _ _ => false

def after (now : Int) : AuditWrite → Option EnrichStateRow → Option EnrichStateRow
  | settle _, row => row.map fun r => if r.isGivenUp then r.settle now else r
  | reowe w terminalAt, row =>
      some ((row.map (w.reowe terminalAt)).getD { w with nextRetryAt := bindRetryAt w.nextRetryAt, generation := 0 })

theorem writesOne (now : Int) : WritesOne EnrichStateRow.blockId (apply now) blockId (after now) where
  own := by
    rintro rows (blk | ⟨w, t⟩)
    · show rowOf blk (settleTerminalRow blk now rows) = _
      unfold settleTerminalRow
      rw [rowOf_updateWhere (by intro _; rfl)]
      refine Option.map_congr fun r hr => ?_
      have hid : r.blockId = blk := (lookup_eq_some hr).2
      simp [hid]
    · show rowOf w.blockId (reoweEnrichState w t rows) = after now (reowe w t) (rowOf w.blockId rows)
      rcases hrow : rowOf w.blockId rows with - | r
      · have hins : insertRow EnrichStateRow.blockId
            { w with nextRetryAt := bindRetryAt w.nextRetryAt, generation := 0 } rows = some _ :=
          insertRow_eq_some.mpr ⟨lookup_eq_none.mp hrow, rfl⟩
        unfold reoweEnrichState
        rw [hins]
        unfold rowOf lookup at hrow ⊢
        rw [List.find?_append, hrow, Option.none_or, List.find?_singleton]
        simp [after]
      · have hid : r.blockId = w.blockId := (lookup_eq_some hrow).2
        rw [rowOf_reoweEnrichState w t hrow]
        simp [hid, after]
  other := by
    rintro rows (blk | ⟨w, t⟩) b hne
    · show rowOf b (settleTerminalRow blk now rows) = _
      unfold settleTerminalRow
      rw [rowOf_updateWhere (by intro _; rfl)]
      refine (Option.map_congr fun r hr => ?_).trans Option.map_id'
      have hid : r.blockId = b := (lookup_eq_some hr).2
      have hother : (r.blockId == blk) = false := by
        rw [hid]
        exact beq_eq_false_iff_ne.mpr hne
      simp [hother]
    · show rowOf b (reoweEnrichState w t rows) = rowOf b rows
      rcases hrow : rowOf b rows with - | r
      · rcases hrow' : rowOf b (reoweEnrichState w t rows) with - | r
        · rfl
        · exact absurd (rowOf_reoweEnrichState_new hrow hrow').1.symm hne
      · have hid : r.blockId = b := (lookup_eq_some hrow).2
        have hother : (r.blockId == w.blockId) = false := by
          rw [hid]
          exact beq_eq_false_iff_ne.mpr hne
        rw [rowOf_reoweEnrichState w t hrow, hother]
        rfl

end AuditWrite

theorem auditBlock_blockId {v : AuditView} {w : AuditWrite} (h : auditBlock v now x = some w) :
    w.blockId = x.blockId := by
  rcases w with blk | ⟨w, t⟩
  · unfold auditBlock at h
    split at h
    · split at h
      · cases h
        rfl
      · cases h
    · split at h
      · cases h
      · split at h <;> cases h
  · obtain ⟨rfl, -, -⟩ := auditBlock_eq_reowe h
    rfl

theorem foldl_add (now : Int) (ws : List AuditWrite) (a : AuditReport) : ws.foldl (AuditReport.add now) a =
    ⟨ws.foldl (AuditWrite.apply now) a.rows, a.synthesized + ws.countP fun w => !w.settles,
      a.settled + ws.countP AuditWrite.settles⟩ := by
  induction ws generalizing a with
  | nil => rfl
  | cons w ws ih =>
    rw [List.foldl_cons, ih, List.foldl_cons, List.countP_cons, List.countP_cons]
    rcases w with blk | ⟨w, t⟩
    · simp only [AuditReport.add, AuditWrite.apply, AuditWrite.settles, Nat.add_right_comm _ 1, Nat.add_assoc]
      rfl
    · simp only [AuditReport.add, AuditWrite.apply, AuditWrite.settles, Nat.add_right_comm _ 1, Nat.add_assoc]
      rfl

theorem auditReport_eq : auditReport configured now st rows =
    ⟨(auditWrites configured now st rows).foldl (AuditWrite.apply now) rows,
      (auditWrites configured now st rows).countP fun w => !w.settles,
      (auditWrites configured now st rows).countP AuditWrite.settles⟩ := by
  have hfold : auditReport configured now st rows =
      (auditWrites configured now st rows).foldl (AuditReport.add now) ⟨rows, 0, 0⟩ := by
    unfold auditReport auditWrites
    rw [List.foldl_filterMap]
    refine List.foldl_ext _ _ _ fun a y _ => ?_
    rcases auditBlock ((AuditView.ofStore configured st).track rows) now y with - | w <;> rfl
  rw [hfold, foldl_add, Nat.zero_add, Nat.zero_add]

theorem auditReport_rows :
    (auditReport configured now st rows).rows = synthesizeEnrichAuditRows configured now st rows := by
  rw [auditReport_eq]
  unfold auditWrites synthesizeEnrichAuditRows childBlocks
  rw [List.foldl_filterMap]
  refine List.foldl_ext _ _ _ fun rows' y _ => ?_
  rcases auditBlock ((AuditView.ofStore configured st).track rows) now y with - | w <;> rfl

theorem steady_iff : Steady configured st now rows ↔
    ∀ x ∈ childBlocks st.blocks, auditBlock ((AuditView.ofStore configured st).track rows) now x = none := by
  unfold Steady
  rw [auditReport_eq, ← List.filterMap_eq_nil_iff]
  change _ ↔ auditWrites configured now st rows = []
  constructor
  · intro h
    injection h with _ hsynthesized hsettled
    rw [List.countP_eq_zero] at hsynthesized hsettled
    refine List.eq_nil_iff_forall_not_mem.mpr fun w hw => hsettled w hw ?_
    simpa using hsynthesized w hw
  · intro h
    rw [h]
    rfl

/-! ## The row of a chunk after an audit -/

theorem mem_childBlocks : x ∈ childBlocks st.blocks ↔ x ∈ st.blocks ∧ x.childId ≠ "" := by
  rw [childBlocks, List.mem_filter, bne_iff_ne]

theorem auditWrites_nodup (hblocks : Keyed Block.blockId st.blocks) :
    ((auditWrites configured now st rows).map AuditWrite.blockId).Nodup := by
  have hkeys : (childBlocks st.blocks |>.map Block.blockId).Nodup :=
    List.Nodup.sublist (List.filter_sublist.map Block.blockId) hblocks
  unfold auditWrites
  refine hkeys.sublist ?_
  generalize childBlocks st.blocks = xs
  induction xs with
  | nil => exact List.Sublist.refl _
  | cons y xs ih =>
    rw [List.filterMap_cons]
    rcases hw : auditBlock ((AuditView.ofStore configured st).track rows) now y with - | w
    · exact ih.cons _
    · rw [List.map_cons, List.map_cons, auditBlock_blockId hw]
      exact ih.cons_cons _

theorem rowOf_auditReport (configured : List String) (now : Int) (rows : List EnrichStateRow)
    (hblocks : Keyed Block.blockId st.blocks) (hx : x ∈ childBlocks st.blocks) :
    rowOf x.blockId (auditReport configured now st rows).rows =
      ((auditBlock ((AuditView.ofStore configured st).track rows) now x).map
        fun w => w.after now (rowOf x.blockId rows)).getD (rowOf x.blockId rows) := by
  rw [auditReport_eq]
  rcases hw : auditBlock ((AuditView.ofStore configured st).track rows) now x with - | w
  · refine (AuditWrite.writesOne now).lookup_foldl_of_notMem _ _ fun hmem => ?_
    obtain ⟨w, hmem, hid⟩ := List.mem_map.mp hmem
    obtain ⟨y, hy, hyw⟩ := List.mem_filterMap.mp hmem
    have heq : y = x := hblocks.eq_of_key (mem_childBlocks.mp hy).1 (mem_childBlocks.mp hx).1
      ((auditBlock_blockId hyw).symm.trans hid)
    rw [heq, hw] at hyw
    cases hyw
  · have hmem : w ∈ auditWrites configured now st rows := List.mem_filterMap.mpr ⟨x, hx, hw⟩
    have hrow := (AuditWrite.writesOne now).lookup_foldl_of_mem rows (auditWrites_nodup hblocks) hmem
    rwa [auditBlock_blockId hw] at hrow

theorem rowOf_auditReport_other (configured : List String) (now : Int) (rows : List EnrichStateRow)
    (hb : ∀ x ∈ childBlocks st.blocks, x.blockId ≠ b) :
    rowOf b (auditReport configured now st rows).rows = rowOf b rows := by
  rw [auditReport_eq]
  refine (AuditWrite.writesOne now).lookup_foldl_of_notMem _ _ fun hmem => ?_
  obtain ⟨w, hmem, hid⟩ := List.mem_map.mp hmem
  obtain ⟨y, hy, hyw⟩ := List.mem_filterMap.mp hmem
  exact hb y hy ((auditBlock_blockId hyw).symm.trans hid)

/-! ## What the audit decides for a chunk -/

theorem mem_owedMembers_ofStore {tok : String} :
    tok ∈ (AuditView.ofStore configured st).owedMembers x ↔ tok ∈ configured ∧ ¬ Present st x tok := by
  constructor
  · intro hmem
    refine ⟨?_, fun hpresent => present_iff_not_owed.mp hpresent configured hmem⟩
    rcases mem_owedMembers.mp hmem with ⟨rfl, hc, -⟩ | ⟨rfl, hc, -⟩ | ⟨rfl, hc, -⟩ <;> exact hc
  · rintro ⟨hc, hnot⟩
    rw [present_iff_not_owed, not_forall] at hnot
    obtain ⟨others, hmem⟩ := hnot
    rw [not_not, mem_owedMembers] at hmem
    refine mem_owedMembers.mpr ?_
    rcases hmem with ⟨rfl, -, h⟩ | ⟨rfl, -, h⟩ | ⟨rfl, -, h⟩
    · exact .inl ⟨rfl, hc, h⟩
    · exact .inr (.inl ⟨rfl, hc, h⟩)
    · exact .inr (.inr ⟨rfl, hc, h⟩)

theorem owedMembers_isEmpty :
    ((AuditView.ofStore configured st).owedMembers x).isEmpty = true ↔ ¬ Lacks configured st x := by
  rw [List.isEmpty_iff, List.eq_nil_iff_forall_not_mem, Lacks, not_exists]
  exact forall_congr' fun tok => not_congr mem_owedMembers_ofStore

theorem owedMembers_sublist (v : AuditView) (x : Block) : (v.owedMembers x).Sublist ["f03", "f35", "f38"] := by
  have hite : ∀ (c : Bool) (tok : String), (if c then [tok] else []).Sublist [tok] := by
    rintro (- | -) tok
    · exact List.nil_sublist _
    · exact List.Sublist.refl _
  unfold AuditView.owedMembers
  exact (hite _ "f03").append ((hite _ "f35").append (hite _ "f38"))

theorem labelOnlyMiss_iff : (AuditView.ofStore configured st).labelOnlyMiss x = true ↔ OwesOnlyLabel configured st x := by
  unfold AuditView.labelOnlyMiss OwesOnlyLabel
  rw [Bool.and_eq_true, Bool.and_eq_true, Bool.and_eq_true, beq_iff_eq]
  constructor
  · rintro ⟨⟨-, hvector⟩, howed⟩
    refine ⟨⟨"f35", mem_owedMembers_ofStore.mp (by rw [howed]; exact List.mem_singleton_self _)⟩, ?_, hvector⟩
    intro tok hc hne
    by_contra hnot
    have hmem := mem_owedMembers_ofStore.mpr ⟨hc, hnot⟩
    rw [howed, List.mem_singleton] at hmem
    exact hne hmem
  · rintro ⟨⟨tok, hc, hnot⟩, hothers, hvector⟩
    have htok : tok = "f35" := by
      by_contra hne
      exact hnot (hothers tok hc hne)
    subst htok
    have hmem : "f35" ∈ (AuditView.ofStore configured st).owedMembers x := mem_owedMembers_ofStore.mpr ⟨hc, hnot⟩
    have honly : ∀ t ∈ (AuditView.ofStore configured st).owedMembers x, (t == "f35") = true := by
      intro t ht
      obtain ⟨hc, hnot⟩ := mem_owedMembers_ofStore.mp ht
      by_contra hne
      exact hnot (hothers t hc (by simpa using hne))
    have hone := (owedMembers_sublist (AuditView.ofStore configured st) x).filter (· == "f35")
    rw [List.filter_eq_self.mpr honly] at hone
    have howed : (AuditView.ofStore configured st).owedMembers x = ["f35"] :=
      (List.sublist_singleton.mp hone).resolve_left (List.ne_nil_of_mem hmem)
    have hf35 : (AuditView.ofStore configured st).f35Done x = false := by
      rcases mem_owedMembers.mp hmem with ⟨htok, -⟩ | ⟨-, -, h⟩ | ⟨htok, -⟩
      · exact absurd htok (by decide)
      · exact h
      · exact absurd htok (by decide)
    have hcontains : (AuditView.ofStore configured st).configured.contains "f35" = true :=
      List.contains_iff_mem.mpr hc
    exact ⟨⟨⟨hcontains, by rw [hf35]; rfl⟩, hvector⟩, howed⟩

theorem contains_filter_blockId {p : EnrichStateRow → Bool} (hrows : Keyed EnrichStateRow.blockId rows) :
    ((rows.filter p).map EnrichStateRow.blockId).contains b = (rowOf b rows).any p := by
  rw [Bool.eq_iff_iff, List.contains_iff_mem, List.mem_map, Option.any_eq_true]
  constructor
  · rintro ⟨r, hr, rfl⟩
    obtain ⟨hmem, hp⟩ := List.mem_filter.mp hr
    exact ⟨r, hrows.lookup_of_mem hmem, hp⟩
  · rintro ⟨r, hrow, hp⟩
    obtain ⟨hmem, hid⟩ := lookup_eq_some hrow
    exact ⟨r, List.mem_filter.mpr ⟨hmem, hp⟩, hid⟩

/-- The row of a chunk before and after an audit. -/
inductive AuditedRow (configured : List String) (now : Int) (st : UnitStore) (x : Block) :
    Option EnrichStateRow → Option EnrichStateRow → Prop
  | complete (row : Option EnrichStateRow) : ¬ Lacks configured st x →
      AuditedRow configured now st x row (row.map fun r => if r.isGivenUp then r.settle now else r)
  | tracked (r : EnrichStateRow) : Lacks configured st x →
      r.status = .pendingRetry ∨ r.status = .failedPermanent ∧ ¬ OwesOnlyLabel configured st x →
      AuditedRow configured now st x (some r) (some r)
  | entered (r : EnrichStateRow) : Lacks configured st x → r.status = .pendingRetry →
      AuditedRow configured now st x none (some r)
  | owedAgain (r w : EnrichStateRow) (t : Int) : Lacks configured st x →
      r.status = .ok ∨ r.status = .failedPermanent ∧ OwesOnlyLabel configured st x → w.status = .pendingRetry →
      (OwesOnlyLabel configured st x → t = kEnrichNoTerminal) →
      AuditedRow configured now st x (some r) (some (w.reowe t r))

theorem auditBlock_track (now : Int) (x : Block) (hrows : Keyed EnrichStateRow.blockId rows) :
    auditBlock ((AuditView.ofStore configured st).track rows) now x =
      if ((AuditView.ofStore configured st).owedMembers x).isEmpty then
        if (rowOf x.blockId rows).any EnrichStateRow.isGivenUp then some (.settle x.blockId) else none
      else if (rowOf x.blockId rows).any EnrichStateRow.isPending then none
      else if (rowOf x.blockId rows).any EnrichStateRow.isGivenUp && !(AuditView.ofStore configured st).labelOnlyMiss x
        then none
      else some (.reowe (auditRow (AuditView.ofStore configured st) now x)
        (if (AuditView.ofStore configured st).labelOnlyMiss x then kEnrichNoTerminal else kEnrichMaxAttempts)) := by
  rw [← contains_filter_blockId hrows, ← contains_filter_blockId hrows]
  rfl

theorem auditBlock_eq_none_iff (now : Int) (hrows : Keyed EnrichStateRow.blockId rows) :
    auditBlock ((AuditView.ofStore configured st).track rows) now x = none ↔
      (¬ Lacks configured st x ∧ ∀ r, rowOf x.blockId rows = some r → r.status ≠ .failedPermanent) ∨
      (Lacks configured st x ∧ ∃ r, rowOf x.blockId rows = some r ∧
        (r.status = .pendingRetry ∨ r.status = .failedPermanent ∧ ¬ OwesOnlyLabel configured st x)) := by
  rw [auditBlock_track now x hrows]
  by_cases hlacks : Lacks configured st x
  · rw [if_neg (by rw [owedMembers_isEmpty, not_not]; exact hlacks)]
    rcases hrow : rowOf x.blockId rows with - | r
    · simp [hlacks]
    · rcases hstatus : r.status with - | - | - <;>
        simp [hlacks, hstatus, EnrichStateRow.isPending, EnrichStateRow.isGivenUp, ← labelOnlyMiss_iff]
  · rw [if_pos (owedMembers_isEmpty.mpr hlacks)]
    rcases hrow : rowOf x.blockId rows with - | r
    · simp [hlacks]
    · rcases hstatus : r.status with - | - | - <;> simp [hlacks, hstatus, EnrichStateRow.isGivenUp]

theorem rowOf_auditReport_of_quiet (configured : List String) (now : Int) (hrows : Keyed EnrichStateRow.blockId rows)
    (hblocks : Keyed Block.blockId st.blocks) (hx : x ∈ childBlocks st.blocks)
    (h : (¬ Lacks configured st x ∧ ∀ r, rowOf x.blockId rows = some r → r.status ≠ .failedPermanent) ∨
      (Lacks configured st x ∧ ∃ r, rowOf x.blockId rows = some r ∧
        (r.status = .pendingRetry ∨ r.status = .failedPermanent ∧ ¬ OwesOnlyLabel configured st x))) :
    rowOf x.blockId (auditReport configured now st rows).rows = rowOf x.blockId rows := by
  rw [rowOf_auditReport configured now rows hblocks hx, (auditBlock_eq_none_iff now hrows).mpr h]
  rfl

theorem auditedRow (configured : List String) (now : Int) (hrows : Keyed EnrichStateRow.blockId rows)
    (hblocks : Keyed Block.blockId st.blocks) (hx : x ∈ childBlocks st.blocks) :
    AuditedRow configured now st x (rowOf x.blockId rows)
      (rowOf x.blockId (auditReport configured now st rows).rows) := by
  rw [rowOf_auditReport configured now rows hblocks hx, auditBlock_track now x hrows]
  by_cases hlacks : Lacks configured st x
  · rw [if_neg (by rw [owedMembers_isEmpty, not_not]; exact hlacks)]
    rcases hrow : rowOf x.blockId rows with - | r
    · exact .entered _ hlacks rfl
    · have hagain : r.status = .ok ∨ r.status = .failedPermanent ∧ OwesOnlyLabel configured st x →
          AuditedRow configured now st x (some r) (some ((auditRow (AuditView.ofStore configured st) now x).reowe
            (if (AuditView.ofStore configured st).labelOnlyMiss x then kEnrichNoTerminal else kEnrichMaxAttempts) r)) :=
        fun h => .owedAgain r _ _ hlacks h rfl fun hlabel => if_pos (labelOnlyMiss_iff.mpr hlabel)
      rcases hstatus : r.status with - | - | -
      · simpa [EnrichStateRow.isPending, EnrichStateRow.isGivenUp, hstatus, AuditWrite.after] using hagain (.inl hstatus)
      · simpa [EnrichStateRow.isPending, hstatus] using AuditedRow.tracked r hlacks (.inl hstatus)
      · by_cases hlabel : OwesOnlyLabel configured st x
        · simpa [EnrichStateRow.isPending, EnrichStateRow.isGivenUp, hstatus, labelOnlyMiss_iff.mpr hlabel,
            AuditWrite.after] using hagain (.inr ⟨hstatus, hlabel⟩)
        · have hmiss : (AuditView.ofStore configured st).labelOnlyMiss x = false := by
            rw [Bool.eq_false_iff, ne_eq, labelOnlyMiss_iff]
            exact hlabel
          simpa [EnrichStateRow.isPending, EnrichStateRow.isGivenUp, hstatus, hmiss] using
            AuditedRow.tracked r hlacks (.inr ⟨hstatus, hlabel⟩)
  · rw [if_pos (owedMembers_isEmpty.mpr hlacks)]
    have hcomplete : AuditedRow configured now st x (rowOf x.blockId rows) _ := .complete _ hlacks
    rcases hrow : rowOf x.blockId rows with - | r
    · rwa [hrow] at hcomplete
    · rw [hrow] at hcomplete
      cases hup : r.isGivenUp <;> simpa [hup, AuditWrite.after] using hcomplete

/-! ## After an audit -/

variable {row row' : Option EnrichStateRow} {r r' : EnrichStateRow}

theorem keyed_auditReport (configured : List String) (now : Int) (st : UnitStore)
    (hrows : Keyed EnrichStateRow.blockId rows) :
    Keyed EnrichStateRow.blockId (auditReport configured now st rows).rows := by
  rw [auditReport_eq]
  generalize auditWrites configured now st rows = ws
  induction ws generalizing rows with
  | nil => exact hrows
  | cons w ws ih =>
    refine ih ?_
    rcases w with blk | ⟨w, t⟩
    · exact hrows.updateWhere fun _ _ => rfl
    · exact keyed_reoweEnrichState hrows w t

theorem reowe_status (w : EnrichStateRow) (t : Int) (r : EnrichStateRow) (hw : w.status = .pendingRetry) :
    t ≤ r.attempts ∧ (w.reowe t r).status = .failedPermanent ∨
      r.attempts < t ∧ (w.reowe t r).status = .pendingRetry := by
  by_cases ht : t ≤ r.attempts
  · exact .inl ⟨ht, if_pos ht⟩
  · exact .inr ⟨Int.not_le.mp ht, (if_neg ht).trans hw⟩

namespace AuditedRow

theorem tracks (h : AuditedRow configured now st x row row') (hlacks : Lacks configured st x) :
    ∃ r, row' = some r ∧ (r.status = .pendingRetry ∨ r.status = .failedPermanent) := by
  cases h with
  | complete row hnot => exact absurd hlacks hnot
  | tracked r _ hr => exact ⟨r, rfl, hr.imp_right And.left⟩
  | entered r _ hr => exact ⟨r, rfl, .inl hr⟩
  | owedAgain r w t _ _ hw _ =>
    refine ⟨_, rfl, ?_⟩
    rcases reowe_status w t r hw with ⟨-, h⟩ | ⟨-, h⟩
    · exact .inr h
    · exact .inl h

theorem settles (h : AuditedRow configured now st x row row') (hlacks : ¬ Lacks configured st x)
    (hr : row' = some r) : r.status ≠ .failedPermanent := by
  cases h with
  | complete row _ =>
    obtain ⟨r', -, rfl⟩ := Option.map_eq_some_iff.mp hr
    split
    · simp [EnrichStateRow.settle]
    · rename_i hup
      intro hstatus
      exact hup (by simp [EnrichStateRow.isGivenUp, hstatus])
  | tracked r h _ => exact absurd h hlacks
  | entered r h _ => exact absurd h hlacks
  | owedAgain r w t h _ _ _ => exact absurd h hlacks

theorem attempts_le (h : AuditedRow configured now st x (some r) row') :
    ∃ r', row' = some r' ∧ r.attempts ≤ r'.attempts := by
  cases h with
  | complete row _ =>
    refine ⟨_, rfl, ?_⟩
    dsimp only
    split <;> exact Int.le_refl _
  | tracked r _ _ => exact ⟨r, rfl, Int.le_refl _⟩
  | owedAgain r w t _ _ _ _ => exact ⟨_, rfl, Int.le_refl _⟩

theorem keeps_pending (h : AuditedRow configured now st x (some r) row') (hr : r.status = .pendingRetry) :
    row' = some r := by
  cases h with
  | complete row _ => simp [EnrichStateRow.isGivenUp, hr]
  | tracked r _ _ => rfl
  | owedAgain r w t _ hok _ _ =>
    rcases hok with hok | ⟨hup, -⟩
    · exact absurd (hok.symm.trans hr) (by decide)
    · exact absurd (hup.symm.trans hr) (by decide)

/-- A chunk that owes nothing but its label is given up on where its count passes for no bound. -/
theorem labels_iff (h : AuditedRow configured now st x row row') (hlabel : OwesOnlyLabel configured st x) :
    (∀ r', row' = some r' → r'.status ≠ .failedPermanent) ↔
      ∀ r, row = some r → r.status ≠ .pendingRetry → r.attempts < kEnrichNoTerminal := by
  cases h with
  | complete row hnot => exact absurd hlabel.1 hnot
  | tracked r _ hr =>
    have hpending : r.status = .pendingRetry := hr.resolve_right fun h => h.2 hlabel
    constructor
    · rintro - _ hrow hne
      cases hrow
      exact absurd hpending hne
    · rintro - _ hrow hup
      cases hrow
      exact absurd (hpending.symm.trans hup) (by decide)
  | entered r _ hr =>
    constructor
    · rintro - _ hrow
      cases hrow
    · rintro - _ hrow hup
      cases hrow
      exact absurd (hr.symm.trans hup) (by decide)
  | owedAgain r w t _ hok hw ht =>
    have hne : r.status ≠ .pendingRetry := by
      rcases hok with hok | ⟨hup, -⟩
      · rw [hok]
        decide
      · rw [hup]
        decide
    rcases reowe_status w t r hw with ⟨hle, hstatus⟩ | ⟨hlt, hstatus⟩
    · rw [ht hlabel] at hle
      constructor
      · exact fun h => absurd hstatus (h _ rfl)
      · exact fun h => absurd (h r rfl hne) (Int.not_lt.mpr hle)
    · rw [ht hlabel] at hlt
      constructor
      · rintro - _ hrow -
        cases hrow
        exact hlt
      · rintro - _ hrow hup
        cases hrow
        exact absurd (hstatus.symm.trans hup) (by decide)

end AuditedRow

theorem counted_iff (configured : List String) (now : Int) (st : UnitStore) (rows : List EnrichStateRow)
    (hrows : Keyed EnrichStateRow.blockId rows) (hblocks : Keyed Block.blockId st.blocks) :
    Counted configured st rows ↔ ∀ x ∈ childBlocks st.blocks, OwesOnlyLabel configured st x →
      ∀ r, rowOf x.blockId (auditReport configured now st rows).rows = some r → r.status ≠ .failedPermanent :=
  forall_congr' fun _ => forall_congr' fun hx => forall_congr' fun hlabel =>
    ((auditedRow configured now hrows hblocks hx).labels_iff hlabel).symm

theorem audited_of_counted (configured : List String) (now : Int) (st : UnitStore) (rows : List EnrichStateRow)
    (hrows : Keyed EnrichStateRow.blockId rows) (hblocks : Keyed Block.blockId st.blocks)
    (h : Counted configured st rows) : Audited configured st rows (auditReport configured now st rows).rows where
  tracked x hx hlacks := (auditedRow configured now hrows hblocks hx).tracks hlacks
  settled x hx hlacks r hr := (auditedRow configured now hrows hblocks hx).settles hlacks hr
  labels := (counted_iff configured now st rows hrows hblocks).mp h
  attempts b r hr := by
    by_cases hb : ∃ x ∈ childBlocks st.blocks, x.blockId = b
    · obtain ⟨x, hx, rfl⟩ := hb
      have haudited := auditedRow configured now hrows hblocks hx
      rw [hr] at haudited
      exact haudited.attempts_le
    · refine ⟨r, ?_, Int.le_refl _⟩
      rw [rowOf_auditReport_other configured now rows fun x hx heq => hb ⟨x, hx, heq⟩]
      exact hr
  pending b r hr hstatus := by
    by_cases hb : ∃ x ∈ childBlocks st.blocks, x.blockId = b
    · obtain ⟨x, hx, rfl⟩ := hb
      have haudited := auditedRow configured now hrows hblocks hx
      rw [hr] at haudited
      exact haudited.keeps_pending hstatus
    · rw [rowOf_auditReport_other configured now rows fun x hx heq => hb ⟨x, hx, heq⟩]
      exact hr

theorem steady_of_audited {rows' : List EnrichStateRow} (now : Int) (hrows : Keyed EnrichStateRow.blockId rows')
    (h : Audited configured st rows rows') : Steady configured st now rows' := by
  rw [steady_iff]
  intro x hx
  rw [auditBlock_eq_none_iff now hrows]
  by_cases hlacks : Lacks configured st x
  · obtain ⟨r, hr, hstatus⟩ := h.tracked x hx hlacks
    refine .inr ⟨hlacks, r, hr, hstatus.imp_right fun hup => ⟨hup, fun hlabel => ?_⟩⟩
    exact h.labels x hx hlabel r hr hup
  · exact .inl ⟨hlacks, h.settled x hx hlacks⟩

def unlabelledBlock : Block where
  blockId := 7
  docId := "doc"
  childId := "c7"
  parentId := ""
  chunkIndex := 0
  blockType := 1
  contentText := "text"
  metadata := {}
  enrichedScore := none
  contextualizedText := some "text"
  contextualizedEmbedding := some [1]
  contextualizedStatus := 1

def unlabelledStore : UnitStore where
  blocks := [unlabelledBlock]
  labels := some []
  docs := [("doc", 3)]
  parents := []
  points := []

def givenUpRow (attempts : Int) : EnrichStateRow :=
  ⟨7, "doc", "c7", .failedPermanent, "f35", attempts, utf8 "no provider".toList, none, 100, 0⟩

theorem unlabelled_owesOnlyLabel : OwesOnlyLabel ["f35"] unlabelledStore unlabelledBlock :=
  labelOnlyMiss_iff.mp (by decide)

end Cortrix.Spc
