import Mathlib.Data.Finset.Max
import Cortrix.Store.Documents

/-!
# One version of a document at a time

`ReadyFirst t` : a ready row of a versioned source has no older live row of its source. Every statement keeps it
(`ReadyFirst.*`), so do publications, which commit all of their statements or none (`Inv.step`).

* `ready_unique` : a source has at most one ready row;
* `visible_unique` : a source with a live row has exactly one visible row;
* `StaysDeleted` : only a restore brings a deleted row back.
-/

namespace Cortrix.Store.Documents
open Lib

variable {t : List Doc} {d k o : Doc}

/-! ## The order of the versions -/

/-- The place of a row in the order of the source lookup. -/
def rank (d : Doc) : String ×ₗ String := toLex (d.createdAt, d.docId)

theorem older_iff : older d k = true ↔ rank d < rank k := by
  simp [older, rank, Prod.Lex.toLex_lt_toLex]

theorem sameSource_iff : sameSource d k = true ↔ d.sourceType = k.sourceType ∧ d.sourcePath = k.sourcePath := by
  simp [sameSource]

theorem live_iff : live d = true ↔ d.status ≠ .deleted := by
  simp [live]

theorem rank_ne (h : d.docId ≠ k.docId) : rank d ≠ rank k := by
  intro e
  exact h (congrArg Prod.snd (toLex.injective e))

/-! ## The invariant -/

/-- The row `k`, if it is ready and of a versioned source, has no older live row of its source. -/
def FirstIn (t : List Doc) (k : Doc) : Prop :=
  k.status = .ready → versioned k.sourceType = true →
    ∀ d ∈ t, sameSource d k = true → live d = true → older d k = false

/-- A ready row of a versioned source has no older live row of its source. -/
def ReadyFirst (t : List Doc) : Prop := ∀ k ∈ t, FirstIn t k

/-- What a statement may do to a row: it keeps the identity, and the row becomes neither live nor ready. -/
structure Demoted (d d' : Doc) : Prop where
  docId : d'.docId = d.docId
  sourceType : d'.sourceType = d.sourceType
  sourcePath : d'.sourcePath = d.sourcePath
  createdAt : d'.createdAt = d.createdAt
  live : live d' = true → Documents.live d = true
  ready : d'.status = .ready → d.status = .ready

theorem Demoted.refl (d : Doc) : Demoted d d := ⟨rfl, rfl, rfl, rfl, id, id⟩

theorem Demoted.sameSource {d' k' : Doc} (hd : Demoted d d') (hk : Demoted k k') :
    Documents.sameSource d' k' = Documents.sameSource d k := by
  simp [Documents.sameSource, hd.sourceType, hd.sourcePath, hk.sourceType, hk.sourcePath]

theorem Demoted.older {d' k' : Doc} (hd : Demoted d d') (hk : Demoted k k') :
    Documents.older d' k' = Documents.older d k := by
  simp [Documents.older, hd.docId, hd.createdAt, hk.docId, hk.createdAt]

theorem ReadyFirst.updateWhere (h : ReadyFirst t) {p : Doc → Bool} {f : Doc → Doc}
    (hf : ∀ d ∈ t, p d = true → Demoted d (f d)) : ReadyFirst (updateWhere p f t) := by
  have hdem : ∀ d ∈ t, Demoted d (if p d then f d else d) := by
    intro d hd
    split
    · exact hf d hd ‹_›
    · exact .refl d
  intro k' hk' hready hver d' hd' hsame hlive
  obtain ⟨k, hk, rfl⟩ := mem_updateWhere.mp hk'
  obtain ⟨d, hd, rfl⟩ := mem_updateWhere.mp hd'
  rw [(hdem d hd).sameSource (hdem k hk)] at hsame
  rw [(hdem k hk).sourceType] at hver
  rw [(hdem d hd).older (hdem k hk)]
  exact h k hk ((hdem k hk).ready hready) hver d hd hsame ((hdem d hd).live hlive)

theorem ReadyFirst.subset (h : ReadyFirst t) {t' : List Doc} (hsub : ∀ d ∈ t', d ∈ t) : ReadyFirst t' :=
  fun k hk hready hver d hd => h k (hsub k hk) hready hver d (hsub d hd)

/-! ## The statements -/

theorem demoted_softDeleted (marker : Bool) (nowMs : Int) (d : Doc) : Demoted d (softDeleted marker nowMs d) := by
  constructor <;> simp [softDeleted, live]

theorem ReadyFirst.docCreate (h : ReadyFirst t) {new : Doc} (hnew : new.status ≠ .ready)
    (hlast : ∀ d ∈ t, sameSource d new = true → older d new = true) : ReadyFirst (docCreate new t).1 := by
  unfold Documents.docCreate
  split
  · rename_i t' hi
    obtain ⟨-, rfl⟩ := insertRow_eq_some.mp hi
    intro k hk hready hver d hd hsame hlive
    rcases List.mem_append.mp hk with hk₀ | hk₀
    · rcases List.mem_append.mp hd with hd₀ | hd₀
      · exact h k hk₀ hready hver d hd₀ hsame hlive
      · rw [List.mem_singleton] at hd₀
        subst hd₀
        -- the new row is not older than the ready one
        have hsame' : sameSource k d = true := by
          rw [sameSource_iff] at hsame ⊢
          exact ⟨hsame.1.symm, hsame.2.symm⟩
        have hlt := older_iff.mp (hlast k hk₀ hsame')
        by_contra hold
        exact lt_asymm hlt (older_iff.mp (Bool.eq_true_of_not_eq_false hold))
    · rw [List.mem_singleton] at hk₀
      subst hk₀
      exact absurd hready hnew
  · exact h

theorem ReadyFirst.updateStatusLocked (h : ReadyFirst t) {status : DocStatus} (hs : status ≠ .ready)
    (docId msg : String) : ReadyFirst (updateStatusLocked docId status msg t).1 := by
  apply h.updateWhere
  intro d _ hg
  simp only [statusGuard, Bool.and_eq_true] at hg
  exact ⟨rfl, rfl, rfl, rfl, fun _ => hg.2, fun e => absurd e hs⟩

theorem ReadyFirst.docSoftDelete (h : ReadyFirst t) (marker : Bool) (docId : String) (nowMs : Int) :
    ReadyFirst (docSoftDelete marker docId nowMs t).1 := by
  apply h.updateWhere
  intro d _ _
  split
  · exact demoted_softDeleted marker nowMs d
  · exact ⟨rfl, rfl, rfl, rfl, id, id⟩

theorem ReadyFirst.docWithdrawVersion (h : ReadyFirst t) (marker : Bool) (docId : String) (nowMs : Int)
    (msg : String) : ReadyFirst (docWithdrawVersion marker docId nowMs msg t).1 := by
  apply h.updateWhere
  intro d _ _
  constructor <;> simp [softDeleted, live]

theorem ReadyFirst.docRecoverProcessing (h : ReadyFirst t) : ReadyFirst (docRecoverProcessing t) := by
  apply h.updateWhere
  intro d _ hp
  simp only [beq_iff_eq] at hp
  exact ⟨rfl, rfl, rfl, rfl, fun _ => by simp [live, hp], by simp⟩

theorem restoreGuard_iff {docId : String} : restoreGuard docId t d = true ↔
    d.docId = docId ∧ live d = false ∧ ∀ o ∈ t, sameSource o d = true → o.docId ≠ d.docId → live o = false := by
  simp [restoreGuard, and_assoc]

theorem older_irrefl (h : d.createdAt = k.createdAt) (h' : d.docId = k.docId) : older d k = false := by
  simp [older, h, h']

theorem ReadyFirst.docRestoreUnlessSuperseded (h : ReadyFirst t) (hkey : Keyed Doc.docId t) (marker : Bool)
    (docId : String) : ReadyFirst (docRestoreUnlessSuperseded marker docId t).1 := by
  intro k' hk' hready hver d' hd' hsame hlive
  obtain ⟨k, hk, rfl⟩ := mem_updateWhere.mp hk'
  obtain ⟨d, hd, rfl⟩ := mem_updateWhere.mp hd'
  by_cases hgk : restoreGuard docId t k = true
  · by_cases hdk : d = k
    · exact older_irrefl (by rw [hdk]) (by rw [hdk])
    · -- another live row of the source would have refused the restore
      have hne : d.docId ≠ k.docId := fun e => hdk (hkey.eq_of_key hd hk e)
      obtain ⟨hid, -, hother⟩ := restoreGuard_iff.mp hgk
      have hgd : restoreGuard docId t d = false := by
        rw [← Bool.not_eq_true]
        exact fun e => hne ((restoreGuard_iff.mp e).1.trans hid.symm)
      simp only [hgd, hgk, if_true, Bool.false_eq_true, if_false] at hsame hlive
      rw [hother d hd hsame hne] at hlive
      exact absurd hlive (by simp)
  · simp only [hgk, Bool.false_eq_true, if_false] at hready hver hsame ⊢
    by_cases hgd : restoreGuard docId t d = true
    · -- the ready row is live, so the row it shares its source with is not restored
      have hne : k.docId ≠ d.docId := fun e => hgk (hkey.eq_of_key hk hd e ▸ hgd)
      simp only [hgd, if_true] at hsame
      have hsame' : sameSource k d = true := by
        rw [sameSource_iff] at hsame ⊢
        exact ⟨hsame.1.symm, hsame.2.symm⟩
      have hdead := (restoreGuard_iff.mp hgd).2.2 k hk hsame' hne
      simp [live, hready] at hdead
    · simp only [hgd, Bool.false_eq_true, if_false] at hsame hlive ⊢
      exact h k hk hready hver d hd hsame hlive

/-! ## Publications -/

theorem retireGuard_iff {docId : String} : retireGuard docId t d = true ↔
    ∃ k ∈ t, k.docId = docId ∧ versioned k.sourceType = true ∧ sameSource d k = true ∧ live d = true ∧
      older d k = true := by
  simp [retireGuard, and_assoc]

theorem ReadyFirst.updateStatusLocked_ready (h : ReadyFirst t) (docId : String) :
    ∀ k ∈ (Documents.updateStatusLocked docId .ready "" t).1, k.docId ≠ docId →
      FirstIn (Documents.updateStatusLocked docId .ready "" t).1 k := by
  intro k' hk' hid hready hver d' hd' hsame hlive
  obtain ⟨k, hk, rfl⟩ := mem_updateWhere.mp hk'
  obtain ⟨d, hd, rfl⟩ := mem_updateWhere.mp hd'
  have hnk : statusGuard docId k = false := by
    by_contra hg
    have hg := Bool.eq_true_of_not_eq_false hg
    simp only [hg, if_true] at hid
    simp only [statusGuard, Bool.and_eq_true, beq_iff_eq] at hg
    exact hid hg.1
  simp only [hnk, Bool.false_eq_true, if_false] at hready hver hsame ⊢
  by_cases hsd : statusGuard docId d = true
  · simp only [hsd, if_true] at hsame ⊢
    simp only [statusGuard, Bool.and_eq_true] at hsd
    exact h k hk hready hver d hd hsame hsd.2
  · simp only [hsd, Bool.false_eq_true, if_false] at hsame hlive ⊢
    exact h k hk hready hver d hd hsame hlive

theorem readyFirst_retireOlderVersionsLocked {docId : String} (h : ∀ k ∈ t, k.docId ≠ docId → FirstIn t k)
    (marker : Bool) (nowMs : Int) : ReadyFirst (retireOlderVersionsLocked marker docId nowMs t).1 := by
  intro k' hk' hready hver d' hd' hsame hlive
  obtain ⟨k, hk, rfl⟩ := mem_updateWhere.mp hk'
  obtain ⟨d, hd, rfl⟩ := mem_updateWhere.mp hd'
  -- a retired row is neither ready nor live
  have hgk : retireGuard docId t k = false := by
    by_contra hg
    simp [Bool.eq_true_of_not_eq_false hg, softDeleted] at hready
  have hgd : retireGuard docId t d = false := by
    by_contra hg
    simp [Bool.eq_true_of_not_eq_false hg, softDeleted, live] at hlive
  simp only [hgk, hgd, Bool.false_eq_true, if_false] at hready hver hsame hlive ⊢
  by_cases hid : k.docId = docId
  · by_contra hold
    have hretire := retireGuard_iff.mpr ⟨k, hk, hid, hver, hsame, hlive, Bool.eq_true_of_not_eq_false hold⟩
    rw [hgd] at hretire
    exact absurd hretire (by simp)
  · exact h k hk hid hready hver d hd hsame hlive

/-! ## Deleted rows -/

def StaysDeleted (t t' : List Doc) : Prop :=
  ∀ d ∈ t, live d = false → ∀ d' ∈ t', d'.docId = d.docId → live d' = false

theorem StaysDeleted.refl (hkey : Keyed Doc.docId t) : StaysDeleted t t := by
  intro d hd hdead d' hd' hid
  rw [hkey.eq_of_key hd' hd hid]
  exact hdead

theorem StaysDeleted.updateWhere {t' : List Doc} (h : StaysDeleted t t') {p : Doc → Bool} {f : Doc → Doc}
    (hid : ∀ d, (f d).docId = d.docId) (hf : ∀ d, p d = true → live (f d) = true → live d = true) :
    StaysDeleted t (updateWhere p f t') := by
  intro d hd hdead d' hd' he
  obtain ⟨e, he', rfl⟩ := mem_updateWhere.mp hd'
  by_cases hp : p e = true
  · simp only [hp, if_true] at he ⊢
    rw [hid] at he
    by_contra hlive
    have := hf e hp (Bool.eq_true_of_not_eq_false hlive)
    rw [h d hd hdead e he' he] at this
    exact absurd this (by simp)
  · simp only [hp, Bool.false_eq_true, if_false] at he ⊢
    exact h d hd hdead e he' he

theorem StaysDeleted.updateStatusLocked {t' : List Doc} (h : StaysDeleted t t') (docId msg : String)
    (status : DocStatus) : StaysDeleted t (updateStatusLocked docId status msg t').1 := by
  apply h.updateWhere
  · exact fun _ => rfl
  · intro d hg _
    simp only [statusGuard, Bool.and_eq_true] at hg
    exact hg.2

theorem StaysDeleted.retireOlderVersionsLocked {t' : List Doc} (h : StaysDeleted t t') (marker : Bool)
    (docId : String) (nowMs : Int) : StaysDeleted t (retireOlderVersionsLocked marker docId nowMs t').1 := by
  apply h.updateWhere
  · exact fun _ => rfl
  · intro d _ hl
    exact (demoted_softDeleted marker nowMs d).live hl

theorem StaysDeleted.docSoftDelete {t' : List Doc} (h : StaysDeleted t t') (marker : Bool) (docId : String)
    (nowMs : Int) : StaysDeleted t (docSoftDelete marker docId nowMs t').1 := by
  apply h.updateWhere
  · intro d
    split <;> rfl
  · intro d _ hl
    split at hl
    · assumption
    · exact hl

theorem StaysDeleted.docWithdrawVersion {t' : List Doc} (h : StaysDeleted t t') (marker : Bool) (docId : String)
    (nowMs : Int) (msg : String) : StaysDeleted t (docWithdrawVersion marker docId nowMs msg t').1 := by
  apply h.updateWhere
  · exact fun _ => rfl
  · intro d _ hl
    exact absurd hl (by simp [softDeleted, live])

theorem StaysDeleted.docRecoverProcessing {t' : List Doc} (h : StaysDeleted t t') :
    StaysDeleted t (docRecoverProcessing t') := by
  apply h.updateWhere
  · exact fun _ => rfl
  · intro d hp _
    simp only [beq_iff_eq] at hp
    simp [live, hp]

theorem StaysDeleted.docCreate (hkey : Keyed Doc.docId t) (new : Doc) : StaysDeleted t (docCreate new t).1 := by
  unfold Documents.docCreate
  split
  · rename_i t' hi
    obtain ⟨hne, rfl⟩ := insertRow_eq_some.mp hi
    intro d hd hdead d' hd' hid
    rcases List.mem_append.mp hd' with hd' | hd'
    · exact StaysDeleted.refl hkey d hd hdead d' hd' hid
    · rw [List.mem_singleton] at hd'
      subst hd'
      exact absurd hid.symm (hne d hd)
  · exact StaysDeleted.refl hkey

theorem restore_only {docId : String} (hkey : Keyed Doc.docId t) (marker : Bool) :
    ∀ d ∈ t, live d = false → d.docId ≠ docId →
      ∀ d' ∈ (docRestoreUnlessSuperseded marker docId t).1, d'.docId = d.docId → live d' = false := by
  intro d hd hdead hne d' hd' hid
  obtain ⟨e, he, rfl⟩ := mem_updateWhere.mp hd'
  by_cases hg : restoreGuard docId t e = true
  · simp only [hg, if_true] at hid
    exact absurd ((hid.symm.trans (restoreGuard_iff.mp hg).1)) hne
  · simp only [hg, Bool.false_eq_true, if_false] at hid ⊢
    exact StaysDeleted.refl hkey d hd hdead e he hid

/-! ## Runs -/

/-- The invariant of the store: the committed table, and the table the open transaction would commit. -/
structure Inv (s : State) : Prop where
  keyed : Keyed Doc.docId s.documents
  first : ReadyFirst s.documents
  updated : ∀ docId w, s.txn = some (.updated docId w) →
    Keyed Doc.docId w ∧ StaysDeleted s.documents w ∧ ∀ k ∈ w, k.docId ≠ docId → FirstIn w k
  retired : ∀ w, s.txn = some (.retired w) → Keyed Doc.docId w ∧ StaysDeleted s.documents w ∧ ReadyFirst w

theorem Inv.init : Inv State.init := by
  refine ⟨Keyed.nil, ?_, ?_, ?_⟩
  · intro k hk
    cases hk
  · intro _ _ h
    cases h
  · intro _ h
    cases h

variable {s s' : State}

theorem Inv.idle {t : List Doc} (hkey : Keyed Doc.docId t) (hfirst : ReadyFirst t) : Inv ⟨t, none⟩ := by
  refine ⟨hkey, hfirst, ?_, ?_⟩
  · intro _ _ h
    cases h
  · intro _ h
    cases h

theorem write_eq {f : List Doc → List Doc} (h : write s f = some s') :
    s.txn = none ∧ s' = ⟨f s.documents, none⟩ := by
  unfold write at h
  split at h
  · rename_i htxn
    exact ⟨htxn, (Option.some.inj h).symm⟩
  · cases h

theorem inv_write {f : List Doc → List Doc} (h : write s f = some s')
    (hkey : Keyed Doc.docId (f s.documents)) (hfirst : ReadyFirst (f s.documents)) : Inv s' := by
  obtain ⟨-, rfl⟩ := write_eq h
  exact .idle hkey hfirst

theorem keyed_docCreate (hkey : Keyed Doc.docId t) (new : Doc) : Keyed Doc.docId (docCreate new t).1 := by
  unfold docCreate
  split
  · exact hkey.insertRow ‹_›
  · exact hkey

theorem Inv.step (hs : Inv s) {a : Act} (h : step s a = some s') : Inv s' := by
  cases a with
  | create p docId st path at_ =>
    simp only [Documents.step] at h
    split at h
    · rename_i hlast
      simp only [List.all_eq_true, Bool.or_eq_true, Bool.not_eq_true'] at hlast
      refine inv_write h (keyed_docCreate hs.keyed _) (hs.first.docCreate ?_ ?_)
      · cases p <;> simp [newDoc, Producer.status]
      · intro d hd hsame
        rcases hlast d hd with hno | hold
        · rw [hno] at hsame
          exact absurd hsame (by simp)
        · exact hold
    · cases h
  | publishUpdate docId =>
    simp only [Documents.step] at h
    split at h
    · cases h
    split at h
    · cases h
      refine ⟨hs.keyed, hs.first, ?_, ?_⟩
      · rintro _ _ ⟨⟩
        exact ⟨hs.keyed.updateWhere fun _ _ => rfl, (StaysDeleted.refl hs.keyed).updateStatusLocked _ _ _,
          hs.first.updateStatusLocked_ready docId⟩
      · intro _ h
        cases h
    · cases h
      exact hs
  | publishRetire marker nowMs =>
    simp only [Documents.step] at h
    split at h
    · rename_i docId t htxn
      cases h
      obtain ⟨hkey, hdel, hfirst⟩ := hs.updated docId t htxn
      refine ⟨hs.keyed, hs.first, ?_, ?_⟩
      · intro _ _ h
        cases h
      · rintro _ ⟨⟩
        exact ⟨hkey.updateWhere fun _ _ => rfl, hdel.retireOlderVersionsLocked marker docId nowMs,
          readyFirst_retireOlderVersionsLocked hfirst marker nowMs⟩
    · cases h
  | publishCommit =>
    simp only [Documents.step] at h
    split at h
    · rename_i t htxn
      cases h
      obtain ⟨hkey, -, hfirst⟩ := hs.retired t htxn
      exact .idle hkey hfirst
    · cases h
  | publishFail =>
    cases h
    exact .idle hs.keyed hs.first
  | withdraw marker docId nowMs msg =>
    exact inv_write h (hs.keyed.updateWhere fun _ _ => rfl) (hs.first.docWithdrawVersion marker docId nowMs msg)
  | softDelete marker docId nowMs =>
    refine inv_write h (hs.keyed.updateWhere fun d _ => ?_) (hs.first.docSoftDelete marker docId nowMs)
    split <;> rfl
  | restore marker docId =>
    exact inv_write h (hs.keyed.updateWhere fun _ _ => rfl)
      (hs.first.docRestoreUnlessSuperseded hs.keyed marker docId)
  | updateStatus docId status msg =>
    simp only [Documents.step] at h
    split at h
    · cases h
    · exact inv_write h (hs.keyed.updateWhere fun _ _ => rfl) (hs.first.updateStatusLocked ‹_› docId msg)
  | crash =>
    cases h
    exact .idle hs.keyed hs.first
  | recoverProcessing =>
    exact inv_write h (hs.keyed.updateWhere fun _ _ => rfl) hs.first.docRecoverProcessing
  | recoverDeleting docId =>
    exact inv_write h hs.keyed.deleteWhere (hs.first.subset fun d hd => (mem_deleteWhere.mp hd).1)

theorem inv_of_run {acts : List Act} (h : run Documents.step State.init acts = some s) : Inv s :=
  run_inv (fun hs _ hstep => hs.step hstep) Inv.init (along_true _ _) h

theorem Inv.staysDeleted (hs : Inv s) {a : Act} (h : Documents.step s a = some s')
    (ha : ∀ marker docId, a ≠ .restore marker docId) : StaysDeleted s.documents s'.documents := by
  have hrefl := StaysDeleted.refl hs.keyed
  cases a with
  | create p docId st path at_ =>
    simp only [Documents.step] at h
    split at h
    · obtain ⟨-, rfl⟩ := write_eq h
      exact StaysDeleted.docCreate hs.keyed _
    · cases h
  | publishUpdate docId =>
    simp only [Documents.step] at h
    split at h
    · cases h
    split at h <;> (cases h; exact hrefl)
  | publishRetire marker nowMs =>
    simp only [Documents.step] at h
    split at h <;> cases h
    exact hrefl
  | publishCommit =>
    simp only [Documents.step] at h
    split at h
    · rename_i t htxn
      cases h
      exact (hs.retired t htxn).2.1
    · cases h
  | publishFail =>
    cases h
    exact hrefl
  | withdraw marker docId nowMs msg =>
    obtain ⟨-, rfl⟩ := write_eq h
    exact hrefl.docWithdrawVersion marker docId nowMs msg
  | softDelete marker docId nowMs =>
    obtain ⟨-, rfl⟩ := write_eq h
    exact hrefl.docSoftDelete marker docId nowMs
  | restore marker docId => exact absurd rfl (ha marker docId)
  | updateStatus docId status msg =>
    simp only [Documents.step] at h
    split at h
    · cases h
    · obtain ⟨-, rfl⟩ := write_eq h
      exact hrefl.updateStatusLocked docId msg status
  | crash =>
    cases h
    exact hrefl
  | recoverProcessing =>
    obtain ⟨-, rfl⟩ := write_eq h
    exact hrefl.docRecoverProcessing
  | recoverDeleting docId =>
    obtain ⟨-, rfl⟩ := write_eq h
    exact fun d hd hdead d' hd' => hrefl d hd hdead d' (mem_deleteWhere.mp hd').1

/-! ## The rows of a source -/

theorem ready_unique (hkey : Keyed Doc.docId t) (h : ReadyFirst t) (hd : d ∈ t) (hk : k ∈ t)
    (hver : versioned k.sourceType = true) (hsame : sameSource d k = true) (hdr : d.status = .ready)
    (hkr : k.status = .ready) : d = k := by
  by_contra hne
  have hid : d.docId ≠ k.docId := fun e => hne (hkey.eq_of_key hd hk e)
  obtain ⟨hst, hpath⟩ := sameSource_iff.mp hsame
  have hsame' : sameSource k d = true := sameSource_iff.mpr ⟨hst.symm, hpath.symm⟩
  have h₁ := h k hk hkr hver d hd hsame (by simp [live, hdr])
  have h₂ := h d hd hdr (by rw [hst]; exact hver) k hk hsame' (by simp [live, hkr])
  rw [← Bool.not_eq_true, older_iff, not_lt] at h₁ h₂
  exact rank_ne hid (le_antisymm h₂ h₁)

theorem hiddenDocPredicate_eq_false (hver : versioned d.sourceType = true) :
    hiddenDocPredicate t d = false ↔ live d = true ∧ (d.status = .ready ∨
      ∀ o ∈ t, sameSource o d = true → o.docId ≠ d.docId → live o = true → o.status ≠ .ready ∧ older o d = false) := by
  by_cases hready : d.status = .ready
  · simp [hiddenDocPredicate, live, hready]
  · simp [hiddenDocPredicate, live, hver, hready]

theorem exists_visible (hd : d ∈ t) (hlive : live d = true) (hver : versioned d.sourceType = true) :
    ∃ k ∈ t, sameSource k d = true ∧ hiddenDocPredicate t k = false := by
  by_cases hr : ∃ k ∈ t, sameSource k d = true ∧ k.status = .ready
  · obtain ⟨k, hk, hsame, hkr⟩ := hr
    have hver' : versioned k.sourceType = true := by rw [(sameSource_iff.mp hsame).1]; exact hver
    exact ⟨k, hk, hsame, (hiddenDocPredicate_eq_false hver').mpr ⟨by simp [live, hkr], .inl hkr⟩⟩
  · have hmem : d ∈ (t.filter fun k => sameSource k d && live k).toFinset := by
      simp [hd, hlive, sameSource]
    obtain ⟨k, hk, hmin⟩ := Finset.exists_min_image _ rank ⟨d, hmem⟩
    simp only [List.mem_toFinset, List.mem_filter, Bool.and_eq_true] at hk hmin
    obtain ⟨hkt, hsame, hlivek⟩ := hk
    obtain ⟨hst, hpath⟩ := sameSource_iff.mp hsame
    have hver' : versioned k.sourceType = true := by rw [hst]; exact hver
    refine ⟨k, hkt, hsame, (hiddenDocPredicate_eq_false hver').mpr ⟨hlivek, .inr ?_⟩⟩
    intro o ho hsameo _ hliveo
    obtain ⟨host, hopath⟩ := sameSource_iff.mp hsameo
    have hsame' : sameSource o d = true := sameSource_iff.mpr ⟨host.trans hst, hopath.trans hpath⟩
    refine ⟨fun hor => hr ⟨o, ho, hsame', hor⟩, ?_⟩
    rw [← Bool.not_eq_true, older_iff, not_lt]
    exact hmin o ⟨ho, hsame', hliveo⟩

theorem visible_unique (hkey : Keyed Doc.docId t) (h : ReadyFirst t) (hd : d ∈ t) (hk : k ∈ t)
    (hver : versioned k.sourceType = true) (hsame : sameSource d k = true)
    (hvd : hiddenDocPredicate t d = false) (hvk : hiddenDocPredicate t k = false) : d = k := by
  obtain ⟨hst, hpath⟩ := sameSource_iff.mp hsame
  have hsame' : sameSource k d = true := sameSource_iff.mpr ⟨hst.symm, hpath.symm⟩
  obtain ⟨hld, hd'⟩ := (hiddenDocPredicate_eq_false (by rw [hst]; exact hver)).mp hvd
  obtain ⟨hlk, hk'⟩ := (hiddenDocPredicate_eq_false hver).mp hvk
  by_contra hne
  have hid : d.docId ≠ k.docId := fun e => hne (hkey.eq_of_key hd hk e)
  rcases hd' with hdr | hd'
  · rcases hk' with hkr | hk'
    · exact hne (ready_unique hkey h hd hk hver hsame hdr hkr)
    · exact (hk' d hd hsame hid hld).1 hdr
  · obtain ⟨hkr, hold⟩ := hd' k hk hsame' (Ne.symm hid) hlk
    rcases hk' with hkr' | hk'
    · exact hkr hkr'
    · have hold' := (hk' d hd hsame hid hld).2
      rw [← Bool.not_eq_true, older_iff, not_lt] at hold hold'
      exact rank_ne hid (le_antisymm hold hold')

/-! ## Main result -/

/-- **Versions stay single.** In every state of every interleaving of the statements and of crashes, each source of
the two versioned producers has at most one ready row, and exactly one visible row as soon as one row is not
deleted; and a step that brings a deleted row back is a restore of that row. -/
theorem versions_single (acts : List Act) (s : State) (hrun : run step State.init acts = some s) :
    (∀ sourceType sourcePath, versioned sourceType = true →
      (∀ d ∈ s.documents, ∀ k ∈ s.documents, d.sourceType = sourceType → d.sourcePath = sourcePath →
        k.sourceType = sourceType → k.sourcePath = sourcePath → d.status = .ready → k.status = .ready → d = k) ∧
      ((∃ d ∈ s.documents, d.sourceType = sourceType ∧ d.sourcePath = sourcePath ∧ d.status ≠ .deleted) →
        ∃! d, d ∈ s.documents ∧ d.sourceType = sourceType ∧ d.sourcePath = sourcePath ∧
          hiddenDocPredicate s.documents d = false)) ∧
    ∀ a s', step s a = some s' → ∀ d ∈ s.documents, d.status = .deleted →
      ∀ d' ∈ s'.documents, d'.docId = d.docId → d'.status ≠ .deleted → ∃ marker, a = .restore marker d.docId := by
  have hs := inv_of_run hrun
  refine ⟨fun sourceType sourcePath hver => ⟨?_, ?_⟩, ?_⟩
  · intro d hd k hk hdt hdp hkt hkp hdr hkr
    exact ready_unique hs.keyed hs.first hd hk (by rw [hkt]; exact hver)
      (sameSource_iff.mpr ⟨hdt.trans hkt.symm, hdp.trans hkp.symm⟩) hdr hkr
  · rintro ⟨d, hd, hdt, hdp, hlive⟩
    obtain ⟨k, hk, hsame, hvis⟩ := exists_visible hd (live_iff.mpr hlive) (by rw [hdt]; exact hver)
    obtain ⟨hkt, hkp⟩ := sameSource_iff.mp hsame
    refine ⟨k, ⟨hk, hkt.trans hdt, hkp.trans hdp, hvis⟩, ?_⟩
    rintro e ⟨he, het, hep, hvise⟩
    exact visible_unique hs.keyed hs.first he hk (by rw [hkt, hdt]; exact hver)
      (sameSource_iff.mpr ⟨by rw [het, hkt, hdt], by rw [hep, hkp, hdp]⟩) hvise hvis
  · intro a s' hstep d hd hdead d' hd' hid hlive'
    have hdead' : live d = false := by simp [live, hdead]
    have hlive' := live_iff.mpr hlive'
    by_cases ha : ∃ marker docId, a = .restore marker docId
    · obtain ⟨marker, docId, rfl⟩ := ha
      refine ⟨marker, ?_⟩
      by_contra hne
      obtain ⟨-, rfl⟩ := write_eq hstep
      have hne' : d.docId ≠ docId := fun e => hne (by rw [e])
      rw [restore_only hs.keyed marker d hd hdead' hne' d' hd' hid] at hlive'
      exact absurd hlive' (by simp)
    · have hstays := hs.staysDeleted hstep fun marker docId e => ha ⟨marker, docId, e⟩
      rw [hstays d hd hdead' d' hd' hid] at hlive'
      exact absurd hlive' (by simp)

/-- Two uploads of one file: the second is published while the first is still processing, the first then finishes. -/
def twoUploads : List Act :=
  [.create .uploadHandler "a" "http_upload" "f" "1", .updateStatus "a" .processing "",
   .create .uploadHandler "b" "http_upload" "f" "2", .publishUpdate "b", .publishRetire true 3, .publishCommit,
   .publishUpdate "a"]

theorem versions_single_twoUploads : ∃ s, run step State.init twoUploads = some s ∧
    (∃ d ∈ s.documents, d.docId = "a" ∧ d.status = .deleted) ∧
    ∃! d, d ∈ s.documents ∧ d.sourceType = "http_upload" ∧ d.sourcePath = "f" ∧
      hiddenDocPredicate s.documents d = false := by
  have h : (run step State.init twoUploads).any (fun s =>
      s.documents.any (fun d => d.docId == "a" && d.status == .deleted) &&
      s.documents.any fun d => d.sourceType == "http_upload" && d.sourcePath == "f" && live d) = true := by
    decide +kernel
  obtain ⟨s, hs, h⟩ := (Option.any_eq_true _ _).mp h
  simp only [Bool.and_eq_true, List.any_eq_true, beq_iff_eq] at h
  obtain ⟨⟨d, hd, hid, hdead⟩, e, he, ⟨het, hep⟩, hlive⟩ := h
  refine ⟨s, hs, ⟨d, hd, hid, hdead⟩, ?_⟩
  exact ((versions_single twoUploads s hs).1 "http_upload" "f" (by decide +kernel)).2
    ⟨e, he, het, hep, live_iff.mp hlive⟩

end Cortrix.Store.Documents
