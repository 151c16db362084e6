import Cortrix.Catalog.GcManager

/-!
# What the collection deletes is not referenced

Stage 2 counts the references of a file when it selects its candidates, and Stage 3 not at all. A reference that is
added after the count, while the file is still to be deleted or its blob is queued, is not seen.

* `collection_safe` : in every run whose steps spare what is referenced the collection deletes nothing of it;
  `referenced_collected` : runs in which it does.
-/

namespace Cortrix.Catalog
open Lib

/-! ## References -/

def referenced (fileHash : String) (c : Tables) : Bool :=
  c.refs.any fun r => r.fileHash == fileHash && r.status == .active

def blobReferenced (uri : String) (c : Tables) : Bool :=
  c.files.any fun f => f.blobUri == uri && referenced f.fileHash c

def blobPending (uri : String) (c : Tables) : Bool :=
  c.queue.any fun q => q.blobUri == uri && q.status == .pending

def blobQueued (uri : String) (c : Tables) : Bool := c.queue.any fun q => q.blobUri == uri

def Gc.candidates : Gc → List Cand
  | .stage2 _ candidates _ => candidates
  | .idle => []
  | .stage3 _ _ _ => []
  | .marking _ _ _ _ => []
  | .restoring _ _ => []
  | .restoreFound _ _ _ _ => []

def Gc.uris : Gc → List String
  | .stage3 _ uris _ => uris
  | .marking _ _ uris _ => uris
  | .idle => []
  | .stage2 _ _ _ => []
  | .restoring _ _ => []
  | .restoreFound _ _ _ _ => []

/-- The file is a candidate that is still to be deleted, or its blob is to be unlinked, now or later. -/
def condemned (s : State) (fileHash : String) : Bool :=
  s.gc.candidates.any (fun cand => cand.fileHash == fileHash) ||
    s.cat.files.any fun f => f.fileHash == fileHash && (blobPending f.blobUri s.cat || s.gc.uris.elem f.blobUri)

/-- A step that adds a reference adds it to a file that is not condemned; a file row of a referenced hash comes with
a blob that is not; and no blob is queued that another referenced file has. -/
def sparesReferenced (cfg : GcConfig) (s : State) : Act → Bool
  | .incrementRef fileHash _ _ => !condemned s fileHash
  | .restoreRefs committed =>
    match s.gc with
    | .restoreFound fileHash docId _ _ =>
      !(committed && s.cat.refs.any fun r => r.fileHash == fileHash && r.docId == docId && r.status == .deleted) ||
        !condemned s fileHash
    | _ => true
  | .insertFile f => !referenced f.fileHash s.cat || !(blobPending f.blobUri s.cat || s.gc.uris.elem f.blobUri)
  | .hardDelete clock eligibleClock queuedClock =>
    match hardDeletes cfg s (.hardDelete clock eligibleClock queuedClock) with
    | some cand => cand.blobUri == "" || blobQueued cand.blobUri s.cat ||
        !s.cat.files.any fun f => f.fileHash != cand.fileHash && f.blobUri == cand.blobUri && referenced f.fileHash s.cat
    | none => true
  | .enqueueBlob uri _ _ => blobQueued uri s.cat || !blobReferenced uri s.cat
  | _ => true

variable {cfg : GcConfig} {s s' : State} {a : Act} {c c' : Tables} {h u : String}

theorem referenced_iff : referenced h c = true ↔ ∃ r ∈ c.refs, r.fileHash = h ∧ r.status = .active := by
  simp [referenced]

theorem blobReferenced_iff :
    blobReferenced u c = true ↔ ∃ f ∈ c.files, f.blobUri = u ∧ referenced f.fileHash c = true := by
  simp [blobReferenced]

theorem blobPending_iff : blobPending u c = true ↔ ∃ q ∈ c.queue, q.blobUri = u ∧ q.status = .pending := by
  simp [blobPending]

/-! ## The invariant -/

/-- Nothing that is to be deleted or unlinked is referenced. -/
structure Unreferenced (s : State) : Prop where
  candidates : ∀ cand ∈ s.gc.candidates, referenced cand.fileHash s.cat = false
  pending : ∀ u, blobPending u s.cat = true → blobReferenced u s.cat = false
  uris : ∀ u ∈ s.gc.uris, blobReferenced u s.cat = false

theorem Unreferenced.init : Unreferenced (State.init ⟨[], [], []⟩) :=
  ⟨by simp [State.init, Gc.candidates], by simp [State.init, blobPending], by simp [State.init, Gc.uris]⟩

theorem unlinks_eq_some (hu : unlinks cfg s a = some u) : u ∈ s.gc.uris := by
  cases a with
  | unlink clock ok =>
    simp only [unlinks] at hu
    split at hu
    · rename_i hgc
      split at hu <;> cases hu
      rw [hgc]
      exact List.mem_cons_self
    · cases hu
  | insertFile | softDelete | incrementRef | decrementRef | enqueueBlob | sweep | hardDelete | stage2Fault | selectBlobs
  | markUnlinked | markFault | sweepEnd | restore | restoreLookup | restoreRefs | restoreEnd => cases hu

variable {cand : Cand} {files : List FileLocation}

theorem hardDeletes_eq_some (hd : hardDeletes cfg s a = some cand) : cand ∈ s.gc.candidates := by
  cases a with
  | hardDelete clock eligibleClock queuedClock =>
    simp only [hardDeletes] at hd
    split at hd
    · rename_i hgc
      split at hd <;> cases hd
      rw [hgc]
      exact List.mem_cons_self
    · cases hd
  | insertFile | softDelete | incrementRef | decrementRef | enqueueBlob | sweep | stage2Fault | selectBlobs | unlink
  | markUnlinked | markFault | sweepEnd | restore | restoreLookup | restoreRefs | restoreEnd => cases hd

/-! ## What a statement does to the references -/

/-- No file is referenced that was not, but for those of `A`; no file row gets another blob. -/
structure Confined (A : String → Prop) (c c' : Tables) : Prop where
  refs : ∀ h, referenced h c' = true → referenced h c = true ∨ A h
  files : ∀ f' ∈ c'.files, ∃ f ∈ c.files, f.fileHash = f'.fileHash ∧ f.blobUri = f'.blobUri

variable {A : String → Prop}

theorem mem_files_updateWhere {p : FileLocation → Bool} {g : FileLocation → FileLocation} {f' : FileLocation}
    (hf' : f' ∈ updateWhere p g files) (hg : ∀ f, (g f).fileHash = f.fileHash ∧ (g f).blobUri = f.blobUri) :
    ∃ f ∈ files, f.fileHash = f'.fileHash ∧ f.blobUri = f'.blobUri := by
  obtain ⟨f, hf, rfl⟩ := mem_updateWhere.mp hf'
  refine ⟨f, hf, ?_⟩
  split
  · exact ⟨(hg f).1.symm, (hg f).2.symm⟩
  · exact ⟨rfl, rfl⟩

theorem Confined.refl (c : Tables) : Confined A c c := ⟨fun _ hr => .inl hr, fun f hf => ⟨f, hf, rfl, rfl⟩⟩

theorem Confined.of_queue {queue : List QueueRow} : Confined A c { c with queue } :=
  ⟨fun _ hr => .inl hr, fun f hf => ⟨f, hf, rfl, rfl⟩⟩

theorem confined_softDelete (fileHash : String) (now : Int) : Confined A c { c with
    files := updateWhere (fun f => f.fileHash == fileHash)
      (fun f => { f with status := .deleted, deletedAt := some now }) c.files } :=
  ⟨fun _ hr => .inl hr, fun _ hf => mem_files_updateWhere hf fun _ => ⟨rfl, rfl⟩⟩

theorem referenced_updateWhere {p : ContentRef → Bool} {g : ContentRef → ContentRef}
    (hr : referenced h { c with refs := updateWhere p g c.refs, files } = true) (hg : ∀ r, (g r).fileHash = r.fileHash) :
    referenced h c = true ∨ ∃ r ∈ c.refs, p r = true ∧ r.fileHash = h ∧ (g r).status = .active := by
  obtain ⟨r', hr', hh, hst⟩ := referenced_iff.mp hr
  obtain ⟨r, hmem, rfl⟩ := mem_updateWhere.mp hr'
  by_cases hp : p r = true
  · rw [if_pos hp] at hh hst
    exact .inr ⟨r, hmem, hp, (hg r).symm.trans hh, hst⟩
  · rw [if_neg hp] at hh hst
    exact .inl (referenced_iff.mpr ⟨r, hmem, hh, hst⟩)

theorem mem_upsertRef {fileHash nsId docId : String} {refs : List ContentRef} {r' : ContentRef}
    (hr : r' ∈ upsertRef fileHash nsId docId refs) : r' ∈ refs ∨ r'.fileHash = fileHash := by
  unfold upsertRef at hr
  split at hr
  · rename_i hins
    obtain ⟨-, rfl⟩ := insertRow_eq_some.mp hins
    rcases List.mem_append.mp hr with hr | hr
    · exact .inl hr
    · rw [List.mem_singleton.mp hr]
      exact .inr rfl
  · obtain ⟨r, hmem, rfl⟩ := mem_updateWhere.mp hr
    split
    · rename_i hkey
      refine .inr (congrArg Prod.fst (beq_iff_eq.mp hkey))
    · exact .inl hmem

theorem confined_incrementRef (fileHash nsId docId : String) :
    Confined (· = fileHash) c (incrementRef fileHash nsId docId c) := by
  unfold incrementRef
  split
  · exact Confined.refl c
  · refine ⟨fun h hr => ?_, fun _ hf => mem_files_updateWhere hf fun _ => ⟨rfl, rfl⟩⟩
    obtain ⟨r, hmem, hh, hst⟩ := referenced_iff.mp hr
    rcases mem_upsertRef hmem with hold | hnew
    · exact .inl (referenced_iff.mpr ⟨r, hold, hh, hst⟩)
    · exact .inr (hh.symm.trans hnew)

theorem confined_decrementRef {fileHash nsId docId : String} (hd : decrementRef fileHash nsId docId c = some c') :
    Confined A c c' := by
  have hrefs : ∀ {files : List FileLocation} (h : String),
      referenced h { c with refs := softDeleteRef fileHash nsId docId c.refs, files } = true →
        referenced h c = true ∨ A h := by
    intro files h hr
    unfold softDeleteRef at hr
    rcases referenced_updateWhere hr (fun _ => rfl) with hold | ⟨r, -, -, -, hst⟩
    · exact .inl hold
    · cases hst
  unfold decrementRef at hd
  split at hd
  · split at hd
    · cases hd
    · split at hd <;> cases hd
      · exact ⟨hrefs, fun _ hf => mem_files_updateWhere hf fun _ => ⟨rfl, rfl⟩⟩
      · exact ⟨hrefs, fun f hf => ⟨f, hf, rfl, rfl⟩⟩
  · cases hd
    exact Confined.refl c

theorem confined_restoreRefs (fileHash docId : String) :
    Confined (fun h => h = fileHash ∧ (c.refs.any fun r => r.fileHash == fileHash && r.docId == docId &&
      r.status == .deleted) = true) c (restoreRefs fileHash docId c) := by
  refine ⟨fun h hr => ?_, fun _ hf => mem_files_updateWhere hf fun _ => ⟨rfl, rfl⟩⟩
  unfold restoreRefs reactivateRefs at hr
  rcases referenced_updateWhere hr (fun _ => rfl) with hold | ⟨r, hmem, hp, hh, -⟩
  · exact .inl hold
  · refine .inr ⟨?_, List.any_eq_true.mpr ⟨r, hmem, hp⟩⟩
    simp only [Bool.and_eq_true, beq_iff_eq] at hp
    exact hh.symm.trans hp.1.1

theorem confined_hardDelete (cand : Cand) (queuedAt eligibleAt : Int) :
    Confined A c (hardDelete cand queuedAt eligibleAt c) := by
  refine ⟨fun h hr => ?_, fun f hf => ⟨f, (mem_deleteWhere.mp hf).1, rfl, rfl⟩⟩
  obtain ⟨r, hmem, hh, hst⟩ := referenced_iff.mp hr
  exact .inl (referenced_iff.mpr ⟨r, (mem_deleteWhere.mp hmem).1, hh, hst⟩)

theorem Confined.blob (hc : Confined A c c') (hb : blobReferenced u c' = true) :
    blobReferenced u c = true ∨ ∃ f ∈ c.files, f.blobUri = u ∧ A f.fileHash := by
  obtain ⟨f', hf', hu, hr⟩ := blobReferenced_iff.mp hb
  obtain ⟨f, hf, hhash, huri⟩ := hc.files f' hf'
  rw [← hhash] at hr
  rcases hc.refs _ hr with hold | hnew
  · exact .inl (blobReferenced_iff.mpr ⟨f, hf, huri.trans hu, hold⟩)
  · exact .inr ⟨f, hf, huri.trans hu, hnew⟩

/-! ## One step -/

theorem not_condemned (hcond : condemned s h = false) (hmem : cand ∈ s.gc.candidates) : cand.fileHash ≠ h := by
  simp only [condemned, Bool.or_eq_false_iff, List.any_eq_false] at hcond
  exact fun he => hcond.1 cand hmem (beq_iff_eq.mpr he)

theorem not_condemned_blob {f : FileLocation} (hcond : condemned s h = false) (hf : f ∈ s.cat.files)
    (hh : f.fileHash = h) : blobPending f.blobUri s.cat = false ∧ f.blobUri ∉ s.gc.uris := by
  simp only [condemned, Bool.or_eq_false_iff, List.any_eq_false] at hcond
  have := hcond.2 f hf
  simpa [hh] using this

theorem Unreferenced.confined (hi : Unreferenced s) (hc : Confined A s.cat s'.cat)
    (hA : ∀ h, A h → condemned s h = false) (hcands : ∀ cand ∈ s'.gc.candidates, cand ∈ s.gc.candidates)
    (hpend : ∀ u, blobPending u s'.cat = true → blobPending u s.cat = true)
    (huris : ∀ u ∈ s'.gc.uris, u ∈ s.gc.uris) : Unreferenced s' := by
  refine ⟨fun cand hmem => ?_, fun u hu => ?_, fun u hu => ?_⟩
  · rw [Bool.eq_false_iff]
    intro hr
    rcases hc.refs _ hr with hold | hnew
    · rw [hi.candidates cand (hcands cand hmem)] at hold
      cases hold
    · exact not_condemned (hA _ hnew) (hcands cand hmem) rfl
  · rw [Bool.eq_false_iff]
    intro hr
    rcases hc.blob hr with hold | ⟨f, hf, hfu, hnew⟩
    · rw [hi.pending u (hpend u hu)] at hold
      cases hold
    · have hno := (not_condemned_blob (hA _ hnew) hf rfl).1
      rw [hfu, hpend u hu] at hno
      cases hno
  · rw [Bool.eq_false_iff]
    intro hr
    rcases hc.blob hr with hold | ⟨f, hf, hfu, hnew⟩
    · rw [hi.uris u (huris u hu)] at hold
      cases hold
    · exact (not_condemned_blob (hA _ hnew) hf rfl).2 (hfu ▸ huris u hu)

theorem Unreferenced.goOn (hi : Unreferenced s) (hcat : s'.cat = s.cat)
    (hcands : ∀ cand ∈ s'.gc.candidates, cand ∈ s.gc.candidates) (huris : ∀ u ∈ s'.gc.uris, u ∈ s.gc.uris) :
    Unreferenced s' := by
  apply hi.confined (A := fun _ => False)
  · rw [hcat]
    exact Confined.refl _
  · exact fun _ hf => hf.elim
  · exact hcands
  · rw [hcat]
    exact fun _ hu => hu
  · exact huris

theorem Unreferenced.quiet (hi : Unreferenced s) (hcat : s'.cat = s.cat) (hcands : s'.gc.candidates = [])
    (huris : s'.gc.uris = []) : Unreferenced s' := by
  refine hi.goOn hcat ?_ ?_
  · rw [hcands]
    exact fun _ hx => by cases hx
  · rw [huris]
    exact fun _ hu => by cases hu

theorem blobPending_congr (hq : c'.queue = c.queue) (u : String) : blobPending u c' = blobPending u c := by
  rw [blobPending, blobPending, hq]

theorem incrementRef_queue (fileHash nsId docId : String) (c : Tables) :
    (incrementRef fileHash nsId docId c).queue = c.queue := by
  unfold incrementRef
  split <;> rfl

theorem decrementRef_queue {fileHash nsId docId : String} (hd : decrementRef fileHash nsId docId c = some c') :
    c'.queue = c.queue := by
  unfold decrementRef at hd
  split at hd
  · split at hd
    · cases hd
    · split at hd <;> cases hd <;> rfl
  · cases hd
    rfl

theorem blobPending_markUnlinked {uri : String} (hp : blobPending u (markUnlinked uri c) = true) :
    blobPending u c = true := by
  obtain ⟨q', hq', hu, hst⟩ := blobPending_iff.mp hp
  obtain ⟨q, hq, rfl⟩ := mem_updateWhere.mp hq'
  split at hst
  · cases hst
  · rename_i hne
    rw [if_neg hne] at hu
    exact blobPending_iff.mpr ⟨q, hq, hu, hst⟩

theorem blobPending_enqueueBlob {row : QueueRow} {refs : List ContentRef}
    (hp : blobPending u ⟨files, refs, enqueueBlob row c.queue⟩ = true) :
    blobPending u c = true ∨ u = row.blobUri ∧ blobQueued row.blobUri c = false := by
  unfold enqueueBlob at hp
  cases hins : insertRow QueueRow.blobUri row c.queue with
  | none =>
    rw [hins] at hp
    exact .inl hp
  | some queue =>
    rw [hins] at hp
    obtain ⟨hnew, rfl⟩ := insertRow_eq_some.mp hins
    obtain ⟨q, hq, hu, hst⟩ := blobPending_iff.mp hp
    rcases List.mem_append.mp hq with hold | hrow
    · exact .inl (blobPending_iff.mpr ⟨q, hold, hu, hst⟩)
    · rw [List.mem_singleton.mp hrow] at hu
      refine .inr ⟨hu.symm, ?_⟩
      simp only [blobQueued, List.any_eq_false]
      exact fun q hq he => hnew q hq (beq_iff_eq.mp he)

theorem activeRefs_eq_zero (hz : activeRefs h c.refs = 0) : referenced h c = false := by
  rw [Bool.eq_false_iff]
  intro hr
  obtain ⟨r, hmem, hh, hst⟩ := referenced_iff.mp hr
  have := changes_eq_zero.mp hz r hmem
  simp [hh, hst] at this

theorem referenced_candidate {cutoff : Int} (hmem : cand ∈ stage2Candidates cutoff c) :
    referenced cand.fileHash c = false := by
  simp only [stage2Candidates, List.mem_map, List.mem_filter, Bool.and_eq_true, beq_iff_eq] at hmem
  obtain ⟨f, ⟨-, -, hz⟩, rfl⟩ := hmem
  exact activeRefs_eq_zero hz

theorem pending_stage3Uris {now : Int} {bypass : Bool} (hmem : u ∈ stage3Uris now bypass c) :
    blobPending u c = true := by
  simp only [stage3Uris, List.mem_map, List.mem_filter, Bool.and_eq_true, beq_iff_eq] at hmem
  obtain ⟨q, ⟨hq, hst, -⟩, rfl⟩ := hmem
  exact blobPending_iff.mpr ⟨q, hq, rfl, hst⟩

theorem Unreferenced.insertFile {f : FileLocation} (hi : Unreferenced s)
    (hspare : sparesReferenced cfg s (.insertFile f) = true)
    (hins : insertRow FileLocation.fileHash f s.cat.files = some files) :
    Unreferenced { s with cat := { s.cat with files } } := by
  obtain ⟨-, rfl⟩ := insertRow_eq_some.mp hins
  have hblob : ∀ u, blobReferenced u { s.cat with files := s.cat.files ++ [f] } = true →
      blobReferenced u s.cat = true ∨ f.blobUri = u ∧ referenced f.fileHash s.cat = true := by
    intro u hb
    obtain ⟨f', hf', hu, hr⟩ := blobReferenced_iff.mp hb
    rcases List.mem_append.mp hf' with hold | hnew
    · exact .inl (blobReferenced_iff.mpr ⟨f', hold, hu, hr⟩)
    · rw [List.mem_singleton.mp hnew] at hu hr
      exact .inr ⟨hu, hr⟩
  simp only [sparesReferenced, Bool.or_eq_true, Bool.not_eq_true', Bool.or_eq_false_iff] at hspare
  refine ⟨hi.candidates, fun u hu => ?_, fun u hu => ?_⟩
  · rw [Bool.eq_false_iff]
    intro hb
    rcases hblob u hb with hold | ⟨rfl, hr⟩
    · rw [hi.pending u hu] at hold
      cases hold
    · rcases hspare with hno | ⟨hno, -⟩
      · rw [hr] at hno
        cases hno
      · rw [show blobPending f.blobUri s.cat = true from hu] at hno
        cases hno
  · rw [Bool.eq_false_iff]
    intro hb
    rcases hblob u hb with hold | ⟨rfl, hr⟩
    · rw [hi.uris u hu] at hold
      cases hold
    · rcases hspare with hno | ⟨-, hno⟩
      · rw [hr] at hno
        cases hno
      · simp only [List.elem_eq_mem, decide_eq_false_iff_not] at hno
        exact hno hu

theorem Unreferenced.hardDelete {info : SweepInfo} {rest : List Cand} {report report' : GcRunReport}
    {queuedAt eligibleAt : Int} (hi : Unreferenced s) (hgc : s.gc = .stage2 info (cand :: rest) report)
    (hshared : cand.blobUri = "" ∨ blobQueued cand.blobUri s.cat = true ∨ ∀ f ∈ s.cat.files,
      f.fileHash ≠ cand.fileHash → f.blobUri = cand.blobUri → referenced f.fileHash s.cat = false) :
    Unreferenced { s with cat := Catalog.hardDelete cand queuedAt eligibleAt s.cat, gc := .stage2 info rest report' } := by
  have hc : Confined (fun _ => False) s.cat (Catalog.hardDelete cand queuedAt eligibleAt s.cat) :=
    confined_hardDelete cand queuedAt eligibleAt
  have hcands : ∀ x ∈ rest, x ∈ s.gc.candidates := by
    rw [hgc]
    exact fun x hx => List.mem_cons_of_mem _ hx
  have hold : ∀ u, blobReferenced u s.cat = false →
      blobReferenced u (Catalog.hardDelete cand queuedAt eligibleAt s.cat) = false := by
    intro u hno
    rw [Bool.eq_false_iff] at hno ⊢
    intro hb
    rcases hc.blob hb with hb | ⟨_, _, _, hf⟩
    · exact hno hb
    · exact hf
  refine ⟨fun x hx => ?_, fun u hu => ?_, fun u hu => by cases hu⟩
  · have hno := hi.candidates x (hcands x hx)
    rw [Bool.eq_false_iff] at hno ⊢
    intro hr
    rcases hc.refs _ hr with hr | hf
    · exact hno hr
    · exact hf
  · by_cases hempty : cand.blobUri = ""
    · simp only [Catalog.hardDelete, hempty, if_true] at hu
      exact hold u (hi.pending u hu)
    · simp only [Catalog.hardDelete, hempty, if_false] at hu
      rcases blobPending_enqueueBlob hu with hu | ⟨rfl, hqueued⟩
      · exact hold u (hi.pending u hu)
      · rw [Bool.eq_false_iff]
        intro hb
        obtain ⟨f, hf, hfu, hr⟩ := blobReferenced_iff.mp hb
        obtain ⟨hmem, hne⟩ := mem_deleteWhere.mp hf
        rw [beq_eq_false_iff_ne] at hne
        rcases hshared with h | h | h
        · exact hempty h
        · rw [h] at hqueued
          cases hqueued
        · rcases hc.refs _ hr with hr | hf
          · rw [h f hmem hne hfu] at hr
            cases hr
          · exact hf

theorem Unreferenced.hardDeleteStep {clock eligibleClock queuedClock : Int} (hi : Unreferenced s)
    (hspare : sparesReferenced cfg s (.hardDelete clock eligibleClock queuedClock) = true)
    (h : Catalog.hardDeleteStep cfg s clock eligibleClock queuedClock = some s') : Unreferenced s' := by
  unfold Catalog.hardDeleteStep at h
  split at h
  · rename_i info cand rest report hgc
    simp only [sparesReferenced, hardDeletes, hgc] at hspare
    have hrest : ∀ x ∈ rest, x ∈ s.gc.candidates := by
      rw [hgc]
      exact fun x hx => List.mem_cons_of_mem _ hx
    split at h
    · cases h
      exact hi.goOn rfl (fun _ hx => by cases hx) fun _ hu => by cases hu
    · rename_i hgo
      simp only at h
      split at h
      · cases h
        exact hi.goOn rfl hrest fun _ hu => by cases hu
      · rename_i hdry
        cases h
        refine hi.hardDelete hgc ?_
        simp only [hgo, hdry, Bool.or_self, Bool.false_eq_true, if_false, Bool.or_eq_true, beq_iff_eq,
          Bool.not_eq_true', List.any_eq_false, Bool.and_eq_true, bne_iff_ne, or_assoc] at hspare
        refine hspare.imp_right (Or.imp_right fun hno f hf hne hu => ?_)
        rw [Bool.eq_false_iff]
        exact fun hr => hno f hf ⟨⟨hne, hu⟩, hr⟩
  · cases h

theorem Unreferenced.unlinkStep {clock : Int} {ok : Bool} (hi : Unreferenced s)
    (h : Catalog.unlinkStep cfg s clock ok = some s') : Unreferenced s' := by
  unfold Catalog.unlinkStep at h
  split at h
  · rename_i info uri rest report hgc
    have hrest : ∀ u ∈ rest, u ∈ s.gc.uris := by
      rw [hgc]
      exact fun u hu => List.mem_cons_of_mem _ hu
    split at h
    · cases h
      exact hi.goOn rfl (fun _ hx => by cases hx) fun _ hu => by cases hu
    · split at h
      · cases h
        exact hi.goOn rfl (fun _ hx => by cases hx) hrest
      · split at h <;> cases h
        · exact hi.goOn rfl (fun _ hx => by cases hx) hrest
        · exact hi.goOn rfl (fun _ hx => by cases hx) hrest
  · cases h

theorem Unreferenced.restoreLookupStep {found : Option ContentRef} (hi : Unreferenced s)
    (h : Catalog.restoreLookupStep s found = some s') : Unreferenced s' := by
  unfold Catalog.restoreLookupStep at h
  split at h
  · split at h
    · split at h
      · split at h <;> cases h <;> exact hi.quiet rfl rfl rfl
      · cases h
    · split at h <;> cases h
      exact hi.quiet rfl rfl rfl
  · cases h

theorem Unreferenced.step (hi : Unreferenced s) (hspare : sparesReferenced cfg s a = true)
    (h : Catalog.step cfg s a = some s') : Unreferenced s' := by
  have hnone : ∀ h : String, False → condemned s h = false := fun _ hf => hf.elim
  cases a with
  | insertFile f =>
    simp only [Catalog.step, Option.map_eq_some_iff] at h
    obtain ⟨files, hins, rfl⟩ := h
    exact hi.insertFile hspare hins
  | softDelete fileHash now =>
    cases h
    exact hi.confined (confined_softDelete fileHash now) hnone (fun _ hx => hx) (fun _ hu => hu) fun _ hu => hu
  | incrementRef fileHash nsId docId =>
    cases h
    refine hi.confined (confined_incrementRef fileHash nsId docId) ?_ (fun _ hx => hx) (fun u hu => ?_) fun _ hu => hu
    · rintro _ rfl
      simpa [sparesReferenced] using hspare
    · rwa [blobPending_congr (incrementRef_queue fileHash nsId docId s.cat)] at hu
  | decrementRef fileHash nsId docId =>
    cases h
    cases hd : decrementRef fileHash nsId docId s.cat with
    | none => exact hi
    | some cat =>
      refine hi.confined (confined_decrementRef hd) hnone (fun _ hx => hx) (fun u hu => ?_) fun _ hu => hu
      rwa [Option.getD_some, blobPending_congr (decrementRef_queue hd)] at hu
  | enqueueBlob uri fileHash now =>
    simp only [Catalog.step] at h
    split at h <;> cases h
    rename_i hidle
    refine ⟨hi.candidates, fun u hu => ?_, hi.uris⟩
    rcases blobPending_enqueueBlob hu with hold | ⟨rfl, hqueued⟩
    · exact hi.pending u hold
    · simp only [sparesReferenced, hqueued, Bool.false_or, Bool.not_eq_true'] at hspare
      exact hspare
  | sweep now bypass =>
    simp only [Catalog.step] at h
    split at h <;> cases h
    exact ⟨fun cand hmem => referenced_candidate hmem, hi.pending, fun _ hu => by cases hu⟩
  | hardDelete clock eligibleClock queuedClock => exact hi.hardDeleteStep hspare h
  | stage2Fault | markFault | sweepEnd now | restore docIds | restoreEnd =>
    simp only [Catalog.step] at h
    split at h <;> cases h
    exact hi.quiet rfl rfl rfl
  | selectBlobs =>
    simp only [Catalog.step] at h
    split at h <;> cases h
    exact ⟨(fun _ hx => by cases hx), hi.pending, fun u hu => hi.pending u (pending_stage3Uris hu)⟩
  | unlink clock ok => exact hi.unlinkStep h
  | markUnlinked =>
    simp only [Catalog.step] at h
    split at h <;> cases h
    rename_i info uri uris report hgc
    refine hi.confined Confined.of_queue hnone (fun _ hx => by cases hx) (fun u hu => blobPending_markUnlinked hu) ?_
    rw [hgc]
    exact fun _ hu => hu
  | restoreLookup found => exact hi.restoreLookupStep h
  | restoreRefs committed =>
    simp only [Catalog.step] at h
    split at h
    · rename_i fileHash docId docIds out hgc
      split at h <;> cases h
      · rename_i hcommit
        refine hi.confined (confined_restoreRefs fileHash docId) ?_ (fun _ hx => by cases hx) (fun _ hu => hu)
          fun _ hu => by cases hu
        rintro _ ⟨rfl, hany⟩
        simp only [sparesReferenced, hgc, hcommit, hany, Bool.and_self, Bool.not_true, Bool.false_or,
          Bool.not_eq_true'] at hspare
        exact hspare
      · exact hi.quiet rfl rfl rfl
    · cases h

/-! ## Runs -/

theorem Unreferenced.run {acts : List Act}
    (hspare : Along (Catalog.step cfg) (fun s a => sparesReferenced cfg s a = true) (State.init ⟨[], [], []⟩) acts)
    (h : Lib.run (Catalog.step cfg) (State.init ⟨[], [], []⟩) acts = some s) : Unreferenced s :=
  run_inv (fun hi hq hstep => hi.step hq hstep) Unreferenced.init hspare h

/-- **What is collected is not referenced.** In every run whose references go to files that are not on their way out
and whose queued blobs no other referenced file has, no step unlinks the blob of a referenced file or deletes the row
of one. -/
theorem collection_safe (cfg : GcConfig) (acts : List Act) (s : State)
    (hrun : run (step cfg) (State.init ⟨[], [], []⟩) acts = some s)
    (hspare : Along (step cfg) (fun s a => sparesReferenced cfg s a = true) (State.init ⟨[], [], []⟩) acts) (a : Act) :
    (∀ u, unlinks cfg s a = some u → ∀ f ∈ s.cat.files, f.blobUri = u →
      ∀ r ∈ s.cat.refs, r.fileHash = f.fileHash → r.status ≠ .active) ∧
    (∀ cand, hardDeletes cfg s a = some cand →
      ∀ r ∈ s.cat.refs, r.fileHash = cand.fileHash → r.status ≠ .active) := by
  have hi := Unreferenced.run hspare hrun
  constructor
  · intro u hu f hf hfu r hr hh hst
    have hno := hi.uris u (unlinks_eq_some hu)
    rw [blobReferenced_iff.mpr ⟨f, hf, hfu, referenced_iff.mpr ⟨r, hr, hh, hst⟩⟩] at hno
    cases hno
  · intro cand hd r hr hh hst
    have hno := hi.candidates cand (hardDeletes_eq_some hd)
    rw [referenced_iff.mpr ⟨r, hr, hh, hst⟩] at hno
    cases hno

def defaultConfig : GcConfig := ⟨30, 90, 1000, 60, false⟩

def fileRow (fileHash blobUri : String) : FileLocation := ⟨fileHash, blobUri, 0, .active, none⟩

def purged : List Act :=
  [.insertFile (fileRow "h" "h/h"), .incrementRef "h" "n" "d", .decrementRef "h" "n" "d", .softDelete "h" 10,
   .sweep 20 true, .hardDelete 20 20 20, .selectBlobs]

theorem collection_safe_purged : ∃ s, run (step defaultConfig) (State.init ⟨[], [], []⟩) purged = some s ∧
    unlinks defaultConfig s (.unlink 20 true) = some "h/h" ∧ ∀ f ∈ s.cat.files, f.blobUri = "h/h" →
      ∀ r ∈ s.cat.refs, r.fileHash = f.fileHash → r.status ≠ .active := by
  have h : (run (step defaultConfig) (State.init ⟨[], [], []⟩) purged).any
      (fun s => unlinks defaultConfig s (.unlink 20 true) == some "h/h") = true := by
    decide +kernel
  obtain ⟨s, hs, h⟩ := (Option.any_eq_true _ _).mp h
  have hu := beq_iff_eq.mp h
  exact ⟨s, hs, hu, (collection_safe defaultConfig purged s hs (by decide +kernel) _).1 _ hu⟩

/-- A file that is deleted, swept, and uploaded again under the same hash while its blob waits in the queue. -/
def reuploaded : List Act :=
  [.insertFile (fileRow "h" "h/h"), .incrementRef "h" "n" "d", .decrementRef "h" "n" "d", .softDelete "h" 10,
   .sweep (daysToMs 40) false, .hardDelete (daysToMs 40) (daysToMs 40) (daysToMs 40), .selectBlobs,
   .sweepEnd (daysToMs 40), .insertFile (fileRow "h" "h/h"), .incrementRef "h" "n" "d",
   .sweep (daysToMs 140) false, .selectBlobs]

/-- A file that is referenced again between the selection of the candidates and its deletion. -/
def referencedAgain : List Act :=
  [.insertFile (fileRow "h" "h/h"), .softDelete "h" 10, .sweep 20 true, .incrementRef "h" "n" "d"]

/-- Neither stage looks again: one sweep unlinks the blob of the file that is live again, another deletes the row of
the file that has just been referenced. -/
theorem referenced_collected :
    (¬ ∀ (cfg : GcConfig) (acts : List Act) (s : State), run (step cfg) (State.init ⟨[], [], []⟩) acts = some s →
      ∀ a u, unlinks cfg s a = some u → ∀ f ∈ s.cat.files, f.blobUri = u →
        ∀ r ∈ s.cat.refs, r.fileHash = f.fileHash → r.status ≠ .active) ∧
    (¬ ∀ (cfg : GcConfig) (acts : List Act) (s : State), run (step cfg) (State.init ⟨[], [], []⟩) acts = some s →
      ∀ a cand, hardDeletes cfg s a = some cand →
        ∀ r ∈ s.cat.refs, r.fileHash = cand.fileHash → r.status ≠ .active) := by
  constructor
  · intro hall
    have h : (run (step defaultConfig) (State.init ⟨[], [], []⟩) reuploaded).any
        (fun s => unlinks defaultConfig s (.unlink (daysToMs 140) true) == some "h/h" &&
          s.cat.files.any (fun f => f.blobUri == "h/h" && s.cat.refs.any fun r =>
            r.fileHash == f.fileHash && r.status == .active)) = true := by
      decide +kernel
    obtain ⟨s, hs, h⟩ := (Option.any_eq_true _ _).mp h
    simp only [Bool.and_eq_true, beq_iff_eq, List.any_eq_true] at h
    obtain ⟨hu, f, hf, hfu, r, hr, hh, hst⟩ := h
    exact hall defaultConfig reuploaded s hs _ _ hu f hf hfu r hr hh hst
  · intro hall
    have h : (run (step defaultConfig) (State.init ⟨[], [], []⟩) referencedAgain).any
        (fun s => hardDeletes defaultConfig s (.hardDelete 20 20 20) == some ⟨"h", "h/h"⟩ &&
          s.cat.refs.any fun r => r.fileHash == "h" && r.status == .active) = true := by
      decide +kernel
    obtain ⟨s, hs, h⟩ := (Option.any_eq_true _ _).mp h
    simp only [Bool.and_eq_true, beq_iff_eq, List.any_eq_true] at h
    obtain ⟨hd, r, hr, hh, hst⟩ := h
    exact hall defaultConfig referencedAgain s hs _ _ hd r hr hh hst

end Cortrix.Catalog
