import Cortrix.Catalog.GcSafety

/-!
# Blobs that are still to be unlinked

The deletion of a file row in Stage 2 has to leave its blob in the queue as `pending`, which a later Stage 3 selects.
The queue keeps its `unlinked` rows and the enqueue is an insert if absent: a blob that has been unlinked once is not
queued again.

* `Effect cfg s a s'` : all a step may do to the file rows, the queue and the place of the sweep;
* `blobUnlinked`, `queueOpen` : the queue has no `unlinked` row for the blob of the file that is deleted;
* `obligation_recorded_iff` : over every run, each deletion records its blob exactly when the queue is open to it, and
  a pending blob stays pending until `Unlink` is called on it; `second_deletion_lost` : a run in which one is lost.
-/

namespace Cortrix.Catalog
open Lib

def blobUnlinked (uri : String) (c : Tables) : Bool :=
  c.queue.any fun q => q.blobUri == uri && q.status == .unlinked

/-- The blob of a file that the step deletes has no `unlinked` row in the queue. -/
def queueOpen (cfg : GcConfig) (s : State) (a : Act) : Bool :=
  match hardDeletes cfg s a with
  | some cand => cand.blobUri == "" || !blobUnlinked cand.blobUri s.cat
  | none => true

/-- Every file row that the step deletes has its blob pending afterwards. -/
def Recorded (s s' : State) : Prop :=
  ∀ f ∈ s.cat.files, (∀ f' ∈ s'.cat.files, f'.fileHash ≠ f.fileHash) → f.blobUri ≠ "" →
    ∃ q ∈ s'.cat.queue, q.blobUri = f.blobUri ∧ q.status = .pending

/-- The uri that has been unlinked and not yet marked. -/
def Gc.marked : Gc → Option String
  | .marking _ uri _ _ => some uri
  | .idle => none
  | .stage2 _ _ _ => none
  | .stage3 _ _ _ => none
  | .restoring _ _ => none
  | .restoreFound _ _ _ _ => none

variable {cfg : GcConfig} {s s' : State} {a : Act} {c c' : Tables} {u : String}

/-! ## The queue -/

theorem pending_enqueueBlob_iff {row : QueueRow} (hkey : Keyed QueueRow.blobUri c.queue) (hst : row.status = .pending) :
    (∃ q ∈ enqueueBlob row c.queue, q.blobUri = row.blobUri ∧ q.status = .pending) ↔
      blobUnlinked row.blobUri c = false := by
  have hun : blobUnlinked row.blobUri c = false ↔ ∀ q ∈ c.queue, q.blobUri = row.blobUri → q.status ≠ .unlinked := by
    simp [blobUnlinked]
  rw [hun]
  unfold enqueueBlob
  cases hins : insertRow QueueRow.blobUri row c.queue with
  | some queue =>
    obtain ⟨hnew, rfl⟩ := insertRow_eq_some.mp hins
    constructor
    · exact fun _ q hq hu => absurd hu (hnew q hq)
    · exact fun _ => ⟨row, List.mem_append_right _ (List.mem_singleton.mpr rfl), rfl, hst⟩
  | none =>
    have hold : ∃ q ∈ c.queue, q.blobUri = row.blobUri := by
      by_contra hno
      have hsome := insertRow_eq_some.mpr ⟨fun q hq he => hno ⟨q, hq, he⟩, rfl⟩
      rw [hins] at hsome
      cases hsome
    obtain ⟨q, hq, hu⟩ := hold
    constructor
    · rintro ⟨q', hq', hu', hst'⟩ q'' hq'' hu''
      rw [hkey.eq_of_key hq'' hq' (hu''.trans hu'.symm), hst']
      simp
    · intro hno
      refine ⟨q, hq, hu, ?_⟩
      have hne := hno q hq hu
      cases hs : q.status with
      | pending => rfl
      | unlinked => exact absurd hs hne

theorem mem_enqueueBlob {row q : QueueRow} {queue : List QueueRow} (hq : q ∈ queue) : q ∈ enqueueBlob row queue := by
  unfold enqueueBlob
  cases hins : insertRow QueueRow.blobUri row queue with
  | some queue' =>
    obtain ⟨-, rfl⟩ := insertRow_eq_some.mp hins
    exact List.mem_append_left _ hq
  | none => exact hq

theorem keyed_enqueueBlob {row : QueueRow} {queue : List QueueRow} (hkey : Keyed QueueRow.blobUri queue) :
    Keyed QueueRow.blobUri (enqueueBlob row queue) := by
  unfold enqueueBlob
  cases hins : insertRow QueueRow.blobUri row queue with
  | some queue' => exact hkey.insertRow hins
  | none => exact hkey

/-! ## Steps -/

/-- The file rows stay, with their blobs, the keys and the pending blobs. -/
structure KeepsRows (c c' : Tables) : Prop where
  rows : ∀ f ∈ c.files, ∃ f' ∈ c'.files, f'.fileHash = f.fileHash ∧ f'.blobUri = f.blobUri
  keyedFiles : Keyed FileLocation.fileHash c.files → Keyed FileLocation.fileHash c'.files
  keyedQueue : Keyed QueueRow.blobUri c.queue → Keyed QueueRow.blobUri c'.queue
  pending : ∀ q ∈ c.queue, q ∈ c'.queue

theorem KeepsRows.refl (c : Tables) : KeepsRows c c :=
  ⟨fun f hf => ⟨f, hf, rfl, rfl⟩, fun h => h, fun h => h, fun _ hq => hq⟩

theorem KeepsRows.of_update {p : FileLocation → Bool} {g : FileLocation → FileLocation} {refs : List ContentRef}
    (hg : ∀ f, (g f).fileHash = f.fileHash ∧ (g f).blobUri = f.blobUri) :
    KeepsRows c { c with refs, files := updateWhere p g c.files } := by
  refine ⟨fun f hf => ⟨_, mem_updateWhere_of_mem hf, ?_⟩, fun h => h.updateWhere fun f _ => (hg f).1, fun h => h,
    fun _ hq => hq⟩
  split
  · exact hg f
  · exact ⟨rfl, rfl⟩

theorem keepsRows_incrementRef (fileHash nsId docId : String) : KeepsRows c (incrementRef fileHash nsId docId c) := by
  unfold incrementRef
  split
  · exact KeepsRows.refl c
  · exact KeepsRows.of_update fun _ => ⟨rfl, rfl⟩

theorem keepsRows_decrementRef {fileHash nsId docId : String} (hd : decrementRef fileHash nsId docId c = some c') :
    KeepsRows c c' := by
  unfold decrementRef at hd
  split at hd
  · split at hd
    · cases hd
    · split at hd <;> cases hd
      · exact KeepsRows.of_update fun _ => ⟨rfl, rfl⟩
      · exact ⟨fun f hf => ⟨f, hf, rfl, rfl⟩, fun h => h, fun h => h, fun _ hq => hq⟩
  · cases hd
    exact KeepsRows.refl c

theorem keepsRows_insertFile {f : FileLocation} {files : List FileLocation}
    (hins : insertRow FileLocation.fileHash f c.files = some files) : KeepsRows c { c with files } := by
  refine ⟨fun f' hf' => ⟨f', ?_, rfl, rfl⟩, fun h => h.insertRow hins, fun h => h, fun _ hq => hq⟩
  obtain ⟨-, rfl⟩ := insertRow_eq_some.mp hins
  exact List.mem_append_left _ hf'

/-- What a step does to the file rows, to the queue and to the place of the sweep. -/
inductive Effect (cfg : GcConfig) (s : State) (a : Act) (s' : State) : Prop
  | deleted (info : SweepInfo) (cand : Cand) (rest : List Cand) (report report' : GcRunReport)
      (queuedAt eligibleAt : Int) (hgc : s.gc = .stage2 info (cand :: rest) report)
      (hd : hardDeletes cfg s a = some cand)
      (hcat : s'.cat = hardDelete cand queuedAt eligibleAt s.cat) (hgc' : s'.gc = .stage2 info rest report')
  | marked (uri : String) (hgc : s.gc.marked = some uri) (hd : hardDeletes cfg s a = none)
      (hcat : s'.cat = markUnlinked uri s.cat) (hcands : s'.gc.candidates = []) (hgc' : s'.gc.marked = none)
  | unlinked (uri : String) (hu : unlinks cfg s a = some uri) (hd : hardDeletes cfg s a = none) (hcat : s'.cat = s.cat)
      (hcands : s'.gc.candidates = []) (hgc' : s'.gc.marked = some uri)
  | selected (cutoff : Int) (hd : hardDeletes cfg s a = none) (hcat : s'.cat = s.cat)
      (hcands : s'.gc.candidates = stage2Candidates cutoff s.cat) (hgc' : s'.gc.marked = none)
  | kept (hrows : KeepsRows s.cat s'.cat) (hd : hardDeletes cfg s a = none)
      (hcands : s'.gc.candidates.Sublist s.gc.candidates) (hgc' : s'.gc.marked = s.gc.marked ∨ s'.gc.marked = none)

theorem Effect.of_gc {gc : Gc} (hd : hardDeletes cfg s a = none) (hcands : gc.candidates = []) (hgc' : gc.marked = none) :
    Effect cfg s a { s with gc } :=
  .kept (KeepsRows.refl _) hd (by rw [hcands]; exact List.nil_sublist _) (.inr hgc')

theorem Effect.of_tables {cat : Tables} (hd : hardDeletes cfg s a = none) (hrows : KeepsRows s.cat cat) :
    Effect cfg s a { s with cat } :=
  .kept hrows hd (List.Sublist.refl _) (.inl rfl)

theorem effect_hardDeleteStep {clock eligibleClock queuedClock : Int}
    (h : hardDeleteStep cfg s clock eligibleClock queuedClock = some s') :
    Effect cfg s (.hardDelete clock eligibleClock queuedClock) s' := by
  unfold hardDeleteStep at h
  split at h
  · rename_i info cand rest report hgc
    split at h
    · rename_i hstop
      cases h
      exact .of_gc (by simp [hardDeletes, hgc, hstop]) rfl rfl
    · rename_i hgo
      simp only at h
      split at h
      · rename_i hdry
        cases h
        refine .kept (KeepsRows.refl _) (by simp [hardDeletes, hgc, hdry]) ?_ (.inr rfl)
        rw [hgc]
        exact List.sublist_cons_self cand rest
      · rename_i hdry
        cases h
        exact .deleted info cand rest report _ _ _ hgc (by simp [hardDeletes, hgc, hgo, hdry]) rfl rfl
  · cases h

theorem effect_unlinkStep {clock : Int} {ok : Bool} (h : unlinkStep cfg s clock ok = some s') :
    Effect cfg s (.unlink clock ok) s' := by
  unfold unlinkStep at h
  split at h
  · rename_i info uri rest report hgc
    split at h
    · cases h
      exact .of_gc rfl rfl rfl
    · rename_i hgo
      split at h
      · cases h
        exact .of_gc rfl rfl rfl
      · rename_i hdry
        split at h <;> cases h
        · exact .unlinked uri (by simp [unlinks, hgc, hgo, hdry]) rfl rfl rfl rfl
        · exact .of_gc rfl rfl rfl
  · cases h

theorem effect_restoreLookupStep {found : Option ContentRef} (h : restoreLookupStep s found = some s') :
    Effect cfg s (.restoreLookup found) s' := by
  unfold restoreLookupStep at h
  split at h
  · split at h
    · split at h
      · split at h <;> cases h <;> exact .of_gc rfl rfl rfl
      · cases h
    · split at h <;> cases h
      exact .of_gc rfl rfl rfl
  · cases h

theorem effect_of_step (h : step cfg s a = some s') : Effect cfg s a s' := by
  cases a with
  | insertFile f =>
    simp only [step, Option.map_eq_some_iff] at h
    obtain ⟨files, hins, rfl⟩ := h
    exact .of_tables rfl (keepsRows_insertFile hins)
  | softDelete fileHash now =>
    cases h
    exact .of_tables rfl (KeepsRows.of_update fun _ => ⟨rfl, rfl⟩)
  | incrementRef fileHash nsId docId =>
    cases h
    exact .of_tables rfl (keepsRows_incrementRef fileHash nsId docId)
  | decrementRef fileHash nsId docId =>
    cases h
    cases hd : decrementRef fileHash nsId docId s.cat with
    | none => exact .of_tables rfl (KeepsRows.refl _)
    | some cat => exact .of_tables rfl (keepsRows_decrementRef hd)
  | enqueueBlob uri fileHash now =>
    simp only [step] at h
    split at h <;> cases h
    exact .of_tables rfl ⟨fun f hf => ⟨f, hf, rfl, rfl⟩, fun hk => hk, keyed_enqueueBlob, fun _ => mem_enqueueBlob⟩
  | sweep now bypass =>
    simp only [step] at h
    split at h <;> cases h
    exact .selected _ rfl rfl rfl rfl
  | hardDelete clock eligibleClock queuedClock => exact effect_hardDeleteStep h
  | unlink clock ok => exact effect_unlinkStep h
  | restoreLookup found => exact effect_restoreLookupStep h
  | markUnlinked =>
    simp only [step] at h
    split at h <;> cases h
    rename_i info uri uris report hgc
    exact .marked uri (by rw [hgc]; rfl) rfl rfl rfl rfl
  | restoreRefs committed =>
    simp only [step] at h
    split at h
    · split at h <;> cases h
      · exact .kept (KeepsRows.of_update fun _ => ⟨rfl, rfl⟩) rfl (List.nil_sublist _) (.inr rfl)
      · exact .of_gc rfl rfl rfl
    · cases h
  | stage2Fault | selectBlobs | markFault | sweepEnd | restore | restoreEnd =>
    simp only [step] at h
    split at h <;> cases h
    exact .kept (KeepsRows.refl _) rfl (List.nil_sublist _) (.inr rfl)

/-! ## The invariant -/

/-- The primary keys, and the candidates that are left: each with its row and its blob, none twice. -/
structure Sweepable (s : State) : Prop where
  files : Keyed FileLocation.fileHash s.cat.files
  queue : Keyed QueueRow.blobUri s.cat.queue
  hashes : (s.gc.candidates.map Cand.fileHash).Nodup
  rows : ∀ cand ∈ s.gc.candidates, ∃ f ∈ s.cat.files, f.fileHash = cand.fileHash ∧ f.blobUri = cand.blobUri

theorem Sweepable.init : Sweepable (State.init ⟨[], [], []⟩) :=
  ⟨Keyed.nil, Keyed.nil, List.nodup_nil, fun _ hx => by cases hx⟩

theorem stage2Candidates_hashes (hkey : Keyed FileLocation.fileHash c.files) (cutoff : Int) :
    ((stage2Candidates cutoff c).map Cand.fileHash).Nodup := by
  rw [stage2Candidates, List.map_map]
  exact hkey.sublist (List.filter_sublist.map _)

theorem stage2Candidates_rows {cutoff : Int} {cand : Cand} (hmem : cand ∈ stage2Candidates cutoff c) :
    ∃ f ∈ c.files, f.fileHash = cand.fileHash ∧ f.blobUri = cand.blobUri := by
  simp only [stage2Candidates, List.mem_map, List.mem_filter] at hmem
  obtain ⟨f, ⟨hf, -⟩, rfl⟩ := hmem
  exact ⟨f, hf, rfl, rfl⟩

theorem Sweepable.step (hi : Sweepable s) (h : Catalog.step cfg s a = some s') : Sweepable s' := by
  cases effect_of_step h with
  | deleted info cand rest report report' queuedAt eligibleAt hgc hd hcat hgc' =>
    have hhashes := hi.hashes
    have hrows := hi.rows
    simp only [hgc, Gc.candidates, List.map_cons, List.nodup_cons] at hhashes hrows
    refine ⟨?_, ?_, ?_, ?_⟩
    · rw [hcat]
      exact hi.files.deleteWhere
    · rw [hcat]
      simp only [hardDelete]
      split
      · exact hi.queue
      · exact keyed_enqueueBlob hi.queue
    · rw [hgc']
      exact hhashes.2
    · rw [hgc', hcat]
      intro x hx
      obtain ⟨f, hf, hh, hu⟩ := hrows x (List.mem_cons_of_mem _ hx)
      refine ⟨f, mem_deleteWhere.mpr ⟨hf, ?_⟩, hh, hu⟩
      rw [beq_eq_false_iff_ne]
      intro he
      exact hhashes.1 (List.mem_map.mpr ⟨x, hx, hh.symm.trans he⟩)
  | marked uri hgc hd hcat hcands hgc' =>
    refine ⟨?_, ?_, ?_, ?_⟩
    · rw [hcat]
      exact hi.files
    · rw [hcat]
      exact hi.queue.updateWhere fun _ _ => rfl
    · rw [hcands]
      exact List.nodup_nil
    · rw [hcands]
      exact fun _ hx => by cases hx
  | unlinked uri hu hd hcat hcands hgc' =>
    refine ⟨hcat ▸ hi.files, hcat ▸ hi.queue, ?_, ?_⟩
    · rw [hcands]
      exact List.nodup_nil
    · rw [hcands]
      exact fun _ hx => by cases hx
  | selected cutoff hd hcat hcands hgc' =>
    refine ⟨hcat ▸ hi.files, hcat ▸ hi.queue, ?_, ?_⟩
    · rw [hcands]
      exact stage2Candidates_hashes hi.files cutoff
    · rw [hcands, hcat]
      exact fun _ hx => stage2Candidates_rows hx
  | kept hrows hd hcands hgc' =>
    refine ⟨hrows.keyedFiles hi.files, hrows.keyedQueue hi.queue, hi.hashes.sublist (hcands.map _), fun x hx => ?_⟩
    obtain ⟨f, hf, hh, hu⟩ := hi.rows x (hcands.mem hx)
    obtain ⟨f', hf', hh', hu'⟩ := hrows.rows f hf
    exact ⟨f', hf', hh'.trans hh, hu'.trans hu⟩

/-! ## What a deletion records -/

theorem recorded_of_rows (hrows : ∀ f ∈ s.cat.files, ∃ f' ∈ s'.cat.files, f'.fileHash = f.fileHash) :
    Recorded s s' := by
  intro f hf hgone
  obtain ⟨f', hf', hh⟩ := hrows f hf
  exact absurd hh (hgone f' hf')

theorem recorded_deleted_iff {cand : Cand} (hkey : Keyed FileLocation.fileHash s.cat.files)
    (hrow : ∃ f ∈ s.cat.files, f.fileHash = cand.fileHash ∧ f.blobUri = cand.blobUri)
    (hfiles : s'.cat.files = deleteWhere (fun f => f.fileHash == cand.fileHash) s.cat.files) :
    Recorded s s' ↔ (cand.blobUri ≠ "" → ∃ q ∈ s'.cat.queue, q.blobUri = cand.blobUri ∧ q.status = .pending) := by
  obtain ⟨f, hf, hh, hu⟩ := hrow
  constructor
  · intro hr hne
    rw [← hu]
    refine hr f hf (fun f' hf' he => ?_) (by rw [hu]; exact hne)
    rw [hfiles, mem_deleteWhere, beq_eq_false_iff_ne] at hf'
    exact hf'.2 (he.trans hh)
  · intro hr f' hf' hgone hne
    have hhash : f'.fileHash = cand.fileHash := by
      by_contra hno
      refine hgone f' ?_ rfl
      rw [hfiles, mem_deleteWhere, beq_eq_false_iff_ne]
      exact ⟨hf', hno⟩
    rw [hkey.eq_of_key hf' hf (hhash.trans hh.symm)] at hne ⊢
    rw [hu] at hne ⊢
    exact hr hne

theorem recorded_iff (hi : Sweepable s) (h : step cfg s a = some s') : Recorded s s' ↔ queueOpen cfg s a = true := by
  have hopen : hardDeletes cfg s a = none → queueOpen cfg s a = true := fun hd => by rw [queueOpen, hd]
  cases effect_of_step h with
  | deleted info cand rest report report' queuedAt eligibleAt hgc hd hcat hgc' =>
    have hrow := hi.rows cand (by rw [hgc]; exact List.mem_cons_self)
    have hqueue : cand.blobUri ≠ "" → s'.cat.queue =
        enqueueBlob ⟨cand.blobUri, cand.fileHash, queuedAt, eligibleAt, queuedAt, .pending⟩ s.cat.queue := by
      intro hne
      rw [hcat]
      simp only [hardDelete, hne, if_false]
    rw [recorded_deleted_iff hi.files hrow (by rw [hcat]; rfl)]
    simp only [queueOpen, hd, Bool.or_eq_true, beq_iff_eq, Bool.not_eq_true']
    by_cases hne : cand.blobUri = ""
    · simp [hne]
    · rw [hqueue hne, pending_enqueueBlob_iff hi.queue rfl]
      simp [hne]
  | marked uri hgc hd hcat hcands hgc' | unlinked uri hu hd hcat hcands hgc' | selected cutoff hd hcat hcands hgc' =>
    exact iff_of_true (recorded_of_rows fun f hf => ⟨f, by rw [hcat]; exact hf, rfl⟩) (hopen hd)
  | kept hrows hd hcands hgc' =>
    refine iff_of_true (recorded_of_rows fun f hf => ?_) (hopen hd)
    obtain ⟨f', hf', hh, -⟩ := hrows.rows f hf
    exact ⟨f', hf', hh⟩

/-! ## What becomes of a pending blob -/

/-- The blob is pending, and no `Unlink` of it is waiting to be marked. -/
def Waiting (u : String) (s : State) : Prop :=
  (∃ q ∈ s.cat.queue, q.blobUri = u ∧ q.status = .pending) ∧ s.gc.marked ≠ some u

theorem Waiting.step (hw : Waiting u s) (h : Catalog.step cfg s a = some s') :
    Waiting u s' ∨ unlinks cfg s a = some u := by
  obtain ⟨⟨q, hq, hu, hst⟩, hmark⟩ := hw
  cases effect_of_step h with
  | deleted info cand rest report report' queuedAt eligibleAt hgc hd hcat hgc' =>
    refine .inl ⟨⟨q, ?_, hu, hst⟩, by rw [hgc']; simp [Gc.marked]⟩
    rw [hcat]
    simp only [hardDelete]
    split
    · exact hq
    · exact mem_enqueueBlob hq
  | marked uri hgc hd hcat hcands hgc' =>
    refine .inl ⟨⟨q, ?_, hu, hst⟩, by rw [hgc']; simp⟩
    have hne : (q.blobUri == uri) = false := by
      rw [beq_eq_false_iff_ne, hu]
      intro he
      exact hmark (by rw [he, hgc])
    have hmem := mem_updateWhere_of_mem (p := fun q : QueueRow => q.blobUri == uri)
      (f := fun q => { q with status := .unlinked }) hq
    rw [hne, if_neg (by simp)] at hmem
    rw [hcat]
    exact hmem
  | unlinked uri hu' hd hcat hcands hgc' =>
    by_cases he : uri = u
    · exact .inr (by rw [hu', he])
    · refine .inl ⟨⟨q, by rw [hcat]; exact hq, hu, hst⟩, ?_⟩
      rw [hgc']
      simpa using he
  | selected cutoff hd hcat hcands hgc' =>
    exact .inl ⟨⟨q, by rw [hcat]; exact hq, hu, hst⟩, by rw [hgc']; simp⟩
  | kept hrows hd hcands hgc' =>
    refine .inl ⟨⟨q, hrows.pending q hq, hu, hst⟩, ?_⟩
    rcases hgc' with he | he <;> rw [he]
    · exact hmark
    · simp

theorem Waiting.run {acts : List Act} (hw : Waiting u s) (h : Lib.run (Catalog.step cfg) s acts = some s') :
    Waiting u s' ∨ ∃ pre a t, pre ++ [a] <+: acts ∧ Lib.run (Catalog.step cfg) s pre = some t ∧
      unlinks cfg t a = some u := by
  refine run_history (Q := fun _ _ => True) (H := fun acts s' => Waiting u s' ∨ ∃ pre a t, pre ++ [a] <+: acts ∧
    Lib.run (Catalog.step cfg) s pre = some t ∧ unlinks cfg t a = some u) (.inl hw) ?_ (along_true s acts) h
  intro acts t a t' hrun hi _ hstep
  rcases hi with hw | ⟨pre, b, v, hpre, hv, hu⟩
  · rcases hw.step hstep with hw | hu
    · exact .inl hw
    · exact .inr ⟨acts, a, t, List.prefix_refl _, hrun, hu⟩
  · exact .inr ⟨pre, b, v, hpre.trans (List.prefix_append _ _), hv, hu⟩

theorem mem_stage3Uris {q : QueueRow} {now : Int} {bypass : Bool} (hq : q ∈ c.queue) (hst : q.status = .pending)
    (hdue : bypass = true ∨ q.eligibleAt ≤ now) : q.blobUri ∈ stage3Uris now bypass c := by
  simp only [stage3Uris, List.mem_map, List.mem_filter, Bool.and_eq_true, beq_iff_eq, Bool.or_eq_true,
    decide_eq_true_eq]
  exact ⟨q, ⟨hq, hst, hdue⟩, rfl⟩

/-! ## Runs -/

theorem Sweepable.run {acts : List Act} (h : Lib.run (Catalog.step cfg) (State.init ⟨[], [], []⟩) acts = some s) :
    Sweepable s :=
  run_inv (fun hi _ hstep => hi.step hstep) Sweepable.init (along_true _ acts) h

/-- **No blob is forgotten, exactly when the queue is open to it.** In every run each step that deletes a file row
leaves its blob pending if and only if each deletion finds no `unlinked` row of the blob in the queue. A pending blob is
selected by every Stage 3 it is eligible for, and stays pending until `Unlink` is called on it. -/
theorem obligation_recorded_iff (cfg : GcConfig) (acts : List Act) (s : State)
    (hrun : run (step cfg) (State.init ⟨[], [], []⟩) acts = some s) :
    ((∀ pre a t t', pre ++ [a] <+: acts → run (step cfg) (State.init ⟨[], [], []⟩) pre = some t →
        step cfg t a = some t' → Recorded t t') ↔
      Along (step cfg) (fun s a => queueOpen cfg s a = true) (State.init ⟨[], [], []⟩) acts) ∧
    (∀ q ∈ s.cat.queue, q.status = .pending →
      (∀ now bypass, bypass = true ∨ q.eligibleAt ≤ now → q.blobUri ∈ stage3Uris now bypass s.cat) ∧
      (s.gc.marked ≠ some q.blobUri → ∀ later s', run (step cfg) s later = some s' →
        (∃ q' ∈ s'.cat.queue, q'.blobUri = q.blobUri ∧ q'.status = .pending) ∨
          ∃ pre a t, pre ++ [a] <+: later ∧ run (step cfg) s pre = some t ∧ unlinks cfg t a = some q.blobUri)) := by
  constructor
  · rw [along_iff_forall]
    constructor
    · intro h pre a t hpre ht
      obtain ⟨post, rfl⟩ := hpre
      obtain ⟨v, hv, -⟩ := run_append.mp hrun
      obtain ⟨w, hw, hv⟩ := run_append.mp hv
      rw [ht] at hw
      cases hw
      obtain ⟨t', hstep, -⟩ := run_cons.mp hv
      exact (recorded_iff (Sweepable.run ht) hstep).mp (h pre a t t' ⟨post, rfl⟩ ht hstep)
    · intro h pre a t t' hpre ht hstep
      exact (recorded_iff (Sweepable.run ht) hstep).mpr (h pre a t hpre ht)
  · intro q hq hst
    refine ⟨fun now bypass hdue => mem_stage3Uris hq hst hdue, fun hmark later s' hlater => ?_⟩
    have hw : Waiting q.blobUri s := ⟨⟨q, hq, rfl, hst⟩, hmark⟩
    rcases hw.run hlater with hw | hu
    · exact .inl hw.1
    · exact .inr hu

/-- Uploaded, deleted and purged, all the way. -/
def collected : List Act := purged ++ [.unlink 20 true, .markUnlinked, .sweepEnd 20]

theorem obligation_recorded_collected : ∃ s, run (step defaultConfig) (State.init ⟨[], [], []⟩) collected = some s ∧
    ∀ pre a t t', pre ++ [a] <+: collected → run (step defaultConfig) (State.init ⟨[], [], []⟩) pre = some t →
      step defaultConfig t a = some t' → Recorded t t' := by
  have h : (run (step defaultConfig) (State.init ⟨[], [], []⟩) collected).isSome = true := by
    decide +kernel
  obtain ⟨s, hs⟩ := Option.isSome_iff_exists.mp h
  exact ⟨s, hs, (obligation_recorded_iff defaultConfig collected s hs).1.mpr (by decide +kernel)⟩

/-- The same upload a second time, up to the deletion of its row. -/
def collectedAgain : List Act :=
  collected ++ [.insertFile (fileRow "h" "h/h"), .incrementRef "h" "n" "d", .decrementRef "h" "n" "d",
    .softDelete "h" 30, .sweep 40 true]

/-- The second deletion finds the `unlinked` row of the first and records nothing. -/
theorem second_deletion_lost : ¬ ∀ (cfg : GcConfig) (acts : List Act) (s : State),
    run (step cfg) (State.init ⟨[], [], []⟩) acts = some s → ∀ a s', step cfg s a = some s' → Recorded s s' := by
  intro hall
  have h : (run (step defaultConfig) (State.init ⟨[], [], []⟩) collectedAgain).any
      (fun s => (s.cat.files == [⟨"h", "h/h", 0, .deleted, some 30⟩]) &&
        (step defaultConfig s (.hardDelete 40 40 40)).any
        fun s' => s'.cat.files == [] && !blobPending "h/h" s'.cat) = true := by
    decide +kernel
  obtain ⟨s, hs, h⟩ := (Option.any_eq_true _ _).mp h
  simp only [Bool.and_eq_true, beq_iff_eq, Option.any_eq_true, Bool.not_eq_true'] at h
  obtain ⟨hfiles, s', hstep, hgone, hno⟩ := h
  have hrec := hall defaultConfig collectedAgain s hs _ s' hstep ⟨"h", "h/h", 0, .deleted, some 30⟩
    (by rw [hfiles]; exact List.mem_cons_self) (by rw [hgone]; simp) (by simp)
  rw [blobPending_iff.mpr hrec] at hno
  cases hno

end Cortrix.Catalog
