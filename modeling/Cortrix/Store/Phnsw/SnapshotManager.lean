import Mathlib.Data.List.Sort
import Cortrix.Store.Phnsw.Graph

/-!
# SnapshotManager: hnsw_<ts>.index and its footer

A snapshot is a pair of files named by the wall clock. The code sees of an `.index` file the CRC-32 of its
bytes and the graph hnswlib loads from them (`none` when loading throws); of the footer it reads the LSN and
the checksum. An `.index` without a footer is not a committed snapshot.

* `renameIndex` and `writeFooter` are the two moments at which `Save` changes what the others see;
* `latestFooter` : the footer of the newest committed snapshot. A rename does not change it
  (`latestFooter_renameIndex`), a footer write changes it to itself at most (`latestFooter_writeFooter`), and a
  save under a clock reading not before any file's ends with its own footer there (`latestFooter_save`).
-/

namespace Cortrix.Store.Phnsw

structure Footer where
  lsn : UInt64
  checksum : UInt32
  deriving DecidableEq

structure IndexFile where
  checksum : UInt32
  graph : Option Graph

structure SnapshotFile where
  timestamp : UInt64
  index : IndexFile
  footer : Option Footer

namespace SnapshotManager

def keepCount (keep : Int) : Nat := if keep < 1 then 1 else keep.toNat

def newer (a b : SnapshotFile) : Prop := b.timestamp ≤ a.timestamp

instance : DecidableRel newer := fun a b => inferInstanceAs (Decidable (b.timestamp ≤ a.timestamp))

def listSnapshotsNewestFirst (files : List SnapshotFile) : List SnapshotFile := files.insertionSort newer

/-! ## Save -/

/-- The temporary index takes its final name; a footer already there under that name stays. -/
def renameIndex (ts : UInt64) (index : IndexFile) (files : List SnapshotFile) : List SnapshotFile :=
  if files.any (·.timestamp == ts) then files.map fun f => if f.timestamp = ts then { f with index } else f
  else ⟨ts, index, none⟩ :: files

/-- The footer lands: the commit point. -/
def writeFooter (ts : UInt64) (footer : Footer) (files : List SnapshotFile) : List SnapshotFile :=
  files.map fun f => if f.timestamp = ts then { f with footer := some footer } else f

def cleanOldSnapshots (keep : Nat) (files : List SnapshotFile) : List SnapshotFile :=
  (listSnapshotsNewestFirst files).take keep

/-! ## Load -/

def allCorrupt : Status :=
  phnswStatus .internal PhnswErrors.kSnapshotCorrupted "SnapshotManager::Load: all snapshots corrupt"

def loadLoop : List SnapshotFile → Bool → Except Status (Option (Graph × UInt64))
  | [], anySeen => if anySeen then .error allCorrupt else .ok none
  | f :: files, anySeen =>
    match f.footer with
    | none => loadLoop files anySeen
    | some footer =>
      if f.index.checksum ≠ footer.checksum then loadLoop files true else
      match f.index.graph with
      | none => loadLoop files true
      | some g => .ok (some (g, footer.lsn))

/-- `Load`: the graph and LSN of the snapshot it settles on, `none` when there is no snapshot. -/
def load (files : List SnapshotFile) : Except Status (Option (Graph × UInt64)) :=
  loadLoop (listSnapshotsNewestFirst files) false

/-- The footer of the newest committed snapshot (`PeekLatestMeta`). -/
def latestFooter (files : List SnapshotFile) : Option Footer :=
  (listSnapshotsNewestFirst files).findSome? (·.footer)

def latestSnapshotLsn (files : List SnapshotFile) : UInt64 := ((latestFooter files).map (·.lsn)).getD 0

/-! ## What Load settles on -/

/-- What `Load` gets out of one snapshot. -/
def loaded (f : SnapshotFile) : Option (Graph × UInt64) :=
  f.footer.bind fun footer =>
    if f.index.checksum = footer.checksum then f.index.graph.map fun g => (g, footer.lsn) else none

theorem mem_listSnapshots {files : List SnapshotFile} {f : SnapshotFile} :
    f ∈ listSnapshotsNewestFirst files ↔ f ∈ files := List.mem_insertionSort newer

theorem loadLoop_eq (files : List SnapshotFile) (anySeen : Bool) :
    loadLoop files anySeen =
      match files.findSome? loaded with
      | some p => .ok (some p)
      | none => if anySeen || files.any (·.footer.isSome) then .error allCorrupt else .ok none := by
  induction files generalizing anySeen with
  | nil => simp [loadLoop]
  | cons f files ih =>
    rw [loadLoop, List.findSome?_cons, List.any_cons]
    cases hfooter : f.footer with
    | none =>
      have hnone : loaded f = none := by simp [loaded, hfooter]
      simp [hnone, ih]
    | some footer =>
      by_cases hcrc : f.index.checksum = footer.checksum
      · cases hgraph : f.index.graph with
        | none =>
          have hnone : loaded f = none := by simp [loaded, hfooter, hgraph]
          simp [hnone, ih, hcrc]
        | some g =>
          have hsome : loaded f = some (g, footer.lsn) := by simp [loaded, hfooter, hgraph, hcrc]
          simp [hsome, hcrc]
      · have hnone : loaded f = none := by simp [loaded, hfooter, hcrc]
        simp [hnone, ih, hcrc]

/-- `Load` takes the newest snapshot that loads; with footers but nothing to load it fails. -/
theorem load_eq (files : List SnapshotFile) :
    load files =
      match (listSnapshotsNewestFirst files).findSome? loaded with
      | some p => .ok (some p)
      | none => if (listSnapshotsNewestFirst files).any (·.footer.isSome) then .error allCorrupt else .ok none := by
  rw [load, loadLoop_eq, Bool.false_or]

theorem load_of_loads {files : List SnapshotFile} (at_ : UInt64 → Graph)
    (h : ∀ f ∈ files, ∀ m ∈ f.footer, loaded f = some (at_ m.lsn, m.lsn)) :
    load files = .ok ((latestFooter files).map fun m => (at_ m.lsn, m.lsn)) := by
  have key : ∀ fs : List SnapshotFile, (∀ f ∈ fs, ∀ m ∈ f.footer, loaded f = some (at_ m.lsn, m.lsn)) →
      loadLoop fs false = .ok ((fs.findSome? (·.footer)).map fun m => (at_ m.lsn, m.lsn)) := by
    intro fs hfs
    induction fs with
    | nil => rfl
    | cons f fs ih =>
      rw [loadLoop_eq, List.findSome?_cons, List.findSome?_cons]
      cases hfooter : f.footer with
      | none =>
        have hnone : loaded f = none := by simp [loaded, hfooter]
        rw [hnone, ← ih fun f' hf' => hfs f' (by simp [hf']), loadLoop_eq]
        simp [hfooter]
      | some m => rw [hfs f (by simp) m hfooter]; rfl
  exact key _ fun f hf => h f (mem_listSnapshots.mp hf)

/-! ## The newest footer -/

instance : IsTrans SnapshotFile newer :=
  ⟨fun _ _ _ hab hbc => UInt64.le_trans hbc hab⟩

instance : Std.Total newer :=
  ⟨fun a b => (UInt64.le_total b.timestamp a.timestamp)⟩

theorem pairwise_listSnapshots (files : List SnapshotFile) :
    (listSnapshotsNewestFirst files).Pairwise newer := List.pairwise_insertionSort newer files

theorem listSnapshots_map {upd : SnapshotFile → SnapshotFile} (h : ∀ f, (upd f).timestamp = f.timestamp)
    (files : List SnapshotFile) :
    listSnapshotsNewestFirst (files.map upd) = (listSnapshotsNewestFirst files).map upd := by
  refine (List.map_insertionSort newer newer upd files fun a _ b _ => ?_).symm
  rw [newer, newer, h, h]

theorem latestFooter_orphan (ts : UInt64) (index : IndexFile) (files : List SnapshotFile) :
    latestFooter (⟨ts, index, none⟩ :: files) = latestFooter files := by
  have key : ∀ fs : List SnapshotFile, (fs.orderedInsert newer ⟨ts, index, none⟩).findSome? (·.footer) =
      fs.findSome? (·.footer) := by
    intro fs
    induction fs with
    | nil => rfl
    | cons f fs ih =>
      rw [List.orderedInsert_cons]
      split
      · rfl
      · rw [List.findSome?_cons, List.findSome?_cons, ih]
  exact key _

theorem latestFooter_renameIndex (ts : UInt64) (index : IndexFile) (files : List SnapshotFile) :
    latestFooter (renameIndex ts index files) = latestFooter files := by
  unfold renameIndex
  split
  · rw [latestFooter, latestFooter, listSnapshots_map (fun f => by split <;> rfl), List.findSome?_map]
    congr 1
    funext f
    simp only [Function.comp_apply]
    split <;> rfl
  · exact latestFooter_orphan ts index files

theorem latestFooter_writeFooter (ts : UInt64) (footer : Footer) (files : List SnapshotFile) :
    latestFooter (writeFooter ts footer files) = some footer ∨
      latestFooter (writeFooter ts footer files) = latestFooter files := by
  rw [latestFooter, latestFooter, writeFooter, listSnapshots_map (fun f => by split <;> rfl), List.findSome?_map]
  induction listSnapshotsNewestFirst files with
  | nil => exact Or.inr rfl
  | cons f fs ih =>
    rw [List.findSome?_cons, List.findSome?_cons]
    by_cases hts : f.timestamp = ts
    · simp [hts]
    · cases hfooter : f.footer with
      | none => simpa [hts, hfooter] using ih
      | some m => simp [hts, hfooter]

theorem listSnapshots_clean (keep : Nat) (files : List SnapshotFile) :
    listSnapshotsNewestFirst (cleanOldSnapshots keep files) = cleanOldSnapshots keep files :=
  ((pairwise_listSnapshots files).sublist (List.take_sublist _ _)).insertionSort_eq

theorem mem_of_mem_clean {keep : Nat} {files : List SnapshotFile} {f : SnapshotFile}
    (h : f ∈ cleanOldSnapshots keep files) : f ∈ files := mem_listSnapshots.mp (List.mem_of_mem_take h)

theorem mem_writeFooter {ts : UInt64} {footer : Footer} {files : List SnapshotFile} {f : SnapshotFile} :
    f ∈ writeFooter ts footer files ↔
      (∃ f' ∈ files, f'.timestamp = ts ∧ f = { f' with footer := some footer }) ∨
        f ∈ files ∧ f.timestamp ≠ ts := by
  unfold writeFooter
  rw [List.mem_map]
  constructor
  · rintro ⟨f', hf', rfl⟩
    by_cases hts : f'.timestamp = ts
    · exact Or.inl ⟨f', hf', hts, by rw [if_pos hts]⟩
    · rw [if_neg hts]
      exact Or.inr ⟨hf', hts⟩
  · rintro (⟨f', hf', hts, rfl⟩ | ⟨hf, hts⟩)
    · exact ⟨f', hf', if_pos hts⟩
    · exact ⟨f, hf, if_neg hts⟩

theorem mem_renameIndex {ts : UInt64} {index : IndexFile} {files : List SnapshotFile} {f : SnapshotFile}
    (h : f ∈ renameIndex ts index files) :
    f.timestamp = ts ∧ f.index = index ∨ f.timestamp ≠ ts ∧ f ∈ files := by
  unfold renameIndex at h
  split at h
  · obtain ⟨f', hf', rfl⟩ := List.mem_map.mp h
    by_cases hts : f'.timestamp = ts
    · rw [if_pos hts]
      exact Or.inl ⟨hts, rfl⟩
    · rw [if_neg hts]
      exact Or.inr ⟨hts, hf'⟩
  · rename_i hnone
    rcases List.mem_cons.mp h with rfl | h
    · exact Or.inl ⟨rfl, rfl⟩
    · refine Or.inr ⟨fun hts => hnone ?_, h⟩
      exact List.any_eq_true.mpr ⟨f, h, by simpa using hts⟩

/-- A save whose clock reading is not before any file's ends with its own footer as the newest. -/
theorem latestFooter_save {ts : UInt64} {index : IndexFile} {files : List SnapshotFile} (footer : Footer)
    {keep : Nat} (hkeep : 0 < keep) (hclock : ∀ f ∈ files, f.timestamp ≤ ts) :
    latestFooter (cleanOldSnapshots keep (writeFooter ts footer (renameIndex ts index files))) = some footer := by
  have hexists : ∃ f ∈ writeFooter ts footer (renameIndex ts index files), f.timestamp = ts := by
    unfold renameIndex
    split
    · rename_i hany
      obtain ⟨f, hf, hts⟩ := List.any_eq_true.mp hany
      have hts : f.timestamp = ts := by simpa using hts
      refine ⟨_, List.mem_map_of_mem (List.mem_map_of_mem hf), ?_⟩
      simp [hts]
    · exact ⟨_, List.mem_map_of_mem (List.mem_cons_self ..), by simp⟩
  have hle : ∀ f ∈ writeFooter ts footer (renameIndex ts index files), f.timestamp ≤ ts := by
    intro f hf
    rcases mem_writeFooter.mp hf with ⟨f', hf', hts, rfl⟩ | ⟨hf, hts⟩
    · exact hts ▸ UInt64.le_refl _
    · rcases mem_renameIndex hf with ⟨hts', -⟩ | ⟨-, hf⟩
      · exact absurd hts' hts
      · exact hclock f hf
  rw [latestFooter, listSnapshots_clean, cleanOldSnapshots]
  have hsorted := pairwise_listSnapshots (writeFooter ts footer (renameIndex ts index files))
  cases hlist : listSnapshotsNewestFirst (writeFooter ts footer (renameIndex ts index files)) with
  | nil =>
    obtain ⟨f, hf, -⟩ := hexists
    rw [← mem_listSnapshots, hlist] at hf
    cases hf
  | cons head rest =>
    -- the first file has the greatest timestamp, hence this save's, hence its footer
    obtain ⟨f, hf, hts⟩ := hexists
    have hhead : head ∈ writeFooter ts footer (renameIndex ts index files) :=
      mem_listSnapshots.mp (by rw [hlist]; simp)
    rw [← mem_listSnapshots, hlist] at hf
    rw [hlist] at hsorted
    have hge : ts ≤ head.timestamp := by
      rcases List.mem_cons.mp hf with rfl | hf
      · exact hts ▸ UInt64.le_refl _
      · exact hts ▸ (List.pairwise_cons.mp hsorted).1 f hf
    have hfooter : head.footer = some footer := by
      rcases mem_writeFooter.mp hhead with ⟨f', -, -, rfl⟩ | ⟨-, hne⟩
      · rfl
      · exact absurd (UInt64.le_antisymm (hle head hhead) hge) hne
    obtain ⟨k, rfl⟩ : ∃ k, keep = k + 1 := ⟨keep - 1, by omega⟩
    rw [List.take_succ_cons, List.findSome?_cons, hfooter]

theorem latestFooter_save_again :
    latestFooter (cleanOldSnapshots 1 (writeFooter 7 ⟨9, 0⟩ (renameIndex 7 ⟨0, none⟩ [⟨7, ⟨1, none⟩, some ⟨5, 1⟩⟩]))) =
      some ⟨9, 0⟩ :=
  latestFooter_save ⟨9, 0⟩ (by decide) (by decide)

end SnapshotManager

end Cortrix.Store.Phnsw
