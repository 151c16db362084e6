import Cortrix.Catalog.HardDeletion

/-!
# What a hard deletion leaves

No deletion touches the parents, the full-text row, the enrichment state or the postings of its document, and each drops
the block rows whether or not their vectors went. Without its row a document is found again in two ways only: an open
transaction is rolled back, and a load drops the contextual points whose block is gone.

* `nothing_outlives` : a load after a sound run leaves nothing more; `swept_content_outlives` : after a plain sweep.
-/

namespace Cortrix.Catalog.HardDeletion
open Lib
open Store (PendingEntry Stores)
open Store.Documents (DocStatus)
open Spc.FailedIngest (Answers Document Shaped Write attempts firstError inserted labelRowsWritten labelled
  mem_beforeBlocks mem_labelled mem_sidecars payload shaped upsertDocFts5Row written written_append written_attempts)

/-! ## The property and its condition -/

section Property
variable (docId : Bytes)

/-- Nothing of the document is left but contextual points whose deletion has just failed. Their label rows name them for
the next load. -/
def OnlyRetried (failed : UInt64 → Bool) (s : State) : Prop :=
  ∀ w, s.ever w → s.contents.Holds docId w →
    ∃ l ∈ s.contents.strayLabels, failed l = true ∧ (w = .row (.point l) ∨ ∃ b, w = .label l b)

/-- A label row, or a point that one names. -/
def Named (s : State) : Write → Prop
  | .label _ _ => True
  | .row (.point l) => ∃ b, (l, b) ∈ s.contents.labels ∧ s.ever (.label l b)
  | _ => False

/-- What the document has, beside its block rows, is named by a label row or undone by a rollback. -/
def Found (s : State) (undone : Write → Prop) : Prop :=
  ∀ w, s.ever w → s.contents.Holds docId w → (∃ b, w = .row (.block b)) ∨ Named s w ∨ undone w

def never (_ : UInt64) : Bool := false

/-- Written beside a block: nothing ever deletes it. -/
def Sidecar : Write → Prop
  | .enrichState _ | .sparse _ => True
  | _ => False

/-- The condition on a step: all is found again when the row goes, when a transaction ends without the row, and when a
load settles what is open; and without the row no sidecar is written. -/
def Sound (s : State) : Act → Prop
  | .write => s.contents.documents docId = none →
    ∀ i w ws, s.ingest = some i → i.todo = w :: ws → ¬ Sidecar w
  | .endWrite logged failed => s.contents.documents docId = none → logged = true →
    Found docId s fun w => (∃ e ∈ s.pending, Undoes never e w) ∨
      ∃ i, s.ingest = some i ∧ i.error.isSome = true ∧ Undoes failed i.entry w
  | .docDelete ok => ok = true → Found docId s fun w => ∃ e ∈ s.opened, Undoes never e w
  | .docDeleteBySourcePrefix hit => hit docId = true → Found docId s fun w => ∃ e ∈ s.opened, Undoes never e w
  | .load failed => s.contents.documents docId = none ∨ s.contents.documents docId = some .deleting →
    Found docId s fun w =>
      (∃ e ∈ s.opened, s.contents.stores.allStoresHave e = false ∧ Undoes failed e w) ∨
        s.contents.documents docId = some .deleting ∧
          ∃ r ∈ s.contents.blocks, r.docId = docId ∧ w = .row (.point r.blockId) ∧ failed r.blockId = false
  | _ => True

end Property

variable {docId : Bytes} {s s' : State} {w : Write} {failed : UInt64 → Bool} {u u' : Write → Prop}

/-! ## The order of the writes -/

/-- Every point of the list is a block of the ingest or comes after its label row. -/
def Ready (ids : List UInt64) : (UInt64 → Prop) → List Write → Prop
  | _, [] => True
  | known, w :: ws =>
    (∀ l, w = .row (.point l) → l ∈ ids ∨ known l) ∧ Ready ids (fun l => known l ∨ ∃ b, w = .label l b) ws

variable {ws : List Write} {i : IngestRun}

theorem Ready.mono {ids : List UInt64} {known known' : UInt64 → Prop} (h : Ready ids known ws)
    (hsub : ∀ l, known l → known' l) : Ready ids known' ws := by
  induction ws generalizing known known' with
  | nil => trivial
  | cons w ws ih => exact ⟨fun l hl => (h.1 l hl).imp_right (hsub l), ih h.2 fun l => Or.imp_left (hsub l)⟩

theorem ready_append {ids : List UInt64} {known : UInt64 → Prop} {A B : List Write} (hA : ∀ l, .row (.point l) ∉ A)
    (hB : ∀ l, .row (.point l) ∈ B → l ∈ ids ∨ known l ∨ ∃ b, .label l b ∈ A) : Ready ids known (A ++ B) := by
  induction A generalizing known with
  | nil =>
    induction B generalizing known with
    | nil => trivial
    | cons w ws ih =>
      refine ⟨fun l hl => ?_, ih fun l hl => ?_⟩
      · exact (hB l (hl ▸ List.mem_cons_self)).imp_right fun h => h.resolve_right (by simp)
      · rcases hB l (List.mem_cons_of_mem _ hl) with h | h | h
        · exact Or.inl h
        · exact Or.inr (Or.inl (Or.inl h))
        · exact Or.inr (Or.inr h)
  | cons w A ih =>
    refine ⟨fun l hl => absurd (hl ▸ List.mem_cons_self) (hA l), ih (fun l hl => hA l (List.mem_cons_of_mem _ hl)) ?_⟩
    intro l hl
    rcases hB l hl with h | h | ⟨b, h⟩
    · exact Or.inl h
    · exact Or.inr (Or.inl (Or.inl h))
    · rcases List.mem_cons.mp h with rfl | h
      · exact Or.inr (Or.inl (Or.inr ⟨b, rfl⟩))
      · exact Or.inr (Or.inr ⟨b, h⟩)

theorem ready_written (d : Document) (a : Answers) :
    Ready d.blockIds (fun _ => False) (written (attempts d a)) := by
  have hpoint {l : UInt64} (h : .row (.point l) ∈ written (attempts d a)) :
      l ∈ d.blockIds ∨ ∃ b, .label l b ∈ written (labelled d a) := by
    rw [written_attempts] at h
    rcases List.mem_append.mp h with h | h
    · rcases mem_beforeBlocks h with heq | ⟨_, _, ⟨⟩⟩ | ⟨l', hl, herr, heq⟩ | ⟨_, heq⟩
      · cases heq
      · cases heq
        refine (Document.mem_vecPoints hl herr).imp_right fun hr => ?_
        obtain ⟨r, hr, rfl⟩ := hr
        exact ⟨r.1.2, mem_labelled.mpr (Or.inr ⟨r, hr, rfl⟩)⟩
      · cases heq
    · obtain ⟨b, -, hw⟩ := List.mem_flatMap.mp h
      rcases List.mem_cons.mp hw with heq | hw
      · cases heq
      · rcases mem_sidecars hw with ⟨c, heq⟩ | heq <;> cases heq
  obtain ⟨rest, hsplit⟩ : ∃ rest, written (attempts d a) = written (labelled d a) ++ rest := by
    unfold attempts Spc.FailedIngest.beforeBlocks
    rw [List.append_assoc, List.append_assoc, written_append]
    exact ⟨_, rfl⟩
  rw [hsplit]
  refine ready_append (fun l hl => ?_) fun l hl => ?_
  · rcases mem_labelled.mp hl with ⟨-, hfts⟩ | ⟨r, -, heq⟩
    · unfold upsertDocFts5Row at hfts
      split at hfts
      · cases hfts
      · split at hfts
        · cases hfts
        · cases List.mem_singleton.mp hfts
    · cases heq
  · refine (hpoint ?_).imp_right Or.inr
    rw [hsplit]
    exact List.mem_append_right _ hl

/-! ## The invariant -/

/-- An ingest in progress: the list of its transaction, its own block ids and its writes in order. -/
structure IngestInv (docId : Bytes) (s : State) (i : IngestRun) : Prop where
  blockIds : i.entry.blockIds = i.doc.blockIds
  scope : i.entry.scope = .document
  named : i.entry.docId ≠ [] ∧ Stores.cStr i.entry.docId = docId ∧ Stores.cStr i.doc.docId = docId
  fresh : ∀ r ∈ s.contents.blocks, r.blockId ∈ i.doc.blockIds → r.docId = docId
  shaped : ∃ ws, Shaped i.doc ws ∧ i.todo ⊆ ws
  ready : Ready i.doc.blockIds (fun l => ∃ b, (l, b) ∈ s.contents.labels ∧ s.ever (.label l b)) i.todo

structure Inv (docId : Bytes) (s : State) : Prop where
  /-- A label row of the document never names a block of another one. -/
  named : ∀ {l b}, s.ever (.label l b) → ∀ r ∈ s.contents.blocks, r.blockId = b → r.docId = docId
  ingest : ∀ {i}, s.ingest = some i → IngestInv docId s i
  rowless : s.contents.documents docId = none →
    (∀ r ∈ s.contents.blocks, r.docId ≠ docId) ∧ Found docId s fun w => ∃ e ∈ s.opened, Undoes never e w

theorem Found.of (h : Found docId s u)
    (hsub : ∀ w, s'.ever w → s'.contents.Holds docId w → s.ever w ∧ s.contents.Holds docId w)
    (hnamed : ∀ w, s'.contents.Holds docId w → Named s w → Named s' w) (hu : ∀ w, u w → u' w) : Found docId s' u' := by
  intro w hever hw
  obtain ⟨hever', hw'⟩ := hsub w hever hw
  exact (h w hever' hw').imp_right fun h => h.imp (hnamed w hw) (hu w)

theorem Named.congr (h : Named s w) (hlabels : s'.contents.labels = s.contents.labels) (hever : s'.ever = s.ever) :
    Named s' w := by
  match w with
  | .label l b => trivial
  | .row (.point l) =>
    unfold Named
    rw [hlabels, hever]
    exact h

theorem Found.of_eq (h : Found docId s u) (hcontents : s'.contents = s.contents) (hever : s'.ever = s.ever)
    (hu : ∀ w, u w → u' w) : Found docId s' u' :=
  h.of (fun _ hw hheld => ⟨hever ▸ hw, hcontents ▸ hheld⟩) (fun _ _ hn => hn.congr (by rw [hcontents]) hever) hu

theorem inv_start {c : Contents} (hkey : Keyed BlockRow.blockId c.blocks) (hrow : (c.documents docId).isSome = true) :
    Inv docId (start docId c) where
  named := by
    rintro l b ⟨-, r', hr', hb, hdoc⟩ r hr hb'
    rw [hkey.eq_of_key hr hr' (hb'.trans hb.symm)]
    exact hdoc
  ingest h := by cases h
  rowless h := by
    rw [show c.documents docId = none from h] at hrow
    cases hrow

theorem IngestInv.of_subset (h : IngestInv docId s i) (hblocks : s'.contents.blocks ⊆ s.contents.blocks)
    (hlabels : s'.contents.labels = s.contents.labels) (hever : s'.ever = s.ever) : IngestInv docId s' i where
  blockIds := h.blockIds
  scope := h.scope
  named := h.named
  fresh r hr := h.fresh r (hblocks hr)
  shaped := h.shaped
  ready := by
    rw [hlabels, hever]
    exact h.ready

theorem Inv.of_subset (h : Inv docId s) (hblocks : s'.contents.blocks ⊆ s.contents.blocks)
    (hlabels : s'.contents.labels = s.contents.labels) (hever : s'.ever = s.ever) (hingest : s'.ingest = s.ingest)
    (hpending : s'.pending = s.pending) (hholds : ∀ w, s'.contents.Holds docId w → s.contents.Holds docId w)
    (hrowless : s'.contents.documents docId = none → (∀ r ∈ s'.contents.blocks, r.docId ≠ docId) ∧
      Found docId s fun w => ∃ e ∈ s.opened, Undoes never e w) : Inv docId s' where
  named := by
    rw [hever]
    exact fun hl r hr => h.named hl r (hblocks hr)
  ingest hi := (h.ingest (hingest ▸ hi)).of_subset hblocks hlabels hever
  rowless hnone := by
    obtain ⟨hgone, hfound⟩ := hrowless hnone
    refine ⟨hgone, hfound.of (fun w hw hheld => ⟨hever ▸ hw, hholds w hheld⟩) (fun _ _ hn => hn.congr hlabels hever) ?_⟩
    unfold State.opened
    rw [hingest, hpending]
    exact fun w => id

/-! ## A write of the ingest -/

section Writes
variable {c : Contents} {d : Document}

theorem mem_blocks_write {r : BlockRow} (hr : r ∈ (c.write docId d w).blocks) :
    r ∈ c.blocks ∨ r.docId = docId ∧ ∃ b, w = .row (.block b) := by
  match w with
  | .row (.block b) =>
    refine (List.mem_append.mp hr).imp_right fun hnew => ?_
    rw [List.mem_singleton.mp hnew]
    exact ⟨rfl, b, rfl⟩
  | .row (.point _) | .row (.parent _ _) | .row (.docFts _) | .label _ _ | .enrichState _ | .sparse _ => exact Or.inl hr

theorem labels_write {l b : UInt64} (h : (l, b) ∈ c.labels) :
    ∃ b', (l, b') ∈ (c.write docId d w).labels ∧ (b' = b ∨ w = .label l b') := by
  match w with
  | .label l' b' =>
    by_cases hl : l = l'
    · subst hl
      exact ⟨b', mem_upsertRow.mpr (Or.inl rfl), Or.inr rfl⟩
    · exact ⟨b, mem_upsertRow.mpr (Or.inr ⟨h, hl⟩), Or.inl rfl⟩
  | .row (.block _) | .row (.point _) | .row (.parent _ _) | .row (.docFts _) | .enrichState _ | .sparse _ =>
    exact ⟨b, h, Or.inl rfl⟩

theorem holds_write {w' : Write} (h : (c.write docId d w).Holds docId w') : w' = w ∨ c.Holds docId w' := by
  match w with
  | .row (.block b) =>
    match w' with
    | .row (.block b') =>
      obtain ⟨r, hr, rfl, hdoc⟩ := h
      rcases List.mem_append.mp hr with hr | hr
      · exact Or.inr ⟨r, hr, rfl, hdoc⟩
      · rw [List.mem_singleton.mp hr]
        exact Or.inl rfl
    | .row (.point _) | .row (.parent _ _) | .row (.docFts _) | .label _ _ | .enrichState _ | .sparse _ =>
      exact Or.inr h
  | .row (.point l) =>
    match w' with
    | .row (.point l') => exact (List.mem_cons.mp h).imp_left fun heq => by rw [heq]
    | .row (.block _) | .row (.parent _ _) | .row (.docFts _) | .label _ _ | .enrichState _ | .sparse _ =>
      exact Or.inr h
  | .row (.parent p x) =>
    match w' with
    | .row (.parent p' x') =>
      refine (List.mem_append.mp h).symm.imp_left fun hnew => ?_
      cases List.mem_singleton.mp hnew
      rfl
    | .row (.block _) | .row (.point _) | .row (.docFts _) | .label _ _ | .enrichState _ | .sparse _ => exact Or.inr h
  | .row (.docFts x) =>
    match w' with
    | .row (.docFts x') =>
      refine (List.mem_append.mp h).symm.imp (fun hnew => ?_) fun hold => (mem_deleteWhere.mp hold).1
      rw [List.mem_singleton.mp hnew]
    | .row (.block _) | .row (.point _) | .row (.parent _ _) | .label _ _ | .enrichState _ | .sparse _ => exact Or.inr h
  | .label l b =>
    match w' with
    | .label l' b' =>
      refine (mem_upsertRow.mp h).imp (fun heq => ?_) And.left
      cases heq
      rfl
    | .row (.block _) | .row (.point _) | .row (.parent _ _) | .row (.docFts _) | .enrichState _ | .sparse _ =>
      exact Or.inr h
  | .enrichState b =>
    match w' with
    | .enrichState b' =>
      refine (mem_upsertRow.mp h).imp (fun heq => ?_) And.left
      cases heq
      rfl
    | .row (.block _) | .row (.point _) | .row (.parent _ _) | .row (.docFts _) | .label _ _ | .sparse _ =>
      exact Or.inr h
  | .sparse ch =>
    match w' with
    | .sparse ch' =>
      refine (List.mem_append.mp h).symm.imp (fun hnew => ?_) fun hold => (mem_deleteWhere.mp hold).1
      rw [List.mem_singleton.mp hnew]
    | .row (.block _) | .row (.point _) | .row (.parent _ _) | .row (.docFts _) | .label _ _ | .enrichState _ =>
      exact Or.inr h

end Writes

/-- The state after a write that the stores accept. -/
def wrote (docId : Bytes) (s : State) (i : IngestRun) (w : Write) (ws : List Write) : State :=
  { s with
    contents := s.contents.write docId i.doc w
    ingest := some { i with todo := ws }
    ever := fun w' => w' = w ∨ s.ever w' }

theorem Named.wrote {w' : Write} (h : Named s w') : Named (wrote docId s i w ws) w' := by
  match w' with
  | .label _ _ => trivial
  | .row (.point l) =>
    obtain ⟨b, hmem, hever⟩ := h
    have hkept : ∃ b', (l, b') ∈ (s.contents.write docId i.doc w).labels ∧ (b' = b ∨ w = .label l b') :=
      labels_write hmem
    obtain ⟨b', hmem', heq⟩ := hkept
    refine ⟨b', hmem', ?_⟩
    rcases heq with rfl | heq
    · exact Or.inr hever
    · exact Or.inl heq.symm

theorem found_written (hi : IngestInv docId s i) (htodo : i.todo = w :: ws) (hblock : ∀ b, w ≠ .row (.block b))
    (hsidecar : ¬ Sidecar w) : Named (wrote docId s i w ws) w ∨ Undoes never i.entry w := by
  obtain ⟨all, hshaped, hsub⟩ := hi.shaped
  have hmem : w ∈ all := hsub (htodo ▸ List.mem_cons_self)
  have hready := hi.ready
  rw [htodo] at hready
  have hundoes {x : Bytes} (hx : x = Stores.cStr i.doc.docId) :
      i.entry.scope = .document ∧ i.entry.docId ≠ [] ∧ x = Stores.cStr i.entry.docId :=
    ⟨hi.scope, hi.named.1, by rw [hx, hi.named.2.1, hi.named.2.2]⟩
  match w with
  | .row (.block b) => exact absurd rfl (hblock b)
  | .row (.point l) =>
    rcases hready.1 l rfl with hids | hknown
    · exact Or.inr ⟨hi.blockIds ▸ hids, rfl⟩
    · have hnamed : Named s (.row (.point l)) := hknown
      exact Or.inl hnamed.wrote
  | .row (.parent p x) => exact Or.inr (hundoes (hshaped.parent p x hmem))
  | .row (.docFts x) => exact Or.inr (hundoes (hshaped.docFts x hmem))
  | .label l b => exact Or.inl trivial
  | .enrichState b => exact absurd trivial hsidecar
  | .sparse ch => exact absurd trivial hsidecar

theorem Inv.wrote (h : Inv docId s) (hingest : s.ingest = some i) (htodo : i.todo = w :: ws)
    (haccept : s.contents.accepts docId w = true) (hsidecar : s.contents.documents docId = none → ¬ Sidecar w) :
    Inv docId (wrote docId s i w ws) := by
  have hi := h.ingest hingest
  obtain ⟨all, hshaped, hsub⟩ := hi.shaped
  rw [htodo] at hsub
  have hdocuments : (HardDeletion.wrote docId s i w ws).contents.documents = s.contents.documents := by
    match w with
    | .row (.block _) | .row (.point _) | .row (.parent _ _) | .row (.docFts _) | .label _ _ | .enrichState _
    | .sparse _ => rfl
  constructor
  · rintro l b (heq | hever) r hr hb
    · rcases mem_blocks_write hr with hr | ⟨hdoc, -⟩
      · exact hi.fresh r hr (hb ▸ hshaped.label l b (heq ▸ hsub List.mem_cons_self))
      · exact hdoc
    · rcases mem_blocks_write hr with hr | ⟨hdoc, -⟩
      · exact h.named hever r hr hb
      · exact hdoc
  · intro i' hi'
    cases hi'
    refine ⟨hi.blockIds, hi.scope, hi.named, fun r hr hids => ?_, ⟨all, hshaped, ?_⟩, ?_⟩
    · rcases mem_blocks_write hr with hr | ⟨hdoc, -⟩
      · exact hi.fresh r hr hids
      · exact hdoc
    · exact fun w' hw' => hsub (List.mem_cons_of_mem _ hw')
    · have hready := hi.ready
      rw [htodo] at hready
      refine hready.2.mono fun l hl => ?_
      rcases hl with hknown | ⟨b, rfl⟩
      · have hnamed : Named s (.row (.point l)) := hknown
        have hnamed' : Named (HardDeletion.wrote docId s i w ws) (.row (.point l)) := hnamed.wrote
        exact hnamed'
      · exact ⟨b, mem_upsertRow.mpr (Or.inl rfl), Or.inl rfl⟩
  · intro hnone
    rw [hdocuments] at hnone
    obtain ⟨hblocks, hfound⟩ := h.rowless hnone
    have hblock : ∀ b, w ≠ .row (.block b) := by
      rintro b rfl
      rw [Contents.accepts, hnone] at haccept
      cases haccept
    refine ⟨fun r hr => ?_, fun w' hever hw' => ?_⟩
    · rcases mem_blocks_write hr with hr | ⟨-, b, heq⟩
      · exact hblocks r hr
      · exact absurd heq (hblock b)
    · have hopened : (HardDeletion.wrote docId s i w ws).opened = s.opened := by
        unfold State.opened
        rw [hingest]
        rfl
      rw [hopened]
      have hentry : i.entry ∈ s.opened := by
        unfold State.opened
        rw [hingest]
        exact List.mem_append_left _ (List.mem_singleton.mpr rfl)
      by_cases heq : w' = w
      · subst heq
        exact Or.inr ((found_written hi htodo hblock (hsidecar hnone)).imp_right fun hundo => ⟨_, hentry, hundo⟩)
      · have hold := (holds_write hw').resolve_left heq
        exact (hfound w' (hever.resolve_left heq) hold).imp_right fun h => h.imp_left Named.wrote

/-! ## The load -/

section Load
variable {c : Contents}

theorem load_status (hS : Shrink failed s.contents c)
    (hgone : (c.dropCrashedDocVectors failed).recoverCrashedDocs.documents docId = none) :
    s.contents.documents docId = none ∨ s.contents.documents docId = some .deleting := by
  rw [← hS.documents]
  unfold Contents.recoverCrashedDocs Contents.dropCrashedDocVectors at hgone
  dsimp only at hgone
  split at hgone
  · cases hgone
  · rename_i hdel
    exact Or.inr hdel
  · exact Or.inl hgone

theorem crashed_of_gone (h : Inv docId s) (hS : Shrink failed s.contents c)
    (hstatus : s.contents.documents docId = none ∨ s.contents.documents docId = some .deleting) {r : BlockRow}
    (hr : r ∈ c.blocks) (hdoc : r.docId = docId) : Contents.crashed (c.documents r.docId) = true := by
  rw [hS.documents, hdoc]
  rcases hstatus with hnone | hdel
  · exact absurd hdoc ((h.rowless hnone).1 r (hS.blocks hr))
  · rw [hdel]
    rfl

theorem blocks_of_gone (h : Inv docId s) (hS : Shrink failed s.contents c)
    (hstatus : s.contents.documents docId = none ∨ s.contents.documents docId = some .deleting) :
    ∀ r ∈ (c.dropCrashedDocVectors failed).recoverCrashedDocs.blocks, r.docId ≠ docId := by
  intro r hr hdoc
  obtain ⟨hmem, hkept⟩ := mem_deleteWhere.mp hr
  exact Bool.eq_false_iff.mp hkept (crashed_of_gone h hS hstatus hmem hdoc)

theorem crashedLabels_of_gone (h : Inv docId s) (hS : Shrink failed s.contents c)
    (hstatus : s.contents.documents docId = none ∨ s.contents.documents docId = some .deleting) {l b : UInt64}
    (hmem : (l, b) ∈ c.labels) (hl : s.ever (.label l b)) : c.crashedLabels.contains l = true := by
  rw [List.contains_iff_mem]
  by_cases hrow : ∃ r ∈ c.blocks, r.blockId = b
  · obtain ⟨r, hr, rfl⟩ := hrow
    have hread := crashed_of_gone h hS hstatus hr (h.named hl r (hS.blocks hr) rfl)
    refine List.mem_append_left _ (List.mem_map.mpr ⟨_, List.mem_filter.mpr ⟨hmem, ?_⟩, rfl⟩)
    exact List.contains_iff_mem.mpr (List.mem_map_of_mem (List.mem_filter.mpr ⟨hr, hread⟩))
  · refine List.mem_append_right _ (List.mem_map.mpr ⟨_, List.mem_filter.mpr ⟨hmem, ?_⟩, rfl⟩)
    simpa using hrow

end Load

/-- What a load leaves of the document: contextual points it could not delete, each still under its label row. -/
theorem load_left (h : Inv docId s) (hsound : Sound docId s (.load failed))
    (hgone : (s.contents.load failed s.opened).documents docId = none) (hever : s.ever w)
    (hw : (s.contents.load failed s.opened).Holds docId w) :
    ∃ l b, (l, b) ∈ (s.contents.load failed s.opened).labels ∧ s.ever (.label l b) ∧
      (∀ r ∈ (s.contents.load failed s.opened).blocks, r.blockId ≠ b) ∧ failed l = true ∧
        (w = .row (.point l) ∨ w = .label l b) := by
  have hS := shrink_recover failed s.contents s.opened
  obtain ⟨c, hc⟩ : ∃ c, s.contents.recover failed s.opened = c := ⟨_, rfl⟩
  unfold Contents.load at hgone hw ⊢
  rw [hc] at hS hgone hw ⊢
  have hstatus := load_status hS hgone
  have hblocks := blocks_of_gone h hS hstatus
  have hselected {l b : UInt64} (hmem : (l, b) ∈ c.labels) (hl : s.ever (.label l b)) :=
    crashedLabels_of_gone h hS hstatus hmem hl
  have hstray {l b : UInt64} (hl : s.ever (.label l b)) :
      ∀ r ∈ (c.dropCrashedDocVectors failed).recoverCrashedDocs.blocks, r.blockId ≠ b :=
    fun r hr hb => hblocks r hr (h.named hl r (hS.blocks (mem_deleteWhere.mp hr).1) hb)
  have hwc : c.Holds docId w :=
    hw.mono (List.filter_subset_self _) (List.filter_subset_self _) (List.Subset.refl _) (List.filter_subset_self _)
      (List.filter_subset_self _) (List.Subset.refl _) (List.Subset.refl _)
  rcases hsound hstatus w hever (hS.holds hwc) with ⟨b, rfl⟩ | hnamed | hundone
  · obtain ⟨r, hr, -, hdoc⟩ := hw
    exact absurd hdoc (hblocks r hr)
  · match w with
    | .label l b =>
      obtain ⟨hmem, hkept⟩ := mem_deleteWhere.mp hw
      rw [hselected hmem hever, Bool.true_and, Bool.not_eq_false'] at hkept
      exact ⟨l, b, hw, hever, hstray hever, hkept, Or.inr rfl⟩
    | .row (.point l) =>
      obtain ⟨b, hmem, hl⟩ := hnamed
      have hmem' : (l, b) ∈ c.labels := (hS.labelGone _ hmem).resolve_right fun hgone => hgone hwc
      have hkept := (mem_deleteWhere.mp hw).2
      rw [hselected hmem' hl, Bool.or_true, Bool.true_and, Bool.not_eq_false'] at hkept
      refine ⟨l, b, mem_deleteWhere.mpr ⟨hmem', ?_⟩, hl, hstray hl, hkept, Or.inl rfl⟩
      rw [hkept, Bool.not_true, Bool.and_false]
    | .row (.block _) | .row (.parent _ _) | .row (.docFts _) | .enrichState _ | .sparse _ => cases hnamed
  · rcases hundone with ⟨e, he, hinc, hundo⟩ | ⟨-, r, hr, hdoc, rfl, hok⟩
    · exact absurd (hc ▸ hwc) (recover_undoes he hinc hundo)
    · have hmem : r ∈ c.blocks := by
        rcases hS.blockGone r hr with hkept | hgone | hfailed
        · exact hkept
        · exact absurd hwc hgone
        · rw [hok] at hfailed
          cases hfailed
      have hkept := (mem_deleteWhere.mp hw).2
      have hread : c.crashedBlocks.contains r.blockId = true :=
        List.contains_iff_mem.mpr
          (List.mem_map_of_mem (List.mem_filter.mpr ⟨hmem, crashed_of_gone h hS hstatus hmem hdoc⟩))
      rw [hread, hok] at hkept
      cases hkept

/-! ## A step and a run -/

theorem Inv.endWrite {logged : Bool} (h : Inv docId s) (hsound : Sound docId s (.endWrite logged failed))
    (hstep : step docId s (.endWrite logged failed) = some s') : Inv docId s' := by
  simp only [step] at hstep
  split at hstep
  · rename_i i hi
    split at hstep
    · cases hstep
    split at hstep
    · cases hstep
      refine ⟨h.named, (fun hi => nomatch hi), fun hnone => ?_⟩
      obtain ⟨hblocks, hfound⟩ := h.rowless hnone
      exact ⟨hblocks, hfound.of_eq rfl rfl fun w hu => by simpa [State.opened, hi] using hu⟩
    rename_i hlogged
    have hlogged : logged = true := by simpa using hlogged
    split at hstep
    · rename_i hok
      cases hstep
      refine ⟨h.named, (fun hi => nomatch hi), fun hnone => ⟨(h.rowless hnone).1, ?_⟩⟩
      refine (hsound hnone hlogged).of_eq rfl rfl fun w hu => ?_
      rcases hu with hu | ⟨i', hi', herr, -⟩
      · exact hu
      · cases hi.symm.trans hi'
        rw [Option.isNone_iff_eq_none.mp hok] at herr
        cases herr
    · cases hstep
      have hS := shrink_rollbackCallback failed s.contents i.entry
      refine ⟨fun hl r hr => h.named hl r (hS.blocks hr), (fun hi => nomatch hi), fun hnone => ?_⟩
      constructor
      · exact fun r hr => (h.rowless hnone).1 r (hS.blocks hr)
      · intro w hever hw
        rcases hsound hnone hlogged w hever (hS.holds hw) with hblock | hnamed | ⟨e, he, hundo⟩ | ⟨i', hi', -, hundo⟩
        · exact Or.inl hblock
        · right; left
          match w with
          | .label _ _ => trivial
          | .row (.point l) =>
            obtain ⟨b, hmem, hl⟩ := hnamed
            exact ⟨b, (hS.labelGone _ hmem).resolve_right fun hgone => hgone hw, hl⟩
        · exact Or.inr (Or.inr ⟨e, he, hundo⟩)
        · cases hi.symm.trans hi'
          exact absurd hw (rollbackCallback_undoes hundo)
  · cases hstep

theorem Inv.load (h : Inv docId s) (hsound : Sound docId s (.load failed)) :
    Inv docId { s with
      contents := s.contents.load failed s.opened, ingest := none, deletion := none, pending := [] } where
  named hl r hr :=
    h.named hl r ((shrink_recover failed s.contents s.opened).blocks (List.filter_subset_self _ hr))
  ingest h := nomatch h
  rowless hnone := by
    have hS := shrink_recover failed s.contents s.opened
    refine ⟨blocks_of_gone h hS (load_status hS hnone), fun w hever hw => ?_⟩
    obtain ⟨l, b, hmem, hl, -, -, rfl | rfl⟩ := load_left h hsound hnone hever hw
    · exact Or.inr (Or.inl ⟨b, hmem, hl⟩)
    · exact Or.inr (Or.inl trivial)

theorem Inv.beginWrite {d : Document} {a : Answers} {txn : UInt64} (h : Inv docId s)
    (hstep : step docId s (.beginWrite d a txn) = some s') : Inv docId s' := by
  simp only [step] at hstep
  split at hstep
  · rename_i hguard
    cases hstep
    simp only [Bool.and_eq_true, beq_iff_eq, Option.isNone_iff_eq_none, Bool.not_eq_true',
      List.isEmpty_eq_false_iff] at hguard
    obtain ⟨⟨⟨hidle, hnamed⟩, hdoc⟩, hfresh⟩ := hguard
    refine ⟨h.named, fun hi => ?_, fun hnone => ⟨(h.rowless hnone).1, ?_⟩⟩
    · cases hi
      refine ⟨rfl, rfl, ⟨hnamed, hdoc, hdoc⟩, fun r hr hids => ?_, ⟨_, shaped d a, List.Subset.refl _⟩, ?_⟩
      · have hrow := List.all_eq_true.mp hfresh r hr
        rw [List.contains_iff_mem.mpr hids] at hrow
        exact beq_iff_eq.mp hrow
      · exact (ready_written d a).mono fun l hl => hl.elim
    · refine (h.rowless hnone).2.of_eq rfl rfl fun w hu => ?_
      obtain ⟨e, he, hundo⟩ := hu
      unfold State.opened at he
      rw [hidle] at he
      exact ⟨e, List.mem_append_right _ he, hundo⟩
  · cases hstep

theorem Inv.refused {err : Option String} (h : Inv docId s) (hi : s.ingest = some i) :
    Inv docId { s with ingest := some { i with todo := [], error := err } } where
  named := h.named
  ingest hi' := by
    cases hi'
    obtain ⟨ws, hshaped, -⟩ := (h.ingest hi).shaped
    exact ⟨(h.ingest hi).blockIds, (h.ingest hi).scope, (h.ingest hi).named, (h.ingest hi).fresh,
      ⟨ws, hshaped, List.nil_subset _⟩, trivial⟩
  rowless hnone := by
    obtain ⟨hblocks, hfound⟩ := h.rowless hnone
    exact ⟨hblocks, hfound.of_eq rfl rfl fun w hu => by simpa [State.opened, hi] using hu⟩

theorem Inv.write (h : Inv docId s) (hsound : Sound docId s .write) (hstep : step docId s .write = some s') :
    Inv docId s' := by
  simp only [step] at hstep
  split at hstep
  · rename_i i hi
    split at hstep
    · rename_i w ws htodo
      cases hstep
      unfold stepWrite
      split
      · rename_i haccept
        exact h.wrote hi htodo haccept fun hnone => hsound hnone i w ws hi htodo
      · exact h.refused hi
    · cases hstep
  · cases hstep

theorem Inv.docDelete (h : Inv docId s) (hfound : Found docId s fun w => ∃ e ∈ s.opened, Undoes never e w) :
    Inv docId { s with contents := s.contents.docDelete docId, deletion := none } :=
  h.of_subset (List.filter_subset_self _) rfl rfl rfl rfl
    (fun _ hw => Contents.Holds.of_thinned (c := s.contents) hw (List.filter_subset_self _) (List.Subset.refl _))
    fun _ => ⟨fun r hr => by simpa using (mem_deleteWhere.mp hr).2, hfound⟩

theorem Inv.docDeleteBySourcePrefix {hit : Bytes → Bool} (h : Inv docId s)
    (hsound : Sound docId s (.docDeleteBySourcePrefix hit)) :
    Inv docId { s with contents := s.contents.docDeleteBySourcePrefix hit } := by
  refine h.of_subset (List.filter_subset_self _) rfl rfl rfl rfl
    (fun _ hw => Contents.Holds.of_thinned (c := s.contents) hw (List.filter_subset_self _) (List.Subset.refl _))
    fun hnone => ?_
  by_cases hbefore : s.contents.documents docId = none
  · obtain ⟨hblocks, hfound⟩ := h.rowless hbefore
    exact ⟨fun r hr => hblocks r (mem_deleteWhere.mp hr).1, hfound⟩
  · have hhit : hit docId = true := by
      by_contra hnot
      exact hbefore (by simpa [Contents.docDeleteBySourcePrefix, hnot] using hnone)
    refine ⟨fun r hr hdoc => ?_, hsound hhit⟩
    have hkept := (mem_deleteWhere.mp hr).2
    rw [hdoc, hhit, Bool.and_true] at hkept
    exact hbefore (by simpa using hkept)

theorem Inv.setDocuments {f : Bytes → Option DocStatus} (h : Inv docId s) (hrow : f docId ≠ none) :
    Inv docId { s with contents := { s.contents with documents := f } } :=
  h.of_subset (List.Subset.refl _) rfl rfl rfl rfl
    (fun _ hw => Contents.Holds.of_thinned (c := s.contents) hw (List.Subset.refl _) (List.Subset.refl _))
    fun hnone => absurd hnone hrow

theorem Inv.markDelete (h : Inv docId s) (b : UInt64) (del : Option Deletion) :
    Inv docId { s with contents := s.contents.markDelete b, deletion := del } :=
  h.of_subset (List.Subset.refl _) rfl rfl rfl rfl
    (fun _ hw => Contents.Holds.of_thinned (c := s.contents) hw (List.Subset.refl _) (List.filter_subset_self _))
    h.rowless

theorem Inv.blockDeleteByDoc (h : Inv docId s) (del : Option Deletion) :
    Inv docId { s with contents := s.contents.blockDeleteByDoc docId, deletion := del } :=
  h.of_subset (List.filter_subset_self _) rfl rfl rfl rfl
    (fun _ hw => Contents.Holds.of_thinned (c := s.contents) hw (List.filter_subset_self _) (List.Subset.refl _))
    fun hnone => ⟨fun r hr => (h.rowless hnone).1 r (mem_deleteWhere.mp hr).1, (h.rowless hnone).2⟩

theorem Inv.setDeletion (h : Inv docId s) (del : Option Deletion) : Inv docId { s with deletion := del } :=
  h.of_subset (List.Subset.refl _) rfl rfl rfl rfl (fun _ hw => hw) h.rowless

theorem inv_step {a : Act} (h : Inv docId s) (hsound : Sound docId s a) (hstep : step docId s a = some s') :
    Inv docId s' := by
  cases a with
  | docCreate =>
    simp only [step] at hstep
    split at hstep
    · cases hstep
    · cases hstep
      exact h.setDocuments (by simp)
  | docUpdateStatus st =>
    simp only [step] at hstep
    split at hstep
    · cases hstep
      exact h.setDocuments (by simp)
    · cases hstep
      exact h
  | beginWrite d a txn => exact h.beginWrite hstep
  | write => exact h.write hsound hstep
  | endWrite logged failed => exact h.endWrite hsound hstep
  | blockGetByDoc caller ok =>
    simp only [step] at hstep
    split at hstep
    · cases hstep
    · cases hstep
      exact h.setDeletion _
  | markDelete ok =>
    simp only [step] at hstep
    split at hstep
    · cases hstep
      cases ok
      · exact h.setDeletion _
      · exact h.markDelete _ _
    · cases hstep
  | blockDeleteByDoc ok =>
    simp only [step] at hstep
    split at hstep
    · cases hstep
      cases ok
      · exact h.setDeletion _
      · exact h.blockDeleteByDoc _
    · cases hstep
  | docDelete ok =>
    simp only [step] at hstep
    split at hstep
    · cases hstep
      cases ok
      · exact h.setDeletion _
      · exact h.docDelete (hsound rfl)
    · cases hstep
      cases ok
      · exact h.setDeletion _
      · exact h.docDelete (hsound rfl)
    · cases hstep
  | docDeleteBySourcePrefix hit =>
    cases hstep
    exact h.docDeleteBySourcePrefix hsound
  | load failed =>
    cases hstep
    exact h.load hsound

/-- **No content outlives its document** in a sound run: for every content of the stores and every interleaving of a
deletion with an ingest, after the next load. -/
theorem nothing_outlives {docId : Bytes} {c : Contents} (hkey : Keyed BlockRow.blockId c.blocks)
    (hrow : (c.documents docId).isSome = true) {acts : List Act} {failed : UInt64 → Bool} {s : State}
    (hrun : run (step docId) (start docId c) (acts ++ [.load failed]) = some s)
    (hsound : Along (step docId) (Sound docId) (start docId c) (acts ++ [.load failed]))
    (hgone : s.contents.documents docId = none) : OnlyRetried docId failed s := by
  obtain ⟨t, ht, hload⟩ := run_append.mp hrun
  obtain ⟨hacts, hlast⟩ := along_append.mp hsound
  have hI : Inv docId t := run_inv (fun h hq hs => inv_step h hq hs) (inv_start hkey hrow) hacts ht
  obtain ⟨t', hstep, hend⟩ := run_cons.mp hload
  cases hend
  cases hstep
  intro w hever hw
  obtain ⟨l, b, hmem, -, hstray, hfailed, heq⟩ := load_left hI (along_cons.mp (hlast t ht)).1 hgone hever hw
  refine ⟨l, List.mem_map.mpr ⟨(l, b), List.mem_filter.mpr ⟨hmem, ?_⟩, rfl⟩, hfailed, heq.imp_right fun h => ⟨b, h⟩⟩
  simpa using hstray

/-! ## Two deletions of a document with one block -/

def theDoc : Bytes := [0x64]

def onlyDoc (st : DocStatus) (x : Bytes) : Option DocStatus := if x = theDoc then some st else none

def bareDoc : Contents where
  documents := onlyDoc .ready
  blocks := [{ blockId := 7, docId := theDoc, childId := [0x61] }]
  labels := [(17, 7)]
  points := [7, 17]

def importerRun : List Act :=
  [.docUpdateStatus .deleting, .blockGetByDoc .importer true, .markDelete true, .docDelete true]

/-- The importer deletes the bare document; the load fails to delete its contextual point, which its label row names. -/
theorem nothing_outlives_bareDoc :
    ∃ s, run (step theDoc) (start theDoc bareDoc) (importerRun ++ [.load (· == 17)]) = some s ∧
      s.contents.points = [17] ∧ s.contents.labels = [(17, 7)] ∧ OnlyRetried theDoc (· == 17) s := by
  have hfound {s : State} {u : Write → Prop} (hever : s.ever = bareDoc.Belongs theDoc)
      (hpoints : s.contents.points = [17]) (hlabels : s.contents.labels = [(17, 7)])
      (hparents : s.contents.parents = []) (hdocFts : s.contents.docFts = []) (henrich : s.contents.enrichState = [])
      (hsparse : s.contents.sparseIndex = []) : Found theDoc s u := by
    intro w hw hheld
    match w with
    | .row (.block b) => exact Or.inl ⟨b, rfl⟩
    | .row (.point l) =>
      refine Or.inr (Or.inl ⟨7, ?_⟩)
      have hl : l ∈ s.contents.points := hheld
      rw [hpoints, List.mem_singleton] at hl
      subst hl
      rw [hlabels, hever]
      exact ⟨List.mem_singleton.mpr rfl, List.mem_singleton.mpr rfl, _, List.mem_singleton.mpr rfl, rfl, rfl⟩
    | .row (.parent p x) =>
      have hmem : (p, x) ∈ s.contents.parents := hheld
      rw [hparents] at hmem
      cases hmem
    | .row (.docFts x) =>
      have hmem : x ∈ s.contents.docFts := hheld
      rw [hdocFts] at hmem
      cases hmem
    | .label l b => exact Or.inr (Or.inl trivial)
    | .enrichState b =>
      have hmem : (b, theDoc) ∈ s.contents.enrichState := hheld
      rw [henrich] at hmem
      cases hmem
    | .sparse ch =>
      have hmem : ch ∈ s.contents.sparseIndex := hheld
      rw [hsparse] at hmem
      cases hmem
  have hrun : run (step theDoc) (start theDoc bareDoc) (importerRun ++ [.load (· == 17)]) = some _ := rfl
  refine ⟨_, hrun, rfl, rfl, nothing_outlives (c := bareDoc) (by decide) rfl hrun ?_ rfl⟩
  refine ⟨trivial, trivial, trivial, fun _ => ?_, fun _ => ?_, trivial⟩
  · exact hfound rfl rfl rfl rfl rfl rfl rfl
  · exact hfound rfl rfl rfl rfl rfl rfl rfl

/-- An ordinary document in the bin: a block, its parent and the full-text row. -/
def sweptDoc : Contents where
  documents := onlyDoc .deleted
  blocks := [{ blockId := 7, docId := theDoc, childId := [0x61] }]
  parents := [([0x70], theDoc)]
  docFts := [theDoc]
  points := [7]

def sweeperRun : List Act :=
  [.blockGetByDoc .sweeper true, .markDelete false, .blockDeleteByDoc true, .docDelete true]

/-- The sweep fails to delete the vector and drops the block row. The load finds neither the vector nor the parent nor
the full-text row. -/
theorem swept_content_outlives :
    ∃ s, run (step theDoc) (start theDoc sweptDoc) (sweeperRun ++ [.load never]) = some s ∧
      s.contents.documents theDoc = none ∧ s.contents.parents = [([0x70], theDoc)] ∧ s.contents.docFts = [theDoc] ∧
      s.contents.points = [7] ∧ s.contents.blocks = [] ∧ s.contents.labels = [] ∧ ¬ OnlyRetried theDoc never s := by
  refine ⟨_, rfl, rfl, rfl, rfl, rfl, rfl, rfl, fun h => ?_⟩
  obtain ⟨l, hl, -⟩ := h (.row (.parent [0x70] theDoc)) rfl (List.mem_singleton.mpr rfl)
  cases hl

end Cortrix.Catalog.HardDeletion
