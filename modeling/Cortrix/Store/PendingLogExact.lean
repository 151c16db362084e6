import Cortrix.Store.CoordinatorLog

/-!
# Records that poison pending.wal

A frame keeps the length of `doc_id` in 16 bits and its own size in 32, and `BeginWrite` checks neither. A
record that does not fit is acknowledged like any other, but the scan of the next restart stops at its frame
or reads something else there.

* `ReadsBack s` : a restart in `s` reads exactly the acknowledged records;
* `readsBack_iff_fitting` : in a run without I/O failure every state reads back exactly when every appended
  record fits; `long_docId_lost` : a `doc_id` of 65536 bytes is acknowledged and gone.
-/

namespace Cortrix.Store.WriteCoordinator
open Lib PendingLogWriter
open PendingEntry (Fits serialize stored)

/-- The appends and the compactions succeed, and the process does not restart. -/
def NoIoFailure : Act → Prop
  | .append _ o => o = .ok
  | .compact _ ok => ok = true
  | .recover .. => False
  | _ => True

def Fitting (s : State) : Act → Prop
  | .append tid _ => ∀ e ∈ appending s tid, Fits e
  | _ => True

instance (s : State) (a : Act) : Decidable (Fitting s a) :=
  match a with
  | .append tid _ => inferInstanceAs (Decidable (∀ e ∈ appending s tid, Fits e))
  | .begin .. | .commit .. | .rollback .. | .advance _ | .compact .. | .callback .. | .write .. | .writeLabel ..
  | .recover .. => .isTrue trivial

/-- A restart opens the file and reads exactly the acknowledged records. -/
def ReadsBack (s : State) : Prop := (openLog s.image).map (fun image => (readAll image).1) = .ok s.acked

/-- A coordinator without calls on an empty log. -/
structure Fresh (s : State) : Prop where
  image : s.image = makeHeader
  acked : s.acked = []
  calls : ∀ tid, s.calls tid = none

def ackedBy (s : State) : Act → List PendingEntry
  | .append tid .ok => (appending s tid).toList
  | _ => []

def acknowledged (cfg : Config) : State → List Act → List PendingEntry
  | _, [] => []
  | s, a :: as => ackedBy s a ++ ((step cfg s a).elim [] fun s' => acknowledged cfg s' as)

/-- The file holds the acknowledged records, all of which fit, and nothing else. -/
structure Exact (s : State) : Prop where
  headed : WellHeaded s.image
  scan : scanRecords s.image = (s.acked, s.image.length)
  fits : ∀ e ∈ s.acked, Fits e
  plain : Plain s

theorem Fresh.exact {s : State} (h : Fresh s) : Exact s := by
  refine ⟨?_, ?_, ?_, ?_⟩
  · rw [h.image]
    exact WellHeaded.makeHeader_self
  · rw [h.image, h.acked]
    exact scanRecords_makeHeader
  · rw [h.acked]
    simp
  · intro tid e he
    rw [appending, h.calls tid] at he
    cases he

theorem readsBack_iff {s : State} (h : WellHeaded s.image) : ReadsBack s ↔ (scanRecords s.image).1 = s.acked := by
  rw [ReadsBack, h.openLog_eq]
  simp only [Except.map, Except.ok.injEq]
  rfl

theorem Exact.readsBack {s : State} (h : Exact s) : ReadsBack s := by
  rw [readsBack_iff h.headed, h.scan]

theorem Exact.step {cfg : Config} {s s' : State} {a : Act} (h : Exact s) (hio : NoIoFailure a) (hfit : Fitting s a)
    (hstep : step cfg s a = some s') : Exact s' := by
  have hnext := step_next hstep
  have hplain := h.plain.next hnext
  cases hnext.log (by rintro order outcome complete rfl; exact hio) with
  | same himage hacked ha => exact ⟨himage ▸ h.headed, by rw [himage, hacked, h.scan], hacked ▸ h.fits, hplain⟩
  | append hrec himage hacked =>
    rename_i tid o e
    have ho : o = .ok := hio
    subst ho
    rw [if_pos rfl] at hacked
    have hfe : Fits e := hfit e hrec
    rcases scanRecords_image .ok h.headed.le_length (congrArg Prod.snd h.scan) hfe with hscan | ⟨hne, -⟩
    · refine ⟨?_, ?_, ?_, hplain⟩
      · rw [himage]
        exact h.headed.append _
      · rw [himage, hacked, hscan, h.scan, h.plain tid e hrec]
      · rw [hacked]
        simpa [or_imp, forall_and] using ⟨h.fits, hfe⟩
    · exact absurd rfl hne
  | compact himage hacked =>
    have hscan := scanRecords_compact (show ∀ e ∈ (scanRecords s.image).1, Fits e by rw [h.scan]; exact h.fits)
    rw [h.scan] at hscan
    refine ⟨?_, ?_, ?_, hplain⟩
    · rw [himage]
      exact WellHeaded.compact _
    · rw [himage, hacked, hscan]
    · rw [hacked]
      exact fun e he => h.fits e (mem_unfinished.mp he).1

theorem fits_of_readsBack {cfg : Config} {s s' : State} {a : Act} (h : Exact s) (hio : NoIoFailure a)
    (hstep : step cfg s a = some s') (hread : ReadsBack s') : Fitting s a := by
  cases a with
  | append tid o =>
    have ho : o = .ok := hio
    subst ho
    cases (step_next hstep).log (by simp) with
    | same himage hacked ha => exact absurd rfl (ha tid .ok)
    | append hrec himage hacked =>
      rename_i e
      rw [if_pos rfl] at hacked
      have hhead : WellHeaded s'.image := himage ▸ h.headed.append _
      rw [readsBack_iff hhead, hacked, himage, AppendOutcome.image] at hread
      have hlen := h.headed.le_length
      have hscan := h.scan
      rw [scanRecords_eq (by rw [List.length_append]; omega)] at hread
      rw [scanRecords_eq hlen] at hscan
      obtain ⟨e', hdec⟩ := scan_append_snoc (congrArg Prod.snd hscan)
        (hread.trans (by rw [hscan]))
      intro f hf
      rw [hrec] at hf
      cases hf
      exact PendingEntry.fits_of_decode hdec
  | _ => trivial

theorem acked_eq_acknowledged {cfg : Config} {s s' : State} {acts : List Act} (hio : ∀ a ∈ acts, NoIoFailure a)
    (hcompact : ∀ tid ok, .compact tid ok ∉ acts) (hrun : run (step cfg) s acts = some s') :
    s'.acked = s.acked ++ acknowledged cfg s acts := by
  induction acts generalizing s with
  | nil =>
    cases hrun
    simp [acknowledged]
  | cons a acts ih =>
    obtain ⟨t, ht, hrun⟩ := run_cons.mp hrun
    have hrest := ih (fun b hb => hio b (by simp [hb])) (fun tid ok hb => hcompact tid ok (by simp [hb])) hrun
    have hioa := hio a (by simp)
    rw [hrest, acknowledged, ht, Option.elim_some, ← List.append_assoc]
    congr 1
    cases (step_next ht).log (by rintro order outcome complete rfl; exact hioa) with
    | same himage hacked ha =>
      have hnone : ackedBy s a = [] := by
        unfold ackedBy
        split
        · exact absurd rfl (ha _ _)
        · rfl
      rw [hacked, hnone, List.append_nil]
    | append hrec himage hacked =>
      have ho : _ = AppendOutcome.ok := hioa
      subst ho
      simp [hacked, ackedBy, hrec]
    | compact himage hacked => exact absurd (List.mem_cons_self) (hcompact _ _)

/-- **Exact read-back.** In a run without I/O failure from an empty log, a restart at any moment reads exactly
the acknowledged records (less what a compaction dropped) if and only if every appended record fits its
frame. -/
theorem readsBack_iff_fitting (cfg : Config) (s₀ s : State) (acts : List Act) (hfresh : Fresh s₀)
    (hio : ∀ a ∈ acts, NoIoFailure a) (hrun : run (step cfg) s₀ acts = some s) :
    ((∀ pre t, pre <+: acts → run (step cfg) s₀ pre = some t → ReadsBack t) ↔ Along (step cfg) Fitting s₀ acts) ∧
    ((∀ tid ok, .compact tid ok ∉ acts) → s.acked = acknowledged cfg s₀ acts) := by
  refine ⟨?_, fun hcompact => ?_⟩
  · refine along_iff_prefixes Exact ReadsBack NoIoFailure ?_ ?_ ?_ hfresh.exact hio hrun
    · exact fun h => h.readsBack
    · exact fun h hio hstep hread => fits_of_readsBack h hio hstep hread
    · exact fun h hio hfit hstep => h.step hio hfit hstep
  · rw [acked_eq_acknowledged hio hcompact hrun, hfresh.acked, List.nil_append]

def oneDoc : List Act :=
  [.begin 0 [0x64] [7] true .document 0, .append 0 .ok, .commit 0 1 0, .append 0 .ok, .advance 0]

theorem readsBack_iff_fitting_oneDoc :
    ∃ s, run (step {}) { stores := emptyStores } oneDoc = some s ∧
      s.acked = [{ txnId := 1, docId := [0x64], blockIds := [7], hasBlob := true },
        { state := .committed, txnId := 1 }] ∧ ReadsBack s := by
  refine ⟨_, rfl, rfl, ?_⟩
  have hexact := readsBack_iff_fitting {} { stores := emptyStores } _ oneDoc ⟨rfl, rfl, fun _ => rfl⟩
    (by simp [oneDoc, NoIoFailure]) rfl
  exact hexact.1.mpr (by decide +kernel) oneDoc _ (List.prefix_refl _) rfl

def longDocId : Bytes := List.replicate 65536 0x61

/-- The document is accepted and its record acknowledged, and a restart does not read it back. -/
theorem long_docId_lost :
    ∃ s, run (step {}) { stores := emptyStores } [.begin 0 longDocId [] false .document 0, .append 0 .ok] = some s ∧
      s.acked = [{ txnId := 1, docId := longDocId }] ∧ ¬ ReadsBack s := by
  have hfresh : Fresh { stores := emptyStores } := ⟨rfl, rfl, fun _ => rfl⟩
  obtain ⟨t, ht⟩ : ∃ t, step {} { stores := emptyStores } (.begin 0 longDocId [] false .document 0) = some t :=
    ⟨_, rfl⟩
  have hacked : t.acked = [] := by
    cases ht
    rfl
  have hrec : appending t 0 = some { txnId := 1, docId := longDocId } := by
    cases ht
    rfl
  obtain ⟨s, hs⟩ : ∃ s, step {} t (.append 0 .ok) = some s := by
    cases ht
    exact ⟨_, rfl⟩
  refine ⟨s, run_cons.mpr ⟨t, ht, run_cons.mpr ⟨s, hs, rfl⟩⟩, ?_, fun hread => ?_⟩
  · cases (step_next hs).log (by simp) with
    | same himage hack ha => exact absurd rfl (ha _ _)
    | append hrec' himage hack =>
      rw [hrec] at hrec'
      cases hrec'
      rw [hack, if_pos rfl, hacked, List.nil_append]
  · have hexact : Exact t := hfresh.exact.step (a := .begin ..) trivial trivial ht
    have hio : NoIoFailure (.append 0 .ok) := rfl
    have hfit : Fits { txnId := 1, docId := longDocId } := fits_of_readsBack hexact hio hs hread _ hrec
    have hlen : longDocId.length < 2 ^ 16 := (hfit rfl).1
    rw [longDocId, List.length_replicate] at hlen
    exact absurd hlen (by decide)

end Cortrix.Store.WriteCoordinator
