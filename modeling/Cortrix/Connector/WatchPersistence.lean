import Cortrix.Connector.DirWatcherRegistry

/-!
# The watchers over restarts

`watchers.json`, written from the slots and read back into an empty registry. The registry mutex makes each call one
step here; the OS watchers are those of `DirWatcherRegistry`.

* `Kept` : what a state owes to those who subscribed; `kept_iff` : a run keeps it exactly when its steps meet `Keeps`.
-/

namespace Cortrix.Connector.WatchPersistence
open Lib
open DirWatcherRegistry

/-! ## The calls -/

/-- `Subscribe` without autostart; `canonicalDir` is what `CanonicalDir` returns, empty for none. -/
def subscribeCall (s : DirWatcherRegistry.State) (directory canonicalDir : String) (targetNamespaces : List String)
    (recursive : Bool) : StatusCode × DirWatcherRegistry.State :=
  let resolved := if canonicalDir = "" then none else some canonicalDir
  let op := Op.subscribe directory resolved targetNamespaces recursive false
  match refused op with
  | some code => (code, s)
  | none => (.ok, { subscribe s { op } canonicalDir targetNamespaces recursive false with holder := none })

def keyOf (directory canonicalDir : String) : String := if canonicalDir = "" then directory else canonicalDir

/-- `Unsubscribe`; a slot left without namespaces goes. -/
def unsubscribeCall (s : DirWatcherRegistry.State) (key namespaceId : String) :
    StatusCode × DirWatcherRegistry.State :=
  match findSlot key s.slots with
  | none => (.notFound, s)
  | some slot =>
    if namespaceId ∈ slot.targetNamespaces then
      let t := unsubscribe s { op := .unsubscribe key none namespaceId } key namespaceId
      (.ok, { s with
        slots := deleteWhere (fun x => x.canonicalDir == key && decide (x.targetNamespaces = [])) t.slots })
    else (.notFound, s)

def removeWatchCall (s : DirWatcherRegistry.State) (key : String) : StatusCode × DirWatcherRegistry.State :=
  match findSlot key s.slots with
  | none => (.notFound, s)
  | some _ => (.ok, { s with slots := deleteWhere (fun x => x.canonicalDir == key) s.slots })

/-! ## The file -/

structure Watcher where
  directory : String
  targetNamespaces : List String
  recursive : Bool

def saved (slot : WatcherSlot) : Watcher := ⟨slot.canonicalDir, slot.targetNamespaces, slot.recursive⟩

def saveState (s : DirWatcherRegistry.State) : List Watcher := s.slots.map saved

/-- The lambda `add` of `LoadState`, on the directories in the order first seen. -/
def add (dir : String) (recursive : Bool) (restored : List Watcher) (ns : String) : List Watcher :=
  match lookup Watcher.directory dir restored with
  | none => restored ++ [⟨dir, if ns = "" then [] else [ns], recursive⟩]
  | some r =>
    if ns = "" ∨ ns ∈ r.targetNamespaces then restored
    else updateWhere (fun x => x.directory == dir)
      (fun x => { x with targetNamespaces := x.targetNamespaces ++ [ns] }) restored

def addWatcher (restored : List Watcher) (w : Watcher) : List Watcher :=
  if w.directory = "" then restored
  else if w.targetNamespaces = [] then add w.directory w.recursive restored ""
  else w.targetNamespaces.foldl (add w.directory w.recursive) restored

def normalize (ws : List Watcher) : List Watcher := ws.foldl addWatcher []

def restore (canonicalDir : String → String) (s : DirWatcherRegistry.State) (w : Watcher) : DirWatcherRegistry.State :=
  if w.targetNamespaces = [] then s
  else (subscribeCall s w.directory (canonicalDir w.directory) w.targetNamespaces w.recursive).2

def loadState (canonicalDir : String → String) : Option (List Watcher) → DirWatcherRegistry.State
  | none => {}
  | some ws => (normalize ws).foldl (restore canonicalDir) {}

/-! ## The runs -/

structure Machine where
  registry : DirWatcherRegistry.State := {}
  /-- `watchers.json`. -/
  file : Option (List Watcher) := none
  /-- The pairs subscribed and neither unsubscribed nor removed since. -/
  held : List (String × String) := []
  /-- The file of the last restart, while nothing else has happened. -/
  restored : Option (List Watcher) := none

inductive Act
  | subscribe (directory canonicalDir : String) (targetNamespaces : List String) (recursive : Bool)
  | unsubscribe (directory canonicalDir namespaceId : String)
  | removeWatch (directory canonicalDir : String)
  | saveState
  /-- A new process; the directories listed do not resolve. -/
  | restart (unresolved : List String)

def step (m : Machine) : Act → Option Machine
  | .subscribe directory canonicalDir targetNamespaces recursive =>
    let r := subscribeCall m.registry directory canonicalDir targetNamespaces recursive
    let new := (targetNamespaces.filter (· ≠ "")).map (canonicalDir, ·)
    some { m with registry := r.2, held := if r.1 = .ok then m.held ++ new else m.held, restored := none }
  | .unsubscribe directory canonicalDir namespaceId =>
    let key := keyOf directory canonicalDir
    let r := unsubscribeCall m.registry key namespaceId
    some { m with
      registry := r.2, held := if r.1 = .ok then m.held.filter (· ≠ (key, namespaceId)) else m.held, restored := none }
  | .removeWatch directory canonicalDir =>
    let key := keyOf directory canonicalDir
    let r := removeWatchCall m.registry key
    some { m with
      registry := r.2, held := if r.1 = .ok then m.held.filter (·.1 ≠ key) else m.held, restored := none }
  | .saveState => some { m with file := some (saveState m.registry), restored := none }
  | .restart unresolved =>
    some { m with
      registry := loadState (fun dir => if dir ∈ unresolved then "" else dir) m.file, restored := m.file }

def Has (ws : List Watcher) (p : String × String) : Prop := ∃ w ∈ ws, w.directory = p.1 ∧ p.2 ∈ w.targetNamespaces

instance (ws : List Watcher) (p : String × String) : Decidable (Has ws p) :=
  inferInstanceAs (Decidable (∃ w ∈ ws, w.directory = p.1 ∧ p.2 ∈ w.targetNamespaces))

/-- The slots of a registry: one to a directory, its namespaces without repeats, importer `i` for namespace `i`. -/
structure Lockstep (s : DirWatcherRegistry.State) : Prop where
  keyed : Keyed WatcherSlot.canonicalDir s.slots
  nodup : ∀ slot ∈ s.slots, slot.targetNamespaces.Nodup
  importers : ∀ slot ∈ s.slots, slot.importers.map (fun i => (i.dataDir, i.namespaceName)) =
    slot.targetNamespaces.map (slot.canonicalDir, ·)

/-- What a state owes: slots in lockstep and none without namespaces, a restart that gave back the file, and no pair
missing from the file a save would write. -/
structure Kept (m : Machine) : Prop where
  lockstep : Lockstep m.registry
  nonempty : ∀ slot ∈ m.registry.slots, slot.targetNamespaces ≠ []
  restored : ∀ ws, m.restored = some ws → saveState m.registry = ws
  held : ∀ p ∈ m.held, Has (saveState m.registry) p

/-- A subscription to a directory not watched yet names a namespace; a restart finds each directory of the file, and in
the file each pair held. -/
def Keeps (m : Machine) : Act → Prop
  | .subscribe _ canonicalDir targetNamespaces _ =>
    canonicalDir = "" ∨ targetNamespaces = [] ∨ (findSlot canonicalDir m.registry.slots).isSome ∨
      ∃ ns ∈ targetNamespaces, ns ≠ ""
  | .restart unresolved =>
    (∀ w ∈ m.file.getD [], w.directory ∉ unresolved) ∧ ∀ p ∈ m.held, Has (m.file.getD []) p
  | _ => True

instance (m : Machine) : (a : Act) → Decidable (Keeps m a)
  | .subscribe _ _ _ _ => inferInstanceAs (Decidable (_ ∨ _))
  | .restart _ => inferInstanceAs (Decidable (_ ∧ _))
  | .unsubscribe _ _ _ | .removeWatch _ _ | .saveState => .isTrue trivial

/-! ## Subscribing -/

variable {s : DirWatcherRegistry.State} {dir : String}

theorem newNamespaces_spec (present nss : List String) :
    (present.Nodup → (present ++ newNamespaces present nss).Nodup) ∧
      (∀ ns ∈ newNamespaces present nss, ns ≠ "" ∧ ns ∈ nss) ∧
      ∀ ns ∈ nss, ns ≠ "" → ns ∈ present ++ newNamespaces present nss := by
  induction nss generalizing present with
  | nil => simp [newNamespaces]
  | cons ns nss ih =>
    rw [newNamespaces]
    split
    · rename_i hskip
      obtain ⟨hnodup, hnew, hall⟩ := ih present
      refine ⟨hnodup, fun x hx => ⟨(hnew x hx).1, List.mem_cons_of_mem _ (hnew x hx).2⟩, fun x hx hne => ?_⟩
      rcases List.mem_cons.mp hx with rfl | hx
      · exact List.mem_append_left _ (hskip.resolve_left hne)
      · exact hall x hx hne
    · rename_i hadd
      rw [not_or] at hadd
      obtain ⟨hnodup, hnew, hall⟩ := ih (present ++ [ns])
      rw [List.append_assoc, List.singleton_append] at hnodup hall
      refine ⟨fun h => hnodup ?_, fun x hx => ?_, fun x hx hne => ?_⟩
      · refine List.nodup_append.mpr ⟨h, List.nodup_singleton _, ?_⟩
        rintro x hx y hy rfl
        exact hadd.2 (List.mem_singleton.mp hy ▸ hx)
      · rcases List.mem_cons.mp hx with rfl | hx
        · exact ⟨hadd.1, List.mem_cons_self⟩
        · exact ⟨(hnew x hx).1, List.mem_cons_of_mem _ (hnew x hx).2⟩
      · rcases List.mem_cons.mp hx with rfl | hx
        · simp
        · exact hall x hx hne

theorem newNamespaces_eq {present nss : List String} (hnodup : (present ++ nss).Nodup) (hblank : "" ∉ nss) :
    newNamespaces present nss = nss := by
  induction nss generalizing present with
  | nil => rfl
  | cons ns nss ih =>
    have hne : ns ≠ "" := fun h => hblank (h ▸ List.mem_cons_self)
    have hnew : ns ∉ present := fun h => (List.nodup_append.mp hnodup).2.2 ns h ns List.mem_cons_self rfl
    rw [newNamespaces, if_neg (not_or.mpr ⟨hne, hnew⟩), ih (by simpa using hnodup) fun h =>
      hblank (List.mem_cons_of_mem _ h)]

theorem makeImporters_map (dir : String) (id : Nat) (nss : List String) :
    (makeImporters dir id nss).map (fun i => (i.dataDir, i.namespaceName)) = nss.map (dir, ·) := by
  induction nss generalizing id with
  | nil => rfl
  | cons ns nss ih => rw [makeImporters, List.map_cons, List.map_cons, ih]

/-- The slot of a directory that a subscription goes to. -/
def slotFor (s : DirWatcherRegistry.State) (dir : String) (recursive : Bool) : WatcherSlot :=
  (findSlot dir s.slots).getD { node := s.fresh, canonicalDir := dir, recursive }

def subscribedSlot (s : DirWatcherRegistry.State) (dir : String) (nss : List String) (recursive : Bool) : WatcherSlot :=
  let slot := slotFor s dir recursive
  let added := newNamespaces slot.targetNamespaces nss
  { slot with
    targetNamespaces := slot.targetNamespaces ++ added
    importers := slot.importers ++ makeImporters dir (s.fresh + 1) added }

theorem slotFor_dir (s : DirWatcherRegistry.State) (dir : String) (recursive : Bool) :
    (slotFor s dir recursive).canonicalDir = dir := by
  unfold slotFor
  cases h : findSlot dir s.slots with
  | none => rfl
  | some slot => exact (lookup_eq_some h).2

theorem subscribeCall_cases (s : DirWatcherRegistry.State) (directory dir : String) (nss : List String)
    (recursive : Bool) :
    ((dir = "" ∨ nss = []) ∧ (subscribeCall s directory dir nss recursive).2 = s ∧
        (subscribeCall s directory dir nss recursive).1 ≠ .ok) ∨
      dir ≠ "" ∧ nss ≠ [] ∧ (subscribeCall s directory dir nss recursive).1 = .ok ∧
        (subscribeCall s directory dir nss recursive).2.slots =
          upsertRow WatcherSlot.canonicalDir (subscribedSlot s dir nss recursive) s.slots := by
  unfold subscribeCall refused
  dsimp only
  by_cases hnss : nss = []
  · exact .inl ⟨.inr hnss, by rw [if_pos hnss], by rw [if_pos hnss]; simp⟩
  · by_cases hdir : dir = ""
    · refine .inl ⟨.inl hdir, ?_, ?_⟩ <;> simp [hnss, hdir]
    · refine .inr ⟨hdir, hnss, ?_, ?_⟩
      · simp [hnss, hdir]
      · simp only [if_neg hnss, if_neg hdir, reduceCtorEq, if_false]
        rfl

/-! ## Sound registries -/

/-- The slots are in lockstep, each with a directory and with namespaces that are no blanks. -/
structure Sound (s : DirWatcherRegistry.State) : Prop extends Lockstep s where
  dirs : ∀ slot ∈ s.slots, slot.canonicalDir ≠ ""
  nonblank : ∀ slot ∈ s.slots, "" ∉ slot.targetNamespaces
  nonempty : ∀ slot ∈ s.slots, slot.targetNamespaces ≠ []

theorem sound_nil {s : DirWatcherRegistry.State} (h : s.slots = []) : Sound s := by
  refine { keyed := ?_, nodup := ?_, importers := ?_, dirs := ?_, nonblank := ?_, nonempty := ?_ }
  · rw [h]
    exact Keyed.nil
  all_goals simp [h]

theorem Sound.slotFor (h : Sound s) (dir : String) (recursive : Bool) :
    (slotFor s dir recursive).targetNamespaces.Nodup ∧ "" ∉ (slotFor s dir recursive).targetNamespaces ∧
      (slotFor s dir recursive).importers.map (fun i => (i.dataDir, i.namespaceName)) =
        (slotFor s dir recursive).targetNamespaces.map (dir, ·) := by
  unfold WatchPersistence.slotFor
  cases hfind : findSlot dir s.slots with
  | none => exact ⟨List.nodup_nil, List.not_mem_nil, rfl⟩
  | some slot =>
    obtain ⟨hmem, rfl⟩ := lookup_eq_some hfind
    exact ⟨h.nodup slot hmem, h.nonblank slot hmem, h.importers slot hmem⟩

theorem Sound.subscribe (h : Sound s) (directory : String) {nss : List String} (recursive : Bool)
    (hkeeps : dir = "" ∨ nss = [] ∨ (findSlot dir s.slots).isSome ∨ ∃ ns ∈ nss, ns ≠ "") :
    Sound (subscribeCall s directory dir nss recursive).2 := by
  obtain ⟨-, hsame, -⟩ | ⟨hdir, hnss, -, hslots⟩ := subscribeCall_cases s directory dir nss recursive
  · rw [hsame]
    exact h
  obtain ⟨hnodup, hblank, himporters⟩ := h.slotFor dir recursive
  obtain ⟨hnodup', hnew, hall⟩ := newNamespaces_spec (WatchPersistence.slotFor s dir recursive).targetNamespaces nss
  have hslot : (subscribedSlot s dir nss recursive).canonicalDir = dir := slotFor_dir s dir recursive
  refine { keyed := ?_, nodup := ?_, importers := ?_, dirs := ?_, nonblank := ?_, nonempty := ?_ } <;> rw [hslots]
  · exact h.keyed.upsertRow
  all_goals
    intro slot hmem
    rcases mem_upsertRow.mp hmem with rfl | ⟨hmem, -⟩
  · exact hnodup' hnodup
  · exact h.nodup slot hmem
  · rw [hslot]
    simp only [subscribedSlot, List.map_append, himporters, makeImporters_map]
  · exact h.importers slot hmem
  · rw [hslot]
    exact hdir
  · exact h.dirs slot hmem
  · intro hx
    rcases List.mem_append.mp hx with hx | hx
    · exact hblank hx
    · exact (hnew _ hx).1 rfl
  · exact h.nonblank slot hmem
  · -- a slot that was there had namespaces, a new one got some
    rcases hkeeps with hx | hx | hfound | ⟨ns, hns, hne⟩
    · exact absurd hx hdir
    · exact absurd hx hnss
    · obtain ⟨slot, hfind⟩ := Option.isSome_iff_exists.mp hfound
      have hwas := h.nonempty slot (lookup_eq_some hfind).1
      have hfor : WatchPersistence.slotFor s dir recursive = slot := by rw [WatchPersistence.slotFor, hfind]; rfl
      intro hnil
      exact hwas (hfor ▸ (List.append_eq_nil_iff.mp hnil).1)
    · exact List.ne_nil_of_mem (hall ns hns hne)
  · exact h.nonempty slot hmem

theorem Sound.mono (h : Sound s) {s' : DirWatcherRegistry.State} (hsub : s'.slots.Sublist s.slots) : Sound s' where
  keyed := h.keyed.sublist (hsub.map _)
  nodup slot hmem := h.nodup slot (hsub.subset hmem)
  importers slot hmem := h.importers slot (hsub.subset hmem)
  dirs slot hmem := h.dirs slot (hsub.subset hmem)
  nonblank slot hmem := h.nonblank slot (hsub.subset hmem)
  nonempty slot hmem := h.nonempty slot (hsub.subset hmem)

theorem Sound.removeWatch (h : Sound s) (key : String) : Sound (removeWatchCall s key).2 := by
  unfold removeWatchCall
  split
  · exact h
  · exact h.mono List.filter_sublist

def unsubscribedSlot (slot : WatcherSlot) (ns : String) : WatcherSlot :=
  { slot with
    targetNamespaces := slot.targetNamespaces.eraseIdx (slot.targetNamespaces.idxOf ns)
    importers := slot.importers.eraseIdx (slot.targetNamespaces.idxOf ns) }

theorem unsubscribeCall_cases (s : DirWatcherRegistry.State) (key ns : String) :
    ((unsubscribeCall s key ns).2 = s ∧ (unsubscribeCall s key ns).1 ≠ .ok) ∨
      ∃ slot, findSlot key s.slots = some slot ∧ ns ∈ slot.targetNamespaces ∧ (unsubscribeCall s key ns).1 = .ok ∧
        (unsubscribeCall s key ns).2.slots =
          deleteWhere (fun x => x.canonicalDir == key && decide (x.targetNamespaces = []))
            (updateWhere (fun x => x.canonicalDir == key) (fun _ => unsubscribedSlot slot ns) s.slots) := by
  unfold unsubscribeCall
  split
  · exact .inl ⟨rfl, by simp⟩
  · rename_i slot hfind
    split
    · rename_i hmem
      refine .inr ⟨slot, hfind, hmem, rfl, ?_⟩
      simp only [unsubscribe, hfind, if_pos hmem]
      rfl
    · exact .inl ⟨rfl, by simp⟩

theorem Sound.unsubscribe (h : Sound s) (key ns : String) : Sound (unsubscribeCall s key ns).2 := by
  obtain ⟨hsame, -⟩ | ⟨slot, hfind, hns, -, hslots⟩ := unsubscribeCall_cases s key ns
  · rw [hsame]
    exact h
  obtain ⟨hmem, rfl⟩ := lookup_eq_some hfind
  -- each slot left was there, or is that of the key with namespaces left
  have hcases : ∀ x ∈ (unsubscribeCall s slot.canonicalDir ns).2.slots,
      x ∈ s.slots ∨ x = unsubscribedSlot slot ns ∧ x.targetNamespaces ≠ [] := by
    intro x hx
    rw [hslots] at hx
    obtain ⟨hx, hkeep⟩ := mem_deleteWhere.mp hx
    obtain ⟨r, hr, rfl⟩ := mem_updateWhere.mp hx
    by_cases hkey : r.canonicalDir = slot.canonicalDir
    · rw [if_pos (by simp [hkey])] at hkeep ⊢
      refine .inr ⟨rfl, fun hnil => ?_⟩
      have hself : (unsubscribedSlot slot ns).canonicalDir = slot.canonicalDir := rfl
      rw [hnil, hself, beq_self_eq_true] at hkeep
      cases hkeep
    · rw [if_neg (by simp [hkey])]
      exact .inl hr
  have hsub : (unsubscribedSlot slot ns).targetNamespaces.Sublist slot.targetNamespaces := List.eraseIdx_sublist _ _
  refine { keyed := ?_, nodup := ?_, importers := ?_, dirs := ?_, nonblank := ?_, nonempty := ?_ }
  · rw [hslots]
    refine Keyed.deleteWhere (h.keyed.updateWhere_of fun r hr hkey => ?_)
    exact (beq_iff_eq.mp hkey).symm
  all_goals
    intro x hx
    rcases hcases x hx with hx | ⟨rfl, hleft⟩
  · exact h.nodup x hx
  · exact (h.nodup slot hmem).sublist hsub
  · exact h.importers x hx
  · simp only [unsubscribedSlot, ← List.eraseIdx_map, h.importers slot hmem]
  · exact h.dirs x hx
  · exact h.dirs slot hmem
  · exact h.nonblank x hx
  · exact fun hblank => h.nonblank slot hmem (hsub.subset hblank)
  · exact h.nonempty x hx
  · exact hleft

/-! ## The pairs that a save would write -/

theorem has_saveState {p : String × String} :
    Has (saveState s) p ↔ ∃ slot ∈ s.slots, slot.canonicalDir = p.1 ∧ p.2 ∈ slot.targetNamespaces := by
  simp [Has, saveState, saved]

theorem has_subscribe (directory : String) (nss : List String) (recursive : Bool) {p : String × String}
    (h : Has (saveState s) p ∨
      (subscribeCall s directory dir nss recursive).1 = .ok ∧ p.1 = dir ∧ p.2 ∈ nss ∧ p.2 ≠ "")
    (hsound : Sound s) : Has (saveState (subscribeCall s directory dir nss recursive).2) p := by
  obtain ⟨-, hsame, hcode⟩ | ⟨-, -, -, hslots⟩ := subscribeCall_cases s directory dir nss recursive
  · rw [hsame]
    exact h.resolve_right fun hx => hcode hx.1
  have hslot : (subscribedSlot s dir nss recursive).canonicalDir = dir := slotFor_dir s dir recursive
  obtain ⟨-, -, hall⟩ := newNamespaces_spec (slotFor s dir recursive).targetNamespaces nss
  rw [has_saveState, hslots]
  rcases h with h | ⟨-, hp, hns, hne⟩
  · obtain ⟨slot, hmem, hdir, hns⟩ := has_saveState.mp h
    by_cases hsame : slot.canonicalDir = dir
    · have hfind : findSlot dir s.slots = some slot := hsame ▸ hsound.keyed.lookup_of_mem hmem
      have hfor : slotFor s dir recursive = slot := by rw [slotFor, hfind]; rfl
      refine ⟨_, mem_upsertRow.mpr (.inl rfl), by rw [hslot, ← hsame, hdir], ?_⟩
      exact List.mem_append_left _ (hfor ▸ hns)
    · exact ⟨slot, mem_upsertRow.mpr (.inr ⟨hmem, by rwa [hslot]⟩), hdir, hns⟩
  · exact ⟨_, mem_upsertRow.mpr (.inl rfl), by rw [hslot, hp], hall _ hns hne⟩

theorem has_removeWatch {key : String} {p : String × String} (h : Has (saveState s) p)
    (hp : (removeWatchCall s key).1 = .ok → p.1 ≠ key) : Has (saveState (removeWatchCall s key).2) p := by
  unfold removeWatchCall at hp ⊢
  split at hp
  · exact h
  · obtain ⟨slot, hmem, hdir, hns⟩ := has_saveState.mp h
    refine has_saveState.mpr ⟨slot, mem_deleteWhere.mpr ⟨hmem, ?_⟩, hdir, hns⟩
    rw [hdir]
    simpa using hp rfl

theorem has_unsubscribe {key ns : String} {p : String × String} (hsound : Sound s) (h : Has (saveState s) p)
    (hp : (unsubscribeCall s key ns).1 = .ok → p ≠ (key, ns)) : Has (saveState (unsubscribeCall s key ns).2) p := by
  obtain ⟨hsame, -⟩ | ⟨slot, hfind, hns, hok, hslots⟩ := unsubscribeCall_cases s key ns
  · rwa [hsame]
  obtain ⟨hslot, rfl⟩ := lookup_eq_some hfind
  obtain ⟨x, hx, hdir, hpns⟩ := has_saveState.mp h
  rw [has_saveState, hslots]
  by_cases hkey : x.canonicalDir = slot.canonicalDir
  · obtain rfl := hsound.keyed.eq_of_key hx hslot hkey
    have hne : p.2 ≠ ns := fun heq => hp hok (Prod.ext hdir.symm heq)
    have hleft : p.2 ∈ (unsubscribedSlot x ns).targetNamespaces := by
      simp only [unsubscribedSlot]
      rw [← List.erase_eq_eraseIdx_of_idxOf rfl]
      exact (List.mem_erase_of_ne hne).mpr hpns
    refine ⟨unsubscribedSlot x ns, mem_deleteWhere.mpr ⟨mem_updateWhere.mpr ⟨x, hx, by simp⟩, ?_⟩, hdir, hleft⟩
    simp [List.ne_nil_of_mem hleft]
  · refine ⟨x, mem_deleteWhere.mpr ⟨mem_updateWhere.mpr ⟨x, hx, by simp [hkey]⟩, ?_⟩, hdir, hpns⟩
    simp [hkey]

/-! ## Reading the file back -/

/-- A file that a registry in good order has written. -/
structure Loadable (ws : List Watcher) : Prop where
  keyed : Keyed Watcher.directory ws
  dirs : ∀ w ∈ ws, w.directory ≠ ""
  nodup : ∀ w ∈ ws, w.targetNamespaces.Nodup
  nonblank : ∀ w ∈ ws, "" ∉ w.targetNamespaces
  nonempty : ∀ w ∈ ws, w.targetNamespaces ≠ []

theorem Sound.loadable (h : Sound s) : Loadable (saveState s) where
  keyed := by
    have hkeys : (saveState s).map Watcher.directory = s.slots.map WatcherSlot.canonicalDir := by
      simp [saveState, saved]
    rw [Keyed, hkeys]
    exact h.keyed
  dirs := by simpa [saveState, saved] using h.dirs
  nodup := by simpa [saveState, saved] using h.nodup
  nonblank := by simpa [saveState, saved] using h.nonblank
  nonempty := by simpa [saveState, saved] using h.nonempty

theorem Loadable.tail {w : Watcher} {ws : List Watcher} (h : Loadable (w :: ws)) :
    Loadable ws ∧ ∀ x ∈ ws, x.directory ≠ w.directory := by
  obtain ⟨hnew, hkeyed⟩ := List.nodup_cons.mp h.keyed
  exact ⟨⟨hkeyed, fun x hx => h.dirs x (List.mem_cons_of_mem _ hx), fun x hx => h.nodup x (List.mem_cons_of_mem _ hx),
    fun x hx => h.nonblank x (List.mem_cons_of_mem _ hx), fun x hx => h.nonempty x (List.mem_cons_of_mem _ hx)⟩,
    fun x hx heq => hnew (heq ▸ List.mem_map_of_mem hx)⟩

theorem foldl_add {acc : List Watcher} {dir : String} {recursive : Bool} (hnew : ∀ w ∈ acc, w.directory ≠ dir)
    (done : List String) {rest : List String} (hnodup : (done ++ rest).Nodup) (hblank : "" ∉ rest) :
    rest.foldl (add dir recursive) (acc ++ [⟨dir, done, recursive⟩]) = acc ++ [⟨dir, done ++ rest, recursive⟩] := by
  induction rest generalizing done with
  | nil => simp
  | cons ns rest ih =>
    have hne : ns ≠ "" := fun h => hblank (h ▸ List.mem_cons_self)
    have hns : ns ∉ done := fun h => (List.nodup_append.mp hnodup).2.2 ns h ns List.mem_cons_self rfl
    have hlookup : lookup Watcher.directory dir (acc ++ [⟨dir, done, recursive⟩]) = some ⟨dir, done, recursive⟩ := by
      unfold lookup
      rw [List.find?_append, List.find?_eq_none.mpr fun w hw => by simpa using hnew w hw]
      simp
    have hstep : add dir recursive (acc ++ [⟨dir, done, recursive⟩]) ns = acc ++ [⟨dir, done ++ [ns], recursive⟩] := by
      unfold add
      rw [hlookup]
      simp only [hne, hns, or_self, if_false, updateWhere, List.map_append, List.map_cons, List.map_nil,
        beq_self_eq_true, if_true]
      congr 1
      exact (List.map_congr_left fun w hw => if_neg (by simpa using hnew w hw)).trans (List.map_id acc)
    rw [List.foldl_cons, hstep, ih (done ++ [ns]) (by simpa using hnodup) fun h => hblank (List.mem_cons_of_mem _ h),
      List.append_assoc, List.singleton_append]

theorem addWatcher_eq {acc : List Watcher} {w : Watcher} (hnew : ∀ x ∈ acc, x.directory ≠ w.directory)
    (hdir : w.directory ≠ "") (hnodup : w.targetNamespaces.Nodup) (hblank : "" ∉ w.targetNamespaces)
    (hne : w.targetNamespaces ≠ []) : addWatcher acc w = acc ++ [w] := by
  obtain ⟨dir, nss, recursive⟩ := w
  obtain ⟨ns, rest, rfl⟩ := List.exists_cons_of_ne_nil hne
  have hns : ns ≠ "" := fun h => hblank (h ▸ List.mem_cons_self)
  have hfirst : add dir recursive acc ns = acc ++ [⟨dir, [ns], recursive⟩] := by
    unfold add
    rw [lookup_eq_none.mpr hnew]
    simp [hns]
  unfold addWatcher
  rw [if_neg hdir, if_neg hne, List.foldl_cons, hfirst]
  exact foldl_add hnew [ns] hnodup fun h => hblank (List.mem_cons_of_mem _ h)

theorem normalize_eq {ws : List Watcher} (h : Loadable ws) : normalize ws = ws := by
  have key : ∀ ws acc : List Watcher, Loadable ws → (∀ x ∈ acc, ∀ w ∈ ws, x.directory ≠ w.directory) →
      ws.foldl addWatcher acc = acc ++ ws := by
    intro ws
    induction ws with
    | nil => simp
    | cons w ws ih =>
      intro acc hws hnew
      obtain ⟨htail, hother⟩ := hws.tail
      have hw := addWatcher_eq (fun x hx => hnew x hx w List.mem_cons_self) (hws.dirs w List.mem_cons_self)
        (hws.nodup w List.mem_cons_self) (hws.nonblank w List.mem_cons_self) (hws.nonempty w List.mem_cons_self)
      rw [List.foldl_cons, hw, ih _ htail ?_, List.append_assoc, List.singleton_append]
      intro x hx y hy
      rcases List.mem_append.mp hx with hx | hx
      · exact hnew x hx y (List.mem_cons_of_mem _ hy)
      · rw [List.mem_singleton.mp hx]
        exact (hother y hy).symm
  simpa [normalize] using key ws [] h (by simp)

/-- A watcher of a new directory that resolves is restored as it was saved. -/
theorem restore_eq {canonicalDir : String → String} (hs : Sound s) {w : Watcher}
    (hresolves : canonicalDir w.directory = w.directory) (hnew : ∀ x ∈ s.slots, x.canonicalDir ≠ w.directory)
    (hdir : w.directory ≠ "") (hnodup : w.targetNamespaces.Nodup) (hblank : "" ∉ w.targetNamespaces)
    (hne : w.targetNamespaces ≠ []) :
    Sound (restore canonicalDir s w) ∧ saveState (restore canonicalDir s w) = saveState s ++ [w] := by
  unfold restore
  rw [if_neg hne, hresolves]
  obtain ⟨ns, hns⟩ := List.exists_mem_of_ne_nil _ hne
  refine ⟨hs.subscribe _ _ (.inr (.inr (.inr ⟨ns, hns, fun h => hblank (h ▸ hns)⟩))), ?_⟩
  obtain ⟨hx | hx, -, -⟩ | ⟨-, -, -, hslots⟩ :=
    subscribeCall_cases s w.directory w.directory w.targetNamespaces w.recursive
  · exact absurd hx hdir
  · exact absurd hx hne
  have hfind : findSlot w.directory s.slots = none := lookup_eq_none.mpr hnew
  have hslot : saved (subscribedSlot s w.directory w.targetNamespaces w.recursive) = w := by
    have hall : newNamespaces [] w.targetNamespaces = w.targetNamespaces :=
      newNamespaces_eq (by simpa using hnodup) hblank
    simp only [saved, subscribedSlot, slotFor, hfind, Option.getD_none, List.nil_append, hall]
  have hinsert :
      upsertRow WatcherSlot.canonicalDir (subscribedSlot s w.directory w.targetNamespaces w.recursive) s.slots =
        s.slots ++ [subscribedSlot s w.directory w.targetNamespaces w.recursive] := by
    unfold upsertRow
    have hkey : (subscribedSlot s w.directory w.targetNamespaces w.recursive).canonicalDir = w.directory :=
      slotFor_dir s w.directory w.recursive
    rw [insertRow_eq_some.mpr ⟨fun x hx => by rw [hkey]; exact hnew x hx, rfl⟩]
  rw [saveState, hslots, hinsert, List.map_append, List.map_singleton, hslot]
  rfl

/-- With every directory there, a restart gives back the file. -/
theorem loadState_eq {canonicalDir : String → String} {ws : List Watcher} (h : Loadable ws)
    (hresolves : ∀ w ∈ ws, canonicalDir w.directory = w.directory) :
    Sound (loadState canonicalDir (some ws)) ∧ saveState (loadState canonicalDir (some ws)) = ws := by
  have key : ∀ (ws : List Watcher) (s : DirWatcherRegistry.State), Loadable ws → Sound s →
      (∀ w ∈ ws, canonicalDir w.directory = w.directory) → (∀ x ∈ s.slots, ∀ w ∈ ws, x.canonicalDir ≠ w.directory) →
      Sound (ws.foldl (restore canonicalDir) s) ∧
        saveState (ws.foldl (restore canonicalDir) s) = saveState s ++ ws := by
    intro ws
    induction ws with
    | nil => exact fun s _ hs _ _ => ⟨hs, (List.append_nil _).symm⟩
    | cons w ws ih =>
      intro s hws hs hres hnew
      obtain ⟨htail, hother⟩ := hws.tail
      obtain ⟨hs', hsave⟩ := restore_eq hs (hres w List.mem_cons_self) (fun x hx => hnew x hx w List.mem_cons_self)
        (hws.dirs w List.mem_cons_self) (hws.nodup w List.mem_cons_self) (hws.nonblank w List.mem_cons_self)
        (hws.nonempty w List.mem_cons_self)
      have hnew' : ∀ x ∈ (restore canonicalDir s w).slots, ∀ y ∈ ws, x.canonicalDir ≠ y.directory := by
        -- the directories restored so far are those before it and its own
        intro x hx y hy
        have hmem : saved x ∈ saveState s ++ [w] := hsave ▸ List.mem_map_of_mem hx
        rcases List.mem_append.mp hmem with hmem | hmem
        · obtain ⟨x', hx', heq⟩ := List.mem_map.mp hmem
          have hdir : x'.canonicalDir = x.canonicalDir := congrArg Watcher.directory heq
          rw [← hdir]
          exact hnew x' hx' y (List.mem_cons_of_mem _ hy)
        · have hdir : x.canonicalDir = w.directory := congrArg Watcher.directory (List.mem_singleton.mp hmem)
          rw [hdir]
          exact (hother y hy).symm
      obtain ⟨hsound, hall⟩ := ih _ htail hs' (fun x hx => hres x (List.mem_cons_of_mem _ hx)) hnew'
      exact ⟨hsound, by rw [List.foldl_cons, hall, hsave, List.append_assoc, List.singleton_append]⟩
  have := key ws {} h (sound_nil rfl) hresolves (by simp)
  rw [loadState, normalize_eq h]
  exact this

theorem loadState_resolves (canonicalDir : String → String) (file : Option (List Watcher)) :
    ∀ slot ∈ (loadState canonicalDir file).slots,
      slot.canonicalDir ≠ "" ∧ ∃ dir, canonicalDir dir = slot.canonicalDir := by
  have key : ∀ (ws : List Watcher) (s : DirWatcherRegistry.State),
      (∀ slot ∈ s.slots, slot.canonicalDir ≠ "" ∧ ∃ dir, canonicalDir dir = slot.canonicalDir) →
      ∀ slot ∈ (ws.foldl (restore canonicalDir) s).slots,
        slot.canonicalDir ≠ "" ∧ ∃ dir, canonicalDir dir = slot.canonicalDir := by
    intro ws
    induction ws with
    | nil => exact fun s hs => hs
    | cons w ws ih =>
      intro s hs
      refine ih _ fun slot hslot => ?_
      unfold restore at hslot
      split at hslot
      · exact hs slot hslot
      obtain ⟨-, hsame, -⟩ | ⟨hdir, -, -, hslots⟩ :=
        subscribeCall_cases s w.directory (canonicalDir w.directory) w.targetNamespaces w.recursive
      · exact hs slot (hsame ▸ hslot)
      · rw [hslots] at hslot
        rcases mem_upsertRow.mp hslot with rfl | ⟨hslot, -⟩
        · have hkey := slotFor_dir s (canonicalDir w.directory) w.recursive
          exact ⟨fun h => hdir (hkey.symm.trans h), w.directory, hkey.symm⟩
        · exact hs slot hslot
  cases file with
  | none => simp [loadState]
  | some ws => exact key _ _ (by simp)

/-! ## Runs -/

structure Inv (m : Machine) : Prop where
  sound : Sound m.registry
  file : ∀ ws, m.file = some ws → Loadable ws
  restored : ∀ ws, m.restored = some ws → saveState m.registry = ws
  held : ∀ p ∈ m.held, Has (saveState m.registry) p

theorem Inv.kept {m : Machine} (h : Inv m) : Kept m := ⟨h.sound.toLockstep, h.sound.nonempty, h.restored, h.held⟩

theorem inv_init : Inv {} where
  sound := sound_nil rfl
  file := by simp
  restored := by simp
  held := by simp

theorem inv_restart {m : Machine} {unresolved : List String} (h : Inv m) (hq : Keeps m (.restart unresolved)) :
    Sound (loadState (fun dir => if dir ∈ unresolved then "" else dir) m.file) ∧
      saveState (loadState (fun dir => if dir ∈ unresolved then "" else dir) m.file) = m.file.getD [] := by
  cases hfile : m.file with
  | none => exact ⟨sound_nil rfl, rfl⟩
  | some ws =>
    obtain ⟨hfound, -⟩ := hq
    rw [hfile] at hfound
    exact loadState_eq (h.file ws hfile) fun w hw => if_neg (hfound w hw)

theorem inv_step {m m' : Machine} {a : Act} (h : Inv m) (hq : Keeps m a) (hstep : step m a = some m') : Inv m' := by
  cases a with
  | subscribe directory dir nss recursive =>
    cases hstep
    refine ⟨h.sound.subscribe directory recursive hq, h.file, by simp, fun p hp => ?_⟩
    refine has_subscribe directory nss recursive ?_ h.sound
    split at hp
    · rename_i hok
      rcases List.mem_append.mp hp with hp | hp
      · exact .inl (h.held p hp)
      · obtain ⟨ns, hns, rfl⟩ := List.mem_map.mp hp
        rw [List.mem_filter] at hns
        exact .inr ⟨hok, rfl, hns.1, by simpa using hns.2⟩
    · exact .inl (h.held p hp)
  | unsubscribe directory dir ns =>
    cases hstep
    refine ⟨h.sound.unsubscribe _ ns, h.file, by simp, fun p hp => ?_⟩
    dsimp only at hp
    split at hp
    · rw [List.mem_filter] at hp
      exact has_unsubscribe h.sound (h.held p hp.1) fun _ => by simpa using hp.2
    · rename_i hno
      exact has_unsubscribe h.sound (h.held p hp) fun hok => absurd hok hno
  | removeWatch directory dir =>
    cases hstep
    refine ⟨h.sound.removeWatch _, h.file, by simp, fun p hp => ?_⟩
    split at hp
    · rw [List.mem_filter] at hp
      exact has_removeWatch (h.held p hp.1) fun _ => by simpa using hp.2
    · rename_i hno
      exact has_removeWatch (h.held p hp) fun hok => absurd hok hno
  | saveState =>
    cases hstep
    refine ⟨h.sound, fun ws hws => ?_, by simp, h.held⟩
    cases hws
    exact h.sound.loadable
  | restart unresolved =>
    cases hstep
    obtain ⟨hsound, hsave⟩ := inv_restart h hq
    refine ⟨hsound, h.file, fun ws hws => ?_, fun p hp => ?_⟩
    · rw [hsave]
      exact congrArg (Option.getD · []) hws
    · rw [hsave]
      exact hq.2 p hp

/-- A step into a state that keeps everything met the condition. -/
theorem keeps_of_kept {m m' : Machine} {a : Act} (h : Inv m) (hstep : step m a = some m') (hkept : Kept m') :
    Keeps m a := by
  cases a with
  | subscribe directory dir nss recursive =>
    cases hstep
    by_contra hno
    simp only [Keeps, not_or, Bool.not_eq_true, not_exists, not_and, not_not] at hno
    obtain ⟨hdir, hnss, hfind, hblank⟩ := hno
    obtain ⟨hx | hx, -, -⟩ | ⟨-, -, -, hslots⟩ := subscribeCall_cases m.registry directory dir nss recursive
    · exact hdir hx
    · exact hnss hx
    -- the new slot has no namespace
    have hfor : slotFor m.registry dir recursive = { node := m.registry.fresh, canonicalDir := dir, recursive } := by
      have hnone : findSlot dir m.registry.slots = none := Option.not_isSome_iff_eq_none.mp (by rw [hfind]; simp)
      rw [slotFor, hnone]
      rfl
    have hnil : (subscribedSlot m.registry dir nss recursive).targetNamespaces = [] := by
      obtain ⟨-, hnew, -⟩ := newNamespaces_spec (slotFor m.registry dir recursive).targetNamespaces nss
      have hnone : newNamespaces (slotFor m.registry dir recursive).targetNamespaces nss = [] :=
        List.eq_nil_iff_forall_not_mem.mpr fun ns hns => (hnew ns hns).1 (hblank ns (hnew ns hns).2)
      simp only [subscribedSlot, hnone, List.append_nil]
      rw [hfor]
    refine hkept.nonempty (subscribedSlot m.registry dir nss recursive) ?_ hnil
    show _ ∈ (subscribeCall m.registry directory dir nss recursive).2.slots
    rw [hslots]
    exact mem_upsertRow.mpr (.inl rfl)
  | restart unresolved =>
    cases hstep
    have hfound : ∀ w ∈ m.file.getD [], w.directory ∉ unresolved := by
      intro w hw hun
      cases hfile : m.file with
      | none => simp [hfile] at hw
      | some ws =>
        rw [hfile] at hw
        have hsave := hkept.restored ws hfile
        have hmem : w ∈ saveState (loadState (fun dir => if dir ∈ unresolved then "" else dir) m.file) := by
          rw [hsave]
          exact hw
        obtain ⟨slot, hslot, rfl⟩ := List.mem_map.mp hmem
        obtain ⟨hne, dir, hdir⟩ := loadState_resolves _ _ slot hslot
        -- a directory that resolves is not in the list
        split at hdir
        · exact hne hdir.symm
        · rename_i hin
          exact hin (hdir ▸ hun)
    refine ⟨hfound, fun p hp => ?_⟩
    have hsave : saveState (loadState (fun dir => if dir ∈ unresolved then "" else dir) m.file) = m.file.getD [] := by
      cases hfile : m.file with
      | none => rfl
      | some ws =>
        rw [hfile] at hfound
        exact (loadState_eq (h.file ws hfile) fun w hw => if_neg (hfound w hw)).2
    rw [← hsave]
    exact hkept.held p hp
  | _ => trivial

/-! ## When nothing is lost -/

/-- All that a run owes is kept in every state exactly when each subscription to a new directory names a namespace and
each restart finds every directory of the file, and in the file every pair held. -/
theorem kept_iff {acts : List Act} {m : Machine} (h : run step {} acts = some m) :
    (∀ pre t, pre <+: acts → run step {} pre = some t → Kept t) ↔ Along step Keeps {} acts :=
  along_iff_prefixes Inv Kept (fun _ => True) (fun h => h.kept) (fun h _ hstep hkept => keeps_of_kept h hstep hkept)
    (fun h _ hq hstep => inv_step h hq hstep) inv_init (fun _ _ => trivial) h

/-- Two namespaces and a blank, one of them unsubscribed, saved and restored. -/
def subscribedTwice : List Act :=
  [.subscribe "./w" "/w" ["a", "", "b", "a"] true, .unsubscribe "/w" "/w" "a", .saveState, .restart []]

theorem kept_iff_subscribedTwice : ∃ m, run step {} subscribedTwice = some m ∧ Kept m := by
  have hkeeps : Along step Keeps {} subscribedTwice := by decide +kernel
  exact ⟨_, rfl, (@kept_iff subscribedTwice _ rfl).mpr hkeeps _ _ List.prefix_rfl rfl⟩

def awayOnce : List Act :=
  [.subscribe "/w" "/w" ["a"] true, .saveState, .restart ["/w"], .saveState, .restart []]

/-- The save after that restart drops the subscription; and a subscription of a blank alone leaves a slot without
namespaces. -/
theorem subscription_dropped :
    (∃ m, run step {} awayOnce = some m ∧ ("/w", "a") ∈ m.held ∧ m.file = some [] ∧ ¬ Kept m) ∧
      ∃ m, run step {} [.subscribe "/w" "/w" [""] true] = some m ∧ ¬ Kept m := by
  refine ⟨⟨_, rfl, by decide, rfl, fun hkept => ?_⟩, ⟨_, rfl, fun hkept => ?_⟩⟩
  · obtain ⟨w, hw, -⟩ := hkept.held ("/w", "a") (by decide)
    cases hw
  · exact hkept.nonempty _ List.mem_cons_self rfl

end Cortrix.Connector.WatchPersistence
