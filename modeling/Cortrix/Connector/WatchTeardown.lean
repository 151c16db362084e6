import Cortrix.Connector.DirWatcherRegistry

/-!
# Stopping a watcher

* `Stuck s` : a call holds the mutex and waits for an event thread that waits for the mutex;
* `Clear s a` : no `Stop` of a watcher whose event thread has a batch and is not past the mutex.
-/

namespace Cortrix.Connector.DirWatcherRegistry
open Lib

/-- The slot whose event thread the holder of the mutex waits for. -/
def State.awaited (s : State) : Option Nat := s.holder.bind Body.joining

def Stuck (s : State) : Prop := ∃ node ∈ s.awaited, ∃ th ∈ s.threads, th.slot = node ∧ th.pc.awaitsMutex = true

instance (s : State) : Decidable (Stuck s) :=
  inferInstanceAs (Decidable (∃ node ∈ s.awaited, ∃ th ∈ s.threads, th.slot = node ∧ th.pc.awaitsMutex = true))

/-- The slot whose running watcher the next instruction of the holder stops. -/
def stops (s : State) : Option Nat :=
  s.holder.bind fun body =>
    match body.joining, body.todo with
    | none, .stopWatcher node :: _ => if (slotAt node s.slots).any WatcherSlot.isRunning then some node else none
    | _, _ => none

/-- No watcher is stopped while its event thread is between a batch with events to import and the mutex. -/
def Clear (s : State) : Act → Prop
  | .run _ => ∀ node ∈ stops s, ∀ th ∈ s.threads, th.slot = node → th.pc.awaitsMutex = false
  | _ => True

instance (s : State) : ∀ a, Decidable (Clear s a)
  | .run _ => inferInstanceAs (Decidable (∀ node ∈ stops s, ∀ th ∈ s.threads, th.slot = node → th.pc.awaitsMutex = false))
  | .invoke _ => .isTrue trivial
  | .lock _ => .isTrue trivial
  | .join => .isTrue trivial
  | .unlock => .isTrue trivial
  | .batch _ _ => .isTrue trivial
  | .snapshot _ => .isTrue trivial
  | .handle _ => .isTrue trivial
  | .leave _ => .isTrue trivial

def Instr.enters (watching : List Nat) : Instr → Option Importer
  | .start importer skipWatching => if skipWatching && importer.id ∈ watching then none else some importer
  | .deleteAllDocs importer => some importer
  | _ => none

/-- The importer that a step enters: a scan or a purge of the call that holds the mutex, or a batch. -/
def entered (s : State) : Act → Option Importer
  | .run _ => s.holder.bind fun body => body.todo.head?.bind (Instr.enters s.watching)
  | .handle node => (threadOf node s.threads).bind fun th => th.pc.targets.head?
  | _ => none

/-- From the return of the call that has destroyed the watcher of a directory on, no importer the directory had is
entered. -/
def Silent (shouldImport : String → Bool) (as : List Act) : Prop :=
  ∀ pre mid a s t body dir, pre ++ .unlock :: (mid ++ [a]) <+: as →
    run (step shouldImport) {} pre = some s → s.holder = some body → body.destroyed = some dir →
    run (step shouldImport) {} (pre ++ .unlock :: mid) = some t →
    ∀ importer ∈ entered t a, importer.dataDir = dir → s.fresh ≤ importer.id

variable {shouldImport : String → Bool} {s s' : State} {a : Act} {body : Body} {node : Nat} {th : EventThread}

/-! ## Where a step leads -/

theorem step_invoke {op : Op} (h : step shouldImport s (.invoke op) = some s') :
    s'.slots = s.slots ∧ s'.threads = s.threads ∧ s'.holder = s.holder ∧ s'.fresh = s.fresh := by
  unfold step at h
  dsimp only at h
  split at h
  · cases h
    exact ⟨rfl, rfl, rfl, rfl⟩
  · cases h
    exact ⟨rfl, rfl, rfl, rfl⟩

theorem step_lock {i : Nat} (h : step shouldImport s (.lock i) = some s') :
    ∃ op, s.holder = none ∧ s.waiting[i]? = some op ∧ s' = enter { s with waiting := s.waiting.eraseIdx i } op := by
  unfold step at h
  dsimp only at h
  split at h
  · rename_i op hnone hop
    exact ⟨op, hnone, hop, (Option.some.inj h).symm⟩
  · cases h

theorem step_run {outcome : Outcome} (h : step shouldImport s (.run outcome) = some s') :
    ∃ body instr todo, s.holder = some body ∧ body.joining = none ∧ body.todo = instr :: todo ∧
      s' = exec s { body with todo := todo } outcome instr := by
  obtain ⟨body, hbody, h⟩ := Option.bind_eq_some_iff.mp h
  unfold bodyStep at h
  dsimp only at h
  split at h
  · rename_i instr todo hjoin htodo
    exact ⟨body, instr, todo, hbody, hjoin, htodo, (Option.some.inj h).symm⟩
  · cases h

theorem step_join (h : step shouldImport s .join = some s') :
    ∃ body node, s.holder = some body ∧ body.joining = some node ∧
      s' = { s with
        threads := deleteWhere (fun th => th.slot == node) s.threads
        holder := some { body with joining := none } } := by
  obtain ⟨body, hbody, h⟩ := Option.bind_eq_some_iff.mp h
  unfold bodyStep at h
  dsimp only at h
  split at h
  · rename_i node hjoin
    split at h
    · exact ⟨body, node, hbody, hjoin, (Option.some.inj h).symm⟩
    · cases h
  · cases h

theorem step_unlock (h : step shouldImport s .unlock = some s') :
    ∃ body, s.holder = some body ∧ body.joining = none ∧ body.todo = [] ∧
      s' = { s with holder := none, returned := s.returned ++ [⟨body.status, body.deletedDocs, body.watches⟩] } := by
  obtain ⟨body, hbody, h⟩ := Option.bind_eq_some_iff.mp h
  unfold bodyStep at h
  dsimp only at h
  split at h
  · rename_i hend
    exact ⟨body, hbody, hend.1, hend.2, (Option.some.inj h).symm⟩
  · cases h

/-- The event thread of the slot moves: it comes to the mutex unless it has been signalled, and takes the importers
of the slot or a part of those it has. -/
structure Moves (s : State) (th : EventThread) (pc : EventPc) : Prop where
  arrives : pc.awaitsMutex = true → th.signalled = false
  takes : (∀ importer ∈ pc.targets, importer ∈ th.pc.targets) ∨ s.holder = none ∧ pc.targets = importersAt s th.slot

theorem dispatch_awaitsMutex (filtered : List FileEvent) (targets : List Importer) :
    (dispatch filtered targets).awaitsMutex = false := by
  rcases targets with - | ⟨importer, targets⟩ <;> rfl

theorem dispatch_targets (filtered : List FileEvent) (targets : List Importer) :
    (dispatch filtered targets).targets = targets := by
  rcases targets with - | ⟨importer, targets⟩ <;> rfl

theorem afterFilter_targets (events : List FileEvent) : (afterFilter shouldImport events).targets = [] := by
  unfold afterFilter
  split <;> rfl

def Act.slot : Act → Option Nat
  | .batch node _ => some node
  | .snapshot node => some node
  | .handle node => some node
  | .leave node => some node
  | _ => none

theorem threadStep_spec (ha : a.slot = some th.slot) (h : threadStep shouldImport s th a = some s') :
    ∃ pc, s' = moveTo s th.slot pc ∧ Moves s th pc := by
  rcases a with _ | _ | _ | _ | _ | ⟨node, events⟩ | node | node | node <;> cases ha <;> unfold threadStep at h <;>
    dsimp only at h <;> split at h
  · rename_i hpc
    refine ⟨_, (Option.some.inj h).symm, fun _ => hpc.2, .inl ?_⟩
    rw [afterFilter_targets]
    simp
  · cases h
  · rename_i filtered hpc hfree
    refine ⟨_, (Option.some.inj h).symm, fun hw => ?_, .inr ⟨hfree, dispatch_targets _ _⟩⟩
    rw [dispatch_awaitsMutex] at hw
    cases hw
  · cases h
  · rename_i filtered importer targets hpc
    refine ⟨_, (Option.some.inj h).symm, fun hw => ?_, .inl ?_⟩
    · rw [dispatch_awaitsMutex] at hw
      cases hw
    · rw [dispatch_targets, hpc]
      exact fun importer' hmem => List.mem_cons_of_mem _ hmem
  · cases h
  · refine ⟨_, (Option.some.inj h).symm, fun hw => ?_, .inl ?_⟩
    · cases hw
    · simp [EventPc.targets]
  · cases h

theorem step_thread (ha : a.slot = some node) (h : step shouldImport s a = some s') :
    ∃ th pc, th ∈ s.threads ∧ th.slot = node ∧ s' = moveTo s node pc ∧ Moves s th pc := by
  have hbind : (threadOf node s.threads).bind (fun th => threadStep shouldImport s th a) = some s' := by
    rcases a with _ | _ | _ | _ | _ | ⟨n, events⟩ | n | n | n <;> cases ha <;> exact h
  obtain ⟨th, hth, h⟩ := Option.bind_eq_some_iff.mp hbind
  obtain ⟨hmem, rfl⟩ := lookup_eq_some hth
  obtain ⟨pc, rfl, hmoves⟩ := threadStep_spec ha h
  exact ⟨th, pc, hmem, rfl, rfl, hmoves⟩

/-! ## The mutex and the join -/

/-- The event thread that a call waits for has been signalled, and does not wait for the mutex. -/
def Stopping (s : State) : Prop :=
  ∀ node ∈ s.awaited, ∀ th ∈ s.threads, th.slot = node → th.signalled = true ∧ th.pc.awaitsMutex = false

theorem Stopping.not_stuck (h : Stopping s) : ¬ Stuck s := by
  rintro ⟨node, hnode, th, hth, hslot, hwait⟩
  have := (h node hnode th hth hslot).2
  rw [hwait] at this
  cases this

theorem Stopping.of_awaited_none (h : s.awaited = none) : Stopping s := by
  intro node hnode
  rw [h] at hnode
  cases hnode

theorem enter_awaited (s : State) (op : Op) : (enter s op).awaited = none := by
  rcases op with ⟨directory, dir, nss, recursive, autostart⟩ | ⟨directory, dir, ns⟩ | ⟨directory, dir, deleteDocs⟩ |
    _ | _ | _
  · rfl
  · unfold enter unsubscribe
    dsimp only
    split
    · rfl
    · split <;> rfl
  · unfold enter removeWatch
    dsimp only
    split <;> rfl
  · rfl
  · rfl
  · rfl

theorem exec_awaited (hjoin : body.joining = none) {outcome : Outcome} {instr : Instr}
    (h : ∀ node, instr = .stopWatcher node → (slotAt node s.slots).any WatcherSlot.isRunning = false) :
    (exec s body outcome instr).awaited = none := by
  rcases instr with ⟨importer, skip⟩ | node | node | importer | importer | node
  · unfold exec
    dsimp only
    split <;> exact hjoin
  · unfold exec ensureWatcherStarted
    dsimp only
    split
    · exact hjoin
    · split <;> exact hjoin
  · unfold exec stopWatcher
    dsimp only
    rw [h node rfl, if_neg (by simp)]
    exact hjoin
  · exact hjoin
  · exact hjoin
  · exact hjoin

theorem exec_stopWatcher (hrun : (slotAt node s.slots).any WatcherSlot.isRunning = true) (outcome : Outcome) :
    exec s body outcome (.stopWatcher node) =
      { s with
        slots := setWatcher node (some false) s.slots
        threads := updateWhere (fun th => th.slot == node) (fun th => { th with signalled := true }) s.threads
        holder := some { body with joining := some node } } := by
  show stopWatcher s body node = _
  unfold stopWatcher
  rw [if_pos hrun]

theorem stops_eq_some (h : stops s = some node) :
    ∃ body todo, s.holder = some body ∧ body.joining = none ∧ body.todo = .stopWatcher node :: todo ∧
      (slotAt node s.slots).any WatcherSlot.isRunning = true := by
  obtain ⟨body, hbody, h⟩ := Option.bind_eq_some_iff.mp h
  split at h
  · rename_i node' todo hjoin htodo
    split at h
    · rename_i hrun
      cases h
      exact ⟨body, todo, hbody, hjoin, htodo, hrun⟩
    · cases h
  · cases h

theorem stops_of {todo : List Instr} (hbody : s.holder = some body) (hjoin : body.joining = none)
    (htodo : body.todo = .stopWatcher node :: todo) (hrun : (slotAt node s.slots).any WatcherSlot.isRunning = true) :
    stops s = some node := by
  unfold stops
  rw [hbody, Option.bind_some, hjoin, htodo]
  exact if_pos hrun

theorem Stopping.step (h : Stopping s) (hclear : Clear s a) (hs : step shouldImport s a = some s') : Stopping s' := by
  rcases hnode : a.slot with - | node
  · rcases a with op | i | outcome | _ | _ | _ | _ | _ | _
    · obtain ⟨-, hthreads, hholder, -⟩ := step_invoke hs
      unfold Stopping State.awaited at h ⊢
      rw [hthreads, hholder]
      exact h
    · obtain ⟨op, -, -, rfl⟩ := step_lock hs
      exact .of_awaited_none (enter_awaited _ op)
    · obtain ⟨body, instr, todo, hbody, hjoin, htodo, rfl⟩ := step_run hs
      by_cases hstop : ∃ node, instr = .stopWatcher node ∧ (slotAt node s.slots).any WatcherSlot.isRunning = true
      · obtain ⟨node, rfl, hrun⟩ := hstop
        rw [exec_stopWatcher hrun]
        intro node' hnode' th hth hslot
        cases hnode'
        obtain ⟨old, hold, rfl⟩ := mem_updateWhere.mp hth
        by_cases hn : (old.slot == node) = true
        · have hfree := hclear node (stops_of hbody hjoin htodo hrun) old hold (beq_iff_eq.mp hn)
          rw [if_pos hn]
          exact ⟨rfl, hfree⟩
        · rw [if_neg hn] at hslot
          exact absurd (beq_iff_eq.mpr hslot) hn
      · have hidle : ({ body with todo := todo } : Body).joining = none := hjoin
        refine .of_awaited_none (exec_awaited hidle fun node hi => ?_)
        rw [Bool.eq_false_iff]
        exact fun hrun => hstop ⟨node, hi, hrun⟩
    · obtain ⟨body, node, -, -, rfl⟩ := step_join hs
      exact .of_awaited_none rfl
    · obtain ⟨body, -, -, -, rfl⟩ := step_unlock hs
      exact .of_awaited_none rfl
    all_goals cases hnode
  · obtain ⟨th, pc, hth, rfl, rfl, hmoves⟩ := step_thread hnode hs
    intro node' hnode' th' hth' hslot
    obtain ⟨old, hold, rfl⟩ := mem_updateWhere.mp hth'
    by_cases hn : (old.slot == th.slot) = true
    · rw [if_pos hn] at hslot ⊢
      obtain ⟨hsignal, -⟩ := h node' hnode' old hold hslot
      refine ⟨hsignal, ?_⟩
      rw [Bool.eq_false_iff]
      intro hwait
      have hth := (h node' hnode' th hth ((beq_iff_eq.mp hn).symm.trans hslot)).1
      rw [hmoves.arrives hwait] at hth
      cases hth
    · rw [if_neg hn] at hslot ⊢
      exact h node' hnode' old hold hslot

theorem clear_of_not_stuck (hs : step shouldImport s a = some s') (h : ¬ Stuck s') : Clear s a := by
  rcases a with _ | _ | outcome | _ | _ | _ | _ | _ | _
  case run =>
    intro node hnode th hth hslot
    rw [Bool.eq_false_iff]
    intro hwait
    obtain ⟨body, todo, hbody, hjoin, htodo, hrun⟩ := stops_eq_some hnode
    obtain ⟨body', instr, todo', hbody', -, htodo', rfl⟩ := step_run hs
    obtain rfl := Option.some.inj (hbody.symm.trans hbody')
    obtain ⟨rfl, rfl⟩ := List.cons.inj (htodo.symm.trans htodo')
    rw [exec_stopWatcher hrun] at h
    refine h ⟨node, rfl, _, mem_updateWhere_of_mem hth, ?_⟩
    rw [if_pos (beq_iff_eq.mpr hslot)]
    exact ⟨hslot, hwait⟩
  all_goals trivial

theorem not_stuck_iff {as : List Act} (h : run (step shouldImport) {} as = some s) :
    (∀ pre t, pre <+: as → run (step shouldImport) {} pre = some t → ¬ Stuck t) ↔
      Along (step shouldImport) Clear {} as := by
  refine along_iff_prefixes Stopping (fun s => ¬ Stuck s) (fun _ => True) Stopping.not_stuck ?_ ?_
    (.of_awaited_none rfl) (fun _ _ => trivial) h
  · exact fun _ _ hs hgood => clear_of_not_stuck hs hgood
  · exact fun hinv _ hclear hs => hinv.step hclear hs

/-! ## What a call does when it gets the mutex -/

def Instr.importer : Instr → Option Importer
  | .start importer _ => some importer
  | .deleteAllDocs importer => some importer
  | _ => none

/-- A slot is destroyed last, and after its watcher has been stopped; a watcher is started for a slot that is there. -/
def Ready (slots : List WatcherSlot) : List Nat → List Instr → Prop
  | _, [] => True
  | _, .ensureWatcherStarted node :: todo => (∃ slot ∈ slots, slot.node = node) ∧ Ready slots [] todo
  | stopped, .stopWatcher node :: todo => Ready slots (node :: stopped) todo
  | stopped, .erase node :: todo => node ∈ stopped ∧ todo = []
  | stopped, _ :: todo => Ready slots stopped todo

/-- The slot was there before with its watcher, or is new; its importers were there before or are new. -/
structure Descends (s : State) (fresh : Nat) (slot' : WatcherSlot) : Prop where
  slot : (∃ slot ∈ s.slots, slot.node = slot'.node ∧ slot.canonicalDir = slot'.canonicalDir ∧
    slot.watcher = slot'.watcher) ∨ slot'.node = s.fresh ∧ s.fresh < fresh
  importers : ∀ importer ∈ slot'.importers,
    (∃ slot ∈ s.slots, slot.canonicalDir = slot'.canonicalDir ∧ importer ∈ slot.importers) ∨
      importer.dataDir = slot'.canonicalDir ∧ s.fresh < importer.id

/-- A call has got the mutex: the slots, and what it is about to do. -/
structure Entered (s s' : State) : Prop where
  threads : s'.threads = s.threads
  fresh : s.fresh ≤ s'.fresh
  keyed : Keyed WatcherSlot.canonicalDir s'.slots
  kept : ∀ slot ∈ s.slots, ∃ slot' ∈ s'.slots, slot'.node = slot.node ∧ slot'.canonicalDir = slot.canonicalDir
  descends : ∀ slot' ∈ s'.slots, Descends s s'.fresh slot'
  body : ∃ body, s'.holder = some body ∧ body.joining = none ∧ body.destroyed = none ∧ Ready s'.slots [] body.todo ∧
    ∀ instr ∈ body.todo, ∀ importer ∈ instr.importer, ∃ slot ∈ s'.slots, importer ∈ slot.importers

theorem Descends.self {slot : WatcherSlot} (h : slot ∈ s.slots) (fresh : Nat) : Descends s fresh slot :=
  ⟨.inl ⟨slot, h, rfl, rfl, rfl⟩, fun _ hi => .inl ⟨slot, h, rfl, hi⟩⟩

variable {slots : List WatcherSlot} {stopped : List Nat}

theorem Ready.append {l l' : List Instr}
    (h : ∀ instr ∈ l, instr.importer.isSome = true ∨ ∃ importer, instr = .stopImporter importer)
    (h' : Ready slots stopped l') : Ready slots stopped (l ++ l') := by
  induction l with
  | nil => exact h'
  | cons instr l ih =>
    have hrest := ih fun i hi => h i (List.mem_cons_of_mem _ hi)
    rcases h instr List.mem_cons_self with hsome | ⟨importer, rfl⟩
    · rcases instr with _ | _ | _ | _ | _ | _
      case start => exact hrest
      case deleteAllDocs => exact hrest
      all_goals cases hsome
    · exact hrest

theorem Entered.of_slots (hkeyed : Keyed WatcherSlot.canonicalDir s.slots) (hslots : s'.slots = s.slots)
    (hthreads : s'.threads = s.threads) (hfresh : s'.fresh = s.fresh)
    (hbody : ∃ body, s'.holder = some body ∧ body.joining = none ∧ body.destroyed = none ∧
      Ready s.slots [] body.todo ∧
      ∀ instr ∈ body.todo, ∀ importer ∈ instr.importer, ∃ slot ∈ s.slots, importer ∈ slot.importers) :
    Entered s s' := by
  refine ⟨hthreads, by omega, ?_, fun slot hslot => ?_, fun slot hslot => ?_, ?_⟩
  · rw [hslots]
    exact hkeyed
  · rw [hslots]
    exact ⟨slot, hslot, rfl, rfl⟩
  · rw [hslots] at hslot
    exact .self hslot _
  · rw [hslots]
    exact hbody

theorem mem_makeImporters {dir : String} {id : Nat} {nss : List String} {importer : Importer}
    (h : importer ∈ makeImporters dir id nss) : importer.dataDir = dir ∧ id ≤ importer.id := by
  induction nss generalizing id with
  | nil => cases h
  | cons ns nss ih =>
    rcases List.mem_cons.mp h with rfl | h
    · exact ⟨rfl, le_refl id⟩
    · obtain ⟨hdir, hid⟩ := ih h
      exact ⟨hdir, by omega⟩

theorem subscribe_entered (hkeyed : Keyed WatcherSlot.canonicalDir s.slots) (op : Op) (dir : String)
    (nss : List String) (recursive autostart : Bool) :
    Entered s (subscribe s { op } dir nss recursive autostart) := by
  unfold subscribe
  dsimp only
  -- the slot of the directory, there before or new
  generalize hold : (findSlot dir s.slots).getD { node := s.fresh, canonicalDir := dir, recursive } = slot
  have hslot : slot ∈ s.slots ∧ slot.canonicalDir = dir ∨
      slot.node = s.fresh ∧ slot.importers = [] ∧ slot.canonicalDir = dir ∧ ∀ x ∈ s.slots, x.canonicalDir ≠ dir := by
    rcases hfind : findSlot dir s.slots with - | found
    · rw [hfind] at hold
      subst hold
      exact .inr ⟨rfl, rfl, rfl, lookup_eq_none.mp hfind⟩
    · rw [hfind] at hold
      subst hold
      exact .inl (lookup_eq_some hfind)
  have hdir : slot.canonicalDir = dir := by
    rcases hslot with ⟨-, h⟩ | ⟨-, -, h, -⟩ <;> exact h
  generalize newNamespaces slot.targetNamespaces nss = added
  refine ⟨rfl, by dsimp only; omega, hkeyed.upsertRow, fun x hx => ?_, fun x hx => ?_, _, rfl, rfl, rfl, ?_, ?_⟩
  · by_cases hx' : x.canonicalDir = slot.canonicalDir
    · refine ⟨_, mem_upsertRow.mpr (.inl rfl), ?_, hx'.symm⟩
      rcases hslot with ⟨hslot, -⟩ | ⟨-, -, -, hnone⟩
      · rw [hkeyed.eq_of_key hx hslot hx']
      · exact absurd (hx'.trans hdir) (hnone x hx)
    · exact ⟨x, mem_upsertRow.mpr (.inr ⟨hx, hx'⟩), rfl, rfl⟩
  · rcases mem_upsertRow.mp hx with rfl | ⟨hx, -⟩
    · refine ⟨?_, fun importer hi => ?_⟩
      · rcases hslot with ⟨hslot, -⟩ | ⟨hnode, -, -, -⟩
        · exact .inl ⟨slot, hslot, rfl, rfl, rfl⟩
        · have hlt : s.fresh < s.fresh + 1 + added.length := by omega
          exact .inr ⟨hnode, hlt⟩
      · rcases List.mem_append.mp hi with hi | hi
        · rcases hslot with ⟨hslot, -⟩ | ⟨-, hnil, -, -⟩
          · exact .inl ⟨slot, hslot, rfl, hi⟩
          · rw [hnil] at hi
            cases hi
        · obtain ⟨hdata, hid⟩ := mem_makeImporters hi
          exact .inr ⟨hdata.trans hdir.symm, by omega⟩
    · exact .self hx _
  · split
    · refine Ready.append (fun instr hinstr => ?_) ⟨⟨_, mem_upsertRow.mpr (.inl rfl), rfl⟩, trivial⟩
      obtain ⟨importer, -, rfl⟩ := List.mem_map.mp hinstr
      exact .inl rfl
    · trivial
  · intro instr hinstr importer hi
    refine ⟨_, mem_upsertRow.mpr (.inl rfl), List.mem_append_right _ ?_⟩
    split at hinstr
    · rcases List.mem_append.mp hinstr with hinstr | hinstr
      · obtain ⟨i, hmem, rfl⟩ := List.mem_map.mp hinstr
        cases hi
        exact hmem
      · obtain rfl := List.mem_singleton.mp hinstr
        cases hi
    · cases hinstr

theorem unsubscribe_entered (hkeyed : Keyed WatcherSlot.canonicalDir s.slots) (op : Op) (key ns : String) :
    Entered s (unsubscribe s { op } key ns) := by
  unfold unsubscribe
  split
  · exact .of_slots hkeyed rfl rfl rfl ⟨_, rfl, rfl, rfl, trivial, by simp⟩
  · rename_i slot hfind
    obtain ⟨hslot, hkey⟩ := lookup_eq_some hfind
    split
    · -- the slot of the key is the one that is written
      have hsame : ∀ x ∈ s.slots, (x.canonicalDir == key) = true → x = slot := fun x hx hk =>
        hkeyed.eq_of_key hx hslot ((beq_iff_eq.mp hk).trans hkey.symm)
      refine ⟨rfl, le_refl _, hkeyed.updateWhere_of fun x hx hk => ?_, fun x hx => ?_, fun x hx => ?_,
        _, rfl, rfl, rfl, ?_, ?_⟩
      · rw [hsame x hx hk]
      · refine ⟨_, mem_updateWhere_of_mem hx, ?_⟩
        split
        · rename_i hk
          rw [hsame x hx hk]
          exact ⟨rfl, rfl⟩
        · exact ⟨rfl, rfl⟩
      · obtain ⟨old, hold, rfl⟩ := mem_updateWhere.mp hx
        split
        · exact ⟨.inl ⟨slot, hslot, rfl, rfl, rfl⟩, fun i hi => .inl ⟨slot, hslot, rfl, List.mem_of_mem_eraseIdx hi⟩⟩
        · exact .self hold _
      · split
        · exact ⟨List.mem_singleton_self _, rfl⟩
        · trivial
      · intro instr hinstr importer hi
        split at hinstr
        · simp only [List.mem_cons, List.not_mem_nil, or_false] at hinstr
          rcases hinstr with rfl | rfl <;> cases hi
        · cases hinstr
    · exact .of_slots hkeyed rfl rfl rfl ⟨_, rfl, rfl, rfl, trivial, by simp⟩

theorem removeWatch_entered (hkeyed : Keyed WatcherSlot.canonicalDir s.slots) (op : Op) (key : String)
    (deleteDocs : Bool) : Entered s (removeWatch s { op } key deleteDocs) := by
  unfold removeWatch
  split
  · exact .of_slots hkeyed rfl rfl rfl ⟨_, rfl, rfl, rfl, trivial, by simp⟩
  · rename_i slot hfind
    have hslot := (lookup_eq_some hfind).1
    have hinstrs : ∀ instr ∈ slot.importers.flatMap (fun importer =>
        if deleteDocs then [Instr.deleteAllDocs importer, .stopImporter importer] else [.stopImporter importer]),
        ∃ importer ∈ slot.importers, instr = .deleteAllDocs importer ∨ instr = .stopImporter importer := by
      intro instr hinstr
      obtain ⟨i, hmem, hinstr⟩ := List.mem_flatMap.mp hinstr
      refine ⟨i, hmem, ?_⟩
      split at hinstr
      · simpa using hinstr
      · exact .inr (List.mem_singleton.mp hinstr)
    refine .of_slots hkeyed rfl rfl rfl ⟨_, rfl, rfl, rfl, ?_, ?_⟩
    · show Ready s.slots [slot.node] (_ ++ [.erase slot.node])
      refine Ready.append (fun instr hinstr => ?_) ⟨List.mem_singleton_self _, rfl⟩
      obtain ⟨i, -, rfl | rfl⟩ := hinstrs instr hinstr
      · exact .inl rfl
      · exact .inr ⟨i, rfl⟩
    · intro instr hinstr importer hi
      rcases List.mem_append.mp hinstr with hinstr | hinstr
      · rcases List.mem_cons.mp hinstr with rfl | hinstr
        · cases hi
        · obtain ⟨i, hmem, rfl | rfl⟩ := hinstrs instr hinstr
          · cases hi
            exact ⟨slot, hslot, hmem⟩
          · cases hi
      · obtain rfl := List.mem_singleton.mp hinstr
        cases hi

theorem startAll_entered (hkeyed : Keyed WatcherSlot.canonicalDir s.slots) (op : Op) :
    Entered s (startAll s { op }) := by
  refine .of_slots hkeyed rfl rfl rfl ⟨_, rfl, rfl, rfl, ?_, ?_⟩
  · have hready : ∀ slots : List WatcherSlot, (∀ slot ∈ slots, slot ∈ s.slots) →
        Ready s.slots [] (slots.flatMap fun slot =>
          slot.importers.map (Instr.start · true) ++ [.ensureWatcherStarted slot.node]) := by
      intro slots hsub
      induction slots with
      | nil => trivial
      | cons slot slots ih =>
        rw [List.flatMap_cons, List.append_assoc]
        refine Ready.append (fun instr hinstr => ?_) ⟨⟨slot, hsub slot (by simp), rfl⟩, ?_⟩
        · obtain ⟨importer, -, rfl⟩ := List.mem_map.mp hinstr
          exact .inl rfl
        · exact ih fun x hx => hsub x (List.mem_cons_of_mem _ hx)
    exact hready s.slots fun _ h => h
  · intro instr hinstr importer hi
    obtain ⟨slot, hslot, hinstr⟩ := List.mem_flatMap.mp hinstr
    rcases List.mem_append.mp hinstr with hinstr | hinstr
    · obtain ⟨i, hmem, rfl⟩ := List.mem_map.mp hinstr
      cases hi
      exact ⟨slot, hslot, hmem⟩
    · obtain rfl := List.mem_singleton.mp hinstr
      cases hi

theorem stopAll_entered (hkeyed : Keyed WatcherSlot.canonicalDir s.slots) (op : Op) : Entered s (stopAll s { op }) := by
  refine .of_slots hkeyed rfl rfl rfl ⟨_, rfl, rfl, rfl, ?_, ?_⟩
  · have hready : ∀ (slots : List WatcherSlot) (stopped : List Nat), Ready s.slots stopped (slots.flatMap fun slot =>
        Instr.stopWatcher slot.node :: slot.importers.map Instr.stopImporter) := by
      intro slots
      induction slots with
      | nil => exact fun _ => trivial
      | cons slot slots ih =>
        intro stopped
        rw [List.flatMap_cons]
        refine Ready.append (l := slot.importers.map Instr.stopImporter) (fun instr hinstr => ?_) (ih _)
        obtain ⟨importer, -, rfl⟩ := List.mem_map.mp hinstr
        exact .inr ⟨importer, rfl⟩
    exact hready s.slots []
  · intro instr hinstr importer hi
    obtain ⟨slot, hslot, hinstr⟩ := List.mem_flatMap.mp hinstr
    rcases List.mem_cons.mp hinstr with rfl | hinstr
    · cases hi
    · obtain ⟨i, hmem, rfl⟩ := List.mem_map.mp hinstr
      cases hi

theorem enter_entered (hkeyed : Keyed WatcherSlot.canonicalDir s.slots) (op : Op) : Entered s (enter s op) := by
  rcases op with ⟨directory, dir, nss, recursive, autostart⟩ | ⟨directory, dir, ns⟩ | ⟨directory, dir, deleteDocs⟩ |
    _ | _ | _
  · exact subscribe_entered hkeyed _ _ _ _ _
  · exact unsubscribe_entered hkeyed _ _ _
  · exact removeWatch_entered hkeyed _ _ _
  · exact startAll_entered hkeyed _
  · exact stopAll_entered hkeyed _
  · exact .of_slots hkeyed rfl rfl rfl ⟨_, rfl, rfl, rfl, trivial, by simp⟩

theorem lock_entered (hkeyed : Keyed WatcherSlot.canonicalDir s.slots) {i : Nat}
    (h : step shouldImport s (.lock i) = some s') : s.holder = none ∧ Entered s s' := by
  obtain ⟨op, hfree, -, rfl⟩ := step_lock h
  have hu : Entered { s with waiting := s.waiting.eraseIdx i } (enter { s with waiting := s.waiting.eraseIdx i } op) :=
    enter_entered (s := { s with waiting := s.waiting.eraseIdx i }) hkeyed op
  refine ⟨hfree, hu.threads, hu.fresh, hu.keyed, hu.kept, fun x hx => ?_, hu.body⟩
  exact ⟨(hu.descends x hx).slot, (hu.descends x hx).importers⟩

/-! ## The importers that may still be entered -/

/-- What holds of every importer that is subscribed, in a snapshot, or ahead of the call that holds the mutex. -/
structure Within (P : Importer → Prop) (s : State) : Prop where
  slots : ∀ slot ∈ s.slots, ∀ importer ∈ slot.importers, P importer
  threads : ∀ th ∈ s.threads, ∀ importer ∈ th.pc.targets, P importer
  todo : ∀ body ∈ s.holder, ∀ instr ∈ body.todo, ∀ importer ∈ instr.importer, P importer

theorem entered_within {P : Importer → Prop} (h : Within P s) {importer : Importer}
    (he : importer ∈ entered s a) : P importer := by
  rcases a with _ | _ | outcome | _ | _ | _ | _ | node | _
  case run =>
    obtain ⟨body, hbody, he⟩ := Option.bind_eq_some_iff.mp he
    obtain ⟨instr, hinstr, he⟩ := Option.bind_eq_some_iff.mp he
    refine h.todo body hbody instr (List.mem_of_mem_head? hinstr) importer ?_
    rcases instr with ⟨i, skip⟩ | _ | _ | i | _ | _
    · unfold Instr.enters at he
      dsimp only at he
      split at he
      · cases he
      · exact he
    · cases he
    · cases he
    · exact he
    · cases he
    · cases he
  case handle =>
    obtain ⟨th, hth, he⟩ := Option.bind_eq_some_iff.mp he
    exact h.threads th (lookup_eq_some hth).1 importer (List.mem_of_mem_head? he)
  all_goals cases he

theorem mem_setWatcher {watcher : Option Bool} {slot' : WatcherSlot} (h : slot' ∈ setWatcher node watcher slots) :
    ∃ slot ∈ slots, slot'.node = slot.node ∧ slot'.canonicalDir = slot.canonicalDir ∧
      slot'.importers = slot.importers ∧ slot'.watcher = if slot.node = node then watcher else slot.watcher := by
  obtain ⟨slot, hslot, rfl⟩ := mem_updateWhere.mp h
  refine ⟨slot, hslot, ?_⟩
  by_cases hn : slot.node = node
  · simp [hn]
  · simp [hn]

theorem setWatcher_keeps {watcher : Option Bool} {slot : WatcherSlot} (h : slot ∈ slots) :
    ∃ slot' ∈ setWatcher node watcher slots, slot'.node = slot.node ∧ slot'.canonicalDir = slot.canonicalDir := by
  refine ⟨_, mem_updateWhere_of_mem h, ?_⟩
  split <;> exact ⟨rfl, rfl⟩

/-- What an instruction does to the slots, the threads and the rest of the call. -/
structure Executed (s : State) (body : Body) (instr : Instr) (s' : State) : Prop where
  fresh : s'.fresh = s.fresh
  slots : ∀ slot' ∈ s'.slots, ∃ slot ∈ s.slots, slot'.importers = slot.importers
  threads : ∀ th' ∈ s'.threads, th'.pc.targets = [] ∨ ∃ th ∈ s.threads, th'.pc.targets = th.pc.targets
  todo : ∃ body', s'.holder = some body' ∧ body'.todo = body.todo

theorem exec_executed (s : State) (body : Body) (outcome : Outcome) (instr : Instr) :
    Executed s body instr (exec s body outcome instr) := by
  have hself : ∀ slot' ∈ s.slots, ∃ slot ∈ s.slots, slot'.importers = slot.importers := fun x hx => ⟨x, hx, rfl⟩
  have hset : ∀ node watcher, ∀ slot' ∈ setWatcher node watcher s.slots, ∃ slot ∈ s.slots,
      slot'.importers = slot.importers := by
    intro node watcher x hx
    obtain ⟨slot, hslot, -, -, himp, -⟩ := mem_setWatcher hx
    exact ⟨slot, hslot, himp⟩
  have hold : ∀ th' ∈ s.threads, th'.pc.targets = [] ∨ ∃ th ∈ s.threads, th'.pc.targets = th.pc.targets :=
    fun x hx => .inr ⟨x, hx, rfl⟩
  rcases instr with ⟨importer, skip⟩ | node | node | importer | importer | node
  · unfold exec
    dsimp only
    split <;> exact ⟨rfl, hself, hold, _, rfl, rfl⟩
  · unfold exec ensureWatcherStarted
    dsimp only
    split
    · exact ⟨rfl, hself, hold, _, rfl, rfl⟩
    · split
      · refine ⟨rfl, hset node _, fun x hx => ?_, _, rfl, rfl⟩
        rcases List.mem_append.mp hx with hx | hx
        · exact hold x hx
        · obtain rfl := List.mem_singleton.mp hx
          exact .inl rfl
      · exact ⟨rfl, hset node _, hold, _, rfl, rfl⟩
  · unfold exec stopWatcher
    dsimp only
    split
    · refine ⟨rfl, hset node _, fun x hx => ?_, _, rfl, rfl⟩
      obtain ⟨th, hth, rfl⟩ := mem_updateWhere.mp hx
      refine .inr ⟨th, hth, ?_⟩
      split <;> rfl
    · exact ⟨rfl, hself, hold, _, rfl, rfl⟩
  · exact ⟨rfl, hself, hold, _, rfl, rfl⟩
  · exact ⟨rfl, hself, hold, _, rfl, rfl⟩
  · exact ⟨rfl, fun x hx => hself x (mem_deleteWhere.mp hx).1, hold, _, rfl, rfl⟩

theorem mem_importersAt {importer : Importer} (h : importer ∈ importersAt s node) :
    ∃ slot ∈ s.slots, slot.node = node ∧ importer ∈ slot.importers := by
  unfold importersAt at h
  rcases hslot : slotAt node s.slots with - | slot
  · rw [hslot] at h
    cases h
  · rw [hslot] at h
    obtain ⟨hmem, hnode⟩ := lookup_eq_some hslot
    exact ⟨slot, hmem, hnode, h⟩

theorem Within.step {P : Importer → Prop} (h : Within P s) (hkeyed : Keyed WatcherSlot.canonicalDir s.slots)
    (hnew : ∀ importer, s.fresh ≤ importer.id → P importer) (hs : step shouldImport s a = some s') :
    Within P s' ∧ s.fresh ≤ s'.fresh := by
  rcases hnode : a.slot with - | node
  · rcases a with op | i | outcome | _ | _ | _ | _ | _ | _
    · obtain ⟨hslots, hthreads, hholder, hfresh⟩ := step_invoke hs
      refine ⟨⟨?_, ?_, ?_⟩, by omega⟩
      · rw [hslots]
        exact h.slots
      · rw [hthreads]
        exact h.threads
      · rw [hholder]
        exact h.todo
    · obtain ⟨-, hu⟩ := lock_entered hkeyed hs
      obtain ⟨body, hbody, -, -, -, htodo⟩ := hu.body
      have hslots : ∀ slot' ∈ s'.slots, ∀ importer ∈ slot'.importers, P importer := by
        intro slot' hslot' importer hi
        rcases (hu.descends slot' hslot').importers importer hi with ⟨slot, hslot, -, hi⟩ | ⟨-, hid⟩
        · exact h.slots slot hslot importer hi
        · exact hnew importer (Nat.le_of_lt hid)
      refine ⟨⟨hslots, ?_, ?_⟩, hu.fresh⟩
      · rw [hu.threads]
        exact h.threads
      · intro body' hbody' instr hinstr importer hi
        obtain rfl := Option.some.inj (hbody.symm.trans hbody')
        obtain ⟨slot, hslot, hi⟩ := htodo instr hinstr importer hi
        exact hslots slot hslot importer hi
    · obtain ⟨body, instr, todo, hbody, -, htodo, rfl⟩ := step_run hs
      obtain ⟨hfresh, hslots, hthreads, body', hbody', htodo'⟩ := exec_executed s { body with todo := todo } outcome instr
      refine ⟨⟨fun slot' hslot' importer hi => ?_, fun th' hth' importer hi => ?_, ?_⟩, by omega⟩
      · obtain ⟨slot, hslot, himp⟩ := hslots slot' hslot'
        rw [himp] at hi
        exact h.slots slot hslot importer hi
      · rcases hthreads th' hth' with hnil | ⟨th, hth, himp⟩
        · rw [hnil] at hi
          cases hi
        · rw [himp] at hi
          exact h.threads th hth importer hi
      · intro body'' hbody'' instr' hinstr' importer hi
        obtain rfl := Option.some.inj (hbody'.symm.trans hbody'')
        rw [htodo'] at hinstr'
        refine h.todo body hbody instr' ?_ importer hi
        rw [htodo]
        exact List.mem_cons_of_mem _ hinstr'
    · obtain ⟨body, node, hbody, -, rfl⟩ := step_join hs
      refine ⟨⟨h.slots, fun th hth => h.threads th (mem_deleteWhere.mp hth).1, ?_⟩, le_refl _⟩
      intro body' hbody'
      cases hbody'
      exact h.todo body hbody
    · obtain ⟨body, -, -, -, rfl⟩ := step_unlock hs
      exact ⟨⟨h.slots, h.threads, by simp⟩, le_refl _⟩
    all_goals cases hnode
  · obtain ⟨th, pc, hth, rfl, rfl, hmoves⟩ := step_thread hnode hs
    refine ⟨⟨h.slots, fun th' hth' importer hi => ?_, h.todo⟩, le_refl _⟩
    obtain ⟨old, hold, rfl⟩ := mem_updateWhere.mp hth'
    split at hi
    · rcases hmoves.takes with hpart | ⟨-, hall⟩
      · exact h.threads th hth importer (hpart importer hi)
      · rw [hall] at hi
        obtain ⟨slot, hslot, -, hi⟩ := mem_importersAt hi
        exact h.slots slot hslot importer hi
    · exact h.threads old hold importer hi

/-! ## The event threads and their slots -/

structure Owned (s : State) : Prop where
  keyed : Keyed WatcherSlot.canonicalDir s.slots
  bound : ∀ slot ∈ s.slots, slot.node < s.fresh
  dirs : ∀ slot ∈ s.slots, ∀ importer ∈ slot.importers, importer.dataDir = slot.canonicalDir
  /-- A thread runs for a slot that is there, and hands its batch to importers of the directory. -/
  threads : ∀ th ∈ s.threads, ∃ slot ∈ s.slots, slot.node = th.slot ∧
    ∀ importer ∈ th.pc.targets, importer.dataDir = slot.canonicalDir
  running : ∀ slot ∈ s.slots, slot.isRunning = true ∨ s.awaited = some slot.node ∨ ∀ th ∈ s.threads, th.slot ≠ slot.node
  ready : ∀ body ∈ s.holder, ∃ stopped, Ready s.slots stopped body.todo ∧
    ∀ node ∈ stopped, body.joining = some node ∨ ∀ th ∈ s.threads, th.slot ≠ node
  destroyed : ∀ body ∈ s.holder, ∀ dir, body.destroyed = some dir → ∀ slot ∈ s.slots, slot.canonicalDir ≠ dir

theorem Ready.mono {slots' : List WatcherSlot} (hkept : ∀ slot ∈ slots, ∃ slot' ∈ slots', slot'.node = slot.node)
    {todo : List Instr} (h : Ready slots stopped todo) : Ready slots' stopped todo := by
  induction todo generalizing stopped with
  | nil => trivial
  | cons instr todo ih =>
    rcases instr with _ | node | node | _ | _ | node
    · exact ih h
    · obtain ⟨⟨slot, hslot, rfl⟩, h⟩ := h
      exact ⟨hkept slot hslot, ih h⟩
    · exact ih h
    · exact ih h
    · exact ih h
    · exact h

theorem Owned.idle (h : Owned s) (hawaited : s.awaited = none)
    (hrun : (slotAt node s.slots).any WatcherSlot.isRunning = false) : ∀ th ∈ s.threads, th.slot ≠ node := by
  rcases hslot : slotAt node s.slots with - | slot
  · intro th hth hn
    obtain ⟨slot, hmem, hnode, -⟩ := h.threads th hth
    exact lookup_eq_none.mp hslot slot hmem (hnode.trans hn)
  · rw [hslot, Option.any_some] at hrun
    obtain ⟨hmem, rfl⟩ := lookup_eq_some hslot
    rcases h.running slot hmem with hr | hw | hnone
    · rw [hr] at hrun
      cases hrun
    · rw [hawaited] at hw
      cases hw
    · exact hnone

theorem Owned.enter (h : Owned s) (hfree : s.holder = none) (hu : Entered s s') : Owned s' := by
  obtain ⟨body, hbody, hjoin, hdestroyed, hready, -⟩ := hu.body
  refine ⟨hu.keyed, fun slot' hslot' => ?_, fun slot' hslot' importer hi => ?_, fun th hth => ?_,
    fun slot' hslot' => ?_, fun body' hbody' => ?_, fun body' hbody' dir hdir => ?_⟩
  · rcases (hu.descends slot' hslot').slot with ⟨slot, hslot, hnode, -, -⟩ | ⟨hnode, hlt⟩
    · have := h.bound slot hslot
      have := hu.fresh
      omega
    · omega
  · rcases (hu.descends slot' hslot').importers importer hi with ⟨slot, hslot, hdir, hi⟩ | ⟨hdir, -⟩
    · exact (h.dirs slot hslot importer hi).trans hdir
    · exact hdir
  · rw [hu.threads] at hth
    obtain ⟨slot, hslot, hnode, htargets⟩ := h.threads th hth
    obtain ⟨slot', hslot', hnode', hdir'⟩ := hu.kept slot hslot
    refine ⟨slot', hslot', hnode'.trans hnode, fun importer hi => ?_⟩
    rw [hdir']
    exact htargets importer hi
  · rw [hu.threads]
    rcases (hu.descends slot' hslot').slot with ⟨slot, hslot, hnode, -, hwatcher⟩ | ⟨hnode, -⟩
    · rcases h.running slot hslot with hr | hw | hnone
      · refine .inl ?_
        unfold WatcherSlot.isRunning at hr ⊢
        rw [← hwatcher]
        exact hr
      · unfold State.awaited at hw
        rw [hfree] at hw
        cases hw
      · rw [← hnode]
        exact .inr (.inr hnone)
    · -- a new slot: its address is that of no thread
      refine .inr (.inr fun th hth heq => ?_)
      obtain ⟨slot, hslot, hn, -⟩ := h.threads th hth
      have := h.bound slot hslot
      omega
  · obtain rfl := Option.some.inj (hbody.symm.trans hbody')
    exact ⟨[], hready, by simp⟩
  · obtain rfl := Option.some.inj (hbody.symm.trans hbody')
    rw [hdestroyed] at hdir
    cases hdir

theorem Owned.go_on (h : Owned s) (hawaited : s.awaited = none) {w : List Nat} {body' : Body}
    (hready : Ready s.slots stopped body'.todo) (hstopped : ∀ node ∈ stopped, ∀ th ∈ s.threads, th.slot ≠ node)
    (hdestroyed : ∀ dir, body'.destroyed = some dir → ∀ slot ∈ s.slots, slot.canonicalDir ≠ dir) :
    Owned { s with watching := w, holder := some body' } := by
  refine ⟨h.keyed, h.bound, h.dirs, h.threads, fun slot hslot => ?_, ?_, ?_⟩
  · rcases h.running slot hslot with hr | hw | hnone
    · exact .inl hr
    · rw [hawaited] at hw
      cases hw
    · exact .inr (.inr hnone)
  · intro b hb
    cases hb
    exact ⟨stopped, hready, fun node hn => .inr (hstopped node hn)⟩
  · intro b hb
    cases hb
    exact hdestroyed

theorem Owned.watch (h : Owned s) (hawaited : s.awaited = none) {watcher : Option Bool} {threads : List EventThread}
    {body' : Body} (hthreads : ∀ th' ∈ threads, th'.slot = node ∧ th'.pc.targets = [] ∨
      ∃ th ∈ s.threads, th'.slot = th.slot ∧ th'.pc.targets = th.pc.targets)
    (hnode : (∃ th ∈ threads, th.slot = node) → ∃ slot ∈ s.slots, slot.node = node)
    (hwatched : watcher = some true ∨ body'.joining = some node ∨ ∀ th ∈ threads, th.slot ≠ node)
    (hready : Ready s.slots stopped body'.todo)
    (hstopped : ∀ n ∈ stopped, body'.joining = some n ∨ ∀ th ∈ threads, th.slot ≠ n)
    (hdestroyed : ∀ dir, body'.destroyed = some dir → ∀ slot ∈ s.slots, slot.canonicalDir ≠ dir) :
    Owned { s with slots := setWatcher node watcher s.slots, threads := threads, holder := some body' } := by
  refine ⟨h.keyed.updateWhere fun slot _ => rfl, fun slot' hslot' => ?_, fun slot' hslot' importer hi => ?_,
    fun th' hth' => ?_, fun slot' hslot' => ?_, fun b hb => ?_, fun b hb dir hdir slot' hslot' => ?_⟩
  · obtain ⟨slot, hslot, hn, -⟩ := mem_setWatcher hslot'
    rw [hn]
    exact h.bound slot hslot
  · obtain ⟨slot, hslot, -, hdir, himp, -⟩ := mem_setWatcher hslot'
    rw [himp] at hi
    rw [hdir]
    exact h.dirs slot hslot importer hi
  · have hold : ∃ slot ∈ s.slots, slot.node = th'.slot ∧
        ∀ importer ∈ th'.pc.targets, importer.dataDir = slot.canonicalDir := by
      rcases hthreads th' hth' with ⟨hslot, hnil⟩ | ⟨th, hth, hslot, htargets⟩
      · obtain ⟨slot, hmem, hn⟩ := hnode ⟨th', hth', hslot⟩
        refine ⟨slot, hmem, hn.trans hslot.symm, ?_⟩
        rw [hnil]
        simp
      · rw [hslot, htargets]
        exact h.threads th hth
    obtain ⟨slot, hmem, hn, htargets⟩ := hold
    obtain ⟨slot', hslot', hn', hdir'⟩ := setWatcher_keeps hmem
    refine ⟨slot', hslot', hn'.trans hn, fun importer hi => ?_⟩
    rw [hdir']
    exact htargets importer hi
  · obtain ⟨slot, hslot, hn, -, -, hw⟩ := mem_setWatcher hslot'
    by_cases hsn : slot.node = node
    · rw [if_pos hsn] at hw
      rcases hwatched with rfl | hjoin | hnone
      · refine .inl ?_
        unfold WatcherSlot.isRunning
        simp [hw]
      · exact .inr (.inl (by rw [hn, hsn]; exact hjoin))
      · refine .inr (.inr ?_)
        rw [hn, hsn]
        exact hnone
    · rw [if_neg hsn] at hw
      rcases h.running slot hslot with hr | hw' | hnone
      · refine .inl ?_
        unfold WatcherSlot.isRunning at hr ⊢
        rw [hw]
        exact hr
      · rw [hawaited] at hw'
        cases hw'
      · refine .inr (.inr fun th' hth' heq => ?_)
        rcases hthreads th' hth' with ⟨hslot', -⟩ | ⟨th, hth, hslot', -⟩
        · exact hsn (hn.symm.trans (heq.symm.trans hslot'))
        · exact hnone th hth (hslot'.symm.trans (heq.trans hn))
  · cases hb
    exact ⟨stopped, hready.mono fun slot hslot => (setWatcher_keeps hslot).imp fun _ hx => ⟨hx.1, hx.2.1⟩, hstopped⟩
  · cases hb
    obtain ⟨slot, hslot, -, hd, -⟩ := mem_setWatcher hslot'
    rw [hd]
    exact hdestroyed dir hdir slot hslot

section
variable {body' : Body}

theorem Owned.ensureWatcherStarted (h : Owned s) (hawaited : s.awaited = none)
    (hslot : ∃ slot ∈ s.slots, slot.node = node) (hready : Ready s.slots [] body'.todo)
    (hdestroyed : ∀ dir, body'.destroyed = some dir → ∀ slot ∈ s.slots, slot.canonicalDir ≠ dir) (outcome : Outcome) :
    Owned (ensureWatcherStarted s body' node outcome) := by
  unfold DirWatcherRegistry.ensureWatcherStarted
  split
  · exact h.go_on hawaited hready (by simp) hdestroyed
  · rename_i hrun
    have hidle := h.idle hawaited (Bool.eq_false_iff.mpr hrun)
    have hold : ∀ th' ∈ s.threads, th'.slot = node ∧ th'.pc.targets = [] ∨
        ∃ th ∈ s.threads, th'.slot = th.slot ∧ th'.pc.targets = th.pc.targets :=
      fun th hth => .inr ⟨th, hth, rfl, rfl⟩
    split
    · refine h.watch hawaited (fun th hth => ?_) (fun _ => hslot) (.inl rfl) hready (by simp) hdestroyed
      rcases List.mem_append.mp hth with hth | hth
      · exact hold th hth
      · obtain rfl := List.mem_singleton.mp hth
        exact .inl ⟨rfl, rfl⟩
    · exact h.watch hawaited hold (fun _ => hslot) (.inr (.inr hidle)) hready (by simp) hdestroyed

theorem Owned.stopWatcher (h : Owned s) (hawaited : s.awaited = none)
    (hready : Ready s.slots (node :: stopped) body'.todo) (hstopped : ∀ n ∈ stopped, ∀ th ∈ s.threads, th.slot ≠ n)
    (hdestroyed : ∀ dir, body'.destroyed = some dir → ∀ slot ∈ s.slots, slot.canonicalDir ≠ dir) :
    Owned (stopWatcher s body' node) := by
  unfold DirWatcherRegistry.stopWatcher
  split
  · rename_i hrun
    have hslots : ∀ th' ∈ updateWhere (fun th => th.slot == node) (fun th => { th with signalled := true }) s.threads,
        ∃ th ∈ s.threads, th'.slot = th.slot ∧ th'.pc.targets = th.pc.targets := by
      intro th' hth'
      obtain ⟨th, hth, rfl⟩ := mem_updateWhere.mp hth'
      refine ⟨th, hth, ?_⟩
      split <;> exact ⟨rfl, rfl⟩
    refine h.watch hawaited (fun th hth => .inr (hslots th hth)) (fun _ => ?_) (.inr (.inl rfl)) hready
      (fun n hn => ?_) hdestroyed
    · rcases hfound : slotAt node s.slots with - | slot
      · rw [hfound] at hrun
        cases hrun
      · exact ⟨slot, lookup_eq_some hfound⟩
    · rcases List.mem_cons.mp hn with rfl | hn
      · exact .inl rfl
      · refine .inr fun th' hth' heq => ?_
        obtain ⟨th, hth, hsame, -⟩ := hslots th' hth'
        exact hstopped n hn th hth (hsame.symm.trans heq)
  · rename_i hrun
    refine h.go_on hawaited hready (fun n hn => ?_) hdestroyed
    rcases List.mem_cons.mp hn with rfl | hn
    · exact h.idle hawaited (Bool.eq_false_iff.mpr hrun)
    · exact hstopped n hn

theorem Owned.erase (h : Owned s) (hawaited : s.awaited = none) (hidle : ∀ th ∈ s.threads, th.slot ≠ node)
    (htodo : body'.todo = [])
    (hdestroyed : body'.destroyed = (slotAt node s.slots).map WatcherSlot.canonicalDir) :
    Owned { s with slots := deleteWhere (fun slot => slot.node == node) s.slots, holder := some body' } := by
  refine ⟨h.keyed.deleteWhere, fun slot hslot => h.bound slot (mem_deleteWhere.mp hslot).1,
    fun slot hslot => h.dirs slot (mem_deleteWhere.mp hslot).1, fun th hth => ?_, fun slot hslot => ?_,
    fun b hb => ?_, fun b hb dir hdir slot hslot => ?_⟩
  · obtain ⟨slot, hmem, hn, htargets⟩ := h.threads th hth
    refine ⟨slot, mem_deleteWhere.mpr ⟨hmem, ?_⟩, hn, htargets⟩
    rw [hn, beq_eq_false_iff_ne]
    exact hidle th hth
  · rcases h.running slot (mem_deleteWhere.mp hslot).1 with hr | hw | hnone
    · exact .inl hr
    · rw [hawaited] at hw
      cases hw
    · exact .inr (.inr hnone)
  · cases hb
    rw [htodo]
    exact ⟨[], trivial, by simp⟩
  · cases hb
    rw [hdestroyed] at hdir
    obtain ⟨hold, hne⟩ := mem_deleteWhere.mp hslot
    obtain ⟨found, hfound, rfl⟩ := Option.map_eq_some_iff.mp hdir
    obtain ⟨hmem, rfl⟩ := lookup_eq_some hfound
    intro heq
    rw [h.keyed.eq_of_key hold hmem heq, beq_eq_false_iff_ne] at hne
    exact hne rfl

end

theorem Owned.exec (h : Owned s) (hbody : s.holder = some body) (hjoin : body.joining = none) {instr : Instr}
    {todo : List Instr} (htodo : body.todo = instr :: todo) (outcome : Outcome) :
    Owned (exec s { body with todo := todo } outcome instr) := by
  have hawaited : s.awaited = none := by
    unfold State.awaited
    rw [hbody]
    exact hjoin
  obtain ⟨stopped, hready, hstopped⟩ := h.ready body hbody
  have hstopped : ∀ node ∈ stopped, ∀ th ∈ s.threads, th.slot ≠ node := by
    intro node hn
    rcases hstopped node hn with hj | hnone
    · rw [hjoin] at hj
      cases hj
    · exact hnone
  have hdestroyed : ∀ dir, ({ body with todo := todo } : Body).destroyed = some dir →
      ∀ slot ∈ s.slots, slot.canonicalDir ≠ dir := h.destroyed body hbody
  rw [htodo] at hready
  rcases instr with ⟨importer, skip⟩ | node | node | importer | importer | node
  case start =>
    unfold DirWatcherRegistry.exec
    dsimp only
    split
    · exact h.go_on hawaited hready hstopped hdestroyed
    · exact h.go_on hawaited hready hstopped hdestroyed
  case ensureWatcherStarted => exact h.ensureWatcherStarted hawaited hready.1 hready.2 hdestroyed outcome
  case stopWatcher => exact h.stopWatcher hawaited hready hstopped hdestroyed
  case erase => exact h.erase hawaited (hstopped node hready.1) hready.2 rfl
  all_goals exact h.go_on hawaited hready hstopped hdestroyed

theorem Owned.join (h : Owned s) (hbody : s.holder = some body) (hjoin : body.joining = some node) :
    Owned { s with
      threads := deleteWhere (fun th => th.slot == node) s.threads
      holder := some { body with joining := none } } := by
  have hgone : ∀ th ∈ deleteWhere (fun th => th.slot == node) s.threads, th.slot ≠ node := fun th hth =>
    beq_eq_false_iff_ne.mp (mem_deleteWhere.mp hth).2
  refine ⟨h.keyed, h.bound, h.dirs, fun th hth => h.threads th (mem_deleteWhere.mp hth).1, fun slot hslot => ?_,
    fun b hb => ?_, fun b hb => ?_⟩
  · rcases h.running slot hslot with hr | hw | hnone
    · exact .inl hr
    · unfold State.awaited at hw
      rw [hbody] at hw
      obtain rfl := Option.some.inj (hjoin.symm.trans hw)
      exact .inr (.inr hgone)
    · exact .inr (.inr fun th hth => hnone th (mem_deleteWhere.mp hth).1)
  · cases hb
    obtain ⟨stopped, hready, hstopped⟩ := h.ready body hbody
    refine ⟨stopped, hready, fun n hn => .inr ?_⟩
    rcases hstopped n hn with hj | hnone
    · obtain rfl := Option.some.inj (hjoin.symm.trans hj)
      exact hgone
    · exact fun th hth => hnone th (mem_deleteWhere.mp hth).1
  · cases hb
    exact h.destroyed body hbody

theorem Owned.moveTo (h : Owned s) (hth : th ∈ s.threads) {pc : EventPc} (hmoves : Moves s th pc) :
    Owned (moveTo s th.slot pc) := by
  have hslots : ∀ th' ∈ setPc th.slot pc s.threads, ∃ old ∈ s.threads, th'.slot = old.slot ∧
      (th'.pc = old.pc ∨ th'.pc = pc ∧ old.slot = th.slot) := by
    intro th' hth'
    obtain ⟨old, hold, rfl⟩ := mem_updateWhere.mp hth'
    refine ⟨old, hold, ?_⟩
    split
    · rename_i hn
      exact ⟨rfl, .inr ⟨rfl, beq_iff_eq.mp hn⟩⟩
    · exact ⟨rfl, .inl rfl⟩
  have hkeep : ∀ n, (∀ x ∈ s.threads, x.slot ≠ n) → ∀ x ∈ setPc th.slot pc s.threads, x.slot ≠ n := by
    intro n hnone x hx
    obtain ⟨old, hold, hsame, -⟩ := hslots x hx
    rw [hsame]
    exact hnone old hold
  refine ⟨h.keyed, h.bound, h.dirs, fun th' hth' => ?_, fun slot hslot => ?_, fun b hb => ?_, h.destroyed⟩
  · obtain ⟨old, hold, hsame, hpc | ⟨hpc, hold'⟩⟩ := hslots th' hth'
    · rw [hsame, hpc]
      exact h.threads old hold
    · rw [hsame, hpc, hold']
      rcases hmoves.takes with hpart | ⟨-, hall⟩
      · obtain ⟨slot, hslot, hn, htargets⟩ := h.threads th hth
        exact ⟨slot, hslot, hn, fun importer hi => htargets importer (hpart importer hi)⟩
      · rw [hall]
        unfold importersAt
        rcases hfound : slotAt th.slot s.slots with - | found
        · obtain ⟨slot, hslot, hn, -⟩ := h.threads th hth
          exact ⟨slot, hslot, hn, by simp⟩
        · obtain ⟨hmem, hn⟩ := lookup_eq_some hfound
          exact ⟨found, hmem, hn, h.dirs found hmem⟩
  · rcases h.running slot hslot with hr | hw | hnone
    · exact .inl hr
    · exact .inr (.inl hw)
    · exact .inr (.inr (hkeep _ hnone))
  · obtain ⟨stopped, hready, hstopped⟩ := h.ready b hb
    refine ⟨stopped, hready, fun n hn => ?_⟩
    rcases hstopped n hn with hj | hnone
    · exact .inl hj
    · exact .inr (hkeep _ hnone)

theorem Owned.step (h : Owned s) (hs : step shouldImport s a = some s') : Owned s' := by
  rcases hnode : a.slot with - | node
  · rcases a with op | i | outcome | _ | _ | _ | _ | _ | _
    · obtain ⟨hslots, hthreads, hholder, hfresh⟩ := step_invoke hs
      obtain ⟨hkeyed, hbound, hdirs, hthr, hrunning, hready, hdestroyed⟩ := h
      unfold State.awaited at hrunning
      rw [← hslots] at hkeyed hbound hdirs hthr hrunning hready hdestroyed
      rw [← hthreads] at hthr hrunning hready
      rw [← hholder] at hrunning hready hdestroyed
      rw [← hfresh] at hbound
      exact ⟨hkeyed, hbound, hdirs, hthr, hrunning, hready, hdestroyed⟩
    · obtain ⟨hfree, hu⟩ := lock_entered h.keyed hs
      exact h.enter hfree hu
    · obtain ⟨body, instr, todo, hbody, hjoin, htodo, rfl⟩ := step_run hs
      exact h.exec hbody hjoin htodo outcome
    · obtain ⟨body, node, hbody, hjoin, rfl⟩ := step_join hs
      exact h.join hbody hjoin
    · obtain ⟨body, hbody, hjoin, -, rfl⟩ := step_unlock hs
      refine ⟨h.keyed, h.bound, h.dirs, h.threads, fun slot hslot => ?_, by simp, by simp⟩
      rcases h.running slot hslot with hr | hw | hnone
      · exact .inl hr
      · unfold State.awaited at hw
        rw [hbody, Option.bind_some, hjoin] at hw
        cases hw
      · exact .inr (.inr hnone)
    all_goals cases hnode
  · obtain ⟨th, pc, hth, rfl, rfl, hmoves⟩ := step_thread hnode hs
    exact h.moveTo hth hmoves

/-! ## Runs -/

theorem owned_init : Owned {} := by
  refine ⟨Keyed.nil, ?_, ?_, ?_, ?_, ?_, ?_⟩ <;> simp

theorem owned_run {as : List Act} (h : run (step shouldImport) {} as = some s) : Owned s :=
  run_inv (fun hinv _ hs => hinv.step hs) owned_init (along_true _ _) h

/-- In the directory, the importer has been made since. -/
def NewIn (dir : String) (fresh : Nat) (importer : Importer) : Prop := importer.dataDir = dir → fresh ≤ importer.id

theorem Owned.none_left (h : Owned s) (hbody : s.holder = some body) {dir : String} (hdir : body.destroyed = some dir)
    (hs : DirWatcherRegistry.step shouldImport s .unlock = some s') :
    Within (NewIn dir s.fresh) s' := by
  have hne := h.destroyed body hbody dir hdir
  obtain ⟨body', -, -, -, rfl⟩ := step_unlock hs
  refine ⟨fun slot hslot importer hi heq => ?_, fun th hth importer hi heq => ?_, by simp⟩
  · exact absurd ((h.dirs slot hslot importer hi).symm.trans heq) (hne slot hslot)
  · obtain ⟨slot, hslot, -, htargets⟩ := h.threads th hth
    exact absurd ((htargets importer hi).symm.trans heq) (hne slot hslot)

theorem silent_of_run (as : List Act) : Silent shouldImport as := by
  intro pre mid a s t body dir _ hs hbody hdir ht importer hi
  obtain ⟨s₁, hs₁, ht⟩ := run_append.mp ht
  obtain rfl := Option.some.inj (hs.symm.trans hs₁)
  obtain ⟨s', hret, ht⟩ := run_cons.mp ht
  have hinv := owned_run hs
  -- from the return on, what is entered is newer than it
  have hrest : Owned t ∧ Within (NewIn dir s.fresh) t ∧ s.fresh ≤ t.fresh := by
    refine run_inv (I := fun u => Owned u ∧ Within (NewIn dir s.fresh) u ∧ s.fresh ≤ u.fresh) (Q := fun _ _ => True) ?_
      ⟨hinv.step hret, hinv.none_left hbody hdir hret, ?_⟩ (along_true _ _) ht
    · rintro u b u' ⟨howned, hwithin, hle⟩ - hu
      have hnew : ∀ importer : Importer, u.fresh ≤ importer.id → NewIn dir s.fresh importer := fun _ hid _ => by omega
      obtain ⟨hwithin', hle'⟩ := hwithin.step howned.keyed hnew hu
      exact ⟨howned.step hu, hwithin', by omega⟩
    · obtain ⟨body', -, -, -, rfl⟩ := step_unlock hret
      exact le_refl _
  exact entered_within hrest.2.1 hi

/-- **Watching never gets stuck, as long as no watcher is stopped on its way to the mutex.** No call ever waits, with the
mutex, for an event thread that waits for the mutex, and what has been unsubscribed is not entered, exactly when no `Stop`
finds the event thread between a batch and the mutex. -/
theorem clear_run_iff (shouldImport : String → Bool) (as : List Act) (s : State)
    (h : run (step shouldImport) {} as = some s) :
    ((∀ pre t, pre <+: as → run (step shouldImport) {} pre = some t → ¬ Stuck t) ∧ Silent shouldImport as) ↔
      Along (step shouldImport) Clear {} as := by
  rw [and_iff_left (silent_of_run as)]
  exact not_stuck_iff h

def watched : List Act :=
  [.invoke (.subscribe "d" (some "/d") ["n"] true true), .lock 0, .run {}, .run {}, .unlock]

def saved : List FileEvent := [{ type := .kModified, path := "/d/f" }]

/-- A batch is delivered, then the watch is removed. -/
theorem clear_run_iff_removed :
    ∃ as s, run (step fun _ => true) {} as = some s ∧ s.slots = [] ∧
      (∀ pre t, pre <+: as → run (step fun _ => true) {} pre = some t → ¬ Stuck t) ∧ Silent (fun _ => true) as :=
  ⟨watched ++ [.batch 0 saved, .snapshot 0, .handle 0, .invoke (.removeWatch "d" (some "/d") false), .lock 0, .run {},
      .leave 0, .join, .run {}, .run {}, .unlock], _, rfl, by decide +kernel,
    (clear_run_iff (fun _ => true) _ _ rfl).mpr (by decide +kernel)⟩

/-- The last subscriber leaves while the event thread is at the mutex with a batch. -/
theorem unsubscribe_stuck :
    ¬ ∀ (shouldImport : String → Bool) (as : List Act) (s : State), run (step shouldImport) {} as = some s →
      (∀ pre t, pre <+: as → run (step shouldImport) {} pre = some t → ¬ Stuck t) ∧ Silent shouldImport as := by
  intro h
  obtain ⟨hfree, -⟩ := h (fun _ => true)
    (watched ++ [.invoke (.unsubscribe "d" (some "/d") "n"), .lock 0, .batch 0 saved, .run {}]) _ rfl
  exact hfree _ _ (List.prefix_refl _) rfl (by decide +kernel)

end Cortrix.Connector.DirWatcherRegistry
