import Cortrix.Async.SchedulerSteps

/-!
# Inputs of live tasks

A release removes a managed file unless a live row other than the excluded one has it as its cached identity, or one
has no identity. The cached identity is that of the path a row was created with: a refresh writes the path only, and
leaves a row that a release of its new file overlooks. A merge and a refresh compare paths as strings, and exclude the
task that stays live.

* `live_input_kept` : in every run whose steps spare the inputs of live tasks no step removes one;
  `refreshed_input_removed` : a run in which one does.
-/

namespace Cortrix.Async.Scheduler
open Lib

/-! ## Paths -/

def inManagedDir (env : Env) (path : String) : Bool :=
  env.managedDir != "" && env.weaklyCanonical env.managedDir == some (env.parentPath path)

def sameInput (env : Env) (p q : String) : Bool :=
  p != "" && q != "" && env.weaklyCanonical p == env.weaklyCanonical q &&
    (env.weaklyCanonical p).any (inManagedDir env)

/-- The cached identity is unknown, or that of the path. -/
def identityFits (env : Env) (filepath : String) (canonical : Option String) : Bool :=
  canonical == none || canonical == env.weaklyCanonical filepath

/-- A live row of this file that has the identity of another. -/
def overlooked (env : Env) (filepath : String) (r : TaskRow) : Bool :=
  r.status.live && sameInput env filepath r.filepath && !identityFits env r.filepath r.filepathCanonical

def sparesOthers (env : Env) (t : Tasks) (rel : Release) : Bool :=
  t.all fun r => r.taskId == rel.excludeTaskId || !overlooked env rel.filepath r

/-- The step gives no path up that another task would lose. A merge and a refresh leave their own task live: the path
they give up is not of its file; and a refresh that leaves another identity finds no release of its file pending. -/
def sparesInput (env : Env) (s : State) : Act → Bool
  | .enqueueClaim _ =>
    match s.sched with
    | .looked req recent => s.tasks.all fun row => !statusIn recent.taskId TaskStatus.carries row ||
        (mergeRelease req row.toTaskInfo).all fun rel =>
          sparesOthers env s.tasks rel && !(row.status.live && sameInput env rel.filepath row.filepath)
    | _ => true
  | .enqueueRefresh _ =>
    match s.sched with
    | .looked req recent => s.tasks.all fun row => !statusIn recent.taskId (· == .queued) row ||
        (refreshRelease req recent.taskId recent.filepath).all (fun rel =>
          sparesOthers env s.tasks rel && !sameInput env rel.filepath req.filepath) &&
        (identityFits env req.filepath row.filepathCanonical ||
          s.releases.all fun rel => !sameInput env rel.filepath req.filepath)
    | _ => true
  | a => (givesUp s a).all (sparesOthers env s.tasks)

variable {env : Env} {s s' : State} {a : Act} {req : SubmitRequest} {recent : TaskInfo} {r : TaskRow} {t t' : Tasks}
  {path : String} {rel : Release}

theorem releaseManagedPath_eq_some {filepath exclude : String}
    (h : releaseManagedPath env filepath exclude t = some path) :
    filepath ≠ "" ∧ env.weaklyCanonical filepath = some path ∧ inManagedDir env path = true ∧
      releaseInputIfUnreferenced path exclude t = true := by
  unfold releaseManagedPath at h
  split at h
  · cases h
  · rename_i hne
    split at h
    · rename_i dir path' hdir hpath
      split at h <;> cases h
      rename_i hc
      refine ⟨fun he => hne (.inr he), hpath, ?_, hc.2⟩
      rw [inManagedDir, hdir, hc.1]
      simpa using fun he => hne (.inl he)
    · cases h

theorem released_identity {exclude : String} (h : releaseInputIfUnreferenced path exclude t = true) (hr : r ∈ t)
    (hlive : r.status.live = true) (hid : r.taskId ≠ exclude) (hne : r.filepath ≠ "") :
    r.filepathCanonical ≠ some path ∧ r.filepathCanonical ≠ none := by
  simp only [releaseInputIfUnreferenced, Bool.and_eq_true, Bool.not_eq_true', List.any_eq_false] at h
  obtain ⟨⟨-, hnamed⟩, hunknown⟩ := h
  constructor
  · intro he
    exact hnamed r hr (by simp [he, hid, hlive])
  · intro he
    exact hunknown r hr (by simp [he, hne, hid, hlive])

theorem filepath_ne_empty {exclude : String} (h : releaseInputIfUnreferenced path exclude t = true)
    (hpath : env.weaklyCanonical r.filepath = some path) : r.filepath ≠ "" := by
  intro he
  rw [he] at hpath
  rw [env.weaklyCanonical_empty path hpath] at h
  cases h

theorem identityFits_canonicalInput (filepath : String) :
    identityFits env filepath (canonicalInput env.weaklyCanonical filepath) = true := by
  unfold identityFits canonicalInput
  split
  · rfl
  · cases hpath : env.weaklyCanonical filepath with
    | none => rfl
    | some path => by_cases he : path = "" <;> simp [Option.filter, he]

/-! ## Harmless releases -/

/-- Every live row of the file is of another task than the excluded one, and the release sees it. -/
def Harmless (env : Env) (t : Tasks) (rel : Release) : Prop :=
  ∀ r ∈ t, r.status.live = true → sameInput env rel.filepath r.filepath = true →
    r.taskId ≠ rel.excludeTaskId ∧ identityFits env r.filepath r.filepathCanonical = true

theorem Harmless.keeps (h : Harmless env t rel)
    (hremove : releaseManagedPath env rel.filepath rel.excludeTaskId t = some path) (hr : r ∈ t)
    (hlive : r.status.live = true) : env.weaklyCanonical r.filepath ≠ some path := by
  intro hpath
  obtain ⟨hrel, hrelpath, hdir, hfree⟩ := releaseManagedPath_eq_some hremove
  have hne := filepath_ne_empty hfree hpath
  have hsame : sameInput env rel.filepath r.filepath = true := by
    simp [sameInput, hrel, hne, hrelpath, hpath, hdir]
  obtain ⟨hid, hfits⟩ := h r hr hlive hsame
  obtain ⟨hnamed, hknown⟩ := released_identity hfree hr hlive hid hne
  rw [identityFits, hpath] at hfits
  simp [hnamed, hknown] at hfits

theorem Harmless.advances (h : Harmless env t rel) (hrows : Advances t t') : Harmless env t' rel := by
  intro r' hr' hlive hsame
  obtain ⟨r, hr, hadv⟩ := hrows.mem hr'
  rw [hadv.filepath] at hsame
  rw [hadv.taskId, hadv.filepath, hadv.filepathCanonical]
  exact h r hr (hadv.live hlive) hsame

theorem harmless_of_spares (hrows : Advances t t') (hspare : sparesOthers env t rel = true)
    (hown : ∀ r ∈ t', r.taskId = rel.excludeTaskId → r.status.live = true →
      sameInput env rel.filepath r.filepath = false) : Harmless env t' rel := by
  intro r' hr' hlive hsame
  have hid : r'.taskId ≠ rel.excludeTaskId := by
    intro hid
    rw [hown r' hr' hid hlive] at hsame
    cases hsame
  refine ⟨hid, ?_⟩
  obtain ⟨r, hr, hadv⟩ := hrows.mem hr'
  have hothers := List.all_eq_true.mp hspare r hr
  rw [hadv.taskId] at hid
  rw [hadv.filepath] at hsame
  rw [hadv.filepath, hadv.filepathCanonical]
  simpa [overlooked, hid, hadv.live hlive, hsame] using hothers

/-! ## The invariant -/

/-- The release that the call of `Enqueue` has before it. -/
def Sched.handedBack : Sched → Option Release
  | .refreshed req taskId superseded => refreshRelease req taskId superseded
  | .accepted release _ _ _ => release
  | .idle => none
  | .looked _ _ => none
  | .creating _ => none
  | .dequeuing _ _ => none

structure Spared (env : Env) (s : State) : Prop where
  keyed : Keyed (fun r => r.taskId) s.tasks
  call : ∀ rel, s.sched.handedBack = some rel → Harmless env s.tasks rel
  releases : ∀ rel ∈ s.releases, Terminal rel.excludeTaskId s.tasks ∧ Harmless env s.tasks rel

theorem Spared.init (env : Env) {tasks : Tasks} (hkey : Keyed (fun r => r.taskId) tasks) :
    Spared env (State.init tasks) :=
  ⟨hkey, (fun _ hrel => by cases hrel), (fun _ hrel => by cases hrel)⟩

/-- The invariant says of a removal what the property wants. -/
theorem Spared.removes (hi : Spared env s) (h : removes env s a = some path) (hr : r ∈ s.tasks)
    (hlive : r.status.live = true) : env.weaklyCanonical r.filepath ≠ some path := by
  cases a with
  | enqueueRelease =>
    simp only [Scheduler.removes] at h
    split at h
    · rename_i rel req disposition task hs
      exact (hi.call rel (by rw [hs]; rfl)).keeps h hr hlive
    · cases h
  | release rel =>
    simp only [Scheduler.removes] at h
    split at h
    · rename_i hrel
      exact (hi.releases rel hrel).2.keeps h hr hlive
    · cases h
  | enqueue | enqueueClaim | enqueueRefresh | enqueueRead | enqueueCreate | enqueueReturn | dequeue | dequeueMark
  | dequeueFault | finalize | finished | cancelTask | transition => cases h

/-! ## One step -/

theorem handedBack_decideEnqueue (req : SubmitRequest) (out : Option TaskInfo) :
    (decideEnqueue req out).handedBack = none := by
  cases out with
  | none => rfl
  | some r =>
    simp only [decideEnqueue]
    split <;> rfl

theorem handedBack_of_outside {sched : Sched} (h : sched.outside = true) : sched.handedBack = none := by
  cases sched with
  | idle | dequeuing => rfl
  | looked | creating | refreshed | accepted => cases h

variable {now : Int} {row : TaskRow}

theorem sparesInput_claim (h : sparesInput env s (.enqueueClaim now) = true) (hs : s.sched = .looked req recent)
    (hr : r ∈ s.tasks) (hid : r.taskId = recent.taskId) (hc : r.status.carries = true)
    (hrel : mergeRelease req r.toTaskInfo = some rel) :
    sparesOthers env s.tasks rel = true ∧
      (r.status.live = true → sameInput env rel.filepath r.filepath = false) := by
  simp only [sparesInput, hs, List.all_eq_true] at h
  have hrow := h r hr
  rw [statusIn_iff.mpr ⟨hid, hc⟩, hrel, Bool.not_true, Bool.false_or, Option.all_some, Bool.and_eq_true] at hrow
  obtain ⟨hothers, hown⟩ := hrow
  refine ⟨hothers, fun hlive => ?_⟩
  rw [hlive] at hown
  simpa using hown

theorem sparesInput_refresh (h : sparesInput env s (.enqueueRefresh now) = true) (hs : s.sched = .looked req recent)
    (hr : r ∈ s.tasks) (hid : r.taskId = recent.taskId) (hq : r.status = .queued) :
    (∀ rel, refreshRelease req recent.taskId recent.filepath = some rel →
      sparesOthers env s.tasks rel = true ∧ sameInput env rel.filepath req.filepath = false) ∧
    ∀ rel ∈ s.releases, sameInput env rel.filepath req.filepath = true →
      identityFits env req.filepath r.filepathCanonical = true := by
  simp only [sparesInput, hs, List.all_eq_true] at h
  have hrow := h r hr
  rw [statusIn_iff.mpr ⟨hid, by rw [hq]; rfl⟩, Bool.not_true, Bool.false_or, Bool.and_eq_true] at hrow
  obtain ⟨hown, hpending⟩ := hrow
  constructor
  · intro rel hrel
    rw [hrel] at hown
    simpa using hown
  · intro rel hrel hsame
    by_contra hfits
    rw [Bool.eq_false_of_not_eq_true hfits, Bool.false_or] at hpending
    have hno := List.all_eq_true.mp hpending rel hrel
    rw [hsame] at hno
    cases hno

theorem sparesInput_givesUp (h : sparesInput env s a = true) (hrel : givesUp s a = some rel) :
    sparesOthers env s.tasks rel = true := by
  cases a with
  | finalize | cancelTask =>
    simp only [sparesInput, hrel, Option.all_some] at h
    exact h
  | enqueue | enqueueClaim | enqueueRefresh | enqueueRead | enqueueCreate | enqueueRelease | enqueueReturn | dequeue
  | dequeueMark | dequeueFault | finished | release | transition => cases hrel

theorem Terminal.ne_of_live {taskId : String} (h : Terminal taskId t) (hkey : Keyed (fun r => r.taskId) t) (hr : r ∈ t)
    (hlive : r.status.live = true) : r.taskId ≠ taskId := by
  obtain ⟨r', hr', hid', hdead⟩ := h
  intro hid
  rw [hkey.eq_of_key hr hr' (hid.trans hid'.symm), hdead] at hlive
  cases hlive

theorem harmless_of_terminal (hkey : Keyed (fun r => r.taskId) t') (hrows : Advances t t')
    (hspare : sparesOthers env t rel = true) (hdead : Terminal rel.excludeTaskId t') : Harmless env t' rel :=
  harmless_of_spares hrows hspare fun _ hr hid hlive => absurd hid (hdead.ne_of_live hkey hr hlive)

theorem harmless_merge (hkey : Keyed (fun r => r.taskId) s.tasks)
    (hspare : sparesInput env s (.enqueueClaim now) = true) (hs : s.sched = .looked req recent)
    (hcarries : ∃ r ∈ s.tasks, r.taskId = recent.taskId ∧ r.status.carries = true) (hrows : Advances s.tasks t)
    (hrow : row ∈ t) (hid : row.taskId = recent.taskId) (hrel : mergeRelease req row.toTaskInfo = some rel) :
    Harmless env t rel := by
  obtain ⟨r, hr, hadv⟩ := hrows.mem hrow
  have hid' := hadv.taskId.symm.trans hid
  obtain ⟨r₀, hr₀, hid₀, hc⟩ := hcarries
  rw [hkey.eq_of_key hr₀ hr (hid₀.trans hid'.symm)] at hc
  have hrel' : mergeRelease req r.toTaskInfo = some rel := by
    rw [← hrel, mergeRelease, mergeRelease, hadv.filepath, hadv.taskId]
  have hexclude : rel.excludeTaskId = row.taskId := by
    unfold mergeRelease at hrel
    split at hrel <;> cases hrel
    rfl
  obtain ⟨hothers, hown⟩ := sparesInput_claim hspare hs hr hid' hc hrel'
  refine harmless_of_spares hrows hothers fun r' hr' hid'' hlive => ?_
  rw [(hrows.keyed hkey).eq_of_key hr' hrow (hid''.trans hexclude)] at hlive ⊢
  rw [hadv.filepath]
  exact hown (hadv.live hlive)

theorem mem_refreshed {r' : TaskRow} (hkey : Keyed (fun r => r.taskId) t) (hrow : row ∈ t) (hq : row.status = .queued)
    (h : r' ∈ updateWhere (statusIn row.taskId (· == .queued)) (refreshRow req now) t) :
    r' = refreshRow req now row ∨ r' ∈ t ∧ r'.taskId ≠ row.taskId := by
  obtain ⟨r, hr, rfl⟩ := mem_updateWhere.mp h
  by_cases hid : r.taskId = row.taskId
  · rw [hkey.eq_of_key hr hrow hid, if_pos (statusIn_iff.mpr ⟨rfl, by rw [hq]; rfl⟩)]
    exact .inl rfl
  · rw [if_neg fun hp => hid (statusIn_iff.mp hp).1]
    exact .inr ⟨hr, hid⟩

theorem harmless_superseded (hkey : Keyed (fun r => r.taskId) s.tasks)
    (hspare : sparesInput env s (.enqueueRefresh now) = true) (hs : s.sched = .looked req recent) (hrow : row ∈ s.tasks)
    (hid : row.taskId = recent.taskId) (hq : row.status = .queued)
    (hrel : refreshRelease req recent.taskId recent.filepath = some rel) :
    Harmless env (updateWhere (statusIn recent.taskId (· == .queued)) (refreshRow req now) s.tasks) rel := by
  obtain ⟨hothers, hown⟩ := (sparesInput_refresh hspare hs hrow hid hq).1 rel hrel
  have hexclude : rel.excludeTaskId = row.taskId := by
    unfold refreshRelease at hrel
    split at hrel <;> cases hrel
    exact hid.symm
  intro r' hr' hlive hsame
  rw [← hid] at hr'
  rcases mem_refreshed hkey hrow hq hr' with rfl | ⟨hr, hne⟩
  · rw [show (refreshRow req now row).filepath = req.filepath from rfl, hown] at hsame
    cases hsame
  · have hother := List.all_eq_true.mp hothers r' hr
    rw [hexclude]
    exact ⟨hne, by simpa [overlooked, hexclude, hne, hlive, hsame] using hother⟩

/-- A pending release does not lose the new file of a refresh. -/
theorem Harmless.refreshed (h : Harmless env s.tasks rel) (hkey : Keyed (fun r => r.taskId) s.tasks)
    (hdead : Terminal rel.excludeTaskId s.tasks) (hspare : sparesInput env s (.enqueueRefresh now) = true)
    (hs : s.sched = .looked req recent) (hrow : row ∈ s.tasks) (hid : row.taskId = recent.taskId)
    (hq : row.status = .queued) (hrel : rel ∈ s.releases) :
    Harmless env (updateWhere (statusIn recent.taskId (· == .queued)) (refreshRow req now) s.tasks) rel := by
  intro r' hr' hlive hsame
  rw [← hid] at hr'
  rcases mem_refreshed hkey hrow hq hr' with rfl | ⟨hr, -⟩
  · have hne : row.taskId ≠ rel.excludeTaskId := hdead.ne_of_live hkey hrow (by rw [hq]; rfl)
    exact ⟨hne, (sparesInput_refresh hspare hs hrow hid hq).2 rel hrel hsame⟩
  · exact h r' hr hlive hsame

theorem terminal_refreshed {taskId id : String} (h : Terminal id t) :
    Terminal id (updateWhere (statusIn taskId (· == .queued)) (refreshRow req now) t) := by
  obtain ⟨r, hr, hid, hdead⟩ := h
  have hmem := mem_updateWhere_of_mem (p := statusIn taskId (· == .queued)) (f := refreshRow req now) hr
  rw [if_neg] at hmem
  · exact ⟨r, hmem, hid, hdead⟩
  · intro hp
    rw [beq_iff_eq.mp (statusIn_iff.mp hp).2] at hdead
    cases hdead

/-- A pending release sees the row of a new task: it has another id, and its own identity. -/
theorem Harmless.created (h : Harmless env t rel) (hdead : Terminal rel.excludeTaskId t) {newId : String}
    (hnew : ∀ r ∈ t, r.taskId ≠ (newRow env.weaklyCanonical newId now (requestTask req)).taskId) :
    Terminal rel.excludeTaskId (t ++ [newRow env.weaklyCanonical newId now (requestTask req)]) ∧
      Harmless env (t ++ [newRow env.weaklyCanonical newId now (requestTask req)]) rel := by
  obtain ⟨r, hr, hid, hdead⟩ := hdead
  refine ⟨⟨r, List.mem_append_left _ hr, hid, hdead⟩, fun r' hr' hlive hsame => ?_⟩
  rcases List.mem_append.mp hr' with hr' | hr'
  · exact h r' hr' hlive hsame
  · rw [List.mem_singleton.mp hr', ← hid]
    exact ⟨(hnew r hr).symm, identityFits_canonicalInput _⟩

theorem releases_advances (hrows : Advances t t')
    (h : Terminal rel.excludeTaskId t ∧ Harmless env t rel) : Terminal rel.excludeTaskId t' ∧ Harmless env t' rel :=
  ⟨hrows.terminal h.1, h.2.advances hrows⟩

theorem Spared.step (hi : Spared env s) (hspare : sparesInput env s a = true)
    (h : Scheduler.step env s a = some s') : Spared env s' := by
  have hkey := keyed_of_step hi.keyed h
  have hcall := hi.call
  cases effect_of_step hi.keyed h with
  | looked hidle hlook =>
    refine ⟨hkey, fun rel hrel => ?_, hi.releases⟩
    rw [handedBack_decideEnqueue] at hrel
    cases hrel
  | claimed hsched hhash hcarries hrows hrow hid =>
    refine ⟨hkey, fun rel hrel => ?_, fun rel hrel => releases_advances hrows (hi.releases rel hrel)⟩
    exact harmless_merge hi.keyed hspare hsched hcarries hrows hrow hid hrel
  | fellThrough _ hrows =>
    exact ⟨hkey, (fun _ hrel => by cases hrel), fun rel hrel => releases_advances hrows (hi.releases rel hrel)⟩
  | refreshed hsched hhash hrow hid hq =>
    refine ⟨hkey, fun rel hrel => harmless_superseded hi.keyed hspare hsched hrow hid hq hrel, fun rel hrel => ?_⟩
    obtain ⟨hdead, hharmless⟩ := hi.releases rel hrel
    exact ⟨terminal_refreshed hdead, hharmless.refreshed hi.keyed hdead hspare hsched hrow hid hq hrel⟩
  | read hsched hrow hid =>
    rw [hsched] at hcall
    exact ⟨hkey, hcall, hi.releases⟩
  | created hsched hnew =>
    refine ⟨hkey, (fun _ hrel => by cases hrel), fun rel hrel => ?_⟩
    obtain ⟨hdead, hharmless⟩ := hi.releases rel hrel
    exact hharmless.created hdead hnew
  | released hsched => exact ⟨hkey, (fun _ hrel => by cases hrel), hi.releases⟩
  | quiet hrows hsched hcalls hreleases =>
    refine ⟨hkey, fun rel hrel => ?_, fun rel hrel => ?_⟩
    · rcases hsched with he | hout
      · rw [he] at hrel
        exact (hcall rel hrel).advances hrows
      · rw [handedBack_of_outside hout] at hrel
        cases hrel
    · rcases hreleases rel hrel with hold | ⟨hnew, hdead⟩
      · exact releases_advances hrows (hi.releases rel hold)
      · exact ⟨hdead, harmless_of_terminal hkey hrows (sparesInput_givesUp hspare hnew) hdead⟩

/-! ## Runs -/

theorem Spared.run {tasks : Tasks} {acts : List Act} (hkey : Keyed (fun r => r.taskId) tasks)
    (hspare : Along (Scheduler.step env) (fun s a => sparesInput env s a = true) (State.init tasks) acts)
    (h : Lib.run (Scheduler.step env) (State.init tasks) acts = some s) : Spared env s :=
  run_inv (fun hi hq hstep => hi.step hq hstep) (Spared.init env hkey) hspare h

/-- **Live inputs are kept.** From any table with its primary key, in every run whose steps give no path up while
another live row of its file has a stale identity, and whose claims and refreshes do not give up the file of their own
task, no step removes the file of a live task. -/
theorem live_input_kept (env : Env) (tasks : Tasks) (hkey : Keyed (fun r => r.taskId) tasks) (acts : List Act)
    (s : State) (hrun : run (step env) (State.init tasks) acts = some s)
    (hspare : Along (step env) (fun s a => sparesInput env s a = true) (State.init tasks) acts)
    (a : Act) (path : String) (hremove : removes env s a = some path) :
    ∀ r ∈ s.tasks, r.status.live = true → env.weaklyCanonical r.filepath ≠ some path :=
  fun _ hr hlive => (Spared.run hkey hspare hrun).removes hremove hr hlive

/-- The managed directory `/m` with the inputs `x` and `y`. -/
def tempStore : Env :=
  { weaklyCanonical := some
    parentPath := fun p => if p = "/m/x" ∨ p = "/m/y" then "/m" else "/"
    managedDir := "/m"
    weaklyCanonical_empty := some_empty }

/-- Two documents with the input `x`; one of them is cancelled, and the other one refreshed to `y`. -/
def supersededInput : List Act :=
  [.enqueue (upload "d1" "h1" "/m/x") 5 0 none, .enqueueCreate "a" 1, .enqueueReturn,
   .enqueue (upload "d2" "h1" "/m/x") 5 0 none, .enqueueCreate "b" 2, .enqueueReturn,
   .cancelTask "a" 3, .release ⟨"/m/x", "a"⟩,
   .enqueue (upload "d2" "h2" "/m/y") 5 0 (some (createdTask tempStore "b" 2 (upload "d2" "h1" "/m/x"))),
   .enqueueRefresh 4, .enqueueRead]

theorem live_input_kept_supersededInput : ∃ s, run (step tempStore) (State.init []) supersededInput = some s ∧
    removes tempStore s .enqueueRelease = some "/m/x" ∧
    ∀ r ∈ s.tasks, r.status.live = true → tempStore.weaklyCanonical r.filepath ≠ some "/m/x" := by
  have h : (run (step tempStore) (State.init []) supersededInput).any
      (fun s => removes tempStore s .enqueueRelease == some "/m/x") = true := by
    decide +kernel
  obtain ⟨s, hs, h⟩ := (Option.any_eq_true _ _).mp h
  have hremove := beq_iff_eq.mp h
  exact ⟨s, hs, hremove, live_input_kept tempStore [] Keyed.nil supersededInput s hs (by decide +kernel) _ _ hremove⟩

/-- A task refreshed from input `x` to `y`, and another task with the input `y`, which is cancelled. -/
def refreshedInput : List Act :=
  [.enqueue (upload "d1" "h1" "/m/x") 5 0 none, .enqueueCreate "a" 1, .enqueueReturn,
   .enqueue (upload "d1" "h2" "/m/y") 5 0 (some (createdTask tempStore "a" 1 (upload "d1" "h1" "/m/x"))),
   .enqueueRefresh 2, .enqueueRead, .enqueueRelease, .enqueueReturn,
   .enqueue (upload "d2" "h3" "/m/y") 5 0 none, .enqueueCreate "b" 3, .enqueueReturn,
   .cancelTask "b" 4]

/-- The release of the cancelled task removes the input of the refreshed one, whose identity is still that of `x`. -/
theorem refreshed_input_removed : ¬ ∀ (env : Env) (acts : List Act) (s : State),
    run (step env) (State.init []) acts = some s → ∀ a path, removes env s a = some path →
      ∀ r ∈ s.tasks, r.status.live = true → env.weaklyCanonical r.filepath ≠ some path := by
  intro hall
  have h : (run (step tempStore) (State.init []) refreshedInput).any
      (fun s => removes tempStore s (.release ⟨"/m/y", "b"⟩) == some "/m/y" &&
        s.tasks.any fun r => r.status.live && r.filepath == "/m/y") = true := by
    decide +kernel
  obtain ⟨s, hs, h⟩ := (Option.any_eq_true _ _).mp h
  simp only [Bool.and_eq_true, beq_iff_eq, List.any_eq_true] at h
  obtain ⟨hremove, r, hr, hlive, hpath⟩ := h
  refine hall tempStore refreshedInput s hs _ _ hremove r hr hlive ?_
  rw [hpath]
  rfl

end Cortrix.Async.Scheduler
