import Cortrix.Connector.DirectoryImporter

/-!
# A merged batch against its events

* `docOf p t` : the document of a watched path; `processFile_documents`, `handleFileDeletion_documents` : what the two
  methods do to the documents;
* `CameAndWent types` : the events of a path end in a creation, modifications and a deletion; exactly then the path is
  missing from the merged events (`cameAndWent_concat`);
* `Batch env config events s` : what a batch, the files and the store have to be;
* `Behind env config p s` : the clock was set back, and the row of a new version sorts before the document of the path;
* `merged_batch_iff` : exactly when a path ends with the document its file has.
-/

namespace Cortrix.Connector
open Lib
open Cortrix.Store.Documents (Doc DocStatus live older)

variable {env : Env} {config : Config} {path p : String} {s : State} {t : List CortrixDoc} {d : CortrixDoc}

/-! ## The documents of a path -/

def versionsOf (p : String) (t : List CortrixDoc) : List CortrixDoc := t.filter (CortrixDoc.isVersionOf "watch_dir" p)

def docOf (p : String) (t : List CortrixDoc) : Option CortrixDoc := docFindBySource "watch_dir" p t

theorem docOf_eq (p : String) (t : List CortrixDoc) : docOf p t = (versionsOf p t).foldl newer none := rfl

theorem docOf_congr {t' : List CortrixDoc} (h : versionsOf p t' = versionsOf p t) : docOf p t' = docOf p t := by
  rw [docOf_eq, docOf_eq, h]

theorem docOf_eq_none : docOf p t = none ↔ versionsOf p t = [] := by
  rw [docOf_eq]
  constructor
  · intro h
    rcases List.eq_nil_or_concat (versionsOf p t) with hnil | ⟨l, x, hl⟩
    · exact hnil
    · rw [hl, List.concat_eq_append, List.foldl_append] at h
      have hsome : ∀ best, newer best x ≠ none := by
        intro best hbest
        unfold newer at hbest
        split at hbest
        · cases hbest
        · split at hbest <;> cases hbest
      exact absurd h (hsome _)
  · intro h
    rw [h]
    rfl

theorem isVersionOf_path {sourceType : String} (h : d.isVersionOf sourceType p = true) : d.sourcePath = p := by
  unfold CortrixDoc.isVersionOf at h
  simp only [Bool.and_eq_true, beq_iff_eq] at h
  exact h.1.2

theorem isVersionOf_makeWatchedDocument (path hash : String) :
    (makeWatchedDocument env config path hash).isVersionOf "watch_dir" p = (path == p) := by
  unfold CortrixDoc.isVersionOf makeWatchedDocument live
  simp

theorem versionsOf_append_self (hash : String) :
    versionsOf p (t ++ [makeWatchedDocument env config p hash]) =
      versionsOf p t ++ [makeWatchedDocument env config p hash] := by
  unfold versionsOf
  rw [List.filter_append, List.filter_singleton, isVersionOf_makeWatchedDocument]
  simp

theorem versionsOf_append_other (hash : String) (hne : p ≠ path) :
    versionsOf p (t ++ [makeWatchedDocument env config path hash]) = versionsOf p t := by
  unfold versionsOf
  rw [List.filter_append, List.filter_singleton, isVersionOf_makeWatchedDocument, beq_eq_false_iff_ne.mpr hne.symm]
  exact List.append_nil _

theorem docOf_append_self (hash : String) :
    docOf p (t ++ [makeWatchedDocument env config p hash]) =
      newer (docOf p t) (makeWatchedDocument env config p hash) := by
  rw [docOf_eq, docOf_eq, versionsOf_append_self, List.foldl_append]
  rfl

/-! ## A file -/

structure Readable (env : Env) (p hash : String) (t : List CortrixDoc) : Prop where
  resolves : env.resolvePath p = some p
  hash : env.computeFileHash p = some hash
  fresh : ∀ d ∈ t, d.docId ≠ env.mintId p

theorem docCreate_fresh {hash : String} (hfresh : ∀ d ∈ t, d.docId ≠ env.mintId p) :
    docCreate (makeWatchedDocument env config p hash) t = some (t ++ [makeWatchedDocument env config p hash]) :=
  insertRow_eq_some.mpr ⟨hfresh, rfl⟩

theorem importVersion_documents {hash : String} {existing : CortrixDoc}
    (hfresh : ∀ d ∈ s.documents, d.docId ≠ env.mintId p) :
    (importVersion env config p hash existing s).2.documents =
      s.documents ++ [makeWatchedDocument env config p hash] := by
  unfold importVersion
  dsimp only
  rw [show (s.cancelQueuedVersions config.namespaceName "watch_dir" p).documents = s.documents from rfl,
    docCreate_fresh hfresh]
  rfl

theorem importNew_documents {hash : String} (hfresh : ∀ d ∈ s.documents, d.docId ≠ env.mintId p) :
    (importNew env config p hash s).2.documents = s.documents ++ [makeWatchedDocument env config p hash] := by
  unfold importNew
  dsimp only
  rw [docCreate_fresh hfresh]
  rfl

/-- A file is processed: its document has the hash of the file and stays, or a version of that hash is added. -/
theorem processFile_documents (config : Config) {hash : String} (hacq : env.acquires = true)
    (h : Readable env p hash s.documents) :
    ((processFile env config p s).2.documents = s.documents ∧
        ∃ d, docOf p s.documents = some d ∧ d.contentHash = hash) ∨
      (processFile env config p s).2.documents = s.documents ++ [makeWatchedDocument env config p hash] := by
  unfold processFile
  rw [h.resolves, hacq]
  simp only [Bool.not_true, Bool.false_eq_true, if_false]
  rw [h.hash]
  dsimp only
  split
  · exact .inr (importNew_documents h.fresh)
  · rename_i existing hfind
    split
    · rename_i hsame
      have hdoc : ∃ d, docOf p s.documents = some d ∧ d.contentHash = hash := ⟨existing, hfind, hsame⟩
      unfold importUnchanged
      dsimp only
      split
      · exact .inl ⟨rfl, hdoc⟩
      · split
        · exact .inl ⟨rfl, hdoc⟩
        · split
          · exact .inl ⟨rfl, hdoc⟩
          · exact .inr (importVersion_documents h.fresh)
    · exact .inr (importVersion_documents h.fresh)

/-! ## A deletion -/

theorem docDelete_markVersion_ne_none {first : Bool} (hfind : docFindBySource "watch_dir" path s.documents = some d) :
    (markVersion config path first d s).docDelete d.docId ≠ none := by
  have hmem : setStatus .deleting d ∈ docUpdateStatus d.docId .deleting s.documents := by
    obtain ⟨hd, hver⟩ := docFindBySource_eq_some hfind
    have hlive : live d.toDoc = true := (Bool.and_eq_true_iff.mp hver).2
    refine mem_updateWhere.mpr ⟨d, hd, ?_⟩
    rw [beq_self_eq_true, hlive]
    rfl
  have hpos : changes (fun r : CortrixDoc => r.docId == d.docId) (markVersion config path first d s).documents ≠ 0 := by
    rw [markVersion_documents]
    exact (changes_pos.mpr ⟨_, hmem, beq_self_eq_true d.docId⟩).ne'
  unfold State.docDelete
  rw [if_neg hpos]
  exact Option.some_ne_none _

theorem deleteWhere_version (hkey : Keyed CortrixDoc.key t) (hd : d ∈ t)
    (hver : d.isVersionOf "watch_dir" path = true) :
    deleteWhere (CortrixDoc.isVersionOf "watch_dir" path) (deleteWhere (fun r => r.docId == d.docId) t) =
      deleteWhere (CortrixDoc.isVersionOf "watch_dir" path) t := by
  unfold deleteWhere
  rw [List.filter_filter]
  apply List.filter_congr
  intro r hr
  by_cases hid : r.docId = d.docId
  · rw [hkey.eq_of_key hr hd hid, hver]
    rfl
  · simp [hid]

/-- The version found goes, and then every other version of the path, one after the other. -/
theorem deletionLoop_spec (config : Config) (removed : Nat) {lastRemoved : String}
    (hkey : Keyed CortrixDoc.key s.documents)
    (hlast : ∀ d ∈ s.documents, d.docId ≠ lastRemoved) :
    (deletionLoop config path removed lastRemoved s).2.2.documents =
        deleteWhere (CortrixDoc.isVersionOf "watch_dir" path) s.documents := by
  fun_induction deletionLoop config path removed lastRemoved s
  case case1 removed lastRemoved s hfind =>
    have hnil := docOf_eq_none.mp hfind
    symm
    apply List.filter_eq_self.mpr
    intro d hd
    rw [Bool.not_eq_true', Bool.eq_false_iff]
    exact fun hver => List.filter_eq_nil_iff.mp hnil d hd hver
  case case2 removed s doc hfind =>
    exact absurd rfl (hlast doc (docFindBySource_eq_some hfind).1)
  case case3 removed lastRemoved s doc hfind hne hdel =>
    exact absurd hdel (docDelete_markVersion_ne_none hfind)
  case case4 removed lastRemoved s doc hfind hne s' hdel ih =>
    have hdocs := docDelete_markVersion hdel
    obtain ⟨hmem, hver⟩ := docFindBySource_eq_some hfind
    rw [ih (by rw [hdocs]; exact hkey.deleteWhere) ?_, hdocs]
    · exact deleteWhere_version hkey hmem hver
    · intro r hr
      rw [hdocs] at hr
      exact beq_eq_false_iff_ne.mp (mem_deleteWhere.mp hr).2

theorem handleFileDeletion_documents (hacq : env.acquires = true) (hkey : Keyed CortrixDoc.key s.documents)
    (hminted : ∀ d ∈ s.documents, d.docId ≠ "") :
    (handleFileDeletion env config path s).2.documents =
      deleteWhere (CortrixDoc.isVersionOf "watch_dir" path) s.documents := by
  rw [← deletionLoop_spec config 0 hkey hminted]
  unfold handleFileDeletion
  rw [hacq]
  simp only [Bool.not_true, Bool.false_eq_true, if_false]
  split <;> rfl

theorem versionsOf_deleteWhere_self :
    versionsOf p (deleteWhere (CortrixDoc.isVersionOf "watch_dir" p) t) = [] := by
  unfold versionsOf
  rw [List.filter_eq_nil_iff]
  intro d hd
  rw [(mem_deleteWhere.mp hd).2]
  exact Bool.false_ne_true

theorem versionsOf_deleteWhere_other (hne : p ≠ path) :
    versionsOf p (deleteWhere (CortrixDoc.isVersionOf "watch_dir" path) t) = versionsOf p t := by
  unfold versionsOf deleteWhere
  rw [List.filter_filter]
  apply List.filter_congr
  intro d _
  rw [Bool.and_eq_left_iff_imp]
  intro hver
  rw [Bool.not_eq_true', Bool.eq_false_iff]
  intro hver'
  exact hne ((isVersionOf_path hver).symm.trans (isVersionOf_path hver'))

/-! ## The merged type of a path -/

def mergedType (types : List FileEventType) : Option FileEventType := types.foldl (fun o t => mergeType t o) none

variable (types : List FileEventType) {e : String × FileEventType}

theorem mergedType_concat (x : FileEventType) : mergedType (types ++ [x]) = mergeType x (mergedType types) := by
  unfold mergedType
  rw [List.foldl_append]
  rfl

theorem append_singleton_inj {α : Type} {l l' : List α} {x y : α} (h : l ++ [x] = l' ++ [y]) : l = l' ∧ x = y := by
  obtain ⟨hl, hx⟩ := List.append_inj' h rfl
  exact ⟨hl, List.singleton_inj.mp hx⟩

/-- The last event other than a modification is a creation. -/
def EndsCreated (types : List FileEventType) : Prop :=
  ∃ before n, types = before ++ [.kCreated] ++ List.replicate n .kModified

theorem EndsCreated.concat (x : FileEventType) :
    EndsCreated (types ++ [x]) ↔ x = .kCreated ∨ x = .kModified ∧ EndsCreated types := by
  constructor
  · rintro ⟨before, n, h⟩
    rcases n with - | n
    · rw [List.replicate_zero, List.append_nil] at h
      exact .inl (append_singleton_inj h).2
    · rw [List.replicate_succ', ← List.append_assoc] at h
      obtain ⟨htypes, hx⟩ := append_singleton_inj h
      exact .inr ⟨hx, before, n, htypes⟩
  · rintro (rfl | ⟨rfl, before, n, rfl⟩)
    · exact ⟨types, 0, (List.append_nil _).symm⟩
    · refine ⟨before, n + 1, ?_⟩
      rw [List.replicate_succ', List.append_assoc _ (List.replicate n _) _]

theorem mergedType_eq_created : mergedType types = some .kCreated ↔ EndsCreated types := by
  induction types using List.reverseRecOn with
  | nil =>
    constructor
    · intro h
      cases h
    · rintro ⟨before, n, h⟩
      simp at h
  | append_singleton types x ih =>
    rw [mergedType_concat, EndsCreated.concat, ← ih]
    rcases hm : mergedType types with - | prev
    · cases x <;> simp [mergeType]
    · cases prev <;> cases x <;> simp [mergeType]

theorem mergedType_deleted :
    mergedType (types ++ [.kDeleted]) = if mergedType types = some .kCreated then none else some .kDeleted := by
  rw [mergedType_concat]
  rcases mergedType types with - | prev
  · rfl
  · cases prev <;> rfl

theorem mergedType_changed {x : FileEventType} (hx : x = .kCreated ∨ x = .kModified) :
    mergedType (types ++ [x]) = some .kCreated ∨ mergedType (types ++ [x]) = some .kModified := by
  rw [mergedType_concat]
  rcases hx with rfl | rfl
  · rcases mergedType types with - | prev
    · exact .inl rfl
    · cases prev <;> exact .inl rfl
  · rcases mergedType types with - | prev
    · exact .inr rfl
    · cases prev
      · exact .inl rfl
      all_goals exact .inr rfl

/-- The types of the events of a path end in a creation, modifications, and a deletion. -/
def CameAndWent (types : List FileEventType) : Prop := ∃ before, types = before ++ [.kDeleted] ∧ EndsCreated before

theorem cameAndWent_concat : CameAndWent (types ++ [.kDeleted]) ↔ mergedType (types ++ [.kDeleted]) = none := by
  rw [mergedType_deleted, ite_eq_left_iff, mergedType_eq_created]
  constructor
  · rintro ⟨before, h, hends⟩ hne
    rw [(append_singleton_inj h).1] at hne
    exact absurd hends hne
  · intro h
    refine ⟨types, rfl, ?_⟩
    by_contra hne
    cases h hne

/-! ## A batch -/

def typesOf (config : Config) (events : List FileEvent) (p : String) : List FileEventType :=
  ((events.filter config.takes).filter fun ev => ev.path == p).map FileEvent.type

def pathsOf (config : Config) (events : List FileEvent) : List String := (events.filter config.takes).map FileEvent.path

theorem entry_mergeEvents (events : List FileEvent) (p : String) :
    entry p (mergeEvents config events) = mergedType (typesOf config events p) := by
  unfold mergeEvents mergedType typesOf
  rw [entry_coalesce, List.foldl_map]

theorem typesOf_ne_nil {events : List FileEvent} : typesOf config events p ≠ [] ↔ p ∈ pathsOf config events := by
  unfold typesOf pathsOf
  rw [List.mem_map]
  constructor
  · intro h
    obtain ⟨ty, hty⟩ := List.exists_mem_of_ne_nil _ h
    obtain ⟨ev, hev, -⟩ := List.mem_map.mp hty
    obtain ⟨hmem, hpath⟩ := List.mem_filter.mp hev
    exact ⟨ev, hmem, beq_iff_eq.mp hpath⟩
  · rintro ⟨ev, hmem, hpath⟩
    exact List.ne_nil_of_mem (List.mem_map_of_mem (List.mem_filter.mpr ⟨hmem, beq_iff_eq.mpr hpath⟩))

/-- Events of files that are created, modified and deleted. In the end a path exists exactly if its last event is not a
deletion, and resolves to itself. The namespace can be acquired, and the ids the store draws are new. -/
structure Batch (env : Env) (config : Config) (events : List FileEvent) (s : State) : Prop where
  kinds : ∀ ev ∈ events, ev.type ≠ .kRenamed
  last : ∀ p types x, typesOf config events p = types ++ [x] →
    ((env.computeFileHash p).isSome = true ↔ x ≠ .kDeleted)
  resolves : ∀ p ∈ pathsOf config events, (env.computeFileHash p).isSome = true → env.resolvePath p = some p
  acquires : env.acquires = true
  keyed : Keyed CortrixDoc.key s.documents
  minted : ∀ d ∈ s.documents, d.docId ≠ ""
  fresh : ∀ p ∈ pathsOf config events, env.mintId p ≠ "" ∧ ∀ d ∈ s.documents, d.docId ≠ env.mintId p
  distinct : ∀ p ∈ pathsOf config events, ∀ q ∈ pathsOf config events, env.mintId p = env.mintId q → p = q

/-- The row of a new version sorts before the document of the path, which has another hash. -/
def Behind (env : Env) (config : Config) (p : String) (s : State) : Prop :=
  ∃ d hash, docOf p s.documents = some d ∧ env.computeFileHash p = some hash ∧ d.contentHash ≠ hash ∧
    older d.toDoc (makeWatchedDocument env config p hash).toDoc = false

structure Todo (env : Env) (ks : List String) (t : List CortrixDoc) : Prop where
  keyed : Keyed CortrixDoc.key t
  minted : ∀ d ∈ t, d.docId ≠ ""
  fresh : ∀ p ∈ ks, env.mintId p ≠ "" ∧ ∀ d ∈ t, d.docId ≠ env.mintId p
  distinct : (ks.map env.mintId).Nodup

variable {ks : List String}

theorem Todo.skip (h : Todo env (path :: ks) t) : Todo env ks t :=
  ⟨h.keyed, h.minted, fun q hq => h.fresh q (List.mem_cons_of_mem _ hq), (List.nodup_cons.mp h.distinct).2⟩

theorem Todo.deleteWhere (h : Todo env ks t) (p : CortrixDoc → Bool) : Todo env ks (deleteWhere p t) :=
  ⟨h.keyed.deleteWhere, fun d hd => h.minted d (mem_deleteWhere.mp hd).1,
    fun q hq => ⟨(h.fresh q hq).1, fun d hd => (h.fresh q hq).2 d (mem_deleteWhere.mp hd).1⟩, h.distinct⟩

theorem Todo.append (h : Todo env (path :: ks) t) (hash : String) :
    Todo env ks (t ++ [makeWatchedDocument env config path hash]) := by
  obtain ⟨hid, hfresh⟩ := h.fresh path List.mem_cons_self
  refine ⟨h.keyed.insertRow (docCreate_fresh hfresh), fun d hd => ?_, fun q hq => ?_, h.skip.distinct⟩
  · rcases List.mem_append.mp hd with hold | hnew
    · exact h.minted d hold
    · rw [List.mem_singleton.mp hnew]
      exact hid
  · obtain ⟨hqid, hqfresh⟩ := h.fresh q (List.mem_cons_of_mem _ hq)
    refine ⟨hqid, fun d hd => ?_⟩
    rcases List.mem_append.mp hd with hold | hnew
    · exact hqfresh d hold
    · rw [List.mem_singleton.mp hnew]
      show env.mintId path ≠ env.mintId q
      intro heq
      exact (List.nodup_cons.mp h.distinct).1 (heq ▸ List.mem_map_of_mem hq)

def EntryOk (env : Env) (e : String × FileEventType) : Prop :=
  (e.2 = .kCreated ∨ e.2 = .kModified) ∧ env.resolvePath e.1 = some e.1 ∧ (env.computeFileHash e.1).isSome = true ∨
    e.2 = .kDeleted

theorem processMerged_changed (he : e.2 = .kCreated ∨ e.2 = .kModified) :
    processMerged env config s e = (processFile env config e.1 s).2 := by
  unfold processMerged
  rcases he with he | he <;> rw [he]

theorem processMerged_deleted (he : e.2 = .kDeleted) :
    processMerged env config s e = (handleFileDeletion env config e.1 s).2 := by
  unfold processMerged
  rw [he]

theorem processMerged_local (config : Config) (hacq : env.acquires = true) :
    Local (processMerged env config) (fun p s => versionsOf p s.documents) (fun ks s => Todo env ks s.documents)
      (EntryOk env) := by
  intro e ks s he hnot h
  dsimp only at h ⊢
  rcases he with ⟨htype, hres, hsome⟩ | htype
  · rw [processMerged_changed htype]
    obtain ⟨hash, hhash⟩ := Option.isSome_iff_exists.mp hsome
    have hfresh := (h.fresh e.1 List.mem_cons_self).2
    rcases processFile_documents config hacq ⟨hres, hhash, hfresh⟩ with ⟨hdocs, -⟩ | hdocs
    · rw [hdocs]
      exact ⟨h.skip, fun q _ => rfl⟩
    · rw [hdocs]
      exact ⟨h.append hash, fun q hne => versionsOf_append_other hash hne⟩
  · rw [processMerged_deleted htype, handleFileDeletion_documents hacq h.keyed h.minted]
    exact ⟨h.skip.deleteWhere _, fun q hne => versionsOf_deleteWhere_other hne⟩

variable {events : List FileEvent} {merged : List (String × FileEventType)}

/-- What the last event of a path tells: the path was deleted, or there is a file to process. -/
theorem Batch.last_event (h : Batch env config events s) (hp : p ∈ pathsOf config events) :
    (env.computeFileHash p = none ∧ ∃ types, typesOf config events p = types ++ [.kDeleted]) ∨
      (∃ hash, env.computeFileHash p = some hash) ∧ env.resolvePath p = some p ∧
        (entry p (mergeEvents config events) = some .kCreated ∨ entry p (mergeEvents config events) = some .kModified) := by
  rw [entry_mergeEvents]
  rcases List.eq_nil_or_concat (typesOf config events p) with hnil | ⟨types, x, hx⟩
  · exact absurd hnil (typesOf_ne_nil.mpr hp)
  · rw [List.concat_eq_append] at hx
    have hlast := h.last p types x hx
    have hx' : x = .kDeleted ∨ x = .kCreated ∨ x = .kModified := by
      have hmem : x ∈ typesOf config events p := by
        rw [hx]
        simp
      obtain ⟨ev, hev, rfl⟩ := List.mem_map.mp hmem
      have hkind := h.kinds ev (List.mem_filter.mp (List.mem_filter.mp hev).1).1
      rcases hty : ev.type
      · exact .inr (.inl rfl)
      · exact .inr (.inr rfl)
      · exact .inl rfl
      · exact absurd hty hkind
    rcases hx' with rfl | hchanged
    · left
      refine ⟨?_, types, hx⟩
      rw [← Option.not_isSome_iff_eq_none, hlast]
      exact fun hne => hne rfl
    · right
      have hsome : (env.computeFileHash p).isSome = true := by
        rw [hlast]
        rcases hchanged with rfl | rfl <;> exact fun hne => by cases hne
      refine ⟨Option.isSome_iff_exists.mp hsome, h.resolves p hp hsome, ?_⟩
      rw [hx]
      exact mergedType_changed types hchanged

theorem mem_pathsOf (he : e ∈ mergeEvents config events) : e.1 ∈ pathsOf config events := by
  have hentry := (mem_iff_entry (keyed_coalesce _ _ _)).mp he
  apply typesOf_ne_nil.mp
  intro hnil
  change entry e.1 (mergeEvents config events) = some e.2 at hentry
  rw [entry_mergeEvents, hnil] at hentry
  cases hentry

theorem Batch.entryOk (h : Batch env config events s) (he : e ∈ mergeEvents config events) : EntryOk env e := by
  have hentry : entry e.1 (mergeEvents config events) = some e.2 := (mem_iff_entry (keyed_coalesce _ _ _)).mp he
  rcases h.last_event (mem_pathsOf he) with ⟨-, types, htypes⟩ | ⟨⟨hash, hhash⟩, hres, hchanged⟩
  · right
    rw [entry_mergeEvents, htypes, mergedType_deleted] at hentry
    split at hentry
    · cases hentry
    · exact (Option.some.inj hentry).symm
  · left
    rw [hentry] at hchanged
    refine ⟨hchanged.imp Option.some.inj Option.some.inj, hres, ?_⟩
    rw [hhash]
    rfl

theorem Batch.todo (h : Batch env config events s) (hperm : merged.Perm (mergeEvents config events)) :
    Todo env (merged.map Prod.fst) s.documents := by
  have hpaths : ∀ p ∈ merged.map Prod.fst, p ∈ pathsOf config events := by
    intro p hp
    obtain ⟨e, he, rfl⟩ := List.mem_map.mp hp
    exact mem_pathsOf (hperm.mem_iff.mp he)
  refine ⟨h.keyed, h.minted, fun p hp => h.fresh p (hpaths p hp), ?_⟩
  apply List.Nodup.map_on
  · intro p hp q hq heq
    exact h.distinct p (hpaths p hp) q (hpaths q hq) heq
  · exact (hperm.map Prod.fst).nodup_iff.mpr (keyed_coalesce _ _ _)

theorem Behind.not_of_none (h : docOf p s.documents = none) : ¬ Behind env config p s := by
  rintro ⟨d, hash, hd, -⟩
  rw [h] at hd
  cases hd

/-- A file was processed after merged events that left its path alone. -/
theorem processed_iff {s₁ : State} {hash : String} (hacq : env.acquires = true)
    (hread : Readable env p hash s₁.documents) (hsame : versionsOf p s₁.documents = versionsOf p s.documents)
    {t' : List CortrixDoc} (hend : versionsOf p t' = versionsOf p (processFile env config p s₁).2.documents) :
    (docOf p t').map CortrixDoc.contentHash = some hash ↔ ¬ Behind env config p s := by
  have hdoc := docOf_congr hsame
  rw [docOf_congr hend]
  rcases processFile_documents config hacq hread with ⟨hdocs, d, hd, hhash⟩ | hdocs
  · rw [hdocs, hd]
    refine iff_of_true (congrArg some hhash) ?_
    rintro ⟨d', hash', hd', hhash', hne, -⟩
    rw [← hdoc, hd] at hd'
    cases hd'
    rw [hread.hash] at hhash'
    exact hne (hhash.trans (Option.some.inj hhash'))
  · rw [hdocs, docOf_append_self, hdoc]
    rcases hd : docOf p s.documents with - | d
    · exact iff_of_true rfl (Behind.not_of_none hd)
    · unfold newer
      dsimp only
      split
      · rename_i holder
        refine iff_of_true rfl ?_
        rintro ⟨d', hash', hd', hhash', -, hnot⟩
        rw [hd] at hd'
        cases hd'
        rw [hread.hash] at hhash'
        cases hhash'
        rw [holder] at hnot
        cases hnot
      · rename_i holder
        rw [Option.map_some, Option.some.injEq]
        constructor
        · rintro hhash ⟨d', hash', hd', hhash', hne, -⟩
          rw [hd] at hd'
          cases hd'
          rw [hread.hash] at hhash'
          exact hne (hhash.trans (Option.some.inj hhash'))
        · intro hnot
          by_contra hne
          exact hnot ⟨d, hash, hd, hread.hash, hne, Bool.eq_false_iff.mpr holder⟩

/-- A path was deleted before merged events that leave it alone. -/
theorem deleted_iff (hacq : env.acquires = true) (hok : ∀ e ∈ merged, EntryOk env e) (hkeyed : Keyed Prod.fst merged)
    (htodo : Todo env (merged.map Prod.fst) s.documents) {types : List FileEventType}
    (hmem : ∀ ty, (p, ty) ∈ merged ↔ mergedType (types ++ [.kDeleted]) = some ty) :
    docOf p (handleFileEvents env config merged s).documents = none ↔
      ¬ (CameAndWent (types ++ [.kDeleted]) ∧ docOf p s.documents ≠ none) := by
  have hlocal := processMerged_local config hacq
  rw [cameAndWent_concat]
  unfold handleFileEvents
  rcases hm : mergedType (types ++ [.kDeleted]) with - | ty
  · have hnot : p ∉ merged.map Prod.fst := by
      intro hin
      obtain ⟨⟨q, ty⟩, he, rfl⟩ := List.mem_map.mp hin
      rw [(hmem ty).mp he] at hm
      cases hm
    rw [docOf_congr (hlocal.foldl_other hok hkeyed htodo hnot), not_and_not_right]
    exact ⟨fun hdoc _ => hdoc, fun hdoc => hdoc hm⟩
  · have hty : ty = .kDeleted := by
      rw [mergedType_deleted] at hm
      split at hm
      · cases hm
      · exact (Option.some.inj hm).symm
    subst hty
    obtain ⟨ks, s₁, htodo₁, -, hend⟩ := hlocal.foldl_self hok hkeyed htodo ((hmem .kDeleted).mpr hm)
    refine iff_of_true ?_ fun hboth => ?_
    swap
    · rw [hboth.1] at hm
      cases hm
    rw [docOf_eq_none, hend, processMerged_deleted rfl,
      handleFileDeletion_documents hacq htodo₁.keyed htodo₁.minted]
    exact versionsOf_deleteWhere_self

/-- For every batch, whatever the store holds and in whatever order the merged events are worked off: a path has in the
end a live document exactly if the file exists, and with its hash, if and only if the path did not come and go while it
had a document, and a new version of it is not behind the document it had. -/
theorem merged_batch_iff (h : Batch env config events s) (hperm : merged.Perm (mergeEvents config events))
    (hp : p ∈ pathsOf config events) :
    (docOf p (handleFileEvents env config merged s).documents).map CortrixDoc.contentHash = env.computeFileHash p ↔
      ¬ (CameAndWent (typesOf config events p) ∧ docOf p s.documents ≠ none) ∧ ¬ Behind env config p s := by
  have hok : ∀ e ∈ merged, EntryOk env e := fun e he => h.entryOk (hperm.mem_iff.mp he)
  have hkeyed : Keyed Prod.fst merged := (hperm.map Prod.fst).nodup_iff.mpr (keyed_coalesce _ _ _)
  have htodo := h.todo hperm
  have hmem : ∀ ty, (p, ty) ∈ merged ↔ mergedType (typesOf config events p) = some ty := by
    intro ty
    rw [hperm.mem_iff, ← entry_mergeEvents]
    exact mem_iff_entry (keyed_coalesce _ _ _)
  rcases h.last_event hp with ⟨hnone, types, htypes⟩ | ⟨⟨hash, hhash⟩, hres, hchanged⟩
  · have hbehind : ¬ Behind env config p s := by
      rintro ⟨d, hash, -, hhash, -⟩
      rw [hnone] at hhash
      cases hhash
    rw [hnone, Option.map_eq_none_iff, and_iff_left hbehind]
    rw [htypes] at hmem ⊢
    exact deleted_iff h.acquires hok hkeyed htodo hmem
  · rw [entry_mergeEvents] at hchanged
    have hcame : ¬ CameAndWent (typesOf config events p) := by
      rintro ⟨before, hbefore, hends⟩
      have hnone := (cameAndWent_concat before).mp ⟨before, rfl, hends⟩
      rw [hbefore, hnone] at hchanged
      rcases hchanged with hc | hc <;> cases hc
    rw [hhash, and_iff_right fun hboth => hcame hboth.1]
    obtain ⟨ty, hty, hentry⟩ : ∃ ty, (ty = FileEventType.kCreated ∨ ty = .kModified) ∧ (p, ty) ∈ merged := by
      rcases hchanged with hc | hc
      · exact ⟨_, .inl rfl, (hmem _).mpr hc⟩
      · exact ⟨_, .inr rfl, (hmem _).mpr hc⟩
    obtain ⟨ks, s₁, htodo₁, hsame, hend⟩ :=
      (processMerged_local config h.acquires).foldl_self hok hkeyed htodo hentry
    rw [processMerged_changed hty] at hend
    exact processed_iff h.acquires ⟨hres, hhash, (htodo₁.fresh p List.mem_cons_self).2⟩ hsame hend

/-! ## A batch on an imported file -/

def filesWith (hash : Option String) : Env where
  resolvePath := some
  computeFileHash path := if path = "/w/a.md" then hash else none
  getFileSize _ := 0
  detectMimeType _ := "text/markdown"
  getBasename _ := "a.md"
  acquires := true
  hasActiveTask _ _ := false
  mintId _ := "d2"
  createdAt _ := "2026-01-02T00:00:00.000Z"

def watchAll : Config := ⟨"/w", "ns", fun _ => true⟩

/-- `/w/a.md` was imported with the hash `h1`. -/
def imported : State where
  documents :=
    [{ docId := "d1", sourceType := "watch_dir", sourcePath := "/w/a.md", status := .ready, errorMessage := "",
       createdAt := "2026-01-01T00:00:00.000Z", deletedAt := none, deletedFromStatus := none, contentHash := "h1" }]

def eventsOf (types : List FileEventType) : List FileEvent := types.map fun type => ⟨type, "/w/a.md", false⟩

theorem typesOf_eventsOf (p : String) : typesOf watchAll (eventsOf types) p = if p = "/w/a.md" then types else [] := by
  unfold typesOf eventsOf
  induction types with
  | nil => split <;> rfl
  | cons ty types ih =>
    rw [List.map_cons, List.filter_cons_of_pos rfl, List.filter_cons]
    by_cases hp : p = "/w/a.md"
    · rw [if_pos hp] at ih ⊢
      rw [if_pos (beq_iff_eq.mpr hp.symm), List.map_cons, ih]
    · rw [if_neg hp] at ih ⊢
      rw [if_neg (fun hne => hp (beq_iff_eq.mp hne).symm), ih]

theorem batch_imported (hash : Option String) (types : List FileEventType) (x : FileEventType)
    (hren : FileEventType.kRenamed ∉ types ++ [x]) (hlast : hash.isSome = true ↔ x ≠ .kDeleted) :
    Batch (filesWith hash) watchAll (eventsOf (types ++ [x])) imported := by
  have hpath : ∀ p ∈ pathsOf watchAll (eventsOf (types ++ [x])), p = "/w/a.md" := by
    intro p hp
    obtain ⟨ev, hev, rfl⟩ := List.mem_map.mp hp
    obtain ⟨ty, -, rfl⟩ := List.mem_map.mp (List.mem_filter.mp hev).1
    rfl
  refine ⟨?_, ?_, fun _ _ _ => rfl, rfl, by decide, by decide, fun _ _ => ⟨show "d2" ≠ "" by decide, ?_⟩, ?_⟩
  · intro ev hev hty
    obtain ⟨ty, hmem, rfl⟩ := List.mem_map.mp hev
    exact hren (hty ▸ hmem)
  · intro p types' y hty
    rw [typesOf_eventsOf] at hty
    split at hty
    · rename_i hp
      rw [hp, ← (append_singleton_inj hty).2]
      exact hlast
    · exact absurd hty.symm (by simp)
  · show ∀ d ∈ imported.documents, d.docId ≠ "d2"
    decide
  · intro p hp q hq _
    rw [hpath p hp, hpath q hq]

/-- The file is replaced: deleted and created, and then written. -/
theorem merged_batch_iff_replaced :
    (docOf "/w/a.md" (handleFileEvents (filesWith (some "h2")) watchAll [("/w/a.md", .kCreated)]
      imported).documents).map CortrixDoc.contentHash = some "h2" := by
  have hbatch := batch_imported (some "h2") [.kDeleted, .kCreated] .kModified (by decide) (by decide)
  refine (merged_batch_iff hbatch (.refl _) (by decide)).mpr ⟨?_, ?_⟩
  · rintro ⟨⟨before, hbefore, -⟩, -⟩
    rw [typesOf_eventsOf, if_pos rfl] at hbefore
    cases (append_singleton_inj hbefore).2
  · rintro ⟨d, hash, hd, -, -, hnot⟩
    cases hd
    exact absurd hnot (show older _ (Doc.mk "d2" _ _ _ _ "2026-01-02T00:00:00.000Z" _ _) ≠ false by decide)

/-- The imported file is deleted, comes back and is deleted again in one batch, and its document stays. -/
theorem deleted_file_stays :
    Batch (filesWith none) watchAll (eventsOf [.kDeleted, .kCreated, .kDeleted]) imported ∧
      mergeEvents watchAll (eventsOf [.kDeleted, .kCreated, .kDeleted]) = [] ∧
      (filesWith none).computeFileHash "/w/a.md" = none ∧
      (docOf "/w/a.md" (handleFileEvents (filesWith none) watchAll [] imported).documents).map
        CortrixDoc.contentHash = some "h1" :=
  ⟨batch_imported _ [.kDeleted, .kCreated] _ (by decide) (by decide), by decide, rfl, by decide⟩

end Cortrix.Connector
