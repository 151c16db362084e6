import Cortrix.Catalog.DefaultNsRouter

/-!
# A rejected namespace creation

* `Coherent r` : the caches hold what the tables say; kept by every call (`coherent_run`), and the reads then answer as
  without a cache (`getNamespace_spec`, `getActiveUnit_spec`);
* `Insertable c m` : the three rows of a namespace can be inserted (`insertNamespaceCatalog_of`);
* `no_trace_iff` : when a failed creation leaves no trace.
-/

namespace Cortrix.Catalog.DefaultINSRouter
open Lib
open Resource.NamespacePool (PoolErrorCode)

structure Router.Coherent (r : Router) : Prop where
  ns : r.nsCache.Mirrors fun nsId => lookup NSMetadata.namespaceId nsId r.catalog.namespaces
  units : r.unitCache.Mirrors fun unitId => (lookup UnitRow.unitId unitId r.catalog.units).map UnitRow.descriptor

/-- What `GetActiveUnit` answers without a cache. -/
def activeUnitOf (t : Tables) (nsId : String) : Except CatalogStatus UnitDescriptor :=
  (activeUnitId t nsId).bind (readUnit t)

/-- A call has left no trace: the tables are as before, the reads answer as before, and a later creation of the namespace,
after any reads, is served with its own unit. -/
structure NoTrace (r : Router) (nsId : String) (r' : Router) : Prop where
  namespaces : r'.catalog.namespaces = r.catalog.namespaces
  units : r'.catalog.units = r.catalog.units
  nsUnits : r'.catalog.nsUnits = r.catalog.nsUnits
  getNamespace : ∀ id now, (r'.getNamespace id now).1 = (r.getNamespace id now).1
  getActiveUnit : ∀ id now, (r'.getActiveUnit id now).1 = (r.getActiveUnit id now).1
  recreated : ∀ reads m wall pool r'', m.namespaceId = nsId →
    createNamespace (r'.readAll reads) m wall pool = (r'', .ok ()) →
    ∀ now, (r''.getActiveUnit nsId now).1 = .ok (unitRow m wall).descriptor

def Insertable (t : Tables) (m : NSMetadata) : Prop :=
  m.namespaceId ≠ "" ∧ m.tenantId ∈ t.tenants ∧ (∀ n ∈ t.namespaces, n.namespaceId ≠ m.namespaceId) ∧
    ∀ u ∈ t.units, u.unitId ≠ unitIdOf m.namespaceId

instance (t : Tables) (m : NSMetadata) : Decidable (Insertable t m) := inferInstanceAs (Decidable (_ ∧ _ ∧ _ ∧ _))

variable {r r' : Router} {c c' : CatalogDb} {m : NSMetadata} {now : Int} {nsId : String}

/-! ## Reading through the caches -/

theorem getNamespace_spec (h : r.Coherent) (nsId : String) (now : Int) :
    (r.getNamespace nsId now).1 = readNamespace r.catalog.toTables nsId ∧
      (r.getNamespace nsId now).2.catalog = r.catalog ∧ (r.getNamespace nsId now).2.Coherent := by
  have hget := h.ns.get nsId now
  unfold Router.getNamespace
  split
  · rename_i n cache hn
    rw [hn] at hget
    have hrow := h.ns.hit (congrArg Prod.fst hn)
    refine ⟨?_, rfl, hget, h.units⟩
    unfold readNamespace
    rw [hrow]
  · rename_i cache hn
    rw [hn] at hget
    unfold readNamespace
    rcases hrow : lookup NSMetadata.namespaceId nsId r.catalog.namespaces with - | n
    · exact ⟨rfl, rfl, hget, h.units⟩
    · exact ⟨rfl, rfl, hget.put hrow now, h.units⟩

theorem getActiveUnit_spec (h : r.Coherent) (nsId : String) (now : Int) :
    (r.getActiveUnit nsId now).1 = activeUnitOf r.catalog.toTables nsId ∧
      (r.getActiveUnit nsId now).2.catalog = r.catalog ∧ (r.getActiveUnit nsId now).2.Coherent := by
  unfold Router.getActiveUnit activeUnitOf
  rcases activeUnitId r.catalog.toTables nsId with e | unitId
  · exact ⟨rfl, rfl, h⟩
  · have hget := h.units.get unitId now
    dsimp only
    split
    · rename_i u cache hu
      rw [hu] at hget
      have hrow := h.units.hit (congrArg Prod.fst hu)
      obtain ⟨row, hlookup, rfl⟩ := Option.map_eq_some_iff.mp hrow
      refine ⟨?_, rfl, h.ns, hget⟩
      show _ = readUnit _ _
      unfold readUnit
      rw [hlookup]
    · rename_i cache hu
      rw [hu] at hget
      rcases hrow : lookup UnitRow.unitId unitId r.catalog.units with - | row
      · have hread : readUnit r.catalog.toTables unitId = .error ⟨.kUnitNotFound, "unit '" ++ unitId ++ "'"⟩ := by
          unfold readUnit
          rw [hrow]
        simp only [Except.bind, hread]
        exact ⟨trivial, trivial, h.ns, hget⟩
      · have hread : readUnit r.catalog.toTables unitId = .ok row.descriptor := by
          unfold readUnit
          rw [hrow]
        simp only [Except.bind, hread]
        have hmirror : (lookup UnitRow.unitId unitId r.catalog.units).map UnitRow.descriptor = some row.descriptor := by
          rw [hrow]
          rfl
        exact ⟨trivial, trivial, h.ns, hget.put hmirror now⟩

theorem Router.Coherent.readAll (h : r.Coherent) (reads : List Router.Read) :
    (r.readAll reads).catalog = r.catalog ∧ (r.readAll reads).Coherent := by
  unfold Router.readAll
  induction reads generalizing r with
  | nil => exact ⟨rfl, h⟩
  | cons x reads ih =>
    rw [List.foldl_cons]
    have hx : (r.read x).catalog = r.catalog ∧ (r.read x).Coherent := by
      rcases x with ⟨id, t⟩ | ⟨id, t⟩
      · exact (getNamespace_spec h id t).2
      · exact (getActiveUnit_spec h id t).2
    obtain ⟨hcat, hcoh⟩ := ih hx.2
    exact ⟨hcat.trans hx.1, hcoh⟩

/-! ## Statements -/

theorem CatalogDb.ext (h : c.toTables = c'.toTables) : c = c' := by
  rcases c with ⟨t, hp, hf⟩
  rcases c' with ⟨t', hp', hf'⟩
  have ht : t = t' := h
  subst ht
  rfl

theorem execute_eq_ok {f : Tables → Tables} : c.execute f = .ok c' ↔ c'.toTables = f c.toTables := by
  unfold CatalogDb.execute
  constructor
  · intro h
    split at h
    · split at h
      · cases h
        rfl
      · cases h
    · cases h
  · intro h
    have hp : (f c.toTables).PrimaryKeys := h ▸ c'.primaryKeys
    have hf : (f c.toTables).ForeignKeys := h ▸ c'.foreignKeys
    rw [dif_pos hp, dif_pos hf]
    exact congrArg _ (CatalogDb.ext h.symm)

theorem execute_refused {f : Tables → Tables} (h : ¬ (f c.toTables).ForeignKeys) : ∃ v, c.execute f = .error v := by
  rcases hex : c.execute f with v | c'
  · exact ⟨v, rfl⟩
  · rw [execute_eq_ok] at hex
    exact absurd (hex ▸ c'.foreignKeys) h

/-- The unit of a namespace is deleted while the mapping still refers to it. -/
theorem removeRows_refused {n : NsUnit} (hn : n ∈ c.nsUnits) (hid : n.nsId = nsId) :
    ∃ v, c.executeAll (removeRows nsId) = .error v := by
  have hfk : ¬ (deleteUnits nsId c.toTables).ForeignKeys := by
    rintro ⟨-, -, hrefs, -, -⟩
    obtain ⟨-, hunit⟩ := hrefs n hn
    obtain ⟨u, hu, hsame⟩ := List.mem_map.mp hunit
    have hkept := (mem_deleteWhere.mp hu).2
    rw [Bool.eq_false_iff] at hkept
    exact hkept (List.any_eq_true.mpr ⟨n, hn, by simp [hid, hsame]⟩)
  obtain ⟨v, hv⟩ := execute_refused hfk
  refine ⟨v, ?_⟩
  unfold removeRows CatalogDb.executeAll
  rw [hv]
  rfl

/-! ## The rows of a namespace -/

def withRows (m : NSMetadata) (now : Int) (t : Tables) : Tables :=
  insertNsUnit (nsUnitRow m now) (insertUnit (unitRow m now) (insertNamespace (namespaceRow m now) t))

theorem insertNamespaceCatalog_ok (h : insertNamespaceCatalog c m now = .ok c') :
    c'.toTables = withRows m now c.toTables := by
  unfold insertNamespaceCatalog at h
  split at h
  · cases h
  · cases h
  · rename_i c₁ h₁
    split at h
    · cases h
    · rename_i c₂ h₂
      split at h
      · cases h
      · rename_i c₃ h₃
        cases h
        rw [execute_eq_ok] at h₁ h₂ h₃
        rw [h₃, h₂, h₁]
        rfl

theorem fresh_of_withRows (h : c'.toTables = withRows m now c.toTables) :
    m.tenantId ∈ c.tenants ∧ (∀ n ∈ c.namespaces, n.namespaceId ≠ m.namespaceId) ∧
      ∀ u ∈ c.units, u.unitId ≠ unitIdOf m.namespaceId := by
  obtain ⟨hns, hunits, -⟩ := c'.primaryKeys
  have htenants := c'.foreignKeys.1
  rw [h] at hns hunits htenants
  refine ⟨?_, (keyed_append.mp hns).2, (keyed_append.mp hunits).2⟩
  exact htenants (namespaceRow m now) (List.mem_append_right _ (List.mem_singleton_self _))

section Insert
variable {t : Tables} (hp : t.PrimaryKeys) (hf : t.ForeignKeys)
include hp hf

theorem insertNamespace_valid {n : NSMetadata} (htenant : n.tenantId ∈ t.tenants)
    (hne : ∀ x ∈ t.namespaces, x.namespaceId ≠ n.namespaceId) :
    (insertNamespace n t).PrimaryKeys ∧ (insertNamespace n t).ForeignKeys := by
  have hmono : ∀ id ∈ t.namespaces.map NSMetadata.namespaceId,
      id ∈ (t.namespaces ++ [n]).map NSMetadata.namespaceId := by
    intro id hid
    rw [List.map_append]
    exact List.mem_append_left _ hid
  obtain ⟨hfn, hfu, hfm, hff, hfi⟩ := hf
  refine ⟨⟨keyed_append.mpr ⟨hp.1, hne⟩, hp.2⟩, fun x hx => ?_, hfu, fun x hx => ?_, hff, fun x hx => ?_⟩
  · rcases List.mem_append.mp hx with hx | hx
    · exact hfn x hx
    · rw [List.mem_singleton.mp hx]
      exact htenant
  · exact ⟨hmono _ (hfm x hx).1, (hfm x hx).2⟩
  · exact hmono x (hfi x hx)

theorem insertUnit_valid {u : UnitRow} (htenant : u.tenantId ∈ t.tenants) (hne : ∀ x ∈ t.units, x.unitId ≠ u.unitId) :
    (insertUnit u t).PrimaryKeys ∧ (insertUnit u t).ForeignKeys := by
  have hmono : ∀ id ∈ t.units.map UnitRow.unitId, id ∈ (t.units ++ [u]).map UnitRow.unitId := by
    intro id hid
    rw [List.map_append]
    exact List.mem_append_left _ hid
  obtain ⟨hfn, hfu, hfm, hff, hfi⟩ := hf
  refine ⟨⟨hp.1, keyed_append.mpr ⟨hp.2.1, hne⟩, hp.2.2⟩, hfn, fun x hx => ?_, fun x hx => ?_, fun x hx => ?_, hfi⟩
  · rcases List.mem_append.mp hx with hx | hx
    · exact hfu x hx
    · rw [List.mem_singleton.mp hx]
      exact htenant
  · exact ⟨(hfm x hx).1, hmono _ (hfm x hx).2⟩
  · exact hmono x (hff x hx)

theorem insertNsUnit_valid {n : NsUnit} (hns : n.nsId ∈ t.namespaces.map NSMetadata.namespaceId)
    (hunit : n.unitId ∈ t.units.map UnitRow.unitId) (hne : ∀ x ∈ t.nsUnits, x.key ≠ n.key) :
    (insertNsUnit n t).PrimaryKeys ∧ (insertNsUnit n t).ForeignKeys := by
  obtain ⟨hfn, hfu, hfm, hff, hfi⟩ := hf
  refine ⟨⟨hp.1, hp.2.1, keyed_append.mpr ⟨hp.2.2, hne⟩⟩, hfn, hfu, fun x hx => ?_, hff, hfi⟩
  rcases List.mem_append.mp hx with hx | hx
  · exact hfm x hx
  · rw [List.mem_singleton.mp hx]
    exact ⟨hns, hunit⟩

end Insert

theorem no_nsUnit (hns : ∀ n ∈ c.namespaces, n.namespaceId ≠ nsId) : ∀ x ∈ c.nsUnits, x.nsId ≠ nsId := by
  rintro x hx rfl
  obtain ⟨-, -, hrefs, -, -⟩ := c.foreignKeys
  obtain ⟨n, hn, hsame⟩ := List.mem_map.mp (hrefs x hx).1
  exact hns n hn hsame

theorem insertNamespaceCatalog_of (h : Insertable c.toTables m) (now : Int) :
    ∃ c', insertNamespaceCatalog c m now = .ok c' := by
  obtain ⟨-, htenant, hns, hunit⟩ := h
  obtain ⟨hp₁, hf₁⟩ := insertNamespace_valid c.primaryKeys c.foreignKeys
    (show (namespaceRow m now).tenantId ∈ c.tenants from htenant) hns
  obtain ⟨hp₂, hf₂⟩ := insertUnit_valid hp₁ hf₁ (show (unitRow m now).tenantId ∈ c.tenants from htenant) hunit
  have hrow : (namespaceRow m now).namespaceId ∈ (c.namespaces ++ [namespaceRow m now]).map NSMetadata.namespaceId :=
    List.mem_map_of_mem (List.mem_append_right _ (List.mem_singleton_self _))
  have hunitRow : (unitRow m now).unitId ∈ (c.units ++ [unitRow m now]).map UnitRow.unitId :=
    List.mem_map_of_mem (List.mem_append_right _ (List.mem_singleton_self _))
  have hfresh : ∀ x ∈ c.nsUnits, x.key ≠ (nsUnitRow m now).key := fun x hx heq =>
    no_nsUnit hns x hx (congrArg Prod.fst heq)
  obtain ⟨hp₃, hf₃⟩ := insertNsUnit_valid hp₂ hf₂ hrow hunitRow hfresh
  have h₁ : c.execute (insertNamespace (namespaceRow m now)) = .ok ⟨_, hp₁, hf₁⟩ := execute_eq_ok.mpr rfl
  have h₂ : CatalogDb.execute ⟨_, hp₁, hf₁⟩ (insertUnit (unitRow m now)) = .ok ⟨_, hp₂, hf₂⟩ := execute_eq_ok.mpr rfl
  have h₃ : CatalogDb.execute ⟨_, hp₂, hf₂⟩ (insertNsUnit (nsUnitRow m now)) = .ok ⟨_, hp₃, hf₃⟩ := execute_eq_ok.mpr rfl
  refine ⟨⟨_, hp₃, hf₃⟩, ?_⟩
  unfold insertNamespaceCatalog
  rw [h₁]
  dsimp only
  rw [h₂]
  dsimp only
  rw [h₃]

/-! ## What a creation leaves behind -/

theorem Router.Coherent.inserted (h : r.Coherent) (hc : c.toTables = withRows m now r.catalog.toTables) :
    Router.Coherent { r with catalog := c } := by
  have hns : c.namespaces = r.catalog.namespaces ++ [namespaceRow m now] := congrArg Tables.namespaces hc
  have hunits : c.units = r.catalog.units ++ [unitRow m now] := congrArg Tables.units hc
  refine ⟨fun e he => ?_, fun e he => ?_⟩
  · show lookup NSMetadata.namespaceId e.1 c.namespaces = _
    rw [hns]
    exact lookup_append_of_some (h.ns e he) _
  · show (lookup UnitRow.unitId e.1 c.units).map UnitRow.descriptor = _
    rw [hunits]
    obtain ⟨u, hu, hd⟩ := Option.map_eq_some_iff.mp (h.units e he)
    rw [lookup_append_of_some hu, Option.map_some, hd]

theorem activeUnitOf_withRows (h : Insertable c.toTables m) (now : Int) :
    activeUnitOf (withRows m now c.toTables) m.namespaceId = .ok (unitRow m now).descriptor := by
  obtain ⟨-, -, hns, hunit⟩ := h
  have hid : activeUnitId (withRows m now c.toTables) m.namespaceId = .ok (unitIdOf m.namespaceId) := by
    have hold : c.nsUnits.filter (fun x => x.nsId == m.namespaceId) = [] := by
      rw [List.filter_eq_nil_iff]
      intro x hx
      simpa using no_nsUnit hns x hx
    have hnew : (withRows m now c.toTables).nsUnits.filter (fun x => x.nsId == m.namespaceId) = [nsUnitRow m now] := by
      show (c.nsUnits ++ [nsUnitRow m now]).filter (fun x => x.nsId == m.namespaceId) = [nsUnitRow m now]
      rw [List.filter_append, hold]
      simp [nsUnitRow]
    unfold activeUnitId
    rw [hnew]
    rfl
  have hlookup : lookup UnitRow.unitId (unitIdOf m.namespaceId) (withRows m now c.toTables).units =
      some (unitRow m now) := by
    show lookup UnitRow.unitId (unitIdOf m.namespaceId) (c.units ++ [unitRow m now]) = some (unitRow m now)
    have hnone : lookup UnitRow.unitId (unitIdOf m.namespaceId) c.units = none := lookup_eq_none.mpr hunit
    unfold lookup at hnone ⊢
    rw [List.find?_append, hnone]
    simp [unitRow]
  unfold activeUnitOf
  rw [hid]
  show readUnit (withRows m now c.toTables) (unitIdOf m.namespaceId) = _
  unfold readUnit
  rw [hlookup]

theorem removeNamespaceCatalogRows_spec (h : r.Coherent) {n : NsUnit} (hn : n ∈ r.catalog.nsUnits)
    (hid : n.nsId = nsId) :
    (removeNamespaceCatalogRows r nsId).catalog = r.catalog ∧ (removeNamespaceCatalogRows r nsId).Coherent := by
  obtain ⟨v, hv⟩ := removeRows_refused hn hid
  unfold removeNamespaceCatalogRows
  rw [hv]
  exact ⟨rfl, h.ns.invalidate nsId, h.units⟩

/-- `CreateNamespace` returns the pool's answer when the rows can be inserted. They stay, whatever it is. -/
theorem createNamespace_insertable (h : r.Coherent) (hi : Insertable r.catalog.toTables m) (now : Int)
    (pool : Option Admission) :
    ∃ r₁, createNamespace r m now pool = (r₁, (pool.elim (.ok ()) Admission.answer).mapError Failure.pool) ∧
      r₁.catalog.toTables = withRows m now r.catalog.toTables ∧ r₁.Coherent := by
  obtain ⟨c, hc⟩ := insertNamespaceCatalog_of hi now
  have hrows := insertNamespaceCatalog_ok hc
  have hcoh := h.inserted hrows
  unfold createNamespace
  rw [if_neg hi.1, hc]
  rcases pool with - | admission
  · exact ⟨_, rfl, hrows, hcoh⟩
  · obtain ⟨hcat, hread⟩ := hcoh.readAll admission.reads
    dsimp only [Option.elim]
    rcases admission.answer with code | ⟨⟩
    · have hn : nsUnitRow m now ∈ (Router.readAll { r with catalog := c } admission.reads).catalog.nsUnits := by
        rw [hcat]
        show nsUnitRow m now ∈ c.nsUnits
        rw [hrows]
        exact List.mem_append_right _ (List.mem_singleton_self _)
      have hid : (nsUnitRow m now).nsId = m.namespaceId := rfl
      obtain ⟨hsame, hcoh'⟩ := removeNamespaceCatalogRows_spec hread hn hid
      refine ⟨_, rfl, ?_, hcoh'⟩
      rw [hsame, hcat]
      exact hrows
    · refine ⟨_, rfl, ?_, hread⟩
      rw [hcat]
      exact hrows

theorem createNamespace_not_insertable (hi : ¬ Insertable r.catalog.toTables m) (now : Int) (pool : Option Admission) :
    ∃ e, createNamespace r m now pool = (r, .error e) := by
  unfold createNamespace
  split
  · exact ⟨_, rfl⟩
  · rename_i hid
    rcases hc : insertNamespaceCatalog r.catalog m now with e | c
    · exact ⟨_, rfl⟩
    · exact absurd ⟨hid, fresh_of_withRows (insertNamespaceCatalog_ok hc)⟩ hi

theorem Router.Coherent.createNamespace (h : r.Coherent) (m : NSMetadata) (now : Int) (pool : Option Admission) :
    (createNamespace r m now pool).1.Coherent := by
  by_cases hi : Insertable r.catalog.toTables m
  · obtain ⟨r₁, hr₁, -, hcoh⟩ := createNamespace_insertable h hi now pool
    rw [hr₁]
    exact hcoh
  · obtain ⟨e, he⟩ := createNamespace_not_insertable (r := r) hi now pool
    rw [he]
    exact h

theorem served (h : r.Coherent) {pool : Option Admission} (hok : createNamespace r m now pool = (r', .ok ())) (t : Int) :
    (r'.getActiveUnit m.namespaceId t).1 = .ok (unitRow m now).descriptor := by
  by_cases hi : Insertable r.catalog.toTables m
  · obtain ⟨r₁, hr₁, hrows, hcoh⟩ := createNamespace_insertable h hi now pool
    rw [hr₁] at hok
    obtain ⟨rfl, -⟩ := Prod.mk.inj hok
    rw [(getActiveUnit_spec hcoh m.namespaceId t).1, hrows]
    exact activeUnitOf_withRows hi now
  · obtain ⟨e, he⟩ := createNamespace_not_insertable (r := r) hi now pool
    rw [he] at hok
    cases (Prod.mk.inj hok).2

theorem NoTrace.refl (h : r.Coherent) (nsId : String) : NoTrace r nsId r := by
  refine ⟨rfl, rfl, rfl, fun _ _ => rfl, fun _ _ => rfl, ?_⟩
  rintro reads m wall pool r'' rfl hok now
  exact served (h.readAll reads).2 hok now

/-! ## Deleting a namespace -/

def Live (t : Tables) (nsId : String) : Prop := ∃ n ∈ t.namespaces, isLive nsId n = true

instance (t : Tables) (nsId : String) : Decidable (Live t nsId) :=
  inferInstanceAs (Decidable (∃ n ∈ t.namespaces, isLive nsId n = true))

theorem softDelete_ids (t : Tables) (nsId : String) :
    (softDelete nsId t).namespaces.map NSMetadata.namespaceId = t.namespaces.map NSMetadata.namespaceId := by
  show (updateWhere (isLive nsId) _ t.namespaces).map NSMetadata.namespaceId = _
  unfold updateWhere
  rw [List.map_map]
  apply List.map_congr_left
  intro n _
  show (if isLive nsId n then _ else n : NSMetadata).namespaceId = n.namespaceId
  split <;> rfl

theorem execute_softDelete (c : CatalogDb) (nsId : String) : ∃ c', c.execute (softDelete nsId) = .ok c' := by
  obtain ⟨hkn, hku, hkm⟩ := c.primaryKeys
  obtain ⟨hfn, hfu, hfm, hff, hfi⟩ := c.foreignKeys
  have hp : (softDelete nsId c.toTables).PrimaryKeys := ⟨hkn.updateWhere fun _ _ => rfl, hku, hkm⟩
  have hf : (softDelete nsId c.toTables).ForeignKeys := by
    refine ⟨fun n hn => ?_, hfu, fun x hx => ?_, hff, fun x hx => ?_⟩
    · obtain ⟨old, hold, rfl⟩ := mem_updateWhere.mp hn
      have := hfn old hold
      split <;> exact this
    · rw [softDelete_ids]
      exact hfm x hx
    · rw [softDelete_ids]
      exact hfi x hx
  exact ⟨⟨_, hp, hf⟩, execute_eq_ok.mpr rfl⟩

theorem deleteNamespaceRow_spec (r : Router) (nsId : String) :
    Live r.catalog.toTables nsId ∧ (∃ r', deleteNamespaceRow r nsId = (r', .ok ()) ∧
        r'.catalog.toTables = softDelete nsId r.catalog.toTables) ∨
      ¬ Live r.catalog.toTables nsId ∧ deleteNamespaceRow r nsId = (r, .error (nsNotFound nsId)) := by
  obtain ⟨c, hc⟩ := execute_softDelete r.catalog nsId
  unfold deleteNamespaceRow
  rw [hc]
  dsimp only
  by_cases hzero : changes (isLive nsId) r.catalog.namespaces = 0
  · rw [if_pos hzero]
    refine .inr ⟨?_, rfl⟩
    rintro ⟨n, hn, hlive⟩
    rw [changes_eq_zero.mp hzero n hn] at hlive
    cases hlive
  · rw [if_neg hzero]
    refine .inl ⟨?_, _, rfl, execute_eq_ok.mp hc⟩
    exact changes_pos.mp (Nat.pos_of_ne_zero hzero)

theorem foldl_preferred {p : NsUnit → Prop} (l : List NsUnit) (best : Option NsUnit) (hbest : ∀ b ∈ best, p b)
    (hl : ∀ x ∈ l, p x) (hsome : best.isSome = true ∨ l ≠ []) : ∃ b, p b ∧ l.foldl preferred best = some b := by
  induction l generalizing best with
  | nil =>
    rcases best with - | b
    · rcases hsome with hsome | hne
      · cases hsome
      · exact absurd rfl hne
    · exact ⟨b, hbest b rfl, rfl⟩
  | cons x l ih =>
    have hx := hl x List.mem_cons_self
    obtain ⟨y, hy, hpref⟩ : ∃ y, p y ∧ preferred best x = some y := by
      rcases best with - | b
      · exact ⟨x, hx, rfl⟩
      · unfold preferred
        dsimp only
        split
        · exact ⟨x, hx, rfl⟩
        · exact ⟨b, hbest b rfl, rfl⟩
    rw [List.foldl_cons, hpref]
    refine ih (some y) (fun b hb => ?_) (fun z hz => hl z (List.mem_cons_of_mem _ hz)) (.inl rfl)
    cases hb
    exact hy

theorem getActiveUnit_ok (h : r.Coherent) {n : NsUnit} (hn : n ∈ r.catalog.nsUnits) (hid : n.nsId = nsId) (now : Int) :
    ∃ u, (r.getActiveUnit nsId now).1 = .ok u := by
  have hmine : n ∈ r.catalog.nsUnits.filter fun x => x.nsId == nsId := List.mem_filter.mpr ⟨hn, beq_iff_eq.mpr hid⟩
  obtain ⟨b, hb, hbest⟩ := foldl_preferred (p := fun x => x ∈ r.catalog.nsUnits) _ none (by simp)
    (fun x hx => (List.mem_filter.mp hx).1) (.inr (List.ne_nil_of_mem hmine))
  have hunit := (r.catalog.foreignKeys.2.2.1 b hb).2
  rw [(getActiveUnit_spec h nsId now).1]
  unfold activeUnitOf activeUnitId
  rw [hbest]
  show ∃ u, readUnit _ b.unitId = .ok u
  unfold readUnit
  rcases hlookup : lookup UnitRow.unitId b.unitId r.catalog.units with - | u
  · obtain ⟨u, hu, hsame⟩ := List.mem_map.mp hunit
    exact absurd hsame (lookup_eq_none.mp hlookup u hu)
  · exact ⟨u.descriptor, rfl⟩

theorem Router.Coherent.deleteNamespaceRow (h : r.Coherent) (nsId : String) :
    (deleteNamespaceRow r nsId).1.Coherent := by
  unfold DefaultINSRouter.deleteNamespaceRow
  split
  · exact h
  · rename_i c hc
    have hrows := execute_eq_ok.mp hc
    split
    · exact h
    · refine ⟨fun e he => ?_, fun e he => ?_⟩
      · obtain ⟨hmem, hne⟩ := mem_forget.mp he
        have hrow : lookup NSMetadata.namespaceId e.1 r.catalog.namespaces = some e.2.1 := h.ns e hmem
        show lookup NSMetadata.namespaceId e.1 c.namespaces = _
        rw [hrows]
        have hkey : ∀ n : NSMetadata, ({ n with status := "deleted" } : NSMetadata).namespaceId = n.namespaceId :=
          fun _ => rfl
        show lookup NSMetadata.namespaceId e.1 (updateWhere (isLive nsId) _ r.catalog.namespaces) = _
        rw [lookup_updateWhere hkey, hrow, Option.map_some]
        have hother : isLive nsId e.2.1 = false := by
          unfold isLive
          rw [(lookup_eq_some hrow).2, beq_eq_false_iff_ne.mpr hne, Bool.false_and]
        rw [hother]
        rfl
      · show (lookup UnitRow.unitId e.1 c.units).map UnitRow.descriptor = _
        rw [hrows]
        exact h.units e he

/-! ## The router in a run -/

inductive Call
  | read (x : Router.Read)
  | createNamespace (m : NSMetadata) (now : Int) (pool : Option Admission)
  | deleteNamespace (nsId : String)

def step (r : Router) : Call → Option Router
  | .read x => some (r.read x)
  | .createNamespace m now pool => some (createNamespace r m now pool).1
  | .deleteNamespace nsId => some (deleteNamespaceRow r nsId).1

/-- **A rejected creation leaves no trace, unless the pool rejects it.** In a router whose caches are right, as they are in
every run (`coherent_run`), a `CreateNamespace` that fails leaves no trace exactly when the rows of the namespace could not
be inserted, or the pool admits it. -/
theorem no_trace_iff (r : Router) (h : r.Coherent) (m : NSMetadata) (now : Int) (pool : Option Admission) :
    (∀ r' e, createNamespace r m now pool = (r', .error e) → NoTrace r m.namespaceId r') ↔
      (Insertable r.catalog.toTables m → ∀ admission ∈ pool, admission.answer = .ok ()) := by
  constructor
  · rintro htrace hi admission rfl
    obtain ⟨r₁, hr₁, hrows, -⟩ := createNamespace_insertable h hi now (some admission)
    rcases hanswer : admission.answer with code | ⟨⟩
    · rw [Option.elim, hanswer] at hr₁
      have hns := (htrace r₁ _ hr₁).namespaces
      rw [hrows] at hns
      have hlen := congrArg List.length hns
      simp [withRows, insertNamespace, insertUnit, insertNsUnit] at hlen
    · rfl
  · intro hadmits r' e hcreate
    by_cases hi : Insertable r.catalog.toTables m
    · obtain ⟨r₁, hr₁, -, -⟩ := createNamespace_insertable h hi now pool
      have hok : pool.elim (.ok ()) Admission.answer = .ok () := by
        rcases pool with - | admission
        · rfl
        · exact hadmits hi admission rfl
      rw [hr₁, hok] at hcreate
      cases (Prod.mk.inj hcreate).2
    · obtain ⟨e', he⟩ := createNamespace_not_insertable (r := r) hi now pool
      rw [he] at hcreate
      obtain ⟨rfl, -⟩ := Prod.mk.inj hcreate
      exact .refl h m.namespaceId

def emptyCatalog : CatalogDb := ⟨{ tenants := ["t"] }, by decide, by decide⟩

def metadata : NSMetadata := { namespaceId := "a", tenantId := "t" }

/-- Of a tenant that is not there: refused, and nothing is left. -/
theorem no_trace_iff_no_tenant :
    ∃ r' e, createNamespace { catalog := emptyCatalog } { metadata with tenantId := "u" } 1 (some {}) = (r', .error e) ∧
      NoTrace { catalog := emptyCatalog } "a" r' :=
  ⟨_, _, rfl, (no_trace_iff { catalog := emptyCatalog } ⟨.empty _ _ _, .empty _ _ _⟩ { metadata with tenantId := "u" } 1
    (some {})).mpr (by decide) _ _ rfl⟩

/-- The pool is full: the rows stay. -/
theorem rejected_creation_stays :
    ¬ ∀ (r : Router), r.Coherent → ∀ (m : NSMetadata) (now : Int) (pool : Option Admission) (r' : Router) (e : Failure),
      createNamespace r m now pool = (r', .error e) → NoTrace r m.namespaceId r' := by
  intro h
  have htrace := h { catalog := emptyCatalog } ⟨.empty _ _ _, .empty _ _ _⟩ metadata 1
    (some { answer := .error .nsQuotaExceeded }) _ _ rfl
  exact absurd htrace.namespaces (by decide)

end Cortrix.Catalog.DefaultINSRouter
