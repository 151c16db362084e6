import Mathlib.Data.List.TakeWhile
import Cortrix.Memory.MemoryExtractor

/-!
# Every extracted memory is kept, every invalidation has a living cause
-/

namespace Cortrix.Memory
open Lib Metadata

namespace MemoryExtractor

variable {cfg : Config} {env : Env} {userId : String} {i : Nat} {m m' : ExtractedMemory} {t t' t'' : Store}

def Store.ids (t : Store) : List String := t.rows.map Block.blockId

variable {id : String} {r' r : Block} {j : Nat} {c : ContradictionPair} {replies : Nat → Reply} {n : Nat}
  {cs : List ContradictionPair}

theorem Store.mem_ids : id ∈ t.ids ↔ ∃ r ∈ t.rows, r.blockId = id := List.mem_map

/-! ## Texts as they are bound -/

theorem toList_cText (s : String) : (cText s).toList = s.toList.takeWhile (· ≠ '\x00') := by
  unfold cText
  rw [String.toList_ofList]

theorem nul_notMem_cText (s : String) : '\x00' ∉ (cText s).toList := by
  rw [toList_cText]
  intro h
  have hp := List.mem_takeWhile_imp h
  simp at hp

theorem cText_of_notMem {s : String} (h : '\x00' ∉ s.toList) : cText s = s := by
  unfold cText
  have htake : s.toList.takeWhile (fun c => decide (c ≠ '\x00')) = s.toList := by
    rw [List.takeWhile_eq_self_iff]
    intro c hc
    rw [decide_eq_true_eq]
    rintro rfl
    exact h hc
  rw [htake, String.ofList_toList]

theorem getD_bindContent (s : String) : (bindContent s).getD "" = cText s := by
  unfold bindContent
  split
  · rename_i h
    rw [h]
    rfl
  · rfl

/-! ## One statement -/

theorem insertMemoryBlock_eq_some {block : Block} (h : insertMemoryBlock block t = some t') :
    (∀ r ∈ t.rows, r.blockId ≠ block.blockId) ∧ t'.rows = t.rows ++ [block] := by
  unfold insertMemoryBlock at h
  split at h
  · rename_i hne
    cases h
    exact ⟨hne, rfl⟩
  · cases h

theorem mem_updateMemoryBlock {md : Metadata} :
    r' ∈ (updateMemoryBlock id md t).rows ↔
      ∃ r ∈ t.rows, (if r.blockId = id then { r with metadata := md } else r) = r' := by
  unfold updateMemoryBlock
  rw [mem_updateWhere]
  simp only [beq_iff_eq]

theorem getMemoryBlock_of_mem (h : r ∈ t.rows) : getMemoryBlock r.blockId t = some r :=
  t.keyed.lookup_of_mem h

theorem getMemoryBlock_eq_some (h : getMemoryBlock id t = some r) :
    r ∈ t.rows ∧ r.blockId = id := lookup_eq_some h

theorem ids_updateMemoryBlock (id : String) (md : Metadata) (t : Store) : (updateMemoryBlock id md t).ids = t.ids := by
  unfold Store.ids updateMemoryBlock updateWhere
  rw [List.map_map]
  apply List.map_congr_left
  intro r _
  dsimp only [Function.comp]
  split <;> rfl

/-! ## The block of a memory -/

theorem status_newBlock : (newBlock cfg env userId i m).status = "active" := by
  simp [Block.status, newBlock, jsonStr, getKey, lookup]

theorem memoryType_newBlock : (newBlock cfg env userId i m).memoryType = m.type.toText := by
  simp [Block.memoryType, newBlock, jsonStr, getKey, lookup]

theorem userId_newBlock : (newBlock cfg env userId i m).userId = userId := by
  simp [Block.userId, newBlock, jsonStr, getKey, lookup]

/-! ## One memory of the batch -/

/-- A row of a preference as its upgrade leaves it. -/
def Block.upgrade (cfg : Config) (env : Env) (r : Block) : Block := { r with metadata := upgraded cfg env r.metadata }

theorem memoryType_upgrade (r : Block) : (r.upgrade cfg env).memoryType = r.memoryType := by
  unfold Block.upgrade Block.memoryType upgraded
  rw [jsonStr_setKey_ne (by decide), jsonStr_setKey_ne (by decide), jsonStr_setKey_ne (by decide)]

theorem status_upgrade (r : Block) : (r.upgrade cfg env).status = "active" := by
  unfold Block.upgrade Block.status upgraded
  rw [jsonStr_setKey]

theorem mentionCount_upgraded (md : Metadata) :
    mentionCount (upgraded cfg env md) = toInt (mentionCount md + 1) := by
  simp [upgraded, mentionCount, getKey_setKey]

def counted (count : Int) (j : Nat) : Int := if j = 0 then count else toInt (count + j)

theorem counted_zero (count : Int) : counted count 0 = count := rfl

theorem counted_succ (count : Int) (j : Nat) : counted count (j + 1) = toInt (counted count j + 1) := by
  unfold counted
  rw [if_neg (Nat.succ_ne_zero j)]
  push_cast
  split
  · rename_i hzero
    rw [hzero]
    simp
  · rw [toInt_toInt_add, Int.add_assoc]

theorem counted_add (count : Int) (j k : Nat) : counted (counted count j) k = counted count (j + k) := by
  induction k with
  | zero => rfl
  | succ k ih => rw [counted_succ, ih, ← Nat.add_assoc, counted_succ]

theorem counted_of_fits {count : Int} (hlow : -2 ^ 31 ≤ count + 1) (hhigh : count + j < 2 ^ 31) :
    counted count j = count + j := by
  unfold counted
  split
  · rename_i hzero
    rw [hzero, Int.natCast_zero, Int.add_zero]
  · exact toInt_of_fits (by omega) hhigh

/-- An active preference of that text. -/
def Block.Repeats (r : Block) (content : String) : Prop :=
  r.status = "active" ∧ r.memoryType = "preference" ∧ r.contentText = some (cText content)

instance (r : Block) (content : String) : Decidable (r.Repeats content) :=
  inferInstanceAs (Decidable (_ ∧ _ ∧ _))

theorem findMatchingPreference_eq_some {content : String} (h : findMatchingPreference env i content t = some r) :
    r ∈ t.rows ∧ r.Repeats content := by
  unfold findMatchingPreference at h
  split at h
  · have hp := List.find?_some h
    simp only [Bool.and_eq_true, beq_iff_eq] at hp
    exact ⟨(env.scan_perm t.rows).mem_iff.mp (List.mem_of_find?_eq_some h), hp.1.1, hp.1.2, hp.2⟩
  · cases h

theorem upgrade_eq_some (h : upgrade cfg env i m t = some t') :
    m.type = .kPreference ∧ ∃ r ∈ t.rows, r.Repeats m.content ∧
      t' = updateMemoryBlock r.blockId (upgraded cfg env r.metadata) t := by
  unfold upgrade at h
  split at h
  · rename_i hpref
    refine ⟨hpref, ?_⟩
    unfold maybeUpgradePreference at h
    split at h
    · cases h
    · rename_i found hfound
      obtain ⟨hmem, hrep⟩ := findMatchingPreference_eq_some hfound
      split at h
      · cases h
      · rename_i block hblock
        split at hblock
        · obtain rfl := Option.some.inj ((getMemoryBlock_of_mem hmem).symm.trans hblock)
          split at h
          · exact ⟨found, hmem, hrep, (Option.some.inj h).symm⟩
          · cases h
        · cases hblock
  · cases h

theorem writeMemory_cases (h : writeMemory cfg env userId i m t = some (m', t')) :
    (m' = m ∧ upgrade cfg env i m t = some t') ∨
    (m' = { m with blockId := env.ulid i } ∧ upgrade cfg env i m t = none ∧
      (∀ r ∈ t.rows, r.blockId ≠ env.ulid i) ∧ t'.rows = t.rows ++ [newBlock cfg env userId i m]) := by
  unfold writeMemory at h
  split at h
  · rename_i up hup
    cases h
    exact .inl ⟨rfl, hup⟩
  · rename_i hup
    rw [Option.map_eq_some_iff] at h
    obtain ⟨t₁, hins, hpair⟩ := h
    cases hpair
    split at hins
    · obtain ⟨hne, hrows⟩ := insertMemoryBlock_eq_some hins
      exact .inr ⟨rfl, hup, hne, hrows⟩
    · cases hins

/-! ## What a batch does to the store -/

/-- The preferences of the batch that have the text of the block. -/
def Block.mentions (r : Block) (ms : List ExtractedMemory) : Nat :=
  ms.countP fun m => decide (m.type = .kPreference ∧ r.contentText = some (cText m.content))

theorem mentions_append (r : Block) (ms ms' : List ExtractedMemory) :
    r.mentions (ms ++ ms') = r.mentions ms + r.mentions ms' := List.countP_append

theorem mentions_singleton (hpref : m.type = .kPreference) (htext : r.contentText = some (cText m.content)) :
    r.mentions [m] = 1 := by
  unfold Block.mentions
  rw [List.countP_singleton, if_pos (decide_eq_true ⟨hpref, htext⟩)]

theorem mentions_singleton_of_ne (htext : r.contentText ≠ some (cText m.content)) : r.mentions [m] = 0 := by
  unfold Block.mentions
  rw [List.countP_singleton, if_neg]
  intro h
  exact htext (of_decide_eq_true h).2

theorem mentions_congr (h : r'.contentText = r.contentText) (ms : List ExtractedMemory) :
    r'.mentions ms = r.mentions ms := by
  unfold Block.mentions
  rw [h]

/-- A row and what the batch `ms` makes of it. -/
structure Block.Becomes (ms : List ExtractedMemory) (r r' : Block) : Prop where
  id : r'.blockId = r.blockId
  text : r'.contentText = r.contentText
  type : r'.memoryType = r.memoryType
  status : r'.status = r.status
  count : ∃ j ≤ r.mentions ms, mentionCount r'.metadata = counted (mentionCount r.metadata) j
  key : (getKey "mention_count" r.metadata).isSome = true → (getKey "mention_count" r'.metadata).isSome = true
  same : r.memoryType ≠ "preference" → r' = r

theorem Block.Becomes.refl (ms : List ExtractedMemory) (r : Block) : r.Becomes ms r :=
  ⟨rfl, rfl, rfl, rfl, ⟨0, Nat.zero_le _, rfl⟩, fun h => h, fun _ => rfl⟩

theorem Block.Becomes.trans {ms ms' : List ExtractedMemory} {r'' : Block} (h : r.Becomes ms r')
    (h' : r'.Becomes ms' r'') : r.Becomes (ms ++ ms') r'' where
  id := h'.id.trans h.id
  text := h'.text.trans h.text
  type := h'.type.trans h.type
  status := h'.status.trans h.status
  count := by
    obtain ⟨j, hj, hcount⟩ := h.count
    obtain ⟨k, hk, hcount'⟩ := h'.count
    rw [mentions_congr h.text] at hk
    refine ⟨j + k, ?_, ?_⟩
    · rw [mentions_append]
      exact Nat.add_le_add hj hk
    · rw [hcount', hcount, counted_add]
  key := fun hkey => h'.key (h.key hkey)
  same := fun hne => by
    obtain rfl := h.same hne
    exact h'.same hne

/-- The store after the memories `ms` : the old rows, and new ones for some of the memories. -/
structure Grown (env : Env) (ms : List ExtractedMemory) (t t' : Store) : Prop where
  old : ∀ r ∈ t.rows, ∃ r' ∈ t'.rows, r.Becomes ms r'
  new : ∀ r' ∈ t'.rows, (∃ r ∈ t.rows, r.Becomes ms r') ∨
    r'.blockId ∉ t.ids ∧ (∃ i, r'.blockId = env.ulid i) ∧ ∃ m ∈ ms, r'.contentText = bindContent m.content

theorem Grown.refl (ms : List ExtractedMemory) (t : Store) : Grown env ms t t where
  old := fun r hr => ⟨r, hr, .refl ms r⟩
  new := fun r hr => .inl ⟨r, hr, .refl ms r⟩

theorem Grown.ids {ms : List ExtractedMemory} (h : Grown env ms t t') (hid : id ∈ t.ids) : id ∈ t'.ids := by
  obtain ⟨r, hr, rfl⟩ := Store.mem_ids.mp hid
  obtain ⟨r', hr', hb⟩ := h.old r hr
  exact Store.mem_ids.mpr ⟨r', hr', hb.id⟩

theorem Grown.trans {ms ms' : List ExtractedMemory} (h : Grown env ms t t') (h' : Grown env ms' t' t'') :
    Grown env (ms ++ ms') t t'' where
  old := fun r hr => by
    obtain ⟨r', hr', hb⟩ := h.old r hr
    obtain ⟨r'', hr'', hb'⟩ := h'.old r' hr'
    exact ⟨r'', hr'', hb.trans hb'⟩
  new := fun r'' hr'' => by
    rcases h'.new r'' hr'' with ⟨r', hr', hb'⟩ | ⟨hid, hulid, m, hm, htext⟩
    · rcases h.new r' hr' with ⟨r, hr, hb⟩ | ⟨hid, hulid, m, hm, htext⟩
      · exact .inl ⟨r, hr, hb.trans hb'⟩
      · exact .inr ⟨hb'.id ▸ hid, hb'.id ▸ hulid, m, List.mem_append_left _ hm, hb'.text.trans htext⟩
    · exact .inr ⟨fun hold => hid (h.ids hold), hulid, m, List.mem_append_right _ hm, htext⟩

theorem Grown.becomes {ms : List ExtractedMemory} (h : Grown env ms t t') (hr : r ∈ t.rows) (hr' : r' ∈ t'.rows)
    (hid : r'.blockId = r.blockId) : r.Becomes ms r' := by
  obtain ⟨r'', hr'', hb⟩ := h.old r hr
  rw [t'.keyed.eq_of_key hr' hr'' (hid.trans hb.id.symm)]
  exact hb

theorem Grown.writeMemory (h : writeMemory cfg env userId i m t = some (m', t')) : Grown env [m] t t' := by
  rcases writeMemory_cases h with ⟨-, hupgrade⟩ | ⟨-, -, hne, hrows⟩
  · obtain ⟨hpref, r, hr, hrep, rfl⟩ := upgrade_eq_some hupgrade
    have hup : r.Becomes [m] (r.upgrade cfg env) :=
      { id := rfl
        text := rfl
        type := memoryType_upgrade r
        status := (status_upgrade r).trans hrep.1.symm
        count := ⟨1, by rw [mentions_singleton hpref hrep.2.2], mentionCount_upgraded r.metadata⟩
        key := fun _ => by simp [Block.upgrade, upgraded, getKey_setKey]
        same := fun hne => absurd hrep.2.1 hne }
    have hstep : ∀ x ∈ t.rows, x.Becomes [m]
        (if x.blockId = r.blockId then { x with metadata := upgraded cfg env r.metadata } else x) := by
      intro x hx
      split
      · rename_i hid
        obtain rfl := t.keyed.eq_of_key hx hr hid
        exact hup
      · exact .refl [m] x
    exact
      { old := fun x hx => ⟨_, mem_updateMemoryBlock.mpr ⟨x, hx, rfl⟩, hstep x hx⟩
        new := fun x' hx' => by
          obtain ⟨x, hx, rfl⟩ := mem_updateMemoryBlock.mp hx'
          exact .inl ⟨x, hx, hstep x hx⟩ }
  · exact
      { old := fun r hr => ⟨r, by rw [hrows]; exact List.mem_append_left _ hr, .refl [m] r⟩
        new := fun r hr => by
          rw [hrows, List.mem_append, List.mem_singleton] at hr
          rcases hr with hr | rfl
          · exact .inl ⟨r, hr, .refl [m] r⟩
          · refine .inr ⟨fun hid => ?_, ⟨i, rfl⟩, m, List.mem_singleton_self m, rfl⟩
            obtain ⟨r, hr, hid⟩ := Store.mem_ids.mp hid
            exact hne r hr hid }

/-- The store of a batch that went through or was cut short. -/
def batchStore : Except Store (List ExtractedMemory × Store) → Store
  | .ok (_, t) => t
  | .error t => t

theorem Grown.writeMemories (ms : List ExtractedMemory) (i : Nat) (t : Store) :
    Grown env ms t (batchStore (writeMemories cfg env userId i ms t)) := by
  induction ms generalizing i t with
  | nil => exact .refl [] t
  | cons m rest ih =>
    unfold MemoryExtractor.writeMemories
    split
    · exact .refl _ t
    · rename_i m' t₁ hstep
      have hrest := (Grown.writeMemory hstep).trans (ih (i + 1) t₁)
      split <;> rename_i heq <;> rw [heq] at hrest <;> exact hrest

theorem writeMemories_cons {ms done : List ExtractedMemory} :
    writeMemories cfg env userId i (m :: ms) t = .ok (done, t'') ↔
      ∃ m' t' done', writeMemory cfg env userId i m t = some (m', t') ∧
        writeMemories cfg env userId (i + 1) ms t' = .ok (done', t'') ∧ done = m' :: done' := by
  constructor
  · intro h
    unfold writeMemories at h
    split at h
    · cases h
    · rename_i m' t' hstep
      split at h
      · cases h
      · rename_i done' t₂ hrest
        cases h
        exact ⟨m', t', done', hstep, hrest, rfl⟩
  · rintro ⟨m', t', done', hstep, hrest, rfl⟩
    unfold writeMemories
    rw [hstep]
    dsimp only
    rw [hrest]

theorem writeMemories_split {pre post done : List ExtractedMemory}
    (h : writeMemories cfg env userId i (pre ++ m :: post) t = .ok (done, t')) :
    ∃ done₁ before m' after done₂, writeMemories cfg env userId i pre t = .ok (done₁, before) ∧
      writeMemory cfg env userId (i + pre.length) m before = some (m', after) ∧
      writeMemories cfg env userId (i + pre.length + 1) post after = .ok (done₂, t') ∧ done = done₁ ++ m' :: done₂ := by
  induction pre generalizing i t done with
  | nil =>
    obtain ⟨m', t₁, done₂, hstep, hrest, rfl⟩ := writeMemories_cons.mp h
    exact ⟨[], t, m', t₁, done₂, rfl, hstep, hrest, rfl⟩
  | cons x pre ih =>
    obtain ⟨x', t₁, done₂, hstep, hrest, rfl⟩ := writeMemories_cons.mp h
    obtain ⟨done₁, before, m', after, done₂, hpre, hm, hpost, rfl⟩ := ih hrest
    have hlen : i + 1 + pre.length = i + (x :: pre).length := by
      rw [List.length_cons]
      omega
    rw [hlen] at hm hpost
    exact ⟨x' :: done₁, before, m', after, done₂, writeMemories_cons.mpr ⟨x', t₁, done₁, hstep, hpre, rfl⟩, hm, hpost, rfl⟩

/-! ## Contradictions -/

theorem judgePair_eq_some {nm : ExtractedMemory} {cand : CandidateBlock} {reply : Reply}
    (h : judgePair nm cand reply = some c) : c.newContent = nm.content ∧ c.oldBlockId = cand.blockId := by
  unfold judgePair at h
  split at h
  · split at h
    · cases h
      exact ⟨rfl, rfl⟩
    · cases h
  · cases h

theorem mem_judgeCandidates {nm : ExtractedMemory} {cands : List CandidateBlock}
    (h : c ∈ judgeCandidates replies nm n cands) :
    ∃ cand ∈ cands, c.newContent = nm.content ∧ c.oldBlockId = cand.blockId := by
  induction cands generalizing n with
  | nil => cases h
  | cons cand cands ih =>
    unfold judgeCandidates at h
    rcases List.mem_append.mp h with h | h
    · exact ⟨cand, List.mem_cons_self, judgePair_eq_some (Option.mem_toList.mp h)⟩
    · obtain ⟨cand', hmem, hc⟩ := ih h
      exact ⟨cand', List.mem_cons_of_mem _ hmem, hc⟩

theorem mem_judgeCandidates_of_mem {nm : ExtractedMemory} {cands : List CandidateBlock} {cand : CandidateBlock}
    (h : ∀ k, n ≤ k → judgePair nm cand (replies k) = some c) (hc : cand ∈ cands) :
    c ∈ judgeCandidates replies nm n cands := by
  induction cands generalizing n with
  | nil => cases hc
  | cons x cands ih =>
    unfold judgeCandidates
    rw [List.mem_append]
    rcases List.mem_cons.mp hc with rfl | hc
    · exact .inl (Option.mem_toList.mpr (h n (le_refl n)))
    · exact .inr (ih (fun k hk => h k (by omega)) hc)

theorem mem_judged {topK : Int} {cand : CandidateBlock} (h : cand ∈ judged (findCandidates env i topK t)) :
    ∃ r ∈ t.rows, r.blockId = cand.blockId ∧ r.status = "active" ∧ r.memoryType = "fact" := by
  obtain ⟨hmem, hfact⟩ := List.mem_filter.mp h
  rw [decide_eq_true_eq] at hfact
  unfold findCandidates at hmem
  split at hmem
  · obtain ⟨r, hr, rfl⟩ := List.mem_map.mp hmem
    have hsorted := List.mem_mergeSort.mp (List.mem_of_mem_take hr)
    obtain ⟨hscan, hp⟩ := List.mem_filter.mp hsorted
    rw [Bool.and_eq_true, Bool.or_eq_true, beq_iff_eq, beq_iff_eq, beq_iff_eq] at hp
    refine ⟨r, (env.scan_perm t.rows).mem_iff.mp hscan, rfl, hp.1, ?_⟩
    rcases hp.2 with hf | hpref
    · exact hf
    · have hpreference : parseMemoryType "preference" = .kFact := hpref ▸ hfact
      exact absurd hpreference (by decide)
  · cases hmem

theorem mem_findContradictions {ms : List ExtractedMemory} (h : c ∈ (findContradictions cfg env replies t i n ms).1) :
    (∃ nm ∈ ms, nm.type = .kFact ∧ c.newContent = nm.content) ∧
      ∃ r ∈ t.rows, r.blockId = c.oldBlockId ∧ r.status = "active" ∧ r.memoryType = "fact" := by
  induction ms generalizing i n with
  | nil => cases h
  | cons nm ms ih =>
    unfold findContradictions at h
    split at h
    · obtain ⟨⟨x, hx, hrest⟩, hold⟩ := ih h
      exact ⟨⟨x, List.mem_cons_of_mem _ hx, hrest⟩, hold⟩
    · rename_i hfact
      rcases List.mem_append.mp h with h | h
      · obtain ⟨cand, hcand, hnew, hold⟩ := mem_judgeCandidates h
        obtain ⟨r, hr, hid, hrest⟩ := mem_judged hcand
        exact ⟨⟨nm, List.mem_cons_self, not_not.mp hfact, hnew⟩, r, hr, hid.trans hold.symm, hrest⟩
      · obtain ⟨⟨x, hx, hrest⟩, hold⟩ := ih h
        exact ⟨⟨x, List.mem_cons_of_mem _ hx, hrest⟩, hold⟩

/-! ## The second loop -/

variable {ms : List ExtractedMemory}

/-- A row as a contradiction leaves it. -/
def Block.InvalidatedBy (cfg : Config) (now : String) (ms : List ExtractedMemory) (c : ContradictionPair) (r : Block) :
    Prop :=
  r.blockId = c.oldBlockId ∧ ∃ md, r.metadata = invalidated cfg now (newBlockId ms c.newContent) c md

theorem mem_invalidateOld (h : r ∈ (storeOf (invalidateOld cfg env ms j cs t)).rows) :
    r ∈ t.rows ∨ ∃ c ∈ cs, r.InvalidatedBy cfg env.now ms c := by
  induction cs generalizing j t with
  | nil => exact .inl h
  | cons c cs ih =>
    unfold invalidateOld at h
    split at h
    · rcases ih h with hr | ⟨c', hc', hinv⟩
      · exact .inl hr
      · exact .inr ⟨c', List.mem_cons_of_mem _ hc', hinv⟩
    · rename_i old hget
      split at h
      · rcases ih h with hr | ⟨c', hc', hinv⟩
        · obtain ⟨x, hx, rfl⟩ := mem_updateMemoryBlock.mp hr
          split
          · rename_i hid
            split at hget
            · exact .inr ⟨c, List.mem_cons_self, hid.trans (getMemoryBlock_eq_some hget).2, old.metadata, rfl⟩
            · cases hget
          · exact .inl hx
        · exact .inr ⟨c', List.mem_cons_of_mem _ hc', hinv⟩
      · exact .inl h

theorem mem_invalidateOld_of_mem (hr : r ∈ t.rows) (hne : ∀ c ∈ cs, c.oldBlockId ≠ r.blockId) :
    r ∈ (storeOf (invalidateOld cfg env ms j cs t)).rows := by
  induction cs generalizing j t with
  | nil => exact hr
  | cons c cs ih =>
    have hrest : ∀ c' ∈ cs, c'.oldBlockId ≠ r.blockId := fun c' hc' => hne c' (List.mem_cons_of_mem _ hc')
    unfold invalidateOld
    split
    · exact ih hr hrest
    · rename_i old hget
      split
      · apply ih _ hrest
        split at hget
        · have hid : r.blockId ≠ old.blockId := by
            rw [(getMemoryBlock_eq_some hget).2]
            exact (hne c List.mem_cons_self).symm
          exact mem_updateMemoryBlock.mpr ⟨r, hr, if_neg hid⟩
        · cases hget
      · exact hr

theorem status_invalidated (now newId : String) (c : ContradictionPair) (md : Metadata) :
    jsonStr (invalidated cfg now newId c md) "status" = "invalidated" := by
  unfold invalidated
  rw [jsonStr_setKey_ne (by decide), jsonStr_setKey_ne (by decide), jsonStr_setKey_ne (by decide),
    jsonStr_setKey_ne (by decide), jsonStr_setKey_ne (by decide), jsonStr_setKey_ne (by decide), jsonStr_setKey]

theorem cause_invalidated (now newId : String) (c : ContradictionPair) (md : Metadata) :
    jsonStr (invalidated cfg now newId c md) "invalidated_by_block_id" = newId := by
  unfold invalidated
  rw [jsonStr_setKey_ne (by decide), jsonStr_setKey_ne (by decide), jsonStr_setKey_ne (by decide),
    jsonStr_setKey_ne (by decide), jsonStr_setKey_ne (by decide), jsonStr_setKey]

/-! ## What is promised -/

/-- The row `r` counts one mention more. -/
def MentionedOnce (before after : Store) (content : String) (r : Block) : Prop :=
  ∃ r₀ ∈ before.rows, ∃ r₁ ∈ after.rows, r₀.blockId = r.blockId ∧ r₁.blockId = r.blockId ∧ r₀.status = "active" ∧
    r₀.memoryType = "preference" ∧ r₀.content = content ∧
      mentionCount r₁.metadata = mentionCount r₀.metadata + 1 ∧ mentionCount r₁.metadata ≤ mentionCount r.metadata

/-- A memory written between `before` and `after` is kept: it has a new active block of its content, or an active
preference of its content was there and counts it. -/
def Kept (t before after final : Store) (content : String) : Prop :=
  ∃ r ∈ final.rows, r.status = "active" ∧ r.content = content ∧
    (r.blockId ∉ t.ids ∨ r.memoryType = "preference" ∧ MentionedOnce before after content r)

def Invalidates (t final : Store) (r r' : Block) : Prop :=
  r ∈ t.rows ∧ r.status = "active" ∧ r' ∈ final.rows ∧ r'.blockId = r.blockId ∧ r'.status = "invalidated"

/-- Every memory is kept, and every invalidation has a cause that lives. -/
structure Sound (cfg : Config) (env : Env) (userId : String) (memories : List ExtractedMemory)
    (contradictions : List ContradictionPair) (t : Store) : Prop where
  kept : ∀ t', writeWithOperationLog cfg env userId memories contradictions t = .ok t' →
    ∀ pre m post, memories = pre ++ m :: post → ∃ done before m' after,
      writeMemories cfg env userId 0 pre t = .ok (done, before) ∧
        writeMemory cfg env userId pre.length m before = some (m', after) ∧ Kept t before after t' m.content
  caused : ∀ r r', Invalidates t (storeOf (writeWithOperationLog cfg env userId memories contradictions t)) r r' →
    ∃ new ∈ (storeOf (writeWithOperationLog cfg env userId memories contradictions t)).rows,
      new.blockId ∉ t.ids ∧ jsonStr r'.metadata "invalidated_by_block_id" = new.blockId
  stored : ∀ t', writeWithOperationLog cfg env userId memories contradictions t = .error t' →
    ∀ r r', Invalidates t t' r r' → ∃ c ∈ contradictions, c.oldBlockId = r.blockId ∧
      ∃ new ∈ t'.rows, new.blockId ∉ t.ids ∧ new.status = "active" ∧ new.memoryType = "fact" ∧
        new.content = c.newContent

/-- The first memory of the content is a preference that the store has already. -/
def Folded (t : Store) (memories : List ExtractedMemory) (content : String) : Prop :=
  ∃ m, memories.find? (fun m => m.content == content) = some m ∧ m.type = .kPreference ∧
    ∃ r ∈ t.rows, r.Repeats content

/-- The count of an active preference takes every mention of the batch as an `int`, or a memory with its text that is no
preference gets a block of its own. -/
def Block.Room (memories : List ExtractedMemory) (r : Block) : Prop :=
  r.status = "active" → r.memoryType = "preference" → 0 < r.mentions memories →
    (∃ m ∈ memories, m.type ≠ .kPreference ∧ r.contentText = some (cText m.content)) ∨
      -2 ^ 31 ≤ mentionCount r.metadata + 1 ∧ mentionCount r.metadata + r.mentions memories < 2 ^ 31

/-! ## Nothing is folded: the promise holds -/

section Holds

variable {finder : Env} {memories pre post done done₁ done₂ : List ExtractedMemory} {before after : Store}

theorem grown_of_ok {ms : List ExtractedMemory} (h : writeMemories cfg env userId i ms t = .ok (done, t')) :
    Grown env ms t t' := by
  have hgrown := @Grown.writeMemories cfg env userId ms i t
  rwa [h] at hgrown

theorem own_row (hpre : writeMemories cfg env userId 0 pre t = .ok (done₁, before))
    (hm : writeMemory cfg env userId i m before = some (m', after)) (hup : upgrade cfg env i m before = none)
    (hpost : writeMemories cfg env userId (i + 1) post after = .ok (done₂, t')) :
    ∃ r ∈ t'.rows, r.blockId = m'.blockId ∧ r.blockId ∉ t.ids ∧ r.status = "active" ∧ r.memoryType = m.type.toText ∧
      r.content = cText m.content := by
  rcases writeMemory_cases hm with ⟨-, hsome⟩ | ⟨rfl, -, hne, hrows⟩
  · rw [hup] at hsome
    cases hsome
  · have hnew : newBlock cfg env userId i m ∈ after.rows := by
      rw [hrows]
      exact List.mem_append_right _ (List.mem_singleton_self _)
    obtain ⟨r, hr, hb⟩ := (grown_of_ok hpost).old _ hnew
    refine ⟨r, hr, hb.id, ?_, hb.status.trans status_newBlock, hb.type.trans memoryType_newBlock, ?_⟩
    · intro hid
      obtain ⟨x, hx, hxid⟩ := Store.mem_ids.mp ((grown_of_ok hpre).ids hid)
      exact hne x hx (hxid.trans hb.id)
    · unfold Block.content
      rw [hb.text]
      exact getD_bindContent m.content

theorem Block.Repeats.content {content : String} {r : Block} (h : r.Repeats content) : r.content = cText content := by
  unfold Block.content
  rw [h.2.2]
  rfl

theorem mentioned_row (hrun : writeMemories cfg env userId 0 pre t = .ok (done₁, before))
    (hup : upgrade cfg env i m before = some after)
    (hpost : writeMemories cfg env userId (i + 1) post after = .ok (done₂, t')) :
    ∃ r ∈ t'.rows, r.status = "active" ∧ r.content = cText m.content ∧ r.memoryType = "preference" ∧
      (r.blockId ∉ t.ids ∨ ∃ x ∈ t.rows, x.Repeats m.content ∧
        (-2 ^ 31 ≤ mentionCount x.metadata + 1 → mentionCount x.metadata + x.mentions (pre ++ m :: post) < 2 ^ 31 →
          MentionedOnce before after (cText m.content) r)) := by
  obtain ⟨hpref, r₀, hr₀, hrep, rfl⟩ := upgrade_eq_some hup
  have hr₁ : r₀.upgrade cfg env ∈ (updateMemoryBlock r₀.blockId (upgraded cfg env r₀.metadata) before).rows :=
    mem_updateMemoryBlock.mpr ⟨r₀, hr₀, if_pos rfl⟩
  obtain ⟨r, hr, hb⟩ := (grown_of_ok hpost).old _ hr₁
  have hcontent : r.content = r₀.content := by
    unfold Block.content
    rw [hb.text]
    rfl
  refine ⟨r, hr, hb.status.trans (status_upgrade r₀), hcontent.trans hrep.content,
    hb.type.trans ((memoryType_upgrade r₀).trans hrep.2.1), ?_⟩
  rcases (grown_of_ok hrun).new r₀ hr₀ with ⟨x, hx, hb₀⟩ | ⟨hnew, -⟩
  · have hxrep : x.Repeats m.content :=
      ⟨hb₀.status.symm.trans hrep.1, hb₀.type.symm.trans hrep.2.1, hb₀.text.symm.trans hrep.2.2⟩
    refine .inr ⟨x, hx, hxrep, fun hlow hhigh => ?_⟩
    obtain ⟨j, hj, hbefore⟩ := hb₀.count
    obtain ⟨k, hk, hfinal⟩ := hb.count
    rw [show (r₀.upgrade cfg env).mentions post = x.mentions post from mentions_congr hb₀.text post] at hk
    rw [← List.singleton_append, mentions_append, mentions_append, mentions_singleton hpref hxrep.2.2] at hhigh
    -- the memories before, this one, and the memories behind it
    have hafter : mentionCount (r₀.upgrade cfg env).metadata = counted (mentionCount x.metadata) (j + 1) := by
      rw [counted_succ, ← hbefore]
      exact mentionCount_upgraded r₀.metadata
    rw [hafter, counted_add, counted_of_fits hlow (by omega)] at hfinal
    rw [counted_of_fits hlow (by omega)] at hbefore hafter
    exact ⟨r₀, hr₀, _, hr₁, hb.id.symm, hb.id.symm, hrep.1, hrep.2.1, hrep.content, by omega, by omega⟩
  · exact .inl (fun hid => hnew (hb.id ▸ hid))

theorem oldBlock_fact {c : ContradictionPair} (h : c ∈ (findContradictions cfg finder replies t 0 n memories).1) :
    ∃ r ∈ t.rows, r.blockId = c.oldBlockId ∧ r.memoryType = "fact" := by
  obtain ⟨-, r, hr, hid, -, hfact⟩ := mem_findContradictions h
  exact ⟨r, hr, hid, hfact⟩

theorem oldBlockId_mem_ids {c : ContradictionPair} (h : c ∈ (findContradictions cfg finder replies t 0 n memories).1) :
    c.oldBlockId ∈ t.ids := by
  obtain ⟨r, hr, hid, -⟩ := oldBlock_fact h
  exact Store.mem_ids.mpr ⟨r, hr, hid⟩

theorem upgrade_eq_none_of_first (hnul : ∀ x ∈ pre ++ m :: post, '\x00' ∉ x.content.toList)
    (hpre : writeMemories cfg env userId 0 pre t = .ok (done₁, before)) (hfirst : ∀ x ∈ pre, x.content ≠ m.content)
    (hfold : m.type = .kPreference → ∀ r ∈ t.rows, ¬ r.Repeats m.content) : upgrade cfg env i m before = none := by
  rcases hup : upgrade cfg env i m before with - | after
  · rfl
  · obtain ⟨hpref, r, hr, ⟨hact, htype, htext⟩, -⟩ := upgrade_eq_some hup
    rcases (grown_of_ok hpre).new r hr with ⟨r₀, hr₀, hb⟩ | ⟨-, -, x, hx, hxtext⟩
    · exact absurd ⟨hb.status.symm.trans hact, hb.type.symm.trans htype, hb.text.symm.trans htext⟩ (hfold hpref r₀ hr₀)
    · rw [htext] at hxtext
      unfold bindContent at hxtext
      split at hxtext
      · cases hxtext
      · have heq := Option.some.inj hxtext
        rw [cText_of_notMem (hnul m (by simp)), cText_of_notMem (hnul x (by simp [hx]))] at heq
        exact absurd heq.symm (hfirst x hx)

theorem contents_of_ok {ms : List ExtractedMemory} (h : writeMemories cfg env userId i ms t = .ok (done, t')) :
    done.map (·.content) = ms.map (·.content) := by
  induction ms generalizing i t done with
  | nil =>
    obtain ⟨rfl, -⟩ := Prod.mk.inj (Except.ok.inj h)
    rfl
  | cons m ms ih =>
    obtain ⟨m', t₁, done', hm, hrest, rfl⟩ := writeMemories_cons.mp h
    have hc : m'.content = m.content := by
      rcases writeMemory_cases hm with ⟨rfl, -⟩ | ⟨rfl, -⟩
      · rfl
      · rfl
    rw [List.map_cons, List.map_cons, ih hrest, hc]

theorem newBlockId_of_first {content : String} (hdone : done₁.map (·.content) = pre.map (·.content))
    (hfirst : ∀ x ∈ pre, x.content ≠ content) (hm : m'.content = content) :
    newBlockId (done₁ ++ m' :: done₂) content = m'.blockId := by
  have hnone : done₁.find? (fun m => m.content == content) = none := by
    rw [List.find?_eq_none]
    intro x hx heq
    have hmem : x.content ∈ pre.map (·.content) := hdone ▸ List.mem_map.mpr ⟨x, hx, rfl⟩
    obtain ⟨y, hy, hyx⟩ := List.mem_map.mp hmem
    exact hfirst y hy (hyx.trans (beq_iff_eq.mp heq))
  have hhead : (m'.content == content) = true := beq_iff_eq.mpr hm
  unfold newBlockId
  rw [List.find?_append, hnone, Option.none_or, List.find?_cons, hhead]

theorem mem_storeOf {r : Block} (hr : r ∈ t'.rows) (hid : r.blockId ∉ t.ids) (ms : List ExtractedMemory) (j : Nat) :
    r ∈ (storeOf (invalidateOld cfg env ms j (findContradictions cfg finder replies t 0 n memories).1 t')).rows :=
  mem_invalidateOld_of_mem hr fun _ hc heq => hid (heq ▸ oldBlockId_mem_ids hc)

theorem Invalidates.cause {r r' : Block} {cs : List ContradictionPair} {j : Nat} (hgrown : Grown env memories t t')
    (h : Invalidates t (storeOf (invalidateOld cfg env done j cs t')) r r') :
    ∃ c ∈ cs, r'.InvalidatedBy cfg env.now done c := by
  obtain ⟨hr, hact, hr', hid, hinv⟩ := h
  rcases mem_invalidateOld hr' with hmem | hcause
  · have hstill := (hgrown.becomes hr hmem hid).status.trans hact
    rw [hinv] at hstill
    exact absurd hstill (by decide)
  · exact hcause

theorem not_invalidates_of_grown {r r' : Block} (hgrown : Grown env memories t t') : ¬ Invalidates t t' r r' := by
  rintro ⟨hr, hact, hr', hid, hinv⟩
  have hstill := (hgrown.becomes hr hr' hid).status.trans hact
  rw [hinv] at hstill
  exact absurd hstill (by decide)

theorem split_of_find {content : String} (hfind : memories.find? (fun m => m.content == content) = some m) :
    m.content = content ∧ ∃ pre post, memories = pre ++ m :: post ∧ ∀ x ∈ pre, x.content ≠ content := by
  obtain ⟨hm, pre, post, rfl, hpre⟩ := List.find?_eq_some_iff_append.mp hfind
  refine ⟨beq_iff_eq.mp hm, pre, post, rfl, fun x hx heq => ?_⟩
  have hne := hpre x hx
  rw [beq_iff_eq.mpr heq] at hne
  cases hne

theorem first_row {c : ContradictionPair} (hnul : ∀ m ∈ memories, '\x00' ∉ m.content.toList)
    (hc : c ∈ (findContradictions cfg finder replies t 0 n memories).1) (hfold : ¬ Folded t memories c.newContent)
    (hok : writeMemories cfg env userId 0 memories t = .ok (done, t')) :
    ∃ r ∈ t'.rows, r.blockId ∉ t.ids ∧ newBlockId done c.newContent = r.blockId := by
  obtain ⟨⟨nm, hnm, -, hcontent⟩, -⟩ := mem_findContradictions hc
  have hsome : (memories.find? fun m => m.content == c.newContent).isSome = true := by
    rw [List.find?_isSome]
    exact ⟨nm, hnm, beq_iff_eq.mpr hcontent.symm⟩
  obtain ⟨m, hfind⟩ := Option.isSome_iff_exists.mp hsome
  obtain ⟨hmc, pre, post, rfl, hfirst⟩ := split_of_find hfind
  obtain ⟨done₁, before, m', after, done₂, hrun, hstep, hpost, rfl⟩ := writeMemories_split hok
  have hup : upgrade cfg env (0 + pre.length) m before = none := by
    apply upgrade_eq_none_of_first hnul hrun (hmc ▸ hfirst)
    intro hpref r hr hrep
    exact hfold ⟨m, hfind, hpref, r, hr, hmc ▸ hrep⟩
  obtain ⟨r, hr, hid, hnew, -⟩ := own_row hrun hstep hup hpost
  have hc' : m'.content = c.newContent := by
    rcases writeMemory_cases hstep with ⟨rfl, -⟩ | ⟨rfl, -⟩
    · exact hmc
    · exact hmc
  exact ⟨r, hr, hnew, (newBlockId_of_first (contents_of_ok hrun) hfirst hc').trans hid.symm⟩

theorem plain_row {nm : ExtractedMemory} (hnm : nm ∈ memories) (hplain : nm.type ≠ .kPreference)
    (hok : writeMemories cfg env userId 0 memories t = .ok (done, t')) :
    ∃ r ∈ t'.rows, r.blockId ∉ t.ids ∧ r.status = "active" ∧ r.memoryType = nm.type.toText ∧
      r.content = cText nm.content := by
  obtain ⟨pre, post, rfl⟩ := List.append_of_mem hnm
  obtain ⟨done₁, before, m', after, done₂, hrun, hstep, hpost, rfl⟩ := writeMemories_split hok
  have hup : upgrade cfg env (0 + pre.length) nm before = none := by
    unfold upgrade
    rw [if_neg hplain]
  obtain ⟨r, hr, -, hnew, hact, htype, hcontent⟩ := own_row hrun hstep hup hpost
  exact ⟨r, hr, hnew, hact, htype, hcontent⟩

theorem kept_of_new {cs : List ContradictionPair} {j : Nat} {r : Block} {content : String}
    (hcs : ∀ c ∈ cs, ∃ x ∈ t.rows, x.blockId = c.oldBlockId ∧ x.memoryType = "fact") (hr : r ∈ t'.rows)
    (hnew : r.blockId ∉ t.ids) (hact : r.status = "active") (hcontent : r.content = content) :
    Kept t before after (storeOf (invalidateOld cfg env done j cs t')) content := by
  refine ⟨r, mem_invalidateOld_of_mem hr ?_, hact, hcontent, .inl hnew⟩
  intro c hc heq
  obtain ⟨x, hx, hxid, -⟩ := hcs c hc
  exact hnew (Store.mem_ids.mpr ⟨x, hx, hxid.trans heq⟩)

theorem kept_of_ok {cs : List ContradictionPair} {j : Nat} (hnul : ∀ x ∈ pre ++ m :: post, '\x00' ∉ x.content.toList)
    (hroom : ∀ r ∈ t.rows, r.Room (pre ++ m :: post))
    (hcs : ∀ c ∈ cs, ∃ r ∈ t.rows, r.blockId = c.oldBlockId ∧ r.memoryType = "fact")
    (hok : writeMemories cfg env userId 0 (pre ++ m :: post) t = .ok (done, t'))
    (hrun : writeMemories cfg env userId 0 pre t = .ok (done₁, before))
    (hstep : writeMemory cfg env userId i m before = some (m', after))
    (hpost : writeMemories cfg env userId (i + 1) post after = .ok (done₂, t')) :
    Kept t before after (storeOf (invalidateOld cfg env done j cs t')) m.content := by
  have hm : '\x00' ∉ m.content.toList := hnul m (by simp)
  rcases writeMemory_cases hstep with ⟨rfl, hup⟩ | ⟨-, hup, -, -⟩
  · obtain ⟨r, hr, hact, hcontent, hpref, hnew | ⟨x, hx, hrep, hcount⟩⟩ := mentioned_row hrun hup hpost
    · rw [cText_of_notMem hm] at hcontent
      exact kept_of_new hcs hr hnew hact hcontent
    · have hmentioned : 0 < x.mentions (pre ++ m' :: post) := by
        rw [← List.singleton_append, mentions_append, mentions_append,
          mentions_singleton (upgrade_eq_some hup).1 hrep.2.2]
        omega
      rcases hroom x hx hrep.1 hrep.2.1 hmentioned with ⟨y, hy, hplain, htext⟩ | ⟨hlow, hhigh⟩
      · obtain ⟨r', hr', hnew, hact', -, hcontent'⟩ := plain_row hy hplain hok
        have heq : cText y.content = m'.content := by
          rw [← Option.some.inj (hrep.2.2.symm.trans htext), cText_of_notMem hm]
        exact kept_of_new hcs hr' hnew hact' (hcontent'.trans heq)
      · have hmention := hcount hlow hhigh
        rw [cText_of_notMem hm] at hcontent hmention
        refine ⟨r, mem_invalidateOld_of_mem hr ?_, hact, hcontent, .inr ⟨hpref, hmention⟩⟩
        intro c hc heq
        -- a contradiction names a fact of the store
        obtain ⟨x, hx, hxid, hxfact⟩ := hcs c hc
        have htype := ((grown_of_ok hok).becomes hx hr (heq.symm.trans hxid.symm)).type.trans hxfact
        rw [hpref] at htype
        exact absurd htype (by decide)
  · obtain ⟨r, hr, -, hnew, hact, -, hcontent⟩ := own_row hrun hstep hup hpost
    rw [cText_of_notMem hm] at hcontent
    exact kept_of_new hcs hr hnew hact hcontent

theorem Sound.of_unfolded (hnul : ∀ m ∈ memories, '\x00' ∉ m.content.toList)
    (hroom : ∀ r ∈ t.rows, r.Room memories)
    (hfold : ∀ c ∈ (findContradictions cfg finder replies t 0 n memories).1, ¬ Folded t memories c.newContent) :
    Sound cfg env userId memories (findContradictions cfg finder replies t 0 n memories).1 t := by
  have hgrown := @Grown.writeMemories cfg env userId memories 0 t
  rcases hok : writeMemories cfg env userId 0 memories t with t₁ | ⟨done, t₁⟩ <;> rw [hok] at hgrown
  · have hrun : writeWithOperationLog cfg env userId memories
        (findContradictions cfg finder replies t 0 n memories).1 t = .error t₁ := by
      unfold writeWithOperationLog
      rw [hok]
    exact
      { kept := fun t' h => by
          rw [hrun] at h
          cases h
        caused := fun r r' h => by
          rw [hrun] at h
          exact absurd h (not_invalidates_of_grown hgrown)
        stored := fun t' h r r' hinv => by
          rw [hrun] at h
          obtain rfl := Except.error.inj h
          exact absurd hinv (not_invalidates_of_grown hgrown) }
  · have hrun : writeWithOperationLog cfg env userId memories
        (findContradictions cfg finder replies t 0 n memories).1 t =
          invalidateOld cfg env done 0 (findContradictions cfg finder replies t 0 n memories).1 t₁ := by
      unfold writeWithOperationLog
      rw [hok]
    exact
      { kept := fun t' h pre m post hsplit => by
          subst hsplit
          rw [hrun] at h
          obtain ⟨done₁, before, m', after, done₂, hpre, hstep, hpost, rfl⟩ := writeMemories_split hok
          rw [Nat.zero_add] at hstep hpost
          refine ⟨done₁, before, m', after, hpre, hstep, ?_⟩
          rw [← show storeOf (.ok t') = t' from rfl, ← h]
          exact kept_of_ok hnul hroom (fun c hc => oldBlock_fact hc) hok hpre hstep hpost
        caused := fun r r' h => by
          rw [hrun] at h ⊢
          obtain ⟨c, hc, -, md, hmd⟩ := h.cause hgrown
          obtain ⟨new, hnew, hid, hblock⟩ := first_row hnul hc (hfold c hc) hok
          refine ⟨new, mem_storeOf hnew hid done 0, hid, ?_⟩
          rw [hmd, cause_invalidated, hblock]
        stored := fun t' h r r' hinv => by
          rw [hrun] at h
          have hinv' : Invalidates t (storeOf (invalidateOld cfg env done 0
              (findContradictions cfg finder replies t 0 n memories).1 t₁)) r r' := by
            rw [h]
            exact hinv
          obtain ⟨c, hc, hcid, -⟩ := hinv'.cause hgrown
          obtain ⟨⟨nm, hnm, hfact, hcontent⟩, -⟩ := mem_findContradictions hc
          obtain ⟨new, hnew, hid, hact, htype, htext⟩ := plain_row hnm (by rw [hfact]; decide) hok
          rw [hfact] at htype
          rw [cText_of_notMem (hnul nm hnm)] at htext
          have hmem := @mem_storeOf cfg env _ _ replies n finder memories _ hnew hid done 0
          rw [h] at hmem
          exact ⟨c, hc, hcid.symm.trans hinv.2.2.2.1, new, hmem, hid, hact, htype, htext.trans hcontent.symm⟩ }

end Holds

/-! ## Runs in which no call of the batch fails -/

def freshUlid (taken : List String) (i : Nat) : String :=
  String.ofList (List.replicate ((taken.map String.length).foldr max 0 + 1 + i) 'x')

theorem length_freshUlid (taken : List String) (i : Nat) :
    (freshUlid taken i).length = (taken.map String.length).foldr max 0 + 1 + i := by
  unfold freshUlid
  rw [String.length_ofList, List.length_replicate]

theorem freshUlid_injective (taken : List String) {i : Nat} (h : freshUlid taken i = freshUlid taken j) : i = j := by
  have hlen := congrArg String.length h
  rw [length_freshUlid, length_freshUlid] at hlen
  omega

theorem le_foldr_max {l : List Nat} {x : Nat} (h : x ∈ l) : x ≤ l.foldr max 0 := by
  induction l with
  | nil => cases h
  | cons y l ih =>
    rw [List.foldr_cons]
    rcases List.mem_cons.mp h with rfl | h
    · omega
    · have := ih h
      omega

theorem freshUlid_notMem (taken : List String) (i : Nat) : freshUlid taken i ∉ taken := by
  intro h
  have hle := le_foldr_max (List.mem_map.mpr ⟨_, h, rfl⟩ : (freshUlid taken i).length ∈ taken.map String.length)
  rw [length_freshUlid] at hle
  omega

/-- An environment whose ids are new; of the calls only those of the second loop may fail. -/
def freshEnv (taken : List String) (succeeds : StoreCall → Bool) : Env where
  succeeds := succeeds
  ulid := freshUlid taken
  now := ""
  epochOf := fun _ => -1
  dump := fun _ => ""
  scan_perm := fun _ => .refl _

variable {taken : List String} {succeeds : StoreCall → Bool} {memories : List ExtractedMemory}

def Free (taken : List String) (i : Nat) (t : Store) : Prop := ∀ j, i ≤ j → freshUlid taken j ∉ t.ids

theorem Free.writeMemory (hulid : env.ulid = freshUlid taken) (hfree : Free taken i t)
    (h : writeMemory cfg env userId i m t = some (m', t')) : Free taken (i + 1) t' := by
  intro j hj hmem
  have hne := hfree j (by omega)
  rcases writeMemory_cases h with ⟨-, hup⟩ | ⟨-, -, -, hrows⟩
  · obtain ⟨-, r, -, -, rfl⟩ := upgrade_eq_some hup
    rw [ids_updateMemoryBlock] at hmem
    exact hne hmem
  · unfold Store.ids at hmem hne
    rw [hrows, List.map_append, List.map_singleton, List.mem_append, List.mem_singleton] at hmem
    rcases hmem with hmem | heq
    · exact hne hmem
    · have := freshUlid_injective taken (heq.trans (congrFun hulid i))
      omega

theorem writeMemories_ok (hulid : env.ulid = freshUlid taken) (hins : ∀ i, env.succeeds (.insert i) = true)
    (hfree : Free taken i t) : ∃ done t', writeMemories cfg env userId i memories t = .ok (done, t') := by
  induction memories generalizing i t with
  | nil => exact ⟨[], t, rfl⟩
  | cons m rest ih =>
    have hstep : ∃ m' t', writeMemory cfg env userId i m t = some (m', t') := by
      unfold writeMemory
      split
      · exact ⟨_, _, rfl⟩
      · have hne : ∀ r ∈ t.rows, r.blockId ≠ (newBlock cfg env userId i m).blockId := by
          intro r hr heq
          exact hfree i (le_refl i) (Store.mem_ids.mpr ⟨r, hr, heq.trans (congrFun hulid i)⟩)
        unfold insertMemoryBlock
        rw [if_pos (hins i), dif_pos hne]
        exact ⟨_, _, rfl⟩
    obtain ⟨m', t₁, hm⟩ := hstep
    obtain ⟨done, t', hrest⟩ := ih (hfree.writeMemory hulid hm)
    exact ⟨m' :: done, t', writeMemories_cons.mpr ⟨m', t₁, done, hm, hrest, rfl⟩⟩

theorem invalidateOld_of_vanished {ms : List ExtractedMemory}
    (h : ∀ k, j ≤ k → k < j + cs.length → env.succeeds (.getOld k) = false) :
    invalidateOld cfg env ms j cs t = .ok t := by
  induction cs generalizing j with
  | nil => rfl
  | cons c cs ih =>
    rw [List.length_cons] at h
    unfold invalidateOld
    rw [h j (le_refl j) (by omega)]
    exact ih fun k hk hlt => h k (by omega) (by omega)

/-- An update that counts a mention is that of the row it counts. -/
theorem MentionedOnce.of_update {before : Store} {content : String} {x : Block} {md : Metadata} (hx : x ∈ before.rows)
    (h : MentionedOnce before (updateMemoryBlock x.blockId md before) content r) :
    x.content = content ∧ mentionCount md = mentionCount x.metadata + 1 := by
  obtain ⟨r₀, hr₀, r₁, hr₁, hid₀, hid₁, -, -, hcontent, hcount, -⟩ := h
  obtain ⟨y, hy, rfl⟩ := mem_updateMemoryBlock.mp hr₁
  by_cases hyx : y.blockId = x.blockId
  · rw [if_pos hyx] at hid₁ hcount
    obtain rfl := before.keyed.eq_of_key hy hr₀ (hid₁.trans hid₀.symm)
    obtain rfl := before.keyed.eq_of_key hy hx hyx
    exact ⟨hcontent, hcount⟩
  · rw [if_neg hyx] at hid₁ hcount
    obtain rfl := before.keyed.eq_of_key hy hr₀ (hid₁.trans hid₀.symm)
    exact absurd hcount (by omega)

theorem content_of_mentioned {before after : Store} {content : String}
    (hstep : writeMemory cfg env userId i m before = some (m', after)) (h : MentionedOnce before after content r) :
    content = cText m.content := by
  rcases writeMemory_cases hstep with ⟨-, hup⟩ | ⟨-, -, -, hrows⟩
  · obtain ⟨-, x, hx, ⟨-, -, htext⟩, rfl⟩ := upgrade_eq_some hup
    have hcontent := (h.of_update hx).1
    unfold Block.content at hcontent
    rw [htext] at hcontent
    exact hcontent.symm
  · obtain ⟨r₀, hr₀, r₁, hr₁, hid₀, hid₁, -, -, -, hcount, -⟩ := h
    have hold : r₀ ∈ after.rows := by
      rw [hrows]
      exact List.mem_append_left _ hr₀
    obtain rfl := after.keyed.eq_of_key hr₁ hold (hid₁.trans hid₀.symm)
    exact absurd hcount (by omega)

theorem nul_notMem_of_kept {before after : Store} (hgrown : Grown env memories t t')
    (hstep : writeMemory cfg env userId i m before = some (m', after)) (h : Kept t before after t' m.content) :
    '\x00' ∉ m.content.toList := by
  obtain ⟨r, hr, -, hcontent, hid | ⟨-, hmention⟩⟩ := h
  · rcases hgrown.new r hr with ⟨x, hx, hb⟩ | ⟨-, -, x, -, htext⟩
    · exact absurd (Store.mem_ids.mpr ⟨x, hx, hb.id.symm⟩) hid
    · unfold Block.content at hcontent
      rw [htext, getD_bindContent] at hcontent
      rw [← hcontent]
      exact nul_notMem_cText x.content
  · rw [content_of_mentioned hstep hmention]
    exact nul_notMem_cText m.content

def onlyOld (j : Option Nat) : StoreCall → Bool
  | .getOld k => some k == j
  | .findCandidates _ => true
  | .findMatchingPreference _ => true
  | .getMatch _ => true
  | .updateMatch _ => true
  | .insert _ => true
  | .updateOld _ => true

theorem nul_notMem_of_sound (h : ∀ env, Sound cfg env userId memories cs t) :
    ∀ m ∈ memories, '\x00' ∉ m.content.toList := by
  intro m hm
  have hfree : Free t.ids 0 t := fun j _ => freshUlid_notMem t.ids j
  obtain ⟨done, t', hok⟩ := @writeMemories_ok cfg (freshEnv t.ids (onlyOld none)) userId _ _ _ memories rfl
    (fun _ => rfl) hfree
  have hrun : writeWithOperationLog cfg (freshEnv t.ids (onlyOld none)) userId memories cs t = .ok t' := by
    unfold writeWithOperationLog
    rw [hok]
    exact invalidateOld_of_vanished fun _ _ _ => rfl
  obtain ⟨pre, post, rfl⟩ := List.append_of_mem hm
  obtain ⟨done₁, before, m', after, -, hstep, hkept⟩ := (h _).kept t' hrun pre m post rfl
  exact nul_notMem_of_kept (grown_of_ok hok) hstep hkept

theorem upgrade_of_found (hpref : m.type = .kPreference) (hfound : findMatchingPreference env i m.content t = some r)
    (hget : env.succeeds (.getMatch i) = true) (hupd : env.succeeds (.updateMatch i) = true) :
    upgrade cfg env i m t = some (updateMemoryBlock r.blockId (upgraded cfg env r.metadata) t) := by
  unfold upgrade maybeUpgradePreference
  rw [if_pos hpref, hfound]
  dsimp only
  rw [if_pos hget, getMemoryBlock_of_mem (findMatchingPreference_eq_some hfound).1]
  dsimp only
  rw [if_pos hupd]

theorem upgrade_isSome {o : Option Nat} (hpref : m.type = .kPreference) (hr : r ∈ t.rows) (hrep : r.Repeats m.content) :
    ∃ t', upgrade cfg (freshEnv taken (onlyOld o)) i m t = some t' := by
  obtain ⟨hact, htype, htext⟩ := hrep
  have hsome : (t.rows.find? fun r =>
      r.status == "active" && r.memoryType == "preference" && r.contentText == some (cText m.content)).isSome = true := by
    rw [List.find?_isSome]
    exact ⟨r, hr, by rw [hact, htype, htext]; simp⟩
  obtain ⟨found, hfound⟩ := Option.isSome_iff_exists.mp hsome
  exact ⟨_, @upgrade_of_found _ (freshEnv taken (onlyOld o)) _ _ _ _ hpref hfound rfl rfl⟩

theorem invalidateOld_append {ms : List ExtractedMemory} {rest : List ContradictionPair}
    (h : ∀ k, j ≤ k → k < j + cs.length → env.succeeds (.getOld k) = false) :
    invalidateOld cfg env ms j (cs ++ rest) t = invalidateOld cfg env ms (j + cs.length) rest t := by
  induction cs generalizing j with
  | nil => rfl
  | cons c cs ih =>
    rw [List.length_cons] at h ⊢
    rw [List.cons_append]
    conv_lhs => unfold invalidateOld
    rw [h j (le_refl j) (by omega), ← show j + 1 + cs.length = j + (cs.length + 1) by omega]
    exact ih fun k hk hlt => h k (by omega) (by omega)

theorem onlyOld_ne {k : Nat} (h : k ≠ j) : onlyOld (some j) (.getOld k) = false := by
  show (some k == some j) = false
  simpa using h

theorem invalidateOld_only {ms : List ExtractedMemory} {before after : List ContradictionPair} {old : Block}
    (hold : old ∈ t.rows) (hid : old.blockId = c.oldBlockId) :
    invalidateOld cfg (freshEnv taken (onlyOld (some before.length))) ms 0 (before ++ c :: after) t =
      .ok (updateMemoryBlock old.blockId
        (invalidated cfg "" (newBlockId ms c.newContent) c old.metadata) t) := by
  have hskip : ∀ k, 0 ≤ k → k < 0 + before.length →
      (freshEnv taken (onlyOld (some before.length))).succeeds (.getOld k) = false :=
    fun k _ hk => onlyOld_ne (by omega)
  have hget : (if (freshEnv taken (onlyOld (some before.length))).succeeds (.getOld (0 + before.length)) then
      getMemoryBlock c.oldBlockId t else none) = some old := by
    have hfound : (freshEnv taken (onlyOld (some before.length))).succeeds (.getOld before.length) = true := by
      show (some before.length == some before.length) = true
      simp
    rw [Nat.zero_add, if_pos hfound, ← hid]
    exact getMemoryBlock_of_mem hold
  have hupd : (freshEnv taken (onlyOld (some before.length))).succeeds (.updateOld (0 + before.length)) = true := rfl
  rw [invalidateOld_append hskip]
  unfold invalidateOld
  rw [hget]
  dsimp only
  rw [if_pos hupd]
  exact invalidateOld_of_vanished fun k hk _ => onlyOld_ne (by omega)

/-- A contradiction whose first memory is folded names no block of this call. -/
theorem not_folded_of_sound {finder : Env}
    (h : ∀ env, Sound cfg env userId memories (findContradictions cfg finder replies t 0 n memories).1 t)
    (hc : c ∈ (findContradictions cfg finder replies t 0 n memories).1) : ¬ Folded t memories c.newContent := by
  rintro ⟨m, hfind, hpref, r₀, hr₀, hrep⟩
  obtain ⟨-, old, hold, hid, hact, hfact⟩ := mem_findContradictions hc
  obtain ⟨before, after, hcs⟩ := List.append_of_mem hc
  let taken := t.ids ++ memories.map (·.blockId)
  have hfree : Free taken 0 t := fun j _ hmem => freshUlid_notMem taken j (List.mem_append_left _ hmem)
  obtain ⟨done, t', hok⟩ := @writeMemories_ok cfg (freshEnv taken (onlyOld (some before.length))) userId _ _ _ memories
    rfl (fun _ => rfl) hfree
  have hgrown := grown_of_ok hok
  -- the first memory of the content is folded, and keeps the id it came with
  have hcause : newBlockId done c.newContent = m.blockId := by
    obtain ⟨hmc, pre, post, rfl, hfirst⟩ := split_of_find hfind
    obtain ⟨done₁, s, m', s', done₂, hrun, hstep, -, rfl⟩ := writeMemories_split hok
    obtain ⟨r₁, hr₁, hb⟩ := (grown_of_ok hrun).old r₀ hr₀
    have hrep₁ : r₁.Repeats m.content := by
      rw [hmc]
      exact ⟨hb.status.trans hrep.1, hb.type.trans hrep.2.1, hb.text.trans hrep.2.2⟩
    rcases writeMemory_cases hstep with ⟨rfl, -⟩ | ⟨-, hup, -, -⟩
    · exact newBlockId_of_first (contents_of_ok hrun) hfirst hmc
    · obtain ⟨s'', hsome⟩ := @upgrade_isSome cfg (0 + pre.length) _ _ _ taken (some before.length) hpref hr₁ hrep₁
      rw [hsome] at hup
      cases hup
  obtain ⟨old', hold', hbecomes⟩ := hgrown.old old hold
  obtain rfl := hbecomes.same (by rw [hfact]; decide)
  have hrun : writeWithOperationLog cfg (freshEnv taken (onlyOld (some before.length))) userId memories
      (findContradictions cfg finder replies t 0 n memories).1 t = .ok (updateMemoryBlock old'.blockId
        (invalidated cfg "" (newBlockId done c.newContent) c old'.metadata) t') := by
    unfold writeWithOperationLog
    rw [hok, hcs]
    exact invalidateOld_only hold' hid
  have hinv : Invalidates t (updateMemoryBlock old'.blockId
      (invalidated cfg "" (newBlockId done c.newContent) c old'.metadata) t') old'
      { old' with metadata := invalidated cfg "" (newBlockId done c.newContent) c old'.metadata } :=
    ⟨hold, hact, mem_updateMemoryBlock.mpr ⟨old', hold', if_pos rfl⟩, rfl, status_invalidated _ _ _ _⟩
  have hcaused := (h (freshEnv taken (onlyOld (some before.length)))).caused
  rw [hrun] at hcaused
  obtain ⟨new, hnew, hnewId, heq⟩ := hcaused old' _ hinv
  rw [cause_invalidated, hcause] at heq
  have hmem : new.blockId ∈ (updateMemoryBlock old'.blockId
      (invalidated cfg "" (newBlockId done c.newContent) c old'.metadata) t').ids := Store.mem_ids.mpr ⟨new, hnew, rfl⟩
  rw [ids_updateMemoryBlock] at hmem
  obtain ⟨x, hx, hxid⟩ := Store.mem_ids.mp hmem
  rcases hgrown.new x hx with ⟨y, hy, hb⟩ | ⟨-, ⟨k, hk⟩, -⟩
  · exact hnewId (Store.mem_ids.mpr ⟨y, hy, hb.id.symm.trans hxid⟩)
  · have hm : m ∈ memories := List.mem_of_find?_eq_some hfind
    have hin : freshUlid taken k ∈ taken := by
      have hk' : freshUlid taken k = m.blockId := hk.symm.trans (hxid.trans heq.symm)
      rw [hk']
      exact List.mem_append_right _ (List.mem_map.mpr ⟨m, hm, rfl⟩)
    exact freshUlid_notMem taken k hin

/-! ## A preference whose count runs over -/

/-- A scan that comes to the block `id` first. -/
def scanFirst (id : String) (rows : List Block) : List Block :=
  rows.filter (fun r => r.blockId == id) ++ rows.filter (fun r => !(r.blockId == id))

theorem scanFirst_perm (id : String) (rows : List Block) : (scanFirst id rows).Perm rows :=
  List.filter_append_perm _ rows

def firstEnv (taken : List String) (id : String) : Env :=
  { freshEnv taken (onlyOld none) with scan := scanFirst id, scan_perm := scanFirst_perm id }

theorem findMatchingPreference_firstEnv {content : String} (hr : r ∈ t.rows) (hrep : r.Repeats content) :
    findMatchingPreference (firstEnv taken r.blockId) i content t = some r := by
  have hfirst : r ∈ t.rows.filter fun x => x.blockId == r.blockId := List.mem_filter.mpr ⟨hr, by simp⟩
  have hmatch : (r.status == "active" && r.memoryType == "preference" && r.contentText == some (cText content)) = true := by
    rw [hrep.1, hrep.2.1, hrep.2.2]
    simp
  have hsome : ((t.rows.filter fun x => x.blockId == r.blockId).find? fun x =>
      x.status == "active" && x.memoryType == "preference" && x.contentText == some (cText content)).isSome = true := by
    rw [List.find?_isSome]
    exact ⟨r, hfirst, hmatch⟩
  obtain ⟨x, hx⟩ := Option.isSome_iff_exists.mp hsome
  obtain ⟨hmem, hid⟩ := List.mem_filter.mp (List.mem_of_find?_eq_some hx)
  obtain rfl := t.keyed.eq_of_key hmem hr (beq_iff_eq.mp hid)
  show (scanFirst x.blockId t.rows).find? _ = some x
  unfold scanFirst
  rw [List.find?_append, hx]
  rfl

/-- The row `r` after `k` mentions; nothing new has its text. -/
structure Counting (t : Store) (r : Block) (content : String) (k : Nat) (s : Store) : Prop where
  row : ∃ x ∈ s.rows, x.blockId = r.blockId ∧ x.Repeats content ∧
    mentionCount x.metadata = counted (mentionCount r.metadata) k
  old : ∀ x ∈ s.rows, x.content = content → x.blockId ∈ t.ids

section Counting

variable {x : Block} {content : String} {k : Nat} {s s' : Store} {pre : List ExtractedMemory}

theorem old_updateMemoryBlock {id : String} {md : Metadata} (h : ∀ x ∈ s.rows, x.content = content → x.blockId ∈ t.ids) :
    ∀ x ∈ (updateMemoryBlock id md s).rows, x.content = content → x.blockId ∈ t.ids := by
  intro x hx
  obtain ⟨y, hy, rfl⟩ := mem_updateMemoryBlock.mp hx
  split
  · exact h y hy
  · exact h y hy

theorem Counting.folds (h : Counting t r content k s) (hpref : m.type = .kPreference) (hm : m.content = content)
    (hstep : writeMemory cfg (firstEnv taken r.blockId) userId i m s = some (m', s')) :
    ∃ x ∈ s.rows, x.blockId = r.blockId ∧ x.Repeats content ∧
      mentionCount x.metadata = counted (mentionCount r.metadata) k ∧
      s' = updateMemoryBlock x.blockId (upgraded cfg (firstEnv taken r.blockId) x.metadata) s := by
  obtain ⟨x, hx, hid, hrep, hcount⟩ := h.row
  have hfound : findMatchingPreference (firstEnv taken r.blockId) i m.content s = some x := by
    rw [← hid, hm]
    exact findMatchingPreference_firstEnv hx hrep
  have hup := @upgrade_of_found cfg _ _ _ _ _ hpref hfound rfl rfl
  refine ⟨x, hx, hid, hrep, hcount, ?_⟩
  rcases writeMemory_cases hstep with ⟨-, hsome⟩ | ⟨-, hnone, -, -⟩
  · exact Option.some.inj (hsome.symm.trans hup)
  · rw [hup] at hnone
    cases hnone

theorem Counting.writeMemory (h : Counting t r content k s) (hr : r.Repeats content)
    (hpref : m.content = content → m.type = .kPreference) (hnul : '\x00' ∉ m.content.toList)
    (hnul' : '\x00' ∉ content.toList)
    (hstep : writeMemory cfg (firstEnv taken r.blockId) userId i m s = some (m', s')) :
    Counting t r content (k + r.mentions [m]) s' := by
  by_cases hm : m.content = content
  · obtain ⟨x, hx, hid, hrep, hcount, rfl⟩ := h.folds (hpref hm) hm hstep
    rw [mentions_singleton (hpref hm) (hm ▸ hr.2.2)]
    refine ⟨⟨_, mem_updateMemoryBlock.mpr ⟨x, hx, if_pos rfl⟩, hid, ⟨status_upgrade x,
      (memoryType_upgrade x).trans hrep.2.1, hrep.2.2⟩, ?_⟩, ?_⟩
    · rw [counted_succ, ← hcount]
      exact mentionCount_upgraded x.metadata
    · exact old_updateMemoryBlock h.old
  · have htext : some content ≠ some (cText m.content) := by
      rw [cText_of_notMem hnul]
      exact fun heq => hm (Option.some.inj heq).symm
    have hrtext := hr.2.2
    rw [cText_of_notMem hnul'] at hrtext
    rw [mentions_singleton_of_ne (hrtext ▸ htext), Nat.add_zero]
    obtain ⟨x, hx, hid, hrep, hcount⟩ := h.row
    rcases writeMemory_cases hstep with ⟨-, hup⟩ | ⟨-, -, -, hrows⟩
    · obtain ⟨-, y, hy, hyrep, rfl⟩ := upgrade_eq_some hup
      have hne : x.blockId ≠ y.blockId := by
        intro heq
        obtain rfl := s.keyed.eq_of_key hx hy heq
        rw [← cText_of_notMem hnul', ← hrep.2.2] at htext
        exact htext hyrep.2.2
      exact ⟨⟨x, mem_updateMemoryBlock.mpr ⟨x, hx, if_neg hne⟩, hid, hrep, hcount⟩, old_updateMemoryBlock h.old⟩
    · rw [← cText_of_notMem hnul] at hm
      refine ⟨⟨x, hrows ▸ List.mem_append_left _ hx, hid, hrep, hcount⟩, ?_⟩
      intro z hz hcontent
      rw [hrows, List.mem_append, List.mem_singleton] at hz
      rcases hz with hz | rfl
      · exact h.old z hz hcontent
      · exact absurd ((getD_bindContent m.content).symm.trans hcontent) hm

theorem Counting.writeMemories (hr : r.Repeats content) (hnul' : '\x00' ∉ content.toList) {ms done : List ExtractedMemory}
    (hpref : ∀ m ∈ ms, m.content = content → m.type = .kPreference) (hnul : ∀ m ∈ ms, '\x00' ∉ m.content.toList)
    (h : Counting t r content k s)
    (hrun : writeMemories cfg (firstEnv taken r.blockId) userId i ms s = .ok (done, s')) :
    Counting t r content (k + r.mentions ms) s' := by
  induction ms generalizing i k s done with
  | nil =>
    obtain ⟨-, rfl⟩ := Prod.mk.inj (Except.ok.inj hrun)
    exact h
  | cons m ms ih =>
    obtain ⟨m', s₁, done', hstep, hrest, -⟩ := writeMemories_cons.mp hrun
    have hmid := h.writeMemory hr (hpref m List.mem_cons_self) (hnul m List.mem_cons_self) hnul' hstep
    rw [← List.singleton_append, mentions_append, ← Nat.add_assoc]
    exact ih (fun y hy => hpref y (List.mem_cons_of_mem _ hy)) (fun y hy => hnul y (List.mem_cons_of_mem _ hy)) hmid
      hrest

/-- A memory that is kept by being counted has been counted exactly. -/
theorem Counting.exact_of_mentioned {x : Block} (h : Counting t r content k s) (hpref : m.type = .kPreference)
    (hm : m.content = content) (hstep : MemoryExtractor.writeMemory cfg (firstEnv taken r.blockId) userId i m s = some (m', s'))
    (hmention : MentionedOnce s s' content x) :
    toInt (counted (mentionCount r.metadata) k + 1) = counted (mentionCount r.metadata) k + 1 := by
  obtain ⟨y, hy, -, -, hcount, rfl⟩ := h.folds hpref hm hstep
  rw [← hcount, ← mentionCount_upgraded]
  exact (hmention.of_update hy).2

/-- One memory more: kept by being counted, it leaves a count that has not run over. -/
theorem Counting.fits (h : Counting t r content (r.mentions pre) s) (hr : r.Repeats content)
    (hpref : m.content = content → m.type = .kPreference) (hnul : '\x00' ∉ m.content.toList)
    (hnul' : '\x00' ∉ content.toList)
    (hstep : MemoryExtractor.writeMemory cfg (firstEnv taken r.blockId) userId i m s = some (m', s'))
    (hkept : m.content = content → ∃ x, MentionedOnce s s' content x)
    (ih : 0 < r.mentions pre →
      -2 ^ 31 ≤ mentionCount r.metadata + 1 ∧ mentionCount r.metadata + r.mentions pre < 2 ^ 31)
    (hpos : 0 < r.mentions (pre ++ [m])) :
    -2 ^ 31 ≤ mentionCount r.metadata + 1 ∧ mentionCount r.metadata + r.mentions (pre ++ [m]) < 2 ^ 31 := by
  rw [mentions_append] at hpos ⊢
  by_cases heq : m.content = content
  · obtain ⟨x, hmention⟩ := hkept heq
    have hexact := toInt_eq_iff.mp (h.exact_of_mentioned (hpref heq) heq hstep hmention)
    rw [mentions_singleton (hpref heq) (heq ▸ hr.2.2)]
    rcases Nat.eq_zero_or_pos (r.mentions pre) with hzero | hbefore
    · rw [hzero] at hexact ⊢
      rw [counted_zero] at hexact
      omega
    · obtain ⟨hlow, hhigh⟩ := ih hbefore
      rw [counted_of_fits hlow hhigh] at hexact
      omega
  · have hne : r.contentText ≠ some (cText m.content) := by
      rw [hr.2.2, cText_of_notMem hnul', cText_of_notMem hnul]
      exact fun h => heq (Option.some.inj h).symm
    rw [mentions_singleton_of_ne hne, Nat.add_zero] at hpos ⊢
    exact ih hpos

end Counting

theorem room_of_sound (h : ∀ env, Sound cfg env userId memories cs t) : ∀ r ∈ t.rows, r.Room memories := by
  intro r hr hact htype hmentioned
  by_cases hother : ∃ m ∈ memories, m.type ≠ .kPreference ∧ r.contentText = some (cText m.content)
  · exact .inl hother
  · right
    have hnul := nul_notMem_of_sound h
    obtain ⟨m₀, hm₀, hpref₀⟩ := List.countP_pos_iff.mp hmentioned
    obtain ⟨-, htext⟩ := of_decide_eq_true hpref₀
    have hrep : r.Repeats m₀.content := ⟨hact, htype, htext⟩
    have hpref : ∀ m ∈ memories, m.content = m₀.content → m.type = .kPreference := by
      intro m hm heq
      by_contra hne
      exact hother ⟨m, hm, hne, by rw [heq]; exact htext⟩
    have hstart : Counting t r m₀.content 0 t :=
      ⟨⟨r, hr, rfl, hrep, rfl⟩, fun x hx _ => Store.mem_ids.mpr ⟨x, hx, rfl⟩⟩
    have hfree : Free t.ids 0 t := fun j _ => freshUlid_notMem t.ids j
    obtain ⟨done, t', hok⟩ := @writeMemories_ok cfg (firstEnv t.ids r.blockId) userId _ _ _ memories rfl (fun _ => rfl)
      hfree
    have hwrite : writeWithOperationLog cfg (firstEnv t.ids r.blockId) userId memories cs t = .ok t' := by
      unfold writeWithOperationLog
      rw [hok]
      exact invalidateOld_of_vanished fun _ _ _ => rfl
    have hend := hstart.writeMemories hrep (hnul m₀ hm₀) hpref hnul hok
    have hfits : ∀ pre post, memories = pre ++ post → 0 < r.mentions pre →
        -2 ^ 31 ≤ mentionCount r.metadata + 1 ∧ mentionCount r.metadata + r.mentions pre < 2 ^ 31 := by
      intro pre
      induction pre using List.reverseRecOn with
      | nil => exact fun _ _ hpos => absurd hpos (Nat.lt_irrefl 0)
      | append_singleton pre m ih =>
        intro post hsplit
        rw [List.append_assoc, List.singleton_append] at hsplit
        have hm : m ∈ memories := by simp [hsplit]
        have hsub : ∀ y ∈ pre, y ∈ memories := fun y hy => by simp [hsplit, hy]
        obtain ⟨done₁, before, m', after, hrun, hstep, hkept⟩ := (h _).kept t' hwrite pre m post hsplit
        have hmid := hstart.writeMemories hrep (hnul m₀ hm₀) (fun y hy => hpref y (hsub y hy))
          (fun y hy => hnul y (hsub y hy)) hrun
        rw [Nat.zero_add] at hmid
        refine hmid.fits hrep (hpref m hm) (hnul m hm) (hnul m₀ hm₀) hstep (fun heq => ?_) (ih _ hsplit)
        rw [heq] at hkept
        obtain ⟨x, hx, -, hcontent, hnew | ⟨-, hmention⟩⟩ := hkept
        · exact absurd (hend.old x hx hcontent) hnew
        · exact ⟨x, hmention⟩
    exact hfits memories [] (List.append_nil memories).symm hmentioned

/-- Whichever calls fail, every memory is kept and every invalidation has a cause that lives, exactly when no content has
a NUL, the count of every preference has room for its mentions, and no contradiction is matched to a preference that the
store has already. -/
theorem writeWithOperationLog_sound (cfg : Config) (userId : String) (t : Store) (memories : List ExtractedMemory)
    (finder : Env) (replies : Nat → Reply) (n : Nat) :
    (∀ env, Sound cfg env userId memories (findContradictions cfg finder replies t 0 n memories).1 t) ↔
      (∀ m ∈ memories, '\x00' ∉ m.content.toList) ∧ (∀ r ∈ t.rows, r.Room memories) ∧
        ∀ c ∈ (findContradictions cfg finder replies t 0 n memories).1, ¬ Folded t memories c.newContent := by
  constructor
  · intro h
    exact ⟨nul_notMem_of_sound h, room_of_sound h, fun c hc => not_folded_of_sound h hc⟩
  · rintro ⟨hnul, hroom, hfold⟩ env
    exact Sound.of_unfolded hnul hroom hfold

/-! ## A fact with the text of a known preference -/

def javaFact : Block := ⟨"f", some "Java", [("memory_type", .str "fact"), ("status", .str "active")]⟩

def knownStore : Store where
  rows :=
    [⟨"p", some "Python", [("memory_type", .str "preference"), ("status", .str "active"), ("mention_count", .int 1)]⟩,
      javaFact]
  keyed := by decide

def repeatedBatch : List ExtractedMemory :=
  [{ type := .kPreference, content := "Python" }, { type := .kFact, content := "Python" }]

def contradicts : Nat → Reply := fun _ => .content none none (some (.obj [("is_contradiction", .bool true)]))

theorem javaFact_judged : ⟨"f", "Java", .kFact⟩ ∈ judged (findCandidates (freshEnv [] fun _ => true) 1 5 knownStore) := by
  refine List.mem_filter.mpr ⟨List.mem_map.mpr ⟨javaFact, ?_, rfl⟩, rfl⟩
  rw [List.take_of_length_le (by rw [List.length_mergeSort]; decide), List.mem_mergeSort]
  exact .tail _ (.head _)

/-- The fact contradicts the old one, which is then invalidated by the block `""`. -/
theorem repeatedBatch_not_sound :
    ¬ ∀ env, Sound {} env "u" repeatedBatch
      (findContradictions {} (freshEnv [] fun _ => true) contradicts knownStore 0 0 repeatedBatch).1 knownStore := by
  intro h
  have hpair : (⟨"Python", "f", "Java", "", 0⟩ : ContradictionPair) ∈
      (findContradictions {} (freshEnv [] fun _ => true) contradicts knownStore 0 0 repeatedBatch).1 :=
    List.mem_append_left _ (mem_judgeCandidates_of_mem (fun _ _ => rfl) javaFact_judged)
  exact not_folded_of_sound h hpair ⟨_, rfl, rfl, _, .head _, by decide⟩

end MemoryExtractor

end Cortrix.Memory
