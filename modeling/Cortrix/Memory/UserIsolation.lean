import Cortrix.Memory.KeptMemories

/-!
# Extraction and the memories of other users

* `Store.of u` : the part of the store that belongs to a user; `Isolated` : two runs on stores that agree on it.
-/

namespace Cortrix.Memory
open Lib Metadata

namespace MemoryExtractor

variable {cfg : Config} {env : Env} {userId : String} {i : Nat} {m m' : ExtractedMemory} {t t' : Store}

def Store.of (userId : String) (t : Store) : Store where
  rows := t.rows.filter fun r => r.userId == userId
  keyed := t.keyed.sublist (List.filter_sublist.map _)

def userOf (window : List InteractionLog) : String := ((window.getLast?).map (·.userId)).getD ""

def Fresh (env : Env) (t : Store) : Prop := ∀ i, env.ulid i ∉ t.ids

def answers (reply : Reply) (judge : Nat → Reply) : Nat → Reply
  | 0 => reply
  | n + 1 => judge n

/-- Two runs for one user, on stores that agree on the user's memories. -/
structure Agrees (cfg : Config) (env : Env) (window : List InteractionLog) (replies : Nat → Reply) (t t' : Store) :
    Prop where
  foreign : ∀ r ∈ t.rows, r.userId ≠ userOf window → r ∈ (extractFromWindow cfg env window replies t).store.rows
  prompts : (extractFromWindow cfg env window replies t).prompts = (extractFromWindow cfg env window replies t').prompts
  blocks : (extractFromWindow cfg env window replies t).store.of (userOf window) =
    (extractFromWindow cfg env window replies t').store.of (userOf window)

/-- Whatever the judgments and the memories of others, the run leaves these alone and does the same. -/
def Isolated (cfg : Config) (window : List InteractionLog) (reply : Reply) (own : Store) : Prop :=
  ∀ env judge t t', t.of (userOf window) = own.of (userOf window) → t'.of (userOf window) = own.of (userOf window) →
    Fresh env t → Fresh env t' → Agrees cfg env window (answers reply judge) t t'

/-- The model reports a fact or a preference. -/
def TouchesOthers (cfg : Config) (window : List InteractionLog) (reply : Reply) : Prop :=
  cfg.enabled = true ∧ window ≠ [] ∧ ∃ whole bracketed unfenced parsed, reply = .content whole bracketed unfenced ∧
    parseExtractionJson whole bracketed = some parsed ∧ ∃ m ∈ parsed, m.type = .kFact ∨ m.type = .kPreference

/-! ## A batch of events -/

theorem findContradictions_plain {replies : Nat → Reply} {n : Nat} {ms : List ExtractedMemory}
    (h : ∀ m ∈ ms, m.type ≠ .kFact) : findContradictions cfg env replies t i n ms = ([], []) := by
  induction ms generalizing i n with
  | nil => rfl
  | cons m ms ih =>
    unfold findContradictions
    rw [if_pos (h m List.mem_cons_self)]
    exact ih fun x hx => h x (List.mem_cons_of_mem _ hx)

theorem insertMemoryBlock_behind {block : Block} {a : Store} {new : List Block} (ht : t.rows = a.rows ++ new)
    (ha : block.blockId ∉ a.ids) :
    (∃ r ∈ new, r.blockId = block.blockId) ∧ insertMemoryBlock block t = none ∨
      (∀ r ∈ new, r.blockId ≠ block.blockId) ∧
        ∃ t', insertMemoryBlock block t = some t' ∧ t'.rows = a.rows ++ (new ++ [block]) := by
  by_cases hnew : ∀ r ∈ new, r.blockId ≠ block.blockId
  · have hne : ∀ r ∈ t.rows, r.blockId ≠ block.blockId := by
      intro r hr
      rw [ht, List.mem_append] at hr
      rcases hr with hr | hr
      · exact fun heq => ha (Store.mem_ids.mpr ⟨r, hr, heq⟩)
      · exact hnew r hr
    refine .inr ⟨hnew, ⟨t.rows ++ [block], keyed_append.mpr ⟨t.keyed, hne⟩⟩, ?_, ?_⟩
    · unfold insertMemoryBlock
      rw [dif_pos hne]
    · show t.rows ++ [block] = _
      rw [ht, List.append_assoc]
  · rw [not_forall] at hnew
    obtain ⟨r, hr⟩ := hnew
    rw [Classical.not_imp, not_not] at hr
    refine .inl ⟨⟨r, hr⟩, ?_⟩
    unfold insertMemoryBlock
    rw [dif_neg]
    intro hne
    exact hne r (by rw [ht]; exact List.mem_append_right _ hr.1) hr.2

theorem batchStore_cons {ms : List ExtractedMemory} (h : writeMemory cfg env userId i m t = some (m', t')) :
    batchStore (writeMemories cfg env userId i (m :: ms) t) = batchStore (writeMemories cfg env userId (i + 1) ms t') := by
  conv_lhs => unfold writeMemories
  rw [h]
  dsimp only
  rcases writeMemories cfg env userId (i + 1) ms t' with e | ⟨done, s⟩ <;> rfl

theorem batchStore_cons_none {ms : List ExtractedMemory} (h : writeMemory cfg env userId i m t = none) :
    batchStore (writeMemories cfg env userId i (m :: ms) t) = t := by
  unfold writeMemories
  rw [h]
  rfl

theorem writeMemory_plain (hplain : m.type ≠ .kPreference) (t : Store) :
    writeMemory cfg env userId i m t =
      (if env.succeeds (.insert i) then insertMemoryBlock (newBlock cfg env userId i m) t else none).map fun t' =>
        ({ m with blockId := env.ulid i }, t') := by
  unfold writeMemory upgrade
  rw [if_neg hplain]

theorem writeMemories_plain {ms : List ExtractedMemory} {a b : Store} {new : List Block}
    (hplain : ∀ m ∈ ms, m.type ≠ .kPreference) (ha : Fresh env a) (hb : Fresh env b) (ht : t.rows = a.rows ++ new)
    (ht' : t'.rows = b.rows ++ new) (hnew : ∀ r ∈ new, r.userId = userId) :
    ∃ new', (∀ r ∈ new', r.userId = userId) ∧
      (batchStore (writeMemories cfg env userId i ms t)).rows = a.rows ++ new' ∧
      (batchStore (writeMemories cfg env userId i ms t')).rows = b.rows ++ new' := by
  induction ms generalizing i t t' new with
  | nil => exact ⟨new, hnew, ht, ht'⟩
  | cons m ms ih =>
    have hrest : ∀ x ∈ ms, x.type ≠ .kPreference := fun x hx => hplain x (List.mem_cons_of_mem _ hx)
    have hm := hplain m List.mem_cons_self
    by_cases hok : env.succeeds (.insert i) = true
    · rcases @insertMemoryBlock_behind _ (newBlock cfg env userId i m) _ _ ht (ha i) with
        ⟨hex, hins⟩ | ⟨hne, t₁, hins, ht₁⟩
      · rcases @insertMemoryBlock_behind _ (newBlock cfg env userId i m) _ _ ht' (hb i) with
          ⟨-, hins'⟩ | ⟨hne, -⟩
        · rw [batchStore_cons_none (by rw [writeMemory_plain hm, if_pos hok, hins]; rfl),
            batchStore_cons_none (by rw [writeMemory_plain hm, if_pos hok, hins']; rfl)]
          exact ⟨new, hnew, ht, ht'⟩
        · obtain ⟨r, hr, heq⟩ := hex
          exact absurd heq (hne r hr)
      · rcases @insertMemoryBlock_behind _ (newBlock cfg env userId i m) _ _ ht' (hb i) with
          ⟨⟨r, hr, heq⟩, -⟩ | ⟨-, t₁', hins', ht₁'⟩
        · exact absurd heq (hne r hr)
        · have hnew' : ∀ r ∈ new ++ [newBlock cfg env userId i m], r.userId = userId := by
            intro r hr
            rcases List.mem_append.mp hr with hr | hr
            · exact hnew r hr
            · rw [List.mem_singleton.mp hr]
              exact userId_newBlock
          rw [batchStore_cons (by rw [writeMemory_plain hm, if_pos hok, hins]; rfl),
            batchStore_cons (by rw [writeMemory_plain hm, if_pos hok, hins']; rfl)]
          exact ih hrest ht₁ ht₁' hnew'
    · rw [batchStore_cons_none (by rw [writeMemory_plain hm, if_neg hok]; rfl),
        batchStore_cons_none (by rw [writeMemory_plain hm, if_neg hok]; rfl)]
      exact ⟨new, hnew, ht, ht'⟩

theorem storeOf_plain (ms : List ExtractedMemory) (t : Store) :
    storeOf (writeWithOperationLog cfg env userId ms [] t) = batchStore (writeMemories cfg env userId 0 ms t) := by
  unfold writeWithOperationLog
  rcases writeMemories cfg env userId 0 ms t with e | ⟨done, s⟩ <;> rfl

/-! ## A run -/

variable {window : List InteractionLog} {last : InteractionLog} {whole bracketed unfenced : Option Json}
  {parsed : List ExtractedMemory} {judge : Nat → Reply}

theorem extractFromWindow_parsed (hen : cfg.enabled = true) (hlast : window.getLast? = some last)
    (hparse : parseExtractionJson whole bracketed = some parsed) (t : Store) :
    (extractFromWindow cfg env window (answers (.content whole bracketed unfenced) judge) t).store =
        storeOf (writeWithOperationLog cfg env last.userId (parsed.map (stamp last))
          (findContradictions cfg env (answers (.content whole bracketed unfenced) judge) t 0 1
            (parsed.map (stamp last))).1 t) ∧
      (extractFromWindow cfg env window (answers (.content whole bracketed unfenced) judge) t).prompts =
        Prompt.extract (buildWindowText cfg window) ::
          (findContradictions cfg env (answers (.content whole bracketed unfenced) judge) t 0 1
            (parsed.map (stamp last))).2 := by
  unfold extractFromWindow
  rw [if_neg (by rw [hen]; decide), hlast]
  dsimp only [answers]
  rw [hparse]
  dsimp only
  rcases writeWithOperationLog cfg env last.userId (parsed.map (stamp last))
    (findContradictions cfg env (answers (.content whole bracketed unfenced) judge) t 0 1 (parsed.map (stamp last))).1 t
    with e | s <;> exact ⟨rfl, rfl⟩

theorem of_rows {u : String} {new : List Block} {a : Store} (ht : t.rows = a.rows ++ new)
    (hnew : ∀ r ∈ new, r.userId = u) : (t.of u).rows = (a.of u).rows ++ new := by
  unfold Store.of
  dsimp only
  rw [ht, List.filter_append]
  congr 1
  rw [List.filter_eq_self]
  intro r hr
  rw [hnew r hr]
  exact beq_self_eq_true u

theorem Store.ext_rows {s s' : Store} (h : s.rows = s'.rows) : s = s' := by
  rcases s with ⟨rows, keyed⟩
  rcases s' with ⟨rows', keyed'⟩
  obtain rfl : rows = rows' := h
  rfl

theorem Agrees.of_unchanged {replies : Nat → Reply}
    (hsame : ∀ s, (extractFromWindow cfg env window replies s).store = s)
    (hprompts : ∀ s s', (extractFromWindow cfg env window replies s).prompts =
      (extractFromWindow cfg env window replies s').prompts)
    (heq : t.of (userOf window) = t'.of (userOf window)) : Agrees cfg env window replies t t' where
  foreign := fun r hr _ => by
    rw [hsame]
    exact hr
  prompts := hprompts t t'
  blocks := by
    rw [hsame, hsame]
    exact heq

theorem Agrees.of_events (hen : cfg.enabled = true) (hlast : window.getLast? = some last)
    (hparse : parseExtractionJson whole bracketed = some parsed)
    (hplain : ∀ m ∈ parsed, m.type ≠ .kFact ∧ m.type ≠ .kPreference) (ht : Fresh env t) (ht' : Fresh env t')
    (heq : t.of (userOf window) = t'.of (userOf window)) :
    Agrees cfg env window (answers (.content whole bracketed unfenced) judge) t t' := by
  have huser : userOf window = last.userId := by
    unfold userOf
    rw [hlast]
    rfl
  have hstamped : ∀ m ∈ parsed.map (stamp last), m.type ≠ .kFact ∧ m.type ≠ .kPreference := by
    intro m hm
    obtain ⟨x, hx, rfl⟩ := List.mem_map.mp hm
    exact hplain x hx
  have hnone : ∀ s, findContradictions cfg env (answers (.content whole bracketed unfenced) judge) s 0 1
      (parsed.map (stamp last)) = ([], []) := fun s => findContradictions_plain fun m hm => (hstamped m hm).1
  obtain ⟨new, hown, hs, hs'⟩ := @writeMemories_plain cfg _ last.userId 0 _ _ _ _ _ []
    (fun m hm => (hstamped m hm).2) ht ht' (List.append_nil _).symm (List.append_nil _).symm (by simp)
  have hstore : ∀ s, (extractFromWindow cfg env window (answers (.content whole bracketed unfenced) judge) s).store =
      batchStore (writeMemories cfg env last.userId 0 (parsed.map (stamp last)) s) := by
    intro s
    rw [(extractFromWindow_parsed hen hlast hparse s).1, hnone s, storeOf_plain]
  exact
    { foreign := fun r hr _ => by
        rw [hstore, hs]
        exact List.mem_append_left _ hr
      prompts := by
        rw [(extractFromWindow_parsed hen hlast hparse t).2, (extractFromWindow_parsed hen hlast hparse t').2,
          hnone t, hnone t']
      blocks := by
        rw [hstore, hstore]
        apply Store.ext_rows
        rw [huser] at heq ⊢
        rw [of_rows hs hown, of_rows hs' hown, heq] }

theorem Isolated.of_not_touches {reply : Reply} (own : Store) (h : ¬ TouchesOthers cfg window reply) :
    Isolated cfg window reply own := by
  intro env judge t t' hown hown' ht ht'
  have heq := hown.trans hown'.symm
  by_cases hen : cfg.enabled = true
  · rcases hlast : window.getLast? with - | last
    · apply Agrees.of_unchanged _ _ heq <;> intros <;> unfold extractFromWindow <;> rw [hen, hlast] <;> rfl
    · rcases reply with code | ⟨whole, bracketed, unfenced⟩
      · apply Agrees.of_unchanged _ _ heq <;> intros <;> unfold extractFromWindow <;> rw [hen, hlast] <;> rfl
      · rcases hparse : parseExtractionJson whole bracketed with - | parsed
        · have hrun : ∀ s, extractFromWindow cfg env window (answers (.content whole bracketed unfenced) judge) s =
              ⟨some .kExtractInvalidOutput, s, [Prompt.extract (buildWindowText cfg window)]⟩ := by
            intro s
            unfold extractFromWindow
            rw [hen, hlast]
            dsimp only [answers]
            rw [hparse]
            rfl
          exact Agrees.of_unchanged (fun s => by rw [hrun s]) (fun s s' => by rw [hrun s, hrun s']) heq
        · have hne : window ≠ [] := by
            rintro rfl
            cases hlast
          apply Agrees.of_events hen hlast hparse _ ht ht' heq
          intro m hm
          constructor
          · intro hfact
            exact h ⟨hen, hne, whole, bracketed, unfenced, parsed, rfl, hparse, m, hm, .inl hfact⟩
          · intro hpref
            exact h ⟨hen, hne, whole, bracketed, unfenced, parsed, rfl, hparse, m, hm, .inr hpref⟩
  · have hrun : ∀ s, extractFromWindow cfg env window (answers reply judge) s = ⟨some .kLlmDisabled, s, []⟩ := by
      intro s
      unfold extractFromWindow
      rw [Bool.eq_false_iff.mpr hen]
      rfl
    exact Agrees.of_unchanged (fun s => by rw [hrun s]) (fun s s' => by rw [hrun s, hrun s']) heq

/-! ## The order of the candidates -/

theorem SqlValue.le_total (a b : SqlValue) : (a.le b || b.le a) = true := by
  rcases a with - | q | s <;> rcases b with - | q' | s' <;> simp only [SqlValue.le, Bool.or_true, Bool.or_false,
    Bool.or_eq_true, decide_eq_true_eq]
  · exact Rat.le_total
  · exact String.le_total s s'

theorem SqlValue.le_trans (a b c : SqlValue) (h : a.le b = true) (h' : b.le c = true) : a.le c = true := by
  rcases a with - | q | s <;> rcases b with - | q' | s' <;> rcases c with - | q'' | s'' <;>
    simp only [SqlValue.le, reduceCtorEq, decide_eq_true_eq] at h h' ⊢
  · exact Rat.le_trans h h'
  · exact String.le_trans h h'

theorem exists_newest (key : Block → SqlValue) (l : List Block) (hl : l ≠ []) :
    ∃ x ∈ l, ∀ y ∈ l, (key y).le (key x) = true := by
  induction l with
  | nil => exact absurd rfl hl
  | cons a l ih =>
    have hrefl : ∀ v : SqlValue, v.le v = true := by
      intro v
      simpa using SqlValue.le_total v v
    rcases l with - | ⟨b, l⟩
    · exact ⟨a, List.mem_cons_self, fun y hy => by rw [List.mem_singleton.mp hy]; exact hrefl _⟩
    · obtain ⟨x, hx, hmax⟩ := ih (List.cons_ne_nil b l)
      rcases (Bool.or_eq_true _ _).mp (SqlValue.le_total (key a) (key x)) with hle | hle
      · refine ⟨x, List.mem_cons_of_mem _ hx, fun y hy => ?_⟩
        rcases List.mem_cons.mp hy with rfl | hy
        · exact hle
        · exact hmax y hy
      · refine ⟨a, List.mem_cons_self, fun y hy => ?_⟩
        rcases List.mem_cons.mp hy with rfl | hy
        · exact hrefl _
        · exact SqlValue.le_trans _ _ _ (hmax y hy) hle

variable {f : Block} {rest : List Block} {cs : List ContradictionPair}

theorem head_candidate {taken : List String} {topK : Int} (ht : t.rows = f :: rest) (hact : f.status = "active")
    (hfact : f.memoryType = "fact")
    (hnew : ∀ x ∈ rest, (createdAt (fun _ => "") x).le (createdAt (fun _ => "") f) = true) :
    ⟨f.blockId, f.content, .kFact⟩ ∈ judged (findCandidates (freshEnv taken fun _ => true) i topK t) := by
  refine List.mem_filter.mpr ⟨List.mem_map.mpr ⟨f, ?_, by rw [hfact]; rfl⟩, rfl⟩
  show f ∈ List.take (if 0 < topK then topK.toNat else 5) (List.mergeSort (t.rows.filter fun r =>
    r.status == "active" && (r.memoryType == "fact" || r.memoryType == "preference")) fun a b =>
      (createdAt (fun _ => "") b).le (createdAt (fun _ => "") a))
  rw [ht, List.filter_cons_of_pos (by rw [hact, hfact]; rfl)]
  obtain ⟨l₁, l₂, hsort, hperm, hless⟩ := @List.mergeSort_cons _
    (fun a b => (createdAt (fun _ => "") b).le (createdAt (fun _ => "") a)) (fun a b c h h' => SqlValue.le_trans _ _ _ h' h)
    (fun a b => SqlValue.le_total (createdAt (fun _ => "") b) (createdAt (fun _ => "") a)) f
    (rest.filter fun r => r.status == "active" && (r.memoryType == "fact" || r.memoryType == "preference"))
  have hnil : l₁ = [] := by
    rw [List.eq_nil_iff_forall_not_mem]
    intro x hx
    have hmem : x ∈ rest := by
      have hsorted := hperm ▸ List.mem_append_left l₂ hx
      exact List.mem_of_mem_filter (List.mem_mergeSort.mp hsorted)
    have hlt := hless x hx
    rw [hnew x hmem] at hlt
    cases hlt
  have hpos : ∃ k, (if 0 < topK then topK.toNat else 5) = k + 1 := by
    split
    · exact ⟨topK.toNat - 1, by omega⟩
    · exact ⟨4, rfl⟩
  obtain ⟨k, hk⟩ := hpos
  rw [hsort, hnil, hk]
  exact List.mem_cons_self

/-! ## A fact of another user is lost -/

def goodEnv (t : Store) : Env := freshEnv t.ids fun _ => true

theorem fresh_goodEnv (t : Store) : Fresh (goodEnv t) t := fun i => freshUlid_notMem t.ids i

variable {ms : List ExtractedMemory} {replies : Nat → Reply} {n : Nat}

theorem mem_findContradictions_of_judged {nm : ExtractedMemory} {cand : CandidateBlock} {c : ContradictionPair}
    (hnm : nm ∈ ms) (hfact : nm.type = .kFact) (hcand : ∀ i, cand ∈ judged (findCandidates env i cfg.contradictionTopK t))
    (hreply : ∀ k, n ≤ k → judgePair nm cand (replies k) = some c) :
    c ∈ (findContradictions cfg env replies t i n ms).1 := by
  induction ms generalizing i n with
  | nil => cases hnm
  | cons x ms ih =>
    unfold findContradictions
    split
    · rename_i hne
      rcases List.mem_cons.mp hnm with rfl | hnm
      · exact absurd hfact hne
      · exact ih hnm hreply
    · rcases List.mem_cons.mp hnm with rfl | hnm
      · exact List.mem_append_left _ (mem_judgeCandidates_of_mem hreply (hcand i))
      · exact List.mem_append_right _ (ih hnm fun k hk => hreply k (by omega))

def Gone (id : String) (t : Store) : Prop := ∀ r ∈ t.rows, r.blockId = id → r.status = "invalidated"

theorem Gone.invalidateOld {id : String} {j : Nat} (h : Gone id t) :
    Gone id (storeOf (invalidateOld cfg env ms j cs t)) := by
  intro r hr hid
  rcases mem_invalidateOld hr with hmem | ⟨c, -, -, md, hmd⟩
  · exact h r hmem hid
  · unfold Block.status
    rw [hmd, status_invalidated]

theorem gone_of_mem {id : String} {j : Nat} {c : ContradictionPair} (hall : ∀ call, env.succeeds call = true)
    (hc : c ∈ cs) (hold : c.oldBlockId = id) (hid : id ∈ t.ids) :
    Gone id (storeOf (invalidateOld cfg env ms j cs t)) := by
  induction cs generalizing j t with
  | nil => cases hc
  | cons x cs ih =>
    unfold MemoryExtractor.invalidateOld
    rw [hall, if_pos rfl]
    split
    · rename_i hget
      rcases List.mem_cons.mp hc with rfl | hc
      · obtain ⟨r, hr, hrid⟩ := Store.mem_ids.mp hid
        exact absurd (hrid.trans hold.symm) (lookup_eq_none.mp hget r hr)
      · exact ih hc hid
    · rename_i old hget
      have hupd : env.succeeds (.updateOld j) = true := hall _
      rw [if_pos hupd]
      rcases List.mem_cons.mp hc with rfl | hc
      · apply Gone.invalidateOld
        intro r hr hrid
        obtain ⟨y, hy, rfl⟩ := mem_updateMemoryBlock.mp hr
        split
        · exact status_invalidated _ _ _ _
        · rename_i hne
          rw [if_neg hne] at hrid
          exact absurd (hrid.trans (hold.symm.trans (getMemoryBlock_eq_some hget).2.symm)) hne
      · exact ih hc (by rw [ids_updateMemoryBlock]; exact hid)

theorem storeOf_write {done : List ExtractedMemory} (hok : writeMemories cfg env userId 0 ms t = .ok (done, t')) :
    storeOf (writeWithOperationLog cfg env userId ms cs t) = storeOf (invalidateOld cfg env done 0 cs t') := by
  unfold writeWithOperationLog
  rw [hok]

theorem goodEnv_ok (ms : List ExtractedMemory) (t : Store) :
    ∃ done t', writeMemories cfg (goodEnv t) userId 0 ms t = .ok (done, t') :=
  writeMemories_ok rfl (fun _ => rfl) fun j _ => freshUlid_notMem t.ids j

theorem first_fact_lost {nm : ExtractedMemory} {jm : Judgment} (ht : t.rows = f :: rest) (hact : f.status = "active")
    (hfact : f.memoryType = "fact")
    (hnew : ∀ x ∈ rest, (createdAt (fun _ => "") x).le (createdAt (fun _ => "") f) = true) (hnm : nm ∈ ms)
    (hnmFact : nm.type = .kFact) (hreply : ∀ k, 1 ≤ k → (replies k).judgment = some jm)
    (hyes : jm.isContradiction = true) :
    f ∉ (storeOf (writeWithOperationLog cfg (goodEnv t) userId ms
      (findContradictions cfg (goodEnv t) replies t 0 1 ms).1 t)).rows := by
  obtain ⟨done, t', hok⟩ := @goodEnv_ok cfg userId ms t
  have hmem : f ∈ t.rows := by
    rw [ht]
    exact List.mem_cons_self
  have hpair := @mem_findContradictions_of_judged cfg (goodEnv t) 0 t _ replies 1 _ ⟨f.blockId, f.content, .kFact⟩
    ⟨nm.content, f.blockId, f.content, jm.reason, jm.confidence⟩ hnm hnmFact
    (fun i => head_candidate ht hact hfact hnew) (fun k hk => by
      unfold judgePair
      rw [hreply k hk]
      dsimp only
      rw [if_pos hyes])
  have hid : f.blockId ∈ t'.ids := (grown_of_ok hok).ids (Store.mem_ids.mpr ⟨f, hmem, rfl⟩)
  intro hfinal
  rw [storeOf_write hok] at hfinal
  have hgone := gone_of_mem (fun _ => rfl) hpair rfl hid f hfinal rfl
  rw [hact] at hgone
  exact absurd hgone (by decide)

/-! ## A preference of another user is counted -/

theorem head_writeMemories {done : List ExtractedMemory} {r : Block} (ht : t.rows = r :: rest)
    (h : writeMemories cfg env userId i ms t = .ok (done, t')) :
    ∃ r' rest', t'.rows = r' :: rest' ∧ r'.blockId = r.blockId := by
  induction ms generalizing i t r rest done with
  | nil =>
    obtain ⟨-, rfl⟩ := Prod.mk.inj (Except.ok.inj h)
    exact ⟨r, rest, ht, rfl⟩
  | cons m ms ih =>
    obtain ⟨m', t₁, done', hm, hrest, -⟩ := writeMemories_cons.mp h
    have hhead : ∃ r₁ rest₁, t₁.rows = r₁ :: rest₁ ∧ r₁.blockId = r.blockId := by
      rcases writeMemory_cases hm with ⟨-, hup⟩ | ⟨-, -, -, hrows⟩
      · obtain ⟨-, x, -, -, rfl⟩ := upgrade_eq_some hup
        unfold updateMemoryBlock updateWhere
        dsimp only
        rw [ht, List.map_cons]
        refine ⟨_, _, rfl, ?_⟩
        split <;> rfl
      · rw [hrows, ht]
        exact ⟨r, rest ++ [_], rfl, rfl⟩
    obtain ⟨r₁, rest₁, ht₁, hid₁⟩ := hhead
    obtain ⟨r', rest', ht', hid'⟩ := ih ht₁ hrest
    exact ⟨r', rest', ht', hid'.trans hid₁⟩

theorem first_preference_counted (ht : t.rows = f :: rest) (hrep : f.Repeats m.content)
    (hkey : getKey "mention_count" f.metadata = none) (hm : m ∈ ms) (hpref : m.type = .kPreference) :
    f ∉ (storeOf (writeWithOperationLog cfg (goodEnv t) userId ms cs t)).rows := by
  obtain ⟨done, t', hok⟩ := @goodEnv_ok cfg userId ms t
  obtain ⟨pre, post, rfl⟩ := List.append_of_mem hm
  obtain ⟨done₁, before, m', after, done₂, hrun, hstep, hpost, -⟩ := writeMemories_split hok
  have hmem : f ∈ t.rows := by
    rw [ht]
    exact List.mem_cons_self
  obtain ⟨f₁, rest₁, ht₁, hid₁⟩ := head_writeMemories ht hrun
  have hf₁ : f₁ ∈ before.rows := by
    rw [ht₁]
    exact List.mem_cons_self
  have hb := (grown_of_ok hrun).becomes hmem hf₁ hid₁
  have hrep₁ : f₁.Repeats m.content :=
    ⟨hb.status.trans hrep.1, hb.type.trans hrep.2.1, hb.text.trans hrep.2.2⟩
  have hfound : findMatchingPreference (goodEnv t) (0 + pre.length) m.content before = some f₁ := by
    show before.rows.find? _ = _
    rw [ht₁, List.find?_cons_of_pos]
    rw [hrep₁.1, hrep₁.2.1, hrep₁.2.2]
    simp
  have hup := @upgrade_of_found cfg (goodEnv t) _ _ _ _ hpref hfound rfl rfl
  have hafter : after = updateMemoryBlock f₁.blockId (upgraded cfg (goodEnv t) f₁.metadata) before := by
    rcases writeMemory_cases hstep with ⟨-, hsome⟩ | ⟨-, hnone, -, -⟩
    · exact Option.some.inj (hsome.symm.trans hup)
    · exact absurd (hnone.symm.trans hup) (by simp)
  have hf₂ : f₁.upgrade cfg (goodEnv t) ∈ after.rows := by
    rw [hafter]
    exact mem_updateMemoryBlock.mpr ⟨f₁, hf₁, if_pos rfl⟩
  intro hfinal
  rw [storeOf_write hok] at hfinal
  rcases mem_invalidateOld hfinal with hstill | ⟨c, -, -, md, hmd⟩
  · have hb₂ := (grown_of_ok hpost).becomes hf₂ hstill hid₁.symm
    have hcounted := hb₂.key (by simp [Block.upgrade, upgraded, getKey_setKey])
    rw [hkey] at hcounted
    cases hcounted
  · have hstatus : f.status = "invalidated" := by
      unfold Block.status
      rw [hmd, status_invalidated]
    rw [hrep.1] at hstatus
    exact absurd hstatus (by decide)

/-! ## What isolation takes -/

def withForeign (f : Block) (own : Store) (h : f.blockId ∉ own.ids) : Store where
  rows := f :: own.rows
  keyed := List.nodup_cons.mpr ⟨h, own.keyed⟩

def otherUser (userId : String) : String := userId ++ "x"

theorem otherUser_ne (userId : String) : otherUser userId ≠ userId := by
  intro h
  have hlen := congrArg String.length h
  unfold otherUser at hlen
  rw [String.length_append] at hlen
  exact absurd hlen (by rw [show "x".length = 1 from rfl]; omega)

theorem of_withForeign {u : String} {own : Store} (h : f.blockId ∉ (own.of u).ids) (hf : f.userId ≠ u) :
    (withForeign f (own.of u) h).of u = own.of u := by
  apply Store.ext_rows
  unfold Store.of withForeign
  dsimp only
  rw [List.filter_cons_of_neg (by simpa using hf), List.filter_filter]
  simp

def foreignFact (userId id : String) (like : Option Block) : Block where
  blockId := id
  contentText := some ""
  metadata :=
    [("memory_type", .str "fact"), ("status", .str "active"), ("user_id", .str (otherUser userId))] ++
      ((like.bind fun r => getKey "created_at" r.metadata).map fun v => ("created_at", v)).toList

theorem createdAt_foreignFact (userId id : String) (r : Block) :
    createdAt (fun _ => "") (foreignFact userId id (some r)) = createdAt (fun _ => "") r := by
  have hkey : getKey "created_at" (foreignFact userId id (some r)).metadata = getKey "created_at" r.metadata := by
    unfold foreignFact
    dsimp only [Option.bind]
    rcases getKey "created_at" r.metadata with - | v <;> simp [getKey, lookup]
  unfold createdAt
  rw [hkey]

theorem userId_foreignFact (userId id : String) (like : Option Block) :
    (foreignFact userId id like).userId = otherUser userId := by
  simp [Block.userId, foreignFact, jsonStr, getKey, lookup]

theorem status_foreignFact (userId id : String) (like : Option Block) :
    (foreignFact userId id like).status = "active" := by
  simp [Block.status, foreignFact, jsonStr, getKey, lookup]

theorem memoryType_foreignFact (userId id : String) (like : Option Block) :
    (foreignFact userId id like).memoryType = "fact" := by
  simp [Block.memoryType, foreignFact, jsonStr, getKey, lookup]

def foreignPreference (userId id content : String) : Block where
  blockId := id
  contentText := some (cText content)
  metadata := [("memory_type", .str "preference"), ("status", .str "active"), ("user_id", .str (otherUser userId))]

theorem userId_foreignPreference (userId id content : String) :
    (foreignPreference userId id content).userId = otherUser userId := by
  simp [Block.userId, foreignPreference, jsonStr, getKey, lookup]

theorem foreignPreference_repeats (userId id content : String) :
    (foreignPreference userId id content).Repeats content := by
  simp [Block.Repeats, Block.status, Block.memoryType, foreignPreference, jsonStr, getKey, lookup]

theorem exists_foreignFact (userId id : String) (rows : List Block) :
    ∃ like, ∀ x ∈ rows,
      (createdAt (fun _ => "") x).le (createdAt (fun _ => "") (foreignFact userId id like)) = true := by
  by_cases hnil : rows = []
  · exact ⟨none, by rw [hnil]; intro x hx; cases hx⟩
  · obtain ⟨r, -, hmax⟩ := exists_newest (createdAt fun _ => "") rows hnil
    refine ⟨some r, fun x hx => ?_⟩
    rw [createdAt_foreignFact]
    exact hmax x hx

theorem Isolated.foreign_stays {own : Store} (h : Isolated cfg window (.content whole bracketed unfenced) own)
    (hen : cfg.enabled = true) (hlast : window.getLast? = some last)
    (hparse : parseExtractionJson whole bracketed = some parsed) (hid : f.blockId ∉ (own.of (userOf window)).ids)
    (hf : f.userId ≠ userOf window) (judge : Nat → Reply) :
    f ∈ (storeOf (writeWithOperationLog cfg (goodEnv (withForeign f (own.of (userOf window)) hid)) last.userId
      (parsed.map (stamp last))
      (findContradictions cfg (goodEnv (withForeign f (own.of (userOf window)) hid))
        (answers (.content whole bracketed unfenced) judge) (withForeign f (own.of (userOf window)) hid) 0 1
        (parsed.map (stamp last))).1
      (withForeign f (own.of (userOf window)) hid))).rows := by
  have hof := of_withForeign hid hf
  have hstay := (h (goodEnv (withForeign f (own.of (userOf window)) hid)) judge _ _ hof hof (fresh_goodEnv _)
    (fresh_goodEnv _)).foreign f List.mem_cons_self hf
  rwa [(extractFromWindow_parsed hen hlast hparse _).1] at hstay

theorem Isolated.not_touches {reply : Reply} {own : Store} (h : Isolated cfg window reply own) :
    ¬ TouchesOthers cfg window reply := by
  rintro ⟨hen, hne, whole, bracketed, unfenced, parsed, rfl, hparse, m, hm, htype⟩
  have hlast := List.getLast?_eq_some_getLast hne
  have hstamped : stamp (window.getLast hne) m ∈ parsed.map (stamp (window.getLast hne)) :=
    List.mem_map.mpr ⟨m, hm, rfl⟩
  rcases htype with hfact | hpref
  · obtain ⟨like, hnewest⟩ := exists_foreignFact (userOf window) (freshUlid (own.of (userOf window)).ids 0)
      (own.of (userOf window)).rows
    have hid : (foreignFact (userOf window) (freshUlid (own.of (userOf window)).ids 0) like).blockId ∉
        (own.of (userOf window)).ids := freshUlid_notMem _ 0
    have hf : (foreignFact (userOf window) (freshUlid (own.of (userOf window)).ids 0) like).userId ≠ userOf window := by
      rw [userId_foreignFact]
      exact otherUser_ne _
    exact @first_fact_lost _ _ _ _ _ _ _ _ ⟨true, "", 0⟩ rfl (status_foreignFact _ _ _) (memoryType_foreignFact _ _ _) hnewest
      hstamped hfact (fun k hk => by
        obtain ⟨k, rfl⟩ := Nat.exists_eq_add_of_le' hk
        rfl) rfl (h.foreign_stays hen hlast hparse hid hf contradicts)
  · have hid : (foreignPreference (userOf window) (freshUlid (own.of (userOf window)).ids 0) m.content).blockId ∉
        (own.of (userOf window)).ids := freshUlid_notMem _ 0
    have hf : (foreignPreference (userOf window) (freshUlid (own.of (userOf window)).ids 0) m.content).userId ≠
        userOf window := by
      rw [userId_foreignPreference]
      exact otherUser_ne _
    exact first_preference_counted rfl (foreignPreference_repeats _ _ _) rfl hstamped hpref
      (h.foreign_stays hen hlast hparse hid hf contradicts)

/-- The memories of other users stay out of a run exactly when the model reports neither a fact nor a preference. -/
theorem extractFromWindow_isolated (cfg : Config) (window : List InteractionLog) (reply : Reply) (own : Store) :
    Isolated cfg window reply own ↔ ¬ TouchesOthers cfg window reply :=
  ⟨Isolated.not_touches, Isolated.of_not_touches own⟩

/-! ## Two users with one preference -/

def pythonTurn : List InteractionLog := [⟨"i", "ann", "s", "user", "I like Python"⟩]

def pythonReply : Reply :=
  .content (some (.arr [.obj [("type", .str "preference"), ("content", .str "Python")]])) none none

def emptyStore : Store := ⟨[], List.nodup_nil⟩

def bobStore : Store where
  rows := [⟨"b", some "Python", [("memory_type", .str "preference"), ("status", .str "active"), ("user_id", .str "bob")]⟩]
  keyed := by decide

/-- What `ann` says is counted on the block of `bob`, and no block of hers is written. -/
theorem bobStore_not_isolated :
    ((extractFromWindow {} (goodEnv bobStore) pythonTurn (answers pythonReply contradicts) bobStore).store.rows.map
        fun r => (r.blockId, r.userId, mentionCount r.metadata)) = [("b", "bob", 2)] ∧
      ¬ Isolated {} pythonTurn pythonReply emptyStore := by
  refine ⟨by decide, fun h => ?_⟩
  exact h.not_touches ⟨rfl, by decide, _, _, _, _, rfl, rfl, _, .head _, .inr (by decide)⟩

end MemoryExtractor

end Cortrix.Memory
