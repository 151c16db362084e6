import Cortrix.Common.Ints
import Cortrix.Lib.Bytes
import Cortrix.Lib.Thinning

/-!
# Removing duplicate blocks

`Dedup` goes over the blocks twice: blocks with the hash of an earlier one are removed, then blocks whose embedding is
similar to that of an earlier block that stays.

* `exactStep_eq`, `semanticStep_eq` : both steps are thinnings of the list of blocks;
* `Sound` : what the removal promises; `dedup_sound_iff` : when it is kept. An embedding that cannot be compared has
  similarity 0, which the threshold 0 takes for similar.
-/

namespace Cortrix.Spc.DataCleaner
open Lib Lib.Thinning

structure Block where
  id : String
  chunk_text : Bytes
  embedding : List Rat

structure CleaningConfig where
  dedup_enabled : Bool := true
  dedup_similarity_threshold : Rat := 95 / 100
  max_chunk_chars : Int := 10000

inductive CleaningErrorCode
  | kDedupThresholdRange | kAnomalyConfigInvalid

def ValidateConfig (config : CleaningConfig) : Option CleaningErrorCode :=
  if config.dedup_similarity_threshold < 0 ∨ 1 < config.dedup_similarity_threshold then some .kDedupThresholdRange
  else if config.max_chunk_chars ≤ 0 then some .kAnomalyConfigInvalid
  else none

structure DedupResult where
  removed_count : Int := 0
  kept_count : Int := 0
  removed_block_ids : List String := []
  hash_dedup_count : Int := 0
  semantic_dedup_count : Int := 0

def AllZero (v : List Rat) : Bool := v.all fun x => x = 0

/-- `Cosine`, as far as the code relies on it. -/
structure Similarity where
  sim : List Rat → List Rat → Rat
  range : ∀ a b, -1 ≤ sim a b ∧ sim a b ≤ 1
  unusable : ∀ a b, a = [] ∨ a.length ≠ b.length ∨ AllZero a = true ∨ AllZero b = true → sim a b = 0

/-! ## The two steps -/

section
variable {κ : Type} [DecidableEq κ] (sha : Bytes → κ) (s : Similarity) (threshold : Rat)

/-- Step 1. The flag of a block is that it is not marked for removal; the second list is what is appended to the removed
ids. -/
def exactStep : List κ → List Block → Flagged Block × List String
  | _, [] => ([], [])
  | seen_hashes, b :: bs =>
    if sha b.chunk_text ∈ seen_hashes then
      ((b, false) :: (exactStep seen_hashes bs).1, b.id :: (exactStep seen_hashes bs).2)
    else
      ((b, true) :: (exactStep (seen_hashes ++ [sha b.chunk_text]) bs).1,
        (exactStep (seen_hashes ++ [sha b.chunk_text]) bs).2)

def Similar (a b : Block) : Prop := threshold ≤ s.sim a.embedding b.embedding

instance : DecidableRel (Similar s threshold) := fun a b =>
  inferInstanceAs (Decidable (threshold ≤ s.sim a.embedding b.embedding))

/-- Step 2 from a candidate on. Blocks that step 1 has marked are no candidates. -/
def semanticStep : Flagged Block → Flagged Block × List String
  | [] => ([], [])
  | (b, false) :: ms => ((b, false) :: (semanticStep ms).1, (semanticStep ms).2)
  | (b, true) :: ms =>
    let removed := ms.filter fun e => e.2 && decide (Similar s threshold b e.1)
    let next := semanticStep (hitAll (Similar s threshold) b ms)
    ((b, true) :: next.1, removed.map (fun e => e.1.id) ++ next.2)
termination_by ms => ms.length

end

variable {κ : Type} [DecidableEq κ]

def afterExact (sha : Bytes → κ) (config : CleaningConfig) (blocks : List Block) : Flagged Block :=
  if config.dedup_enabled then (exactStep sha [] blocks).1 else blocks.map (·, true)

def afterSemantic (sha : Bytes → κ) (s : Similarity) (config : CleaningConfig) (blocks : List Block) : Flagged Block :=
  if config.dedup_enabled then (semanticStep s config.dedup_similarity_threshold (exactStep sha [] blocks).1).1
  else blocks.map (·, true)

def Dedup (sha : Bytes → κ) (s : Similarity) (config : CleaningConfig) (blocks : List Block) :
    List Block × DedupResult :=
  if !config.dedup_enabled then (blocks, { kept_count := toInt blocks.length })
  else
    let exact := exactStep sha [] blocks
    let semantic := semanticStep s config.dedup_similarity_threshold exact.1
    let kept := live semantic.1
    (kept, {
      hash_dedup_count := toInt exact.2.length
      semantic_dedup_count := toInt semantic.2.length
      removed_count := toInt (toInt exact.2.length + toInt semantic.2.length)
      kept_count := toInt kept.length
      removed_block_ids := exact.2 ++ semantic.2 })

/-! ## The steps as thinnings -/

variable {sha : Bytes → κ} {s : Similarity} {threshold : Rat}

def SameHash (sha : Bytes → κ) (a b : Block) : Prop := sha a.chunk_text = sha b.chunk_text

instance (sha : Bytes → κ) : DecidableRel (SameHash sha) := fun a b =>
  inferInstanceAs (Decidable (sha a.chunk_text = sha b.chunk_text))

def fresh (blocks : List Block) : Flagged Block := blocks.map (·, true)

theorem exactStep_thin (sha : Bytes → κ) (K blocks : List Block) :
    (exactStep sha (K.map fun k => sha k.chunk_text) blocks).1 = thin (SameHash sha) K (fresh blocks) := by
  induction blocks generalizing K with
  | nil => rfl
  | cons b bs ih =>
    have hseen : sha b.chunk_text ∈ K.map (fun k => sha k.chunk_text) ↔ K.any (SameHash sha · b) = true := by
      rw [List.mem_map, List.any_eq_true]
      exact exists_congr fun k => and_congr_right fun _ => decide_eq_true_iff.symm
    rw [exactStep, fresh, List.map_cons, thin]
    by_cases h : K.any (SameHash sha · b) = true
    · rw [if_pos (hseen.mpr h), if_pos h, ih]
      rfl
    · have hK : K.map (fun k => sha k.chunk_text) ++ [sha b.chunk_text] =
          (K ++ [b]).map fun k => sha k.chunk_text := by simp
      rw [if_neg (fun hm => h (hseen.mp hm)), if_neg h, hK, ih]
      rfl

theorem exactStep_eq (sha : Bytes → κ) (blocks : List Block) :
    (exactStep sha [] blocks).1 = thin (SameHash sha) [] (fresh blocks) :=
  exactStep_thin sha [] blocks

theorem semanticStep_eq (ms : Flagged Block) : (semanticStep s threshold ms).1 = thin (Similar s threshold) [] ms := by
  rw [← sweep_eq_thin]
  fun_induction semanticStep s threshold ms with
  | case1 => rw [sweep]
  | case2 b ms ih => rw [sweep, ih]
  | case3 b ms ih => rw [sweep, ← ih]

/-! ## The removed ids -/

def ids (blocks : List Block) : List String := blocks.map (·.id)

theorem exactStep_ids (sha : Bytes → κ) (seen : List κ) (blocks : List Block) :
    (ids blocks).Perm ((exactStep sha seen blocks).2 ++ ids (live (exactStep sha seen blocks).1)) := by
  induction blocks generalizing seen with
  | nil => exact List.Perm.refl _
  | cons b bs ih =>
    rw [exactStep]
    split
    · exact (ih seen).cons b.id
    · exact ((ih _).cons b.id).trans List.perm_middle.symm

theorem live_hit (b : Block) (ms : Flagged Block) :
    (ids (live ms)).Perm ((ms.filter fun e => e.2 && decide (Similar s threshold b e.1)).map (fun e => e.1.id) ++
      ids (live (hitAll (Similar s threshold) b ms))) := by
  induction ms with
  | nil => exact List.Perm.refl _
  | cons e ms ih =>
    obtain ⟨x, _ | _⟩ := e
    · exact ih
    · by_cases hx : Similar s threshold b x
      · have h1 : hit (Similar s threshold) b (x, true) = (x, false) := if_pos ⟨rfl, hx⟩
        rw [hitAll, List.map_cons, h1, List.filter_cons_of_pos (by simp [hx]), live_cons, if_pos rfl, live_cons]
        exact ih.cons x.id
      · have h1 : hit (Similar s threshold) b (x, true) = (x, true) := if_neg fun h => hx h.2
        rw [hitAll, List.map_cons, h1, List.filter_cons_of_neg (by simp [hx]), live_cons, if_pos rfl, live_cons,
          if_pos rfl]
        exact (ih.cons x.id).trans List.perm_middle.symm

theorem semanticStep_ids (s : Similarity) (threshold : Rat) (ms : Flagged Block) :
    (ids (live ms)).Perm ((semanticStep s threshold ms).2 ++ ids (live (semanticStep s threshold ms).1)) := by
  fun_induction semanticStep s threshold ms with
  | case1 => exact List.Perm.refl _
  | case2 b ms ih => exact ih
  | case3 b ms ih =>
    rw [live_cons, if_pos rfl, live_cons, if_pos rfl, List.append_assoc]
    refine (((live_hit b ms).trans (ih.append_left _)).cons b.id).trans ?_
    rw [← List.append_assoc, ← List.append_assoc]
    exact List.perm_middle.symm

/-! ## Sound removal -/

/-- An embedding that cannot be compared with the others: absent, zero or of another dimension. -/
def Unusable (blocks : List Block) (j : Nat) (b : Block) : Prop :=
  b.embedding = [] ∨ AllZero b.embedding = true ∨
    ∀ i c, blocks[i]? = some c → i ≠ j → c.embedding.length ≠ b.embedding.length

def FirstWithText (blocks : List Block) (text : Bytes) (i : Nat) (b : Block) : Prop :=
  blocks[i]? = some b ∧ b.chunk_text = text ∧ ∀ h < i, ∀ c, blocks[h]? = some c → c.chunk_text ≠ text

/-- The hash tells the texts of the blocks apart. -/
def CollisionFree (sha : Bytes → κ) (blocks : List Block) : Prop :=
  ∀ a ∈ blocks, ∀ b ∈ blocks, sha a.chunk_text = sha b.chunk_text → a.chunk_text = b.chunk_text

structure Sound (sha : Bytes → κ) (s : Similarity) (config : CleaningConfig) (blocks : List Block) : Prop where
  in_order : (Dedup sha s config blocks).1.Sublist blocks
  distinct : (Dedup sha s config blocks).1.Pairwise fun a b =>
    sha a.chunk_text ≠ sha b.chunk_text ∧ s.sim a.embedding b.embedding < config.dedup_similarity_threshold
  covered : ∀ (j : Nat) (b : Block), (afterSemantic sha s config blocks)[j]? = some (b, false) →
    ∃ (i : Nat) (b' : Block), FirstWithText blocks b.chunk_text i b' ∧
      ((afterSemantic sha s config blocks)[i]? = some (b', true) ∨
        ∃ h < i, ∃ c : Block, (afterSemantic sha s config blocks)[h]? = some (c, true) ∧
          config.dedup_similarity_threshold ≤ s.sim c.embedding b'.embedding)
  removed_count : (Dedup sha s config blocks).2.removed_count =
    (Dedup sha s config blocks).2.hash_dedup_count + (Dedup sha s config blocks).2.semantic_dedup_count
  kept_count : (Dedup sha s config blocks).2.kept_count = (Dedup sha s config blocks).1.length
  /-- The sum is an `int`, as its summands are. -/
  total : toInt ((Dedup sha s config blocks).2.removed_count + (Dedup sha s config blocks).2.kept_count) = blocks.length
  removed_ids : (ids blocks).Perm
    ((Dedup sha s config blocks).2.removed_block_ids ++ ids (Dedup sha s config blocks).1)
  second_run : Dedup sha s config (Dedup sha s config blocks).1 =
    ((Dedup sha s config blocks).1, { kept_count := (Dedup sha s config blocks).1.length })
  comparable : ∀ (j : Nat) (b : Block), (afterExact sha config blocks)[j]? = some (b, true) →
    (afterSemantic sha s config blocks)[j]? = some (b, false) → ¬ Unusable blocks j b

/-! ### The flags -/

variable {config : CleaningConfig} {blocks : List Block}

theorem live_fresh (blocks : List Block) : live (fresh blocks) = blocks := by
  induction blocks with
  | nil => rfl
  | cons b bs ih =>
    rw [fresh, List.map_cons, live_cons, if_pos rfl]
    exact congrArg (b :: ·) ih

variable {j : Nat} {b : Block}

theorem fresh_at : (fresh blocks)[j]? = some (b, true) ↔ blocks[j]? = some b := by
  unfold fresh
  rw [List.getElem?_map]
  simp

theorem afterExact_eq (hon : config.dedup_enabled = true) :
    afterExact sha config blocks = thin (SameHash sha) [] (fresh blocks) := by
  rw [afterExact, if_pos hon, exactStep_eq]

theorem afterSemantic_eq (hon : config.dedup_enabled = true) :
    afterSemantic sha s config blocks =
      thin (Similar s config.dedup_similarity_threshold) [] (afterExact sha config blocks) := by
  rw [afterSemantic, if_pos hon, semanticStep_eq, afterExact, if_pos hon]

theorem Dedup_kept (hon : config.dedup_enabled = true) :
    (Dedup sha s config blocks).1 = live (afterSemantic sha s config blocks) := by
  rw [Dedup, if_neg (by simp [hon]), afterSemantic, if_pos hon]

theorem Dedup_off (hoff : config.dedup_enabled = false) :
    Dedup sha s config blocks = (blocks, { kept_count := toInt blocks.length }) := by
  rw [Dedup, if_pos (by simp [hoff])]

theorem block_at {l : Flagged Block} (hl : l.map Prod.fst = blocks) {flag : Bool} (h : l[j]? = some (b, flag)) :
    blocks[j]? = some b := by
  rw [← hl, List.getElem?_map, h]
  rfl

theorem afterExact_fst (hon : config.dedup_enabled = true) : (afterExact sha config blocks).map Prod.fst = blocks := by
  rw [afterExact_eq hon, thin_fst, fresh, List.map_map]
  exact List.map_id _

theorem afterSemantic_fst (hon : config.dedup_enabled = true) :
    (afterSemantic sha s config blocks).map Prod.fst = blocks := by
  rw [afterSemantic_eq hon, thin_fst, afterExact_fst hon]

theorem flag_at {l : Flagged Block} (hl : l.map Prod.fst = blocks) (h : blocks[j]? = some b) :
    l[j]? = some (b, true) ∨ l[j]? = some (b, false) := by
  rw [← hl, List.getElem?_map] at h
  obtain ⟨⟨c, flag⟩, he, rfl⟩ := Option.map_eq_some_iff.mp h
  cases flag
  · exact .inr he
  · exact .inl he

theorem afterExact_first (hon : config.dedup_enabled = true) (hb : blocks[j]? = some b)
    (hfirst : ∀ h < j, ∀ c, blocks[h]? = some c → sha c.chunk_text ≠ sha b.chunk_text) :
    (afterExact sha config blocks)[j]? = some (b, true) := by
  refine (flag_at (afterExact_fst hon) hb).resolve_right fun hgone => ?_
  rw [afterExact_eq hon] at hgone
  obtain ⟨k, hk, hk' | ⟨h, hlt, hk'⟩⟩ := exists_of_thinned (SameHash sha) (fresh_at.mpr hb) hgone
  · simp at hk'
  · rw [← afterExact_eq hon] at hk'
    exact hfirst h hlt k (block_at (afterExact_fst hon) hk') hk

theorem exact_gone (hon : config.dedup_enabled = true) {h : Nat} {c : Block} (hlt : h < j) (hc : blocks[h]? = some c)
    (heq : sha c.chunk_text = sha b.chunk_text) : (afterExact sha config blocks)[j]? ≠ some (b, true) := by
  intro hj
  classical
  have hex : ∃ i, ∃ d : Block, blocks[i]? = some d ∧ sha d.chunk_text = sha b.chunk_text := ⟨h, c, hc, heq⟩
  obtain ⟨d, hd, hhash⟩ := Nat.find_spec hex
  have hle : Nat.find hex ≤ h := Nat.find_min' hex ⟨c, hc, heq⟩
  have hkept : (afterExact sha config blocks)[Nat.find hex]? = some (d, true) :=
    afterExact_first hon hd fun i hi e he heq' => Nat.find_min hex hi ⟨e, he, heq'.trans hhash⟩
  rw [afterExact_eq hon] at hj hkept
  exact pairwise_at (pairwise_thin (SameHash sha) [] (fresh blocks)).2 hkept hj (by omega) rfl rfl hhash

theorem afterSemantic_gone (hon : config.dedup_enabled = true)
    (hb : (afterExact sha config blocks)[j]? = some (b, true))
    (hgone : (afterSemantic sha s config blocks)[j]? = some (b, false)) :
    ∃ h < j, ∃ c, (afterSemantic sha s config blocks)[h]? = some (c, true) ∧
      config.dedup_similarity_threshold ≤ s.sim c.embedding b.embedding := by
  rw [afterSemantic_eq hon] at hgone ⊢
  obtain ⟨c, hc, hc' | ⟨h, hlt, hc'⟩⟩ := exists_of_thinned _ hb hgone
  · simp at hc'
  · exact ⟨h, hlt, c, hc', hc⟩

/-! ### Each promise -/

theorem kept_distinct (hon : config.dedup_enabled = true) : (Dedup sha s config blocks).1.Pairwise fun a b =>
    sha a.chunk_text ≠ sha b.chunk_text ∧ s.sim a.embedding b.embedding < config.dedup_similarity_threshold := by
  rw [Dedup_kept hon, afterSemantic_eq hon]
  have hsim : (live (thin (Similar s config.dedup_similarity_threshold) [] (afterExact sha config blocks))).Pairwise
      fun a b => ¬ Similar s config.dedup_similarity_threshold a b :=
    pairwise_live (pairwise_thin _ [] (afterExact sha config blocks)).2
  have hhash : (live (afterExact sha config blocks)).Pairwise fun a b => ¬ SameHash sha a b := by
    rw [afterExact_eq hon]
    exact pairwise_live (pairwise_thin (SameHash sha) [] (fresh blocks)).2
  refine ((hhash.sublist (live_thin_sublist _ _ _)).and hsim).imp fun h => ?_
  exact ⟨h.1, not_le.mp h.2⟩

theorem kept_sublist (hon : config.dedup_enabled = true) : (Dedup sha s config blocks).1.Sublist blocks := by
  rw [Dedup_kept hon, afterSemantic_eq hon]
  refine (live_thin_sublist (Similar s config.dedup_similarity_threshold) [] (afterExact sha config blocks)).trans ?_
  have h := live_thin_sublist (SameHash sha) [] (fresh blocks)
  rwa [← afterExact_eq hon, live_fresh] at h

theorem kept_covered (hon : config.dedup_enabled = true) (hsha : CollisionFree sha blocks) (hb : blocks[j]? = some b) :
    ∃ (i : Nat) (b' : Block), FirstWithText blocks b.chunk_text i b' ∧
      ((afterSemantic sha s config blocks)[i]? = some (b', true) ∨
        ∃ h < i, ∃ c : Block, (afterSemantic sha s config blocks)[h]? = some (c, true) ∧
          config.dedup_similarity_threshold ≤ s.sim c.embedding b'.embedding) := by
  have hex : ∃ i, ∃ b' : Block, blocks[i]? = some b' ∧ b'.chunk_text = b.chunk_text := ⟨j, b, hb, rfl⟩
  classical
  obtain ⟨b', hb', htext⟩ := Nat.find_spec hex
  have hfirst : FirstWithText blocks b.chunk_text (Nat.find hex) b' :=
    ⟨hb', htext, fun h hlt c hc heq => Nat.find_min hex hlt ⟨c, hc, heq⟩⟩
  refine ⟨Nat.find hex, b', hfirst, ?_⟩
  have hexact : (afterExact sha config blocks)[Nat.find hex]? = some (b', true) := by
    refine afterExact_first hon hb' fun h hlt c hc heq => hfirst.2.2 h hlt c hc ?_
    rw [hsha c (List.mem_of_getElem? hc) b' (List.mem_of_getElem? hb') heq, htext]
  exact (flag_at (afterSemantic_fst hon) hb').imp_right (afterSemantic_gone hon hexact)

theorem Dedup_ids (sha : Bytes → κ) (s : Similarity) (blocks : List Block) (hon : config.dedup_enabled = true) :
    (ids blocks).Perm ((Dedup sha s config blocks).2.removed_block_ids ++ ids (Dedup sha s config blocks).1) := by
  have hexact := exactStep_ids sha [] blocks
  have hsemantic := semanticStep_ids s config.dedup_similarity_threshold (exactStep sha [] blocks).1
  rw [Dedup, if_neg (by simp [hon]), List.append_assoc]
  exact hexact.trans (hsemantic.append_left _)

/-- Each block is counted once: by the first step, by the second one, or as kept. -/
theorem steps_total (sha : Bytes → κ) (s : Similarity) (threshold : Rat) (blocks : List Block) :
    (exactStep sha [] blocks).2.length + (semanticStep s threshold (exactStep sha [] blocks).1).2.length +
      (live (semanticStep s threshold (exactStep sha [] blocks).1).1).length = blocks.length := by
  have hexact := (exactStep_ids sha [] blocks).length_eq
  have hsemantic := (semanticStep_ids s threshold (exactStep sha [] blocks).1).length_eq
  simp only [ids, List.length_append, List.length_map] at hexact hsemantic
  omega

/-- Machine numbers add up to a count exactly when an `int` can hold it. -/
theorem Dedup_total : toInt ((Dedup sha s config blocks).2.removed_count + (Dedup sha s config blocks).2.kept_count) =
    blocks.length ↔ blocks.length < 2 ^ 31 := by
  have hsum : toInt ((Dedup sha s config blocks).2.removed_count + (Dedup sha s config blocks).2.kept_count) =
      toInt blocks.length := by
    rw [← steps_total sha s config.dedup_similarity_threshold blocks, Dedup]
    split
    · rw [steps_total]
      simp
    · push_cast
      simp only [toInt_toInt_add, toInt_add_toInt]
  rw [hsum, toInt_eq_iff]
  omega

theorem toInt_length {α : Type} {l : List α} (hl : l.length < 2 ^ 31) : toInt l.length = l.length :=
  toInt_of_fits (by omega) (by omega)

theorem Dedup_kept_count (hfits : blocks.length < 2 ^ 31) :
    (Dedup sha s config blocks).2.kept_count = (Dedup sha s config blocks).1.length := by
  have h := steps_total sha s config.dedup_similarity_threshold blocks
  rw [Dedup]
  split
  · dsimp only
    exact toInt_length hfits
  · dsimp only
    exact toInt_length (by omega)

theorem Dedup_removed_count (hfits : blocks.length < 2 ^ 31) : (Dedup sha s config blocks).2.removed_count =
    (Dedup sha s config blocks).2.hash_dedup_count + (Dedup sha s config blocks).2.semantic_dedup_count := by
  have h := steps_total sha s config.dedup_similarity_threshold blocks
  rw [Dedup]
  split
  · rfl
  · dsimp only
    rw [toInt_length (by omega), toInt_length (by omega)]
    exact toInt_of_fits (by omega) (by omega)

theorem Dedup_eq_self (hon : config.dedup_enabled = true) (hdistinct : blocks.Pairwise fun a b =>
    sha a.chunk_text ≠ sha b.chunk_text ∧ s.sim a.embedding b.embedding < config.dedup_similarity_threshold) :
    Dedup sha s config blocks = (blocks, { kept_count := toInt blocks.length }) := by
  have hexact : (exactStep sha [] blocks).1 = fresh blocks := by
    rw [exactStep_eq]
    refine thin_eq_self _ (by simp) ?_
    rw [live_fresh]
    exact hdistinct.imp fun h => h.1
  have hsemantic : (semanticStep s config.dedup_similarity_threshold (fresh blocks)).1 = fresh blocks := by
    rw [semanticStep_eq]
    refine thin_eq_self _ (by simp) ?_
    rw [live_fresh]
    exact hdistinct.imp fun h => not_le.mpr h.2
  have hexact_ids : (exactStep sha [] blocks).2 = [] := by
    have h := (exactStep_ids sha [] blocks).length_eq
    rw [hexact, live_fresh, List.length_append] at h
    exact List.eq_nil_of_length_eq_zero (by omega)
  have hsemantic_ids : (semanticStep s config.dedup_similarity_threshold (fresh blocks)).2 = [] := by
    have h := (semanticStep_ids s config.dedup_similarity_threshold (fresh blocks)).length_eq
    rw [hsemantic, live_fresh, List.length_append] at h
    exact List.eq_nil_of_length_eq_zero (by omega)
  rw [Dedup, if_neg (by simp [hon])]
  simp only [hexact, hsemantic, hexact_ids, hsemantic_ids, live_fresh]
  rfl

theorem sim_of_unusable {h : Nat} {c : Block} (hun : Unusable blocks j b) (hc : blocks[h]? = some c) (hne : h ≠ j) :
    s.sim c.embedding b.embedding = 0 := by
  refine s.unusable _ _ ?_
  rcases hun with hnil | hzero | hlen
  · exact .inr (.inr (.inr (by rw [hnil]; rfl)))
  · exact .inr (.inr (.inr hzero))
  · exact .inr (.inl (hlen h c hc hne))

/-- When no block is removed by the similarity 0. -/
def Comparable (sha : Bytes → κ) (config : CleaningConfig) (blocks : List Block) : Prop :=
  0 < config.dedup_similarity_threshold ∨ ∀ j b, 0 < j → blocks[j]? = some b → Unusable blocks j b →
    ∃ h < j, ∃ c, blocks[h]? = some c ∧ sha c.chunk_text = sha b.chunk_text

theorem not_unusable_of_gone (hon : config.dedup_enabled = true) (hcond : Comparable sha config blocks)
    (hb : (afterExact sha config blocks)[j]? = some (b, true))
    (hgone : (afterSemantic sha s config blocks)[j]? = some (b, false)) : ¬ Unusable blocks j b := by
  intro hun
  obtain ⟨h, hlt, c, hc, hsim⟩ := afterSemantic_gone hon hb hgone
  have hc' := block_at (afterSemantic_fst hon) hc
  rw [sim_of_unusable hun hc' hlt.ne] at hsim
  rcases hcond with hpos | hdup
  · exact absurd hsim (not_le.mpr hpos)
  · have hbj := block_at (afterExact_fst hon) hb
    obtain ⟨i, hi, d, hd, heq⟩ := hdup j b (Nat.zero_lt_of_lt hlt) hbj hun
    exact exact_gone hon hi hd heq hb

theorem dedup_sound (hsha : CollisionFree sha blocks) (hon : config.dedup_enabled = true)
    (hcond : Comparable sha config blocks) (hfits : blocks.length < 2 ^ 31) : Sound sha s config blocks where
  in_order := kept_sublist hon
  distinct := kept_distinct hon
  covered _ _ hb := kept_covered hon hsha (block_at (afterSemantic_fst hon) hb)
  removed_count := Dedup_removed_count hfits
  kept_count := Dedup_kept_count hfits
  total := Dedup_total.mpr hfits
  removed_ids := Dedup_ids sha s blocks hon
  second_run := by
    rw [Dedup_eq_self hon (kept_distinct hon), toInt_length ((kept_sublist hon).length_le.trans_lt hfits)]
  comparable _ _ hb hgone := not_unusable_of_gone hon hcond hb hgone

theorem first_stays (hon : config.dedup_enabled = true) (hb : blocks[0]? = some b) :
    (afterSemantic sha s config blocks)[0]? = some (b, true) := by
  refine (flag_at (afterSemantic_fst hon) hb).resolve_right fun hgone => ?_
  have hexact : (afterExact sha config blocks)[0]? = some (b, true) :=
    afterExact_first hon hb fun h hlt => absurd hlt (Nat.not_lt_zero h)
  obtain ⟨h, hlt, _⟩ := afterSemantic_gone hon hexact hgone
  exact Nat.not_lt_zero h hlt

theorem comparable_of_sound (hon : config.dedup_enabled = true) (hs : Sound sha s config blocks) :
    Comparable sha config blocks := by
  refine or_iff_not_imp_left.mpr fun hpos j b hj hb hun => ?_
  by_contra hnone
  push Not at hnone
  have hexact : (afterExact sha config blocks)[j]? = some (b, true) := afterExact_first hon hb hnone
  have hfst : (afterSemantic sha s config blocks).map Prod.fst = blocks := afterSemantic_fst hon
  rcases flag_at hfst hb with hstays | hgone
  · have h0 : 0 < blocks.length := Nat.zero_lt_of_lt ((List.getElem?_eq_some_iff.mp hb).1)
    have hfirst : (afterSemantic sha s config blocks)[0]? = some (blocks[0], true) :=
      first_stays hon (List.getElem?_eq_getElem h0)
    rw [afterSemantic_eq hon] at hstays hfirst
    refine pairwise_at (pairwise_thin (Similar s config.dedup_similarity_threshold) [] _).2 hfirst hstays hj rfl rfl ?_
    have hsim : s.sim blocks[0].embedding b.embedding = 0 :=
      sim_of_unusable hun (List.getElem?_eq_getElem h0) hj.ne
    exact (not_lt.mp hpos).trans hsim.ge
  · exact hs.comparable j b hexact hgone hun

theorem sound_off (hoff : config.dedup_enabled = false) (hfits : blocks.length < 2 ^ 31) : Sound sha s config blocks ↔ blocks.Pairwise fun a b =>
    sha a.chunk_text ≠ sha b.chunk_text ∧ s.sim a.embedding b.embedding < config.dedup_similarity_threshold := by
  have hflags : afterSemantic sha s config blocks = fresh blocks := by
    rw [afterSemantic, if_neg (by simp [hoff]), fresh]
  have hstay : ∀ (j : Nat) (b : Block), (afterSemantic sha s config blocks)[j]? ≠ some (b, false) := by
    intro j b h
    rw [hflags, fresh, List.getElem?_map] at h
    simp at h
  constructor
  · intro hs
    have h := hs.distinct
    rwa [Dedup_off hoff] at h
  · intro h
    refine { in_order := ?_, distinct := ?_, covered := fun j b hb => absurd hb (hstay j b),
             removed_count := Dedup_removed_count hfits, kept_count := Dedup_kept_count hfits,
             total := Dedup_total.mpr hfits, removed_ids := ?_, second_run := ?_,
             comparable := fun j b _ hb => absurd hb (hstay j b) }
    all_goals simp only [Dedup_off hoff]
    · exact List.Sublist.refl _
    · exact h
    · exact List.Perm.refl _
    · rw [toInt_length hfits]

/-- When the removal of duplicates is sound: for each threshold above 0; at 0 no block that cannot be compared may reach
the second step behind the first block. The blocks are counted in `int`. -/
theorem dedup_sound_iff (sha : Bytes → κ) (s : Similarity) (config : CleaningConfig) (blocks : List Block)
    (hsha : CollisionFree sha blocks) : Sound sha s config blocks ↔ blocks.length < 2 ^ 31 ∧
      if config.dedup_enabled then Comparable sha config blocks
      else blocks.Pairwise fun a b =>
        sha a.chunk_text ≠ sha b.chunk_text ∧ s.sim a.embedding b.embedding < config.dedup_similarity_threshold := by
  refine ⟨fun hs => ⟨Dedup_total.mp hs.total, ?_⟩, fun ⟨hfits, hcond⟩ => ?_⟩
  · split
    · exact comparable_of_sound ‹_› hs
    · rename_i hoff
      exact (sound_off (Bool.eq_false_iff.mpr hoff) (Dedup_total.mp hs.total)).mp hs
  · by_cases hon : config.dedup_enabled = true
    · rw [if_pos hon] at hcond
      exact dedup_sound hsha hon hcond hfits
    · rw [if_neg hon] at hcond
      exact (sound_off (Bool.eq_false_iff.mpr hon) hfits).mpr hcond

/-- The similarity of vectors that are all orthogonal. -/
def orthogonal : Similarity where
  sim _ _ := 0
  range _ _ := ⟨by norm_num, by norm_num⟩
  unusable _ _ _ := rfl

/-- The second block has no embedding: its document is below the full processing level. -/
def twoBlocks : List Block := [⟨"a", [104, 105], [1]⟩, ⟨"b", [121, 111], []⟩]

theorem dedup_sound_iff_default : Sound id orthogonal {} twoBlocks :=
  (dedup_sound_iff id orthogonal {} twoBlocks (by unfold CollisionFree; decide)).mpr ⟨by decide, .inl (by norm_num)⟩

def zeroThreshold : CleaningConfig := { dedup_similarity_threshold := 0 }

/-- The similarity 0 of the block without an embedding is at the threshold, and the block goes. -/
theorem missing_embedding_goes : ValidateConfig zeroThreshold = none ∧
    ids (Dedup id orthogonal zeroThreshold twoBlocks).1 = ["a"] ∧ ¬ Sound id orthogonal zeroThreshold twoBlocks := by
  refine ⟨by decide, by decide +kernel, fun hs => ?_⟩
  rcases comparable_of_sound rfl hs with hpos | hdup
  · exact absurd hpos (by decide)
  · obtain ⟨h, hlt, c, hc, heq⟩ := hdup 1 ⟨"b", [121, 111], []⟩ Nat.one_pos rfl (.inl rfl)
    obtain rfl : h = 0 := Nat.lt_one_iff.mp hlt
    obtain rfl : (⟨"a", [104, 105], [1]⟩ : Block) = c := Option.some.inj hc
    exact absurd heq (by decide)

end Cortrix.Spc.DataCleaner
