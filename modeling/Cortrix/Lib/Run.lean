import Mathlib.Data.List.Induction
import Mathlib.Tactic.Linarith

/-!
# Runs of a transition function

`step s a` is the state after action `a`, `none` when the action is not enabled in `s`.

* `run step s as` : the state after a sequence of actions; `Along step Q s as` : each action meets the
  condition `Q` in the state it is taken in;
* `run_inv` : what holds at the start and is kept by every step that meets the condition holds in every
  state reached; `run_history` : the same for what is said of the actions taken so far; `run_append`,
  `along_append` cut a run in two; `along_iff_forall` tells the condition at each moment;
* `FairRun step Due Meets` : an infinite run, with idle moments, on which every obligation that is due is
  met at some later moment; `FairRun.leads_to` : a goal is reached when no step increases a measure and,
  short of the goal, some obligation stays helpful until a step decreases it.
-/

namespace Lib

variable {σ α : Type}

/-- The state after a sequence of actions. -/
def run (step : σ → α → Option σ) : σ → List α → Option σ
  | s, [] => some s
  | s, a :: as => (step s a).bind fun s' => run step s' as

/-- Every action of the sequence meets `Q` in the state it is taken in. -/
def Along (step : σ → α → Option σ) (Q : σ → α → Prop) : σ → List α → Prop
  | _, [] => True
  | s, a :: as => Q s a ∧
    match step s a with
    | some s' => Along step Q s' as
    | none => True

instance Along.decidable (step : σ → α → Option σ) (Q : σ → α → Prop) [∀ s a, Decidable (Q s a)] :
    ∀ s as, Decidable (Along step Q s as)
  | _, [] => .isTrue trivial
  | s, a :: as =>
    match h : step s a with
    | some s' =>
      have := Along.decidable step Q s' as
      decidable_of_iff (Q s a ∧ Along step Q s' as) (by rw [Along, h])
    | none => decidable_of_iff (Q s a) (by rw [Along, h]; simp)

variable {step : σ → α → Option σ} {Q : σ → α → Prop} {s s' : σ}

/-! ## Steps under a guard -/

theorem guarded_eq_some {p : Prop} [Decidable p] {t t' : σ} : (if p then some t else none) = some t' ↔ p ∧ t' = t := by
  rw [Option.ite_none_right_eq_some, Option.some.injEq]
  exact and_congr_right fun _ => eq_comm

theorem guarded_map_eq_some {p : Prop} [Decidable p] {τ : Type} {g : σ → τ} {t : σ} {t' : τ} :
    (if p then some t else none).map g = some t' ↔ p ∧ t' = g t := by
  rw [Option.map_eq_some_iff]
  simp only [guarded_eq_some, and_assoc, exists_and_left, exists_eq_left]
  exact and_congr_right fun _ => eq_comm

/-! ## Runs -/

theorem run_cons {a : α} {as : List α} :
    run step s (a :: as) = some s' ↔ ∃ t, step s a = some t ∧ run step t as = some s' := by
  rw [run, Option.bind_eq_some_iff]

theorem along_cons {a : α} {as : List α} :
    Along step Q s (a :: as) ↔ Q s a ∧ ∀ t, step s a = some t → Along step Q t as := by
  rw [Along]
  cases step s a <;> simp

theorem run_append {as bs : List α} :
    run step s (as ++ bs) = some s' ↔ ∃ t, run step s as = some t ∧ run step t bs = some s' := by
  induction as generalizing s with
  | nil => simp [run]
  | cons a as ih =>
    rw [List.cons_append, run_cons]
    constructor
    · rintro ⟨t, ht, h⟩
      obtain ⟨u, hu, h⟩ := ih.mp h
      exact ⟨u, run_cons.mpr ⟨t, ht, hu⟩, h⟩
    · rintro ⟨u, hu, h⟩
      obtain ⟨t, ht, hu⟩ := run_cons.mp hu
      exact ⟨t, ht, ih.mpr ⟨u, hu, h⟩⟩

theorem along_append {as bs : List α} :
    Along step Q s (as ++ bs) ↔ Along step Q s as ∧ ∀ t, run step s as = some t → Along step Q t bs := by
  induction as generalizing s with
  | nil => simp [Along, run]
  | cons a as ih =>
    rw [List.cons_append, along_cons, along_cons]
    constructor
    · rintro ⟨hq, h⟩
      refine ⟨⟨hq, fun t ht => (ih.mp (h t ht)).1⟩, fun u hu => ?_⟩
      obtain ⟨t, ht, hu⟩ := run_cons.mp hu
      exact (ih.mp (h t ht)).2 u hu
    · rintro ⟨⟨hq, h⟩, hrest⟩
      exact ⟨hq, fun t ht => ih.mpr ⟨h t ht, fun u hu => hrest u (run_cons.mpr ⟨t, ht, hu⟩)⟩⟩

theorem run_inv {I : σ → Prop} (hstep : ∀ {s a s'}, I s → Q s a → step s a = some s' → I s')
    (hinit : I s) {as : List α} (hq : Along step Q s as) (h : run step s as = some s') : I s' := by
  induction as generalizing s with
  | nil =>
    cases h
    exact hinit
  | cons a as ih =>
    obtain ⟨t, ht, h⟩ := run_cons.mp h
    obtain ⟨hqa, hqs⟩ := along_cons.mp hq
    exact ih (hstep hinit hqa ht) (hqs t ht) h

/-- The invariant rule for a property of the actions so far. -/
theorem run_history {H : List α → σ → Prop} (hinit : H [] s)
    (hstep : ∀ {as t a t'}, run step s as = some t → H as t → Q t a → step t a = some t' → H (as ++ [a]) t')
    {as : List α} (hq : Along step Q s as) (h : run step s as = some s') : H as s' := by
  induction as using List.reverseRecOn generalizing s' with
  | nil =>
    cases h
    exact hinit
  | append_singleton as a ih =>
    obtain ⟨t, ht, h⟩ := run_append.mp h
    obtain ⟨hqs, hqa⟩ := along_append.mp hq
    obtain ⟨u, hu, h⟩ := run_cons.mp h
    cases h
    exact hstep ht (ih hqs ht) (along_cons.mp (hqa t ht)).1 hu

theorem along_true (s : σ) (as : List α) : Along step (fun _ _ => True) s as := by
  induction as generalizing s with
  | nil => trivial
  | cons a as ih => exact along_cons.mpr ⟨trivial, fun t _ => ih t⟩

/-- A condition on the steps of a run is what its states need, when each step that leads to a good state meets it
and each step that meets it keeps the invariant behind the good states. -/
theorem along_iff_prefixes (Inv P : σ → Prop) (A : α → Prop) (hgood : ∀ {s}, Inv s → P s)
    (hmeets : ∀ {s a s'}, Inv s → A a → step s a = some s' → P s' → Q s a)
    (hstep : ∀ {s a s'}, Inv s → A a → Q s a → step s a = some s' → Inv s')
    (hinit : Inv s) {as : List α} (hA : ∀ a ∈ as, A a) (hrun : run step s as = some s') :
    (∀ pre t, pre <+: as → run step s pre = some t → P t) ↔ Along step Q s as := by
  induction as generalizing s with
  | nil =>
    simp only [List.prefix_nil, Along, iff_true]
    rintro _ t rfl ht
    cases ht
    exact hgood hinit
  | cons a as ih =>
    obtain ⟨u, hu, hrun⟩ := run_cons.mp hrun
    have hAa := hA a (by simp)
    rw [along_cons]
    constructor
    · intro h
      have hq : Q s a := hmeets hinit hAa hu (h [a] u ⟨as, rfl⟩ (run_cons.mpr ⟨u, hu, rfl⟩))
      refine ⟨hq, fun t ht => ?_⟩
      rw [hu] at ht
      cases ht
      refine (ih (hstep hinit hAa hq hu) (fun b hb => hA b (by simp [hb])) hrun).mp fun pre t hpre ht => ?_
      exact h (a :: pre) t (List.cons_prefix_cons.mpr ⟨rfl, hpre⟩) (run_cons.mpr ⟨u, hu, ht⟩)
    · rintro ⟨hq, hqs⟩ pre t hpre ht
      have hrest := (ih (hstep hinit hAa hq hu) (fun b hb => hA b (by simp [hb])) hrun).mpr (hqs u hu)
      cases pre with
      | nil =>
        cases ht
        exact hgood hinit
      | cons b pre =>
        obtain ⟨hba, htail⟩ := List.cons_prefix_cons.mp hpre
        obtain ⟨v, hv, ht⟩ := run_cons.mp ht
        rw [hba, hu] at hv
        cases hv
        exact hrest pre t htail ht

/-- The condition on a run, told at each of its moments. -/
theorem along_iff_forall {as : List α} :
    Along step Q s as ↔ ∀ pre a t, pre ++ [a] <+: as → run step s pre = some t → Q t a := by
  induction as generalizing s with
  | nil => simp [Along]
  | cons b as ih =>
    rw [along_cons]
    constructor
    · rintro ⟨hq, h⟩ pre a t hpre ht
      cases pre with
      | nil =>
        cases ht
        obtain ⟨rfl, -⟩ := List.cons_prefix_cons.mp hpre
        exact hq
      | cons c pre =>
        obtain ⟨rfl, htail⟩ := List.cons_prefix_cons.mp hpre
        obtain ⟨u, hu, ht⟩ := run_cons.mp ht
        exact ih.mp (h u hu) pre a t htail ht
    · intro h
      refine ⟨h [] b s ⟨as, rfl⟩ rfl, fun u hu => ih.mpr fun pre a t hpre ht => ?_⟩
      exact h (b :: pre) a t (List.cons_prefix_cons.mpr ⟨rfl, hpre⟩) (run_cons.mpr ⟨u, hu, ht⟩)

theorem Along.and {Q' : σ → α → Prop} {as : List α} (h : Along step Q s as) (h' : Along step Q' s as) :
    Along step (fun s a => Q s a ∧ Q' s a) s as := by
  induction as generalizing s with
  | nil => trivial
  | cons a as ih =>
    obtain ⟨hqa, hqs⟩ := along_cons.mp h
    obtain ⟨hqa', hqs'⟩ := along_cons.mp h'
    exact along_cons.mpr ⟨⟨hqa, hqa'⟩, fun t ht => ih (hqs t ht) (hqs' t ht)⟩

theorem Along.of_inv {Q' : σ → α → Prop} {I : σ → Prop}
    (hstep : ∀ {s a}, I s → Q s a → Q' s a ∧ ∀ s', step s a = some s' → I s') (hinit : I s) {as : List α}
    (h : Along step Q s as) : Along step Q' s as := by
  induction as generalizing s with
  | nil => trivial
  | cons a as ih =>
    obtain ⟨hqa, hqs⟩ := along_cons.mp h
    obtain ⟨hqa', hinv⟩ := hstep hinit hqa
    exact along_cons.mpr ⟨hqa', fun t ht => ih (hinv t ht) (hqs t ht)⟩

/-! ## Fair infinite runs -/

/-- An infinite run with idle moments. Whenever obligation `i` is due, it is met at that moment or later. -/
structure FairRun {ι : Type} (step : σ → α → Option σ) (Due : ι → σ → Prop) (Meets : ι → α → Prop) where
  state : Nat → σ
  act : Nat → Option α
  next : ∀ t, match act t with
    | some a => step (state t) a = some (state (t + 1))
    | none => state (t + 1) = state t
  fair : ∀ i t, Due i (state t) → ∃ u ≥ t, ∃ a, act u = some a ∧ Meets i a

namespace FairRun
variable {ι : Type} {Due : ι → σ → Prop} {Meets : ι → α → Prop} (r : FairRun step Due Meets)

theorem inv {I : σ → Prop} (hstep : ∀ {s a s'}, I s → step s a = some s' → I s') {t : Nat}
    (hinit : I (r.state t)) {u : Nat} (htu : t ≤ u) : I (r.state u) := by
  induction u, htu using Nat.le_induction with
  | base => exact hinit
  | succ u _ ih =>
    have hnext := r.next u
    split at hnext
    · exact hstep ih hnext
    · rwa [hnext]

/-- The leads-to rule. Short of the goal some obligation is helpful, hence due; every step either
decreases the measure or keeps it and the helpful obligation, which it does not meet. -/
theorem leads_to {I G : σ → Prop} (m : σ → Nat) (Helpful : ι → σ → Prop)
    (hinv : ∀ {s a s'}, I s → step s a = some s' → I s')
    (hhelp : ∀ {s}, I s → ¬ G s → ∃ i, Helpful i s)
    (hdue : ∀ {i s}, Helpful i s → Due i s)
    (hstep : ∀ {i s a s'}, I s → ¬ G s → ¬ G s' → Helpful i s → step s a = some s' →
      m s' < m s ∨ m s' = m s ∧ Helpful i s' ∧ ¬ Meets i a)
    {t : Nat} (hinit : I (r.state t)) : ∃ u ≥ t, G (r.state u) := by
  induction hn : m (r.state t) using Nat.strong_induction_on generalizing t with
  | _ n ih =>
    by_cases hgoal : ∃ u ≥ t, G (r.state u)
    · exact hgoal
    have hno : ∀ u ≥ t, ¬ G (r.state u) := fun u hu hg => hgoal ⟨u, hu, hg⟩
    obtain ⟨i, hi⟩ := hhelp hinit (hno t (le_refl t))
    obtain ⟨u, htu, a, hact, hmeets⟩ := r.fair i t (hdue hi)
    -- until the obligation is met the measure drops, or obligation and measure stay as they are
    have hwait : ∀ v, t ≤ v → v ≤ u + 1 →
        (∃ w ≥ t, m (r.state w) < n) ∨ m (r.state v) = n ∧ Helpful i (r.state v) ∧ v ≤ u := by
      intro v htv
      induction v, htv using Nat.le_induction with
      | base => exact fun _ => Or.inr ⟨hn, hi, htu⟩
      | succ v htv ihv =>
        intro hvu
        rcases ihv (by omega) with hlt | ⟨heq, hhelpful, hle⟩
        · exact Or.inl hlt
        have hnext := r.next v
        split at hnext
        · rename_i b hb
          rcases hstep (r.inv hinv hinit htv) (hno v htv) (hno (v + 1) (by omega)) hhelpful hnext with
            hlt | ⟨hsame, hhelpful', hnot⟩
          · exact Or.inl ⟨v + 1, by omega, by omega⟩
          · refine Or.inr ⟨by omega, hhelpful', ?_⟩
            by_contra hv
            have hvu' : v = u := by omega
            rw [hvu', hact] at hb
            cases hb
            exact hnot hmeets
        · rename_i hb
          have hvu' : v ≠ u := fun h => by rw [h, hact] at hb; cases hb
          rw [hnext]
          exact Or.inr ⟨heq, hhelpful, by omega⟩
    rcases hwait (u + 1) (by omega) (le_refl _) with ⟨w, hw, hlt⟩ | ⟨-, -, hle⟩
    · obtain ⟨v, hv, hg⟩ := ih (m (r.state w)) hlt (r.inv hinv hinit hw) rfl
      exact ⟨v, by omega, hg⟩
    · omega

end FairRun

end Lib
