import Mathlib.Order.Lattice
import Mathlib.Order.Nat

/-!
# A forward dynamic program over positions

Edges lead from a position to a later one and change the score. The positions are visited in order; each keeps the best
score with which it was reached and where from.

* `relax`, `visit`, `forward` : the program; a score that is not above `bot` counts as unreached;
* `Walk edges bot zero segs e x` : the steps `segs` lead to `e` with the score `x`, above `bot` after each step;
* `forward_best` : no walk to a visited position has a better score than its cell;
* `forward_attained` : the backtrack from a reached position is a walk with the cell's score;
* `reached_iff` : a position is reached when some walk leads to it.
-/

namespace Lib.Viterbi
variable {σ : Type} [LinearOrder σ]

/-- A step from `i` to a later position, and what it makes of the score. -/
structure Edge (σ : Type) [LinearOrder σ] (i : Nat) where
  stop : Nat
  lt : i < stop
  apply : σ → σ
  mono : Monotone apply

/-- For each position the best score and the position before it. -/
structure Cells (σ : Type) where
  score : Nat → σ
  prev : (e : Nat) → Option (Fin e)

def relax (c : Cells σ) {i : Nat} (edge : Edge σ i) : Cells σ :=
  if c.score edge.stop < edge.apply (c.score i) then
    { score := Function.update c.score edge.stop (edge.apply (c.score i))
      prev := Function.update c.prev edge.stop (some ⟨i, edge.lt⟩) }
  else c

variable (edges : (i : Nat) → List (Edge σ i)) (bot zero : σ)

def visit (c : Cells σ) (i : Nat) : Cells σ :=
  if c.score i = bot then c else (edges i).foldl (fun c edge => relax c edge) c

def start : Cells σ where
  score e := if e = 0 then zero else bot
  prev _ := none

def forward (n : Nat) : Cells σ := (List.range n).foldl (fun c i => visit edges bot c i) (start bot zero)

/-- The segments from a position back to the first one without a predecessor. -/
def backtrack (c : Cells σ) (pos : Nat) : List (Nat × Nat) :=
  match c.prev pos with
  | none => []
  | some p => (p.val, pos) :: backtrack c p.val
termination_by pos
decreasing_by exact p.isLt

inductive Walk : List (Nat × Nat) → Nat → σ → Prop
  | start : Walk [] 0 zero
  | step {segs : List (Nat × Nat)} {i : Nat} {x : σ} {edge : Edge σ i} : Walk segs i x → edge ∈ edges i →
      bot < edge.apply x → Walk (segs ++ [(i, edge.stop)]) edge.stop (edge.apply x)

/-! ## One edge -/

section
variable (c : Cells σ) {i : Nat} (edge : Edge σ i)

theorem relax_score_ne {e : Nat} (he : e ≠ edge.stop) : (relax c edge).score e = c.score e := by
  unfold relax
  split
  · exact Function.update_of_ne he _ _
  · rfl

theorem relax_prev_ne {e : Nat} (he : e ≠ edge.stop) : (relax c edge).prev e = c.prev e := by
  unfold relax
  split
  · exact Function.update_of_ne he _ _
  · rfl

theorem relax_source : (relax c edge).score i = c.score i := relax_score_ne c edge edge.lt.ne

theorem relax_stop : c.score edge.stop < edge.apply (c.score i) ∧
      (relax c edge).score edge.stop = edge.apply (c.score i) ∧ (relax c edge).prev edge.stop = some ⟨i, edge.lt⟩ ∨
    edge.apply (c.score i) ≤ c.score edge.stop ∧ relax c edge = c := by
  unfold relax
  split
  · rename_i hlt
    exact .inl ⟨hlt, Function.update_self .., Function.update_self ..⟩
  · rename_i hlt
    exact .inr ⟨not_lt.mp hlt, rfl⟩

theorem relax_score_le (e : Nat) : c.score e ≤ (relax c edge).score e := by
  by_cases he : e = edge.stop
  · subst he
    rcases relax_stop c edge with ⟨hlt, hs, _⟩ | ⟨_, hc⟩
    · rw [hs]
      exact hlt.le
    · rw [hc]
  · rw [relax_score_ne c edge he]

theorem le_relax_stop : edge.apply (c.score i) ≤ (relax c edge).score edge.stop := by
  rcases relax_stop c edge with ⟨_, hs, _⟩ | ⟨hle, hc⟩
  · rw [hs]
  · rw [hc]
    exact hle

end

/-! ## The invariant -/

/-- A cell is untouched, or it was taken over an edge from a reached position in front of `k`. -/
def Taken (k : Nat) (c : Cells σ) (e : Nat) : Prop :=
  c.score e = bot ∧ c.prev e = none ∨
    ∃ (i : Nat) (edge : Edge σ i) (he : edge.stop = e), edge ∈ edges i ∧ i < k ∧ bot < c.score i ∧
      bot < c.score e ∧ c.score e = edge.apply (c.score i) ∧ c.prev e = some ⟨i, he ▸ edge.lt⟩

/-- The positions in front of `k` have been visited. -/
structure Visited (k : Nat) (c : Cells σ) : Prop where
  first : c.score 0 = zero
  floor : ∀ e, bot ≤ c.score e
  taken : ∀ e, 0 < e → Taken edges bot k c e
  best : ∀ i < k, bot < c.score i → ∀ edge ∈ edges i, edge.apply (c.score i) ≤ c.score edge.stop

variable {edges bot zero}

theorem visited_start (h0 : bot < zero) : Visited edges bot zero 0 (start bot zero) where
  first := rfl
  floor e := by
    change bot ≤ if e = 0 then zero else bot
    split
    · exact h0.le
    · exact le_rfl
  taken e he := .inl ⟨if_neg he.ne', rfl⟩
  best i hi := absurd hi (Nat.not_lt_zero i)

variable {c : Cells σ} {e k : Nat}

theorem relax_score_of_le {i : Nat} {edge : Edge σ i} (he : e ≤ i) : (relax c edge).score e = c.score e :=
  relax_score_ne c edge (he.trans_lt edge.lt).ne

theorem Taken.mono {l : Nat} (hkl : k ≤ l) (h : Taken edges bot k c e) : Taken edges bot l c e :=
  h.imp_right fun ⟨i, edge, he, hmem, hi, hrest⟩ => ⟨i, edge, he, hmem, hi.trans_le hkl, hrest⟩

theorem Taken.relax {edge : Edge σ k} (hmem : edge ∈ edges k) (hk : bot < c.score k) (h : Taken edges bot (k + 1) c e)
    (hfloor : bot ≤ c.score e) : Taken edges bot (k + 1) (relax c edge) e := by
  by_cases he : e = edge.stop
  · subst he
    rcases relax_stop c edge with ⟨hlt, hs, hp⟩ | ⟨_, hc⟩
    · refine .inr ⟨k, edge, rfl, hmem, Nat.lt_succ_self k, ?_, ?_, ?_, hp⟩
      · rwa [relax_source]
      · rw [hs]
        exact hfloor.trans_lt hlt
      · rw [hs, relax_source]
    · rwa [hc]
  · unfold Taken
    rw [relax_score_ne c edge he, relax_prev_ne c edge he]
    refine h.imp_right ?_
    rintro ⟨i, edge', he', hmem', hi, hlow, hrest⟩
    refine ⟨i, edge', he', hmem', hi, ?_⟩
    rw [relax_score_of_le (Nat.le_of_lt_succ hi)]
    exact ⟨hlow, hrest⟩

/-- The positions in front of `k` have been visited, and some edges from `k` were taken. -/
structure Visiting (edges : (i : Nat) → List (Edge σ i)) (bot zero : σ) (k : Nat) (c : Cells σ) : Prop where
  first : c.score 0 = zero
  floor : ∀ e, bot ≤ c.score e
  taken : ∀ e, 0 < e → Taken edges bot (k + 1) c e
  best : ∀ i < k, bot < c.score i → ∀ edge ∈ edges i, edge.apply (c.score i) ≤ c.score edge.stop

theorem Visiting.relax (h : Visiting edges bot zero k c) {edge : Edge σ k} (hmem : edge ∈ edges k)
    (hk : bot < c.score k) : Visiting edges bot zero k (relax c edge) where
  first := (relax_score_of_le (Nat.zero_le k)).trans h.first
  floor e := (h.floor e).trans (relax_score_le c edge e)
  taken e he := (h.taken e he).relax hmem hk (h.floor e)
  best i hi hlow edge' hmem' := by
    rw [relax_score_of_le hi.le] at hlow ⊢
    exact (h.best i hi hlow edge' hmem').trans (relax_score_le c edge _)

theorem Visiting.relaxAll (h : Visiting edges bot zero k c) (hk : bot < c.score k) {l : List (Edge σ k)}
    (hl : ∀ edge ∈ l, edge ∈ edges k) :
    Visiting edges bot zero k (l.foldl (fun c edge => Viterbi.relax c edge) c) ∧
      (l.foldl (fun c edge => Viterbi.relax c edge) c).score k = c.score k ∧
      (∀ e, c.score e ≤ (l.foldl (fun c edge => Viterbi.relax c edge) c).score e) ∧
      ∀ edge ∈ l, edge.apply (c.score k) ≤ (l.foldl (fun c edge => Viterbi.relax c edge) c).score edge.stop := by
  induction l generalizing c with
  | nil => exact ⟨h, rfl, fun e => le_rfl, by simp⟩
  | cons edge l ih =>
    have hsource := relax_source c edge
    obtain ⟨hv, hs, hle, hbest⟩ := ih (h.relax (hl edge (by simp)) hk) (by rwa [hsource])
      fun e he => hl e (List.mem_cons_of_mem _ he)
    rw [hsource] at hs hbest
    refine ⟨hv, hs, fun e => (relax_score_le c edge e).trans (hle e), List.forall_mem_cons.mpr ⟨?_, hbest⟩⟩
    exact (le_relax_stop c edge).trans (hle edge.stop)

theorem Visited.visit (h : Visited edges bot zero k c) : Visited edges bot zero (k + 1) (visit edges bot c k) := by
  have hv : Visiting edges bot zero k c := ⟨h.first, h.floor, fun e he => (h.taken e he).mono (Nat.le_succ k), h.best⟩
  unfold Viterbi.visit
  split
  · rename_i hbot
    refine ⟨hv.first, hv.floor, hv.taken, fun i hi hlow => ?_⟩
    rcases Nat.lt_succ_iff_lt_or_eq.mp hi with hi | rfl
    · exact hv.best i hi hlow
    · exact absurd hbot hlow.ne'
  · rename_i hbot
    obtain ⟨hv, hs, -, hbest⟩ := hv.relaxAll ((h.floor k).lt_of_ne' hbot) fun _ => id
    refine ⟨hv.first, hv.floor, hv.taken, fun i hi hlow => ?_⟩
    rcases Nat.lt_succ_iff_lt_or_eq.mp hi with hi | rfl
    · exact hv.best i hi hlow
    · rwa [hs]

theorem visited_forward (h0 : bot < zero) (n : Nat) : Visited edges bot zero n (forward edges bot zero n) := by
  induction n with
  | zero => exact visited_start h0
  | succ n ih =>
    unfold forward
    rw [List.range_succ, List.foldl_append]
    exact ih.visit

/-! ## Walks -/

theorem Walk.above (h0 : bot < zero) {segs : List (Nat × Nat)} {x : σ} (h : Walk edges bot zero segs e x) :
    bot < x := by
  cases h with
  | start => exact h0
  | step _ _ hlow => exact hlow

theorem forward_best (h0 : bot < zero) {n : Nat} {segs : List (Nat × Nat)} {x : σ} (h : Walk edges bot zero segs e x)
    (he : e ≤ n) : x ≤ (forward edges bot zero n).score e := by
  have hv : Visited edges bot zero n (forward edges bot zero n) := visited_forward h0 n
  induction h with
  | start => exact hv.first.ge
  | @step segs i x edge hwalk hmem hlow ih =>
    have hi : i < n := edge.lt.trans_le he
    have hx := ih hi.le
    exact (edge.mono hx).trans (hv.best i hi ((hwalk.above h0).trans_le hx) edge hmem)

omit [LinearOrder σ] in
theorem backtrack_of_none {pos : Nat} (h : c.prev pos = none) : backtrack c pos = [] := by
  rw [backtrack, h]

omit [LinearOrder σ] in
theorem backtrack_zero (c : Cells σ) : backtrack c 0 = [] :=
  backtrack_of_none (Option.eq_none_iff_forall_ne_some.mpr fun p => p.elim0)

theorem forward_attained (h0 : bot < zero) (n : Nat) (he : bot < (forward edges bot zero n).score e) :
    Walk edges bot zero (backtrack (forward edges bot zero n) e).reverse e ((forward edges bot zero n).score e) := by
  have hv : Visited edges bot zero n (forward edges bot zero n) := visited_forward h0 n
  generalize forward edges bot zero n = c at he hv ⊢
  induction e using Nat.strong_induction_on with
  | _ e ih =>
    rcases Nat.eq_zero_or_pos e with rfl | hpos
    · rw [backtrack_zero, hv.first]
      exact .start
    · rcases hv.taken e hpos with ⟨hbot, _⟩ | ⟨i, edge, rfl, hmem, _, hi, hlow, hscore, hprev⟩
      · exact absurd hbot he.ne'
      · rw [backtrack, hprev, List.reverse_cons, hscore]
        exact (ih i edge.lt hi).step hmem (hscore ▸ hlow)

theorem backtrack_of_unreached (h0 : bot < zero) {n : Nat} (hpos : 0 < e)
    (he : ¬ bot < (forward edges bot zero n).score e) : backtrack (forward edges bot zero n) e = [] := by
  have hv : Visited edges bot zero n (forward edges bot zero n) := visited_forward h0 n
  rcases hv.taken e hpos with ⟨_, hprev⟩ | ⟨_, _, _, _, _, _, hlow, _⟩
  · exact backtrack_of_none hprev
  · exact absurd hlow he

theorem reached_iff (h0 : bot < zero) {n : Nat} (he : e ≤ n) :
    bot < (forward edges bot zero n).score e ↔ ∃ segs x, Walk edges bot zero segs e x :=
  ⟨fun h => ⟨_, _, forward_attained h0 n h⟩, fun ⟨_, _, h⟩ => (h.above h0).trans_le (forward_best h0 h he)⟩

end Lib.Viterbi
