import Mathlib.Algebra.Order.Field.Basic
import Mathlib.Data.List.Induction
import Mathlib.Tactic.Linarith
import Mathlib.Tactic.Ring

/-!
# A token bucket with a lock-out

Tokens come in at a rate, and no more than `burst` of them are kept. A visit reads a clock; it passes when it finds a
token, and takes the token if it is charged. A visit that finds none locks the bucket for a while. The readings of the
visits may be in any order.

* `visit` : the bucket behind a visit; `visit_cases` : locked out, without a token, passed;
* `run_level_le` : there are never more tokens than `burst`;
* `charged_le` : the charged visits of an interval of length `T` are at most `burst + rate * T`;
* `crowded` : in order, a visit that finds no token ends a series of more than `burst + rate * T` visits.
-/

namespace Lib.TokenBucket

structure Rule (K : Type) [Field K] [LinearOrder K] where
  rate : K
  burst : K
  lock : K
  /-- The end of a lock that never was. -/
  epoch : K
  rate_pos : 0 < rate
  one_le : 1 ≤ burst

structure Bucket (K : Type) where
  level : K
  last : K
  lockedUntil : K

/-- A reading, and whether the visit is charged. -/
abbrev Visit (K : Type) := K × Bool

section
variable {K : Type} [Field K]

def cost (charged : Bool) : K := if charged then 1 else 0

def charged (vs : List (Visit K)) : Nat := vs.countP fun v => v.2

theorem cost_eq (c : Bool) : cost c = (0 : K) ∨ cost c = (1 : K) := by
  cases c
  · exact .inl rfl
  · exact .inr rfl

theorem charged_cons (v : Visit K) (vs : List (Visit K)) : (charged (v :: vs) : K) = cost v.2 + charged vs := by
  unfold charged
  obtain ⟨t, _ | _⟩ := v
  · rw [List.countP_cons_of_neg (by simp)]
    simp [cost]
  · rw [List.countP_cons_of_pos rfl]
    push_cast
    exact add_comm _ _

theorem charged_one (v : Visit K) : (charged [v] : K) = cost v.2 := by
  rw [charged_cons, charged, List.countP_nil, Nat.cast_zero, add_zero]

theorem charged_snoc (vs : List (Visit K)) (v : Visit K) : (charged (vs ++ [v]) : K) = charged vs + cost v.2 := by
  have h : charged (vs ++ [v]) = charged vs + charged [v] := List.countP_append
  rw [h, Nat.cast_add, charged_one]

end

variable {K : Type} [Field K] [LinearOrder K] (r : Rule K)

def refilled (b : Bucket K) (t : K) : K := min r.burst (b.level + (t - b.last) * r.rate)

def visit (b : Bucket K) (v : Visit K) : Bucket K :=
  if v.1 < b.lockedUntil then b
  else if refilled r b v.1 < 1 then ⟨refilled r b v.1, v.1, v.1 + r.lock⟩
  else ⟨refilled r b v.1 - cost v.2, v.1, b.lockedUntil⟩

/-- A bucket is full when it is first seen. -/
def opened (o : Option (Bucket K)) (t : K) : Bucket K := o.getD ⟨r.burst, t, r.epoch⟩

def run (o : Option (Bucket K)) (vs : List (Visit K)) : Option (Bucket K) :=
  vs.foldl (fun o v => some (visit r (opened r o v.1) v)) o

def Passes (b : Bucket K) (t : K) : Prop := b.lockedUntil ≤ t ∧ 1 ≤ refilled r b t

def Breaches (b : Bucket K) (t : K) : Prop := b.lockedUntil ≤ t ∧ refilled r b t < 1

/-- Every charged visit passes. -/
def Admits : Option (Bucket K) → List (Visit K) → Prop
  | _, [] => True
  | o, v :: vs => (v.2 = true → Passes r (opened r o v.1) v.1) ∧ Admits (some (visit r (opened r o v.1) v)) vs

/-- No visit reads the clock before the last refill. -/
def InOrder : Option (Bucket K) → List (Visit K) → Prop
  | _, [] => True
  | o, v :: vs => (∀ b, o = some b → b.last ≤ v.1) ∧ InOrder (some (visit r (opened r o v.1) v)) vs

/-! ## One visit -/

theorem visit_cases (b : Bucket K) (v : Visit K) :
    (v.1 < b.lockedUntil ∧ visit r b v = b) ∨
      (Breaches r b v.1 ∧ visit r b v = ⟨refilled r b v.1, v.1, v.1 + r.lock⟩) ∨
      (Passes r b v.1 ∧ visit r b v = ⟨refilled r b v.1 - cost v.2, v.1, b.lockedUntil⟩) := by
  unfold visit
  by_cases hlock : v.1 < b.lockedUntil
  · exact .inl ⟨hlock, if_pos hlock⟩
  · rw [if_neg hlock]
    by_cases hempty : refilled r b v.1 < 1
    · exact .inr (.inl ⟨⟨not_lt.mp hlock, hempty⟩, if_pos hempty⟩)
    · exact .inr (.inr ⟨⟨not_lt.mp hlock, not_lt.mp hempty⟩, if_neg hempty⟩)

theorem refilled_le_burst (b : Bucket K) (t : K) : refilled r b t ≤ r.burst := min_le_left _ _

theorem refilled_le (b : Bucket K) (t : K) : refilled r b t ≤ b.level + (t - b.last) * r.rate := min_le_right _ _

variable {r}

variable {b : Bucket K} {v : Visit K} {o : Option (Bucket K)} {vs : List (Visit K)}

theorem refilled_of_lt {t : K} (h : refilled r b t < r.burst) : refilled r b t = b.level + (t - b.last) * r.rate := by
  rcases min_choice r.burst (b.level + (t - b.last) * r.rate) with hburst | hsum
  · exact absurd hburst h.ne
  · exact hsum

theorem cost_of_blocked (h : v.2 = true → Passes r b v.1) (hno : ¬ Passes r b v.1) : cost v.2 = (0 : K) := by
  rw [Bool.eq_false_iff.mpr fun hv => hno (h hv)]
  rfl

theorem opened_level_le (h : ∀ b, o = some b → b.level ≤ r.burst) (t : K) : (opened r o t).level ≤ r.burst := by
  cases o with
  | none => exact le_rfl
  | some b => exact h b rfl

/-! ## Runs -/

theorem run_snoc (o : Option (Bucket K)) (vs : List (Visit K)) (v : Visit K) :
    run r o (vs ++ [v]) = some (visit r (opened r (run r o vs) v.1) v) := by
  rw [run, List.foldl_append]
  rfl

theorem admits_append {ws : List (Visit K)} : Admits r o (vs ++ ws) ↔ Admits r o vs ∧ Admits r (run r o vs) ws := by
  induction vs generalizing o with
  | nil => exact (and_iff_right trivial).symm
  | cons v vs ih =>
    rw [List.cons_append, Admits, ih, Admits, and_assoc]
    rfl

theorem inOrder_append {ws : List (Visit K)} : InOrder r o (vs ++ ws) ↔ InOrder r o vs ∧ InOrder r (run r o vs) ws := by
  induction vs generalizing o with
  | nil => exact (and_iff_right trivial).symm
  | cons v vs ih =>
    rw [List.cons_append, InOrder, ih, InOrder, and_assoc]
    rfl

/-! ## Since a bucket was full -/

variable (r) in
/-- Since the visit `w` found the bucket full, each charged visit has taken a token and nothing has spilled over. -/
def Since (vs : List (Visit K)) (b : Bucket K) : Prop :=
  ∃ before w after, vs = before ++ w :: after ∧ w.1 ≤ b.last ∧
    b.level = r.burst + r.rate * (b.last - w.1) - charged (w :: after) ∧
    ∀ v ∈ w :: after, w.1 ≤ v.1 ∧ (v.1 ≤ b.last ∨ v.1 < b.lockedUntil)

theorem since_full (before : List (Visit K)) (h : refilled r b v.1 = r.burst) :
    Since r (before ++ [v]) ⟨refilled r b v.1 - cost v.2, v.1, b.lockedUntil⟩ := by
  refine ⟨before, v, [], rfl, le_rfl, ?_, List.forall_mem_singleton.mpr ⟨le_rfl, .inl le_rfl⟩⟩
  change refilled r b v.1 - cost v.2 = r.burst + r.rate * (v.1 - v.1) - charged [v]
  rw [h, charged_one, sub_self, mul_zero, add_zero]

theorem Since.append {b' : Bucket K} (h : Since r vs b) (hord : b.last ≤ v.1) (hlast : b.last ≤ b'.last)
    (hlevel : b'.level = b.level + (b'.last - b.last) * r.rate - cost v.2)
    (hread : v.1 ≤ b'.last ∨ v.1 < b'.lockedUntil)
    (hold : ∀ t, t ≤ b.last ∨ t < b.lockedUntil → t ≤ b'.last ∨ t < b'.lockedUntil) : Since r (vs ++ [v]) b' := by
  obtain ⟨before, w, after, rfl, hw, hb, hreads⟩ := h
  refine ⟨before, w, after ++ [v], by simp, hw.trans hlast, ?_, ?_⟩
  · rw [← List.cons_append, charged_snoc, hlevel, hb]
    ring
  · rw [← List.cons_append]
    exact List.forall_mem_append.mpr ⟨fun u hu => ⟨(hreads u hu).1, hold u.1 (hreads u hu).2⟩,
      List.forall_mem_singleton.mpr ⟨hw.trans hord, hread⟩⟩

theorem Since.visit (h : Since r vs b) (hord : b.last ≤ v.1) (hadm : v.2 = true → Passes r b v.1) :
    Since r (vs ++ [v]) (visit r b v) := by
  have hnow : ∀ t, b.lockedUntil ≤ v.1 → t ≤ b.last ∨ t < b.lockedUntil → t ≤ v.1 := fun t hlock ht =>
    ht.elim (fun hle => hle.trans hord) fun hlt => hlt.le.trans hlock
  rcases visit_cases r b v with ⟨hlock, heq⟩ | ⟨hbreach, heq⟩ | ⟨hpass, heq⟩
  · rw [heq]
    refine h.append hord le_rfl ?_ (.inr hlock) fun t ht => ht
    rw [cost_of_blocked hadm fun hp => absurd hlock (not_lt.mpr hp.1), sub_self, zero_mul, add_zero, sub_zero]
  · rw [heq]
    refine h.append hord hord ?_ (.inl le_rfl) fun t ht => .inl (hnow t hbreach.1 ht)
    rw [cost_of_blocked hadm fun hp => absurd hbreach.2 (not_lt.mpr hp.2), sub_zero]
    exact refilled_of_lt (hbreach.2.trans_le r.one_le)
  · rw [heq]
    by_cases hfull : refilled r b v.1 = r.burst
    · exact since_full vs hfull
    · refine h.append hord hord ?_ (.inl le_rfl) fun t ht => .inl (hnow t hpass.1 ht)
      rw [← refilled_of_lt ((refilled_le_burst r b v.1).lt_of_ne hfull)]

theorem since_first (hadm : v.2 = true → Passes r (opened r none v.1) v.1) :
    Since r [v] (visit r (opened r none v.1) v) := by
  have hopened : opened r none v.1 = ⟨r.burst, v.1, r.epoch⟩ := rfl
  have hfull : refilled r (opened r none v.1) v.1 = r.burst := by
    rw [hopened, refilled, sub_self, zero_mul, add_zero, min_self]
  rcases visit_cases r (opened r none v.1) v with ⟨hlock, heq⟩ | ⟨hbreach, heq⟩ | ⟨_, heq⟩
  · rw [heq]
    refine ⟨[], v, [], rfl, le_rfl, ?_, List.forall_mem_singleton.mpr ⟨le_rfl, .inl le_rfl⟩⟩
    rw [charged_one, cost_of_blocked hadm fun hp => absurd hlock (not_lt.mpr hp.1), hopened, sub_self, mul_zero,
      add_zero, sub_zero]
  · rw [Breaches, hfull] at hbreach
    exact absurd hbreach.2 (not_lt.mpr r.one_le)
  · rw [heq]
    exact since_full [] hfull

/-- Every bucket seen has been full at some visit. -/
theorem since_run (hne : vs ≠ []) (hadm : Admits r none vs) (hord : InOrder r none vs) :
    ∃ b, run r none vs = some b ∧ Since r vs b := by
  induction vs using List.reverseRecOn with
  | nil => exact absurd rfl hne
  | append_singleton vs v ih =>
    obtain ⟨hadms, hv, _⟩ := admits_append.mp hadm
    obtain ⟨hords, hlast, _⟩ := inOrder_append.mp hord
    refine ⟨_, run_snoc none vs v, ?_⟩
    by_cases hvs : vs = []
    · subst hvs
      exact since_first hv
    · obtain ⟨b, hrun, hsince⟩ := ih hvs hadms hords
      rw [hrun] at hv hlast ⊢
      exact hsince.visit (hlast b rfl) hv

/-! ## The tokens -/

variable [IsStrictOrderedRing K]

theorem cost_nonneg (c : Bool) : (0 : K) ≤ cost c := by
  rcases cost_eq (K := K) c with hc | hc
  · exact hc.ge
  · rw [hc]
    exact zero_le_one

theorem cost_le_one (c : Bool) : cost c ≤ (1 : K) := by
  rcases cost_eq (K := K) c with hc | hc
  · rw [hc]
    exact zero_le_one
  · exact hc.le

theorem visit_level_le (h : b.level ≤ r.burst) (v : Visit K) : (visit r b v).level ≤ r.burst := by
  rcases visit_cases r b v with ⟨_, hv⟩ | ⟨_, hv⟩ | ⟨_, hv⟩
  · rwa [hv]
  · rw [hv]
    exact refilled_le_burst r b v.1
  · rw [hv]
    have := refilled_le_burst r b v.1
    have := cost_nonneg (K := K) v.2
    change refilled r b v.1 - cost v.2 ≤ r.burst
    linarith

theorem run_level_le (h : ∀ b, o = some b → b.level ≤ r.burst) (vs : List (Visit K)) :
    ∀ b, run r o vs = some b → b.level ≤ r.burst := by
  induction vs generalizing o with
  | nil => exact h
  | cons v vs ih =>
    refine ih ?_
    rintro b ⟨⟩
    exact visit_level_le (opened_level_le h v.1) v

/-! ## The charged visits of an interval -/

theorem charged_le_of_inside {a T : K} (hadm : Admits r (some b) vs) (hvs : ∀ v ∈ vs, a ≤ v.1 ∧ v.1 ≤ a + T) :
    (charged vs : K) = 0 ∨ (charged vs : K) ≤ b.level - r.rate * (b.last - a) + r.rate * T := by
  induction vs generalizing b with
  | nil => exact .inl Nat.cast_zero
  | cons v vs ih =>
    obtain ⟨hv, hadm⟩ := hadm
    obtain ⟨hread, hvs⟩ := List.forall_mem_cons.mp hvs
    have hb : opened r (some b) v.1 = b := rfl
    rw [hb] at hv hadm
    rw [charged_cons]
    have hrefill := refilled_le r b v.1
    have hrate : r.rate * (v.1 - a) ≤ r.rate * T := mul_le_mul_of_nonneg_left (by linarith [hread.2]) r.rate_pos.le
    rcases visit_cases r b v with ⟨hlock, heq⟩ | ⟨hbreach, heq⟩ | ⟨hpass, heq⟩
    · rw [heq] at hadm
      rw [cost_of_blocked hv fun hp => absurd hlock (not_lt.mpr hp.1), zero_add]
      exact ih hadm hvs
    · rw [heq] at hadm
      rw [cost_of_blocked hv fun hp => absurd hbreach.2 (not_lt.mpr hp.2), zero_add]
      refine (ih hadm hvs).imp_right fun hle => ?_
      linarith
    · rw [heq] at hadm
      have hone := hpass.2
      rcases ih hadm hvs with h0 | hle
      · rw [h0, add_zero]
        refine (cost_eq v.2).imp_right fun hcost => ?_
        linarith
      · exact .inr (by linarith)

theorem charged_le {a T : K} (hT : 0 ≤ T) (hadm : Admits r o vs) (hvs : ∀ v ∈ vs, a ≤ v.1 ∧ v.1 ≤ a + T) :
    (charged vs : K) ≤ r.burst + r.rate * T := by
  have hrateT : 0 ≤ r.rate * T := mul_nonneg r.rate_pos.le hT
  have hburst := r.one_le
  induction vs generalizing o with
  | nil =>
    rw [charged, List.countP_nil, Nat.cast_zero]
    linarith
  | cons v vs ih =>
    obtain ⟨hv, hadm⟩ := hadm
    obtain ⟨hread, hvs⟩ := List.forall_mem_cons.mp hvs
    generalize opened r o v.1 = b at hv hadm
    rw [charged_cons]
    have hrate : 0 ≤ r.rate * (v.1 - a) := mul_nonneg r.rate_pos.le (by linarith [hread.1])
    have hfull := refilled_le_burst r b v.1
    have hcost := cost_le_one (K := K) v.2
    rcases visit_cases r b v with ⟨hlock, heq⟩ | ⟨hbreach, heq⟩ | ⟨hpass, heq⟩
    · rw [cost_of_blocked hv fun hp => absurd hlock (not_lt.mpr hp.1), zero_add]
      exact ih hadm hvs
    · rw [cost_of_blocked hv fun hp => absurd hbreach.2 (not_lt.mpr hp.2), zero_add]
      exact ih hadm hvs
    · rw [heq] at hadm
      rcases charged_le_of_inside hadm hvs with h0 | hle
      · linarith
      · linarith

/-! ## Crowded buckets -/

theorem crowded (hadm : Admits r none vs) (hord : InOrder r none (vs ++ [v]))
    (hbreach : Breaches r (opened r (run r none vs) v.1) v.1) :
    ∃ crowd a T, crowd ≠ [] ∧ crowd <:+ vs ++ [v] ∧ (∀ u ∈ crowd, a ≤ u.1 ∧ u.1 ≤ a + T) ∧
      r.burst + r.rate * T < (crowd.length : K) := by
  obtain ⟨hords, hlast, _⟩ := inOrder_append.mp hord
  by_cases hvs : vs = []
  · subst hvs
    have hopened : opened r (run r none []) v.1 = ⟨r.burst, v.1, r.epoch⟩ := rfl
    have hempty := hbreach.2
    rw [hopened, refilled, sub_self, zero_mul, add_zero, min_self] at hempty
    exact absurd hempty (not_lt.mpr r.one_le)
  · obtain ⟨b, hrun, before, w, after, rfl, hw, hlevel, hreads⟩ := since_run hvs hadm hords
    rw [hrun] at hbreach hlast
    have hopened : opened r (some b) v.1 = b := rfl
    rw [hopened] at hbreach
    have hb := hlast b rfl
    have hempty := hbreach.2
    rw [refilled_of_lt (hempty.trans_le r.one_le), hlevel] at hempty
    have hcount : (charged (w :: after) : K) ≤ (w :: after).length := Nat.cast_le.mpr List.countP_le_length
    refine ⟨w :: after ++ [v], w.1, v.1 - w.1, by simp, ⟨before, by simp⟩, ?_, ?_⟩
    · refine List.forall_mem_append.mpr ⟨fun u hu => ⟨(hreads u hu).1, ?_⟩, List.forall_mem_singleton.mpr ?_⟩
      · rcases (hreads u hu).2 with hle | hlt
        · linarith
        · linarith [hbreach.1]
      · exact ⟨hw.trans hb, by linarith⟩
    · rw [List.length_append, Nat.cast_add, List.length_singleton, Nat.cast_one]
      linarith

end Lib.TokenBucket
