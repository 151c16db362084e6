import Mathlib.Algebra.GroupWithZero.Nat
import Mathlib.Data.List.Find
import Mathlib.Data.List.Infix

/-!
# Simultaneous substitution in a text

* `subst rules s` : from the left, every occurrence of a key is written as its value; what is written is not read again;
* `occurrence_first`, `weight_le_subst`, `subst_eq_self_iff` : one rule: its first occurrence, what it does to a length
  or a count, when it changes nothing;
* `fill ρ last parts` : a text with holes; `subst_fill` : a substitution works in the holes only, when each literal
  is `Sealed`; `length_fill`, `fill_inj` : what the text tells of the holes.
-/

namespace Lib.Substitute

variable {α : Type} [DecidableEq α]

structure Rule (α : Type) where
  key : List α
  value : List α
  key_ne : key ≠ []

/-- The rule whose key stands in front. -/
def firstRule (rules : List (Rule α)) (s : List α) : Option (Rule α) := rules.find? fun r => r.key.isPrefixOf s

/-- The substitution, with so many characters still of the last occurrence. -/
def substGo (rules : List (Rule α)) : Nat → List α → List α
  | _, [] => []
  | skip + 1, _ :: s => substGo rules skip s
  | 0, c :: s =>
    match firstRule rules (c :: s) with
    | some r => r.value ++ substGo rules (r.key.length - 1) s
    | none => c :: substGo rules 0 s

def subst (rules : List (Rule α)) (s : List α) : List α := substGo rules 0 s

variable {rules : List (Rule α)} {r : Rule α} {s : List α}

@[simp] theorem subst_nil : subst rules [] = [] := rfl

theorem substGo_eq (skip : Nat) (s : List α) : substGo rules skip s = subst rules (s.drop skip) := by
  induction skip generalizing s with
  | zero => rfl
  | succ skip ih =>
    cases s with
    | nil => rfl
    | cons c s => exact ih s

theorem subst_of_none {c : α} (h : firstRule rules (c :: s) = none) : subst rules (c :: s) = c :: subst rules s := by
  rw [subst, substGo, h, subst]

theorem subst_of_rule (h : firstRule rules (r.key ++ s) = some r) :
    subst rules (r.key ++ s) = r.value ++ subst rules s := by
  obtain ⟨c, k, hk⟩ := List.exists_cons_of_ne_nil r.key_ne
  rw [hk, List.cons_append] at h ⊢
  rw [subst, substGo, h]
  dsimp only
  rw [substGo_eq, hk, List.length_cons, Nat.add_sub_cancel, List.drop_left]

theorem mem_of_firstRule (h : firstRule rules s = some r) : r ∈ rules ∧ r.key <+: s := by
  unfold firstRule at h
  have hpre := List.find?_some h
  exact ⟨List.mem_of_find?_eq_some h, List.isPrefixOf_iff_prefix.mp hpre⟩

theorem not_prefix_of_firstRule (h : firstRule rules s = none) (hr : r ∈ rules) : ¬ r.key <+: s := by
  intro hpre
  exact List.find?_eq_none.mp h r hr (List.isPrefixOf_iff_prefix.mpr hpre)

@[simp] theorem firstRule_nil : firstRule rules [] = none := by
  refine List.find?_eq_none.mpr fun r _ hpre => r.key_ne ?_
  exact List.prefix_nil.mp (List.isPrefixOf_iff_prefix.mp hpre)

/-- The induction along a substitution: a key in front, or a character that none starts at. -/
@[elab_as_elim] theorem subst_induction (rules : List (Rule α)) {motive : List α → Prop} (nil : motive [])
    (rule : ∀ r s, firstRule rules (r.key ++ s) = some r → motive s → motive (r.key ++ s))
    (skip : ∀ c s, firstRule rules (c :: s) = none → motive s → motive (c :: s)) (s : List α) : motive s := by
  induction hn : s.length using Nat.strong_induction_on generalizing s with
  | _ n ih =>
    cases hfirst : firstRule rules s with
    | some r =>
      obtain ⟨-, t, rfl⟩ := mem_of_firstRule hfirst
      have hpos := List.length_pos_iff.mpr r.key_ne
      rw [List.length_append] at hn
      exact rule r t hfirst (ih t.length (by omega) t rfl)
    | none =>
      cases s with
      | nil => exact nil
      | cons c s =>
        rw [List.length_cons] at hn
        exact skip c s hfirst (ih s.length (by omega) s rfl)

/-! ## Delimiters -/

/-- The character stands in no key. -/
def Free (rules : List (Rule α)) (d : α) : Prop := ∀ r ∈ rules, d ∉ r.key

omit [DecidableEq α] in
theorem prefix_append_delim {k x y : List α} {d : α} (hd : d ∉ k) : k <+: x ++ d :: y ↔ k <+: x := by
  refine ⟨fun h => ?_, fun h => h.trans (List.prefix_append _ _)⟩
  by_contra hx
  have hle : (x ++ [d]).length ≤ k.length := by
    by_contra hlt
    rw [List.length_append, List.length_singleton] at hlt
    exact hx (List.prefix_of_prefix_length_le h (List.prefix_append x (d :: y)) (by omega))
  have hpre : x ++ [d] <+: k := List.prefix_of_prefix_length_le ⟨y, by simp⟩ h hle
  exact hd (hpre.subset (by simp))

omit [DecidableEq α] in
theorem infix_append_delim {k x y : List α} {d : α} (hd : d ∉ k) : k <:+: x ++ d :: y ↔ k <:+: x ∨ k <:+: y := by
  induction x with
  | nil =>
    have hpre := prefix_append_delim (x := []) (y := y) hd
    rw [List.nil_append] at hpre ⊢
    rw [List.infix_cons_iff, hpre, List.prefix_nil, List.infix_nil]
  | cons c x ih =>
    have hpre := prefix_append_delim (x := c :: x) (y := y) hd
    rw [List.cons_append] at hpre ⊢
    rw [List.infix_cons_iff, hpre, ih, List.infix_cons_iff, or_assoc]

theorem firstRule_append_delim {d : α} (hd : Free rules d) (x y : List α) :
    firstRule rules (x ++ d :: y) = firstRule rules x := by
  have hsame : ∀ r ∈ rules, r.key.isPrefixOf (x ++ d :: y) = r.key.isPrefixOf x := by
    intro r hr
    rw [Bool.eq_iff_iff, List.isPrefixOf_iff_prefix, List.isPrefixOf_iff_prefix, prefix_append_delim (hd r hr)]
  exact List.find?_congr hsame

/-- A character of no key cuts a substitution in two. -/
theorem subst_append_delim {d : α} (hd : Free rules d) (x y : List α) :
    subst rules (x ++ d :: y) = subst rules x ++ d :: subst rules y := by
  induction x using subst_induction rules with
  | nil =>
    have hnone := firstRule_append_delim hd [] y
    rw [firstRule_nil] at hnone
    exact subst_of_none hnone
  | rule r s h ih =>
    have hrule := firstRule_append_delim hd (r.key ++ s) y
    rw [h, List.append_assoc] at hrule
    rw [List.append_assoc, subst_of_rule hrule, ih, subst_of_rule h, List.append_assoc]
  | skip c s h ih =>
    have hnone := firstRule_append_delim hd (c :: s) y
    rw [h, List.cons_append] at hnone
    rw [List.cons_append, subst_of_none hnone, ih, subst_of_none h, List.cons_append]

theorem subst_eq_self (h : ∀ r ∈ rules, ¬ r.key <:+: s) : subst rules s = s := by
  induction s using subst_induction rules with
  | nil => rfl
  | rule r s hfirst _ => exact absurd (List.prefix_append r.key s).isInfix (h r (mem_of_firstRule hfirst).1)
  | skip c s hnone ih => rw [subst_of_none hnone, ih fun r hr hin => h r hr (hin.trans (List.suffix_cons c s).isInfix)]

/-! ## One rule -/

/-- The first occurrence is written as the value, and the substitution goes on behind it. -/
theorem occurrence_first (h : r.key <:+: s) :
    ∃ x y, s = x ++ (r.key ++ y) ∧ subst [r] s = x ++ (r.value ++ subst [r] y) := by
  induction s using subst_induction [r] with
  | nil => exact absurd (List.infix_nil.mp h) r.key_ne
  | rule r' s hfirst _ =>
    obtain rfl := List.mem_singleton.mp (mem_of_firstRule hfirst).1
    exact ⟨[], s, rfl, subst_of_rule hfirst⟩
  | skip c s hnone ih =>
    rcases List.infix_cons_iff.mp h with hpre | hin
    · exact absurd hpre (not_prefix_of_firstRule hnone List.mem_cons_self)
    · obtain ⟨x, y, hs, hsubst⟩ := ih hin
      refine ⟨c :: x, y, by rw [hs, List.cons_append], ?_⟩
      rw [subst_of_none hnone, hsubst, List.cons_append]

/-- The sum of the weights of the characters: a length, or a count. -/
def weight (w : α → Nat) (s : List α) : Nat := (s.map w).sum

omit [DecidableEq α] in
@[simp] theorem weight_append (w : α → Nat) (s t : List α) : weight w (s ++ t) = weight w s + weight w t := by
  rw [weight, List.map_append, List.sum_append, weight, weight]

omit [DecidableEq α] in
@[simp] theorem weight_cons (w : α → Nat) (c : α) (s : List α) : weight w (c :: s) = w c + weight w s := by
  rw [weight, List.map_cons, List.sum_cons, weight]

omit [DecidableEq α] in
theorem weight_le_of_prefix {w : α → Nat} {s t : List α} (h : s <+: t) : weight w s ≤ weight w t := by
  obtain ⟨u, rfl⟩ := h
  rw [weight_append]
  exact Nat.le_add_right _ _

omit [DecidableEq α] in
/-- Beside an occurrence stands every character that it does not hold. -/
theorem length_add_weight_le {w : α → Nat} {k s : List α} (hw : ∀ c, w c ≤ 1) (hk : weight w k = 0) (h : k <:+: s) :
    k.length + weight w s ≤ s.length := by
  have hle : ∀ t, weight w t ≤ t.length := by
    intro t
    induction t with
    | nil => exact le_refl _
    | cons c t ih =>
      have hc := hw c
      rw [weight_cons, List.length_cons]
      omega
  obtain ⟨x, y, rfl⟩ := h
  have hx := hle x
  have hy := hle y
  simp only [weight_append, List.length_append]
  omega

omit [DecidableEq α] in
@[simp] theorem weight_one (s : List α) : weight (fun _ => 1) s = s.length := by
  rw [weight, List.map_const', List.sum_replicate_nat, Nat.mul_one]

variable {w : α → Nat}

/-- A comparison of the two sides of a rule carries over to the texts. -/
theorem weight_subst {R : Nat → Nat → Prop} (hrefl : ∀ n, R n n) (hadd : ∀ {m n m' n'}, R m n → R m' n' → R (m + m') (n + n'))
    (h : R (weight w r.key) (weight w r.value)) (s : List α) : R (weight w s) (weight w (subst [r] s)) := by
  induction s using subst_induction [r] with
  | nil => exact hrefl _
  | rule r' s hfirst ih =>
    obtain rfl := List.mem_singleton.mp (mem_of_firstRule hfirst).1
    rw [subst_of_rule hfirst, weight_append, weight_append]
    exact hadd h ih
  | skip c s hnone ih =>
    rw [subst_of_none hnone, weight_cons, weight_cons]
    exact hadd (hrefl _) ih

theorem weight_le_subst (h : weight w r.key ≤ weight w r.value) (s : List α) : weight w s ≤ weight w (subst [r] s) :=
  weight_subst Nat.le_refl Nat.add_le_add h s

theorem subst_weight_le (h : weight w r.value ≤ weight w r.key) (s : List α) : weight w (subst [r] s) ≤ weight w s :=
  weight_subst (R := fun m n => n ≤ m) Nat.le_refl Nat.add_le_add h s

theorem weight_lt_subst (h : weight w r.key < weight w r.value) (hin : r.key <:+: s) :
    weight w s < weight w (subst [r] s) := by
  obtain ⟨x, y, rfl, hsubst⟩ := occurrence_first hin
  have hrest := weight_le_subst (le_of_lt h) y
  rw [hsubst]
  simp only [weight_append]
  omega

theorem subst_weight_lt (h : weight w r.value < weight w r.key) (hin : r.key <:+: s) :
    weight w (subst [r] s) < weight w s := by
  obtain ⟨x, y, rfl, hsubst⟩ := occurrence_first hin
  have hrest := subst_weight_le (le_of_lt h) y
  rw [hsubst]
  simp only [weight_append]
  omega

theorem subst_of_value_eq (h : r.value = r.key) (s : List α) : subst [r] s = s := by
  induction s using subst_induction [r] with
  | nil => rfl
  | rule r' s hfirst ih =>
    obtain rfl := List.mem_singleton.mp (mem_of_firstRule hfirst).1
    rw [subst_of_rule hfirst, ih, h]
  | skip c s hnone ih => rw [subst_of_none hnone, ih]

/-- A rule changes nothing when its key does not occur or is its value. -/
theorem subst_eq_self_iff : subst [r] s = s ↔ r.value = r.key ∨ ¬ r.key <:+: s := by
  constructor
  · intro h
    by_contra hno
    rw [not_or, not_not] at hno
    obtain ⟨hne, hin⟩ := hno
    rcases Nat.lt_trichotomy r.value.length r.key.length with hlt | heq | hlt
    · have hless := subst_weight_lt (w := fun _ => 1) (by rwa [weight_one, weight_one]) hin
      rw [h] at hless
      exact lt_irrefl _ hless
    · obtain ⟨x, y, hs, hsubst⟩ := occurrence_first hin
      rw [h] at hsubst
      have hsame := List.append_cancel_left (hs.symm.trans hsubst)
      exact hne (List.append_inj hsame heq.symm).1.symm
    · have hless := weight_lt_subst (w := fun _ => 1) (by rwa [weight_one, weight_one]) hin
      rw [h] at hless
      exact lt_irrefl _ hless
  · rintro (h | h)
    · exact subst_of_value_eq h s
    · exact subst_eq_self fun r' hr' => by rwa [List.mem_singleton.mp hr']

/-! ## Texts with holes -/

variable {ι : Type}

/-- Literals, each with a hole behind it, and a last literal. -/
def fill (ρ : ι → List α) (last : List α) : List (List α × ι) → List α
  | [] => last
  | p :: parts => p.1 ++ (ρ p.2 ++ fill ρ last parts)

/-- A literal that no key touches, whatever stands beside it. -/
structure Sealed (rules : List (Rule α)) (l : List α) : Prop where
  head : ∃ c m, l = c :: m ∧ Free rules c
  tail : ∃ m c, l = m ++ [c] ∧ Free rules c
  none : ∀ r ∈ rules, ¬ r.key <:+: l

theorem subst_fill {last : List α} (hhead : ∃ c m, last = c :: m ∧ Free rules c)
    (hlast : ∀ r ∈ rules, ¬ r.key <:+: last) (ρ : ι → List α) {parts : List (List α × ι)}
    (h : ∀ p ∈ parts, Sealed rules p.1) :
    subst rules (fill ρ last parts) = fill (fun i => subst rules (ρ i)) last parts := by
  induction parts with
  | nil => exact subst_eq_self hlast
  | cons p parts ih =>
    have hp := h p List.mem_cons_self
    have hrest : ∃ c m, fill ρ last parts = c :: m ∧ Free rules c := by
      cases parts with
      | nil => exact hhead
      | cons p' parts =>
        obtain ⟨c, m, hc, hfree⟩ := (h p' (by simp)).head
        exact ⟨c, m ++ (ρ p'.2 ++ fill ρ last parts), by rw [fill, hc, List.cons_append], hfree⟩
    obtain ⟨c, m, hc, hfree⟩ := hrest
    obtain ⟨l, d, hl, hd⟩ := hp.tail
    have hself := subst_eq_self hp.none
    have hlit : ∀ t, subst rules (p.1 ++ t) = p.1 ++ subst rules t := by
      intro t
      have hnil := subst_append_delim hd l []
      rw [← hl, hself, subst_nil] at hnil
      conv_lhs => rw [hl, List.append_assoc, List.singleton_append, subst_append_delim hd]
      conv_rhs => rw [hnil, List.append_assoc, List.singleton_append]
    have hhole : subst rules (ρ p.2 ++ fill ρ last parts) = subst rules (ρ p.2) ++ subst rules (fill ρ last parts) := by
      have hnil := subst_append_delim hfree [] m
      rw [List.nil_append, subst_nil, List.nil_append] at hnil
      rw [hc, subst_append_delim hfree, hnil]
    rw [fill, hlit, hhole, ih fun q hq => h q (List.mem_cons_of_mem p hq), fill]

omit [DecidableEq α] in
theorem length_fill (ρ : ι → List α) (last : List α) (parts : List (List α × ι)) :
    (fill ρ last parts).length = (parts.map fun p => p.1.length).sum + last.length +
      ((parts.map Prod.snd).map fun i => (ρ i).length).sum := by
  induction parts with
  | nil => simp [fill]
  | cons p parts ih =>
    rw [fill, List.length_append, List.length_append, ih]
    simp only [List.map_cons, List.sum_cons]
    omega

omit [DecidableEq α] in
theorem fill_inj {ρ σ : ι → List α} {last : List α} {parts : List (List α × ι)}
    (hlen : ∀ i, (ρ i).length = (σ i).length) (h : fill ρ last parts = fill σ last parts) :
    ∀ i ∈ parts.map Prod.snd, ρ i = σ i := by
  induction parts with
  | nil => exact fun i hi => absurd hi (List.not_mem_nil)
  | cons p parts ih =>
    obtain ⟨hhole, hrest⟩ := List.append_inj (List.append_cancel_left h) (hlen p.2)
    intro i hi
    rcases List.mem_cons.mp hi with rfl | hi
    · exact hhole
    · exact ih hrest i hi

end Lib.Substitute
