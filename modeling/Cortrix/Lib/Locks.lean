import Mathlib.Logic.Relation
import Mathlib.Data.List.Basic

/-!
# Locks that parties hold and wait for

A party wants at most one lock at a time, and holds some. An access is exclusive or shared; two accesses of one lock
conflict unless both are shared.

* `WaitsFor`, `Deadlocked` : a party wants what another one holds; a cycle of parties that wait so;
* `deadlocked_of_pair` : two parties that want what the other one holds are.
-/

namespace Lib

variable {α ℓ : Type}

structure Access (ℓ : Type) where
  lock : ℓ
  exclusive : Bool

def Access.Conflicts (a b : Access ℓ) : Prop := a.lock = b.lock ∧ (a.exclusive || b.exclusive) = true

instance [DecidableEq ℓ] (a b : Access ℓ) : Decidable (a.Conflicts b) := inferInstanceAs (Decidable (_ ∧ _))

variable (wants : α → Option (Access ℓ)) (holds : α → List (Access ℓ))

def WaitsFor (p q : α) : Prop := ∃ a ∈ wants p, ∃ b ∈ holds q, a.Conflicts b

/-- Some party waits, through others, for itself. -/
def Deadlocked (parties : List α) : Prop :=
  ∃ p ∈ parties, Relation.TransGen (fun p q => q ∈ parties ∧ WaitsFor wants holds p q) p p

/-- The access is free of conflicts. -/
def granted [DecidableEq ℓ] (parties : List α) (a : Access ℓ) : Bool :=
  parties.all fun q => (holds q).all fun b => !decide (a.Conflicts b)

variable {wants : α → Option (Access ℓ)} {holds : α → List (Access ℓ)} {parties : List α}

/-- A lock order: what a party wants comes after all it holds. -/
theorem not_deadlocked_of_rank (rank : ℓ → Nat)
    (hrank : ∀ p ∈ parties, ∀ a ∈ wants p, ∀ b ∈ holds p, rank b.lock < rank a.lock) :
    ¬ Deadlocked wants holds parties := by
  have hchain : ∀ p q, p ∈ parties → Relation.TransGen (fun p q => q ∈ parties ∧ WaitsFor wants holds p q) p q →
      q ∈ parties ∧ ∃ a ∈ wants p, ∃ b ∈ holds q, rank a.lock ≤ rank b.lock := by
    intro p q hp hpath
    induction hpath with
    | single h =>
      obtain ⟨hq, a, ha, b, hb, hlock, -⟩ := h
      exact ⟨hq, a, ha, b, hb, Nat.le_of_eq (congrArg rank hlock)⟩
    | tail _ h ih =>
      -- the next party wants a lock above the one it holds
      obtain ⟨hmid, a, ha, b, hb, hle⟩ := ih
      obtain ⟨hq, a', ha', b', hb', hlock, -⟩ := h
      have hlt := hrank _ hmid a' ha' b hb
      refine ⟨hq, a, ha, b', hb', ?_⟩
      rw [← hlock]
      omega
  rintro ⟨p, hp, hcycle⟩
  obtain ⟨-, a, ha, b, hb, hle⟩ := hchain p p hp hcycle
  have := hrank p hp a ha b hb
  omega

theorem deadlocked_of_pair {p q : α} (hp : p ∈ parties) (hq : q ∈ parties) (hpq : WaitsFor wants holds p q)
    (hqp : WaitsFor wants holds q p) : Deadlocked wants holds parties :=
  ⟨p, hp, (Relation.TransGen.single ⟨hq, hpq⟩).tail ⟨hp, hqp⟩⟩

end Lib
