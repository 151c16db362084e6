import Cortrix.Query.LlmRerankStage
import Mathlib.Data.List.Chain

/-!
# Listwise reranking permutes

Every usable reply is a ranking of the whole window, so every window permutes the head; what the model writes decides
only the order.

* `Permutes` : what the stage promises; `apply_permutes` : it keeps it.
-/

namespace Cortrix.Query.LlmRerank
open Lib

variable {α : Type}

/-! ## Rankings -/

variable {n : Nat} {order : List Nat} {count : Nat} {votes : Nat → Vote} {consensus start : Nat} {starts : List Nat}
  {s s' : Sweep} {k : Nat}

theorem rankEntry_valid (h : order.Nodup ∧ ∀ i ∈ order, i < n) (entry : Json) :
    (rankEntry n order entry).Nodup ∧ ∀ i ∈ rankEntry n order entry, i < n := by
  unfold rankEntry
  dsimp only
  split
  · exact h
  · rename_i hrange
    split
    · exact h
    · rename_i hnew
      rw [List.contains_iff_mem] at hnew
      refine ⟨List.nodup_append.mpr ⟨h.1, List.nodup_singleton _, ?_⟩, fun i hi => ?_⟩
      · rintro a ha b hb rfl
        rw [List.mem_singleton] at hb
        exact hnew (hb ▸ ha)
      · rcases List.mem_append.mp hi with hi | hi
        · exact h.2 i hi
        · rw [List.mem_singleton] at hi
          omega

theorem foldl_append_new (l : List Nat) (h : order.Nodup) :
    (l.foldl (fun order i => if order.contains i then order else order ++ [i]) order).Nodup ∧
      ∀ i, i ∈ l.foldl (fun order i => if order.contains i then order else order ++ [i]) order ↔ i ∈ order ∨ i ∈ l := by
  induction l generalizing order with
  | nil => exact ⟨h, fun i => by simp⟩
  | cons a l ih =>
    rw [List.foldl_cons]
    by_cases ha : a ∈ order
    · rw [if_pos (List.contains_iff_mem.mpr ha)]
      obtain ⟨hnodup, hmem⟩ := ih h
      refine ⟨hnodup, fun i => ?_⟩
      rw [hmem, List.mem_cons]
      constructor
      · rintro (hi | hi)
        · exact Or.inl hi
        · exact Or.inr (Or.inr hi)
      · rintro (hi | rfl | hi)
        · exact Or.inl hi
        · exact Or.inl ha
        · exact Or.inr hi
    · rw [if_neg (by rwa [List.contains_iff_mem])]
      have hnew : (order ++ [a]).Nodup := List.nodup_append.mpr ⟨h, List.nodup_singleton a, by
        rintro b hb c hc rfl
        exact ha (List.mem_singleton.mp hc ▸ hb)⟩
      obtain ⟨hnodup, hmem⟩ := ih hnew
      refine ⟨hnodup, fun i => ?_⟩
      rw [hmem, List.mem_append, List.mem_singleton, List.mem_cons, or_assoc]

/-- A usable ranking names every index once. -/
theorem parseRankingJson_perm {content : Except String Json} (h : parseRankingJson content n = .ok order) :
    order.Perm (List.range n) := by
  unfold parseRankingJson at h
  split at h
  · exact absurd h (by simp)
  · split at h
    · exact absurd h (by simp)
    · rename_i ranking _
      dsimp only at h
      split at h
      · exact absurd h (by simp)
      · cases h
        have hvalid : ∀ (entries : List Json) (order : List Nat), order.Nodup ∧ (∀ i ∈ order, i < n) →
            (entries.foldl (rankEntry n) order).Nodup ∧ ∀ i ∈ entries.foldl (rankEntry n) order, i < n := by
          intro entries
          induction entries with
          | nil => exact fun order h => h
          | cons entry entries ih => exact fun order h => ih _ (rankEntry_valid h entry)
        obtain ⟨hnodup, hlt⟩ := hvalid ranking [] ⟨List.nodup_nil, by simp⟩
        obtain ⟨hnodup', hmem⟩ := foldl_append_new (List.range n) hnodup
        refine (List.perm_ext_iff_of_nodup hnodup' List.nodup_range).mpr fun i => ?_
        rw [hmem, List.mem_range]
        exact ⟨fun hi => hi.elim (hlt i) id, Or.inr⟩
    · exact absurd h (by simp)
  · exact absurd h (by simp)

theorem presentationOrder_perm (n run : Nat) : (presentationOrder n run).Perm (List.range n) := by
  unfold presentationOrder
  split
  · exact List.reverse_perm _
  · refine (List.perm_ext_iff_of_nodup (List.nodup_append.mpr ⟨?_, ?_, ?_⟩) List.nodup_range).mpr fun i => ?_
    · exact List.Nodup.map (fun a b h => by simpa using h) List.nodup_range
    · exact List.Nodup.map (fun a b h => by simpa using h) List.nodup_range
    · intro a ha b hb
      obtain ⟨i, -, rfl⟩ := List.mem_map.mp ha
      obtain ⟨j, -, rfl⟩ := List.mem_map.mp hb
      omega
    · simp only [List.mem_append, List.mem_map, List.mem_range]
      constructor
      · rintro (⟨j, hj, rfl⟩ | ⟨j, hj, rfl⟩) <;> omega
      · intro hi
        rcases Nat.even_or_odd' i with ⟨j, rfl | rfl⟩
        · exact Or.inl ⟨j, by omega, rfl⟩
        · exact Or.inr ⟨j, by omega, rfl⟩
  · exact List.Perm.refl _

/-- The slots of a window as a vote ranks them, when the vote is usable. -/
def ballotOf (count run : Nat) : Vote → Option (List Nat)
  | .answered _ (.content parsed) =>
    match parseRankingJson parsed count with
    | .ok presentedRank => some (presentedRank.map fun r => (presentationOrder count run).getD r 0)
    | .error _ => none
  | _ => none

theorem map_getD_perm {ranks : List Nat} (horder : order.Perm (List.range n)) (hranks : ranks.Perm (List.range n)) :
    (ranks.map fun r => order.getD r 0).Perm (List.range n) := by
  have hlen : order.length = n := by rw [horder.length_eq, List.length_range]
  have hall : (List.range n).map (fun r => order.getD r 0) = order := by
    refine List.ext_getElem (by simp [hlen]) fun i hi hi' => ?_
    rw [List.getElem_map, List.getElem_range, List.getD_eq_getElem?_getD, List.getElem?_eq_getElem hi', Option.getD_some]
  refine (hranks.map _).trans ?_
  rw [hall]
  exact horder

theorem ballotOf_perm {run : Nat} {vote : Vote} {ballot : List Nat} (h : ballotOf count run vote = some ballot) :
    ballot.Perm (List.range count) := by
  unfold ballotOf at h
  split at h
  · split at h
    · rename_i hparse
      cases h
      exact map_getD_perm (presentationOrder_perm count run) (parseRankingJson_perm hparse)
    · exact absurd h (by simp)
  · exact absurd h (by simp)

/-! ## Votes -/

theorem castVote_none {run : Nat} {vote : Vote} (t : Tally) (h : ballotOf count run vote = none) :
    (castVote count t run vote).points = t.points ∧ (castVote count t run vote).windowVotes = t.windowVotes := by
  unfold ballotOf at h
  unfold castVote
  split
  · exact ⟨rfl, rfl⟩
  · dsimp only
    split
    · exact ⟨rfl, rfl⟩
    · dsimp only at h
      split
      · exact ⟨rfl, rfl⟩
      · rename_i hparse
        rw [hparse] at h
        exact absurd h (by simp)

theorem castVote_some {run : Nat} {vote : Vote} {ballot : List Nat} (t : Tally)
    (h : ballotOf count run vote = some ballot) :
    (castVote count t run vote).points = addBallot count 0 t.points ballot ∧
      (castVote count t run vote).windowVotes = t.windowVotes + 1 := by
  unfold ballotOf at h
  unfold castVote
  split at h
  · dsimp only
    split at h
    · rename_i hparse
      rw [hparse]
      cases h
      exact ⟨rfl, rfl⟩
    · exact absurd h (by simp)
  · exact absurd h (by simp)

theorem castVotes_succ (count : Nat) (votes : Nat → Vote) (consensus : Nat) (t : Tally) :
    castVotes count votes (consensus + 1) t =
      castVote count (castVotes count votes consensus t) consensus (votes consensus) := by
  rw [castVotes, List.range_succ, List.foldl_append]
  rfl

theorem castVotes_induction {t : Tally} {P : Tally → Prop} (h : P t)
    (hstep : ∀ run < consensus, ∀ t, P t → P (castVote count t run (votes run))) :
    P (castVotes count votes consensus t) := by
  induction consensus with
  | zero => exact h
  | succ consensus ih =>
    rw [castVotes_succ]
    exact hstep consensus (Nat.lt_succ_self _) _ (ih fun run hrun => hstep run (Nat.lt_succ_of_lt hrun))

theorem castVotes_windowVotes {t : Tally} (h : t.windowVotes = 0) :
    (castVotes count votes consensus t).windowVotes = 0 ↔ ∀ run < consensus, ballotOf count run (votes run) = none := by
  induction consensus with
  | zero => exact ⟨fun _ run hrun => absurd hrun (Nat.not_lt_zero run), fun _ => h⟩
  | succ consensus ih =>
    rw [castVotes_succ]
    constructor
    · intro hzero run hrun
      cases hballot : ballotOf count consensus (votes consensus) with
      | some ballot =>
        rw [(castVote_some _ hballot).2] at hzero
        exact absurd hzero (Nat.succ_ne_zero _)
      | none =>
        rw [(castVote_none _ hballot).2] at hzero
        rcases Nat.lt_succ_iff_lt_or_eq.mp hrun with hlt | rfl
        · exact ih.mp hzero run hlt
        · exact hballot
    · intro hnone
      rw [(castVote_none _ (hnone consensus (Nat.lt_succ_self _))).2]
      exact ih.mpr fun run hrun => hnone run (Nat.lt_succ_of_lt hrun)

/-- `slot` has a point more than any other for every usable vote. -/
def Ahead (count slot : Nat) (t : Tally) : Prop :=
  t.points.length = count ∧ ∀ k < count, k ≠ slot → t.points.getD k 0 + t.windowVotes ≤ t.points.getD slot 0

theorem castVotes_ahead {slot : Nat} {t : Tally} (hslot : slot < count) (h : Ahead count slot t)
    (hfirst : ∀ run < consensus, ∀ ballot, ballotOf count run (votes run) = some ballot →
      ballot.head? = some slot) : Ahead count slot (castVotes count votes consensus t) := by
  refine castVotes_induction h fun run hrun t ht => ?_
  cases hballot : ballotOf count run (votes run) with
  | none =>
    obtain ⟨hpoints, hvotes⟩ := castVote_none t hballot
    rw [Ahead, hpoints, hvotes]
    exact ht
  | some ballot =>
    obtain ⟨hpoints, hvotes⟩ := castVote_some t hballot
    have hnodup : ballot.Nodup := (ballotOf_perm hballot).nodup_iff.mpr List.nodup_range
    obtain ⟨rest, rfl⟩ : ∃ rest, ballot = slot :: rest := by
      have hhead := hfirst run hrun ballot hballot
      cases ballot with
      | nil => exact absurd hhead (by simp)
      | cons b rest => exact ⟨rest, by rw [Option.some.inj hhead]⟩
    rw [Ahead, hpoints, hvotes, addBallot_length]
    refine ⟨ht.1, fun k hk hne => ?_⟩
    have hothers := addBallot_others count (by rwa [ht.1]) hnodup hne
    have hmine := addBallot_first count (by rwa [ht.1]) hnodup
    have hbefore := ht.2 k hk hne
    omega

/-! ## Windows -/

theorem nextStarts_pos (h : 0 < start) : ∃ next, nextStarts start = next :: nextStarts next ∧
    next < start ∧ start ≤ next + kLlmRerankWindowStride := by
  rw [nextStarts, if_pos h]
  unfold kLlmRerankWindowStride
  refine ⟨_, rfl, ?_, ?_⟩ <;> split <;> omega

theorem nextStarts_zero : nextStarts 0 = [] := by rw [nextStarts, if_neg (Nat.lt_irrefl 0)]

/-- The windows from `start` on end at 0 and overlap. -/
theorem nextStarts_chain (start : Nat) : (start :: nextStarts start).getLast? = some 0 ∧
    (start :: nextStarts start).IsChain (fun a b => b < a ∧ a ≤ b + kLlmRerankWindowStride) ∧
      ∀ a ∈ start :: nextStarts start, a ≤ start := by
  induction start using Nat.strong_induction_on with
  | _ start ih =>
    rcases Nat.eq_zero_or_pos start with rfl | hpos
    · rw [nextStarts_zero]
      exact ⟨rfl, List.IsChain.singleton 0, by simp⟩
    · obtain ⟨next, heq, hlt, hle⟩ := nextStarts_pos hpos
      obtain ⟨hlast, hchain, hbound⟩ := ih next hlt
      rw [heq]
      refine ⟨?_, List.IsChain.cons_cons ⟨hlt, hle⟩ hchain, fun a ha => ?_⟩
      · rw [List.getLast?_cons_cons]
        exact hlast
      · rcases List.mem_cons.mp ha with rfl | ha
        · exact Nat.le_refl _
        · exact Nat.le_trans (hbound a ha) (Nat.le_of_lt hlt)

/-- The windows of a head of length `n`: the first one reaches its end, each overlaps the one before it, the last one
starts at 0. -/
structure Windows (n : Nat) (starts : List Nat) : Prop where
  last : starts.getLast? = some 0
  chain : starts.IsChain fun a b => b ≤ a ∧ a < b + windowCount n b
  inside : ∀ a ∈ starts, a + windowCount n a ≤ n
  first : ∀ a ∈ starts.head?, a + windowCount n a = n

theorem windowStarts_windows (n : Nat) : Windows n (windowStarts n) := by
  unfold windowStarts
  split
  · rename_i hle
    have hcount : windowCount n 0 = n := by
      unfold windowCount kLlmRerankWindowSize at *
      omega
    exact ⟨rfl, List.IsChain.singleton 0, by simp [hcount], by simp [hcount]⟩
  · rename_i hlong
    obtain ⟨hlast, hchain, hbound⟩ := nextStarts_chain (n - kLlmRerankWindowSize)
    refine ⟨hlast, ?_, fun a ha => ?_, fun a ha => ?_⟩
    · refine hchain.imp_of_mem_imp fun a b ha hb hab => ?_
      have hb' := hbound b hb
      have ha' := hbound a ha
      unfold windowCount kLlmRerankWindowSize kLlmRerankWindowStride at *
      omega
    · have ha' := hbound a ha
      unfold windowCount kLlmRerankWindowSize at *
      omega
    · obtain rfl : n - kLlmRerankWindowSize = a := by simpa using ha
      unfold windowCount kLlmRerankWindowSize at *
      omega

/-- Windows that overlap from the end of the head down to 0 cover it. -/
theorem Windows.covers (h : Windows n starts) :
    ∀ i < n, ∃ start ∈ starts, start ≤ i ∧ i < start + windowCount n start := by
  have hrun : ∀ (starts : List Nat) (start : Nat), (start :: starts).getLast? = some 0 →
      (start :: starts).IsChain (fun a b => b ≤ a ∧ a < b + windowCount n b) → ∀ i < start + windowCount n start,
      ∃ a ∈ start :: starts, a ≤ i ∧ i < a + windowCount n a := by
    intro starts
    induction starts with
    | nil =>
      intro start hlast _ i hi
      obtain rfl : start = 0 := by simpa using hlast
      exact ⟨0, by simp, Nat.zero_le i, hi⟩
    | cons next starts ih =>
      intro start hlast hchain i hi
      rw [List.isChain_cons_cons] at hchain
      rw [List.getLast?_cons_cons] at hlast
      rcases Nat.lt_or_ge i start with hlt | hge
      · obtain ⟨a, ha, hin⟩ := ih next hlast hchain.2 i (Nat.lt_trans hlt hchain.1.2)
        exact ⟨a, List.mem_cons_of_mem _ ha, hin⟩
      · exact ⟨start, by simp, hge, hi⟩
  intro i hi
  cases starts with
  | nil => exact absurd h.last (by simp)
  | cons start starts => exact hrun starts start h.last h.chain i (by rwa [h.first start rfl])

theorem rankWindow_ok (h : rankWindow n consensus votes start s = .ok s') :
    ∃ t : Tally, t = castVotes (windowCount n start) votes consensus { points := List.replicate (windowCount n start) 0
                                                                       es := s.es
                                                                       lastFailReason := s.lastFailReason
                                                                       lastFailDetail := s.lastFailDetail } ∧
      t.windowVotes ≠ 0 ∧ s'.position = s.position.take start ++
        (standing (windowCount n start) t.points).map (fun slot => s.position.getD (start + slot) 0) ++
        s.position.drop (start + windowCount n start) := by
  unfold rankWindow at h
  dsimp only at h
  split at h
  · exact absurd h (by simp)
  · rename_i hvotes
    cases h
    exact ⟨_, rfl, hvotes, rfl⟩

theorem rankWindow_perm (hlen : s.position.length = n) (hin : start + windowCount n start ≤ n)
    (h : rankWindow n consensus votes start s = .ok s') : s'.position.Perm s.position := by
  obtain ⟨t, -, -, hposition⟩ := rankWindow_ok h
  have hslots : (List.range (windowCount n start)).map (fun slot => s.position.getD (start + slot) 0) =
      (s.position.drop start).take (windowCount n start) := by
    refine List.ext_getElem ?_ fun i hi hi' => ?_
    · rw [List.length_map, List.length_range, List.length_take, List.length_drop]
      omega
    · rw [List.length_map, List.length_range] at hi
      rw [List.getElem_map, List.getElem_range, List.getElem_take, List.getElem_drop, List.getD_eq_getElem?_getD,
        List.getElem?_eq_getElem (by omega), Option.getD_some]
  have hwindow := (standing_perm (windowCount n start) t.points).map fun slot => s.position.getD (start + slot) 0
  rw [hslots] at hwindow
  rw [hposition, List.append_assoc]
  refine ((hwindow.append_right _).append_left _).trans ?_
  rw [← List.drop_drop, List.take_append_drop, List.take_append_drop]

theorem rankWindows_cons {votes : Nat → Nat → Vote} (h : rankWindows n consensus votes k s (start :: starts) = .ok s') :
    ∃ s₁, rankWindow n consensus (votes k) start s = .ok s₁ ∧ rankWindows n consensus votes (k + 1) s₁ starts = .ok s' := by
  rw [rankWindows] at h
  split at h
  · exact absurd h (by simp)
  · exact ⟨_, ‹_›, h⟩

theorem rankWindows_perm {votes : Nat → Nat → Vote} (hlen : s.position.length = n)
    (hin : ∀ a ∈ starts, a + windowCount n a ≤ n) (h : rankWindows n consensus votes k s starts = .ok s') :
    s'.position.Perm s.position := by
  induction starts generalizing k s with
  | nil =>
    cases h
    exact List.Perm.refl _
  | cons start starts ih =>
    rw [List.forall_mem_cons] at hin
    obtain ⟨s₁, hfirst, hrest⟩ := rankWindows_cons h
    have hperm := rankWindow_perm hlen hin.1 hfirst
    exact (ih (by rw [hperm.length_eq, hlen]) hin.2 hrest).trans hperm

theorem rankWindows_voted {votes : Nat → Nat → Vote} (h : rankWindows n consensus votes k s starts = .ok s') {j : Nat}
    (hj : starts[j]? = some start) :
    ∃ run < consensus, ballotOf (windowCount n start) run (votes (k + j) run) ≠ none := by
  induction starts generalizing k s j with
  | nil => exact absurd hj (by simp)
  | cons a starts ih =>
    obtain ⟨s₁, hfirst, hrest⟩ := rankWindows_cons h
    cases j with
    | zero =>
      obtain rfl : a = start := by simpa using hj
      obtain ⟨t, rfl, hvotes, -⟩ := rankWindow_ok hfirst
      by_contra hnone
      refine hvotes ((castVotes_windowVotes rfl).mpr fun run hrun => ?_)
      by_contra hballot
      exact hnone ⟨run, hrun, hballot⟩
    | succ j =>
      obtain ⟨run, hrun, hballot⟩ := ih hrest (by simpa using hj)
      exact ⟨run, hrun, by rwa [Nat.add_right_comm, Nat.add_assoc] at hballot⟩

/-! ## A favoured result -/

/-- Every usable vote of a window ranks `x` first, when the window contains it. -/
def RanksFirst (n consensus : Nat) (votes : Nat → Vote) (x start : Nat) (s : Sweep) : Prop :=
  ∀ slot < windowCount n start, s.position[start + slot]? = some x → ∀ run < consensus, ∀ ballot,
    ballotOf (windowCount n start) run (votes run) = some ballot → ballot.head? = some slot

/-- So do the votes of all windows, as far as the sweep gets. -/
def Favoured (n consensus : Nat) (votes : Nat → Nat → Vote) (x : Nat) : Nat → Sweep → List Nat → Prop
  | _, _, [] => True
  | k, s, start :: starts => RanksFirst n consensus (votes k) x start s ∧
      ∀ s', rankWindow n consensus (votes k) start s = .ok s' → Favoured n consensus votes x (k + 1) s' starts

/-- A favoured result of the window or of the head in front of it is behind the window's start no more. -/
theorem rankWindow_place {x p : Nat} (hlen : s.position.length = n) (hin : start + windowCount n start ≤ n)
    (hp : s.position[p]? = some x) (hlt : p < start + windowCount n start)
    (hfirst : RanksFirst n consensus votes x start s) (h : rankWindow n consensus votes start s = .ok s') :
    ∃ p' ≤ start, p' ≤ p ∧ s'.position[p']? = some x := by
  obtain ⟨t, ht, hvotes, hposition⟩ := rankWindow_ok h
  have hfront : (s.position.take start).length = start := by
    rw [List.length_take]
    omega
  rcases Nat.lt_or_ge p start with hbefore | hinside
  · refine ⟨p, Nat.le_of_lt hbefore, Nat.le_refl p, ?_⟩
    rw [hposition, List.append_assoc, List.getElem?_append_left (by omega), List.getElem?_take_of_lt hbefore, hp]
  · refine ⟨start, Nat.le_refl start, hinside, ?_⟩
    have hslot : p - start < windowCount n start := by omega
    have hahead : Ahead (windowCount n start) (p - start) t := by
      rw [ht]
      refine castVotes_ahead hslot ⟨by simp, fun k hk _ => ?_⟩ (hfirst (p - start) hslot ?_)
      · simp [hk, hslot]
      · rwa [Nat.add_sub_cancel' hinside]
    have hmost : ∀ k < windowCount n start, k ≠ p - start → t.points.getD k 0 < t.points.getD (p - start) 0 := by
      intro k hk hne
      have hle := hahead.2 k hk hne
      omega
    have hhead := standing_head hslot hmost
    obtain ⟨rest, hstanding⟩ : ∃ rest, standing (windowCount n start) t.points = (p - start) :: rest := by
      cases hstanding : standing (windowCount n start) t.points with
      | nil => rw [hstanding] at hhead; exact absurd hhead (by simp)
      | cons b rest =>
        rw [hstanding] at hhead
        exact ⟨rest, by rw [Option.some.inj hhead]⟩
    rw [hposition, hstanding, List.append_assoc, List.getElem?_append_right (by omega), hfront, Nat.sub_self,
      List.map_cons, List.cons_append, List.getElem?_cons_zero, Nat.add_sub_cancel' hinside, List.getD_eq_getElem?_getD,
      hp, Option.getD_some]

theorem rankWindows_first {votes : Nat → Nat → Vote} {x : Nat} {p : Nat} (hlen : s.position.length = n)
    (hp : s.position[p]? = some x) (hlt : p < start + windowCount n start) (hlast : (start :: starts).getLast? = some 0)
    (hchain : (start :: starts).IsChain fun a b => b ≤ a ∧ a < b + windowCount n b)
    (hin : ∀ a ∈ start :: starts, a + windowCount n a ≤ n) (hfav : Favoured n consensus votes x k s (start :: starts))
    (h : rankWindows n consensus votes k s (start :: starts) = .ok s') : s'.position.head? = some x := by
  induction starts generalizing start k p s with
  | nil =>
    obtain ⟨s₁, hfirst, hrest⟩ := rankWindows_cons h
    obtain ⟨p', hle, -, hp'⟩ := rankWindow_place hlen (hin start (by simp)) hp hlt hfav.1 hfirst
    obtain rfl : start = 0 := by simpa using hlast
    cases hrest
    obtain rfl : p' = 0 := by omega
    rwa [List.head?_eq_getElem?]
  | cons next starts ih =>
    obtain ⟨s₁, hfirst, hrest⟩ := rankWindows_cons h
    rw [List.forall_mem_cons] at hin
    rw [List.isChain_cons_cons] at hchain
    rw [List.getLast?_cons_cons] at hlast
    obtain ⟨p', hle, -, hp'⟩ := rankWindow_place hlen hin.1 hp hlt hfav.1 hfirst
    have hlen' : s₁.position.length = n := by rw [(rankWindow_perm hlen hin.1 hfirst).length_eq, hlen]
    have hlt' : p' < next + windowCount n next := Nat.lt_of_le_of_lt hle hchain.1.2
    exact ih hlen' hp' hlt' hlast hchain.2 hin.2 (hfav.2 s₁ hfirst) hrest

/-! ## Scores -/

theorem tailMax_ge (tail : List (ResultItem α)) : ∀ item ∈ tail, item.score ≤ tailMax tail := by
  have hfold : ∀ (tail : List (ResultItem α)) (m : Rat),
      m ≤ tail.foldl (fun m item => if m < item.score then item.score else m) m ∧
        ∀ item ∈ tail, item.score ≤ tail.foldl (fun m item => if m < item.score then item.score else m) m := by
    intro tail
    induction tail with
    | nil => exact fun m => ⟨le_refl m, by simp⟩
    | cons item tail ih =>
      intro m
      rw [List.foldl_cons]
      obtain ⟨hm, htail⟩ := ih (if m < item.score then item.score else m)
      have hstep : m ≤ (if m < item.score then item.score else m) ∧
          item.score ≤ if m < item.score then item.score else m := by
        split
        · rename_i hlt
          exact ⟨le_of_lt hlt, le_refl _⟩
        · rename_i hge
          exact ⟨le_refl _, not_lt.mp hge⟩
      exact ⟨hstep.1.trans hm, List.forall_mem_cons.mpr ⟨hstep.2.trans hm, htail⟩⟩
  exact (hfold tail 0).2

theorem rescore_rest (n : Nat) (base : Rat) (i : Nat) (head : List (ResultItem α)) :
    (rescore n base i head).map (fun item => item.rest) = head.map fun item => item.rest := by
  induction head generalizing i with
  | nil => rfl
  | cons item head ih => rw [rescore, List.map_cons, List.map_cons, ih]

theorem rankScore_lt {i j : Nat} (hij : i < j) (hj : j < n) :
    mkRat (n - j : Nat) (n + 1) < mkRat (n - i : Nat) (n + 1) := by
  rw [Rat.mkRat_eq_div, Rat.mkRat_eq_div]
  refine div_lt_div_of_pos_right ?_ (by positivity)
  exact_mod_cast (by omega : n - j < n - i)

theorem rankScore_pos {i : Nat} (hi : i < n) : 0 < mkRat (n - i : Nat) (n + 1) := by
  rw [Rat.mkRat_eq_div]
  refine div_pos ?_ (by positivity)
  exact_mod_cast (by omega : 0 < n - i)

theorem rescore_scores (base : Rat) {i : Nat} {head : List (ResultItem α)} (h : i + head.length ≤ n) :
    (rescore n base i head).Pairwise (fun a b => b.score < a.score) ∧
      ∀ item ∈ rescore n base i head, base < item.score ∧ ∃ j, i ≤ j ∧ j < n ∧
        item.score = base + mkRat (n - j : Nat) (n + 1) := by
  induction head generalizing i with
  | nil => exact ⟨List.Pairwise.nil, by simp [rescore]⟩
  | cons item head ih =>
    rw [List.length_cons] at h
    have hi : i < n := by omega
    have hshort : i + 1 + head.length ≤ n := by omega
    obtain ⟨hpairwise, hall⟩ := ih hshort
    rw [rescore]
    refine ⟨List.pairwise_cons.mpr ⟨fun b hb => ?_, hpairwise⟩, List.forall_mem_cons.mpr ⟨⟨?_, i, le_refl i, hi, rfl⟩,
      fun b hb => ?_⟩⟩
    · obtain ⟨-, j, hj, hlt, heq⟩ := hall b hb
      rw [heq]
      exact add_lt_add_right (rankScore_lt (by omega) hlt) base
    · exact lt_add_of_pos_right base (rankScore_pos hi)
    · obtain ⟨hbase, j, hj, hlt, heq⟩ := hall b hb
      exact ⟨hbase, j, by omega, hlt, heq⟩

/-! ## The stage -/

/-- Some window of the head receives no usable vote. -/
def Starved (n consensus : Nat) (votes : Nat → Nat → Vote) : Prop :=
  ∃ k start, (windowStarts n)[k]? = some start ∧
    ∀ run < consensus, ballotOf (windowCount n start) run (votes k run) = none

theorem rankWindow_error {es : ExplainState} (h : rankWindow n consensus votes start s = .error es) :
    ∀ run < consensus, ballotOf (windowCount n start) run (votes run) = none := by
  unfold rankWindow at h
  dsimp only at h
  split at h
  · rename_i hvotes
    exact (castVotes_windowVotes rfl).mp hvotes
  · exact absurd h (by simp)

theorem rankWindows_error {votes : Nat → Nat → Vote} {es : ExplainState}
    (h : rankWindows n consensus votes k s starts = .error es) :
    ∃ j start, starts[j]? = some start ∧
      ∀ run < consensus, ballotOf (windowCount n start) run (votes (k + j) run) = none := by
  induction starts generalizing k s with
  | nil => exact absurd h (by simp [rankWindows])
  | cons a starts ih =>
    rw [rankWindows] at h
    split at h
    · rename_i herror
      exact ⟨0, a, rfl, rankWindow_error herror⟩
    · obtain ⟨j, start, hj, hnone⟩ := ih h
      exact ⟨j + 1, start, hj, fun run hrun => by rw [← Nat.add_assoc, Nat.add_right_comm]; exact hnone run hrun⟩

theorem rankWindows_starved (n consensus : Nat) (votes : Nat → Nat → Vote) (s : Sweep) :
    (∃ es, rankWindows n consensus votes 0 s (windowStarts n) = .error es) ↔ Starved n consensus votes := by
  constructor
  · rintro ⟨es, h⟩
    obtain ⟨j, start, hj, hnone⟩ := rankWindows_error h
    exact ⟨j, start, hj, fun run hrun => by rw [← Nat.zero_add j]; exact hnone run hrun⟩
  · rintro ⟨j, start, hj, hnone⟩
    cases h : rankWindows n consensus votes 0 s (windowStarts n) with
    | error es => exact ⟨es, rfl⟩
    | ok s' =>
      obtain ⟨run, hrun, hballot⟩ := rankWindows_voted h hj
      rw [Nat.zero_add] at hballot
      exact absurd (hnone run hrun) hballot

theorem castVote_orderChanged (count : Nat) (t : Tally) (run : Nat) (vote : Vote) :
    (castVote count t run vote).es.orderChanged = t.es.orderChanged := by
  unfold castVote
  split
  · rfl
  · dsimp only
    split
    · rfl
    · split <;> rfl

theorem castVotes_orderChanged (count : Nat) (votes : Nat → Vote) (consensus : Nat) (t : Tally) :
    (castVotes count votes consensus t).es.orderChanged = t.es.orderChanged :=
  castVotes_induction (P := fun u => u.es.orderChanged = t.es.orderChanged) rfl
    fun run _ u hu => (castVote_orderChanged count u run (votes run)).trans hu

def endState : Except ExplainState Sweep → ExplainState
  | .error es => es
  | .ok s => s.es

theorem rankWindows_orderChanged (n consensus : Nat) (votes : Nat → Nat → Vote) (starts : List Nat) (k : Nat) (s : Sweep) :
    (endState (rankWindows n consensus votes k s starts)).orderChanged = s.es.orderChanged := by
  induction starts generalizing k s with
  | nil => rfl
  | cons start starts ih =>
    have hwindow : (endState (rankWindow n consensus (votes k) start s)).orderChanged = s.es.orderChanged := by
      unfold rankWindow
      dsimp only
      split
      · exact castVotes_orderChanged _ _ _ _
      · exact castVotes_orderChanged _ _ _ _
    rw [rankWindows]
    split
    · rename_i heq
      rwa [heq] at hwindow
    · rename_i s₁ heq
      rw [heq] at hwindow
      exact (ih (k + 1) s₁).trans hwindow

/-- What the stage promises of the results before and after it, `n` being the length of the head. -/
structure Permutes (n consensus : Nat) (votes : Nat → Nat → Vote) (before after : List (ResultItem α))
    (orderChanged : Bool) : Prop where
  perm : (after.map fun item => item.rest).Perm (before.map fun item => item.rest)
  tail : after.drop n = before.drop n
  starved : Starved n consensus votes → after = before
  identity : orderChanged = false → after = before
  covers : ∀ i < n, ∃ start ∈ windowStarts n, start ≤ i ∧ i < start + windowCount n start
  last : (windowStarts n).getLast? = some 0
  scores : orderChanged = true → (after.take n).Pairwise (fun a b => b.score < a.score) ∧
    ∀ a ∈ after.take n, ∀ b ∈ after.drop n, b.score < a.score

/-- A result of the head that every usable vote of every window containing it ranks first is the first one. -/
def FirstWins (n consensus : Nat) (votes : Nat → Nat → Vote) (before after : List (ResultItem α)) : Prop :=
  ∀ x < n, Favoured n consensus votes x 0 (Sweep.initial n) (windowStarts n) →
    after.head?.map (fun item => item.rest) = before[x]?.map fun item => item.rest

theorem permutes_same (n consensus : Nat) (votes : Nat → Nat → Vote) (results : List (ResultItem α)) :
    Permutes n consensus votes results results false where
  perm := List.Perm.refl _
  tail := rfl
  starved _ := rfl
  identity _ := rfl
  covers := (windowStarts_windows n).covers
  last := (windowStarts_windows n).last
  scores h := absurd h (by simp)

theorem filterMap_range (results : List (ResultItem α)) (h : n ≤ results.length) :
    (List.range n).filterMap (fun i => results[i]?) = results.take n := by
  induction n with
  | zero => rfl
  | succ n ih =>
    rw [List.range_succ, List.filterMap_append, ih (Nat.le_of_succ_le h), List.take_add_one]
    simp [List.getElem?_eq_getElem (show n < results.length by omega)]

theorem permutes_reordered {votes : Nat → Nat → Vote} {results : List (ResultItem α)} (hn : n ≤ results.length)
    (h : rankWindows n consensus votes 0 (Sweep.initial n) (windowStarts n) = .ok s) :
    Permutes n consensus votes results (rescore n (tailMax (results.drop n)) 0
      (s.position.filterMap fun i => results[i]?) ++ results.drop n) true := by
  have hwindows := windowStarts_windows n
  have hposition := rankWindows_perm (by simp [Sweep.initial]) hwindows.inside h
  have hhead : (s.position.filterMap fun i => results[i]?).Perm (results.take n) := by
    rw [← filterMap_range results hn]
    exact hposition.filterMap _
  have hlen : (s.position.filterMap fun i => results[i]?).length = n := by
    rw [hhead.length_eq, List.length_take]
    omega
  have hrescored : (rescore n (tailMax (results.drop n)) 0 (s.position.filterMap fun i => results[i]?)).length = n := by
    have hrest := congrArg List.length (rescore_rest n (tailMax (results.drop n)) 0
      (s.position.filterMap fun i => results[i]?))
    rw [List.length_map, List.length_map] at hrest
    rw [hrest, hlen]
  refine ⟨?_, List.drop_left' hrescored, fun hstarved => ?_, fun hsame => absurd hsame (by simp), hwindows.covers,
    hwindows.last, fun _ => ?_⟩
  · rw [List.map_append, rescore_rest, ← List.map_append]
    refine List.Perm.map _ ((hhead.append_right _).trans ?_)
    rw [List.take_append_drop]
  · obtain ⟨es, herror⟩ := (rankWindows_starved n consensus votes (Sweep.initial n)).mpr hstarved
    rw [h] at herror
    exact absurd herror (by simp)
  · rw [List.take_left' hrescored, List.drop_left' hrescored]
    have hbound : 0 + (s.position.filterMap fun i => results[i]?).length ≤ n := by omega
    obtain ⟨hpairwise, hall⟩ := rescore_scores (tailMax (results.drop n)) hbound
    exact ⟨hpairwise, fun a ha b hb => lt_of_le_of_lt (tailMax_ge _ b hb) (hall a ha).1⟩

/-- The stage permutes, and where every window has a usable vote a favoured result comes first. -/
theorem apply_permutes (cfg : LlmRerankConfig) (votes : Nat → Nat → Vote) (resp : Response α) :
    Permutes (headLength cfg resp.results) (consensusRuns cfg) votes resp.results
      (apply (some votes) cfg resp).1.results (apply (some votes) cfg resp).2.orderChanged ∧
    (cfg.enabled = true → 2 ≤ resp.results.length →
      ¬ Starved (headLength cfg resp.results) (consensusRuns cfg) votes →
      FirstWins (headLength cfg resp.results) (consensusRuns cfg) votes resp.results
        (apply (some votes) cfg resp).1.results) ∧
    (apply none cfg resp).1.results = resp.results := by
  have hnone : (apply none cfg resp).1.results = resp.results := by
    unfold apply
    split
    · rfl
    · split <;> rfl
  have hn : headLength cfg resp.results ≤ resp.results.length := min_le_right _ _
  unfold apply
  by_cases henabled : cfg.enabled = false
  · rw [if_pos henabled]
    exact ⟨permutes_same _ _ _ _, fun h => absurd h (by simp [henabled]), by rw [if_pos henabled]⟩
  rw [if_neg henabled, if_neg henabled]
  by_cases hfew : resp.results.length < 2
  · rw [if_pos hfew, if_pos hfew]
    exact ⟨permutes_same _ _ _ _, fun _ h => absurd hfew (Nat.not_lt.mpr h), rfl⟩
  rw [if_neg hfew, if_neg hfew]
  dsimp only
  cases hsweep : rankWindows (headLength cfg resp.results) (consensusRuns cfg) votes 0
      (Sweep.initial (headLength cfg resp.results)) (windowStarts (headLength cfg resp.results)) with
  | error es =>
    have horder := rankWindows_orderChanged (headLength cfg resp.results) (consensusRuns cfg) votes
      (windowStarts (headLength cfg resp.results)) 0 (Sweep.initial (headLength cfg resp.results))
    rw [hsweep] at horder
    refine ⟨?_, fun _ _ hfed => absurd ?_ hfed, rfl⟩
    · rw [show es.orderChanged = false from horder]
      exact permutes_same _ _ _ _
    · exact (rankWindows_starved _ _ _ _).mp ⟨es, hsweep⟩
  | ok s =>
    have horder := rankWindows_orderChanged (headLength cfg resp.results) (consensusRuns cfg) votes
      (windowStarts (headLength cfg resp.results)) 0 (Sweep.initial (headLength cfg resp.results))
    rw [hsweep] at horder
    have hwindows := windowStarts_windows (headLength cfg resp.results)
    have hlen : (Sweep.initial (headLength cfg resp.results)).position.length = headLength cfg resp.results :=
      List.length_range
    -- where a favoured result stands after the sweep
    have hwinner : ∀ x < headLength cfg resp.results, Favoured (headLength cfg resp.results) (consensusRuns cfg) votes x 0
        (Sweep.initial (headLength cfg resp.results)) (windowStarts (headLength cfg resp.results)) →
        s.position.head? = some x := by
      intro x hx hfav
      obtain ⟨start, starts, hstarts⟩ := List.exists_cons_of_ne_nil
        (show windowStarts (headLength cfg resp.results) ≠ [] by
          intro hnil
          rw [hnil] at hwindows
          exact absurd hwindows.last (by simp))
      rw [hstarts] at hfav hsweep hwindows
      refine rankWindows_first (p := x) hlen ?_ ?_ hwindows.last hwindows.chain hwindows.inside hfav hsweep
      · exact List.getElem?_range hx
      · rw [hwindows.first start rfl]
        exact hx
    dsimp only
    split
    · rename_i hidentity
      refine ⟨?_, fun _ _ _ x hx hfav => ?_, rfl⟩
      · rw [show s.es.orderChanged = false from horder]
        exact permutes_same _ _ _ _
      · have hhead := hwinner x hx hfav
        rw [hidentity, List.head?_eq_getElem?, List.getElem?_range (by omega)] at hhead
        cases hhead
        rw [List.head?_eq_getElem?]
    · refine ⟨permutes_reordered hn hsweep, fun _ _ _ x hx hfav => ?_, rfl⟩
      have hhead := hwinner x hx hfav
      cases hposition : s.position with
      | nil =>
        rw [hposition] at hhead
        exact absurd hhead (by simp)
      | cons y rest =>
        rw [hposition] at hhead
        cases hhead
        rw [List.filterMap_cons, List.getElem?_eq_getElem (by omega)]
        rfl

/-! ## Two results -/

def twoResults : Response Nat := { results := [{ score := 1, rest := 0 }, { score := 1, rest := 1 }] }

/-- Three votes, of which the first and the last rank the second result first, and the other one fails. -/
def secondFirst (_k run : Nat) : Vote :=
  .answered "m" (if run = 1 then .failed ⟨.unavailable, "timeout"⟩
    else .content (.ok (.obj [("ranking", .arr [.int 2])])))

def threeResults : Response Nat :=
  { results := [{ score := 3, rest := 0 }, { score := 2, rest := 1 }, { score := 1, rest := 2 }] }

theorem windowStarts_two : windowStarts 2 = [0] := by rw [windowStarts, if_pos (by decide)]

theorem not_starved_secondFirst : ¬ Starved 2 3 secondFirst := by
  rintro ⟨k, start, hstart, hnone⟩
  rw [windowStarts_two] at hstart
  cases k with
  | zero =>
    cases hstart
    exact absurd (hnone 0 (by decide)) (by decide +kernel)
  | succ k => cases hstart

theorem favoured_secondFirst : Favoured 2 3 secondFirst 1 0 (Sweep.initial 2) (windowStarts 2) := by
  rw [windowStarts_two]
  refine ⟨fun slot hslot hx run hrun ballot hballot => ?_, fun _ _ => trivial⟩
  have hone : slot = 1 := by
    rcases slot with - | - | slot
    · exact absurd hx (by decide)
    · rfl
    · exact absurd hslot (by rw [show windowCount 2 0 = 2 from rfl]; omega)
  subst hone
  rcases run with - | - | - | run
  · have heq : some [1, 0] = some ballot := hballot
    rw [← Option.some.inj heq]
    rfl
  · cases hballot
  · have heq : some [1, 0] = some ballot := hballot
    rw [← Option.some.inj heq]
    rfl
  · omega

/-- A head of two is reordered in front of the third result. -/
theorem apply_permutes_three :
    Permutes 2 3 secondFirst threeResults.results
      (apply (some secondFirst) { enabled := true, topN := 2, consensusRuns := 3 } threeResults).1.results true ∧
    (apply (some secondFirst) { enabled := true, topN := 2, consensusRuns := 3 } threeResults).1.results.head?.map
      (·.rest) = some 1 := by
  obtain ⟨hpermutes, hfirst, -⟩ :=
    apply_permutes { enabled := true, topN := 2, consensusRuns := 3 } secondFirst threeResults
  have hhead := hfirst rfl (by decide) not_starved_secondFirst 1 (by decide) favoured_secondFirst
  refine ⟨?_, hhead⟩
  cases hchanged : (apply (some secondFirst) { enabled := true, topN := 2, consensusRuns := 3 } threeResults).2.orderChanged with
  | true => rwa [hchanged] at hpermutes
  | false =>
    rw [hpermutes.identity hchanged] at hhead
    exact absurd hhead (by decide)

/-- Where no vote is usable each result is ranked first by all of them, and the order stays. -/
theorem starved_favourite : Favoured 2 1 (fun _ _ => .exhausted) 1 0 (Sweep.initial 2) (windowStarts 2) ∧
    ¬ FirstWins 2 1 (fun _ _ => .exhausted) twoResults.results
      (apply (some fun _ _ => .exhausted) { enabled := true, topN := 2 } twoResults).1.results := by
  have hfav : Favoured 2 1 (fun _ _ => .exhausted) 1 0 (Sweep.initial 2) (windowStarts 2) := by
    rw [windowStarts_two]
    exact ⟨fun _ _ _ _ _ _ hballot => absurd hballot (by simp [ballotOf]), fun _ _ => trivial⟩
  refine ⟨hfav, fun hwins => ?_⟩
  have hhead := hwins 1 (by decide) hfav
  exact absurd hhead (by decide +kernel)

end Cortrix.Query.LlmRerank
