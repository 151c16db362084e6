import Mathlib.Data.List.Basic

/-!
# Checkpoints and replay

A store applies the records of its history one after another. A checkpoint at `n` holds the state that the
first `n` records lead to; the log may have dropped the records up to a base `b ≤ n`.

* `stateAt apply init hist n` : the state after the first `n` records; it does not change as the history
  grows (`stateAt_append`) and one more record is one more step (`stateAt_drop`);
* `behind b n log` : the records of a log on base `b` that stand behind position `n`; behind a checkpoint not older
  than the base they are the rest of the history (`behind_drop`), and replayed on the checkpoint they give the state
  of the whole history (`stateAt_drop`).
-/

namespace Lib

variable {σ ε : Type} (apply : σ → ε → σ) (init : σ)

def stateAt (hist : List ε) (n : Nat) : σ := (hist.take n).foldl apply init

/-- The records of a log on base `b` that stand behind position `n` of the history. -/
def behind (b n : Nat) (log : List ε) : List ε := log.drop (n - b)

variable {apply init} {hist : List ε} {n b : Nat}

theorem stateAt_append (more : List ε) (h : n ≤ hist.length) :
    stateAt apply init (hist ++ more) n = stateAt apply init hist n := by
  rw [stateAt, stateAt, List.take_append_of_le_length h]

theorem stateAt_drop : (hist.drop n).foldl apply (stateAt apply init hist n) = hist.foldl apply init := by
  rw [stateAt, ← List.foldl_append, List.take_append_drop]

theorem stateAt_length : stateAt apply init hist hist.length = hist.foldl apply init := by
  rw [stateAt, List.take_length]

theorem stateAt_succ {e : ε} {rest : List ε} (h : hist.drop n = e :: rest) :
    stateAt apply init hist (n + 1) = apply (stateAt apply init hist n) e := by
  have hlt : n < hist.length := by
    by_contra hge
    rw [List.drop_eq_nil_of_le (by omega)] at h
    cases h
  have he : hist[n] = e := by
    rw [List.drop_eq_getElem_cons hlt] at h
    exact (List.cons.inj h).1
  rw [stateAt, stateAt, List.take_add_one, List.getElem?_eq_getElem hlt, he, List.foldl_append]
  rfl

theorem behind_drop (h : b ≤ n) : behind b n (hist.drop b) = hist.drop n := by
  rw [behind, List.drop_drop]
  congr 1
  omega

end Lib
