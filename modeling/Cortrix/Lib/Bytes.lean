import Mathlib.Data.List.Basic
import Mathlib.Tactic.Linarith
import Mathlib.Tactic.Ring

/-!
# Bytes: little-endian integers and bounded reads

* `leBytes k n` : the `k` low bytes of `n`, least significant first; `leNat` reads them back
  (`leNat_leBytes`: modulo `256 ^ k`; `leNat_inj`: no two spellings of one length);
* `readAt data off len` : `len` bytes at `off`, or `none` when one of them lies outside the buffer;
  `readAt_append_right` moves a read past a prefix, `readAt_append_left` into one.
-/

namespace Lib

abbrev Bytes := List UInt8

/-- The `k` low bytes of `n`, least significant first. -/
def leBytes : Nat → Nat → Bytes
  | 0, _ => []
  | k + 1, n => UInt8.ofNat n :: leBytes k (n / 256)

/-- The number whose little-endian bytes are given. -/
def leNat : Bytes → Nat
  | [] => 0
  | b :: bs => b.toNat + 256 * leNat bs

@[simp] theorem length_leBytes (k n : Nat) : (leBytes k n).length = k := by
  induction k generalizing n with
  | zero => rfl
  | succ k ih => simp [leBytes, ih]

theorem leNat_leBytes (k n : Nat) : leNat (leBytes k n) = n % 256 ^ k := by
  induction k generalizing n with
  | zero => simp [leBytes, leNat, Nat.mod_one]
  | succ k ih =>
    rw [leBytes, leNat, ih, pow_succ', Nat.mod_mul]
    simp

theorem leNat_leBytes_of_lt {k n : Nat} (h : n < 256 ^ k) : leNat (leBytes k n) = n := by
  rw [leNat_leBytes, Nat.mod_eq_of_lt h]

theorem leNat_lt (bs : Bytes) : leNat bs < 256 ^ bs.length := by
  induction bs with
  | nil => simp [leNat]
  | cons b bs ih =>
    have hb : b.toNat < 256 := b.toNat_lt
    rw [leNat, List.length_cons, pow_succ']
    omega

theorem leNat_append (xs ys : Bytes) : leNat (xs ++ ys) = leNat xs + 256 ^ xs.length * leNat ys := by
  induction xs with
  | nil => simp [leNat]
  | cons x xs ih =>
    rw [List.cons_append, leNat, leNat, ih, List.length_cons, pow_succ']
    ring

theorem leNat_inj {xs ys : Bytes} (hlen : xs.length = ys.length) (h : leNat xs = leNat ys) : xs = ys := by
  induction xs generalizing ys with
  | nil => exact (List.eq_nil_of_length_eq_zero hlen.symm).symm
  | cons x xs ih =>
    rcases ys with _ | ⟨y, ys⟩
    · exact absurd hlen (by simp)
    · have hx : x.toNat < 256 := x.toNat_lt
      have hy : y.toNat < 256 := y.toNat_lt
      rw [leNat, leNat] at h
      rw [ih (by simpa using hlen) (by omega), UInt8.toNat_inj.mp (show x.toNat = y.toNat by omega)]

theorem leBytes_leNat (bs : Bytes) : leBytes bs.length (leNat bs) = bs :=
  leNat_inj (length_leBytes _ _) (by rw [leNat_leBytes, Nat.mod_eq_of_lt (leNat_lt bs)])

/-! ## Bounded reads -/

/-- `len` bytes at `off`, `none` when they are not all inside the buffer. -/
def readAt (data : Bytes) (off len : Nat) : Option Bytes :=
  if off + len ≤ data.length then some ((data.drop off).take len) else none

theorem readAt_eq_some {data : Bytes} {off len : Nat} (h : off + len ≤ data.length) :
    readAt data off len = some ((data.drop off).take len) := if_pos h

theorem readAt_length {data bs : Bytes} {off len : Nat} (h : readAt data off len = some bs) :
    bs.length = len := by
  unfold readAt at h
  split at h
  · cases h
    rw [List.length_take, List.length_drop]
    omega
  · cases h

theorem drop_of_readAt {data bs : Bytes} {off len : Nat} (h : readAt data off len = some bs) :
    data.drop off = bs ++ data.drop (off + len) := by
  unfold readAt at h
  split at h
  · cases h
    rw [← List.drop_drop, List.take_append_drop]
  · cases h

theorem readAt_append_right (pre data : Bytes) (off len : Nat) :
    readAt (pre ++ data) (pre.length + off) len = readAt data off len := by
  unfold readAt
  simp only [List.length_append, Nat.add_assoc, Nat.add_le_add_iff_left, ← List.drop_drop,
    List.drop_left]

theorem readAt_append_left {data post : Bytes} {off len : Nat} (h : off + len ≤ data.length) :
    readAt (data ++ post) off len = readAt data off len := by
  rw [readAt_eq_some h, readAt_eq_some (by rw [List.length_append]; omega),
    List.drop_append_of_le_length (by omega),
    List.take_append_of_le_length (by rw [List.length_drop]; omega)]

theorem readAt_piece (pre piece post : Bytes) :
    readAt (pre ++ (piece ++ post)) pre.length piece.length = some piece := by
  have h := readAt_append_right pre (piece ++ post) 0 piece.length
  rw [Nat.add_zero] at h
  rw [h, readAt_append_left (by omega), readAt_eq_some (by omega)]
  simp

end Lib
