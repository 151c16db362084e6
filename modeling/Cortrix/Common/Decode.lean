import Cortrix.Common.Status
import Cortrix.Lib.Bytes

/-!
# Reads of a byte span

A decoder reads a raw span. `outOfBounds` is a read the span does not cover; it is not an error the code
reports, and a decoder that checks its lengths never produces it.

* `getLE_of_drop`, `getLEs_of_drop` : they read what stands at their position, `drop_step` moves past it, and what
  they read stands there (`drop_of_getLE`, `drop_of_getLEs`);
* `Inside x` : no read of `x` left its span.
-/

namespace Cortrix
open Lib

inductive DecodeError
  | outOfBounds
  | status (s : Status)

def getBytes (data : Bytes) (off len : Nat) : Except DecodeError Bytes :=
  match readAt data off len with
  | some bs => .ok bs
  | none => .error .outOfBounds

/-- The little-endian integer in the `len` bytes at `off` (`GetU16`, `GetU32`, `GetU64`). -/
def getLE (len : Nat) (data : Bytes) (off : Nat) : Except DecodeError Nat :=
  match readAt data off len with
  | some bs => .ok (leNat bs)
  | none => .error .outOfBounds

variable {data bs rest : Bytes} {off len n k pos : Nat} {p : Bytes} {ns : List Nat}

theorem readAt_of_drop (hoff : off ≤ data.length) (h : data.drop off = bs ++ rest) :
    readAt data off bs.length = some bs := by
  have hlen := congrArg List.length h
  rw [List.length_drop, List.length_append] at hlen
  rw [readAt_eq_some (by omega), h, List.take_left]

def getLEs (len : Nat) (data : Bytes) : Nat → Nat → Except DecodeError (List Nat)
  | _, 0 => .ok []
  | off, n + 1 => do
    let v ← getLE len data off
    let vs ← getLEs len data (off + len) n
    return v :: vs

def putLEs (len : Nat) (ns : List Nat) : Bytes := (ns.map (leBytes len)).flatten

@[simp] theorem length_putLEs (len : Nat) (ns : List Nat) : (putLEs len ns).length = len * ns.length := by
  induction ns with
  | nil => rfl
  | cons n ns ih =>
    simp only [putLEs, List.map_cons, List.flatten_cons, List.length_append, length_leBytes,
      List.length_cons, Nat.mul_add] at ih ⊢
    omega

theorem getBytes_of_read (h : readAt data off len = some bs) : getBytes data off len = .ok bs := by
  rw [getBytes, h]

theorem getLE_of_read (h : readAt data off len = some bs) : getLE len data off = .ok (leNat bs) := by
  rw [getLE, h]

theorem getBytes_length (h : getBytes data off len = .ok bs) : bs.length = len := by
  unfold getBytes at h
  split at h
  · rename_i hread
    cases h
    exact readAt_length hread
  · cases h

theorem getLE_lt (h : getLE len data off = .ok n) : n < 256 ^ len := by
  unfold getLE at h
  split at h
  · rename_i bs hread
    cases h
    rw [← readAt_length hread]
    exact leNat_lt bs
  · cases h

theorem getLE_of_drop (hpos : pos ≤ p.length) (h : p.drop pos = leBytes k n ++ rest) :
    getLE k p pos = .ok (n % 256 ^ k) := by
  have hread := readAt_of_drop hpos h
  rw [length_leBytes] at hread
  rw [getLE_of_read hread, leNat_leBytes]

theorem getLE_one_of_drop {b : UInt8} (hpos : pos ≤ p.length) (h : p.drop pos = b :: rest) :
    getLE 1 p pos = .ok b.toNat := by
  have hread : readAt p pos 1 = some [b] := readAt_of_drop hpos (show p.drop pos = [b] ++ rest from h)
  rw [getLE_of_read hread]
  simp [leNat]

theorem drop_step {piece : Bytes} (h : p.drop pos = piece ++ rest) : p.drop (pos + piece.length) = rest := by
  rw [← List.drop_drop, h, List.drop_left]

/-! ## Peeling `Except` computations -/

section
variable {ε α β : Type} {x : Except ε α} {f : α → Except ε β}

@[simp] theorem ok_bind (a : α) : (Except.ok a >>= f) = f a := rfl

@[simp] theorem error_bind (e : ε) : ((Except.error e : Except ε α) >>= f) = .error e := rfl

theorem bind_eq_ok {b : β} : (x >>= f) = .ok b ↔ ∃ a, x = .ok a ∧ f a = .ok b := by
  cases x <;> simp

theorem toOption_bind : (x >>= f).toOption = x.toOption.bind fun a => (f a).toOption := by
  cases x <;> rfl

theorem toOption_eq_some {a : α} : x.toOption = some a ↔ x = .ok a := by
  cases x <;> simp [Except.toOption]

end

theorem getLEs_of_drop (rest : Bytes) (hns : ∀ n ∈ ns, n < 256 ^ k) (hpos : pos + k * ns.length ≤ p.length)
    (h : p.drop pos = putLEs k ns ++ rest) : getLEs k p pos ns.length = .ok ns := by
  induction ns generalizing pos with
  | nil => rfl
  | cons n ns ih =>
    rw [List.length_cons, Nat.mul_add] at hpos
    have hcons : p.drop pos = leBytes k n ++ (putLEs k ns ++ rest) := by
      rw [h]
      simp [putLEs]
    have htail := drop_step hcons
    rw [length_leBytes] at htail
    rw [List.length_cons, getLEs, getLE_of_drop (by omega) hcons, ok_bind,
      ih (fun m hm => hns m (List.mem_cons_of_mem _ hm)) (by omega) htail, ok_bind,
      Nat.mod_eq_of_lt (hns n List.mem_cons_self)]
    rfl

theorem getLEs_length (h : getLEs k p pos n = .ok ns) : ns.length = n := by
  induction n generalizing pos ns with
  | zero => cases h; rfl
  | succ n ih =>
    obtain ⟨v, -, h⟩ := bind_eq_ok.mp h
    obtain ⟨vs, hvs, h⟩ := bind_eq_ok.mp h
    cases h
    rw [List.length_cons, ih hvs]

/-! ## What was read, and reads that stay inside -/

theorem readAt_of_getLE (h : getLE k p off = .ok n) : ∃ bs, readAt p off k = some bs ∧ leNat bs = n := by
  unfold getLE at h
  split at h
  · rename_i bs hread
    cases h
    exact ⟨bs, hread, rfl⟩
  · cases h

theorem drop_of_getLE (h : getLE k p off = .ok n) : p.drop off = leBytes k n ++ p.drop (off + k) := by
  obtain ⟨bs, hread, rfl⟩ := readAt_of_getLE h
  have hbs := leBytes_leNat bs
  rw [readAt_length hread] at hbs
  rw [hbs, drop_of_readAt hread]

theorem drop_of_getBytes (h : getBytes p off len = .ok bs) : p.drop off = bs ++ p.drop (off + len) := by
  unfold getBytes at h
  split at h
  · rename_i hread
    cases h
    exact drop_of_readAt hread
  · cases h

theorem drop_of_getLEs (h : getLEs k p off n = .ok ns) : p.drop off = putLEs k ns ++ p.drop (off + k * n) := by
  induction n generalizing off ns with
  | zero => cases h; rfl
  | succ n ih =>
    obtain ⟨v, hv, h⟩ := bind_eq_ok.mp h
    obtain ⟨vs, hvs, h⟩ := bind_eq_ok.mp h
    cases h
    have hstep : off + k * (n + 1) = off + k + k * n := by rw [Nat.mul_succ]; omega
    rw [drop_of_getLE hv, ih hvs, hstep]
    simp only [putLEs, List.map_cons, List.flatten_cons, List.append_assoc]

theorem getLEs_lt (h : getLEs k p off n = .ok ns) : ∀ m ∈ ns, m < 256 ^ k := by
  induction n generalizing off ns with
  | zero =>
    cases h
    exact fun m hm => absurd hm List.not_mem_nil
  | succ n ih =>
    obtain ⟨v, hv, h⟩ := bind_eq_ok.mp h
    obtain ⟨vs, hvs, h⟩ := bind_eq_ok.mp h
    cases h
    intro m hm
    rcases List.mem_cons.mp hm with rfl | hm
    · exact getLE_lt hv
    · exact ih hvs m hm

/-- No read of the computation left its span. -/
def Inside {α : Type} (x : Except DecodeError α) : Prop := x ≠ .error .outOfBounds

theorem inside_ok {α : Type} (a : α) : Inside (.ok a) := by
  unfold Inside
  simp

theorem inside_status {α : Type} (s : Status) : Inside (.error (.status s) : Except DecodeError α) := by
  unfold Inside
  simp

theorem Inside.bind {α β : Type} {x : Except DecodeError α} {f : α → Except DecodeError β} (hx : Inside x)
    (hf : ∀ a, x = .ok a → Inside (f a)) : Inside (x >>= f) := by
  cases x with
  | error e => exact fun h => hx (congrArg Except.error (Except.error.inj h))
  | ok a => exact hf a rfl

theorem inside_getLE (h : off + k ≤ p.length) : Inside (getLE k p off) := by
  rw [getLE_of_read (readAt_eq_some h)]
  exact inside_ok _

theorem inside_getBytes (h : off + len ≤ p.length) : Inside (getBytes p off len) := by
  rw [getBytes_of_read (readAt_eq_some h)]
  exact inside_ok _

theorem inside_getLEs (h : off + k * n ≤ p.length) : Inside (getLEs k p off n) := by
  induction n generalizing off with
  | zero => exact inside_ok _
  | succ n ih =>
    rw [Nat.mul_succ] at h
    exact (inside_getLE (by omega)).bind fun v _ => (ih (by omega)).bind fun vs _ => inside_ok _

theorem toNat_ofNat_map (ids : List UInt64) : (ids.map UInt64.toNat).map UInt64.ofNat = ids := by
  simp [List.map_map, Function.comp_def]

theorem ofNat_map_toNat (h : ∀ n ∈ ns, n < 256 ^ 8) : (ns.map UInt64.ofNat).map UInt64.toNat = ns := by
  rw [List.map_map]
  conv_rhs => rw [← List.map_id ns]
  exact List.map_congr_left fun n hn => UInt64.toNat_ofNat_of_lt' (h n hn)

end Cortrix
