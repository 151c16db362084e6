import Cortrix.Store.Crc32

/-!
# WalEntry: one record of hnsw.wal

An INSERT carries the block id and its vector, a DELETE the block id only. Vectors are the raw bits of
their floats, which is all the log copies.

* `codec dim` : the reader that expects vectors of `dim` floats (`deserializeFrom_toOption`), for records
  that `Fits dim`.
-/

namespace Cortrix.Store.Phnsw
open Lib

inductive WalEntry.Kind
  | insert | delete
  deriving DecidableEq

structure WalEntry where
  type : WalEntry.Kind := .insert
  timestampMs : Int64 := 0
  blockId : UInt64 := 0
  vector : List UInt32 := []
  deriving DecidableEq

namespace WalEntry

def Kind.toByte : Kind → UInt8
  | .insert => 1
  | .delete => 2

def Kind.ofRaw : Nat → Option Kind
  | 1 => some .insert
  | 2 => some .delete
  | _ => none

def kFixedBodyBytes : Nat := 17
def kCrcBytes : Nat := 4

/-! ## Serialize -/

def nowMsOrGiven (timestampMs now : Int64) : Int64 := if 0 ≤ timestampMs then timestampMs else now

/-- The bytes the checksum covers; only an INSERT carries a vector. -/
def body (e : WalEntry) : Bytes :=
  [e.type.toByte] ++ (leBytes 8 e.timestampMs.toUInt64.toNat ++ (leBytes 8 e.blockId.toNat ++
    (if e.type = .insert then putLEs 4 (e.vector.map UInt32.toNat) else [])))

def serialize (e : WalEntry) : Bytes := frame crc32Nat (body e)

def serializeInsert (blockId : UInt64) (vec : List UInt32) (timestampMs now : Int64) : Bytes :=
  serialize { type := .insert, timestampMs := nowMsOrGiven timestampMs now, blockId, vector := vec }

def serializeDelete (blockId : UInt64) (timestampMs now : Int64) : Bytes :=
  serialize { type := .delete, timestampMs := nowMsOrGiven timestampMs now, blockId }

/-! ## DeserializeFrom -/

def corrupted (detail : String) : DecodeError :=
  .status (phnswStatus .invalidArgument PhnswErrors.kWalCorrupted detail)

def frameErrors : FrameErrors where
  truncated := corrupted "WalEntry: truncated entry_size"
  tooSmall := corrupted "WalEntry: entry_size below minimum"
  overrun := corrupted "WalEntry: frame extends past buffer"
  crcMismatch := corrupted "WalEntry: CRC mismatch"

/-- Parse a body whose checksum matched; `expectedDim` 0 accepts any vector length. -/
def parseBody (expectedDim : Nat) (p : Bytes) : Except DecodeError WalEntry := do
  let typeRaw ← getLE 1 p 0
  match Kind.ofRaw typeRaw with
  | none => .error (corrupted "WalEntry: unknown entry_type")
  | some type =>
    let timestamp ← getLE 8 p 1
    let blockId ← getLE 8 p 9
    let e : WalEntry :=
      { type, timestampMs := (UInt64.ofNat timestamp).toInt64, blockId := UInt64.ofNat blockId }
    match type with
    | .insert =>
      let vecBytes := p.length - kFixedBodyBytes
      if vecBytes % 4 ≠ 0 then .error (corrupted "WalEntry: INSERT vector not float-aligned") else
      let vecDim := vecBytes / 4
      if 0 < expectedDim ∧ vecDim ≠ expectedDim then
        .error (.status (phnswStatus .invalidArgument PhnswErrors.kVectorDimMismatch
          "WalEntry: INSERT dim mismatch")) else do
      let bits ← getLEs 4 p kFixedBodyBytes vecDim
      return { e with vector := bits.map UInt32.ofNat }
    | .delete =>
      if p.length ≠ kFixedBodyBytes then
        .error (corrupted "WalEntry: DELETE carries unexpected payload") else
      return e

/-- Parse one frame of a span; the offset returned is the one just past it. -/
def deserializeFrom (expectedDim : Nat) (data : Bytes) (offset : Nat) :
    Except DecodeError (WalEntry × Nat) := do
  let (body, frameEnd) ← checkFrame (kFixedBodyBytes + kCrcBytes) frameErrors data offset
  let e ← parseBody expectedDim body
  return (e, frameEnd)

/-- Parse a buffer that holds exactly one record. -/
def deserialize (expectedDim : Nat) (bytes : Bytes) : Except DecodeError WalEntry := do
  let (e, offset) ← deserializeFrom expectedDim bytes 0
  if offset ≠ bytes.length then .error (corrupted "WalEntry::Deserialize: trailing bytes after one record") else
  return e

/-! ## The codec -/

def stored (e : WalEntry) : WalEntry := if e.type = .insert then e else { e with vector := [] }

/-- A DELETE always fits; an INSERT does with a vector of the expected length whose frame has a 32-bit size. -/
def Fits (dim : Nat) (e : WalEntry) : Prop :=
  e.type = .insert → (0 < dim → e.vector.length = dim) ∧ 21 + 4 * e.vector.length < 2 ^ 32

instance (dim : Nat) (e : WalEntry) : Decidable (Fits dim e) := inferInstanceAs (Decidable (_ → _))

theorem length_body (e : WalEntry) :
    (body e).length = if e.type = .insert then 17 + 4 * e.vector.length else 17 := by
  unfold body
  split
  · simp only [List.length_append, length_leBytes, length_putLEs, List.length_map, List.length_cons,
      List.length_nil]
    omega
  · simp

theorem Kind.ofRaw_toByte (k : Kind) : Kind.ofRaw k.toByte.toNat = some k := by
  cases k <;> rfl

theorem parseBody_body {dim : Nat} {e : WalEntry} (hfit : Fits dim e) :
    parseBody dim (body e) = .ok (stored e) := by
  have hu64 : ∀ x : UInt64, UInt64.ofNat (x.toNat % 256 ^ 8) = x := fun x => by
    rw [Nat.mod_eq_of_lt (show x.toNat < 256 ^ 8 from x.toNat_lt), UInt64.ofNat_toNat]
  have hlen := length_body e
  have hmin : 17 ≤ (body e).length := by
    rw [hlen]
    split <;> omega
  have h0 : (body e).drop 0 = [e.type.toByte] ++ _ := rfl
  have h1 := drop_step h0
  have h9 := drop_step h1
  have h17 := drop_step h9
  simp only [List.length_cons, List.length_nil, length_leBytes, Nat.zero_add, Nat.reduceAdd] at h1 h9 h17
  unfold parseBody
  rw [getLE_one_of_drop (Nat.zero_le _) h0, ok_bind, Kind.ofRaw_toByte]
  simp only
  rw [getLE_of_drop (by omega) h1, ok_bind, getLE_of_drop (by omega) h9, ok_bind, hu64, hu64,
    Int64.toInt64_toUInt64]
  obtain ⟨type, timestampMs, blockId, vector⟩ := e
  cases type with
  | insert =>
    obtain ⟨hdim, -⟩ := hfit rfl
    simp only [reduceIte] at hlen h17 hdim ⊢
    have hvec : (body ⟨.insert, timestampMs, blockId, vector⟩).length - kFixedBodyBytes = 4 * vector.length := by
      rw [hlen, kFixedBodyBytes]
      omega
    have hrd : getLEs 4 (body ⟨.insert, timestampMs, blockId, vector⟩) kFixedBodyBytes vector.length =
        .ok (vector.map UInt32.toNat) := by
      rw [← List.length_map (f := UInt32.toNat)]
      refine getLEs_of_drop [] ?_ (by rw [List.length_map, hlen, kFixedBodyBytes]) ?_
      · rintro _ hn
        obtain ⟨x, -, rfl⟩ := List.mem_map.mp hn
        exact x.toNat_lt
      · rw [List.append_nil]
        exact h17
    rw [hvec, if_neg (by omega), Nat.mul_div_cancel_left _ (by omega), if_neg (fun h => h.2 (hdim h.1)), hrd,
      ok_bind]
    simp [stored, Function.comp_def, pure, Except.pure]
  | delete =>
    rw [if_neg (by rw [hlen]; simp [kFixedBodyBytes])]
    rfl

def format (dim : Nat) : BodyFormat WalEntry where
  sum := crc32Nat
  minFollow := kFixedBodyBytes + kCrcBytes
  body := body
  parse p := (parseBody dim p).toOption
  Fits := Fits dim
  stored := stored
  sum_lt := crc32Nat_lt
  min_le := by decide
  fits_size := by
    intro e hfit
    rw [length_body, kFixedBodyBytes, kCrcBytes]
    split
    · obtain ⟨-, hsize⟩ := hfit ‹_›
      omega
    · omega
  parse_body := fun hfit => toOption_eq_some.mpr (parseBody_body hfit)

def codec (dim : Nat) : Codec WalEntry := (format dim).codec

theorem deserializeFrom_toOption (dim : Nat) (data : Bytes) (offset : Nat) :
    (deserializeFrom dim data offset).toOption = (codec dim).decodeAt data offset :=
  decodeFrame_toOption (format dim) (parseBody dim) frameErrors rfl rfl data offset

end WalEntry
end Cortrix.Store.Phnsw
