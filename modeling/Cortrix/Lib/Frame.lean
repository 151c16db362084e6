import Cortrix.Lib.Framing

/-!
# Length-prefixed, checksummed frames

A frame is `size(4) body checksum(4)`, where `size` counts the bytes that follow it.

* `frame sum body` writes one and `readFrame sum minFollow` reads one back at an offset;
* the reader moves forward inside the buffer (`readFrame_bounds`), sees only its own frame
  (`readFrame_grow`, `readFrame_shrink`) and inverts the writer on bodies whose size fits the prefix
  (`readFrame_frame`);
* a `BodyFormat` says how records are laid out inside a body; `BodyFormat.codec` is its `Codec`.
-/

namespace Lib

/-- `size(4) body checksum(4)`; the size field keeps the low 32 bits of `body.length + 4`. -/
def frame (sum : Bytes → Nat) (body : Bytes) : Bytes :=
  leBytes 4 (body.length + 4) ++ (body ++ leBytes 4 (sum body))

/-- Read the frame at `off`: its body and the offset just past it. -/
def readFrame (sum : Bytes → Nat) (minFollow : Nat) (data : Bytes) (off : Nat) : Option (Bytes × Nat) :=
  (readAt data off 4).bind fun pre =>
    if leNat pre < minFollow then none
    else (readAt data (off + 4) (leNat pre - 4)).bind fun body =>
      (readAt data (off + 4 + (leNat pre - 4)) 4).bind fun crc =>
        if leNat crc = sum body then some (body, off + 4 + leNat pre) else none

theorem length_frame (sum : Bytes → Nat) (body : Bytes) : (frame sum body).length = body.length + 8 := by
  simp only [frame, List.length_append, length_leBytes]
  omega

section
variable {sum : Bytes → Nat} {minFollow : Nat} {data body : Bytes} {off e : Nat}

/-- What a successful read found: a size prefix, the body behind it and its checksum. -/
theorem readFrame_eq_some (h : readFrame sum minFollow data off = some (body, e)) :
    ∃ pre crc, readAt data off 4 = some pre ∧ minFollow ≤ leNat pre ∧
      readAt data (off + 4) (leNat pre - 4) = some body ∧
      readAt data (off + 4 + (leNat pre - 4)) 4 = some crc ∧ leNat crc = sum body ∧
      e = off + 4 + leNat pre := by
  unfold readFrame at h
  obtain ⟨pre, hpre, h⟩ := Option.bind_eq_some_iff.mp h
  split at h
  · cases h
  rename_i hmin
  obtain ⟨body', hbody, h⟩ := Option.bind_eq_some_iff.mp h
  obtain ⟨crc, hcrc, h⟩ := Option.bind_eq_some_iff.mp h
  split at h
  · rename_i hsum
    cases h
    exact ⟨pre, crc, hpre, Nat.le_of_not_lt hmin, hbody, hcrc, hsum, rfl⟩
  · cases h

theorem readFrame_of_reads {pre crc : Bytes} (hpre : readAt data off 4 = some pre)
    (hmin : minFollow ≤ leNat pre) (hbody : readAt data (off + 4) (leNat pre - 4) = some body)
    (hcrc : readAt data (off + 4 + (leNat pre - 4)) 4 = some crc) (hsum : leNat crc = sum body) :
    readFrame sum minFollow data off = some (body, off + 4 + leNat pre) := by
  unfold readFrame
  rw [hpre, Option.bind_some, if_neg (Nat.not_lt.mpr hmin), hbody, Option.bind_some, hcrc,
    Option.bind_some, if_pos hsum]

theorem readAt_bound {bs : Bytes} {len : Nat} (h : readAt data off len = some bs) :
    off + len ≤ data.length := by
  unfold readAt at h
  split at h
  · assumption
  · cases h

theorem readFrame_bounds (hmin : 4 ≤ minFollow) (h : readFrame sum minFollow data off = some (body, e)) :
    off < e ∧ e ≤ data.length ∧ e = off + 8 + body.length ∧ body.length + 4 < 2 ^ 32 := by
  obtain ⟨pre, crc, hpre, hle, hbody, hcrc, -, rfl⟩ := readFrame_eq_some h
  have hlen := readAt_length hbody
  have hbound := readAt_bound hcrc
  have hpre32 := leNat_lt pre
  rw [readAt_length hpre] at hpre32
  omega

theorem drop_of_readFrame (hmin : 4 ≤ minFollow) (h : readFrame sum minFollow data off = some (body, e)) :
    data.drop off = frame sum body ++ data.drop e := by
  obtain ⟨pre, crc, hpre, hle, hbody, hcrc, hsum, rfl⟩ := readFrame_eq_some h
  have hlen := readAt_length hbody
  have hpre4 := leBytes_leNat pre
  have hcrc4 := leBytes_leNat crc
  rw [readAt_length hpre] at hpre4
  rw [readAt_length hcrc, hsum] at hcrc4
  rw [drop_of_readAt hpre, drop_of_readAt hbody, drop_of_readAt hcrc, frame, hcrc4, hlen,
    Nat.sub_add_cancel (by omega), hpre4, List.append_assoc, List.append_assoc]
  congr 4
  omega

theorem readFrame_grow (post : Bytes) (h : readFrame sum minFollow data off = some (body, e)) :
    readFrame sum minFollow (data ++ post) off = some (body, e) := by
  obtain ⟨pre, crc, hpre, hle, hbody, hcrc, hsum, rfl⟩ := readFrame_eq_some h
  refine readFrame_of_reads ?_ hle ?_ ?_ hsum
  · rw [readAt_append_left (readAt_bound hpre), hpre]
  · rw [readAt_append_left (readAt_bound hbody), hbody]
  · rw [readAt_append_left (readAt_bound hcrc), hcrc]

theorem readFrame_shrink (hmin : 4 ≤ minFollow) (h : readFrame sum minFollow data off = some (body, e)) :
    readFrame sum minFollow (data.take e) off = some (body, e) := by
  obtain ⟨-, he, -⟩ := readFrame_bounds hmin h
  obtain ⟨pre, crc, hpre, hle, hbody, hcrc, hsum, rfl⟩ := readFrame_eq_some h
  -- every read of the frame ends at or before its own end
  have hcut : ∀ {o len : Nat} {bs : Bytes}, o + len ≤ off + 4 + leNat pre → readAt data o len = some bs →
      readAt (data.take (off + 4 + leNat pre)) o len = some bs := by
    intro o len bs ho hread
    have hlen : (data.take (off + 4 + leNat pre)).length = off + 4 + leNat pre := by
      rw [List.length_take]
      omega
    have happ : readAt (data.take (off + 4 + leNat pre) ++ data.drop (off + 4 + leNat pre)) o len = _ :=
      readAt_append_left (by omega)
    rw [List.take_append_drop, hread] at happ
    exact happ.symm
  exact readFrame_of_reads (hcut (by omega) hpre) hle (hcut (by omega) hbody) (hcut (by omega) hcrc) hsum

theorem readFrame_skip (pre data : Bytes) (off : Nat) :
    readFrame sum minFollow (pre ++ data) (pre.length + off) =
      (readFrame sum minFollow data off).map fun p => (p.1, pre.length + p.2) := by
  unfold readFrame
  rw [readAt_append_right]
  cases readAt data off 4 with
  | none => rfl
  | some size =>
    simp only [Option.bind_some, Nat.add_assoc pre.length, readAt_append_right]
    split
    · rfl
    · rw [Option.map_bind]
      congr 1
      funext body
      rw [Function.comp_apply, Option.map_bind]
      congr 1
      funext crc
      rw [Function.comp_apply]
      split <;> rfl

/-- A frame at the end of a buffer is read back when its size fits the prefix. -/
theorem readFrame_frame (hsum : ∀ b, sum b < 2 ^ 32) (pre : Bytes) (hmin : minFollow ≤ body.length + 4)
    (hfit : body.length + 4 < 2 ^ 32) :
    readFrame sum minFollow (pre ++ frame sum body) pre.length =
      some (body, (pre ++ frame sum body).length) := by
  have hsize : leNat (leBytes 4 (body.length + 4)) = body.length + 4 := leNat_leBytes_of_lt hfit
  have hcrc : leNat (leBytes 4 (sum body)) = sum body := leNat_leBytes_of_lt (hsum body)
  have h1 := readAt_piece pre (leBytes 4 (body.length + 4)) (body ++ leBytes 4 (sum body))
  have h2 := readAt_piece (pre ++ leBytes 4 (body.length + 4)) body (leBytes 4 (sum body))
  have h3 := readAt_piece (pre ++ leBytes 4 (body.length + 4) ++ body) (leBytes 4 (sum body)) []
  simp only [List.append_assoc, List.append_nil, List.length_append, length_leBytes] at h1 h2 h3
  have hread : readFrame sum minFollow (pre ++ frame sum body) pre.length = _ := readFrame_of_reads h1 (by omega)
    (by rw [hsize, Nat.add_sub_cancel]; exact h2)
    (by rw [hsize, Nat.add_sub_cancel, Nat.add_assoc]; exact h3) hcrc
  rw [hread, List.length_append, length_frame, hsize]
  congr 2
  omega

end

/-- How records are laid out inside the body of a frame. -/
structure BodyFormat (α : Type) where
  sum : Bytes → Nat
  minFollow : Nat
  body : α → Bytes
  parse : Bytes → Option α
  Fits : α → Prop
  stored : α → α
  sum_lt : ∀ b, sum b < 2 ^ 32
  min_le : 4 ≤ minFollow
  fits_size : ∀ {a}, Fits a → minFollow ≤ (body a).length + 4 ∧ (body a).length + 4 < 2 ^ 32
  parse_body : ∀ {a}, Fits a → parse (body a) = some (stored a)

namespace BodyFormat
variable {α : Type} (f : BodyFormat α)

def decodeAt (data : Bytes) (off : Nat) : Option (α × Nat) :=
  (readFrame f.sum f.minFollow data off).bind fun p => (f.parse p.1).map fun a => (a, p.2)

theorem decodeAt_eq_some {data : Bytes} {off e : Nat} {a : α} :
    f.decodeAt data off = some (a, e) ↔
      ∃ body, readFrame f.sum f.minFollow data off = some (body, e) ∧ f.parse body = some a := by
  unfold decodeAt
  constructor
  · intro h
    obtain ⟨⟨body, e'⟩, hread, h⟩ := Option.bind_eq_some_iff.mp h
    obtain ⟨a', hparse, h⟩ := Option.map_eq_some_iff.mp h
    cases h
    exact ⟨body, hread, hparse⟩
  · rintro ⟨body, hread, hparse⟩
    rw [hread, Option.bind_some, hparse, Option.map_some]

/-- The codec of a body format: its frames, and the reader that parses their bodies. -/
def codec : Codec α where
  encode a := frame f.sum (f.body a)
  decodeAt := f.decodeAt
  Fits := f.Fits
  stored := f.stored
  advance := by
    intro d o a o' h
    obtain ⟨body, hread, -⟩ := f.decodeAt_eq_some.mp h
    exact ⟨(readFrame_bounds f.min_le hread).1, (readFrame_bounds f.min_le hread).2.1⟩
  grow := by
    intro d o a o' post h
    obtain ⟨body, hread, hparse⟩ := f.decodeAt_eq_some.mp h
    exact f.decodeAt_eq_some.mpr ⟨body, readFrame_grow post hread, hparse⟩
  shrink := by
    intro d o a o' h
    obtain ⟨body, hread, hparse⟩ := f.decodeAt_eq_some.mp h
    exact f.decodeAt_eq_some.mpr ⟨body, readFrame_shrink f.min_le hread, hparse⟩
  skip := by
    intro pre d o
    simp only [decodeAt, readFrame_skip]
    cases readFrame f.sum f.minFollow d o with
    | none => rfl
    | some p =>
      simp only [Option.map_some, Option.bind_some, Option.map_map]
      rfl
  decode_encode := by
    intro a pre hfit
    obtain ⟨hmin, hsize⟩ := f.fits_size hfit
    exact f.decodeAt_eq_some.mpr ⟨f.body a, readFrame_frame f.sum_lt pre hmin hsize, f.parse_body hfit⟩

end BodyFormat

end Lib
