import Cortrix.Lib.Bytes

/-!
# Framed records in an append-only buffer

A `Codec` writes a record as one self-delimiting frame and reads one back at an offset. Its laws say that
a read moves forward and stays inside the buffer (`advance`), depends only on the bytes of its frame
(`grow`, `shrink`, `skip`), and inverts the writer on the records that fit (`decode_encode`).

* `Parsed c data off as e` : from `off` the records `as` decode one after another and end at `e`;
* `scan c data off` : the records from `off` on and the offset where the scan stops. Bytes appended keep
  the records already there (`scan_append_prefix`), frames appended where the scan stopped are read behind
  them (`scan_append_frames`), cutting the unread tail changes nothing (`scan_take`) and neither do the
  bytes before `off` (`scan_header`). A proper prefix of a frame at the end is never read (`decode_torn`), so of
  frames cut anywhere the whole ones are read (`scan_cut`).
-/

namespace Lib

/-- A self-delimiting record format. `Fits` are the records the frame has room for and `stored` is what
the frame keeps of one. -/
structure Codec (α : Type) where
  encode : α → Bytes
  decodeAt : Bytes → Nat → Option (α × Nat)
  Fits : α → Prop
  stored : α → α
  advance : ∀ {d o a o'}, decodeAt d o = some (a, o') → o < o' ∧ o' ≤ d.length
  grow : ∀ {d o a o'} (post : Bytes), decodeAt d o = some (a, o') → decodeAt (d ++ post) o = some (a, o')
  shrink : ∀ {d o a o'}, decodeAt d o = some (a, o') → decodeAt (d.take o') o = some (a, o')
  skip : ∀ (pre d : Bytes) (o : Nat),
    decodeAt (pre ++ d) (pre.length + o) = (decodeAt d o).map fun p => (p.1, pre.length + p.2)
  decode_encode : ∀ {a} (pre : Bytes), Fits a →
    decodeAt (pre ++ encode a) pre.length = some (stored a, (pre ++ encode a).length)

/-! ## The scan loop -/

/-- Decode from `off` until the end of the buffer or the first record that does not decode; returns the
records and the offset just past the last good one. -/
def scanLoop {α : Type} (next : Nat → Option (α × Nat)) (size : Nat) : Nat → Nat → List α → List α × Nat
  | 0, off, out => (out, off)
  | fuel + 1, off, out =>
    if off < size then
      match next off with
      | some (a, off') => scanLoop next size fuel off' (out ++ [a])
      | none => (out, off)
    else (out, off)

variable {α : Type} (c : Codec α)

/-- From `off` the records `as` decode one after another, the last one ending at `e`. -/
inductive Parsed (data : Bytes) : Nat → List α → Nat → Prop
  | nil (off : Nat) : Parsed data off [] off
  | cons {off off' e : Nat} {a : α} {as : List α} (head : c.decodeAt data off = some (a, off'))
      (tail : Parsed data off' as e) : Parsed data off (a :: as) e

namespace Parsed
variable {c} {data : Bytes} {off e : Nat} {as : List α}

theorem le (h : Parsed c data off as e) : off ≤ e := by
  induction h with
  | nil => exact le_refl _
  | cons head _ ih => exact le_trans (le_of_lt (c.advance head).1) ih

theorem le_length (h : Parsed c data off as e) (hoff : off ≤ data.length) : e ≤ data.length := by
  induction h with
  | nil => exact hoff
  | cons head _ ih => exact ih (c.advance head).2

theorem grow (post : Bytes) (h : Parsed c data off as e) : Parsed c (data ++ post) off as e := by
  induction h with
  | nil => exact nil _
  | cons head _ ih => exact cons (c.grow post head) ih

/-- The records stand in the buffer as the pieces each was read from, one after another. -/
theorem pieces {R : α → Bytes → Prop}
    (hR : ∀ {o o' a}, c.decodeAt data o = some (a, o') → ∃ bs, R a bs ∧ data.drop o = bs ++ data.drop o')
    (h : Parsed c data off as e) :
    ∃ bss, List.Forall₂ R as bss ∧ data.drop off = bss.flatten ++ data.drop e := by
  induction h with
  | nil => exact ⟨[], .nil, rfl⟩
  | cons head _ ih =>
    obtain ⟨bs, hbs, hdrop⟩ := hR head
    obtain ⟨bss, hbss, htail⟩ := ih
    exact ⟨bs :: bss, .cons hbs hbss, by rw [hdrop, htail, List.flatten_cons, List.append_assoc]⟩

theorem append {as' : List α} {e' : Nat} (h : Parsed c data off as e) (h' : Parsed c data e as' e') :
    Parsed c data off (as ++ as') e' := by
  induction h with
  | nil => exact h'
  | cons head _ ih => exact cons head (ih h')

theorem shrink (h : Parsed c data off as e) (hle : e ≤ data.length) : Parsed c (data.take e) off as e := by
  induction h with
  | nil => exact nil _
  | cons head tail ih =>
    refine cons ?_ (ih hle)
    rename_i off off' e a as
    have hcut := c.grow ((data.take e).drop off') (c.shrink head)
    have hsplit : data.take off' ++ (data.take e).drop off' = data.take e := by
      have h := List.take_append_drop off' (data.take e)
      rwa [List.take_take, Nat.min_eq_left tail.le] at h
    rwa [hsplit] at hcut

/-- Frames written at the end of a buffer are read back as what they store. -/
theorem frames (pre : Bytes) (as : List α) (hfit : ∀ a ∈ as, c.Fits a) :
    Parsed c (pre ++ (as.map c.encode).flatten) pre.length (as.map c.stored)
      (pre ++ (as.map c.encode).flatten).length := by
  induction as generalizing pre with
  | nil => simpa using nil _
  | cons a as ih =>
    have hhead := c.grow (as.map c.encode).flatten (c.decode_encode pre (hfit a (by simp)))
    have htail := ih (pre ++ c.encode a) (fun b hb => hfit b (by simp [hb]))
    rw [List.map_cons, List.map_cons, List.flatten_cons, ← List.append_assoc]
    exact cons hhead htail

end Parsed

variable {c}

variable {data : Bytes} {off : Nat} {a : α} {as : List α}

theorem Codec.decodeAt_end (h : data.length ≤ off) : c.decodeAt data off = none := by
  cases hd : c.decodeAt data off with
  | none => rfl
  | some p =>
    have := c.advance (show c.decodeAt data off = some (p.1, p.2) from hd)
    omega

variable (c) in
/-- At the end of any buffer the bytes `bs` are read as the record `a`. -/
def IsFrame (bs : Bytes) (a : α) : Prop :=
  ∀ pre : Bytes, c.decodeAt (pre ++ bs) pre.length = some (a, (pre ++ bs).length)

theorem Codec.isFrame (hfit : c.Fits a) : IsFrame c (c.encode a) (c.stored a) :=
  fun pre => c.decode_encode pre hfit

/-- A proper prefix of a frame at the end of the buffer is not a record. -/
theorem IsFrame.torn {bs : Bytes} (h : IsFrame c bs a) (pre : Bytes) {k : Nat} (hk : k < bs.length) :
    c.decodeAt (pre ++ bs.take k) pre.length = none := by
  cases hd : c.decodeAt (pre ++ bs.take k) pre.length with
  | none => rfl
  | some p =>
    have hd' : c.decodeAt (pre ++ bs.take k) pre.length = some (p.1, p.2) := hd
    have hgrow := c.grow (bs.drop k) hd'
    rw [List.append_assoc, List.take_append_drop, h pre] at hgrow
    have hadv := (c.advance hd').2
    have hlen : (pre ++ bs).length = p.2 := congrArg Prod.snd (Option.some.inj hgrow)
    rw [List.length_append, List.length_take] at hadv
    rw [List.length_append] at hlen
    omega

theorem Codec.decode_torn (pre : Bytes) {k : Nat} (hfit : c.Fits a) (hk : k < (c.encode a).length) :
    c.decodeAt (pre ++ (c.encode a).take k) pre.length = none := (Codec.isFrame hfit).torn pre hk

/-- With a unit of fuel for each byte left, the scan finds the chain that cannot be continued. -/
theorem scanLoop_eq {e : Nat} (h : Parsed c data off as e) (hend : c.decodeAt data e = none) (fuel : Nat)
    (hfuel : data.length ≤ off + fuel) (out : List α) :
    scanLoop (c.decodeAt data) data.length fuel off out = (out ++ as, e) := by
  induction h generalizing fuel out with
  | nil off =>
    cases fuel with
    | zero => simp [scanLoop]
    | succ fuel =>
      rw [scanLoop, hend]
      simp
  | cons head _ ih =>
    have hadv := c.advance head
    cases fuel with
    | zero => omega
    | succ fuel =>
      rw [scanLoop, if_pos (by omega), head]
      simp only
      rw [ih hend fuel (by omega), List.append_assoc, List.singleton_append]

theorem exists_parsed (data : Bytes) (off : Nat) :
    ∃ as e, Parsed c data off as e ∧ c.decodeAt data e = none := by
  induction hn : data.length - off using Nat.strong_induction_on generalizing off with
  | _ n ih =>
    cases hd : c.decodeAt data off with
    | none => exact ⟨[], off, Parsed.nil off, hd⟩
    | some p =>
      have hd' : c.decodeAt data off = some (p.1, p.2) := hd
      have hadv := c.advance hd'
      obtain ⟨as, e, h, hend⟩ := ih (data.length - p.2) (by omega) p.2 rfl
      exact ⟨p.1 :: as, e, Parsed.cons hd' h, hend⟩

/-! ## The scan of a buffer -/

variable (c) in
/-- The records from `off` on, and the offset just past the last one. -/
def scan (data : Bytes) (off : Nat) : List α × Nat :=
  scanLoop (c.decodeAt data) data.length data.length off []

theorem scan_eq {e : Nat} (h : Parsed c data off as e) (hend : c.decodeAt data e = none) :
    scan c data off = (as, e) := by
  rw [scan, scanLoop_eq h hend _ (by omega), List.nil_append]

theorem scan_spec (data : Bytes) (off : Nat) :
    Parsed c data off (scan c data off).1 (scan c data off).2 ∧
      c.decodeAt data (scan c data off).2 = none := by
  obtain ⟨as, e, h, hend⟩ := exists_parsed (c := c) data off
  rw [scan_eq h hend]
  exact ⟨h, hend⟩

theorem scan_le_length (hoff : off ≤ data.length) :
    (scan c data off).2 ≤ data.length := (scan_spec data off).1.le_length hoff

theorem scan_append_prefix (data post : Bytes) (off : Nat) :
    (scan c data off).1 <+: (scan c (data ++ post) off).1 := by
  obtain ⟨h, -⟩ := scan_spec (c := c) data off
  obtain ⟨as, e, h', hend⟩ := exists_parsed (c := c) (data ++ post) (scan c data off).2
  rw [scan_eq ((h.grow post).append h') hend]
  exact List.prefix_append _ _

theorem scan_append_frames (hend : (scan c data off).2 = data.length) (hfit : ∀ a ∈ as, c.Fits a) :
    scan c (data ++ (as.map c.encode).flatten) off =
      ((scan c data off).1 ++ as.map c.stored, (data ++ (as.map c.encode).flatten).length) := by
  obtain ⟨h, -⟩ := scan_spec (c := c) data off
  rw [hend] at h
  exact scan_eq ((h.grow _).append (Parsed.frames data as hfit)) (Codec.decodeAt_end (le_refl _))

theorem scan_append_torn {k : Nat} (hend : (scan c data off).2 = data.length) (hfit : c.Fits a)
    (hk : k < (c.encode a).length) : scan c (data ++ (c.encode a).take k) off = scan c data off := by
  obtain ⟨h, -⟩ := scan_spec (c := c) data off
  rw [hend] at h
  have hscan := scan_eq (h.grow _) (Codec.decode_torn data hfit hk)
  rw [hscan]
  exact Prod.ext rfl hend.symm

/-- The records of the frames that lie wholly inside the first `cut` bytes. -/
def wholeFrames (cut : Nat) : List (Bytes × α) → List α
  | [] => []
  | (bs, a) :: fs => if bs.length ≤ cut then a :: wholeFrames (cut - bs.length) fs else []

/-- Frames back to back, cut anywhere: those wholly inside the cut are read and nothing else. -/
theorem parsed_cut {fs : List (Bytes × α)} (hfs : ∀ f ∈ fs, IsFrame c f.1 f.2) (pre : Bytes) (cut : Nat) :
    ∃ e, Parsed c (pre ++ ((fs.map Prod.fst).flatten).take cut) pre.length (wholeFrames cut fs) e ∧
      c.decodeAt (pre ++ ((fs.map Prod.fst).flatten).take cut) e = none := by
  induction fs generalizing pre cut with
  | nil => exact ⟨pre.length, Parsed.nil _, Codec.decodeAt_end (by simp)⟩
  | cons f fs ih =>
    obtain ⟨bs, a⟩ := f
    have hframe : IsFrame c bs a := hfs (bs, a) (by simp)
    rw [List.map_cons, List.flatten_cons, wholeFrames]
    dsimp only
    by_cases hcut : bs.length ≤ cut
    · rw [if_pos hcut, List.take_append, List.take_of_length_le hcut, ← List.append_assoc]
      obtain ⟨e, hparsed, hend⟩ := ih (fun f hf => hfs f (by simp [hf])) (pre ++ bs) (cut - bs.length)
      exact ⟨e, Parsed.cons (c.grow _ (hframe pre)) hparsed, hend⟩
    · rw [if_neg hcut, List.take_append_of_le_length (by omega)]
      exact ⟨pre.length, Parsed.nil _, hframe.torn pre (by omega)⟩

theorem scan_cut {fs : List (Bytes × α)} (hfs : ∀ f ∈ fs, IsFrame c f.1 f.2) (pre : Bytes) (cut : Nat) :
    (scan c (pre ++ ((fs.map Prod.fst).flatten).take cut) pre.length).1 = wholeFrames cut fs := by
  obtain ⟨e, hparsed, hend⟩ := parsed_cut hfs pre cut
  rw [scan_eq hparsed hend]

theorem scan_append_snoc {post : Bytes} (hend : (scan c data off).2 = data.length)
    (h : (scan c (data ++ post) off).1 = (scan c data off).1 ++ [a]) :
    ∃ e, c.decodeAt (data ++ post) data.length = some (a, e) := by
  obtain ⟨hold, -⟩ := scan_spec (c := c) data off
  rw [hend] at hold
  obtain ⟨as, e, hnew, hstop⟩ := exists_parsed (c := c) (data ++ post) data.length
  rw [scan_eq ((hold.grow post).append hnew) hstop, List.append_cancel_left_eq] at h
  subst h
  cases hnew with
  | cons head _ => exact ⟨_, head⟩

theorem scan_take (hoff : off ≤ data.length) : scan c (data.take (scan c data off).2) off = scan c data off := by
  obtain ⟨h, -⟩ := scan_spec (c := c) data off
  have hle := scan_le_length (c := c) hoff
  have hstop : c.decodeAt (data.take (scan c data off).2) (scan c data off).2 = none :=
    Codec.decodeAt_end (by rw [List.length_take]; omega)
  exact scan_eq (h.shrink hle) hstop

theorem Parsed.skip {e : Nat} (pre : Bytes) (h : Parsed c data off as e) :
    Parsed c (pre ++ data) (pre.length + off) as (pre.length + e) := by
  induction h with
  | nil => exact nil _
  | cons head _ ih => exact cons (by rw [c.skip, head, Option.map_some]) ih

theorem scan_header (pre data : Bytes) :
    scan c (pre ++ data) pre.length = ((scan c data 0).1, pre.length + (scan c data 0).2) := by
  obtain ⟨h, hend⟩ := scan_spec (c := c) data 0
  exact scan_eq (h.skip pre) (by rw [c.skip, hend, Option.map_none])

end Lib
