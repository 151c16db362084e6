import Cortrix.Lib.Run
import Cortrix.Store.Stores
import Mathlib.Data.List.ReduceOption
import Mathlib.Data.List.TakeWhile

/-!
# The duplicate-detection Bloom filter

The bit array with its double hashing, and calls of `Add`, `MightContain` and `LoadFromCatalog` by any number of
callers, interleaved bit by bit.

* `no_false_negatives` : as long as every scan of the catalog ends at its last row and no stored hash is cut short,
  a negative answer is right.
-/

namespace Cortrix.Catalog
open Lib

/-! ## The bit array -/

/-- FNV-1a over the salt and the key, with a final avalanche. -/
def fnv1a (salt : UInt64) (key : Bytes) : UInt64 :=
  let h := key.foldl (fun (h : UInt64) c => (h ^^^ c.toUInt64) * 1099511628211) (1469598103934665603 ^^^ salt)
  let h := h ^^^ (h >>> 33)
  let h := h * 0xff51afd7ed558ccd
  h ^^^ (h >>> 33)

/-- `HashKey`: the two base hashes; the stride is never zero. -/
def hashKey (key : Bytes) : UInt64 × UInt64 :=
  let h1 := fnv1a 0x9e3779b97f4a7c15 key
  let h2 := fnv1a 0xc2b2ae3d27d4eb4f key
  (h1, if h2 = 0 then 1 else h2)

structure BloomFilter where
  words : List UInt64
  numHashes : Nat
  addedCount : Nat := 0
  ready : Bool := false
  lastRebuildMs : Int := -1
  totalChecks : Nat := 0
  words_pos : 0 < words.length

namespace BloomFilter

/-- The 64-bit words a capacity is rounded up to; the sizes are computed in `size_t`. -/
def wordsFor (capacityBytes : UInt64) : Nat :=
  let bits : UInt64 := (if capacityBytes = 0 then 1 else capacityBytes) * 8
  let words := (bits + 63) / 64
  if words = 0 then 1 else words.toNat

theorem wordsFor_pos (capacityBytes : UInt64) : 0 < wordsFor capacityBytes := by
  unfold wordsFor
  dsimp only
  generalize (((if capacityBytes = 0 then 1 else capacityBytes) * 8 : UInt64) + 63) / 64 = words
  split_ifs with h
  · omega
  · exact Nat.pos_of_ne_zero fun h0 => h (UInt64.toNat_inj.mp h0)

/-- A new filter; the number of hashes comes from the target rate. -/
def create (capacityBytes : UInt64) (numHashes : Nat) : BloomFilter where
  words := List.replicate (wordsFor capacityBytes) 0
  numHashes := numHashes
  words_pos := by rw [List.length_replicate]; exact wordsFor_pos capacityBytes

def numBits (f : BloomFilter) : Nat := f.words.length * 64

def mask (bit : Nat) : UInt64 := 1 <<< UInt64.ofNat (bit % 64)

def testBit (f : BloomFilter) (bit : Nat) : Bool := (f.words.getD (bit / 64) 0 &&& mask bit) != 0

def setBit (f : BloomFilter) (bit : Nat) : BloomFilter :=
  { f with
    words := f.words.modify (bit / 64) (· ||| mask bit)
    words_pos := by rw [List.length_modify]; exact f.words_pos }

/-- The `i`-th index of a key: `(h1 + i * h2) % num_bits`, the sum taken modulo `2^64`. -/
def index (f : BloomFilter) (key : Bytes) (i : Nat) : Nat :=
  ((hashKey key).1 + UInt64.ofNat i * (hashKey key).2).toNat % f.numBits

def HasUpTo (f : BloomFilter) (key : Bytes) (n : Nat) : Prop := ∀ i < n, f.testBit (f.index key i) = true

def Has (f : BloomFilter) (key : Bytes) : Prop := f.HasUpTo key f.numHashes

/-- `g` has the shape of `f` and every bit of `f`. -/
structure Le (f g : BloomFilter) : Prop where
  length_eq : g.words.length = f.words.length
  numHashes_eq : g.numHashes = f.numHashes
  testBit_le : ∀ bit, f.testBit bit = true → g.testBit bit = true

variable {f g : BloomFilter} {i : Nat} {key : Bytes} {s : Sys} {c : Nat}

theorem Le.of_words (hw : g.words = f.words) (hn : g.numHashes = f.numHashes) : f.Le g := by
  refine ⟨by rw [hw], hn, fun bit h => ?_⟩
  unfold testBit at h ⊢
  rw [hw]
  exact h

theorem mask_ne_zero (bit : Nat) : mask bit ≠ 0 := by
  intro h
  have hlt : bit % 64 < 64 := Nat.mod_lt _ (by omega)
  have hnat : (mask bit).toNat = 2 ^ (bit % 64) := by
    unfold mask
    rw [UInt64.toNat_shiftLeft, UInt64.toNat_ofNat', Nat.mod_eq_of_lt (show bit % 64 < 2 ^ 64 by omega),
      Nat.mod_eq_of_lt hlt, show (1 : UInt64).toNat = 1 from rfl, Nat.one_shiftLeft,
      Nat.mod_eq_of_lt (Nat.pow_lt_pow_right (by omega) hlt)]
  have hpos : 0 < 2 ^ (bit % 64) := Nat.pow_pos (by omega)
  rw [h, show (0 : UInt64).toNat = 0 from rfl] at hnat
  omega

theorem or_and (x m n : UInt64) : (x ||| m) &&& n = (x &&& n) ||| (m &&& n) := by
  apply UInt64.toBitVec_inj.mp
  ext i
  simp [Bool.and_or_distrib_right]

theorem getD_modify_ne (ws : List UInt64) (g : UInt64 → UInt64) {j : Nat} (h : i ≠ j) :
    (ws.modify i g).getD j 0 = ws.getD j 0 := by
  simp [List.getD_eq_getElem?_getD, h]

theorem getD_modify_eq (ws : List UInt64) (g : UInt64 → UInt64) (h : i < ws.length) :
    (ws.modify i g).getD i 0 = g (ws.getD i 0) := by
  simp [List.getD_eq_getElem?_getD, h]

theorem words_setBit (f : BloomFilter) (bit : Nat) :
    (f.setBit bit).words = f.words.modify (bit / 64) (· ||| mask bit) := rfl

theorem testBit_setBit_self {bit : Nat} (h : bit < f.numBits) : (f.setBit bit).testBit bit = true := by
  unfold numBits at h
  unfold testBit
  rw [words_setBit, getD_modify_eq _ _ (by omega), bne_iff_ne, or_and, UInt64.and_self]
  intro hzero
  exact mask_ne_zero bit (UInt64.or_eq_zero_iff.mp hzero).2

theorem le_setBit (f : BloomFilter) (bit : Nat) : f.Le (f.setBit bit) := by
  refine ⟨List.length_modify .., rfl, fun bit' h => ?_⟩
  unfold testBit at h ⊢
  rw [words_setBit]
  by_cases hw : bit / 64 = bit' / 64
  · by_cases hlen : bit' / 64 < f.words.length
    · rw [hw, getD_modify_eq _ _ hlen, bne_iff_ne, or_and]
      intro hzero
      exact (bne_iff_ne.mp h) (UInt64.or_eq_zero_iff.mp hzero).1
    · rw [List.getD_eq_getElem?_getD, List.getElem?_eq_none (by omega)] at h
      simp at h
  · rw [getD_modify_ne _ _ hw]
    exact h

theorem numBits_pos (f : BloomFilter) : 0 < f.numBits := by
  have := f.words_pos
  unfold numBits
  omega

theorem index_lt (f : BloomFilter) (key : Bytes) (i : Nat) : f.index key i < f.numBits :=
  Nat.mod_lt _ f.numBits_pos

theorem Le.index_eq (h : f.Le g) (key : Bytes) (i : Nat) : g.index key i = f.index key i := by
  unfold index numBits
  rw [h.length_eq]

theorem Le.hasUpTo (h : f.Le g) {n : Nat} (hf : f.HasUpTo key n) : g.HasUpTo key n := by
  intro i hi
  rw [h.index_eq]
  exact h.testBit_le _ (hf i hi)

theorem Le.has (h : f.Le g) (hf : f.Has key) : g.Has key := by
  unfold Has at hf ⊢
  rw [h.numHashes_eq]
  exact h.hasUpTo hf

theorem HasUpTo.setBit {n : Nat} (h : f.HasUpTo key n) : (f.setBit (f.index key n)).HasUpTo key (n + 1) := by
  have hle := f.le_setBit (f.index key n)
  intro i hi
  rw [hle.index_eq]
  rcases Nat.lt_succ_iff_lt_or_eq.mp hi with hlt | rfl
  · exact hle.testBit_le _ (h i hlt)
  · exact testBit_setBit_self (f.index_lt key i)

theorem hasUpTo_zero (f : BloomFilter) (key : Bytes) : f.HasUpTo key 0 := fun _ hi => absurd hi (by omega)

def markReady (f : BloomFilter) (nowMs : Int) : BloomFilter := { f with lastRebuildMs := nowMs, ready := true }

/-! ## Calls -/

/-- The file hashes a scan of `file_locations` sees; a hash may be NULL. -/
abbrev Rows := List (Option Bytes)

inductive Call
  | idle
  /-- in `Add`, the first `i` bits of the key set -/
  | adding (key : Bytes) (i : Nat)
  /-- in `LoadFromCatalog`, before the statement is prepared -/
  | opening
  /-- at the head of the scan loop, `rest` of the visible rows ahead -/
  | scanning (visible rest : Rows)
  /-- in the `Add` of one row -/
  | loading (visible rest : Rows) (key : Bytes) (i : Nat)
  /-- in `MightContain`, the first `i` bits found set; the keys added and the scans completed before the call -/
  | checking (key : Bytes) (i : Nat) (added : List Bytes) (loaded : List Rows)
  deriving DecidableEq

/-- An answer of `MightContain`, with what had been added and loaded when it was called. -/
structure Answer where
  key : Bytes
  result : Bool
  added : List Bytes
  loaded : List Rows
  deriving DecidableEq

/-- The filter and its callers. `added` are the keys whose `Add` has returned, `loaded` the rows visible to each load
that has returned Ok. -/
structure Sys where
  filter : BloomFilter
  calls : Nat → Call := fun _ => .idle
  added : List Bytes := []
  loaded : List Rows := []
  answers : List Answer := []

inductive Act
  | add (c : Nat) (key : Bytes)
  | load (c : Nat)
  /-- the rows visible to the prepared statement, `none` when preparing it failed -/
  | prepare (c : Nat) (rows : Option Rows)
  /-- `sqlite3_step` gave a row; `textOk` is false when its text could not be read -/
  | row (c : Nat) (textOk : Bool)
  /-- `sqlite3_step` gave something else: the end of the rows, or an error -/
  | endScan (c : Nat) (error : Bool) (nowMs : Int)
  | check (c : Nat) (key : Bytes)
  /-- the next bit of the `Add` or `MightContain` under way, or its return -/
  | advance (c : Nat)
  | markReady (nowMs : Int)

namespace Sys

def setCall (s : Sys) (c : Nat) (call : Call) : Sys := { s with calls := Function.update s.calls c call }

def setFilter (s : Sys) (f : BloomFilter) : Sys := { s with filter := f }

section
variable (s) (c) (call : Call) (f)

@[simp] theorem setCall_filter : (s.setCall c call).filter = s.filter := rfl
@[simp] theorem setCall_calls : (s.setCall c call).calls = Function.update s.calls c call := rfl
@[simp] theorem setFilter_filter : (s.setFilter f).filter = f := rfl

end

/-- The bit writes of `Add` and its return. The mutex around the writes is left out: they are atomic. -/
def addStep (s : Sys) (c : Nat) (key : Bytes) (i : Nat) (again : Nat → Call) (done : Call) : Sys :=
  if i < s.filter.numHashes then
    (s.setFilter (s.filter.setBit (s.filter.index key i))).setCall c (again (i + 1))
  else
    ({ s with added := key :: s.added }.setFilter
      { s.filter with addedCount := s.filter.addedCount + 1 }).setCall c done

def answer (s : Sys) (c : Nat) (a : Answer) : Sys := { s with answers := a :: s.answers }.setCall c .idle

/-- The bit tests of `MightContain` and its return. -/
def checkStep (s : Sys) (c : Nat) (key : Bytes) (i : Nat) (added : List Bytes) (loaded : List Rows) : Sys :=
  if i < s.filter.numHashes then
    if s.filter.testBit (s.filter.index key i) then s.setCall c (.checking key (i + 1) added loaded)
    else s.answer c ⟨key, false, added, loaded⟩
  else
    (s.setFilter { s.filter with totalChecks := s.filter.totalChecks + 1 }).answer c ⟨key, true, added, loaded⟩

def step (s : Sys) : Act → Option Sys
  | .add c key =>
    match s.calls c with
    | .idle => some (s.setCall c (.adding key 0))
    | _ => none
  | .load c =>
    match s.calls c with
    | .idle => some ((s.setFilter { s.filter with ready := false }).setCall c .opening)
    | _ => none
  | .prepare c rows =>
    match s.calls c, rows with
    | .opening, none => some (s.setCall c .idle)
    | .opening, some rows => some (s.setCall c (.scanning rows rows))
    | _, _ => none
  | .row c textOk =>
    match s.calls c with
    | .scanning visible (some text :: rest) =>
      some (s.setCall c (if textOk then .loading visible rest (Store.Stores.cStr text) 0 else .scanning visible rest))
    | .scanning visible (none :: rest) => some (s.setCall c (.scanning visible rest))
    | _ => none
  | .endScan c error nowMs =>
    match s.calls c with
    | .scanning visible rest =>
      if error ∨ rest = [] then
        some (({ s with loaded := visible :: s.loaded }.setFilter (s.filter.markReady nowMs)).setCall c .idle)
      else none
    | _ => none
  | .check c key =>
    match s.calls c with
    | .idle =>
      if s.filter.ready then some (s.setCall c (.checking key 0 s.added s.loaded))
      else some (s.answer c ⟨key, true, s.added, s.loaded⟩)
    | _ => none
  | .advance c =>
    match s.calls c with
    | .adding key i => some (s.addStep c key i (.adding key) .idle)
    | .loading visible rest key i => some (s.addStep c key i (.loading visible rest key) (.scanning visible rest))
    | .checking key i added loaded => some (s.checkStep c key i added loaded)
    | _ => none
  | .markReady nowMs => some (s.setFilter (s.filter.markReady nowMs))

end Sys

/-! ## What the bits say -/

def Loaded (f : BloomFilter) (rows : Rows) : Prop := ∀ key, some key ∈ rows → f.Has key

/-- The bits a call under way has set or relies on. -/
def Call.Filled (f : BloomFilter) : Call → Prop
  | .idle | .opening => True
  | .adding key i => f.HasUpTo key i
  | .scanning visible rest => (∀ key, some key ∈ visible → (0 : UInt8) ∉ key) ∧
    ∀ key, some key ∈ visible → some key ∈ rest ∨ f.Has key
  | .loading visible rest key i => (∀ key, some key ∈ visible → (0 : UInt8) ∉ key) ∧ f.HasUpTo key i ∧
    ∀ key', some key' ∈ visible → some key' ∈ rest ∨ key' = key ∨ f.Has key'
  | .checking _ _ added loaded => (∀ key ∈ added, f.Has key) ∧ ∀ rows ∈ loaded, Loaded f rows

def Answer.Right (a : Answer) : Prop := a.result = false → a.key ∉ a.added ∧ ∀ rows ∈ a.loaded, some a.key ∉ rows

structure Filled (s : Sys) : Prop where
  added : ∀ key ∈ s.added, s.filter.Has key
  loaded : ∀ rows ∈ s.loaded, Loaded s.filter rows
  calls : ∀ c, (s.calls c).Filled s.filter
  answers : ∀ a ∈ s.answers, a.Right

theorem Loaded.mono (h : f.Le g) {rows : Rows} (hf : Loaded f rows) : Loaded g rows :=
  fun key hkey => h.has (hf key hkey)

theorem Call.Filled.mono (h : f.Le g) {call : Call} (hf : call.Filled f) : call.Filled g := by
  rcases call with _ | ⟨key, i⟩ | _ | ⟨visible, rest⟩ | ⟨visible, rest, key, i⟩ | ⟨key, i, added, loaded⟩
  · trivial
  · exact h.hasUpTo hf
  · trivial
  · exact ⟨hf.1, fun key hkey => (hf.2 key hkey).imp_right h.has⟩
  · exact ⟨hf.1, h.hasUpTo hf.2.1, fun key hkey => (hf.2.2 key hkey).imp_right (Or.imp_right h.has)⟩
  · exact ⟨fun key hkey => h.has (hf.1 key hkey), fun rows hrows => (hf.2 rows hrows).mono h⟩

def Call.atEnd : Call → Bool
  | .scanning _ rest => rest.isEmpty
  | _ => true

/-- The condition on the steps of a run: the text of every row is read, a scan ends at its last row and the visible
hashes hold no zero byte. -/
def ScanWhole (s : Sys) : Act → Prop
  | .prepare _ (some rows) => ∀ key ∈ rows.reduceOption, (0 : UInt8) ∉ key
  | .row _ textOk => textOk = true
  | .endScan c _ _ => (s.calls c).atEnd = true
  | _ => True

instance (s : Sys) : ∀ a, Decidable (ScanWhole s a)
  | .prepare _ (some rows) => inferInstanceAs (Decidable (∀ key ∈ rows.reduceOption, (0 : UInt8) ∉ key))
  | .row _ textOk => inferInstanceAs (Decidable (textOk = true))
  | .endScan c _ _ => inferInstanceAs (Decidable ((s.calls c).atEnd = true))
  | .prepare _ none | .add .. | .load .. | .check .. | .advance .. | .markReady .. => .isTrue trivial

theorem Filled.setFilter (h : Filled s) (hle : s.filter.Le f) : Filled (s.setFilter f) where
  added key hkey := hle.has (h.added key hkey)
  loaded rows hrows := (h.loaded rows hrows).mono hle
  calls c := (h.calls c).mono hle
  answers := h.answers

theorem Filled.setCall {call : Call} (h : Filled s) (hcall : call.Filled s.filter) :
    Filled (s.setCall c call) where
  added := h.added
  loaded := h.loaded
  calls d := by
    rw [Sys.setCall_calls, Sys.setCall_filter]
    by_cases hd : d = c
    · rw [hd, Function.update_self]
      exact hcall
    · rw [Function.update_of_ne hd]
      exact h.calls d
  answers := h.answers

theorem Filled.addKey (h : Filled s) (hkey : s.filter.Has key) :
    Filled { s with added := key :: s.added } where
  added k hk := by
    rcases List.mem_cons.mp hk with rfl | hold
    · exact hkey
    · exact h.added k hold
  loaded := h.loaded
  calls := h.calls
  answers := h.answers

theorem Filled.addLoad {rows : Rows} (h : Filled s) (hrows : Loaded s.filter rows) :
    Filled { s with loaded := rows :: s.loaded } where
  added := h.added
  loaded r hr := by
    rcases List.mem_cons.mp hr with rfl | hold
    · exact hrows
    · exact h.loaded r hold
  calls := h.calls
  answers := h.answers

theorem Filled.answer {a : Answer} (h : Filled s) (ha : a.Right) : Filled (s.answer c a) := by
  have hnoted : Filled { s with answers := a :: s.answers } :=
    { added := h.added
      loaded := h.loaded
      calls := h.calls
      answers := fun b hb => by
        rcases List.mem_cons.mp hb with rfl | hold
        · exact ha
        · exact h.answers b hold }
  exact hnoted.setCall trivial

theorem Filled.addStep {again : Nat → Call} {done : Call} (h : Filled s) (hkey : s.filter.HasUpTo key i)
    (hagain : ∀ g : BloomFilter, s.filter.Le g → g.HasUpTo key (i + 1) → (again (i + 1)).Filled g)
    (hdone : ∀ g : BloomFilter, s.filter.Le g → g.Has key → done.Filled g) : Filled (s.addStep c key i again done) := by
  unfold Sys.addStep
  split
  · have hle := s.filter.le_setBit (s.filter.index key i)
    apply (h.setFilter hle).setCall
    rw [Sys.setFilter_filter]
    exact hagain _ hle hkey.setBit
  · rename_i hall
    have hle : s.filter.Le { s.filter with addedCount := s.filter.addedCount + 1 } := .of_words rfl rfl
    have hhas : s.filter.Has key := fun j hj => hkey j (by omega)
    apply ((h.addKey hhas).setFilter hle).setCall
    rw [Sys.setFilter_filter]
    exact hdone _ hle (hle.has hhas)

theorem Filled.checkStep {added : List Bytes} {loaded : List Rows} (h : Filled s)
    (hcall : (Call.checking key i added loaded).Filled s.filter) : Filled (s.checkStep c key i added loaded) := by
  unfold Sys.checkStep
  split
  · rename_i hi
    split
    · exact h.setCall hcall
    · rename_i hclear
      have hnot : ¬ s.filter.Has key := fun hhas => hclear (hhas i hi)
      apply h.answer
      intro _
      exact ⟨fun hk => hnot (hcall.1 key hk), fun rows hrows hk => hnot (hcall.2 rows hrows key hk)⟩
  · refine Filled.answer (h.setFilter ?_) ?_
    · exact .of_words rfl rfl
    · intro hfalse
      exact absurd hfalse (by simp)

theorem cStr_of_no_zero (h : (0 : UInt8) ∉ key) : Store.Stores.cStr key = key := by
  unfold Store.Stores.cStr
  apply List.takeWhile_eq_self_iff.mpr
  intro b hb
  simp only [bne_iff_ne]
  rintro rfl
  exact h hb

theorem step_filled {s' : Sys} {a : Act} (h : Filled s) (hq : ScanWhole s a) (hstep : s.step a = some s') :
    Filled s' := by
  unfold Sys.step at hstep
  split at hstep
  case h_1 c key =>
    split at hstep
    · cases hstep
      exact h.setCall (s.filter.hasUpTo_zero key)
    · exact absurd hstep (by simp)
  case h_2 c =>
    split at hstep
    · cases hstep
      refine Filled.setCall (h.setFilter ?_) trivial
      exact .of_words rfl rfl
    · exact absurd hstep (by simp)
  case h_3 c rows =>
    split at hstep
    · cases hstep
      exact h.setCall trivial
    · cases hstep
      exact h.setCall ⟨fun key hkey => hq key (List.reduceOption_mem_iff.mpr hkey), fun key hkey => .inl hkey⟩
    · exact absurd hstep (by simp)
  case h_4 c textOk =>
    have htext : textOk = true := hq
    have hcall := h.calls c
    split at hstep
    · rename_i visible text rest hc
      rw [hc] at hcall
      cases hstep
      apply h.setCall
      rw [if_pos htext]
      refine ⟨hcall.1, s.filter.hasUpTo_zero _, fun key hkey => ?_⟩
      rcases hcall.2 key hkey with hahead | hhas
      · rcases List.mem_cons.mp hahead with heq | hrest
        · have heq : key = text := Option.some.inj heq
          rw [← heq, cStr_of_no_zero (hcall.1 key hkey)]
          exact .inr (.inl rfl)
        · exact .inl hrest
      · exact .inr (.inr hhas)
    · rename_i visible rest hc
      rw [hc] at hcall
      cases hstep
      apply h.setCall
      refine ⟨hcall.1, fun key hkey => ?_⟩
      rcases hcall.2 key hkey with hahead | hhas
      · exact .inl (by simpa using hahead)
      · exact .inr hhas
    · exact absurd hstep (by simp)
  case h_5 c error now =>
    split at hstep
    · rename_i visible rest hc
      split at hstep
      · cases hstep
        have hcall := h.calls c
        have hend : rest = [] := by simpa [ScanWhole, hc, Call.atEnd] using hq
        rw [hc, hend] at hcall
        have hrows : Loaded s.filter visible := fun key hkey => (hcall.2 key hkey).resolve_left (by simp)
        refine Filled.setCall ((h.addLoad hrows).setFilter ?_) trivial
        exact .of_words rfl rfl
      · exact absurd hstep (by simp)
    · exact absurd hstep (by simp)
  case h_6 c key =>
    split at hstep
    · split at hstep
      · cases hstep
        exact h.setCall ⟨h.added, h.loaded⟩
      · cases hstep
        apply h.answer
        intro hfalse
        exact absurd hfalse (by simp)
    · exact absurd hstep (by simp)
  case h_7 c =>
    have hcall := h.calls c
    split at hstep
    · rename_i key i hc
      rw [hc] at hcall
      cases hstep
      exact h.addStep hcall (fun _ _ hmore => hmore) fun _ _ _ => trivial
    · rename_i visible rest key i hc
      rw [hc] at hcall
      cases hstep
      refine h.addStep hcall.2.1 (fun g hle hmore => ⟨hcall.1, hmore, fun k hk => ?_⟩)
        fun g hle hhas => ⟨hcall.1, fun k hk => ?_⟩
      · exact (hcall.2.2 k hk).imp_right (Or.imp_right hle.has)
      · rcases hcall.2.2 k hk with hrest | rfl | hold
        · exact .inl hrest
        · exact .inr hhas
        · exact .inr (hle.has hold)
    · rename_i key i added loaded hc
      rw [hc] at hcall
      cases hstep
      exact h.checkStep hcall
    · exact absurd hstep (by simp)
  case h_8 now =>
    cases hstep
    exact h.setFilter (.of_words rfl rfl)

def Sys.start (capacityBytes : UInt64) (numHashes : Nat) : Sys := { filter := .create capacityBytes numHashes }

theorem filled_start (capacityBytes : UInt64) (numHashes : Nat) : Filled (.start capacityBytes numHashes) where
  added key hkey := absurd hkey (by simp [Sys.start])
  loaded rows hrows := absurd hrows (by simp [Sys.start])
  calls _ := trivial
  answers a ha := absurd ha (by simp [Sys.start])

/-- When every scan runs to its end, a negative answer means that the key was not added before the call and was in
no row visible to a load that had returned Ok. -/
theorem no_false_negatives (capacityBytes : UInt64) (numHashes : Nat) {acts : List Act} {s : Sys}
    (hq : Along Sys.step ScanWhole (.start capacityBytes numHashes) acts)
    (hrun : run Sys.step (.start capacityBytes numHashes) acts = some s) :
    ∀ a ∈ s.answers, a.result = false → a.key ∉ a.added ∧ ∀ rows ∈ a.loaded, some a.key ∉ rows :=
  (run_inv step_filled (filled_start capacityBytes numHashes) hq hrun).answers

/-- One row, scanned to the end, and a check of another key. -/
def scanToTheEnd : List Act :=
  [.load 0, .prepare 0 (some [some [0x78]]), .row 0 true, .advance 0, .advance 0, .endScan 0 false 0,
    .check 0 [0x79], .advance 0]

theorem no_false_negatives_scanToTheEnd :
    Along Sys.step ScanWhole (.start 1 1) scanToTheEnd ∧
    ∃ s, run Sys.step (.start 1 1) scanToTheEnd = some s ∧ s.answers = [⟨[0x79], false, [[0x78]], [[some [0x78]]]⟩] ∧
      ∀ a ∈ s.answers, a.result = false → a.key ∉ a.added ∧ ∀ rows ∈ a.loaded, some a.key ∉ rows := by
  have hq : Along Sys.step ScanWhole (.start 1 1) scanToTheEnd := by decide +kernel
  have hanswers : (run Sys.step (.start 1 1) scanToTheEnd).map Sys.answers =
      some [⟨[0x79], false, [[0x78]], [[some [0x78]]]⟩] := by decide +kernel
  obtain ⟨s, hrun, hs⟩ := Option.map_eq_some_iff.mp hanswers
  exact ⟨hq, s, hrun, hs, no_false_negatives 1 1 hq hrun⟩

/-! ## A scan cut short -/

/-- One row in the catalog, and a scan that ends with an error before it. -/
def scanCutShort : List Act :=
  [.load 0, .prepare 0 (some [some [0x78]]), .endScan 0 true 0, .check 0 [0x78], .advance 0]

theorem scanCutShort_false_negative :
    (run Sys.step (.start 1 7) scanCutShort).map Sys.answers = some [⟨[0x78], false, [], [[some [0x78]]]⟩] ∧
    ¬ ∀ acts s, run Sys.step (.start 1 7) acts = some s →
      ∀ a ∈ s.answers, a.result = false → a.key ∉ a.added ∧ ∀ rows ∈ a.loaded, some a.key ∉ rows := by
  have hanswers : (run Sys.step (.start 1 7) scanCutShort).map Sys.answers =
      some [⟨[0x78], false, [], [[some [0x78]]]⟩] := by decide +kernel
  refine ⟨hanswers, fun hall => ?_⟩
  obtain ⟨s, hrun, hs⟩ := Option.map_eq_some_iff.mp hanswers
  have hright := hall scanCutShort s hrun ⟨[0x78], false, [], [[some [0x78]]]⟩ (by rw [hs]; simp) rfl
  exact hright.2 [some [0x78]] (by simp) (by simp)

end BloomFilter

end Cortrix.Catalog
