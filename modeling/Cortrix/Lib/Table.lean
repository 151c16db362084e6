import Mathlib.Data.List.Nodup
import Mathlib.Data.List.Count
import Mathlib.Data.List.Induction
import Mathlib.Data.List.Perm.Subperm

/-!
# Tables of rows with a primary key

A table is the list of its rows; the statements of the SQL engine that the modelled code issues are:

* `updateWhere p f` : `UPDATE .. SET f WHERE p`; `changes p` : the number of rows it changes;
* `deleteWhere p`, `insertRow key r` (`none` on a primary key conflict), `upsertRow key r`, `lookup key k`;
* `IsTop limit rows out` : `SELECT .. ORDER BY w DESC LIMIT limit` may return `out`;
* `WritesOne key write target after` : statements that each write the row of one key, and runs of them;
* `Keyed key t` : the primary key; kept by every statement (`Keyed.updateWhere`, `Keyed.insertRow`, ..).
-/

namespace Lib

variable {ρ κ : Type}

/-- `UPDATE t SET f WHERE p`. -/
def updateWhere (p : ρ → Bool) (f : ρ → ρ) (t : List ρ) : List ρ := t.map fun r => if p r then f r else r

/-- The number of rows a `WHERE p` statement changes. -/
def changes (p : ρ → Bool) (t : List ρ) : Nat := t.countP p

/-- `DELETE FROM t WHERE p`. -/
def deleteWhere (p : ρ → Bool) (t : List ρ) : List ρ := t.filter fun r => !p r

/-- `SELECT * FROM t WHERE key = k`. -/
def lookup [DecidableEq κ] (key : ρ → κ) (k : κ) (t : List ρ) : Option ρ := t.find? fun r => key r == k

/-- `INSERT INTO t VALUES r`: refused when the primary key is taken. -/
def insertRow [DecidableEq κ] (key : ρ → κ) (r : ρ) (t : List ρ) : Option (List ρ) :=
  if t.any (fun r' => key r' == key r) then none else some (t ++ [r])

/-- `INSERT .. ON CONFLICT DO UPDATE`: the row, or one overwritten by it when the primary key is taken. -/
def upsertRow [DecidableEq κ] (key : ρ → κ) (r : ρ) (t : List ρ) : List ρ :=
  match insertRow key r t with
  | some t' => t'
  | none => updateWhere (fun r' => key r' == key r) (fun _ => r) t

/-- No two rows share a primary key. -/
def Keyed (key : ρ → κ) (t : List ρ) : Prop := (t.map key).Nodup

instance [DecidableEq κ] (key : ρ → κ) (t : List ρ) : Decidable (Keyed key t) :=
  inferInstanceAs (Decidable (t.map key).Nodup)

variable {p : ρ → Bool} {f : ρ → ρ} {t t' : List ρ} {key : ρ → κ} {r : ρ} {k : κ}

/-! ## Rows after a statement -/

theorem mem_updateWhere {r' : ρ} :
    r' ∈ updateWhere p f t ↔ ∃ r ∈ t, (if p r then f r else r) = r' := by
  rw [updateWhere, List.mem_map]

theorem mem_deleteWhere : r ∈ deleteWhere p t ↔ r ∈ t ∧ p r = false := by
  simp [deleteWhere]

theorem deleteWhere_inj : deleteWhere p t = deleteWhere q t ↔ ∀ r ∈ t, p r = true ↔ q r = true := by
  constructor
  · intro h r hr
    have hmem : r ∈ deleteWhere p t ↔ r ∈ deleteWhere q t := by rw [h]
    rw [mem_deleteWhere, mem_deleteWhere, and_iff_right hr, and_iff_right hr] at hmem
    cases hp : p r <;> cases hq : q r <;> simp [hp, hq] at hmem ⊢
  · intro h
    refine List.filter_congr fun r hr => ?_
    rw [Bool.not_inj_iff]
    exact Bool.eq_iff_iff.mpr (h r hr)

theorem deleteWhere_eq_self : deleteWhere p t = t ↔ ∀ r ∈ t, p r = false := by
  rw [deleteWhere, List.filter_eq_self]
  simp

theorem changes_eq_zero : changes p t = 0 ↔ ∀ r ∈ t, p r = false := by
  simp [changes]

theorem changes_pos : 0 < changes p t ↔ ∃ r ∈ t, p r = true := by
  simp [changes]

theorem mem_updateWhere_of_mem (h : r ∈ t) : (if p r then f r else r) ∈ updateWhere p f t :=
  mem_updateWhere.mpr ⟨r, h, rfl⟩

theorem updateWhere_of_none (h : ∀ r ∈ t, p r = false) : updateWhere p f t = t := by
  unfold updateWhere
  conv_rhs => rw [← List.map_id t]
  apply List.map_congr_left
  intro r hr
  simp [h r hr]

theorem deleteWhere_updateWhere {q : ρ → Bool} (h : ∀ r, p r = true → q r = true ∧ q (f r) = true) (t : List ρ) :
    deleteWhere q (updateWhere p f t) = deleteWhere q t := by
  induction t with
  | nil => rfl
  | cons r t ih =>
    unfold deleteWhere updateWhere at ih ⊢
    rw [List.map_cons, List.filter_cons, List.filter_cons, ih]
    by_cases hp : p r = true
    · simp [hp, h r hp]
    · simp [hp]

/-! ## Counting rows -/

variable {q : ρ → Bool}

theorem changes_cons : changes q (r :: t) = changes q t + if q r then 1 else 0 := by
  rw [changes, changes, List.countP_cons]

theorem changes_updateWhere (h : ∀ r ∈ t, p r = true → q (f r) = q r) :
    changes q (updateWhere p f t) = changes q t := by
  unfold changes updateWhere
  rw [List.countP_map]
  apply List.countP_congr
  intro r hr
  by_cases hp : p r = true
  · simp [hp, h r hr hp]
  · simp [hp]

theorem changes_updateWhere_le (h : ∀ r ∈ t, p r = true → q (f r) = true → q r = true) :
    changes q (updateWhere p f t) ≤ changes q t := by
  unfold changes updateWhere
  rw [List.countP_map]
  apply List.countP_mono_left
  intro r hr hq
  by_cases hp : p r = true
  · exact h r hr hp (by simpa [hp] using hq)
  · simpa [hp] using hq

theorem changes_deleteWhere_le : changes q (deleteWhere p t) ≤ changes q t :=
  List.Sublist.countP_le List.filter_sublist

theorem changes_deleteWhere (h : ∀ r ∈ t, q r = true → p r = false) : changes q (deleteWhere p t) = changes q t := by
  unfold changes deleteWhere
  rw [List.countP_filter]
  apply List.countP_congr
  intro r hr
  rw [Bool.and_eq_true, and_iff_left_iff_imp, Bool.not_eq_true']
  exact h r hr

/-- An update of one row moves the count by that row. -/
theorem changes_updateWhere_one (hnd : t.Nodup) (hr : r ∈ t) (hp : ∀ r' ∈ t, p r' = true ↔ r' = r) :
    changes q (updateWhere p f t) + (if q r then 1 else 0) = changes q t + if q (f r) then 1 else 0 := by
  induction t with
  | nil => cases hr
  | cons x t ih =>
    obtain ⟨hx, hnd⟩ := List.nodup_cons.mp hnd
    by_cases hxr : x = r
    · subst hxr
      have hrest : updateWhere p f t = t := by
        apply updateWhere_of_none
        intro r' hr'
        rw [Bool.eq_false_iff]
        intro hpr
        exact hx ((hp r' (List.mem_cons_of_mem _ hr')).mp hpr ▸ hr')
      have hpx := (hp x List.mem_cons_self).mpr rfl
      have hcons : updateWhere p f (x :: t) = f x :: updateWhere p f t := by simp [updateWhere, hpx]
      rw [hcons, hrest, changes_cons, changes_cons]
      omega
    · have hpx : p x = false := by
        rw [Bool.eq_false_iff]
        exact fun h => hxr ((hp x List.mem_cons_self).mp h)
      have hcons : updateWhere p f (x :: t) = x :: updateWhere p f t := by simp [updateWhere, hpx]
      have hmem : r ∈ t := (List.mem_cons.mp hr).resolve_left (Ne.symm hxr)
      have := ih hnd hmem (fun r' hr' => hp r' (List.mem_cons_of_mem _ hr'))
      rw [hcons, changes_cons, changes_cons]
      omega

section Key
variable [DecidableEq κ]

theorem lookup_eq_some (h : lookup key k t = some r) : r ∈ t ∧ key r = k := by
  refine ⟨List.mem_of_find?_eq_some h, ?_⟩
  simpa using List.find?_some h

theorem lookup_eq_none : lookup key k t = none ↔ ∀ r ∈ t, key r ≠ k := by
  simp [lookup]

theorem insertRow_eq_some : insertRow key r t = some t' ↔ (∀ r' ∈ t, key r' ≠ key r) ∧ t' = t ++ [r] := by
  unfold insertRow
  split
  · rename_i h
    simp only [List.any_eq_true, beq_iff_eq] at h
    obtain ⟨r', hr', hk⟩ := h
    simp only [reduceCtorEq, false_iff, not_and]
    exact fun hne => absurd hk (hne r' hr')
  · rename_i h
    simp only [List.any_eq_true, beq_iff_eq, not_exists, not_and] at h
    simp only [Option.some.injEq]
    exact ⟨fun e => ⟨h, e.symm⟩, fun e => e.2.symm⟩

theorem insertRow_eq_none : insertRow key r t = none ↔ ∃ r' ∈ t, key r' = key r := by
  simp [insertRow]

theorem lookup_updateWhere_of (hf : ∀ r, p r = true → key (f r) = key r) (k : κ) (t : List ρ) :
    lookup key k (updateWhere p f t) = (lookup key k t).map fun r => if p r then f r else r := by
  unfold lookup updateWhere
  rw [List.find?_map]
  congr 1
  congr 1
  funext r
  by_cases hp : p r = true
  · simp [hp, hf r hp]
  · simp [hp]

theorem lookup_updateWhere (hf : ∀ r, key (f r) = key r) (k : κ) (t : List ρ) :
    lookup key k (updateWhere p f t) = (lookup key k t).map fun r => if p r then f r else r :=
  lookup_updateWhere_of (fun r _ => hf r) k t

theorem lookup_append_of_some (h : lookup key k t = some r) (t' : List ρ) : lookup key k (t ++ t') = some r := by
  unfold lookup at h ⊢
  rw [List.find?_append, h, Option.some_or]

theorem lookup_upsertRow (k : κ) (r : ρ) (t : List ρ) :
    lookup key k (upsertRow key r t) = if k = key r then some r else lookup key k t := by
  unfold upsertRow
  split
  · rename_i t' hins
    obtain ⟨hne, rfl⟩ := insertRow_eq_some.mp hins
    unfold lookup
    rw [List.find?_append]
    split
    · rename_i hk
      have hnone : t.find? (fun r' => key r' == k) = none := by
        rw [hk]
        exact lookup_eq_none.mpr hne
      rw [hnone]
      simp [hk]
    · rename_i hk
      have hr : (key r == k) = false := beq_eq_false_iff_ne.mpr (Ne.symm hk)
      simp [hr]
  · rename_i hins
    have hf : ∀ x, (key x == key r) = true → key r = key x := fun x hx => (beq_iff_eq.mp hx).symm
    rw [lookup_updateWhere_of (f := fun _ => r) hf]
    split
    · rename_i hk
      obtain ⟨x, hx, hxr⟩ := insertRow_eq_none.mp hins
      rcases hl : lookup key k t with - | y
      · exact absurd (hxr.trans hk.symm) (lookup_eq_none.mp hl x hx)
      · have hy : key y = key r := (lookup_eq_some hl).2.trans hk
        simp [hy]
    · rename_i hk
      rcases hl : lookup key k t with - | y
      · rfl
      · have hy : key y ≠ key r := fun heq => hk ((lookup_eq_some hl).2.symm.trans heq)
        simp [hy]

theorem mem_upsertRow {x : ρ} : x ∈ upsertRow key r t ↔ x = r ∨ x ∈ t ∧ key x ≠ key r := by
  unfold upsertRow
  split
  · rename_i t' hins
    obtain ⟨hne, rfl⟩ := insertRow_eq_some.mp hins
    rw [List.mem_append, List.mem_singleton]
    constructor
    · rintro (hx | rfl)
      · exact .inr ⟨hx, hne x hx⟩
      · exact .inl rfl
    · rintro (rfl | ⟨hx, -⟩)
      · exact .inr rfl
      · exact .inl hx
  · rename_i hins
    obtain ⟨r', hr', hkey⟩ := insertRow_eq_none.mp hins
    rw [mem_updateWhere]
    constructor
    · rintro ⟨y, hy, rfl⟩
      by_cases hk : key y = key r
      · exact .inl (by simp [hk])
      · exact .inr (by simp [hk, hy])
    · rintro (rfl | ⟨hx, hk⟩)
      · exact ⟨r', hr', by simp [hkey]⟩
      · exact ⟨x, hx, by simp [hk]⟩

/-- Of the rows upserted one after the other, the last one of a key stays. -/
theorem mem_foldl_upsertRow {x : ρ} (rs t : List ρ) :
    x ∈ rs.foldl (fun t r => upsertRow key r t) t ↔
      (rs.filter fun r => key r == key x).getLast? = some x ∨ x ∈ t ∧ ∀ r ∈ rs, key r ≠ key x := by
  induction rs using List.reverseRecOn with
  | nil => simp
  | append_singleton rs r ih =>
    rw [List.foldl_append, List.foldl_cons, List.foldl_nil, mem_upsertRow, ih, List.filter_append]
    by_cases hk : key r = key x
    · have hlast : (rs.filter (fun r => key r == key x) ++ [r].filter fun r => key r == key x).getLast? = some r := by
        simp [hk]
      rw [hlast, Option.some.injEq]
      constructor
      · rintro (rfl | ⟨-, hne⟩)
        · exact .inl rfl
        · exact absurd hk.symm hne
      · rintro (rfl | ⟨-, hne⟩)
        · exact .inl rfl
        · exact absurd hk (hne r (by simp))
    · have hsame : (rs.filter (fun r => key r == key x) ++ [r].filter fun r => key r == key x) =
          rs.filter fun r => key r == key x := by
        simp [hk]
      rw [hsame]
      have hne : x ≠ r := by
        rintro rfl
        exact hk rfl
      constructor
      · rintro (heq | ⟨hlast | ⟨hx, hall⟩, -⟩)
        · exact absurd heq hne
        · exact .inl hlast
        · refine .inr ⟨hx, fun r' hr' => ?_⟩
          rcases List.mem_append.mp hr' with hold | hnew
          · exact hall r' hold
          · rw [List.mem_singleton.mp hnew]
            exact hk
      · rintro (hlast | ⟨hx, hall⟩)
        · exact .inr ⟨.inl hlast, fun h => hk h.symm⟩
        · exact .inr ⟨.inr ⟨hx, fun r' hr' => hall r' (by simp [hr'])⟩, fun h => hk h.symm⟩

/-- A row of a kind is there after the writes: an old one under a key that none writes, or the last one under its key. -/
theorem exists_foldl_upsertRow {P : ρ → Prop} (rs t : List ρ) :
    (∃ x ∈ rs.foldl (fun t r => upsertRow key r t) t, P x) ↔ (∃ x ∈ t, P x ∧ ∀ r ∈ rs, key r ≠ key x) ∨
      ∃ x ∈ rs, P x ∧ (rs.filter fun r => key r == key x).getLast? = some x := by
  simp only [mem_foldl_upsertRow]
  constructor
  · rintro ⟨x, hlast | ⟨hx, hfree⟩, hp⟩
    · exact .inr ⟨x, List.mem_of_mem_filter (List.mem_of_getLast? hlast), hp, hlast⟩
    · exact .inl ⟨x, hx, hp, hfree⟩
  · rintro (⟨x, hx, hp, hfree⟩ | ⟨x, hx, hp, hlast⟩)
    · exact ⟨x, .inr ⟨hx, hfree⟩, hp⟩
    · exact ⟨x, .inl hlast, hp⟩

end Key

/-! ## The primary key -/

theorem Keyed.nil : Keyed key ([] : List ρ) := List.nodup_nil

theorem Keyed.eq_of_key (h : Keyed key t) {r r' : ρ} (hr : r ∈ t) (hr' : r' ∈ t) (hk : key r = key r') :
    r = r' :=
  List.inj_on_of_nodup_map h hr hr' hk

theorem Keyed.nodup (h : Keyed key t) : t.Nodup := List.Nodup.of_map key h

theorem Keyed.updateWhere_of (h : Keyed key t) (hf : ∀ r ∈ t, p r = true → key (f r) = key r) :
    Keyed key (updateWhere p f t) := by
  have hmap : (Lib.updateWhere p f t).map key = t.map key := by
    rw [Lib.updateWhere, List.map_map]
    apply List.map_congr_left
    intro r hr
    by_cases hp : p r = true
    · simp [hp, hf r hr hp]
    · simp [hp]
  rw [Keyed, hmap]
  exact h

theorem Keyed.updateWhere (h : Keyed key t) (hf : ∀ r ∈ t, key (f r) = key r) : Keyed key (updateWhere p f t) :=
  h.updateWhere_of fun r hr _ => hf r hr

theorem Keyed.deleteWhere (h : Keyed key t) : Keyed key (deleteWhere p t) :=
  h.sublist (List.filter_sublist.map key)

theorem keyed_append : Keyed key (t ++ [r]) ↔ Keyed key t ∧ ∀ r' ∈ t, key r' ≠ key r := by
  rw [Keyed, List.map_append, List.map_singleton, List.nodup_append]
  simp only [List.nodup_singleton, true_and, List.mem_map, List.mem_singleton, Keyed]
  constructor
  · rintro ⟨h, hne⟩
    exact ⟨h, fun r' hr' => hne _ ⟨r', hr', rfl⟩ _ rfl⟩
  · rintro ⟨h, hne⟩
    refine ⟨h, ?_⟩
    rintro _ ⟨r', hr', rfl⟩ _ rfl
    exact hne r' hr'

theorem Keyed.insertRow [DecidableEq κ] (h : Keyed key t) (hi : insertRow key r t = some t') : Keyed key t' := by
  obtain ⟨hne, rfl⟩ := insertRow_eq_some.mp hi
  exact keyed_append.mpr ⟨h, hne⟩

theorem Keyed.upsertRow [DecidableEq κ] (h : Keyed key t) : Keyed key (upsertRow key r t) := by
  unfold Lib.upsertRow
  split
  · rename_i t' hins
    exact h.insertRow hins
  · exact h.updateWhere_of fun r' _ hk => (beq_iff_eq.mp hk).symm

theorem Keyed.lookup_of_mem [DecidableEq κ] (h : Keyed key t) (hr : r ∈ t) : lookup key (key r) t = some r := by
  cases hl : lookup key (key r) t with
  | none => exact absurd rfl (lookup_eq_none.mp hl r hr)
  | some r' =>
    obtain ⟨hr', hk⟩ := lookup_eq_some hl
    rw [h.eq_of_key hr' hr hk]

/-! ## Statements one after the other -/

section Writes
variable [DecidableEq κ] {ω : Type} {write : List ρ → ω → List ρ} {target : ω → κ} {after : ω → Option ρ → Option ρ}

/-- Each statement writes the row of one key, by what was there. -/
structure WritesOne (key : ρ → κ) (write : List ρ → ω → List ρ) (target : ω → κ) (after : ω → Option ρ → Option ρ) :
    Prop where
  own : ∀ t w, lookup key (target w) (write t w) = after w (lookup key (target w) t)
  other : ∀ t w k, k ≠ target w → lookup key k (write t w) = lookup key k t

theorem WritesOne.lookup_foldl_of_notMem (h : WritesOne key write target after) (ws : List ω) (t : List ρ)
    (hk : k ∉ ws.map target) : lookup key k (ws.foldl write t) = lookup key k t := by
  induction ws generalizing t with
  | nil => rfl
  | cons w ws ih =>
    rw [List.map_cons, List.mem_cons, not_or] at hk
    rw [List.foldl_cons, ih _ hk.2, h.other t w k hk.1]

theorem WritesOne.lookup_foldl_of_mem (h : WritesOne key write target after) {ws : List ω} {w : ω} (t : List ρ)
    (hws : (ws.map target).Nodup) (hw : w ∈ ws) :
    lookup key (target w) (ws.foldl write t) = after w (lookup key (target w) t) := by
  induction ws generalizing t with
  | nil => cases hw
  | cons w' ws ih =>
    rw [List.map_cons, List.nodup_cons] at hws
    rw [List.foldl_cons]
    rcases List.mem_cons.mp hw with rfl | hrest
    · rw [h.lookup_foldl_of_notMem ws _ hws.1, h.own]
    · have hne : target w ≠ target w' := fun heq => hws.1 (heq ▸ List.mem_map_of_mem hrest)
      rw [ih _ hws.2 hrest, h.other t w' _ hne]

end Writes

/-! ## Top rows -/

/-- The number of rows a `LIMIT` leaves; a negative one is no limit. -/
def limitOf (limit : Int) (n : Nat) : Nat := if limit < 0 then n else min limit.toNat n

/-- The first `limit` of the rows by descending weight, rows that tie in any order. -/
def IsTop {ω : Type} [LE ω] (limit : Int) (rows out : List (κ × ω)) : Prop :=
  out.Nodup ∧ (∀ x ∈ out, x ∈ rows) ∧ out.Pairwise (fun x y => y.2 ≤ x.2) ∧
    out.length = limitOf limit rows.length ∧ ∀ x ∈ rows, x ∉ out → ∀ y ∈ out, x.2 ≤ y.2

instance {ω : Type} [LE ω] [DecidableLE ω] [DecidableEq ω] [DecidableEq κ] (limit : Int) (rows out : List (κ × ω)) :
    Decidable (IsTop limit rows out) :=
  inferInstanceAs (Decidable (_ ∧ _ ∧ _ ∧ _ ∧ _))

theorem IsTop.of_sublist {ω : Type} [LE ω] {limit : Int} {rows rows' out : List (κ × ω)} (h : IsTop limit rows out)
    (hsub : rows'.Sublist rows) (hout : ∀ x ∈ out, x ∈ rows') : IsTop limit rows' out := by
  obtain ⟨hnd, -, hsorted, hlen, hrest⟩ := h
  have hle : out.length ≤ rows'.length := (hnd.subperm hout).length_le
  have hle' := hsub.length_le
  refine ⟨hnd, hout, hsorted, ?_, fun x hx => hrest x (hsub.mem hx)⟩
  unfold limitOf at hlen ⊢
  by_cases hneg : limit < 0 <;> simp only [hneg, if_true, if_false] at hlen ⊢ <;> omega

end Lib
