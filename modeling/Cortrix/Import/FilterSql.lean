import Mathlib.Algebra.GroupWithZero.Nat
import Cortrix.Lib.SqlText
import Cortrix.Import.QueryExecutor

/-!
# What the filter compiler writes

* `build_writes_select` : the statement is the text of a SELECT of identifiers, tests and placeholders, which the values
  that are compared do not change.
-/

namespace Cortrix.Import
open Lib Lib.SqlText

structure Ident where
  name : String
  bare : isBareIdentifier name = true

/-- A column, or a subkey of the metadata. -/
inductive FieldRef
  | column (ident : Ident)
  | metadata (subkey : Ident)

/-- A test without the values it compares with; `isIn` with their number. -/
inductive Test
  | isNull (b : Bool)
  | isIn (n : Nat)
  | between
  | compare (op : String)

structure SelectQuery where
  columns : List Ident
  table : Ident
  clauses : List (FieldRef × Test)

namespace FieldRef

def ident : FieldRef → Ident
  | column ident => ident
  | metadata subkey => subkey

def name : FieldRef → String
  | column ident => ident.name
  | metadata subkey => "metadata." ++ subkey.name

def pieces : FieldRef → List Piece
  | column ident => [.quoted '\x22' ident.name]
  | metadata subkey => [.plain "(metadata->>", .quoted '\x27' subkey.name, .plain ")"]

end FieldRef

namespace Test

def arity : Test → Nat
  | isNull _ => 0
  | isIn n => n
  | between => 2
  | compare _ => 1

/-- The text of a test; its placeholders are numbered from `first`. -/
def pieces (first : Nat) : Test → List Piece
  | isNull true => [.plain " IS NULL"]
  | isNull false => [.plain " IS NOT NULL"]
  | isIn n =>
    .plain " IN (" :: [.plain ", "].intercalate ((List.range' first n).map fun i => [.param i]) ++ [.plain ")"]
  | between => [.plain " BETWEEN ", .param first, .plain " AND ", .param (first + 1)]
  | compare op => [.plain (" " ++ sqlOperator op ++ " "), .param first]

end Test

def clausePieces : Nat → List (FieldRef × Test) → List (List Piece)
  | _, [] => []
  | first, c :: cs => (c.1.pieces ++ c.2.pieces first) :: clausePieces (first + c.2.arity) cs

namespace SelectQuery

def columnPieces (columns : List Ident) : List Piece :=
  if columns.isEmpty then [.plain "*"]
  else [.plain ", "].intercalate (columns.map fun c => [.quoted '\x22' c.name])

def wherePieces (clauses : List (FieldRef × Test)) : List Piece :=
  if clauses.isEmpty then [] else .plain " WHERE " :: [.plain " AND "].intercalate (clausePieces 1 clauses)

/-- `SELECT columns FROM table WHERE clause AND … AND clause`. -/
def pieces (s : SelectQuery) : List Piece :=
  .plain "SELECT " :: columnPieces s.columns ++ [.plain " FROM ", .quoted '\x22' s.table.name] ++ wherePieces s.clauses

def idents (s : SelectQuery) : List Ident := s.columns ++ s.table :: s.clauses.map fun c => c.1.ident

def arity (s : SelectQuery) : Nat := (s.clauses.map fun c => c.2.arity).sum

end SelectQuery

/-! ## Filters -/

def items : Json → List Json
  | .arr items => items
  | _ => []

def entries : Json → List (String × String × Json)
  | .obj fields => fields.flatMap fun f =>
    match f.2 with
    | .obj ops => ops.map fun c => (f.1, c.1, c.2)
    | _ => []
  | _ => []

def testOf (op : String) (val : Json) : Test :=
  if op = "is_null" then .isNull (match val with | .bool b => b | _ => false)
  else if op = "in" then .isIn (items val).length
  else if op = "between" then .between
  else .compare op

def operands (op : String) (val : Json) : List Json :=
  if op = "is_null" then []
  else if op = "in" ∨ op = "between" then items val
  else [val]

def compared (filter : Json) : List Json := (entries filter).flatMap fun e => operands e.2.1 e.2.2

def scalarText (dump : Json → String) : Json → Option String
  | .str s => some s
  | .bool b => some (if b then "true" else "false")
  | .int n => some (dump (.int n))
  | .float q => some (dump (.float q))
  | _ => none

mutual

def eraseScalars : Json → Json
  | .null => .null
  | .arr items => .arr (eraseItems items)
  | .obj fields => .obj (eraseFields fields)
  | _ => .str ""

def eraseItems : List Json → List Json
  | [] => []
  | v :: vs => eraseScalars v :: eraseItems vs

def eraseFields : List (String × Json) → List (String × Json)
  | [] => []
  | (k, v) :: fs => (k, eraseScalars v) :: eraseFields fs

end

/-- A filter without the scalars that its operators compare with; the booleans of `is_null` stay. -/
def blank : Json → Json
  | .obj fields => .obj (fields.map fun f =>
    (f.1, match f.2 with
      | .obj ops => .obj (ops.map fun c => (c.1, if c.1 = "is_null" then c.2 else eraseScalars c.2))
      | cond => cond))
  | filter => filter

/-! ## The names -/

theorem Ident.mem_name {i : Ident} {c : Char} (hc : c ∈ i.name.toList) : c.isAlphanum = true ∨ c = '_' := by
  have hbare := i.bare
  rw [isBareIdentifier] at hbare
  split at hbare
  · cases hbare
  · rename_i c₀ cs heq
    rw [Bool.and_eq_true, Bool.or_eq_true, List.all_eq_true] at hbare
    rw [heq, List.mem_cons] at hc
    rcases hc with rfl | hc
    · rcases hbare.1 with halpha | hunder
      · exact .inl (by rw [Char.isAlphanum, halpha, Bool.true_or])
      · exact .inr (beq_iff_eq.mp hunder)
    · have hrest := hbare.2 c hc
      rwa [Bool.or_eq_true, beq_iff_eq] at hrest

theorem Ident.not_mem_quote (i : Ident) {quote : Char} (hquote : isQuote quote = true) : quote ∉ i.name.toList := by
  intro hmem
  rw [isQuote, Bool.or_eq_true, beq_iff_eq, beq_iff_eq] at hquote
  rcases hquote with rfl | rfl
  · rcases i.mem_name hmem with h | h <;> exact absurd h (by decide)
  · rcases i.mem_name hmem with h | h <;> exact absurd h (by decide)

theorem Ident.quoted_wellFormed (i : Ident) {quote : Char} (hquote : isQuote quote = true) :
    (Piece.quoted quote i.name).WellFormed := ⟨hquote, i.not_mem_quote hquote⟩

theorem metadataSubkey_eq_some {field subkey : String} (h : metadataSubkey field = some subkey) :
    field = "metadata." ++ subkey ∧ isBareIdentifier subkey = true := by
  rw [metadataSubkey] at h
  split at h
  · rename_i hpre
    dsimp only at h
    split at h
    · rename_i hbare
      obtain ⟨rest, hrest⟩ := List.isPrefixOf_iff_prefix.mp hpre
      have hdrop : field.toList.drop "metadata.".toList.length = rest := by rw [← hrest, List.drop_left]
      rw [hdrop] at h hbare
      cases h
      refine ⟨String.toList_inj.mp ?_, hbare⟩
      rw [← hrest, String.toList_append, @String.toList_ofList rest]
    · cases h
  · cases h

theorem exists_fieldRef {field : String} (h : (metadataSubkey field).isSome = true ∨ isBareIdentifier field = true) :
    ∃ r : FieldRef, r.name = field ∧ (lhsExpr field).toList = text r.pieces := by
  cases hmeta : metadataSubkey field with
  | some subkey =>
    obtain ⟨rfl, hbare⟩ := metadataSubkey_eq_some hmeta
    refine ⟨.metadata ⟨subkey, hbare⟩, rfl, ?_⟩
    rw [lhsExpr, hmeta]
    simp [FieldRef.pieces, text, Piece.text]
  | none =>
    rw [hmeta] at h
    rcases h with h | h
    · cases h
    · refine ⟨.column ⟨field, h⟩, rfl, ?_⟩
      rw [lhsExpr, hmeta]
      simp [FieldRef.pieces, text, Piece.text, quoteIdent]

theorem FieldRef.name_inj {r r' : FieldRef} (h : r.name = r'.name) : r = r' := by
  have hdot : ∀ i k : Ident, i.name ≠ "metadata." ++ k.name := by
    intro i k heq
    have hmem : '.' ∈ i.name.toList := by
      rw [heq, String.toList_append]
      exact List.mem_append_left _ (by decide)
    rcases i.mem_name hmem with h | h <;> exact absurd h (by decide)
  cases r with
  | column i =>
    cases r' with
    | column j =>
      cases i
      cases j
      cases h
      rfl
    | metadata k => exact absurd h (hdot i k)
  | metadata k =>
    cases r' with
    | column j => exact absurd h.symm (hdot j k)
    | metadata k' =>
      have hname : k.name = k'.name := by
        rw [FieldRef.name, FieldRef.name, ← String.toList_inj, String.toList_append, String.toList_append] at h
        exact String.toList_inj.mp (List.append_cancel_left h)
      cases k
      cases k'
      cases hname
      rfl

/-! ## The clauses -/

variable {dump : Json → String} {constraints : FilterDslConstraints}

theorem toList_param (n : Nat) : ("$" ++ toString n).toList = text [.param n] := by
  simp [text, Piece.text, Nat.toList_repr]

theorem addParam_eq (v : Json) (p : Params) : addParam dump v p = ("$" ++ toString p.paramIdx,
    ⟨p.bindParams ++ [scalarToBindText dump v], p.paramIdx + 1⟩) := rfl

theorem foldl_joined {sep acc : String} (hacc : acc ≠ "") (ts : List String) :
    ts.foldl (joined sep) acc = sep.intercalate (acc :: ts) := by
  induction ts generalizing acc with
  | nil => rw [List.foldl_nil, String.intercalate_singleton]
  | cons t ts ih =>
    have hne : acc ++ sep ++ t ≠ "" := by
      intro heq
      rw [String.append_eq_empty_iff, String.append_eq_empty_iff] at heq
      exact hacc heq.1.1
    rw [List.foldl_cons, joined, if_neg hacc, ih hne, String.intercalate_cons_append, String.intercalate_cons_cons]

theorem joined_foldl {sep : String} {ts : List String} (h : ∀ t ∈ ts, t ≠ "") :
    ts.foldl (joined sep) "" = sep.intercalate ts := by
  cases ts with
  | nil => rw [List.foldl_nil, String.intercalate_nil]
  | cons t ts => rw [List.foldl_cons, joined, if_pos rfl, foldl_joined (h t List.mem_cons_self)]

theorem foldl_addParam (items : List Json) (acc : String) (p : Params) :
    items.foldl (fun s e => let r := addParam dump e s.2; (joined ", " s.1 r.1, r.2)) (acc, p) =
      (((List.range' p.paramIdx items.length).map fun i => "$" ++ toString i).foldl (joined ", ") acc,
        ⟨p.bindParams ++ items.map (scalarToBindText dump), p.paramIdx + items.length⟩) := by
  induction items generalizing acc p with
  | nil => simp
  | cons v items ih =>
    rw [List.foldl_cons, addParam_eq]
    rw [ih, List.length_cons, List.range'_succ, List.map_cons, List.map_cons, List.foldl_cons, List.append_assoc,
      List.singleton_append, Nat.add_assoc, Nat.add_comm 1]

theorem inPlaceholders_eq (items : List Json) (p : Params) : inPlaceholders dump items p =
    (", ".intercalate ((List.range' p.paramIdx items.length).map fun i => "$" ++ toString i),
      ⟨p.bindParams ++ items.map (scalarToBindText dump), p.paramIdx + items.length⟩) := by
  rw [inPlaceholders, foldl_addParam, joined_foldl]
  intro t ht
  obtain ⟨i, -, rfl⟩ := List.mem_map.mp ht
  intro heq
  rw [String.append_eq_empty_iff] at heq
  exact absurd heq.1 (by decide)

theorem toList_inPlaceholders (first n : Nat) :
    (", ".intercalate ((List.range' first n).map fun i => "$" ++ toString i)).toList =
      text ([.plain ", "].intercalate ((List.range' first n).map fun i => [.param i])) := by
  rw [String.toList_intercalate, text_intercalate, List.map_map, List.map_map]
  have hsep : text [.plain ", "] = ", ".toList := by simp [text, Piece.text]
  rw [hsep]
  congr 1
  exact List.map_congr_left fun i _ => toList_param i

variable (dump) in
theorem clause_eq {op : String} {val : Json} (h : validateValue op val = .ok ()) (field : String) (p : Params) :
    ∃ t, clause dump field op val p = some (t,
        ⟨p.bindParams ++ (operands op val).map (scalarToBindText dump), p.paramIdx + (operands op val).length⟩) ∧
      t.toList = (lhsExpr field).toList ++ text ((testOf op val).pieces p.paramIdx) ∧
      (operands op val).length = (testOf op val).arity := by
  unfold clause operands testOf
  by_cases hnull : op = "is_null"
  · subst hnull
    obtain ⟨b, rfl⟩ := validateValue_is_null.mp h
    refine ⟨lhsExpr field ++ if b then " IS NULL" else " IS NOT NULL", by simp, ?_, rfl⟩
    cases b <;> simp [Test.pieces, text, Piece.text]
  by_cases hin : op = "in"
  · subst hin
    obtain ⟨v, vs, rfl⟩ := validateValue_in.mp h
    rw [if_neg hnull, if_pos rfl, if_neg hnull, if_pos (.inl rfl), if_neg hnull, if_pos rfl]
    dsimp only [items]
    rw [inPlaceholders_eq]
    refine ⟨_, rfl, ?_, rfl⟩
    rw [String.toList_append, String.toList_append, String.toList_append, toList_inPlaceholders, Test.pieces]
    simp [text, Piece.text]
  by_cases hbetween : op = "between"
  · subst hbetween
    obtain ⟨lo, hi, rfl⟩ := validateValue_between.mp h
    rw [if_neg hnull, if_neg hin, if_pos rfl, if_neg hnull, if_pos (.inr rfl), if_neg hnull, if_neg hin, if_pos rfl]
    dsimp only [items]
    rw [addParam_eq, addParam_eq]
    refine ⟨lhsExpr field ++ " BETWEEN " ++ ("$" ++ toString p.paramIdx) ++ " AND " ++
      ("$" ++ toString (p.paramIdx + 1)), by simp, ?_, rfl⟩
    simp [text, Piece.text, Nat.toList_repr, Test.pieces]
  · rw [if_neg hnull, if_neg hin, if_neg hbetween, if_neg hnull, if_neg (not_or.mpr ⟨hin, hbetween⟩), if_neg hnull,
      if_neg hin, if_neg hbetween]
    refine ⟨_, rfl, ?_, rfl⟩
    simp [text, Piece.text, Nat.toList_repr, Test.pieces, addParam_eq]

/-! ## The filter -/

theorem forM_eq_ok {α ε : Type} {f : α → Except ε Unit} {l : List α} :
    l.forM f = .ok () ↔ ∀ x ∈ l, f x = .ok () := by
  induction l with
  | nil => exact iff_of_true rfl fun x hx => absurd hx List.not_mem_nil
  | cons x l ih =>
    rw [List.forall_mem_cons, ← ih]
    change (f x).bind (fun _ => l.forM f) = .ok () ↔ _
    cases f x with
    | error e => exact iff_of_false (fun h => by cases h) fun h => by cases h.1
    | ok u => exact (and_iff_right rfl).symm

/-- What is accepted: an object whose fields are names, each with an object of operators and their values. -/
structure Accepted (fields : List (String × Json)) : Prop where
  conditions : ∀ f ∈ fields, ∃ ops, f.2 = .obj ops
  names : ∀ e ∈ entries (.obj fields), (metadataSubkey e.1).isSome = true ∨ isBareIdentifier e.1 = true
  values : ∀ e ∈ entries (.obj fields), validateValue e.2.1 e.2.2 = .ok ()

theorem mem_entries {fields : List (String × Json)} {e : String × String × Json} (he : e ∈ entries (.obj fields)) :
    ∃ ops, (e.1, Json.obj ops) ∈ fields ∧ (e.2.1, e.2.2) ∈ ops := by
  rw [entries, List.mem_flatMap] at he
  obtain ⟨⟨field, cond⟩, hf, he⟩ := he
  cases cond with
  | obj ops =>
    obtain ⟨c, hc, rfl⟩ := List.mem_map.mp he
    exact ⟨ops, hf, hc⟩
  | _ => exact absurd he List.not_mem_nil

theorem validateField_ok {field : String} {cond : Json} (h : validateField constraints field cond = .ok ()) :
    ((metadataSubkey field).isSome = true ∨ isBareIdentifier field = true) ∧
      ∃ ops, cond = .obj ops ∧ ∀ c ∈ ops, validateValue c.1 c.2 = .ok () := by
  unfold validateField at h
  dsimp only at h
  split at h
  · cases h
  · rename_i hname
    split at h
    · cases h
    · refine ⟨?_, ?_⟩
      · cases hmeta : (metadataSubkey field).isSome
        · rw [hmeta] at hname
          exact .inr (by simpa using hname)
        · exact .inl rfl
      · unfold validateCondition at h
        split at h
        · rename_i c cs
          refine ⟨c :: cs, rfl, fun c' hc' => ?_⟩
          have hop := forM_eq_ok.mp h c' hc'
          unfold validateOperator at hop
          split at hop
          · exact hop
          · cases hop
        · cases h

theorem validateFilterDsl_ok {filter : Json} (h : validateFilterDsl filter constraints = .ok ()) :
    filter = .null ∨ ∃ fields, filter = .obj fields ∧ Accepted fields := by
  unfold validateFilterDsl at h
  split at h
  · exact .inl rfl
  · rename_i fields
    have hfields := forM_eq_ok.mp h
    refine .inr ⟨fields, rfl, fun f hf => ?_, fun e he => ?_, fun e he => ?_⟩
    · obtain ⟨-, ops, hops, -⟩ := validateField_ok (hfields f hf)
      exact ⟨ops, hops⟩
    · obtain ⟨ops, hf, -⟩ := mem_entries he
      exact (validateField_ok (hfields _ hf)).1
    · obtain ⟨ops, hf, hc⟩ := mem_entries he
      obtain ⟨-, ops', heq, hvalues⟩ := validateField_ok (hfields _ hf)
      obtain rfl := Json.obj.inj heq
      exact hvalues _ hc
  · cases h

def addClause (dump : Json → String) (s : String × Params) (e : String × String × Json) : Option (String × Params) :=
  (clause dump e.1 e.2.1 e.2.2 s.2).map fun r => (joined " AND " s.1 r.1, r.2)

theorem foldlM_fieldClauses {fields : List (String × Json)} (h : ∀ f ∈ fields, ∃ ops, f.2 = .obj ops)
    (s : String × Params) : fields.foldlM (fun s f => fieldClauses dump s f.1 f.2) s =
      (entries (.obj fields)).foldlM (addClause dump) s := by
  induction fields generalizing s with
  | nil => rfl
  | cons f fields ih =>
    obtain ⟨field, cond⟩ := f
    obtain ⟨ops, rfl⟩ := h _ List.mem_cons_self
    rw [List.foldlM_cons, entries, List.flatMap_cons, List.foldlM_append, List.foldlM_map]
    exact congrArg (Option.bind _) (funext fun s => ih (fun f hf => h f (List.mem_cons_of_mem _ hf)) s)

variable (dump) in
theorem foldlM_addClause {es : List (String × String × Json)}
    (hnames : ∀ e ∈ es, (metadataSubkey e.1).isSome = true ∨ isBareIdentifier e.1 = true)
    (hvalues : ∀ e ∈ es, validateValue e.2.1 e.2.2 = .ok ()) (acc : String) (p : Params) :
    ∃ (ts : List String) (clauses : List (FieldRef × Test)),
      es.foldlM (addClause dump) (acc, p) = some (ts.foldl (joined " AND ") acc,
        ⟨p.bindParams ++ (es.flatMap fun e => operands e.2.1 e.2.2).map (scalarToBindText dump),
          p.paramIdx + (es.flatMap fun e => operands e.2.1 e.2.2).length⟩) ∧
      ts.map String.toList = (clausePieces p.paramIdx clauses).map text ∧
      clauses.map (fun c => (c.1.name, c.2)) = es.map (fun e => (e.1, testOf e.2.1 e.2.2)) ∧
      (clauses.map fun c => c.2.arity).sum = (es.flatMap fun e => operands e.2.1 e.2.2).length := by
  induction es generalizing acc p with
  | nil => exact ⟨[], [], by simp, rfl, rfl, rfl⟩
  | cons e es ih =>
    obtain ⟨t, hclause, htext, harity⟩ := clause_eq dump (hvalues e List.mem_cons_self) e.1 p
    obtain ⟨r, hname, hlhs⟩ := exists_fieldRef (hnames e List.mem_cons_self)
    obtain ⟨ts, clauses, hfold, hts, hclauses, hsum⟩ := ih (fun e he => hnames e (List.mem_cons_of_mem _ he))
      (fun e he => hvalues e (List.mem_cons_of_mem _ he)) (joined " AND " acc t)
      ⟨p.bindParams ++ (operands e.2.1 e.2.2).map (scalarToBindText dump), p.paramIdx + (operands e.2.1 e.2.2).length⟩
    refine ⟨t :: ts, (r, testOf e.2.1 e.2.2) :: clauses, ?_, ?_, ?_, ?_⟩
    · rw [List.foldlM_cons, addClause, hclause]
      simp only [Option.map_some, Option.bind_eq_bind, Option.bind_some, hfold]
      rw [List.foldl_cons, List.flatMap_cons, List.map_append, List.append_assoc, List.length_append, Nat.add_assoc]
    · rw [List.map_cons, clausePieces, List.map_cons, text_append, htext, hlhs, hts, harity]
    · rw [List.map_cons, List.map_cons, hclauses, hname]
    · rw [List.map_cons, List.sum_cons, hsum, List.flatMap_cons, List.length_append, harity]

/-! ## The statement -/

theorem foldlM_addColumn {columns : List String} {acc s : String} (h : columns.foldlM addColumn acc = .ok s) :
    (∀ c ∈ columns, isBareIdentifier c = true) ∧ s = (columns.map quoteIdent).foldl (joined ", ") acc := by
  induction columns generalizing acc with
  | nil =>
    cases h
    exact ⟨fun c hc => absurd hc List.not_mem_nil, rfl⟩
  | cons c columns ih =>
    rw [List.foldlM_cons] at h
    unfold addColumn at h
    by_cases hbare : isBareIdentifier c = true
    · rw [if_pos hbare] at h
      obtain ⟨hcolumns, hs⟩ := ih h
      exact ⟨List.forall_mem_cons.mpr ⟨hbare, hcolumns⟩, hs⟩
    · rw [if_neg hbare] at h
      cases h

theorem quoteIdent_ne (c : String) : quoteIdent c ≠ "" := by
  intro heq
  rw [quoteIdent, String.append_eq_empty_iff] at heq
  exact absurd heq.2 (by decide)

theorem columnList_ok {columns : List String} {s : String} (h : columnList columns = .ok s) :
    ∃ idents : List Ident, idents.map Ident.name = columns ∧
      s.toList = text (SelectQuery.columnPieces idents) := by
  unfold columnList at h
  cases columns with
  | nil =>
    cases h
    exact ⟨[], rfl, by simp [SelectQuery.columnPieces, text, Piece.text]⟩
  | cons c columns =>
    obtain ⟨hbare, rfl⟩ := foldlM_addColumn h
    have hidents : ((c :: columns).pmap Ident.mk hbare).map Ident.name = c :: columns := by
      rw [List.map_pmap, List.pmap_eq_map, List.map_id']
    have hne : ∀ t ∈ (c :: columns).map quoteIdent, t ≠ "" := by
      intro t ht
      obtain ⟨c', -, rfl⟩ := List.mem_map.mp ht
      exact quoteIdent_ne c'
    have hsep : text [.plain ", "] = ", ".toList := by simp [text, Piece.text]
    refine ⟨(c :: columns).pmap Ident.mk hbare, hidents, ?_⟩
    rw [joined_foldl hne, String.toList_intercalate, SelectQuery.columnPieces, if_neg (by simp), text_intercalate, hsep,
      List.map_map, List.map_map]
    congr 1
    nth_rewrite 1 [← hidents]
    rw [List.map_map]
    refine List.map_congr_left fun c' _ => ?_
    simp [quoteIdent, text, Piece.text]

namespace SelectQuery

theorem wellFormed_params (first n : Nat) :
    ∀ p ∈ [Piece.plain ", "].intercalate ((List.range' first n).map fun i => [.param i]), p.WellFormed := by
  intro p hp
  rcases mem_intercalate hp with hsep | ⟨ps, hps, hp⟩
  · rw [List.mem_singleton.mp hsep]
    decide
  · obtain ⟨i, -, rfl⟩ := List.mem_map.mp hps
    rw [List.mem_singleton.mp hp]
    trivial

theorem wellFormed_field (r : FieldRef) : ∀ p ∈ r.pieces, p.WellFormed := by
  cases r with
  | column ident => exact List.forall_mem_singleton.mpr (ident.quoted_wellFormed (by decide))
  | metadata subkey =>
    have hsubkey := subkey.quoted_wellFormed (show isQuote '\x27' = true by decide)
    exact List.forall_mem_cons.mpr ⟨by decide, List.forall_mem_cons.mpr
      ⟨hsubkey, List.forall_mem_singleton.mpr (by decide)⟩⟩

theorem wellFormed_test (t : Test) (first : Nat) : ∀ p ∈ t.pieces first, p.WellFormed := by
  cases t with
  | isNull b => cases b <;> exact List.forall_mem_singleton.mpr (by decide)
  | isIn n =>
    refine List.forall_mem_append.mpr ⟨List.forall_mem_cons.mpr ⟨by decide, wellFormed_params first n⟩, ?_⟩
    exact List.forall_mem_singleton.mpr (by decide)
  | between =>
    refine List.forall_mem_cons.mpr ⟨by decide, List.forall_mem_cons.mpr ⟨trivial, ?_⟩⟩
    exact List.forall_mem_cons.mpr ⟨by decide, List.forall_mem_singleton.mpr trivial⟩
  | compare op =>
    refine List.forall_mem_cons.mpr ⟨?_, List.forall_mem_singleton.mpr trivial⟩
    unfold sqlOperator
    split_ifs <;> decide

theorem wellFormed_clauses (first : Nat) (cs : List (FieldRef × Test)) :
    ∀ ps ∈ clausePieces first cs, ∀ p ∈ ps, p.WellFormed := by
  induction cs generalizing first with
  | nil => exact fun ps hps => absurd hps List.not_mem_nil
  | cons c cs ih =>
    rw [clausePieces]
    refine List.forall_mem_cons.mpr ⟨?_, ih (first + c.2.arity)⟩
    exact List.forall_mem_append.mpr ⟨wellFormed_field c.1, wellFormed_test c.2 first⟩

theorem wellFormed (s : SelectQuery) : ∀ p ∈ s.pieces, p.WellFormed := by
  have hcolumns : ∀ p ∈ columnPieces s.columns, p.WellFormed := by
    unfold columnPieces
    split
    · exact List.forall_mem_singleton.mpr (by decide)
    · intro p hp
      rcases mem_intercalate hp with hsep | ⟨ps, hps, hp⟩
      · rw [List.mem_singleton.mp hsep]
        decide
      · obtain ⟨c, -, rfl⟩ := List.mem_map.mp hps
        rw [List.mem_singleton.mp hp]
        exact c.quoted_wellFormed (by decide)
  have hwhere : ∀ p ∈ wherePieces s.clauses, p.WellFormed := by
    unfold wherePieces
    split
    · exact fun p hp => absurd hp List.not_mem_nil
    · refine List.forall_mem_cons.mpr ⟨by decide, fun p hp => ?_⟩
      rcases mem_intercalate hp with hsep | ⟨ps, hps, hp⟩
      · rw [List.mem_singleton.mp hsep]
        decide
      · exact wellFormed_clauses 1 s.clauses ps hps p hp
  have htable : ∀ p ∈ [Piece.plain " FROM ", .quoted '\x22' s.table.name], p.WellFormed :=
    List.forall_mem_cons.mpr ⟨by decide, List.forall_mem_singleton.mpr (s.table.quoted_wellFormed (by decide))⟩
  refine List.forall_mem_cons.mpr ⟨by decide, List.forall_mem_append.mpr ⟨?_, hwhere⟩⟩
  exact List.forall_mem_append.mpr ⟨hcolumns, htable⟩

/-! ### Its parameters and names -/

theorem filterMap_isIn {β : Type} {f : Piece → Option β} (hplain : ∀ s, f (.plain s) = none) (n first : Nat) :
    ((Test.isIn n).pieces first).filterMap f = (List.range' first n).flatMap fun k => [Piece.param k].filterMap f := by
  have hsep : [Piece.plain ", "].filterMap f = [] := List.filterMap_cons_none (hplain _)
  rw [Test.pieces, List.cons_append, List.filterMap_cons_none (hplain _), List.filterMap_append,
    filterMap_intercalate hsep, List.filterMap_cons_none (hplain _), List.filterMap_nil, List.append_nil,
    List.flatMap_map]

theorem params_clause (c : FieldRef × Test) (first : Nat) :
    (c.1.pieces ++ c.2.pieces first).filterMap Piece.param? = List.range' first c.2.arity := by
  have hfield : c.1.pieces.filterMap Piece.param? = [] := by cases c.1 <;> rfl
  rw [List.filterMap_append, hfield, List.nil_append]
  cases c.2 with
  | isNull b => cases b <;> rfl
  | isIn n =>
    rw [filterMap_isIn fun _ => rfl]
    exact List.flatMap_singleton' _
  | between => rfl
  | compare op => rfl

theorem names_clause (c : FieldRef × Test) (first : Nat) :
    (c.1.pieces ++ c.2.pieces first).filterMap Piece.name? = [c.1.ident.name] := by
  have htest : (c.2.pieces first).filterMap Piece.name? = [] := by
    cases c.2 with
    | isNull b => cases b <;> rfl
    | isIn n =>
      rw [filterMap_isIn fun _ => rfl]
      exact List.flatMap_eq_nil_iff.mpr fun _ _ => rfl
    | between => rfl
    | compare op => rfl
  rw [List.filterMap_append, htest, List.append_nil]
  cases c.1 <;> rfl

theorem params_clausePieces (first : Nat) (cs : List (FieldRef × Test)) :
    (clausePieces first cs).flatMap (fun ps => ps.filterMap Piece.param?) =
      List.range' first (cs.map fun c => c.2.arity).sum := by
  induction cs generalizing first with
  | nil => rfl
  | cons c cs ih =>
    rw [clausePieces, List.flatMap_cons, params_clause, ih, List.map_cons, List.sum_cons, List.range'_append_1]

theorem names_clausePieces (first : Nat) (cs : List (FieldRef × Test)) :
    (clausePieces first cs).flatMap (fun ps => ps.filterMap Piece.name?) = cs.map fun c => c.1.ident.name := by
  induction cs generalizing first with
  | nil => rfl
  | cons c cs ih =>
    rw [clausePieces, List.flatMap_cons, names_clause, ih, List.map_cons, List.singleton_append]

/-- What a part of the statement that is read from every piece gives. -/
theorem filterMap_pieces {β : Type} {f : Piece → Option β} (hplain : ∀ s, f (.plain s) = none) (s : SelectQuery) :
    s.pieces.filterMap f = s.columns.flatMap (fun c => [Piece.quoted '\x22' c.name].filterMap f) ++
      ([Piece.quoted '\x22' s.table.name].filterMap f ++
        (clausePieces 1 s.clauses).flatMap fun ps => ps.filterMap f) := by
  have hsep : ∀ s, [Piece.plain s].filterMap f = [] := fun s => by
    rw [List.filterMap_cons_none (hplain s), List.filterMap_nil]
  have hcolumns : (columnPieces s.columns).filterMap f =
      s.columns.flatMap fun c => [Piece.quoted '\x22' c.name].filterMap f := by
    unfold columnPieces
    split
    · rename_i hempty
      rw [hsep, List.isEmpty_iff.mp hempty]
      rfl
    · rw [filterMap_intercalate (hsep _), List.flatMap_map]
  have hwhere : (wherePieces s.clauses).filterMap f = (clausePieces 1 s.clauses).flatMap fun ps => ps.filterMap f := by
    unfold wherePieces
    split
    · rename_i hempty
      rw [List.isEmpty_iff.mp hempty]
      rfl
    · rw [List.filterMap_cons_none (hplain _), filterMap_intercalate (hsep _)]
  rw [pieces, List.cons_append, List.cons_append, List.filterMap_cons_none (hplain _), List.filterMap_append,
    List.filterMap_append, hcolumns, hwhere, List.filterMap_cons_none (hplain _), List.append_assoc]

theorem params_pieces (s : SelectQuery) : s.pieces.filterMap Piece.param? = List.range' 1 s.arity := by
  rw [filterMap_pieces fun _ => rfl, params_clausePieces]
  have hcolumns : (s.columns.flatMap fun c => [Piece.quoted '\x22' c.name].filterMap Piece.param?) = [] :=
    List.flatMap_eq_nil_iff.mpr fun _ _ => rfl
  rw [hcolumns]
  rfl

theorem names_pieces (s : SelectQuery) : s.pieces.filterMap Piece.name? = s.idents.map Ident.name := by
  rw [filterMap_pieces fun _ => rfl, names_clausePieces, idents, List.map_append, List.map_cons, List.map_map]
  have hcolumns : (s.columns.flatMap fun c => [Piece.quoted '\x22' c.name].filterMap Piece.name?) =
      s.columns.map Ident.name := List.flatMap_pure_eq_map _ _
  rw [hcolumns]
  rfl

theorem eq_of_names {s s' : SelectQuery} (htable : s.table.name = s'.table.name)
    (hcolumns : s.columns.map Ident.name = s'.columns.map Ident.name)
    (hclauses : s.clauses.map (fun c => (c.1.name, c.2)) = s'.clauses.map fun c => (c.1.name, c.2)) : s = s' := by
  have hident : Function.Injective Ident.name := by
    intro i j heq
    cases i
    cases j
    cases heq
    rfl
  have hclause : Function.Injective fun c : FieldRef × Test => (c.1.name, c.2) := by
    intro c c' heq
    obtain ⟨hname, htest⟩ := Prod.mk.inj heq
    exact Prod.ext (FieldRef.name_inj hname) htest
  cases s
  cases s'
  dsimp only at htable hcolumns hclauses
  rw [hident htable, hident.list_map hcolumns, hclause.list_map hclauses]

end SelectQuery

theorem intercalate_ne_empty {sep : String} {ts : List String} (hts : ts ≠ []) (h : ∀ t ∈ ts, t ≠ "") :
    sep.intercalate ts ≠ "" := by
  intro heq
  rcases ts with _ | ⟨t, _ | ⟨t', ts⟩⟩
  · exact hts rfl
  · rw [String.intercalate_singleton] at heq
    exact h t List.mem_cons_self heq
  · rw [String.intercalate_cons_cons, String.append_eq_empty_iff, String.append_eq_empty_iff] at heq
    exact h t List.mem_cons_self heq.1.1

theorem text_clause_ne (r : FieldRef) (t : Test) (first : Nat) : text (r.pieces ++ t.pieces first) ≠ [] := by
  cases r <;> simp [text, Piece.text, FieldRef.pieces]

theorem text_ne_of_mem {first : Nat} {cs : List (FieldRef × Test)} {ps : List Piece} (h : ps ∈ clausePieces first cs) :
    text ps ≠ [] := by
  induction cs generalizing first with
  | nil => exact absurd h List.not_mem_nil
  | cons c cs ih =>
    rcases List.mem_cons.mp h with rfl | h
    · exact text_clause_ne c.1 c.2 first
    · exact ih h

theorem toList_where {ts : List String} {clauses : List (FieldRef × Test)}
    (hts : ts.map String.toList = (clausePieces 1 clauses).map text) (sql : String) :
    (if ts.foldl (joined " AND ") "" = "" then sql else sql ++ " WHERE " ++ ts.foldl (joined " AND ") "").toList =
      sql.toList ++ text (SelectQuery.wherePieces clauses) := by
  have hne : ∀ t ∈ ts, t ≠ "" := by
    rintro t ht rfl
    have hmem : "".toList ∈ (clausePieces 1 clauses).map text := hts ▸ List.mem_map_of_mem ht
    obtain ⟨ps, hps, heq⟩ := List.mem_map.mp hmem
    exact text_ne_of_mem hps heq
  rw [joined_foldl hne, SelectQuery.wherePieces]
  cases clauses with
  | nil =>
    rw [List.map_eq_nil_iff.mp hts, String.intercalate_nil, if_pos rfl, List.isEmpty_nil, if_pos rfl]
    exact (List.append_nil _).symm
  | cons c cs =>
    have hcons : ts ≠ [] := by
      rintro rfl
      cases hts
    have hsep : text [.plain " AND "] = " AND ".toList := by simp [text, Piece.text]
    rw [if_neg (intercalate_ne_empty hcons hne), if_neg (by simp), String.toList_append, String.toList_append,
      String.toList_intercalate, hts, ← hsep, ← text_intercalate]
    simp [text, Piece.text]

variable (dump) in
theorem whereClause_eq {filter : Json} (h : validateFilterDsl filter constraints = .ok ()) :
    ∃ (ts : List String) (clauses : List (FieldRef × Test)),
      whereClause dump filter = some (ts.foldl (joined " AND ") "",
        ⟨(compared filter).map (scalarToBindText dump), 1 + (compared filter).length⟩) ∧
      ts.map String.toList = (clausePieces 1 clauses).map text ∧
      clauses.map (fun c => (c.1.name, c.2)) = (entries filter).map (fun e => (e.1, testOf e.2.1 e.2.2)) ∧
      (clauses.map fun c => c.2.arity).sum = (compared filter).length := by
  rcases validateFilterDsl_ok h with rfl | ⟨fields, rfl, haccepted⟩
  · exact ⟨[], [], rfl, rfl, rfl, rfl⟩
  · obtain ⟨ts, clauses, hfold, hrest⟩ := foldlM_addClause dump haccepted.names haccepted.values "" {}
    refine ⟨ts, clauses, ?_, hrest⟩
    rw [whereClause, foldlM_fieldClauses haccepted.conditions, hfold]
    rfl

theorem buildQueryFromFilterDsl_ok {table : String} {filter : Json} {columns : List String} {q : CompiledQuery}
    (h : buildQueryFromFilterDsl dump table filter columns constraints = some (.ok q)) :
    ∃ s : SelectQuery, s.table.name = table ∧ s.columns.map Ident.name = columns ∧
      s.clauses.map (fun c => (c.1.name, c.2)) = (entries filter).map (fun e => (e.1, testOf e.2.1 e.2.2)) ∧
      s.arity = (compared filter).length ∧ q.sql.toList = text s.pieces ∧
      q.bindParams = (compared filter).map (scalarToBindText dump) := by
  unfold buildQueryFromFilterDsl at h
  split at h
  · rename_i htable
    split at h
    · cases h
    · rename_i hfilter
      obtain ⟨ts, clauses, hwhere, hts, hclauses, harity⟩ := whereClause_eq dump hfilter
      split at h
      · cases h
      · rename_i colList hcolumns
        obtain ⟨idents, hidents, hcols⟩ := columnList_ok hcolumns
        rw [hwhere, Option.map_some] at h
        obtain rfl := Except.ok.inj (Option.some.inj h)
        refine ⟨⟨idents, ⟨table, htable⟩, clauses⟩, rfl, hidents, hclauses, harity, ?_, rfl⟩
        rw [toList_where hts, SelectQuery.pieces, text_append]
        simp [text, Piece.text, quoteIdent, hcols]
  · cases h

/-! ## Filters that differ in the compared scalars -/

theorem length_eraseItems (vs : List Json) : (eraseItems vs).length = vs.length := by
  induction vs with
  | nil => rfl
  | cons v vs ih => rw [eraseItems, List.length_cons, List.length_cons, ih]

theorem testOf_blank (op : String) (val : Json) :
    testOf op (if op = "is_null" then val else eraseScalars val) = testOf op val := by
  unfold testOf
  split
  · rfl
  · split
    · cases val with
      | arr vs => exact congrArg Test.isIn (length_eraseItems vs)
      | _ => rfl
    · rfl

theorem tests_blank (filter : Json) : (entries (blank filter)).map (fun e => (e.1, testOf e.2.1 e.2.2)) =
    (entries filter).map fun e => (e.1, testOf e.2.1 e.2.2) := by
  cases filter with
  | obj fields =>
    rw [blank, entries, entries, List.flatMap_map, List.map_flatMap, List.map_flatMap]
    refine List.flatMap_congr fun f _ => ?_
    cases f.2 with
    | obj ops =>
      rw [List.map_map, List.map_map, List.map_map]
      refine List.map_congr_left fun c _ => ?_
      exact congrArg (Prod.mk f.1) (testOf_blank c.1 c.2)
    | _ => rfl
  | _ => rfl

theorem scalarToBindText_of_scalar {v : Json} {t : String} (h : scalarText dump v = some t) :
    scalarToBindText dump v = t := by
  cases v with
  | str s | bool b | int n | float q => exact Option.some.inj h
  | _ => cases h

/-- The statement is a SELECT of the columns from the table, with one test for each operator of each field. Read from
the left, its text gives back its pieces: every name is an identifier between quotes, and the placeholders are those of
the parameters, in their order. A parameter whose value is a scalar is the text of it; the text of the statement
does not depend on the scalars that are compared. -/
theorem build_writes_select {table : String} {filter : Json} {columns : List String} {q : CompiledQuery}
    (h : buildQueryFromFilterDsl dump table filter columns constraints = some (.ok q)) :
    ∃ s : SelectQuery, s.table.name = table ∧ s.columns.map Ident.name = columns ∧
      s.clauses.map (fun c => (c.1.name, c.2)) = (entries filter).map (fun e => (e.1, testOf e.2.1 e.2.2)) ∧
      q.sql.toList = text s.pieces ∧ marks q.sql.toList = s.pieces.flatMap Piece.marks ∧
      names q.sql.toList = s.idents.map (fun i => i.name.toList) ∧
      placeholders q.sql.toList = (List.range' 1 q.bindParams.length).map (Nat.toDigits 10) ∧
      q.bindParams.length = (compared filter).length ∧
      (∀ (i : Nat) (v : Json) (t : String), (compared filter)[i]? = some v → scalarText dump v = some t →
        q.bindParams[i]? = some t) ∧
      ∀ filter' q', buildQueryFromFilterDsl dump table filter' columns constraints = some (.ok q') →
        blank filter' = blank filter → q'.sql = q.sql := by
  obtain ⟨s, htable, hcolumns, hclauses, harity, hsql, hparams⟩ := buildQueryFromFilterDsl_ok h
  have hlength : q.bindParams.length = (compared filter).length := by rw [hparams, List.length_map]
  refine ⟨s, htable, hcolumns, hclauses, hsql, ?_, ?_, ?_, hlength, fun i v t hv ht => ?_,
    fun filter' q' h' hblank => ?_⟩
  · rw [hsql, marks_text s.wellFormed]
  · rw [hsql, names_text s.wellFormed, s.names_pieces, List.map_map]
    rfl
  · rw [hsql, placeholders_text s.wellFormed, s.params_pieces, harity, hlength]
  · rw [hparams, List.getElem?_map, hv, Option.map_some, scalarToBindText_of_scalar ht]
  · obtain ⟨s', htable', hcolumns', hclauses', -, hsql', -⟩ := buildQueryFromFilterDsl_ok h'
    have htests := tests_blank filter'
    rw [hblank, tests_blank filter] at htests
    have hsame : s' = s := by
      refine SelectQuery.eq_of_names (htable'.trans htable.symm) (hcolumns'.trans hcolumns.symm) ?_
      rw [hclauses', hclauses, htests]
    rw [hsame] at hsql'
    exact String.toList_inj.mp (hsql'.trans hsql.symm)

theorem build_writes_select_in :
    ∃ s : SelectQuery, s.table.name = "t" ∧ s.columns.map Ident.name = ["b"] ∧
      names "SELECT \"b\" FROM \"t\" WHERE \"a\" IN ($1, $2)".toList = s.idents.map (fun i => i.name.toList) ∧
      placeholders "SELECT \"b\" FROM \"t\" WHERE \"a\" IN ($1, $2)".toList =
        (List.range' 1 2).map (Nat.toDigits 10) := by
  obtain ⟨s, htable, hcolumns, -, -, -, hnames, hplaceholders, -⟩ := @build_writes_select (fun _ => "null") {} "t"
    (.obj [("a", .obj [("in", .arr [.str "x", .str "y"])])]) ["b"]
    ⟨"SELECT \"b\" FROM \"t\" WHERE \"a\" IN ($1, $2)", ["x", "y"]⟩ (by decide +kernel)
  exact ⟨s, htable, hcolumns, hnames, hplaceholders⟩

def nullFilter (b : Bool) : Json := .obj [("a", .obj [("is_null", .bool b)])]

/-- Two filters that differ in a boolean: `is_null` writes it into the statement and binds no parameter. A null that is
compared is bound as its serialization. -/
theorem is_null_written :
    (eraseScalars (nullFilter true) = eraseScalars (nullFilter false) ∧
      buildQueryFromFilterDsl (fun _ => "null") "t" (nullFilter true) [] {} =
        some (.ok ⟨"SELECT * FROM \"t\" WHERE \"a\" IS NULL", []⟩) ∧
      buildQueryFromFilterDsl (fun _ => "null") "t" (nullFilter false) [] {} =
        some (.ok ⟨"SELECT * FROM \"t\" WHERE \"a\" IS NOT NULL", []⟩)) ∧
    buildQueryFromFilterDsl (fun _ => "null") "t" (.obj [("a", .obj [("eq", .null)])]) [] {} =
      some (.ok ⟨"SELECT * FROM \"t\" WHERE \"a\" = $1", ["null"]⟩) := by
  refine ⟨⟨rfl, ?_, ?_⟩, ?_⟩ <;> decide +kernel

end Cortrix.Import
