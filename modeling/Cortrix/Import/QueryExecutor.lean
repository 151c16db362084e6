import Cortrix.Common.Json
import Cortrix.Common.Status

/-!
# The filter compiler

`BuildQueryFromFilterDsl`: a table, a list of columns and a filter in JSON become a parameterized SELECT.

* `validateFilterDsl` : the filters that are accepted, with the error of the first part that is not;
* `buildQueryFromFilterDsl` : the statement; `none` where the source reads a JSON value of the wrong kind.

The text of a JSON value (`dump`) is a parameter.
-/

namespace Cortrix.Import
open Lib

def isBareIdentifier (s : String) : Bool :=
  match s.toList with
  | [] => false
  | c :: cs => (c.isAlpha || c == '_') && cs.all fun c => c.isAlphanum || c == '_'

/-- `IsMetadataField`, with the subkey. -/
def metadataSubkey (s : String) : Option String :=
  if "metadata.".toList.isPrefixOf s.toList then
    let subkey := String.ofList (s.toList.drop "metadata.".toList.length)
    if isBareIdentifier subkey then some subkey else none
  else none

def quoteIdent (ident : String) : String := "\"" ++ ident ++ "\""

structure FilterDslConstraints where
  allowedOperators : List String := ["eq", "ne", "gt", "gte", "lt", "lte", "in", "between", "like", "is_null"]
  /-- Empty: any name. -/
  allowedFields : List String := []

structure CompiledQuery where
  sql : String
  bindParams : List String
  deriving DecidableEq

def invalidSql (detail : String) : Status := ⟨.invalidArgument, "CX_ERR_F16A_INVALID_SQL: " ++ detail⟩

/-! ## The accepted filters -/

def validateValue (op : String) (val : Json) : Except Status Unit :=
  if op = "in" then
    match val with
    | .arr (_ :: _) => .ok ()
    | _ => .error (invalidSql "'in' operator requires a non-empty array")
  else if op = "between" then
    match val with
    | .arr [_, _] => .ok ()
    | _ => .error (invalidSql "'between' operator requires a [lo, hi] array")
  else if op = "is_null" then
    match val with
    | .bool _ => .ok ()
    | _ => .error (invalidSql "'is_null' operator requires a boolean")
  else
    match val with
    | .obj _ => .error (invalidSql ("operator '" ++ op ++ "' requires a scalar value"))
    | .arr _ => .error (invalidSql ("operator '" ++ op ++ "' requires a scalar value"))
    | _ => .ok ()

theorem validateValue_in {val : Json} : validateValue "in" val = .ok () ↔ ∃ v vs, val = .arr (v :: vs) := by
  unfold validateValue
  rw [if_pos rfl]
  split
  · rename_i v vs
    exact iff_of_true rfl ⟨v, vs, rfl⟩
  · rename_i hne
    refine iff_of_false (by simp) ?_
    rintro ⟨v, vs, rfl⟩
    exact hne v vs rfl

theorem validateValue_between {val : Json} : validateValue "between" val = .ok () ↔ ∃ lo hi, val = .arr [lo, hi] := by
  unfold validateValue
  rw [if_neg (by decide), if_pos rfl]
  split
  · rename_i lo hi
    exact iff_of_true rfl ⟨lo, hi, rfl⟩
  · rename_i hne
    refine iff_of_false (by simp) ?_
    rintro ⟨lo, hi, rfl⟩
    exact hne lo hi rfl

theorem validateValue_is_null {val : Json} : validateValue "is_null" val = .ok () ↔ ∃ b, val = .bool b := by
  unfold validateValue
  rw [if_neg (by decide), if_neg (by decide), if_pos rfl]
  split
  · rename_i b
    exact iff_of_true rfl ⟨b, rfl⟩
  · rename_i hne
    refine iff_of_false (by simp) ?_
    rintro ⟨b, rfl⟩
    exact hne b rfl

def validateOperator (constraints : FilterDslConstraints) (op : String) (val : Json) : Except Status Unit :=
  if op ∈ constraints.allowedOperators then validateValue op val
  else .error (invalidSql ("filter operator not allowed: " ++ op))

def validateCondition (constraints : FilterDslConstraints) (cond : Json) : Except Status Unit :=
  match cond with
  | .obj (c :: cs) => (c :: cs).forM fun c => validateOperator constraints c.1 c.2
  | _ => .error (invalidSql "filter condition must be a non-empty \x7bop: value\x7d object")

def validateField (constraints : FilterDslConstraints) (field : String) (cond : Json) : Except Status Unit :=
  let isMeta := (metadataSubkey field).isSome
  if !isMeta && !isBareIdentifier field then
    .error (invalidSql ("filter field is not a valid identifier: " ++ field))
  else if !isMeta && !constraints.allowedFields.isEmpty && !constraints.allowedFields.contains field then
    .error (invalidSql ("filter field is not in the allowlist: " ++ field))
  else validateCondition constraints cond

def validateFilterDsl (filter : Json) (constraints : FilterDslConstraints) : Except Status Unit :=
  match filter with
  | .null => .ok ()
  | .obj fields => fields.forM fun f => validateField constraints f.1 f.2
  | _ => .error (invalidSql "filter must be a JSON object")

/-! ## The statement -/

variable (dump : Json → String)

def scalarToBindText (v : Json) : String :=
  match v with
  | .str s => s
  | .bool b => if b then "true" else "false"
  | v => dump v

def sqlOperator (op : String) : String :=
  if op = "eq" then "="
  else if op = "ne" then "<>"
  else if op = "gt" then ">"
  else if op = "gte" then ">="
  else if op = "lt" then "<"
  else if op = "lte" then "<="
  else if op = "like" then "LIKE"
  else "="

def lhsExpr (field : String) : String :=
  match metadataSubkey field with
  | some subkey => "(metadata->>'" ++ subkey ++ "')"
  | none => quoteIdent field

/-- `if (!s.empty()) s += sep; s += t`. -/
def joined (sep s t : String) : String := if s = "" then t else s ++ sep ++ t

/-- The parameters so far, and the number of the next one. -/
structure Params where
  bindParams : List String := []
  paramIdx : Nat := 1

def addParam (v : Json) (p : Params) : String × Params :=
  ("$" ++ toString p.paramIdx,
    { bindParams := p.bindParams ++ [scalarToBindText dump v], paramIdx := p.paramIdx + 1 })

def inPlaceholders (items : List Json) (p : Params) : String × Params :=
  items.foldl (fun s e => let r := addParam dump e s.2; (joined ", " s.1 r.1, r.2)) ("", p)

def clause (field op : String) (val : Json) (p : Params) : Option (String × Params) :=
  let lhs := lhsExpr field
  if op = "is_null" then
    match val with
    | .bool b => some (lhs ++ (if b then " IS NULL" else " IS NOT NULL"), p)
    | _ => none
  else if op = "in" then
    match val with
    | .arr items =>
      let r := inPlaceholders dump items p
      some (lhs ++ " IN (" ++ r.1 ++ ")", r.2)
    | _ => none
  else if op = "between" then
    match val with
    | .arr (lo :: hi :: _) =>
      let r := addParam dump lo p
      let r' := addParam dump hi r.2
      some (lhs ++ " BETWEEN " ++ r.1 ++ " AND " ++ r'.1, r'.2)
    | _ => none
  else
    let r := addParam dump val p
    some (lhs ++ " " ++ sqlOperator op ++ " " ++ r.1, r.2)

def fieldClauses (s : String × Params) (field : String) (cond : Json) : Option (String × Params) :=
  match cond with
  | .obj ops => ops.foldlM (fun s c => (clause dump field c.1 c.2 s.2).map fun r => (joined " AND " s.1 r.1, r.2)) s
  | _ => none

def whereClause (filter : Json) : Option (String × Params) :=
  match filter with
  | .obj fields => fields.foldlM (fun s f => fieldClauses dump s f.1 f.2) ("", {})
  | _ => some ("", {})

def addColumn (s c : String) : Except Status String :=
  if isBareIdentifier c then .ok (joined ", " s (quoteIdent c))
  else .error (invalidSql ("column is not a valid identifier: " ++ c))

def columnList (columns : List String) : Except Status String :=
  if columns.isEmpty then .ok "*" else columns.foldlM addColumn ""

def buildQueryFromFilterDsl (table : String) (filter : Json) (columns : List String)
    (constraints : FilterDslConstraints) : Option (Except Status CompiledQuery) :=
  if isBareIdentifier table then
    match validateFilterDsl filter constraints with
    | .error e => some (.error e)
    | .ok _ =>
      match columnList columns with
      | .error e => some (.error e)
      | .ok colList => (whereClause dump filter).map fun r =>
        let sql := "SELECT " ++ colList ++ " FROM " ++ quoteIdent table
        .ok { sql := if r.1 = "" then sql else sql ++ " WHERE " ++ r.1, bindParams := r.2.bindParams }
  else some (.error (invalidSql ("table is not a valid identifier: " ++ table)))

end Cortrix.Import
