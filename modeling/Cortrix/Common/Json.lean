import Cortrix.Lib.Table

/-!
# JSON objects
-/

namespace Cortrix
open Lib

inductive Json
  | null
  | bool (b : Bool)
  | int (n : Int)
  | float (q : Rat)
  | str (s : String)
  | arr (items : List Json)
  | obj (fields : List (String × Json))

abbrev Metadata := List (String × Json)

namespace Metadata

def getKey (key : String) (m : Metadata) : Option Json := (lookup Prod.fst key m).map Prod.snd

def setKey (key : String) (value : Json) (m : Metadata) : Metadata := upsertRow Prod.fst (key, value) m

/-- A text key; `""` when it is missing or no text. -/
def jsonStr (m : Metadata) (key : String) : String :=
  match getKey key m with
  | some (.str s) => s
  | _ => ""

def overlay (top m : Metadata) : Metadata := top.foldl (fun m kv => setKey kv.1 kv.2 m) m

theorem getKey_setKey (k k' : String) (v : Json) (m : Metadata) :
    getKey k' (setKey k v m) = if k' = k then some v else getKey k' m := by
  unfold getKey setKey
  rw [lookup_upsertRow]
  split <;> rfl

theorem jsonStr_setKey_ne {k key : String} {v : Json} {m : Metadata} (h : key ≠ k) :
    jsonStr (setKey k v m) key = jsonStr m key := by
  unfold jsonStr
  rw [getKey_setKey, if_neg h]

theorem jsonStr_setKey (k s : String) (m : Metadata) : jsonStr (setKey k (.str s) m) k = s := by
  unfold jsonStr
  rw [getKey_setKey, if_pos rfl]

end Metadata

/-- A text as it is bound to a statement: it ends at the first NUL. -/
def cText (s : String) : String := String.ofList (s.toList.takeWhile (· ≠ '\x00'))

end Cortrix
