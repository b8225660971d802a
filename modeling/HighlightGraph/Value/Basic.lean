import HighlightGraph.Number.Double
/-!
# Values

The values that attributes, options and names can have: those of JSON, and markup, a text that is
written without quotes.
-/

namespace HighlightGraph

/-- A value. The entries of a map stand in insertion order. -/
inductive Value where
  | null
  | bool (b : Bool)
  | int (n : Int)
  | float (x : Double)
  | str (s : String)
  | markup (text : String)
  | list (items : List Value)
  | map (entries : List (Value × Value))

namespace Value

instance : Inhabited Value := ⟨null⟩

/-- Whether a value counts as given: null, false, zero and the empty text, list and map do not. -/
def isGiven : Value → Bool
  | null => false
  | bool b => b
  | int n => n ≠ 0
  | float x => !x.isZero
  | str s => s ≠ ""
  | markup _ => true
  | list items => !items.isEmpty
  | map entries => !entries.isEmpty

def ofFields (fields : List (String × Value)) : Value :=
  map (fields.map fun field => (str field.1, field.2))

def fieldsOf? : List (Value × Value) → Option (List (String × Value))
  | [] => some []
  | (str key, v) :: rest => (fieldsOf? rest).map ((key, v) :: ·)
  | _ :: _ => none

theorem fieldsOf?_map (fields : List (String × Value)) :
    fieldsOf? (fields.map fun field => (str field.1, field.2)) = some fields := by
  induction fields with
  | nil => rfl
  | cons field rest ih => simp [fieldsOf?, ih]

end Value

end HighlightGraph
