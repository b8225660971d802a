import HighlightGraph.Misfit
import HighlightGraph.Value.Key
/-!
# Items of values

Values taken apart: the items of a list, the characters of a text, the keys of a map; and tables
made of pairs of a key and a value.
-/

namespace HighlightGraph.Value

def items : Value → Except Misfit (List Value)
  | list items => .ok items
  | str s => .ok (s.toList.map fun c => str (String.singleton c))
  | map entries => .ok (entries.map Prod.fst)
  | _ => .error .notASequence

/-- Stores pairs into the entries of a map. `index` counts the pairs that are already stored. -/
def storePairs (index : Nat) (entries : List (Value × Value)) :
    List Value → Except Misfit (List (Value × Value))
  | [] => .ok entries
  | pair :: rest =>
    match pair.items with
    | .error e => .error e
    | .ok [k, v] =>
      match k.key? with
      | some key => storePairs (index + 1) (storeKey k key v entries) rest
      | none => .error .notAKey
    | .ok parts => .error (.pairLength index parts.length)

/-- A value as a table: a map as it is, anything else by its items, which are pairs then. -/
def toTable (v : Value) : Except Misfit (List (Value × Value)) :=
  match v with
  | map entries => .ok entries
  | _ =>
    match v.items with
    | .ok pairs => storePairs 0 [] pairs
    | .error e => .error e

end HighlightGraph.Value
