import HighlightGraph.Attributes.Format
import HighlightGraph.Misfit
/-!
# Printing JSON

Values as indented JSON text. Markup is printed as a string, and keys that are numbers or truth
values by the text that they have as values.
-/

namespace HighlightGraph.Json

def quoted (s : String) : String := String.ofList (quote s.toList)

def keyName : Value → Except Misfit String
  | .str s => .ok s
  | .null => .ok "null"
  | .bool b => .ok (if b then "true" else "false")
  | .int n => .ok (decimal n)
  | .float x => .ok (x.text .document)
  | _ => .error .notAKey

def newLine (depth : Nat) : String := "\n" ++ String.ofList (List.replicate (2 * depth) ' ')

def enclose (opening closing : String) (depth : Nat) (parts : List String) : String :=
  if parts.isEmpty then opening ++ closing
  else
    opening ++ newLine (depth + 1) ++ ("," ++ newLine (depth + 1)).intercalate parts ++
      newLine depth ++ closing

mutual

def print (depth : Nat) : Value → Except Misfit String
  | .null => .ok "null"
  | .bool b => .ok (if b then "true" else "false")
  | .int n => .ok (decimal n)
  | .float x => .ok (x.text .document)
  | .str s => .ok (quoted s)
  | .markup s => .ok (quoted s)
  | .list items => (printItems (depth + 1) items).map (enclose "[" "]" depth)
  | .map entries => (printEntries (depth + 1) entries).map (enclose "\x7b" "\x7d" depth)

def printItems (depth : Nat) : List Value → Except Misfit (List String)
  | [] => .ok []
  | v :: rest => do
    let item ← print depth v
    return item :: (← printItems depth rest)

def printEntries (depth : Nat) : List (Value × Value) → Except Misfit (List String)
  | [] => .ok []
  | (k, v) :: rest => do
    let name ← keyName k
    let text ← print depth v
    return (quoted name ++ ": " ++ text) :: (← printEntries depth rest)

end

end HighlightGraph.Json
