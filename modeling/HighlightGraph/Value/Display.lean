import HighlightGraph.Number.Shortest
import HighlightGraph.Text.Printable
import HighlightGraph.Json.Quoted
import HighlightGraph.Value.Basic
/-!
# Texts of values

The text that a value has as a name, and the notation of values inside lists and maps, where texts
stand between quotes.
-/

namespace HighlightGraph

def DoubleSpelling.display : DoubleSpelling := ⟨"inf", "nan"⟩

namespace Text

/-- The quote that encloses a displayed text: the single one, unless only the double one spares
escapes. -/
def displayQuote (cs : List Char) : Char :=
  if cs.contains '\'' && !cs.contains '"' then '"' else '\''

def displayChar (quote c : Char) : List Char :=
  if c = quote ∨ c = '\\' then ['\\', c]
  else if c = '\n' then ['\\', 'n']
  else if c = '\r' then ['\\', 'r']
  else if c = '\t' then ['\\', 't']
  else if isPrintable c then [c]
  else if c.toNat ≤ 0xff then '\\' :: 'x' :: Json.hexDigits 2 c.toNat
  else if c.toNat ≤ 0xffff then '\\' :: 'u' :: Json.hexDigits 4 c.toNat
  else '\\' :: 'U' :: Json.hexDigits 8 c.toNat

def display (cs : List Char) : List Char :=
  let quote := displayQuote cs
  quote :: (cs.flatMap (displayChar quote) ++ [quote])

def displayString (s : String) : String := String.ofList (display s.toList)

end Text

def decimal (n : Int) : String :=
  String.ofList ((if n < 0 then ['-'] else []) ++ Nat.toDigits 10 n.natAbs)

namespace Value

mutual

def display : Value → String
  | null => "None"
  | bool b => if b then "True" else "False"
  | int n => decimal n
  | float x => x.text .display
  | str s => Text.displayString s
  | markup s => "RawMarkup(text=" ++ Text.displayString s ++ ")"
  | list items => "[" ++ displayItems items ++ "]"
  | map entries => "\x7b" ++ displayEntries entries ++ "\x7d"

def displayItems : List Value → String
  | [] => ""
  | [v] => v.display
  | v :: rest => v.display ++ ", " ++ displayItems rest

def displayEntries : List (Value × Value) → String
  | [] => ""
  | [(k, v)] => k.display ++ ": " ++ v.display
  | (k, v) :: rest => k.display ++ ": " ++ v.display ++ ", " ++ displayEntries rest

end

def text : Value → String
  | str s => s
  | markup s => s
  | v => v.display

end Value

end HighlightGraph
