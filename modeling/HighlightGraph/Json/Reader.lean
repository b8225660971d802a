import HighlightGraph.Json.Quoted
import HighlightGraph.Number.Numeral
import HighlightGraph.Table
/-!
# Reading JSON

JSON documents as values. The names `NaN`, `Infinity` and `-Infinity` are numbers here, and a name
that comes again in an object keeps its first place and takes its last value.
-/

namespace HighlightGraph.Json

inductive Refusal where
  | fault (fault : Fault)
  | oversized (n : OversizedInteger)
deriving DecidableEq

/-! ## Tokens -/

def isSpace (c : Char) : Bool := c = ' ' || c = '\t' || c = '\n' || c = '\r'

def skipSpace (cs : List Char) : List Char := cs.dropWhile isSpace

def words : List (String × Value) :=
  [("null", .null), ("true", .bool true), ("false", .bool false), ("NaN", .float (.nan 0)),
    ("Infinity", .float (.infinite false)), ("-Infinity", .float (.infinite true))]

def readWord? (cs : List Char) : Option (Value × List Char) :=
  (words.find? fun word => word.1.toList.isPrefixOf cs).map fun word =>
    (word.2, cs.drop word.1.length)

/-- Reads the digits before the point. A zero stands on its own. -/
def readWhole? (cs : List Char) : Option (List Nat × List Char) :=
  match cs with
  | '0' :: rest => some ([0], rest)
  | _ =>
    match Numeral.splitDigits Char.isDigit cs with
    | ([], _) => none
    | (whole, after) => some (whole, after)

def readFraction (cs : List Char) : Option (List Nat) × List Char :=
  match cs with
  | '.' :: rest =>
    match Numeral.splitDigits Char.isDigit rest with
    | ([], _) => (none, cs)
    | (fraction, after) => (some fraction, after)
  | _ => (none, cs)

def readNumeral? (cs : List Char) : Option (Numeral × List Char) :=
  let (negative, unsigned) := Numeral.readMinus cs
  (readWhole? unsigned).map fun (whole, rest) =>
    let (fraction, rest) := readFraction rest
    let (exponent, rest) := Numeral.readExponent Char.isDigit rest
    (⟨negative, whole, fraction, exponent⟩, rest)

def readScalar (cs : List Char) : Except Refusal (Value × List Char) :=
  match readWord? cs with
  | some r => .ok r
  | none =>
    match readNumeral? cs with
    | none => .error (.fault ⟨.expectingValue, cs⟩)
    | some (numeral, rest) =>
      match numeral.value with
      | .ok v => .ok (v, rest)
      | .error n => .error (.oversized n)

def readName (cs : List Char) : Except Refusal (String × List Char) :=
  match cs with
  | [] => .error (.fault ⟨.expectingName, cs⟩)
  | c :: rest =>
    if c = '"' then
      match readString cs rest with
      | .ok (text, after) => .ok (String.ofList text, after)
      | .error fault => .error (.fault fault)
    else .error (.fault ⟨.expectingName, cs⟩)

def readColon (cs : List Char) : Except Refusal (List Char) :=
  match skipSpace cs with
  | ':' :: rest => .ok (skipSpace rest)
  | rest => .error (.fault ⟨.expectingColon, rest⟩)

def object (members : List (String × Value)) : Value := .ofFields (Table.ofList members).entries

/-! ## Values -/

mutual

/-- Reads a value. The fuel bounds the number of steps down to it. -/
def readValue : (fuel : Nat) → List Char → Except Refusal (Value × List Char)
  | 0, cs => .error (.fault ⟨.expectingValue, cs⟩)
  | fuel + 1, cs =>
    match cs with
    | [] => .error (.fault ⟨.expectingValue, cs⟩)
    | c :: rest =>
      if c = '"' then (readName cs).map fun r => (.str r.1, r.2)
      else if c = '[' then
        match skipSpace rest with
        | ']' :: after => .ok (.list [], after)
        | first => (readItems fuel first).map fun r => (.list r.1, r.2)
      else if c = '\x7b' then
        match skipSpace rest with
        | '\x7d' :: after => .ok (.map [], after)
        | first => (readMembers fuel first).map fun r => (object r.1, r.2)
      else readScalar cs

def readItems : (fuel : Nat) → List Char → Except Refusal (List Value × List Char)
  | 0, cs => .error (.fault ⟨.expectingValue, cs⟩)
  | fuel + 1, cs =>
    match readValue fuel cs with
    | .error e => .error e
    | .ok (v, rest) =>
      match skipSpace rest with
      | ']' :: after => .ok ([v], after)
      | ',' :: after => (readItems fuel (skipSpace after)).map fun r => (v :: r.1, r.2)
      | after => .error (.fault ⟨.expectingComma, after⟩)

def readMembers : (fuel : Nat) → List Char → Except Refusal (List (String × Value) × List Char)
  | 0, cs => .error (.fault ⟨.expectingName, cs⟩)
  | fuel + 1, cs =>
    match readName cs with
    | .error e => .error e
    | .ok (name, rest) =>
      match readColon rest with
      | .error e => .error e
      | .ok rest =>
        match readValue fuel rest with
        | .error e => .error e
        | .ok (v, rest) =>
          match skipSpace rest with
          | '\x7d' :: after => .ok ([(name, v)], after)
          | ',' :: after =>
            (readMembers fuel (skipSpace after)).map fun r => ((name, v) :: r.1, r.2)
          | after => .error (.fault ⟨.expectingComma, after⟩)

end

/-- Reads a whole document. Two steps at most lie between two characters, so that the fuel is
never used up. -/
def read (document : List Char) : Except Refusal Value :=
  if document.head? = some '\ufeff' then .error (.fault ⟨.byteOrderMark, document⟩)
  else
    match readValue (2 * document.length + 2) (skipSpace document) with
    | .error e => .error e
    | .ok (v, rest) =>
      match skipSpace rest with
      | [] => .ok v
      | after => .error (.fault ⟨.extraData, after⟩)

end HighlightGraph.Json
