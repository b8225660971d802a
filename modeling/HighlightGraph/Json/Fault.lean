/-!
# Faults in JSON text

What can be wrong with a JSON text, where it is wrong, and how this is said.
-/

namespace HighlightGraph.Json

inductive Cause where
  | byteOrderMark
  | expectingValue
  | expectingName
  | expectingColon
  | expectingComma
  | extraData
  | unterminatedString
  | invalidEscape
  | invalidUnicodeEscape
  | controlCharacter
deriving DecidableEq

def Cause.message : Cause → String
  | byteOrderMark => "Unexpected UTF-8 BOM (decode using utf-8-sig)"
  | expectingValue => "Expecting value"
  | expectingName => "Expecting property name enclosed in double quotes"
  | expectingColon => "Expecting ':' delimiter"
  | expectingComma => "Expecting ',' delimiter"
  | extraData => "Extra data"
  | unterminatedString => "Unterminated string starting at"
  | invalidEscape => "Invalid \\escape"
  | invalidUnicodeEscape => "Invalid \\uXXXX escape"
  | controlCharacter => "Invalid control character at"

/-- A fault: its cause, and the text from the place where it stands to the end. -/
structure Fault where
  cause : Cause
  rest : List Char
deriving DecidableEq

/-- The line and the column of an offset, both counted from one. -/
def location (document : List Char) (offset : Nat) : Nat × Nat :=
  let before := document.take offset
  (before.count '\n' + 1, (before.reverse.takeWhile (· ≠ '\n')).length + 1)

def Fault.offset (fault : Fault) (document : List Char) : Nat :=
  document.length - fault.rest.length

def Fault.message (fault : Fault) (document : List Char) : String :=
  let offset := fault.offset document
  let (line, column) := location document offset
  s!"{fault.cause.message}: line {line} column {column} (char {offset})"

end HighlightGraph.Json
