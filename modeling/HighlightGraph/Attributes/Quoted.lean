import HighlightGraph.Json.Quoted
/-!
# Quoted attribute values

Values stand between quotes as in JSON, but for the line escapes of labels: a backslash before `l`,
`n` or `r` ends a line there and must reach the drawing program as it was given. Writing therefore
takes back the second backslash before these letters, and reading puts the one before `l` back.
-/

namespace HighlightGraph.Attributes.Quoted

/-! ## Writing -/

/-- Whether a text begins with a backslash and a letter that ends a line: to the left, centred, or
to the right. -/
def startsLineEscape : List Char → Bool
  | '\\' :: c :: _ => c = 'l' || c = 'n' || c = 'r'
  | _ => false

/-- Takes out every backslash that stands right before a line escape. -/
def undouble : List Char → List Char
  | [] => []
  | c :: rest => if c = '\\' && startsLineEscape rest then undouble rest else c :: undouble rest

def encode (cs : List Char) : List Char := undouble (Json.quote cs)

/-! ## Reading -/

/-- Splits a text whose opening quote has been read after the closing quote. A backslash keeps the
character after it from closing. -/
def delimit : List Char → Option (List Char × List Char)
  | [] => none
  | c :: rest =>
    if c = '"' then some ([c], rest)
    else if c = '\\' then
      match rest with
      | [] => none
      | d :: after => (delimit after).map fun r => (c :: d :: r.1, r.2)
    else (delimit rest).map fun r => (c :: r.1, r.2)

/-- Doubles the backslash before `l` where it is not itself escaped. `escaping` says that an odd
number of backslashes stands right before. -/
def redouble (escaping : Bool) : List Char → List Char
  | [] => []
  | c :: rest =>
    if c = '\\' then c :: redouble (!escaping) rest
    else if c = 'l' && escaping then '\\' :: c :: redouble false rest
    else c :: redouble false rest

def decode (literal : List Char) : Except Json.Fault (List Char) :=
  let redoubled := redouble false literal
  (Json.readString redoubled (redoubled.drop 1)).map Prod.fst

end HighlightGraph.Attributes.Quoted
