import HighlightGraph.Value.Basic
/-!
# Values as keys

What makes two values the same key. Truth values and numbers of both kinds are compared by exact
value, so that 1, 1.0 and true are one key; a text and a markup never are; a not-a-number is the
same key only as itself; lists and maps are no keys.
-/

namespace HighlightGraph

inductive Key where
  | null
  | number (value : Dyadic)
  | infinite (negative : Bool)
  | nan (mark : Nat)
  | text (s : String)
  | markup (s : String)
deriving DecidableEq

namespace Value

def keyOfDouble : Double → Key
  | .finite negative m =>
    let value := Dyadic.ofIntWithPrec m.significand (-m.exponent)
    .number (if negative then -value else value)
  | .infinite negative => .infinite negative
  | .nan mark => .nan mark

def key? : Value → Option Key
  | null => some .null
  | bool b => some (.number (if b then 1 else 0))
  | int n => some (.number (Dyadic.ofIntWithPrec n 0))
  | float x => some (keyOfDouble x)
  | str s => some (.text s)
  | markup s => some (.markup s)
  | list _ => none
  | map _ => none

def lookupKey (k : Key) : List (Value × Value) → Option Value
  | [] => none
  | (other, v) :: rest => if other.key? = some k then some v else lookupKey k rest

/-- The entries of a map with a value stored under a key: in place, where the key keeps its first
spelling, or at the end. -/
def storeKey (spelling : Value) (k : Key) (v : Value) : List (Value × Value) → List (Value × Value)
  | [] => [(spelling, v)]
  | (other, w) :: rest =>
    if other.key? = some k then (other, v) :: rest else (other, w) :: storeKey spelling k v rest

end Value

namespace Key

/-- Whether two keys compare as different. A not-a-number differs even from itself. -/
def differs (a b : Key) : Bool :=
  match a with
  | nan _ => true
  | _ => a ≠ b

end Key

end HighlightGraph
