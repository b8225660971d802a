/-!
# Values that do not fit

Values are kept as they were given and checked where they are used; these are the causes for
which a use is refused.
-/

namespace HighlightGraph

/-- Why a value does not fit its use. -/
inductive Misfit where
  /-- Entries are asked of a value that is no map. -/
  | notAMap
  /-- A value that is no map is laid over another map. -/
  | notAnOverlay
  /-- Items are asked of a value that has none. -/
  | notASequence
  /-- The item at an index has a length other than that of a key with its value. -/
  | pairLength (index length : Nat)
  /-- A list or a map is used as a key. -/
  | notAKey
  /-- A text is needed. -/
  | notAText
  /-- There is no setting of this name. -/
  | unknownSetting (name : String)
  /-- An attribute has the name of one of the arguments that come before it. -/
  | reservedName (name : String)
deriving DecidableEq

def Misfit.message? : Misfit → Option String
  | pairLength index length => some <|
    s!"dictionary update sequence element #{index} has length {length}; 2 is required"
  | _ => none

end HighlightGraph
