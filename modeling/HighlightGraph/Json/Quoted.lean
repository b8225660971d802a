import HighlightGraph.Json.Fault
/-!
# Quoted strings of JSON

Writing a text between double quotes and reading it back. Characters outside ASCII stand for
themselves; `\u` escapes are read as UTF-16 code units, so that two of them can make one character.
-/

namespace HighlightGraph.Json

/-! ## Writing -/

/-- A number in base sixteen, filled up with zeros to a width. -/
def hexDigits (width n : Nat) : List Char :=
  let digits := Nat.toDigits 16 n
  List.replicate (width - digits.length) '0' ++ digits

def escape (c : Char) : List Char :=
  if c = '"' then ['\\', '"']
  else if c = '\\' then ['\\', '\\']
  else if c = '\n' then ['\\', 'n']
  else if c = '\r' then ['\\', 'r']
  else if c = '\t' then ['\\', 't']
  else if c = '\x08' then ['\\', 'b']
  else if c = '\x0c' then ['\\', 'f']
  else if c.toNat < 0x20 then '\\' :: 'u' :: hexDigits 4 c.toNat
  else [c]

def quote (cs : List Char) : List Char :=
  '"' :: (cs.flatMap escape ++ ['"'])

/-! ## Reading -/

def hexDigit? (c : Char) : Option Nat :=
  if '0' ≤ c ∧ c ≤ '9' then some (c.toNat - '0'.toNat)
  else if 'a' ≤ c ∧ c ≤ 'f' then some (c.toNat - 'a'.toNat + 10)
  else if 'A' ≤ c ∧ c ≤ 'F' then some (c.toNat - 'A'.toNat + 10)
  else none

def hexUnit? (a b c d : Char) : Option Nat :=
  match hexDigit? a, hexDigit? b, hexDigit? c, hexDigit? d with
  | some a, some b, some c, some d => some (((a * 16 + b) * 16 + c) * 16 + d)
  | _, _, _, _ => none

/-- What a letter after a backslash stands for, but for `u`. -/
def unescape? (c : Char) : Option Char :=
  if c = '"' ∨ c = '\\' ∨ c = '/' then some c
  else if c = 'n' then some '\n'
  else if c = 'r' then some '\r'
  else if c = 't' then some '\t'
  else if c = 'b' then some '\x08'
  else if c = 'f' then some '\x0c'
  else none

/-- Reads up to the closing quote: the code points and code units between the quotes, and what
follows. `opening` is the text from the opening quote on, where a missing end is reported. An
escape of a code unit needs one more character behind its digits. -/
def readUnits (opening : List Char) : List Char → Except Fault (List Nat × List Char)
  | [] => .error ⟨.unterminatedString, opening⟩
  | c :: rest =>
    if c = '"' then .ok ([], rest)
    else if c = '\\' then
      match rest with
      | [] => .error ⟨.unterminatedString, opening⟩
      | letter :: after =>
        if letter = 'u' then
          match after with
          | d₁ :: d₂ :: d₃ :: d₄ :: following =>
            match hexUnit? d₁ d₂ d₃ d₄, following.isEmpty with
            | some code, false => (readUnits opening following).map fun r => (code :: r.1, r.2)
            | _, _ => .error ⟨.invalidUnicodeEscape, letter :: after⟩
          | _ => .error ⟨.invalidUnicodeEscape, letter :: after⟩
        else
          match unescape? letter with
          | some d => (readUnits opening after).map fun r => (d.toNat :: r.1, r.2)
          | none => .error ⟨.invalidEscape, c :: rest⟩
    else if c.toNat < 0x20 then .error ⟨.controlCharacter, c :: rest⟩
    else (readUnits opening rest).map fun r => (c.toNat :: r.1, r.2)

def isHighSurrogate (code : Nat) : Bool := 0xd800 ≤ code && code < 0xdc00

def isLowSurrogate (code : Nat) : Bool := 0xdc00 ≤ code && code < 0xe000

/-- The characters of a sequence of code points and code units, after a first half of a surrogate
pair that waits for its second half. Halves without their other half are replaced. -/
def joinUnits : (pending : Option Nat) → List Nat → List Char
  | none, [] => []
  | some _, [] => ['\ufffd']
  | none, code :: rest =>
    if isHighSurrogate code then joinUnits (some code) rest
    else if isLowSurrogate code then '\ufffd' :: joinUnits none rest
    else Char.ofNat code :: joinUnits none rest
  | some high, code :: rest =>
    if isLowSurrogate code then
      Char.ofNat (0x10000 + (high - 0xd800) * 0x400 + (code - 0xdc00)) :: joinUnits none rest
    else if isHighSurrogate code then '\ufffd' :: joinUnits (some code) rest
    else '\ufffd' :: Char.ofNat code :: joinUnits none rest

def readString (opening rest : List Char) : Except Fault (List Char × List Char) :=
  (readUnits opening rest).map fun r => (joinUnits none r.1, r.2)

end HighlightGraph.Json
