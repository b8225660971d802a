import HighlightGraph.Attributes.Basic
import HighlightGraph.Attributes.Quoted
import HighlightGraph.Number.Numeral
import HighlightGraph.Text.Blank
import HighlightGraph.Value.Display
/-!
# Reading attributes

Attribute texts are read item by item: a name, an equals sign and a value, with blanks, semicolons
and commas between the items. Brackets around the whole text are optional.
-/

namespace HighlightGraph.Attributes

/-! ## Refusals -/

inductive Lack where
  | name
  | value (name : String)
  | closingQuote
  | closingBracket

/-- Why an attribute text is refused. A lack and a faulty literal come with the text from their
place on, a fault inside a literal with the literal as it was decoded. -/
inductive Refusal where
  | lack (cause : Lack) (rest : List Char)
  | literal (fault : Json.Fault) (document : List Char)
  | oversized (n : OversizedInteger)

structure ReadError where
  refusal : Refusal
  body : List Char

def ReadError.message (error : ReadError) : String :=
  match error.refusal with
  | .lack cause rest =>
    let offset := error.body.length - rest.length
    match cause with
    | .name =>
      s!"Expected attribute name at {offset}: {String.ofList (Text.display (rest.take 20))}"
    | .value name => s!"Expected attribute value for {Text.displayString name} at {offset}"
    | .closingQuote => s!"Unterminated string starting at {offset}"
    | .closingBracket => s!"Unbalanced markup starting at {offset}"
  | .literal fault document => fault.message document
  | .oversized n => n.message

/-! ## Tokens -/

def isNameStart (c : Char) : Bool := c.isAlpha || c = '_'

def isNameChar (c : Char) : Bool := isNameStart c || c.isDigit

def isWordChar (c : Char) : Bool := isNameChar c || c = '.'

def isSeparator (c : Char) : Bool := Text.isBlank c || c = ';' || c = ','

def skipSeparators (cs : List Char) : List Char := cs.dropWhile isSeparator

def skipBlanks (cs : List Char) : List Char := cs.dropWhile Text.isBlank

def readName? (cs : List Char) : Option (String × List Char) :=
  match skipBlanks cs with
  | [] => none
  | c :: rest =>
    if isNameStart c then
      match skipBlanks (rest.dropWhile isNameChar) with
      | '=' :: after => some (String.ofList (c :: rest.takeWhile isNameChar), skipBlanks after)
      | _ => none
    else none

def readPlaces? (cs : List Char) : Option (List Nat × Option (List Nat) × List Char) :=
  match Numeral.splitDigits Text.isDigit cs with
  | ([], '.' :: rest) =>
    match Numeral.splitDigits Text.isDigit rest with
    | ([], _) => none
    | (fraction, after) => some ([], some fraction, after)
  | ([], _) => none
  | (whole, '.' :: rest) =>
    let (fraction, after) := Numeral.splitDigits Text.isDigit rest
    some (whole, some fraction, after)
  | (whole, after) => some (whole, none, after)

def readNumeral? (cs : List Char) : Option (Numeral × List Char) :=
  let (negative, unsigned) := Numeral.readMinus cs
  (readPlaces? unsigned).map fun (whole, fraction, after) =>
    let (exponent, rest) := Numeral.readExponent Text.isDigit after
    (⟨negative, whole, fraction, exponent⟩, rest)

def readWord? : List Char → Option (List Char × List Char)
  | [] => none
  | c :: rest =>
    if isNameStart c then some (c :: rest.takeWhile isWordChar, rest.dropWhile isWordChar)
    else none

def wordValue (word : String) : Value :=
  if word = "true" then .bool true
  else if word = "false" then .bool false
  else .str word

/-- Splits a text after the bracket that closes the markup at its front. `depth` counts the
brackets that are open. -/
def splitMarkup (depth : Nat) : List Char → Option (List Char × List Char)
  | [] => none
  | c :: rest =>
    if c = '<' then (splitMarkup (depth + 1) rest).map fun r => (c :: r.1, r.2)
    else if c = '>' then
      if depth = 1 then some ([c], rest)
      else (splitMarkup (depth - 1) rest).map fun r => (c :: r.1, r.2)
    else (splitMarkup depth rest).map fun r => (c :: r.1, r.2)

/-! ## Items -/

def readValue (name : String) (cs : List Char) : Except Refusal (Value × List Char) :=
  match cs with
  | [] => .error (.lack (.value name) cs)
  | c :: rest =>
    if c = '"' then
      match Quoted.delimit rest with
      | none => .error (.lack .closingQuote cs)
      | some (inside, after) =>
        match Quoted.decode (c :: inside) with
        | .error fault => .error (.literal fault (Quoted.redouble false (c :: inside)))
        | .ok text => .ok (.str (String.ofList text), after)
    else if c = '<' then
      match splitMarkup 0 cs with
      | none => .error (.lack .closingBracket cs)
      | some (markup, after) => .ok (.markup (String.ofList markup), after)
    else
      match readNumeral? cs with
      | some (numeral, after) =>
        match numeral.value with
        | .error n => .error (.oversized n)
        | .ok v => .ok (v, after)
      | none =>
        match readWord? cs with
        | some (word, after) => .ok (wordValue (String.ofList word), after)
        | none => .error (.lack (.value name) cs)

def readItem (cs : List Char) : Except Refusal ((String × Value) × List Char) :=
  match readName? cs with
  | none => .error (.lack .name cs)
  | some (name, rest) =>
    (readValue name rest).map fun (value, after) => ((name, value), skipSeparators after)

/-! ### What an item leaves is shorter -/

theorem length_skipBlanks_le (cs : List Char) : (skipBlanks cs).length ≤ cs.length :=
  (List.dropWhile_sublist _).length_le

theorem length_skipSeparators_le (cs : List Char) : (skipSeparators cs).length ≤ cs.length :=
  (List.dropWhile_sublist _).length_le

theorem length_readName?_lt {cs rest : List Char} {name : String}
    (h : readName? cs = some (name, rest)) : rest.length < cs.length := by
  unfold readName? at h
  have h₀ := length_skipBlanks_le cs
  split at h
  · cases h
  · next c tail hc =>
    rw [hc, List.length_cons] at h₀
    split at h
    · split at h
      · next after ha =>
        obtain ⟨_, rfl⟩ := Prod.mk.inj (Option.some.inj h)
        have h₁ := length_skipBlanks_le (tail.dropWhile isNameChar)
        have h₂ := length_skipBlanks_le after
        have h₃ : (tail.dropWhile isNameChar).length ≤ tail.length :=
          (List.dropWhile_sublist _).length_le
        rw [ha, List.length_cons] at h₁
        omega
      · cases h
    · cases h

theorem length_delimit_le {cs inside after : List Char}
    (h : Quoted.delimit cs = some (inside, after)) : after.length ≤ cs.length := by
  fun_induction Quoted.delimit cs generalizing inside after with
  | case1 => cases h
  | case2 rest =>
    obtain ⟨_, rfl⟩ := Prod.mk.inj (Option.some.inj h)
    simp
  | case3 => cases h
  | case4 d rest _ ih =>
    obtain ⟨r, hr, he⟩ := Option.map_eq_some_iff.1 h
    obtain ⟨_, rfl⟩ := Prod.mk.inj he
    have := ih hr
    simp only [List.length_cons]
    omega
  | case5 c rest _ _ ih =>
    obtain ⟨r, hr, he⟩ := Option.map_eq_some_iff.1 h
    obtain ⟨_, rfl⟩ := Prod.mk.inj he
    have := ih hr
    simp only [List.length_cons]
    omega

theorem length_splitMarkup_le {depth : Nat} {cs inside after : List Char}
    (h : splitMarkup depth cs = some (inside, after)) : after.length ≤ cs.length := by
  induction cs generalizing depth inside after with
  | nil => cases h
  | cons c rest ih =>
    unfold splitMarkup at h
    have step : ∀ {d : Nat},
        (splitMarkup d rest).map (fun r => (c :: r.1, r.2)) = some (inside, after) →
          after.length ≤ rest.length := by
      intro d hd
      obtain ⟨r, hr, he⟩ := Option.map_eq_some_iff.1 hd
      obtain ⟨_, rfl⟩ := Prod.mk.inj he
      exact ih hr
    have : after.length ≤ rest.length := by
      split at h
      · exact step h
      · split at h
        · split at h
          · obtain ⟨_, rfl⟩ := Prod.mk.inj (Option.some.inj h)
            exact Nat.le_refl _
          · exact step h
        · exact step h
    simp only [List.length_cons]
    omega

theorem length_readPlaces?_le {cs after : List Char} {whole : List Nat}
    {fraction : Option (List Nat)} (h : readPlaces? cs = some (whole, fraction, after)) :
    after.length ≤ cs.length := by
  have h₀ := Numeral.length_splitDigits_le Text.isDigit cs
  unfold readPlaces? at h
  split at h
  · next rest hs =>
    rw [hs, List.length_cons] at h₀
    have h₁ := Numeral.length_splitDigits_le Text.isDigit rest
    split at h
    · cases h
    · next hf =>
      rw [hf] at h₁
      cases h
      exact Nat.le_trans h₁ (by omega)
  · cases h
  · next rest _ hs =>
    rw [hs, List.length_cons] at h₀
    have h₁ := Numeral.length_splitDigits_le Text.isDigit rest
    cases h
    exact Nat.le_trans h₁ (by omega)
  · next hs =>
    rw [hs] at h₀
    cases h
    exact h₀

theorem length_readNumeral?_le {cs after : List Char} {numeral : Numeral}
    (h : readNumeral? cs = some (numeral, after)) : after.length ≤ cs.length := by
  unfold readNumeral? at h
  obtain ⟨⟨whole, fraction, rest⟩, hp, he⟩ := Option.map_eq_some_iff.1 h
  obtain ⟨_, rfl⟩ := Prod.mk.inj he
  have h₁ := length_readPlaces?_le hp
  have h₂ := Numeral.length_readExponent_le Text.isDigit rest
  exact Nat.le_trans h₂ (Nat.le_trans h₁ (Numeral.length_readMinus_le cs))

theorem length_readWord?_le {cs word after : List Char} (h : readWord? cs = some (word, after)) :
    after.length ≤ cs.length := by
  unfold readWord? at h
  split at h
  · cases h
  · next c rest =>
    split at h
    · cases h
      exact Nat.le_trans (List.dropWhile_sublist _).length_le (Nat.le_succ _)
    · cases h

theorem length_readValue_le {name : String} {cs after : List Char} {v : Value}
    (h : readValue name cs = .ok (v, after)) : after.length ≤ cs.length := by
  unfold readValue at h
  split at h
  · cases h
  · next c rest =>
    split at h
    · split at h
      · cases h
      · next hd =>
        split at h
        · cases h
        · cases h
          exact Nat.le_trans (length_delimit_le hd) (Nat.le_succ _)
    · split at h
      · split at h
        · cases h
        · next hm =>
          cases h
          exact length_splitMarkup_le hm
      · split at h
        · next hn =>
          split at h
          · cases h
          · cases h
            exact length_readNumeral?_le hn
        · split at h
          · next hw =>
            cases h
            exact length_readWord?_le hw
          · cases h

theorem length_readItem_lt {cs after : List Char} {item : String × Value}
    (h : readItem cs = .ok (item, after)) : after.length < cs.length := by
  unfold readItem at h
  split at h
  · cases h
  · next name rest hn =>
    cases hv : readValue name rest with
    | error e =>
      rw [hv] at h
      cases h
    | ok r =>
      rw [hv] at h
      cases h
      exact Nat.lt_of_le_of_lt (Nat.le_trans (length_skipSeparators_le _) (length_readValue_le hv))
        (length_readName?_lt hn)

/-! ## Texts -/

def readItems (cs : List Char) : Except Refusal (List (String × Value)) :=
  if cs.isEmpty then .ok []
  else
    match _h : readItem cs with
    | .error refusal => .error refusal
    | .ok (item, rest) => (readItems rest).map (item :: ·)
termination_by cs.length
decreasing_by exact length_readItem_lt _h

def unbracket (cs : List Char) : List Char :=
  match cs with
  | '[' :: rest => if rest.getLast? = some ']' then rest.dropLast else cs
  | _ => cs

/-- Reads an attribute text. A name that comes again keeps its first place and its last value. -/
def parse (text : String) : Except ReadError Attributes :=
  let body := unbracket (Text.trim text.toList)
  match readItems (skipSeparators body) with
  | .ok items => .ok (Table.ofList items)
  | .error refusal => .error ⟨refusal, body⟩

end HighlightGraph.Attributes
