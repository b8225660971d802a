import HighlightGraph.Proofs.Json.Values
/-!
# Printed values read back

A printed value is read back but for what its text does not show: markup comes back as text, and
keys come back as their names, of which the last one wins.
-/

namespace HighlightGraph

/-- The values that are printed and read back: their keys have names, and their integers are not
too long to be read. -/
inductive Value.Writable : Value → Prop
  | null : Writable .null
  | bool (b : Bool) : Writable (.bool b)
  | int {n : Int} (h : (Nat.toDigits 10 n.natAbs).length ≤ maxIntegerDigits) : Writable (.int n)
  | float (x : Double) : Writable (.float x)
  | str (s : String) : Writable (.str s)
  | markup (s : String) : Writable (.markup s)
  | list {items : List Value} (h : ∀ v ∈ items, Writable v) : Writable (.list items)
  | map {entries : List (Value × Value)}
      (hkeys : ∀ entry ∈ entries, (Json.keyName entry.1).isOk = true)
      (h : ∀ entry ∈ entries, Writable entry.2) : Writable (.map entries)

theorem Value.Writable.ofFields {fields : List (String × Value)}
    (h : ∀ field ∈ fields, field.2.Writable) : (Value.ofFields fields).Writable := by
  refine .map ?_ ?_
  · intro entry hentry
    obtain ⟨field, -, rfl⟩ := List.mem_map.1 hentry
    rfl
  · intro entry hentry
    obtain ⟨field, hfield, rfl⟩ := List.mem_map.1 hentry
    exact h field hfield

namespace Json

/-! ## What is read back -/

def nameOf (k : Value) : String := (keyName k).toOption.getD ""

def rereadDouble (x : Double) : Double :=
  match readScalar (x.text .document).toList with
  | .ok (.float y, _) => y
  | _ => x

mutual

/-- The value that the text of a value is read as. -/
def reread : Value → Value
  | .float x => .float (rereadDouble x)
  | .markup s => .str s
  | .list items => .list (rereadItems items)
  | .map entries => object (rereadMembers entries)
  | v => v

def rereadItems : List Value → List Value
  | [] => []
  | v :: rest => reread v :: rereadItems rest

def rereadMembers : List (Value × Value) → List (String × Value)
  | [] => []
  | (k, v) :: rest => (nameOf k, reread v) :: rereadMembers rest

end

theorem rereadItems_eq_map (items : List Value) : rereadItems items = items.map reread := by
  induction items with
  | nil => rfl
  | cons v rest ih => rw [rereadItems, ih, List.map_cons]

theorem rereadMembers_eq_map (entries : List (Value × Value)) :
    rereadMembers entries = entries.map fun entry => (nameOf entry.1, reread entry.2) := by
  induction entries with
  | nil => rfl
  | cons entry rest ih => rw [rereadMembers, ih, List.map_cons]

/-! ## Space and what follows it -/

def firstChars : List Char := ['"', '[', '\x7b', '-', 'n', 't', 'f', 'N', 'I']

def beginsValue (c : Char) : Bool := c.isDigit || firstChars.contains c

theorem beginsValue_spec {c : Char} (h : beginsValue c = true) :
    isSpace c = false ∧ c ≠ ']' ∧ c ≠ '\x7d' ∧ c ≠ '\ufeff' := by
  have hfresh : ∀ d : Char, beginsValue d = false → c ≠ d := by
    rintro d hd rfl
    rw [h] at hd
    cases hd
  refine ⟨?_, hfresh ']' (by decide), hfresh '\x7d' (by decide), hfresh '\ufeff' (by decide)⟩
  simp only [isSpace, Bool.or_eq_false_iff, decide_eq_false_iff_not]
  exact ⟨⟨⟨hfresh ' ' (by decide), hfresh '\t' (by decide)⟩, hfresh '\n' (by decide)⟩,
    hfresh '\r' (by decide)⟩

theorem skipSpace_of_beginsValue {c : Char} (h : beginsValue c = true) (rest : List Char) :
    skipSpace (c :: rest) = c :: rest :=
  List.dropWhile_cons_of_neg (by simp [(beginsValue_spec h).1])

/-- The characters of the line end before a part, with its indentation. -/
theorem toList_newLine (depth : Nat) :
    (newLine depth).toList = '\n' :: List.replicate (2 * depth) ' ' := by
  rw [newLine, String.toList_append, String.toList_ofList, String.toList_ofList]
  rfl

theorem skipSpace_newLine (depth : Nat) (rest : List Char) :
    skipSpace ((newLine depth).toList ++ rest) = skipSpace rest := by
  rw [toList_newLine, skipSpace, skipSpace, List.dropWhile_append_of_pos]
  intro c hc
  rcases List.mem_cons.1 hc with rfl | hc
  · rfl
  · rw [List.eq_of_mem_replicate hc]
    rfl

theorem endsBefore_cons {c : Char} (hc : c = ',' ∨ c = '\n') (rest : List Char) :
    Numeral.EndsBefore (c :: rest) := by
  rintro d ⟨⟩
  rcases hc with rfl | rfl <;> decide

theorem endsBefore_newLine (depth : Nat) (rest : List Char) :
    Numeral.EndsBefore ((newLine depth).toList ++ rest) := by
  rw [toList_newLine]
  exact endsBefore_cons (.inr rfl) _

/-! ## Texts that are read as values -/

/-- Whether a reader makes something of a text, in front of anything that ends a numeral. -/
structure ReadBy {β : Type} (reader : Nat → List Char → Except Refusal (β × List Char))
    (text : String) (b : β) : Prop where
  starts : ∃ c cs, text.toList = c :: cs ∧ beginsValue c = true
  reads : ∀ {fuel : Nat} {rest : List Char}, text.toList.length ≤ fuel →
    Numeral.EndsBefore rest → reader fuel (text.toList ++ rest) = .ok (b, rest)

abbrev ReadsAs (text : String) (v : Value) : Prop := ReadBy readValue text v

theorem ReadBy.skipSpace_eq {β : Type}
    {reader : Nat → List Char → Except Refusal (β × List Char)} {text : String} {b : β}
    (h : ReadBy reader text b) (rest : List Char) :
    skipSpace (text.toList ++ rest) = text.toList ++ rest := by
  obtain ⟨c, cs, hcs, hc⟩ := h.starts
  rw [hcs, List.cons_append, skipSpace_of_beginsValue hc]

/-- A text that is read as a value is a document of it, also with a line end behind it. -/
theorem read_of_readsAs {text : String} {v : Value} (h : ReadsAs text v) {rest : List Char}
    (hrest : Numeral.EndsBefore rest) (hspace : skipSpace rest = []) :
    read (text.toList ++ rest) = .ok v := by
  have hmark : (text.toList ++ rest).head? ≠ some '\ufeff' := by
    obtain ⟨c, cs, hcs, hc⟩ := h.starts
    rw [hcs]
    exact fun heq => (beginsValue_spec hc).2.2.2 (Option.some.inj heq)
  have hfuel : text.toList.length ≤ 2 * (text.toList ++ rest).length + 2 := by
    rw [List.length_append]
    omega
  rw [read, if_neg hmark, h.skipSpace_eq, h.reads hfuel hrest]
  dsimp only
  rw [hspace]

theorem readsAs_scalar {text : String} {v : Value}
    (hstarts : ∃ c cs, text.toList = c :: cs ∧
      (c.isDigit = true ∨ c ∈ ['-', 'n', 't', 'f', 'N', 'I']))
    (hreads : ∀ rest, Numeral.EndsBefore rest →
      readScalar (text.toList ++ rest) = .ok (v, rest)) : ReadsAs text v := by
  obtain ⟨c, cs, hcs, hc⟩ := hstarts
  have hstart : beginsValue c = true ∧ c ≠ '"' ∧ c ≠ '[' ∧ c ≠ '\x7b' := by
    rcases hc with hc | hc
    · refine ⟨by rw [beginsValue, hc, Bool.true_or], ?_⟩
      refine ⟨?_, ?_, ?_⟩ <;> rintro rfl <;> revert hc <;> decide
    · have hall : ∀ c ∈ ['-', 'n', 't', 'f', 'N', 'I'],
          beginsValue c = true ∧ c ≠ '"' ∧ c ≠ '[' ∧ c ≠ '\x7b' := by
        simp only [List.forall_mem_cons]
        exact ⟨by decide, by decide, by decide, by decide, by decide, by decide, nofun⟩
      exact hall c hc
  obtain ⟨hbegins, hquote, hbracket, hbrace⟩ := hstart
  refine ⟨⟨c, cs, hcs, hbegins⟩, fun {fuel rest} hfuel hrest => ?_⟩
  have hread := hreads rest hrest
  rw [hcs, List.length_cons] at hfuel
  rw [hcs, List.cons_append] at hread ⊢
  obtain ⟨fuel, rfl⟩ : ∃ n, fuel = n + 1 := ⟨fuel - 1, by omega⟩
  rw [readValue, if_neg hquote, if_neg hbracket, if_neg hbrace, hread]

/-! ## Scalars -/

theorem readsAs_quoted (s : String) : ReadsAs (quoted s) (.str s) where
  starts := ⟨'"', _, (toList_quoted s).trans (List.append_nil _).symm, rfl⟩
  reads {fuel rest} hfuel _ := by
    have hlength : 0 < (quoted s).toList.length := by
      rw [toList_quoted]
      exact Nat.succ_pos _
    obtain ⟨fuel, rfl⟩ : ∃ n, fuel = n + 1 := ⟨fuel - 1, by omega⟩
    rw [toList_quoted, readValue_quote, String.ofList_toList]

theorem readsAs_bool (b : Bool) : ReadsAs (if b then "true" else "false") (.bool b) := by
  refine readsAs_scalar ?_ fun rest _ => readScalar_bool b rest
  cases b
  · exact ⟨'f', _, rfl, .inr (by decide)⟩
  · exact ⟨'t', _, rfl, .inr (by decide)⟩

theorem readsAs_decimal {n : Int} (hn : (Nat.toDigits 10 n.natAbs).length ≤ maxIntegerDigits) :
    ReadsAs (decimal n) (.int n) := by
  refine readsAs_scalar ?_ fun rest hrest => readScalar_decimal hn hrest
  obtain ⟨c, cs, hcs, hc⟩ := Attributes.decimal_eq_cons n
  exact ⟨c, cs, hcs, hc.symm.imp id (by rintro rfl; decide)⟩

theorem readsAs_double (x : Double) : ReadsAs (x.text .document) (.float (rereadDouble x)) := by
  obtain ⟨y, hy⟩ := readScalar_double x
  have hreread : rereadDouble x = y := by
    have hread := hy [] nofun
    rw [List.append_nil] at hread
    rw [rereadDouble, hread]
  rw [hreread]
  refine readsAs_scalar ?_ hy
  cases x with
  | finite negative m =>
      obtain ⟨whole, fraction, exponent, htext, ⟨⟨hne, hdigits⟩, -⟩, -⟩ := m.isDecimal_text.parts
      obtain ⟨c, cs, rfl⟩ := List.exists_cons_of_ne_nil hne
      rw [Double.text, String.toList_ofList, htext]
      cases negative
      · exact ⟨c, _, rfl, .inl (hdigits c List.mem_cons_self)⟩
      · exact ⟨'-', _, rfl, .inr (by decide)⟩
  | infinite negative =>
      cases negative
      · exact ⟨'I', _, rfl, .inr (by decide)⟩
      · exact ⟨'-', _, rfl, .inr (by decide)⟩
  | nan mark =>
      have htext : ((Double.nan mark).text .document).toList = "NaN".toList := rfl
      exact ⟨'N', _, htext, .inr (by decide)⟩

/-! ## Steps of the readers -/

def readMember (fuel : Nat) (cs : List Char) :
    Except Refusal ((String × Value) × List Char) := do
  let (name, named) ← readName cs
  let valued ← readColon named
  let (v, after) ← readValue fuel valued
  return ((name, v), after)

section Steps

variable {fuel : Nat} {cs after following rest : List Char}

theorem readItems_last {v : Value} (hread : readValue fuel cs = .ok (v, after))
    (hend : skipSpace after = ']' :: rest) : readItems (fuel + 1) cs = .ok ([v], rest) := by
  simp only [readItems, hread, hend]

theorem readItems_more {v : Value} {vs : List Value}
    (hread : readValue fuel cs = .ok (v, after)) (hcomma : skipSpace after = ',' :: following)
    (hrest : readItems fuel (skipSpace following) = .ok (vs, rest)) :
    readItems (fuel + 1) cs = .ok (v :: vs, rest) := by
  simp only [readItems, hread, hcomma, hrest]
  rfl

theorem readValue_list {c : Char} {vs : List Value} (hc : c ≠ ']')
    (hspace : skipSpace cs = c :: following)
    (hread : readItems fuel (c :: following) = .ok (vs, rest)) :
    readValue (fuel + 1) ('[' :: cs) = .ok (.list vs, rest) := by
  rw [readValue, if_neg (by decide), if_pos rfl, hspace]
  split
  · next heq => exact absurd (List.cons.inj heq).1 hc
  · rw [hread]
    rfl

theorem readValue_object {c : Char} {members : List (String × Value)} (hc : c ≠ '\x7d')
    (hspace : skipSpace cs = c :: following)
    (hread : readMembers fuel (c :: following) = .ok (members, rest)) :
    readValue (fuel + 1) ('\x7b' :: cs) = .ok (object members, rest) := by
  rw [readValue, if_neg (by decide), if_neg (by decide), if_pos rfl, hspace]
  split
  · next heq => exact absurd (List.cons.inj heq).1 hc
  · rw [hread]
    rfl

theorem readMembers_last {member : String × Value}
    (hread : readMember fuel cs = .ok (member, after))
    (hend : skipSpace after = '\x7d' :: rest) :
    readMembers (fuel + 1) cs = .ok ([member], rest) := by
  obtain ⟨⟨name, named⟩, hname, hread⟩ := bind_eq_ok hread
  obtain ⟨valued, hcolon, hread⟩ := bind_eq_ok hread
  obtain ⟨⟨v, left⟩, hvalue, hread⟩ := bind_eq_ok hread
  cases hread
  simp only [readMembers, hname, hcolon, hvalue, hend]

theorem readMembers_more {member : String × Value} {members : List (String × Value)}
    (hread : readMember fuel cs = .ok (member, after))
    (hcomma : skipSpace after = ',' :: following)
    (hrest : readMembers fuel (skipSpace following) = .ok (members, rest)) :
    readMembers (fuel + 1) cs = .ok (member :: members, rest) := by
  obtain ⟨⟨name, named⟩, hname, hread⟩ := bind_eq_ok hread
  obtain ⟨valued, hcolon, hread⟩ := bind_eq_ok hread
  obtain ⟨⟨v, left⟩, hvalue, hread⟩ := bind_eq_ok hread
  cases hread
  simp only [readMembers, hname, hcolon, hvalue, hcomma, hrest]
  rfl

end Steps

theorem readBy_member {text : String} {v : Value} (h : ReadsAs text v) (name : String) :
    ReadBy readMember (quoted name ++ ": " ++ text) (name, v) where
  starts := by
    rw [String.toList_append, String.toList_append, toList_quoted]
    exact ⟨'"', _, rfl, rfl⟩
  reads {fuel rest} hfuel hrest := by
    rw [String.toList_append, List.length_append] at hfuel
    have hread : readValue fuel (text.toList ++ rest) = .ok (v, rest) := h.reads (by omega) hrest
    have hcolon : readColon (':' :: ' ' :: (text.toList ++ rest)) = .ok (text.toList ++ rest) :=
      congrArg Except.ok (h.skipSpace_eq rest)
    have htext : (quoted name ++ ": " ++ text).toList ++ rest =
        quote name.toList ++ ':' :: ' ' :: (text.toList ++ rest) := by
      rw [String.toList_append, String.toList_append, List.append_assoc, List.append_assoc,
        toList_quoted]
      rfl
    rw [htext, readMember, readName_quote, String.ofList_toList]
    simp only [bind, Except.bind, hcolon, hread]
    rfl

/-! ## Parts between brackets -/

def joined (depth : Nat) (parts : List String) : String :=
  ("," ++ newLine depth).intercalate parts

theorem toList_joined_singleton (depth : Nat) (part : String) :
    (joined depth [part]).toList = part.toList := by
  rw [joined, String.intercalate_singleton]

theorem toList_joined_cons (depth : Nat) (part next : String) (parts : List String) :
    (joined depth (part :: next :: parts)).toList =
      part.toList ++ ',' :: ((newLine depth).toList ++ (joined depth (next :: parts)).toList) := by
  rw [joined, String.intercalate_cons_cons, String.toList_append, String.toList_append,
    String.toList_append, List.append_assoc, List.append_assoc]
  rfl

theorem joined_starts {part : String}
    (h : ∃ c cs, part.toList = c :: cs ∧ beginsValue c = true) (depth : Nat)
    (parts : List String) :
    ∃ c cs, (joined depth (part :: parts)).toList = c :: cs ∧ beginsValue c = true := by
  obtain ⟨c, cs, hcs, hc⟩ := h
  cases parts with
  | nil => exact ⟨c, cs, by rw [toList_joined_singleton, hcs], hc⟩
  | cons next parts =>
      rw [toList_joined_cons, hcs]
      exact ⟨c, _, rfl, hc⟩

theorem toList_enclose_cons (opening closing : String) (depth : Nat) (part : String)
    (parts : List String) :
    (enclose opening closing depth (part :: parts)).toList =
      opening.toList ++ ((newLine (depth + 1)).toList ++
        ((joined (depth + 1) (part :: parts)).toList ++
          ((newLine depth).toList ++ closing.toList))) := by
  rw [enclose, if_neg (by simp)]
  simp only [String.toList_append, List.append_assoc]
  rfl

section Parts

variable {β : Type} {reader : Nat → List Char → Except Refusal (β × List Char)}
  {readParts : Nat → List Char → Except Refusal (List β × List Char)} {closer : Char}
  (hlast : ∀ {fuel cs after rest b}, reader fuel cs = .ok (b, after) →
    skipSpace after = closer :: rest → readParts (fuel + 1) cs = .ok ([b], rest))
  (hmore : ∀ {fuel cs after following rest b bs}, reader fuel cs = .ok (b, after) →
    skipSpace after = ',' :: following → readParts fuel (skipSpace following) = .ok (bs, rest) →
    readParts (fuel + 1) cs = .ok (b :: bs, rest))
include hlast hmore

/-- Items and members are read one by one, up to the bracket that closes them. -/
theorem readParts_joined {depth : Nat} {closing rest : List Char}
    (hclosing : Numeral.EndsBefore closing) (hend : skipSpace closing = closer :: rest)
    {part : String} {b : β} {parts : List String} {bs : List β} (hpart : ReadBy reader part b)
    (hparts : List.Forall₂ (ReadBy reader) parts bs) {fuel : Nat}
    (hfuel : (joined depth (part :: parts)).toList.length < fuel) :
    readParts fuel ((joined depth (part :: parts)).toList ++ closing) = .ok (b :: bs, rest) := by
  obtain ⟨fuel, rfl⟩ : ∃ n, fuel = n + 1 := ⟨fuel - 1, by omega⟩
  induction hparts generalizing part b fuel with
  | nil =>
      rw [toList_joined_singleton] at hfuel ⊢
      exact hlast (hpart.reads (by omega) hclosing) hend
  | @cons next w parts bs hnext hparts ih =>
      rw [toList_joined_cons, List.length_append, List.length_cons, List.length_append] at hfuel
      obtain ⟨fuel, rfl⟩ : ∃ n, fuel = n + 1 := ⟨fuel - 1, by omega⟩
      have hrest := ih hnext fuel (by omega)
      obtain ⟨c, cs, hcs, hc⟩ := joined_starts hnext.starts depth parts
      rw [toList_joined_cons, List.append_assoc, List.cons_append, List.append_assoc]
      refine hmore (hpart.reads (by omega) (endsBefore_cons (.inl rfl) _)) rfl ?_
      rw [skipSpace_newLine, hcs, List.cons_append, skipSpace_of_beginsValue hc]
      rwa [hcs, List.cons_append] at hrest

/-- Parts between brackets, each on a line of its own, are read as what they are the parts of. -/
theorem readsAs_enclose {opening closing : String} {opener : Char} {whole : List β → Value}
    (hopening : opening.toList = [opener]) (hclosing : closing.toList = [closer])
    (hbegins : beginsValue opener = true) (hspace : isSpace closer = false)
    (hcloser : beginsValue closer = false)
    (hempty : ∀ {fuel rest},
      readValue (fuel + 1) (opener :: closer :: rest) = .ok (whole [], rest))
    (hfull : ∀ {fuel cs following rest} {c : Char} {bs}, c ≠ closer →
      skipSpace cs = c :: following → readParts fuel (c :: following) = .ok (bs, rest) →
      readValue (fuel + 1) (opener :: cs) = .ok (whole bs, rest))
    {parts : List String} {bs : List β} (h : List.Forall₂ (ReadBy reader) parts bs)
    (depth : Nat) : ReadsAs (enclose opening closing depth parts) (whole bs) := by
  cases h with
  | nil =>
      have htext : (enclose opening closing depth []).toList = [opener, closer] := by
        rw [enclose, if_pos (by rfl), String.toList_append, hopening, hclosing]
        rfl
      refine ⟨⟨opener, [closer], htext, hbegins⟩, fun {fuel rest} hfuel _ => ?_⟩
      rw [htext] at hfuel ⊢
      obtain ⟨fuel, rfl⟩ : ∃ n, fuel = n + 1 := ⟨fuel - 1, by simp at hfuel; omega⟩
      exact hempty
  | @cons part b parts bs hpart hparts =>
      have htext := toList_enclose_cons opening closing depth part parts
      rw [hopening, hclosing, List.singleton_append] at htext
      refine ⟨⟨opener, _, htext, hbegins⟩, fun {fuel rest} hfuel hrest => ?_⟩
      rw [htext] at hfuel ⊢
      simp only [List.length_cons, List.length_append] at hfuel
      obtain ⟨fuel, rfl⟩ : ∃ n, fuel = n + 1 := ⟨fuel - 1, by omega⟩
      have hend : skipSpace ((newLine depth).toList ++ closer :: rest) = closer :: rest := by
        rw [skipSpace_newLine, skipSpace, List.dropWhile_cons_of_neg (by simp [hspace])]
      have hread : readParts fuel ((joined (depth + 1) (part :: parts)).toList ++
          ((newLine depth).toList ++ closer :: rest)) = .ok (b :: bs, rest) :=
        readParts_joined hlast hmore (endsBefore_newLine depth _) hend hpart hparts (by omega)
      obtain ⟨c, cs, hcs, hc⟩ := joined_starts hpart.starts (depth + 1) parts
      have hne : c ≠ closer := by
        rintro rfl
        rw [hc] at hcloser
        cases hcloser
      simp only [List.cons_append, List.append_assoc, List.nil_append, hcs] at hread ⊢
      refine hfull hne ?_ hread
      rw [skipSpace_newLine, skipSpace_of_beginsValue hc]

end Parts

theorem readsAs_list {parts : List String} {vs : List Value}
    (h : List.Forall₂ ReadsAs parts vs) (depth : Nat) :
    ReadsAs (enclose "[" "]" depth parts) (.list vs) :=
  readsAs_enclose readItems_last readItems_more rfl rfl (by decide) (by decide) (by decide) rfl
    readValue_list h depth

theorem readsAs_object {parts : List String} {members : List (String × Value)}
    (h : List.Forall₂ (ReadBy readMember) parts members) (depth : Nat) :
    ReadsAs (enclose "\x7b" "\x7d" depth parts) (object members) :=
  readsAs_enclose readMembers_last readMembers_more rfl rfl (by decide) (by decide) (by decide) rfl
    readValue_object h depth

/-! ## Values -/

theorem exists_printItems {items : List Value} {depth : Nat}
    (h : ∀ v ∈ items, ∃ text, print depth v = .ok text ∧ ReadsAs text (reread v)) :
    ∃ parts, printItems depth items = .ok parts ∧
      List.Forall₂ ReadsAs parts (rereadItems items) := by
  induction items with
  | nil => exact ⟨[], rfl, .nil⟩
  | cons v rest ih =>
      rw [List.forall_mem_cons] at h
      obtain ⟨⟨text, htext, hreads⟩, hrest⟩ := h
      obtain ⟨parts, hparts, hreadsParts⟩ := ih hrest
      refine ⟨text :: parts, ?_, .cons hreads hreadsParts⟩
      rw [printItems, htext, hparts]
      rfl

theorem exists_printEntries {entries : List (Value × Value)} {depth : Nat}
    (hkeys : ∀ entry ∈ entries, (keyName entry.1).isOk = true)
    (h : ∀ entry ∈ entries, ∃ text, print depth entry.2 = .ok text ∧
      ReadsAs text (reread entry.2)) :
    ∃ parts, printEntries depth entries = .ok parts ∧
      List.Forall₂ (ReadBy readMember) parts (rereadMembers entries) := by
  induction entries with
  | nil => exact ⟨[], rfl, .nil⟩
  | cons entry rest ih =>
      rw [List.forall_mem_cons] at hkeys h
      obtain ⟨name, hname⟩ := exists_ok_of_isOk hkeys.1
      obtain ⟨⟨text, htext, hreads⟩, hrest⟩ := h
      obtain ⟨parts, hparts, hreadsParts⟩ := ih hkeys.2 hrest
      have hnameOf : nameOf entry.1 = name := by
        rw [nameOf, hname]
        rfl
      refine ⟨(quoted name ++ ": " ++ text) :: parts, ?_, ?_⟩
      · rw [printEntries, hname, htext, hparts]
        rfl
      · rw [rereadMembers, hnameOf]
        exact .cons (readBy_member hreads name) hreadsParts

/-- A value that can be printed and read is printed as a text that is read back. -/
theorem exists_print {v : Value} (h : v.Writable) (depth : Nat) :
    ∃ text, print depth v = .ok text ∧ ReadsAs text (reread v) := by
  induction h generalizing depth with
  | null =>
      have hreads : ReadsAs "null" .null :=
        readsAs_scalar ⟨'n', _, rfl, .inr (by decide)⟩ fun rest _ => readScalar_null rest
      exact ⟨"null", rfl, hreads⟩
  | bool b => exact ⟨_, rfl, readsAs_bool b⟩
  | int h => exact ⟨_, rfl, readsAs_decimal h⟩
  | float x => exact ⟨_, rfl, readsAs_double x⟩
  | str s => exact ⟨_, rfl, readsAs_quoted s⟩
  | markup s => exact ⟨_, rfl, readsAs_quoted s⟩
  | @list items _ ih =>
      obtain ⟨parts, hparts, hreads⟩ := exists_printItems fun v hv => ih v hv (depth + 1)
      refine ⟨enclose "[" "]" depth parts, ?_, readsAs_list hreads depth⟩
      rw [print, hparts]
      rfl
  | @map entries hkeys _ ih =>
      obtain ⟨parts, hparts, hreads⟩ :=
        exists_printEntries hkeys fun entry hentry => ih entry hentry (depth + 1)
      refine ⟨enclose "\x7b" "\x7d" depth parts, ?_, readsAs_object hreads depth⟩
      rw [print, hparts]
      rfl

/-! ## Keys without a name -/

theorem keyName_eq_error {k : Value} {e : Misfit} (h : keyName k = .error e) : e = .notAKey := by
  cases k <;> cases h <;> rfl

theorem printEntries_eq_error {entries : List (Value × Value)} {depth : Nat}
    (hvalues : ∀ entry ∈ entries, (print depth entry.2).isOk = true)
    (hkeys : ∃ entry ∈ entries, (keyName entry.1).isOk = false) :
    printEntries depth entries = .error .notAKey := by
  induction entries with
  | nil =>
      obtain ⟨entry, hentry, -⟩ := hkeys
      cases hentry
  | cons first rest ih =>
      obtain ⟨k, v⟩ := first
      rw [List.forall_mem_cons] at hvalues
      obtain ⟨entry, hentry, hname⟩ := hkeys
      rw [printEntries]
      cases hk : keyName k with
      | error e =>
          rw [keyName_eq_error hk]
          rfl
      | ok name =>
          -- This key has a name, so that the one without a name comes later.
          have hlater : entry ∈ rest := by
            rcases List.mem_cons.1 hentry with rfl | hlater
            · rw [hk] at hname
              cases hname
            · exact hlater
          obtain ⟨text, htext⟩ := exists_ok_of_isOk hvalues.1
          rw [htext, ih hvalues.2 ⟨entry, hlater, hname⟩]
          rfl

/-! ## Values that were read -/

/-- The reader gives only values that can be printed and read again. -/
theorem writable_of_read {text : List Char} {v : Value} (h : read text = .ok v) : v.Writable :=
  read_induction (readScalar_induction .null .bool .float .int) .str .list
    (fun hmembers => .ofFields fun _ hfield =>
      Table.overlay_induction nofun hmembers _ (List.mem_map_of_mem hfield)) h

end Json

end HighlightGraph
