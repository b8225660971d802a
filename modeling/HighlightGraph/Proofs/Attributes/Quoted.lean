import HighlightGraph.Attributes.Quoted
import HighlightGraph.Proofs.Json.Quoted
import Mathlib.Data.List.Infix
/-!
# Quoted attribute values read back

A quoted value, written in one pass over the text: a backslash before a mark of a line stays single,
every other character is escaped as in JSON. From this form follow where the literal ends, whatever
stands after it, and what it is read back as: the text itself, but for some backslashes before
marks.
-/

namespace HighlightGraph.Attributes.Quoted

/-! ## Writing in one pass -/

/-- Whether a text begins with a mark that a single backslash is left before: a letter that ends a
line, or a character whose escape has such a letter. -/
def startsMark : List Char → Bool
  | c :: _ => c = 'l' || c = 'n' || c = 'r' || c = '\n' || c = '\r'
  | [] => false

def inside : List Char → List Char
  | [] => []
  | c :: rest =>
    (if c = '\\' && startsMark rest then ['\\'] else Json.escape c) ++ inside rest

theorem undouble_cons {c : Char} (hc : c ≠ '\\') (rest : List Char) :
    undouble (c :: rest) = c :: undouble rest := by
  simp [undouble, hc]

theorem undouble_append {cs : List Char} (hcs : ∀ c ∈ cs, c ≠ '\\') (rest : List Char) :
    undouble (cs ++ rest) = cs ++ undouble rest := by
  induction cs with
  | nil => rfl
  | cons c cs ih =>
      rw [List.forall_mem_cons] at hcs
      rw [List.cons_append, undouble_cons hcs.1, ih hcs.2, List.cons_append]

theorem undouble_escape {c : Char} (hc : c ≠ '\\') (rest : List Char) :
    undouble (Json.escape c ++ rest) = Json.escape c ++ undouble rest := by
  rcases Json.escape_shape c with ⟨h, -⟩ | ⟨letter, digits, h, hletter, -, -, hdigits⟩
  · rw [h]
    exact undouble_cons hc rest
  · have hback : letter ≠ '\\' := fun e => hc (hletter.1 e)
    have hstart : startsLineEscape (letter :: (digits ++ rest)) = false := by
      rw [startsLineEscape.eq_def]
      simp [hback]
    rw [h, List.cons_append, List.cons_append, undouble, hstart, if_neg (by simp),
      undouble_cons hback, undouble_append fun d hd => (hdigits d hd).2.1]
    rfl

theorem undouble_backslashes (rest : List Char) :
    undouble ('\\' :: '\\' :: rest) =
      if startsLineEscape ('\\' :: rest) || startsLineEscape rest then '\\' :: undouble rest
      else '\\' :: '\\' :: undouble rest := by
  have hdisjoint : startsLineEscape ('\\' :: rest) = true → startsLineEscape rest = false := by
    intro h
    match rest with
    | [] => rfl
    | c :: _ =>
      have hc : c ≠ '\\' := by
        rintro rfl
        simp [startsLineEscape] at h
      rw [startsLineEscape.eq_def]
      simp [hc]
  by_cases hfirst : startsLineEscape ('\\' :: rest) = true
  · simp [undouble, hfirst, hdisjoint hfirst]
  · by_cases hsecond : startsLineEscape rest = true
    · simp [undouble, hfirst, hsecond]
    · simp [undouble, hfirst, hsecond]

theorem startsMark_eq (c : Char) (rest following : List Char) :
    (startsLineEscape ('\\' :: (Json.escape c ++ following)) ||
      startsLineEscape (Json.escape c ++ following)) = startsMark (c :: rest) := by
  rcases Json.escape_cases c with ⟨letter, hletter, h⟩ | ⟨hfresh, hcontrol, h⟩ | ⟨hfresh, -, h⟩
  · have hall : Json.shortEscapes.all (fun p =>
        (startsLineEscape ['\\', '\\'] || startsLineEscape ['\\', p.2]) =
          startsMark [p.1]) = true := by decide
    rw [h]
    exact of_decide_eq_true (List.all_eq_true.1 hall _ hletter)
  · have hletter : ∀ d : Char, 0x20 ≤ d.toNat → c ≠ d := by
      rintro d hd rfl
      omega
    simp only [Json.shortEscapes, List.forall_mem_cons] at hfresh
    simp [h, startsLineEscape, startsMark, hletter, hfresh]
  · simp only [Json.shortEscapes, List.forall_mem_cons] at hfresh
    simp [h, startsLineEscape, startsMark, hfresh]

theorem undouble_flatMap_escape (cs : List Char) :
    undouble (cs.flatMap Json.escape ++ ['"']) = inside cs ++ ['"'] := by
  induction cs with
  | nil => rfl
  | cons c rest ih =>
      rw [List.flatMap_cons, List.append_assoc]
      by_cases hc : c = '\\'
      · subst hc
        have hmark : (startsLineEscape ('\\' :: (rest.flatMap Json.escape ++ ['"'])) ||
            startsLineEscape (rest.flatMap Json.escape ++ ['"'])) = startsMark rest := by
          cases rest with
          | nil => rfl
          | cons d rest =>
              rw [List.flatMap_cons, List.append_assoc]
              exact startsMark_eq d rest _
        show undouble ('\\' :: '\\' :: (rest.flatMap Json.escape ++ ['"'])) = _
        rw [undouble_backslashes, hmark, ih, inside]
        cases startsMark rest <;> rfl
      · rw [undouble_escape hc, ih, inside, if_neg (by simp [hc]), List.append_assoc]

/-- The form of a literal that is written in one pass. -/
theorem encode_eq (cs : List Char) : encode cs = '"' :: (inside cs ++ ['"']) := by
  rw [encode, Json.quote, undouble_cons (by decide), undouble_flatMap_escape]

/-- A text that needs no escapes stands between its quotes as it is. -/
theorem encode_of_plain {cs : List Char} (h : ∀ c ∈ cs, 0x20 ≤ c.toNat ∧ c ≠ '"' ∧ c ≠ '\\') :
    encode cs = '"' :: (cs ++ ['"']) := by
  have hescape : cs.flatMap Json.escape = cs :=
    calc
      cs.flatMap Json.escape = cs.flatMap fun c => [c] :=
        List.flatMap_congr fun c hc => Json.escape_of_plain (h c hc).1 (h c hc).2.1 (h c hc).2.2
      _ = cs := List.flatMap_singleton' cs
  rw [encode, Json.quote, hescape, undouble_cons (by decide),
    undouble_append fun c hc => (h c hc).2.2]
  rfl

/-! ## What a literal is read back as -/

def reread : List Char → List Char
  | '\\' :: 'l' :: rest => '\\' :: 'l' :: reread rest
  | '\\' :: 'n' :: rest => '\n' :: reread rest
  | '\\' :: 'r' :: rest => '\r' :: reread rest
  | '\\' :: '\n' :: rest => '\\' :: 'n' :: reread rest
  | '\\' :: '\r' :: rest => '\\' :: 'r' :: reread rest
  | c :: rest => c :: reread rest
  | [] => []

theorem inside_cons_of_not_pair {c : Char} {rest : List Char}
    (h : ∀ d ∈ ['l', 'n', 'r', '\n', '\r'], ∀ after, c = '\\' → rest = d :: after → False) :
    inside (c :: rest) = Json.escape c ++ inside rest := by
  have hmark : (c = '\\' && startsMark rest) = false := by
    by_cases hc : c = '\\'
    · cases rest with
      | nil => simp [startsMark]
      | cons d after =>
          have hd : d ∉ ['l', 'n', 'r', '\n', '\r'] := fun hd => h d hd after hc rfl
          simpa [startsMark, hc, and_assoc] using hd
    · simp [hc]
  rw [inside, hmark]
  rfl

/-! ### Where the literal ends -/

theorem delimit_cons {c : Char} (hquote : c ≠ '"') (hback : c ≠ '\\') (rest : List Char) :
    delimit (c :: rest) = (delimit rest).map fun r => (c :: r.1, r.2) := by
  rw [delimit.eq_def]
  simp [hquote, hback]

theorem delimit_backslash (d : Char) (rest : List Char) :
    delimit ('\\' :: d :: rest) = (delimit rest).map fun r => ('\\' :: d :: r.1, r.2) := by
  rw [delimit.eq_def]
  simp

theorem delimit_append {cs : List Char} (hcs : ∀ c ∈ cs, c ≠ '"' ∧ c ≠ '\\') (rest : List Char) :
    delimit (cs ++ rest) = (delimit rest).map fun r => (cs ++ r.1, r.2) := by
  induction cs with
  | nil => simp
  | cons c cs ih =>
      rw [List.forall_mem_cons] at hcs
      rw [List.cons_append, delimit_cons hcs.1.1 hcs.1.2, ih hcs.2, Option.map_map]
      rfl

theorem delimit_escape (c : Char) (rest : List Char) :
    delimit (Json.escape c ++ rest) = (delimit rest).map fun r => (Json.escape c ++ r.1, r.2) := by
  rcases Json.escape_shape c with ⟨h, hquote, hback, -⟩ | ⟨letter, digits, h, -, -, -, hdigits⟩
  · rw [h]
    exact delimit_cons hquote hback rest
  · have hplain : ∀ d ∈ digits, d ≠ '"' ∧ d ≠ '\\' :=
      fun d hd => ⟨(hdigits d hd).1, (hdigits d hd).2.1⟩
    rw [h, List.cons_append, List.cons_append, delimit_backslash, delimit_append hplain,
      Option.map_map]
    rfl

/-- A literal ends where it was written to end, whatever stands after it. -/
theorem delimit_inside (cs rest : List Char) :
    delimit (inside cs ++ '"' :: rest) = some (inside cs ++ ['"'], rest) := by
  -- Five pairs are written apart from the rest: a backslash before a letter or a line end.
  fun_induction reread cs with
  | case1 cs ih =>
    show delimit ('\\' :: 'l' :: (inside cs ++ '"' :: rest)) = _
    rw [delimit_backslash, ih]
    rfl
  | case2 cs ih =>
    show delimit ('\\' :: 'n' :: (inside cs ++ '"' :: rest)) = _
    rw [delimit_backslash, ih]
    rfl
  | case3 cs ih =>
    show delimit ('\\' :: 'r' :: (inside cs ++ '"' :: rest)) = _
    rw [delimit_backslash, ih]
    rfl
  | case4 cs ih =>
    show delimit ('\\' :: '\\' :: 'n' :: (inside cs ++ '"' :: rest)) = _
    rw [delimit_backslash, delimit_cons (by decide) (by decide), ih]
    rfl
  | case5 cs ih =>
    show delimit ('\\' :: '\\' :: 'r' :: (inside cs ++ '"' :: rest)) = _
    rw [delimit_backslash, delimit_cons (by decide) (by decide), ih]
    rfl
  | case6 c cs hl hn hr hlf hcr ih =>
    have hinside : inside (c :: cs) = Json.escape c ++ inside cs :=
      inside_cons_of_not_pair (by simpa using ⟨hl, hn, hr, hlf, hcr⟩)
    rw [hinside, List.append_assoc, delimit_escape, ih]
    simp
  | case7 =>
    rw [inside, List.nil_append, delimit.eq_def]
    simp

/-! ### How it is decoded -/

theorem redouble_cons {c : Char} (hback : c ≠ '\\') (rest : List Char) :
    redouble false (c :: rest) = c :: redouble false rest := by
  simp [redouble, hback]

theorem redouble_append {cs : List Char} (hcs : ∀ c ∈ cs, c ≠ '\\') (rest : List Char) :
    redouble false (cs ++ rest) = cs ++ redouble false rest := by
  induction cs with
  | nil => rfl
  | cons c cs ih =>
      rw [List.forall_mem_cons] at hcs
      rw [List.cons_append, redouble_cons hcs.1, ih hcs.2, List.cons_append]

theorem redouble_pair {letter : Char} (hletter : letter ≠ 'l') (rest : List Char) :
    redouble false ('\\' :: letter :: rest) = '\\' :: letter :: redouble false rest := by
  by_cases hback : letter = '\\' <;> simp [redouble, hback, hletter]

theorem redouble_line (rest : List Char) :
    redouble false ('\\' :: 'l' :: rest) = '\\' :: '\\' :: 'l' :: redouble false rest := by
  simp [redouble]

theorem redouble_escape (c : Char) (rest : List Char) :
    redouble false (Json.escape c ++ rest) = Json.escape c ++ redouble false rest := by
  rcases Json.escape_shape c with ⟨h, -, hback, -⟩ | ⟨letter, digits, h, -, hletter, -, hdigits⟩
  · rw [h]
    exact redouble_cons hback rest
  · rw [h, List.cons_append, List.cons_append, redouble_pair hletter,
      redouble_append fun d hd => (hdigits d hd).2.1]
    rfl

theorem redouble_inside (cs : List Char) :
    redouble false (inside cs ++ ['"']) = (reread cs).flatMap Json.escape ++ ['"'] := by
  -- The cases are those of the pairs again; only the first has a backslash doubled.
  fun_induction reread cs with
  | case1 cs ih =>
    show redouble false ('\\' :: 'l' :: (inside cs ++ ['"'])) = _
    rw [redouble_line, ih]
    rfl
  | case2 cs ih =>
    show redouble false ('\\' :: 'n' :: (inside cs ++ ['"'])) = _
    rw [redouble_pair (by decide), ih]
    rfl
  | case3 cs ih =>
    show redouble false ('\\' :: 'r' :: (inside cs ++ ['"'])) = _
    rw [redouble_pair (by decide), ih]
    rfl
  | case4 cs ih =>
    show redouble false ('\\' :: '\\' :: 'n' :: (inside cs ++ ['"'])) = _
    rw [redouble_pair (by decide), redouble_cons (by decide), ih]
    rfl
  | case5 cs ih =>
    show redouble false ('\\' :: '\\' :: 'r' :: (inside cs ++ ['"'])) = _
    rw [redouble_pair (by decide), redouble_cons (by decide), ih]
    rfl
  | case6 c cs hl hn hr hlf hcr ih =>
    have hinside : inside (c :: cs) = Json.escape c ++ inside cs :=
      inside_cons_of_not_pair (by simpa using ⟨hl, hn, hr, hlf, hcr⟩)
    rw [hinside, List.append_assoc, redouble_escape, ih, List.flatMap_cons, List.append_assoc]
  | case7 => rfl

theorem decode_encode (cs : List Char) : decode (encode cs) = .ok (reread cs) := by
  have hquote : redouble false (encode cs) = Json.quote (reread cs) := by
    rw [encode_eq, redouble_cons (by decide), redouble_inside, Json.quote]
  have hread := Json.readString_quote (Json.quote (reread cs)) (reread cs) []
  rw [List.append_nil] at hread
  rw [decode, hquote, hread]
  rfl

/-! ### Texts that are read back as they were -/

theorem pair_infix_cons_iff {a b c : Char} {rest : List Char} :
    [a, b] <:+: c :: rest ↔ (a = c ∧ rest.head? = some b) ∨ [a, b] <:+: rest := by
  rw [List.infix_cons_iff, List.cons_prefix_cons, List.singleton_prefix_iff_head?_eq_some]

/-- A text is read back as it was unless a backslash stands right before a line end or before a
letter that is taken for one. -/
theorem reread_eq_self_iff (cs : List Char) :
    reread cs = cs ↔ ∀ c ∈ ['n', 'r', '\n', '\r'], ¬ ['\\', c] <:+: cs := by
  fun_induction reread cs with
  | case1 cs ih => simpa [pair_infix_cons_iff] using ih
  | case2 cs ih => simp [pair_infix_cons_iff]
  | case3 cs ih => simp [pair_infix_cons_iff]
  | case4 cs ih => simp [pair_infix_cons_iff]
  | case5 cs ih => simp [pair_infix_cons_iff]
  | case6 c cs hl hn hr hlf hcr ih =>
    have hpair : ∀ d ∈ ['n', 'r', '\n', '\r'], ¬('\\' = c ∧ cs.head? = some d) := by
      rintro d hd ⟨hc, hhead⟩
      obtain ⟨after, hcs⟩ := List.head?_eq_some_iff.1 hhead
      simp only [List.mem_cons, List.not_mem_nil, or_false] at hd
      rcases hd with rfl | rfl | rfl | rfl
      · exact hn after hc.symm hcs
      · exact hr after hc.symm hcs
      · exact hlf after hc.symm hcs
      · exact hcr after hc.symm hcs
    rw [List.cons.injEq, and_iff_right rfl, ih]
    refine forall₂_congr fun d hd => ?_
    rw [pair_infix_cons_iff, or_iff_right (hpair d hd)]
  | case7 => simp

end HighlightGraph.Attributes.Quoted
