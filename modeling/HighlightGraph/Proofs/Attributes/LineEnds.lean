import HighlightGraph.Proofs.Attributes.Values
import HighlightGraph.Proofs.Json.Scalars
/-!
# Line ends behind backslashes

A text without line escapes has no backslash that should be taken back, so that its literal should
be that of JSON. It is, unless a line end stands right behind a backslash: there the two escapes
meet, and the literal says a backslash and a letter.
-/

namespace HighlightGraph.Attributes

namespace Quoted

def lineLetter (c : Char) : Char := if c = '\n' then 'n' else if c = '\r' then 'r' else c

/-- A text with every line end behind a backslash turned into its letter. `previous` stands right
before the text. -/
def lettered (previous : Char) : List Char → List Char
  | [] => []
  | c :: rest => (if previous = '\\' then lineLetter c else c) :: lettered c rest

@[simp] theorem length_lettered (previous : Char) (cs : List Char) :
    (lettered previous cs).length = cs.length := by
  induction cs generalizing previous with
  | nil => rfl
  | cons c cs ih => rw [lettered, List.length_cons, List.length_cons, ih]

theorem getElem?_lettered {previous : Char} (hprevious : previous ≠ '\\')
    (before : List Char) (c : Char) (after : List Char) :
    (lettered previous (before ++ c :: after))[before.length]? =
      some (if before.getLast? = some '\\' then lineLetter c else c) := by
  -- What stands before the character is the last one of the text before it, or `previous`.
  have hgeneral : ∀ previous : Char,
      (lettered previous (before ++ c :: after))[before.length]? =
        some (if before.getLast?.getD previous = '\\' then lineLetter c else c) := by
    induction before with
    | nil => exact fun _ => rfl
    | cons d before ih =>
        intro previous
        rw [List.cons_append, lettered, List.length_cons, List.getElem?_cons_succ, ih d,
          List.getLast?_cons, Option.getD_some]
  rw [hgeneral]
  cases before.getLast? with
  | none => simp [hprevious]
  | some last => simp

theorem lettered_of_head {cs : List Char}
    (hhead : ∀ c ∈ ['\n', '\r'], cs.head? ≠ some c) {previous : Char}
    (hprevious : previous ≠ '\\') : lettered '\\' cs = lettered previous cs := by
  cases cs with
  | nil => rfl
  | cons c cs =>
      have hc : lineLetter c = c := by
        have hlf : c ≠ '\n' := fun e => hhead '\n' (by simp) (congrArg some e)
        have hcr : c ≠ '\r' := fun e => hhead '\r' (by simp) (congrArg some e)
        rw [lineLetter, if_neg hlf, if_neg hcr]
      rw [lettered, lettered, if_pos rfl, if_neg hprevious, hc]

theorem unescaped_of_suffix {rest cs : List Char} (h : ∀ c ∈ ['l', 'n', 'r'], ¬ ['\\', c] <:+: cs)
    (hrest : rest <:+ cs) : ∀ c ∈ ['l', 'n', 'r'], ¬ ['\\', c] <:+: rest :=
  fun c hc hwithin => h c hc (hwithin.trans hrest.isInfix)

section Unescaped

variable {cs : List Char} (h : ∀ c ∈ ['l', 'n', 'r'], ¬ ['\\', c] <:+: cs)
include h

/-- Without line escapes, the text that a literal is read back as is the one that it quotes. -/
theorem inside_eq_flatMap_reread : inside cs = (reread cs).flatMap Json.escape := by
  -- The pairs of a backslash and a letter are what the hypothesis excludes.
  fun_induction reread cs with
  | case1 cs _ => exact absurd (List.prefix_append ['\\', 'l'] cs).isInfix (h 'l' (by simp))
  | case2 cs _ => exact absurd (List.prefix_append ['\\', 'n'] cs).isInfix (h 'n' (by simp))
  | case3 cs _ => exact absurd (List.prefix_append ['\\', 'r'] cs).isInfix (h 'r' (by simp))
  | case4 cs ih =>
    have htail := ih (unescaped_of_suffix h (List.suffix_append ['\\', '\n'] cs))
    show '\\' :: '\\' :: 'n' :: inside cs = _
    rw [htail]
    rfl
  | case5 cs ih =>
    have htail := ih (unescaped_of_suffix h (List.suffix_append ['\\', '\r'] cs))
    show '\\' :: '\\' :: 'r' :: inside cs = _
    rw [htail]
    rfl
  | case6 c cs hl hn hr hlf hcr ih =>
    have hinside : inside (c :: cs) = Json.escape c ++ inside cs :=
      inside_cons_of_not_pair (by simpa using ⟨hl, hn, hr, hlf, hcr⟩)
    rw [hinside, ih (unescaped_of_suffix h (List.suffix_cons c cs)), List.flatMap_cons]
  | case7 => rfl

theorem encode_eq_quote_reread : encode cs = Json.quote (reread cs) := by
  rw [encode_eq, inside_eq_flatMap_reread h, Json.quote]

theorem reread_eq_lettered {previous : Char} (hprevious : previous ≠ '\\') :
    reread cs = lettered previous cs := by
  fun_induction reread cs generalizing previous with
  | case1 cs _ => exact absurd (List.prefix_append ['\\', 'l'] cs).isInfix (h 'l' (by simp))
  | case2 cs _ => exact absurd (List.prefix_append ['\\', 'n'] cs).isInfix (h 'n' (by simp))
  | case3 cs _ => exact absurd (List.prefix_append ['\\', 'r'] cs).isInfix (h 'r' (by simp))
  | case4 cs ih =>
    have htail : reread cs = lettered '\n' cs :=
      ih (unescaped_of_suffix h (List.suffix_append ['\\', '\n'] cs)) (by decide)
    rw [lettered, lettered, if_neg hprevious, if_pos rfl, htail]
    rfl
  | case5 cs ih =>
    have htail : reread cs = lettered '\r' cs :=
      ih (unescaped_of_suffix h (List.suffix_append ['\\', '\r'] cs)) (by decide)
    rw [lettered, lettered, if_neg hprevious, if_pos rfl, htail]
    rfl
  | case6 c cs hl hn hr hlf hcr ih =>
    have htail : ∀ {previous : Char}, previous ≠ '\\' → reread cs = lettered previous cs :=
      ih (unescaped_of_suffix h (List.suffix_cons c cs))
    rw [lettered, if_neg hprevious]
    congr 1
    by_cases hc : c = '\\'
    · subst hc
      rw [lettered_of_head _ (show 'x' ≠ '\\' by decide)]
      · exact htail (by decide)
      · intro d hd hhead
        obtain ⟨after, hcs⟩ := List.head?_eq_some_iff.1 hhead
        simp only [List.mem_cons, List.not_mem_nil, or_false] at hd
        rcases hd with rfl | rfl
        · exact hlf after rfl hcs
        · exact hcr after rfl hcs
    · exact htail hc
  | case7 => rfl

end Unescaped

/-- What remains of the texts that are read back as they were, where no letter is taken for a line
end. -/
theorem reread_eq_self_iff_of_unescaped {cs : List Char}
    (h : ∀ c ∈ ['l', 'n', 'r'], ¬ ['\\', c] <:+: cs) :
    reread cs = cs ↔ ∀ c ∈ ['\n', '\r'], ¬ ['\\', c] <:+: cs := by
  have hn : ¬ ['\\', 'n'] <:+: cs := h 'n' (by simp)
  have hr : ¬ ['\\', 'r'] <:+: cs := h 'r' (by simp)
  rw [reread_eq_self_iff, List.forall_mem_cons, List.forall_mem_cons, and_iff_right hn,
    and_iff_right hr]

end Quoted

/-- A text without line escapes is written as the JSON literal of a text of the same length: itself
with every line end behind a backslash turned into its letter. So the literal is that of the text,
and is read back as the text, if and only if no line end stands right behind a backslash. -/
theorem format_eq_quoted_iff {s : String} (h : ∀ c ∈ ['l', 'n', 'r'], ¬ ['\\', c] <:+: s.toList) :
    ((Value.str s).format = Json.quoted s ↔ ∀ c ∈ ['\n', '\r'], ¬ ['\\', c] <:+: s.toList) ∧
      ∃ t : String, (Value.str s).format = Json.quoted t ∧
        Json.read (Value.str s).format.toList = .ok (.str t) ∧
        (t = s ↔ ∀ c ∈ ['\n', '\r'], ¬ ['\\', c] <:+: s.toList) ∧
        t.toList.length = s.toList.length ∧
        ∀ before c after, s.toList = before ++ c :: after →
          t.toList[before.length]? =
            some (if before.getLast? = some '\\' then Quoted.lineLetter c else c) := by
  let t := String.ofList (Quoted.reread s.toList)
  have ht : t.toList = Quoted.lettered 'l' s.toList :=
    String.toList_ofList.trans (Quoted.reread_eq_lettered h (by decide))
  have hself : t = s ↔ ∀ c ∈ ['\n', '\r'], ¬ ['\\', c] <:+: s.toList := by
    rw [← Quoted.reread_eq_self_iff_of_unescaped h, ← String.toList_inj, String.toList_ofList]
  have hformat : (Value.str s).format = Json.quoted t := by
    rw [← String.toList_inj, format_str, Json.toList_quoted, String.toList_ofList,
      Quoted.encode_eq_quote_reread h]
  refine ⟨?_, t, hformat, ?_, hself, ?_, ?_⟩
  · rw [hformat, Json.quoted_inj, hself]
  · rw [hformat, Json.read_quoted]
  · rw [ht, Quoted.length_lettered]
  · intro before c after hs
    rw [ht, hs, Quoted.getElem?_lettered (by decide)]

/-- Of two line ends, the first is read back and the one behind the backslash is a letter then. -/
theorem format_of_two_line_ends :
    (∀ c ∈ ['l', 'n', 'r'], ¬ ['\\', c] <:+: "a\nb\\\nc".toList) ∧
      (Value.str "a\nb\\\nc").format ≠ Json.quoted "a\nb\\\nc" ∧
      Json.read (Value.str "a\nb\\\nc").format.toList = .ok (.str "a\nb\\nc") := by
  have hplain : ∀ c ∈ ['l', 'n', 'r'], ¬ ['\\', c] <:+: "a\nb\\\nc".toList := by
    simp only [List.forall_mem_cons]
    exact ⟨by decide +kernel, by decide +kernel, by decide +kernel, nofun⟩
  have hbehind : ['\\', '\n'] <:+: "a\nb\\\nc".toList := by decide +kernel
  obtain ⟨hsame, t, hformat, hread, -⟩ := format_eq_quoted_iff hplain
  have hletter : (Value.str "a\nb\\\nc").format = Json.quoted "a\nb\\nc" := by decide +kernel
  have ht : t = "a\nb\\nc" := Json.quoted_inj.1 (hformat.symm.trans hletter)
  refine ⟨hplain, fun heq => hsame.1 heq '\n' List.mem_cons_self hbehind, ?_⟩
  rw [hread, ht]

/-- A line end behind a backslash is not written as its escape. -/
theorem line_end_can_be_lost :
    ¬ ∀ s : String, (∀ c ∈ ['l', 'n', 'r'], ¬ ['\\', c] <:+: s.toList) →
      (Value.str s).format = Json.quoted s ∧
        Json.read (Value.str s).format.toList = .ok (.str s) := by
  intro hclaim
  have hplain : ∀ c ∈ ['l', 'n', 'r'], ¬ ['\\', c] <:+: "\\\n".toList := by
    simp only [List.forall_mem_cons]
    exact ⟨by decide +kernel, by decide +kernel, by decide +kernel, nofun⟩
  obtain ⟨hformat, -⟩ := hclaim "\\\n" hplain
  have hne : (Value.str "\\\n").format ≠ Json.quoted "\\\n" := by decide +kernel
  exact hne hformat

end HighlightGraph.Attributes
