import HighlightGraph.CommandLine.Arguments
import HighlightGraph.Proofs.Result
/-!
# Command lines spelled out

A command line for given arguments, with every option in full and its value after an equals sign.
It is read as these arguments, whatever the names of the files are.
-/

namespace HighlightGraph.CommandLine

def Format.name : Format → String
  | css => "css"
  | dot => "dot"
  | json => "json"
  | svg => "svg"

def valued (spelling value : String) : String := spelling ++ "=" ++ value

/-- A command line that spells arguments out. -/
def spelledOut (input : String) (format : Format) (output : Option String) (prune missing : Bool) :
    List String :=
  valued "--in" input :: valued "--fmt" format.name ::
    ((output.map (valued "--out")).toList ++ (if prune then ["--prune"] else []) ++
      if missing then [] else ["--no-missing"])

theorem ofName?_name (format : Format) : Format.ofName? format.name = some format := by
  cases format <;> rfl

/-! ## One option -/

theorem splitEquals?_append {cs : List Char} (h : '=' ∉ cs) (rest : List Char) :
    splitEquals? (cs ++ '=' :: rest) = some (cs, rest) := by
  induction cs with
  | nil => rfl
  | cons c cs ih =>
      rw [List.mem_cons, not_or] at h
      rw [List.cons_append, splitEquals?, if_neg (Ne.symm h.1), ih h.2]
      rfl

theorem toList_valued (spelling value : String) :
    (valued spelling value).toList = spelling.toList ++ '=' :: value.toList := by
  rw [valued, String.toList_append, String.toList_append, List.append_assoc]
  rfl

theorem ofSpelling?_valued (spelling value : String) :
    Flag.ofSpelling? (valued spelling value) = none := by
  have hplain : ∀ entry ∈ Flag.spellings, '=' ∉ entry.1.toList := by decide
  rw [Flag.ofSpelling?, Option.map_eq_none_iff, List.find?_eq_none]
  intro entry hentry heq
  apply hplain entry hentry
  rw [of_decide_eq_true heq, toList_valued]
  exact List.mem_append_right _ List.mem_cons_self

theorem classify_valued {spelling : String} {flag : Flag}
    (hflag : Flag.ofSpelling? spelling = some flag) (hplain : '=' ∉ spelling.toList)
    (hdash : spelling.toList.head? = some '-') (value : String) :
    classify (valued spelling value) =
      .ok (.option flag (.afterEquals spelling.toList value.toList)) := by
  have hoption : exactOption? (valued spelling value) =
      some (.option flag (.afterEquals spelling.toList value.toList)) := by
    rw [exactOption?, ofSpelling?_valued]
    simp only [toList_valued, splitEquals?_append hplain, String.ofList_toList, hflag,
      Option.map_some]
  obtain ⟨rest, hrest⟩ : ∃ rest, (valued spelling value).toList = '-' :: rest := by
    obtain ⟨rest, hrest⟩ := List.head?_eq_some_iff.1 hdash
    rw [toList_valued, hrest]
    exact ⟨_, rfl⟩
  rw [classify, hrest]
  simp only [hoption]

theorem tokens_cons {argument : String} {token : Token} {rest : List String} {ts : List Token}
    (hargument : argument ≠ "--") (htoken : classify argument = .ok token)
    (hrest : tokens rest = .ok ts) : tokens (argument :: rest) = .ok (token :: ts) := by
  rw [tokens, if_neg hargument, htoken, hrest]
  rfl

theorem tokens_valued {spelling : String} {flag : Flag}
    (hflag : Flag.ofSpelling? spelling = some flag) (hplain : '=' ∉ spelling.toList)
    (hdash : spelling.toList.head? = some '-') (value : String) {rest : List String}
    {ts : List Token} (hrest : tokens rest = .ok ts) :
    tokens (valued spelling value :: rest) =
      .ok (.option flag (.afterEquals spelling.toList value.toList) :: ts) := by
  apply tokens_cons _ (classify_valued hflag hplain hdash value) hrest
  intro heq
  have hmem : '=' ∈ (valued spelling value).toList := by
    rw [toList_valued]
    exact List.mem_append_right _ List.mem_cons_self
  rw [heq] at hmem
  revert hmem
  decide

/-! ## The whole line -/

def spelledTokens (input : String) (format : Format) (output : Option String)
    (prune missing : Bool) : List Token :=
  .option .input (.value input.toList) :: .option .format (.value format.name.toList) ::
    ((output.map fun path => .option .output (.value path.toList)).toList ++
      (if prune then [.option .prune .nothing] else []) ++
      if missing then [] else [.option .noMissing .nothing])

theorem tokens_spelledOut (input : String) (format : Format) (output : Option String)
    (prune missing : Bool) :
    tokens (spelledOut input format output prune missing) =
      .ok (spelledTokens input format output prune missing) := by
  have hswitches : tokens ((if prune then ["--prune"] else []) ++
      if missing then [] else ["--no-missing"]) =
      .ok ((if prune then [.option .prune .nothing] else []) ++
        if missing then [] else [.option .noMissing .nothing]) := by
    cases prune <;> cases missing <;> rfl
  apply tokens_valued rfl (by decide) rfl input
  apply tokens_valued rfl (by decide) rfl format.name
  cases output with
  | none => exact hswitches
  | some path => exact tokens_valued rfl (by decide) rfl path hswitches

theorem assignAttached_of_ne (s : Settings) {flag : Flag} (hflag : flag.takesValue = true)
    {value : String} (h : value ≠ "--") :
    s.assignAttached flag value = s.assign flag (some value) := by
  rw [Settings.assignAttached, if_pos hflag, Settings.attachedValue?, if_neg h]

theorem consume_value {s assigned : Settings} {flag : Flag} {value : String} (hs : s.help = false)
    (hassigned : s.assignAttached flag value = .ok assigned) (rest : List Token) :
    s.consume (.option flag (.value value.toList) :: rest) = assigned.consume rest := by
  rw [Settings.consume, hs, String.ofList_toList, hassigned]
  rfl

theorem consume_spelledTokens {input : String} (hinput : input ≠ "--") (format : Format)
    {output : Option String} (houtput : output ≠ some "--") (prune missing : Bool) :
    Settings.initial.consume (spelledTokens input format output prune missing) =
      .ok ⟨some (some input), some (some format), output, prune, missing, false, false, []⟩ := by
  have hformat : ∀ s : Settings, s.assignAttached .format format.name =
      .ok { s with format := some (some format) } := by
    intro s
    rw [assignAttached_of_ne s rfl (by cases format <;> decide), Settings.assign,
      Settings.assignFormat, ofName?_name]
  rw [spelledTokens, consume_value rfl (assignAttached_of_ne _ rfl hinput),
    consume_value rfl (hformat _)]
  cases output with
  | none => cases prune <;> cases missing <;> rfl
  | some path =>
      have hpath : path ≠ "--" := fun heq => houtput (congrArg some heq)
      rw [Option.map_some, Option.toList_some, List.singleton_append, List.cons_append,
        consume_value rfl (assignAttached_of_ne _ rfl hpath)]
      cases prune <;> cases missing <;> rfl

/-- A command line that spells arguments out is read as these arguments. -/
theorem ofArguments_spelledOut {input : String} (hinput : input ≠ "--") (format : Format)
    {output : Option String} (houtput : output ≠ some "--") (prune missing : Bool) :
    Request.ofArguments (spelledOut input format output prune missing) =
      .ok (.call ⟨some input, some format, output, prune, missing, false⟩) := by
  simp only [Request.ofArguments, tokens_spelledOut, bind, Except.bind,
    consume_spelledTokens hinput format houtput]
  rfl

end HighlightGraph.CommandLine
