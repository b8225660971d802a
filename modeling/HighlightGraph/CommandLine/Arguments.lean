import HighlightGraph.Text.DecimalDigit
import HighlightGraph.Value.Display
/-!
# Command line arguments

Long options may be shortened as long as they stay unique, take their value from the next argument
or after an equals sign, and the last value counts. A double dash after the equals sign is no value:
the option is given all the same. One-letter options can be joined, and what follows the equals sign
of one is read as further letters.
-/

namespace HighlightGraph.CommandLine

inductive Format where
  | css
  | dot
  | json
  | svg
deriving DecidableEq

def Format.names : List (String × Format) :=
  [("css", css), ("dot", dot), ("json", json), ("svg", svg)]

def Format.ofName? (name : String) : Option Format :=
  (names.find? fun entry => entry.1 = name).map Prod.snd

inductive Flag where
  | help
  | input
  | format
  | output
  | prune
  | noMissing
  | verbose
deriving DecidableEq

namespace Flag

def spellings : List (String × Flag) :=
  [("-h", help), ("--help", help), ("--in", input), ("--fmt", format), ("--out", output),
    ("--prune", prune), ("--no-missing", noMissing), ("-v", verbose), ("--verbose", verbose)]

def ofSpelling? (s : String) : Option Flag :=
  (spellings.find? fun entry => entry.1 = s).map Prod.snd

def takesValue : Flag → Bool
  | input | format | output => true
  | help | prune | noMissing | verbose => false

def title (flag : Flag) : String :=
  "/".intercalate ((spellings.filter fun entry => entry.2 = flag).map Prod.fst)

end Flag

inductive ArgumentError where
  | ambiguous (argument : String) (spellings : List String)
  | valueExpected (flag : Flag)
  | valueIgnored (flag : Flag) (value : String)
  | invalidChoice (value : String)
  | required (flags : List Flag)
  | unrecognized (arguments : List String)
deriving DecidableEq

def ArgumentError.message : ArgumentError → String
  | ambiguous argument spellings =>
    "ambiguous option: " ++ argument ++ " could match " ++ ", ".intercalate spellings
  | valueExpected flag => "argument " ++ flag.title ++ ": expected one argument"
  | valueIgnored flag value =>
    "argument " ++ flag.title ++ ": ignored explicit argument " ++ Text.displayString value
  | invalidChoice value =>
    "argument " ++ Flag.format.title ++ ": invalid choice: " ++ Text.displayString value ++
      " (choose from " ++
      ", ".intercalate (Format.names.map fun entry => Text.displayString entry.1) ++ ")"
  | required flags =>
    "the following arguments are required: " ++ ", ".intercalate (flags.map Flag.title)
  | unrecognized arguments => "unrecognized arguments: " ++ " ".intercalate arguments

/-! ## Tokens -/

inductive Attached where
  | nothing
  /-- A value, after the equals sign of a long option. -/
  | value (text : List Char)
  /-- Further letters, after an option of one letter. -/
  | letters (text : List Char)

def Attached.afterEquals (spelling text : List Char) : Attached :=
  if spelling.length = 2 then .letters text else .value text

inductive Token where
  | plain (argument : String)
  | option (flag : Flag) (attached : Attached)
  | unknown (argument : String)
  /-- The mark after which no argument is an option, with the arguments after it. -/
  | remainder (arguments : List String)

def splitEquals? : List Char → Option (List Char × List Char)
  | [] => none
  | c :: rest =>
    if c = '=' then some ([], rest) else (splitEquals? rest).map fun r => (c :: r.1, r.2)

/-- Whether an argument reads as a negative number, up to one line feed after it. -/
def isNegativeNumber (cs : List Char) : Bool :=
  match cs with
  | '-' :: rest =>
    let body := if rest.getLast? = some '\n' then rest.dropLast else rest
    match body.dropWhile Text.isDigit with
    | [] => !body.isEmpty
    | '.' :: fraction => !fraction.isEmpty && fraction.all Text.isDigit
    | _ => false
  | _ => false

def candidates (cs : List Char) : List (String × Flag × Attached) :=
  match cs with
  | '-' :: '-' :: _ =>
    let (shortened, attached) :=
      match splitEquals? cs with
      | some (before, after) => (before, Attached.value after)
      | none => (cs, .nothing)
    (Flag.spellings.filter fun entry => shortened.isPrefixOf entry.1.toList).map fun entry =>
      (entry.1, entry.2, attached)
  | _ =>
    (Flag.spellings.filter fun entry => entry.1.toList = cs.take 2).map fun entry =>
      (entry.1, entry.2, .letters (cs.drop 2))

def exactOption? (argument : String) : Option Token :=
  match Flag.ofSpelling? argument with
  | some flag => some (.option flag .nothing)
  | none =>
    match splitEquals? argument.toList with
    | some (before, after) =>
      (Flag.ofSpelling? (String.ofList before)).map fun flag =>
        .option flag (.afterEquals before after)
    | none => none

/-- What an argument is that begins with a dash, has more characters and spells no option in
full. -/
def shortenedOption (argument : String) : Except ArgumentError Token :=
  match candidates argument.toList with
  | [(_, flag, attached)] => .ok (.option flag attached)
  | [] =>
    if isNegativeNumber argument.toList || argument.toList.contains ' ' then .ok (.plain argument)
    else .ok (.unknown argument)
  | several => .error (.ambiguous argument (several.map Prod.fst))

def classify (argument : String) : Except ArgumentError Token :=
  match argument.toList with
  | '-' :: rest =>
    match exactOption? argument with
    | some token => .ok token
    | none => if rest.isEmpty then .ok (.plain argument) else shortenedOption argument
  | _ => .ok (.plain argument)

def tokens : List String → Except ArgumentError (List Token)
  | [] => .ok []
  | argument :: rest =>
    if argument = "--" then .ok [.remainder (argument :: rest)]
    else do
      let token ← classify argument
      return token :: (← tokens rest)

/-! ## Settings -/

/-- What the arguments have set so far. The input and the format are required: of these the outer
layer says whether they were given, the inner one which value they have, if any. -/
structure Settings where
  input : Option (Option String)
  format : Option (Option Format)
  output : Option String
  prune : Bool
  missing : Bool
  verbose : Bool
  /-- Whether help is asked for: then nothing further counts. -/
  help : Bool
  extra : List String

namespace Settings

def initial : Settings := ⟨none, none, none, false, true, false, false, []⟩

def addExtra (s : Settings) (arguments : List String) : Settings :=
  { s with extra := s.extra ++ arguments }

def switch (s : Settings) (flag : Flag) : Settings :=
  match flag with
  | .help => { s with help := true }
  | .prune => { s with prune := true }
  | .noMissing => { s with missing := false }
  | .verbose => { s with verbose := true }
  | .input | .format | .output => s

def assignFormat (s : Settings) (name? : Option String) : Except ArgumentError Settings :=
  match name? with
  | none => .ok { s with format := some none }
  | some name =>
    match Format.ofName? name with
    | some format => .ok { s with format := some (some format) }
    | none => .error (.invalidChoice name)

def assign (s : Settings) (flag : Flag) (value? : Option String) : Except ArgumentError Settings :=
  match flag with
  | .input => .ok { s with input := some value? }
  | .output => .ok { s with output := value? }
  | .format => s.assignFormat value?
  | .help | .prune | .noMissing | .verbose => .ok s

/-- The options that joined letters spell, `flag` being the one before them. Every letter has to
spell an option, and no option of one letter takes a value. -/
def letters (flag : Flag) : List Char → Except ArgumentError (List Flag)
  | [] => .ok [flag]
  | c :: rest =>
    match Flag.ofSpelling? (String.ofList ['-', c]) with
    | none => .error (.valueIgnored flag (String.ofList (c :: rest)))
    | some next => (letters next rest).map (flag :: ·)

def attachedValue? (text : String) : Option String := if text = "--" then none else some text

def assignAttached (s : Settings) (flag : Flag) (text : String) : Except ArgumentError Settings :=
  if flag.takesValue then s.assign flag (attachedValue? text) else .error (.valueIgnored flag text)

/-- Takes an option in to which further letters are attached: at least one. -/
def switchAll (s : Settings) (flag : Flag) (text : List Char) : Except ArgumentError Settings :=
  if text.isEmpty then .error (.valueIgnored flag "")
  else (letters flag text).map fun flags => flags.foldl switch s

def consume (s : Settings) : List Token → Except ArgumentError Settings
  | [] => .ok s
  | token :: rest =>
    if s.help then .ok s
    else
      match token with
      | .plain argument => (s.addExtra [argument]).consume rest
      | .unknown argument => (s.addExtra [argument]).consume rest
      | .remainder arguments => .ok (s.addExtra arguments)
      | .option flag (.value text) => do
        (← s.assignAttached flag (String.ofList text)).consume rest
      | .option flag (.letters text) => do (← s.switchAll flag text).consume rest
      | .option flag .nothing =>
        if flag.takesValue then
          match rest with
          | .plain value :: after => do (← s.assign flag (some value)).consume after
          | _ => .error (.valueExpected flag)
        else (s.switch flag).consume rest

end Settings

/-! ## Arguments -/

/-- The arguments of a call. The input and the format are given, but may be given without a
value. -/
structure Arguments where
  input : Option String
  format : Option Format
  output : Option String
  prune : Bool
  missing : Bool
  verbose : Bool

inductive Request where
  | help
  | call (arguments : Arguments)

def Settings.call (s : Settings) : Except ArgumentError Arguments :=
  match s.input, s.format with
  | some input, some format =>
    if s.extra.isEmpty then .ok ⟨input, format, s.output, s.prune, s.missing, s.verbose⟩
    else .error (.unrecognized s.extra)
  | input, format =>
    .error (.required
      ((if input.isNone then [Flag.input] else []) ++
        (if format.isNone then [Flag.format] else [])))

def Request.ofArguments (arguments : List String) : Except ArgumentError Request := do
  let settings ← Settings.initial.consume (← tokens arguments)
  if settings.help then return .help
  return .call (← settings.call)

end HighlightGraph.CommandLine
