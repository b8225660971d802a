import HighlightGraph.CommandLine.Arguments
import HighlightGraph.CommandLine.FileTree
import HighlightGraph.CommandLine.Help
import HighlightGraph.DocumentFile
import HighlightGraph.Json.Printer
import HighlightGraph.Rendering
/-!
# Running the command

One call of the command: it loads a graph document, adds missing nodes and prunes as asked, and
gives the diagram out in one of the formats, on the standard output or into a file.
-/

namespace HighlightGraph.CommandLine

/-- What a call leaves: its exit code, what it prints on both streams, the text that it has for a
file, and the texts that it has given to the layout engine. -/
structure Report where
  code : Nat
  out : String
  err : String
  written : Option (String × String)
  sources : List String

/-- What ends a call without a report. -/
inductive Failure where
  | misfit (cause : Misfit)
  | oversized (n : OversizedInteger)
  | undecodable
  | nullInPath
  | file (e : FileError)
  /-- An option that is needed was given without a value. -/
  | valueless (flag : Flag)

def Failure.message? : Failure → Option String
  | misfit cause => cause.message?
  | oversized n => some n.message
  | nullInPath => some "embedded null byte"
  | undecodable => none
  | file _ => none
  | valueless _ => none

namespace Report

def refused (sources : List String) (message : String) : Report :=
  ⟨1, "", "Error: " ++ message ++ "\n", none, sources⟩

def misused (e : ArgumentError) : Report :=
  ⟨2, "", "dotmap: error: " ++ e.message ++ "\n", none, []⟩

/-- The report of a call that gives a text out. A file without a name means the standard output. -/
def given (output : Option String) (sources : List String) (text : String) : Report :=
  match output with
  | some path =>
    if path = "" then ⟨0, text, "", none, sources⟩ else ⟨0, "", "", some (path, text), sources⟩
  | none => ⟨0, text, "", none, sources⟩

def help : Report := ⟨0, helpText, "", none, []⟩

end Report

def Format.render (format : Format) (engine : Engine) (d : Diagram) : Rendering :=
  match format with
  | .dot => ⟨d, [], d.drawingText.mapError .misfit⟩
  | .css => ⟨d, [], d.stylesheetText.mapError .misfit⟩
  | .json => ⟨d, [], ((Json.print 0 d.toValue).map (· ++ "\n")).mapError .misfit⟩
  | .svg => d.renderAsIs engine

def Report.ofRendering (output : Option String) (r : Rendering) : Except Failure Report :=
  match r.result with
  | .ok text => .ok (.given output r.sources text)
  | .error (.misfit e) => .error (.misfit e)
  | .error (.engine failure) => .ok (.refused r.sources failure.message)
  | .error .noOpeningTag => .ok (.refused r.sources noOpeningTagMessage)

def Arguments.prepare (a : Arguments) (d : Diagram) : Except Misfit Diagram := do
  let completed ←
    if a.missing then
      match d.synthesize with
      | (d, .ok _) => Except.ok d
      | (_, .error e) => .error e
    else .ok d
  return if a.prune then completed.prune.1 else completed

def Arguments.reportOn (a : Arguments) (engine : Engine) (d : Diagram) : Except Failure Report :=
  match a.prepare d with
  | .error e => .error (.misfit e)
  | .ok d =>
    match a.format with
    | none => .error (.valueless .format)
    | some format => Report.ofRendering a.output (format.render engine d)

def Arguments.reportOnContent (a : Arguments) (engine : Engine) (path : String)
    (content : ByteArray) : Except Failure Report :=
  match Diagram.ofFile content with
  | .ok d => a.reportOn engine d
  | .error (.json fault text) => .ok (.refused [] (jsonFaultMessage path fault text))
  | .error (.document fault) => .ok (.refused [] fault.message)
  | .error (.misfit cause) => .error (.misfit cause)
  | .error (.oversized n) => .error (.oversized n)
  | .error .undecodable => .error .undecodable

def isUsablePath (path : String) : Bool := !path.toList.contains '\x00'

def Arguments.source (a : Arguments) : Except Failure String :=
  match a.input with
  | none => .error (.valueless .input)
  | some path => if isUsablePath path then .ok path else .error .nullInPath

def Arguments.reportOnFile (a : Arguments) (engine : Engine) (path : String) :
    Except FileError ByteArray → Except Failure Report
  | .ok content => a.reportOnContent engine path content
  | .error e => .ok (.refused [] (e.message path))

/-! ## Calls on files -/

/-- The files around a call, by what reading one and writing one does. -/
structure Files (m : Type → Type) where
  read : String → m (Except FileError ByteArray)
  write : String → ByteArray → m (Except FileError Unit)

section Perform

variable {m : Type → Type} [Monad m]

def Report.save (r : Report) (files : Files m) : ExceptT Failure m Unit :=
  match r.written with
  | none => return
  | some (path, text) =>
    if isUsablePath path then
      .mk (Except.mapError .file <$> files.write path text.toUTF8)
    else throw .nullInPath

/-- Performs a call on the files around it. -/
def perform (arguments : List String) (engine : Engine) (files : Files m) :
    ExceptT Failure m Report :=
  match Request.ofArguments arguments with
  | .error e => return .misused e
  | .ok .help => return .help
  | .ok (.call a) => do
    let path ← a.source
    let content ← files.read path
    let report ← a.reportOnFile engine path content
    report.save files
    return report

end Perform

def FileTree.files : Files (StateM FileTree) where
  read path t := (t.read path, t)
  write path content t :=
    match t.write path content with
    | .ok after => (.ok (), after)
    | .error e => (.error e, t)

/-- Runs the command on a file tree: its report, and the files that it leaves. -/
def run (arguments : List String) (engine : Engine) (files : FileTree) :
    Except Failure (Report × FileTree) :=
  let (result, after) := (perform arguments engine FileTree.files).run.run files
  result.map fun report => (report, after)

end HighlightGraph.CommandLine
