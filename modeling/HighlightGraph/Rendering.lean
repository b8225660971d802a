import HighlightGraph.Diagram.Connect
import HighlightGraph.Drawing
import HighlightGraph.Stylesheet
/-!
# Rendering

A layout engine turns the text of a drawing into a picture; the stylesheet is then put into the
picture, right after its opening tag.
-/

namespace HighlightGraph

/-! ## Embedding the stylesheet -/

def styleElement (css : String) : String :=
  "<defs><style type=\"text/css\"><![CDATA[\n" ++ css ++ "\n]]></style></defs>\n"

def openingTag : List Char := ['<', 's', 'v', 'g']

def splitAfterBracket : List Char → Option (List Char × List Char)
  | [] => none
  | c :: rest =>
    if c = '>' then some ([c], rest)
    else (splitAfterBracket rest).map fun r => (c :: r.1, r.2)

def splitAfterTag : List Char → Option (List Char × List Char)
  | [] => none
  | c :: rest =>
    if openingTag.isPrefixOf (c :: rest) then splitAfterBracket (c :: rest)
    else (splitAfterTag rest).map fun r => (c :: r.1, r.2)

/-- Puts a stylesheet into a picture, if the picture has an opening tag. -/
def embedStylesheet? (svg css : String) : Option String :=
  (splitAfterTag svg.toList).map fun (before, after) =>
    String.ofList before ++ styleElement css ++ String.ofList after

/-! ## Engines -/

/-- Why a layout engine gives no picture, in the wording of the engine: there is no such program, or
it has failed. -/
inductive EngineFailure where
  | notFound (message : String)
  | failed (message : String)
deriving DecidableEq

def EngineFailure.message : EngineFailure → String
  | notFound message | failed message => message

/-- A layout engine, by its answer to the text of a drawing. -/
abbrev Engine := String → Except EngineFailure String

def Engine.absent : Engine := fun _ => .error (.notFound "There is no layout program.")

inductive RenderError where
  | misfit (cause : Misfit)
  | engine (failure : EngineFailure)
  | noOpeningTag
deriving DecidableEq

def noOpeningTagMessage : String :=
  "Rendered document has no <svg> opening tag to anchor the stylesheet"

/-- What rendering leaves behind: the diagram, the texts given to the engine, and the picture. -/
structure Rendering where
  diagram : Diagram
  sources : List String
  result : Except RenderError String

def Diagram.layOut (d : Diagram) (engine : Engine) (source : String) :
    Except RenderError String := do
  let svg ← (engine source).mapError .engine
  let css ← d.stylesheetText.mapError .misfit
  match embedStylesheet? svg css with
  | some text => return text
  | none => throw .noOpeningTag

def Diagram.renderAsIs (d : Diagram) (engine : Engine) : Rendering :=
  match d.drawingText with
  | .error e => ⟨d, [], .error (.misfit e)⟩
  | .ok source => ⟨d, [source], d.layOut engine source⟩

/-- Renders a diagram, after missing nodes have been added to it if that is asked for. -/
def Diagram.render (d : Diagram) (engine : Engine) (synthesizing : Bool) : Rendering :=
  if synthesizing then
    match d.synthesize with
    | (d, .error e) => ⟨d, [], .error (.misfit e)⟩
    | (d, .ok _) => d.renderAsIs engine
  else d.renderAsIs engine

end HighlightGraph
