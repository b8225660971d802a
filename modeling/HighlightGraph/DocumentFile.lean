import HighlightGraph.Document
import HighlightGraph.Json.Reader
/-!
# Graph document files

A graph document file holds JSON text in UTF-8. Line ends of every kind count as one line feed, so
that places in messages are those that an editor shows.
-/

namespace HighlightGraph

/-- A text with every line end turned into one line feed. `afterReturn` says that a carriage return
stands right before, to which a line feed still belongs. -/
def unifyLineEnds (afterReturn : Bool) : List Char → List Char
  | [] => []
  | c :: rest =>
    if c = '\r' then '\n' :: unifyLineEnds true rest
    else if c = '\n' && afterReturn then unifyLineEnds false rest
    else c :: unifyLineEnds false rest

/-- Why a file holds no diagram. A fault of the JSON text comes with this text. -/
inductive FileFault where
  | undecodable
  | oversized (n : OversizedInteger)
  | json (fault : Json.Fault) (text : List Char)
  | document (fault : DocumentFault)
  | misfit (cause : Misfit)

def jsonFaultMessage (path : String) (fault : Json.Fault) (text : List Char) : String :=
  path ++ ": " ++ fault.message text

def readDocument (content : ByteArray) : Except FileFault Value :=
  match String.fromUTF8? content with
  | none => .error .undecodable
  | some s =>
    let text := unifyLineEnds false s.toList
    match Json.read text with
    | .ok document => .ok document
    | .error (.fault fault) => .error (.json fault text)
    | .error (.oversized n) => .error (.oversized n)

def Diagram.ofFile (content : ByteArray) : Except FileFault Diagram :=
  match readDocument content with
  | .error fault => .error fault
  | .ok document =>
    match Diagram.ofDocument document with
    | .ok d => .ok d
    | .error (.fault fault) => .error (.document fault)
    | .error (.misfit cause) => .error (.misfit cause)

end HighlightGraph
