import HighlightGraph.Diagram.Register
/-!
# Graph documents

A graph document is a map with sections for options, nodes and edges, each of which may be left
out. Loading it registers its entries in order and stops at the first fault: the sections are
checked before any entry, and the nodes are loaded before the edges.
-/

namespace HighlightGraph

inductive DocumentFault where
  | notAnObject
  | optionsSection
  | nodesSection
  | edgesSection
  | nodeEntry (index : Nat)
  | nodeGroup (index : Nat)
  | nodeAttributes (index : Nat)
  | edgeEntry (index : Nat)
  | edgeEndMissing (index : Nat)
  | edgeEndNoText (index : Nat)
  | edgeAttributes (index : Nat)
deriving DecidableEq

def DocumentFault.message : DocumentFault → String
  | notAnObject => "Graph document must be a JSON object"
  | optionsSection => "'options' must be an object"
  | nodesSection => "'nodes' must be a list"
  | edgesSection => "'edges' must be a list"
  | nodeEntry i => s!"nodes[{i}] must be a name or an object with a string 'name'"
  | nodeGroup i => s!"nodes[{i}] group must be a string"
  | nodeAttributes i => s!"nodes[{i}] attributes must be an object"
  | edgeEntry i => s!"edges[{i}] must be an object or a [from, to] pair"
  | edgeEndMissing i => s!"edges[{i}] is missing 'from' or 'to'"
  | edgeEndNoText i => s!"edges[{i}] endpoints must be strings"
  | edgeAttributes i => s!"edges[{i}] attributes must be an object"

inductive LoadError where
  | fault (fault : DocumentFault)
  | misfit (cause : Misfit)
deriving DecidableEq

namespace Document

def field (entries : List (Value × Value)) (name : String) : Value :=
  (Value.lookupKey (.text name) entries).getD .null

def listSection (v : Value) (fault : DocumentFault) : Except LoadError (List Value) :=
  match v with
  | .null => .ok []
  | .list items => .ok items
  | _ => .error (.fault fault)

def attributeEntries (v : Value) (fault : DocumentFault) :
    Except LoadError (List (Value × Value)) :=
  match v with
  | .null => .ok []
  | .map entries => .ok entries
  | _ => .error (.fault fault)

def stepped {α : Type} : Diagram × Except Misfit α → Except LoadError Diagram
  | (d, .ok _) => .ok d
  | (_, .error e) => .error (.misfit e)

/-- A node as it is declared: a name, a group or none, and attributes. -/
structure NodeEntry where
  name : String
  group : Option String
  attributes : List (Value × Value)

/-- The attributes of a declared node. A group that is given apart overrides theirs. -/
def NodeEntry.allAttributes (entry : NodeEntry) : List (Value × Value) :=
  match entry.group with
  | some group =>
    if group = "" then entry.attributes -- An empty group counts as none.
    else Value.storeKey (.str "group") (.text "group") (.str group) entry.attributes
  | none => entry.attributes

def nodeName (v : Value) (index : Nat) : Except LoadError String :=
  match v with
  | .str name => if name = "" then .error (.fault (.nodeEntry index)) else .ok name
  | _ => .error (.fault (.nodeEntry index))

def nodeGroup (v : Value) (index : Nat) : Except LoadError (Option String) :=
  match v with
  | .null => .ok none
  | .str group => .ok (some group)
  | _ => .error (.fault (.nodeGroup index))

def nodeEntry (index : Nat) (entry : Value) : Except LoadError NodeEntry :=
  match entry with
  | .map fields => do
    let name ← nodeName (field fields "name") index
    let group ← nodeGroup (field fields "group") index
    let attributes ← attributeEntries (field fields "attributes") (.nodeAttributes index)
    return ⟨name, group, attributes⟩
  | entry => do return ⟨← nodeName entry index, none, []⟩

structure EdgeEntry where
  source : String
  target : String
  attributes : List (Value × Value)

def edgeParts (index : Nat) (entry : Value) : Except LoadError (Value × Value × Value) :=
  match entry with
  | .list [source, target] => .ok (source, target, .null)
  | .list [source, target, attributes] => .ok (source, target, attributes)
  | .map fields => .ok (field fields "from", field fields "to", field fields "attributes")
  | _ => .error (.fault (.edgeEntry index))

def edgeEnds (index : Nat) (source target : Value) : Except LoadError (String × String) :=
  if !source.isGiven || !target.isGiven then .error (.fault (.edgeEndMissing index))
  else
    match source, target with
    | .str source, .str target => .ok (source, target)
    | _, _ => .error (.fault (.edgeEndNoText index))

/-- The edge that an entry declares: a list of its parts, or a map. -/
def edgeEntry (index : Nat) (entry : Value) : Except LoadError EdgeEntry := do
  let (source, target, attributes) ← edgeParts index entry
  let (source, target) ← edgeEnds index source target
  let attributes ← attributeEntries attributes (.edgeAttributes index)
  return ⟨source, target, attributes⟩

def loadNode (d : Diagram) (index : Nat) (entry : Value) : Except LoadError Diagram := do
  let entry ← nodeEntry index entry
  stepped (d.addNode (.str entry.name) (.map entry.allAttributes) [])

def loadEdge (d : Diagram) (index : Nat) (entry : Value) : Except LoadError Diagram := do
  let entry ← edgeEntry index entry
  stepped (d.addEdge (.str entry.source) (.str entry.target) (.map entry.attributes) [])

def loadEntries (load : Diagram → Nat → Value → Except LoadError Diagram) :
    (index : Nat) → List Value → Diagram → Except LoadError Diagram
  | _, [], d => .ok d
  | index, entry :: rest, d => do
    let d ← load d index entry
    loadEntries load (index + 1) rest d

def options (v : Value) : Except LoadError Options :=
  match v with
  | .null => .ok .defaults
  | .map entries => (Options.ofEntries entries).mapError .misfit
  | _ => .error (.fault .optionsSection)

end Document

def Diagram.ofDocument (document : Value) : Except LoadError Diagram :=
  match document with
  | .map sections => do
    let options ← Document.options (Document.field sections "options")
    let nodes ← Document.listSection (Document.field sections "nodes") .nodesSection
    let edges ← Document.listSection (Document.field sections "edges") .edgesSection
    let d ← Document.loadEntries Document.loadNode 0 nodes (.new options)
    Document.loadEntries Document.loadEdge 0 edges d
  | _ => .error (.fault .notAnObject)

end HighlightGraph
