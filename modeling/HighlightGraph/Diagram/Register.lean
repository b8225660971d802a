import HighlightGraph.Diagram.Basic
import HighlightGraph.Identifier
/-!
# Registering nodes and edges

The steps that build a diagram. A node registered under an identifier that is taken replaces the
node there and moves to its own group. Each step gives the diagram it leaves together with its
result: a step that is refused may have begun its work.
-/

namespace HighlightGraph

def Node.reservedNames : List String := ["self", "name", "attributes"]

def Edge.reservedNames : List String := ["self", "from_name", "to_name", "attributes"]

namespace Attributes

/-- Attributes, which may be left out, with extra ones laid over them, and with markup told from
text. -/
def combine (reserved : List String) (attributes : Value) (extra : List (String × Value)) :
    Except Misfit Attributes :=
  match extra.find? fun item => reserved.contains item.1 with
  | some item => .error (.reservedName item.1)
  | none =>
    let given := if attributes.isGiven then ofOverlay attributes else .ok .empty
    given.map fun given => (given.overlay extra).mapValues Value.asMarkup

def wantedGroup? (attributes : Attributes) : Option Value :=
  (attributes.get? "group").filter Value.isGiven

/-- The attributes that a node holds: without a group, with the name as label unless there is one,
and with the identifier. -/
def ofNode (attributes : Attributes) (name : Value) (id : String) : Attributes :=
  let rest := attributes.erase "group"
  let labelled := if (rest.get? "label").any Value.isGiven then rest else rest.insert "label" name
  labelled.insert "id" (.str id)

end Attributes

namespace Diagram

def leaves (group : Option GroupName) (wanted : Option Value) : Bool :=
  match group, wanted with
  | none, none => false
  | some group, some wanted => wanted.key?.all fun key => group.key.differs key
  | _, _ => true

/-- Takes a node out of its place. A group whose last node goes is gone as well. -/
def release (d : Diagram) (group : Option GroupName) (id : String) : Diagram :=
  match group with
  | none => { d with external := d.external.erase id }
  | some name =>
    match d.groups.get? name.key with
    | none => d
    | some group =>
      let members := group.members.erase id
      if members.isEmpty then { d with groups := d.groups.erase name.key }
      else { d with groups := d.groups.insert name.key { group with members } }

def place (d : Diagram) (node : Node) : Diagram :=
  let placed :=
    match node.group with
    | none => { d with external := d.external.insert node.id node }
    | some name =>
      -- A group that is there keeps the spelling with which it came.
      let group := (d.groups.get? name.key).getD ⟨name, .empty⟩
      let members := group.members.insert node.id node
      { d with groups := d.groups.insert name.key { group with members } }
  { placed with nodes := placed.nodes.insert node.id node }

/-- Registers a node. A group that cannot be a key is only refused when the node is to be put
there, after the node that it replaces has left its place. -/
def register (d : Diagram) (name : Value) (attributes : Attributes) (missing : Bool) :
    Diagram × Except Misfit Node :=
  let id := Identifier.ofNode name
  let wanted := if missing then none else attributes.wantedGroup?
  let cleared :=
    match d.nodes.get? id with
    | some previous => if leaves previous.group wanted then d.release previous.group id else d
    | none => d
  let node := fun group : Option GroupName =>
    ({ name, id, attributes := attributes.ofNode name id, group, missing } : Node)
  match wanted with
  | none => (cleared.place (node none), .ok (node none))
  | some v =>
    match GroupName.ofValue? v with
    | some group => (cleared.place (node (some group)), .ok (node (some group)))
    | none => (cleared, .error .notAKey) -- The replaced node has left its place by now.

def addNode (d : Diagram) (name attributes : Value) (extra : List (String × Value)) :
    Diagram × Except Misfit Node :=
  match Attributes.combine Node.reservedNames attributes extra with
  | .ok combined => d.register name combined false
  | .error e => (d, .error e)

def addEdge (d : Diagram) (source target attributes : Value) (extra : List (String × Value)) :
    Diagram × Except Misfit Edge :=
  match Attributes.combine Edge.reservedNames attributes extra with
  | .ok attributes =>
    let edge : Edge :=
      ⟨source, Identifier.ofNode source, target, Identifier.ofNode target, attributes⟩
    ({ d with edges := d.edges ++ [edge] }, .ok edge)
  | .error e => (d, .error e)

end Diagram

end HighlightGraph
