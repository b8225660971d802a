import HighlightGraph.Attributes.Basic
import HighlightGraph.Value.Items
/-!
# Options

The settings of a diagram, with their defaults. A setting is kept as the value that was given for
it; whether it fits shows where it is used.
-/

namespace HighlightGraph

inductive Setting where
  | name
  | rankdir
  | cluster
  | graph
  | group
  | node
  | edge
  | groupNode
  | groupEdge
  | missingNode
  | sameRank
  | fromStyle
  | toStyle
  | css
  | raw
  | groupRaw
deriving DecidableEq

inductive SettingKind where
  | attributes
  | items
  | fragments
  | plain
deriving DecidableEq

namespace Setting

def all : List Setting :=
  [name, rankdir, cluster, graph, group, node, edge, groupNode, groupEdge, missingNode, sameRank,
    fromStyle, toStyle, css, raw, groupRaw]

def key : Setting → String
  | name => "name"
  | rankdir => "rankdir"
  | cluster => "cluster"
  | graph => "graph"
  | group => "group"
  | node => "node"
  | edge => "edge"
  | groupNode => "group_node"
  | groupEdge => "group_edge"
  | missingNode => "missing_node"
  | sameRank => "same_rank"
  | fromStyle => "from_style"
  | toStyle => "to_style"
  | css => "css"
  | raw => "raw"
  | groupRaw => "group_raw"

def alias? : Setting → Option String
  | groupNode => some "groupNode"
  | groupEdge => some "groupEdge"
  | missingNode => some "missingNode"
  | sameRank => some "sameRank"
  | fromStyle => some "fromStyle"
  | toStyle => some "toStyle"
  | groupRaw => some "groupRaw"
  | _ => none

def ofKey? (k : String) : Option Setting :=
  all.find? fun setting => setting.key = k

def ofSpelling? (k : String) : Option Setting :=
  all.find? fun setting => setting.key = k || setting.alias? = some k

def kind : Setting → SettingKind
  | graph | group | node | edge | groupNode | groupEdge | missingNode => .attributes
  | sameRank => .items
  | groupRaw => .fragments
  | name | rankdir | cluster | fromStyle | toStyle | css | raw => .plain

def default : Setting → Value
  | name | raw => .null
  | rankdir => .str "LR"
  | cluster => .bool true
  | graph | groupRaw => .map []
  | group => .ofFields [("color", .str "blue")]
  | node => .ofFields [("shape", .str "box3d")]
  | edge => .ofFields [("fontsize", .int 7), ("color", .str "black")]
  | groupNode | missingNode => .ofFields [("shape", .str "rectangle")]
  | groupEdge => .ofFields [("color", .str "black")]
  | sameRank => .list []
  | fromStyle => .str "stroke: red; stroke-width: 4px;"
  | toStyle => .str "stroke: green; stroke-width: 4px;"
  | css => .str ".node \x7b cursor: pointer; \x7d"

def prepare (setting : Setting) (v : Value) : Except Misfit Value :=
  match setting.kind with
  | .attributes => (Attributes.recognized v).map Attributes.toValue
  | .items => if v.isGiven then v.items.map .list else .ok (.list [])
  | .fragments => if v.isGiven then v.toTable.map .map else .ok (.map [])
  | .plain => .ok v

end Setting

/-- The options of a diagram: a value for every setting. -/
structure Options where
  value : Setting → Value

namespace Options

@[ext] theorem ext {o p : Options} (h : ∀ setting, o.value setting = p.value setting) : o = p := by
  cases o
  cases p
  rw [mk.injEq]
  exact funext h

def defaults : Options := ⟨Setting.default⟩

def set (o : Options) (setting : Setting) (v : Value) : Options :=
  ⟨fun other => if other = setting then v else o.value other⟩

/-- Takes one entry of a map of options in. Unknown keys are passed over. -/
def take (o : Options) (entry : Value × Value) : Except Misfit Options :=
  match entry.1 with
  | .str k =>
    match Setting.ofSpelling? k with
    | some setting => (setting.prepare entry.2).map (o.set setting)
    | none => .ok o
  | _ => .ok o

def ofEntries (entries : List (Value × Value)) : Except Misfit Options :=
  entries.foldlM take defaults

def ofValue (v : Value) : Except Misfit Options :=
  if v.isGiven then
    match v with
    | .map entries => ofEntries entries
    | _ => .error .notAMap
  else .ok defaults

def takeVerbatim (o : Options) (field : String × Value) : Except Misfit Options :=
  match Setting.ofKey? field.1 with
  | some setting => .ok (o.set setting field.2)
  | none => .error (.unknownSetting field.1)

/-- The options whose settings are given as they are to be held. -/
def verbatim (fields : List (String × Value)) : Except Misfit Options :=
  fields.foldlM takeVerbatim defaults

def toFields (o : Options) : List (String × Value) :=
  Setting.all.map fun setting => (setting.key, o.value setting)

end Options

end HighlightGraph
