import HighlightGraph.Proofs.Diagram.Consistency
import HighlightGraph.Proofs.Result
import Mathlib.Data.List.Induction
/-!
# The last call for an identifier wins

Runs of calls, the steps that add one node or one edge, in closed form. The index holds the
identifiers in the order in which they are first registered, each with the node that its last call
would make of an empty diagram. The places follow from the index: each holds the nodes whose last
call asks for it, and a group is there as long as some last call asks for it.
-/

namespace HighlightGraph

namespace Value

def givenUnder (name : String) : Value → List Value
  | map entries => entries.filterMap fun entry =>
    match entry.1 with
    | str key => if key = name then some entry.2 else none
    | _ => none
  | _ => []

/-- A value that is not null, false, zero or empty. A text that begins with two opening brackets is
markup. -/
def truthy? : Value → Option Value
  | null | bool false | int 0 | str "" | list [] | map [] => none
  | float x => if x.isZero then none else some (float x)
  | str s => if ['<', '<'] <+: s.toList then some (markup s) else some (str s)
  | v => some v

end Value

namespace Step

def isCall : Step → Bool
  | .node .. | .edge .. => true
  | .synthesize | .prune => false

def id? : Step → Option String
  | .node name _ _ => some (Identifier.ofNode name)
  | _ => none

def name? : Step → Option Value
  | .node name _ _ => some name
  | _ => none

def ends? : Step → Option (Value × Value)
  | .edge source target _ _ => some (source, target)
  | _ => none

/-- What a call gives under a name last, by its attributes or after them by its extra ones. -/
def given? (name : String) : Step → Option Value
  | .node _ attributes extra | .edge _ _ attributes extra =>
    (attributes.givenUnder name ++
      (extra.filter fun entry => entry.1 = name).map Prod.snd).getLast?
  | .synthesize | .prune => none

def wanted? (s : Step) : Option Value := (s.given? "group").bind Value.truthy?

def home (s : Step) : Option Key := s.wanted?.bind Value.key?

/-- What the node of a call holds under a key. Its name is the label unless the call gives one. -/
def attribute? (s : Step) (key : String) : Option Value :=
  if key = "id" then s.id?.map .str
  else if key = "label" then ((s.given? key).bind Value.truthy?).or s.name?
  else if key = "group" then none
  else (s.given? key).map Value.asMarkup

/-- Whether a node is what a call asks for. -/
structure Registers (s : Step) (n : Node) : Prop where
  id : s.id? = some n.id
  name : s.name? = some n.name
  missing : n.missing = false
  group : n.group.map GroupName.value = s.wanted?
  attributes : ∀ key, n.attributes.get? key = s.attribute? key

/-- Whether an edge is what a call asks for. -/
structure Connects (s : Step) (e : Edge) : Prop where
  ends : s.ends? = some (e.source, e.target)
  sourceId : e.sourceId = Identifier.ofNode e.source
  targetId : e.targetId = Identifier.ofNode e.target
  attributes : ∀ key, e.attributes.get? key = (s.given? key).map Value.asMarkup

/-- The node that a call alone adds to an empty diagram. -/
def node? (options : Options) : Step → Option Node
  | .node name attributes extra =>
    ((Diagram.new options).addNode name attributes extra).2.toOption
  | _ => none

def edge? (options : Options) : Step → Option Edge
  | .edge source target attributes extra =>
    ((Diagram.new options).addEdge source target attributes extra).2.toOption
  | _ => none

/-- The last call among steps that registers an identifier. -/
def last? (id : String) (steps : List Step) : Option Step :=
  (steps.filter fun s => s.id? = some id).getLast?

theorem last?_concat (id : String) (steps : List Step) (s : Step) :
    last? id (steps ++ [s]) = if s.id? = some id then some s else last? id steps := by
  rw [last?, List.filter_append]
  by_cases h : s.id? = some id
  · simp [h]
  · simp [h, last?]

end Step

namespace Diagram

/-- Two diagrams with the same nodes in the same groups, in whatever order. -/
structure SameNodes (d e : Diagram) : Prop where
  nodes : ∀ id, d.nodes.get? id = e.nodes.get? id
  groups : ∀ k, d.groups.contains k = e.groups.contains k
  residents : ∀ home id, (d.residents home).get? id = (e.residents home).get? id

end Diagram

/-! ## What a call gives -/

theorem Value.truthy?_eq (v : Value) : v.truthy? = (some v.asMarkup).filter Value.isGiven := by
  cases v with
  | null => rfl
  | bool b => cases b <;> rfl
  | int n => by_cases h : n = 0 <;> simp [truthy?, asMarkup, isGiven, Option.filter, h]
  | float x => cases h : x.isZero <;> simp [truthy?, asMarkup, isGiven, Option.filter, h]
  | str s =>
      by_cases hempty : s = ""
      · subst hempty
        rfl
      · by_cases hmarkup : ['<', '<'] <+: s.toList
        · simp [truthy?, asMarkup, isGiven, Option.filter, hmarkup]
        · simp [truthy?, asMarkup, isGiven, Option.filter, hempty, hmarkup]
  | markup text => rfl
  | list items => cases items <;> rfl
  | map entries => cases entries <;> rfl

theorem Value.givenUnder_of_fieldsOf? {name : String} {entries : List (Value × Value)}
    {fields : List (String × Value)} (h : Value.fieldsOf? entries = some fields) :
    (Value.map entries).givenUnder name =
      (fields.filter fun entry => entry.1 = name).map Prod.snd := by
  induction entries generalizing fields with
  | nil =>
      cases h
      rfl
  | cons entry rest ih =>
      obtain ⟨key, v⟩ := entry
      cases key with
      | str key =>
          rw [fieldsOf?, Option.map_eq_some_iff] at h
          obtain ⟨later, hlater, rfl⟩ := h
          have hrest := ih hlater
          rw [givenUnder] at hrest ⊢
          by_cases hkey : key = name
          · simp [hkey, hrest]
          · simp [hkey, hrest]
      | _ => cases h

theorem Value.givenUnder_of_not_isGiven {v : Value} (h : v.isGiven = false) (name : String) :
    v.givenUnder name = [] := by
  cases v with
  | map entries =>
      cases entries with
      | nil => rfl
      | cons entry rest => cases h
  | _ => rfl

/-- What attributes that may be left out give under a name is what the table of them holds last. -/
theorem Attributes.exists_fields {v : Value} {given : Attributes}
    (h : (if v.isGiven then ofOverlay v else .ok .empty) = .ok given) (name : String) :
    ∃ fields, given = Table.ofList fields ∧
      v.givenUnder name = (fields.filter fun entry => entry.1 = name).map Prod.snd := by
  split at h
  · have hmap := mapError_eq_ok h
    unfold ofMap at hmap
    split at hmap
    · split at hmap
      · next fields hfields =>
        cases hmap
        exact ⟨fields, rfl, Value.givenUnder_of_fieldsOf? hfields⟩
      · cases hmap
    · cases hmap
  · next hgiven =>
    cases h
    exact ⟨[], rfl, Value.givenUnder_of_not_isGiven (Bool.eq_false_iff.2 hgiven) name⟩

theorem Attributes.get?_combine {reserved : List String} {attributes : Value}
    {extra : List (String × Value)} {combined : Attributes}
    (h : combine reserved attributes extra = .ok combined) (name : String) :
    combined.get? name =
      (attributes.givenUnder name ++
        (extra.filter fun entry => entry.1 = name).map Prod.snd).getLast?.map Value.asMarkup := by
  unfold combine at h
  split at h
  · cases h
  · obtain ⟨given, hgiven, rfl⟩ := map_eq_ok h
    obtain ⟨fields, rfl, hfields⟩ := exists_fields hgiven name
    rw [Table.get?_mapValues, Table.ofList, ← Table.overlay_append, hfields, ← List.map_append,
      ← List.filter_append]
    exact congrArg _ (Table.get?_ofList _ _)

theorem Value.filter_isGiven_asMarkup (given : Option Value) :
    (given.map Value.asMarkup).filter Value.isGiven = given.bind Value.truthy? := by
  cases given with
  | none => rfl
  | some v => exact v.truthy?_eq.symm

theorem Step.wanted?_node {reserved : List String} {attributes : Value}
    {extra : List (String × Value)} {combined : Attributes}
    (h : Attributes.combine reserved attributes extra = .ok combined) (name : Value) :
    (Step.node name attributes extra).wanted? = combined.wantedGroup? := by
  rw [Attributes.wantedGroup?, Attributes.get?_combine h, Value.filter_isGiven_asMarkup]
  rfl

theorem Step.attribute?_node {attributes : Value} {extra : List (String × Value)}
    {combined : Attributes}
    (h : Attributes.combine Node.reservedNames attributes extra = .ok combined) (name : Value)
    (key : String) :
    (Step.node name attributes extra).attribute? key =
      (combined.ofNode name (Identifier.ofNode name)).get? key := by
  have hgiven : ((Step.node name attributes extra).given? key).map Value.asMarkup =
      combined.get? key := (Attributes.get?_combine h key).symm
  rw [Attributes.get?_ofNode, attribute?, hgiven]
  split
  · rfl
  · split
    · next hkey =>
      rw [← Value.filter_isGiven_asMarkup, hgiven, hkey, ← Option.or_some]
      rfl
    · rfl

namespace Diagram

/-! ## One call -/

theorem register_result (d e : Diagram) (name : Value) (attributes : Attributes) (missing : Bool) :
    (d.register name attributes missing).2 = (e.register name attributes missing).2 := by
  simp only [register]
  split
  · rfl
  · split <;> rfl

theorem addNode_result (d e : Diagram) (name attributes : Value) (extra : List (String × Value)) :
    (d.addNode name attributes extra).2 = (e.addNode name attributes extra).2 := by
  simp only [addNode]
  split
  · exact register_result d e _ _ _
  · rfl

theorem addNode_eq_ok {d : Diagram} {name attributes : Value} {extra : List (String × Value)}
    {n : Node} (h : (d.addNode name attributes extra).2 = .ok n) :
    (Step.node name attributes extra).Registers n ∧
      (d.addNode name attributes extra).1.nodes = d.nodes.insert n.id n ∧
      (d.addNode name attributes extra).1.edges = d.edges := by
  simp only [addNode] at h ⊢
  cases hcombine : Attributes.combine Node.reservedNames attributes extra with
  | error e =>
      rw [hcombine] at h
      cases h
  | ok combined =>
      simp only [hcombine] at h ⊢
      rcases register_cases d name combined false with ⟨group, hgroup, heq⟩ | ⟨_, _, _, _, heq⟩
      · rw [heq] at h ⊢
        cases h
        refine ⟨?_, by rw [nodes_place, nodes_vacate], by rw [edges_place, edges_vacate]⟩
        exact {
          id := rfl
          name := rfl
          missing := rfl
          group := hgroup.symm.trans (Step.wanted?_node hcombine name).symm
          attributes := fun key => (Step.attribute?_node hcombine name key).symm }
      · rw [heq] at h
        cases h

variable {options : Options}

theorem registers_of_node? {s : Step} {n : Node} (h : s.node? options = some n) :
    s.Registers n := by
  cases s with
  | node name attributes extra => exact (addNode_eq_ok (eq_ok_of_toOption_eq_some h)).1
  | _ => cases h

theorem connects_of_edge? {s : Step} {e : Edge} (h : s.edge? options = some e) : s.Connects e := by
  cases s with
  | edge source target attributes extra =>
      have hadded := eq_ok_of_toOption_eq_some h
      unfold addEdge at hadded
      split at hadded
      · next combined hcombine =>
        cases hadded
        exact ⟨rfl, rfl, rfl, Attributes.get?_combine hcombine⟩
      · cases hadded
  | _ => cases h

theorem ends?_of_id? {s : Step} {id : String} (h : s.id? = some id) : s.ends? = none := by
  cases s with
  | edge => cases h
  | _ => rfl

theorem home_of_node?_eq_some {s : Step} {n : Node} (h : s.node? options = some n) :
    s.home = n.home := by
  rw [Step.home, ← (registers_of_node? h).group, Node.home]
  cases n.group with
  | none => rfl
  | some group => exact group.key_eq

/-- A call that is not refused stores one node in the index or appends one edge. -/
theorem step_of_isCall {d : Diagram} {s : Step} (hcall : s.isCall = true)
    (haccept : (d.step s).2.isOk = true) :
    (∃ n, s.node? options = some n ∧ s.edge? options = none ∧
      (d.step s).1.nodes = d.nodes.insert n.id n ∧ (d.step s).1.edges = d.edges) ∨
    ∃ e, s.id? = none ∧ s.edge? options = some e ∧
      (d.step s).1.nodes = d.nodes ∧ (d.step s).1.edges = d.edges ++ [e] := by
  cases s with
  | node name attributes extra =>
      have hok : (d.addNode name attributes extra).2.isOk = true :=
        (isOk_map _ _).symm.trans haccept
      obtain ⟨n, hn⟩ := exists_ok_of_isOk hok
      obtain ⟨-, hnodes, hedges⟩ := addNode_eq_ok hn
      refine Or.inl ⟨n, ?_, rfl, hnodes, hedges⟩
      rw [Step.node?, addNode_result _ d, hn]
      rfl
  | edge source target attributes extra =>
      simp only [step, addEdge, Step.edge?] at haccept ⊢
      cases hcombine : Attributes.combine Edge.reservedNames attributes extra with
      | error e =>
          rw [hcombine] at haccept
          cases haccept
      | ok combined => exact Or.inr ⟨_, rfl, rfl, rfl, rfl⟩
  | synthesize => cases hcall
  | prune => cases hcall

/-! ## Runs of calls -/

structure Calls (options : Options) (steps : List Step) : Prop where
  isCall : ∀ s ∈ steps, s.isCall = true
  accepted : (new options).accepts steps = true

variable {steps : List Step}

/-- What the two kinds of calls keep, a run of calls keeps. -/
theorem Calls.induction {P : List Step → Table String Node → List Edge → Prop}
    (hnil : P [] .empty [])
    (hnode : ∀ steps nodes edges s n, s.node? options = some n → s.edge? options = none →
      P steps nodes edges → P (steps ++ [s]) (nodes.insert n.id n) edges)
    (hedge : ∀ steps nodes edges s e, s.id? = none → s.edge? options = some e →
      P steps nodes edges → P (steps ++ [s]) nodes (edges ++ [e]))
    (h : Calls options steps) :
    P steps ((new options).run steps).nodes ((new options).run steps).edges := by
  -- From the back, since the last step meets the diagram of all steps before it.
  induction steps using List.reverseRecOn with
  | nil => exact hnil
  | append_singleton steps s ih =>
      have haccepted := h.accepted
      rw [accepts_concat, Bool.and_eq_true] at haccepted
      have hinit := ih ⟨fun t ht => h.isCall t (List.mem_append_left _ ht), haccepted.1⟩
      have hcall := h.isCall s (List.mem_append_right _ (List.mem_singleton_self s))
      rw [run_concat]
      rcases step_of_isCall hcall haccepted.2 with
        ⟨n, hn, hnone, hnodes, hedges⟩ | ⟨e, hid, he, hnodes, hedges⟩
      · rw [hnodes, hedges]
        exact hnode _ _ _ s n hn hnone hinit
      · rw [hnodes, hedges]
        exact hedge _ _ _ s e hid he hinit

theorem eraseDups_concat {α : Type} [DecidableEq α] (xs : List α) (x : α) :
    (xs ++ [x]).eraseDups = if x ∈ xs.eraseDups then xs.eraseDups else xs.eraseDups ++ [x] := by
  rw [List.eraseDups_append, List.removeAll, List.filter_singleton]
  by_cases h : x ∈ xs
  · rw [if_pos (List.mem_eraseDups.2 h), List.elem_eq_true_of_mem h]
    exact List.append_nil _
  · have hfresh : List.elem x xs = false := by simpa using h
    rw [if_neg fun hmem => h (List.mem_eraseDups.1 hmem), hfresh]
    rfl

/-- The index holds identifiers in the order in which calls first register them. -/
theorem Calls.keys_nodes (h : Calls options steps) :
    ((new options).run steps).nodes.keys = (steps.filterMap Step.id?).eraseDups := by
  apply h.induction (P := fun steps nodes _ => nodes.keys = (steps.filterMap Step.id?).eraseDups)
  · rfl
  · intro steps nodes _ s n hn _ ih
    rw [List.filterMap_append, List.filterMap_cons_some (registers_of_node? hn).id,
      List.filterMap_nil, eraseDups_concat, Table.keys_insert, ih]
  · intro steps nodes _ s e hid _ ih
    rw [List.filterMap_append, List.filterMap_cons_none hid, List.filterMap_nil, List.append_nil,
      ih]

theorem Calls.get?_nodes (h : Calls options steps) (id : String) :
    ((new options).run steps).nodes.get? id = (Step.last? id steps).bind (Step.node? options) := by
  apply h.induction (P := fun steps nodes _ =>
    nodes.get? id = (Step.last? id steps).bind (Step.node? options))
  · rfl
  · intro steps nodes _ s n hn _ ih
    rw [Step.last?_concat, (registers_of_node? hn).id, Table.get?_insert, ih]
    by_cases hid : id = n.id
    · rw [if_pos hid, if_pos (congrArg some hid.symm)]
      exact hn.symm
    · rw [if_neg hid, if_neg fun heq => hid (Option.some.inj heq).symm]
  · intro steps nodes _ s e hid _ ih
    rw [Step.last?_concat, hid, if_neg nofun, ih]

theorem Calls.edges_eq (h : Calls options steps) :
    ((new options).run steps).edges = steps.filterMap (Step.edge? options) := by
  apply h.induction (P := fun steps _ edges => edges = steps.filterMap (Step.edge? options))
  · rfl
  · intro steps _ edges s n _ hnone ih
    rw [List.filterMap_append, List.filterMap_cons_none hnone, List.filterMap_nil, List.append_nil,
      ih]
  · intro steps _ edges s e _ he ih
    rw [List.filterMap_append, List.filterMap_cons_some he, List.filterMap_nil, ih]

theorem Calls.exists_node (h : Calls options steps) :
    ∀ s ∈ steps, ∀ id, s.id? = some id → ∃ n, s.node? options = some n := by
  refine h.induction (P := fun steps _ _ =>
    ∀ s ∈ steps, ∀ id, s.id? = some id → ∃ n, s.node? options = some n) nofun ?_ ?_
  · intro steps _ _ t n hn _ ih s hs id hid
    rcases List.mem_append.1 hs with hs | hs
    · exact ih s hs id hid
    · exact ⟨n, List.mem_singleton.1 hs ▸ hn⟩
  · intro steps _ _ t e hnone _ ih s hs id hid
    rcases List.mem_append.1 hs with hs | hs
    · exact ih s hs id hid
    · rw [List.mem_singleton.1 hs, hnone] at hid
      cases hid

/-! ## Places after a run of calls -/

theorem Calls.consistent (h : Calls options steps) : ((new options).run steps).Consistent :=
  Reached.consistent ⟨options, steps, h.accepted, rfl⟩

theorem Calls.exists_node_of_last? (h : Calls options steps) {id : String} {s : Step}
    (hs : Step.last? id steps = some s) :
    ∃ n, s.node? options = some n ∧ ((new options).run steps).nodes.get? id = some n := by
  have hmem := List.mem_of_getLast? hs
  rw [List.mem_filter, decide_eq_true_eq] at hmem
  obtain ⟨n, hn⟩ := h.exists_node s hmem.1 id hmem.2
  exact ⟨n, hn, by rw [h.get?_nodes, hs]; exact hn⟩

theorem Calls.get?_residents_iff (h : Calls options steps) {home : Option Key} {id : String}
    {n : Node} :
    (((new options).run steps).residents home).get? id = some n ↔
      ∃ s, Step.last? id steps = some s ∧ s.home = home ∧ s.node? options = some n := by
  rw [Diagram.get?_residents_iff h.consistent, h.get?_nodes, Option.bind_eq_some_iff]
  constructor
  · rintro ⟨⟨s, hs, hn⟩, hhome⟩
    exact ⟨s, hs, (home_of_node?_eq_some hn).trans hhome, hn⟩
  · rintro ⟨s, hs, hhome, hn⟩
    exact ⟨⟨s, hs, hn⟩, (home_of_node?_eq_some hn).symm.trans hhome⟩

theorem Calls.contains_groups_iff (h : Calls options steps) {k : Key} :
    ((new options).run steps).groups.contains k = true ↔
      ∃ id s, Step.last? id steps = some s ∧ s.home = some k := by
  rw [Diagram.contains_groups_iff h.consistent]
  constructor
  · rintro ⟨id, n, hn, hhome⟩
    rw [h.get?_nodes, Option.bind_eq_some_iff] at hn
    obtain ⟨s, hs, hn⟩ := hn
    exact ⟨id, s, hs, (home_of_node?_eq_some hn).trans hhome⟩
  · rintro ⟨id, s, hs, hhome⟩
    obtain ⟨n, hn, hindexed⟩ := h.exists_node_of_last? hs
    exact ⟨id, n, hindexed, (home_of_node?_eq_some hn).symm.trans hhome⟩

theorem Calls.sameNodes {others : List Step} (h : Calls options steps)
    (hothers : Calls options others)
    (hlast : ∀ id, Step.last? id steps = Step.last? id others) :
    ((new options).run steps).SameNodes ((new options).run others) where
  nodes id := by rw [h.get?_nodes, hothers.get?_nodes, hlast]
  groups k := by
    rw [Bool.eq_iff_iff, h.contains_groups_iff, hothers.contains_groups_iff]
    simp only [hlast]
  residents home id := by
    apply Option.ext
    intro n
    rw [h.get?_residents_iff, hothers.get?_residents_iff]
    simp only [hlast]

/-- The edges are what the calls for edges ask for, in the order of the calls. -/
theorem Calls.connects_edges (h : Calls options steps) :
    List.Forall₂ Step.Connects (steps.filter fun s => s.ends?.isSome)
      ((new options).run steps).edges := by
  apply h.induction (P := fun steps _ edges =>
    List.Forall₂ Step.Connects (steps.filter fun s => s.ends?.isSome) edges)
  · exact .nil
  · intro steps _ edges s n hn _ ih
    rw [List.filter_append, List.filter_cons_of_neg, List.filter_nil, List.append_nil]
    · exact ih
    · simp [ends?_of_id? (registers_of_node? hn).id]
  · intro steps _ edges s e _ he ih
    rw [List.filter_append, List.filter_cons_of_pos, List.filter_nil]
    · exact List.rel_append ih (.cons (connects_of_edge? he) .nil)
    · simp [(connects_of_edge? he).ends]

/-- A run of calls in closed form: what the index, the groups, the external nodes and the edges
are, and that nothing but the last call for each identifier matters for the nodes. -/
theorem last_call_wins (hcalls : ∀ s ∈ steps, s.isCall = true)
    (haccept : (new options).accepts steps = true) :
    ((new options).run steps).nodes.keys = (steps.filterMap Step.id?).eraseDups ∧
      (∀ id, ((new options).run steps).nodes.get? id =
        (Step.last? id steps).bind (Step.node? options)) ∧
      (∀ id s, Step.last? id steps = some s →
        ∃ n, s.node? options = some n ∧ n.id = id ∧ s.Registers n) ∧
      (∀ k, ((new options).run steps).groups.contains k = true ↔
        ∃ id s, Step.last? id steps = some s ∧ s.home = some k) ∧
      (∀ home id n, (((new options).run steps).residents home).get? id = some n ↔
        ∃ s, Step.last? id steps = some s ∧ s.home = home ∧ s.node? options = some n) ∧
      ((new options).run steps).edges = steps.filterMap (Step.edge? options) ∧
      List.Forall₂ Step.Connects (steps.filter fun s => s.ends?.isSome)
        ((new options).run steps).edges ∧
      ∀ others, (∀ s ∈ others, s.isCall = true) → (new options).accepts others = true →
        (∀ id, Step.last? id steps = Step.last? id others) →
          ((new options).run steps).SameNodes ((new options).run others) ∧
          (steps.filterMap (Step.edge? options) = others.filterMap (Step.edge? options) →
            ((new options).run steps).edges = ((new options).run others).edges) := by
  have h : Calls options steps := ⟨hcalls, haccept⟩
  refine ⟨h.keys_nodes, h.get?_nodes, ?_, fun _ => h.contains_groups_iff,
    fun _ _ _ => h.get?_residents_iff, h.edges_eq, h.connects_edges, ?_⟩
  · intro id s hs
    obtain ⟨n, hn, hindexed⟩ := h.exists_node_of_last? hs
    exact ⟨n, hn, (h.consistent.nodes hindexed).1, registers_of_node? hn⟩
  · intro others hcallsOthers hacceptOthers hlast
    have hothers : Calls options others := ⟨hcallsOthers, hacceptOthers⟩
    refine ⟨h.sameNodes hothers hlast, fun hedges => ?_⟩
    rw [h.edges_eq, hothers.edges_eq, hedges]

/-- `A` moves into the group of `B`, whose name compares as equal, and leaves its color behind; what
a call says of the group goes before what the attributes say, also where it asks for none. -/
theorem last_calls_of_a_moving_node :
    let inX : Value := .map [(.str "group", .str "x")]
    let first : List Step :=
      [.node (.str "A") .null [("group", .str "x"), ("color", .str "red")],
        .edge (.str "A") (.str "B") .null [],
        .node (.str "C") .null [("group", .int 1)]]
    let last : List Step :=
      [.node (.str "B") .null [("group", .bool true)], .node (.str "a") inX [("group", .int 1)],
        .node (.str "D") (.map [(.str "group", .str "<<b>>")]) [],
        .node (.str "C") inX [("group", .str "")]]
    let d := (new .defaults).run (first ++ last)
    (new .defaults).accepts (first ++ last) = true ∧
      d.nodes.keys = ["r_a", "r_c", "r_b", "r_d"] ∧
      d.groups.keys = [.number 1, .markup "<<b>>"] ∧
      (d.residents (some (.number 1))).keys = ["r_b", "r_a"] ∧
      (d.residents (some (.markup "<<b>>"))).keys = ["r_d"] ∧ d.external.keys = ["r_c"] ∧
      (d.nodes.get? "r_a").map (·.attributes.keys) = some ["label", "id"] ∧
      d.edges.map (fun e => (e.sourceId, e.targetId)) = [("r_a", "r_b")] ∧
      d.groups.contains (.number 1) = true ∧ d.SameNodes ((new .defaults).run last) := by
  intro inX first last d
  have hA : Identifier.ofNode (.str "A") = "r_a" := by decide +kernel
  have ha : Identifier.ofNode (.str "a") = "r_a" := by decide +kernel
  have hB : Identifier.ofNode (.str "B") = "r_b" := by decide +kernel
  have hC : Identifier.ofNode (.str "C") = "r_c" := by decide +kernel
  have hD : Identifier.ofNode (.str "D") = "r_d" := by decide +kernel
  have haccept : (new .defaults).accepts (first ++ last) = true := by decide +kernel
  have hcalls : ∀ s ∈ first ++ last, s.isCall = true := by
    simp [first, last, Step.isCall]
  obtain ⟨hkeys, _, _, hgroups, _, _, _, hsame⟩ := last_call_wins hcalls haccept
  have hlast : ∀ id, Step.last? id (first ++ last) = Step.last? id last := by
    intro id
    by_cases hida : "r_a" = id
    · simp [Step.last?, Step.id?, first, last, hA, ha, hB, hC, hD, ← hida]
    · by_cases hidc : "r_c" = id
      · simp [Step.last?, Step.id?, first, last, hA, ha, hB, hC, hD, ← hidc]
      · simp [Step.last?, Step.id?, first, last, hA, hC, hida, hidc]
  have hlastB : Step.last? "r_b" (first ++ last) = some (.node (.str "B") .null
      [("group", .bool true)]) := by
    simp [Step.last?, Step.id?, first, last, hA, ha, hB, hC, hD]
  refine ⟨haccept, ?_, by decide +kernel, by decide +kernel, by decide +kernel, by decide +kernel,
    by decide +kernel, by decide +kernel, (hgroups _).2 ⟨"r_b", _, hlastB, by decide +kernel⟩,
    (hsame last (by simp [last, Step.isCall]) (by decide +kernel) hlast).1⟩
  rw [hkeys]
  decide +kernel

end Diagram

end HighlightGraph
