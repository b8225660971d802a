import HighlightGraph.Diagram.Connect
import HighlightGraph.Proofs.Result
import HighlightGraph.Proofs.Table
/-!
# Runs of steps

The four steps that build a diagram as one function, runs of them, and what a step does to the
places of a diagram: the groups and the set of external nodes.
-/

namespace HighlightGraph

inductive Step where
  | node (name attributes : Value) (extra : List (String × Value))
  | edge (source target attributes : Value) (extra : List (String × Value))
  | synthesize
  | prune

/-- The place of a node: the key of its group, or none for an external node. -/
def Node.home (n : Node) : Option Key := n.group.map GroupName.key

def Node.fresh (name : Value) (attributes : Attributes) (group : Option GroupName)
    (missing : Bool) : Node :=
  ⟨name, Identifier.ofNode name, attributes.ofNode name (Identifier.ofNode name), group, missing⟩

def Group.without (group : Group) (id : String) : Group :=
  { group with members := group.members.erase id }

def Group.with (group : Group) (n : Node) : Group :=
  { group with members := group.members.insert n.id n }

@[simp] theorem Node.id_fresh (name : Value) (attributes : Attributes) (group : Option GroupName)
    (missing : Bool) : (Node.fresh name attributes group missing).id = Identifier.ofNode name := rfl

namespace Diagram

/-! ## Runs -/

/-- The diagram that a step leaves, and whether the step is refused. -/
def step (d : Diagram) : Step → Diagram × Except Misfit Unit
  | .node name attributes extra =>
    let (after, result) := d.addNode name attributes extra
    (after, result.map fun _ => ())
  | .edge source target attributes extra =>
    let (after, result) := d.addEdge source target attributes extra
    (after, result.map fun _ => ())
  | .synthesize =>
    let (after, result) := d.synthesize
    (after, result.map fun _ => ())
  | .prune => (d.prune.1, .ok ())

/-- The diagram after a run. A refused step keeps what it has done, and the run goes on. -/
def run (d : Diagram) (steps : List Step) : Diagram :=
  steps.foldl (fun d s => (d.step s).1) d

def accepts (d : Diagram) : List Step → Bool
  | [] => true
  | s :: rest => (d.step s).2.isOk && (d.step s).1.accepts rest

/-- Whether a diagram is what a run without refusals makes of an empty one. -/
def Reached (d : Diagram) : Prop :=
  ∃ options steps, (new options).accepts steps = true ∧ (new options).run steps = d

/-- What holds at the start and is kept by every step holds after every run. -/
theorem run_induction {P : Diagram → Prop} (hstep : ∀ d s, P d → P (d.step s).1) {d : Diagram}
    (h : P d) (steps : List Step) : P (d.run steps) := by
  induction steps generalizing d with
  | nil => exact h
  | cons s rest ih => exact ih (hstep d s h)

/-- The same for what only a step that is not refused is known to keep. -/
theorem accepted_induction {P : Diagram → Prop}
    (hstep : ∀ d s, (d.step s).2.isOk = true → P d → P (d.step s).1) {d : Diagram} (h : P d)
    {steps : List Step} (haccept : d.accepts steps = true) : P (d.run steps) := by
  induction steps generalizing d with
  | nil => exact h
  | cons s rest ih =>
      rw [accepts, Bool.and_eq_true] at haccept
      exact ih (hstep d s haccept.1 h) haccept.2

theorem run_concat (d : Diagram) (steps : List Step) (s : Step) :
    d.run (steps ++ [s]) = ((d.run steps).step s).1 := by
  rw [run, List.foldl_append]
  rfl

theorem run_append (d : Diagram) (steps later : List Step) :
    d.run (steps ++ later) = (d.run steps).run later :=
  List.foldl_append

theorem accepts_append (d : Diagram) (steps later : List Step) :
    d.accepts (steps ++ later) = (d.accepts steps && (d.run steps).accepts later) := by
  induction steps generalizing d with
  | nil => rfl
  | cons first rest ih =>
      rw [List.cons_append, accepts, accepts, ih, Bool.and_assoc]
      rfl

theorem accepts_concat (d : Diagram) (steps : List Step) (s : Step) :
    d.accepts (steps ++ [s]) = (d.accepts steps && ((d.run steps).step s).2.isOk) := by
  rw [accepts_append, accepts, accepts, Bool.and_true]

theorem Reached.step {d : Diagram} (h : d.Reached) {s : Step}
    (haccept : (d.step s).2.isOk = true) : (d.step s).1.Reached := by
  obtain ⟨options, steps, hsteps, rfl⟩ := h
  exact ⟨options, steps ++ [s], by rw [accepts_concat, hsteps, haccept, Bool.true_and],
    run_concat _ _ _⟩

/-! ## Places -/

/-- The nodes that stand in a place: in the group of a key, or among the external nodes. -/
def residents (d : Diagram) : Option Key → Table String Node
  | none => d.external
  | some k => ((d.groups.get? k).map Group.members).getD .empty

/-- The diagram in which the node of an identifier has left its place, if the group that is wanted
now is another one. -/
def vacate (d : Diagram) (id : String) (wanted : Option Value) : Diagram :=
  match d.nodes.get? id with
  | some previous => if leaves previous.group wanted then d.release previous.group id else d
  | none => d

theorem residents_of_group {d : Diagram} {k : Key} {group : Group}
    (h : d.groups.get? k = some group) : d.residents (some k) = group.members := by
  rw [residents, h]
  rfl

theorem residents_congr {d e : Diagram} (hgroups : d.groups = e.groups)
    (hexternal : d.external = e.external) : d.residents = e.residents := by
  funext home
  cases home with
  | none => exact hexternal
  | some k => rw [residents, residents, hgroups]

theorem residents_with_edges (d : Diagram) (edges : List Edge) :
    ({ d with edges } : Diagram).residents = d.residents :=
  residents_congr rfl rfl

section Release

variable (d : Diagram) (group : Option GroupName) (id : String)

theorem exists_release_eq :
    ∃ groups external, d.release group id = { d with groups := groups, external := external } := by
  unfold release
  split
  · exact ⟨_, _, rfl⟩
  · split
    · exact ⟨_, _, rfl⟩
    · dsimp only
      split <;> exact ⟨_, _, rfl⟩

@[simp] theorem nodes_release : (d.release group id).nodes = d.nodes := by
  obtain ⟨_, _, heq⟩ := d.exists_release_eq group id
  rw [heq]

@[simp] theorem options_release : (d.release group id).options = d.options := by
  obtain ⟨_, _, heq⟩ := d.exists_release_eq group id
  rw [heq]

@[simp] theorem edges_release : (d.release group id).edges = d.edges := by
  obtain ⟨_, _, heq⟩ := d.exists_release_eq group id
  rw [heq]

theorem external_release :
    (d.release group id).external = if group = none then d.external.erase id else d.external := by
  unfold release
  cases group with
  | none => rfl
  | some name =>
      dsimp only
      split
      · rfl
      · split <;> rfl

/-- A group that a node leaves is there afterwards if it holds another one. -/
theorem get?_groups_release (k : Key) :
    (d.release group id).groups.get? k =
      if group.map GroupName.key = some k then
        ((d.groups.get? k).map (·.without id)).filter fun rest => !rest.members.isEmpty
      else d.groups.get? k := by
  cases group with
  | none => rfl
  | some name =>
      simp only [Option.map_some, Option.some.injEq, release]
      cases hg : d.groups.get? name.key with
      | none =>
          by_cases hk : name.key = k
          · subst hk
            simp [hg]
          · simp [hk]
      | some group =>
          by_cases hempty : (group.members.erase id).isEmpty = true
          · by_cases hk : name.key = k
            · subst hk
              simp [hempty, hg, Group.without, Option.filter]
            · simp [hempty, hk, Table.get?_erase, Ne.symm hk]
          · by_cases hk : name.key = k
            · subst hk
              simp [hempty, hg, Group.without, Option.filter]
            · simp [hempty, hk, Table.get?_insert, Ne.symm hk]

theorem residents_release (home : Option Key) :
    (d.release group id).residents home =
      if home = group.map GroupName.key then (d.residents home).erase id else d.residents home := by
  cases home with
  | none =>
      cases group <;> simp [residents, external_release]
  | some k =>
      rw [residents, residents, get?_groups_release]
      by_cases hk : group.map GroupName.key = some k
      · rw [if_pos hk, if_pos hk.symm]
        cases d.groups.get? k with
        | none => rfl
        | some group =>
            -- A group that is dropped and a group without members have the same residents.
            by_cases hempty : (group.members.erase id).isEmpty = true
            · have herase : group.members.erase id = .empty :=
                Table.ext (List.isEmpty_iff.1 hempty)
              have hgone : ((some group).map (·.without id)).filter
                  (fun rest => !rest.members.isEmpty) = none := by
                simp [Group.without, Option.filter, hempty]
              rw [hgone]
              exact herase.symm
            · simp [Group.without, Option.filter, hempty]
      · rw [if_neg hk, if_neg (Ne.symm hk)]

theorem get?_residents_release (home : Option Key) (other : String) :
    ((d.release group id).residents home).get? other =
      if home = group.map GroupName.key ∧ other = id then none
      else (d.residents home).get? other := by
  rw [residents_release]
  by_cases hhome : home = group.map GroupName.key
  · rw [if_pos hhome, Table.get?_erase]
    simp only [hhome, true_and]
  · rw [if_neg hhome, if_neg fun h => hhome h.1]

theorem nodes_remove (n : Node) : (d.remove id n).nodes = d.nodes.erase id := by
  show (d.release n.group id).nodes.erase id = d.nodes.erase id
  rw [nodes_release]

theorem residents_remove (n : Node) :
    (d.remove id n).residents = (d.release n.group id).residents :=
  residents_congr rfl rfl

end Release

section Place

variable (d : Diagram) (n : Node)

theorem exists_place_eq : ∃ groups external, d.place n =
    { d with nodes := d.nodes.insert n.id n, groups := groups, external := external } := by
  unfold place
  dsimp only
  split <;> exact ⟨_, _, rfl⟩

@[simp] theorem nodes_place : (d.place n).nodes = d.nodes.insert n.id n := by
  obtain ⟨_, _, heq⟩ := d.exists_place_eq n
  rw [heq]

@[simp] theorem options_place : (d.place n).options = d.options := by
  obtain ⟨_, _, heq⟩ := d.exists_place_eq n
  rw [heq]

@[simp] theorem edges_place : (d.place n).edges = d.edges := by
  obtain ⟨_, _, heq⟩ := d.exists_place_eq n
  rw [heq]

theorem external_place :
    (d.place n).external = if n.group = none then d.external.insert n.id n else d.external := by
  unfold place
  cases n.group <;> rfl

theorem get?_groups_place (k : Key) :
    (d.place n).groups.get? k =
      match n.group with
      | none => d.groups.get? k
      | some name =>
        if name.key = k then some (((d.groups.get? k).getD ⟨name, .empty⟩).with n)
        else d.groups.get? k := by
  unfold place
  cases n.group with
  | none => rfl
  | some name =>
      by_cases hk : name.key = k
      · subst hk
        simp [Group.with]
      · simp [hk, Table.get?_insert, Ne.symm hk]

theorem residents_place (home : Option Key) :
    (d.place n).residents home =
      if home = n.home then (d.residents home).insert n.id n else d.residents home := by
  cases home with
  | none =>
      unfold Node.home
      cases hgroup : n.group <;> simp [residents, external_place, hgroup]
  | some k =>
      unfold Node.home
      rw [residents, residents, get?_groups_place]
      cases n.group with
      | none => rfl
      | some name =>
          by_cases hk : name.key = k
          · subst hk
            cases d.groups.get? name.key <;> simp [Group.with]
          · simp [hk, Ne.symm hk]

theorem get?_residents_place (home : Option Key) (id : String) :
    ((d.place n).residents home).get? id =
      if home = n.home ∧ id = n.id then some n else (d.residents home).get? id := by
  rw [residents_place]
  by_cases hhome : home = n.home
  · rw [if_pos hhome, Table.get?_insert]
    simp only [hhome, true_and]
  · rw [if_neg hhome, if_neg fun h => hhome h.1]

end Place

/-! ## What a step does -/

theorem vacate_induction {P : Diagram → Prop} {d : Diagram} (id : String) (wanted : Option Value)
    (h : P d) (hrelease : ∀ group, P (d.release group id)) : P (d.vacate id wanted) := by
  unfold vacate
  split
  · split
    · exact hrelease _
    · exact h
  · exact h

theorem nodes_vacate (d : Diagram) (id : String) (wanted : Option Value) :
    (d.vacate id wanted).nodes = d.nodes :=
  vacate_induction (P := fun e => e.nodes = d.nodes) id wanted rfl
    fun group => d.nodes_release group id

theorem options_vacate (d : Diagram) (id : String) (wanted : Option Value) :
    (d.vacate id wanted).options = d.options :=
  vacate_induction (P := fun e => e.options = d.options) id wanted rfl
    fun group => d.options_release group id

theorem edges_vacate (d : Diagram) (id : String) (wanted : Option Value) :
    (d.vacate id wanted).edges = d.edges :=
  vacate_induction (P := fun e => e.edges = d.edges) id wanted rfl
    fun group => d.edges_release group id

/-- Registering puts a fresh node in its place once the node it replaces has made room, or is
refused for a group that cannot be a key. -/
theorem register_cases (d : Diagram) (name : Value) (attributes : Attributes) (missing : Bool) :
    (∃ group : Option GroupName,
      (if missing then none else attributes.wantedGroup?) = group.map GroupName.value ∧
      d.register name attributes missing =
        ((d.vacate (Identifier.ofNode name) (group.map GroupName.value)).place
          (.fresh name attributes group missing), .ok (.fresh name attributes group missing))) ∨
    (∃ v, missing = false ∧ attributes.wantedGroup? = some v ∧ v.key? = none ∧
      d.register name attributes missing =
        (d.vacate (Identifier.ofNode name) (some v), .error .notAKey)) := by
  -- The outcomes differ only where a group is wanted: it can be a key or it cannot.
  cases hwanted : (if missing then none else attributes.wantedGroup?) with
  | none =>
      refine Or.inl ⟨none, rfl, ?_⟩
      simp only [register, hwanted]
      rfl
  | some v =>
      have hmissing : missing = false := by
        cases missing with
        | false => rfl
        | true => cases hwanted
      subst hmissing
      simp only [Bool.false_eq_true, if_false] at hwanted
      cases hgroup : GroupName.ofValue? v with
      | none =>
          have hkey : v.key? = none := by
            unfold GroupName.ofValue? at hgroup
            split at hgroup
            · cases hgroup
            · assumption
          refine Or.inr ⟨v, rfl, hwanted, hkey, ?_⟩
          simp only [register, hwanted, hgroup, Bool.false_eq_true, if_false]
          rfl
      | some group =>
          have hvalue : group.value = v := by
            unfold GroupName.ofValue? at hgroup
            split at hgroup
            · cases hgroup
              rfl
            · cases hgroup
          subst hvalue
          refine Or.inl ⟨some group, rfl, ?_⟩
          simp only [register, hwanted, hgroup, Bool.false_eq_true, if_false]
          rfl

theorem register_eq_error_iff {d : Diagram} {name : Value} {attributes : Attributes}
    {cause : Misfit} :
    (d.register name attributes false).2 = .error cause ↔
      cause = .notAKey ∧ ∃ v, attributes.wantedGroup? = some v ∧ v.key? = none := by
  rcases register_cases d name attributes false with
    ⟨group, hgroup, heq⟩ | ⟨v, -, hwanted, hv, heq⟩
  · rw [heq]
    refine iff_of_false nofun ?_
    rintro ⟨-, v, hwanted, hv⟩
    rw [if_neg Bool.false_ne_true, hwanted] at hgroup
    cases group with
    | none => cases hgroup
    | some group =>
        cases hgroup
        rw [group.key_eq] at hv
        cases hv
  · rw [heq]
    constructor
    · rintro ⟨⟩
      exact ⟨rfl, v, hwanted, hv⟩
    · rintro ⟨rfl, -⟩
      rfl

theorem synthesizeEnds_induction {P : Diagram → Prop}
    (hregister : ∀ d name attributes, P d → P (d.register name attributes true).1)
    (ends : List (Value × String)) {d : Diagram} (h : P d) : P (synthesizeEnds ends d).1 := by
  induction ends generalizing d with
  | nil => exact h
  | cons entry rest ih =>
      obtain ⟨name, id⟩ := entry
      rw [synthesizeEnds]
      split
      · exact ih h
      · split
        · exact h
        · next attributes _ =>
          have hafter := hregister d name attributes h
          split
          · next hr =>
            rw [hr] at hafter
            exact hafter
          · next hr =>
            rw [hr] at hafter
            exact ih hafter

theorem pruneNodes_induction {P : Diagram → Prop}
    (hremove : ∀ d id n, d.nodes.get? id = some n → P d → P (d.remove id n))
    (connected : List String) {entries : List (String × Node)} {d : Diagram}
    (hnodup : (entries.map Prod.fst).Nodup)
    (hmem : ∀ entry ∈ entries, d.nodes.get? entry.1 = some entry.2) (h : P d) :
    P (pruneNodes connected entries d).1 := by
  induction entries generalizing d with
  | nil => exact h
  | cons entry rest ih =>
      obtain ⟨id, n⟩ := entry
      rw [List.map_cons, List.nodup_cons] at hnodup
      have hrest : ∀ entry ∈ rest, d.nodes.get? entry.1 = some entry.2 :=
        fun entry he => hmem entry (List.mem_cons_of_mem _ he)
      rw [pruneNodes]
      split
      · exact ih hnodup.2 hrest h
      · have hid : d.nodes.get? id = some n := hmem (id, n) List.mem_cons_self
        -- The entries to come have other identifiers and are indexed as before.
        refine ih hnodup.2 ?_ (hremove d id n hid h)
        intro entry he
        have hne : entry.1 ≠ id := by
          rintro rfl
          exact hnodup.1 (List.mem_map.2 ⟨entry, he, rfl⟩)
        rw [nodes_remove, Table.get?_erase_of_ne _ hne]
        exact hrest entry he

/-- What registering, removing an indexed node and adding an edge keep, every step keeps. Only a
node that is not registered as missing can be refused, and its step with it. -/
theorem step_induction {P : Diagram → Prop} {d : Diagram} {s : Step}
    (hnode : ∀ name attributes, (d.register name attributes false).2.isOk = (d.step s).2.isOk →
      P (d.register name attributes false).1)
    (hmissing : ∀ d name attributes, P d → P (d.register name attributes true).1)
    (hremove : ∀ d id n, d.nodes.get? id = some n → P d → P (d.remove id n))
    (hedge : ∀ source target attributes, P { d with
      edges := d.edges ++
        [⟨source, Identifier.ofNode source, target, Identifier.ofNode target, attributes⟩] })
    (h : P d) : P (d.step s).1 := by
  cases s with
  | node name attributes extra =>
      simp only [step, addNode]
      split
      · next combined hcombined =>
        apply hnode name combined
        simp only [step, addNode, hcombined, isOk_map]
      · exact h
  | edge source target attributes extra =>
      simp only [step, addEdge]
      split
      · exact hedge source target _
      · exact h
  | synthesize => exact synthesizeEnds_induction hmissing d.ends h
  | prune =>
      exact pruneNodes_induction hremove _ d.nodes.nodup_keys
        (fun _ he => Table.mem_entries_iff.1 he) h

/-! ## Options and edges -/

theorem options_register (d : Diagram) (name : Value) (attributes : Attributes) (missing : Bool) :
    (d.register name attributes missing).1.options = d.options := by
  rcases register_cases d name attributes missing with ⟨_, _, heq⟩ | ⟨_, _, _, _, heq⟩
  · rw [heq, options_place, options_vacate]
  · rw [heq, options_vacate]

theorem edges_register (d : Diagram) (name : Value) (attributes : Attributes) (missing : Bool) :
    (d.register name attributes missing).1.edges = d.edges := by
  rcases register_cases d name attributes missing with ⟨_, _, heq⟩ | ⟨_, _, _, _, heq⟩
  · rw [heq, edges_place, edges_vacate]
  · rw [heq, edges_vacate]

theorem edges_synthesize (d : Diagram) : d.synthesize.1.edges = d.edges :=
  synthesizeEnds_induction (P := fun e => e.edges = d.edges)
    (fun e name attributes he => (e.edges_register name attributes true).trans he) d.ends rfl

theorem Reached.synthesize {d after : Diagram} {created : List Node} (h : d.Reached)
    (hsynthesize : d.synthesize = (after, .ok created)) : after.Reached := by
  have hstep : d.step .synthesize = (after, .ok ()) := by
    rw [Diagram.step, hsynthesize]
    rfl
  have hafter := h.step (s := .synthesize) (by rw [hstep]; rfl)
  rwa [hstep] at hafter

theorem options_step (d : Diagram) (s : Step) : (d.step s).1.options = d.options := by
  apply step_induction (P := fun e => e.options = d.options)
  · intro name attributes _
    exact d.options_register name attributes false
  · intro e name attributes he
    exact (e.options_register name attributes true).trans he
  · intro e id n _ he
    exact (e.options_release n.group id).trans he
  · intro source target attributes
    rfl
  · rfl

theorem run_options (d : Diagram) (steps : List Step) : (d.run steps).options = d.options :=
  run_induction (P := fun e => e.options = d.options)
    (fun e s h => (e.options_step s).trans h) rfl steps

theorem options_run (options : Options) (steps : List Step) :
    ((new options).run steps).options = options :=
  (new options).run_options steps

end Diagram

end HighlightGraph
