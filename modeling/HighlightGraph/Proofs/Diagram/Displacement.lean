import HighlightGraph.Proofs.Diagram.LastCall
import HighlightGraph.Proofs.Diagram.Refusal
/-!
# Nodes that have lost their place

Runs that go on after refused steps. A node call that is refused can leave a node in the index that
stands in no place. That is all the damage there is: every other node of the index stands in one
place with its own record, and the next call for the identifier that is not refused puts it in place
again.
-/

namespace HighlightGraph

structure Moment where
  diagram : Diagram
  step : Step

namespace Moment

/-- Whether a step registers an identifier: by a node call that is not refused, or by a missing
node that synthesis creates. -/
def Registers (m : Moment) (id : String) : Prop :=
  match m.step with
  | .node name attributes extra =>
    id = Identifier.ofNode name ∧ (m.diagram.addNode name attributes extra).2.isOk = true
  | .edge .. => False
  | .synthesize => ∃ created, m.diagram.synthesize.2 = .ok created ∧ id ∈ created.map Node.id
  | .prune => False

def Refuses (m : Moment) (id : String) : Prop :=
  m.step.id? = some id ∧ (m.diagram.step m.step).2.isOk = false

/-- Whether a node call for an identifier has been refused since its last registration. -/
def RefusedSince (id : String) (moments : List Moment) : Prop :=
  ∃ before registration since, moments = before ++ registration :: since ∧
    registration.Registers id ∧ (∀ m ∈ since, ¬ m.Registers id) ∧ ∃ m ∈ since, m.Refuses id

end Moment

namespace Diagram

def moments (d : Diagram) : List Step → List Moment
  | [] => []
  | s :: rest => ⟨d, s⟩ :: (d.step s).1.moments rest

/-- Whether an identifier is in the index but stands in no place. -/
def Displaced (d : Diagram) (id : String) : Prop :=
  d.nodes.contains id = true ∧ ∀ home, (d.residents home).contains id = false

theorem moments_concat (d : Diagram) (steps : List Step) (s : Step) :
    d.moments (steps ++ [s]) = d.moments steps ++ [⟨d.run steps, s⟩] := by
  induction steps generalizing d with
  | nil => rfl
  | cons first rest ih =>
      rw [List.cons_append, moments, moments, ih]
      rfl

theorem Displaced.not_inPlace {d : Diagram} {id : String} (h : d.Displaced id) :
    ¬ d.InPlace id := by
  intro hplace
  obtain ⟨n, hn⟩ := Table.contains_iff.1 h.1
  have hhome := h.2 n.home
  rw [Table.contains_eq_false_iff, hplace n hn] at hhome
  cases hhome

theorem inPlace_of_absent {d : Diagram} {id : String} (h : d.nodes.contains id = false) :
    d.InPlace id := by
  intro n hn
  rw [Table.contains_eq_false_iff, hn] at h
  cases h

/-! ## One step -/

/-- A place is lost by a refused node call only. -/
theorem InPlace.step {d : Diagram} {id : String} (h : d.InPlace id) {s : Step}
    (hrefused : ¬ Moment.Refuses ⟨d, s⟩ id) : (d.step s).1.InPlace id := by
  cases s with
  | node name attributes extra =>
      have haccept : id = Identifier.ofNode name →
          (d.step (.node name attributes extra)).2.isOk = true := by
        intro hid
        rw [← Bool.not_eq_false]
        exact fun hfalse => hrefused ⟨congrArg some hid.symm, hfalse⟩
      simp only [Diagram.step, addNode, isOk_map] at haccept ⊢
      split at haccept
      · exact InPlace.register (fun _ => h) haccept
      · exact h
  | edge source target attributes extra =>
      simp only [Diagram.step, addEdge]
      split
      · intro n hn
        rw [residents_with_edges]
        exact h n hn
      · exact h
  | synthesize =>
      apply synthesizeEnds_induction (P := fun e => e.InPlace id) _ d.ends h
      intro e name attributes he
      exact InPlace.register (fun _ => he) fun _ => isOk_register_missing e name attributes
  | prune =>
      apply prune_induction (P := fun e => e.InPlace id) _ h
      intro e other n _ he
      exact he.remove other n

/-- A registration puts its node in place, whatever came before it. -/
theorem WellFormed.inPlace_of_registers {d : Diagram} (h : d.WellFormed) {id : String} {s : Step}
    (hregisters : Moment.Registers ⟨d, s⟩ id) : (d.step s).1.InPlace id := by
  cases s with
  | node name attributes extra =>
      obtain ⟨hid, haccept⟩ := hregisters
      simp only [addNode] at haccept
      simp only [Diagram.step, addNode]
      split at haccept
      · exact InPlace.register (absurd hid) fun _ => haccept
      · cases haccept
  | synthesize =>
      -- Only absent identifiers are created, so there is no old record to be out of place.
      obtain ⟨created, hcreated, hid⟩ := hregisters
      have habsent := ((h.mem_created_iff (Prod.ext rfl hcreated)).1 hid).2
      have hrefused : ¬ Moment.Refuses ⟨d, .synthesize⟩ id := by
        rintro ⟨hname, -⟩
        cases hname
      exact (inPlace_of_absent habsent).step hrefused
  | edge => cases hregisters
  | prune => cases hregisters

/-- Only a registration brings an identifier into the index. -/
theorem WellFormed.contains_of_contains_step {d : Diagram} (h : d.WellFormed) {id : String}
    {s : Step} (hregisters : ¬ Moment.Registers ⟨d, s⟩ id)
    (hid : (d.step s).1.nodes.contains id = true) : d.nodes.contains id = true := by
  cases hok : (d.step s).2.isOk with
  | false =>
      rw [h.refused_step hok] at hid
      split at hid
      · rwa [nodes_release] at hid
      · exact hid
  | true =>
      cases s with
      | node name attributes extra =>
          have hok : (d.addNode name attributes extra).2.isOk = true :=
            (isOk_map _ _).symm.trans hok
          obtain ⟨n, hn⟩ := exists_ok_of_isOk hok
          obtain ⟨hn, hnodes, -⟩ := addNode_eq_ok hn
          have hname : n.id = Identifier.ofNode name := (Option.some.inj hn.id).symm
          have hne : id ≠ n.id := fun heq => hregisters ⟨heq.trans hname, hok⟩
          change (d.addNode name attributes extra).1.nodes.contains id = true at hid
          rwa [hnodes, Table.contains, Table.get?_insert_of_ne _ hne] at hid
      | edge source target attributes extra =>
          simp only [Diagram.step, addEdge] at hid
          split at hid <;> exact hid
      | synthesize =>
          obtain ⟨created, hcreated⟩ := exists_ok_of_isOk ((isOk_map _ _).symm.trans hok)
          change d.synthesize.1.nodes.contains id = true at hid
          rw [h.contains_nodes_synthesize (Prod.ext rfl hcreated), Bool.or_eq_true,
            List.contains_iff_mem] at hid
          exact hid.resolve_right fun hmem => hregisters ⟨created, hcreated, hmem⟩
      | prune => exact (contains_nodes_prune.1 hid).1

/-! ## Runs -/

/-- Every identifier of the index has been registered, and since the last time it stands in its
place or has met a refused call. -/
theorem exists_registration (options : Options) (steps : List Step) {id : String}
    (hid : ((new options).run steps).nodes.contains id = true) :
    ∃ before registration since,
      (new options).moments steps = before ++ registration :: since ∧
      registration.Registers id ∧ (∀ m ∈ since, ¬ m.Registers id) ∧
      (((new options).run steps).InPlace id ∨ ∃ m ∈ since, m.Refuses id) := by
  induction steps using List.reverseRecOn with
  | nil => cases hid
  | append_singleton steps s ih =>
      have hd := wellFormed_run options steps
      rw [run_concat] at hid ⊢
      rw [moments_concat]
      generalize hnow : (⟨(new options).run steps, s⟩ : Moment) = now
      -- A step that registers starts afresh; any other keeps the registration found before.
      by_cases hregisters : now.Registers id
      · subst hnow
        exact ⟨_, _, [], rfl, hregisters, nofun, .inl (hd.inPlace_of_registers hregisters)⟩
      · have hbefore : ((new options).run steps).nodes.contains id = true := by
          subst hnow
          exact hd.contains_of_contains_step hregisters hid
        obtain ⟨before, registration, since, heq, hregistration, hlast, hplace⟩ := ih hbefore
        refine ⟨before, registration, since ++ [now], ?_, hregistration, ?_, ?_⟩
        · rw [heq, List.append_assoc, List.cons_append]
        · intro m hm
          rcases List.mem_append.1 hm with hm | hm
          · exact hlast m hm
          · rwa [List.mem_singleton.1 hm]
        · by_cases hrefuses : now.Refuses id
          · exact .inr ⟨now, List.mem_append_right _ (List.mem_singleton_self now), hrefuses⟩
          · rcases hplace with hplace | ⟨m, hm, hrefused⟩
            · subst hnow
              exact .inl (hplace.step hrefuses)
            · exact .inr ⟨m, List.mem_append_left _ hm, hrefused⟩

theorem Displaced.refusedSince {options : Options} {steps : List Step} {id : String}
    (h : ((new options).run steps).Displaced id) :
    Moment.RefusedSince id ((new options).moments steps) := by
  obtain ⟨before, registration, since, heq, hregistration, hlast, hplace⟩ :=
    exists_registration options steps h.1
  exact ⟨before, registration, since, heq, hregistration, hlast,
    hplace.resolve_left h.not_inPlace⟩

theorem WellFormed.existsUnique_home_of_node {d : Diagram} (h : d.WellFormed) (hfiled : d.Filed)
    {name attributes : Value} {extra : List (String × Value)}
    (haccept : (d.step (.node name attributes extra)).2.isOk = true) :
    ∃! home, ((d.step (.node name attributes extra)).1.residents home).contains
      (Identifier.ofNode name) = true := by
  have hok : (d.addNode name attributes extra).2.isOk = true := (isOk_map _ _).symm.trans haccept
  have hplace : (d.step (.node name attributes extra)).1.InPlace (Identifier.ofNode name) :=
    h.inPlace_of_registers ⟨rfl, hok⟩
  apply hplace.existsUnique_home (hfiled.step _)
  obtain ⟨n, hn⟩ := exists_ok_of_isOk hok
  obtain ⟨hn, hnodes, -⟩ := addNode_eq_ok hn
  have hid : n.id = Identifier.ofNode name := (Option.some.inj hn.id).symm
  show (d.addNode name attributes extra).1.nodes.contains (Identifier.ofNode name) = true
  rw [hnodes, Table.contains, ← hid, Table.get?_insert_self]
  rfl

/-- Whatever steps of a run are refused, no node stands in two places, every place holds the records
of the index that belong there, and no group is empty. A node of the index without a place has met
a refused call since its last registration, and a call for it that is not refused puts it in one
place again. -/
theorem displacement_is_confined_and_heals (options : Options) (steps : List Step) :
    let d := (new options).run steps
    (∀ id home other, (d.residents home).contains id = true →
        (d.residents other).contains id = true → home = other) ∧
      (∀ home id n, (d.residents home).get? id = some n →
        d.nodes.get? id = some n ∧ n.home = home) ∧
      (∀ k group, d.groups.get? k = some group → group.members.isEmpty = false) ∧
      (∀ id, d.Displaced id → Moment.RefusedSince id ((new options).moments steps)) ∧
      ∀ later name attributes extra,
        ((d.run later).step (.node name attributes extra)).2.isOk = true →
          ∃! home, (((d.run later).step (.node name attributes extra)).1.residents home).contains
            (Identifier.ofNode name) = true := by
  intro d
  have hd : d.WellFormed := wellFormed_run options steps
  have hfiled : d.Filed := filed_run options steps
  refine ⟨fun _ _ _ => home_unique hfiled, hfiled, fun _ _ hgroup => (hd.groups hgroup).2,
    fun _ => Displaced.refusedSince, ?_⟩
  intro later name attributes extra haccept
  have hlater : d.run later = (new options).run (steps ++ later) := (run_append _ _ _).symm
  rw [hlater] at haccept ⊢
  exact (wellFormed_run options _).existsUnique_home_of_node (filed_run options _) haccept

/-- `A` leaves group `x` for a list and stands nowhere, while `B` makes a new group `x` and pruning
passes by; a further call brings `A` back into this group. -/
theorem displaced_node_heals :
    let steps : List Step :=
      [.node (.str "A") .null [("group", .str "x")], .edge (.str "A") (.str "B") .null [],
        .node (.str "a") .null [("group", .list [.int 1])],
        .node (.str "B") .null [("group", .str "x")], .prune]
    let d := (new .defaults).run steps
    let healed := (d.step (.node (.str "A") .null [("group", .str "x")])).1
    d.Displaced "r_a" ∧ Moment.RefusedSince "r_a" ((new .defaults).moments steps) ∧
      (∃! home, (healed.residents home).contains "r_a" = true) ∧
      (healed.residents (some (.text "x"))).keys = ["r_b", "r_a"] := by
  intro steps d healed
  obtain ⟨-, hfiled, -, hrefused, hheals⟩ := displacement_is_confined_and_heals .defaults steps
  have hid : Identifier.ofNode (.str "A") = "r_a" := by decide +kernel
  have hdisplaced : d.Displaced "r_a" := by
    refine ⟨by decide +kernel, fun home => ?_⟩
    rw [Table.contains_eq_false_iff, Option.eq_none_iff_forall_ne_some]
    intro n hn
    obtain ⟨hindexed, rfl⟩ := hfiled home "r_a" n hn
    have hhome : (d.nodes.get? "r_a").map Node.home = some (some (.text "x")) := by decide +kernel
    rw [hindexed, Option.map_some, Option.some.injEq] at hhome
    have hgone : (d.residents (some (.text "x"))).contains "r_a" = false := by decide +kernel
    rw [← hhome, Table.contains_eq_false_iff, hn] at hgone
    cases hgone
  refine ⟨hdisplaced, hrefused "r_a" hdisplaced, ?_, by decide +kernel⟩
  rw [← hid]
  exact hheals [] (.str "A") .null [("group", .str "x")] (by decide +kernel)

end Diagram

end HighlightGraph
