import HighlightGraph.Proofs.Document.Entries
/-!
# Loading a document

Loading takes one entry after the other and stops at the first that is not taken. A document is
therefore loaded, or refused with a fault, unless it comes to a node that cannot be placed.
-/

namespace HighlightGraph.Document

/-! ## Entries one after the other -/

section Entries

variable {load : Diagram → Nat → Value → Except LoadError Diagram} {index : Nat}
  {entries : List Value} {d : Diagram}

theorem loadEntries_append (load : Diagram → Nat → Value → Except LoadError Diagram) (index : Nat)
    (before rest : List Value) (d : Diagram) :
    loadEntries load index (before ++ rest) d =
      (loadEntries load index before d >>= loadEntries load (index + before.length) rest) := by
  induction before generalizing index d with
  | nil => rfl
  | cons first before ih =>
      rw [List.cons_append, loadEntries, loadEntries]
      cases load d index first with
      | error cause => rfl
      | ok next =>
          -- Both sides count on from the entry that was taken.
          have hcount : index + (first :: before).length = index + 1 + before.length := by
            rw [List.length_cons]
            omega
          rw [hcount]
          exact ih (index + 1) next

/-- Loading stops at the first entry that is not taken. -/
theorem loadEntries_eq_error_iff {cause : LoadError} :
    loadEntries load index entries d = .error cause ↔
      ∃ before entry after e, entries = before ++ entry :: after ∧
        loadEntries load index before d = .ok e ∧
        load e (index + before.length) entry = .error cause := by
  constructor
  · intro h
    induction entries generalizing index d with
    | nil => cases h
    | cons first rest ih =>
        rw [loadEntries] at h
        cases hfirst : load d index first with
        | error e =>
            rw [hfirst] at h
            cases h
            exact ⟨[], first, rest, d, rfl, rfl, hfirst⟩
        | ok next =>
            rw [hfirst] at h
            obtain ⟨before, entry, after, e, rfl, hbefore, hentry⟩ := ih h
            refine ⟨first :: before, entry, after, e, rfl, ?_, ?_⟩
            · rw [loadEntries, hfirst]
              exact hbefore
            · rw [List.length_cons, Nat.add_comm before.length, ← Nat.add_assoc]
              exact hentry
  · rintro ⟨before, entry, after, e, rfl, hbefore, hentry⟩
    rw [loadEntries_append, hbefore]
    show (load e (index + before.length) entry >>= _) = _
    rw [hentry]
    rfl

theorem exists_loadEntries_iff {Fits : Nat → Value → Prop}
    (hload : ∀ d index, ∀ entry ∈ entries, (∃ e, load d index entry = .ok e) ↔ Fits index entry) :
    (∃ e, loadEntries load index entries d = .ok e) ↔
      ∀ i entry, entries[i]? = some entry → Fits (index + i) entry := by
  -- The diagram is general: what an entry comes to does not depend on the entries before it.
  induction entries generalizing index d with
  | nil => exact iff_of_true ⟨d, rfl⟩ nofun
  | cons first rest ih =>
      have hfirst := hload d index first List.mem_cons_self
      have hrest := fun d index entry hentry => hload d index entry (List.mem_cons_of_mem _ hentry)
      constructor
      · rintro ⟨e, h⟩ i entry hentry
        obtain ⟨next, hnext, h⟩ := bind_eq_ok h
        cases i with
        | zero =>
            cases hentry
            exact hfirst.1 ⟨next, hnext⟩
        | succ i =>
            have hfits := (ih hrest).1 ⟨e, h⟩ i entry hentry
            rwa [Nat.add_right_comm] at hfits
      · intro hfits
        obtain ⟨next, hnext⟩ := hfirst.2 (hfits 0 first rfl)
        rw [loadEntries, hnext]
        apply (ih hrest).2
        intro i entry hentry
        have := hfits (i + 1) entry hentry
        rwa [Nat.add_right_comm]

/-- What the loading of an entry keeps, the loading of all entries keeps. -/
theorem loadEntries_induction {P : Diagram → Prop}
    (hload : ∀ d index entry e, entry ∈ entries → P d → load d index entry = .ok e → P e)
    (hd : P d) {e : Diagram} (h : loadEntries load index entries d = .ok e) : P e := by
  induction entries generalizing index d with
  | nil =>
      cases h
      exact hd
  | cons first rest ih =>
      obtain ⟨next, hnext, h⟩ := bind_eq_ok h
      exact ih (fun d index entry e hentry => hload d index entry e (List.mem_cons_of_mem _ hentry))
        (hload d index first next List.mem_cons_self hd hnext) h

end Entries

/-! ## Loaded diagrams -/

theorem exists_step_of_loadNode {d e : Diagram} {index : Nat} {entry : Value}
    (h : loadNode d index entry = .ok e) :
    ∃ s : Step, (d.step s).2.isOk = true ∧ (d.step s).1 = e := by
  obtain ⟨n, -, h⟩ := bind_eq_ok h
  obtain ⟨node, hadd⟩ := stepped_eq_ok h
  have hstep : d.step (.node (.str n.name) (.map n.allAttributes) []) = (e, .ok ()) := by
    rw [Diagram.step, hadd]
    rfl
  exact ⟨_, by rw [hstep]; rfl, by rw [hstep]⟩

theorem exists_step_of_loadEdge {d e : Diagram} {index : Nat} {entry : Value}
    (h : loadEdge d index entry = .ok e) :
    ∃ s : Step, (d.step s).2.isOk = true ∧ (d.step s).1 = e := by
  obtain ⟨declared, -, h⟩ := bind_eq_ok h
  obtain ⟨edge, hadd⟩ := stepped_eq_ok h
  have hstep : d.step (.edge (.str declared.source) (.str declared.target)
      (.map declared.attributes) []) = (e, .ok ()) := by
    rw [Diagram.step, hadd]
    rfl
  exact ⟨_, by rw [hstep]; rfl, by rw [hstep]⟩

/-- A loaded diagram is what a run without refusals makes of its options. -/
theorem exists_run_of_ofDocument {document : Value} {d : Diagram}
    (h : Diagram.ofDocument document = .ok d) :
    ∃ sections options steps, document = .map sections ∧
      Document.options (field sections "options") = .ok options ∧
      (Diagram.new options).accepts steps = true ∧ (Diagram.new options).run steps = d := by
  cases document with
  | map sections =>
      obtain ⟨options, hoptions, h⟩ := bind_eq_ok h
      obtain ⟨nodes, -, h⟩ := bind_eq_ok h
      obtain ⟨edges, -, h⟩ := bind_eq_ok h
      obtain ⟨filled, hfilled, h⟩ := bind_eq_ok h
      let RunOf : Diagram → Prop := fun e =>
        ∃ steps, (Diagram.new options).accepts steps = true ∧ (Diagram.new options).run steps = e
      have hconcat : ∀ d e, RunOf d →
          (∃ s : Step, (d.step s).2.isOk = true ∧ (d.step s).1 = e) → RunOf e := by
        rintro _ _ ⟨steps, haccept, rfl⟩ ⟨s, hs, rfl⟩
        exact ⟨steps ++ [s], by rw [Diagram.accepts_concat, haccept, hs, Bool.true_and],
          Diagram.run_concat _ _ _⟩
      have hnodes : RunOf filled :=
        loadEntries_induction (fun d _ _ e _ hd he => hconcat d e hd (exists_step_of_loadNode he))
          ⟨[], rfl, rfl⟩ hfilled
      have hedges : RunOf d :=
        loadEntries_induction (fun d _ _ e _ hd he => hconcat d e hd (exists_step_of_loadEdge he))
          hnodes h
      obtain ⟨steps, haccept, hrun⟩ := hedges
      exact ⟨sections, options, steps, rfl, hoptions, haccept, hrun⟩
  | _ => cases h

theorem shaped_options {v : Value} {o : Options} (h : options v = .ok o) : o.Shaped := by
  unfold options at h
  split at h
  · cases h
    exact Options.shaped_defaults
  · exact Options.shaped_ofEntries (mapError_eq_ok h)
  · cases h

/-! ## Documents -/

/-- Whether loading a document comes to a node that asks for a group that cannot be a key: the
sections are lists, and every entry before it declares a node that can be placed. -/
def ComesToUnplaceable (document : Value) : Prop :=
  ∃ sections before entry after n, document = .map sections ∧
    field sections "nodes" = .list (before ++ entry :: after) ∧
    (field sections "edges" = .null ∨ ∃ edges, field sections "edges" = .list edges) ∧
    (∀ index v, before[index]? = some v → ∃ m, nodeEntry index v = .ok m ∧ ¬ m.Unplaceable) ∧
    nodeEntry before.length entry = .ok n ∧ n.Unplaceable

theorem faultsAt_listSection (v : Value) {fault : DocumentFault} {place : Place}
    (h : fault.place? = some place) : FaultsAt place (listSection v fault) := by
  unfold listSection
  split
  · exact nofun
  · exact nofun
  · exact faultsAt_fault h

theorem listSection_eq_ok_iff {v : Value} {fault : DocumentFault} {items : List Value} :
    listSection v fault = .ok items ↔ v = .null ∧ items = [] ∨ v = .list items := by
  unfold listSection
  split
  · simp [eq_comm]
  · simp
  · next hnull hlist =>
    refine iff_of_false nofun ?_
    rintro (⟨rfl, -⟩ | rfl)
    · exact hnull rfl
    · exact hlist _ rfl

theorem onlyFaults_loadEdges {edges : List Value} (hedges : ∀ entry ∈ edges, entry.Keyed)
    (d : Diagram) : OnlyFaults (loadEntries loadEdge 0 edges d) := by
  intro cause h
  obtain ⟨before, entry, after, e, rfl, -, hentry⟩ := loadEntries_eq_error_iff.1 h
  exact onlyFaults_loadEdge (hedges entry (by simp)) cause hentry

theorem loadNodes_eq_misfit_iff {nodes : List Value} (hnodes : ∀ entry ∈ nodes, entry.Keyed)
    {d : Diagram} {cause : Misfit} :
    loadEntries loadNode 0 nodes d = .error (.misfit cause) ↔
      cause = .notAKey ∧ ∃ before entry after n, nodes = before ++ entry :: after ∧
        (∀ index v, before[index]? = some v →
          ∃ m, nodeEntry index v = .ok m ∧ ¬ m.Unplaceable) ∧
        nodeEntry before.length entry = .ok n ∧ n.Unplaceable := by
  have hbefore : ∀ {before after : List Value} {entry : Value},
      nodes = before ++ entry :: after →
      ((∃ e, loadEntries loadNode 0 before d = .ok e) ↔
        ∀ index v, before[index]? = some v →
          ∃ m, nodeEntry index v = .ok m ∧ ¬ m.Unplaceable) := by
    rintro before after entry rfl
    have hload : ∀ d index, ∀ v ∈ before, (∃ e, loadNode d index v = .ok e) ↔
        ∃ m, nodeEntry index v = .ok m ∧ ¬ m.Unplaceable :=
      fun d index v hv => exists_loadNode_iff (hnodes v (List.mem_append_left _ hv))
    rw [exists_loadEntries_iff hload]
    simp only [Nat.zero_add]
  rw [loadEntries_eq_error_iff]
  constructor
  · rintro ⟨before, entry, after, e, heq, he, hentry⟩
    have hkeyed : entry.Keyed := hnodes entry (by rw [heq]; simp)
    rw [loadNode_eq_misfit_iff hkeyed, Nat.zero_add] at hentry
    obtain ⟨rfl, n, hn, hunplaceable⟩ := hentry
    exact ⟨rfl, before, entry, after, n, heq, (hbefore heq).1 ⟨e, he⟩, hn, hunplaceable⟩
  · rintro ⟨rfl, before, entry, after, n, heq, hplaced, hn, hunplaceable⟩
    obtain ⟨e, he⟩ := (hbefore heq).2 hplaced
    refine ⟨before, entry, after, e, heq, he, ?_⟩
    rw [loadNode_eq_misfit_iff (hnodes entry (by rw [heq]; simp)), Nat.zero_add]
    exact ⟨rfl, n, hn, hunplaceable⟩

/-- What passes from lists to their items holds of the entries of a section. -/
theorem forall_listSection {P : Value → Prop}
    (hlist : ∀ {items : List Value}, P (.list items) → ∀ item ∈ items, P item) {v : Value}
    (hv : P v) {fault : DocumentFault} {items : List Value}
    (h : listSection v fault = .ok items) : ∀ item ∈ items, P item := by
  rcases listSection_eq_ok_iff.1 h with ⟨-, rfl⟩ | rfl
  · exact nofun
  · exact hlist hv

theorem keyed_listSection {sections : List (Value × Value)} (h : (Value.map sections).Keyed)
    {name : String} {fault : DocumentFault} {items : List Value}
    (hitems : listSection (field sections name) fault = .ok items) :
    ∀ item ∈ items, item.Keyed :=
  forall_listSection (fun h _ => h.of_mem) (keyed_field h name) hitems

theorem ofDocument_map_eq_misfit_iff {sections : List (Value × Value)}
    (hkeyed : (Value.map sections).Keyed) (hoptions : field sections "options" = .null)
    {cause : Misfit} :
    Diagram.ofDocument (.map sections) = .error (.misfit cause) ↔
      ∃ nodes edges, listSection (field sections "nodes") .nodesSection = .ok nodes ∧
        listSection (field sections "edges") .edgesSection = .ok edges ∧
        loadEntries loadNode 0 nodes (.new .defaults) = .error (.misfit cause) := by
  have hload : ∀ nodes edges, listSection (field sections "edges") .edgesSection = .ok edges →
      ((loadEntries loadNode 0 nodes (.new .defaults) >>= loadEntries loadEdge 0 edges) =
          .error (.misfit cause) ↔
        loadEntries loadNode 0 nodes (.new .defaults) = .error (.misfit cause)) := by
    intro nodes edges hedges
    -- Edges are never refused, so that a refusal comes from the nodes.
    have hfaults := onlyFaults_loadEdges (keyed_listSection hkeyed hedges)
    cases loadEntries loadNode 0 nodes (.new .defaults) with
    | error e => exact Iff.rfl
    | ok d => exact iff_of_false (hfaults d cause) nofun
  rw [Diagram.ofDocument, hoptions]
  show (listSection _ _ >>= _) = _ ↔ _
  rw [(faultsAt_listSection _ rfl).onlyFaults.bind_eq_misfit_iff]
  refine exists_congr fun nodes => ?_
  rw [exists_and_left, (faultsAt_listSection _ rfl).onlyFaults.bind_eq_misfit_iff]
  refine and_congr_right fun _ => exists_congr fun edges => and_congr_right fun hedges => ?_
  exact hload nodes edges hedges

theorem ofDocument_eq_misfit_iff {document : Value} (hjson : document.IsJson)
    (hoptions : ∀ sections, document = .map sections → field sections "options" = .null)
    {cause : Misfit} :
    Diagram.ofDocument document = .error (.misfit cause) ↔
      cause = .notAKey ∧ ComesToUnplaceable document := by
  cases document with
  | map sections =>
      rw [ofDocument_map_eq_misfit_iff hjson.keyed (hoptions sections rfl)]
      constructor
      · rintro ⟨nodes, edges, hnodes, hedges, h⟩
        have hitems := keyed_listSection hjson.keyed hnodes
        obtain ⟨rfl, before, entry, after, n, rfl, hplaced, hn⟩ :=
          (loadNodes_eq_misfit_iff hitems).1 h
        refine ⟨rfl, sections, before, entry, after, n, rfl, ?_, ?_, hplaced, hn⟩
        · rcases listSection_eq_ok_iff.1 hnodes with ⟨-, hempty⟩ | hlist
          · simp at hempty
          · exact hlist
        · exact (listSection_eq_ok_iff.1 hedges).imp And.left fun hlist => ⟨edges, hlist⟩
      · rintro ⟨rfl, _, before, entry, after, n, ⟨⟩, hnodes, hedges, hplaced, hn⟩
        have hlist : listSection (field sections "nodes") .nodesSection =
            .ok (before ++ entry :: after) := listSection_eq_ok_iff.2 (Or.inr hnodes)
        have hitems := keyed_listSection hjson.keyed hlist
        have hmisfit := (loadNodes_eq_misfit_iff (d := .new .defaults) hitems).2
          ⟨rfl, before, entry, after, n, rfl, hplaced, hn⟩
        obtain ⟨edges, hedges⟩ : ∃ edges,
            listSection (field sections "edges") .edgesSection = .ok edges := by
          rcases hedges with hnull | ⟨edges, hedges⟩
          · exact ⟨[], listSection_eq_ok_iff.2 (Or.inl ⟨hnull, rfl⟩)⟩
          · exact ⟨edges, listSection_eq_ok_iff.2 (Or.inr hedges)⟩
        exact ⟨_, edges, hlist, hedges, hmisfit⟩
  | _ =>
      refine iff_of_false nofun ?_
      rintro ⟨-, sections, before, entry, after, n, ⟨⟩, -⟩

/-- A document without options gives a diagram or tells its fault, unless loading comes to a node
that asks for a group that cannot be a key. -/
theorem loads_or_tells_fault_iff {document : Value} (hjson : document.IsJson)
    (hoptions : ∀ sections, document = .map sections → field sections "options" = .null) :
    ((∃ d, Diagram.ofDocument document = .ok d) ∨
        (∃ fault, Diagram.ofDocument document = .error (.fault fault)) ↔
      ¬ ComesToUnplaceable document) ∧
      (ComesToUnplaceable document →
        Diagram.ofDocument document = .error (.misfit .notAKey)) := by
  have hrefused (hcomes : ComesToUnplaceable document) :
      Diagram.ofDocument document = .error (.misfit .notAKey) :=
    (ofDocument_eq_misfit_iff hjson hoptions).2 ⟨rfl, hcomes⟩
  refine ⟨⟨?_, ?_⟩, hrefused⟩
  · rintro (⟨d, hd⟩ | ⟨fault, hfault⟩) hcomes
    · rw [hrefused hcomes] at hd
      cases hd
    · rw [hrefused hcomes] at hfault
      cases hfault
  · intro hplaceable
    cases h : Diagram.ofDocument document with
    | ok d => exact Or.inl ⟨d, rfl⟩
    | error e =>
        cases e with
        | fault fault => exact Or.inr ⟨fault, rfl⟩
        | misfit cause =>
            exact absurd ((ofDocument_eq_misfit_iff hjson hoptions).1 h).2 hplaceable

def listAsGroup (further : List (String × Value)) : Value :=
  .ofFields [("nodes", .list [.str "A", .ofFields
    ([("name", .str "B"), ("attributes", .ofFields [("group", .list [.int 1])])] ++ further)])]

theorem isJson_listAsGroup {further : List (String × Value)}
    (hnodup : ("name" :: "attributes" :: further.map Prod.fst).Nodup)
    (hfurther : ∀ v ∈ further.map Prod.snd, v.IsJson) : (listAsGroup further).IsJson := by
  have hattributes : (Value.ofFields [("group", .list [.int 1])]).IsJson := by
    refine .ofFields (by decide) (List.forall_mem_singleton.2 (.list ?_))
    exact List.forall_mem_singleton.2 (.int 1)
  have hentry : (Value.ofFields ([("name", .str "B"),
      ("attributes", .ofFields [("group", .list [.int 1])])] ++ further)).IsJson :=
    .ofFields hnodup (List.forall_mem_cons.2 ⟨.str _, List.forall_mem_cons.2 ⟨hattributes, hfurther⟩⟩)
  refine .ofFields (List.nodup_singleton _) (List.forall_mem_singleton.2 (.list ?_))
  exact List.forall_mem_cons.2 ⟨.str _, List.forall_mem_singleton.2 hentry⟩

theorem options_listAsGroup (further : List (String × Value)) (sections : List (Value × Value))
    (h : listAsGroup further = .map sections) : field sections "options" = .null := by
  cases h
  rfl

theorem comesToUnplaceable_listAsGroup : ComesToUnplaceable (listAsGroup []) := by
  refine ⟨_, [.str "A"], _, [], _, rfl, rfl, Or.inl rfl, ?_, rfl, rfl, rfl, rfl⟩
  intro index v hv
  cases index with
  | zero =>
      cases hv
      exact ⟨⟨"A", none, []⟩, rfl, by rintro ⟨-, ⟨⟩, -⟩⟩
  | succ index => cases hv

/-- The list is refused, unless a group that stands apart overrides it. -/
theorem loading_of_a_list_as_group :
    Diagram.ofDocument (listAsGroup []) = .error (.misfit .notAKey) ∧
      ¬ ComesToUnplaceable (listAsGroup [("group", .str "x")]) := by
  have hjson : (listAsGroup []).IsJson := isJson_listAsGroup (by decide) nofun
  have hapart : (listAsGroup [("group", .str "x")]).IsJson :=
    isJson_listAsGroup (by decide) (List.forall_mem_singleton.2 (.str _))
  refine ⟨(loads_or_tells_fault_iff hjson (options_listAsGroup _)).2 comesToUnplaceable_listAsGroup,
    (loads_or_tells_fault_iff hapart (options_listAsGroup _)).1.1 (Or.inl ?_)⟩
  exact exists_ok_of_isOk (by decide +kernel)

/-- A list as a group is neither taken nor told as a fault. -/
theorem loading_can_fail_without_fault :
    ¬ ∀ document : Value, document.IsJson →
      (∀ sections, document = .map sections → field sections "options" = .null) →
        (∃ d, Diagram.ofDocument document = .ok d) ∨
          ∃ fault, Diagram.ofDocument document = .error (.fault fault) := by
  intro hclaim
  have hjson : (listAsGroup []).IsJson := isJson_listAsGroup (by decide) nofun
  have hrefused : Diagram.ofDocument (listAsGroup []) = .error (.misfit .notAKey) :=
    (ofDocument_eq_misfit_iff hjson (options_listAsGroup _)).2 ⟨rfl, comesToUnplaceable_listAsGroup⟩
  rcases hclaim _ hjson (options_listAsGroup _) with ⟨d, hd⟩ | ⟨fault, hfault⟩
  · rw [hrefused] at hd
    cases hd
  · rw [hrefused] at hfault
    cases hfault

end HighlightGraph.Document
