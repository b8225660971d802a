import HighlightGraph.Drawing
import HighlightGraph.Stylesheet
import HighlightGraph.Proofs.Diagram.Connect
import HighlightGraph.Proofs.Document.Load
/-!
# Compiling loaded documents

A loaded diagram takes synthesis and pruning in any order. What can then fail are texts that the
options hold as they were given: the styles, and the fragments of the drawing and of its groups.
Every other setting has been made into what the drawing asks for.
-/

namespace HighlightGraph

def Value.isText : Value → Bool
  | str _ => true
  | _ => false

/-- Whether a value can stand where a fragment may be left out. -/
def Value.isFragment (v : Value) : Bool := !v.isGiven || v.isText

def Options.fragmentOfGroup (o : Options) (k : Key) : Value :=
  match o.value .groupRaw with
  | .map entries => (Value.lookupKey k entries).getD .null
  | _ => .null

/-! ## The two compilers -/

theorem Stylesheet.isOk_textOf (v : Value) : (textOf v).isOk = v.isText := by
  cases v <;> rfl

theorem Diagram.isOk_stylesheetText (d : Diagram) :
    d.stylesheetText.isOk =
      [Setting.fromStyle, .toStyle, .css].all fun setting => (d.options.value setting).isText := by
  rw [stylesheetText, isOk_map, Stylesheet.ofDiagram]
  simp only [List.all_cons, ← Stylesheet.isOk_textOf]
  exact isOk_bind fun _ => isOk_bind fun _ => isOk_bind fun _ => rfl

theorem isOk_fragmentOf (v : Value) : (fragmentOf v).isOk = v.isFragment := by
  unfold fragmentOf Value.isFragment
  cases hgiven : v.isGiven with
  | false => rfl
  | true => cases v <;> rfl

section Shaped

variable {o : Options} (h : o.Shaped) {setting : Setting}
include h

theorem Options.Shaped.isOk_ofMap (hkind : setting.kind = .attributes) :
    (Attributes.ofMap (o.value setting)).isOk = true := by
  obtain ⟨attributes, heq⟩ := h.readable setting hkind
  rw [heq, Attributes.ofMap_toValue]
  rfl

theorem Options.Shaped.isOk_ofValue (hkind : setting.kind = .attributes) :
    (Attributes.ofValue (o.value setting)).isOk = true := by
  obtain ⟨attributes, heq⟩ := h.readable setting hkind
  rw [heq, Attributes.ofValue_toValue]
  rfl

theorem Options.Shaped.isOk_ofOverlay (hkind : setting.kind = .attributes) :
    (Attributes.ofOverlay (o.value setting)).isOk = true := by
  obtain ⟨attributes, heq⟩ := h.readable setting hkind
  rw [heq, Attributes.ofOverlay, Attributes.ofMap_toValue]
  rfl

theorem Options.Shaped.isOk_items : (o.value .sameRank).items.isOk = true := by
  obtain ⟨items, heq⟩ := h .sameRank
  rw [heq]
  rfl

theorem Options.Shaped.isOk_groupFragment (k : Key) :
    (groupFragment (o.value .groupRaw) k).isOk = (o.fragmentOfGroup k).isFragment := by
  obtain ⟨entries, heq⟩ := h .groupRaw
  simp only [groupFragment, fragmentOfGroup, heq]
  exact isOk_fragmentOf _

theorem Options.Shaped.isOk_ofGroup (group : Group) :
    (Subgraph.ofGroup o group).isOk = (o.fragmentOfGroup group.name.key).isFragment := by
  rw [Subgraph.ofGroup]
  calc
    _ = ((Attributes.ofOverlay (o.value .group)).isOk &&
          ((Attributes.ofValue (o.value .groupNode)).isOk &&
            ((Attributes.ofValue (o.value .groupEdge)).isOk &&
              ((groupFragment (o.value .groupRaw) group.name.key).isOk && true)))) :=
      isOk_bind fun _ => isOk_bind fun _ => isOk_bind fun _ => isOk_bind fun _ => rfl
    _ = (o.fragmentOfGroup group.name.key).isFragment := by
      rw [h.isOk_ofOverlay rfl, h.isOk_ofValue rfl, h.isOk_ofValue rfl, h.isOk_groupFragment]
      simp only [Bool.true_and, Bool.and_true]

end Shaped

theorem Options.Shaped.isOk_drawingText {d : Diagram} (h : d.options.Shaped) :
    d.drawingText.isOk = ((d.groups.values.all fun group =>
        (d.options.fragmentOfGroup group.name.key).isFragment) &&
      (d.options.value .raw).isFragment) := by
  rw [Diagram.drawingText, isOk_map, Drawing.ofDiagram]
  calc
    _ = ((Attributes.ofMap (d.options.value .graph)).isOk &&
          ((Attributes.ofValue (d.options.value .node)).isOk &&
            ((Attributes.ofValue (d.options.value .edge)).isOk &&
              ((d.groups.values.mapM (Subgraph.ofGroup d.options)).isOk &&
                ((fragmentOf (d.options.value .raw)).isOk &&
                  ((d.options.value .sameRank).items.isOk && true)))))) :=
      isOk_bind fun _ => isOk_bind fun _ => isOk_bind fun _ => isOk_bind fun _ =>
        isOk_bind fun _ => isOk_bind fun _ => rfl
    _ = _ := by
      rw [h.isOk_ofMap rfl, h.isOk_ofValue rfl, h.isOk_ofValue rfl, h.isOk_items, isOk_mapM,
        isOk_fragmentOf]
      simp only [h.isOk_ofGroup, Bool.true_and, Bool.and_true]

/-! ## Loaded diagrams -/

namespace Document

/-- A loaded diagram takes synthesis and pruning in any order. It then has a stylesheet if the styles
are texts, and a drawing if its fragments and those of the groups that it still has are texts or left
out. -/
theorem compiles_iff {document : Value} {d : Diagram} (hload : Diagram.ofDocument document = .ok d)
    {steps : List Step} (hsteps : ∀ s ∈ steps, s = .synthesize ∨ s = .prune) :
    (∃ sections, document = .map sections ∧ options (field sections "options") = .ok d.options) ∧
      d.accepts steps = true ∧
      ((d.run steps).stylesheetText.isOk = true ↔
        ∀ setting ∈ [Setting.fromStyle, .toStyle, .css],
          (d.options.value setting).isText = true) ∧
      ((d.run steps).drawingText.isOk = true ↔
        (d.options.value .raw).isFragment = true ∧
          ∀ group ∈ (d.run steps).groups.values,
            (d.options.fragmentOfGroup group.name.key).isFragment = true) ∧
      (d.drawingText.isOk = true → (d.run steps).drawingText.isOk = true) := by
  obtain ⟨sections, o, built, rfl, ho, -, rfl⟩ := exists_run_of_ofDocument hload
  have hshaped : o.Shaped := shaped_options ho
  have hwellFormed := Diagram.wellFormed_run o built
  have hoptions := Diagram.options_run o built
  generalize (Diagram.new o).run built = d at hwellFormed hoptions
  subst hoptions
  have hdrawing : ∀ e : Diagram, e.options = d.options → (e.drawingText.isOk = true ↔
      (d.options.value .raw).isFragment = true ∧ ∀ group ∈ e.groups.values,
        (d.options.fragmentOfGroup group.name.key).isFragment = true) := by
    intro e he
    have hshaped' : e.options.Shaped := by rwa [he]
    rw [hshaped'.isOk_drawingText, he, Bool.and_eq_true, and_comm, List.all_eq_true]
  have hrun := hdrawing (d.run steps) (d.run_options steps)
  refine ⟨⟨sections, rfl, ho⟩,
    hwellFormed.accepts_synthesis_and_pruning hshaped.readable hsteps, ?_, hrun, ?_⟩
  · rw [Diagram.isOk_stylesheetText, d.run_options, List.all_eq_true]
  · rw [hdrawing d rfl, hrun]
    rintro ⟨hraw, hgroups⟩
    refine ⟨hraw, fun group hgroup => ?_⟩
    -- A group that is still there has the key of a group of the loaded diagram.
    obtain ⟨k, hk⟩ := Table.mem_values_iff.1 hgroup
    obtain ⟨loaded, hloaded⟩ := Table.contains_iff.1
      (Diagram.contains_groups_of_run hsteps (Table.contains_iff.2 ⟨group, hk⟩))
    rw [((hwellFormed.run steps).groups hk).1, ← (hwellFormed.groups hloaded).1]
    exact hgroups loaded (Table.mem_values_iff.2 ⟨k, hloaded⟩)

/-- The fragment of the group `x` is a list, which no longer matters once pruning has taken the group
away. That the further rules are null always does. -/
def unfitOptions : Value :=
  .ofFields
    [("options", .ofFields [("css", .null), ("groupRaw", .ofFields [("x", .list [.int 1])])]),
      ("nodes", .list [.ofFields [("name", .str "A"), ("group", .str "x")]]),
      ("edges", .list [.list [.str "B", .str "C"]])]

def unfitDiagram : Diagram :=
  (Diagram.ofDocument unfitOptions).toOption.getD (.new .defaults)

theorem compiling_with_unfit_options :
    Diagram.ofDocument unfitOptions = .ok unfitDiagram ∧
      unfitDiagram.drawingText.isOk = false ∧
      (unfitDiagram.run [.synthesize, .prune]).drawingText.isOk = true ∧
      (unfitDiagram.run [.synthesize, .prune]).stylesheetText.isOk = false := by
  have hload : Diagram.ofDocument unfitOptions = .ok unfitDiagram := by
    obtain ⟨d, hd⟩ := exists_ok_of_isOk
      (show (Diagram.ofDocument unfitOptions).isOk = true by decide +kernel)
    rw [unfitDiagram, hd]
    rfl
  have hsteps : ∀ s ∈ [Step.synthesize, .prune], s = .synthesize ∨ s = .prune := by simp
  obtain ⟨-, -, -, hloaded, -⟩ := compiles_iff hload (List.forall_mem_nil _)
  obtain ⟨-, -, hstylesheet, hdrawing, -⟩ := compiles_iff hload hsteps
  refine ⟨hload, Bool.eq_false_iff.2 (mt hloaded.1 ?_), hdrawing.2 ?_,
    Bool.eq_false_iff.2 (mt hstylesheet.1 ?_)⟩
  all_goals decide +kernel

/-- A document whose further rules are null is taken, and then has no stylesheet. -/
theorem loaded_document_can_fail_to_compile :
    ¬ ∀ (document : Value) (d : Diagram), document.IsJson → Diagram.ofDocument document = .ok d →
      ∀ steps : List Step, (∀ s ∈ steps, s = .synthesize ∨ s = .prune) →
        (d.run steps).drawingText.isOk = true ∧ (d.run steps).stylesheetText.isOk = true := by
  intro hclaim
  have hjson : (Value.ofFields [("options", .ofFields [("css", .null)])]).IsJson := by
    refine .ofFields (List.nodup_singleton _) (List.forall_mem_singleton.2 ?_)
    exact .ofFields (List.nodup_singleton _) (List.forall_mem_singleton.2 .null)
  have hload : Diagram.ofDocument (.ofFields [("options", .ofFields [("css", .null)])]) =
      .ok (.new (Options.defaults.set .css .null)) := rfl
  have hcss := (hclaim _ _ hjson hload [] nofun).2
  rw [Diagram.isOk_stylesheetText] at hcss
  cases hcss

end Document

end HighlightGraph
