import HighlightGraph.Proofs.CommandLine.Formats
import HighlightGraph.Proofs.Diagram.Connect
import HighlightGraph.Proofs.Drawing.Highlighting
import HighlightGraph.Proofs.Rendering.Embedding
/-!
# Sequences of renderings

Rendering changes a diagram by synthesis alone, and the ends of edges have their nodes from then
on. So a sequence of renderings works on two diagrams: the given one up to the first call that asks
for missing nodes, and the one with missing nodes from there, whatever becomes of the single calls.
-/

namespace HighlightGraph

structure RenderCall where
  engine : Engine
  synthesizing : Bool

namespace Diagram

/-! ## One rendering -/

section AsIs

variable (d : Diagram) (engine : Engine)

@[simp] theorem diagram_renderAsIs : (d.renderAsIs engine).diagram = d := by
  unfold renderAsIs
  split <;> rfl

theorem sources_renderAsIs : (d.renderAsIs engine).sources = d.drawingText.toOption.toList := by
  unfold renderAsIs
  split
  · next h => rw [h]; rfl
  · next h => rw [h]; rfl

variable {d engine}

theorem renderAsIs_eq_ok {picture : String} (h : (d.renderAsIs engine).result = .ok picture) :
    ∃ source svg css, d.drawingText = .ok source ∧ engine source = .ok svg ∧
      d.stylesheetText = .ok css ∧ embedStylesheet? svg css = some picture := by
  unfold renderAsIs at h
  split at h
  · cases h
  · next source hsource =>
    obtain ⟨svg, hsvg, h⟩ := bind_eq_ok h
    obtain ⟨css, hcss, h⟩ := bind_eq_ok h
    split at h
    · next text htext =>
      cases h
      exact ⟨source, svg, css, hsource, mapError_eq_ok hsvg, mapError_eq_ok hcss, htext⟩
    · cases h

end AsIs

theorem render_of_synthesize {d after : Diagram} {created : List Node}
    (h : d.synthesize = (after, .ok created)) (engine : Engine) :
    d.render engine true = after.renderAsIs engine := by
  rw [render, if_pos rfl, h]

/-! ## Settled diagrams -/

theorem Settled.render_eq {d : Diagram} (h : d.Settled) (engine : Engine) (synthesizing : Bool) :
    d.render engine synthesizing = d.renderAsIs engine := by
  cases synthesizing with
  | false => rfl
  | true => exact render_of_synthesize h engine

/-! ## Sequences -/

def afterCalls (d : Diagram) (calls : List RenderCall) : Diagram :=
  calls.foldl (fun d call => (d.render call.engine call.synthesizing).diagram) d

def renderings (d : Diagram) : List RenderCall → List (RenderCall × Rendering)
  | [] => []
  | call :: rest =>
    let rendering := d.render call.engine call.synthesizing
    (call, rendering) :: rendering.diagram.renderings rest

def renderingsAsIs (d : Diagram) (calls : List RenderCall) : List (RenderCall × Rendering) :=
  calls.map fun call => (call, d.renderAsIs call.engine)

theorem map_fst_renderings (d : Diagram) (calls : List RenderCall) :
    (d.renderings calls).map Prod.fst = calls := by
  induction calls generalizing d with
  | nil => rfl
  | cons call rest ih => rw [renderings, List.map_cons, ih]

theorem length_renderingsAsIs_take (d : Diagram) (calls : List RenderCall) :
    (d.renderingsAsIs (calls.take (calls.findIdx (·.synthesizing)))).length =
      calls.findIdx (·.synthesizing) := by
  rw [renderingsAsIs, List.length_map, List.length_take]
  exact Nat.min_eq_left List.findIdx_le_length

section Settled

variable {d : Diagram} (h : d.Settled) (calls : List RenderCall)
include h

theorem Settled.afterCalls_eq : d.afterCalls calls = d := by
  induction calls with
  | nil => rfl
  | cons call rest ih =>
      show (d.render call.engine call.synthesizing).diagram.afterCalls rest = d
      rw [h.render_eq, diagram_renderAsIs, ih]

theorem Settled.renderings_eq : d.renderings calls = d.renderingsAsIs calls := by
  induction calls with
  | nil => rfl
  | cons call rest ih =>
      rw [renderings, h.render_eq, diagram_renderAsIs, ih]
      rfl

end Settled

section Synthesis

variable {d after : Diagram} {created : List Node} (h : d.WellFormed)
  (hsynthesize : d.synthesize = (after, .ok created)) (calls : List RenderCall)
include h hsynthesize

theorem WellFormed.afterCalls_eq :
    d.afterCalls calls = if calls.any (·.synthesizing) then after else d := by
  induction calls with
  | nil => rfl
  | cons call rest ih =>
      show (d.render call.engine call.synthesizing).diagram.afterCalls rest = _
      rw [List.any_cons]
      cases hcall : call.synthesizing with
      | false =>
          have hrender : d.render call.engine false = d.renderAsIs call.engine := rfl
          rw [hrender, diagram_renderAsIs, ih, Bool.false_or]
      | true =>
          rw [render_of_synthesize hsynthesize, diagram_renderAsIs,
            (h.settled_of_synthesize hsynthesize).afterCalls_eq, Bool.true_or, if_pos rfl]

/-- The calls before the first one that synthesizes render the given diagram, the others the one
that synthesis leaves. -/
theorem WellFormed.renderings_eq :
    d.renderings calls =
      d.renderingsAsIs (calls.take (calls.findIdx (·.synthesizing))) ++
        after.renderingsAsIs (calls.drop (calls.findIdx (·.synthesizing))) := by
  induction calls with
  | nil => rfl
  | cons call rest ih =>
      rw [renderings, List.findIdx_cons]
      cases hcall : call.synthesizing with
      | false =>
          have hrender : d.render call.engine false = d.renderAsIs call.engine := rfl
          rw [hrender, diagram_renderAsIs, ih]
          rfl
      | true =>
          rw [render_of_synthesize hsynthesize, diagram_renderAsIs,
            (h.settled_of_synthesize hsynthesize).renderings_eq]
          rfl

end Synthesis

/-! ## Ends of drawn edges -/

theorem edge_mem_outline_ofDiagram {d : Diagram} {g : Drawing} (h : Drawing.ofDiagram d = .ok g)
    {e : Edge} (he : e ∈ d.edges) : .edge (.ofEdge e) ∈ g.outline := by
  rw [Drawing.edge_mem_outline_iff, (Drawing.ofDiagram_eq_ok h).2.2.1]
  exact List.mem_map_of_mem he

/-- After synthesis, the ends of each edge that the document draws are among the selectors. -/
theorem mem_selectors_of_drawn_edge {d after : Diagram} (h : d.Reached) {created : List Node}
    (hsynthesize : d.synthesize = (after, .ok created)) {g : Drawing}
    (hg : Drawing.ofDiagram after = .ok g) {e : EdgeStatement} (he : .edge e ∈ g.outline)
    {id : String} (hid : id ∈ [e.source, e.target]) (mark : String) :
    ⟨id, mark ++ id⟩ ∈ after.selectors mark := by
  have hd : d.WellFormed := h.consistent.toWellFormed
  have hedges : after.edges = d.edges := by
    rw [← edges_synthesize d, hsynthesize]
  have hend : id ∈ d.ends.map Prod.snd := by
    have hdrawn := Drawing.edge_mem_outline_iff.1 he
    rw [(Drawing.ofDiagram_eq_ok hg).2.2.1, hedges] at hdrawn
    obtain ⟨edge, hedge, rfl⟩ := List.mem_map.1 hdrawn
    exact mem_ends_iff.2 ⟨edge, hedge, by simpa [EdgeStatement.ofEdge] using hid⟩
  have hafter := (h.synthesize hsynthesize).consistent
  obtain ⟨n, hn⟩ := Table.contains_iff.1 (hd.contains_of_synthesize hsynthesize hend)
  have hplaced : n ∈ after.placedNodes :=
    (mem_placedNodes_iff_mem_nodes hafter).2 (Table.mem_values_iff.2 ⟨id, hn⟩)
  rw [← (hafter.nodes hn).1]
  exact List.mem_map_of_mem hplaced

/-! ## Main result -/

/-- A sequence of renderings, whatever engines it has, leaves the given diagram with its missing
nodes if some call asks for them, and the given diagram otherwise. From the first such call on,
every call gives its engine the one drawing of the diagram with missing nodes, if that has one; and
a picture comes with a stylesheet that selects both ends of every edge of that drawing. -/
theorem rendering_synthesizes_once {given : Value} {options : Options}
    (hoptions : Options.ofValue given = .ok options) {steps : List Step}
    (haccept : (new options).accepts steps = true) (calls : List RenderCall) :
    let d := (new options).run steps
    ∃ after created, d.synthesize = (after, .ok created) ∧
      d.afterCalls calls = (if calls.any (·.synthesizing) then after else d) ∧
      (d.renderings calls).map Prod.fst = calls ∧
      (∀ entry ∈ (d.renderings calls).take (calls.findIdx (·.synthesizing)),
        entry.2.diagram = d) ∧
      ∀ entry ∈ (d.renderings calls).drop (calls.findIdx (·.synthesizing)),
        entry.2.diagram = after ∧ entry.2.sources = after.drawingText.toOption.toList ∧
        ∀ picture, entry.2.result = .ok picture →
          ∃ g css svg sources targets,
            Drawing.ofDiagram after = .ok g ∧ after.stylesheetText = .ok css ∧
            entry.2.sources = [Drawing.Line.document g.outline] ∧
            entry.1.engine (Drawing.Line.document g.outline) = .ok svg ∧
            (∃ front back, svg = front ++ back ∧
              picture = front ++ ("<defs><style type=\"text/css\"><![CDATA[\n" ++ css ++
                "\n]]></style></defs>\n") ++ back) ∧
            Selector.Written after.options sources targets css ∧
            (∀ e ∈ after.edges, .edge (.ofEdge e) ∈ g.outline) ∧
            ∀ e, .edge e ∈ g.outline → ∀ id ∈ [e.source, e.target],
              ⟨id, "f_" ++ id⟩ ∈ sources ∧ ⟨id, "t_" ++ id⟩ ∈ targets ∧
              ("#g." ++ id ++ " [id~=f_" ++ id ++ "] path").toList <:+: css.toList ∧
              ("#g." ++ id ++ " [id~=t_" ++ id ++ "] path").toList <:+: css.toList := by
  intro d
  have hreached : d.Reached := ⟨options, steps, haccept, rfl⟩
  have hreadable : d.options.Readable := by
    rw [options_run]
    exact Options.readable_ofValue hoptions
  clear_value d
  have hd : d.WellFormed := hreached.consistent.toWellFormed
  have hkind : Setting.missingNode.kind = .attributes := rfl
  obtain ⟨attributes, hattributes⟩ := hreadable.recognized hkind
  obtain ⟨after, created, hsynthesize⟩ : ∃ after created, d.synthesize = (after, .ok created) :=
    ⟨_, _, hd.synthesize_eq hattributes⟩
  have hfirst : (d.renderings calls).take (calls.findIdx (·.synthesizing)) =
      d.renderingsAsIs (calls.take (calls.findIdx (·.synthesizing))) := by
    rw [hd.renderings_eq hsynthesize, List.take_left' (length_renderingsAsIs_take d calls)]
  have hlater : (d.renderings calls).drop (calls.findIdx (·.synthesizing)) =
      after.renderingsAsIs (calls.drop (calls.findIdx (·.synthesizing))) := by
    rw [hd.renderings_eq hsynthesize, List.drop_left' (length_renderingsAsIs_take d calls)]
  refine ⟨after, created, hsynthesize, hd.afterCalls_eq hsynthesize calls,
    map_fst_renderings d calls, ?_, ?_⟩
  · intro entry hentry
    rw [hfirst] at hentry
    obtain ⟨call, -, rfl⟩ := List.mem_map.1 hentry
    exact d.diagram_renderAsIs call.engine
  · intro entry hentry
    rw [hlater] at hentry
    obtain ⟨call, -, rfl⟩ := List.mem_map.1 hentry
    refine ⟨after.diagram_renderAsIs call.engine, after.sources_renderAsIs call.engine, ?_⟩
    intro picture hpicture
    obtain ⟨source, svg, css, hsource, hsvg, hcss, hembed⟩ := renderAsIs_eq_ok hpicture
    have hsources := after.sources_renderAsIs call.engine
    rw [hsource] at hsources
    obtain ⟨g, hg, rfl⟩ := map_eq_ok hsource
    have hwritten := written_stylesheetText hcss
    rw [Drawing.text_eq_document] at hsources hsvg
    refine ⟨g, css, svg, _, _, hg, hcss, hsources, hsvg, embedStylesheet?_eq_some hembed, hwritten,
      fun _ he => edge_mem_outline_ofDiagram hg he, ?_⟩
    intro e he id hid
    have hsource := mem_selectors_of_drawn_edge hreached hsynthesize hg he hid "f_"
    have htarget := mem_selectors_of_drawn_edge hreached hsynthesize hg he hid "t_"
    rw [← Selector.text_source, ← Selector.text_target]
    exact ⟨hsource, htarget, hwritten.text_infix (.inl hsource), hwritten.text_infix (.inr htarget)⟩

/-- A call without the program, one for missing nodes without it, and one that gets a picture: the
last one finds the node that the second added, and gives its engine the same drawing. -/
theorem renderings_around_failing_calls :
    let d := (new .defaults).run [.node (.str "A") .null [], .edge (.str "A") (.str "B") .null []]
    let drawing : Engine := fun _ => .ok "<svg></svg>"
    let link (id : String) := "href=\"javascript:(function()\x7bdocument.getElementById('g')" ++
      ".setAttribute('class', 'graph " ++ id ++ "')\x7d)()\";"
    let first := d.render .absent false
    let second := first.diagram.render .absent true
    let third := second.diagram.render drawing false
    first.result.isOk = false ∧ second.result.isOk = false ∧ first.diagram = d ∧
      third.diagram = second.diagram ∧ third.diagram.nodes.keys = ["r_a", "r_b"] ∧
      second.sources = third.sources ∧ third.sources = [
        "digraph G \x7b\n  id=\"g\";\n  rankdir=\"LR\";\n  node [ shape=\"box3d\"; ];\n" ++
        "  edge [ fontsize=7; color=\"black\"; ];\n\n" ++
        "  r_a [ label=\"A\"; id=\"r_a\"; " ++ link "r_a" ++ " ];\n" ++
        "  r_b [ shape=\"rectangle\"; label=\"B\"; id=\"r_b\"; " ++ link "r_b" ++ " ];\n\n" ++
        "  r_a -> r_b [ edgetooltip=\"A -&gt; B\"; id=\"f_r_a t_r_b\"; ];\n\x7d\n"] ∧
      third.result = .ok (
        "<svg><defs><style type=\"text/css\"><![CDATA[\n" ++
        "#g.r_a [id~=f_r_a] path,\n#g.r_b [id~=f_r_b] path" ++
        "\x7bstroke: red; stroke-width: 4px;\x7d\n\n" ++
        "#g.r_a [id~=t_r_a] path,\n#g.r_b [id~=t_r_b] path" ++
        "\x7bstroke: green; stroke-width: 4px;\x7d\n\n.node \x7b cursor: pointer; \x7d\n" ++
        "\n]]></style></defs>\n</svg>") ∧
      ∃ css, third.diagram.stylesheetText = .ok css ∧
        "#g.r_b [id~=f_r_b] path".toList <:+: css.toList ∧
        "#g.r_b [id~=t_r_b] path".toList <:+: css.toList := by
  intro d drawing link first second third
  have hoptions : Options.ofValue .null = .ok .defaults := rfl
  have haccept : (new .defaults).accepts
      [.node (.str "A") .null [], .edge (.str "A") (.str "B") .null []] = true := by
    decide +kernel
  obtain ⟨after, created, hsynthesize, -, -, hearlier, hlater⟩ :=
    rendering_synthesizes_once hoptions haccept
      [⟨.absent, false⟩, ⟨.absent, true⟩, ⟨drawing, false⟩]
  have hfirst : first.diagram = d := hearlier (⟨.absent, false⟩, first) List.mem_cons_self
  obtain ⟨hsecond, hsources, -⟩ := hlater (⟨.absent, true⟩, second) List.mem_cons_self
  obtain ⟨hthird, hsame, hpicture⟩ :=
    hlater (⟨drawing, false⟩, third) (List.mem_cons_of_mem _ List.mem_cons_self)
  obtain ⟨picture, hresult⟩ := exists_ok_of_isOk (x := third.result) (by decide +kernel)
  obtain ⟨_, css, _, _, _, -, hcss, -, -, -, -, hedges, hselectors⟩ := hpicture picture hresult
  let edge : Edge := ⟨.str "A", "r_a", .str "B", "r_b", .empty⟩
  have hsynthesized : after.edges = d.edges := by rw [← edges_synthesize d, hsynthesize]
  have hedge : edge ∈ after.edges := hsynthesized ▸ List.mem_singleton_self edge
  have htarget : "r_b" ∈ [(EdgeStatement.ofEdge edge).source, (EdgeStatement.ofEdge edge).target] :=
    by simp [EdgeStatement.ofEdge, edge]
  refine ⟨by decide +kernel, by decide +kernel, hfirst, hthird.trans hsecond.symm,
    by decide +kernel, hsources.trans hsame.symm, by decide +kernel,
    by decide +kernel, css, hthird ▸ hcss, ?_⟩
  exact (hselectors _ (hedges edge hedge) "r_b" htarget).2.2

end Diagram

end HighlightGraph
