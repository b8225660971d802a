import HighlightGraph.CommandLine.Run
import HighlightGraph.Proofs.CommandLine.Arguments
import HighlightGraph.Proofs.CommandLine.FileTree
/-!
# The formats of one call

Calls of the command that differ in nothing but the format load and prepare the same diagram. The
picture is then laid out from the text that the drawing format prints and holds the text that the
stylesheet format prints. A call that is refused leaves no output, and a call that names a file
writes there what it would print.
-/

namespace HighlightGraph

theorem Diagram.renderAsIs_of_drawingText {d : Diagram} {source : String}
    (h : d.drawingText = .ok source) (engine : Engine) :
    d.renderAsIs engine = ⟨d, [source], d.layOut engine source⟩ := by
  rw [renderAsIs, h]

/-- Laying out fails with the engine or for a picture without an opening tag, once there is a
stylesheet. -/
theorem Diagram.layOut_of_stylesheetText {d : Diagram} {css : String}
    (h : d.stylesheetText = .ok css) (engine : Engine) (source : String) :
    d.layOut engine source =
      match engine source with
      | .error failure => .error (.engine failure)
      | .ok svg =>
        match embedStylesheet? svg css with
        | some text => .ok text
        | none => .error .noOpeningTag := by
  unfold layOut
  rw [h]
  cases engine source <;> rfl

namespace CommandLine

/-! ## Reports -/

namespace Report

@[simp] theorem code_given (output : Option String) (sources : List String) (text : String) :
    (given output sources text).code = 0 := by
  unfold given
  split
  · split <;> rfl
  · rfl

theorem given_of_printing {output : Option String} (h : output = none ∨ output = some "")
    (sources : List String) (text : String) :
    given output sources text = ⟨0, text, "", none, sources⟩ := by
  rcases h with rfl | rfl <;> rfl

theorem given_of_path {path : String} (h : path ≠ "") (sources : List String) (text : String) :
    given (some path) sources text = ⟨0, "", "", some (path, text), sources⟩ :=
  if_neg h

theorem ofRendering_eq_ok {output : Option String} {rendering : Rendering} {r : Report}
    (h : ofRendering output rendering = .ok r) :
    (∃ text, rendering.result = .ok text ∧ r = .given output rendering.sources text) ∨
      ∃ message, r = .refused rendering.sources message := by
  unfold ofRendering at h
  split at h
  · next text htext =>
    cases h
    exact .inl ⟨text, htext, rfl⟩
  · cases h
  · cases h
    exact .inr ⟨_, rfl⟩
  · cases h
    exact .inr ⟨_, rfl⟩

end Report

/-! ## Calls -/

section Call

variable {a : Arguments} {engine : Engine} {read : String → Except FileError ByteArray}

def Arguments.report (a : Arguments) (engine : Engine)
    (read : String → Except FileError ByteArray) : Except Failure Report := do
  let path ← a.source
  a.reportOnFile engine path (read path)

/-- Whether a call loads and prepares a diagram. -/
def Arguments.Yields (a : Arguments) (read : String → Except FileError ByteArray) (d : Diagram) :
    Prop :=
  ∃ path content loaded, a.source = .ok path ∧ read path = .ok content ∧
    Diagram.ofFile content = .ok loaded ∧ a.prepare loaded = .ok d

theorem Arguments.Yields.unique {d e : Diagram} (hd : a.Yields read d) (he : a.Yields read e) :
    d = e := by
  obtain ⟨_, _, _, hsource, hread, hload, hprepare⟩ := hd
  obtain ⟨_, _, _, hsource', hread', hload', hprepare'⟩ := he
  rw [hsource] at hsource'
  cases hsource'
  rw [hread] at hread'
  cases hread'
  rw [hload] at hload'
  cases hload'
  rw [hprepare] at hprepare'
  cases hprepare'
  rfl

theorem Arguments.Yields.report_eq {d : Diagram} (h : a.Yields read d) (engine : Engine)
    {format : Format} (hformat : a.format = some format) :
    a.report engine read = Report.ofRendering a.output (format.render engine d) := by
  obtain ⟨path, content, loaded, hsource, hread, hload, hprepare⟩ := h
  have hreport : a.report engine read = a.reportOnFile engine path (read path) := by
    rw [Arguments.report, hsource]
    rfl
  simp only [hreport, Arguments.reportOnFile, Arguments.reportOnContent, Arguments.reportOn, hread,
    hload, hprepare, hformat]

theorem Arguments.reportOn_eq_ok {loaded : Diagram} {r : Report}
    (h : a.reportOn engine loaded = .ok r) :
    ∃ d format, a.prepare loaded = .ok d ∧ a.format = some format ∧
      Report.ofRendering a.output (format.render engine d) = .ok r := by
  unfold Arguments.reportOn at h
  split at h
  · cases h
  · next d hprepare =>
    split at h
    · cases h
    · next format hformat => exact ⟨d, format, hprepare, hformat, h⟩

theorem Arguments.reportOnContent_eq_ok {path : String} {content : ByteArray} {r : Report}
    (h : a.reportOnContent engine path content = .ok r) :
    (∃ loaded, Diagram.ofFile content = .ok loaded ∧ a.reportOn engine loaded = .ok r) ∨
      ∃ message, r = .refused [] message := by
  unfold Arguments.reportOnContent at h
  split at h
  · next loaded hload => exact .inl ⟨loaded, hload, h⟩
  · cases h
    exact .inr ⟨_, rfl⟩
  · cases h
    exact .inr ⟨_, rfl⟩
  all_goals cases h

theorem Arguments.report_eq_ok {r : Report} (h : a.report engine read = .ok r) :
    (∃ path content, a.source = .ok path ∧ read path = .ok content ∧
      a.reportOnContent engine path content = .ok r) ∨
      ∃ message, r = .refused [] message := by
  obtain ⟨path, hsource, h⟩ := bind_eq_ok h
  cases hread : read path with
  | ok content =>
      rw [hread] at h
      exact .inl ⟨path, content, hsource, hread, h⟩
  | error e =>
      rw [hread] at h
      cases h
      exact .inr ⟨_, rfl⟩

/-- A call reports on a text of the diagram that it yields, or refuses. -/
theorem Arguments.report_cases {r : Report} (h : a.report engine read = .ok r) :
    (∃ d format text, a.Yields read d ∧ a.format = some format ∧
      (format.render engine d).result = .ok text ∧
      r = .given a.output (format.render engine d).sources text) ∨
      ∃ sources message, r = .refused sources message := by
  rcases Arguments.report_eq_ok h with ⟨path, content, hsource, hread, h⟩ | ⟨message, rfl⟩
  · rcases Arguments.reportOnContent_eq_ok h with ⟨loaded, hload, h⟩ | ⟨message, rfl⟩
    · obtain ⟨d, format, hprepare, hformat, hr⟩ := Arguments.reportOn_eq_ok h
      rcases Report.ofRendering_eq_ok hr with ⟨text, htext, rfl⟩ | ⟨message, rfl⟩
      · exact .inl ⟨d, format, text,
          ⟨path, content, loaded, hsource, hread, hload, hprepare⟩, hformat, htext, rfl⟩
      · exact .inr ⟨_, message, rfl⟩
    · exact .inr ⟨[], message, rfl⟩
  · exact .inr ⟨[], message, rfl⟩

/-- A call with exit code zero has made its text. -/
theorem Arguments.report_of_code_zero {r : Report} (h : a.report engine read = .ok r)
    (hcode : r.code = 0) {format : Format} (hformat : a.format = some format) :
    ∃ d text, a.Yields read d ∧ (format.render engine d).result = .ok text ∧
      r = .given a.output (format.render engine d).sources text := by
  rcases Arguments.report_cases h with ⟨d, other, text, hd, hother, htext, rfl⟩ | ⟨_, _, rfl⟩
  · rw [hother] at hformat
    cases hformat
    exact ⟨d, text, hd, htext, rfl⟩
  · cases hcode

end Call

/-! ## Runs -/

section Run

variable {arguments : List String} {a : Arguments} {engine : Engine} {files after : FileTree}
  {r : Report}

def Report.saved (r : Report) (files : FileTree) : Except Failure FileTree :=
  match r.written with
  | none => .ok files
  | some (path, text) =>
    if isUsablePath path then (files.write path text.toUTF8).mapError .file else .error .nullInPath

theorem run_save (r : Report) :
    (r.save FileTree.files).run.run files =
      ((r.saved files).map fun _ => (), (r.saved files).toOption.getD files) := by
  rw [Report.save, Report.saved]
  cases r.written with
  | none => rfl
  | some target =>
      dsimp only
      split
      · show (Except.mapError Failure.file <$> FileTree.files.write _ _).run files = _
        rw [StateT.run_map]
        simp only [FileTree.files, StateT.run]
        cases files.write target.1 target.2.toUTF8 <;> rfl
      · rfl

theorem run_bind {α β : Type} (x : ExceptT Failure (StateM FileTree) α)
    (f : α → ExceptT Failure (StateM FileTree) β) :
    (x >>= f).run.run files =
      match x.run.run files with
      | (.ok value, after) => (f value).run.run after
      | (.error e, after) => (.error e, after) := by
  show ExceptT.bindCont f (x.run.run files).1 (x.run.run files).2 = _
  rcases x.run.run files with ⟨_ | value, after⟩ <;> rfl

theorem run_lift {α : Type} (x : Except Failure α) :
    (liftM x : ExceptT Failure (StateM FileTree) α).run.run files = (x, files) := by
  cases x <;> rfl

/-- A call on a file tree reads its file, makes its report and saves it. -/
theorem run_of_call (h : Request.ofArguments arguments = .ok (.call a)) :
    run arguments engine files = do
      let report ← a.report engine files.read
      return (report, ← report.saved files) := by
  simp only [run, perform, h, Arguments.report]
  rw [run_bind, run_lift]
  cases a.source with
  | error e => rfl
  | ok path =>
      have hread : (liftM (FileTree.files.read path) : ExceptT Failure (StateM FileTree)
          (Except FileError ByteArray)).run.run files = (.ok (files.read path), files) := rfl
      dsimp only
      rw [run_bind, hread]
      dsimp only
      rw [run_bind, run_lift]
      show _ = (a.reportOnFile engine path (files.read path)).bind fun report =>
        (report.saved files).map fun after => (report, after)
      cases a.reportOnFile engine path (files.read path) with
      | error e => rfl
      | ok report =>
          dsimp only
          rw [run_bind, run_save]
          cases hsaved : report.saved files with
          | error e => simp only [Except.bind, hsaved]; rfl
          | ok after => simp only [Except.bind, hsaved]; rfl

theorem run_eq_ok (h : Request.ofArguments arguments = .ok (.call a))
    (hrun : run arguments engine files = .ok (r, after)) :
    a.report engine files.read = .ok r ∧ r.saved files = .ok after := by
  rw [run_of_call h] at hrun
  obtain ⟨report, hreport, hrun⟩ := bind_eq_ok hrun
  obtain ⟨saved, hsaved, hrun⟩ := bind_eq_ok hrun
  cases hrun
  exact ⟨hreport, hsaved⟩

theorem run_of_unwritten (h : Request.ofArguments arguments = .ok (.call a))
    (hreport : a.report engine files.read = .ok r) (hwritten : r.written = none) :
    run arguments engine files = .ok (r, files) := by
  have hsaved : r.saved files = .ok files := by rw [Report.saved, hwritten]
  rw [run_of_call h, hreport]
  show (do return (r, ← r.saved files)) = .ok (r, files)
  rw [hsaved]
  rfl

/-- A call that is refused prints nothing and leaves all files as they are. -/
theorem run_of_code_one (hrun : run arguments engine files = .ok (r, after)) (hcode : r.code = 1) :
    r.out = "" ∧ after = files := by
  cases hrequest : Request.ofArguments arguments with
  | error e =>
      simp only [run, perform, hrequest] at hrun
      cases hrun
      cases hcode
  | ok request =>
      cases request with
      | help =>
          simp only [run, perform, hrequest] at hrun
          cases hrun
          cases hcode
      | call a =>
          obtain ⟨hreport, hsave⟩ := run_eq_ok hrequest hrun
          rcases Arguments.report_cases hreport with ⟨_, _, _, _, _, _, rfl⟩ | ⟨_, _, rfl⟩
          · rw [Report.code_given] at hcode
            cases hcode
          · cases hsave
            exact ⟨rfl, rfl⟩

end Run

/-! ## Calls that differ in the format or in the file -/

section Formats

variable {a : Arguments} {line : Format → List String}
  (hline : ∀ format,
    Request.ofArguments (line format) = .ok (.call { a with format := some format }))

include hline

/-- The picture is laid out from what the drawing format prints and holds what the stylesheet
format prints. -/
theorem run_svg_of_dot_of_css (houtput : a.output = none ∨ a.output = some "") {files : FileTree}
    {e₁ e₂ : Engine} {dot css : Report} {after₁ after₂ : FileTree}
    (hdot : run (line .dot) e₁ files = .ok (dot, after₁)) (hdotCode : dot.code = 0)
    (hcss : run (line .css) e₂ files = .ok (css, after₂)) (hcssCode : css.code = 0)
    (engine : Engine) :
    ∃ svg, run (line .svg) engine files = .ok (svg, files) ∧ svg.sources = [dot.out] ∧
      match engine dot.out with
      | .error _ => svg.code = 1
      | .ok picture =>
        match embedStylesheet? picture css.out with
        | some text => svg.code = 0 ∧ svg.out = text
        | none => svg.code = 1 := by
  obtain ⟨d, source, hd, hsource, rfl⟩ :=
    Arguments.report_of_code_zero (run_eq_ok (hline .dot) hdot).1 hdotCode rfl
  obtain ⟨e, sheet, he, hsheet, rfl⟩ :=
    Arguments.report_of_code_zero (run_eq_ok (hline .css) hcss).1 hcssCode rfl
  obtain rfl : d = e := Arguments.Yields.unique hd he
  have hlayOut := Diagram.layOut_of_stylesheetText (mapError_eq_ok hsheet) engine source
  have hreport := Arguments.Yields.report_eq (a := { a with format := some .svg }) hd engine rfl
  rw [Format.render, Diagram.renderAsIs_of_drawingText (mapError_eq_ok hsource),
    Report.ofRendering, hlayOut] at hreport
  simp only [Report.given_of_printing houtput] at hreport ⊢
  cases hpicture : engine source with
  | error failure =>
      rw [hpicture] at hreport
      exact ⟨_, run_of_unwritten (hline .svg) hreport rfl, rfl, rfl⟩
  | ok picture =>
      simp only [hpicture] at hreport ⊢
      cases htext : embedStylesheet? picture sheet with
      | none =>
          rw [htext] at hreport
          exact ⟨_, run_of_unwritten (hline .svg) hreport rfl, rfl, rfl⟩
      | some text =>
          rw [htext] at hreport
          exact ⟨_, run_of_unwritten (hline .svg) hreport rfl, rfl, rfl, rfl⟩

/-- A call that names a file writes there what it would print. -/
theorem run_saving (houtput : a.output = none ∨ a.output = some "") {path : String}
    (hpath : path ≠ "") {format : Format} {arguments : List String}
    (harguments : Request.ofArguments arguments =
      .ok (.call { a with format := some format, output := some path }))
    {engine : Engine} {files after : FileTree} {r : Report}
    (hrun : run arguments engine files = .ok (r, after)) (hcode : r.code = 0) :
    ∃ printed, run (line format) engine files = .ok (printed, files) ∧ printed.code = 0 ∧
      r.out = "" ∧ files.write path printed.out.toUTF8 = .ok after := by
  obtain ⟨hreport, hsave⟩ := run_eq_ok harguments hrun
  obtain ⟨d, text, hd, htext, rfl⟩ := Arguments.report_of_code_zero hreport hcode rfl
  have hprinted := Arguments.Yields.report_eq (a := { a with format := some format }) hd engine rfl
  rw [Report.ofRendering, htext] at hprinted
  simp only [Report.given_of_printing houtput] at hprinted
  refine ⟨_, run_of_unwritten (hline format) hprinted rfl, rfl, ?_, ?_⟩
  · rw [Report.given_of_path hpath]
  · rw [Report.given_of_path hpath, Report.saved] at hsave
    dsimp only at hsave
    split at hsave
    · exact mapError_eq_ok hsave
    · cases hsave

end Formats

/-- Of calls that differ in the format alone, the one for a picture gives the engine, once, the
drawing that another prints, and embeds the stylesheet that a third prints. A refused call has no
effect, and a file gets what would be printed. -/
theorem formats_agree {a : Arguments} {line saving : Format → List String} {path : String}
    (hline : ∀ format,
      Request.ofArguments (line format) = .ok (.call { a with format := some format }))
    (houtput : a.output = none ∨ a.output = some "")
    (hsaving : ∀ format, Request.ofArguments (saving format) =
      .ok (.call { a with format := some format, output := some path }))
    (hpath : path ≠ "") (engine : Engine) (files : FileTree) :
    (∀ e₁ e₂ dot css after₁ after₂,
      run (line .dot) e₁ files = .ok (dot, after₁) → dot.code = 0 →
      run (line .css) e₂ files = .ok (css, after₂) → css.code = 0 →
      ∃ svg, run (line .svg) engine files = .ok (svg, files) ∧ svg.sources = [dot.out] ∧
        match engine dot.out with
        | .error _ => svg.code = 1
        | .ok picture =>
          match embedStylesheet? picture css.out with
          | some text => svg.code = 0 ∧ svg.out = text
          | none => svg.code = 1) ∧
      (∀ arguments report after, run arguments engine files = .ok (report, after) →
        report.code = 1 → report.out = "" ∧ after = files) ∧
      ∀ format report after, run (saving format) engine files = .ok (report, after) →
        report.code = 0 →
        ∃ printed, run (line format) engine files = .ok (printed, files) ∧ printed.code = 0 ∧
          report.out = "" ∧ files.write path printed.out.toUTF8 = .ok after ∧
          (files.locate (.ofString path) ≠ .ok Place.nullDevice →
            after.read path = .ok printed.out.toUTF8 ∧
            ∀ place, files.locate (.ofString path) ≠ .ok place →
              after.entry? place = files.entry? place) := by
  refine ⟨?_, fun _ _ _ => run_of_code_one, ?_⟩
  · intro e₁ e₂ dot css after₁ after₂ hdot hdotCode hcss hcssCode
    exact run_svg_of_dot_of_css hline houtput hdot hdotCode hcss hcssCode engine
  · intro format report after hrun hcode
    obtain ⟨printed, hprinted, hprintedCode, hout, hwrite⟩ :=
      run_saving hline houtput hpath (hsaving format) hrun hcode
    exact ⟨printed, hprinted, hprintedCode, hout, hwrite, FileTree.read_of_write hwrite⟩

theorem exists_run_of_code {arguments : List String} {engine : Engine} {files : FileTree}
    {code : Nat}
    (h : (run arguments engine files).toOption.map (fun r => r.1.code) = some code) :
    ∃ r after, run arguments engine files = .ok (r, after) ∧ r.code = code := by
  obtain ⟨⟨r, after⟩, hrun, hcode⟩ := Option.map_eq_some_iff.1 h
  exact ⟨r, after, eq_ok_of_toOption_eq_some hrun, hcode⟩

/-- The engine is handed the drawing of `B` and `C`, and the file `p` gets the picture that would be
printed. -/
theorem formats_of_a_pruned_document :
    let files : FileTree := ⟨Table.empty.insert ["g"] (.file
      "\x7b\"nodes\": [\"A\"], \"edges\": [[\"B\", \"C\"]]\x7d".toUTF8)⟩
    let line : Format → List String := fun format => spelledOut "g" format none true true
    let engine : Engine := fun _ => .ok "<svg></svg>"
    ∃ dot css svg saved dotFiles cssFiles after,
      run (line .dot) .absent files = .ok (dot, dotFiles) ∧
      run (line .css) .absent files = .ok (css, cssFiles) ∧
      run (line .svg) engine files = .ok (svg, files) ∧ svg.sources = [dot.out] ∧
      embedStylesheet? "<svg></svg>" css.out = some svg.out ∧
      run (spelledOut "g" .svg (some "p") true true) engine files = .ok (saved, after) ∧
      after.read "p" = .ok svg.out.toUTF8 := by
  intro files line engine
  let saving : Format → List String := fun format => spelledOut "g" format (some "p") true true
  have hline : ∀ format, Request.ofArguments (line format) =
      .ok (.call ⟨some "g", some format, none, true, true, false⟩) :=
    fun format => ofArguments_spelledOut (by decide) format (by decide) true true
  have hsaving : ∀ format, Request.ofArguments (saving format) =
      .ok (.call ⟨some "g", some format, some "p", true, true, false⟩) :=
    fun format => ofArguments_spelledOut (by decide) format (by decide) true true
  obtain ⟨hformats, -, hsaves⟩ :=
    formats_agree (a := ⟨some "g", none, none, true, true, false⟩) hline (.inl rfl) hsaving
      (by decide) engine files
  obtain ⟨dot, dotFiles, hdot, hdotCode⟩ := exists_run_of_code
    (show (run (line .dot) .absent files).toOption.map (fun r => r.1.code) = some 0 by
      decide +kernel)
  obtain ⟨css, cssFiles, hcss, hcssCode⟩ := exists_run_of_code
    (show (run (line .css) .absent files).toOption.map (fun r => r.1.code) = some 0 by
      decide +kernel)
  obtain ⟨saved, after, hsaved, hsavedCode⟩ := exists_run_of_code
    (show (run (saving .svg) engine files).toOption.map (fun r => r.1.code) = some 0 by
      decide +kernel)
  obtain ⟨svg, hsvg, hsources, hpicture⟩ := hformats _ _ _ _ _ _ hdot hdotCode hcss hcssCode
  obtain ⟨printed, hprinted, -, -, -, hread⟩ := hsaves .svg saved after hsaved hsavedCode
  obtain rfl : svg = printed := congrArg Prod.fst (Except.ok.inj (hsvg.symm.trans hprinted))
  obtain ⟨text, htext⟩ : ∃ text, embedStylesheet? "<svg></svg>" css.out = some text := ⟨_, rfl⟩
  simp only [engine, htext] at hpicture
  have hdevice : files.locate (.ofString "p") ≠ .ok Place.nullDevice := by
    have hplace : files.locate (.ofString "p") = .ok ["p"] := rfl
    rw [hplace]
    exact fun heq => absurd (Except.ok.inj heq) (by decide)
  refine ⟨dot, css, svg, saved, dotFiles, cssFiles, after, hdot, hcss, hsvg, hsources, ?_, hsaved,
    (hread hdevice).1⟩
  rw [htext, hpicture.2]

end CommandLine

end HighlightGraph
