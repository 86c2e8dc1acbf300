import DesignTokens.Command.Build
import DesignTokens.Proofs.Files.Tree

/-! What a build of several platforms comes to.  What the export for a platform leads to depends on
the project and the name of the platform alone; a platform that can be exported has its file in the
end, one that cannot is named, and neither makes a difference to another. -/

namespace DesignTokens

namespace Build

variable {b : Build} {fs fs' : FileSystem} {s : BuildState} {name : String} {names : List String}
  {outcome : Exported}

/-- Whether a platform cannot be exported. -/
def fails (b : Build) (name : String) : Bool :=
  match b.exported name with
  | .ok _ => false
  | .error _ => true

/-- A platform and what is exported for it, if it can be. -/
def output? (b : Build) (name : String) : Option (String × Exported) :=
  match b.exported name with
  | .ok outcome => some (name, outcome)
  | .error _ => none

/-- The lines that are reported for a platform. -/
def reportFor (b : Build) (name : String) : List String :=
  match b.exported name with
  | .ok outcome => Diagnostic.reportLines outcome.diagnostics
  | .error e => failureLines name e

/-- Writes the files of exported platforms one after the other, as long as all can be written. -/
def deliverAll (b : Build) (fs : FileSystem) (outputs : List (String × Exported)) :
    Except CommandError FileSystem :=
  outputs.foldlM (fun fs output => b.deliver fs output.1 (content output.2)) fs

/-- The place of the file of a platform. -/
def placeOf (b : Build) (working : List String) (name : String) : List String :=
  (b.file name).place working

theorem output?_eq_some_iff {output : String × Exported} :
    b.output? name = some output ↔ output.1 = name ∧ b.exported name = .ok output.2 := by
  rw [output?]
  obtain ⟨named, outcome⟩ := output
  cases b.exported name with
  | ok found => simp [eq_comm]
  | error e => simp

theorem mem_outputs_iff {output : String × Exported} : output ∈ names.filterMap b.output? ↔
    output.1 ∈ names ∧ b.exported output.1 = .ok output.2 := by
  rw [List.mem_filterMap]
  constructor
  · rintro ⟨name, hname, houtput⟩
    obtain ⟨rfl, hexported⟩ := output?_eq_some_iff.mp houtput
    exact ⟨hname, hexported⟩
  · rintro ⟨hname, hexported⟩
    exact ⟨output.1, hname, output?_eq_some_iff.mpr ⟨rfl, hexported⟩⟩

theorem step_of_error {e : ExportError} (h : b.exported name = .error e) :
    b.step s name =
      ({ s.report (b.reportFor name) with failed := s.failed ++ [name] }, none) := by
  rw [step, reportFor, h]

theorem step_of_ok (hfiles : b.options.stdout = false) (h : b.exported name = .ok outcome)
    (hdeliver : b.deliver s.files name (content outcome) = .ok fs) :
    b.step s name = ({ s.report (b.reportFor name) with
      files := fs, written := s.written ++ [(b.file name, content outcome)] }, none) := by
  rw [step, reportFor, h]
  dsimp only
  rw [hfiles, if_neg Bool.false_ne_true]
  dsimp only [BuildState.report]
  rw [hdeliver]

theorem deliver_eq_ok {text : String} (h : b.deliver fs name text = .ok fs') :
    fs'.working = fs.working ∧ ∀ place, fs'.contentAt? place =
      if place = b.placeOf fs.working name then some text.toUTF8 else fs.contentAt? place := by
  obtain ⟨made, hmade, h⟩ := Except.bind_eq_ok_iff.mp h
  have hsame := FileSystem.sameFiles_of_makeDirectories (Except.mapError_eq_ok_iff.mp hmade)
  obtain ⟨hworking, hcontent⟩ := FileSystem.write_eq_ok (Except.mapError_eq_ok_iff.mp h)
  refine ⟨hworking.trans hsame.working, fun place => ?_⟩
  rw [hcontent, hsame.working, hsame.content]
  rfl

theorem exportAll_cons_of_step {s' : BuildState} (h : b.step s name = (s', none)) :
    b.exportAll s (name :: names) = b.exportAll s' names := by
  rw [exportAll, h]

theorem deliverAll_cons (output : String × Exported) (outputs : List (String × Exported)) :
    b.deliverAll fs (output :: outputs) =
      b.deliver fs output.1 (content output.2) >>= fun fs => b.deliverAll fs outputs := by
  rw [deliverAll, List.foldlM_cons]
  rfl

theorem exportAll_eq (hfiles : b.options.stdout = false)
    (h : b.deliverAll s.files (names.filterMap b.output?) = .ok fs') :
    b.exportAll s names =
      ({ files := fs'
         written := s.written ++ (names.filterMap b.output?).map fun output =>
          (b.file output.1, content output.2)
         reported := s.reported ++ names.flatMap b.reportFor
         printed := s.printed
         failed := s.failed ++ names.filter b.fails }, none) := by
  induction names generalizing s with
  | nil =>
    obtain rfl : s.files = fs' := Except.ok.inj h
    simp [exportAll]
  | cons name rest ih =>
    cases hexported : b.exported name with
    | error e =>
      have houtput : b.output? name = none := by rw [output?, hexported]
      have hfails : b.fails name = true := by rw [fails, hexported]
      rw [List.filterMap_cons_none houtput] at h ⊢
      rw [exportAll_cons_of_step (step_of_error hexported), List.filter_cons_of_pos hfails]
      refine Eq.trans (ih ?_) ?_
      · exact h
      · simp [BuildState.report]
    | ok outcome =>
      have houtput : b.output? name = some (name, outcome) := by rw [output?, hexported]
      have hfails : b.fails name = false := by rw [fails, hexported]
      rw [List.filterMap_cons_some houtput] at h ⊢
      rw [deliverAll_cons, Except.bind_eq_ok_iff] at h
      obtain ⟨delivered, hdeliver, hrest⟩ := h
      rw [exportAll_cons_of_step (step_of_ok hfiles hexported hdeliver),
        List.filter_cons_of_neg (by simp [hfails])]
      refine Eq.trans (ih ?_) ?_
      · exact hrest
      · simp [BuildState.report]

theorem deliverAll_eq_ok {outputs : List (String × Exported)}
    (h : b.deliverAll fs outputs = .ok fs')
    (hexported : ∀ output ∈ outputs, b.exported output.1 = .ok output.2)
    (hdistinct : ∀ x ∈ outputs, ∀ y ∈ outputs, x.1 ≠ y.1 →
      b.placeOf fs.working x.1 ≠ b.placeOf fs.working y.1) :
    (∀ output ∈ outputs, fs'.contentAt? (b.placeOf fs.working output.1) =
      some (content output.2).toUTF8) ∧
    ∀ place, (∀ output ∈ outputs, place ≠ b.placeOf fs.working output.1) →
      fs'.contentAt? place = fs.contentAt? place := by
  induction outputs generalizing fs with
  | nil =>
    obtain rfl : fs = fs' := Except.ok.inj h
    exact ⟨nofun, fun _ _ => rfl⟩
  | cons output rest ih =>
    rw [deliverAll_cons, Except.bind_eq_ok_iff] at h
    obtain ⟨delivered, hdeliver, hrest⟩ := h
    obtain ⟨hworking, hcontent⟩ := deliver_eq_ok hdeliver
    rw [List.forall_mem_cons] at hexported
    have hinner := ih hrest hexported.2
    rw [hworking] at hinner
    obtain ⟨hthere, helsewhere⟩ := hinner fun x hx y hy =>
      hdistinct x (List.mem_cons_of_mem _ hx) y (List.mem_cons_of_mem _ hy)
    refine ⟨List.forall_mem_cons.mpr ⟨?_, hthere⟩, fun place hplace => ?_⟩
    · by_cases hagain : ∃ again ∈ rest, again.1 = output.1
      · -- The platform is delivered once more, and what is exported for it is the same.
        obtain ⟨again, hmem, hname⟩ := hagain
        have hsame : again.2 = output.2 := by
          have heq := hexported.2 again hmem
          rw [hname, hexported.1] at heq
          exact (Except.ok.inj heq).symm
        rw [← hname, ← hsame]
        exact hthere again hmem
      · rw [helsewhere, hcontent, if_pos rfl]
        intro other hother
        refine hdistinct output List.mem_cons_self other (List.mem_cons_of_mem _ hother) ?_
        exact fun hname => hagain ⟨other, hother, hname.symm⟩
    · rw [List.forall_mem_cons] at hplace
      rw [helsewhere place hplace.2, hcontent, if_neg hplace.1]

theorem run_eq {reported : List String} (hfiles : b.options.stdout = false)
    (h : b.deliverAll fs (b.selected.filterMap b.output?) = .ok fs') :
    b.run fs reported = b.conclude
      { files := fs'
        written := (b.selected.filterMap b.output?).map fun output =>
          (b.file output.1, content output.2)
        reported := reported ++ b.selected.flatMap b.reportFor
        printed := []
        failed := b.selected.filter b.fails } := by
  rw [run, exportAll_eq hfiles h]
  rfl

theorem fails_eq_true_iff : b.fails name = true ↔ ∃ e, b.exported name = .error e := by
  rw [fails]
  cases b.exported name <;> simp

theorem fails_eq_false_iff : b.fails name = false ↔ ∃ outcome, b.exported name = .ok outcome := by
  rw [fails]
  cases b.exported name <;> simp

theorem contentAt?_eq_some_iff
    (hdelivered : b.deliverAll fs (names.filterMap b.output?) = .ok fs')
    (hdistinct : ∀ x ∈ names, ∀ y ∈ names, b.fails x = false → b.fails y = false →
      x ≠ y → b.placeOf fs.working x ≠ b.placeOf fs.working y)
    (place : List String) (text : ByteArray) :
    fs'.contentAt? place = some text ↔
      (∃ name ∈ names, ∃ outcome, b.exported name = .ok outcome ∧
        b.placeOf fs.working name = place ∧ (content outcome).toUTF8 = text) ∨
      ((∀ name ∈ names, b.fails name = false → b.placeOf fs.working name ≠ place) ∧
        fs.contentAt? place = some text) := by
  obtain ⟨hthere, helsewhere⟩ := deliverAll_eq_ok hdelivered
    (fun output houtput => (mem_outputs_iff.mp houtput).2) fun x hx y hy => by
      obtain ⟨hx, hexported⟩ := mem_outputs_iff.mp hx
      obtain ⟨hy, hexported'⟩ := mem_outputs_iff.mp hy
      exact hdistinct x.1 hx y.1 hy (fails_eq_false_iff.mpr ⟨_, hexported⟩)
        (fails_eq_false_iff.mpr ⟨_, hexported'⟩)
  by_cases hplace : ∃ output ∈ names.filterMap b.output?, b.placeOf fs.working output.1 = place
  · obtain ⟨output, houtput, rfl⟩ := hplace
    obtain ⟨hname, hexported⟩ := mem_outputs_iff.mp houtput
    constructor
    · intro htext
      rw [hthere output houtput] at htext
      exact .inl ⟨output.1, hname, output.2, hexported, rfl, Option.some.inj htext⟩
    · rintro (⟨other, hother, outcome, hexported', hsame, rfl⟩ | ⟨hnone, -⟩)
      · rw [← hsame]
        exact hthere (other, outcome) (mem_outputs_iff.mpr ⟨hother, hexported'⟩)
      · exact absurd rfl (hnone output.1 hname (fails_eq_false_iff.mpr ⟨_, hexported⟩))
  · have hkept := helsewhere place fun output houtput heq => hplace ⟨output, houtput, heq.symm⟩
    have hnone : ∀ name ∈ names, ∀ outcome, b.exported name = .ok outcome →
        b.placeOf fs.working name ≠ place := fun name hname outcome hexported heq =>
      hplace ⟨(name, outcome), mem_outputs_iff.mpr ⟨hname, hexported⟩, heq⟩
    rw [hkept]
    constructor
    · refine fun htext => .inr ⟨fun name hname hfails => ?_, htext⟩
      obtain ⟨outcome, hexported⟩ := fails_eq_false_iff.mp hfails
      exact hnone name hname outcome hexported
    · rintro (⟨name, hname, outcome, hexported, heq, -⟩ | ⟨-, htext⟩)
      · exact absurd heq (hnone name hname outcome hexported)
      · exact htext

/-- Platforms are built in isolation.  If all files can be written and the platforms have theirs at
distinct places, a build to files writes the tree of each selected platform that can be exported to
its file, and after it every file is one of these or as it was; the build fails exactly if some
selected platform cannot be exported, and its last line names these, in the order of selection. -/
theorem run_isolates_platforms {reported : List String} (hfiles : b.options.stdout = false)
    (hdelivered : b.deliverAll fs (b.selected.filterMap b.output?) = .ok fs')
    (hdistinct : ∀ x ∈ b.selected, ∀ y ∈ b.selected, b.fails x = false → b.fails y = false →
      x ≠ y → b.placeOf fs.working x ≠ b.placeOf fs.working y) :
    (b.run fs reported).written = (b.selected.filterMap b.output?).map (fun output =>
      ((b.directory output.1).join (output.1 ++ ".json"),
        output.2.dictionary.toJson.pretty ++ "\n")) ∧
    (∀ place text, (b.run fs reported).files.contentAt? place = some text ↔
      (∃ name ∈ b.selected, ∃ outcome, b.exported name = .ok outcome ∧
        b.placeOf fs.working name = place ∧
        (outcome.dictionary.toJson.pretty ++ "\n").toUTF8 = text) ∨
      ((∀ name ∈ b.selected, b.fails name = false → b.placeOf fs.working name ≠ place) ∧
        fs.contentAt? place = some text)) ∧
    ((b.run fs reported).exitCode ≠ 0 ↔ ∃ name ∈ b.selected, ∃ e, b.exported name = .error e) ∧
    (b.run fs reported).output = "" ∧
    (b.run fs reported).errors =
      CommandOutcome.ofLines (reported ++ b.selected.flatMap b.reportFor) ++
        if b.selected.filter b.fails = [] then ""
        else "Error: Failed to export platform(s): " ++
          ", ".intercalate (b.selected.filter b.fails) ++ "\n" := by
  have hsome : b.selected.filter b.fails ≠ [] ↔
      ∃ name ∈ b.selected, ∃ e, b.exported name = .error e := by
    simp only [ne_eq, List.filter_eq_nil_iff, not_forall, not_not, exists_prop, fails_eq_true_iff]
  rw [run_eq hfiles hdelivered, ← hsome]
  refine ⟨rfl, contentAt?_eq_some_iff hdelivered hdistinct, ?_, ?_, ?_⟩
  · rw [conclude]
    cases b.selected.filter b.fails <;> simp
  · rw [conclude, hfiles]
    rfl
  · rw [conclude]
    cases b.selected.filter b.fails <;> rfl

def knot : Transform where
  name := "knot"
  matcher := none
  effect := .value (fun _ _ => .str "\x7bcolor.link\x7d") fun _ _ => []

/-- Two platforms that can be exported, one that cannot, and one that is unknown; some are asked for
twice. -/
def assorted : Build where
  options := { BuildOptions.default with
    platforms := ["css", "ghost", "knotted", "js", "ghost", "css"] }
  project :=
    { tokens := [("color", .branch [("brand", .token (.new (.str "#f00"))),
        ("link", .token (.new (.str "\x7bcolor.brand\x7d")))])]
      platforms := [("css", ⟨"css", [], [("buildPath", .str "build/css")]⟩),
        ("knotted", ⟨"knotted", [knot], []⟩), ("js", .new "js")] }

def shelf : FileSystem := ⟨[("js.json", .file ⟨#[1]⟩), ("notes", .file ⟨#[2]⟩)], []⟩

/-- What is exported for each of the two platforms. -/
def colors : Json :=
  .obj [("color", .obj [
    ("brand", .obj [("value", .str "#f00"), ("path", .ofStrings ["color", "brand"])]),
    ("link", .obj [("value", .str "#f00"), ("path", .ofStrings ["color", "link"])])])]

theorem assorted_is_isolated :
    (assorted.run shelf []).written.map (fun file => (file.1.text, file.2)) =
      [("./build/css/css.json", colors.pretty ++ "\n"), ("./js.json", colors.pretty ++ "\n"),
        ("./build/css/css.json", colors.pretty ++ "\n")] ∧
    (assorted.run shelf []).files.contentAt? ["js.json"] = some (colors.pretty ++ "\n").toUTF8 ∧
    (assorted.run shelf []).files.contentAt? ["notes"] = some ⟨#[2]⟩ ∧
    (assorted.run shelf []).exitCode ≠ 0 ∧
    ∃ lines, (assorted.run shelf []).errors = CommandOutcome.ofLines lines ++
      "Error: Failed to export platform(s): ghost, knotted, ghost\n" := by
  obtain ⟨fs', hdelivered⟩ : ∃ fs', assorted.deliverAll shelf
      (assorted.selected.filterMap assorted.output?) = .ok fs' := by
    have hok : (assorted.deliverAll shelf
        (assorted.selected.filterMap assorted.output?)).isOk = true := by decide +kernel
    cases h : assorted.deliverAll shelf (assorted.selected.filterMap assorted.output?) with
    | ok fs' => exact ⟨fs', rfl⟩
    | error e =>
      rw [h] at hok
      cases hok
  have hdistinct : ∀ x ∈ assorted.selected, ∀ y ∈ assorted.selected, assorted.fails x = false →
      assorted.fails y = false → x ≠ y →
        assorted.placeOf shelf.working x ≠ assorted.placeOf shelf.working y := by
    decide +kernel
  obtain ⟨hwritten, hcontent, hexit, -, herrors⟩ :=
    @run_isolates_platforms assorted shelf fs' [] rfl hdelivered hdistinct
  have houtputs : (assorted.selected.filterMap assorted.output?).map (fun output =>
      (((assorted.directory output.1).join (output.1 ++ ".json")).text,
        output.2.dictionary.toJson)) =
      [("./build/css/css.json", colors), ("./js.json", colors),
        ("./build/css/css.json", colors)] := by decide +kernel
  have htree : (assorted.exported "js").toOption.map (·.dictionary.toJson) = some colors := by
    decide +kernel
  obtain ⟨outcome, hjs⟩ : ∃ outcome, assorted.exported "js" = .ok outcome :=
    fails_eq_false_iff.mp (by decide +kernel)
  rw [hjs] at htree
  have htext : outcome.dictionary.toJson = colors := Option.some.inj htree
  have hfailed : assorted.selected.filter assorted.fails = ["ghost", "knotted", "ghost"] := by
    decide +kernel
  have hlast : "Error: Failed to export platform(s): " ++
      ", ".intercalate ["ghost", "knotted", "ghost"] ++ "\n" =
        "Error: Failed to export platform(s): ghost, knotted, ghost\n" := by decide +kernel
  refine ⟨?_, ?_, ?_, hexit.mpr ⟨"ghost", by decide, _, rfl⟩,
    [] ++ assorted.selected.flatMap assorted.reportFor, ?_⟩
  · have htexts := congrArg (List.map fun output : String × Json =>
      (output.1, output.2.pretty ++ "\n")) houtputs
    rw [List.map_map] at htexts
    rw [hwritten, List.map_map]
    exact htexts
  · exact (hcontent _ _).mpr (.inl ⟨"js", by decide, outcome, hjs, by decide +kernel,
      by rw [htext]⟩)
  · exact (hcontent _ _).mpr (.inr ⟨by decide +kernel, rfl⟩)
  · rw [herrors, hfailed, if_neg (List.cons_ne_nil _ _), hlast]

end Build

end DesignTokens
