import ModuleDeps.Proofs.Buffer.Survival
import ModuleDeps.Proofs.Buffer.Untouched
import ModuleDeps.Proofs.Command.Writing
import ModuleDeps.Proofs.Idempotence

/-!
# Lines that `add` rewrites

`add` opens a file as a buffer and delivers the text of the buffer.  Where the
line ends of the file are not alike, or a carriage return ends it, that text is
not the file, whether something was added or not: what is delivered is the
opened text, with the insertions of the call put in, and every line without an
insertion has the line end of the buffer there (`add_rewrites_iff`).
-/

set_option autoImplicit false

namespace ModuleDeps.Command

open Text

theorem quiet_of_importerFor {d : Disk} {o : Options} {file said : Text} {im : Importer}
    (opened : importerFor d o file = .ok (.ok (im, said))) : im.Quiet := by
  obtain ⟨e | settings, -, opened⟩ := exists_of_bind_eq_ok opened
  · cases Except.ok.inj opened
  · cases placed : workspace d o file with
    | error e =>
        simp only [placed] at opened
        cases Except.ok.inj opened
    | ok root =>
        simp only [placed] at opened
        obtain ⟨rfl, -⟩ := Prod.mk.inj (Except.ok.inj (Except.ok.inj opened))
        exact (steady_diskImporter d settings root).quiet

section Calls

variable {d : Disk} {env : Environment} {args : List Text} {p : Parsed} {given : Option Text}
  {call : AddCall}

theorem Makes.run_of_alreadyImported (makes : Makes d env args p given call) (info : BuildInfo)
    (imported : call.answer.1 = .ok { outcome := .alreadyImported })
    (inPlace : call.options.inPlace = false) (diff : call.options.diff = false) :
    ∃ said, run d env info args =
      .ok { stdout := (Buffer.ofText call.content).text, stderr := said, disk := d } := by
  have kept : call.answer.2.buffer = Buffer.ofText call.content :=
    Importer.buffer_of_alreadyImported (quiet_of_importerFor makes.importer) imported
  rw [makes.run_eq, conclude, imported, inPlace, diff, kept]
  exact ⟨_, rfl⟩

theorem Makes.exists_combined (makes : Makes d env args p given call) (adds : call.Adds) :
    ∃ found name path,
      locate (Buffer.ofText call.content) (call.importer.stamp (Buffer.ofText call.content)) =
        .ok found ∧
      ¬ (Buffer.ofText call.content).Refuses
        (found.edits (Buffer.ofText call.content).lineCount name path) ∧
      call.result = joinWith (Buffer.ofText call.content).ending.bytes
        ((Buffer.ofText call.content).combined
          (found.edits (Buffer.ofText call.content).lineCount name path)).cutLines := by
  have whole := Buffer.whole_ofText call.content
  obtain ⟨found, name, path, done⟩ :=
    Importer.exists_adds (quiet_of_importerFor makes.importer) adds
  obtain ⟨-, nonempty, -⟩ :=
    edits_fit whole done.located (Buffer.ofText call.content).lineCount name path
  have taken : ¬ (Buffer.ofText call.content).Refuses
      (found.edits (Buffer.ofText call.content).lineCount name path) := by
    intro refused
    obtain ⟨e, stop⟩ := Buffer.apply_of_refuses refused
    exact nomatch stop.symm.trans done.applied
  have after := Except.ok.inj (done.applied.symm.trans (whole.apply_combined taken nonempty))
  refine ⟨found, name, path, done.located, taken, ?_⟩
  rw [AddCall.result, AddCall.answer, after]
  rfl

end Calls

/-- The files that come back as they were opened are those whose line feeds all
follow a carriage return, or of which none does, and which do not end in one.  Of any
other file `add` delivers the opened text, which is not the file: as it stands, if
the symbol is found in it, and else with the insertions of the call, where a line
without any of them still gets the line end of the buffer. -/
theorem add_rewrites_iff (t : Text) :
    ((Buffer.ofText t).text = t ↔ UniformEnds t) ∧
      ∀ {d : Disk} {env : Environment} {args : List Text} {p : Parsed} {given : Option Text}
        {call : AddCall}
        (info : BuildInfo), Makes d env args p given call → call.content = t →
          ¬ UniformEnds t →
        (call.answer.1 = .ok { outcome := .alreadyImported } → call.options.inPlace = false →
          call.options.diff = false →
          ∃ r, run d env info args = .ok r ∧ r.failure = none ∧
          r.stdout = (Buffer.ofText t).text ∧ r.stdout ≠ t) ∧
        (call.Adds → (Buffer.ofText t).text ≠ t ∧
          ∃ found name path, locate (Buffer.ofText t) (call.importer.stamp (Buffer.ofText t)) =
            .ok found ∧
            call.result = joinWith (Buffer.ofText t).ending.bytes
              ((Buffer.ofText t).combined (found.edits (Buffer.ofText t).lineCount name
                path)).cutLines ∧
            ∀ above l below, (Buffer.ofText t).lines = above ++ l :: below → below ≠ [] →
              (∀ i ∈ (found.edits (Buffer.ofText t).lineCount name path).inserts,
                i.place.line ≠ above.length) →
              ∃ before rest, call.result =
                (Buffer.ofText t).rows before ++
                  ((l ++ (Buffer.ofText t).ending.bytes) ++ rest)) := by
  refine ⟨Buffer.text_ofText_iff_uniformEnds t, ?_⟩
  rintro d env args p given call info makes rfl uneven
  have whole := Buffer.whole_ofText call.content
  have rewritten : (Buffer.ofText call.content).text ≠ call.content :=
    mt (Buffer.text_ofText_iff_uniformEnds call.content).mp uneven
  constructor
  · intro imported inPlace diff
    obtain ⟨said, ended⟩ := makes.run_of_alreadyImported info imported inPlace diff
    exact ⟨_, ended, rfl, rfl, rewritten⟩
  · intro adds
    obtain ⟨found, name, path, located, taken, result⟩ := makes.exists_combined adds
    refine ⟨rewritten, found, name, path, located, result, ?_⟩
    intro above l below cut more untouched
    have apart : lf ∉ l := whole.apart l (by simp [cut])
    -- A line without insertions keeps its bytes and gets the line end of the buffer.
    obtain ⟨before, behind, some, kept⟩ := Buffer.exists_untouched cut more apart
      (fun ending => Buffer.getLast?_of_ofText ending cut more) taken untouched
    refine ⟨before, joinWith (Buffer.ofText call.content).ending.bytes behind, ?_⟩
    rw [result, kept, List.append_cons, Buffer.joinWith_rows _ some, Buffer.rows_append,
      Buffer.rows_cons, Buffer.rows_nil, List.append_nil, List.append_assoc]

def mixedModule : Text := utf8 "sap.ui.define(['x/B'], function (B) \x7b\r\n\x7d);\n"

def mixedDisk : Disk where
  root := .file (utf8 "a.js") mixedModule .nil
  workingDir := []

def mixedCall (symbol : Text) : AddCall where
  options := ⟨utf8 ".", [], false, false, false⟩
  path := utf8 "a.js"
  content := mixedModule
  symbol := symbol
  importer := diskImporter mixedDisk .builtin (mixedDisk.absolute (utf8 "."))
  said := []

theorem makes_mixedCall (symbol : Text)
    (parsed : parse (allFlags (rootUnder mixedDisk []) (configUnder mixedDisk []) .add)
      [utf8 "--root", utf8 ".", utf8 "a.js", symbol] =
      .ok { flags := [("root", .text (utf8 "."))], args := [utf8 "a.js", symbol] }) :
    Makes mixedDisk [] [utf8 "add", utf8 "--root", utf8 ".", utf8 "a.js", symbol]
      { flags := [("root", .text (utf8 "."))], args := [utf8 "a.js", symbol] } (some symbol)
        (mixedCall symbol) := by
  have found : findVerb [utf8 "add", utf8 "--root", utf8 ".", utf8 "a.js", symbol] =
      (.add, [utf8 "--root", utf8 ".", utf8 "a.js", symbol]) :=
        findVerb_name (v := .add) (by decide) _
  have loaded : Settings.load mixedDisk [] = .ok (.ok .builtin) := rfl
  have options : optionsUnder mixedDisk [] { flags := [("root", .text (utf8 "."))] } =
      ⟨utf8 ".", [], false, false, false⟩ := by
    decide +kernel
  have given : (utf8 ".") ≠ [] := by decide
  have folder : mixedDisk.isFolder (mixedDisk.absolute (utf8 ".")) = .ok true := by decide +kernel
  have isModule : isModuleFile (utf8 "a.js") = true := by decide +kernel
  have read : mixedDisk.readFile (utf8 "a.js") = .ok mixedModule := by decide +kernel
  constructor
  · rw [found]
  · rw [found]
    exact parsed
  · rfl
  · rfl
  · exact options.symm
  · exact isModule
  · exact read
  · rfl
  · exact importerFor_of_load loaded (workspace_of_root given folder _)

/-- The second line gets another end, whether the symbol is found in the first line
or added there. -/
theorem add_rewrites_iff_mixed :
    (∃ r, run mixedDisk [] .plain [utf8 "add", utf8 "--root", utf8 ".", utf8 "a.js",
      utf8 "B"] = .ok r ∧
        r.stdout = utf8 "sap.ui.define(['x/B'], function (B) \x7b\r\n\x7d);\r\n" ∧
        r.stdout ≠ mixedModule) ∧
      ∃ before rest, (mixedCall (utf8 "Logger")).result =
        (Buffer.ofText mixedModule).rows before ++ (utf8 "\x7d);\r\n" ++ rest) := by
  obtain ⟨survives, calls⟩ := add_rewrites_iff mixedModule
  have opened : (Buffer.ofText mixedModule).text =
      utf8 "sap.ui.define(['x/B'], function (B) \x7b\r\n\x7d);\r\n" := by
    decide +kernel
  have ending : (Buffer.ofText mixedModule).ending = .crlf := by decide +kernel
  have lines : (Buffer.ofText mixedModule).lines =
      [utf8 "sap.ui.define(['x/B'], function (B) \x7b"] ++ utf8 "\x7d);" :: [[]] := by
        decide +kernel
  have block : (locate (Buffer.ofText mixedModule) 1).map (fun found =>
      (found.kind, found.dependencyInsert.line, found.parameterInsert.line)) =
        .ok (.bracketedFactory, 0, 0) := by
    decide +kernel
  have uneven : ¬ UniformEnds mixedModule := by
    rw [← survives, opened]
    decide +kernel
  have present : (mixedCall (utf8 "B")).answer.1 = .ok { outcome := .alreadyImported } := by
    decide +kernel
  have missing : (mixedCall (utf8 "Logger")).answer.1 = .ok { outcome := .added } := by
    decide +kernel
  obtain ⟨printed, -⟩ :=
    calls .plain (makes_mixedCall (utf8 "B") (by decide +kernel)) rfl uneven
  obtain ⟨-, written⟩ :=
    calls .plain (makes_mixedCall (utf8 "Logger") (by decide +kernel)) rfl uneven
  constructor
  · obtain ⟨r, ended, -, stdout, rewritten⟩ := printed present rfl rfl
    exact ⟨r, ended, stdout.trans opened, rewritten⟩
  · obtain ⟨-, found, name, path, located, -, untouched⟩ := written missing
    have stamp : (mixedCall (utf8 "Logger")).importer.stamp (Buffer.ofText mixedModule) = 1 := by
      decide +kernel
    rw [stamp] at located
    rw [located] at block
    obtain ⟨kind, places⟩ := Prod.mk.inj (Except.ok.inj block)
    obtain ⟨dependencyLine, parameterLine⟩ := Prod.mk.inj places
    have apart : ∀ i ∈ (found.edits (Buffer.ofText mixedModule).lineCount name path).inserts,
        i.place.line ≠ 1 := by
      simp [Descriptor.edits, kind, dependencyLine, parameterLine]
    obtain ⟨before, rest, result⟩ := untouched _ _ _ lines (by simp) apart
    rw [ending] at result
    exact ⟨before, rest, result⟩

end ModuleDeps.Command
