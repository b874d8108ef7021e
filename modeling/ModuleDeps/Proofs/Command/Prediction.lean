import ModuleDeps.Command.Run
import ModuleDeps.Proofs.Command.Parsing
import ModuleDeps.Proofs.Exits

/-!
# `resolve` predicts `add`

Both verbs read the settings, look the symbol up in the catalog and then in the
workspace.  `resolve` asks before it opens the workspace, and with an empty
buffer; `add` asks with the file to be edited.  Neither makes a difference when
the workspace is given and the file can be edited: what the disk says about a
symbol, its `verdict`, decides both runs (`runResolve_shows`, `runAdd_shows`).
-/

set_option autoImplicit false

namespace ModuleDeps.Command

open Text

/-! ## Verdicts -/

/-- What a disk says about a symbol. -/
inductive Verdict
  | halts (halt : Halt)
  | fails
  | finds (path : Text)

def diskImporter (d : Disk) (settings : Settings) (root : Text) : Importer :=
  { settings, finder := some (diskFinder d root) }

theorem steady_diskImporter (d : Disk) (settings : Settings) (root : Text) :
    (diskImporter d settings root).Steady := by
  intro finder given q b b'
  obtain rfl := Option.some.inj given
  rfl

def finding (im : Importer) (symbol : Text) : Verdict :=
  match (im.target symbol { buffer := Buffer.ofText [] }).1 with
  | .error _ => .halts .outOfRange
  | .ok (.error _) => .fails
  | .ok (.ok (_, path)) => .finds path

def verdict (d : Disk) (config root symbol : Text) : Verdict :=
  match Settings.load d config with
  | .error halt => .halts halt
  | .ok (.error _) => .fails
  | .ok (.ok settings) => finding (diskImporter d settings root) symbol

def Fails (run : Run) : Prop := ∃ r, run = .ok r ∧ r.failure ≠ none

/-- The run ends well, and tells a path in the way of `told`. -/
def Tells (told : Result → Text → Prop) (run : Run) (path : Text) : Prop :=
  ∃ r, run = .ok r ∧ r.failure = none ∧ told r path

/-- The run ends as a verdict on the disk says. -/
def Shows (told : Result → Text → Prop) (d : Disk) (run : Run) : Verdict → Prop
  | .halts why => run = .error (.halted why d)
  | .fails => Fails run
  | .finds path => Tells told run path

def printed (r : Result) (path : Text) : Prop := r.stdout = line path

/-- The only note is that the path has been added.  It stands between what a
verbose run says of its progress. -/
def announced (before behind : Text) (r : Result) (path : Text) : Prop :=
  r.stderr = before ++ line (path ++ utf8 " has been added into the define section") ++ behind

theorem printed_inj {r : Result} {path path' : Text} (told : printed r path)
    (told' : printed r path') :
    path = path' :=
  List.append_cancel_right (told.symm.trans told')

theorem announced_inj {before behind : Text} {r : Result} {path path' : Text}
    (told : announced before behind r path) (told' : announced before behind r path') :
    path = path' := by
  have lines := List.append_cancel_left (List.append_cancel_right (told.symm.trans told'))
  exact List.append_cancel_right (List.append_cancel_right lines)

section Shown

variable {told : Result → Text → Prop} {d : Disk} {run : Run} {v : Verdict}

theorem Shows.iff (shown : Shows told d run v)
    (inj : ∀ {r path path'}, told r path → told r path' → path = path') :
    (∀ path, Tells told run path ↔ v = .finds path) ∧ (Fails run ↔ v = .fails) ∧
      ∀ stop, run = .error stop ↔ ∃ why, v = .halts why ∧ stop = .halted why d := by
  cases v with
  | halts why =>
      obtain rfl : run = .error (.halted why d) := shown
      simp [Tells, Fails, eq_comm]
  | fails =>
      obtain ⟨r, rfl, failed⟩ := shown
      simp [Tells, Fails, failed]
  | finds path =>
      obtain ⟨r, rfl, done, said⟩ := shown
      refine ⟨fun path' => ?_, by simp [Fails, done], by simp⟩
      constructor
      · rintro ⟨r', same, -, said'⟩
        obtain rfl := Except.ok.inj same
        rw [inj said said']
      · rintro ⟨rfl⟩
        exact ⟨r, rfl, done, said⟩

theorem Shows.reported (shown : Shows told d run v) : Shows told d (run.map Result.reported) v := by
  cases v with
  | halts why =>
      obtain rfl : run = .error (.halted why d) := shown
      rfl
  | fails =>
      obtain ⟨r, rfl, failed⟩ := shown
      obtain ⟨e, failure⟩ := Option.ne_none_iff_exists'.mp failed
      exact ⟨r.reported, rfl, by simp [Result.reported, failure]⟩
  | finds path =>
      obtain ⟨r, rfl, done, said⟩ := shown
      have same : r.reported = r := by simp [Result.reported, done]
      exact ⟨r.reported, rfl, same.symm ▸ done, same.symm ▸ said⟩

end Shown

/-! ## The two runs -/

section Runs

variable {d : Disk} {o : Options} {root : Text}

theorem workspace_of_root (given : o.root ≠ [])
    (folder : d.isFolder (d.absolute o.root) = .ok true) (file : Text) :
    workspace d o file = .ok (d.absolute o.root) := by
  have notEmpty : o.root.isEmpty = false := by simpa using given
  simp [workspace, notEmpty, folder]

theorem exists_writeFile {path content : Text} (read : d.readFile path = .ok content) (new : Text) :
    ∃ d', d.writeFile path new = .ok d' := by
  rw [Disk.readFile, Disk.stat] at read
  rw [Disk.writeFile]
  rcases found : d.locate path with cause | ⟨names, entry | inner⟩
  · simp [found, Except.map, Disk.failing, bind, Except.bind] at read
  · exact ⟨_, rfl⟩
  · simp [found, Except.map, Disk.failing, bind, Except.bind] at read

theorem importerFor_of_load {file : Text} {settings : Settings}
    (loaded : Settings.load d o.config = .ok (.ok settings))
    (opened : workspace d o file = .ok root) :
    importerFor d o file = .ok (.ok (diskImporter d settings root,
      if o.verbose then line (utf8 "Workspace root: " ++ root) else [])) := by
  simp only [importerFor, loaded, opened, bind, Except.bind]
  rfl

theorem runResolve_shows (symbol : Text) (opened : workspace d o [] = .ok root) :
    Shows printed d (runResolve d o symbol) (verdict d o.config root symbol) := by
  rw [runResolve, verdict]
  rcases loaded : Settings.load d o.config with halt | (e | settings)
  · exact rfl
  · exact ⟨_, rfl, by simp⟩
  · simp only [bind, Except.bind, haltingOn_ok, importerFor_of_load loaded opened]
    have sameModules : (diskImporter d settings root).settings = settings := rfl
    rw [finding, Importer.target, sameModules]
    cases settings.modules.lookup symbol with
    | some known => exact ⟨_, rfl, rfl, rfl⟩
    | none =>
        simp only
        obtain ⟨stop | (e | ⟨_ | candidate, paths⟩), left⟩ :=
          (diskImporter d settings root).resolve symbol { buffer := Buffer.ofText [] }
        · exact rfl
        · exact ⟨_, rfl, by simp⟩
        · exact ⟨_, rfl, by simp⟩
        · exact ⟨_, rfl, rfl, rfl⟩

/-- A file with the dependency added is delivered in one of three ways, none of
which can fail.  A verbose run says what it has written. -/
theorem deliver_done {path content : Text} (read : d.readFile path = .ok content)
    (new said : Text) :
    (deliver d o path content new said).failure = none ∧
      ∃ behind, (o.verbose = false → behind = []) ∧
        (deliver d o path content new said).stderr = said ++ behind := by
  rw [deliver]
  split
  · obtain ⟨d', written⟩ := exists_writeFile read new
    rw [written]
    exact ⟨rfl, _, fun silent => by simp [silent], rfl⟩
  · split <;> exact ⟨rfl, [], fun _ => rfl, (List.append_nil said).symm⟩

def conclude (d : Disk) (o : Options) (path content said : Text)
    (answer : Except OutOfRange Importer.Addition × Session) :
    Run := do
  let r ← haltingOn d (orHalt answer.1)
  let said := said ++ sessionText o answer.2
  match r.failure, r.outcome with
  | some e, _ => return { stderr := said, failure := some (.failed e), disk := d }
  | none, .added => return deliver d o path content answer.2.buffer.text said
  | none, .alreadyImported =>
    return {
      stdout := if o.inPlace || o.diff then [] else answer.2.buffer.text
      stderr := said
      disk := d }
  | none, outcome => return { stderr := said, failure := some (.notAdded outcome), disk := d }

theorem conclude_shows {path content : Text} (read : d.readFile path = .ok content) (said : Text)
    {im : Importer} (steady : im.Steady) {found : Descriptor}
    (located : ModuleDeps.locate (Buffer.ofText content) (im.stamp (Buffer.ofText content)) =
      .ok found)
    {symbol : Text} (missing : found.hasParameter symbol = false) :
    ∃ before behind, (o.verbose = false → before = said ∧ behind = []) ∧
      Shows (announced before behind) d
        (conclude d o path content said
          (im.addDependency symbol { buffer := Buffer.ofText content }))
        (finding im symbol) := by
  have same := Importer.target_steady symbol steady { buffer := Buffer.ofText [] }
    (Session.progress { buffer := Buffer.ofText content } (Importer.locatedNote found))
  have seeks := im.seeks_target symbol
    (Session.progress { buffer := Buffer.ofText content } (Importer.locatedNote found))
  rw [Importer.addDependency_of_missing symbol { buffer := Buffer.ofText content } located missing,
    finding, same]
  generalize im.target symbol (Session.progress { buffer := Buffer.ofText content }
    (Importer.locatedNote found)) = answer at seeks
  obtain ⟨stop | (ended | ⟨name, importPath⟩), left⟩ := answer
  · exact ⟨said, [], fun _ => ⟨rfl, rfl⟩, rfl⟩
  · refine ⟨said, [], fun _ => ⟨rfl, rfl⟩, ?_⟩
    cases seeks with
    | alone unlisted unaided words => exact ⟨_, rfl, by simp⟩
    | broken asked reply words => exact ⟨_, rfl, by simp⟩
    | unmapped asked reply mapped words => exact ⟨_, rfl, by simp⟩
  · have gone := seeks.left_of_found located missing
    have kept : left.buffer = Buffer.ofText content :=
      gone.kept fun finder given => steady.quiet finder given _ _
    obtain ⟨after, applied⟩ :=
      exists_apply_edits (Buffer.whole_ofText content) (im.stamp_fits _) located
      left.buffer.lineCount name importPath
    rw [← kept] at applied
    let written : Session := { left with buffer := after }.note
      (importPath ++ utf8 " has been added into the define section")
    obtain ⟨done, behind, silent, stderr⟩ :=
      deliver_done (o := o) read after.text (said ++ sessionText o written)
    refine ⟨said ++ if o.verbose then textLines left.log else [], behind,
      fun quiet => ⟨by simp [quiet], silent quiet⟩, ?_⟩
    simp only [Importer.insert, applied]
    refine ⟨_, rfl, done, stderr.trans ?_⟩
    simp [sessionText, written, Session.note, gone.notes, textLines]

section Add

variable {path content : Text} (isModule : isModuleFile path = true)
  (read : d.readFile path = .ok content)
include isModule read

theorem runAdd_eq (c : CursorFlags) (symbol : Text) :
    runAdd d o c path (some symbol) = (do
      match ← haltingOn d (importerFor d o path) with
      | .error e => return { failure := some e, disk := d }
      | .ok (im, said) =>
        conclude d o path content said
          (im.addDependency symbol { buffer := Buffer.ofText content })) := by
  rw [runAdd, read]
  simp only [isModule, Bool.not_true, Bool.false_eq_true, if_false, symbolFor, bind, Except.bind]
  rfl

theorem runAdd_shows (opened : workspace d o path = .ok root) {found : Descriptor}
    (located : ModuleDeps.locate (Buffer.ofText content) (Buffer.ofText content).version =
      .ok found)
    {symbol : Text} (missing : found.hasParameter symbol = false) (c : CursorFlags) :
    ∃ before behind, (o.verbose = false → before = [] ∧ behind = []) ∧
      Shows (announced before behind) d (runAdd d o c path (some symbol))
        (verdict d o.config root symbol) := by
  rw [runAdd_eq isModule read, verdict]
  rcases loaded : Settings.load d o.config with halt | (e | settings)
  · simp only [importerFor, loaded, bind, Except.bind]
    exact ⟨[], [], fun _ => ⟨rfl, rfl⟩, rfl⟩
  · simp only [importerFor, loaded, bind, Except.bind]
    exact ⟨[], [], fun _ => ⟨rfl, rfl⟩, _, rfl, by simp⟩
  · simp only [bind, Except.bind, haltingOn_ok, importerFor_of_load loaded opened]
    obtain ⟨before, behind, quiet, shown⟩ := conclude_shows read
      (if o.verbose then line (utf8 "Workspace root: " ++ root) else [])
        (steady_diskImporter d settings root)
      located missing
    exact ⟨before, behind, fun silent => by simpa [silent] using quiet silent, shown⟩

end Add

end Runs

/-! ## The command lines -/

def optionsUnder (d : Disk) (env : Environment) (p : Parsed) : Options :=
  optionsOf (((fullEnvironment d env).get? rootVariable).getD [])
    (((fullEnvironment d env).get? configVariable).getD []) p

section CommandLines

variable (d : Disk) (env : Environment) (info : BuildInfo) {options : List Text} {p : Parsed}
  (read : parse (globalFlags [] []) options = .ok p) (bare : p.args = [])
include read bare

theorem run_verb {v : Verb} (isVerb : v ≠ .none) {operands : List Text}
    (plain : ∀ arg ∈ operands, arg.head? ≠ some dash) :
    run d env info (utf8 v.name :: (options ++ operands)) =
      (runVerb d info (((fullEnvironment d env).get? rootVariable).getD [])
        (((fullEnvironment d env).get? configVariable).getD []) v { p with args := operands }).map
          Result.reported := by
  have found := findVerb_name isVerb (options ++ operands)
  have own : names libraryCommands (utf8 v.name :: (options ++ operands)) = false :=
    names_libraryCommands isVerb (by rw [found])
  simp only [run, own, found, (parse_allFlags read bare plain _ _ v).1,
    Bool.false_eq_true, if_false]

theorem run_resolve {symbol : Text} (plain : symbol.head? ≠ some dash) :
    run d env info (utf8 "resolve" :: (options ++ [symbol])) =
      (runResolve d (optionsUnder d env p) symbol).map Result.reported := by
  have allPlain : ∀ arg ∈ [symbol], arg.head? ≠ some dash := by simpa using plain
  have noHelp : ({ p with args := [symbol] } : Parsed).switch "help" = false :=
    (parse_allFlags read bare allPlain [] [] .resolve).2
  refine (run_verb d env info read bare (v := .resolve) (by decide) allPlain).trans ?_
  simp only [runVerb, noHelp, Bool.false_eq_true, if_false]
  rfl

theorem run_add {path symbol : Text} (pathPlain : path.head? ≠ some dash)
    (plain : symbol.head? ≠ some dash) :
    run d env info (utf8 "add" :: (options ++ [path, symbol])) =
      (runAdd d (optionsUnder d env p) (cursorOf p) path (some symbol)).map Result.reported := by
  have allPlain : ∀ arg ∈ [path, symbol], arg.head? ≠ some dash := by
    simpa using ⟨pathPlain, plain⟩
  have noHelp : ({ p with args := [path, symbol] } : Parsed).switch "help" = false :=
    (parse_allFlags read bare allPlain [] [] .add).2
  refine (run_verb d env info read bare (v := .add) (by decide) allPlain).trans ?_
  simp only [runVerb, noHelp, Bool.false_eq_true, if_false]
  rfl

end CommandLines

/-- `resolve` tells a path exactly when `add` announces that this path has been
added, the one fails exactly when the other does, and they stop alike.  The file
is read as an operand, so its path must not look like a flag. -/
theorem resolve_predicts_add (d : Disk) (env : Environment) (info : BuildInfo)
    {options : List Text} {p : Parsed} (read : parse (globalFlags [] []) options = .ok p)
    (bare : p.args = []) {root : Text} (given : p.find? "root" = some (.text root))
    (notEmpty : root ≠ []) (folder : d.isFolder (d.absolute root) = .ok true)
    {file content : Text} (filePlain : file.head? ≠ some dash)
    (isModule : isModuleFile file = true) (readable : d.readFile file = .ok content)
    {found : Descriptor}
    (located : ModuleDeps.locate (Buffer.ofText content) (Buffer.ofText content).version =
      .ok found)
    {symbol : Text} (symbolPlain : symbol.head? ≠ some dash)
    (missing : ∀ parameter ∈ found.parameters, ¬ symbol.lower <:+ parameter.lower) :
    let resolved := run d env info (utf8 "resolve" :: (options ++ [symbol]))
    let added := run d env info (utf8 "add" :: (options ++ [file, symbol]))
    ∃ before behind, (p.switch "verbose" = false → before = [] ∧ behind = []) ∧
      (∀ path, Tells printed resolved path ↔ Tells (announced before behind) added path) ∧
      (Fails resolved ↔ Fails added) ∧
      ∀ stop, resolved = .error stop ↔ added = .error stop := by
  intro resolved added
  have rootGiven : (optionsUnder d env p).root = root := by
    simp only [optionsUnder, optionsOf, Parsed.text, given]
  have opened (path : Text) : workspace d (optionsUnder d env p) path = .ok (d.absolute root) := by
    have inferred :=
      workspace_of_root (o := optionsUnder d env p) (rootGiven ▸ notEmpty)
        (rootGiven ▸ folder) path
    rwa [rootGiven] at inferred
  have shownResolved :
      Shows printed d resolved (verdict d (optionsUnder d env p).config (d.absolute root)
        symbol) := by
    rw [show resolved = _ from run_resolve d env info read bare symbolPlain]
    exact (runResolve_shows symbol (opened [])).reported
  obtain ⟨before, behind, quiet, shown⟩ := runAdd_shows isModule readable (opened file) located
    (Descriptor.hasParameter_eq_false_iff.mpr missing) (cursorOf p)
  have shownAdded : Shows (announced before behind) d added
      (verdict d (optionsUnder d env p).config (d.absolute root) symbol) := by
    rw [show added = _ from run_add d env info read bare filePlain symbolPlain]
    exact shown.reported
  obtain ⟨tellsResolved, failsResolved, stopsResolved⟩ := shownResolved.iff printed_inj
  obtain ⟨tellsAdded, failsAdded, stopsAdded⟩ := shownAdded.iff announced_inj
  exact ⟨before, behind, quiet, fun path => (tellsResolved path).trans (tellsAdded path).symm,
    failsResolved.trans failsAdded.symm,
    fun stop => (stopsResolved stop).trans (stopsAdded stop).symm⟩

def openModule : Text := utf8 "sap.ui.define([], function () \x7b\x7d);\n"

def openFound : Descriptor :=
  describe 1 ⟨[], ⟨0, 15⟩, ⟨0, 15⟩, false⟩ ⟨[], ⟨0, 28⟩, ⟨0, 28⟩,
    false⟩ (utf8 "'")

theorem locate_openModule :
    ModuleDeps.locate (Buffer.ofText openModule) (Buffer.ofText openModule).version =
      .ok openFound := by
  decide +kernel

def pairDisk : Disk where
  root :=
    .folder (utf8 "webapp") (.file (utf8 "A.js") openModule (.file (utf8 "B.js") openModule .nil))
      .nil
  workingDir := []

/-- The module that `resolve` finds by a search is the one that `add` adds. -/
theorem resolve_predicts_add_pair :
    Tells (announced [] []) (run pairDisk [] .plain [utf8 "add", utf8 "--root", utf8 ".",
      utf8 "webapp/A.js", utf8 "B"])
      (utf8 "sap/bi/webi/B") := by
  have resolved :
      Tells printed (run pairDisk [] .plain [utf8 "resolve", utf8 "--root", utf8 ".", utf8 "B"])
      (utf8 "sap/bi/webi/B") := by
    refine ⟨{ stdout := line (utf8 "sap/bi/webi/B"), disk := pairDisk }, ?_, rfl, rfl⟩
    decide +kernel
  have read : parse (globalFlags [] []) [utf8 "--root", utf8 "."] =
      .ok { flags := [("root", .text (utf8 "."))] } := by
    decide +kernel
  have readable : pairDisk.readFile (utf8 "webapp/A.js") = .ok openModule := by decide +kernel
  have symbolPlain : (utf8 "B").head? ≠ some dash := by decide
  have missing : ∀ parameter ∈ openFound.parameters,
      ¬ (utf8 "B").lower <:+ parameter.lower := by
    simp [openFound, describe]
  obtain ⟨before, behind, quiet, predicted, -⟩ :=
    resolve_predicts_add pairDisk [] .plain read rfl rfl (by decide)
    (by decide +kernel) (by decide) (by decide +kernel) readable locate_openModule
      symbolPlain missing
  obtain ⟨rfl, rfl⟩ := quiet rfl
  exact (predicted _).mp resolved

def dashedDisk : Disk where
  root := .file (utf8 "-a.js") openModule .nil
  workingDir := []

/-- `resolve` does not see the path of the file, and `add` takes it for a run of
letters. -/
theorem resolve_not_predicts_add_dashed :
    dashedDisk.isFolder (dashedDisk.absolute (utf8 ".")) = .ok true ∧
      dashedDisk.readFile (utf8 "-a.js") = .ok openModule ∧ isModuleFile (utf8 "-a.js") = true ∧
      ModuleDeps.locate (Buffer.ofText openModule) (Buffer.ofText openModule).version =
        .ok openFound ∧
      (∀ parameter ∈ openFound.parameters, ¬ (utf8 "Logger").lower <:+ parameter.lower) ∧
      Tells printed (run dashedDisk [] .plain [utf8 "resolve", utf8 "--root", utf8 ".",
        utf8 "Logger"])
        (utf8 "sap/bi/smart/core/Logger") ∧
      Fails (run dashedDisk [] .plain
        [utf8 "add", utf8 "--root", utf8 ".", utf8 "-a.js", utf8 "Logger"]) := by
  refine ⟨by decide +kernel, by decide +kernel, by decide +kernel,
    locate_openModule, by simp [openFound, describe],
    ⟨{ stdout := line (utf8 "sap/bi/smart/core/Logger"), disk := dashedDisk }, by decide +kernel,
      rfl, rfl⟩, ?_⟩
  refine ⟨Result.reported
    { failure := some (.usage (.unknownLetter 0x61 (utf8 "a.js"))), disk := dashedDisk },
    ?_, by simp [Result.reported]⟩
  decide +kernel

end ModuleDeps.Command
