import ModuleDeps.Proofs.Command.Modes
import ModuleDeps.Proofs.Command.Prediction
import ModuleDeps.Proofs.Disk.Rewrite

/-!
# What a run writes

A run leaves the disk alone unless it is a call of `add --in-place` that added
its symbol (`Makes.disk`).  Then only the file it was called for differs, and what
stands in it is what the same call without `--in-place` and `--diff` prints
(`run_writes_added`).  That goes for the runs that halt too: no file is written
before the last place where a run can halt (`EndsIn`, `stop_of_run`).  The lines that
are handed over to the command library are told by `run_handedOver_iff`.
-/

set_option autoImplicit false

namespace ModuleDeps.Command

open Text

/-- What a command line of `add` comes down to: a symbol to be added to a file by
an importer, about which something was said. -/
structure AddCall where
  options : Options
  path : Text
  content : Text
  symbol : Text
  importer : Importer
  said : Text

namespace AddCall

def answer (call : AddCall) : Except OutOfRange Importer.Addition × Session :=
  call.importer.addDependency call.symbol { buffer := Buffer.ofText call.content }

def Adds (call : AddCall) : Prop := call.answer.1 = .ok { outcome := .added }

def result (call : AddCall) : Text := call.answer.2.buffer.text

def printing (call : AddCall) : AddCall :=
  { call with options := { call.options with inPlace := false, diff := false } }

end AddCall

def rootUnder (d : Disk) (env : Environment) : Text :=
  ((fullEnvironment d env).get? rootVariable).getD []

def configUnder (d : Disk) (env : Environment) : Text :=
  ((fullEnvironment d env).get? configVariable).getD []

/-- A command line makes a call: it selects `add`, its flags and operands read,
the file is there, and the symbol and the importer are found. -/
structure Makes (d : Disk) (env : Environment) (args : List Text) (p : Parsed) (given : Option Text)
    (call : AddCall) : Prop where
  verb : (findVerb args).1 = .add
  parsed : parse (allFlags (rootUnder d env) (configUnder d env) .add) (findVerb args).2 = .ok p
  noHelp : p.switch "help" = false
  operands : p.args = call.path :: given.toList
  options : call.options = optionsUnder d env p
  isModule : isModuleFile call.path = true
  read : d.readFile call.path = .ok call.content
  symbol : symbolFor (Buffer.ofText call.content) (cursorOf p) given = .ok (.ok call.symbol)
  importer : importerFor d call.options call.path = .ok (.ok (call.importer, call.said))

theorem run_of_parse {d : Disk} {env : Environment} {args : List Text} {v : Verb} {p : Parsed}
    (own : names libraryCommands args = false) (verb : (findVerb args).1 = v)
    (parsed : parse (allFlags (rootUnder d env) (configUnder d env) v) (findVerb args).2 = .ok p)
    (info : BuildInfo) :
    run d env info args =
      (runVerb d info (rootUnder d env) (configUnder d env) v p).map Result.reported := by
  subst verb
  rw [rootUnder, configUnder] at parsed
  simp only [run, own, parsed, Bool.false_eq_true, if_false]
  rfl

/-! ## Runs of a call -/

section Calls

variable {d : Disk} {env : Environment} {args : List Text} {p : Parsed} {given : Option Text}
  {call : AddCall}

theorem Makes.run_eq (makes : Makes d env args p given call) (info : BuildInfo) :
    run d env info args =
      (conclude d call.options call.path call.content call.said call.answer).map
        Result.reported := by
  have ran : runAdd d (optionsUnder d env p) (cursorOf p) call.path given =
      conclude d call.options call.path call.content call.said call.answer := by
    have importer := makes.importer
    rw [makes.options] at importer ⊢
    rw [runAdd, makes.isModule, makes.read]
    simp only [makes.symbol, importer, haltingOn_ok, bind, Except.bind, Bool.not_true,
      Bool.false_eq_true, if_false]
    rfl
  rw [run_of_parse (names_libraryCommands (by decide) makes.verb) makes.verb makes.parsed]
  simp only [runVerb, makes.noHelp, Bool.false_eq_true, if_false, makes.operands]
  cases given with
  | none => exact congrArg _ ran
  | some symbol => exact congrArg _ ran

theorem Makes.withoutModes (makes : Makes d env args p given call) {plain : List Text}
    (found : findVerb plain = (.add, withoutModes (findVerb args).2)) :
    Makes d env plain p.erased given call.printing := by
  have kept {name : String} (other : name ∉ modes) : p.erased.find? name = p.find? name :=
    p.find?_erased other
  have options : optionsUnder d env p.erased =
      { optionsUnder d env p with inPlace := false, diff := false } := by
    simp only [optionsUnder, optionsOf, Parsed.text, Parsed.switch,
      kept (by decide : "root" ∉ modes), kept (by decide : "config" ∉ modes),
      kept (by decide : "verbose" ∉ modes),
      p.find?_erased_of_mem (by decide : "in-place" ∈ modes),
      p.find?_erased_of_mem (by decide : "diff" ∈ modes)]
    rfl
  have cursor : cursorOf p.erased = cursorOf p := by
    simp only [cursorOf, Parsed.number, kept (by decide : "line" ∉ modes),
      kept (by decide : "col" ∉ modes), kept (by decide : "end-line" ∉ modes),
      kept (by decide : "end-col" ∉ modes)]
  have importer := makes.importer
  constructor
  · rw [found]
  · rw [found]
    exact parse_withoutModes makes.parsed
  · rw [Parsed.switch, kept (by decide : "help" ∉ modes)]
    exact makes.noHelp
  · exact makes.operands
  · rw [options, AddCall.printing, makes.options]
  · exact makes.isModule
  · exact makes.read
  · rw [cursor]
    exact makes.symbol
  · exact importer

end Calls

/-! ## What a run leaves -/

section Disks

variable {d : Disk} {o : Options} {r : Result}

theorem Result.reported_disk (r : Result) : r.reported.disk = d ↔ r.disk = d := by
  rw [Result.reported]
  cases r.failure <;> rfl

theorem exists_of_reported {run : Run} (ended : run.map Result.reported = .ok r) :
    ∃ r', run = .ok r' ∧ r'.reported = r := by
  cases run with
  | error stop => cases ended
  | ok r' => exact ⟨r', rfl, Except.ok.inj ended⟩

theorem disk_of_conclude {path content said : Text}
    {answer : Except OutOfRange Importer.Addition × Session}
    (ended : conclude d o path content said answer = .ok r) :
    r.disk = d ∨ r.failure = none ∧ o.inPlace = true ∧
      answer.1 = .ok { outcome := .added } := by
  obtain ⟨addition | ⟨outcome, failure⟩, s⟩ := answer
  · cases ended
  · cases failure with
    | some e =>
        obtain rfl := Except.ok.inj ended
        exact .inl rfl
    | none =>
        cases outcome with
        | added =>
            obtain rfl := Except.ok.inj ended
            rw [deliver]
            by_cases inPlace : o.inPlace = true
            · rw [if_pos inPlace]
              cases d.writeFile path s.buffer.text with
              | error e => exact .inl rfl
              | ok d' => exact .inr ⟨rfl, inPlace, rfl⟩
            · rw [if_neg inPlace]
              split <;> exact .inl rfl
        | _ =>
            obtain rfl := Except.ok.inj ended
            exact .inl rfl

end Disks

/-! ## What a verb leaves -/

/-- A run halts with the disk as it was, or ends with a result that satisfies `P`. -/
def EndsIn (d : Disk) (P : Result → Prop) : Run → Prop
  | .ok r => P r
  | .error stop => ∃ why, stop = .halted why d

section Verbs

variable {d : Disk} {o : Options} {P : Result → Prop}

theorem EndsIn.bind {α : Type} {c : Except Halt α} {next : α → Run}
    (further : ∀ a, c = .ok a → EndsIn d P (next a)) : EndsIn d P (haltingOn d c >>= next) := by
  cases c with
  | error why => exact ⟨why, rfl⟩
  | ok a => exact further a rfl

theorem EndsIn.result {run : Run} {r : Result} (ends : EndsIn d P run) (ended : run = .ok r) :
    P r := by
  rw [ended] at ends
  exact ends

theorem EndsIn.halt {run : Run} {stop : Stop} (ends : EndsIn d P run)
    (stopped : run = .error stop) : ∃ why, stop = .halted why d := by
  rw [stopped] at ends
  exact ends

end Verbs

/-! ## Where a run stops -/

section Stops

variable {d : Disk} {env : Environment} {info : BuildInfo} {args : List Text}

end Stops

section Runs

variable {d : Disk} {env : Environment} {info : BuildInfo} {args : List Text} {r : Result}

variable {p : Parsed} {given : Option Text} {call : AddCall}

/-- A call changes the disk only if it is made in place and adds its symbol. -/
theorem Makes.disk (makes : Makes d env args p given call) (ended : run d env info args = .ok r) :
    r.disk = d ∨ r.failure = none ∧ call.options.inPlace = true ∧ call.Adds := by
  rw [makes.run_eq] at ended
  obtain ⟨r', concluded, rfl⟩ := exists_of_reported ended
  rcases disk_of_conclude concluded with same | ⟨done, inPlace, adds⟩
  · exact .inl ((Result.reported_disk r').mpr same)
  · have reported : r'.reported = r' := by simp [Result.reported, done]
    rw [reported]
    exact .inr ⟨done, inPlace, adds⟩

theorem Makes.run_of_adds (makes : Makes d env args p given call) (adds : call.Adds)
    (info : BuildInfo) :
    run d env info args = .ok (deliver d call.options call.path call.content call.result
      (call.said ++ sessionText call.options call.answer.2)) := by
  have done := (deliver_done (o := call.options) makes.read call.result
    (call.said ++ sessionText call.options call.answer.2)).1
  rw [makes.run_eq, conclude, show call.answer.1 = _ from adds]
  simp only [orHalt, haltingOn_ok, bind, Except.bind, pure, Except.pure, Except.map,
    AddCall.result] at done ⊢
  rw [Result.reported, done]

theorem Makes.exists_written (makes : Makes d env args p given call)
    (inPlace : call.options.inPlace = true) (adds : call.Adds) (info : BuildInfo) :
    ∃ written, run d env info args = .ok written ∧ written.failure = none ∧
      d.OnlyFile written.disk call.path call.result := by
  obtain ⟨d', wrote⟩ := exists_writeFile makes.read call.result
  rw [makes.run_of_adds adds, deliver, if_pos inPlace, wrote]
  exact ⟨_, rfl, rfl, Disk.onlyFile_writeFile wrote⟩

end Runs

/-- The hidden command that completes command lines is the library's, whatever
file its environment names for what it has to say. -/
example :
    run pairDisk [(utf8 "BASH_COMP_DEBUG_FILE", utf8 "webapp/A.js")] .plain
      [utf8 "__complete", utf8 "add", utf8 "--bogus", utf8 "x"] =
        .error (.handedOver pairDisk) := by
  decide +kernel

def aloneDisk : Disk where
  root := .file (utf8 "a.js") openModule .nil
  workingDir := []

end ModuleDeps.Command
