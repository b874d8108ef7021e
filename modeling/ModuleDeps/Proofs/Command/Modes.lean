import Mathlib.Data.List.TakeWhile
import ModuleDeps.Proofs.Command.Parsing

/-!
# Leaving out flags

`--in-place` and `--diff` say where `add` puts its result and have no part in
what it does.  Without them a command line is read as before, but for these two
switches (`parse_withoutModes`).  Its verb is found again too, unless a bare
`--help` or `-h` stands among the arguments (`findVerb_withoutModes`): such an
argument hides the one behind it from the search for the verb, and that is
another one when a flag between them is gone.
-/

set_option autoImplicit false

namespace ModuleDeps.Command

open Text

def modes : List String := ["diff", "in-place"]

def valueFlags : List String := ["col", "config", "end-col", "end-line", "line", "root"]

def isNamed (names : List String) (flag : Text) : Bool :=
  names.any fun name => utf8 name == (splitValue flag).1

def setsMode : Text → Bool
  | 0x2D :: 0x2D :: flag => isNamed modes flag
  | _ => false

def awaitsValue : Text → Bool
  | 0x2D :: 0x2D :: flag => isNamed valueFlags flag && (splitValue flag).2.isNone
  | _ => false

/-- Arguments of `add` without those that set a mode.  The first of them may be
the value of the flag in front of it. -/
def withoutModesFrom : Bool → List Text → List Text
  | _, [] => []
  | true, value :: rest => value :: withoutModesFrom false rest
  | false, arg :: rest =>
    if arg = utf8 "--" then arg :: rest
    else if setsMode arg then withoutModesFrom false rest
    else arg :: withoutModesFrom (awaitsValue arg) rest

def withoutModes (args : List Text) : List Text := withoutModesFrom false args

def Parsed.erased (p : Parsed) : Parsed :=
  { p with flags := p.flags.filter fun row => !modes.contains row.1 }

/-! ## The flags of `add` -/

def addKinds : List (String × FlagKind) := (allFlags [] [] .add).map fun f => (f.name, f.kind)

section Flags

variable {root config : Text} {f : Flag}

theorem mem_addKinds (listed : f ∈ allFlags root config .add) :
    (f.name, f.kind) ∈ addKinds := by
  have same : (allFlags root config .add).map (fun f => (f.name, f.kind)) = addKinds := rfl
  rw [← same]
  exact List.mem_map_of_mem listed

theorem modes_are_switches (listed : f ∈ allFlags root config .add) (isMode : f.name ∈ modes) :
    f.kind = .switch := by
  have switches : ∀ row ∈ addKinds, row.1 ∈ modes → row.2 = .switch := by decide
  exact switches (f.name, f.kind) (mem_addKinds listed) isMode

theorem mode_letters (listed : f ∈ allFlags root config .add) {letter : UInt8}
    (lettered : f.letter = some letter) :
    f.name ∉ modes := by
  have unlettered : ∀ f ∈ allFlags root config .add, f.letter ≠ none →
      f.name ∉ modes := by
    simp [allFlags, globalFlags, ownFlags, helpFlag, modes]
  exact unlettered f listed (by simp [lettered])

variable {flag : Text} (found : named? (allFlags root config .add) (splitValue flag).1 = some f)
include found

theorem setsMode_iff : setsMode (0x2D :: 0x2D :: flag) = true ↔ f.name ∈ modes := by
  have same : ∀ row ∈ addKinds, (modes.any fun name => utf8 name == utf8 row.1) = true ↔
      row.1 ∈ modes := by decide
  have named : utf8 f.name = (splitValue flag).1 := by simpa using List.find?_some found
  rw [setsMode, isNamed, ← named]
  exact same (f.name, f.kind) (mem_addKinds (List.mem_of_find?_eq_some found))

theorem awaitsValue_eq :
    awaitsValue (0x2D :: 0x2D :: flag) = (f.given (splitValue flag).2).isNone := by
  have same : ∀ row ∈ addKinds, (valueFlags.any fun name => utf8 name == utf8 row.1) =
      (row.2 != .switch) := by decide
  have named : utf8 f.name = (splitValue flag).1 := by simpa using List.find?_some found
  rw [awaitsValue, isNamed, ← named, same _ (mem_addKinds (List.mem_of_find?_eq_some found))]
  cases (splitValue flag).2 with
  | some value => simp [Flag.given]
  | none => by_cases isSwitch : f.kind = .switch <;> simp [Flag.given, isSwitch]

end Flags

/-! ## Reading -/

namespace Parsed

theorem find?_erased (p : Parsed) {name : String} (kept : name ∉ modes) :
    p.erased.find? name = p.find? name := by
  have same :
      (fun row : String × FlagValue => decide ((!modes.contains row.1) = true ∧
        (row.1 == name) = true)) =
      fun row => row.1 == name := by
    funext row
    by_cases isName : row.1 = name <;> simp [isName, kept]
  rw [find?, erased, List.find?_filter, find?, same]

theorem find?_erased_of_mem (p : Parsed) {name : String} (isMode : name ∈ modes) :
    p.erased.find? name = none := by
  rw [find?, Option.map_eq_none_iff, List.find?_eq_none]
  intro row member isName
  obtain rfl := beq_iff_eq.mp isName
  simp [erased, isMode] at member

theorem set_erased {p q : Parsed} {f : Flag} {value : Text} (done : p.set f value = .ok q) :
    if f.name ∈ modes then q.erased = p.erased else p.erased.set f value = .ok q.erased := by
  rw [set] at done ⊢
  cases given : f.read value with
  | error cause => simp [given] at done
  | ok v =>
      rw [given] at done
      obtain rfl := Except.ok.inj done
      split <;> simp_all [erased]

end Parsed

section Reading

variable {root config : Text}

theorem parseLetters_erased {letters : Text} {p q : Parsed}
    (read : parseLetters (allFlags root config .add) letters p = .ok q) :
    parseLetters (allFlags root config .add) letters p.erased = .ok q.erased := by
  induction letters generalizing p with
  | nil =>
      obtain rfl := Except.ok.inj read
      rfl
  | cons letter rest ih =>
      rw [parseLetters.eq_def] at read ⊢
      simp only at read ⊢
      split
      · rename_i passed
        rw [if_pos passed] at read
        obtain rfl := Except.ok.inj read
        rfl
      · rename_i notPassed
        rw [if_neg notPassed] at read
        cases found : lettered? (allFlags root config .add) letter with
        | none => simp [found] at read
        | some f =>
            have lettered : f.letter = some letter := by simpa using List.find?_some found
            have kept := mode_letters (List.mem_of_find?_eq_some found) lettered
            have setErased {q : Parsed} {value : Text} (done : p.set f value = .ok q) :
                p.erased.set f value = .ok q.erased := by
              simpa only [if_neg kept] using Parsed.set_erased done
            simp only [found] at read ⊢
            revert read
            split
            · exact setErased
            · intro read
              cases given : p.set f (utf8 "true") with
              | error e => simp [given] at read
              | ok p' =>
                  rw [given] at read
                  rw [setErased given]
                  exact ih read

/-- A flag that waits for its value is no switch. -/
def Waits (root config : Text) (pending : Option Flag) : Prop :=
  ∀ f ∈ pending, f ∈ allFlags root config .add ∧ f.kind ≠ .switch

theorem setsMode_of_plain {arg : Text} (plain : ∀ flag, arg ≠ 0x2D :: 0x2D :: flag) :
    setsMode arg = false ∧ awaitsValue arg = false := by
  constructor
  · rw [setsMode.eq_def]
    split
    · exact absurd rfl (plain _)
    · rfl
  · rw [awaitsValue.eq_def]
    split
    · exact absurd rfl (plain _)
    · rfl

/-- Without modes, an argument that sets none is taken as before, and one that
sets a mode changes nothing. -/
theorem Takes.erased {pending later : Option Flag} {p q : Parsed} {arg : Text}
    (waits : Waits root config pending)
    (step : Takes (allFlags root config .add) pending p arg later q) :
    Waits root config later ∧
      (pending = none ∧ setsMode arg = true ∧ later = none ∧ q.erased = p.erased ∨
        (pending = none → setsMode arg = false ∧ awaitsValue arg = later.isSome) ∧
          Takes (allFlags root config .add) pending p.erased arg later q.erased) := by
  have nothing : Waits root config none := by simp [Waits]
  cases step with
  | @value f _ _ _ done =>
      obtain ⟨listed, notSwitch⟩ := waits f rfl
      have kept : f.name ∉ modes := fun isMode => notSwitch (modes_are_switches listed isMode)
      have setErased := Parsed.set_erased done
      rw [if_neg kept] at setErased
      exact ⟨nothing, .inr ⟨by simp, .value setErased⟩⟩
  | @named f _ _ flag value names found given done =>
      have setErased := Parsed.set_erased done
      refine ⟨nothing, ?_⟩
      by_cases isMode : f.name ∈ modes
      · rw [if_pos isMode] at setErased
        exact .inl ⟨rfl, (setsMode_iff found).mpr isMode, rfl, setErased⟩
      · rw [if_neg isMode] at setErased
        have unset : setsMode (0x2D :: 0x2D :: flag) = false :=
          Bool.eq_false_iff.mpr fun sets => isMode ((setsMode_iff found).mp sets)
        exact .inr ⟨fun _ => ⟨unset, by simp [awaitsValue_eq found, given]⟩,
          .named names found given setErased⟩
  | @waits f _ flag names found given =>
      have listed := List.mem_of_find?_eq_some found
      have notSwitch : f.kind ≠ .switch := by
        intro isSwitch
        cases value : (splitValue flag).2 <;> simp [Flag.given, value, isSwitch] at given
      have unset : setsMode (0x2D :: 0x2D :: flag) = false :=
        Bool.eq_false_iff.mpr fun sets =>
          notSwitch (modes_are_switches listed ((setsMode_iff found).mp sets))
      refine ⟨?_, .inr ⟨fun _ => ⟨unset, by simp [awaitsValue_eq found, given]⟩,
        .waits names found given⟩⟩
      intro f' isWaiting
      obtain rfl := Option.some.inj isWaiting
      exact ⟨listed, notSwitch⟩
  | @letters _ _ b letters single done =>
      have plain : ∀ flag, 0x2D :: b :: letters ≠ (0x2D :: 0x2D :: flag : Text) := by
        simp [single]
      exact ⟨nothing, .inr ⟨fun _ => setsMode_of_plain plain,
        .letters single (parseLetters_erased done)⟩⟩
  | operand plain =>
      exact ⟨nothing, .inr ⟨fun _ => setsMode_of_plain (plain _), .operand plain⟩⟩

theorem Takes.ne_end {flags : List Flag} {later : Option Flag} {p q : Parsed} {arg : Text}
    (step : Takes flags none p arg later q) : arg ≠ utf8 "--" := by
  rintro rfl
  cases step with
  | named names => exact names.1 rfl
  | waits names => exact names.1 rfl
  | letters single => exact single rfl
  | operand plain => exact plain _ _ rfl

theorem withoutModes_of_sets {arg : Text} (notEnd : arg ≠ utf8 "--")
    (sets : setsMode arg = true) (rest : List Text) :
    withoutModes (arg :: rest) = withoutModes rest := by
  rw [withoutModes, withoutModesFrom, if_neg notEnd, if_pos sets, withoutModes]

theorem withoutModes_of_unset {arg : Text} (notEnd : arg ≠ utf8 "--")
    (unset : setsMode arg = false) (rest : List Text) :
    withoutModes (arg :: rest) = arg :: withoutModesFrom (awaitsValue arg) rest := by
  rw [withoutModes, withoutModesFrom, if_neg notEnd, if_neg (by simp [unset])]

theorem Reads.erased {pending : Option Flag} {p q : Parsed} {args : List Text}
    (waits : Waits root config pending)
    (read : Reads (allFlags root config .add) pending p args q) :
    Reads (allFlags root config .add) pending p.erased (withoutModesFrom pending.isSome args)
      q.erased := by
  induction read with
  | done p => exact .done _
  | ended p rest =>
      rw [withoutModesFrom.eq_def]
      exact .ended _ rest
  | @taken pending later p p' q arg rest step further ih =>
      obtain ⟨waitsLater, ⟨rfl, sets, rfl, same⟩ | ⟨unset, step'⟩⟩ := step.erased waits
      · have dropped := withoutModes_of_sets step.ne_end sets rest
        have further' := ih waitsLater
        rw [same] at further'
        rw [withoutModes] at dropped
        rw [Option.isSome_none, dropped]
        exact further'
      · cases pending with
        | some f =>
            cases step
            exact .taken step' (ih waitsLater)
        | none =>
            obtain ⟨unset, awaits⟩ := unset rfl
            have kept := withoutModes_of_unset step.ne_end unset rest
            rw [withoutModes, awaits] at kept
            rw [Option.isSome_none, kept]
            exact .taken step' (ih waitsLater)

theorem parse_withoutModes {args : List Text} {p : Parsed}
    (read : parse (allFlags root config .add) args = .ok p) :
    parse (allFlags root config .add) (withoutModes args) = .ok p.erased := by
  have nothing : Waits root config none := by simp [Waits]
  exact parseFrom_eq_ok_iff.mpr ((parseFrom_eq_ok_iff.mp read).erased nothing)

/-! ## Values behind flags -/

end Reading

/-! ## Finding the verb -/

section Scanning

variable {arg : Text} (notEnd : arg ≠ utf8 "--")
include notEnd

section Taking

variable (takes : takesNext arg = true)
include takes

end Taking

variable (alone : ¬ takesNext arg = true)
include alone

end Scanning

section Searching

variable {root config : Text}

end Searching

end ModuleDeps.Command
