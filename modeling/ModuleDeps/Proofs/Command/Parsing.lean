import ModuleDeps.Command.Verb

/-!
# Reading a command line

Arguments are taken one by one (`Takes`), each of them under the flags that are
known.  What was read stays read when more flags are known, and when
operands follow; so a command line of a verb, of flags that all verbs take and
of operands is read alike for every verb (`parse_allFlags`).
-/

set_option autoImplicit false

namespace ModuleDeps.Command

open Text

/-! ## One argument -/

def Flag.given (f : Flag) : Option Text → Option Text
  | some value => some value
  | none => if f.kind = .switch then some (utf8 "true") else none

/-- What stands behind two dashes is the name of a flag. -/
def NamesFlag (flag : Text) : Prop :=
  flag ≠ [] ∧ ¬ (flag.head? = some 0x2D ∨ flag.head? = some 0x3D)

/-- What one argument does: the flag that waits for its value behind it, and
what was read. -/
inductive Takes (flags : List Flag) : Option Flag → Parsed → Text → Option Flag →
    Parsed → Prop
  | value {f : Flag} {p q : Parsed} {arg : Text} (done : p.set f arg = .ok q) :
      Takes flags (some f) p arg none q
  | named {f : Flag} {p q : Parsed} {flag value : Text} (names : NamesFlag flag)
      (found : named? flags (splitValue flag).1 = some f)
      (given : f.given (splitValue flag).2 = some value)
      (done : p.set f value = .ok q) : Takes flags none p (0x2D :: 0x2D :: flag) none q
  | waits {f : Flag} {p : Parsed} {flag : Text} (names : NamesFlag flag)
      (found : named? flags (splitValue flag).1 = some f)
      (given : f.given (splitValue flag).2 = none) :
      Takes flags none p (0x2D :: 0x2D :: flag) (some f) p
  | letters {p q : Parsed} {b : UInt8} {letters : Text} (single : b ≠ 0x2D)
      (done : parseLetters flags (b :: letters) p = .ok q) :
        Takes flags none p (0x2D :: b :: letters) none q
  | operand {p : Parsed} {arg : Text} (plain : ∀ b letters, arg ≠ 0x2D :: b :: letters) :
      Takes flags none p arg none { p with args := p.args ++ [arg] }

theorem parseFrom_named {flags : List Flag} {f : Flag} {flag : Text} (names : NamesFlag flag)
    (found : named? flags (splitValue flag).1 = some f) (p : Parsed) (rest : List Text) :
    parseFrom flags none p ((0x2D :: 0x2D :: flag) :: rest) =
      match f.given (splitValue flag).2 with
      | some value => (p.set f value).bind fun p => parseFrom flags none p rest
      | none => parseFrom flags (some f) p rest := by
  obtain ⟨notEmpty, wellFormed⟩ := names
  obtain ⟨b, letters, rfl⟩ := List.exists_cons_of_ne_nil notEmpty
  rw [parseFrom.eq_def]
  simp only [if_neg wellFormed, found]
  cases (splitValue (b :: letters)).2 with
  | some value =>
      simp only [Flag.given]
      cases p.set f value <;> rfl
  | none =>
      by_cases isSwitch : f.kind = .switch
      · simp only [Flag.given, isSwitch, if_true]
        cases p.set f (utf8 "true") <;> rfl
      · simp only [Flag.given, if_neg isSwitch]

theorem exists_takes {flags : List Flag} {pending : Option Flag} {p q : Parsed} {arg : Text}
    {rest : List Text} (inner : pending = none → arg ≠ utf8 "--")
    (read : parseFrom flags pending p (arg :: rest) = .ok q) :
    ∃ later p', Takes flags pending p arg later p' ∧ parseFrom flags later p' rest = .ok q := by
  cases pending with
  | some f =>
      rw [parseFrom] at read
      cases done : p.set f arg with
      | error e => simp [done] at read
      | ok p' =>
          rw [done] at read
          exact ⟨none, p', .value done, read⟩
  | none =>
      have named := read
      rw [parseFrom.eq_def] at read
      simp only at read
      split at read
      · exact absurd rfl (inner rfl)
      · rename_i flag notEnd
        split at read
        · cases read
        · rename_i wellFormed
          have names : NamesFlag flag := ⟨notEnd, wellFormed⟩
          cases found : named? flags (splitValue flag).1 with
          | none => simp [found] at read
          | some f =>
              rw [parseFrom_named names found] at named
              cases given : f.given (splitValue flag).2 with
              | none =>
                  rw [given] at named
                  exact ⟨some f, p, .waits names found given, named⟩
              | some value =>
                  simp only [given] at named
                  cases done : p.set f value with
                  | error e => simp [done, Except.bind] at named
                  | ok p' =>
                      rw [done] at named
                      exact ⟨none, p', .named names found given done, named⟩
      · rename_i b letters _ single
        cases done : parseLetters flags (b :: letters) p with
        | error e => simp [done] at read
        | ok p' =>
            rw [done] at read
            exact ⟨none, p', .letters single done, read⟩
      · rename_i noName noLetter
        exact ⟨none, _, .operand noLetter, read⟩

theorem Takes.parseFrom_cons {flags : List Flag} {pending later : Option Flag} {p p' : Parsed}
    {arg : Text} (step : Takes flags pending p arg later p') (rest : List Text) :
    parseFrom flags pending p (arg :: rest) = parseFrom flags later p' rest := by
  cases step with
  | value done => rw [parseFrom, done]
  | named names found given done =>
      rw [parseFrom_named names found, given]
      simp only [done, Except.bind]
  | waits names found given => rw [parseFrom_named names found, given]
  | letters single done =>
      rw [parseFrom.eq_def]
      simp [single, done]
  | operand plain =>
      rw [parseFrom.eq_def]
      simp [plain]

/-! ## All arguments -/

/-- What can be read from arguments: they are taken one by one, up to the end of
the flags if it is marked. -/
inductive Reads (flags : List Flag) : Option Flag → Parsed → List Text → Parsed → Prop
  | done (p : Parsed) : Reads flags none p [] p
  | ended (p : Parsed) (rest : List Text) :
      Reads flags none p (utf8 "--" :: rest) { p with args := p.args ++ rest }
  | taken {pending later : Option Flag} {p p' q : Parsed} {arg : Text} {rest : List Text}
      (step : Takes flags pending p arg later p') (further : Reads flags later p' rest q) :
      Reads flags pending p (arg :: rest) q

theorem parseFrom_eq_ok_iff {flags : List Flag} {pending : Option Flag} {p q : Parsed}
    {args : List Text} :
    parseFrom flags pending p args = .ok q ↔ Reads flags pending p args q := by
  constructor
  · intro read
    induction args generalizing pending p with
    | nil =>
        cases pending with
        | some f => cases read
        | none =>
            obtain rfl := Except.ok.inj read
            exact .done p
    | cons arg rest ih =>
        by_cases ends : pending = none ∧ arg = utf8 "--"
        · obtain ⟨rfl, rfl⟩ := ends
          obtain rfl := Except.ok.inj read
          exact .ended p rest
        · have inner : pending = none → arg ≠ utf8 "--" :=
            fun isNone isEnd => ends ⟨isNone, isEnd⟩
          obtain ⟨later, p', step, read⟩ := exists_takes inner read
          exact .taken step (ih read)
  · intro read
    induction read with
    | done p => rfl
    | ended p rest => rfl
    | taken step further ih => rw [step.parseFrom_cons, ih]

/-! ## Operands behind what was read -/

section Operands

variable {flags : List Flag} {operands : List Text}
  (plain : ∀ arg ∈ operands, arg.head? ≠ some dash)
include plain

theorem reads_operands (p : Parsed) :
    Reads flags none p operands { p with args := p.args ++ operands } := by
  induction operands generalizing p with
  | nil =>
      rw [List.append_nil]
      exact .done p
  | cons arg operands ih =>
      have argPlain : ∀ b letters, arg ≠ 0x2D :: b :: letters := by
        rintro b letters rfl
        exact plain _ List.mem_cons_self rfl
      have further :=
        ih (fun x member => plain x (by simp [member])) { p with args := p.args ++ [arg] }
      rw [List.append_assoc] at further
      exact .taken (.operand argPlain) further

/-- Operands behind arguments that were read are added to what was read. -/
theorem Reads.append {pending : Option Flag} {p q : Parsed} {args : List Text}
    (read : Reads flags pending p args q) :
    Reads flags pending p (args ++ operands) { q with args := q.args ++ operands } := by
  induction read with
  | done p => exact reads_operands plain p
  | ended p rest =>
      rw [List.append_assoc]
      exact .ended p (rest ++ operands)
  | taken step further ih => exact .taken step ih

end Operands

/-! ## More flags -/

/-- Flags that are read alike and set the same. -/
structure Flag.Alike (f f' : Flag) : Prop where
  name : f'.name = f.name
  kind : f'.kind = f.kind

theorem Flag.Alike.set {f f' : Flag} (alike : f.Alike f') {p q : Parsed} {value : Text}
    (done : p.set f value = .ok q) : p.set f' value = .ok q := by
  have read : f'.read value = (f.read value) := by simp only [Flag.read, alike.kind]
  rw [Parsed.set] at done ⊢
  rw [read, alike.name]
  cases given : f.read value with
  | ok v => simpa [given] using done
  | error cause => simp [given] at done

theorem Flag.Alike.given {f f' : Flag} (alike : f.Alike f') : f'.given = f.given := by
  funext value
  cases value <;> simp only [Flag.given, alike.kind]

/-- Every flag of the first list is known under its name and its letter in the
second. -/
structure Covers (flags flags' : List Flag) : Prop where
  named {name : Text} {f : Flag} (found : named? flags name = some f) :
    ∃ f', named? flags' name = some f' ∧ f.Alike f'
  lettered {letter : UInt8} {f : Flag} (found : lettered? flags letter = some f) :
    ∃ f', lettered? flags' letter = some f' ∧ f.Alike f'

section Covered

variable {flags flags' : List Flag} (covers : Covers flags flags')
include covers

theorem parseLetters_covered {letters : Text} {p q : Parsed}
    (read : parseLetters flags letters p = .ok q) :
    parseLetters flags' letters p = .ok q := by
  induction letters generalizing p with
  | nil => exact read
  | cons letter rest ih =>
      rw [parseLetters.eq_def] at read ⊢
      simp only at read ⊢
      split
      · rename_i passed
        rwa [if_pos passed] at read
      · rename_i notPassed
        rw [if_neg notPassed] at read
        cases found : lettered? flags letter with
        | none => simp [found] at read
        | some f =>
            obtain ⟨f', found', alike⟩ := covers.lettered found
            simp only [found] at read
            simp only [found']
            revert read
            split
            · exact alike.set
            · intro read
              cases given : p.set f (utf8 "true") with
              | error e => simp [given] at read
              | ok p' =>
                  rw [given] at read
                  rw [alike.set given]
                  exact ih read

/-- The flags that wait for their value under the one list and the other. -/
inductive Awaits : Option Flag → Option Flag → Prop
  | nothing : Awaits none none
  | value {f f' : Flag} (alike : f.Alike f') : Awaits (some f) (some f')

theorem Takes.covered {pending pending' later : Option Flag} (awaits : Awaits pending pending')
    {p q : Parsed} {arg : Text} (step : Takes flags pending p arg later q) :
    ∃ later', Takes flags' pending' p arg later' q ∧ Awaits later later' := by
  cases step with
  | value done =>
      cases awaits with
      | value alike => exact ⟨none, .value (alike.set done), .nothing⟩
  | named names found given done =>
      cases awaits
      obtain ⟨f', found', alike⟩ := covers.named found
      exact ⟨none, .named names found' (alike.given ▸ given) (alike.set done), .nothing⟩
  | waits names found given =>
      cases awaits
      obtain ⟨f', found', alike⟩ := covers.named found
      exact ⟨some f', .waits names found' (alike.given ▸ given), .value alike⟩
  | letters single done =>
      cases awaits
      exact ⟨none, .letters single (parseLetters_covered covers done), .nothing⟩
  | operand plain =>
      cases awaits
      exact ⟨none, .operand plain, .nothing⟩

theorem Reads.covered {pending pending' : Option Flag} (awaits : Awaits pending pending')
    {p q : Parsed} {args : List Text} (read : Reads flags pending p args q) :
    Reads flags' pending' p args q := by
  induction read generalizing pending' with
  | done p =>
      cases awaits
      exact .done p
  | ended p rest =>
      cases awaits
      exact .ended p rest
  | taken step further ih =>
      obtain ⟨later', step', awaits'⟩ := step.covered covers awaits
      exact .taken step' (ih awaits')

end Covered

/-! ## What was set -/

def Flag.Sets (good : String → FlagValue → Prop) (f : Flag) : Prop :=
  ∀ value v, f.read value = .ok v → good f.name v

/-- What was set, and what the flag that waits can be set to, is good. -/
structure Sound (good : String → FlagValue → Prop) (pending : Option Flag) (p : Parsed) :
    Prop where
  pending : ∀ f ∈ pending, f.Sets good
  flags : ∀ row ∈ p.flags, good row.1 row.2

section Good

variable {good : String → FlagValue → Prop}

theorem Sound.set {f : Flag} {p q : Parsed} {value : Text} (sound : Sound good none p)
    (sets : f.Sets good) (done : p.set f value = .ok q) : Sound good none q := by
  rw [Parsed.set] at done
  cases given : f.read value with
  | error cause => simp [given] at done
  | ok v =>
      rw [given] at done
      obtain rfl := Except.ok.inj done
      refine ⟨by simp, ?_⟩
      intro row member
      rcases List.mem_cons.mp member with rfl | member
      · exact sets value v given
      · exact sound.flags row member

variable {flags : List Flag} (all : ∀ f ∈ flags, f.Sets good)
include all

theorem Sound.parseLetters {letters : Text} {p q : Parsed} (sound : Sound good none p)
    (read : parseLetters flags letters p = .ok q) : Sound good none q := by
  induction letters generalizing p with
  | nil =>
      obtain rfl := Except.ok.inj read
      exact sound
  | cons letter rest ih =>
      rw [parseLetters.eq_def] at read
      simp only at read
      split at read
      · obtain rfl := Except.ok.inj read
        exact sound
      · cases found : lettered? flags letter with
        | none => simp [found] at read
        | some f =>
            have sets : f.Sets good := all f (List.mem_of_find?_eq_some found)
            simp only [found] at read
            revert read
            split
            · exact sound.set sets
            · intro read
              cases given : p.set f (utf8 "true") with
              | error e => simp [given] at read
              | ok p' =>
                  rw [given] at read
                  exact ih (sound.set sets given) read

theorem Sound.takes {pending later : Option Flag} {p q : Parsed} {arg : Text}
    (sound : Sound good pending p) (step : Takes flags pending p arg later q) :
    Sound good later q := by
  have unset : Sound good none p := ⟨by simp, sound.flags⟩
  cases step with
  | value done => exact unset.set (sound.pending _ rfl) done
  | named names found given done => exact unset.set (all _ (List.mem_of_find?_eq_some found)) done
  | waits names found given =>
      exact ⟨by simpa using all _ (List.mem_of_find?_eq_some found), sound.flags⟩
  | letters single done => exact unset.parseLetters all done
  | operand plain => exact ⟨by simp, sound.flags⟩

theorem Sound.reads {pending : Option Flag} {p q : Parsed} {args : List Text}
    (sound : Sound good pending p) (read : Reads flags pending p args q) : Sound good none q := by
  induction read with
  | done p => exact sound
  | ended p rest => exact ⟨by simp, sound.flags⟩
  | taken step further ih => exact ih (sound.takes all step)

/-- What is read from a command line is good if the flags can be set to nothing
else. -/
theorem good_of_parse {p : Parsed} {args : List Text} (read : parse flags args = .ok p) :
    ∀ row ∈ p.flags, good row.1 row.2 := by
  have unset : Sound good none {} := ⟨by simp, by simp⟩
  exact (unset.reads all (parseFrom_eq_ok_iff.mp read)).flags

end Good

/-! ## Verbs -/

theorem covers_allFlags (root config : Text) (v : Verb) :
    Covers (globalFlags [] []) (allFlags root config v) where
  named {name f} found := by
    have inGlobal : ∃ f', named? (globalFlags root config) name = some f' ∧ f.Alike f' := by
      simp only [named?, globalFlags, List.find?_cons] at found ⊢
      repeat' split at found
      all_goals
        cases found
        try exact ⟨_, rfl, rfl, rfl⟩
    obtain ⟨f', found', alike⟩ := inGlobal
    rw [named?] at found'
    exact ⟨f', by rw [named?, allFlags, List.find?_append, found']; rfl, alike⟩
  lettered {letter f} found := by simp [lettered?, globalFlags] at found

/-- Flags that all verbs take, with operands behind them, are read alike for
every verb; its help is not asked for. -/
theorem parse_allFlags {args operands : List Text} {p : Parsed}
    (read : parse (globalFlags [] []) args = .ok p) (bare : p.args = [])
    (plain : ∀ arg ∈ operands, arg.head? ≠ some dash) (root config : Text) (v : Verb) :
    parse (allFlags root config v) (args ++ operands) = .ok { p with args := operands } ∧
      p.switch "help" = false := by
  have reads := parseFrom_eq_ok_iff.mp read
  have known : ∀ row ∈ p.flags, row.1 ∈ (globalFlags [] []).map Flag.name :=
    @good_of_parse (fun name _ => name ∈ (globalFlags [] []).map Flag.name) _
      (fun f member _ _ _ => List.mem_map_of_mem member) _ _ read
  constructor
  · have further := (reads.covered (covers_allFlags root config v) .nothing).append plain
    rw [bare, List.nil_append] at further
    exact parseFrom_eq_ok_iff.mpr further
  · have unset : p.find? "help" = none := by
      rw [Parsed.find?, Option.map_eq_none_iff, List.find?_eq_none]
      intro row member isHelp
      have listed := known row member
      rw [beq_iff_eq.mp isHelp] at listed
      revert listed
      decide
    rw [Parsed.switch, unset]
    rfl

theorem findVerb_name {v : Verb} (isVerb : v ≠ .none) (args : List Text) :
    findVerb (utf8 v.name :: args) = (v, args) := by
  have notEnd : utf8 v.name ≠ utf8 "--" := by cases v <;> decide
  have alone : ¬ takesNext (utf8 v.name) = true := by cases v <;> decide
  have plain :
      ¬ ((utf8 v.name).isEmpty = true ∨ (utf8 v.name).startsWith (utf8 "-") = true) := by
    cases v <;> decide
  have named : Verb.ofText? (utf8 v.name) = some v := by
    cases v with
    | none => exact absurd rfl isVerb
    | _ => decide
  have first : words (utf8 v.name :: args) = utf8 v.name :: words args := by
    rw [words.eq_def]
    simp only
    rw [if_neg notEnd, if_neg alone, if_neg plain]
  have dropped : dropWord (utf8 v.name) (utf8 v.name :: args) = args := by
    rw [dropWord.eq_def]
    simp only
    rw [if_neg notEnd, if_neg alone, if_pos trivial]
  rw [findVerb, first]
  simp only [named, dropped]

/-- A line with a verb of the program selects no command of the library. -/
theorem names_libraryCommands {args : List Text} {v : Verb} (isVerb : v ≠ .none)
    (found : (findVerb args).1 = v) : names libraryCommands args = false := by
  rw [findVerb] at found
  rw [names]
  cases first : words args with
  | nil =>
      rw [first] at found
      exact absurd found.symm isVerb
  | cons word more =>
      cases named : Verb.ofText? word with
      | none =>
          simp only [first, named] at found
          exact absurd found.symm isVerb
      | some v' =>
          have isWord : utf8 v'.name = word := by simpa using List.find?_some named
          have apart : libraryCommands.any (utf8 · == utf8 v'.name) = false := by
            cases v' <;> decide
          simpa [isWord] using apart

end ModuleDeps.Command
