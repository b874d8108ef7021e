import ModuleDeps.Proofs.Buffer.Word
import ModuleDeps.Proofs.Command.Writing

/-!
# The symbol at the cursor

Without a symbol among its operands `add` takes the one at the cursor.  Where the
cursor is in front of the first line there is no symbol, but that is noticed
only after the text was looked at: a selection of different columns on such a line
is out of range (`CursorFlags.Escapes`), and the run halts instead of failing.
-/

set_option autoImplicit false

namespace ModuleDeps.Command

open Text

/-! ## Numbers within 64 bits -/

def Signed64 (n : Int) : Prop := -0x8000000000000000 ≤ n ∧ n < 0x8000000000000000

theorem signed64_of_signed64 {negative : Bool} {size : Nat} {n : Int}
    (read : signed64 negative size = .ok n) :
    Signed64 n := by
  rw [signed64] at read
  cases negative with
  | false =>
      simp only [Bool.false_eq_true, if_false] at read
      split at read
      · cases read
      · obtain rfl := Except.ok.inj read
        constructor <;> omega
  | true =>
      simp only [if_true] at read
      split at read
      · cases read
      · obtain rfl := Except.ok.inj read
        constructor <;> omega

theorem signed64_of_readInt {t : Text} {n : Int} (read : readInt t = .ok n) : Signed64 n := by
  simp only [readInt] at read
  split at read
  · cases read
  · exact signed64_of_signed64 read

theorem lessOne_eq {n : Int} (signed : Signed64 n) :
    lessOne n = if n = -0x8000000000000000 then 0x7FFFFFFFFFFFFFFF else n - 1 := by
  obtain ⟨least, most⟩ := signed
  split
  · rename_i isLeast
    rw [isLeast]
    decide
  · rename_i notLeast
    rw [lessOne]
    exact Int.bmod_eq_of_le (by omega) (by omega)

theorem Flag.sets_signed64 (f : Flag) : f.Sets fun _ v => ∀ n, v = .number n → Signed64 n := by
  rintro value v read n rfl
  rw [Flag.read] at read
  split at read
  · cases read
  · split at read
    · cases read
    · split at read <;> cases read
  · split at read
    · rename_i number
      cases read
      exact signed64_of_readInt number
    · cases read

theorem signed64_number {flags : List Flag} {args : List Text} {p : Parsed}
    (read : parse flags args = .ok p) (name : String) : Signed64 (p.number name) := by
  rw [Parsed.number, Parsed.find?]
  split
  · rename_i n found
    obtain ⟨row, isRow, value⟩ := Option.map_eq_some_iff.mp found
    exact good_of_parse (fun f _ => f.sets_signed64) read row
      (List.mem_of_find?_eq_some isRow) n value
  · exact ⟨by decide, by decide⟩

/-! ## Cursors -/

namespace CursorFlags

structure Signed (c : CursorFlags) : Prop where
  line : Signed64 c.line
  column : Signed64 c.column
  endLine : Signed64 c.endLine
  endColumn : Signed64 c.endColumn

/-- The flags select something on a line in front of the first.  One less than the
least number is the greatest, so with it the cursor is behind every line. -/
structure Escapes (c : CursorFlags) : Prop where
  before : c.line ≤ 0
  notLeast : c.line ≠ -0x8000000000000000
  noEndLine : c.endLine ≤ 0
  endColumn : 0 < c.endColumn
  apart : c.endColumn ≠ c.column

variable {c : CursorFlags}

theorem Signed.escapes_iff (signed : c.Signed) :
    c.selection.start.line = c.selection.stop.line ∧ c.selection.start.line < 0 ∧
      c.selection.start.column ≠ c.selection.stop.column ↔ c.Escapes := by
  obtain ⟨⟨_, _⟩, ⟨_, _⟩, ⟨_, _⟩, ⟨_, _⟩⟩ := id signed
  simp only [selection, lessOne_eq signed.line, lessOne_eq signed.column]
  constructor
  · rintro ⟨sameLine, negative, apart⟩
    constructor <;> grind
  · rintro ⟨before, notLeast, noEndLine, endColumn, apart⟩
    grind

end CursorFlags

/-! ## Symbols -/

section Symbols

variable {b : Buffer} {c : CursorFlags}

theorem symbolFor_of_wordAt_error (refused : b.wordAt c.selection = .error .mk) :
    symbolFor b c none = .error .outOfRange := by
  rw [symbolFor, refused]
  rfl

theorem symbolFor_of_wordAt {found : Option Text} (told : b.wordAt c.selection = .ok found) :
    symbolFor b c none =
      .ok (if c.line ≤ 0 then .error .noSymbol else found.elim (.error .noSymbol) .ok) := by
  rw [symbolFor, told]
  cases found with
  | none => split <;> rfl
  | some word =>
      simp only [orHalt, bind, Except.bind, pure, Except.pure, Option.elim_some]

/-- Where nothing is selected in front of the first line, a symbol is told or that
there is none.  In front of the first line there is none. -/
theorem CursorFlags.Signed.symbolFor (signed : c.Signed) (content : Text) :
    (c.Escapes → symbolFor (Buffer.ofText content) c none = .error .outOfRange) ∧
      (¬ c.Escapes → ∃ found, symbolFor (Buffer.ofText content) c none = .ok found ∧
        (∀ word, found = .ok word → 1 ≤ c.line) ∧
        (c.line ≤ 0 → found = .error .noSymbol)) := by
  have refused : (Buffer.ofText content).wordAt c.selection = .error .mk ↔ c.Escapes :=
    (Buffer.whole_ofText content).wordAt_eq_error_iff.trans signed.escapes_iff
  refine ⟨fun escapes => symbolFor_of_wordAt_error (refused.mpr escapes), fun stays => ?_⟩
  cases told : (Buffer.ofText content).wordAt c.selection with
  | error e => exact absurd (refused.mp told) stays
  | ok found =>
      refine ⟨_, symbolFor_of_wordAt told, fun word isWord => ?_, fun before => if_pos before⟩
      by_contra before
      rw [if_pos (by omega)] at isWord
      cases isWord

end Symbols

/-! ## Command lines -/

/-- A command line asks for the symbol at the cursor: it selects `add` with a file
that can be read, and names no symbol. -/
structure AtCursor (d : Disk) (env : Environment) (args : List Text) (p : Parsed)
    (path content : Text) : Prop where
  verb : (findVerb args).1 = .add
  parsed : parse (allFlags (rootUnder d env) (configUnder d env) .add) (findVerb args).2 = .ok p
  noHelp : p.switch "help" = false
  operands : p.args = [path]
  isModule : isModuleFile path = true
  read : d.readFile path = .ok content

section Lines

variable {d : Disk} {env : Environment} {args : List Text} {p : Parsed} {path content : Text}
  (atCursor : AtCursor d env args p path content)
include atCursor

theorem AtCursor.run_eq (info : BuildInfo) :
    run d env info args = (runAdd d (optionsUnder d env p) (cursorOf p) path none).map
      Result.reported := by
  rw [run_of_parse (names_libraryCommands (by decide) atCursor.verb) atCursor.verb atCursor.parsed]
  simp only [runVerb, atCursor.noHelp, Bool.false_eq_true, if_false, atCursor.operands]
  rfl

theorem AtCursor.signed : (cursorOf p).Signed :=
  ⟨signed64_number atCursor.parsed _, signed64_number atCursor.parsed _,
    signed64_number atCursor.parsed _, signed64_number atCursor.parsed _⟩

theorem AtCursor.run_of_escapes (escapes : (cursorOf p).Escapes) (info : BuildInfo) :
    run d env info args = .error (.halted .outOfRange d) := by
  have refused := (atCursor.signed.symbolFor content).1 escapes
  rw [atCursor.run_eq, runAdd, atCursor.isModule, atCursor.read]
  simp only [Bool.not_true, Bool.false_eq_true, if_false, refused]
  rfl

theorem AtCursor.run_of_before (before : (cursorOf p).line ≤ 0)
    (stays : ¬ (cursorOf p).Escapes) (info : BuildInfo) :
    run d env info args =
      .ok {
        stderr := utf8 "Error: no symbol at cursor\n"
        failure := some .noSymbol
        disk := d } := by
  obtain ⟨found, told, -, missing⟩ := (atCursor.signed.symbolFor content).2 stays
  rw [missing before] at told
  have reported : utf8 "Error: no symbol at cursor\n" =
      line (utf8 "Error: " ++ CommandError.noSymbol.message) := by
    decide
  rw [atCursor.run_eq, runAdd, atCursor.isModule, atCursor.read, reported]
  simp only [Bool.not_true, Bool.false_eq_true, if_false, told]
  rfl

end Lines

/-- Taking the symbol from the cursor is out of range exactly where the flags select
something in front of the first line.  A word is told only from the first line on;
in front of it, where nothing is selected, the run ends with an error. -/
theorem add_at_cursor (content : Text) {c : CursorFlags} (signed : c.Signed) :
    (c.Escapes → symbolFor (Buffer.ofText content) c none = .error .outOfRange) ∧
    (¬ c.Escapes → ∃ found, symbolFor (Buffer.ofText content) c none = .ok found ∧
      (∀ word, found = .ok word → 1 ≤ c.line) ∧
      (c.line ≤ 0 → found = .error .noSymbol)) ∧
    ∀ (d : Disk) (env : Environment) (info : BuildInfo) (args : List Text) (p : Parsed)
      (path : Text),
      AtCursor d env args p path content → cursorOf p = c →
        (c.Escapes → run d env info args = .error (.halted .outOfRange d)) ∧
        (c.line ≤ 0 → ¬ c.Escapes → run d env info args =
          .ok {
            stderr := utf8 "Error: no symbol at cursor\n"
            failure := some .noSymbol
            disk := d }) := by
  obtain ⟨refused, told⟩ := signed.symbolFor content
  refine ⟨refused, told, ?_⟩
  rintro d env info args p path atCursor rfl
  exact ⟨fun escapes => atCursor.run_of_escapes escapes info,
    fun before stays => atCursor.run_of_before before stays info⟩

/-- A line that selects the first two columns of no line, and one that counts from
the least number. -/
theorem add_at_cursor_alone :
    run aloneDisk [] .plain [utf8 "add", utf8 "--end-col", utf8 "3", utf8 "a.js"] =
        .error (.halted .outOfRange aloneDisk) ∧
      run aloneDisk [] .plain
          [utf8 "add", utf8 "a.js", utf8 "--end-col=3", utf8 "--line",
            utf8 "-9223372036854775808"] =
        .ok {
          stderr := utf8 "Error: no symbol at cursor\n"
          failure := some .noSymbol
          disk := aloneDisk } := by
  constructor
  · have atCursor : AtCursor aloneDisk [] [utf8 "add", utf8 "--end-col", utf8 "3", utf8 "a.js"]
        { flags := [("end-col", .number 3)], args := [utf8 "a.js"] } (utf8 "a.js") openModule := by
      constructor <;> decide +kernel
    have signed : (⟨0, 0, 0, 3⟩ : CursorFlags).Signed := by
      constructor <;> constructor <;> decide
    obtain ⟨-, -, lines⟩ := add_at_cursor openModule signed
    exact (lines _ _ .plain _ _ _ atCursor rfl).1 (by constructor <;> decide)
  · have atCursor : AtCursor aloneDisk []
        [utf8 "add", utf8 "a.js", utf8 "--end-col=3", utf8 "--line", utf8 "-9223372036854775808"]
        { flags := [("line", .number (-9223372036854775808)), ("end-col", .number 3)],
          args := [utf8 "a.js"] }
        (utf8 "a.js") openModule := by
      constructor <;> decide +kernel
    have signed : (⟨-9223372036854775808, 0, 0, 3⟩ : CursorFlags).Signed := by
      constructor <;> constructor <;> decide
    obtain ⟨-, -, lines⟩ := add_at_cursor openModule signed
    exact (lines _ _ .plain _ _ _ atCursor rfl).2 (by decide) fun escapes => escapes.notLeast rfl

/-- Without a line, and with the end of a selection, the run halts. -/
theorem add_at_cursor_escapes :
    symbolFor (Buffer.ofText openModule) ⟨0, 0, 0, 3⟩ none = .error .outOfRange ∧
      run aloneDisk [] .plain [utf8 "add", utf8 "--end-col", utf8 "3", utf8 "a.js"] =
        .error (.halted .outOfRange aloneDisk) := by
  decide +kernel

end ModuleDeps.Command
