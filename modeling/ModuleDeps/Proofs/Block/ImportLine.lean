import ModuleDeps.Proofs.Block.Frame

/-!
# Blocks of import lines

Without the marker of a factory block the import lines are read, each on its
own.  The descriptor lists them all and continues behind the last one.
-/

set_option autoImplicit false

namespace ModuleDeps

open Text

/-! ## Statements among lines -/

theorem importsFrom_append (lines more : List Text) (k : Nat) :
    importsFrom k (lines ++ more) = importsFrom k lines ++ importsFrom (k + lines.length) more := by
  induction lines generalizing k with
  | nil => simp [importsFrom]
  | cons line rest ih =>
      have shift : k + 1 + rest.length = k + (rest.length + 1) := by omega
      rw [List.cons_append, importsFrom, importsFrom, ih, List.length_cons, shift]
      split
      · rfl
      · rfl

theorem importsFrom_bound {lines : List Text} :
    ∀ {k n : Nat} {statement : ImportLine}, (n, statement) ∈ importsFrom k lines →
      n < k + lines.length := by
  induction lines with
  | nil =>
      intro k n statement member
      simp [importsFrom] at member
  | cons line rest ih =>
      intro k n statement member
      rw [importsFrom] at member
      have later (inRest : (n, statement) ∈ importsFrom (k + 1) rest) :
          n < k + (rest.length + 1) := by
        have := ih inRest
        omega
      split at member
      · rcases List.mem_cons.mp member with here | inRest
        · obtain ⟨rfl, rfl⟩ := Prod.mk.inj here
          simp only [List.length_cons]
          omega
        · exact later inRest
      · exact later member

/-! ## The descriptor -/

/-- The descriptor of the import statements `rows` that end with `last` on line
`n`. -/
def describeImports (stamp : UInt64) (rows : List (Nat × ImportLine)) (n : Nat)
    (last : ImportLine) :
    Descriptor where
  kind := .lineImports
  dependencyInsert := ⟨n + 1, 0⟩
  parameterInsert := ⟨n + 1, 0⟩
  dependencies := rows.map fun row => row.2.literal
  parameters := rows.map fun row => row.2.name
  dependencyIndent := []
  parameterIndent := []
  dependencyComma := false
  parameterComma := false
  quote := [last.quote]
  semicolon := last.semicolon
  version := stamp

section Located

variable {b : Buffer} {stamp : UInt64} {d : Descriptor}

theorem locateImports_eq_ok_iff : locateImports b stamp = .ok d ↔
    ∃ n last, (importsFrom 0 b.lines).getLast? = some (n, last) ∧
      d = describeImports stamp (importsFrom 0 b.lines) n last := by
  rw [locateImports]
  cases (importsFrom 0 b.lines).getLast? with
  | none => simp
  | some row =>
      constructor
      · intro made
        exact ⟨row.1, row.2, rfl, (Except.ok.inj made).symm⟩
      · rintro ⟨n, last, found, rfl⟩
        obtain rfl : row = (n, last) := Option.some.inj found
        rfl

theorem locateFactory_kind {start : Position} (located : locateFactory b stamp start = .ok d) :
    d.kind = .bracketedFactory := by
  obtain ⟨deps, -, located⟩ := exists_of_bind_eq_ok located
  obtain ⟨factory, -, located⟩ := exists_of_bind_eq_ok located
  obtain ⟨gap, -, located⟩ := exists_of_bind_eq_ok located
  split at located
  · cases located
  · obtain ⟨params, -, located⟩ := exists_of_bind_eq_ok located
    obtain ⟨-, -, located⟩ := exists_of_bind_eq_ok located
    obtain ⟨quote, -, located⟩ := exists_of_bind_eq_ok located
    cases located
    rfl

theorem locate_of_unmarked (unmarked : ∀ l ∈ b.lines, l.contains defineMarker = false) :
    locate b stamp = locateImports b stamp := by
  have fromStart : b.search defineMarker ⟨0, 0⟩ = Buffer.searchLines defineMarker b.lines 0 0 :=
    rfl
  rw [locate, fromStart]
  rcases Buffer.searchLines_cases defineMarker b.lines 0 with
    ⟨-, stop⟩ | ⟨⟨l, member, occurs⟩, -⟩
  · rw [stop]
  · rw [unmarked l member] at occurs
    cases occurs

/-- Import lines are read exactly where the marker of a factory block is
missing. -/
theorem locate_lineImports_iff : (locate b stamp = .ok d ∧ d.kind = .lineImports) ↔
    (∀ l ∈ b.lines, l.contains defineMarker = false) ∧ locateImports b stamp = .ok d := by
  constructor
  · rintro ⟨located, kind⟩
    have fromStart : b.search defineMarker ⟨0, 0⟩ =
        Buffer.searchLines defineMarker b.lines 0 0 := rfl
    rcases Buffer.searchLines_cases defineMarker b.lines 0 with ⟨missing, -⟩ | ⟨-, p, stop⟩
    · exact ⟨missing, locate_of_unmarked missing ▸ located⟩
    · rw [locate, fromStart, stop] at located
      rw [locateFactory_kind located] at kind
      cases kind
  · rintro ⟨missing, imports⟩
    exact ⟨(locate_of_unmarked missing).trans imports, locateImports_kind imports⟩

/-- Every descriptor was read from the two lists of a frame, or from the import
lines up to the last one. -/
theorem locate_cases (whole : b.Whole) (located : locate b stamp = .ok d) :
    (∃ f deps params quote, b.lines = splitAt lf f.text ∧
      Described b f deps params quote stamp d) ∨
      ∃ n last, (importsFrom 0 b.lines).getLast? = some (n, last) ∧
        d = describeImports stamp (importsFrom 0 b.lines) n last := by
  cases kind : d.kind with
  | bracketedFactory =>
      obtain ⟨f, holds⟩ := exists_frame whole located kind
      obtain ⟨deps, params, quote, read⟩ := exists_described f holds located
      exact Or.inl ⟨f, deps, params, quote, holds, read⟩
  | lineImports =>
      obtain ⟨-, imports⟩ := locate_lineImports_iff.mp ⟨located, kind⟩
      exact Or.inr (locateImports_eq_ok_iff.mp imports)

end Located

/-! ## Stamps -/

theorem locateFactory_stamp (b : Buffer) (stamp : UInt64) (start : Position) :
    locateFactory b stamp start =
      (locateFactory b 0 start).map fun d => { d with version := stamp } := by
  simp only [locateFactory, bind, Except.bind]
  cases b.scanList start 0x5B 0x5D with
  | error e => rfl
  | ok deps =>
      simp only
      cases b.seek factoryMarker deps.close with
      | error e => rfl
      | ok factory =>
          simp only
          cases b.read ⟨deps.close.line, deps.close.column + 1⟩ factory with
          | error e => rfl
          | ok gap =>
              simp only
              cases onlySeparators gap with
              | false => rfl
              | true =>
                  simp only [Bool.not_true, Bool.false_eq_true, if_false]
                  cases b.scanList factory 0x28 0x29 with
                  | error e => rfl
                  | ok params =>
                      simp only
                      cases checkEntries (deps.entries.map trim) (params.entries.map trim) with
                      | error e => rfl
                      | ok _ =>
                          simp only
                          cases quoteOf (deps.entries.map trim) with
                          | error e => rfl
                          | ok quote => rfl

theorem locateImports_stamp (b : Buffer) (stamp : UInt64) :
    locateImports b stamp = (locateImports b 0).map fun d => { d with version := stamp } := by
  rw [locateImports, locateImports]
  cases (importsFrom 0 b.lines).getLast? with
  | none => rfl
  | some row => rfl

/-- The stamp is carried along and has no part in the reading. -/
theorem locate_stamp (b : Buffer) (stamp : UInt64) :
    locate b stamp = (locate b 0).map fun d => { d with version := stamp } := by
  rw [locate, locate]
  cases b.search defineMarker ⟨0, 0⟩ with
  | error e => rfl
  | ok found =>
      cases found with
      | none => exact locateImports_stamp b stamp
      | some start => exact locateFactory_stamp b stamp start

end ModuleDeps
