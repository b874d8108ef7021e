import ModuleDeps.Proofs.Block.Placement
import ModuleDeps.Proofs.Block.Reread

/-!
# Adding a dependency to a factory block

A `Block` is a factory block as it was read, with both insert points behind the
opening delimiters.  The edits made from it write a literal and a name into its
two lists (`Block.apply_edits`), and the edited buffer is read as the block with
these added (`Block.locate_edited`).
-/

set_option autoImplicit false

namespace ModuleDeps

open Text

/-- A factory block read from a buffer into the descriptor `d`. -/
structure Block (b : Buffer) (stamp : UInt64) (d : Descriptor) where
  frame : Frame
  deps : EntryList
  params : EntryList
  depsBody : Text
  depsRest : Text
  paramsBody : Text
  paramsRest : Text
  quote : UInt8
  holds : b.lines = splitAt lf frame.text
  readDeps : b.ReadTo frame.depsLead 0x5B frame.deps depsBody depsRest deps
  readParams : b.ReadTo frame.paramsLead 0x28 frame.params paramsBody paramsRest params
  clear : onlySeparators (b.withEnding frame.gap) = true
  checked : checkEntries (deps.entries.map trim) (params.entries.map trim) = .ok ()
  quoteKind : quote = squote ∨ quote = dquote
  quoteStays : ∀ t, quoteOf (deps.entries.map trim ++ [quote :: t]) = .ok [quote]
  described : d = describe stamp deps params [quote]

/-- The insert points of a descriptor lie behind the delimiters that open the
lists. -/
def Buffer.Placed (b : Buffer) (d : Descriptor) : Prop :=
  ∀ found, b.Delimited found →
    found.openBracket.Before d.dependencyInsert ∧ found.openParen.Before d.parameterInsert

theorem exists_block_of_frame {b : Buffer} {f : Frame} (holds : b.lines = splitAt lf f.text)
    {stamp : UInt64} {d : Descriptor} (located : locate b stamp = .ok d) (placed : b.Placed d) :
    ∃ block : Block b stamp d, block.frame = f ∧ b.Scanned f.depsLead 0x5B f.deps block.deps ∧
      b.Scanned f.paramsLead 0x28 f.params block.params := by
  obtain ⟨deps, params, quote, depsScanned, paramsScanned, clear, checked, quoteKind,
    quoteStays, rfl⟩ :=
    exists_described f holds located
  obtain ⟨behindDeps, behindParams⟩ := placed f.delimiters (delimited_frame f holds)
  obtain ⟨depsBody, depsRest, readDeps⟩ := depsScanned.exists_readTo behindDeps (by decide)
  obtain ⟨paramsBody, paramsRest, readParams⟩ :=
    paramsScanned.exists_readTo behindParams (by decide)
  exact ⟨⟨f, deps, params, depsBody, depsRest, paramsBody, paramsRest, quote, holds, readDeps,
    readParams, clear, checked, quoteKind, quoteStays, rfl⟩, rfl, depsScanned, paramsScanned⟩

theorem exists_block {b : Buffer} (whole : b.Whole) {stamp : UInt64} {d : Descriptor}
    (located : locate b stamp = .ok d) (factory : d.kind = .bracketedFactory)
    (placed : b.Placed d) :
    Nonempty (Block b stamp d) := by
  obtain ⟨f, holds⟩ := exists_frame whole located factory
  obtain ⟨block, -⟩ := exists_block_of_frame holds located placed
  exact ⟨block⟩

namespace Block

section Edited

variable {b : Buffer} {stamp : UInt64} {d : Descriptor} (block : Block b stamp d)

theorem dependencies : d.dependencies = block.deps.entries.map trim :=
  congrArg Descriptor.dependencies block.described

theorem parameters : d.parameters = block.params.entries.map trim :=
  congrArg Descriptor.parameters block.described

include block in
theorem aligned : d.parameters.length = d.dependencies.length := by
  rw [block.dependencies, block.parameters]
  exact (checkEntries_eq_ok_iff.mp block.checked).2.2

theorem literal (path : Text) : d.literal path = block.quote :: (path ++ [block.quote]) := by
  have quoted : d.quote = [block.quote] := congrArg Descriptor.quote block.described
  simp [Descriptor.literal, quoted]

theorem filler_deps : Blanks (filler block.deps.entries) ∧ lf ∉ filler block.deps.entries := by
  refine filler_spec fun e member => ?_
  have literal := (checkEntries_eq_ok_iff.mp block.checked).1 (trim e) (List.mem_map_of_mem member)
  cases core : trim e with
  | nil =>
      rw [core] at literal
      cases literal
  | cons a rest =>
      rw [core] at literal
      rcases isLiteral_cons literal with rfl | rfl
      · exact ⟨squote, rfl, by decide⟩
      · exact ⟨dquote, rfl, by decide⟩

theorem filler_params :
    Blanks (filler block.params.entries) ∧ lf ∉ filler block.params.entries := by
  refine filler_spec fun e member => ?_
  have name := (checkEntries_eq_ok_iff.mp block.checked).2.1 (trim e) (List.mem_map_of_mem member)
  obtain ⟨nonempty, bytes⟩ := nameBytes_of_isIdentifier name
  obtain ⟨a, rest, core⟩ := List.exists_cons_of_ne_nil nonempty
  rw [core] at bytes ⊢
  exact ⟨a, rfl, isNameByte_visible (bytes a (by simp))⟩

def writtenPath (path : Text) : Text :=
  writtenEntry block.deps (block.quote :: (path ++ [block.quote])) (filler block.deps.entries)

def writtenName (name : Text) : Text :=
  writtenEntry block.params name (filler block.params.entries)

def editedFront (path : Text) : Text :=
  block.frame.editedLead block.depsBody (block.writtenPath path) block.depsRest ++ 0x28 ::
    block.paramsBody

def editedText (name path : Text) : Text :=
  block.frame.editedText block.depsBody (block.writtenPath path) block.depsRest block.paramsBody
    (block.writtenName name) block.paramsRest

def edited (name path : Text) : Buffer :=
  { b with
    lines := (b.withEnding (block.editedText name path)).cutLines
    version := b.version + 1 }

theorem whole_edited (name path : Text) : (block.edited name path).Whole :=
  ⟨cutLines_ne_nil _, fun _ member => notMem_of_mem_cutLines member⟩

theorem apply_edits (fits : stamp = 0 ∨ stamp = b.version) (lineCount : Nat) (name path : Text) :
    b.apply (d.edits lineCount name path) = .ok (block.edited name path) := by
  have batch : d.edits lineCount name path =
      ⟨stamp, [⟨block.deps.insert, block.writtenPath path⟩,
      ⟨block.params.insert, block.writtenName name⟩]⟩ := by
    have same : d.edits lineCount name path =
        (describe stamp block.deps block.params [block.quote]).edits lineCount name path :=
      congrArg (fun d => d.edits lineCount name path) block.described
    rw [same]
    simp [Descriptor.edits, describe, Descriptor.literal, writtenPath, writtenName, writtenEntry]
  rw [batch]
  exact apply_edited block.holds block.readDeps block.readParams fits _ _

/-- Whether a further entry of the first list is read as one. -/
def TakesPath : Prop := d.dependencies ≠ [] ∨ takesEntry (lastLine block.depsBody) = true

def TakesName : Prop := d.parameters ≠ [] ∨ takesEntry (lastLine block.paramsBody) = true

instance : Decidable block.TakesPath :=
  inferInstanceAs (Decidable (d.dependencies ≠ [] ∨
    takesEntry (lastLine block.depsBody) = true))

instance : Decidable block.TakesName :=
  inferInstanceAs (Decidable (d.parameters ≠ [] ∨
    takesEntry (lastLine block.paramsBody) = true))

/-- The line in front of the parameters ends as before when a path was added,
also where that was put on the same line. -/
def EndsAlike (path : Text) : Prop :=
  d.parameters = [] → ∀ r, (¬ lineComment <:+: block.paramsRest → ¬ lineComment <:+: r) →
    Buffer.Ending (lastLine (block.frame.paramsLead ++ 0x28 :: block.paramsBody)) r →
    Buffer.Ending (lastLine (block.editedFront path)) r

theorem locate_edited {name path : Text} (plain : isPlainPath path = true)
    (spelled : Spelled name) (nonempty : name ≠ []) (stamp' : UInt64) :
    ∃ deps' params', locate (block.edited name path) stamp' = report stamp' true deps' params' ∧
      deps'.entries.map trim = d.dependencies ++
        (if block.TakesPath then [d.literal path] else []) ∧
      (block.EndsAlike path → params'.entries.map trim =
        d.parameters ++ if block.TakesName then [name] else []) := by
  have edited : (block.edited name path).lines.map chomp =
      (splitAt lf (block.editedText name path)).map chomp := b.cutLines_withEnding _
  obtain ⟨deps', params', located, depsRead, paramsRead⟩ :=
    ModuleDeps.locate_edited block.readDeps block.readParams (fit_literal block.quoteKind plain)
      (not_infix_literal block.quoteKind plain)
        (notMem_literal block.quoteKind plain (by decide) (by decide))
      (fit_spelled spelled nonempty) spelled.not_infix (spelled.notMem (by decide) (by decide))
      block.filler_deps.1 block.filler_deps.2 block.filler_params.1 block.filler_params.2
      (block.whole_edited name path) edited stamp'
  have noDeps : d.dependencies = [] ↔ block.deps.entries = [] := by
    rw [block.dependencies, List.map_eq_nil_iff]
  have noParams : d.parameters = [] ↔ block.params.entries = [] := by
    rw [block.parameters, List.map_eq_nil_iff]
  refine ⟨deps', params', by rw [located, block.clear], ?_, ?_⟩
  · rw [depsRead, block.literal, ← block.dependencies]
    simp only [TakesPath, ne_eq, noDeps]
  · intro ends
    rw [paramsRead fun empty => ends (noParams.mpr empty), ← block.parameters]
    simp only [TakesName, ne_eq, noParams]

theorem locate_taken {name path : Text} (plain : isPlainPath path = true)
    (identifier : isIdentifier name = true) (takesPath : block.TakesPath)
    (takesName : block.TakesName) (endsAlike : block.EndsAlike path) (stamp' : UInt64) :
    ∃ d', locate (block.edited name path) stamp' = .ok d' ∧ d'.kind = .bracketedFactory ∧
      d'.dependencies = d.dependencies ++ [d.literal path] ∧
      d'.parameters = d.parameters ++ [name] ∧
      d'.quote = d.quote := by
  obtain ⟨deps', params', located, depsRead, paramsRead⟩ :=
    block.locate_edited plain (spelled_of_isIdentifier identifier)
      (nameBytes_of_isIdentifier identifier).1 stamp'
  have paramsRead := paramsRead endsAlike
  rw [if_pos takesPath] at depsRead
  rw [if_pos takesName] at paramsRead
  obtain ⟨literals, names, aligned⟩ := checkEntries_eq_ok_iff.mp block.checked
  rw [← block.dependencies] at literals aligned
  rw [← block.parameters] at names aligned
  have quoted : d.quote = [block.quote] := congrArg Descriptor.quote block.described
  refine ⟨describe stamp' deps' params' [block.quote], ?_, rfl, depsRead, paramsRead,
    quoted.symm⟩
  rw [located, report_eq_ok_iff]
  refine ⟨rfl, ?_, [block.quote], ?_, rfl⟩
  · rw [checkEntries_eq_ok_iff, depsRead, paramsRead]
    refine ⟨?_, ?_, by simp [aligned]⟩
    · intro e member
      rcases List.mem_append.mp member with member | member
      · exact literals e member
      · rw [List.mem_singleton.mp member, block.literal]
        exact isLiteral_literal block.quoteKind plain
    · intro e member
      rcases List.mem_append.mp member with member | member
      · exact names e member
      · rw [List.mem_singleton.mp member]
        exact identifier
  · rw [depsRead, block.literal, block.dependencies]
    exact block.quoteStays _

end Edited

end Block

end ModuleDeps
