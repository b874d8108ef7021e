import ModuleDeps.Proofs.Block.CommentFree
import ModuleDeps.Proofs.Block.ImportReread
import ModuleDeps.Proofs.Block.SameLine
import ModuleDeps.Proofs.Importer

/-!
# Adding a symbol again

A call that has returned `added` is followed by one with the same symbol.  The
second call ends with `alreadyImported` when the name that was written is read
as a parameter and the symbol is a suffix of it in small letters.  The catalog
compares names by their folding classes instead, so the two disagree where a
character folds to a letter but is no capital of it: the long s
(`addDependency_again_long_s`).  `addDependency_again_iff` gives the exact
condition, and for identifiers in a text without comments it is always met
(`addDependency_again_of_identifiers`).
-/

set_option autoImplicit false

namespace ModuleDeps

open Text

/-! ## Lists that take an entry -/

namespace Buffer

/-- The line in front of an insert point, as far as it belongs to the list
opened at `opened`, does not hide what is written behind it in a comment. -/
def TakesAt (b : Buffer) (opened insert : Position) : Prop :=
  ∃ body, b.textRange ⟨opened.line, opened.column + 1⟩ insert = .ok body ∧
    takesEntry (lastLine body) = true

/-- A block without entries takes its first ones. -/
def Receptive (b : Buffer) (d : Descriptor) : Prop :=
  d.parameters = [] → ∀ found, b.Delimited found →
    b.TakesAt found.openBracket d.dependencyInsert ∧ b.TakesAt found.openParen d.parameterInsert

theorem ReadTo.takesAt_iff {b : Buffer} {lead inner body R tail : Text} {opener : UInt8}
    {L : EntryList} (read : b.ReadTo lead opener inner body R L) (openerLine : opener ≠ lf)
    (holds : b.lines = splitAt lf (lead ++ opener :: inner ++ tail)) :
    b.TakesAt (Position.after lead) L.insert ↔ takesEntry (lastLine body) = true := by
  have holdsBody : b.lines = splitAt lf (lead ++ [opener] ++ (body ++ (R ++ tail))) := by
    rw [holds, read.cut]
    simp
  have range :
      b.textRange ⟨(Position.after lead).line, (Position.after lead).column + 1⟩ L.insert =
      .ok (b.withEnding body) := by
    have upTo : lead ++ opener :: body = lead ++ [opener] ++ body := by simp
    rw [← Position.after_concat openerLine, read.insert, upTo, textRange_after holdsBody]
  constructor
  · rintro ⟨body', range', takes⟩
    obtain rfl := Except.ok.inj (range'.symm.trans range)
    rwa [lastLine_withEnding] at takes
  · intro takes
    exact ⟨_, range, by rwa [lastLine_withEnding]⟩

end Buffer

namespace Block

section Taken

variable {b : Buffer} {stamp : UInt64} {d : Descriptor} (block : Block b stamp d)

include block in
theorem dependencies_eq_nil_iff : d.dependencies = [] ↔ d.parameters = [] := by
  rw [← List.length_eq_zero_iff, ← block.aligned, List.length_eq_zero_iff]

theorem receptive_iff : b.Receptive d ↔ block.TakesPath ∧ block.TakesName := by
  have delimited := delimited_frame block.frame block.holds
  have insertPath : d.dependencyInsert = block.deps.insert :=
    congrArg Descriptor.dependencyInsert block.described
  have insertName : d.parameterInsert = block.params.insert :=
    congrArg Descriptor.parameterInsert block.described
  have path := block.readDeps.takesAt_iff (by decide) (block.frame.text_eq_depsTail ▸ block.holds)
  have name :=
    block.readParams.takesAt_iff (by decide) (block.frame.text_eq_paramsTail ▸ block.holds)
  rw [← insertPath] at path
  rw [← insertName] at name
  rw [TakesPath, TakesName, ne_eq, block.dependencies_eq_nil_iff, ← path, ← name]
  constructor
  · intro receptive
    by_cases none : d.parameters = []
    · obtain ⟨takesPath, takesName⟩ := receptive none _ delimited
      exact ⟨Or.inr takesPath, Or.inr takesName⟩
    · exact ⟨Or.inl none, Or.inl none⟩
  · rintro ⟨takesPath, takesName⟩ none found delimited'
    rw [delimited'.unique delimited]
    exact ⟨takesPath.resolve_left fun some => some none,
      takesName.resolve_left fun some => some none⟩

/-- An edited block binds a symbol that it did not bind before exactly when both
entries are read and the name binds it. -/
theorem hasParameter_edited_iff {symbol name path : Text} (missing : d.hasParameter symbol = false)
    (plain : isPlainPath path = true) (spelled : Spelled name) (nonempty : name ≠ [])
    (ends : block.TakesPath → block.EndsAlike path) (stamp' : UInt64) :
    (∃ d', locate (block.edited name path) stamp' = .ok d' ∧ d'.hasParameter symbol = true) ↔
      isIdentifier name = true ∧ name.lower.endsWith symbol.lower = true ∧ b.Receptive d := by
  rw [block.receptive_iff]
  constructor
  · rintro ⟨d', located, has⟩
    obtain ⟨deps', params', read, depsRead, paramsRead⟩ :=
      block.locate_edited plain spelled nonempty stamp'
    rw [read, report_eq_ok_iff] at located
    obtain ⟨-, checked, quote, -, rfl⟩ := located
    obtain ⟨-, names, aligned⟩ := checkEntries_eq_ok_iff.mp checked
    obtain ⟨parameter, member, isSuffix⟩ := List.any_eq_true.mp has
    have member : parameter ∈ params'.entries.map trim := member
    have takesPath : block.TakesPath := by
      by_contra refuses
      have none : d.dependencies = [] := by
        by_contra some
        exact refuses (Or.inl some)
      rw [depsRead, if_neg refuses, none] at aligned
      rw [List.length_eq_zero_iff.mp aligned] at member
      cases member
    have paramsRead := paramsRead (ends takesPath)
    have takesName : block.TakesName := by
      by_contra refuses
      rw [depsRead, paramsRead, if_pos takesPath, if_neg refuses, List.append_nil, block.aligned,
        List.length_append] at aligned
      simp at aligned
    rw [paramsRead, if_pos takesName] at member names
    rcases List.mem_append.mp member with old | new
    · have hadIt : d.hasParameter symbol = true :=
        List.any_eq_true.mpr ⟨parameter, old, isSuffix⟩
      rw [missing] at hadIt
      cases hadIt
    · obtain rfl := List.mem_singleton.mp new
      exact ⟨names parameter (by simp), isSuffix, takesPath, takesName⟩
  · rintro ⟨identifier, isSuffix, takesPath, takesName⟩
    obtain ⟨d', located, -, -, parameters, -⟩ :=
      block.locate_taken plain identifier takesPath takesName (ends takesPath) stamp'
    refine ⟨d', located, List.any_eq_true.mpr ⟨name, ?_, isSuffix⟩⟩
    rw [parameters]
    simp

end Taken

end Block

/-! ## Names -/

theorem isIdentifier_of_mem_parameters {b : Buffer} (whole : b.Whole) {stamp : UInt64}
    {d : Descriptor} (located : locate b stamp = .ok d) :
    ∀ parameter ∈ d.parameters, isIdentifier parameter = true := by
  rcases locate_cases whole located with
    ⟨f, deps, params, quote, -, read⟩ | ⟨n, last, -, rfl⟩
  · obtain rfl := read.described
    exact (checkEntries_eq_ok_iff.mp read.checked).2.1
  · intro parameter member
    obtain ⟨row, rowMember, rfl⟩ := List.mem_map.mp member
    exact (importsFrom_spec rowMember).1

/-- Among the bytes of identifiers, small letters represent the folding
classes. -/
theorem lower_eq_folded {t : Text} (bytes : ∀ b ∈ t, isNameByte b = true) :
    lower t = (folded t).flatMap encode := by
  induction t with
  | nil => rfl
  | cons a t ih =>
      have ascii := isVisible.lt (isNameByte_visible (bytes a (by simp)))
      have small := toNat_lt_of_lt ascii
      have notDotted : ¬ a.toNat = 0x130 := by omega
      have fold : foldCode a.toNat = lowerCode a.toNat := by
        rw [foldCode, if_neg notDotted, if_pos small]
      have later := ih fun b member => bytes b (by simp [member])
      rw [lower, folded, scalars_cons_ascii ascii]
      rw [lower, folded] at later
      simp only [List.flatMap_cons, List.map_cons, fold, later]

theorem StandsFor.endsWith {name symbol : Text} (stands : StandsFor name symbol)
    (nameBytes : ∀ b ∈ name, isNameByte b = true)
    (symbolBytes : ∀ b ∈ symbol, isNameByte b = true) :
    name.lower.endsWith symbol.lower = true := by
  have same : name.lower = symbol.lower := by
    rcases stands with rfl | same
    · rfl
    · have folds : folded name = folded symbol := by simpa [equalFold] using same
      rw [lower_eq_folded nameBytes, lower_eq_folded symbolBytes, folds]
  rw [same]
  exact List.isSuffixOf_iff_suffix.mpr (List.suffix_refl _)

/-! ## Calls -/

/-- A path that can be written into the block `d` without breaking it. -/
def Buffer.Admits (b : Buffer) (d : Descriptor) (path : Text) : Prop :=
  match d.kind with
  | .bracketedFactory => isPlainPath path = true ∧ backquote ∉ path ∧ b.Placed d
  | .lineImports => lf ∉ path ∧ ¬ defineMarker <:+: path

/-- Whether the block `d` is read with a further entry for `path`. -/
def Buffer.Shows (b : Buffer) (d : Descriptor) (path : Text) : Prop :=
  match d.kind with
  | .bracketedFactory => b.Receptive d
  | .lineImports => (path.takeWhile fun c => !ImportLine.isPathQuote c) ≠ []

namespace Importer

section Again

variable {im : Importer} {symbol : Text} {s : Session} {d : Descriptor} {name path : Text}
  {after : Buffer} (adds : im.Adds symbol s d name path after)

include adds in
theorem Adds.standsFor : StandsFor name symbol := by
  rcases target_spec symbol s adds.target with ⟨known, -, rfl, stands⟩ | rfl
  · exact stands
  · exact Or.inl rfl

variable (nonempty : symbol ≠ []) (whole : s.buffer.Whole)

include adds whole in
theorem Adds.spelled_of_hasParameter {stamp : UInt64} {d' : Descriptor}
    (located : locate after stamp = .ok d') (has : d'.hasParameter symbol = true) :
    Spelled name := by
  obtain ⟨parameter, member, isSuffix⟩ := List.any_eq_true.mp has
  have identifier :=
    isIdentifier_of_mem_parameters (whole.apply adds.applied) located parameter member
  exact spelled_of_endsWith identifier isSuffix adds.standsFor

include adds nonempty whole in
theorem Adds.hasParameter_iff_of_spelled (spelled : Spelled name)
    (admits : s.buffer.Admits d path) (stamp : UInt64) :
    (∃ d', locate after stamp = .ok d' ∧ d'.hasParameter symbol = true) ↔
      isIdentifier name = true ∧ name.lower.endsWith symbol.lower = true ∧
      s.buffer.Shows d path := by
  have fits := im.stamp_fits s.buffer
  have named := adds.standsFor.ne_nil nonempty
  cases kind : d.kind with
  | bracketedFactory =>
      simp only [Buffer.Admits, Buffer.Shows, kind] at admits ⊢
      obtain ⟨plain, noBackquote, placed⟩ := admits
      obtain ⟨block⟩ := exists_block whole adds.located kind placed
      have edited : after = block.edited name path :=
        Except.ok.inj (adds.applied.symm.trans (block.apply_edits fits _ name path))
      rw [edited]
      exact block.hasParameter_edited_iff adds.missing plain spelled named
        (block.endsAlike plain noBackquote) stamp
  | lineImports =>
      simp only [Buffer.Admits, Buffer.Shows, kind] at admits ⊢
      rw [hasParameter_added_iff whole fits adds.located kind adds.missing spelled named admits.1
        admits.2 adds.applied stamp]
      exact and_congr_right fun _ => and_comm

include adds nonempty whole in
theorem Adds.hasParameter_iff (admits : s.buffer.Admits d path) (stamp : UInt64) :
    (∃ d', locate after stamp = .ok d' ∧ d'.hasParameter symbol = true) ↔
      isIdentifier name = true ∧ name.lower.endsWith symbol.lower = true ∧
      s.buffer.Shows d path := by
  constructor
  · rintro ⟨d', located, has⟩
    have spelled := adds.spelled_of_hasParameter whole located has
    exact (adds.hasParameter_iff_of_spelled nonempty whole spelled admits stamp).mp
      ⟨d', located, has⟩
  · intro read
    have spelled := spelled_of_isIdentifier read.1
    exact (adds.hasParameter_iff_of_spelled nonempty whole spelled admits stamp).mpr read

end Again

section Twice

variable {im : Importer} (quiet : im.Quiet) {symbol : Text} {s : Session}

include quiet in
theorem exists_adds (added : (im.addDependency symbol s).1 = .ok { outcome := .added }) :
    ∃ d name path, im.Adds symbol s d name path (im.addDependency symbol s).2.buffer := by
  rcases addDependency_cases symbol s quiet with
    ⟨d, name, path, after, adds, -, same⟩ | ⟨notAdded, -⟩
  · rw [same]
    exact ⟨d, name, path, adds⟩
  · exact absurd added notAdded

include quiet in
theorem buffer_of_alreadyImported
    (imported : (im.addDependency symbol s).1 = .ok { outcome := .alreadyImported }) :
    (im.addDependency symbol s).2.buffer = s.buffer := by
  rcases addDependency_cases symbol s quiet with
    ⟨d, name, path, after, -, added, -⟩ | ⟨-, kept⟩
  · rw [added] at imported
    cases imported
  · exact kept

theorem Adds.again_iff {d : Descriptor} {name path : Text}
    (adds : im.Adds symbol s d name path (im.addDependency symbol s).2.buffer) (quiet : im.Quiet)
    (nonempty : symbol ≠ []) (whole : s.buffer.Whole) (admits : s.buffer.Admits d path) :
    (im.addDependency symbol (im.addDependency symbol s).2).1 =
      .ok { outcome := .alreadyImported } ∧
        (im.addDependency symbol (im.addDependency symbol s).2).2.buffer =
          (im.addDependency symbol s).2.buffer ↔
      isIdentifier name = true ∧ name.lower.endsWith symbol.lower = true ∧
      s.buffer.Shows d path := by
  rw [← adds.hasParameter_iff nonempty whole admits
    (im.stamp (im.addDependency symbol s).2.buffer), ← addDependency_alreadyImported_iff]
  constructor
  · intro again
    exact again.1
  · intro imported
    exact ⟨imported, buffer_of_alreadyImported quiet imported⟩

/-- In a text without comments, calls are idempotent for symbols and catalogs of
identifiers. -/
theorem addDependency_again_of_identifiers (quiet : im.Quiet)
    (identifier : isIdentifier symbol = true)
    (keys : ∀ known ∈ im.settings.modules, isIdentifier known.name = true)
    (whole : s.buffer.Whole) (free : s.buffer.CommentFree)
    (paths : ∀ row, (im.target symbol s).1 = .ok (.ok row) → isPlainPath row.2 = true ∧
      row.2 ≠ [] ∧ backquote ∉ row.2 ∧ row.2.contains defineMarker = false)
    (added : (im.addDependency symbol s).1 = .ok { outcome := .added }) :
    (im.addDependency symbol (im.addDependency symbol s).2).1 =
      .ok { outcome := .alreadyImported } ∧
      (im.addDependency symbol (im.addDependency symbol s).2).2.buffer =
        (im.addDependency symbol s).2.buffer := by
  obtain ⟨d, name, path, adds⟩ := exists_adds quiet added
  obtain ⟨plain, some, noBackquote, unmarked⟩ := paths _ adds.target
  have named : isIdentifier name = true := by
    rcases target_spec symbol s adds.target with ⟨known, member, rfl, -⟩ | rfl
    · exact keys known member
    · exact identifier
  have isSuffix := adds.standsFor.endsWith (nameBytes_of_isIdentifier named).2
    (nameBytes_of_isIdentifier identifier).2
  -- An identifier can be written, and without comments nothing hides what is written.
  have admits : s.buffer.Admits d path := by
    cases kind : d.kind with
    | bracketedFactory =>
        simp only [Buffer.Admits, kind]
        exact ⟨plain, noBackquote, placed_of_commentFree whole free adds.located kind⟩
    | lineImports =>
        simp only [Buffer.Admits, kind]
        refine ⟨notMem_of_isPlainPath plain (by decide), fun marked => ?_⟩
        rw [(contains_iff_isInfix marker_ne_nil.1 path).mpr marked] at unmarked
        cases unmarked
  have shows : s.buffer.Shows d path := by
    cases kind : d.kind with
    | bracketedFactory =>
        simp only [Buffer.Shows, kind]
        obtain ⟨block⟩ := exists_block whole adds.located kind
          (placed_of_commentFree whole free adds.located kind)
        exact block.receptive_iff.mpr ⟨block.takesPath_of_free free,
          block.takesName_of_free free⟩
    | lineImports =>
        simp only [Buffer.Shows, kind]
        obtain ⟨c, rest, rfl⟩ := List.exists_cons_of_ne_nil some
        have unquoted : ImportLine.isPathQuote c = false := by
          by_contra quoted
          rw [Bool.not_eq_false, ImportLine.isPathQuote, Bool.or_eq_true, beq_iff_eq,
            beq_iff_eq] at quoted
          rcases quoted with rfl | rfl
          · exact notMem_of_isPlainPath plain (by decide) List.mem_cons_self
          · exact notMem_of_isPlainPath plain (by decide) List.mem_cons_self
        rw [List.takeWhile_cons, unquoted]
        exact List.cons_ne_nil c _
  have nonempty := (nameBytes_of_isIdentifier identifier).1
  exact (adds.again_iff quiet nonempty whole admits).mpr ⟨named, isSuffix, shows⟩

end Twice

end Importer

/-- A second call with the symbol of a first one that returned `added` ends with
`alreadyImported`, and leaves the buffer alone, exactly when the name that was
written is an identifier that the symbol ends, both in small letters, and the
block shows it. -/
theorem addDependency_again_iff {im : Importer} (quiet : im.Quiet) {symbol : Text}
    (nonempty : symbol ≠ []) {s : Session} (whole : s.buffer.Whole)
    (added : (im.addDependency symbol s).1 = .ok { outcome := .added }) :
    ∃ d name path, im.Adds symbol s d name path (im.addDependency symbol s).2.buffer ∧
      (s.buffer.Admits d path →
        ((im.addDependency symbol (im.addDependency symbol s).2).1 =
          .ok { outcome := .alreadyImported } ∧
          (im.addDependency symbol (im.addDependency symbol s).2).2.buffer =
            (im.addDependency symbol s).2.buffer ↔
          isIdentifier name = true ∧ name.lower.endsWith symbol.lower = true ∧
          s.buffer.Shows d path)) := by
  obtain ⟨d, name, path, adds⟩ := Importer.exists_adds quiet added
  exact ⟨d, name, path, adds, adds.again_iff quiet nonempty whole⟩

def emptyBlock : Session where
  buffer := Buffer.ofText (utf8 "sap.ui.define([], function () \x7b\x7d);\n")

def storeOnly : Importer where
  settings := ⟨[], [⟨utf8 "Store", utf8 "a/Store"⟩], [], 10⟩
  finder := none

theorem quiet_storeOnly : storeOnly.Quiet := by
  intro finder given
  cases given

/-- A symbol in small letters is found again under the name of the catalog. -/
theorem addDependency_again_iff_store :
    (storeOnly.addDependency (utf8 "store") emptyBlock).1 = .ok { outcome := .added } ∧
      (storeOnly.addDependency (utf8 "store")
        (storeOnly.addDependency (utf8 "store") emptyBlock).2).1 =
        .ok { outcome := .alreadyImported } := by
  have added : (storeOnly.addDependency (utf8 "store") emptyBlock).1 =
      .ok { outcome := .added } := by
    decide +kernel
  have located : locate emptyBlock.buffer 1 =
      .ok (describe 1 ⟨[], ⟨0, 15⟩, ⟨0, 15⟩, false⟩
        ⟨[], ⟨0, 28⟩, ⟨0, 28⟩, false⟩ (utf8 "'")) := by
    decide +kernel
  have delimited : emptyBlock.buffer.Delimited ⟨⟨0, 0⟩, ⟨0, 14⟩, ⟨0, 15⟩, ⟨0, 18⟩,
      ⟨0, 27⟩, ⟨0, 28⟩⟩ := by
    constructor <;> decide +kernel
  have found : (storeOnly.target (utf8 "store") emptyBlock).1 =
      .ok (.ok (utf8 "Store", utf8 "a/Store")) := by
    decide +kernel
  obtain ⟨d, name, path, adds, exact⟩ :=
    addDependency_again_iff quiet_storeOnly (by decide) (Buffer.whole_ofText _) added
  obtain rfl := Except.ok.inj (adds.located.symm.trans located)
  obtain ⟨rfl, rfl⟩ : name = utf8 "Store" ∧ path = utf8 "a/Store" := by
    simpa using adds.target.symm.trans found
  have admits : emptyBlock.buffer.Admits (describe 1 ⟨[], ⟨0, 15⟩, ⟨0, 15⟩, false⟩
      ⟨[], ⟨0, 28⟩, ⟨0, 28⟩, false⟩ (utf8 "'")) (utf8 "a/Store") := by
    refine ⟨by decide +kernel, by decide +kernel, fun found' delimited' => ?_⟩
    rw [delimited'.unique delimited]
    decide
  refine ⟨added, ((exact admits).mpr ⟨by decide +kernel, by decide +kernel,
    fun _ found' delimited' => ?_⟩).1⟩
  rw [delimited'.unique delimited]
  exact ⟨⟨[], by decide +kernel, by decide⟩, ⟨[], by decide +kernel, by decide⟩⟩

/-- The long s folds to the letter s, so the catalog has the symbol, but it is
its own small letter, so no parameter does: the module is added twice. -/
theorem addDependency_again_long_s :
    (storeOnly.addDependency (utf8 "ſtore") emptyBlock).1 = .ok { outcome := .added } ∧
      (storeOnly.addDependency (utf8 "ſtore")
        (storeOnly.addDependency (utf8 "ſtore") emptyBlock).2).1 ≠
        .ok { outcome := .alreadyImported } ∧
      (storeOnly.addDependency (utf8 "ſtore")
        (storeOnly.addDependency (utf8 "ſtore") emptyBlock).2).2.buffer.text =
        utf8 "sap.ui.define(['a/Store',\n'a/Store'], function (Store,\nStore) \x7b\x7d);\n" := by
  refine ⟨?_, ?_, ?_⟩ <;> decide +kernel

end ModuleDeps
