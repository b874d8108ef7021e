import Mathlib.Data.List.GetD
import ModuleDeps.Proofs.Block.ImportReread
import ModuleDeps.Proofs.Staleness

/-!
# Runs of additions to import lines

A block of import lines ends with its last import line.  An addition puts one
line behind it, which is read as an import statement of the same shape and is
then the last one, so that the next addition goes behind it in turn.  After a
run the added lines stand behind the old block in the order of the additions,
and nothing else has moved.
-/

set_option autoImplicit false

namespace ModuleDeps

open Text

def Buffer.add? (versioned : Bool) (b : Buffer) (row : Text × Text) : Option Buffer := do
  let d ← (locate b (if versioned then b.version else 0)).toOption
  (b.apply (d.edits b.lineCount row.1 row.2)).toOption

/-- A name and a path that an import line can bind. -/
structure Importable (row : Text × Text) : Prop where
  identifier : isIdentifier row.1 = true
  nonempty : row.2 ≠ []
  quoteless : ∀ b ∈ row.2, ImportLine.isPathQuote b = false
  noCr : cr ∉ row.2
  noLf : lf ∉ row.2
  unmarked : row.2.contains defineMarker = false

/-- The last import line of a text is on line `n`. -/
structure LastImport (lines : List Text) (n : Nat) : Prop where
  isImport : (ImportLine.ofText? (lines.getD n [])).isSome
  noneBehind : ∀ l ∈ lines.drop (n + 1), ImportLine.ofText? l = none

theorem exists_lastImport {lines : List Text}
    (imports : ∃ l ∈ lines, (ImportLine.ofText? l).isSome) :
    ∃ n, LastImport lines n := by
  induction lines with
  | nil => simp at imports
  | cons line rest ih =>
      by_cases later : ∃ l ∈ rest, (ImportLine.ofText? l).isSome
      · obtain ⟨n, last⟩ := ih later
        exact ⟨n + 1, last.isImport, last.noneBehind⟩
      · obtain ⟨l, member, isImport⟩ := imports
        rcases List.mem_cons.mp member with rfl | member
        · refine ⟨0, isImport, ?_⟩
          intro x inRest
          by_contra accepted
          exact later ⟨x, inRest, Option.isSome_iff_ne_none.mpr accepted⟩
        · exact absurd ⟨l, member, isImport⟩ later

/-! ## The block -/

/-- A buffer of plain lines whose import lines end with `line`, which is read as
`last`. -/
structure ImportBlock (b : Buffer) (above : List Text) (line : Text) (below : List Text)
    (last : ImportLine) : Prop where
  lines : b.lines = above ++ line :: below
  whole : b.Whole
  plain : ∀ l ∈ b.lines, cr ∉ l
  unmarked : ∀ l ∈ b.lines, l.contains defineMarker = false
  isImport : ImportLine.ofText? line = some last
  noneBehind : ∀ l ∈ below, ImportLine.ofText? l = none

theorem importsFrom_eq_nil {lines : List Text}
    (none : ∀ l ∈ lines, ImportLine.ofText? l = none) (k : Nat) :
    importsFrom k lines = [] := by
  induction lines generalizing k with
  | nil => rfl
  | cons line rest ih =>
      rw [importsFrom, none line (by simp)]
      exact ih (fun l member => none l (by simp [member])) (k + 1)

theorem exists_importBlock {b : Buffer} (whole : b.Whole) (plain : ∀ l ∈ b.lines, cr ∉ l)
    (unmarked : ∀ l ∈ b.lines, l.contains defineMarker = false) {n : Nat}
    (lastAt : LastImport b.lines n) :
    ∃ line last, b.lines.take (n + 1) = b.lines.take n ++ [line] ∧
      ImportBlock b (b.lines.take n) line (b.lines.drop (n + 1)) last := by
  obtain ⟨last, isImport⟩ := Option.isSome_iff_exists.mp lastAt.isImport
  have bound : n < b.lines.length := by
    by_contra past
    rw [List.getD_eq_default _ _ (by omega)] at isImport
    cases isImport
  refine ⟨b.lines.getD n [], last, ?_, ?_⟩
  · rw [List.take_succ_eq_append_getElem bound, List.getD_eq_getElem _ _ bound]
  · refine ⟨?_, whole, plain, unmarked, isImport, lastAt.noneBehind⟩
    rw [List.getD_eq_getElem _ _ bound, ← List.drop_eq_getElem_cons bound, List.take_append_drop]

section Step

variable {b : Buffer} {above below : List Text} {line : Text} {last : ImportLine}

theorem ImportBlock.quote (block : ImportBlock b above line below last) :
    last.quote = squote ∨ last.quote = dquote := (ImportLine.ofText?_spec block.isImport).2

theorem ImportBlock.importsFrom (block : ImportBlock b above line below last) :
    importsFrom 0 b.lines = ModuleDeps.importsFrom 0 above ++ [(above.length, last)] := by
  rw [block.lines, importsFrom_append, ModuleDeps.importsFrom, block.isImport]
  simp [importsFrom_eq_nil block.noneBehind]

theorem ImportBlock.locate (block : ImportBlock b above line below last) (stamp : UInt64) :
    locate b stamp = .ok (describeImports stamp (ModuleDeps.importsFrom 0 b.lines) above.length
      last) := by
  rw [locate_of_unmarked block.unmarked, locateImports_eq_ok_iff]
  refine ⟨above.length, last, ?_, rfl⟩
  rw [block.importsFrom, List.getLast?_concat]

def writtenAfter (last : ImportLine) (row : Text × Text) : Text :=
  importText row.1 (last.quote :: (row.2 ++ [last.quote])) last.semicolon

variable (block : ImportBlock b above line below last) {row : Text × Text}
  (importable : Importable row)

include block importable in
theorem ImportBlock.ofText?_written :
    ImportLine.ofText? (writtenAfter last row) =
      some ⟨row.1, row.2, last.quote, last.semicolon⟩ := by
  have spelled := spelled_of_isIdentifier importable.identifier
  have nonempty : row.1 ≠ [] := by
    intro empty
    have identifier := importable.identifier
    rw [empty] at identifier
    cases identifier
  exact ImportLine.ofText?_importText_of_quoteless nonempty (isGap_of_spelled spelled) block.quote
    importable.identifier importable.nonempty importable.quoteless last.semicolon

include block importable in
/-- An addition puts one line behind the block, which then ends the block. -/
theorem ImportBlock.add (versioned : Bool) :
    ∃ after, b.add? versioned row = some after ∧
      ImportBlock after (above ++ [line]) (writtenAfter last row) below
        ⟨row.1, row.2, last.quote, last.semicolon⟩ := by
  have spelled := spelled_of_isIdentifier importable.identifier
  generalize stamped : (if versioned then b.version else 0) = stamp
  have fits : stamp = 0 ∨ stamp = b.version := by
    rw [← stamped]
    cases versioned with
    | false => exact Or.inl rfl
    | true => exact Or.inr rfl
  have within : above.length < b.lineCount := by
    rw [Buffer.lineCount, block.lines, List.length_append, List.length_cons]
    omega
  have written :
      (describeImports stamp (ModuleDeps.importsFrom 0 b.lines) above.length last).addedLine
      row.1 row.2 = writtenAfter last row := addedLine_eq rfl row.1 row.2
  have noBreak {c : UInt8} (breaks : c = lf ∨ c = cr) (apart : c ∉ row.2) :
      c ∉ writtenAfter last row := by
    rw [← written]
    exact notMem_addedLine rfl block.quote spelled breaks apart
  have front : b.lines.take (above.length + 1) = above ++ [line] := by
    rw [block.lines, List.append_cons, List.take_left' (by simp)]
  have back : b.lines.drop (above.length + 1) = below := by
    rw [block.lines, List.append_cons, List.drop_left' (by simp)]
  have lineApart := noBreak (Or.inl rfl) importable.noLf
  rw [← written] at lineApart
  obtain ⟨t, cut, applied⟩ := apply_importLine block.whole fits within lineApart
  rw [written, front, back] at cut
  -- What holds of every old line and of the new one holds of every line after.
  have kept {P : Text → Prop} (old : ∀ l ∈ b.lines, P l) (new : P (writtenAfter last row)) :
      ∀ l ∈ splitAt lf t, P l := by
    rw [block.lines] at old
    intro l member
    rw [cut] at member
    simp only [List.mem_append, List.mem_cons, List.not_mem_nil, or_false] at member old
    rcases member with (member | rfl) | rfl | member
    · exact old l (Or.inl member)
    · exact old l (Or.inr (Or.inl rfl))
    · exact new
    · exact old l (Or.inr (Or.inr member))
  have plain := kept block.plain (noBreak (Or.inr rfl) importable.noCr)
  have same : (b.withEnding t).cutLines = splitAt lf t := by
    apply Buffer.cutLines_withEnding_of_plain
    intro l member ends
    exact plain l member (List.mem_of_getLast? ends)
  have newUnmarked : (writtenAfter last row).contains defineMarker = false := by
    rw [← Bool.not_eq_true, contains_iff_isInfix marker_ne_nil.1, ← written]
    apply addedLine_unmarked rfl block.quote spelled
    rw [← contains_iff_isInfix marker_ne_nil.1, importable.unmarked]
    simp
  refine ⟨{ b with lines := splitAt lf t, version := b.version + 1 }, ?_, ?_⟩
  · rw [Buffer.add?, stamped, block.locate, ← same]
    exact congrArg Except.toOption applied
  · exact {
      lines := by simpa using cut
      whole := ⟨splitAt_ne_nil lf t, fun l member => notMem_of_mem_splitAt member⟩
      plain := plain
      unmarked := kept (P := fun l => l.contains defineMarker = false) block.unmarked newUnmarked
      isImport := block.ofText?_written importable
      noneBehind := block.noneBehind }

end Step

/-! ## Runs -/

/-- After a run of additions the block has grown by one line for each. -/
theorem ImportBlock.run (versioned : Bool) : ∀ {rows : List (Text × Text)} {b : Buffer}
    {above below : List Text} {line : Text} {last : ImportLine},
    ImportBlock b above line below last → (∀ row ∈ rows, Importable row) →
      ∃ final above' line' last', rows.foldlM (Buffer.add? versioned) b = some final ∧
        ImportBlock final above' line' below last' ∧
        above' ++ [line'] = above ++ line :: rows.map (writtenAfter last) ∧
        last'.quote = last.quote ∧ last'.semicolon = last.semicolon := by
  intro rows
  induction rows with
  | nil =>
      intro b above below line last block _
      exact ⟨b, above, line, last, rfl, block, rfl, rfl, rfl⟩
  | cons row rows ih =>
      intro b above below line last block importable
      obtain ⟨after, added, further⟩ := block.add (importable row (by simp)) versioned
      obtain ⟨final, above', line', last', ran, block', grown, quote, semicolon⟩ :=
        ih further fun r member => importable r (by simp [member])
      refine ⟨final, above', line', last', ?_, block', ?_, quote, semicolon⟩
      · rw [List.foldlM_cons, added]
        exact ran
      · rw [grown, List.map_cons]
        simp [writtenAfter]

theorem filterMap_written {b : Buffer} {above below : List Text} {line : Text} {last : ImportLine}
    (block : ImportBlock b above line below last) {rows : List (Text × Text)}
    (importable : ∀ row ∈ rows, Importable row) :
    (rows.map (writtenAfter last)).filterMap ImportLine.ofText? =
      rows.map fun row => ⟨row.1, row.2, last.quote, last.semicolon⟩ := by
  rw [List.filterMap_map, ← List.filterMap_eq_map]
  apply List.filterMap_congr
  intro row member
  exact block.ofText?_written (importable row member)

theorem ImportBlock.exists_descriptor {b : Buffer} {above below : List Text} {line : Text}
    {last : ImportLine} (block : ImportBlock b above line below last) (stamp : UInt64) :
    ∃ d, ModuleDeps.locate b stamp = .ok d ∧ d.kind = .lineImports ∧
      d.quote = [last.quote] ∧
      d.semicolon = last.semicolon ∧
      d.parameters = ((above ++ [line]).filterMap ImportLine.ofText?).map ImportLine.name ∧
      d.dependencies = ((above ++ [line]).filterMap ImportLine.ofText?).map ImportLine.literal := by
  have none : below.filterMap ImportLine.ofText? = [] :=
    List.filterMap_eq_nil_iff.mpr block.noneBehind
  have statements : (ModuleDeps.importsFrom 0 b.lines).map Prod.snd =
      (above ++ [line]).filterMap ImportLine.ofText? := by
    rw [statements_importsFrom, block.lines, List.append_cons, List.filterMap_append, none,
      List.append_nil]
  refine ⟨_, block.locate stamp, rfl, rfl, rfl, ?_, ?_⟩
  · rw [← statements, List.map_map]
    rfl
  · rw [← statements, List.map_map]
    rfl

/-- Additions to import lines keep their order.  The lines written for them
follow the last import line, all other lines stay, and the block is read as
before with the additions behind it. -/
theorem additions_behind_lastImport (t : Text) (past : List Batch)
    (plain : ∀ l ∈ (reached t past).lines, cr ∉ l)
    (unmarked : ∀ l ∈ (reached t past).lines, l.contains defineMarker = false)
    (imports : ∃ l ∈ (reached t past).lines, (ImportLine.ofText? l).isSome) (versioned : Bool)
    {rows : List (Text × Text)} (importable : ∀ row ∈ rows, Importable row) (stamp : UInt64) :
    ∃ n d final d', LastImport (reached t past).lines n ∧
      locate (reached t past) stamp = .ok d ∧ d.kind = .lineImports ∧
      rows.foldlM (Buffer.add? versioned) (reached t past) = some final ∧
      final.lines = (reached t past).lines.take (n + 1) ++
        rows.map (fun row => importText row.1 (d.literal row.2) d.semicolon) ++
          (reached t past).lines.drop (n + 1) ∧
      locate final stamp = .ok d' ∧ d'.kind = .lineImports ∧
      d'.parameters = d.parameters ++ rows.map Prod.fst ∧
      d'.dependencies = d.dependencies ++ rows.map (fun row => d.quote ++ row.2 ++ d.quote) ∧
      d'.quote = d.quote ∧ d'.semicolon = d.semicolon := by
  have whole : (reached t past).Whole := (Buffer.whole_ofText t).attemptAll past
  obtain ⟨n, lastAt⟩ := exists_lastImport imports
  obtain ⟨line, last, upTo, block⟩ := exists_importBlock whole plain unmarked lastAt
  obtain ⟨final, above', line', last', ran, block', grown, quote, semicolon⟩ :=
    ImportBlock.run versioned block importable
  obtain ⟨d, located, kind, dQuote, dSemicolon, parameters, dependencies⟩ :=
    block.exists_descriptor stamp
  obtain ⟨d', located', kind', dQuote', dSemicolon', parameters', dependencies'⟩ :=
    block'.exists_descriptor stamp
  rw [grown, List.append_cons, List.filterMap_append, filterMap_written block importable,
    List.map_append]
    at parameters' dependencies'
  refine ⟨n, d, final, d', lastAt, located, kind, ran, ?_, located', kind', ?_, ?_, ?_, ?_⟩
  · rw [block'.lines, List.append_cons, grown, upTo]
    simp [writtenAfter, Descriptor.literal, dQuote, dSemicolon]
  · rw [parameters', parameters, List.map_map]
    rfl
  · rw [dependencies', dependencies, List.map_map, dQuote]
    simp [ImportLine.literal, Function.comp_def]
  · rw [dQuote', dQuote, quote]
  · rw [dSemicolon', dSemicolon, semicolon]

/-- Two additions behind the first of three lines with line ends of two bytes. -/
theorem additions_behind_lastImport_two :
    ∃ final d', [(utf8 "B", utf8 "b/B"), (utf8 "C", utf8 "c/C")].foldlM (Buffer.add? true)
        (reached (utf8 "import A from \"a/A\";\r\nlet x;\r\n") []) = some final ∧
      locate final 0 = .ok d' ∧ d'.parameters = [utf8 "A", utf8 "B", utf8 "C"] ∧
      d'.quote = utf8 "\"" := by
  have importable : ∀ row ∈ [(utf8 "B", utf8 "b/B"), (utf8 "C", utf8 "c/C")],
      Importable row := by
    intro row member
    simp only [List.mem_cons, List.not_mem_nil, or_false] at member
    rcases member with rfl | rfl <;> constructor <;> decide +kernel
  obtain ⟨n, d, final, d', -, located, -, ran, -, located', -, parameters, -, quote, -⟩ :=
    additions_behind_lastImport (utf8 "import A from \"a/A\";\r\nlet x;\r\n") [] (by decide +kernel)
      (by decide +kernel) (by decide +kernel) true importable 0
  have read : locate (reached (utf8 "import A from \"a/A\";\r\nlet x;\r\n") []) 0 =
      .ok (describeImports 0 [(0, ⟨utf8 "A", utf8 "a/A", dquote, true⟩)] 0
        ⟨utf8 "A", utf8 "a/A", dquote, true⟩) := by decide +kernel
  obtain rfl := Except.ok.inj (located.symm.trans read)
  exact ⟨final, d', ran, located', parameters, quote⟩

end ModuleDeps
