import ModuleDeps.Proofs.Block.FlatReading

/-!
# How the reading of a document ends

A document with the marker of a factory block is refused for want of a
delimiter or for what stands between its lists, whatever its line ends are; or
it holds a frame, and reading it comes down to the two lists (`marked_cases`).
So no place outside of the text is looked at (`locate_error_cases`), and the
places of a descriptor lie in the text that it was read from
(`applicable_of_locate`).
-/

set_option autoImplicit false

namespace ModuleDeps

open Text

/-! ## Marked documents -/

theorem unmarked_of_absent {b : Buffer} {t : Text} (holds : b.lines = splitAt lf t)
    (bare : ¬ defineMarker <:+: t) : ∀ l ∈ b.lines, l.contains defineMarker = false := by
  intro l member
  by_contra occurs
  rw [Bool.not_eq_false, contains_iff_isInfix marker_ne_nil.1] at occurs
  exact bare (occurs.trans (isInfix_of_mem_splitAt (holds ▸ member)))

/-- A text with the marker is refused by every buffer that holds it, or is cut
by the delimiters of a factory block. -/
theorem marked_cases {t : Text} (marked : defineMarker <:+: t) :
    (∃ e, (e = .notFound ∨ e = .malformed) ∧
        ∀ b : Buffer, b.lines = splitAt lf t → ∀ stamp, locate b stamp = .error e) ∨
      ∃ f : Frame, t = f.text := by
  cases delimiting_of_marked marked with
  | unlisted markerLeads missing =>
      refine Or.inl ⟨.notFound, Or.inl rfl, fun b holds stamp => ?_⟩
      rw [locate_of_marker holds markerLeads, locateFactory_of_unlisted holds stamp missing]
  | unnamed markerLeads headOpen depsClose missing =>
      refine Or.inl ⟨.notFound, Or.inl rfl, fun b holds stamp => ?_⟩
      rw [locate_of_marker (List.append_assoc defineMarker .. ▸ holds) markerLeads,
        locateFactory_of_unnamed headOpen depsClose holds stamp missing]
  | @bare front head deps gap tail markerLeads headOpen depsClose factoryLeads missing =>
      have judged (b : Buffer) (holds : b.lines =
          splitAt lf (front ++ ((defineMarker ++ head) ++ 0x5B ::
          (deps ++ 0x5D :: (gap ++ (factoryMarker ++ tail)))))) (stamp : UInt64) :
          locate b stamp = if onlySeparators gap then .error .notFound else .error .malformed := by
        rw [locate_of_marker (List.append_assoc defineMarker .. ▸ holds) markerLeads,
          locateFactory_of_bare headOpen depsClose holds rfl factoryLeads stamp missing,
          b.onlySeparators_withEnding]
      left
      cases clear : onlySeparators gap with
      | true =>
          exact ⟨.notFound, Or.inl rfl, fun b holds stamp => by rw [judged b holds, clear]; rfl⟩
      | false =>
          exact ⟨.malformed, Or.inr rfl,
            fun b holds stamp => by rw [judged b holds, clear]; rfl⟩
  | framed f => exact Or.inr ⟨f, rfl⟩

/-! ## Refusals -/

theorem checkEntries_error_cases {dependencies parameters : List Text} {e : LocateError}
    (refused : checkEntries dependencies parameters = .error e) :
    e = .malformed ∨ e = .misaligned := by
  rw [checkEntries] at refused
  split at refused
  · exact Or.inl (Except.error.inj refused).symm
  · split at refused
    · exact Or.inl (Except.error.inj refused).symm
    · split at refused
      · exact Or.inr (Except.error.inj refused).symm
      · cases refused

theorem report_error_cases {stamp : UInt64} {clear : Bool} {deps params : EntryList}
    {e : LocateError} (refused : report stamp clear deps params = .error e) :
    e = .malformed ∨ e = .misaligned := by
  rw [report] at refused
  cases clear with
  | false => exact Or.inl (Except.error.inj refused).symm
  | true =>
      cases checked : checkEntries (deps.entries.map trim) (params.entries.map trim) with
      | error e' =>
          obtain rfl : e' = e := by simpa [bind, Except.bind, checked] using refused
          exact checkEntries_error_cases checked
      | ok _ =>
          -- Checked dependencies are literals, and so the first one has a quote.
          obtain ⟨q, -, quoted, -⟩ := quoteOf_spec (checkEntries_eq_ok_iff.mp checked).1
          simp [bind, Except.bind, checked, quoted, pure, Except.pure] at refused

section Read

variable {b : Buffer} (whole : b.Whole) {stamp : UInt64}
include whole

/-- A document without a block that can be edited is refused as such; no place
outside of its text is looked at. -/
theorem locate_error_cases {e : LocateError} (refused : locate b stamp = .error e) :
    e = .notFound ∨ e = .malformed ∨ e = .misaligned := by
  obtain ⟨t, holds⟩ := whole.exists_text
  by_cases marked : defineMarker <:+: t
  · rcases marked_cases marked with ⟨e', either, stop⟩ | ⟨f, rfl⟩
    · obtain rfl : e' = e := by simpa [stop b holds] using refused
      tauto
    · obtain ⟨deps, params, -, -, read⟩ := locate_frame f holds stamp
      exact Or.inr (report_error_cases (read ▸ refused))
  · rw [locate_of_unmarked (unmarked_of_absent holds marked), locateImports] at refused
    split at refused
    · exact Or.inl (Except.error.inj refused).symm
    · cases refused

end Read

/-! ## Places -/

structure Buffer.Within (b : Buffer) (p : Position) : Prop where
  line_nonneg : 0 ≤ p.line
  line_lt : p.line < b.lineCount
  column_nonneg : 0 ≤ p.column
  column_le : p.column ≤ (b.line p.line).length

/-- The places of a descriptor lie in a buffer: inside of lines for a factory
block, and for import lines at the start of a line behind the first one, or
right behind the last line. -/
def Descriptor.Applicable (d : Descriptor) (b : Buffer) : Prop :=
  match d.kind with
  | .bracketedFactory => b.Within d.dependencyInsert ∧ b.Within d.parameterInsert
  | .lineImports => d.parameterInsert = d.dependencyInsert ∧ d.dependencyInsert.column = 0 ∧
      1 ≤ d.dependencyInsert.line ∧ d.dependencyInsert.line ≤ b.lineCount

theorem Buffer.within_after {b : Buffer} {X Y : Text} (holds : b.lines = splitAt lf (X ++ Y)) :
    b.Within (Position.after X) := by
  obtain ⟨lineNonneg, lineLt⟩ := after_line_bounds holds
  obtain ⟨above, v, y, below, wholeAbove, vApart, -, -, rfl, rfl, cut⟩ := lines_around holds
  rw [Position.after_stacked wholeAbove vApart] at lineNonneg lineLt ⊢
  refine ⟨lineNonneg, lineLt, by simp, ?_⟩
  rw [line_at cut, List.length_append]
  push_cast
  omega

theorem Buffer.Scanned.within {b : Buffer} {lead inner tail : Text} {opener closer : UInt8}
    {L : EntryList} (scanned : b.Scanned lead opener inner L)
    (holds : b.lines = splitAt lf (lead ++ opener :: inner ++ closer :: tail)) :
    b.Within L.insert := by
  obtain ⟨above, line, R, comma, -, -, cut, place, -⟩ := exists_insert holds
  have insertAt : L.insert = Position.after (stacked above ++ line) := by
    rw [scanned.insertPoint] at place
    exact congrArg Prod.fst place
  rw [cut, List.append_assoc] at holds
  rw [insertAt]
  exact within_after holds

theorem applicable_of_locate {b : Buffer} (whole : b.Whole) {stamp : UInt64} {d : Descriptor}
    (located : locate b stamp = .ok d) :
    d.dependencies.length = d.parameters.length ∧ d.Applicable b := by
  rcases locate_cases whole located with
    ⟨f, deps, params, quote, holds, read⟩ | ⟨n, last, found, rfl⟩
  · obtain rfl := read.described
    exact ⟨(checkEntries_eq_ok_iff.mp read.checked).2.2.symm,
      read.depsScanned.within (f.text_eq_depsTail ▸ holds),
      read.paramsScanned.within (f.text_eq_paramsTail ▸ holds)⟩
  · have bound := importsFrom_bound (List.mem_of_getLast? found)
    simp only [Descriptor.Applicable, describeImports, List.length_map, Buffer.lineCount, true_and]
    omega

/-- The edits made from a descriptor are accepted by the text it was read from. -/
theorem exists_apply_edits {b : Buffer} (whole : b.Whole) {stamp : UInt64}
    (fits : stamp = 0 ∨ stamp = b.version) {d : Descriptor} (located : locate b stamp = .ok d)
    (lineCount : Nat) (name path : Text) :
    ∃ after, b.apply (d.edits lineCount name path) = .ok after := by
  obtain ⟨stamped, nonempty, inRange⟩ := edits_fit whole located lineCount name path
  obtain ⟨splices, placed⟩ := Buffer.mapM_splice_eq_ok inRange
  exact ⟨_, Buffer.apply_of_fit (stamped.symm ▸ fits) nonempty placed⟩

end ModuleDeps
