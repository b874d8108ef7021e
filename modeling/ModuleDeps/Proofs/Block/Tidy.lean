import ModuleDeps.Proofs.Block.SameLine

/-!
# Lists with comments

A list is read up to its insert point only, but in a `Tidy` list nothing is lost
by that: comments hold no entries of their own, and every comma at the end of a
line stands behind an entry.  Such a list has the entries of its whole text
(`ReadTo.entries_of_tidy`) and takes a further one (`ReadTo.takes_of_tidy`).
-/

set_option autoImplicit false

namespace ModuleDeps

open Text

/-! ## Code without its comment -/

theorem blanks_of_isComment {line : Text} (comment : isComment line = true) :
    Blanks (stripComment line) := by
  obtain ⟨s, u, lead, rfl⟩ := isComment_iff.mp comment
  have stops : stripComment (lineComment ++ u) = [] :=
    codeFrom_comment (by decide) (by simp [lineComment])
  rw [stripComment_append_plain (plain_of_blanks lead), stops, List.append_nil]
  exact lead

theorem lineEntries_strip {line : Text} (code : isComment line = false) :
    lineEntries [comma] line = lineEntries [comma] (stripComment line) := by
  have stripped := isComment_of_code (stripComment_idem line)
  rw [lineEntries_comma, lineEntries_comma, code, stripped, stripComment_idem]
  rfl

/-- The entries of a line show up to the blanks behind its code, unless it holds
nothing but a comment. -/
theorem lineEntries_of_code {u r w : Text} (blank : ∀ a ∈ w, Buffer.isLineBlank a = true)
    (code : stripComment (u ++ r) = u ++ w)
    (idle : Blanks (stripComment (u ++ r)) → lineEntries [comma] (u ++ r) = []) :
    (lineEntries [comma] (u ++ r)).map trim = (lineEntries [comma] u).map trim := by
  rw [← lineEntries_append_blanks blank u, ← code]
  cases comment : isComment (u ++ r) with
  | true =>
      have none := blanks_of_isComment comment
      rw [idle none, lineEntries_of_blanks none]
  | false => rw [lineEntries_strip comment]

/-! ## Tidy lists -/

/-- The text of a list whose comments and commas do not show as entries. -/
structure Tidy (inner : Text) : Prop where
  opening : ∀ a ∈ stripComment ((splitAt lf inner).headD []), Buffer.isLineBlank a = true
  idle : ∀ l ∈ splitAt lf inner, Blanks (stripComment l) → lineEntries [comma] l = []
  comma : ∀ l ∈ splitAt lf inner, endsWithComma (lineCode l) = true →
    lineEntries [comma] l ≠ []

namespace Buffer

theorem lineBefore_lastLine {b : Buffer} {A B : Text} (holds : b.lines = splitAt lf (A ++ B)) :
    b.lineBefore (Position.after A) = lastLine A := by
  obtain ⟨above, v, y, below, wholeAbove, vApart, -, -, rfl, -, cut⟩ := lines_around holds
  rw [Position.after_stacked wholeAbove vApart, lineBefore_after cut,
    lastLine_stacked wholeAbove vApart]

theorem not_commented_opener {b : Buffer} {lead inner rest : Text} {opener : UInt8}
    (holds : b.lines = splitAt lf (lead ++ opener :: inner ++ rest))
    (plain : ∀ a ∈ lastLine lead ++ [opener], isQuote a = false ∧ a ≠ slash)
    (visible : isVisible opener = true) : ¬ b.Commented (Position.after lead) := by
  have openLine : opener ≠ lf := by
    rintro rfl
    cases visible
  have holdsOpen : b.lines = splitAt lf (lead ++ opener :: (inner ++ rest)) := by
    rw [holds]
    simp
  have code := plain opener (by simp)
  refine not_commented_of_plain (stands_after openLine holdsOpen) ⟨code.2, code.1⟩ ?_
  intro a member
  rw [lineBefore_lastLine holdsOpen] at member
  exact plain a (by simp [member])

section Tidy

variable {b : Buffer} {lead inner body R : Text} {opener : UInt8} {L : EntryList}
  (read : b.ReadTo lead opener inner body R L)
  (plain : ∀ a ∈ lastLine lead ++ [opener], isQuote a = false ∧ a ≠ slash)
  (openerLine : opener ≠ lf) (tidy : Tidy inner)

include plain openerLine in
theorem exists_lastLine (body : Text) :
    ∃ pre, (∀ a ∈ pre, isQuote a = false ∧ a ≠ slash) ∧
      lastLine (lead ++ opener :: body) = pre ++ lastLine body ∧
      (pre = [] ∨ pre = lastLine lead ++ [opener] ∧ lf ∉ body) := by
  have spelled : lead ++ opener :: body = lead ++ [opener] ++ body := by simp
  rw [spelled]
  by_cases within : lf ∈ body
  · exact ⟨[], by simp, by rw [lastLine_append_of_mem within, List.nil_append], Or.inl rfl⟩
  · have own : lastLine body = body := by
      rw [lastLine, splitAt_of_notMem within]
      rfl
    refine ⟨lastLine lead ++ [opener], plain, ?_, Or.inr ⟨rfl, within⟩⟩
    rw [lastLine_append_of_notMem within, own,
      lastLine_append_of_notMem (by simp [Ne.symm openerLine])]

include read plain openerLine tidy in
theorem ReadTo.entries_of_tidy :
    L.entries.map trim = (splitEntries inner [Text.comma]).map trim := by
  obtain ⟨pre, prePlain, lineCut, -⟩ := exists_lastLine plain openerLine body
  have slack := read.slack
  have cut := read.cut
  rw [read.trimmed]
  rw [lineCut] at slack
  cases slack with
  | none => rw [cut, List.append_nil]
  | @lines r v rs whole vApart edge idle vBlank =>
      obtain ⟨above, u, wholeAbove, uApart, rfl⟩ := exists_stacked body
      rw [lastLine_stacked wholeAbove uApart] at edge
      have rApart : lf ∉ u ++ r := by simp [uApart, whole r (by simp)]
      have wholeRest : ∀ l ∈ rs, lf ∉ l := fun l member => whole l (by simp [member])
      have wholeLines : ∀ l ∈ above ++ (u ++ r) :: rs, lf ∉ l := by
        intro l member
        rcases List.mem_append.mp member with member | member
        · exact wholeAbove l member
        · rcases List.mem_cons.mp member with rfl | member
          · exact rApart
          · exact wholeRest l member
      have innerCut : inner = stacked (above ++ (u ++ r) :: rs) ++ v := by
        rw [cut]
        simp
      have inInner : ∀ l ∈ above ++ (u ++ r) :: rs, l ∈ splitAt lf inner := by
        intro l member
        rw [innerCut, splitAt_stacked wholeLines]
        exact List.mem_append_left _ member
      have noneBelow : rs.flatMap (lineEntries [Text.comma]) = [] := by
        rw [List.flatMap_eq_nil_iff]
        intro l member
        exact tidy.idle l (inInner l (by simp [member])) (idle l member)
      have sameLine : (lineEntries [Text.comma] (u ++ r)).map trim =
          (lineEntries [Text.comma] u).map trim := by
        cases edge with
        | @code w wBlank code =>
            rw [List.append_assoc, List.append_assoc, stripComment_append_plain prePlain] at code
            exact lineEntries_of_code wBlank (List.append_cancel_left code)
              (tidy.idle (u ++ r) (inInner _ (by simp)))
        | comment empty _ _ => rw [empty, List.append_nil]
      rw [innerCut, splitEntries_stacked wholeLines vApart, splitEntries_stacked wholeAbove uApart,
        lineEntries_of_blanks vBlank, List.flatMap_append, List.flatMap_cons, noneBelow]
      simp [sameLine]

include read plain openerLine tidy in
theorem ReadTo.takes_of_tidy (rest : R ≠ []) (notComma : opener ≠ Text.comma)
    (notBlank : isLineBlank opener = false) :
    splitEntries body [Text.comma] ≠ [] ∨ takesEntry (lastLine body) = true := by
  obtain ⟨pre, prePlain, lineCut, place⟩ := exists_lastLine plain openerLine body
  have slack := read.slack
  have cut := read.cut
  rw [lineCut] at slack
  cases slack with
  | none => exact absurd rfl rest
  | @lines r v rs whole vApart edge idle vBlank =>
      cases edge with
      | @code w wBlank code =>
          right
          rw [List.append_assoc, List.append_assoc, stripComment_append_plain prePlain] at code
          have code := List.append_cancel_left code
          have own : stripComment (lastLine body) = lastLine body := by
            have whole := stripComment_idem (lastLine body ++ r)
            rw [code] at whole
            exact stripComment_of_append whole
          rw [takesEntry, isComment_of_code own, own]
          simp
      | comment empty _ ends =>
          left
          subst empty
          have innerCut : inner = body ++ lf :: (stacked rs ++ v) := by
            rw [cut]
            simp
          rcases place with rfl | ⟨rfl, within⟩
          · have here : lastLine body ∈ splitAt lf inner := by
              rw [innerCut, splitAt_append_sep]
              exact List.mem_append_left _ (lastLine_mem body)
            rw [List.nil_append] at ends
            have some := tidy.comma _ here ends
            intro none
            rw [splitEntries, List.flatMap_eq_nil_iff] at none
            exact some (none _ (lastLine_mem body))
          · -- Nothing but the opening delimiter is code on that line.
            have own : lastLine body = body := by
              rw [lastLine, splitAt_of_notMem within]
              rfl
            have blank : ∀ a ∈ stripComment body, isLineBlank a = true := by
              have opening := tidy.opening
              rw [innerCut, splitAt_append_sep, splitAt_of_notMem within] at opening
              exact opening
            have inked : ∀ a ∈ (lastLine lead ++ [opener]).getLast?, isLineBlank a = false := by
              simpa using notBlank
            rw [own, lineCode, stripComment_append_plain prePlain, trimEndWhere_append blank inked,
              endsWithComma_iff] at ends
            exact absurd (by simpa using ends) notComma

end Tidy

end Buffer

end ModuleDeps
