import ModuleDeps.Block.Edits
import ModuleDeps.Proofs.Block.Grammar

/-!
# Lists that were continued

A fit entry put at the insert point of a list stays the last piece of code in
front of the closing delimiter (`Slack.kept`), so that the next insert point lies
right behind it.  Up to there the list reads as
before with the entry added (`entries_continued`), except where a list without
entries has a comment in front of the insert point.
-/

set_option autoImplicit false

namespace ModuleDeps

open Text

/-! ## Code and line ends -/

theorem lineBlank_of_chomp {r r' : Text} (same : chomp r = chomp r')
    (blank : ∀ a ∈ r, Buffer.isLineBlank a = true) :
    ∀ a ∈ r', Buffer.isLineBlank a = true := by
  obtain ⟨n, cut⟩ := exists_chomp r
  obtain ⟨m, cut'⟩ := exists_chomp r'
  intro a member
  rw [cut', ← same] at member
  rcases List.mem_append.mp member with inside | padding
  · exact blank a (by rw [cut]; simp [inside])
  · rw [List.eq_of_mem_replicate padding]
    decide

theorem lineBlank_plain {w : Text} (blank : ∀ a ∈ w, Buffer.isLineBlank a = true) :
    ∀ a ∈ w, isQuote a = false ∧ a ≠ slash :=
  plain_of_blanks (Buffer.blanks_of_isLineBlank blank)

theorem blanks_strip_congr {l l' : Text} (same : chomp l = chomp l') :
    Blanks (stripComment l) ↔ Blanks (stripComment l') := by
  rw [← isBlank_iff, ← isBlank_iff]
  refine Bool.eq_iff_iff.mp (eq_of_chomp_eq (f := fun l => (stripComment l).isBlank) ?_ same)
  intro t
  by_cases code : stripComment t = t
  · have longer : stripComment (t ++ [cr]) = t ++ [cr] :=
      codeFrom_append_of_code none t [cr] code (by decide) (by decide)
    rw [longer, code, isBlank, isBlank, trim_append_cr]
  · have shorter : stripComment (t ++ [cr]) = stripComment t :=
      codeFrom_append_of_comment none t [cr] code
    rw [shorter]

theorem exists_comment_congr {w c r' : Text} (same : chomp (w ++ (lineComment ++ c)) = chomp r') :
    ∃ c', r' = w ++ (lineComment ++ c') := by
  obtain ⟨n, cut⟩ := exists_chomp r'
  have start : chomp (w ++ (lineComment ++ c)) = w ++ (lineComment ++ chomp c) := by
    have first := chomp_append_of_ne (by decide : slash ≠ cr) w (slash :: c)
    have second := chomp_append_of_ne (by decide : slash ≠ cr) [] c
    rw [List.nil_append, List.nil_append] at second
    rw [second] at first
    exact first
  exact ⟨chomp c ++ List.replicate n cr, by rw [cut, ← same, start]; simp⟩

namespace Buffer

/-! ## The line of the insert point -/

/-- How the line of an insert point ends: with blanks, with blanks and a
comment, or inside of a comment behind a comma. -/
inductive Ending (line r : Text) : Prop
  | blank : stripComment line = line → (∀ a ∈ r, isLineBlank a = true) → Ending line r
  | comment {w c rest : Text} : (∀ a ∈ w, isLineBlank a = true) →
      r = w ++ (lineComment ++ c) →
      stripComment (line ++ rest) = line ++ w → w ≠ rest → Ending line r
  | inside : stripComment line ≠ line → endsWithComma (lineCode line) = true →
      (∀ a ∈ r, isLineBlank a = true) → Ending line r

theorem Edge.ending {line r r' : Text} {comma : Bool} (edge : Edge line comma r)
    (same : chomp r = chomp r') : Ending line r' := by
  cases edge with
  | @code w wBlank code =>
      by_cases whole : w = r
      · subst whole
        exact Ending.blank (stripComment_of_append code) (lineBlank_of_chomp same wBlank)
      · have commented : stripComment (line ++ r) ≠ line ++ r := by
          rw [code]
          exact fun all => whole (List.append_cancel_left all)
        obtain ⟨c, cut⟩ := exists_comment none (line ++ r) commented
        rw [← stripComment, code, List.append_assoc] at cut
        obtain rfl : r = w ++ (lineComment ++ c) := List.append_cancel_left cut
        obtain ⟨c', cut'⟩ := exists_comment_congr same
        exact Ending.comment wBlank cut' code whole
  | comment empty _ ends =>
      subst empty
      have blank := lineBlank_of_chomp same (by simp)
      by_cases code : stripComment line = line
      · exact Ending.blank code blank
      · exact Ending.inside code ends blank

theorem stripComment_blank_comment {w : Text} (blank : ∀ a ∈ w, isLineBlank a = true)
    (c : Text) :
    stripComment (w ++ (lineComment ++ c)) = w := by
  have stops : stripComment (lineComment ++ c) = [] :=
    codeFrom_comment (by decide) (by simp [lineComment])
  rw [stripComment_append_plain (lineBlank_plain blank), stops, List.append_nil]

theorem not_infix_append_blank {t r : Text} (free : ¬ lineComment <:+: t)
    (blank : ∀ a ∈ r, isLineBlank a = true) : ¬ lineComment <:+: t ++ r := by
  cases r with
  | nil => rwa [List.append_nil]
  | cons a r =>
      have plain := lineBlank_plain blank
      have sep : a ∉ lineComment := by simp [lineComment, (plain a (by simp)).2]
      have rest : indexOf? lineComment r = none := by
        rw [indexOf?_eq_none_iff (by decide)]
        intro occurs
        exact (plain slash (by simp [occurs.subset (by decide : slash ∈ lineComment)])).2 rfl
      rw [← indexOf?_eq_none_iff (by decide)] at free ⊢
      rw [indexOf?_append_sep (by decide) sep, free, rest]
      rfl

section Entry

variable {entry : Text} (fit : Fit entry)
include fit

theorem start_append_fit (more : Text) : (entry ++ more).head? ≠ some slash := by
  rw [List.head?_append]
  cases start : entry.head? with
  | none => exact absurd (List.head?_eq_none_iff.mp start) fit.ne_nil
  | some a =>
      intro isSlash
      exact fit.start (start.trans isSlash)

theorem not_blanks_append_fit (t : Text) : ¬ Blanks (t ++ entry) := by
  obtain ⟨a, member, foreign⟩ := fit.inked
  exact fun blank => foreign _ blank (by simp [member])

theorem last_append_fit (t : Text) :
    ∀ a ∈ (t ++ entry).getLast?, isLineBlank a = false ∧ a ≠ comma := by
  intro a last
  have own : entry.getLast? = some a := by
    rw [List.getLast?_append] at last
    cases ends : entry.getLast? with
    | none => exact absurd (List.getLast?_eq_none_iff.mp ends) fit.ne_nil
    | some c =>
        rw [ends] at last
        exact last
  refine ⟨fit.ends a own, ?_⟩
  rintro rfl
  exact fit.commaFree (List.mem_of_getLast? own)

theorem Ending.behind {line r : Text} (ending : Ending line r) (free : ¬ lineComment <:+: entry) :
    Close (line ++ entry) r := by
  have inked := not_blanks_append_fit fit line
  have last := last_append_fit fit line
  cases ending with
  | blank code blank =>
      refine Close.code blank ?_ inked last
      rw [List.append_assoc]
      exact codeFrom_append_of_code none line (entry ++ r) code (start_append_fit fit r)
        (not_infix_append_blank free blank)
  | @comment w c rest wBlank cut code whole =>
      refine Close.code wBlank ?_ inked last
      have neutral : ∀ a ∈ w, isNeutral a = true := by
        intro a member
        have blank := wBlank a member
        simp only [isLineBlank, Bool.or_eq_true, beq_iff_eq] at blank
        rcases blank with (rfl | rfl) | rfl <;> decide
      have between : stripComment (line ++ (entry ++ r)) = line ++ codeFrom none (entry ++ r) :=
        codeFrom_insert none line rest w (entry ++ r) quoteState_none code whole neutral
          (start_append_fit fit r)
      rw [List.append_assoc, between, fit.closed, List.append_assoc, ← stripComment, cut,
        stripComment_blank_comment wBlank]
  | inside comment ends blank =>
      have same : stripComment (line ++ entry ++ r) = stripComment line := by
        rw [List.append_assoc]
        exact codeFrom_append_of_comment none line (entry ++ r) comment
      refine Close.comment (blanks_of_isLineBlank blank) ?_ ?_
      · rw [same]
        intro all
        have short : (stripComment line).length ≤ line.length :=
          (stripComment_isPrefix line).length_le
        have lengths := congrArg List.length all
        have positive := List.length_pos_iff.mpr fit.ne_nil
        simp only [List.length_append] at lengths
        omega
      · rw [lineCode, same]
        exact ends

theorem Ending.own {line r indent : Text} (ending : Ending line r) (indentBlank : Blanks indent) :
    Close (indent ++ entry) r := by
  have inked := not_blanks_append_fit fit indent
  have last := last_append_fit fit indent
  have code : stripComment (indent ++ entry ++ r) = indent ++ entry ++ stripComment r := by
    rw [List.append_assoc, stripComment_append_plain (plain_of_blanks indentBlank), stripComment,
      fit.closed, List.append_assoc]
    rfl
  have blankTail (blank : ∀ a ∈ r, isLineBlank a = true) : Close (indent ++ entry) r := by
    refine Close.code blank ?_ inked last
    rw [code, stripComment_of_plain (lineBlank_plain blank)]
  cases ending with
  | blank _ blank => exact blankTail blank
  | @comment w c rest wBlank cut _ _ =>
      refine Close.code wBlank ?_ inked last
      rw [code, cut, stripComment_blank_comment wBlank]
  | inside _ _ blank => exact blankTail blank

end Entry

/-! ## The way to the closing delimiter -/

theorem not_infix_of_chomp_eq {r r' : Text} (same : chomp r = chomp r')
    (free : ¬ lineComment <:+: r) :
    ¬ lineComment <:+: r' := by
  rw [← indexOf?_eq_none_iff (by decide), ← indexOf?_chomp (by decide) (by decide)] at free ⊢
  rwa [← same]

/-- What separates an insert point from the closing delimiter still does so
behind a line that ends with a new entry. -/
theorem Slack.kept {line written R R' : Text} {comma : Bool} (slack : Slack line comma R)
    (alike : AlikeFront R R') (inked : ¬ Blanks written)
    (close : ∀ r, (¬ lineComment <:+: R → ¬ lineComment <:+: r) → Ending line r →
      Close written r) :
    Kept written R' := by
  obtain ⟨above, above', v, whole, whole', vApart, likeAbove, cut, rfl⟩ := alike
  cases slack with
  | none =>
      obtain ⟨stackNil, rfl⟩ := List.append_eq_nil_iff.mp cut.symm
      cases above with
      | nil =>
          obtain rfl : above' = [] := by simpa using likeAbove.symm
          exact Kept.none inked
      | cons l above => simp at stackNil
  | @lines r v' rs wholeLines vApart' edge idle vBlank =>
      obtain ⟨rfl, rfl⟩ := stacked_append_inj wholeLines whole vApart' vApart cut
      obtain ⟨r', rs', rfl, lineSame, restSame⟩ := List.map_eq_cons_iff.mp likeAbove.symm
      have freeLine (free : ¬ lineComment <:+: stacked (r :: rs) ++ v') :
          ¬ lineComment <:+: r' := by
        refine not_infix_of_chomp_eq lineSame.symm fun occurs => free (occurs.trans ?_)
        rw [stacked_cons, List.append_assoc]
        exact (List.prefix_append r _).isInfix
      refine Kept.lines whole' vApart (close r' freeLine (edge.ending lineSame.symm)) ?_ vBlank
      intro l member
      obtain ⟨i, inside, rfl⟩ := List.getElem_of_mem member
      have sameLength : rs'.length = rs.length := by simpa using congrArg List.length restSame
      have inside' : i < rs.length := by omega
      have likeLine : chomp rs'[i] = chomp rs[i] := by
        have both := congrArg (·[i]?) restSame
        simpa [inside, inside'] using both
      exact (blanks_strip_congr likeLine.symm).mp (idle rs[i] (List.getElem_mem inside'))

end Buffer

/-! ## The entries of a continued list -/

def lastLine (t : Text) : Text := (splitAt lf t).getLastD []

theorem lastLine_stacked {above : List Text} {v : Text} (whole : ∀ l ∈ above, lf ∉ l)
    (vApart : lf ∉ v) :
    lastLine (stacked above ++ v) = v := by
  rw [lastLine, splitAt_stacked whole, splitAt_of_notMem vApart]
  simp

theorem splitEntries_stacked {above : List Text} {v : Text} (whole : ∀ l ∈ above, lf ∉ l)
    (vApart : lf ∉ v) :
    splitEntries (stacked above ++ v) [comma] =
      above.flatMap (lineEntries [comma]) ++ lineEntries [comma] v := by
  rw [splitEntries, splitAt_stacked whole, splitAt_of_notMem vApart]
  simp

theorem splitEntries_append_comma (t : Text) :
    splitEntries (t ++ [comma]) [comma] = splitEntries t [comma] := by
  obtain ⟨above, v, whole, vApart, rfl⟩ := exists_stacked t
  have longer : lf ∉ v ++ [comma] := by
    have distinct : lf ≠ comma := by decide
    simp [vApart, distinct]
  rw [List.append_assoc, splitEntries_stacked whole longer, splitEntries_stacked whole vApart,
    lineEntries_append_comma]

theorem lineEntries_append_blanks {r : Text} (blank : ∀ a ∈ r, Buffer.isLineBlank a = true)
    (line : Text) :
    (lineEntries [comma] (line ++ r)).map trim = (lineEntries [comma] line).map trim := by
  induction r using List.reverseRecOn with
  | nil => rw [List.append_nil]
  | append_singleton r c ih =>
      have word : Buffer.isLineBlank c = true := blank c (by simp)
      have isWord := Buffer.isBlank1_of_isLineBlank word
      rw [← List.append_assoc, lineEntries_append_blank isWord (trim_append_blank isWord)]
      exact ih fun a member => blank a (by simp [member])

theorem splitEntries_append_blanks {r : Text} (blank : ∀ a ∈ r, Buffer.isLineBlank a = true)
    (t : Text) :
    (splitEntries (t ++ r) [comma]).map trim = (splitEntries t [comma]).map trim := by
  obtain ⟨above, v, whole, vApart, rfl⟩ := exists_stacked t
  have notLf : lf ∉ r := fun member => absurd (blank lf member) (by decide)
  have lineApart : lf ∉ v ++ r := by simp [vApart, notLf]
  rw [List.append_assoc, splitEntries_stacked whole lineApart, splitEntries_stacked whole vApart,
    List.map_append, List.map_append, lineEntries_append_blanks blank]

/-- The entries of a text with one more written at its end. -/
theorem entries_continued {entry body indent W : Text} {comma : Bool} (fit : Fit entry)
    (indentBlank : Blanks indent) (indentLine : lf ∉ indent) (tail : Blanks W)
    (tailLine : lf ∉ W) :
    (splitEntries (body ++ entryText entry (splitEntries body [Text.comma]).length comma
      indent ++ W)
        [Text.comma]).map trim =
      (splitEntries body [Text.comma]).map trim ++
        if splitEntries body [Text.comma] ≠ [] ∨ takesEntry (lastLine body) = true then [entry]
        else [] := by
  by_cases none : splitEntries body [Text.comma] = []
  · obtain ⟨above, v, whole, vApart, rfl⟩ := exists_stacked body
    have lineApart : lf ∉ v ++ (entry ++ W) := by simp [vApart, fit.lfFree, tailLine]
    rw [splitEntries_stacked whole vApart, List.append_eq_nil_iff] at none
    rw [splitEntries_stacked whole vApart, lastLine_stacked whole vApart, none.1, none.2]
    simp only [List.append_nil, List.length_nil, entryText, if_true, List.append_assoc,
      List.map_nil, ne_eq, not_true_eq_false, false_or, List.nil_append]
    rw [splitEntries_stacked whole lineApart, none.1, List.nil_append,
      fit.lineEntries_append none.2 tail]
  · have some : (splitEntries body [Text.comma]).length ≠ 0 :=
      fun zero => none (List.length_eq_zero_iff.mp zero)
    have lineApart : lf ∉ indent ++ (entry ++ W) := by simp [indentLine, fit.lfFree, tailLine]
    have own := fit.lineEntries_own indentBlank tail
    rw [entryText, if_neg some, if_pos (Or.inl none)]
    cases comma with
    | true =>
        have spelled :
            body ++ ((if true = true then [] else [Text.comma]) ++ [lf] ++ indent ++ entry) ++ W =
            body ++ lf :: (indent ++ (entry ++ W)) := by
          simp
        rw [spelled, splitEntries_append_lf, List.map_append, splitEntries_of_notMem lineApart, own]
    | false =>
        have spelled :
            body ++ ((if false = true then [] else [Text.comma]) ++ [lf] ++ indent ++ entry) ++ W =
            body ++ [Text.comma] ++ lf :: (indent ++ (entry ++ W)) := by
          simp
        rw [spelled, splitEntries_append_lf, List.map_append, splitEntries_append_comma,
          splitEntries_of_notMem lineApart, own]

end ModuleDeps
