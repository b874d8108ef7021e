import ModuleDeps.Buffer.Batch
import ModuleDeps.Buffer.Search
import ModuleDeps.Proofs.Text.Lines
import ModuleDeps.Proofs.Text.Occurrence

/-!
# Places of a buffer as beginnings of its text

A buffer whose lines are those of a text `X ++ Y` has a position between the
two parts: `Position.after X`.  Every position that the program computes is one
of these, so lines and columns can be left for beginnings of the text:
searching from `Position.after X` is searching `Y`, and the text between two
such positions is what one beginning lacks of the other.

The line feeds of the text stand for the line ends of the buffer, whichever
they are; `Buffer.withEnding` turns them into these.
-/

set_option autoImplicit false

namespace ModuleDeps

open Text

/-- The position behind the beginning `t` of a text. -/
def Position.after (t : Text) : Position :=
  ⟨((splitAt lf t).length - 1 : Nat), ((splitAt lf t).getLastD []).length⟩

theorem Position.after_stacked {above : List Text} {v : Text} (whole : ∀ l ∈ above, lf ∉ l)
    (vApart : lf ∉ v) : Position.after (stacked above ++ v) = ⟨above.length, v.length⟩ := by
  rw [Position.after, splitAt_stacked whole, splitAt_of_notMem vApart]
  simp

theorem Position.after_append {t more : Text} (apart : lf ∉ more) :
    Position.after (t ++ more) =
      ⟨(Position.after t).line, (Position.after t).column + more.length⟩ := by
  obtain ⟨above, v, whole, vApart, rfl⟩ := exists_stacked t
  have longer : lf ∉ v ++ more := by simp [vApart, apart]
  rw [List.append_assoc, Position.after_stacked whole longer, Position.after_stacked whole vApart]
  simp

theorem Position.after_concat {c : UInt8} (notLf : c ≠ lf) (t : Text) :
    Position.after (t ++ [c]) = ⟨(Position.after t).line, (Position.after t).column + 1⟩ := by
  rw [Position.after_append (by simp [Ne.symm notLf])]
  rfl

theorem Position.after_nil : Position.after [] = ⟨0, 0⟩ := rfl

theorem Position.not_after_append_before (t more : Text) :
    ¬ (Position.after (t ++ more)).Before (Position.after t) := by
  obtain ⟨above, v, whole, vApart, rfl⟩ := exists_stacked t
  obtain ⟨y, below, yApart, wholeBelow, rfl⟩ := exists_hung more
  rw [Position.after_stacked whole vApart, Position.after,
    splitAt_around whole vApart yApart wholeBelow]
  intro before
  simp only [Position.Before, List.length_append, List.length_cons] at before
  rcases before with lineBefore | ⟨lineSame, columnBefore⟩
  · omega
  · have none : below = [] := List.length_eq_zero_iff.mp (by omega)
    subst none
    simp [List.getLastD_eq_getLast?, List.getLast?_append] at columnBefore
    omega

theorem Position.after_before_append {t more : Text} (nonempty : more ≠ []) :
    (Position.after t).Before (Position.after (t ++ more)) := by
  obtain ⟨above, v, whole, vApart, rfl⟩ := exists_stacked t
  obtain ⟨y, below, yApart, wholeBelow, rfl⟩ := exists_hung more
  rw [Position.after_stacked whole vApart, Position.after,
    splitAt_around whole vApart yApart wholeBelow]
  cases below with
  | nil =>
      have yNonempty : 0 < y.length := List.length_pos_iff.mpr (by simpa using nonempty)
      right
      simp [List.getLastD_eq_getLast?, List.getLast?_append]
      omega
  | cons l below =>
      left
      simp only [List.length_append, List.length_cons]
      omega

theorem Position.eq_of_after_eq {X Y X' Y' : Text} (cut : X ++ Y = X' ++ Y')
    (same : Position.after X = Position.after X') : X = X' := by
  have short {t more : Text} (ends : Position.after t = Position.after (t ++ more)) :
      more = [] := by
    by_contra nonempty
    have before := Position.after_before_append (t := t) nonempty
    rw [← ends] at before
    simp [Position.Before] at before
  rcases List.append_eq_append_iff.mp cut with ⟨more, rfl, -⟩ | ⟨more, rfl, -⟩
  · rw [short same, List.append_nil]
  · rw [short same.symm, List.append_nil]

namespace Buffer

/-! ## Lines -/

/-- The lines above, the line itself in two parts and the lines below a place. -/
theorem lines_around {b : Buffer} {X Y : Text} (holds : b.lines = splitAt lf (X ++ Y)) :
    ∃ above v y below, (∀ l ∈ above, lf ∉ l) ∧ lf ∉ v ∧ lf ∉ y ∧
      (∀ l ∈ below, lf ∉ l) ∧
      X = stacked above ++ v ∧ Y = y ++ hung below ∧ b.lines = above ++ (v ++ y) :: below := by
  obtain ⟨above, v, wholeAbove, vApart, rfl⟩ := exists_stacked X
  obtain ⟨y, below, yApart, wholeBelow, rfl⟩ := exists_hung Y
  rw [splitAt_around wholeAbove vApart yApart wholeBelow] at holds
  exact ⟨above, v, y, below, wholeAbove, vApart, yApart, wholeBelow, rfl, rfl, holds⟩

theorem line_natCast (b : Buffer) (n : Nat) : b.line (n : Int) = b.lines.getD n [] := by
  have nonneg : ¬ (n : Int) < 0 := by omega
  simp [line, nonneg]

theorem line_at {b : Buffer} {above below : List Text} {l : Text}
    (cut : b.lines = above ++ l :: below) : b.line (above.length : Int) = l := by
  simp [line_natCast, cut]

theorem line_above {b : Buffer} {above below : List Text} {l : Text}
    (cut : b.lines = above ++ l :: below) {n : Nat} (bound : n < above.length) :
    b.line (n : Int) = above.getD n [] := by
  simp [line_natCast, cut, List.getD_eq_getElem?_getD, List.getElem?_append_left bound]

/-! ## Searching -/

section Search

variable {needle : Text}

theorem searchLines_eq (nonempty : needle ≠ []) (apart : lf ∉ needle) :
    ∀ (below above : List Text) (v y : Text), (∀ l ∈ above, lf ∉ l) → lf ∉ v →
      lf ∉ y →
      (∀ l ∈ below, lf ∉ l) →
      searchLines needle ((v ++ y) :: below) above.length v.length =
        .ok ((indexOf? needle (y ++ hung below)).map fun i =>
          Position.after (stacked above ++ v ++ (y ++ hung below).take i)) := by
  intro below
  -- The induction is on the lines below; a line that was searched joins those above.
  induction below with
  | nil =>
      intro above v y wholeAbove vApart yApart _
      have inside : ¬ ((v ++ y).length : Int) < v.length := by
        rw [List.length_append]
        omega
      have nonneg : ¬ (v.length : Int) < 0 := by omega
      simp only [searchLines, inside, nonneg, if_false, Int.toNat_natCast, List.drop_left, hung_nil,
        List.append_nil]
      cases found : indexOf? needle y with
      | none => rfl
      | some i =>
          have leadApart : lf ∉ y.take i := fun member => yApart (List.take_subset _ _ member)
          obtain ⟨lead, tail, cut, leadLength, -⟩ := indexOf?_spec found
          rw [Option.map_some, Position.after_append leadApart,
            Position.after_stacked wholeAbove vApart]
          simp [cut, ← leadLength]
  | cons l below ih =>
      intro above v y wholeAbove vApart yApart wholeBelow
      have inside : ¬ ((v ++ y).length : Int) < v.length := by
        rw [List.length_append]
        omega
      have nonneg : ¬ (v.length : Int) < 0 := by omega
      rw [searchLines, if_neg inside, if_neg nonneg, Int.toNat_natCast, List.drop_left, hung_cons,
        indexOf?_append_sep nonempty apart]
      cases found : indexOf? needle y with
      | some i =>
          have leadApart : lf ∉ y.take i := fun member => yApart (List.take_subset _ _ member)
          obtain ⟨lead, tail, cut, leadLength, -⟩ := indexOf?_spec found
          have inLine : (y ++ lf :: (l ++ hung below)).take i = y.take i := by
            rw [List.take_append_of_le_length]
            simp [cut, ← leadLength]
          simp only [Option.or, Option.map_some, inLine]
          rw [Position.after_append leadApart, Position.after_stacked wholeAbove vApart]
          simp [cut, ← leadLength]
      | none =>
          have lineWhole : ∀ x ∈ above ++ [v ++ y], lf ∉ x := by
            intro x member
            rcases List.mem_append.mp member with member | member
            · exact wholeAbove x member
            · simp [List.mem_singleton.mp member, vApart, yApart]
          have next := ih (above ++ [v ++ y]) [] l lineWhole (by simp) (wholeBelow l (by simp))
            fun x member => wholeBelow x (by simp [member])
          rw [List.nil_append, List.length_append, List.length_singleton] at next
          rw [Option.none_or, Option.map_map]
          refine next.trans ?_
          congr 2
          funext i
          have past : (y ++ lf :: (l ++ hung below)).take (i + (y.length + 1)) =
              y ++ lf :: (l ++ hung below).take i := by
            rw [Nat.add_comm, Nat.add_assoc, List.take_length_add_append, Nat.add_comm 1 i,
              List.take_succ_cons]
          simp [past]

end Search

theorem searchLines_cases (needle : Text) (lines : List Text) (n : Nat) :
    (∀ l ∈ lines, l.contains needle = false) ∧ searchLines needle lines n 0 = .ok none ∨
      (∃ l ∈ lines, l.contains needle = true) ∧
      ∃ p, searchLines needle lines n 0 = .ok (some p) := by
  induction lines generalizing n with
  | nil => exact Or.inl ⟨by simp, rfl⟩
  | cons l rest ih =>
      have inside : ¬ (l.length : Int) < 0 := by omega
      rw [searchLines, if_neg inside, if_neg (by simp), Int.toNat_zero, List.drop_zero]
      cases found : indexOf? needle l with
      | some i => exact Or.inr ⟨⟨l, by simp, by simp [contains, found]⟩, _, rfl⟩
      | none =>
          have notHere : l.contains needle = false := by simp [contains, found]
          rcases ih (n + 1) with ⟨notBelow, stop⟩ | ⟨⟨line, member, occurs⟩, p, stop⟩
          · exact Or.inl ⟨by simpa [notHere] using notBelow, stop⟩
          · exact Or.inr ⟨⟨line, by simp [member], occurs⟩, p, stop⟩

theorem search_after {b : Buffer} {X Y needle : Text} (holds : b.lines = splitAt lf (X ++ Y))
    (nonempty : needle ≠ []) (apart : lf ∉ needle) :
    b.search needle (Position.after X) =
      .ok ((indexOf? needle Y).map fun i => Position.after (X ++ Y.take i)) := by
  obtain ⟨above, v, y, below, wholeAbove, vApart, yApart, wholeBelow, rfl, rfl, cut⟩ :=
    lines_around holds
  rw [Position.after_stacked wholeAbove vApart, search, if_pos (by simp), cut]
  have rest : (above ++ (v ++ y) :: below).drop (above.length : Int).toNat = (v ++ y) :: below := by
    simp
  rw [rest, Int.toNat_natCast]
  exact searchLines_eq nonempty apart below above v y wholeAbove vApart yApart wholeBelow

end Buffer

end ModuleDeps
