import Mathlib.Data.List.GetD
import ModuleDeps.Block.InsertPoint
import ModuleDeps.Proofs.Block.Comment

/-!
# The code of a line that is cut

Reading a line, a byte is judged by what stands in front of it and, when it is a
slash, by the byte behind it.  So a cut line has the code of the whole line, as
far as the cut leaves it, unless the cut goes between the two slashes that a
comment starts with: there the first slash is left over as code
(`stripComment_take`).  At any other byte it makes no difference whether a line
is cut before its comment is dropped or afterwards, and with that the comma in
front of a delimiter is the one in the code (`stripComment_commutes_cut`).
-/

set_option autoImplicit false

namespace ModuleDeps

open Text

/-! ## Behind the code -/

/-- Where a comment starts no quote is open: text that stands there instead is
read on its own. -/
theorem codeFrom_code_append {q : Option UInt8} {t : Text} (comment : codeFrom q t ≠ t)
    (more : Text) :
    codeFrom q (codeFrom q t ++ more) = codeFrom q t ++ codeFrom none more := by
  obtain ⟨c, passes, -⟩ := exists_passes comment
  exact passes.reads more

/-! ## Cut lines -/

/-- The cut goes between the two slashes that the comment of the line starts
with. -/
def CutsSlashes (line : Text) (column : Nat) : Prop :=
  stripComment line ≠ line ∧ column = (stripComment line).length + 1

instance (line : Text) (column : Nat) : Decidable (CutsSlashes line column) :=
  inferInstanceAs (Decidable (_ ∧ _))

theorem CutsSlashes.getElem? {l : Text} {column : Nat} (cuts : CutsSlashes l column) :
    l[column]? = some slash := by
  obtain ⟨comment, rfl⟩ := cuts
  obtain ⟨c, cut⟩ := exists_comment none l comment
  calc l[(stripComment l).length + 1]?
      = (stripComment l ++ slash :: slash :: c)[(stripComment l).length + 1]? :=
        congrArg (·[_]?) cut
    _ = some slash := by simp

/-- Behind the code of a line come the bytes of its comment. -/
theorem exists_take_behind {line : Text} (comment : stripComment line ≠ line) :
    ∃ c, ∀ n, line.take ((stripComment line).length + n) =
      stripComment line ++ (slash :: slash :: c).take n := by
  obtain ⟨c, cut⟩ := exists_comment none line comment
  refine ⟨c, fun n => ?_⟩
  calc line.take ((stripComment line).length + n)
      = (stripComment line ++ slash :: slash :: c).take ((stripComment line).length + n) :=
        congrArg (List.take _) cut
    _ = stripComment line ++ (slash :: slash :: c).take n := List.take_length_add_append n

theorem take_stripComment (line : Text) (column : Nat) :
    (stripComment line).take column = line.take (min column (stripComment line).length) := by
  rw [← List.take_take, ← List.prefix_iff_eq_take.mp (stripComment_isPrefix line)]

/-- The first slash of a comment, without the second, is code. -/
theorem CutsSlashes.stripComment_take {line : Text} {column : Nat}
    (cuts : CutsSlashes line column) :
    stripComment (line.take column) = line.take column := by
  obtain ⟨comment, rfl⟩ := cuts
  obtain ⟨c, behind⟩ := exists_take_behind comment
  rw [behind]
  exact codeFrom_code_append comment [slash]

/-- Everywhere else a line can be cut before or after its comment is dropped. -/
theorem stripComment_take_of_not_cutsSlashes {line : Text} {column : Nat}
    (spared : ¬ CutsSlashes line column) :
    stripComment (line.take column) = (stripComment line).take column := by
  have code : stripComment ((stripComment line).take column) = (stripComment line).take column :=
    stripComment_of_isPrefix (List.take_prefix column _)
  by_cases comment : stripComment line = line
  · rwa [comment] at code ⊢
  · rcases Nat.lt_or_ge (stripComment line).length column with past | within
    · -- Behind the code the cut leaves both slashes, so that the comment still starts.
      obtain ⟨n, rfl⟩ : ∃ n, column = (stripComment line).length + (n + 2) := by
        have notBetween : column ≠ (stripComment line).length + 1 :=
          fun same => spared ⟨comment, same⟩
        exact ⟨column - (stripComment line).length - 2, by omega⟩
      obtain ⟨c, behind⟩ := exists_take_behind comment
      calc stripComment (line.take ((stripComment line).length + (n + 2)))
          = stripComment (stripComment line ++ slash :: slash :: c.take n) :=
          congrArg stripComment (behind (n + 2))
        _ = stripComment line := (codeFrom_code_append comment _).trans (List.append_nil _)
        _ = (stripComment line).take ((stripComment line).length + (n + 2)) :=
          (List.take_of_length_le (by omega)).symm
    · rwa [take_stripComment, Nat.min_eq_left within] at code ⊢

theorem stripComment_take (line : Text) (column : Nat) :
    stripComment (line.take column) =
      if CutsSlashes line column then line.take column
      else line.take (min column (stripComment line).length) := by
  split
  · rename_i cuts
    exact cuts.stripComment_take
  · rename_i spared
    rw [stripComment_take_of_not_cutsSlashes spared, take_stripComment]

/-! ## The comma in front of a delimiter -/

namespace Buffer

def withoutComments (b : Buffer) : Buffer := { b with lines := b.lines.map stripComment }

variable (b : Buffer)

theorem line_withoutComments (i : Int) : b.withoutComments.line i = stripComment (b.line i) := by
  rw [line, line]
  split
  · rfl
  · change (b.lines.map stripComment).getD i.toNat (stripComment []) = _
    exact List.getD_map _ _ stripComment

theorem commaAbove_withoutComments (n : Nat) : b.withoutComments.commaAbove n = b.commaAbove n := by
  induction n with
  | zero => rfl
  | succ n ih => rw [commaAbove, commaAbove, line_withoutComments, stripComment_idem, ih]

variable {b} {p : Position}

theorem stripComment_lineBefore (apart : (b.line p.line)[p.column.toNat]? ≠ some slash) :
    stripComment (b.lineBefore p) = cutAt (stripComment (b.line p.line)) p.column :=
  stripComment_take_of_not_cutsSlashes fun cuts => apart cuts.getElem?

theorem resolveComma_withoutComments (apart : (b.line p.line)[p.column.toNat]? ≠ some slash)
    (state : CommaState) : b.withoutComments.resolveComma p state = b.resolveComma p state := by
  have sameCode : stripComment (b.withoutComments.lineBefore p) =
      stripComment (b.lineBefore p) := by
    rw [stripComment_lineBefore apart, lineBefore, line_withoutComments]
    exact stripComment_of_isPrefix (List.take_prefix _ _)
  cases state with
  | present => rfl
  | absent => rfl
  | unknown => rw [resolveComma, resolveComma, sameCode, commaAbove_withoutComments]

end Buffer

/-- Dropping the comment of a line and cutting the line can be done in either
order, but for a cut between the two slashes, which leaves the first of them as
code.  What is left is a beginning of the line and holds no further comment; so
in front of a delimiter, which is no slash, a cut line has the code of the whole
line up to there, and the comma found is that of the text without comments. -/
theorem stripComment_commutes_cut (line : Text) (column : Nat) :
    stripComment (line.take column) =
        (if CutsSlashes line column then line.take column
        else line.take (min column (stripComment line).length)) ∧
      stripComment line <+: line ∧
      stripComment (stripComment line) = stripComment line ∧
      ∀ (b : Buffer) (p : Position) (state : CommaState),
        (b.line p.line)[p.column.toNat]? ≠ some slash →
        stripComment (b.lineBefore p) = cutAt (stripComment (b.line p.line)) p.column ∧
          b.resolveComma p state = b.withoutComments.resolveComma p state := by
  refine ⟨stripComment_take line column, stripComment_isPrefix line, stripComment_idem line, ?_⟩
  intro b p state apart
  exact ⟨Buffer.stripComment_lineBefore apart,
    (Buffer.resolveComma_withoutComments apart state).symm⟩

def bracketLine : Text := utf8 "  'x//\\'y', // [last]"

/-- A cut behind the backslash or between the slashes of the comment leaves
code, and in front of the bracket the entry has its comma. -/
theorem stripComment_commutes_cut_bracket :
    stripComment (bracketLine.take 7) = bracketLine.take 7 ∧
      stripComment (bracketLine.take 13) = utf8 "  'x//\\'y', /" ∧
      (Buffer.ofText bracketLine).resolveComma ⟨0, 20⟩ .unknown = true := by
  obtain ⟨escape, -, -, resolved⟩ := stripComment_commutes_cut bracketLine 7
  obtain ⟨between, -, -, -⟩ := stripComment_commutes_cut bracketLine 13
  obtain ⟨-, comma⟩ :=
    resolved (Buffer.ofText bracketLine) ⟨0, 20⟩ .unknown (by decide +kernel)
  exact ⟨escape.trans (by decide +kernel), between.trans (by decide +kernel),
    comma.trans (by decide +kernel)⟩

end ModuleDeps
