import ModuleDeps.Proofs.Buffer.Range

/-!
# What a batch does to a buffer

`apply_eq_ok` says everything an accepted batch can do: an empty one changes
nothing, any other one replaces the lines and raises the version.  A batch is
accepted as soon as its version fits and its insertions lie on lines of the
buffer.

An insertion at a place puts its text between the two parts of the text.  The
edited text is then cut into lines again, by which a line may lose a carriage
return at its end, so that the new lines are known up to such carriage returns.
-/

set_option autoImplicit false

namespace ModuleDeps

open Text

namespace Buffer

/-- At least one line, and no line feed within a line. -/
structure Whole (b : Buffer) : Prop where
  nonempty : b.lines ≠ []
  apart : ∀ l ∈ b.lines, lf ∉ l

theorem Whole.exists_text {b : Buffer} (whole : b.Whole) : ∃ t, b.lines = splitAt lf t := by
  obtain ⟨first, rest, cut⟩ := List.exists_cons_of_ne_nil whole.nonempty
  refine ⟨first ++ hung rest, ?_⟩
  rw [splitAt_hung (whole.apart first (by simp [cut])) fun l member =>
    whole.apart l (by simp [cut, member]), cut]

end Buffer

namespace Text

theorem dropCr_subset (t : Text) : dropCr t ⊆ t := by
  unfold dropCr
  split
  · exact List.dropLast_subset t
  · exact List.Subset.refl t

theorem cutLines_ne_nil (t : Text) : cutLines t ≠ [] := by
  simp [cutLines, splitAt_ne_nil]

theorem notMem_of_mem_cutLines {t l : Text} (member : l ∈ cutLines t) : lf ∉ l := by
  obtain ⟨piece, pieceMember, rfl⟩ := List.mem_map.mp member
  exact fun inLine => notMem_of_mem_splitAt pieceMember (dropCr_subset piece inLine)

theorem dropCr_concat (t : Text) : dropCr (t ++ [cr]) = t := by
  simp [dropCr]

theorem dropCr_of_getLast? {t : Text} (closed : t.getLast? ≠ some cr) : dropCr t = t :=
  if_neg closed

theorem cutLines_stacked {lines : List Text} {v : Text} (whole : ∀ l ∈ lines, lf ∉ l)
    (apart : lf ∉ v) :
    cutLines (stacked lines ++ v) = lines.map dropCr ++ [dropCr v] := by
  rw [cutLines, splitAt_stacked whole, splitAt_of_notMem apart, List.map_append]
  rfl

end Text

theorem Splice.run_at (s t u : Text) : Splice.run (s ++ u) ⟨s.length, t⟩ = s ++ (t ++ u) := by
  simp [Splice.run]

namespace Buffer

theorem whole_ofText (t : Text) : (ofText t).Whole :=
  ⟨cutLines_ne_nil t, fun _ member => notMem_of_mem_cutLines member⟩

/-! ## Acceptance -/

theorem splice_eq_ok {b : Buffer} {i : Insertion} (above : 0 ≤ i.place.line)
    (below : i.place.line ≤ b.lineCount) : ∃ s, b.splice i = .ok s := by
  have inRange : ¬ (i.place.line < 0 ∨ (b.lineCount : Int) < i.place.line) := by omega
  have nonneg : ¬ i.place.line < 0 := by omega
  rw [splice, if_neg inRange, offset, if_neg nonneg]
  exact ⟨_, rfl⟩

theorem mapM_splice_eq_ok {b : Buffer} : ∀ {inserts : List Insertion},
    (∀ i ∈ inserts, 0 ≤ i.place.line ∧ i.place.line ≤ b.lineCount) →
      ∃ splices, inserts.mapM b.splice = .ok splices := by
  intro inserts
  induction inserts with
  | nil => exact fun _ => ⟨[], rfl⟩
  | cons i inserts ih =>
      intro inRange
      obtain ⟨s, first⟩ := splice_eq_ok (inRange i (by simp)).1 (inRange i (by simp)).2
      obtain ⟨splices, rest⟩ := ih fun j member => inRange j (by simp [member])
      refine ⟨s :: splices, ?_⟩
      rw [List.mapM_cons, first, rest]
      rfl

def edited (b : Buffer) (splices : List Splice) : Buffer :=
  { b with
    lines := ((Splice.arrange splices).foldl Splice.run b.text).cutLines
    version := b.version + 1 }

theorem apply_of_fit {b : Buffer} {batch : Batch}
    (fits : batch.version = 0 ∨ batch.version = b.version) (nonempty : batch.inserts ≠ [])
    {splices : List Splice} (placed : batch.inserts.mapM b.splice = .ok splices) :
    b.apply batch = .ok (b.edited splices) := by
  have notStale : ¬ (batch.version ≠ 0 ∧ batch.version ≠ b.version) := by tauto
  rw [apply, if_neg notStale, if_neg (by simpa using nonempty), placed]
  rfl

theorem apply_eq_ok {b b' : Buffer} {batch : Batch} (accepted : b.apply batch = .ok b') :
    (batch.version = 0 ∨ batch.version = b.version) ∧
      (batch.inserts = [] ∧ b' = b ∨
        batch.inserts ≠ [] ∧ ∃ splices, batch.inserts.mapM b.splice = .ok splices ∧
          b' = b.edited splices) := by
  rw [apply] at accepted
  split at accepted
  · cases accepted
  · rename_i notStale
    refine ⟨by tauto, ?_⟩
    split at accepted
    · rename_i empty
      cases accepted
      exact Or.inl ⟨by simpa using empty, rfl⟩
    · rename_i nonempty
      cases placed : batch.inserts.mapM b.splice with
      | error e =>
          rw [placed] at accepted
          cases accepted
      | ok splices =>
          rw [placed] at accepted
          cases accepted
          exact Or.inr ⟨by simpa using nonempty, splices, rfl, rfl⟩

theorem whole_edited (b : Buffer) (splices : List Splice) : (b.edited splices).Whole :=
  ⟨cutLines_ne_nil _, fun _ member => notMem_of_mem_cutLines member⟩

theorem Whole.apply {b b' : Buffer} {batch : Batch} (whole : b.Whole)
    (accepted : b.apply batch = .ok b') : b'.Whole := by
  obtain ⟨-, ⟨-, rfl⟩ | ⟨-, splices, -, rfl⟩⟩ := apply_eq_ok accepted
  · exact whole
  · exact whole_edited b splices

/-! ## Insertions at places -/

theorem after_line_bounds {b : Buffer} {X Y : Text} (holds : b.lines = splitAt lf (X ++ Y)) :
    0 ≤ (Position.after X).line ∧ (Position.after X).line < b.lineCount := by
  obtain ⟨above, v, y, below, wholeAbove, vApart, -, -, rfl, rfl, cut⟩ := lines_around holds
  rw [Position.after_stacked wholeAbove vApart, lineCount, cut]
  simp only [List.length_append, List.length_cons]
  omega

theorem splice_after {b : Buffer} {X Y : Text} (holds : b.lines = splitAt lf (X ++ Y)) (t : Text) :
    b.splice ⟨Position.after X, t⟩ = .ok ⟨(b.withEnding X).length, b.withEnding t⟩ := by
  have bounds := after_line_bounds holds
  have inRange :
      ¬ ((Position.after X).line < 0 ∨ (b.lineCount : Int) < (Position.after X).line) := by
    omega
  simp only [splice, if_neg inRange, offset_after holds]

theorem apply_one {b : Buffer} {X Y : Text} (holds : b.lines = splitAt lf (X ++ Y)) {stamp : UInt64}
    (fits : stamp = 0 ∨ stamp = b.version) (t : Text) :
    b.apply ⟨stamp, [⟨Position.after X, t⟩]⟩ =
      .ok { b with
        lines := (b.withEnding (X ++ (t ++ Y))).cutLines
        version := b.version + 1 } := by
  have placed : [⟨Position.after X, t⟩].mapM b.splice =
      .ok [⟨(b.withEnding X).length, b.withEnding t⟩] := by
    rw [List.mapM_cons, splice_after holds]
    rfl
  rw [apply_of_fit fits (by simp) placed, edited, text_eq holds, withEnding_append]
  simp [Splice.arrange, Splice.place, Splice.run_at]

theorem apply_past {b : Buffer} {t : Text} (holds : b.lines = splitAt lf t) {stamp : UInt64}
    (fits : stamp = 0 ∨ stamp = b.version) (u : Text) :
    b.apply ⟨stamp, [⟨⟨b.lineCount, 0⟩, u⟩]⟩ =
      .ok { b with
        lines := (b.withEnding (t ++ u)).cutLines
        version := b.version + 1 } := by
  have inRange : ¬ ((b.lineCount : Int) < 0 ∨ (b.lineCount : Int) < b.lineCount) := by omega
  have placed : [⟨⟨b.lineCount, 0⟩, u⟩].mapM b.splice =
      .ok [⟨b.text.length, b.withEnding u⟩] := by
    rw [List.mapM_cons, splice, if_neg inRange, offset_past]
    rfl
  rw [apply_of_fit fits (by simp) placed, edited, withEnding_append, ← text_eq holds]
  simp [Splice.arrange, Splice.place, Splice.run]

theorem apply_two {b : Buffer} {X M Y : Text} (holds : b.lines = splitAt lf (X ++ (M ++ Y)))
    {stamp : UInt64} (fits : stamp = 0 ∨ stamp = b.version) (t u : Text) :
    b.apply ⟨stamp, [⟨Position.after X, t⟩, ⟨Position.after (X ++ M), u⟩]⟩ =
      .ok { b with
        lines := (b.withEnding (X ++ (t ++ (M ++ (u ++ Y))))).cutLines
        version := b.version + 1 } := by
  have holds' : b.lines = splitAt lf (X ++ M ++ Y) := by rw [holds, List.append_assoc]
  have placed : [⟨Position.after X, t⟩, ⟨Position.after (X ++ M), u⟩].mapM b.splice =
      .ok [⟨(b.withEnding X).length, b.withEnding t⟩,
        ⟨(b.withEnding (X ++ M)).length, b.withEnding u⟩] := by
    rw [List.mapM_cons, List.mapM_cons, splice_after holds, splice_after holds']
    rfl
  rw [apply_of_fit fits (by simp) placed, edited, text_eq holds']
  have inOrder : (b.withEnding X).length ≤ (b.withEnding (X ++ M)).length := by simp
  -- The later place comes first, so the offset of the earlier one stays valid.
  simp only [Splice.arrange, List.foldl_cons, List.foldl_nil, Splice.place, if_pos inOrder,
    withEnding_append b (X ++ M), Splice.run_at]
  simp only [withEnding_append, List.append_assoc, Splice.run_at]

/-! ## The lines of an edited text -/

/-- Cutting a text with the line ends of the buffer gives the lines of the text,
up to carriage returns at the ends of lines. -/
theorem cutLines_withEnding (b : Buffer) (t : Text) :
    (b.withEnding t).cutLines.map chomp = (splitAt lf t).map chomp := by
  have droppedCr (lines : List Text) : (lines.map dropCr).map chomp = lines.map chomp := by
    rw [List.map_map]
    exact List.map_congr_left fun l _ => chomp_dropCr l
  rw [cutLines, droppedCr, withEnding_eq]
  cases b.ending with
  | lf => rw [LineEnding.bytes, ← joinWith_splitAt, joinWith_splitAt_self]
  | crlf =>
      obtain ⟨above, v, wholeAbove, vApart, rfl⟩ := exists_stacked t
      have ended : ∀ l ∈ above.map (· ++ [cr]), lf ∉ l := by
        intro l member
        obtain ⟨line, lineMember, rfl⟩ := List.mem_map.mp member
        have distinct : lf ≠ cr := by decide
        simp [wholeAbove line lineMember, distinct]
      rw [LineEnding.bytes, replaceByte_stacked wholeAbove vApart, splitAt_stacked ended,
        splitAt_stacked wholeAbove, List.map_append, List.map_append, List.map_map]
      congr 1
      exact List.map_congr_left fun l _ => chomp_append_cr l

theorem cutLines_withEnding_of_plain (b : Buffer) {t : Text}
    (plain : ∀ l ∈ splitAt lf t, l.getLast? ≠ some cr) :
    (b.withEnding t).cutLines = splitAt lf t := by
  obtain ⟨above, v, wholeAbove, vApart, rfl⟩ := exists_stacked t
  have cut : splitAt lf (stacked above ++ v) = above ++ [v] := by
    rw [splitAt_stacked wholeAbove, splitAt_of_notMem vApart]
  rw [cut] at plain ⊢
  have last : dropCr v = v := dropCr_of_getLast? (plain v (by simp))
  rw [withEnding]
  cases b.ending with
  | lf =>
      have kept : above.map dropCr = above.map id :=
        List.map_congr_left fun l member => dropCr_of_getLast? (plain l (by simp [member]))
      rw [cutLines_stacked wholeAbove vApart, kept, List.map_id, last]
  | crlf =>
      have endedApart : ∀ l ∈ above.map (· ++ [cr]), lf ∉ l := by
        intro l member
        obtain ⟨line, lineMember, rfl⟩ := List.mem_map.mp member
        have distinct : lf ≠ cr := by decide
        simp [wholeAbove line lineMember, distinct]
      have dropped : (above.map (· ++ [cr])).map dropCr = above.map id := by
        rw [List.map_map]
        exact List.map_congr_left fun l _ => dropCr_concat l
      rw [replaceByte_stacked wholeAbove vApart, cutLines_stacked endedApart vApart, dropped,
        List.map_id, last]

end Buffer

end ModuleDeps
