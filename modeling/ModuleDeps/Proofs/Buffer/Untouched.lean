import ModuleDeps.Proofs.Buffer.Simultaneous

/-!
# Lines without insertions

Every line of a text is followed by the line end of its buffer, the last one
apart.  A line that holds no insertion of a batch stands in the edited text as it
is, with that line end behind it (`exists_untouched`).
-/

set_option autoImplicit false

namespace ModuleDeps

open Text

namespace Text

/-- The part of a woven text that comes with the bytes of `t`, from byte `k` on. -/
def wovenLead (extra : Nat → Text) : Nat → Text → Text
  | _, [] => []
  | k, b :: rest => extra k ++ b :: wovenLead extra (k + 1) rest

theorem weave_append (extra : Nat → Text) (k : Nat) (s t : Text) :
    weave extra k (s ++ t) = wovenLead extra k s ++ weave extra (k + s.length) t := by
  induction s generalizing k with
  | nil => rfl
  | cons b s ih =>
      rw [List.cons_append, weave, ih, wovenLead, List.length_cons, List.append_assoc,
        List.cons_append, Nat.add_assoc, Nat.add_comm 1]

theorem wovenLead_concat (extra : Nat → Text) (k : Nat) (t : Text) (c : UInt8) :
    ∃ lead, wovenLead extra k (t ++ [c]) = lead ++ [c] := by
  induction t generalizing k with
  | nil => exact ⟨extra k, rfl⟩
  | cons b t ih =>
      obtain ⟨lead, eq⟩ := ih (k + 1)
      exact ⟨extra k ++ b :: lead, by rw [List.cons_append, wovenLead, eq, List.append_assoc,
        List.cons_append]⟩

end Text

namespace Buffer

variable {b : Buffer}

def rows (b : Buffer) (lines : List Text) : Text := lines.flatMap (· ++ b.ending.bytes)

@[simp] theorem rows_nil : b.rows [] = [] := rfl

theorem rows_append (lines more : List Text) :
    b.rows (lines ++ more) = b.rows lines ++ b.rows more :=
  List.flatMap_append

theorem rows_cons (l : Text) (lines : List Text) :
    b.rows (l :: lines) = l ++ b.ending.bytes ++ b.rows lines :=
  List.flatMap_cons

theorem joinWith_rows (above : List Text) {below : List Text} (more : below ≠ []) :
    joinWith b.ending.bytes (above ++ below) = b.rows above ++ joinWith b.ending.bytes below := by
  induction above with
  | nil => rfl
  | cons l above ih =>
      obtain ⟨next, rest, cut⟩ :=
        List.exists_cons_of_ne_nil (List.append_ne_nil_of_right_ne_nil above more)
      rw [List.cons_append, rows_cons, List.append_assoc, ← ih, cut, joinWith,
        List.intercalate_cons_cons]
      rfl

theorem length_rows_mono (b : Buffer) {n m : Nat} (le : n ≤ m) :
    (b.rows (b.lines.take n)).length ≤ (b.rows (b.lines.take m)).length := by
  obtain ⟨rest, cut⟩ : b.lines.take n <+: b.lines.take m := List.take_prefix_take_left le
  rw [← cut, rows_append, List.length_append]
  omega

theorem length_front_bounds {p : Position} {n : Nat} (atLine : p.line = n)
    (inside : n < b.lineCount) :
    (b.rows (b.lines.take n)).length ≤ (b.front p).length ∧
      (b.front p).length < (b.rows (b.lines.take (n + 1))).length := by
  have bound : n < b.lines.length := inside
  have line : b.line p.line = b.lines[n] := by
    rw [atLine, line_natCast, List.getD_eq_getElem _ _ bound]
  have front : b.front p = b.rows (b.lines.take n) ++ (b.lines[n]).take p.column.toNat := by
    rw [Buffer.front, if_pos (by omega), atLine, Int.toNat_natCast, ← atLine, line,
      joinWith_rows _ (by simp)]
    simp [joinWith]
  have next : b.rows (b.lines.take (n + 1)) =
      b.rows (b.lines.take n) ++ (b.lines[n] ++ b.ending.bytes) := by
    rw [← List.take_append_getElem bound, rows_append, rows_cons, rows_nil, List.append_nil]
  have ended : 0 < b.ending.bytes.length := by cases b.ending <;> decide
  rw [front, next, List.length_append, List.length_append, List.length_append, List.length_take]
  omega

section Line

variable {batch : Batch} {above below : List Text} {l : Text} (cut : b.lines = above ++ l :: below)
  (more : below ≠ [])
include cut

theorem take_above : b.lines.take above.length = above := by
  rw [cut, List.take_left]

theorem take_through : b.lines.take (above.length + 1) = above ++ [l] := by
  rw [cut, List.take_length_add_append, List.take_succ_cons, List.take_zero]

include more

theorem text_around :
    b.text = b.rows above ++ ((l ++ b.ending.bytes) ++ joinWith b.ending.bytes below) := by
  rw [text, cut, List.append_cons, joinWith_rows _ more, rows_append, rows_cons, rows_nil,
    List.append_nil, List.append_assoc]

/-- No insertion comes into a row unless it is made on its line. -/
theorem insertedAt_row (taken : ¬ b.Refuses batch)
    (untouched : ∀ i ∈ batch.inserts, i.place.line ≠ above.length) {k : Nat}
    (behind : (b.rows above).length ≤ k)
    (ahead : k < (b.rows above).length + (l ++ b.ending.bytes).length) :
    b.insertedAt batch k = [] := by
  have start := take_above cut
  have stop : b.rows (b.lines.take (above.length + 1)) = b.rows above ++ (l ++ b.ending.bytes) := by
    rw [take_through cut, rows_append, rows_cons, rows_nil, List.append_nil]
  have bound := congrArg List.length stop
  rw [List.length_append] at bound
  have elsewhere : ∀ i ∈ batch.inserts, (b.front i.place).length ≠ k := by
    intro i member
    obtain ⟨low, high⟩ := (fits_of_not_refuses taken).2 i member
    have other := untouched i member
    obtain ⟨n, atLine⟩ : ∃ n : Nat, i.place.line = n := ⟨i.place.line.toNat, by omega⟩
    rcases Nat.lt_or_gt_of_ne (show n ≠ above.length by omega) with before | later
    · have inside : n < b.lineCount := by
        rw [lineCount, cut, List.length_append, List.length_cons]
        omega
      have upper := (length_front_bounds atLine inside).2
      have mono := length_rows_mono b (show n + 1 ≤ above.length by omega)
      rw [start] at mono
      omega
    · by_cases inside : n < b.lineCount
      · have lower := (length_front_bounds atLine inside).1
        have mono := length_rows_mono b (show above.length + 1 ≤ n by omega)
        omega
      · have whole : b.front i.place = b.text := by rw [front, if_neg (by omega)]
        have size := congrArg List.length (text_around cut more)
        rw [List.length_append, List.length_append] at size
        rw [whole]
        omega
  have none : batch.inserts.filter (fun i => (b.front i.place).length == k) = [] :=
    List.filter_eq_nil_iff.mpr fun i member => by simpa using elsewhere i member
  rw [insertedAt, none, List.flatMap_nil]

/-- A row that no insertion comes into stands in the combined text, behind
nothing or behind a line feed. -/
theorem exists_combined_row (taken : ¬ b.Refuses batch)
    (untouched : ∀ i ∈ batch.inserts, i.place.line ≠ above.length) :
    ∃ lead rest, b.combined batch = lead ++ ((l ++ b.ending.bytes) ++ rest) ∧
      (lead = [] ∨ ∃ front, lead = front ++ [lf]) := by
  have skipped :=
    weave_skip (k := (b.rows above).length)
      (t := (l ++ b.ending.bytes) ++ joinWith b.ending.bytes below)
    (n := (l ++ b.ending.bytes).length) (by simp)
    fun k behind ahead => insertedAt_row cut more taken untouched behind ahead
  rw [List.take_left, List.drop_left] at skipped
  rw [combined, text_around cut more, weave_append, Nat.zero_add, skipped]
  refine ⟨_, _, rfl, ?_⟩
  rcases List.eq_nil_or_concat' above with rfl | ⟨init, last, rfl⟩
  · exact .inl rfl
  · right
    obtain ⟨t, ended⟩ : ∃ t, b.rows (init ++ [last]) = t ++ [lf] := by
      rw [rows_append, rows_cons, rows_nil, List.append_nil]
      cases b.ending with
      | lf => exact ⟨b.rows init ++ last, by simp [LineEnding.bytes]⟩
      | crlf => exact ⟨b.rows init ++ (last ++ [cr]), by simp [LineEnding.bytes]⟩
    rw [ended]
    exact wovenLead_concat _ 0 t lf

/-- A line without insertions is a line of the edited text, and not the last one. -/
theorem exists_untouched (apart : lf ∉ l) (closed : b.ending = .lf → l.getLast? ≠ some cr)
    (taken : ¬ b.Refuses batch)
    (untouched : ∀ i ∈ batch.inserts, i.place.line ≠ above.length) :
    ∃ before behind, behind ≠ [] ∧ (b.combined batch).cutLines = before ++ l :: behind := by
  obtain ⟨lead, rest, combined, ended⟩ := exists_combined_row cut more taken untouched
  obtain ⟨e, ending, piece, alone⟩ : ∃ e, b.ending.bytes = e ++ [lf] ∧
    dropCr (l ++ e) = l ∧ lf ∉ l ++ e := by
    cases kind : b.ending with
    | lf =>
        exact ⟨[], rfl, by rw [List.append_nil, dropCr_of_getLast? (closed kind)],
          by simpa using apart⟩
    | crlf =>
        exact ⟨[cr], rfl, by simp [dropCr], by simpa [show lf ≠ cr by decide] using apart⟩
  have row : splitAt lf ((l ++ b.ending.bytes) ++ rest) = (l ++ e) :: splitAt lf rest := by
    rw [ending, ← List.append_assoc, List.append_assoc, List.singleton_append, splitAt_append_sep,
      splitAt_of_notMem alone, List.singleton_append]
  have some : (splitAt lf rest).map dropCr ≠ [] := by simpa using splitAt_ne_nil lf rest
  rw [combined, cutLines]
  rcases ended with rfl | ⟨front, rfl⟩
  · refine ⟨[], _, some, ?_⟩
    rw [List.nil_append, row, List.map_cons, piece]
    rfl
  · refine ⟨(splitAt lf front).map dropCr, _, some, ?_⟩
    rw [List.append_assoc, List.singleton_append, splitAt_append_sep, row, List.map_append,
      List.map_cons, piece]

end Line

end Buffer

end ModuleDeps
