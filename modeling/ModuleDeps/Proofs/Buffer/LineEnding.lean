import ModuleDeps.Proofs.Buffer.Simultaneous

/-!
# Buffers with line ends of one and of two bytes

A text without carriage returns gives the same lines when each of its line feeds
is made a CRLF; the two buffers differ in their line end alone.  A batch without
carriage returns does the same to both: each insertion is moved back by the
carriage returns in front of it, and so the combined text of one is that of the
other with its line feeds made CRLFs (`combined_crlfEnded`).
-/

set_option autoImplicit false

namespace ModuleDeps

open Text

namespace Text

/-- A text with every line feed made a CRLF. -/
def crlf (t : Text) : Text := t.replaceByte lf [cr, lf]

@[simp] theorem crlf_nil : crlf [] = [] := rfl

@[simp] theorem crlf_append (s t : Text) : crlf (s ++ t) = crlf s ++ crlf t := by
  simp [crlf, replaceByte]

theorem crlf_lf (t : Text) : crlf (lf :: t) = cr :: lf :: crlf t := by
  simp [crlf, replaceByte]

theorem crlf_cons {b : UInt8} (notLf : b ≠ lf) (t : Text) : crlf (b :: t) = b :: crlf t := by
  simp [crlf, replaceByte, notLf]

theorem length_crlf_take_lt {t : Text} {j k : Nat} (less : j < k) (inside : k ≤ t.length) :
    (crlf (t.take j)).length < (crlf (t.take k)).length := by
  have cut : t.take k = t.take j ++ (t.take k).drop j := by
    conv_lhs =>
      rw [← List.take_append_drop j (t.take k), List.take_take, min_eq_left (Nat.le_of_lt less)]
  have more : 0 < ((t.take k).drop j).length := by
    rw [List.length_drop, List.length_take_of_le inside]
    omega
  obtain ⟨b, rest, next⟩ := List.exists_cons_of_length_pos more
  rw [cut, crlf_append, List.length_append, next]
  by_cases isLf : b = lf
  · simp [isLf, crlf_lf]
  · simp [crlf_cons isLf]

/-- A CRLF text is as much longer at two different places as it is at one only if
they are the same. -/
theorem length_crlf_take_inj {t : Text} {j k : Nat} (jInside : j ≤ t.length)
    (kInside : k ≤ t.length) :
    (crlf (t.take j)).length = (crlf (t.take k)).length ↔ j = k := by
  constructor
  · intro same
    rcases Nat.lt_trichotomy j k with less | same' | less
    · have := length_crlf_take_lt less kInside
      omega
    · exact same'
    · have := length_crlf_take_lt less jInside
      omega
  · rintro rfl
    rfl

/-- Weaving CRLF texts into a CRLF text, none of them between the two bytes of a
line end. -/
theorem weave_crlf {extra extra' : Nat → Text} {t : Text} {k k' : Nat}
    (moved : ∀ j, j ≤ t.length →
      extra' (k' + (crlf (t.take j)).length) = crlf (extra (k + j)))
    (seams : ∀ i, extra' (k' + i) ≠ [] → (crlf t)[i]? ≠ some lf) :
    weave extra' k' (crlf t) = crlf (weave extra k t) := by
  induction t generalizing k k' with
  | nil => simpa [weave] using moved 0 (Nat.zero_le 0)
  | cons b rest ih =>
      have here : extra' k' = crlf (extra k) := by simpa using moved 0 (Nat.zero_le _)
      by_cases isLf : b = lf
      · subst isLf
        -- Nothing may come between the two bytes that the line feed becomes.
        have between : extra' (k' + 1) = [] := by
          by_contra inserted
          exact seams 1 inserted (by simp [crlf_lf])
        have further : weave extra' (k' + 1 + 1) (crlf rest) = crlf (weave extra (k + 1) rest) := by
          apply ih
          · intro j inside
            have step := moved (j + 1) (by simpa using inside)
            simp only [List.take_succ_cons, crlf_lf, List.length_cons] at step
            rw [Nat.add_right_comm k 1 j, Nat.add_assoc k j 1, ← step]
            congr 1
            omega
          · intro i inserted
            have seam :=
              seams (i + 2) (by rwa [Nat.add_assoc k' 1 1, Nat.add_right_comm,
                Nat.add_assoc] at inserted)
            simpa [crlf_lf] using seam
        rw [crlf_lf, weave, weave, weave, here, between, further, List.nil_append,
          crlf_append, crlf_lf]
      · have further : weave extra' (k' + 1) (crlf rest) = crlf (weave extra (k + 1) rest) := by
          apply ih
          · intro j inside
            have step := moved (j + 1) (by simpa using inside)
            simp only [List.take_succ_cons, crlf_cons isLf, List.length_cons] at step
            rw [Nat.add_right_comm k 1 j, Nat.add_assoc k j 1, ← step]
            congr 1
            omega
          · intro i inserted
            have seam := seams (i + 1) (by rwa [Nat.add_right_comm, Nat.add_assoc] at inserted)
            simpa [crlf_cons isLf] using seam
        rw [crlf_cons isLf, weave, weave, here, further, crlf_append, crlf_cons isLf]

theorem mem_weave {extra : Nat → Text} {b : UInt8} {t : Text} {k : Nat}
    (member : b ∈ weave extra k t) :
    b ∈ t ∨ ∃ i, b ∈ extra i := by
  induction t generalizing k with
  | nil => exact Or.inr ⟨k, member⟩
  | cons c rest ih =>
      rw [weave, List.mem_append, List.mem_cons] at member
      rcases member with inserted | same | further
      · exact Or.inr ⟨k, inserted⟩
      · exact Or.inl (by simp [same])
      · rcases ih further with old | inserted
        · exact Or.inl (by simp [old])
        · exact Or.inr inserted

end Text

namespace Buffer

/-- A buffer with line ends of two bytes in place of its own. -/
def crlfEnded (b : Buffer) : Buffer := { b with ending := .crlf }

theorem Whole.crlfEnded {b : Buffer} (whole : b.Whole) : b.crlfEnded.Whole :=
  ⟨whole.nonempty, whole.apart⟩

theorem Whole.notMem_line {b : Buffer} (whole : b.Whole) (i : Int) : lf ∉ b.line i := by
  rw [line]
  split
  · simp
  · rw [List.getD_eq_getElem?_getD]
    cases found : b.lines[i.toNat]? with
    | none => simp
    | some l => exact whole.apart l (List.mem_of_getElem? found)

/-- A buffer with line ends of one byte and without carriage returns. -/
structure Unix (b : Buffer) : Prop where
  whole : b.Whole
  ending : b.ending = .lf
  free : ∀ l ∈ b.lines, cr ∉ l

theorem Unix.withEnding {b : Buffer} (unix : b.Unix) (t : Text) : b.withEnding t = t := by
  rw [Buffer.withEnding, unix.ending]

theorem Unix.text_crlfEnded {b : Buffer} (unix : b.Unix) : b.crlfEnded.text = crlf b.text := by
  obtain ⟨t, holds⟩ := unix.whole.exists_text
  have holds' : b.crlfEnded.lines = splitAt lf t := holds
  rw [text_eq holds, text_eq holds', unix.withEnding]
  rfl

theorem Unix.notMem_text {b : Buffer} (unix : b.Unix) : cr ∉ b.text := by
  obtain ⟨t, holds⟩ := unix.whole.exists_text
  rw [text_eq holds, unix.withEnding]
  intro member
  have distinct : cr ≠ lf := by decide
  obtain ⟨l, line, inLine⟩ := exists_mem_splitAt distinct member
  exact unix.free l (holds ▸ line) inLine

/-! ## Documents -/

theorem cutLines_of_free {t : Text} (free : cr ∉ t) :
    cutLines t = splitAt lf t ∧ cutLines (crlf t) = splitAt lf t := by
  have plain : ∀ l ∈ splitAt lf t, l.getLast? ≠ some cr := fun l member ends =>
    free ((isInfix_of_mem_splitAt member).subset (List.mem_of_getLast? ends))
  exact ⟨cutLines_withEnding_of_plain ⟨[], .lf, 0⟩ plain,
    cutLines_withEnding_of_plain ⟨[], .crlf, 0⟩ plain⟩

theorem unix_of_free {t : Text} (free : cr ∉ t) (version : UInt64) :
    (⟨cutLines t, .lf, version⟩ : Buffer).Unix where
  whole := ⟨cutLines_ne_nil t, fun _ member => notMem_of_mem_cutLines member⟩
  ending := rfl
  free l member := by
    rw [(cutLines_of_free free).1] at member
    exact fun inLine => free ((isInfix_of_mem_splitAt member).subset inLine)

theorem ofText_of_free {t : Text} (free : cr ∉ t) : ofText t = ⟨cutLines t, .lf, 1⟩ := by
  have plain : t.contains [cr, lf] = false := by
    by_contra occurs
    rw [Bool.not_eq_false, contains_iff_isInfix (by simp)] at occurs
    exact free (occurs.subset (by simp))
  rw [ofText, plain]
  rfl

theorem ofText_crlf {t : Text} (free : cr ∉ t) (lined : lf ∈ t) :
    ofText (crlf t) = (ofText t).crlfEnded := by
  have occurs : (crlf t).contains [cr, lf] = true := by
    rw [contains_iff_isInfix (by simp)]
    obtain ⟨front, rest, rfl⟩ := List.append_of_mem lined
    exact ⟨crlf front, crlf rest, by simp [crlf_lf]⟩
  rw [ofText_of_free free, ofText, occurs, (cutLines_of_free free).1, (cutLines_of_free free).2]
  rfl

/-! ## Batches -/

section Batch

variable {b : Buffer} (unix : b.Unix) {batch : Batch}
include unix

theorem Unix.front_crlfEnded (p : Position) : b.crlfEnded.front p = crlf (b.front p) := by
  unfold front
  by_cases inside : p.line < b.lineCount
  · have above : ∀ l ∈ b.lines.take p.line.toNat, lf ∉ l := fun l member =>
      unix.whole.apart l (List.mem_of_mem_take member)
    have apart : lf ∉ (b.line p.line).take p.column.toNat := fun member =>
      unix.whole.notMem_line p.line (List.mem_of_mem_take member)
    have inside' : p.line < b.crlfEnded.lineCount := inside
    have here := withEnding_stacked b above apart
    rw [unix.withEnding] at here
    rw [if_pos inside, if_pos inside', ← here]
    exact (withEnding_stacked b.crlfEnded above apart).symm
  · have past : ¬ p.line < b.crlfEnded.lineCount := inside
    rw [if_neg inside, if_neg past, unix.text_crlfEnded]

theorem Unix.insertedAt_crlfEnded (inRange : ∀ i ∈ batch.inserts, 0 ≤ i.place.line) {k : Nat}
    (inside : k ≤ b.text.length) :
    b.crlfEnded.insertedAt batch (crlf (b.text.take k)).length = crlf (b.insertedAt batch k) := by
  have same : batch.inserts.filter (fun i =>
        (b.crlfEnded.front i.place).length == (crlf (b.text.take k)).length) =
      batch.inserts.filter (fun i => (b.front i.place).length == k) := by
    apply List.filter_congr
    intro i member
    obtain ⟨X, Y, holds, front, -⟩ := unix.whole.exists_front (inRange i member)
    have beginning : b.front i.place = b.text.take X.length := by
      rw [front, text_eq holds, unix.withEnding, unix.withEnding, List.take_left]
    have within : X.length ≤ b.text.length := by
      rw [text_eq holds, unix.withEnding]
      simp
    rw [unix.front_crlfEnded, beginning, List.length_take_of_le within, Bool.eq_iff_iff, beq_iff_eq,
      beq_iff_eq, length_crlf_take_inj within inside]
  rw [insertedAt, insertedAt, same, crlf, replaceByte, List.flatMap_assoc]
  apply List.flatMap_congr
  intro i _
  rw [unix.withEnding]
  rfl

theorem Unix.combined_crlfEnded (taken : ¬ b.Refuses batch) :
    b.crlfEnded.combined batch = crlf (b.combined batch) := by
  have taken' : ¬ b.crlfEnded.Refuses batch := taken
  rw [combined, combined, unix.text_crlfEnded]
  apply weave_crlf
  · intro j inside
    rw [Nat.zero_add, Nat.zero_add]
    exact unix.insertedAt_crlfEnded
      (fun i member => ((fits_of_not_refuses taken).2 i member).1) inside
  · intro i inserted
    rw [Nat.zero_add] at inserted
    rw [← unix.text_crlfEnded]
    exact unix.whole.crlfEnded.seam rfl taken' inserted

theorem Unix.notMem_combined (free : ∀ i ∈ batch.inserts, cr ∉ i.text) :
    cr ∉ b.combined batch := by
  intro member
  rcases mem_weave member with old | ⟨k, inserted⟩
  · exact unix.notMem_text old
  · obtain ⟨i, iMember, inText⟩ := List.mem_flatMap.mp inserted
    rw [unix.withEnding] at inText
    exact free i (List.mem_of_mem_filter iMember) inText

/-- A batch without carriage returns does the same with line ends of two
bytes. -/
theorem Unix.apply_crlfEnded (free : ∀ i ∈ batch.inserts, cr ∉ i.text) {after : Buffer}
    (applied : b.apply batch = .ok after) :
    after.Unix ∧ b.crlfEnded.apply batch = .ok after.crlfEnded := by
  have taken : ¬ b.Refuses batch := by
    intro refused
    obtain ⟨e, stop⟩ := apply_of_refuses refused
    rw [stop] at applied
    cases applied
  have taken' : ¬ b.crlfEnded.Refuses batch := taken
  by_cases empty : batch.inserts = []
  · have none : batch.inserts.isEmpty = true := by simp [empty]
    rw [apply, if_neg (not_or.mp taken).1, if_pos none] at applied
    obtain rfl := Except.ok.inj applied
    rw [apply, if_neg (not_or.mp taken').1, if_pos none]
    exact ⟨unix, rfl⟩
  · rw [unix.whole.apply_combined taken empty] at applied
    obtain rfl := Except.ok.inj applied
    have combinedFree := unix.notMem_combined free
    rw [unix.whole.crlfEnded.apply_combined taken' empty, unix.combined_crlfEnded taken,
      (cutLines_of_free combinedFree).2, (cutLines_of_free combinedFree).1, unix.ending]
    refine ⟨?_, rfl⟩
    have := unix_of_free combinedFree (b.version + 1)
    rwa [(cutLines_of_free combinedFree).1] at this

end Batch

end Buffer

end ModuleDeps
