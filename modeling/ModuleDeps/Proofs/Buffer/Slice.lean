import ModuleDeps.Proofs.Buffer.Simultaneous

/-!
# Ranges as slices

A position that comes later, line first, has at least as much of the text in
front of it, wherever its column and its line are moved to
(`Buffer.offsetIn_mono`).  So the range between two positions is what the front
of the later one has behind that of the earlier one, and ranges that meet in a
position add up (`textRange_slices`).
-/

set_option autoImplicit false

namespace ModuleDeps

open Text

theorem Position.Before.asymm {p q : Position} (before : p.Before q) : ¬ q.Before p := by
  simp only [Position.Before] at before ⊢
  omega

theorem Position.eq_of_not_before {p q : Position} (pq : ¬ p.Before q) (qp : ¬ q.Before p) :
    p = q := by
  obtain ⟨line, column⟩ := p
  obtain ⟨line', column'⟩ := q
  simp only [Position.Before] at pq qp
  simp only [Position.mk.injEq]
  omega

namespace Buffer

/-! ## Offsets in order -/

theorem offsetIn_mono (width : Nat) (lines : List Text) {n m : Nat} {c d : Int}
    (inOrder : n < m ∨ n = m ∧ c ≤ d) :
    offsetIn width lines n c ≤ offsetIn width lines m d := by
  induction lines generalizing n m with
  | nil => simp [offsetIn]
  | cons l rest ih =>
      cases rest with
      | nil =>
          cases n with
          | zero => cases m <;> simp only [offsetIn] <;> omega
          | succ n =>
              obtain ⟨m, rfl⟩ : ∃ m', m = m' + 1 := ⟨m - 1, by omega⟩
              exact Nat.le_refl _
      | cons l' rest =>
          cases n with
          | zero => cases m <;> simp only [offsetIn] <;> omega
          | succ n =>
              obtain ⟨m, rfl⟩ : ∃ m', m = m' + 1 := ⟨m - 1, by omega⟩
              have behind := ih (n := n) (m := m) (by omega)
              rw [offsetIn_cons _ _ (by simp), offsetIn_cons _ _ (by simp)]
              omega

theorem offset_eq_error_iff {b : Buffer} {p : Position} :
    b.offset p = .error .mk ↔ p.line < 0 := by
  rw [offset]
  split
  · simpa
  · rename_i nonneg
    simpa using nonneg

section Ordered

variable {b : Buffer} (whole : b.Whole) {p q : Position} (pNonneg : 0 ≤ p.line)
  (qNonneg : 0 ≤ q.line) (inOrder : ¬ q.Before p)
include whole pNonneg qNonneg inOrder

theorem Whole.length_front_le : (b.front p).length ≤ (b.front q).length := by
  obtain ⟨-, -, -, -, pPlace⟩ := whole.exists_front pNonneg
  obtain ⟨-, -, -, -, qPlace⟩ := whole.exists_front qNonneg
  rw [offset, if_neg (by omega), Except.ok.injEq] at pPlace qPlace
  rw [← pPlace, ← qPlace]
  apply offsetIn_mono
  simp only [Position.Before] at inOrder
  omega

theorem Whole.exists_between : ∃ u, b.front q = b.front p ++ u ∧ b.textRange p q = .ok u := by
  obtain ⟨X, Y, pHolds, pFront, pPlace⟩ := whole.exists_front pNonneg
  obtain ⟨X', Y', qHolds, qFront, qPlace⟩ := whole.exists_front qNonneg
  have pText : b.text = b.front p ++ b.withEnding Y := by
    rw [text_eq pHolds, withEnding_append, pFront]
  have qText : b.text = b.front q ++ b.withEnding Y' := by
    rw [text_eq qHolds, withEnding_append, qFront]
  have shorter := whole.length_front_le pNonneg qNonneg inOrder
  obtain ⟨u, between⟩ : b.front p <+: b.front q :=
    List.prefix_of_prefix_length_le ⟨_, pText.symm⟩ ⟨_, qText.symm⟩ shorter
  refine ⟨u, between.symm, ?_⟩
  rw [textRange, if_neg inOrder]
  simp only [pPlace, qPlace, bind, Except.bind, slice]
  rw [if_pos ⟨shorter, whole.length_front qNonneg⟩, qText, List.take_left, ← between,
    List.drop_left]

end Ordered

theorem textRange_comm {b : Buffer} (p q : Position) : b.textRange p q = b.textRange q p := by
  by_cases swapped : q.Before p
  · have back := swapped.asymm
    rw [textRange, textRange, if_pos swapped, if_neg back]
  · by_cases forward : p.Before q
    · rw [textRange, textRange, if_neg swapped, if_pos forward]
    · rw [Position.eq_of_not_before forward swapped]

theorem textRange_of_negative {b : Buffer} {p q : Position} (negative : p.line < 0 ∨ q.line < 0) :
    b.textRange p q = .error .mk := by
  have stops {start stop : Position} (outside : start.line < 0 ∨ stop.line < 0) :
      (do b.text.slice (← b.offset start) (← b.offset stop) : Except OutOfRange Text) =
        .error .mk := by
    by_cases first : start.line < 0
    · rw [offset_eq_error_iff.mpr first]
      rfl
    · rw [offset_eq_error_iff.mpr (outside.resolve_left first)]
      cases b.offset start <;> rfl
  by_cases swapped : q.Before p
  · rw [textRange, if_pos swapped]
    exact stops negative.symm
  · rw [textRange, if_neg swapped]
    exact stops negative

end Buffer

/-- Between positions on lines that are not negative there is a range, the same
in either direction: what the front of the later position has behind that of the
earlier one.  Ranges that meet add up, the range from the start to the line behind
the last one is the text, and a negative line is refused. -/
theorem textRange_slices (t : Text) (past : List Batch) :
    (∀ p q : Position, 0 ≤ p.line → 0 ≤ q.line →
      ∃ u, (reached t past).textRange p q = .ok u ∧ (reached t past).textRange q p = .ok u ∧
        (¬ q.Before p → (reached t past).front q = (reached t past).front p ++ u)) ∧
    (∀ p q r : Position, 0 ≤ p.line → 0 ≤ q.line → 0 ≤ r.line → ¬ q.Before p →
      ¬ r.Before q →
      ∃ u v, (reached t past).textRange p q = .ok u ∧ (reached t past).textRange q r = .ok v ∧
        (reached t past).textRange p r = .ok (u ++ v)) ∧
    (reached t past).textRange ⟨0, 0⟩ ⟨(reached t past).lineCount, 0⟩ =
      .ok (reached t past).text ∧
    ∀ p q : Position, p.line < 0 ∨ q.line < 0 →
    (reached t past).textRange p q = .error .mk := by
  have whole : (reached t past).Whole := (Buffer.whole_ofText t).attemptAll past
  refine ⟨?_, ?_, ?_, fun p q negative => Buffer.textRange_of_negative negative⟩
  · intro p q pNonneg qNonneg
    by_cases inOrder : q.Before p
    · obtain ⟨u, -, range⟩ := whole.exists_between qNonneg pNonneg inOrder.asymm
      exact ⟨u, Buffer.textRange_comm q p ▸ range, range, fun later => absurd inOrder later⟩
    · obtain ⟨u, fronts, range⟩ := whole.exists_between pNonneg qNonneg inOrder
      exact ⟨u, range, Buffer.textRange_comm p q ▸ range, fun _ => fronts⟩
  · intro p q r pNonneg qNonneg rNonneg pq qr
    have pr : ¬ r.Before p := by
      simp only [Position.Before] at pq qr ⊢
      omega
    obtain ⟨u, uFronts, uRange⟩ := whole.exists_between pNonneg qNonneg pq
    obtain ⟨v, vFronts, vRange⟩ := whole.exists_between qNonneg rNonneg qr
    obtain ⟨w, wFronts, wRange⟩ := whole.exists_between pNonneg rNonneg pr
    refine ⟨u, v, uRange, vRange, ?_⟩
    rw [wRange]
    -- Both ways from `p` to `r` end with the same front of `r`.
    rw [vFronts, uFronts, List.append_assoc] at wFronts
    rw [List.append_cancel_left wFronts]
  · have inOrder : ¬ (⟨(reached t past).lineCount, 0⟩ : Position).Before ⟨0, 0⟩ := by
      simp only [Position.Before]
      omega
    obtain ⟨u, fronts, range⟩ := whole.exists_between (p := ⟨0, 0⟩)
      (q := ⟨(reached t past).lineCount, 0⟩) (Int.le_refl 0) (by simp) inOrder
    have lined : ((0 : Int) < (reached t past).lineCount) := by
      have some := List.length_pos_iff.mpr whole.nonempty
      simp only [Buffer.lineCount]
      omega
    have start : (reached t past).front ⟨0, 0⟩ = [] := by
      rw [Buffer.front, if_pos lined]
      simp [joinWith]
    have stop : (reached t past).front ⟨(reached t past).lineCount, 0⟩ =
        (reached t past).text := by
      simp [Buffer.front]
    rw [start, stop, List.nil_append] at fronts
    rw [range, fronts]

/-- A buffer with a line put in, and positions with a column past the end of its
line, a column in front of its line and a line past the last one. -/
theorem textRange_slices_clamped :
    (reached (utf8 "ab\r\ncd") [⟨1, [⟨⟨1, 0⟩, utf8 "X\n"⟩]⟩]).textRange ⟨2, -3⟩
      ⟨0, 9⟩ = .ok (utf8 "\r\nX\r\n") ∧
      (reached (utf8 "ab\r\ncd") [⟨1, [⟨⟨1, 0⟩, utf8 "X\n"⟩]⟩]).textRange ⟨0, 9⟩
        ⟨7, 0⟩ =
        .ok (utf8 "\r\nX\r\n" ++ utf8 "cd") ∧
      (reached (utf8 "ab\r\ncd") [⟨1, [⟨⟨1, 0⟩, utf8 "X\n"⟩]⟩]).textRange ⟨0, 0⟩
        ⟨-1, 4⟩ = .error .mk := by
  obtain ⟨ranges, sums, -, refused⟩ :=
    textRange_slices (utf8 "ab\r\ncd") [⟨1, [⟨⟨1, 0⟩, utf8 "X\n"⟩]⟩]
  have first :
      (reached (utf8 "ab\r\ncd") [⟨1, [⟨⟨1, 0⟩, utf8 "X\n"⟩]⟩]).textRange ⟨0, 9⟩
        ⟨2, -3⟩ =
        .ok (utf8 "\r\nX\r\n") := by
    decide +kernel
  have second : (reached (utf8 "ab\r\ncd") [⟨1, [⟨⟨1, 0⟩, utf8 "X\n"⟩]⟩]).textRange
      ⟨2, -3⟩ ⟨7, 0⟩ =
      .ok (utf8 "cd") := by
    decide +kernel
  obtain ⟨u, v, uRange, vRange, sum⟩ :=
    sums ⟨0, 9⟩ ⟨2, -3⟩ ⟨7, 0⟩ (by decide) (by decide) (by decide)
    (by decide) (by decide)
  obtain rfl := Except.ok.inj (uRange.symm.trans first)
  obtain rfl := Except.ok.inj (vRange.symm.trans second)
  obtain ⟨w, wRange, back, -⟩ := ranges ⟨0, 9⟩ ⟨2, -3⟩ (by decide) (by decide)
  obtain rfl := Except.ok.inj (wRange.symm.trans first)
  exact ⟨back, sum, refused ⟨0, 0⟩ ⟨-1, 4⟩ (Or.inr (by decide))⟩

end ModuleDeps
