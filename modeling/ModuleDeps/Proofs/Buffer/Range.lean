import ModuleDeps.Proofs.Buffer.Place

/-!
# Ranges and offsets

The text of a buffer is that of its lines with every line feed turned into the
line end of the buffer.  Offsets and ranges between places follow: the offset
of a place is the length of the beginning in front of it, and the range between
two places is what lies between the two beginnings.
-/

set_option autoImplicit false

namespace ModuleDeps.Buffer

open Text

theorem withEnding_eq (b : Buffer) (t : Text) :
    b.withEnding t = t.replaceByte lf b.ending.bytes := by
  cases ending : b.ending with
  | lf =>
      have same : t.flatMap (fun c => if c = lf then [lf] else [c]) = t := by
        induction t with
        | nil => rfl
        | cons c t ih =>
            rw [List.flatMap_cons, ih]
            by_cases isLf : c = lf <;> simp [isLf]
      simpa [withEnding, ending, replaceByte, LineEnding.bytes] using same.symm
  | crlf => simp [withEnding, ending, LineEnding.bytes]

@[simp] theorem withEnding_nil (b : Buffer) : b.withEnding [] = [] := by
  simp [withEnding_eq, replaceByte]

@[simp] theorem withEnding_append (b : Buffer) (s t : Text) :
    b.withEnding (s ++ t) = b.withEnding s ++ b.withEnding t := by
  simp [withEnding_eq, replaceByte]

theorem withEnding_lf (b : Buffer) (t : Text) :
    b.withEnding (lf :: t) = b.ending.bytes ++ b.withEnding t := by
  simp [withEnding_eq, replaceByte]

theorem withEnding_of_notMem (b : Buffer) {t : Text} (apart : lf ∉ t) : b.withEnding t = t := by
  rw [withEnding_eq, replaceByte]
  induction t with
  | nil => rfl
  | cons c t ih =>
      have notLf : c ≠ lf := by
        rintro rfl
        exact apart (by simp)
      have restApart : lf ∉ t := fun member => apart (by simp [member])
      simp [notLf, ih restApart]

theorem text_eq {b : Buffer} {t : Text} (holds : b.lines = splitAt lf t) :
    b.text = b.withEnding t := by
  rw [text, holds, joinWith_splitAt, withEnding_eq]

/-! ## Offsets -/

theorem offsetIn_cons (width : Nat) (l : Text) {rest : List Text} (nonempty : rest ≠ [])
    (n : Nat) (column : Int) :
    offsetIn width (l :: rest) (n + 1) column =
      l.length + width + offsetIn width rest n column := by
  cases rest with
  | nil => exact absurd rfl nonempty
  | cons l' rest => rfl

theorem offsetIn_around (b : Buffer) (v y : Text) (below : List Text) (vApart : lf ∉ v) :
    ∀ above : List Text, (∀ l ∈ above, lf ∉ l) →
      offsetIn b.ending.bytes.length (above ++ (v ++ y) :: below) above.length v.length =
        (b.withEnding (stacked above ++ v)).length := by
  intro above
  induction above with
  | nil =>
      intro _
      rw [stacked_nil, List.nil_append, List.nil_append, withEnding_of_notMem b vApart]
      cases below <;> simp [offsetIn]
  | cons l above ih =>
      intro whole
      have lApart : lf ∉ l := whole l (by simp)
      have rest := ih fun x member => whole x (by simp [member])
      rw [List.cons_append, List.length_cons, offsetIn_cons _ _ (by simp), rest, stacked_cons,
        List.append_assoc, List.cons_append, withEnding_append b l, withEnding_lf,
        withEnding_of_notMem b lApart]
      simp only [List.length_append]
      omega

theorem offsetIn_past (joint : Text) (column : Int) :
    ∀ (lines : List Text) {n : Nat}, lines.length ≤ n →
      offsetIn joint.length lines n column = (joinWith joint lines).length := by
  intro lines
  induction lines with
  | nil => simp [offsetIn, joinWith]
  | cons l rest ih =>
      intro n past
      obtain ⟨m, rfl⟩ : ∃ m, n = m + 1 := ⟨n - 1, by simp at past; omega⟩
      have pastRest : rest.length ≤ m := by simpa using past
      cases rest with
      | nil => simp [offsetIn, joinWith]
      | cons l' rest =>
          rw [offsetIn_cons _ _ (by simp), ih pastRest]
          simp [joinWith, List.intercalate_cons_cons]
          omega

theorem offset_past (b : Buffer) (column : Int) :
    b.offset ⟨b.lineCount, column⟩ = .ok b.text.length := by
  have nonneg : ¬ (b.lineCount : Int) < 0 := by omega
  have past := offsetIn_past b.ending.bytes column b.lines (Nat.le_refl b.lineCount)
  rw [offset, if_neg nonneg]
  exact congrArg Except.ok past

theorem offset_after {b : Buffer} {X Y : Text} (holds : b.lines = splitAt lf (X ++ Y)) :
    b.offset (Position.after X) = .ok (b.withEnding X).length := by
  obtain ⟨above, v, y, below, wholeAbove, vApart, -, -, rfl, rfl, cut⟩ := lines_around holds
  rw [Position.after_stacked wholeAbove vApart, offset, if_neg (by simp), Int.toNat_natCast, cut,
    offsetIn_around b v y below vApart above wholeAbove]

/-! ## Ranges -/

theorem textRange_after {b : Buffer} {X U Y : Text} (holds : b.lines = splitAt lf (X ++ (U ++ Y))) :
    b.textRange (Position.after X) (Position.after (X ++ U)) = .ok (b.withEnding U) := by
  have holds' : b.lines = splitAt lf (X ++ U ++ Y) := by rw [holds, List.append_assoc]
  have inOrder := Position.not_after_append_before X U
  rw [textRange, if_neg inOrder]
  simp only [offset_after holds, offset_after holds', bind, Except.bind, slice, text_eq holds,
    withEnding_append]
  rw [if_pos (by simp), List.length_append, List.take_length_add_append, List.drop_left,
    List.take_left]

end ModuleDeps.Buffer
