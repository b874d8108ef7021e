import Mathlib.Data.List.Basic
import ModuleDeps.Proofs.Block.SameLine

/-!
# Whether a list ends with a comma

Three readings go back from the closing delimiter of a list: the walk over
blank lines, the search over comments and the look-up of the comma.  They pass
the same lines, so the comma is decided by the last line of code, whichever of
them gets there.  The walk and the look-up trim that line of all white space and
always agree (`lastMeaningful_steps_back`).  The search over comments trims
spaces, tabs and carriage returns only, and misses a comma with other white
space behind it (`settleInsert_agrees_iff`).
-/

set_option autoImplicit false

namespace ModuleDeps

open Text

/-! ## Commas in front of white space -/

/-- Code whose last comma has white space behind it that is not made of spaces,
tabs and carriage returns. -/
def CommaApart (code : Text) : Prop :=
  ∃ u w, code = u ++ comma :: w ∧ Blanks w ∧ ∃ a ∈ w, Buffer.isLineBlank a = false

theorem comma_notMem_blanks {w : Text} (blank : Blanks w) : comma ∉ w :=
  blank.notMem_of_visible (by decide)

theorem endsWithComma_trim_iff {t : Text} :
    endsWithComma t.trim = true ↔ ∃ u w, t = u ++ comma :: w ∧ Blanks w := by
  rw [endsWithComma_iff]
  constructor
  · intro last
    obtain ⟨init, ends⟩ := List.getLast?_eq_some_iff.mp last
    obtain ⟨s, w, -, blank, cut⟩ := exists_trim t
    refine ⟨s ++ init, w, ?_, blank⟩
    rw [ends] at cut
    simpa using cut
  · rintro ⟨u, w, rfl, blank⟩
    obtain ⟨s, lead, cut⟩ := exists_trimStart (u ++ comma :: w)
    -- What is taken off the start ends in front of the comma.
    obtain ⟨u', kept⟩ : ∃ u', trimStart (u ++ comma :: w) = u' ++ comma :: w := by
      rcases List.append_eq_append_iff.mp cut with ⟨more, rfl, tail⟩ | ⟨u', -, tail⟩
      · cases more with
        | nil => exact ⟨[], tail.symm⟩
        | cons c more =>
            obtain ⟨rfl, -⟩ := List.cons.inj tail
            exact absurd (by simp) (comma_notMem_blanks lead)
      · exact ⟨u', tail⟩
    have foreign : Foreign comma := foreign_of_visible (by decide)
    have stops : trimEnd (u' ++ comma :: w) = u' ++ [comma] := by
      rw [trimEnd, List.reverse_append, List.reverse_cons, List.append_assoc,
        dropRuns_append prefixFree_blank_reverse (blanks_reverse.mpr blank), List.singleton_append,
        dropRuns_of_stop foreign.one (fun b => (foreign.two b).2) fun b c =>
          (foreign.three c b).2.2]
      simp
    rw [trim, kept, stops, List.getLast?_concat]

theorem endsWithComma_trimEndWhere_iff {t : Text} :
    endsWithComma (t.trimEndWhere Buffer.isLineBlank) = true ↔
      ∃ u w, t = u ++ comma :: w ∧ ∀ a ∈ w, Buffer.isLineBlank a = true := by
  constructor
  · intro ends
    rw [endsWithComma_iff, trimEndWhere] at ends
    obtain ⟨init, stop⟩ := List.getLast?_eq_some_iff.mp ends
    refine ⟨init, (t.reverse.takeWhile Buffer.isLineBlank).reverse, ?_, ?_⟩
    · rw [← List.singleton_append, ← List.append_assoc, ← stop, ← List.reverse_append,
        List.takeWhile_append_dropWhile, List.reverse_reverse]
    · intro a member
      exact List.mem_takeWhile_imp (List.mem_reverse.mp member)
  · rintro ⟨u, w, rfl, blank⟩
    have inked : ∀ a ∈ (u ++ [comma]).getLast?, Buffer.isLineBlank a = false := by
      rw [List.getLast?_concat]
      rintro a ⟨⟩
      decide
    rw [← List.singleton_append, ← List.append_assoc, Buffer.trimEndWhere_append blank inked,
      endsWithComma_iff, List.getLast?_concat]

theorem eq_of_lastComma {u u' w w' : Text} (apart : comma ∉ w) (apart' : comma ∉ w')
    (same : u ++ comma :: w = u' ++ comma :: w') : w = w' := by
  have cut {a v v' : Text} (vApart : comma ∉ v) (parts : comma :: v = a ++ comma :: v') :
      v = v' := by
    cases a with
    | nil => exact (List.cons.inj parts).2
    | cons c a =>
        rw [(List.cons.inj parts).2] at vApart
        exact absurd (by simp) vApart
  rcases List.append_eq_append_iff.mp same with ⟨a, -, parts⟩ | ⟨a, -, parts⟩
  · exact cut apart parts
  · exact (cut apart' parts).symm

/-- A comma found behind the narrow trimming is found behind the wide one. -/
theorem endsWithComma_trim_of_trimEndWhere {t : Text}
    (ends : endsWithComma (t.trimEndWhere Buffer.isLineBlank) = true) :
    endsWithComma t.trim = true := by
  obtain ⟨u, w, cut, blank⟩ := endsWithComma_trimEndWhere_iff.mp ends
  exact endsWithComma_trim_iff.mpr ⟨u, w, cut, Buffer.blanks_of_isLineBlank blank⟩

theorem endsWithComma_trims_iff (t : Text) :
    endsWithComma (t.trimEndWhere Buffer.isLineBlank) = endsWithComma t.trim ↔
      ¬ CommaApart t := by
  constructor
  · rintro same ⟨u, w, cut, blank, a, member, other⟩
    have wide : endsWithComma t.trim = true := endsWithComma_trim_iff.mpr ⟨u, w, cut, blank⟩
    obtain ⟨u', w', cut', lineBlank⟩ := endsWithComma_trimEndWhere_iff.mp (same.trans wide)
    have apart := comma_notMem_blanks blank
    have apart' := comma_notMem_blanks (Buffer.blanks_of_isLineBlank lineBlank)
    obtain rfl : w = w' := eq_of_lastComma apart apart' (cut.symm.trans cut')
    rw [lineBlank a member] at other
    cases other
  · intro together
    rw [Bool.eq_iff_iff]
    refine ⟨endsWithComma_trim_of_trimEndWhere, fun wide => ?_⟩
    obtain ⟨u, w, cut, blank⟩ := endsWithComma_trim_iff.mp wide
    refine endsWithComma_trimEndWhere_iff.mpr ⟨u, w, cut, fun a member => ?_⟩
    by_contra other
    exact together ⟨u, w, cut, blank, a, member, by simpa using other⟩

namespace Buffer

/-! ## The last line of code decides -/

section Above

variable {b : Buffer} {k m n : Nat}

theorem commaAbove_succ (b : Buffer) (n : Nat) :
    b.commaAbove (n + 1) = if (stripComment (b.line n)).isBlank then b.commaAbove n
      else endsWithComma (stripComment (b.line n)).trim := rfl

theorem commaAbove_of_idle (le : m ≤ n)
    (idle : ∀ j : Nat, m ≤ j → j < n → Blanks (stripComment (b.line j))) :
    b.commaAbove n = b.commaAbove m := by
  induction n, le using Nat.le_induction with
  | base => rfl
  | succ n le ih =>
      rw [commaAbove_succ, if_pos (isBlank_iff.mpr (idle n le (Nat.lt_succ_self n)))]
      exact ih fun j low high => idle j low (Nat.lt_succ_of_lt high)

theorem settleAbove_of_idle {p : Position} (le : m ≤ n)
    (idle : ∀ j : Nat, m ≤ j → j < n → Blanks (stripComment (b.line j))) :
    b.settleAbove p n = b.settleAbove p m := by
  induction n, le using Nat.le_induction with
  | base => rfl
  | succ n le ih =>
      have blank : Blanks (lineCode (b.line n)) :=
        (blanks_lineCode_iff _).mpr (idle n le (Nat.lt_succ_self n))
      rw [settleAbove_succ, if_pos (isBlank_iff.mpr blank)]
      exact ih fun j low high => idle j low (Nat.lt_succ_of_lt high)

theorem LastCode.commaAbove (last : b.LastCode k n) :
    b.commaAbove n = endsWithComma (stripComment (b.line k)).trim := by
  rw [commaAbove_of_idle last.above fun j low high => last.idle j low high, commaAbove_succ,
    if_neg fun blank => last.code (isBlank_iff.mp blank)]

theorem LastCode.settleAbove {p : Position} (last : b.LastCode k n) :
    (b.settleAbove p n).2 = endsWithComma (lineCode (b.line k)) := by
  have inked : ¬ Blanks (lineCode (b.line k)) :=
    fun blank => last.code ((blanks_lineCode_iff _).mp blank)
  rw [settleAbove_of_idle last.above fun j low high => last.idle j low high, settleAbove_succ,
    if_neg fun blank => inked (isBlank_iff.mp blank)]
  split
  · rename_i ends
    exact ends.symm
  · rename_i ends
    exact (Bool.not_eq_true _ ▸ ends).symm

theorem LastCode.narrow (last : b.LastCode k n) (low : k < m) (le : m ≤ n) : b.LastCode k m where
  above := low
  code := last.code
  idle j behind within := last.idle j behind (Nat.lt_of_lt_of_le within le)

theorem lastCode_or_idle (b : Buffer) (n : Nat) :
    (∃ k, b.LastCode k n) ∨ ∀ k : Nat, k < n → Blanks (stripComment (b.line k)) := by
  rcases b.settleAbove_cases ⟨0, 0⟩ n with ⟨k, _, _, last, -, -⟩ | ⟨idle, -⟩
  · exact Or.inl ⟨k, last⟩
  · exact Or.inr idle

end Above

theorem resolveComma_of_blanks {b : Buffer} {p : Position} (front : Blanks (b.lineBefore p)) :
    b.resolveComma p .unknown = b.commaAbove p.line.toNat := by
  have empty : (stripComment (b.lineBefore p)).trim = [] := by
    rw [stripComment_of_blanks front]
    exact trim_eq_nil_iff.mpr front
  rw [resolveComma]
  split
  · rename_i negative
    rw [Int.toNat_of_nonpos (Int.le_of_lt negative)]
    rfl
  · simp [empty]

theorem settleInsert_of_blanks {b : Buffer} {p : Position} (front : Blanks (b.lineBefore p)) :
    b.settleInsert p = b.settleAbove p p.line.toNat := by
  rw [settleInsert, if_pos (isBlank_iff.mpr front)]

/-- The last code above a position ends with a comma apart from its line's
end. -/
def CommaApartAbove (b : Buffer) (p : Position) : Prop :=
  Blanks (b.lineBefore p) ∧ ∃ k, b.LastCode k p.line.toNat ∧
    CommaApart (stripComment (b.line k))

theorem settleInsert_comma_iff (b : Buffer) (p : Position) :
    (b.settleInsert p).2 = b.resolveComma p .unknown ↔ ¬ b.CommaApartAbove p := by
  by_cases front : Blanks (b.lineBefore p)
  · rw [settleInsert_of_blanks front, resolveComma_of_blanks front]
    rcases b.lastCode_or_idle p.line.toNat with ⟨k, last⟩ | idle
    · rw [last.settleAbove, last.commaAbove, lineCode, endsWithComma_trims_iff]
      refine not_congr ⟨fun apart => ⟨front, k, last, apart⟩, ?_⟩
      rintro ⟨-, k', last', apart⟩
      rwa [last.unique last']
    · have none : ¬ b.CommaApartAbove p := by
        rintro ⟨-, k, last, -⟩
        exact last.code (idle k last.above)
      rw [settleAbove_of_idle (Nat.zero_le _) fun j _ high => idle j high,
        commaAbove_of_idle (Nat.zero_le _) fun j _ high => idle j high]
      exact iff_of_true rfl none
  · rw [settleInsert, if_neg fun blank => front (isBlank_iff.mp blank)]
    exact iff_of_true rfl fun apart => front apart.1

theorem resolveComma_of_settleInsert {b : Buffer} {p : Position}
    (ends : (b.settleInsert p).2 = true) :
    b.resolveComma p .unknown = true := by
  by_cases front : Blanks (b.lineBefore p)
  · rw [settleInsert_of_blanks front] at ends
    rw [resolveComma_of_blanks front]
    rcases b.lastCode_or_idle p.line.toNat with ⟨k, last⟩ | idle
    · rw [last.settleAbove] at ends
      rw [last.commaAbove]
      exact endsWithComma_trim_of_trimEndWhere ends
    · rw [settleAbove_of_idle (Nat.zero_le _) fun j _ high => idle j high] at ends
      cases ends
  · rwa [settleInsert, if_neg fun blank => front (isBlank_iff.mp blank)] at ends

/-! ## Where the walk over blank lines stops -/

section Walk

variable {b : Buffer} {p q : Position} {state : CommaState}

theorem Walk.eq_or_before (walk : b.Walk p q state) : q = p ∨ q.Before p := by
  have upward {m : Nat} {column : Int} (low : m < p.line.toNat) :
      (⟨m, column⟩ : Position).Before p := by
    left
    simp only
    omega
  cases walk with
  | stay => exact Or.inl rfl
  | stop _ low _ => exact Or.inr (upward low)
  | land _ low _ _ _ => exact Or.inr (upward low)

theorem lineBefore_end (b : Buffer) (n : Nat) :
    b.lineBefore ⟨n, (b.line n).length⟩ = b.line n := by
  simp [lineBefore, cutAt]

/-- The state of the walk agrees with looking the comma up afresh. -/
theorem Walk.resolveComma_eq (walk : b.Walk p q state) :
    b.resolveComma q state = b.resolveComma p .unknown := by
  have idle {j : Nat} (blank : Blanks (b.line j)) : Blanks (stripComment (b.line j)) := by
    rwa [stripComment_of_blanks blank]
  cases walk with
  | stay => rfl
  | @stop m front low blank =>
      have own : Blanks (b.lineBefore ⟨m, (b.line m).length⟩) := by
        rw [lineBefore_end]
        exact blank m (Nat.le_refl m) low
      rw [resolveComma_of_blanks own, resolveComma_of_blanks front, Int.toNat_natCast]
      exact (commaAbove_of_idle (Nat.le_of_lt low) fun j from_m high =>
        idle (blank j from_m high)).symm
  | @land k front low blank code first =>
      have verdict : b.commaAbove (k + 1) = endsWithComma (b.line k).trim := by
        rw [commaAbove_succ, code]
        split
        · rename_i none
          have lineBlank := isBlank_iff.mp none
          obtain rfl := first lineBlank
          rw [trim_eq_nil_iff.mpr lineBlank]
          rfl
        · rfl
      rw [resolveComma_of_blanks front,
        commaAbove_of_idle low fun j from_k high => idle (blank j from_k high), verdict]
      cases endsWithComma (b.line k).trim <;> rfl

end Walk

/-! ## The text that the walk passes -/

theorem blanks_ending (b : Buffer) : Blanks b.ending.bytes := by
  cases b.ending with
  | lf => exact Runs.one (by decide) Runs.nil
  | crlf => exact Runs.one (by decide) (Runs.one (by decide) Runs.nil)

theorem joinWith_cons (joint l : Text) {rest : List Text} (nonempty : rest ≠ []) :
    joinWith joint (l :: rest) = l ++ (joint ++ joinWith joint rest) := by
  obtain ⟨l', rest, rfl⟩ := List.exists_cons_of_ne_nil nonempty
  simp [joinWith, List.intercalate_cons_cons]

section Passed

variable {joint : Text}

theorem exists_lead (joint : Text) (column : Int) : ∀ (lines : List Text) (n : Nat),
    ∃ U Y, joinWith joint lines = U ++ Y ∧ U.length = offsetIn joint.length lines n column ∧
      (Blanks joint → (∀ j < n, Blanks (lines.getD j [])) →
        Blanks (cutAt (lines.getD n []) column) →
        Blanks U) := by
  intro lines
  induction lines with
  | nil => exact fun n => ⟨[], [], rfl, rfl, fun _ _ _ => Runs.nil⟩
  | cons l rest ih =>
      intro n
      rcases eq_or_ne rest [] with rfl | nonempty
      · cases n with
        | zero =>
            refine ⟨cutAt l column, l.drop column.toNat, by simp [joinWith, cutAt], ?_,
              fun _ _ blank => blank⟩
            simp [offsetIn, cutAt]
        | succ n =>
            refine ⟨l, [], by simp [joinWith], rfl, fun _ blank _ => ?_⟩
            exact blank 0 (Nat.succ_pos n)
      · rw [joinWith_cons joint l nonempty]
        cases n with
        | zero =>
            refine ⟨cutAt l column, l.drop column.toNat ++ (joint ++ joinWith joint rest), ?_, ?_,
              fun _ _ blank => blank⟩
            · rw [cutAt, ← List.append_assoc (l.take _), List.take_append_drop]
            · obtain ⟨l', rest, rfl⟩ := List.exists_cons_of_ne_nil nonempty
              simp [offsetIn, cutAt]
        | succ n =>
            obtain ⟨U, Y, cut, length, blank⟩ := ih n
            refine ⟨l ++ (joint ++ U), Y, by simp [cut], ?_, fun jointBlank passed last => ?_⟩
            · rw [offsetIn_cons _ _ nonempty, ← length]
              simp only [List.length_append]
              omega
            · have lineBlank : Blanks l := passed 0 (Nat.succ_pos n)
              refine lineBlank.append (jointBlank.append (blank jointBlank (fun j low => ?_) last))
              exact passed (j + 1) (Nat.succ_lt_succ low)

theorem exists_passed (jointBlank : Blanks joint) (column : Int) :
    ∀ (lines : List Text) (k n : Nat), k < n →
    (∀ j : Nat, k < j → j < n → Blanks (lines.getD j [])) →
    Blanks (cutAt (lines.getD n []) column) →
    ∃ X U Y, joinWith joint lines = X ++ (U ++ Y) ∧
      X.length = offsetIn joint.length lines k (lines.getD k []).length ∧
      (X ++ U).length = offsetIn joint.length lines n column ∧ Blanks U := by
  intro lines
  -- `X` reaches to the end of line `k`, and `U` over the lines from there to line `n`.
  induction lines with
  | nil => exact fun k n _ _ _ => ⟨[], [], [], rfl, rfl, rfl, Runs.nil⟩
  | cons l rest ih =>
      intro k n below passed last
      obtain ⟨n, rfl⟩ : ∃ m, n = m + 1 := ⟨n - 1, by omega⟩
      rcases eq_or_ne rest [] with rfl | nonempty
      · have ends : offsetIn joint.length [l] k ([l].getD k []).length = l.length := by
          cases k with
          | zero => simp [offsetIn]
          | succ k => rfl
        exact ⟨l, [], [], by simp [joinWith], ends.symm, by simp [offsetIn], Runs.nil⟩
      · rw [joinWith_cons joint l nonempty, offsetIn_cons _ _ nonempty]
        cases k with
        | zero =>
            obtain ⟨U, Y, cut, length, blank⟩ := exists_lead joint column rest n
            have between : Blanks U :=
              blank jointBlank (fun j low => passed (j + 1) (Nat.succ_pos j) (Nat.succ_lt_succ low))
                last
            refine ⟨l, joint ++ U, Y, by simp [cut], ?_, ?_, jointBlank.append between⟩
            · obtain ⟨l', rest, rfl⟩ := List.exists_cons_of_ne_nil nonempty
              simp [offsetIn]
            · rw [← length]
              simp only [List.length_append]
              omega
        | succ k =>
            have behind (j : Nat) (low : k < j) (high : j < n) : Blanks (rest.getD j []) :=
              passed (j + 1) (Nat.succ_lt_succ low) (Nat.succ_lt_succ high)
            obtain ⟨X, U, Y, cut, start, stop, blank⟩ :=
              ih k n (Nat.lt_of_succ_lt_succ below) behind last
            refine ⟨l ++ (joint ++ X), U, Y, by simp [cut], ?_, ?_, blank⟩
            · rw [offsetIn_cons _ _ nonempty, List.getD_cons_succ, ← start]
              simp only [List.length_append]
              omega
            · rw [← stop]
              simp only [List.length_append]
              omega

end Passed

theorem textRange_of_parts {b : Buffer} {p q : Position} {X U Y : Text}
    (cut : b.text = X ++ (U ++ Y)) (start : b.offset q = .ok X.length)
    (stop : b.offset p = .ok (X ++ U).length) (inOrder : ¬ p.Before q) :
    b.textRange q p = .ok U := by
  rw [textRange, if_neg inOrder]
  simp only [start, stop, bind, Except.bind, slice, cut]
  rw [if_pos (by simp), List.length_append, List.take_length_add_append, List.drop_left,
    List.take_left]

theorem Walk.exists_range {b : Buffer} {p q : Position} {state : CommaState} (nonneg : 0 ≤ p.line)
    (walk : b.Walk p q state) : ∃ t, b.textRange q p = .ok t ∧ Blanks t := by
  have offsetAt {r : Position} (above : 0 ≤ r.line) :
      b.offset r = .ok (offsetIn b.ending.bytes.length b.lines r.line.toNat r.column) := by
    rw [offset, if_neg (by omega)]
  have backward {k : Nat} (front : Blanks (b.lineBefore p)) (low : k < p.line.toNat)
      (blank : ∀ j : Nat, k < j → j < p.line.toNat → Blanks (b.line j)) :
      ∃ t, b.textRange ⟨k, (b.line k).length⟩ p = .ok t ∧ Blanks t := by
    have last : Blanks (cutAt (b.lines.getD p.line.toNat []) p.column) := by
      rw [← line_natCast, Int.toNat_of_nonneg nonneg]
      exact front
    obtain ⟨X, U, Y, cut, start, stop, passed⟩ :=
      exists_passed b.blanks_ending p.column b.lines k p.line.toNat low
      (fun j from_k high => b.line_natCast j ▸ blank j from_k high) last
    refine ⟨U, textRange_of_parts cut ?_ ?_ ?_, passed⟩
    · rw [offsetAt (by simp), start, line_natCast]
      rfl
    · rw [offsetAt nonneg, stop]
    · simp only [Position.Before]
      omega
  cases walk with
  | stay =>
      obtain ⟨U, Y, cut, length, -⟩ := exists_lead b.ending.bytes p.column b.lines p.line.toNat
      have here : b.offset p = .ok U.length := by rw [offsetAt nonneg, length]
      exact ⟨[], textRange_of_parts cut here (by rw [List.append_nil]; exact here)
        (by simp [Position.Before]), Runs.nil⟩
  | stop front low blank =>
      exact backward front low fun j from_m high => blank j (Nat.le_of_lt from_m) high
  | land front low blank _ _ => exact backward front low blank

/-- In front of a comment the walk leaves the last code where it was. -/
theorem Walk.commaApartAbove_iff {b : Buffer} {p q : Position} {state : CommaState}
    (walk : b.Walk p q state) (unsettled : state = .unknown) :
    b.CommaApartAbove q ↔ b.CommaApartAbove p := by
  cases walk with
  | stay => rfl
  | @stop m front low blank =>
      have idle (j : Nat) (from_m : m ≤ j) (high : j < p.line.toNat) :
          Blanks (stripComment (b.line j)) := by
        rw [stripComment_of_blanks (blank j from_m high)]
        exact blank j from_m high
      rw [CommaApartAbove, CommaApartAbove, lineBefore_end, Int.toNat_natCast]
      constructor
      · rintro ⟨-, k, last, apart⟩
        exact ⟨front, k, last.widen (Nat.le_of_lt low) idle, apart⟩
      · rintro ⟨-, k, last, apart⟩
        have above : k < m := by
          by_contra below
          exact last.code (idle k (Nat.le_of_not_lt below) last.above)
        exact ⟨blank m (Nat.le_refl m) low, k, last.narrow above (Nat.le_of_lt low), apart⟩
  | land _ _ _ _ _ => split at unsettled <;> cases unsettled

/-- The comma that a list is read with is the one that stands in front of its
closing delimiter, unless the search over comments missed it. -/
theorem insertPoint_comma_iff (b : Buffer) (p : Position) :
    (b.insertPoint p).2 = b.resolveComma p .unknown ↔
      ¬ ((b.lastMeaningful p).2 = .unknown ∧ b.CommaApartAbove p) := by
  have walk := b.walk_lastMeaningful p
  rw [insertPoint_eq_settle, ← walk.resolveComma_eq]
  generalize b.lastMeaningful p = walked at walk ⊢
  obtain ⟨q, state⟩ := walked
  cases state with
  | unknown =>
      rw [settle, settleInsert_comma_iff, walk.commaApartAbove_iff rfl]
      simp
  | present => exact iff_of_true rfl fun unsettled => CommaState.noConfusion unsettled.1
  | absent => exact iff_of_true rfl fun unsettled => CommaState.noConfusion unsettled.1

end Buffer

/-! ## The three readings -/

/-- The walk over blank lines only goes back, over white space only, and its
state agrees with looking the comma up from where it started. -/
theorem lastMeaningful_steps_back (b : Buffer) {p q : Position} {state : CommaState}
    (nonneg : 0 ≤ p.line) (walked : b.lastMeaningful p = (q, state)) :
    (q = p ∨ q.Before p) ∧ (∃ t, b.textRange q p = .ok t ∧ t.isBlank = true) ∧
      b.resolveComma q state = b.resolveComma p .unknown := by
  have walk := b.walk_lastMeaningful p
  rw [walked] at walk
  obtain ⟨t, range, blank⟩ := walk.exists_range nonneg
  exact ⟨walk.eq_or_before, ⟨t, range, isBlank_iff.mpr blank⟩, walk.resolveComma_eq⟩

def spacedOut : Buffer := Buffer.ofText (utf8 "'a',\r\n\u00a0\r\n\t]")

theorem lastMeaningful_steps_back_crlf :
    0 ≤ (⟨2, 1⟩ : Position).line ∧
      spacedOut.lastMeaningful ⟨2, 1⟩ = (⟨0, 4⟩, .present) ∧
      (⟨0, 4⟩ : Position).Before ⟨2, 1⟩ ∧
      spacedOut.textRange ⟨0, 4⟩ ⟨2, 1⟩ = .ok (utf8 "\r\n\u00a0\r\n\t") ∧
      spacedOut.resolveComma ⟨2, 1⟩ .unknown = true := by
  have walked : spacedOut.lastMeaningful ⟨2, 1⟩ = (⟨0, 4⟩, .present) := by decide +kernel
  obtain ⟨order, -, comma⟩ := lastMeaningful_steps_back spacedOut (by decide) walked
  exact ⟨by decide, walked, order.resolve_left (by decide), by decide +kernel, comma.symm⟩

/-- The search over comments finds the comma that is looked up from the same
place, unless the last code above ends with a comma and white space other than
spaces, tabs and carriage returns.  It never finds one that is not there, and
what it misses is all that a list can be misread by. -/
theorem settleInsert_agrees_iff (b : Buffer) (p : Position) :
    ((b.settleInsert p).2 = b.resolveComma p .unknown ↔ ¬ b.CommaApartAbove p) ∧
      ((b.settleInsert p).2 = true → b.resolveComma p .unknown = true) ∧
      ((b.insertPoint p).2 = b.resolveComma p .unknown ↔
        ¬ ((b.lastMeaningful p).2 = .unknown ∧ b.CommaApartAbove p)) :=
  ⟨b.settleInsert_comma_iff p, Buffer.resolveComma_of_settleInsert, b.insertPoint_comma_iff p⟩

def commentBelow : Buffer :=
  Buffer.ofText (utf8 "sap.ui.define([\n  'a/A',\u00a0\n  // last\n], function (A) \x7b\n\x7d);\n")

theorem settleInsert_noBreakSpace :
    (commentBelow.settleInsert ⟨3, 0⟩).2 = false ∧
      commentBelow.resolveComma ⟨3, 0⟩ .unknown = true ∧
      commentBelow.insertPoint ⟨3, 0⟩ = (⟨1, 10⟩, false) := by
  decide +kernel

end ModuleDeps
