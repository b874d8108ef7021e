import ModuleDeps.Glob.Pattern
import ModuleDeps.Proofs.Disk.Names
import ModuleDeps.Proofs.Text.Characters

/-!
# Code points of paths

An ASCII byte is a character wherever it stands, so a path is read component by
component.  Only an ASCII text has the code points of an ASCII text; a byte
outside every character is read as U+FFFD, which many texts have in common.
-/

set_option autoImplicit false

namespace ModuleDeps

namespace Text

def Ascii (t : Text) : Prop := ∀ b ∈ t, b < 0x80

instance : DecidablePred Ascii := fun t => inferInstanceAs (Decidable (∀ b ∈ t, b < 0x80))

theorem firstScalar?_of_not_ascii {a : UInt8} (high : ¬ a < 0x80) {t : Text} {code width : Nat}
    (found : firstScalar? (a :: t) = some (code, width)) : 0x80 ≤ code := by
  cases wide_of_firstScalar? high found with
  | two t low _ _ => omega
  | three t second _ =>
      obtain ⟨range, lead⟩ := secondOfThree_bounds second
      simp only [low6]
      omega
  | four t second _ _ =>
      obtain ⟨range, lead⟩ := secondOfFour_bounds second
      simp only [low6]
      omega

/-- An ASCII byte is no part of a character before it. -/
theorem firstScalar?_append_ascii (a : UInt8) (t : Text) {b : UInt8} (ascii : b < 0x80) (u : Text) :
    firstScalar? (a :: (t ++ b :: u)) = firstScalar? (a :: t) := by
  have stops : isContinuation b = false :=
    isContinuation_eq_false_iff.mpr (.inl (toNat_lt_of_lt ascii))
  have stopsThree : secondOfThree a b = false := by
    by_contra second
    have := (secondOfThree_bounds (Bool.not_eq_false _ ▸ second)).1
    have := toNat_lt_of_lt ascii
    omega
  have stopsFour : secondOfFour a b = false := by
    by_contra second
    have := (secondOfFour_bounds (Bool.not_eq_false _ ▸ second)).1
    have := toNat_lt_of_lt ascii
    omega
  rcases t with _ | ⟨c, _ | ⟨d, _ | ⟨e, t⟩⟩⟩
  · cases u with
    | nil => simp [firstScalar?, stops]
    | cons v u => cases u <;> simp [firstScalar?, stops, stopsThree, stopsFour]
  · cases u <;> simp [firstScalar?, stops]
  · simp [firstScalar?, stops]
  · simp [firstScalar?]

theorem scalars_cons (a : UInt8) (t : Text) :
    scalars (a :: t) =
      match firstScalar? (a :: t) with
      | some (code, width) => ⟨code, (a :: t).take width, true⟩ :: scalars (t.drop (width - 1))
      | none => ⟨replacement, [a], false⟩ :: scalars t := by
  rw [scalars, scalarsFrom]
  cases firstScalar? (a :: t) with
  | none => rfl
  | some row => exact congrArg (_ :: ·) (scalarsFrom_eq_drop (row.2 - 1) t)

theorem scalars_append_ascii (t : Text) {b : UInt8} (ascii : b < 0x80) (u : Text) :
    scalars (t ++ b :: u) = scalars t ++ scalars (b :: u) := by
  induction size : t.length using Nat.strongRecOn generalizing t with
  | ind n ih =>
      cases t with
      | nil => rfl
      | cons a t =>
          rw [List.length_cons] at size
          rw [List.cons_append, scalars_cons, scalars_cons a t, firstScalar?_append_ascii a t ascii]
          cases found : firstScalar? (a :: t) with
          | none => simp only [ih t.length (by omega) t rfl, List.cons_append]
          | some row =>
              obtain ⟨code, width⟩ := row
              obtain ⟨positive, inside, -⟩ := firstScalar?_bounds found
              rw [List.length_cons] at inside
              have bytes : (a :: (t ++ b :: u)).take width = (a :: t).take width := by
                rw [← List.cons_append, List.take_append_of_le_length (by simpa using inside)]
              have behind : scalars ((t ++ b :: u).drop (width - 1)) =
                  scalars (t.drop (width - 1)) ++ scalars (b :: u) := by
                rw [List.drop_append_of_le_length (by omega)]
                exact ih _ (by rw [List.length_drop]; omega) _ rfl
              simp only [bytes, behind, List.cons_append]

end Text

namespace Glob

open Text

theorem codes_append_ascii (t : Text) {b : UInt8} (ascii : b < 0x80) (u : Text) :
    codes (t ++ b :: u) = codes t ++ b.toNat :: codes u := by
  rw [codes, scalars_append_ascii t ascii, scalars_cons_ascii ascii, List.map_append]
  rfl

theorem codes_cons_ascii {b : UInt8} (ascii : b < 0x80) (u : Text) :
    codes (b :: u) = b.toNat :: codes u :=
  codes_append_ascii [] ascii u

theorem codes_of_ascii {t : Text} (ascii : Ascii t) : codes t = t.map UInt8.toNat := by
  induction t with
  | nil => rfl
  | cons b t ih =>
      obtain ⟨first, rest⟩ := List.forall_mem_cons.mp ascii
      rw [codes_cons_ascii first, ih rest, List.map_cons]

theorem codes_append_of_ascii {t : Text} (ascii : Ascii t) (u : Text) :
    codes (t ++ u) = codes t ++ codes u := by
  induction t with
  | nil => rfl
  | cons b t ih =>
      obtain ⟨first, rest⟩ := List.forall_mem_cons.mp ascii
      rw [List.cons_append, codes_cons_ascii first, codes_cons_ascii first, ih rest,
        List.cons_append]

theorem exists_codes_cons {a : UInt8} (high : ¬ a < 0x80) (t : Text) :
    ∃ code n, codes (a :: t) = code :: codes (t.drop n) ∧ 0x80 ≤ code := by
  rw [codes, scalars_cons]
  cases found : firstScalar? (a :: t) with
  | none => exact ⟨replacement, 0, rfl, by decide⟩
  | some row => exact ⟨row.1, row.2 - 1, rfl, firstScalar?_of_not_ascii high found⟩

theorem mem_of_mem_codes {b : UInt8} (ascii : b < 0x80) {t : Text} (member : b.toNat ∈ codes t) :
    b ∈ t := by
  induction size : t.length using Nat.strongRecOn generalizing t with
  | ind n ih =>
      cases t with
      | nil => cases member
      | cons a t =>
          rw [List.length_cons] at size
          by_cases low : a < 0x80
          · rw [codes_cons_ascii low] at member
            rcases List.mem_cons.mp member with same | member
            · exact UInt8.toNat_inj.mp same ▸ List.mem_cons_self
            · exact List.mem_cons_of_mem _ (ih t.length (by omega) member rfl)
          · obtain ⟨code, n, eq, large⟩ := exists_codes_cons low t
            rw [eq] at member
            rcases List.mem_cons.mp member with same | member
            · have := toNat_lt_of_lt ascii
              omega
            · have inside := ih (t.drop n).length (by rw [List.length_drop]; omega) member rfl
              exact List.mem_cons_of_mem _ (List.mem_of_mem_drop inside)

/-- A text with the code points of an ASCII text is that text. -/
theorem codes_eq_iff {name : Text} (ascii : Ascii name) {t : Text} :
    codes t = codes name ↔ t = name := by
  refine ⟨fun same => ?_, fun same => same ▸ rfl⟩
  induction name generalizing t with
  | nil => exact scalars_eq_nil_iff.mp (List.map_eq_nil_iff.mp same)
  | cons b name ih =>
      obtain ⟨first, rest⟩ := List.forall_mem_cons.mp ascii
      rw [codes_cons_ascii first] at same
      cases t with
      | nil => cases same
      | cons a t =>
          by_cases low : a < 0x80
          · rw [codes_cons_ascii low] at same
            obtain ⟨head, tail⟩ := List.cons_eq_cons.mp same
            rw [UInt8.toNat_inj.mp head, ih rest tail]
          · obtain ⟨code, n, eq, large⟩ := exists_codes_cons low t
            rw [eq] at same
            have := (List.cons_eq_cons.mp same).1
            have := toNat_lt_of_lt first
            omega

theorem codes_pathOf (names : List Text) :
    codes (pathOf names) = [slash].intercalate (names.map codes) := by
  induction names with
  | nil => rfl
  | cons name rest ih =>
      cases rest with
      | nil => simp [pathOf_singleton]
      | cons next rest =>
          rw [pathOf_cons_cons, codes_append_ascii name (by decide), ih, List.map_cons,
            List.map_cons, List.map_cons, List.intercalate_cons_cons, List.append_assoc]
          rfl

theorem slash_notMem_codes {name : Text} (apart : Text.slash ∉ name) : slash ∉ codes name :=
  fun member => apart (mem_of_mem_codes (show Text.slash < 0x80 by decide) member)

end Glob

end ModuleDeps
