import Mathlib.Data.List.Basic
import ModuleDeps.Text.Basic

/-!
# First occurrences

`indexOf?` finds the first place at which a text carries the needle.  Where a
byte that the needle lacks divides the text, an occurrence lies on one side of
that byte, so the search can be carried out piece by piece.
-/

set_option autoImplicit false

namespace ModuleDeps.Text

theorem indexOf?_eq_some_of_isPrefix {needle t : Text} (found : needle <+: t) :
    indexOf? needle t = some 0 := by
  cases t with
  | nil =>
      have empty : needle = [] := List.prefix_nil.mp found
      simp [indexOf?, empty]
  | cons b rest =>
      have isPrefix : needle.isPrefixOf (b :: rest) = true := List.isPrefixOf_iff_prefix.mpr found
      simp [indexOf?, isPrefix]

/-- A found offset cuts the text in front of the needle, and the needle does
not occur earlier. -/
theorem indexOf?_spec {needle : Text} :
    ∀ {t : Text} {i : Nat}, indexOf? needle t = some i →
      ∃ lead tail, t = lead ++ (needle ++ tail) ∧ lead.length = i ∧
        ∀ j < i, ¬ needle <+: t.drop j := by
  intro t
  induction t with
  | nil =>
      intro i found
      cases needle with
      | nil =>
          have zero : i = 0 := by simpa [indexOf?] using found.symm
          exact ⟨[], [], rfl, zero.symm, by omega⟩
      | cons a needle => simp [indexOf?] at found
  | cons b rest ih =>
      intro i found
      by_cases here : needle.isPrefixOf (b :: rest) = true
      · have zero : i = 0 := by simpa [indexOf?, here] using found.symm
        obtain ⟨tail, tailExact⟩ := List.isPrefixOf_iff_prefix.mp here
        exact ⟨[], tail, by simp [tailExact], zero.symm, by omega⟩
      · simp only [indexOf?, here, Bool.false_eq_true, if_false, Option.map_eq_some_iff] at found
        obtain ⟨j, foundRest, rfl⟩ := found
        obtain ⟨lead, tail, cut, leadLength, earlier⟩ := ih foundRest
        refine ⟨b :: lead, tail, by simp [cut], by simp [leadLength], ?_⟩
        intro k kLt
        cases k with
        | zero => simpa [← List.isPrefixOf_iff_prefix] using here
        | succ k => simpa using earlier k (by omega)

theorem indexOf?_of_notMem {a : UInt8} {needle lead : Text} (apart : a ∉ lead) (tail : Text) :
    indexOf? (a :: needle) (lead ++ (a :: needle ++ tail)) = some lead.length := by
  induction lead with
  | nil => exact indexOf?_eq_some_of_isPrefix (List.prefix_append _ _)
  | cons b lead ih =>
      have notHere : (a :: needle).isPrefixOf (b :: (lead ++ (a :: needle ++ tail))) = false := by
        have distinct : a ≠ b := by
          rintro rfl
          exact apart (by simp)
        simp [List.isPrefixOf, distinct]
      rw [List.cons_append, indexOf?, notHere, if_neg (by simp),
        ih fun member => apart (by simp [member])]
      simp

theorem indexOf?_eq_none_iff {needle : Text} (nonempty : needle ≠ []) :
    ∀ {t : Text}, indexOf? needle t = none ↔ ¬ needle <:+: t := by
  intro t
  induction t with
  | nil => simp [indexOf?, nonempty]
  | cons b rest ih =>
      by_cases here : needle.isPrefixOf (b :: rest) = true
      · have occurs : needle <:+: b :: rest := (List.isPrefixOf_iff_prefix.mp here).isInfix
        simp [indexOf?, here, occurs]
      · have notHere : ¬ needle <+: b :: rest := by
          simpa [← List.isPrefixOf_iff_prefix] using here
        simp [indexOf?, here, ih, List.infix_cons_iff, notHere]

theorem contains_iff_isInfix {needle : Text} (nonempty : needle ≠ []) (t : Text) :
    t.contains needle = true ↔ needle <:+: t := by
  rw [contains, ← Option.ne_none_iff_isSome, Ne, indexOf?_eq_none_iff nonempty, not_not]

theorem indexOf?_append_of_some {needle : Text} (nonempty : needle ≠ []) :
    ∀ {t : Text} {i : Nat} (more : Text), indexOf? needle t = some i →
      indexOf? needle (t ++ more) = some i := by
  intro t
  induction t with
  | nil =>
      intro i more found
      simp [indexOf?, nonempty] at found
  | cons b rest ih =>
      intro i more found
      by_cases here : needle.isPrefixOf (b :: rest) = true
      · have zero : i = 0 := by simpa [indexOf?, here] using found.symm
        have longer : needle <+: b :: rest ++ more :=
          (List.isPrefixOf_iff_prefix.mp here).trans (List.prefix_append _ _)
        rw [zero]
        exact indexOf?_eq_some_of_isPrefix longer
      · simp only [indexOf?, here, Bool.false_eq_true, if_false, Option.map_eq_some_iff] at found
        obtain ⟨j, foundRest, rfl⟩ := found
        -- An occurrence at the start of the longer text would reach past the one found in `rest`.
        have notHere : needle.isPrefixOf (b :: (rest ++ more)) = false := by
          by_contra occurs
          rw [Bool.not_eq_false, List.isPrefixOf_iff_prefix] at occurs
          obtain ⟨lead, tail, cut, -, -⟩ := indexOf?_spec foundRest
          have short : needle.length ≤ (b :: rest).length := by
            simp [cut]
            omega
          have inside : needle <+: b :: rest :=
            List.prefix_of_prefix_length_le occurs (List.prefix_append _ _) short
          exact here (List.isPrefixOf_iff_prefix.mpr inside)
        simp [indexOf?, notHere, ih more foundRest]

/-! ## Searching on both sides of a byte that the needle lacks -/

section Divided

variable {needle : Text} {sep : UInt8}

theorem prefix_append_sep_iff (apart : sep ∉ needle) (t more : Text) :
    needle <+: t ++ sep :: more ↔ needle <+: t := by
  constructor
  · intro occurs
    rcases Nat.lt_or_ge t.length needle.length with long | short
    · have divided : t ++ [sep] <+: t ++ sep :: more := ⟨more, by simp⟩
      have reaches : t ++ [sep] <+: needle :=
        List.prefix_of_prefix_length_le divided occurs (by simp; omega)
      exact absurd (reaches.subset (by simp)) apart
    · exact List.prefix_of_prefix_length_le occurs (List.prefix_append _ _) short
  · intro occurs
    exact occurs.trans (List.prefix_append _ _)

theorem indexOf?_append_sep (nonempty : needle ≠ []) (apart : sep ∉ needle) (t more : Text) :
    indexOf? needle (t ++ sep :: more) =
      (indexOf? needle t).or ((indexOf? needle more).map (· + (t.length + 1))) := by
  induction t with
  | nil =>
      have notHere : needle.isPrefixOf (sep :: more) = false := by
        by_contra occurs
        rw [Bool.not_eq_false, List.isPrefixOf_iff_prefix] at occurs
        have : needle <+: [] := (prefix_append_sep_iff apart [] more).mp occurs
        exact nonempty (List.prefix_nil.mp this)
      simp [indexOf?, notHere, nonempty]
  | cons b rest ih =>
      by_cases here : needle <+: b :: rest
      · have there : needle <+: b :: rest ++ sep :: more :=
          (prefix_append_sep_iff apart _ more).mpr here
        rw [indexOf?_eq_some_of_isPrefix here, indexOf?_eq_some_of_isPrefix there]
        rfl
      · have there : ¬ needle <+: b :: rest ++ sep :: more :=
          fun occurs => here ((prefix_append_sep_iff apart _ more).mp occurs)
        rw [← List.isPrefixOf_iff_prefix, Bool.not_eq_true] at here there
        rw [List.cons_append] at there ⊢
        simp only [indexOf?, here, there, Bool.false_eq_true, if_false, ih]
        cases indexOf? needle rest with
        | some i => simp
        | none =>
            simp only [Option.or, Option.map_none, Option.map_map, List.length_cons]
            rfl

/-- An occurrence lies on one side of a byte that the needle lacks. -/
theorem infix_append_sep_iff (nonempty : needle ≠ []) (apart : sep ∉ needle) {t more : Text} :
    needle <:+: t ++ sep :: more ↔ needle <:+: t ∨ needle <:+: more := by
  rw [← not_iff_not, not_or, ← indexOf?_eq_none_iff nonempty, ← indexOf?_eq_none_iff nonempty,
    ← indexOf?_eq_none_iff nonempty, indexOf?_append_sep nonempty apart, Option.or_eq_none_iff,
    Option.map_eq_none_iff]

end Divided

/-! ## Where the first occurrence is -/

/-- Behind `lead` the needle occurs for the first time, as far as `lead` can
tell. -/
def Leads (needle lead : Text) : Prop := indexOf? needle (lead ++ needle) = some lead.length

theorem Leads.indexOf? {needle lead : Text} (nonempty : needle ≠ []) (leads : Leads needle lead)
    (tail : Text) : indexOf? needle (lead ++ (needle ++ tail)) = some lead.length := by
  rw [← List.append_assoc]
  exact indexOf?_append_of_some nonempty tail leads

theorem exists_leads {needle t : Text} {i : Nat} (nonempty : needle ≠ [])
    (found : Text.indexOf? needle t = some i) :
    ∃ lead tail, t = lead ++ (needle ++ tail) ∧ Leads needle lead ∧ t.take i = lead := by
  obtain ⟨lead, tail, cut, leadLength, -⟩ := indexOf?_spec found
  refine ⟨lead, tail, cut, ?_, by rw [cut, ← leadLength, List.take_left]⟩
  cases again : Text.indexOf? needle (lead ++ needle) with
  | none =>
      have occurs : needle <:+: lead ++ needle := (List.suffix_append _ _).isInfix
      exact absurd occurs ((indexOf?_eq_none_iff nonempty).mp again)
  | some j =>
      have longer := indexOf?_append_of_some nonempty tail again
      rw [List.append_assoc, ← cut, found, Option.some.injEq] at longer
      rw [Leads, again, ← longer, leadLength]

theorem leads_singleton_iff {c : UInt8} {lead : Text} : Leads [c] lead ↔ c ∉ lead := by
  constructor
  · intro leads member
    obtain ⟨front, rest, rfl, frontApart⟩ := List.eq_append_cons_of_mem member
    have first : Text.indexOf? [c] (front ++ c :: (rest ++ [c])) = some front.length :=
      indexOf?_of_notMem frontApart (rest ++ [c])
    rw [Leads, List.append_assoc, List.cons_append, first] at leads
    simp at leads
  · intro apart
    simpa [Leads] using indexOf?_of_notMem apart []

/-- A line without the needle can be put in front of a lead. -/
theorem leads_append_sep_iff {needle : Text} {sep : UInt8} (nonempty : needle ≠ [])
    (apart : sep ∉ needle) (line lead : Text) :
    Leads needle (line ++ sep :: lead) ↔ Text.indexOf? needle line = none ∧
      Leads needle lead := by
  rw [Leads, Leads, List.append_assoc, List.cons_append, indexOf?_append_sep nonempty apart]
  cases inLine : Text.indexOf? needle line with
  | none =>
      simp only [Option.none_or, Option.map_eq_some_iff, List.length_append, List.length_cons,
        true_and]
      constructor
      · rintro ⟨i, found, place⟩
        rw [found, Option.some.injEq]
        omega
      · intro found
        exact ⟨_, found, by omega⟩
  | some i =>
      obtain ⟨front, tail, cut, frontLength, -⟩ := indexOf?_spec inLine
      have short : i ≤ line.length := by
        rw [cut, List.length_append]
        omega
      simp only [Option.some_or, Option.some.injEq, List.length_append, List.length_cons,
        reduceCtorEq, false_and, iff_false]
      omega

end ModuleDeps.Text
