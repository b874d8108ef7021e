import Mathlib.Data.List.Infix
import ModuleDeps.Proofs.Text.Lines

/-!
# Paths from names

A path inside a tree is the list of its names, from the top on, and its text has
the names between slashes.  No name holds a slash, so the text tells the names.
-/

set_option autoImplicit false

namespace ModuleDeps

open Text

def pathOf (names : List Text) : Text := joinWith [slash] names

theorem pathOf_singleton (name : Text) : pathOf [name] = name := by
  simp [pathOf, joinWith]

theorem pathOf_cons_cons (name next : Text) (rest : List Text) :
    pathOf (name :: next :: rest) = name ++ slash :: pathOf (next :: rest) := by
  simp [pathOf, joinWith, List.intercalate_cons_cons]

theorem pathOf_concat {above : List Text} (below : above ≠ []) (name : Text) :
    pathOf (above ++ [name]) = pathOf above ++ slash :: name := by
  induction above with
  | nil => exact absurd rfl below
  | cons first rest ih =>
      cases rest with
      | nil => rw [pathOf_singleton, List.singleton_append, pathOf_cons_cons, pathOf_singleton]
      | cons next rest =>
          rw [List.cons_append, List.cons_append, pathOf_cons_cons, ← List.cons_append,
            ih (by simp), pathOf_cons_cons, List.append_assoc, List.cons_append]

/-- What stands above an entry is the folder it is in, and what stands above that. -/
theorem forall_inits_concat {p : List Text → Prop} {above : List Text} {name : Text} :
    (∀ dir ∈ (above ++ [name]).inits, p dir) ↔ (∀ dir ∈ above.inits, p dir) ∧
      p (above ++ [name]) := by
  simp only [List.mem_inits, List.prefix_concat_iff]
  constructor
  · intro each
    exact ⟨fun dir isFront => each dir (.inr isFront), each _ (.inl rfl)⟩
  · rintro ⟨each, own⟩ dir (rfl | isFront)
    · exact own
    · exact each dir isFront

def Named (names : List Text) : Prop := ∀ name ∈ names, name ≠ [] ∧ slash ∉ name

theorem Named.concat {above : List Text} (named : Named above) {name : Text} (some : name ≠ [])
    (apart : slash ∉ name) :
    Named (above ++ [name]) := by
  intro n member
  rcases List.mem_append.mp member with member | member
  · exact named n member
  · exact List.mem_singleton.mp member ▸ ⟨some, apart⟩

theorem Named.pathOf_ne_nil {names : List Text} (named : Named names) (some : names ≠ []) :
    pathOf names ≠ [] := by
  obtain ⟨name, rest, rfl⟩ := List.exists_cons_of_ne_nil some
  cases rest with
  | nil => simpa [pathOf_singleton] using (named name (by simp)).1
  | cons next rest => simp [pathOf_cons_cons]

theorem Named.splitAt_pathOf {names : List Text} (named : Named names) (some : names ≠ []) :
    splitAt slash (pathOf names) = names := by
  have apart : ∀ name ∈ names, slash ∉ name := fun name member => (named name member).2
  rw [pathOf, joinWith, splitAt_eq_splitOn, List.splitOn_intercalate slash apart some]

theorem Named.pathOf_inj {names names' : List Text} (named : Named names) (named' : Named names')
    (same : pathOf names = pathOf names') : names = names' := by
  rcases names with _ | ⟨name, rest⟩ <;> rcases names' with _ | ⟨name', rest'⟩
  · rfl
  · exact absurd same.symm (named'.pathOf_ne_nil (by simp))
  · exact absurd same (named.pathOf_ne_nil (by simp))
  · rw [← named.splitAt_pathOf (by simp), ← named'.splitAt_pathOf (by simp), same]

end ModuleDeps
