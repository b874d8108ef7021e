import ModuleDeps.Proofs.Disk.Follow
import ModuleDeps.Proofs.Disk.Names

/-!
# Absolute clean paths

An absolute clean path is a slash with names behind it, and every name leads one
folder down.  Its directory is the path without the last name; the path without
names is its own directory.
-/

set_option autoImplicit false

namespace ModuleDeps

open Text

def rooted (names : List Text) : Text := slash :: pathOf names

/-- Names that each lead one folder down. -/
def Descending (names : List Text) : Prop := ∀ name ∈ names, Disk.IsName name ∧ slash ∉ name

theorem Descending.named {names : List Text} (down : Descending names) : Named names :=
  fun name member => ⟨(down name member).1.nonempty, (down name member).2⟩

theorem descending_nil : Descending [] := List.forall_mem_nil _

theorem descending_concat {names : List Text} {name : Text} :
    Descending (names ++ [name]) ↔ Descending names ∧ Disk.IsName name ∧ slash ∉ name := by
  rw [Descending, List.forall_mem_append, List.forall_mem_singleton]
  rfl

theorem Text.lastIndexOf?_of_notMem {b : UInt8} {t : Text} (apart : b ∉ t) :
    lastIndexOf? b t = none := by
  induction t with
  | nil => rfl
  | cons c t ih =>
      obtain ⟨other, apart⟩ := List.ne_and_not_mem_of_not_mem_cons apart
      rw [lastIndexOf?, ih apart]
      exact if_neg (Ne.symm other)

theorem Text.lastIndexOf?_append {b : UInt8} {t : Text} (apart : b ∉ t) (lead : Text) :
    lastIndexOf? b (lead ++ b :: t) = some lead.length := by
  induction lead with
  | nil =>
      rw [List.nil_append, lastIndexOf?, lastIndexOf?_of_notMem apart]
      exact if_pos rfl
  | cons c lead ih =>
      rw [List.cons_append, lastIndexOf?, ih]
      rfl

namespace Path

/-! ## Cleaning -/

section Push

variable {held : List Text} {component : Text}

/-- From the root on no step up is held. -/
theorem descending_push (down : Descending held) (apart : slash ∉ component) :
    Descending (push true held component) := by
  rw [push.eq_def]
  split
  · exact down
  · rename_i notIdle
    obtain ⟨nonempty, notHere⟩ := not_or.mp notIdle
    split
    · cases held with
      | nil => exact down
      | cons last rest =>
          obtain ⟨⟨own, -⟩, below⟩ := List.forall_mem_cons.mp down
          simp only [if_neg own.notUp]
          exact below
    · rename_i notUp
      exact List.forall_mem_cons.mpr ⟨⟨⟨nonempty, notHere, notUp⟩, apart⟩, down⟩

theorem descending_foldl {components : List Text} (apart : ∀ c ∈ components, slash ∉ c)
    (down : Descending held) :
    Descending (components.foldl (push true) held) := by
  induction components generalizing held with
  | nil => exact down
  | cons component rest ih =>
      obtain ⟨own, others⟩ := List.forall_mem_cons.mp apart
      exact ih others (descending_push down own)

end Push

theorem descending_cleanComponents {path : Text} (absolute : isAbsolute path = true) :
    Descending (cleanComponents path) := by
  intro name member
  rw [cleanComponents, absolute, List.mem_reverse] at member
  exact descending_foldl (Disk.apart_components path) descending_nil name member

theorem eq_rooted_of_clean {path : Text} (absolute : isAbsolute path = true)
    (isClean : clean path = path) :
    path = rooted (cleanComponents path) := by
  rw [clean, if_pos absolute] at isClean
  exact isClean.symm

theorem foldl_push_of_names {rooted : Bool} {components : List Text}
    (names : ∀ c ∈ components, c ≠ [] → Disk.IsName c) (held : List Text) :
    components.foldl (push rooted) held = (components.filter (· ≠ [])).reverse ++ held := by
  induction components generalizing held with
  | nil => rfl
  | cons component rest ih =>
      obtain ⟨own, others⟩ := List.forall_mem_cons.mp names
      rw [List.foldl_cons, ih others]
      by_cases empty : component = []
      · subst empty
        rfl
      · have isName := own empty
        have pushed : push rooted held component = component :: held := by
          simp [push, isName.nonempty, isName.notHere, isName.notUp]
        rw [pushed, List.filter_cons_of_pos (by simpa using empty)]
        simp

theorem cleanComponents_of_names {path : Text} {names : List Text} (down : Descending names)
    (isPath : (components path).filter (· ≠ []) = names) : cleanComponents path = names := by
  have isName : ∀ c ∈ components path, c ≠ [] → Disk.IsName c := by
    intro c member nonempty
    exact (down c (isPath ▸ List.mem_filter.mpr ⟨member, by simpa using nonempty⟩)).1
  rw [cleanComponents, foldl_push_of_names isName, List.append_nil, List.reverse_reverse, isPath]

theorem clean_of_names {path : Text} {names : List Text} (absolute : isAbsolute path = true)
    (down : Descending names) (isPath : (components path).filter (· ≠ []) = names) :
    clean path = rooted names := by
  rw [clean, if_pos absolute, cleanComponents_of_names down isPath]
  rfl

theorem names_of_rooted {names : List Text} (down : Descending names) :
    (components (rooted names)).filter (· ≠ []) = names := by
  rw [rooted, Disk.components_slash, List.filter_cons_of_neg (by simp)]
  by_cases top : names = []
  · subst top
    rfl
  · rw [pathOf, Disk.components_joined top fun name member => (down name member).2,
      List.filter_eq_self]
    intro name member
    simpa using (down name member).1.nonempty

theorem components_append_slash (path rest : Text) :
    components (path ++ slash :: rest) = components path ++ components rest :=
  splitAt_append_sep slash path rest

/-! ## Up and down -/

theorem dir_rooted_nil : dir (rooted []) = rooted [] := by decide +kernel

theorem dir_rooted_concat {above : List Text} {name : Text} (down : Descending (above ++ [name])) :
    dir (rooted (above ++ [name])) = rooted above := by
  obtain ⟨downAbove, -, apart⟩ := descending_concat.mp down
  obtain ⟨front, cut, absolute, names⟩ : ∃ front,
    rooted (above ++ [name]) = front ++ slash :: name ∧
      isAbsolute (front ++ [slash]) = true ∧ (components front).filter (· ≠ []) = above := by
    by_cases top : above = []
    · subst top
      exact ⟨[], by rw [rooted, List.nil_append, pathOf_singleton, List.nil_append], rfl, rfl⟩
    · exact ⟨rooted above, by rw [rooted, pathOf_concat top]; rfl, rfl,
        names_of_rooted downAbove⟩
  have parts : (components (front ++ [slash])).filter (· ≠ []) = above := by
    rw [components_append_slash, List.filter_append, names]
    exact List.append_nil above
  have taken : (front ++ slash :: name).take (front.length + 1) = front ++ [slash] := by
    rw [List.append_cons, List.take_left' (by rw [List.length_append]; rfl)]
  rw [dir, cut, lastIndexOf?_append apart]
  simp only [taken]
  exact clean_of_names absolute downAbove parts

theorem join_rooted {names : List Text} (down : Descending names) {name : Text}
    (isName : Disk.IsName name) (apart : slash ∉ name) :
    join [rooted names, name] = rooted (names ++ [name]) := by
  have own : (components name).filter (· ≠ []) = [name] := by
    rw [components, splitAt_of_notMem apart,
      List.filter_cons_of_pos (by simpa using isName.nonempty)]
    rfl
  have nonempty : rooted names ≠ [] := List.cons_ne_nil _ _
  rw [Disk.join_pair nonempty isName.nonempty]
  refine clean_of_names rfl (descending_concat.mpr ⟨down, isName, apart⟩) ?_
  rw [components_append_slash, List.filter_append, names_of_rooted down, own]

end Path

end ModuleDeps
