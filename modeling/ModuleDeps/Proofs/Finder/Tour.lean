import ModuleDeps.Finder
import ModuleDeps.Proofs.Disk.Names

/-!
# The order of a walk

The entries of a tree are met depth first, those of one folder in byte order of
their names.  So one entry is met before another when the names of its path come
first in the order of words over names: a folder before what it holds, and what it
holds before what stands behind it.
-/

set_option autoImplicit false

namespace ModuleDeps

open Text

namespace Listing

/-- A listing in the order of a walk: the names of every folder rise. -/
def Sorted : Listing → Prop
  | .nil => True
  | .file name _ rest =>
    (name ≠ [] ∧ slash ∉ name ∧ ∀ n ∈ rest.names, name < n) ∧ rest.Sorted
  | .folder name inner rest =>
    (name ≠ [] ∧ slash ∉ name ∧ ∀ n ∈ rest.names, name < n) ∧ inner.Sorted ∧
      rest.Sorted

def decideSorted : (l : Listing) → Decidable l.Sorted
  | .nil => inferInstanceAs (Decidable True)
  | .file name _ rest =>
    have := decideSorted rest
    inferInstanceAs (Decidable ((name ≠ [] ∧ slash ∉ name ∧
      ∀ n ∈ rest.names, name < n) ∧ rest.Sorted))
  | .folder name inner rest =>
    have := decideSorted inner
    have := decideSorted rest
    inferInstanceAs (Decidable
      ((name ≠ [] ∧ slash ∉ name ∧ ∀ n ∈ rest.names, name < n) ∧ inner.Sorted ∧
        rest.Sorted))

instance : DecidablePred Sorted := decideSorted

def folders : List Text → Listing → List (List Text)
  | _, .nil => []
  | above, .file _ _ rest => folders above rest
  | above, .folder name inner rest =>
    (above ++ [name]) :: (folders (above ++ [name]) inner ++ folders above rest)

end Listing

inductive Visit
  | folder (path : List Text)
  | file (path : List Text)
deriving DecidableEq, Repr

namespace Visit

def path : Visit → List Text
  | .folder path => path
  | .file path => path

def file? : Visit → Option (List Text)
  | .folder _ => none
  | .file path => some path

end Visit

namespace Listing

def visits : List Text → Listing → List Visit
  | _, .nil => []
  | above, .file name _ rest => .file (above ++ [name]) :: visits above rest
  | above, .folder name inner rest =>
    .folder (above ++ [name]) :: (visits (above ++ [name]) inner ++ visits above rest)

theorem files_of_visits (above : List Text) (l : Listing) :
    (l.visits above).filterMap Visit.file? = (l.files above).map Prod.fst := by
  induction l generalizing above with
  | nil => rfl
  | file name content rest ih => simp [visits, files, Visit.file?, ih]
  | folder name inner rest ihInner ihRest =>
      simp [visits, files, Visit.file?, List.filterMap_cons, ihInner, ihRest]

theorem folder_mem_visits {above dir : List Text} {l : Listing} :
    .folder dir ∈ l.visits above ↔ dir ∈ l.folders above := by
  induction l generalizing above with
  | nil => simp [visits, folders]
  | file name content rest ih => simp [visits, folders, ih]
  | folder name inner rest ihInner ihRest => simp [visits, folders, ihInner, ihRest]

theorem exists_of_mem_visits {above : List Text} {l : Listing} {v : Visit}
    (met : v ∈ l.visits above) :
    ∃ name ∈ l.names, ∃ more, v.path = above ++ name :: more := by
  induction l generalizing above with
  | nil => cases met
  | file name content rest ih =>
      rcases List.mem_cons.mp met with rfl | met
      · exact ⟨name, by simp [names], [], rfl⟩
      · obtain ⟨other, member, more, eq⟩ := ih met
        exact ⟨other, by simp [names, member], more, eq⟩
  | folder name inner rest ihInner ihRest =>
      rcases List.mem_cons.mp met with rfl | met
      · exact ⟨name, by simp [names], [], rfl⟩
      · rcases List.mem_append.mp met with met | met
        · obtain ⟨other, -, more, eq⟩ := ihInner met
          exact ⟨name, by simp [names], other :: more, by simp [eq]⟩
        · obtain ⟨other, member, more, eq⟩ := ihRest met
          exact ⟨other, by simp [names, member], more, eq⟩

section Order

variable {above : List Text} {name : Text} {rest : Listing}

/-- What a name leads to is met before what stands behind the name. -/
theorem lt_of_mem_visits (rising : ∀ n ∈ rest.names, name < n) (more : List Text) {v : Visit}
    (met : v ∈ rest.visits above) : above ++ name :: more < v.path := by
  obtain ⟨other, member, further, eq⟩ := exists_of_mem_visits met
  rw [eq]
  exact List.append_left_lt (List.cons_lt_cons_iff.mpr (.inl (rising other member)))

theorem lt_of_mem_visits_inside {inner : Listing} {v : Visit}
    (met : v ∈ inner.visits (above ++ [name])) :
    above ++ [name] < v.path := by
  obtain ⟨other, -, further, eq⟩ := exists_of_mem_visits met
  rw [eq, List.append_assoc]
  exact List.append_left_lt (List.cons_lt_cons_iff.mpr (.inr ⟨rfl, List.nil_lt_cons _ _⟩))

end Order

theorem Sorted.visits {l : Listing} (sorted : l.Sorted) (above : List Text) :
    (l.visits above).Pairwise fun v w => v.path < w.path := by
  induction l generalizing above with
  | nil => exact .nil
  | file name content rest ih =>
      obtain ⟨⟨-, -, rising⟩, behind⟩ := sorted
      exact .cons (fun v met => lt_of_mem_visits rising [] met) (ih behind above)
  | folder name inner rest ihInner ihRest =>
      obtain ⟨⟨-, -, rising⟩, inside, behind⟩ := sorted
      refine .cons (fun v met => ?_) (List.pairwise_append.mpr
        ⟨ihInner inside _, ihRest behind _, fun v inInner w inRest => ?_⟩)
      · rcases List.mem_append.mp met with met | met
        · exact lt_of_mem_visits_inside met
        · exact lt_of_mem_visits rising [] met
      · obtain ⟨other, -, more, eq⟩ := exists_of_mem_visits inInner
        rw [eq, List.append_assoc]
        exact lt_of_mem_visits rising (other :: more) inRest

theorem Sorted.named {l : Listing} (sorted : l.Sorted) {above : List Text} (named : Named above)
    {v : Visit} (met : v ∈ l.visits above) : Named v.path := by
  induction l generalizing above with
  | nil => cases met
  | file name content rest ih =>
      obtain ⟨⟨some, apart, -⟩, behind⟩ := sorted
      rcases List.mem_cons.mp met with rfl | met
      · exact named.concat some apart
      · exact ih behind named met
  | folder name inner rest ihInner ihRest =>
      obtain ⟨⟨some, apart, -⟩, inside, behind⟩ := sorted
      rcases List.mem_cons.mp met with rfl | met
      · exact named.concat some apart
      · rcases List.mem_append.mp met with met | met
        · exact ihInner inside (named.concat some apart) met
        · exact ihRest behind named met

end Listing

end ModuleDeps
