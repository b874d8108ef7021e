import ModuleDeps.Proofs.Block.Frame
import ModuleDeps.Proofs.Disk.Follow
import ModuleDeps.Workspace.Files

/-!
# Files found by a walk

The names of a folder of a proper tree differ, and none of them holds a slash,
so the path that a walk makes for a file leads to that file.  A file that was
found can therefore be read (`exists_readFile`).
-/

set_option autoImplicit false

namespace ModuleDeps

open Text

namespace Listing

structure FileName (name : Text) : Prop where
  isName : Disk.IsName name
  apart : slash ∉ name
  printable : 0 ∉ name
  short : name.length ≤ Disk.maxName

theorem fileName_iff {name : Text} :
    FileName name ↔ (name ≠ [] ∧ name ≠ utf8 "." ∧ name ≠ utf8 "..") ∧
      slash ∉ name ∧ 0 ∉ name ∧
      name.length ≤ Disk.maxName := by
  constructor
  · intro own
    exact ⟨⟨own.isName.nonempty, own.isName.notHere, own.isName.notUp⟩, own.apart,
      own.printable, own.short⟩
  · rintro ⟨⟨nonempty, notHere, notUp⟩, apart, printable, short⟩
    exact ⟨⟨nonempty, notHere, notUp⟩, apart, printable, short⟩

instance : DecidablePred FileName := fun _ => decidable_of_iff' _ fileName_iff

/-- A listing as a disk has it: no name occurs twice in a folder. -/
def Proper : Listing → Prop
  | .nil => True
  | .file name _ rest => (FileName name ∧ name ∉ rest.names) ∧ rest.Proper
  | .folder name inner rest =>
    (FileName name ∧ name ∉ rest.names) ∧ inner.Proper ∧ rest.Proper

def decideProper : (l : Listing) → Decidable l.Proper
  | .nil => inferInstanceAs (Decidable True)
  | .file name _ rest =>
    have := decideProper rest
    inferInstanceAs (Decidable ((FileName name ∧ name ∉ rest.names) ∧ rest.Proper))
  | .folder name inner rest =>
    have := decideProper inner
    have := decideProper rest
    inferInstanceAs (Decidable ((FileName name ∧ name ∉ rest.names) ∧ inner.Proper ∧
      rest.Proper))

instance : DecidablePred Proper := decideProper

theorem mem_names_of_find? {name : Text} {l : Listing} {entry : Entry}
    (found : l.find? name = some entry) :
    name ∈ l.names := by
  induction l with
  | nil => cases found
  | file n content rest ih =>
      by_cases same : n = name
      · simp [names, same]
      · rw [find?, if_neg same] at found
        exact List.mem_cons_of_mem _ (ih found)
  | folder n inner rest _ ih =>
      by_cases same : n = name
      · simp [names, same]
      · rw [find?, if_neg same] at found
        exact List.mem_cons_of_mem _ (ih found)

section Rest

variable {name n : Text} {rest : Listing} {entry : Entry} (fresh : name ∉ rest.names)
  (found : rest.find? n = some entry)
include fresh found

theorem find?_behind_file (content : Text) : (file name content rest).find? n = some entry := by
  have other : name ≠ n := fun same => fresh (same ▸ mem_names_of_find? found)
  rw [find?, if_neg other, found]

theorem find?_behind_folder (inner : Listing) : (folder name inner rest).find? n = some entry := by
  have other : name ≠ n := fun same => fresh (same ▸ mem_names_of_find? found)
  rw [find?, if_neg other, found]

end Rest

end Listing

/-! ## What lies at a path -/

def Entry.Proper : Entry → Prop
  | .file _ => True
  | .folder inner => inner.Proper

theorem Listing.Proper.find? {name : Text} {l : Listing} (proper : l.Proper) {entry : Entry}
    (found : l.find? name = some entry) : entry.Proper := by
  induction l with
  | nil => cases found
  | file n content rest ih =>
      rw [Listing.find?] at found
      split at found
      · obtain rfl := Option.some.inj found
        trivial
      · exact ih proper.2 found
  | folder n inner rest _ ih =>
      rw [Listing.find?] at found
      split at found
      · obtain rfl := Option.some.inj found
        exact proper.2.1
      · exact ih proper.2.2 found

namespace Disk

/-- What lies at a place and above it is proper. -/
def Place.Proper (p : Place) : Prop := p.entry.Proper ∧ ∀ l ∈ p.above, l.Proper

theorem Place.Proper.step {p q : Place} {component : Text} (proper : p.Proper)
    (step : p.step component = .ok q) : q.Proper := by
  obtain ⟨own, above⟩ := proper
  obtain ⟨here, folder,
    rfl | ⟨-, rfl⟩ | ⟨parent, rest, held, rfl⟩ | ⟨entry, found, rfl⟩⟩ :=
      step_cases step
  · exact ⟨own, above⟩
  · exact ⟨own, by simp⟩
  · rw [held] at above
    exact ⟨above parent (by simp), fun l member => above l (by simp [member])⟩
  · rw [folder] at own
    refine ⟨Listing.Proper.find? own found, fun l member => ?_⟩
    rcases List.mem_cons.mp member with rfl | member
    · exact own
    · exact above l member

theorem proper_of_place {d : Disk} {path : Text} {p : Place} (proper : d.root.Proper)
    (placed : d.place path = .ok p) : p.Proper := by
  have start : d.top.Proper := ⟨proper, by simp [top]⟩
  exact foldlM_invariant Place.Proper.step start placed

/-! ## Walks -/

theorem visit_eq_ok_iff {path path' : Text} :
    visit path = .ok path' ↔ path' = path ∧ path.length ≤ maxPath := by
  rw [visit]
  split
  · rename_i long
    simp [long]
  · rename_i short
    simp only [Except.ok.injEq, Nat.not_lt.mp short, and_true]
    exact eq_comm

theorem moduleFiles_file {dir name content : Text} {rest : Listing} {files : List Text}
    (listed : (Listing.file name content rest).moduleFiles dir = .ok files) :
    (Path.join [dir, name]).length ≤ maxPath ∧
      ∃ more, rest.moduleFiles dir = .ok more ∧
      ∀ path ∈ files, path = Path.join [dir, name] ∨ path ∈ more := by
  rw [Listing.moduleFiles] at listed
  obtain ⟨path, visited, listed⟩ := exists_of_bind_eq_ok listed
  obtain ⟨rfl, short⟩ := visit_eq_ok_iff.mp visited
  obtain ⟨more, moreListed, made⟩ := exists_of_bind_eq_ok listed
  obtain rfl := Except.ok.inj made
  refine ⟨short, more, moreListed, fun path member => ?_⟩
  split at member
  · exact List.mem_cons.mp member
  · exact .inr member

theorem moduleFiles_folder {dir name : Text} {inner rest : Listing} {files : List Text}
    (listed : (Listing.folder name inner rest).moduleFiles dir = .ok files) :
    ∃ below more, (below = [] ∨ inner.moduleFiles (Path.join [dir, name]) = .ok below) ∧
      rest.moduleFiles dir = .ok more ∧ files = below ++ more := by
  rw [Listing.moduleFiles] at listed
  obtain ⟨path, visited, listed⟩ := exists_of_bind_eq_ok listed
  obtain ⟨rfl, -⟩ := visit_eq_ok_iff.mp visited
  obtain ⟨below, belowListed, listed⟩ := exists_of_bind_eq_ok listed
  obtain ⟨more, moreListed, made⟩ := exists_of_bind_eq_ok listed
  refine ⟨below, more, ?_, moreListed, (Except.ok.inj made).symm⟩
  split at belowListed
  · exact .inl (Except.ok.inj belowListed).symm
  · exact .inr belowListed

theorem readFile_of_place {d : Disk} {path text : Text} {q : Place}
    (addressable : Addressable path) (placed : d.place path = .ok q)
    (isFile : q.entry = .file text) : d.readFile path = .ok text := by
  rw [readFile, stat, locate_of_addressable d addressable, placed]
  simp [Except.map, Place.found, failing, isFile, bind, Except.bind, pure, Except.pure]

section Walk

variable {d : Disk} {dir name : Text} {p : Place} {whole : Listing}

/-- One step of a walk goes where the path of the entry leads. -/
theorem place_entry (placed : d.place dir = .ok p) (folder : p.entry = .folder whole)
    (nonempty : dir ≠ []) (own : Listing.FileName name) {entry : Entry}
    (found : whole.find? name = some entry) :
    d.place (Path.join [dir, name]) = .ok ⟨whole :: p.above, name :: p.trail, entry⟩ := by
  apply place_join nonempty own.isName own.apart placed
  rw [own.isName.step folder, if_neg (Nat.not_lt.mpr own.short), found]

theorem notMem_join (printable : 0 ∉ dir) (nonempty : dir ≠ []) (own : Listing.FileName name) :
    0 ∉ Path.join [dir, name] := by
  intro member
  rw [join_pair nonempty own.isName.nonempty] at member
  have inside := mem_of_mem_clean (by decide) (by decide) member
  rcases List.mem_append.mp inside with front | behind
  · exact printable front
  · rcases List.mem_cons.mp behind with isSlash | inName
    · cases isSlash
    · exact own.printable inName

/-- The files that a walk still has to find in a folder can be read.  No name is
repeated in what is left of the folder, so what has a name there has it in the
whole folder. -/
theorem exists_readFile_of_walk {l : Listing} {files : List Text} (placed : d.place dir = .ok p)
    (folder : p.entry = .folder whole) (nonempty : dir ≠ []) (printable : 0 ∉ dir)
    (proper : l.Proper)
    (part : ∀ {name : Text} {entry : Entry}, l.find? name = some entry →
      whole.find? name = some entry)
    (listed : l.moduleFiles dir = .ok files) :
    ∀ path ∈ files, ∃ text, d.readFile path = .ok text := by
  -- `l` is what is left of the folder `whole`, in which names are looked up.
  induction l generalizing dir p whole files with
  | nil =>
      obtain rfl := Except.ok.inj listed
      simp
  | file name content rest ih =>
      obtain ⟨⟨own, fresh⟩, restProper⟩ := proper
      obtain ⟨short, more, moreListed, split⟩ := moduleFiles_file listed
      have found : whole.find? name = some (.file content) := part (by simp [Listing.find?])
      have behind := ih placed folder nonempty printable restProper
        (fun inRest => part (Listing.find?_behind_file fresh inRest content)) moreListed
      intro path member
      rcases split path member with rfl | inMore
      · have addressable : Addressable (Path.join [dir, name]) :=
          ⟨join_ne_nil nonempty own.isName.nonempty, notMem_join printable nonempty own, short⟩
        exact ⟨content, readFile_of_place addressable
          (place_entry placed folder nonempty own found) rfl⟩
      · exact behind path inMore
  | folder name inner rest ihInner ihRest =>
      obtain ⟨⟨own, fresh⟩, innerProper, restProper⟩ := proper
      obtain ⟨below, more, inside, moreListed, rfl⟩ := moduleFiles_folder listed
      have found : whole.find? name = some (.folder inner) := part (by simp [Listing.find?])
      have behind := ihRest placed folder nonempty printable restProper
        (fun inRest => part (Listing.find?_behind_folder fresh inRest inner)) moreListed
      intro path member
      rcases List.mem_append.mp member with inBelow | inMore
      · rcases inside with rfl | belowListed
        · cases inBelow
        · exact ihInner (place_entry placed folder nonempty own found) rfl
            (join_ne_nil nonempty own.isName.nonempty)
            (notMem_join printable nonempty own) innerProper id belowListed path inBelow
      · exact behind path inMore

end Walk

theorem exists_place_of_stat {d : Disk} {path : Text} {operation : String} {entry : Entry}
    (found : d.stat path operation = .ok entry) :
    Addressable path ∧ ∃ p, d.place path = .ok p ∧ p.entry = entry := by
  rw [stat] at found
  cases located : d.locate path with
  | error cause => simp [located, Except.map, failing] at found
  | ok place =>
      rw [located] at found
      obtain ⟨p, placed, rfl⟩ := exists_place located
      exact ⟨addressable_of_locate located, p, placed, Except.ok.inj found⟩

theorem exists_readFile {d : Disk} {dir : Text} {files : List Text} (proper : d.root.Proper)
    (isFolder : d.isFolder dir = .ok true) (found : d.moduleFiles dir = .ok files) :
    ∀ path ∈ files, ∃ text, d.readFile path = .ok text := by
  obtain ⟨entry, stated, isFolder⟩ := exists_of_bind_eq_ok isFolder
  obtain ⟨addressable, p, placed, rfl⟩ := exists_place_of_stat stated
  obtain ⟨entry, stated, listed⟩ := exists_of_bind_eq_ok found
  obtain ⟨-, p', placed', rfl⟩ := exists_place_of_stat stated
  obtain rfl : p = p' := Except.ok.inj (placed ▸ placed')
  cases entered : p.entry with
  | file content =>
      rw [entered] at isFolder
      cases isFolder
  | folder inner =>
      rw [entered] at listed
      have inside : inner.Proper := by
        have properPlace := proper_of_place proper placed
        rw [Place.Proper, entered] at properPlace
        exact properPlace.1
      exact exists_readFile_of_walk placed entered addressable.nonempty addressable.printable
        inside id listed

end Disk

end ModuleDeps
