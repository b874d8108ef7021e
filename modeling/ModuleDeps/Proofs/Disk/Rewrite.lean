import ModuleDeps.Proofs.Disk.Follow

/-!
# Writing a file

A file that is written keeps its place, and so does everything else: the same
paths lead to the same names as before, what is no file stays what it is, and a
path that does not lead to the file reads as before (`onlyFile_writeFile`).  The
proof follows a path on both disks at once; wherever it has come to, the one
place is the other with the file written into it (`Place.step_edited`).
-/

set_option autoImplicit false

namespace ModuleDeps

open Text

/-! ## Entries of a folder -/

def Entry.setFile (new : Text) (path : List Text) (name : Text) : Entry → Entry
  | .file old => if path = [name] then .file new else .file old
  | .folder inner =>
    match path with
    | [] => .folder inner
    | n :: below => if n = name then .folder (inner.setFile new below) else .folder inner

theorem Entry.setFile_nil (new name : Text) (entry : Entry) :
    entry.setFile new [] name = entry := by
  cases entry <;> simp [setFile]

theorem Entry.setFile_of_ne (new : Text) {n name : Text} (other : n ≠ name) (below : List Text)
    (entry : Entry) :
    entry.setFile new (n :: below) name = entry := by
  cases entry <;> simp [setFile, other]

theorem Listing.setFile_nil (new : Text) (l : Listing) : l.setFile new [] = l := by
  induction l with
  | nil => rfl
  | file n old rest ih => simp [setFile, ih]
  | folder n inner rest _ ih => rfl

/-- A write reaches the entry of a name first of all, and no other entry of the
folder. -/
theorem Listing.find?_setFile (new : Text) (path : List Text) (name : Text) (l : Listing) :
    (l.setFile new path).find? name = (l.find? name).map (Entry.setFile new path name) := by
  induction l with
  | nil => rfl
  | file n old rest ih =>
      rw [setFile]
      by_cases same : n = name
      · subst same
        split <;> simp_all [find?, Entry.setFile]
      · split
        · rename_i here
          have unchanged : Entry.setFile new path name = id := by
            rw [here]
            exact funext (Entry.setFile_of_ne new same [])
          simp [find?, same, unchanged]
        · simp [find?, same, ih]
  | folder n inner rest _ ih =>
      cases path with
      | nil =>
          have unchanged : Entry.setFile new [] name = id := funext (Entry.setFile_nil new name)
          simp [setFile_nil, unchanged]
      | cons m below =>
          rw [setFile]
          by_cases inside : n = m
          · subst inside
            by_cases same : n = name
            · simp [find?, same, Entry.setFile]
            · have unchanged : Entry.setFile new (n :: below) name = id :=
                funext (Entry.setFile_of_ne new same below)
              simp [find?, same, unchanged]
          · by_cases same : n = name
            · subst same
              simp [find?, inside, Entry.setFile, Ne.symm inside]
            · simp [find?, inside, same, ih]

/-! ## Places -/

namespace Disk

section Edited

variable (new : Text) (names : List Text)

/-- What is left of the names of the written file behind a trail, if the trail
leads there. -/
def remaining : List Text → Option (List Text)
  | [] => some names
  | name :: trail =>
    match remaining trail with
    | some (n :: below) => if n = name then some below else none
    | _ => none

/-- A folder with the file written into it. -/
def editListing (trail : List Text) (l : Listing) : Listing :=
  match remaining names trail with
  | some path => l.setFile new path
  | none => l

def editEntry (trail : List Text) : Entry → Entry
  | .file old => if remaining names trail = some [] then .file new else .file old
  | .folder inner => .folder (editListing new names trail inner)

def editAbove (trail : List Text) : List Listing → List Listing
  | [] => []
  | l :: above => editListing new names trail.tail l :: editAbove trail.tail above

def Place.edited (p : Place) : Place :=
  ⟨editAbove new names p.trail p.above, p.trail, editEntry new names p.trail p.entry⟩

theorem editEntry_of_none {trail : List Text} (apart : remaining names trail = none)
    (entry : Entry) :
    editEntry new names trail entry = entry := by
  cases entry <;> simp [editEntry, editListing, apart]

/-- Below a place the write goes on with what is left of the names. -/
theorem editEntry_cons (trail : List Text) (name : Text) (entry : Entry) :
    editEntry new names (name :: trail) entry =
      match remaining names trail with
      | some path => entry.setFile new path name
      | none => entry := by
  cases left : remaining names trail with
  | none => exact editEntry_of_none new names (by simp [remaining, left]) entry
  | some path =>
      cases path with
      | nil =>
          have apart : remaining names (name :: trail) = none := by simp [remaining, left]
          simp only [editEntry_of_none new names apart, Entry.setFile_nil]
      | cons n below =>
          by_cases same : n = name
          · subst same
            have next : remaining names (n :: trail) = some below := by simp [remaining, left]
            cases entry <;> simp [editEntry, editListing, next, Entry.setFile]
          · have apart : remaining names (name :: trail) = none := by simp [remaining, left, same]
            simp only [editEntry_of_none new names apart, Entry.setFile_of_ne new same]

theorem find?_editListing (trail : List Text) (name : Text) (l : Listing) :
    (editListing new names trail l).find? name =
      (l.find? name).map (editEntry new names (name :: trail)) := by
  have below : editEntry new names (name :: trail) = fun entry =>
      match remaining names trail with
      | some path => entry.setFile new path name
      | none => entry := funext (editEntry_cons new names trail name)
  rw [below, editListing]
  cases remaining names trail with
  | none => exact Option.map_id'.symm
  | some path => exact Listing.find?_setFile new path name l

/-- Every folder above has a name on the trail. -/
def Place.Even (p : Place) : Prop := p.above.length = p.trail.length

theorem Place.Even.step {p q : Place} {component : Text} (even : p.Even)
    (step : p.step component = .ok q) : q.Even := by
  obtain ⟨here, -, rfl | ⟨-, rfl⟩ | ⟨parent, above, held, rfl⟩ | ⟨entry, -, rfl⟩⟩ :=
    step_cases step
  · exact even
  · exact rfl
  · rw [Even, held] at even
    simp [Even, ← even]
  · simpa [Even] using even

variable {new names}

/-- A step from a place with the file written into it leads where the step leads,
with the file written into that. -/
theorem Place.step_edited {p : Place} (even : p.Even) (component : Text) :
    (p.edited new names).step component = (p.step component).map (Place.edited new names) := by
  obtain ⟨above, trail, entry⟩ := p
  cases entry with
  | file old =>
      have isFile : ∃ content, editEntry new names trail (.file old) = .file content := by
        rw [editEntry]
        split <;> exact ⟨_, rfl⟩
      obtain ⟨content, isFile⟩ := isFile
      simp only [Place.step, edited, isFile]
      rfl
  | folder here =>
      simp only [Place.step, edited, editEntry]
      split
      · rfl
      · split
        · cases above with
          | nil =>
              obtain rfl : trail = [] := List.length_eq_zero_iff.mp even.symm
              rfl
          | cons parent above => rfl
        · split
          · rfl
          · rw [find?_editListing]
            cases here.find? component with
            | none => rfl
            | some entry => rfl

theorem foldlM_edited {p : Place} (even : p.Even) (components : List Text) :
    components.foldlM Place.step (p.edited new names) =
      (components.foldlM Place.step p).map (Place.edited new names) := by
  induction components generalizing p with
  | nil => rfl
  | cons component rest ih =>
      rw [List.foldlM_cons, List.foldlM_cons, Place.step_edited even]
      cases step : p.step component with
      | error cause => rfl
      | ok q => exact ih (even.step step)

end Edited

/-! ## Disks -/

theorem remaining_eq_some_iff {names trail rest : List Text} :
    remaining names trail = some rest ↔ names = trail.reverse ++ rest := by
  induction trail generalizing rest with
  | nil => simp [remaining]
  | cons name trail ih =>
      rw [List.reverse_cons, List.append_assoc, List.singleton_append, ← ih, remaining]
      split
      · rename_i n below left
        by_cases same : n = name
        · simp [left, same]
        · simp [left, same]
      · rename_i stop
        simp only [reduceCtorEq, false_iff]
        exact fun left => stop name rest left

def written (d : Disk) (names : List Text) (new : Text) : Disk :=
  { d with root := d.root.setFile new names }

theorem place_written (d : Disk) (names : List Text) (new path : Text) :
    (d.written names new).place path = (d.place path).map (Place.edited new names) := by
  have even : d.top.Even := rfl
  exact foldlM_edited even (d.route path)

theorem locate_of_not_addressable {path : Text} (lost : ¬ Addressable path) :
    ∃ cause, ∀ d : Disk, d.locate path = .error cause := by
  by_cases printable : List.contains path 0
  · exact ⟨.invalidPath, fun d => by rw [locate, if_pos printable]⟩
  · by_cases empty : path.isEmpty
    · exact ⟨.notFound, fun d => by rw [locate, if_neg printable, if_pos empty]⟩
    · have long : maxPath < path.length := by
        by_contra short
        exact lost ⟨by simpa using empty, by simpa using printable, Nat.not_lt.mp short⟩
      exact ⟨.nameTooLong, fun d => by rw [locate, if_neg printable, if_neg empty, if_pos long]⟩

theorem locate_written (d : Disk) (names : List Text) (new path : Text) :
    (d.written names new).locate path =
      (d.locate path).map fun found => (found.1, editEntry new names found.1.reverse found.2) := by
  by_cases addressable : Addressable path
  · rw [locate_of_addressable _ addressable, locate_of_addressable _ addressable, place_written]
    cases d.place path with
    | error cause => rfl
    | ok p => simp [Except.map, Place.found, Place.edited]
  · obtain ⟨cause, lost⟩ := locate_of_not_addressable addressable
    rw [lost, lost]
    rfl

def spot (d : Disk) (path : Text) : Except DiskCause (List Text) := (d.locate path).map Prod.fst

/-- Two disks differ in the content of one file only, the one that a path leads
to: on the second disk it is `new`. -/
structure OnlyFile (d d' : Disk) (path new : Text) : Prop where
  workingDir : d'.workingDir = d.workingDir
  spot (other : Text) : d'.spot other = d.spot other
  isFolder (other : Text) : d'.isFolder other = d.isFolder other
  read : d'.readFile path = .ok new
  readOther {other : Text} (apart : d.spot other ≠ d.spot path) :
    d'.readFile other = d.readFile other

theorem onlyFile_writeFile {d d' : Disk} {path new : Text} (wrote : d.writeFile path new = .ok d') :
    d.OnlyFile d' path new := by
  rw [writeFile] at wrote
  rcases located : d.locate path with cause | ⟨names, old | inner⟩
  · simp [located] at wrote
  · rw [located] at wrote
    obtain rfl : d.written names new = d' := Except.ok.inj wrote
    refine ⟨rfl, fun other => ?_, fun other => ?_, ?_, fun {other} apart => ?_⟩
    · rw [spot, spot, locate_written]
      cases d.locate other <;> rfl
    · rw [isFolder, isFolder, stat, stat, locate_written]
      rcases d.locate other with cause | ⟨names', content | inner⟩
      · rfl
      · simp only [Except.map, editEntry]
        split <;> rfl
      · rfl
    · have reached : remaining names names.reverse = some [] := remaining_eq_some_iff.mpr (by simp)
      rw [readFile, stat, locate_written, located]
      simp only [Except.map, editEntry, reached, if_true]
      rfl
    · rw [readFile, readFile, stat, stat, locate_written]
      rcases elsewhere : d.locate other with cause | ⟨names', content | inner⟩
      · rfl
      · have missed : ¬ remaining names names'.reverse = some [] := by
          intro reached
          obtain rfl : names = names' := by simpa using remaining_eq_some_iff.mp reached
          exact apart (by simp [spot, elsewhere, located, Except.map])
        simp only [Except.map, editEntry, if_neg missed]
      · rfl
  · simp [located] at wrote

end Disk

end ModuleDeps
