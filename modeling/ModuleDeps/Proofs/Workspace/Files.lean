import ModuleDeps.Proofs.Disk.Clean
import ModuleDeps.Proofs.Disk.Walk
import ModuleDeps.Proofs.Finder.Tour

/-!
# The module files of a directory

The walk meets what no skipped folder is above, in the order of the tree
(`moduleFiles_eq_gather`).  It collects the module files among what it meets,
unless the path of something that it meets is too long (`moduleFiles_collects`).
-/

set_option autoImplicit false

namespace ModuleDeps

open Text

/-! ## Names -/

/-- A name of build output, of dependencies or of a hidden folder. -/
def SkippedName (name : Text) : Prop :=
  name = utf8 "node_modules" ∨ name = utf8 "dist" ∨ name = utf8 "vendor" ∨
    name.head? = some dot

def ModuleName (name : Text) : Prop := utf8 ".js" <:+ name

instance : DecidablePred SkippedName := fun name =>
  inferInstanceAs (Decidable (name = utf8 "node_modules" ∨ name = utf8 "dist" ∨
    name = utf8 "vendor" ∨ name.head? = some dot))

instance : DecidablePred ModuleName := fun name => inferInstanceAs (Decidable (utf8 ".js" <:+ name))

theorem isSkippedFolder_iff {name : Text} : isSkippedFolder name = true ↔ SkippedName name := by
  have mark : utf8 "." = [dot] := by decide
  have hidden : name.startsWith (utf8 ".") = true ↔ name.head? = some dot := by
    rw [mark]
    cases name with
    | nil => decide
    | cons b rest => simp [startsWith, List.isPrefixOf, beq_iff_eq, @eq_comm UInt8 dot]
  simp [isSkippedFolder, SkippedName, hidden, or_assoc]

theorem isModuleFile_iff {name : Text} : isModuleFile name = true ↔ ModuleName name :=
  List.isSuffixOf_iff_suffix

/-! ## What a walk meets -/

/-- No folder above an entry is skipped. -/
def Unskipped (path : List Text) : Prop := ∀ name ∈ path.dropLast, ¬ SkippedName name

/-- A file that a walk collects. -/
def Collected (path : List Text) : Prop :=
  Unskipped path ∧ ∃ name ∈ path.getLast?, ModuleName name

instance : DecidablePred Unskipped := fun path =>
  inferInstanceAs (Decidable (∀ name ∈ path.dropLast, ¬ SkippedName name))

instance : DecidablePred Collected := fun path =>
  inferInstanceAs (Decidable (Unskipped path ∧ ∃ name ∈ path.getLast?, ModuleName name))

def Visit.IsModule : Visit → Prop
  | .folder _ => False
  | .file path => ∃ name ∈ path.getLast?, ModuleName name

instance : DecidablePred Visit.IsModule
  | .folder _ => inferInstanceAs (Decidable False)
  | .file path => inferInstanceAs (Decidable (∃ name ∈ path.getLast?, ModuleName name))

namespace Listing

def walked (above : List Text) (l : Listing) : List Visit :=
  (l.visits above).filter fun v => Unskipped v.path

def collected (l : Listing) : List (List Text) :=
  ((l.files []).map Prod.fst).filter fun path => Collected path

end Listing

def gather (root : Text) : List Visit → Except DiskError (List Text)
  | [] => .ok []
  | v :: rest => do
    let path ← Disk.visit (Path.join [root, pathOf v.path])
    let more ← gather root rest
    return if v.IsModule then path :: more else more

/-- The path of an entry is longer than a path can be. -/
def TooLong (root : Text) (v : Visit) : Prop :=
  Disk.maxPath < (Path.join [root, pathOf v.path]).length

instance (root : Text) : DecidablePred (TooLong root) := fun v =>
  inferInstanceAs (Decidable (Disk.maxPath < (Path.join [root, pathOf v.path]).length))

section Gather

variable {root : Text}

theorem gather_append (front back : List Visit) :
    gather root (front ++ back) = (gather root front).bind fun files =>
      (gather root back).map (files ++ ·) := by
  induction front with
  | nil =>
      rw [List.nil_append, gather]
      cases gather root back <;> rfl
  | cons v rest ih =>
      rw [List.cons_append, gather, gather, ih]
      cases Disk.visit (Path.join [root, pathOf v.path]) with
      | error e => rfl
      | ok path =>
          cases gather root rest with
          | error e => rfl
          | ok more =>
              simp only [bind, Except.bind, pure, Except.pure, Except.map]
              cases gather root back with
              | error e => rfl
              | ok files => by_cases isModule : v.IsModule <;> simp [isModule]

theorem visit_join (root : Text) (v : Visit) : Disk.visit (Path.join [root, pathOf v.path]) =
    if TooLong root v then .error ⟨utf8 "lstat", Path.join [root, pathOf v.path], .nameTooLong⟩
    else .ok (Path.join [root, pathOf v.path]) := rfl

/-- The first entry whose path is too long ends the walk. -/
theorem gather_eq (visits : List Visit) : gather root visits =
    match visits.find? fun v => TooLong root v with
    | some v => .error ⟨utf8 "lstat", Path.join [root, pathOf v.path], .nameTooLong⟩
    | none =>
      .ok ((visits.filter fun v => v.IsModule).map fun v => Path.join [root, pathOf v.path]) := by
  induction visits with
  | nil => rfl
  | cons v rest ih =>
      rw [gather, ih]
      by_cases long : TooLong root v
      · rw [List.find?_cons_of_pos (by simpa using long), visit_join, if_pos long]
        rfl
      · rw [List.find?_cons_of_neg (by simpa using long), visit_join, if_neg long]
        cases rest.find? fun v => TooLong root v with
        | some w => rfl
        | none =>
            by_cases isModule : v.IsModule <;> simp [isModule, bind, Except.bind, pure, Except.pure]

end Gather

/-! ## The walk -/

section Walk

variable {above : List Text} {name : Text}

theorem unskipped_concat : Unskipped (above ++ [name]) ↔ ∀ n ∈ above, ¬ SkippedName n := by
  rw [Unskipped, List.dropLast_concat]

theorem isModule_concat : (Visit.file (above ++ [name])).IsModule ↔ isModuleFile name = true := by
  simp [Visit.IsModule, isModuleFile_iff]

namespace Listing

variable {l inner rest : Listing}

theorem walked_file (unskipped : ∀ n ∈ above, ¬ SkippedName n) (content : Text) :
    (file name content rest).walked above = .file (above ++ [name]) :: rest.walked above :=
  List.filter_cons_of_pos (decide_eq_true (unskipped_concat.mpr unskipped))

theorem walked_folder (unskipped : ∀ n ∈ above, ¬ SkippedName n) :
    (folder name inner rest).walked above =
    .folder (above ++ [name]) :: (inner.walked (above ++ [name]) ++ rest.walked above) := by
  have own : (folder name inner rest).walked above = .folder (above ++ [name]) ::
      (inner.visits (above ++ [name]) ++ rest.visits above).filter fun v => Unskipped v.path :=
    List.filter_cons_of_pos (decide_eq_true (unskipped_concat.mpr unskipped))
  rw [own, List.filter_append]
  rfl

theorem walked_of_skipped (skipped : SkippedName name) (l : Listing) :
    l.walked (above ++ [name]) = [] := by
  rw [walked, List.filter_eq_nil_iff]
  intro v met unskipped
  obtain ⟨other, -, more, eq⟩ := exists_of_mem_visits met
  rw [decide_eq_true_eq, Unskipped, eq, List.dropLast_append_of_ne_nil (by simp)] at unskipped
  exact unskipped name (by simp) skipped

/-- The walk of a folder collects what it meets there.  The paths that it makes
are those of the whole walk. -/
theorem moduleFiles_eq_gather (proper : l.Proper) {root : Text} (nonempty : root ≠ [])
    (down : Descending above) (unskipped : ∀ n ∈ above, ¬ SkippedName n) {dir : Text}
    (leads : ∀ name, Disk.IsName name →
      Path.join [dir, name] = Path.join [root, pathOf (above ++ [name])]) :
    l.moduleFiles dir = gather root (l.walked above) := by
  -- The induction is on the folder, along its constructors; `leads` relates the
  -- names joined on the way to the path from the root.
  induction l generalizing above dir with
  | nil => rfl
  | file name content rest ih =>
      obtain ⟨⟨own, -⟩, restProper⟩ := proper
      rw [moduleFiles, walked_file unskipped, gather, leads name own.isName,
        ih restProper down unskipped leads]
      simp only [isModule_concat]
      rfl
  | folder name inner rest ihInner ihRest =>
      obtain ⟨⟨own, -⟩, innerProper, restProper⟩ := proper
      have downInner := descending_concat.mpr ⟨down, own.isName, own.apart⟩
      have leadsInner (other : Text) (isName : Disk.IsName other) :
          Path.join [Path.join [root, pathOf (above ++ [name])], other] =
            Path.join [root, pathOf (above ++ [name] ++ [other])] :=
        Path.join_join nonempty downInner (by simp) isName
      have inside : (if isSkippedFolder name then pure [] else
          inner.moduleFiles (Path.join [root, pathOf (above ++ [name])])) =
            gather root (inner.walked (above ++ [name])) := by
        by_cases skipped : SkippedName name
        · rw [if_pos (isSkippedFolder_iff.mpr skipped), walked_of_skipped skipped]
          rfl
        · rw [if_neg (mt isSkippedFolder_iff.mp skipped)]
          have unskippedInner : ∀ n ∈ above ++ [name], ¬ SkippedName n :=
            List.forall_mem_append.mpr ⟨unskipped, by simpa using skipped⟩
          exact ihInner innerProper downInner unskippedInner leadsInner
      rw [moduleFiles, walked_folder unskipped, gather, gather_append, leads name own.isName,
        ihRest restProper down unskipped leads, Visit.path]
      cases visited : Disk.visit (Path.join [root, pathOf (above ++ [name])]) with
      | error e => rfl
      | ok path =>
          obtain rfl := (Disk.visit_eq_ok_iff.mp visited).1
          simp only [bind, Except.bind, inside]
          cases gather root (inner.walked (above ++ [name])) with
          | error e => rfl
          | ok below => cases gather root (rest.walked above) <;> rfl

end Listing

end Walk

/-! ## What is collected -/

namespace Listing

variable {l : Listing}

theorem modules_of_walked (l : Listing) :
    ((l.walked []).filter fun v => v.IsModule).map Visit.path = l.collected := by
  rw [collected, ← files_of_visits, walked, List.filter_filter]
  induction l.visits [] with
  | nil => rfl
  | cons v rest ih =>
      cases v with
      | folder path =>
          have missed :
              (decide (Visit.folder path).IsModule && decide (Unskipped (Visit.folder path).path)) =
                false :=
            rfl
          rw [List.filterMap_cons_none rfl, List.filter_cons, missed]
          exact ih
      | file path =>
          have same :
              (decide (Visit.file path).IsModule && decide (Unskipped (Visit.file path).path)) =
              decide (Collected path) := by
            rw [← Bool.decide_and, decide_eq_decide]
            exact and_comm
          rw [List.filterMap_cons_some (show Visit.file? (.file path) = some path from rfl),
            List.filter_cons, List.filter_cons, same]
          split
          · rw [List.map_cons, ih]
            rfl
          · exact ih

theorem Proper.descending (proper : l.Proper) {above : List Text} (down : Descending above)
    {v : Visit} (met : v ∈ l.visits above) : Descending v.path := by
  induction l generalizing above with
  | nil => cases met
  | file name content rest ih =>
      obtain ⟨⟨own, -⟩, behind⟩ := proper
      rcases List.mem_cons.mp met with rfl | met
      · exact descending_concat.mpr ⟨down, own.isName, own.apart⟩
      · exact ih behind down met
  | folder name inner rest ihInner ihRest =>
      obtain ⟨⟨own, -⟩, inside, behind⟩ := proper
      have downInner := descending_concat.mpr ⟨down, own.isName, own.apart⟩
      rcases List.mem_cons.mp met with rfl | met
      · exact downInner
      · rcases List.mem_append.mp met with met | met
        · exact ihInner inside downInner met
        · exact ihRest behind down met

theorem exists_concat_of_mem_visits {v : Visit} (met : v ∈ l.visits []) :
    ∃ above name, v.path = above ++ [name] := by
  obtain ⟨first, -, more, eq⟩ := exists_of_mem_visits met
  exact (List.eq_nil_or_concat' v.path).resolve_left (by simp [eq])

theorem Sorted.collected (sorted : l.Sorted) : l.collected.Pairwise (· < ·) := by
  rw [← modules_of_walked, List.pairwise_map]
  exact ((sorted.visits []).filter _).filter _

theorem ne_nil_of_collected {path : List Text} (member : path ∈ l.collected) : path ≠ [] := by
  rintro rfl
  obtain ⟨-, name, last, -⟩ : Collected [] := by simpa using (List.mem_filter.mp member).2
  cases last

theorem Proper.descending_of_collected (proper : l.Proper) {path : List Text}
    (member : path ∈ l.collected) :
    Descending path := by
  rw [← modules_of_walked, List.mem_map] at member
  obtain ⟨v, met, rfl⟩ := member
  exact proper.descending descending_nil (List.mem_of_mem_filter (List.mem_of_mem_filter met))

end Listing

/-- As long as no path is too long, the module files are those that no skipped
folder is above, in the order of their names, each once.  Otherwise the first entry
whose path is too long is told instead.  The directory itself is not met again,
whatever its name is. -/
theorem moduleFiles_collects (d : Disk) {root : Text} {inner : Listing}
    (opened : d.stat root "lstat" = .ok (.folder inner)) (proper : inner.Proper)
    (sorted : inner.Sorted) :
    ((∀ v ∈ inner.walked [], ¬ TooLong root v) →
      d.moduleFiles root = .ok (inner.collected.map fun path => Path.join [root, pathOf path])) ∧
    (∀ v ∈ inner.walked [], TooLong root v →
      (∀ w ∈ inner.walked [], w.path < v.path → ¬ TooLong root w) →
      d.moduleFiles root = .error ⟨utf8 "lstat", Path.join [root, pathOf v.path],
        .nameTooLong⟩) ∧
    inner.collected.Pairwise (· < ·) ∧
    (inner.collected.map fun path => Path.join [root, pathOf path]).Nodup ∧
    ∀ v ∈ inner.visits [], Path.join [root, pathOf v.path] ≠ root ∧
      v.path.getLast? = some (Path.base (Path.join [root, pathOf v.path])) := by
  have nonempty : root ≠ [] := (Disk.exists_place_of_stat opened).1.nonempty
  have walk : d.moduleFiles root = gather root (inner.walked []) := by
    rw [Disk.moduleFiles, opened]
    exact Listing.moduleFiles_eq_gather proper nonempty descending_nil (by simp) fun name _ => by
      rw [List.nil_append, pathOf_singleton]
  have order : (inner.walked []).Pairwise fun v w => v.path < w.path := (sorted.visits []).filter _
  refine ⟨fun short => ?_, fun v met long first => ?_, sorted.collected, ?_, fun v met => ?_⟩
  · have none : ((inner.walked []).find? fun v => TooLong root v) = none := by
      rw [List.find?_eq_none]
      simpa using short
    rw [walk, gather_eq, none, ← Listing.modules_of_walked, List.map_map]
    rfl
  · obtain ⟨front, back, cut⟩ := List.append_of_mem met
    have found : ((inner.walked []).find? fun v => TooLong root v) = some v := by
      rw [List.find?_eq_some_iff_append]
      refine ⟨decide_eq_true long, front, back, cut, fun w member => ?_⟩
      rw [cut, List.pairwise_append] at order
      simpa using first w (by simp [cut, member]) (order.2.2 w member v (by simp))
    rw [walk, gather_eq, found]
  · rw [List.Nodup, List.pairwise_map]
    refine sorted.collected.imp_of_mem fun {path path'} member member' before same => ?_
    obtain rfl := Path.join_inj nonempty (proper.descending_of_collected member)
      (Listing.ne_nil_of_collected member) (proper.descending_of_collected member')
      (Listing.ne_nil_of_collected member') same
    exact List.lt_irrefl path before
  · obtain ⟨above, name, cut⟩ := Listing.exists_concat_of_mem_visits met
    have down := proper.descending descending_nil met
    rw [cut] at down ⊢
    exact ⟨Path.join_ne_root nonempty down (by simp),
      by rw [Path.base_join nonempty down, List.getLast?_concat]⟩

def skippedTree : Listing :=
  .file (utf8 ".b.js") [] <| .folder (utf8 ".x") (.file (utf8 "y.js") [] .nil) <|
    .file (utf8 "a.js") [] <|
    .folder (utf8 "dir.js") (.file (utf8 "in.js") [] .nil) <|
      .folder (utf8 "dist") (.file (utf8 "x.js") [] .nil) <|
    .folder (utf8 "src") (.folder (utf8 "vendor") (.file (utf8 "v.js") [] .nil)
      (.file (utf8 "z.js") [] .nil)) <|
    .file (utf8 "vendor") [] .nil

def skippedDisk : Disk :=
  ⟨.folder (utf8 ".git") (.folder (utf8 "node_modules") skippedTree .nil) .nil, [utf8 ".git"]⟩

theorem moduleFiles_collects_skipped : skippedDisk.moduleFiles (utf8 "./node_modules/") = .ok
    [utf8 "node_modules/.b.js", utf8 "node_modules/a.js", utf8 "node_modules/dir.js/in.js",
      utf8 "node_modules/src/z.js"] := by
  have opened : skippedDisk.stat (utf8 "./node_modules/") "lstat" = .ok (.folder skippedTree) := by
    decide +kernel
  obtain ⟨collects, -⟩ :=
    moduleFiles_collects skippedDisk opened (by decide +kernel) (by decide +kernel)
  rw [collects (by decide +kernel)]
  decide +kernel

def upwardPath : Text := (List.replicate 1300 (utf8 "../")).flatten ++ utf8 "b"

def lengthyName : Text := List.replicate 247 0x61 ++ utf8 ".js"

def lengthyDisk : Disk := ⟨.folder (utf8 "b") (.file lengthyName [] .nil) .nil, []⟩

/-- The directory can be opened, and the path of its file is too long. -/
theorem moduleFiles_lengthy :
    lengthyDisk.stat upwardPath "lstat" = .ok (.folder (.file lengthyName [] .nil)) ∧
    (Listing.file lengthyName [] .nil).collected = [[lengthyName]] ∧
    lengthyDisk.moduleFiles upwardPath =
      .error ⟨utf8 "lstat", Path.join [upwardPath, lengthyName], .nameTooLong⟩ := by
  have opened : lengthyDisk.stat upwardPath "lstat" =
      .ok (.folder (.file lengthyName [] .nil)) := by decide +kernel
  have long : Disk.maxPath < (Path.join [upwardPath, lengthyName]).length := by decide +kernel
  refine ⟨opened, by decide +kernel, ?_⟩
  rw [Disk.moduleFiles, opened]
  simp only [bind, Except.bind, Listing.moduleFiles, Disk.visit, if_pos long]

end ModuleDeps
