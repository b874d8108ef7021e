import ModuleDeps.Proofs.Finder.FirstFound
import ModuleDeps.Proofs.Glob.AnyDepth

/-!
# What passing over folders loses

A file is wanted when it matches the pattern and no exclude matches its path or
the path of a folder above it.  Passing over a folder because of the entry `_`
in it loses the wanted files below: the entry stands for every other one only
as long as the excludes do not look at it.
-/

set_option autoImplicit false

namespace ModuleDeps

open Text

namespace Query

variable (q : Query)

/-- Neither the path nor that of a folder above it is excluded. -/
def Spares (path : List Text) : Prop :=
  ∀ above ∈ path.inits, above ≠ [] → q.excluded (pathOf above) = false

instance (path : List Text) : Decidable (q.Spares path) :=
  inferInstanceAs (Decidable (∀ above ∈ path.inits, above ≠ [] →
    q.excluded (pathOf above) = false))

def Wants (path : List Text) : Prop := Glob.isMatch q.pattern (pathOf path) = true ∧ q.Spares path

instance (path : List Text) : Decidable (q.Wants path) :=
  inferInstanceAs (Decidable (Glob.isMatch q.pattern (pathOf path) = true ∧ q.Spares path))

/-- Some folder above the path would have its entry `_` excluded. -/
def Hides (path : List Text) : Prop :=
  ∃ above ∈ path.dropLast.inits, above ≠ [] ∧ q.excluded (pathOf above ++ utf8 "/_") = true

instance (path : List Text) : Decidable (q.Hides path) :=
  inferInstanceAs (Decidable (∃ above ∈ path.dropLast.inits, above ≠ [] ∧
    q.excluded (pathOf above ++ utf8 "/_") = true))

variable {q}

theorem spares_concat {dir : List Text} {name : Text} :
    q.Spares (dir ++ [name]) ↔ q.Spares dir ∧ q.excluded (pathOf (dir ++ [name])) = false := by
  rw [Spares, forall_inits_concat]
  exact and_congr_right fun _ => ⟨fun own => own (by simp), fun own _ => own⟩

theorem keeps_iff {path : List Text} (some : path ≠ []) :
    q.Keeps path ↔ q.Wants path ∧ ¬ q.Hides path := by
  obtain ⟨dir, name, rfl⟩ := (List.eq_nil_or_concat' path).resolve_left some
  rw [Keeps, Wants, spares_concat, Hides, List.dropLast_concat]
  constructor
  · rintro ⟨enters, own, isMatch⟩
    refine ⟨⟨isMatch, fun above member below => (enters above member below).1, own⟩, ?_⟩
    rintro ⟨above, member, below, hidden⟩
    simp [(enters above member below).2] at hidden
  · rintro ⟨⟨isMatch, spares, own⟩, notHidden⟩
    refine ⟨fun above member below => ⟨spares above member below, ?_⟩, own, isMatch⟩
    exact Bool.eq_false_iff.mpr fun hidden => notHidden ⟨above, member, below, hidden⟩

end Query

namespace Listing

/-- The files that a query wants, in the order of a walk. -/
def wanted (q : Query) (tree : Listing) : List (List Text) :=
  ((tree.files []).map Prod.fst).filter fun path => q.Wants path

theorem ne_nil_of_mem_files {tree : Listing} {path : List Text}
    (member : path ∈ (tree.files []).map Prod.fst) :
    path ≠ [] := by
  obtain ⟨name, -, more, eq⟩ :=
    exists_of_mem_visits (Visit.file_mem_iff.mp (files_of_visits [] tree ▸ member))
  rintro rfl
  cases eq

theorem kept_eq_filter_wanted (q : Query) (tree : Listing) :
    tree.kept q = (tree.wanted q).filter fun path => ¬ q.Hides path := by
  rw [kept, wanted, List.filter_filter]
  refine List.filter_congr fun path member => ?_
  simp [Query.keeps_iff (ne_nil_of_mem_files member), and_comm]

end Listing

/-- Excludes that name folders, none of them called `_`. -/
def Query.FolderExcludes (q : Query) : Prop :=
  ∀ e ∈ q.excludes, ∃ name, Glob.PlainName name ∧ name ≠ utf8 "_" ∧
    e = Glob.folderGlob name

theorem folderExcludes_default (pattern : Text) (limit : Int) :
    Query.FolderExcludes ⟨pattern, defaultExcludes, limit⟩ := by
  have usual : defaultExcludes =
      [Glob.folderGlob (utf8 "node_modules"), Glob.folderGlob (utf8 "resources"),
        Glob.folderGlob (utf8 "dist")] := by
    decide +kernel
  intro e member
  change e ∈ defaultExcludes at member
  simp only [usual, List.mem_cons, List.not_mem_nil, or_false] at member
  rcases member with rfl | rfl | rfl
  all_goals exact ⟨_, by decide +kernel, by decide +kernel, rfl⟩

/-- Such an exclude takes the entry `_` of a folder only with the folder. -/
theorem Query.FolderExcludes.not_hides {q : Query} (folders : q.FolderExcludes) {path : List Text}
    (named : Named path) (spares : q.Spares path) : ¬ q.Hides path := by
  rintro ⟨above, member, some, hidden⟩
  have isFront : above <+: path :=
    ((List.mem_inits _ _).mp member).trans (List.dropLast_prefix path)
  have namedAbove : Named above := fun n inside => named n (isFront.subset inside)
  have namedEntry : Named (above ++ [utf8 "_"]) := namedAbove.concat (by decide) (by decide)
  have entry : pathOf above ++ utf8 "/_" = pathOf (above ++ [utf8 "_"]) :=
    (pathOf_concat some _).symm
  obtain ⟨e, isExclude, isMatch⟩ := List.any_eq_true.mp hidden
  obtain ⟨name, plain, other, rfl⟩ := folders e isExclude
  rw [entry, Glob.isMatch_folderGlob_iff plain namedEntry (by simp)] at isMatch
  have inside : name ∈ above := by simpa [other] using isMatch
  have taken : q.excluded (pathOf above) = true :=
    List.any_eq_true.mpr ⟨_, isExclude,
      (Glob.isMatch_folderGlob_iff plain namedAbove some).mpr inside⟩
  rw [spares above ((List.mem_inits _ _).mpr isFront) some] at taken
  cases taken

/-- A search loses exactly the wanted files that are hidden, and none where the
excludes name folders. -/
theorem find_prunes {tree : Listing} (sorted : tree.Sorted) {q : Query} (valid : q.Valid)
    (root : Text) (fails : Text → Bool)
    (listable : ∀ dir, tree.Lists q dir → fails (folderName dir) = false)
    (few : (tree.wanted q).length ≤ q.bound) :
    find tree root fails false q =
      .ok (((tree.wanted q).filter fun path => ¬ q.Hides path).map fun path =>
        joinRoot root (pathOf path)) ∧
    (find tree root fails false q =
      .ok ((tree.wanted q).map fun path => joinRoot root (pathOf path)) ↔
      ∀ path ∈ tree.wanted q, ¬ q.Hides path) ∧
    (q.FolderExcludes →
      find tree root fails false q =
        .ok ((tree.wanted q).map fun path => joinRoot root (pathOf path))) := by
  have short : (tree.kept q).length ≤ q.bound := by
    rw [Listing.kept_eq_filter_wanted]
    exact (List.length_filter_le _ _).trans few
  have found : find tree root fails false q =
      .ok (((tree.wanted q).filter fun path => ¬ q.Hides path).map fun path =>
        joinRoot root (pathOf path)) := by
    rw [Listing.find_of_listable sorted valid root listable, Listing.firstKept,
      List.take_of_length_le short, Listing.kept_eq_filter_wanted]
  have nothingLost : find tree root fails false q =
      .ok ((tree.wanted q).map fun path => joinRoot root (pathOf path)) ↔
      ∀ path ∈ tree.wanted q, ¬ q.Hides path := by
    rw [found, Except.ok.injEq]
    constructor
    · intro same
      have lengths := congrArg List.length same
      rw [List.length_map, List.length_map, List.length_filter_eq_length_iff] at lengths
      simpa using lengths
    · intro seen
      rw [List.filter_eq_self.mpr (by simpa using seen)]
  refine ⟨found, nothingLost, fun folders => nothingLost.mpr fun path wanted => ?_⟩
  exact folders.not_hides (sorted.named_of_mem_files (List.mem_filter.mp wanted).1)
    (of_decide_eq_true (List.mem_filter.mp wanted).2).2

/-- With the usual excludes everything wanted is found. -/
theorem find_prunes_usual :
    let tree : Listing :=
      .file (utf8 "Foo.js") [] (.folder (utf8 "dist") (.file (utf8 "Foo.js") [] .nil)
        (.folder (utf8 "webapp") (.folder (utf8 "resources") (.file (utf8 "Foo.js") [] .nil)
          (.folder (utf8 "util") (.file (utf8 "Foo.js") [] .nil) .nil)) .nil))
    let q : Query := ⟨utf8 "**/Foo.js", defaultExcludes, 2⟩
    tree.Sorted ∧ q.Valid ∧ (tree.wanted q).length ≤ q.bound ∧
    find tree (utf8 "/ws") (fun _ => false) false q =
      .ok [utf8 "/ws/Foo.js", utf8 "/ws/webapp/util/Foo.js"] := by
  intro tree q
  have sorted : tree.Sorted := by decide +kernel
  have valid : q.Valid := ⟨by decide +kernel, by decide +kernel⟩
  have few : (tree.wanted q).length ≤ q.bound := by decide +kernel
  refine ⟨sorted, valid, few, ?_⟩
  obtain ⟨-, -, usual⟩ :=
    find_prunes sorted valid (utf8 "/ws") (fun _ => false) (fun _ _ => rfl) few
  rw [usual (folderExcludes_default _ _)]
  decide +kernel

/-- An exclude that looks at the first letter of a name takes the entry `_` of
every folder. -/
theorem find_loses_wanted :
    let tree : Listing :=
      .file (utf8 "Foo.js") [] (.folder (utf8 "webapp") (.file (utf8 "Foo.js") [] .nil) .nil)
    let q : Query := ⟨utf8 "**/Foo.js", [utf8 "**/_*"], 0⟩
    tree.Sorted ∧ q.Valid ∧ (tree.wanted q).map pathOf =
      [utf8 "Foo.js", utf8 "webapp/Foo.js"] ∧
    find tree [] (fun _ => false) false q = .ok [utf8 "Foo.js"] :=
  ⟨by decide +kernel, ⟨by decide +kernel, by decide +kernel⟩, by decide +kernel,
    by decide +kernel⟩

end ModuleDeps
