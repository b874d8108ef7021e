import ModuleDeps.Proofs.Finder.Tour

/-!
# The first files of a search

Of the entries of a tree a search meets those whose folders are all entered.
The walk is a march over these entries in their order: it ends at the limit, or
at the first entered folder that cannot be listed, whichever is met first.
-/

set_option autoImplicit false

namespace ModuleDeps

open Text

namespace Query

variable (q : Query)

/-- No folder from the top down to this one is passed over. -/
def Enters (dir : List Text) : Prop :=
  ∀ above ∈ dir.inits, above ≠ [] →
    q.excluded (pathOf above) = false ∧ q.excluded (pathOf above ++ utf8 "/_") = false

instance (dir : List Text) : Decidable (q.Enters dir) :=
  inferInstanceAs (Decidable (∀ above ∈ dir.inits, above ≠ [] →
    q.excluded (pathOf above) = false ∧ q.excluded (pathOf above ++ utf8 "/_") = false))

/-- A file of an entered folder that the query asks for. -/
def Keeps (path : List Text) : Prop :=
  q.Enters path.dropLast ∧ q.excluded (pathOf path) = false ∧
    Glob.isMatch q.pattern (pathOf path) = true

instance (path : List Text) : Decidable (q.Keeps path) :=
  inferInstanceAs (Decidable (q.Enters path.dropLast ∧ q.excluded (pathOf path) = false ∧
    Glob.isMatch q.pattern (pathOf path) = true))

structure Valid : Prop where
  pattern : Glob.isValid (Glob.codes q.pattern) = true
  excludes : ∀ e ∈ q.excludes, Glob.isValid (Glob.codes e) = true

variable {q}

theorem check_eq_ok_iff : q.check = .ok () ↔ q.Valid := by
  rw [check]
  split
  · rename_i bad
    exact ⟨(nomatch ·), fun valid => by simp [valid.pattern] at bad⟩
  · rename_i pattern
    split
    · rename_i e found
      refine ⟨(nomatch ·), fun valid => ?_⟩
      have bad := List.find?_some found
      simp [valid.excludes e (List.mem_of_find?_eq_some found)] at bad
    · rename_i notFound
      refine ⟨fun _ => ⟨by simpa using pattern, fun e member => ?_⟩, fun _ => rfl⟩
      simpa using List.find?_eq_none.mp notFound e member

theorem enters_nil : q.Enters [] := by
  intro above member some
  exact absurd (List.prefix_nil.mp ((List.mem_inits _ _).mp member)) some

theorem Enters.of_prefix {dir below : List Text} (enters : q.Enters below)
    (isFront : dir <+: below) : q.Enters dir :=
  fun above member some =>
    enters above ((List.mem_inits _ _).mpr (((List.mem_inits _ _).mp member).trans isFront)) some

theorem enters_concat {above : List Text} {name : Text} :
    q.Enters (above ++ [name]) ↔ q.Enters above ∧
      q.skips (pathOf (above ++ [name])) = false := by
  rw [Enters, forall_inits_concat, skips, Bool.or_eq_false_iff]
  exact and_congr_right fun _ => ⟨fun own => own (by simp), fun own _ => own⟩

theorem keeps_concat {above : List Text} {name : Text} (enters : q.Enters above) :
    q.Keeps (above ++ [name]) ↔ q.keeps (pathOf (above ++ [name])) = true := by
  simp [Keeps, keeps, enters]

end Query

/-- What a query meets: the folders it enters and the files it keeps. -/
def Visit.Meets (q : Query) : Visit → Prop
  | .folder dir => q.Enters dir
  | .file path => q.Keeps path

instance (q : Query) : DecidablePred (Visit.Meets q)
  | .folder dir => inferInstanceAs (Decidable (q.Enters dir))
  | .file path => inferInstanceAs (Decidable (q.Keeps path))

theorem Visit.Meets.enters {q : Query} {v : Visit} (meets : v.Meets q) :
    q.Enters v.path.dropLast := by
  cases v with
  | folder dir => exact Query.Enters.of_prefix meets (List.dropLast_prefix _)
  | file path => exact meets.1

theorem Visit.file_mem_iff {visits : List Visit} {path : List Text} :
    path ∈ visits.filterMap Visit.file? ↔ .file path ∈ visits := by
  rw [List.mem_filterMap]
  constructor
  · rintro ⟨v, member, isFile⟩
    cases v with
    | folder dir => cases isFile
    | file own => exact Option.some.inj isFile ▸ member
  · exact fun member => ⟨.file path, member, rfl⟩

def met (q : Query) (visits : List Visit) : List Visit := visits.filter fun v => v.Meets q

section Met

variable {q : Query} {v : Visit}

theorem met_cons_of_meets (meets : v.Meets q) (rest : List Visit) :
    met q (v :: rest) = v :: met q rest :=
  List.filter_cons_of_pos (by simpa using meets)

theorem met_cons_of_not_meets (passed : ¬ v.Meets q) (rest : List Visit) :
    met q (v :: rest) = met q rest :=
  List.filter_cons_of_neg (by simpa using passed)

theorem met_append (front back : List Visit) : met q (front ++ back) = met q front ++ met q back :=
  List.filter_append ..

theorem mem_met {visits : List Visit} : v ∈ met q visits ↔ v ∈ visits ∧ v.Meets q := by
  simp [met]

end Met

namespace Listing

def kept (q : Query) (tree : Listing) : List (List Text) :=
  ((tree.files []).map Prod.fst).filter fun path => q.Keeps path

/-- The folders that a search lists: the top and those it enters. -/
def Lists (q : Query) (tree : Listing) (dir : List Text) : Prop :=
  dir = [] ∨ dir ∈ tree.folders [] ∧ q.Enters dir

def tour (q : Query) (tree : Listing) : List Visit :=
  .folder [] :: met q (tree.visits [])

theorem files_of_tour (q : Query) (tree : Listing) :
    (tree.tour q).filterMap Visit.file? = tree.kept q := by
  rw [kept, ← files_of_visits, tour, List.filterMap_cons_none rfl]
  induction tree.visits [] with
  | nil => rfl
  | cons v rest ih =>
      cases v with
      | folder dir =>
          rw [List.filterMap_cons_none rfl, ← ih]
          by_cases enters : (Visit.folder dir).Meets q
          · rw [met_cons_of_meets enters, List.filterMap_cons_none rfl]
          · rw [met_cons_of_not_meets enters]
      | file path =>
          rw [List.filterMap_cons_some (show Visit.file? (.file path) = some path from rfl)]
          by_cases keeps : (Visit.file path).Meets q
          · rw [met_cons_of_meets keeps,
              List.filterMap_cons_some (show Visit.file? (.file path) = some path from rfl),
              List.filter_cons_of_pos (by simpa), ih]
          · rw [met_cons_of_not_meets keeps, List.filter_cons_of_neg (by simpa), ih]

theorem folder_mem_tour {q : Query} {tree : Listing} {dir : List Text} :
    .folder dir ∈ tree.tour q ↔ tree.Lists q dir := by
  rw [tour, List.mem_cons, mem_met, folder_mem_visits, Visit.folder.injEq]
  rfl

theorem Sorted.tour {tree : Listing} (sorted : tree.Sorted) (q : Query) :
    (tree.tour q).Pairwise fun v w => v.path < w.path := by
  refine .cons (fun v met => ?_) ((sorted.visits []).filter _)
  obtain ⟨name, -, more, eq⟩ := exists_of_mem_visits (mem_met.mp met).1
  rw [eq]
  exact List.nil_lt_cons _ _

end Listing

/-! ## Marching -/

def folderName : List Text → Text
  | [] => utf8 "."
  | dir => pathOf dir

/-- A walk over entries that are all met. -/
def march (bound : Nat) (fails : Text → Bool) : List Visit → List Text → Walk
  | [], found => .going found
  | .folder dir :: rest, found =>
    if fails (folderName dir) then .failed (folderName dir) else march bound fails rest found
  | .file path :: rest, found =>
    if bound ≤ found.length + 1 then .full (found ++ [pathOf path])
    else march bound fails rest (found ++ [pathOf path])

def filesIn (visits : List Visit) : List Text := (visits.filterMap Visit.file?).map pathOf

def Listable (fails : Text → Bool) (visits : List Visit) : Prop :=
  ∀ dir, .folder dir ∈ visits → fails (folderName dir) = false

def Walk.andThen (next : List Text → Walk) : Walk → Walk
  | .going found => next found
  | stopped => stopped

section March

variable {bound : Nat} {fails : Text → Bool}

theorem march_append (front back : List Visit) (found : List Text) :
    march bound fails (front ++ back) found =
      (march bound fails front found).andThen (march bound fails back) := by
  induction front generalizing found with
  | nil => rfl
  | cons v rest ih =>
      cases v with
      | folder dir =>
          simp only [List.cons_append, march]
          split
          · rfl
          · exact ih found
      | file path =>
          simp only [List.cons_append, march]
          split
          · rfl
          · exact ih _

/-- As long as every folder can be listed, only the limit ends a march. -/
theorem march_of_listable {front : List Visit} (listable : Listable fails front) {found : List Text}
    (room : found.length < bound) :
    march bound fails front found =
      if (found ++ filesIn front).length < bound then .going (found ++ filesIn front)
      else .full ((found ++ filesIn front).take bound) := by
  induction front generalizing found with
  | nil => simp [march, filesIn, room]
  | cons v rest ih =>
      have behind : Listable fails rest :=
        fun dir member => listable dir (List.mem_cons_of_mem _ member)
      cases v with
      | folder dir =>
          rw [march, listable dir (by simp), if_neg (by simp), ih behind room]
          rfl
      | file path =>
          have files : found ++ filesIn (.file path :: rest) =
              found ++ [pathOf path] ++ filesIn rest := by
            simp [filesIn, Visit.file?]
          rw [march, files]
          split
          · rename_i last
            have exact : (found ++ [pathOf path]).length = bound := by simp; omega
            rw [if_neg (by rw [List.length_append]; omega), ← exact, List.take_left]
          · exact ih behind (by simp; omega)

end March

def Walk.outcome (root : Text) : Walk → Except FindError (List Text)
  | .going found => .ok (found.map (joinRoot root))
  | .full found => .ok (found.map (joinRoot root))
  | .failed folder => .error (.listing folder)

namespace Listing

variable {q : Query} {fails : Text → Bool}

theorem under_pathOf {above : List Text} (named : Named above) (name : Text) :
    under (pathOf above) name = pathOf (above ++ [name]) := by
  by_cases top : above = []
  · simp [under, top, pathOf, joinWith]
  · rw [under, if_neg (by simpa using named.pathOf_ne_nil top), pathOf_concat top]
    simp [utf8, String.utf8EncodeChar]

theorem folderName_concat (above : List Text) (name : Text) :
    folderName (above ++ [name]) = pathOf (above ++ [name]) := by
  cases above <;> rfl

/-- A walk takes its steps at the entries that are met.  Below a folder that is
passed over nothing is met. -/
theorem walk_eq_march {l : Listing} (sorted : l.Sorted) {above : List Text} (named : Named above)
    (enters : q.Enters above) (found : List Text) :
    l.walk q fails (pathOf above) found =
      march q.bound fails (met q (l.visits above)) found := by
  induction l generalizing above found with
  | nil => rfl
  | file name content rest ih =>
      obtain ⟨-, behind⟩ := sorted
      have step : q.Keeps (above ++ [name]) ↔ _ := Query.keeps_concat enters
      rw [walk, under_pathOf named, collect, visits]
      by_cases keeps : (Visit.file (above ++ [name])).Meets q
      · rw [met_cons_of_meets keeps, march, step.mp keeps]
        by_cases last : q.bound ≤ found.length + 1
        · simp [last]
        · simp [last, ih behind named enters]
      · rw [met_cons_of_not_meets keeps, Bool.eq_false_iff.mpr (mt step.mpr keeps)]
        exact ih behind named enters found
  | folder name inner rest ihInner ihRest =>
      obtain ⟨⟨some, apart, -⟩, inside, behind⟩ := sorted
      rw [walk, under_pathOf named, visits]
      by_cases entered : (Visit.folder (above ++ [name])).Meets q
      · rw [(Query.enters_concat.mp entered).2, met_cons_of_meets entered, march,
          folderName_concat, met_append, march_append,
          ← ihInner inside (named.concat some apart) entered]
        simp only [Bool.false_eq_true, if_false]
        split
        · rfl
        · cases walk q fails (pathOf (above ++ [name])) inner found with
          | going further => exact ihRest behind named enters further
          | full further => rfl
          | failed folder => rfl
      · have skipped : q.skips (pathOf (above ++ [name])) = true := by
          by_contra notSkipped
          exact entered (Query.enters_concat.mpr ⟨enters, Bool.eq_false_iff.mpr notSkipped⟩)
        -- every path below goes through the folder, so none is met
        have nothing : met q (inner.visits (above ++ [name])) = [] := by
          rw [List.eq_nil_iff_forall_not_mem]
          intro v member
          obtain ⟨inside, meets⟩ := mem_met.mp member
          obtain ⟨other, -, more, eq⟩ := exists_of_mem_visits inside
          have isFront : above ++ [name] <+: v.path.dropLast := by
            rw [eq, List.dropLast_append_of_ne_nil (by simp)]
            exact List.prefix_append _ _
          exact entered (Query.Enters.of_prefix meets.enters isFront)
        rw [skipped, met_cons_of_not_meets entered, met_append, nothing]
        exact ihRest behind named enters found

theorem Sorted.find_eq_outcome {tree : Listing} (sorted : tree.Sorted) (valid : q.Valid)
    (root : Text) :
    find tree root fails false q = (march q.bound fails (tree.tour q) []).outcome root := by
  have walked := @walk_eq_march q fails tree sorted [] (by simp [Named]) Query.enters_nil []
  rw [find, Query.check_eq_ok_iff.mpr valid, Listing.tour, march, ← walked,
    show folderName [] = utf8 "." from rfl, show pathOf [] = [] from rfl]
  cases fails (utf8 ".") with
  | true => rfl
  | false => cases tree.walk q fails [] [] <;> rfl

/-- The first files that a query keeps, as many as it asks for. -/
def firstKept (q : Query) (root : Text) (tree : Listing) : List Text :=
  ((tree.kept q).take q.bound).map fun path => joinRoot root (pathOf path)

end Listing

/-! ## The outcome -/

theorem Query.bound_pos (q : Query) : 0 < q.bound := by
  rw [bound]
  split
  · decide
  · omega

section Outcome

variable {bound : Nat} {fails : Text → Bool} {front : List Visit} (positive : 0 < bound)
  (listable : Listable fails front) (root : Text)
include positive listable

theorem outcome_of_listable :
    (march bound fails front []).outcome root =
      .ok (((filesIn front).take bound).map (joinRoot root)) := by
  rw [march_of_listable listable (by simpa using positive)]
  split
  · rename_i few
    rw [List.take_of_length_le (Nat.le_of_lt (by simpa using few))]
    rfl
  · rfl

theorem outcome_of_failing {dir : List Text} (failing : fails (folderName dir) = true)
    (back : List Visit) :
    (march bound fails (front ++ .folder dir :: back) []).outcome root =
      if (filesIn front).length < bound then .error (.listing (folderName dir))
      else .ok (((filesIn (front ++ .folder dir :: back)).take bound).map (joinRoot root)) := by
  rw [march_append, march_of_listable listable (by simpa using positive)]
  simp only [List.nil_append]
  split
  · simp [Walk.andThen, march, failing, Walk.outcome]
  · rename_i many
    have files : filesIn (front ++ .folder dir :: back) = filesIn front ++ filesIn back := by
      simp [filesIn, Visit.file?, List.filterMap_cons]
    rw [files, List.take_append_of_le_length (Nat.le_of_not_lt many)]
    rfl

end Outcome

theorem joinRoot_injective (root : Text) : Function.Injective (joinRoot root) := by
  intro path path' same
  rw [joinRoot, joinRoot] at same
  split at same
  · exact same
  · exact List.append_cancel_left same

theorem listable_or_exists_first (fails : Text → Bool) (visits : List Visit) :
    Listable fails visits ∨ ∃ front dir back, visits = front ++ .folder dir :: back ∧
      Listable fails front ∧
      fails (folderName dir) = true := by
  induction visits with
  | nil => exact .inl fun dir member => nomatch member
  | cons v rest ih =>
      by_cases failing : ∃ dir, v = .folder dir ∧ fails (folderName dir) = true
      · obtain ⟨dir, rfl, failing⟩ := failing
        exact .inr ⟨[], dir, rest, rfl, fun dir member => (nomatch member), failing⟩
      · have extend {visits : List Visit} (listable : Listable fails visits) :
            Listable fails (v :: visits) := by
          intro dir member
          rcases List.mem_cons.mp member with isHead | member
          · exact Bool.eq_false_iff.mpr fun fail => failing ⟨dir, isHead.symm, fail⟩
          · exact listable dir member
        rcases ih with listable | ⟨front, dir, back, rfl, listable, first⟩
        · exact .inl (extend listable)
        · exact .inr ⟨v :: front, dir, back, rfl, extend listable, first⟩

namespace Listing

variable {tree : Listing} {q : Query} {fails : Text → Bool} (sorted : tree.Sorted)
  (valid : q.Valid) (root : Text)

theorem firstKept_eq :
    ((filesIn (tree.tour q)).take q.bound).map (joinRoot root) = tree.firstKept q root := by
  rw [filesIn, files_of_tour, firstKept, ← List.map_take, List.map_map]
  rfl

/-- The limit has no part in what is kept. -/
theorem firstKept_isPrefix {limit limit' : Int}
    (less : ({ q with limit } : Query).bound ≤ ({ q with limit := limit' } : Query).bound) :
    tree.firstKept { q with limit } root <+: tree.firstKept { q with limit := limit' } root :=
  (List.take_isPrefix_take.mpr (.inl less)).map _

include sorted

theorem Sorted.kept : (tree.kept q).Pairwise (· < ·) := by
  rw [← files_of_tour, List.pairwise_filterMap]
  refine (sorted.tour q).imp fun {v w} before path isFile path' isFile' => ?_
  cases v <;> cases w <;> simp_all [Visit.file?, Visit.path]

theorem Sorted.named_of_mem_files {path : List Text}
    (member : path ∈ (tree.files []).map Prod.fst) : Named path :=
  sorted.named (by simp [Named]) (Visit.file_mem_iff.mp (files_of_visits [] tree ▸ member))

theorem Sorted.firstKept_nodup : (tree.firstKept q root).Nodup := by
  rw [firstKept, List.Nodup, List.pairwise_map]
  refine (sorted.kept.sublist (List.take_sublist q.bound _)).imp_of_mem
    fun {path path'} member member' before same => ?_
  have named := sorted.named_of_mem_files (List.mem_filter.mp (List.mem_of_mem_take member)).1
  have named' := sorted.named_of_mem_files (List.mem_filter.mp (List.mem_of_mem_take member')).1
  obtain rfl := named.pathOf_inj named' (joinRoot_injective root same)
  exact List.lt_irrefl path before

include valid

theorem find_of_listable (listable : ∀ dir, tree.Lists q dir → fails (folderName dir) = false) :
    find tree root fails false q = .ok (tree.firstKept q root) := by
  have here : Listable fails (tree.tour q) :=
    fun dir member => listable dir (folder_mem_tour.mp member)
  rw [sorted.find_eq_outcome valid, outcome_of_listable q.bound_pos here, firstKept_eq]

/-- The files met before a folder are those whose paths come first. -/
theorem find_of_failing {dir : List Text} (listed : tree.Lists q dir)
    (failing : fails (folderName dir) = true)
    (first : ∀ other, tree.Lists q other → other < dir → fails (folderName other) = false) :
    find tree root fails false q =
      if ((tree.kept q).filter (· < dir)).length < q.bound then .error (.listing (folderName dir))
      else .ok (tree.firstKept q root) := by
  obtain ⟨front, back, cut⟩ := List.append_of_mem (folder_mem_tour.mpr listed)
  have order := sorted.tour q
  rw [cut, List.pairwise_append, List.pairwise_cons] at order
  obtain ⟨-, ⟨behind, -⟩, before⟩ := order
  have listable : Listable fails front := fun other member =>
    first other (folder_mem_tour.mp (cut ▸ List.mem_append_left _ member))
      (before (.folder other) member (.folder dir) (by simp))
  have ahead : (front.filterMap Visit.file?).filter (· < dir) = front.filterMap Visit.file? := by
    refine List.filter_eq_self.mpr fun path member => decide_eq_true ?_
    exact before (.file path) (Visit.file_mem_iff.mp member) (.folder dir) (by simp)
  have notBehind : (back.filterMap Visit.file?).filter (· < dir) = [] := by
    refine List.filter_eq_nil_iff.mpr fun path member => ?_
    have after : dir < path := behind (.file path) (Visit.file_mem_iff.mp member)
    simpa using List.lt_asymm after
  have earlier : (tree.kept q).filter (· < dir) = front.filterMap Visit.file? := by
    rw [← files_of_tour, cut, List.filterMap_append, List.filterMap_cons_none rfl,
      List.filter_append, ahead, notBehind, List.append_nil]
  rw [sorted.find_eq_outcome valid, ← firstKept_eq, earlier, cut,
    outcome_of_failing q.bound_pos listable root failing back, filesIn, List.length_map]

theorem eq_firstKept_of_find {paths : List Text}
    (found : find tree root fails false q = .ok paths) :
    paths = tree.firstKept q root := by
  rw [sorted.find_eq_outcome valid] at found
  rcases listable_or_exists_first fails (tree.tour q) with
    listable | ⟨front, dir, back, cut, listable, failing⟩
  · rw [outcome_of_listable q.bound_pos listable, firstKept_eq] at found
    exact (Except.ok.inj found).symm
  · rw [cut, outcome_of_failing q.bound_pos listable root failing, ← cut, firstKept_eq] at found
    split at found
    · cases found
    · exact (Except.ok.inj found).symm

end Listing

/-- A search gives the first kept files, as many as wanted.  Only an entered
folder that cannot be listed changes that, and only where too few kept files
come before it. -/
theorem find_first_kept {tree : Listing} (sorted : tree.Sorted) {q : Query} (valid : q.Valid)
    (root : Text) (fails : Text → Bool) :
    (tree.kept q).Pairwise (· < ·) ∧ (tree.firstKept q root).Nodup ∧
    ((∀ dir, tree.Lists q dir → fails (folderName dir) = false) →
      find tree root fails false q = .ok (tree.firstKept q root)) ∧
    (∀ dir, tree.Lists q dir → fails (folderName dir) = true →
      (∀ other, tree.Lists q other → other < dir → fails (folderName other) = false) →
      find tree root fails false q =
        if ((tree.kept q).filter (· < dir)).length < q.bound then
          .error (.listing (folderName dir))
        else .ok (tree.firstKept q root)) ∧
    (∀ limit limit' paths paths', ({ q with limit } : Query).bound ≤
      ({ q with limit := limit' } : Query).bound →
      find tree root fails false { q with limit } = .ok paths →
      find tree root fails false { q with limit := limit' } = .ok paths' → paths <+: paths') ∧
    find tree root fails true q = .error .cancelled := by
  refine ⟨sorted.kept, sorted.firstKept_nodup root, Listing.find_of_listable sorted valid root,
    fun dir listed failing first =>
      Listing.find_of_failing sorted valid root listed failing first, ?_, ?_⟩
  · intro limit limit' paths paths' less found found'
    have validHere (l : Int) : ({ q with limit := l } : Query).Valid :=
      ⟨valid.pattern, valid.excludes⟩
    rw [Listing.eq_firstKept_of_find sorted (validHere limit) root found,
      Listing.eq_firstKept_of_find sorted (validHere limit') root found']
    exact Listing.firstKept_isPrefix root less
  · rw [find, Query.check_eq_ok_iff.mpr valid]
    rfl

/-- A folder behind the limit, or inside a folder that is passed over, may fail
without being noticed. -/
theorem find_first_kept_failing :
    let tree : Listing :=
      .file (utf8 "Foo.js") [] (.folder (utf8 "app") (.file (utf8 "Foo.js") [] .nil)
        (.folder (utf8 "dist") (.folder (utf8 "lib") (.file (utf8 "Foo.js") [] .nil) .nil)
          (.folder (utf8 "lib") (.file (utf8 "Foo.js") [] .nil) .nil)))
    let q (limit : Int) : Query := ⟨utf8 "**/Foo.js", defaultExcludes, limit⟩
    tree.Sorted ∧ (∀ limit, (q limit).Valid) ∧
    find tree (utf8 "/ws/") (· == utf8 "lib") false (q 2) =
      .ok [utf8 "/ws/Foo.js", utf8 "/ws/app/Foo.js"] ∧
    find tree (utf8 "/ws/") (· == utf8 "lib") false (q 3) = .error (.listing (utf8 "lib")) ∧
    find tree (utf8 "/ws/") (· == utf8 "dist/lib") false (q 0) =
      .ok [utf8 "/ws/Foo.js", utf8 "/ws/app/Foo.js", utf8 "/ws/lib/Foo.js"] := by
  intro tree q
  have sorted : tree.Sorted := by decide +kernel
  have usual : (q 0).Valid := ⟨by decide +kernel, by decide +kernel⟩
  have enters : (q 0).Enters [utf8 "lib"] := by decide +kernel
  have valid (limit : Int) : (q limit).Valid := ⟨usual.pattern, usual.excludes⟩
  have listed (limit : Int) : tree.Lists (q limit) [utf8 "lib"] :=
    .inr ⟨by decide +kernel, enters⟩
  have first (limit : Int) : ∀ other, tree.Lists (q limit) other → other < [utf8 "lib"] →
      (folderName other == utf8 "lib") = false := by
    rintro other (rfl | ⟨member, -⟩) before
    · decide +kernel
    · revert other
      decide +kernel
  refine ⟨sorted, valid, ?_, ?_, ?_⟩
  · rw [(find_first_kept sorted (valid 2) _ _).2.2.2.1 _ (listed 2) (by decide +kernel) (first 2)]
    decide +kernel
  · rw [(find_first_kept sorted (valid 3) _ _).2.2.2.1 _ (listed 3) (by decide +kernel) (first 3)]
    decide +kernel
  · rw [(find_first_kept sorted (valid 0) _ _).2.2.1]
    · decide +kernel
    · rintro other (rfl | ⟨member, enters⟩)
      · decide +kernel
      · revert other
        decide +kernel

end ModuleDeps
