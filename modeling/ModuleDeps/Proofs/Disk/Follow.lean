import ModuleDeps.Disk.Basic
import ModuleDeps.Proofs.Text.Lines

/-!
# Following paths

A path is followed one component at a time (`Place.step`), so a path with a
component behind it leads one step further.  The clean form of a path leads
where the path leads (`place_clean`): a folder has one folder above it, so a
name and the `..` behind it cancel out.
-/

set_option autoImplicit false

namespace ModuleDeps

open Text

namespace Disk

/-- How far a path was followed: the folders above, the nearest first, the names
on the way, the last first, and the entry that was reached. -/
structure Place where
  above : List Listing
  trail : List Text
  entry : Entry
deriving DecidableEq, Repr

def top (d : Disk) : Place := ⟨[], [], .folder d.root⟩

def Place.step (p : Place) (component : Text) : Except DiskCause Place :=
  match p.entry with
  | .file _ => .error .notFolder
  | .folder here =>
    if component = [] ∨ component = utf8 "." then .ok p
    else if component = utf8 ".." then
      match p.above with
      | [] => .ok ⟨[], [], p.entry⟩
      | parent :: above => .ok ⟨above, p.trail.tail, .folder parent⟩
    else if maxName < component.length then .error .nameTooLong
    else
      match here.find? component with
      | some entry => .ok ⟨here :: p.above, component :: p.trail, entry⟩
      | none => .error .notFound

def Place.found (p : Place) : List Text × Entry := (p.trail.reverse, p.entry)

theorem follow_eq (above : List Listing) (trail : List Text) (entry : Entry)
    (components : List Text) :
    follow above trail entry components =
      (components.foldlM Place.step ⟨above, trail, entry⟩).map Place.found := by
  fun_induction follow above trail entry components with
  | case1 above trail entry => rfl
  | case2 above trail content component rest => rfl
  | case3 above trail here component rest idle ih =>
      have step : Place.step ⟨above, trail, .folder here⟩ component =
          .ok ⟨above, trail, .folder here⟩ := by
        simp only [Place.step, if_pos idle]
      rw [ih, List.foldlM_cons, step]
      rfl
  | case4 trail here rest idle ih =>
      rw [ih, List.foldlM_cons]
      rfl
  | case5 trail here rest idle parent above ih =>
      rw [ih, List.foldlM_cons]
      rfl
  | case6 above trail here component rest idle notUp long =>
      have step : Place.step ⟨above, trail, .folder here⟩ component = .error .nameTooLong := by
        simp only [Place.step, if_neg idle, if_neg notUp, if_pos long]
      rw [List.foldlM_cons, step]
      rfl
  | case7 above trail here component rest idle notUp short entry found ih =>
      have step : Place.step ⟨above, trail, .folder here⟩ component =
          .ok ⟨here :: above, component :: trail, entry⟩ := by
        simp only [Place.step, if_neg idle, if_neg notUp, if_neg short, found]
      rw [ih, List.foldlM_cons, step]
      rfl
  | case8 above trail here component rest idle notUp short missing =>
      have step : Place.step ⟨above, trail, .folder here⟩ component = .error .notFound := by
        simp only [Place.step, if_neg idle, if_neg notUp, if_neg short, missing]
      rw [List.foldlM_cons, step]
      rfl

def route (d : Disk) (path : Text) : List Text :=
  if Path.isAbsolute path then Path.components path else d.workingDir ++ Path.components path

def place (d : Disk) (path : Text) : Except DiskCause Place :=
  (d.route path).foldlM Place.step d.top

/-- A path that can be followed at all. -/
structure Addressable (path : Text) : Prop where
  nonempty : path ≠ []
  printable : 0 ∉ path
  short : path.length ≤ maxPath

theorem locate_of_addressable (d : Disk) {path : Text} (addressable : Addressable path) :
    d.locate path = (d.place path).map Place.found := by
  have nonempty : ¬ path.isEmpty = true := by simpa using addressable.nonempty
  have printable : ¬ List.contains path 0 = true := by simpa using addressable.printable
  rw [locate, if_neg printable, if_neg nonempty, if_neg (Nat.not_lt.mpr addressable.short),
    follow_eq, follow_eq, place, route]
  split <;> rfl

theorem addressable_of_locate {d : Disk} {path : Text} {found : List Text × Entry}
    (located : d.locate path = .ok found) :
    Addressable path := by
  rw [locate] at located
  split at located
  · cases located
  · rename_i printable
    split at located
    · cases located
    · rename_i nonempty
      split at located
      · cases located
      · rename_i short
        exact ⟨by simpa using nonempty, by simpa using printable, Nat.not_lt.mp short⟩

theorem exists_place {d : Disk} {path : Text} {found : List Text × Entry}
    (located : d.locate path = .ok found) :
    ∃ p, d.place path = .ok p ∧ p.found = found := by
  rw [locate_of_addressable d (addressable_of_locate located)] at located
  cases placed : d.place path with
  | error cause => simp [placed, Except.map] at located
  | ok p =>
      rw [placed] at located
      exact ⟨p, rfl, Except.ok.inj located⟩

/-! ## Steps -/

theorem exists_folder_of_step {p q : Place} {component : Text} (step : p.step component = .ok q) :
    ∃ here, p.entry = .folder here := by
  rw [Place.step] at step
  cases entry : p.entry with
  | file content => simp [entry] at step
  | folder here => exact ⟨here, rfl⟩

theorem exists_step {p q : Place} {component : Text} {rest : List Text}
    (led : (component :: rest).foldlM Place.step p = .ok q) :
    ∃ next, p.step component = .ok next ∧ rest.foldlM Place.step next = .ok q := by
  rw [List.foldlM_cons] at led
  cases step : p.step component with
  | error cause => simp [step, bind, Except.bind] at led
  | ok next =>
      rw [step] at led
      exact ⟨next, rfl, led⟩

/-- What every step keeps holds wherever a path leads. -/
theorem foldlM_invariant {Keeps : Place → Prop}
    (kept : ∀ {p q : Place} {component : Text}, Keeps p → p.step component = .ok q → Keeps q)
    {components : List Text} {p q : Place} (start : Keeps p)
    (led : components.foldlM Place.step p = .ok q) : Keeps q := by
  induction components generalizing p with
  | nil =>
      obtain rfl := Except.ok.inj led
      exact start
  | cons component rest ih =>
      obtain ⟨next, step, further⟩ := exists_step led
      exact ih (kept start step) further

/-- The ways for a step to go on: it stays, or goes up, or down to an entry. -/
theorem step_cases {p q : Place} {component : Text} (step : p.step component = .ok q) :
    ∃ here, p.entry = .folder here ∧
      (q = p ∨ p.above = [] ∧ q = ⟨[], [], p.entry⟩ ∨
        (∃ parent above, p.above = parent :: above ∧
          q = ⟨above, p.trail.tail, .folder parent⟩) ∨
        ∃ entry, here.find? component = some entry ∧
        q = ⟨here :: p.above, component :: p.trail, entry⟩) := by
  obtain ⟨here, folder⟩ := exists_folder_of_step step
  refine ⟨here, folder, ?_⟩
  rw [Place.step, folder] at step
  simp only at step
  split at step
  · exact .inl (Except.ok.inj step).symm
  · split at step
    · split at step
      · rename_i noneAbove
        exact .inr (.inl ⟨noneAbove, by rw [folder]; exact (Except.ok.inj step).symm⟩)
      · rename_i parent above held
        exact .inr (.inr (.inl ⟨parent, above, held, (Except.ok.inj step).symm⟩))
    · split at step
      · cases step
      · split at step
        · rename_i entry found
          exact .inr (.inr (.inr ⟨entry, found, (Except.ok.inj step).symm⟩))
        · cases step

theorem foldlM_concat {p : Place} {components : List Text} {component : Text} :
    (components ++ [component]).foldlM Place.step p =
      (components.foldlM Place.step p).bind fun q => q.step component := by
  rw [List.foldlM_append]
  cases components.foldlM Place.step p with
  | error cause => rfl
  | ok q =>
      change [component].foldlM Place.step q = q.step component
      rw [List.foldlM_cons]
      cases q.step component <;> rfl

/-- The name of an entry of a folder. -/
structure IsName (name : Text) : Prop where
  nonempty : name ≠ []
  notHere : name ≠ utf8 "."
  notUp : name ≠ utf8 ".."

theorem IsName.step {name : Text} (isName : IsName name) {p : Place} {here : Listing}
    (folder : p.entry = .folder here) :
    p.step name =
      if maxName < name.length then .error .nameTooLong
      else
        match here.find? name with
        | some entry => .ok ⟨here :: p.above, name :: p.trail, entry⟩
        | none => .error .notFound := by
  have notIdle : ¬ (name = [] ∨ name = utf8 ".") :=
    not_or.mpr ⟨isName.nonempty, isName.notHere⟩
  simp only [Place.step, folder, if_neg notIdle, if_neg isName.notUp]

/-- A name and the step up behind it cancel out. -/
theorem IsName.step_up {name : Text} (isName : IsName name) {p q r : Place}
    (down : p.step name = .ok q) (up : q.step (utf8 "..") = .ok r) : r = p := by
  obtain ⟨here, folder⟩ := exists_folder_of_step down
  obtain ⟨inner, innerFolder⟩ := exists_folder_of_step up
  rw [isName.step folder] at down
  split at down
  · cases down
  · split at down
    · obtain rfl := Except.ok.inj down
      rw [Place.step] at up
      simp only at innerFolder up
      rw [innerFolder] at up
      obtain rfl := Except.ok.inj up
      cases p
      simp only at folder
      rw [folder]
      rfl
    · cases down

/-! ## Clean paths -/

structure IsPart (component : Text) : Prop where
  nonempty : component ≠ []
  notHere : component ≠ utf8 "."
  apart : slash ∉ component

section Push

variable {rooted : Bool} {held : List Text} {component : Text}

theorem isPart_push (parts : ∀ c ∈ held, IsPart c) (apart : slash ∉ component) :
    ∀ c ∈ Path.push rooted held component, IsPart c := by
  intro c member
  rw [Path.push.eq_def] at member
  split at member
  · exact parts c member
  · rename_i notIdle
    have part : IsPart component := ⟨(not_or.mp notIdle).1, (not_or.mp notIdle).2, apart⟩
    have pushed : ∀ c ∈ component :: held, IsPart c := by
      intro c member
      rcases List.mem_cons.mp member with rfl | member
      · exact part
      · exact parts c member
    split at member
    · split at member
      · split at member
        · cases member
        · exact pushed c (by simpa using member)
      · split at member
        · exact pushed c member
        · exact parts c (by simp [member])
    · exact pushed c member

theorem foldlM_push {start p q : Place} (parts : ∀ c ∈ held, IsPart c)
    (atTop : rooted = true → start.above = [] ∧ start.trail = [])
    (led : held.reverse.foldlM Place.step start = .ok p) (step : p.step component = .ok q) :
    (Path.push rooted held component).reverse.foldlM Place.step start = .ok q := by
  have behind : (component :: held).reverse.foldlM Place.step start = .ok q := by
    rw [List.reverse_cons, foldlM_concat, led]
    exact step
  obtain ⟨here, folder⟩ := exists_folder_of_step step
  rw [Path.push.eq_def]
  split
  · rename_i idle
    rw [Place.step, folder] at step
    simp only [if_pos idle] at step
    rwa [← Except.ok.inj step]
  · split
    · rename_i isUp
      subst isUp
      cases held with
      | nil =>
          obtain rfl := Except.ok.inj led
          cases rooted with
          | false => exact behind
          | true =>
              obtain ⟨noneAbove, noTrail⟩ := atTop rfl
              obtain ⟨above, trail, entry⟩ := start
              simp only at noneAbove noTrail folder
              subst noneAbove noTrail folder
              exact congrArg Except.ok (Except.ok.inj step)
      | cons last rest =>
          by_cases lastUp : last = utf8 ".."
          · simpa only [if_pos lastUp] using behind
          · simp only [if_neg lastUp]
            rw [List.reverse_cons, foldlM_concat] at led
            cases before : rest.reverse.foldlM Place.step start with
            | error cause => simp [before, Except.bind] at led
            | ok r =>
                rw [before] at led
                have part := parts last (by simp)
                have isName : IsName last := ⟨part.nonempty, part.notHere, lastUp⟩
                -- The name was a step down, which the step up takes back.
                rw [isName.step_up led step]
    · exact behind

end Push

theorem foldlM_clean {rooted : Bool} {start p q : Place} {components held : List Text}
    (apart : ∀ c ∈ components, slash ∉ c) (parts : ∀ c ∈ held, IsPart c)
    (atTop : rooted = true → start.above = [] ∧ start.trail = [])
    (led : held.reverse.foldlM Place.step start = .ok p)
    (steps : components.foldlM Place.step p = .ok q) :
    (∀ c ∈ components.foldl (Path.push rooted) held, IsPart c) ∧
      (components.foldl (Path.push rooted) held).reverse.foldlM Place.step start = .ok q := by
  induction components generalizing held p with
  | nil =>
      obtain rfl := Except.ok.inj steps
      exact ⟨parts, led⟩
  | cons component rest ih =>
      obtain ⟨next, step, further⟩ := exists_step steps
      exact ih (fun c member => apart c (by simp [member]))
        (isPart_push parts (apart component (by simp)))
        (foldlM_push parts atTop led step) further

theorem components_joined {parts : List Text} (nonempty : parts ≠ [])
    (apart : ∀ c ∈ parts, slash ∉ c) :
    Path.components (joinWith [slash] parts) = parts := by
  rw [Path.components, splitAt_eq_splitOn, joinWith, List.splitOn_intercalate slash apart nonempty]

theorem apart_components (path : Text) : ∀ c ∈ Path.components path, slash ∉ c :=
  fun _ member => notMem_of_mem_splitAt member

theorem step_idle {p : Place} {here : Listing} (folder : p.entry = .folder here) {component : Text}
    (idle : component = [] ∨ component = utf8 ".") : p.step component = .ok p := by
  simp only [Place.step, folder, if_pos idle]

theorem components_slash (path : Text) :
    Path.components (slash :: path) = [] :: Path.components path :=
  splitAt_append_sep slash [] path

theorem isAbsolute_joined {parts : List Text} (isPart : ∀ c ∈ parts, IsPart c) :
    Path.isAbsolute (joinWith [slash] parts) = false := by
  cases parts with
  | nil => rfl
  | cons part rest =>
      have nonempty := (isPart part (by simp)).nonempty
      have apart := (isPart part (by simp)).apart
      obtain ⟨b, part, rfl⟩ := List.exists_cons_of_ne_nil nonempty
      have other : b ≠ slash := fun same => apart (by simp [same])
      cases rest <;> simp [Path.isAbsolute, startsWith, joinWith, List.isPrefixOf, Ne.symm other]

/-- A path starts from a folder, from the top if it is absolute. -/
theorem exists_start {d : Disk} {path : Text} {q : Place} (placed : d.place path = .ok q) :
    ∃ start here, start.entry = .folder here ∧
      (Path.isAbsolute path = true → start = d.top) ∧
      (Path.isAbsolute path = false → d.workingDir.foldlM Place.step d.top = .ok start) ∧
      (Path.components path).foldlM Place.step start = .ok q := by
  rw [place, route] at placed
  split at placed
  · rename_i absolute
    exact ⟨d.top, d.root, rfl, fun _ => rfl, by simp [absolute], placed⟩
  · rename_i relative
    rw [List.foldlM_append] at placed
    cases led : d.workingDir.foldlM Place.step d.top with
    | error cause => simp [led, bind, Except.bind] at placed
    | ok start =>
        rw [led] at placed
        obtain ⟨component, rest, split⟩ :=
          List.exists_cons_of_ne_nil (splitAt_ne_nil slash path)
        have steps : (component :: rest).foldlM Place.step start = .ok q := split ▸ placed
        obtain ⟨next, step, -⟩ := exists_step steps
        obtain ⟨here, folder⟩ := exists_folder_of_step step
        exact ⟨start, here, folder, fun absolute => absurd absolute relative,
          fun _ => rfl, placed⟩

section Joined

variable {d : Disk} {parts : List Text} (isPart : ∀ c ∈ parts, IsPart c) {q : Place}
include isPart

theorem place_rooted (led : parts.foldlM Place.step d.top = .ok q) :
    d.place (slash :: joinWith [slash] parts) = .ok q := by
  have rooted : Path.isAbsolute (slash :: joinWith [slash] parts) = true := rfl
  have idle : d.top.step [] = .ok d.top := rfl
  rw [place, route, if_pos rooted, components_slash, List.foldlM_cons, idle]
  by_cases bare : parts = []
  · subst bare
    exact led
  · rw [components_joined bare fun c member => (isPart c member).apart]
    exact led

theorem joined_ne_nil (bare : parts ≠ []) : joinWith [slash] parts ≠ [] := by
  intro empty
  have split := components_joined bare fun c member => (isPart c member).apart
  rw [empty] at split
  have member : [] ∈ parts := by
    rw [← split]
    decide
  exact (isPart [] member).nonempty rfl

theorem place_relative {start : Place} {here : Listing} (folder : start.entry = .folder here)
    (first : d.workingDir.foldlM Place.step d.top = .ok start)
    (led : parts.foldlM Place.step start = .ok q) :
    d.place (if (joinWith [slash] parts).isEmpty then utf8 "." else joinWith [slash] parts) =
      .ok q := by
  by_cases bare : parts = []
  · subst bare
    change d.place (utf8 ".") = .ok q
    have relative : Path.isAbsolute (utf8 ".") = false := by decide
    have one : Path.components (utf8 ".") = [utf8 "."] := by decide
    rw [place, route, relative, one, if_neg (by simp), foldlM_concat, first]
    exact (step_idle folder (.inr rfl)).trans led
  · rw [if_neg (by simpa using joined_ne_nil isPart bare), place, route, isAbsolute_joined isPart,
      if_neg (by simp), components_joined bare fun c member => (isPart c member).apart,
      List.foldlM_append, first]
    exact led

end Joined

/-- The clean form of a path leads to the same place. -/
theorem place_clean {d : Disk} {path : Text} {q : Place} (placed : d.place path = .ok q) :
    d.place (Path.clean path) = .ok q := by
  obtain ⟨start, here, folder, rooted, relative, led⟩ := exists_start placed
  have atTop : Path.isAbsolute path = true → start.above = [] ∧ start.trail = [] := by
    intro absolute
    rw [rooted absolute]
    exact ⟨rfl, rfl⟩
  have unheld : ∀ c ∈ ([] : List Text), IsPart c := by simp
  obtain ⟨isPart, cleaned⟩ := foldlM_clean (apart_components path) unheld atTop rfl led
  have isPart : ∀ c ∈ Path.cleanComponents path, IsPart c :=
    fun c member => isPart c (List.mem_reverse.mp member)
  simp only [Path.clean]
  cases absolute : Path.isAbsolute path with
  | true =>
      rw [rooted absolute] at cleaned
      exact place_rooted isPart cleaned
  | false => exact place_relative isPart folder (relative absolute) cleaned

theorem clean_ne_nil (path : Text) : Path.clean path ≠ [] := by
  simp only [Path.clean]
  split
  · simp
  · split
    · decide
    · rename_i nonempty
      exact fun empty => nonempty (by simp [empty])

theorem mem_push {rooted : Bool} {held : List Text} {component c : Text}
    (member : c ∈ Path.push rooted held component) :
    c ∈ held ∨ c = component := by
  rw [Path.push.eq_def] at member
  split at member
  · exact .inl member
  · split at member
    · cases held with
      | nil =>
          cases rooted with
          | true => cases member
          | false => exact .inr (by simpa using member)
      | cons last rest =>
          by_cases lastUp : last = utf8 ".."
          · simp only [if_pos lastUp] at member
            exact (List.mem_cons.mp member).symm
          · simp only [if_neg lastUp] at member
            exact .inl (List.mem_cons_of_mem _ member)
    · exact (List.mem_cons.mp member).symm

theorem mem_of_mem_pushed {rooted : Bool} {components held : List Text} {c : Text}
    (member : c ∈ components.foldl (Path.push rooted) held) :
    c ∈ held ∨ c ∈ components := by
  induction components generalizing held with
  | nil => exact .inl member
  | cons component rest ih =>
      rcases ih member with pushed | behind
      · exact (mem_push pushed).imp_right fun same => by simp [same]
      · exact .inr (by simp [behind])

theorem mem_joinWith {joint : Text} {parts : List Text} {b : UInt8}
    (member : b ∈ joinWith joint parts) :
    b ∈ joint ∨ ∃ part ∈ parts, b ∈ part := by
  induction parts with
  | nil => cases member
  | cons part rest ih =>
      cases rest with
      | nil => exact .inr ⟨part, by simpa [joinWith] using member⟩
      | cons next rest =>
          rw [joinWith, List.intercalate_cons_cons] at member
          rcases List.mem_append.mp member with front | behind
          · rcases List.mem_append.mp front with inside | between
            · exact .inr ⟨part, by simp, inside⟩
            · exact .inl between
          · rcases ih behind with between | ⟨part, isPart, inside⟩
            · exact .inl between
            · exact .inr ⟨part, by simp [isPart], inside⟩

theorem mem_of_mem_clean {path : Text} {b : UInt8} (notSlash : b ≠ slash) (notDot : b ≠ dot)
    (member : b ∈ Path.clean path) : b ∈ path := by
  have inside (joined : b ∈ joinWith [slash] (Path.cleanComponents path)) : b ∈ path := by
    rcases mem_joinWith joined with between | ⟨part, isPart, inPart⟩
    · exact absurd (by simpa using between) notSlash
    · rcases mem_of_mem_pushed (List.mem_reverse.mp isPart) with none | isComponent
      · cases none
      · exact (isInfix_of_mem_splitAt isComponent).subset inPart
  simp only [Path.clean] at member
  split at member
  · rcases List.mem_cons.mp member with same | joined
    · exact absurd same notSlash
    · exact inside joined
  · split at member
    · exact absurd (List.mem_singleton.mp member) notDot
    · exact inside member

theorem isAbsolute_append {path : Text} (nonempty : path ≠ []) (rest : Text) :
    Path.isAbsolute (path ++ rest) = Path.isAbsolute path := by
  obtain ⟨b, path, rfl⟩ := List.exists_cons_of_ne_nil nonempty
  simp [Path.isAbsolute, startsWith, List.isPrefixOf]

theorem join_pair {dir name : Text} (dirNonempty : dir ≠ []) (nameNonempty : name ≠ []) :
    Path.join [dir, name] = Path.clean (dir ++ slash :: name) := by
  obtain ⟨b, dir, rfl⟩ := List.exists_cons_of_ne_nil dirNonempty
  obtain ⟨c, name, rfl⟩ := List.exists_cons_of_ne_nil nameNonempty
  simp [Path.join, joinWith, List.intercalate]

theorem join_ne_nil {dir name : Text} (dirNonempty : dir ≠ []) (nameNonempty : name ≠ []) :
    Path.join [dir, name] ≠ [] := by
  rw [join_pair dirNonempty nameNonempty]
  exact clean_ne_nil _

/-- The path of an entry of a folder leads one step further than the folder's. -/
theorem place_join {d : Disk} {dir name : Text} {p q : Place} (nonempty : dir ≠ [])
    (isName : IsName name) (apart : slash ∉ name) (placed : d.place dir = .ok p)
    (step : p.step name = .ok q) :
    d.place (Path.join [dir, name]) = .ok q := by
  have components : Path.components (dir ++ slash :: name) = Path.components dir ++ [name] := by
    rw [Path.components, splitAt_append_sep, splitAt_of_notMem apart, Path.components]
  have behind : d.route (dir ++ slash :: name) = d.route dir ++ [name] := by
    rw [route, route, isAbsolute_append nonempty, components]
    split <;> simp
  rw [join_pair nonempty isName.nonempty]
  apply place_clean
  rw [place, behind, foldlM_concat]
  rw [place] at placed
  rw [placed]
  exact step

end Disk

end ModuleDeps
