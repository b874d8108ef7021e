import ModuleDeps.Glob.Match
import ModuleDeps.Proofs.Glob.Codes

/-!
# Patterns for any depth

A pattern `**/` with plain characters behind it is tried at the start of each
component in turn.  The try at a component ends at the first character that
differs, and the next one starts behind the next slash; nothing else is
remembered of it.
-/

set_option autoImplicit false

namespace ModuleDeps.Glob

/-- A character that stands for itself inside a component. -/
def Plain (c : Nat) : Prop :=
  c ∉ [star, slash, question, openClass, backslash, openChoice, closeChoice]

instance : DecidablePred Plain := fun c =>
  inferInstanceAs (Decidable (c ∉ [star, slash, question, openClass, backslash, openChoice,
    closeChoice]))

/-! ## Validity -/

/-- A character that opens and closes nothing. -/
def Inert (c : Nat) : Prop := c ∉ [openClass, backslash, openChoice, closeChoice]

instance : DecidablePred Inert := fun c =>
  inferInstanceAs (Decidable (c ∉ [openClass, backslash, openChoice, closeChoice]))

theorem Plain.inert {c : Nat} (plain : Plain c) : Inert c := by
  simp only [Plain, Inert, List.mem_cons, List.not_mem_nil] at plain ⊢
  tauto

theorem isValid_of_inert {pattern : Codes} (inert : ∀ c ∈ pattern, Inert c) :
    isValid pattern = true := by
  induction pattern with
  | nil => rfl
  | cons c rest ih =>
      obtain ⟨first, behind⟩ := List.forall_mem_cons.mp inert
      simp only [Inert, List.mem_cons, List.not_mem_nil, or_false, not_or] at first
      obtain ⟨notClass, notEscape, notOpen, notClose⟩ := first
      rw [isValid, validFrom.eq_def]
      simp only [if_neg notEscape, if_neg notClass, if_neg notOpen, if_neg notClose]
      exact ih behind

theorem matchesEmpty_of_plain {c : Nat} (plain : Plain c) {rest : Codes}
    (inert : ∀ c ∈ rest, Inert c) (fuel : Nat) :
    matchesEmpty (fuel + 1) (c :: rest) = .no := by
  have valid : isValid (c :: rest) = true :=
    isValid_of_inert (List.forall_mem_cons.mpr ⟨plain.inert, inert⟩)
  simp only [Plain, List.mem_cons, List.not_mem_nil, or_false, not_or] at plain
  obtain ⟨notStar, notSlash, -, -, -, notOpen, -⟩ := plain
  rw [matchesEmpty, if_neg (by simp [emptyPatterns, notStar, notSlash]),
    if_neg (by simpa using notOpen), if_pos valid]

/-! ## Single steps -/

section Steps

variable {pattern path p t : Codes} {s : Progress} {c d : Nat} (fuel : Nat)

def giveUp (fuel : Nat) (pattern path : Codes) (s : Progress) : Verdict :=
  match retry path s with
  | some s => run fuel pattern path s
  | none => if isValid (pattern.drop s.inPattern) then .no else .bad

theorem run_literal (plain : Plain c ∨ c = slash) (isPattern : pattern.drop s.inPattern = c :: p)
    (isPath : path.drop s.inPath = d :: t) :
    run (fuel + 1) pattern path s =
      if c = d then
        run fuel pattern path
          { s with inPattern := s.inPattern + 1, inPath := s.inPath + 1, atStart := c == slash }
      else giveUp fuel pattern path s := by
  have ordinary : c ≠ star ∧ c ≠ question ∧ c ≠ openClass ∧ c ≠ openChoice ∧
      c ≠ backslash := by
    rcases plain with plain | rfl
    · simp only [Plain, List.mem_cons, List.not_mem_nil] at plain
      tauto
    · decide
  obtain ⟨notStar, notQuestion, notClass, notChoice, notEscape⟩ := ordinary
  rw [run, isPath, isPattern]
  simp only [if_neg notStar, if_neg notQuestion, if_neg notClass, if_neg notChoice,
    if_neg notEscape]
  by_cases same : c = d
  · rw [if_pos same, if_pos same]
  · rw [if_neg same, if_neg same]
    rfl

theorem run_patternEnd (isPattern : pattern.drop s.inPattern = [])
    (isPath : path.drop s.inPath = d :: t) :
    run (fuel + 1) pattern path s = giveUp fuel pattern path s := by
  rw [run, isPath, isPattern]
  rfl

theorem run_pathEnd (isPath : path.drop s.inPath = []) :
    run (fuel + 1) pattern path s =
      matchesEmpty (pattern.length + 1) (pattern.drop s.inPattern) := by
  rw [run, isPath]

theorem run_star (isPattern : pattern.drop s.inPattern = star :: p)
    (isPath : path.drop s.inPath = d :: t) {next : Progress}
    (stepped : stepStar pattern s = some next) :
    run (fuel + 1) pattern path s = run fuel pattern path next := by
  rw [run, isPath, isPattern]
  simp only [if_true, stepped]

/-- Two stars at the end of the pattern take the rest of the path. -/
theorem run_lastStars (isPattern : pattern.drop s.inPattern = [star, star])
    (isPath : path.drop s.inPath = d :: t) (atStart : s.atStart = true) :
    run (fuel + 1) pattern path s = .yes := by
  have second : pattern[s.inPattern + 1]? = some star := by
    rw [← List.getElem?_drop, isPattern]
    rfl
  have size : pattern.length = s.inPattern + 1 + 1 := by
    have := congrArg List.length isPattern
    simp at this
    omega
  have stops : stepStar pattern s = none := by
    rw [stepStar, if_pos second, if_pos ⟨atStart, size⟩]
  rw [run, isPath, isPattern]
  simp only [if_true, stops]

end Steps

theorem drop_add_of_drop {l p q : Codes} {n : Nat} (here : l.drop n = p ++ q) :
    l.drop (n + p.length) = q := by
  rw [← List.drop_drop, here, List.drop_left]

theorem drop_succ_of_drop {l p : Codes} {n c : Nat} (here : l.drop n = c :: p) :
    l.drop (n + 1) = p :=
  drop_add_of_drop (p := [c]) here

/-! ## The try at one component -/

/-- The try of what stands at `behind` in the pattern at the component that
starts at `place`, `n` characters being matched. -/
def trying (behind place n : Nat) (atStart : Bool) : Progress where
  inPattern := behind + n
  inPath := place + n
  components := some (behind, place)
  atStart := atStart

section Next

variable {path component more : Codes} {place : Nat} (apart : slash ∉ component)
include apart

theorem nextComponent?_of_slash (isPath : path.drop place = component ++ slash :: more) :
    nextComponent? path place = some (place + component.length + 1) := by
  have none : component.findIdx? (· == slash) = none := by
    rw [List.findIdx?_eq_none_iff]
    intro c member
    exact beq_false_of_ne fun same => apart (same ▸ member)
  rw [nextComponent?, isPath, List.findIdx?_append, none, List.findIdx?_cons,
    if_pos (beq_self_eq_true slash)]
  simp [Nat.add_assoc]

theorem nextComponent?_of_last (isPath : path.drop place = component) :
    nextComponent? path place = none := by
  rw [nextComponent?, isPath, Option.map_eq_none_iff, List.findIdx?_eq_none_iff]
  intro c member
  exact beq_false_of_ne fun same => apart (same ▸ member)

end Next

section Try

variable {pattern path : Codes} {behind place : Nat}

def tryNext (fuel : Nat) (pattern path : Codes) (behind place : Nat) : Verdict :=
  match nextComponent? path place with
  | some next => run fuel pattern path (trying behind next 0 true)
  | none => .no

theorem giveUp_trying (fuel : Nat) {n : Nat} {p : Codes}
    (isPattern : pattern.drop (behind + n) = p) (valid : isValid p = true) (atStart : Bool) :
    giveUp fuel pattern path (trying behind place n atStart) =
      tryNext fuel pattern path behind place := by
  have retried : retry path (trying behind place n atStart) =
      (nextComponent? path place).map fun next => trying behind next 0 true := by
    cases found : nextComponent? path place <;> simp [retry, trying, retryComponents, found]
  rw [giveUp, retried, tryNext]
  cases nextComponent? path place with
  | none => exact if_pos (isPattern ▸ valid)
  | some next => rfl

/-- A component that begins with the literal takes one step for each of its
characters. -/
theorem run_trying_append {literal tail t : Codes} (plain : ∀ c ∈ literal, Plain c)
    (fuel n : Nat) (atStart : Bool) (isPattern : pattern.drop (behind + n) = literal ++ tail)
    (isPath : path.drop (place + n) = literal ++ t) :
    ∃ atStart', run (fuel + literal.length) pattern path (trying behind place n atStart) =
      run fuel pattern path (trying behind place (n + literal.length) atStart') := by
  induction literal generalizing n atStart with
  | nil => exact ⟨atStart, rfl⟩
  | cons c literal ih =>
      obtain ⟨first, rest⟩ := List.forall_mem_cons.mp plain
      obtain ⟨atStart', stepped⟩ := ih rest (n + 1) (c == slash) (drop_succ_of_drop isPattern)
        (drop_succ_of_drop isPath)
      refine ⟨atStart', ?_⟩
      rw [List.length_cons, ← Nat.add_assoc, run_literal _ (.inl first) isPattern isPath,
        if_pos rfl, show n + (literal.length + 1) = n + 1 + literal.length by omega]
      exact stepped

/-- A component that is not the literal ends its try. -/
theorem run_trying_of_ne {literal tail component t : Codes} (plain : ∀ c ∈ literal, Plain c)
    (inert : ∀ c ∈ tail, Inert c) (closed : ∀ c ∈ tail.head?, c = slash)
    (apart : slash ∉ component) (cut : ∀ c ∈ t.head?, c = slash)
    (last : t = [] → nextComponent? path place = none) (differ : component ≠ literal)
    (fuel n : Nat) (atStart : Bool) (isPattern : pattern.drop (behind + n) = literal ++ tail)
    (isPath : path.drop (place + n) = component ++ t) :
    ∃ left, fuel ≤ left ∧
      run (fuel + literal.length + 1) pattern path (trying behind place n atStart) =
        tryNext left pattern path behind place := by
  have valid {p : Codes} (isEnd : p <:+ literal ++ tail) : isValid p = true :=
    isValid_of_inert fun c member =>
      (List.mem_append.mp (isEnd.subset member)).elim
        (fun inside => (plain c inside).inert) (inert c)
  induction literal generalizing component n atStart with
  | nil =>
      cases component with
      | nil => exact absurd rfl differ
      | cons d component =>
          -- the component goes on behind the literal, the pattern with a slash at most
          refine ⟨fuel, Nat.le_refl _, ?_⟩
          cases tail with
          | nil =>
              exact (run_patternEnd fuel isPattern isPath).trans
                (giveUp_trying fuel isPattern rfl atStart)
          | cons c tail =>
              have isSlash := closed c rfl
              have other : c ≠ d := fun same => apart (by simp [← isSlash, same])
              rw [run_literal _ (.inr isSlash) isPattern isPath, if_neg other]
              exact giveUp_trying fuel isPattern (valid (List.suffix_refl _)) atStart
  | cons c literal ih =>
      obtain ⟨first, rest⟩ := List.forall_mem_cons.mp plain
      cases component with
      | nil =>
          -- the component ends first, with the path or in front of a slash
          cases t with
          | nil =>
              refine ⟨fuel, Nat.le_refl _, ?_⟩
              have inertRest : ∀ c ∈ literal ++ tail, Inert c := fun c member =>
                (List.mem_append.mp member).elim (fun inside => (rest c inside).inert) (inert c)
              have atEnd : pattern.drop (trying behind place n atStart).inPattern =
                  c :: (literal ++ tail) := isPattern
              rw [run_pathEnd _ isPath, atEnd, matchesEmpty_of_plain first inertRest,
                tryNext, last rfl]
          | cons d t =>
              refine ⟨fuel + (literal.length + 1), by omega, ?_⟩
              have isSlash := cut d rfl
              have other : c ≠ d := by
                rintro rfl
                simp [isSlash, Plain] at first
              rw [List.length_cons, run_literal _ (.inl first) isPattern isPath, if_neg other]
              exact giveUp_trying _ isPattern (valid (List.suffix_refl _)) atStart
      | cons d component =>
          by_cases same : c = d
          · subst same
            have behindDiffer : component ≠ literal := fun eq => differ (eq ▸ rfl)
            obtain ⟨left, more, stepped⟩ := ih rest
              (fun member => apart (List.mem_cons_of_mem _ member)) behindDiffer (n + 1)
                (c == slash)
              (drop_succ_of_drop isPattern) (drop_succ_of_drop isPath)
              (fun isEnd => valid (isEnd.trans (List.suffix_cons _ _)))
            refine ⟨left, more, ?_⟩
            rw [List.length_cons, run_literal _ (.inl first) isPattern isPath, if_pos rfl,
              ← Nat.add_assoc]
            exact stepped
          · refine ⟨fuel + (literal.length + 1), by omega, ?_⟩
            rw [List.length_cons, run_literal _ (.inl first) isPattern isPath, if_neg same]
            exact giveUp_trying _ isPattern (valid (List.suffix_refl _)) atStart

end Try

/-! ## All components -/

/-- The components of a path, between slashes. -/
def joined (components : List Codes) : Codes := [slash].intercalate components

theorem joined_singleton (component : Codes) : joined [component] = component := by
  simp [joined]

theorem joined_cons_cons (component next : Codes) (rest : List Codes) :
    joined (component :: next :: rest) = component ++ slash :: joined (next :: rest) := by
  simp [joined, List.intercalate_cons_cons]

theorem joined_cons (component : Codes) (rest : List Codes) :
    ∃ t, joined (component :: rest) = component ++ t ∧ (∀ c ∈ t.head?, c = slash) ∧
      (t = [] ∧ rest = [] ∨ t = slash :: joined rest ∧ rest ≠ []) := by
  cases rest with
  | nil => exact ⟨[], by simp [joined_singleton], by simp, .inl ⟨rfl, rfl⟩⟩
  | cons next rest => exact ⟨_, joined_cons_cons .., by simp, .inr ⟨rfl, by simp⟩⟩

theorem length_le_joined (components : List Codes) :
    components.length ≤ (joined components).length + 1 := by
  induction components with
  | nil => simp
  | cons component rest ih =>
      cases rest with
      | nil => simp
      | cons next rest =>
          simp only [joined_cons_cons, List.length_append, List.length_cons] at ih ⊢
          omega

section Inside

variable {pattern path literal : Codes} {behind : Nat} (plain : ∀ c ∈ literal, Plain c)
  (isPattern : pattern.drop behind = literal ++ [slash, star, star])
include isPattern

theorem run_of_literal {place : Nat} (atStart : Bool) {t : Codes}
    (cut : ∀ c ∈ t.head?, c = slash) (isPath : path.drop (place + literal.length) = t)
    (fuel : Nat) :
    run (fuel + 2) pattern path (trying behind place literal.length atStart) = .yes := by
  have rest : pattern.drop (behind + literal.length) = [slash, star, star] :=
    drop_add_of_drop isPattern
  have stars : pattern.drop (behind + literal.length + 1) = [star, star] := drop_succ_of_drop rest
  cases t with
  | nil =>
      have atEnd : pattern.drop (trying behind place literal.length atStart).inPattern =
          [slash, star, star] := rest
      rw [run_pathEnd _ isPath, atEnd]
      rfl
  | cons d t =>
      obtain rfl := cut d rfl
      rw [run_literal _ (.inr rfl) rest isPath, if_pos rfl]
      have further : path.drop (place + literal.length + 1) = t := drop_succ_of_drop isPath
      cases t with
      | nil =>
          rw [run_pathEnd _ further]
          exact stars ▸ rfl
      | cons e t => exact run_lastStars _ stars further rfl

include plain

/-- The literal is looked for among the components from a place on.  The
induction is on the components that are left; each takes fewer steps than it
is given. -/
theorem run_inside {components : List Codes} (some : components ≠ [])
    (apart : ∀ component ∈ components, slash ∉ component) {place : Nat}
    (isPath : path.drop place = joined components) {fuel : Nat}
    (enough : components.length * (literal.length + 2) ≤ fuel) :
    run fuel pattern path (trying behind place 0 true) =
      if literal ∈ components then .yes else .no := by
  induction components generalizing place fuel with
  | nil => exact absurd rfl some
  | cons component rest ih =>
      obtain ⟨own, others⟩ := List.forall_mem_cons.mp apart
      obtain ⟨t, split, cut, onward⟩ := joined_cons component rest
      rw [split] at isPath
      rw [List.length_cons, Nat.succ_mul] at enough
      obtain ⟨spare, rfl⟩ := Nat.exists_eq_add_of_le (show literal.length + 2 ≤ fuel by omega)
      by_cases hit : component = literal
      · subst hit
        have atEnd : path.drop (place + component.length) = t := drop_add_of_drop isPath
        obtain ⟨atStart, stepped⟩ := run_trying_append plain (spare + 2) 0 true isPattern isPath
        rw [if_pos List.mem_cons_self, show component.length + 2 + spare =
          spare + 2 + component.length by omega, stepped, Nat.zero_add]
        exact run_of_literal isPattern atStart cut atEnd spare
      · have inert : ∀ c ∈ [slash, star, star], Inert c := by decide
        have last : t = [] → nextComponent? path place = none := fun nothing =>
          nextComponent?_of_last own (by rw [isPath, nothing, List.append_nil])
        obtain ⟨left, more, stepped⟩ :=
          run_trying_of_ne plain inert (by simp) own cut last hit (spare + 1) 0 true
          isPattern isPath
        rw [show literal.length + 2 + spare = spare + 1 + literal.length + 1 by omega,
          stepped, tryNext]
        rcases onward with ⟨nothing, rfl⟩ | ⟨rfl, someRest⟩
        · rw [last nothing, if_neg (by simpa using Ne.symm hit)]
        · have next : path.drop (place + component.length + 1) = joined rest :=
            drop_succ_of_drop (drop_add_of_drop isPath)
          rw [nextComponent?_of_slash own isPath]
          have found :=
            ih someRest others next (show rest.length * (literal.length + 2) ≤ left by omega)
          simpa only [List.mem_cons, Ne.symm hit, false_or] using found

end Inside

theorem lt_enoughSteps (pattern path : Codes) :
    (pattern.length + 1) * (path.length + 1) < enoughSteps pattern path := by
  rw [enoughSteps]
  generalize positive : (pattern.length + 1) * (path.length + 1) = places
  have some : 0 < places := positive ▸ Nat.mul_pos (Nat.succ_pos _) (Nat.succ_pos _)
  have steps : 1 * 1 * places * 2 ≤
      (pattern.length + 1) * places * places * (pattern.length + path.length + 2) :=
    Nat.mul_le_mul (Nat.mul_le_mul (Nat.mul_le_mul (by omega) some) (Nat.le_refl _)) (by omega)
  omega

/-- A double star and a slash at the start lead to a try of the rest at the first
component, with more steps left than that takes. -/
theorem exists_begun (rest : Codes) {components : List Codes}
    (nonempty : joined components ≠ []) :
    let pattern := [star, star, slash] ++ rest
    ∃ fuel, components.length * (rest.length + 2) ≤ fuel ∧
      run (enoughSteps pattern (joined components)) pattern (joined components) {} =
        run fuel pattern (joined components) (trying 3 0 0 true) := by
  intro pattern
  obtain ⟨d, t, isPath⟩ := List.exists_cons_of_ne_nil nonempty
  obtain ⟨fuel, steps⟩ := Nat.exists_eq_add_of_lt (lt_enoughSteps pattern (joined components))
  have size : pattern.length = rest.length + 3 := by simp [pattern]
  have enough : components.length * (rest.length + 2) ≤
      (pattern.length + 1) * ((joined components).length + 1) := by
    rw [Nat.mul_comm]
    exact Nat.mul_le_mul (by omega) (length_le_joined components)
  have begun : stepStar pattern {} = .some (trying 3 0 0 true) := rfl
  refine ⟨(pattern.length + 1) * ((joined components).length + 1) + fuel, by omega, ?_⟩
  rw [steps, run_star _ (show pattern.drop 0 = star :: _ from rfl)
    (show (joined components).drop 0 = _ from isPath) begun]

/-- A literal between two double stars asks for a component. -/
theorem run_anyDepth {literal : Codes} (plain : ∀ c ∈ literal, Plain c)
    {components : List Codes} (apart : ∀ component ∈ components, slash ∉ component)
    (nonempty : joined components ≠ []) :
    let pattern := [star, star, slash] ++ (literal ++ [slash, star, star])
    run (enoughSteps pattern (joined components)) pattern (joined components) {} =
      if literal ∈ components then .yes else .no := by
  intro pattern
  have some : components ≠ [] := fun nothing => nonempty (nothing ▸ rfl)
  obtain ⟨fuel, enough, begun⟩ := exists_begun (literal ++ [slash, star, star]) nonempty
  have fewer : components.length * (literal.length + 2) ≤ fuel :=
    Nat.le_trans (Nat.mul_le_mul (Nat.le_refl _) (by simp)) enough
  rw [begun]
  exact run_inside plain (show pattern.drop 3 = _ from rfl) some apart
    (show (joined components).drop 0 = _ from rfl) fewer

/-! ## Paths -/

def folderGlob (name : Text) : Text := utf8 "**/" ++ (name ++ utf8 "/**")

def PlainName (name : Text) : Prop := Text.Ascii name ∧ ∀ b ∈ name, Plain b.toNat

instance : DecidablePred PlainName := fun name =>
  inferInstanceAs (Decidable (Text.Ascii name ∧ ∀ b ∈ name, Plain b.toNat))

theorem PlainName.codes {name : Text} (plain : PlainName name) : ∀ c ∈ codes name, Plain c := by
  rw [codes_of_ascii plain.1]
  exact List.forall_mem_map.mpr plain.2

section Named

variable {names : List Text} (named : Named names)
include named

theorem apart_codes : ∀ component ∈ names.map codes, slash ∉ component :=
  List.forall_mem_map.mpr fun name member => slash_notMem_codes (named name member).2

theorem joined_codes_ne_nil (some : names ≠ []) : joined (names.map codes) ≠ [] := by
  rw [joined, ← codes_pathOf names, codes, ne_eq, List.map_eq_nil_iff, Text.scalars_eq_nil_iff]
  exact named.pathOf_ne_nil some

end Named

theorem codes_anyDepth (t : Text) : codes (utf8 "**/" ++ t) = [star, star, slash] ++ codes t := by
  have lead : codes (utf8 "**/") = [star, star, slash] := by decide +kernel
  rw [codes_append_of_ascii (by decide +kernel), lead]

theorem codes_folderGlob {name : Text} (ascii : Text.Ascii name) :
    codes (folderGlob name) = [star, star, slash] ++ (codes name ++ [slash, star, star]) := by
  have tail : codes (utf8 "/**") = [slash, star, star] := by decide +kernel
  rw [folderGlob, codes_anyDepth, codes_append_of_ascii ascii, tail]

/-- The pattern takes the folders of the name as well. -/
theorem isMatch_folderGlob_iff {name : Text} (plain : PlainName name) {names : List Text}
    (named : Named names) (some : names ≠ []) :
    isMatch (folderGlob name) (pathOf names) = true ↔ name ∈ names := by
  have path : codes (pathOf names) = joined (names.map codes) := codes_pathOf names
  have member : codes name ∈ names.map codes ↔ name ∈ names := by
    simp [List.mem_map, codes_eq_iff plain.1]
  rw [isMatch, verdict, codes_folderGlob plain.1, path,
    run_anyDepth plain.codes (apart_codes named) (joined_codes_ne_nil named some), ← member]
  split
  · rename_i inside
    exact iff_of_true rfl inside
  · rename_i outside
    exact iff_of_false (by decide) outside

end ModuleDeps.Glob
