import ModuleDeps.Proofs.Glob.AnyDepth

/-!
# Names at any depth

A pattern `**/` with plain characters behind it and nothing else asks for the last
component of a path.  A try that matches an earlier component comes to the end of
the pattern in front of a slash, and so it fails like one that does not match.
-/

set_option autoImplicit false

namespace ModuleDeps.Glob

section Last

variable {pattern path literal : Codes} {behind : Nat} (plain : ∀ c ∈ literal, Plain c)
  (isPattern : pattern.drop behind = literal)
include plain isPattern

theorem run_before_slash {component t : Codes} (apart : slash ∉ component) {place : Nat}
    (isPath : path.drop place = component ++ slash :: t) (fuel : Nat) :
    ∃ left, fuel ≤ left ∧ run (fuel + literal.length + 1) pattern path
      (trying behind place 0 true) =
      tryNext left pattern path behind place := by
  have bare : pattern.drop (behind + 0) = literal ++ [] := by
    rw [List.append_nil, Nat.add_zero, isPattern]
  by_cases hit : component = literal
  · subst hit
    obtain ⟨atStart, stepped⟩ := run_trying_append plain (fuel + 1) 0 true bare isPath
    have patternEnd : pattern.drop (behind + (0 + component.length)) = [] := by
      rw [Nat.zero_add]
      exact drop_add_of_drop (by rw [isPattern, List.append_nil])
    have pathSlash : path.drop (place + (0 + component.length)) = slash :: t := by
      rw [Nat.zero_add]
      exact drop_add_of_drop isPath
    refine ⟨fuel, Nat.le_refl _, ?_⟩
    rw [show fuel + component.length + 1 = fuel + 1 + component.length by omega, stepped,
      run_patternEnd fuel patternEnd pathSlash]
    exact giveUp_trying fuel patternEnd rfl atStart
  · exact run_trying_of_ne plain (by simp) (by simp) apart (by simp) (by simp) hit fuel 0 true
      bare isPath

theorem run_at_last {component : Codes} (apart : slash ∉ component) {place : Nat}
    (isPath : path.drop place = component) (fuel : Nat) :
    run (fuel + literal.length + 1) pattern path (trying behind place 0 true) =
      if component = literal then .yes else .no := by
  have bare : pattern.drop (behind + 0) = literal ++ [] := by
    rw [List.append_nil, Nat.add_zero, isPattern]
  have whole : path.drop (place + 0) = component ++ [] := by
    rw [List.append_nil, Nat.add_zero, isPath]
  have last : nextComponent? path place = none := nextComponent?_of_last apart isPath
  by_cases hit : component = literal
  · subst hit
    obtain ⟨atStart, stepped⟩ := run_trying_append plain (fuel + 1) 0 true bare whole
    have patternEnd : pattern.drop (behind + (0 + component.length)) = [] := by
      rw [Nat.zero_add]
      exact drop_add_of_drop (by rw [isPattern, List.append_nil])
    have pathEnd : path.drop (place + (0 + component.length)) = [] := by
      rw [Nat.zero_add]
      exact drop_add_of_drop (by rw [isPath, List.append_nil])
    rw [if_pos rfl, show fuel + component.length + 1 = fuel + 1 + component.length by omega,
      stepped, run_pathEnd _ pathEnd]
    exact patternEnd ▸ rfl
  · obtain ⟨left, -, stepped⟩ :=
      run_trying_of_ne plain (by simp) (by simp) apart (by simp) (fun _ => last) hit fuel 0
        true bare whole
    rw [if_neg hit, stepped, tryNext, last]

/-- The induction is on the components that are left; each takes fewer steps than
it is given. -/
theorem run_last {components : List Codes} (some : components ≠ [])
    (apart : ∀ component ∈ components, slash ∉ component) {place : Nat}
    (isPath : path.drop place = joined components) {fuel : Nat}
    (enough : components.length * (literal.length + 2) ≤ fuel) :
    run fuel pattern path (trying behind place 0 true) =
      if components.getLast? = .some literal then .yes else .no := by
  induction components generalizing place fuel with
  | nil => exact absurd rfl some
  | cons component rest ih =>
      obtain ⟨own, others⟩ := List.forall_mem_cons.mp apart
      rw [List.length_cons, Nat.succ_mul] at enough
      obtain ⟨spare, rfl⟩ := Nat.exists_eq_add_of_le (show literal.length + 2 ≤ fuel by omega)
      rw [show literal.length + 2 + spare = spare + 1 + literal.length + 1 by omega]
      obtain ⟨t, split, -, ⟨rfl, rfl⟩ | ⟨rfl, someRest⟩⟩ := joined_cons component rest
      · rw [run_at_last plain isPattern own (by rw [isPath, joined_singleton])]
        simp
      · rw [split] at isPath
        obtain ⟨left, more, stepped⟩ := run_before_slash plain isPattern own isPath (spare + 1)
        have next : path.drop (place + component.length + 1) = joined rest :=
          drop_succ_of_drop (drop_add_of_drop isPath)
        rw [stepped, tryNext, nextComponent?_of_slash own isPath,
          List.getLast?_cons_of_ne_nil someRest]
        exact ih someRest others next (by omega)

end Last

theorem run_anyDepth_last {literal : Codes} (plain : ∀ c ∈ literal, Plain c)
    {components : List Codes} (apart : ∀ component ∈ components, slash ∉ component)
    (nonempty : joined components ≠ []) :
    let pattern := [star, star, slash] ++ literal
    run (enoughSteps pattern (joined components)) pattern (joined components) {} =
      if components.getLast? = some literal then .yes else .no := by
  intro pattern
  have some : components ≠ [] := fun nothing => nonempty (nothing ▸ rfl)
  obtain ⟨fuel, enough, begun⟩ := exists_begun literal nonempty
  rw [begun]
  exact run_last plain (show pattern.drop 3 = _ from rfl) some apart
    (show (joined components).drop 0 = _ from rfl) enough

/-- The pattern takes the paths whose last name is the one behind it. -/
theorem isMatch_anyDepth_iff {name : Text} (plain : PlainName name) {names : List Text}
    (named : Named names) (some : names ≠ []) :
    isMatch (utf8 "**/" ++ name) (pathOf names) = true ↔ names.getLast? = .some name := by
  have path : codes (pathOf names) = joined (names.map codes) := codes_pathOf names
  have last : (names.map codes).getLast? = .some (codes name) ↔ names.getLast? = .some name := by
    rw [List.getLast?_map]
    cases names.getLast? with
    | none => simp
    | some n => simp [codes_eq_iff plain.1]
  rw [isMatch, verdict, codes_anyDepth, path,
    run_anyDepth_last plain.codes (apart_codes named) (joined_codes_ne_nil named some), ← last]
  split
  · rename_i isLast
    exact iff_of_true rfl isLast
  · rename_i other
    exact iff_of_false (by decide) other

end ModuleDeps.Glob
