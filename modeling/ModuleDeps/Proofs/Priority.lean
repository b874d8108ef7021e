import Mathlib.Data.List.Perm.Basic
import ModuleDeps.Layout

/-!
# Which marker wins

Markers are tried in turn, each on all candidates in turn, and the first try that
applies decides.  So the result comes from the least pair of a marker and a
candidate, the marker first: the order of the candidates has no say in which marker
wins, and what is listed behind the winner none in the result (`resolve_priority`).
-/

set_option autoImplicit false

namespace ModuleDeps

/-! ## Trying one after the other -/

/-- The result of the first try that has one; a refused try ends the search. -/
def firstOf {α β : Type} (attempt : α → Except OutOfRange (Option β)) : List α →
    Except OutOfRange (Option β)
  | [] => .ok none
  | a :: rest =>
    match attempt a with
    | .ok (some b) => .ok (some b)
    | .ok none => firstOf attempt rest
    | .error e => .error e

section FirstOf

variable {α β : Type} {attempt : α → Except OutOfRange (Option β)} {a : α} {b : β}

theorem firstOf_cons_of_none (passed : attempt a = .ok none) (rest : List α) :
    firstOf attempt (a :: rest) = firstOf attempt rest := by
  rw [firstOf, passed]

theorem firstOf_cons_of_some (made : attempt a = .ok (some b)) (rest : List α) :
    firstOf attempt (a :: rest) = .ok (some b) := by
  rw [firstOf, made]

theorem firstOf_cons_of_error (refused : attempt a = .error .mk) (rest : List α) :
    firstOf attempt (a :: rest) = .error .mk := by
  rw [firstOf, refused]

theorem firstOf_append {front : List α} (passed : ∀ a ∈ front, attempt a = .ok none)
    (rest : List α) :
    firstOf attempt (front ++ rest) = firstOf attempt rest := by
  induction front with
  | nil => rfl
  | cons a front ih =>
      obtain ⟨first, others⟩ := List.forall_mem_cons.mp passed
      rw [List.cons_append, firstOf_cons_of_none first, ih others]

theorem firstOf_eq_none_iff {l : List α} :
    firstOf attempt l = .ok none ↔ ∀ a ∈ l, attempt a = .ok none := by
  induction l with
  | nil => simp [firstOf]
  | cons a rest ih =>
      rw [List.forall_mem_cons]
      match tried : attempt a with
      | .ok none => rw [firstOf_cons_of_none tried, ih, and_iff_right rfl]
      | .ok (some b) => simp [firstOf_cons_of_some tried]
      | .error .mk => simp [firstOf_cons_of_error tried]

theorem exists_of_firstOf {l : List α} (made : firstOf attempt l = .ok (some b)) :
    ∃ front a back, l = front ++ a :: back ∧ (∀ a ∈ front, attempt a = .ok none) ∧
      attempt a = .ok (some b) := by
  induction l with
  | nil => cases made
  | cons a rest ih =>
      match tried : attempt a with
      | .ok none =>
          rw [firstOf_cons_of_none tried] at made
          obtain ⟨front, a', back, rfl, passed, made⟩ := ih made
          exact ⟨a :: front, a', back, rfl, List.forall_mem_cons.mpr ⟨tried, passed⟩, made⟩
      | .ok (some b') =>
          rw [firstOf_cons_of_some tried] at made
          exact ⟨[], a, rest, rfl, by simp, tried.trans made⟩
      | .error .mk =>
          rw [firstOf_cons_of_error tried] at made
          cases made

theorem firstOf_ne_error {l : List α} (safe : ∀ a ∈ l, attempt a ≠ .error .mk) :
    firstOf attempt l ≠ .error .mk := by
  induction l with
  | nil => simp [firstOf]
  | cons a rest ih =>
      obtain ⟨first, others⟩ := List.forall_mem_cons.mp safe
      match tried : attempt a with
      | .ok none =>
          rw [firstOf_cons_of_none tried]
          exact ih others
      | .ok (some b) => simp [firstOf_cons_of_some tried]
      | .error .mk => exact absurd tried first

end FirstOf

/-! ## Markers and candidates -/

namespace Marker

variable {m : Marker} {path : Text}

def offer (m : Marker) (path : Text) : Except OutOfRange (Option Candidate) :=
  (m.apply path).map (Option.map (Candidate.mk path))

theorem offer_eq_none_iff : m.offer path = .ok none ↔ m.apply path = .ok none := by
  rw [offer]
  cases m.apply path <;> simp [Except.map]

theorem offer_eq_some_iff {c : Candidate} :
    m.offer path = .ok (some c) ↔ path = c.path ∧ m.apply path = .ok (some c.importPath) := by
  obtain ⟨own, importPath⟩ := c
  rw [offer]
  match m.apply path with
  | .ok none => simp [Except.map]
  | .ok (some _) => simp [Except.map]
  | .error _ => simp [Except.map]

theorem offer_eq_error_iff : m.offer path = .error .mk ↔ m.apply path = .error .mk := by
  rw [offer]
  cases m.apply path <;> simp [Except.map]

theorem pick_eq_firstOf (m : Marker) (candidates : List Text) :
    m.pick candidates = firstOf m.offer candidates := by
  induction candidates with
  | nil => rfl
  | cons path rest ih =>
      rw [pick, firstOf, ih, offer]
      match m.apply path with
      | .ok none => rfl
      | .ok (some _) => rfl
      | .error _ => rfl

end Marker

theorem resolve_eq_firstOf (candidates : List Text) (markers : List Marker) :
    resolve candidates markers = firstOf (fun m => firstOf m.offer candidates) markers := by
  induction markers with
  | nil => rfl
  | cons m rest ih =>
      rw [resolve, firstOf, ih, m.pick_eq_firstOf]
      match firstOf m.offer candidates with
      | .ok none => rfl
      | .ok (some _) => rfl
      | .error _ => rfl

/-- No marker cuts a candidate out of range. -/
def Safe (markers : List Marker) (candidates : List Text) : Prop :=
  ∀ m ∈ markers, ∀ path ∈ candidates, m.apply path ≠ .error .mk

instance (markers : List Marker) (candidates : List Text) : Decidable (Safe markers candidates) :=
  inferInstanceAs (Decidable (∀ m ∈ markers, ∀ path ∈ candidates,
    m.apply path ≠ .error .mk))

/-- The marker at `i` applies to the candidate at `j` and makes `c` of it. -/
def Makes (markers : List Marker) (candidates : List Text) (i j : Nat) (c : Candidate) : Prop :=
  ∃ m, markers[i]? = some m ∧ candidates[j]? = some c.path ∧
    m.apply c.path = .ok (some c.importPath)

/-- Of the pairs of a marker and a candidate that it applies to, this is the least. -/
structure Wins (markers : List Marker) (candidates : List Text) (i j : Nat) (c : Candidate) :
    Prop where
  makes : Makes markers candidates i j c
  least : ∀ i' j' c', Makes markers candidates i' j' c' → i < i' ∨ i = i' ∧ j ≤ j'

section Wins

variable {markers : List Marker} {candidates candidates' : List Text} {i j i' j' : Nat}
  {c c' : Candidate}

theorem Makes.unique (makes : Makes markers candidates i j c)
    (makes' : Makes markers candidates i j c') : c = c' := by
  obtain ⟨m, isMarker, isCandidate, applies⟩ := makes
  obtain ⟨m', isMarker', isCandidate', applies'⟩ := makes'
  obtain rfl := Option.some.inj (isMarker.symm.trans isMarker')
  obtain ⟨path, importPath⟩ := c
  obtain ⟨path', importPath'⟩ := c'
  obtain rfl : path = path' := Option.some.inj (isCandidate.symm.trans isCandidate')
  obtain rfl : importPath = importPath' :=
    Option.some.inj (Except.ok.inj (applies.symm.trans applies'))
  rfl

theorem Wins.unique (wins : Wins markers candidates i j c)
    (wins' : Wins markers candidates i' j' c') :
    i = i' ∧ c = c' := by
  have forth := wins.least _ _ _ wins'.makes
  have back := wins'.least _ _ _ wins.makes
  obtain rfl : i = i' := by omega
  obtain rfl : j = j' := by omega
  exact ⟨rfl, wins.makes.unique wins'.makes⟩

theorem Makes.perm (makes : Makes markers candidates i j c) (perm : candidates.Perm candidates') :
    ∃ j', Makes markers candidates' i j' c := by
  obtain ⟨m, isMarker, isCandidate, applies⟩ := makes
  have member : c.path ∈ candidates' := perm.mem_iff.mp (List.mem_of_getElem? isCandidate)
  obtain ⟨j', isCandidate'⟩ := List.mem_iff_getElem?.mp member
  exact ⟨j', m, isMarker, isCandidate', applies⟩

theorem resolve_eq_none_iff :
    resolve candidates markers = .ok none ↔ ∀ m ∈ markers, ∀ path ∈ candidates,
      m.apply path = .ok none := by
  simp only [resolve_eq_firstOf, firstOf_eq_none_iff, Marker.offer_eq_none_iff]

theorem Makes.resolve_ne_none (makes : Makes markers candidates i j c) :
    resolve candidates markers ≠ .ok none := by
  obtain ⟨m, isMarker, isCandidate, applies⟩ := makes
  intro nothing
  have passed :=
    resolve_eq_none_iff.mp nothing m (List.mem_of_getElem? isMarker) _
      (List.mem_of_getElem? isCandidate)
  rw [applies] at passed
  cases passed

theorem exists_wins (resolved : resolve candidates markers = .ok (some c)) :
    ∃ i j, Wins markers candidates i j c := by
  rw [resolve_eq_firstOf] at resolved
  obtain ⟨above, m, below, rfl, passedOver, picked⟩ := exists_of_firstOf resolved
  obtain ⟨front, path, back, rfl, passed, offered⟩ := exists_of_firstOf picked
  obtain ⟨rfl, applies⟩ := Marker.offer_eq_some_iff.mp offered
  refine ⟨above.length, front.length, ⟨m, by simp, by simp, applies⟩, ?_⟩
  rintro i' j' c' ⟨m', isMarker', isCandidate', applies'⟩
  have offered' : m'.offer c'.path = .ok (some c') :=
    Marker.offer_eq_some_iff.mpr ⟨rfl, applies'⟩
  rcases Nat.lt_trichotomy i' above.length with earlier | rfl | later
  · rw [List.getElem?_append_left earlier] at isMarker'
    have nothing := firstOf_eq_none_iff.mp (passedOver m' (List.mem_of_getElem? isMarker')) _
      (List.mem_of_getElem? isCandidate')
    rw [offered'] at nothing
    cases nothing
  · refine .inr ⟨rfl, Nat.le_of_not_lt fun earlier => ?_⟩
    obtain rfl : m = m' := by simpa using isMarker'
    rw [List.getElem?_append_left earlier] at isCandidate'
    have nothing := passed _ (List.mem_of_getElem? isCandidate')
    rw [offered'] at nothing
    cases nothing
  · exact .inl later

theorem resolve_append_markers (resolved : resolve candidates markers = .ok (some c))
    (more : List Marker) :
    resolve candidates (markers ++ more) = .ok (some c) := by
  rw [resolve_eq_firstOf] at resolved ⊢
  obtain ⟨above, m, below, rfl, passedOver, picked⟩ := exists_of_firstOf resolved
  rw [List.append_assoc, firstOf_append passedOver, List.cons_append, firstOf, picked]

theorem resolve_append_candidates (resolved : resolve candidates markers = .ok (some c))
    (more : List Text) :
    resolve (candidates ++ more) markers ≠ .ok none := by
  obtain ⟨i, j, ⟨m, isMarker, isCandidate, applies⟩, -⟩ := exists_wins resolved
  have still : (candidates ++ more)[j]? = some c.path := by
    rw [List.getElem?_append_left (List.getElem?_eq_some_iff.mp isCandidate).1, isCandidate]
  exact Makes.resolve_ne_none ⟨m, isMarker, still, applies⟩

section Safe

variable (safe : Safe markers candidates)
include safe

theorem Safe.exists_resolve : ∃ found, resolve candidates markers = .ok found := by
  have noError : resolve candidates markers ≠ .error .mk := by
    rw [resolve_eq_firstOf]
    refine firstOf_ne_error fun m isMarker => firstOf_ne_error fun path isCandidate => ?_
    exact mt Marker.offer_eq_error_iff.mp (safe m isMarker path isCandidate)
  match outcome : resolve candidates markers with
  | .ok found => exact ⟨found, rfl⟩
  | .error .mk => exact absurd outcome noError

theorem Safe.resolve_eq_some_iff :
    resolve candidates markers = .ok (some c) ↔ ∃ i j, Wins markers candidates i j c := by
  refine ⟨exists_wins, ?_⟩
  rintro ⟨i, j, wins⟩
  obtain ⟨found, resolved⟩ := safe.exists_resolve
  cases found with
  | none => exact absurd resolved wins.makes.resolve_ne_none
  | some c' =>
      obtain ⟨i', j', wins'⟩ := exists_wins resolved
      rw [resolved, (wins.unique wins').2]

theorem Safe.resolve_eq_none_iff_not_makes :
    resolve candidates markers = .ok none ↔ ∀ i j c, ¬ Makes markers candidates i j c := by
  refine ⟨fun nothing i j c makes => makes.resolve_ne_none nothing, fun nothing => ?_⟩
  obtain ⟨found, resolved⟩ := safe.exists_resolve
  cases found with
  | none => exact resolved
  | some c =>
      obtain ⟨i, j, wins⟩ := exists_wins resolved
      exact absurd wins.makes (nothing i j c)

theorem Safe.perm (perm : candidates.Perm candidates') : Safe markers candidates' :=
  fun m isMarker path isCandidate => safe m isMarker path (perm.mem_iff.mpr isCandidate)

theorem Safe.exists_wins_perm (perm : candidates.Perm candidates')
    (wins : Wins markers candidates i j c) :
    ∃ j' c', Wins markers candidates' i j' c' := by
  obtain ⟨j', makes⟩ := wins.makes.perm perm
  obtain ⟨found, resolved⟩ := (safe.perm perm).exists_resolve
  cases found with
  | none => exact absurd resolved makes.resolve_ne_none
  | some c' =>
      obtain ⟨i', j'', wins'⟩ := exists_wins resolved
      obtain ⟨j₀, makes'⟩ := wins'.makes.perm perm.symm
      have forth := wins.least _ _ _ makes'
      have back := wins'.least _ _ _ makes
      obtain rfl : i = i' := by omega
      exact ⟨j'', c', wins'⟩

end Safe

end Wins

/-- The candidate and the import path are those of the least pair of a marker and a
candidate that it applies to.  The winning marker does not depend on the order of
the candidates, and what is put behind the markers or the candidates never takes
the result away. -/
theorem resolve_priority (markers : List Marker) (candidates : List Text)
    (safe : Safe markers candidates) :
    (resolve candidates markers = .ok none ↔ ∀ i j c, ¬ Makes markers candidates i j c) ∧
    (∀ c, resolve candidates markers = .ok (some c) ↔
      ∃ i j, Wins markers candidates i j c) ∧
    (∀ candidates', candidates.Perm candidates' → ∀ i,
      (∃ j c, Wins markers candidates i j c ∧ resolve candidates markers = .ok (some c)) ↔
        ∃ j c, Wins markers candidates' i j c ∧ resolve candidates' markers = .ok (some c)) ∧
    (∀ c, resolve candidates markers = .ok (some c) →
      (∀ more, resolve (candidates ++ more) markers ≠ .ok none) ∧
      (∀ more, Safe markers (candidates ++ more) →
        ∃ c', resolve (candidates ++ more) markers = .ok (some c')) ∧
      ∀ more, resolve candidates (markers ++ more) = .ok (some c)) := by
  refine ⟨safe.resolve_eq_none_iff_not_makes, fun c => safe.resolve_eq_some_iff, ?_, ?_⟩
  · intro candidates' perm i
    constructor
    · rintro ⟨j, c, wins, -⟩
      obtain ⟨j', c', wins'⟩ := safe.exists_wins_perm perm wins
      exact ⟨j', c', wins', (safe.perm perm).resolve_eq_some_iff.mpr ⟨i, j', wins'⟩⟩
    · rintro ⟨j, c, wins, -⟩
      obtain ⟨j', c', wins'⟩ := (safe.perm perm).exists_wins_perm perm.symm wins
      exact ⟨j', c', wins', safe.resolve_eq_some_iff.mpr ⟨i, j', wins'⟩⟩
  · intro c resolved
    refine ⟨resolve_append_candidates resolved, fun more safe' => ?_,
      resolve_append_markers resolved⟩
    obtain ⟨found, resolved'⟩ := safe'.exists_resolve
    cases found with
    | none => exact absurd resolved' (resolve_append_candidates resolved more)
    | some c' => exact ⟨c', resolved'⟩

/-- A candidate of an earlier marker wins in either order of the two. -/
theorem resolve_priority_swapped :
    let view : Text := utf8 "/p/webapp/x/Foo.js"
    let core : Text := utf8 "/p/lib/sap/bi/webi/core/Foo.js"
    let named : Candidate := ⟨core, utf8 "sap/bi/webi/core/Foo"⟩
    Safe Marker.builtin [view, core] ∧
      (∃ j, Wins Marker.builtin [view, core] 1 j named) ∧
      (∃ j c, Wins Marker.builtin [core, view] 1 j c ∧
        resolve [core, view] Marker.builtin = .ok (some c)) ∧
      resolve [view, core] (Marker.builtin ++ [⟨[utf8 "/p/"], [], false⟩]) =
        .ok (some named) := by
  intro view core named
  have safe : Safe Marker.builtin [view, core] := by decide +kernel
  have resolved : resolve [view, core] Marker.builtin = .ok (some named) := by decide +kernel
  obtain ⟨-, least, permuted, appended⟩ := resolve_priority Marker.builtin [view, core] safe
  have second : Makes Marker.builtin [view, core] 1 1 named :=
    ⟨⟨[utf8 "/sap/bi/webi/"], [], false⟩, rfl, rfl, by decide +kernel⟩
  obtain ⟨i, j, wins⟩ := (least named).mp resolved
  obtain rfl : i = 1 := by
    rcases wins.least _ _ _ second with before | ⟨same, -⟩
    · obtain rfl : i = 0 := by omega
      obtain ⟨m, isMarker, -, applies⟩ := wins.makes
      obtain rfl : ⟨[utf8 "/sap/m/"], [], false⟩ = m := Option.some.inj isMarker
      revert applies
      decide +kernel
    · exact same
  have swap : [view, core].Perm [core, view] := List.Perm.swap _ _ _
  exact ⟨safe, ⟨j, wins⟩, (permuted _ swap 1).mp ⟨j, named, wins, resolved⟩,
    (appended named resolved).2.2 _⟩

end ModuleDeps
