import ModuleDeps.Importer
import ModuleDeps.Proofs.Catalog

/-!
# What adding a dependency can do

With a finder that leaves the buffer alone, a call either applies the edits for
the name and the path that were found, or leaves the buffer as it was
(`addDependency_cases`).  It ends with `alreadyImported` exactly when the block
has the symbol among its parameters (`addDependency_alreadyImported_iff`).
-/

set_option autoImplicit false

namespace ModuleDeps

open Text

namespace Importer

/-- The finder leaves the buffer as it is. -/
def Quiet (im : Importer) : Prop :=
  ∀ finder, im.finder = some finder → ∀ q b, (finder q b).2 = b

/-- The finder goes by the query alone and leaves the buffer as it is. -/
def Steady (im : Importer) : Prop :=
  ∀ finder, im.finder = some finder → ∀ q b b', finder q b = ((finder q b').1, b)

theorem Steady.quiet {im : Importer} (steady : im.Steady) : im.Quiet := by
  intro finder given q b
  rw [steady finder given q b b]

theorem stamp_fits (im : Importer) (b : Buffer) : im.stamp b = 0 ∨ im.stamp b = b.version := by
  unfold stamp
  split
  · exact Or.inr rfl
  · exact Or.inl rfl

/-! ## Targets -/

section Target

variable {im : Importer} (symbol : Text) (s : Session)

theorem resolve_buffer (quiet : im.Quiet) : (im.resolve symbol s).2.buffer = s.buffer := by
  rw [resolve]
  cases given : im.finder with
  | none => rfl
  | some finder =>
      have kept := quiet finder given (im.query symbol) s.buffer
      simp only [Session.progress]
      cases (finder (im.query symbol) s.buffer).1 with
      | error e => exact kept
      | ok paths => exact kept

/-- The answer depends on the buffer alone. -/
theorem resolve_progress (words : Text) :
    (im.resolve symbol (s.progress words)).1 = (im.resolve symbol s).1 := by
  rw [resolve, resolve]
  cases im.finder with
  | none => rfl
  | some finder =>
      simp only [Session.progress]
      cases (finder (im.query symbol) s.buffer).1 with
      | error e => rfl
      | ok paths => rfl

theorem target_buffer (quiet : im.Quiet) : (im.target symbol s).2.buffer = s.buffer := by
  have kept := resolve_buffer symbol s quiet
  rw [target]
  split
  · rfl
  · split
    · rename_i answer
      rw [answer] at kept
      exact kept
    · rename_i answer
      rw [answer] at kept
      exact kept
    · rename_i answer
      rw [answer] at kept
      exact kept
    · rename_i answer
      rw [answer] at kept
      exact kept

theorem target_congr {s s' : Session} (same : (im.resolve symbol s).1 = (im.resolve symbol s').1) :
    (im.target symbol s).1 = (im.target symbol s').1 := by
  rw [target, target]
  cases im.settings.modules.lookup symbol with
  | some known => rfl
  | none =>
      generalize im.resolve symbol s = first at same ⊢
      generalize im.resolve symbol s' = second at same ⊢
      obtain ⟨answer, after⟩ := first
      obtain ⟨answer', after'⟩ := second
      obtain rfl : answer = answer' := same
      rcases answer with stop | (e | ⟨candidate, paths⟩)
      · rfl
      · rfl
      · cases candidate <;> rfl

theorem target_progress (words : Text) :
    (im.target symbol (s.progress words)).1 = (im.target symbol s).1 :=
  target_congr symbol (resolve_progress symbol s words)

theorem target_steady (steady : im.Steady) (s s' : Session) :
    (im.target symbol s).1 = (im.target symbol s').1 := by
  apply target_congr
  rw [resolve, resolve]
  cases given : im.finder with
  | none => rfl
  | some finder =>
      have same : (finder (im.query symbol) s.buffer).1 =
          (finder (im.query symbol) s'.buffer).1 := by
        rw [steady finder given (im.query symbol) s.buffer s'.buffer]
      simp only [Session.progress, same]
      cases (finder (im.query symbol) s'.buffer).1 with
      | error e => rfl
      | ok paths => rfl

/-- The name to add is the symbol itself, or a name of the catalog that is equal
to it up to letter case. -/
theorem target_spec {name path : Text} (found : (im.target symbol s).1 = .ok (.ok (name, path))) :
    (∃ known ∈ im.settings.modules, known.name = name ∧
      (known.name = symbol ∨ known.name.equalFold symbol = true)) ∨ name = symbol := by
  rw [target] at found
  cases listed : im.settings.modules.lookup symbol with
  | some known =>
      simp only [listed, Except.ok.injEq, Prod.mk.injEq] at found
      obtain ⟨member, named⟩ := Catalog.lookup_spec listed
      exact Or.inl ⟨known, member, found.1, named⟩
  | none =>
      simp only [listed] at found
      right
      split at found
      · cases found
      · cases found
      · cases found
      · cases found
        rfl

theorem target_ended {ended : Addition} (found : (im.target symbol s).1 = .ok (.error ended)) :
    ended.outcome = .failed ∨ ended.outcome = .candidateNotFound := by
  rw [target] at found
  split at found
  · cases found
  · split at found
    · cases found
    · cases found
      exact Or.inl rfl
    · cases found
      exact Or.inr rfl
    · cases found

end Target

/-! ## Calls -/

/-- What a call does that adds `name` bound to `path` to the block `d`. -/
structure Adds (im : Importer) (symbol : Text) (s : Session) (d : Descriptor) (name path : Text)
    (after : Buffer) : Prop where
  located : locate s.buffer (im.stamp s.buffer) = .ok d
  missing : d.hasParameter symbol = false
  target : (im.target symbol s).1 = .ok (.ok (name, path))
  applied : s.buffer.apply (d.edits s.buffer.lineCount name path) = .ok after

section Call

variable {im : Importer} (symbol : Text) (s : Session)

theorem addDependency_of_missing {d : Descriptor}
    (located : locate s.buffer (im.stamp s.buffer) = .ok d)
    (missing : d.hasParameter symbol = false) :
    im.addDependency symbol s =
      match im.target symbol (s.progress (locatedNote d)) with
      | (.error stop, left) => (.error stop, left)
      | (.ok (.error ended), left) => (.ok ended, left)
      | (.ok (.ok (name, path)), left) =>
        ((.ok (insert d name path left).1), (insert d name path left).2) := by
  rw [addDependency, located]
  exact if_neg (by simp [missing])

theorem addDependency_cases (quiet : im.Quiet) :
    (∃ d name path after, im.Adds symbol s d name path after ∧
        (im.addDependency symbol s).1 = .ok { outcome := .added } ∧
        (im.addDependency symbol s).2.buffer = after) ∨
      (im.addDependency symbol s).1 ≠ .ok { outcome := .added } ∧
        (im.addDependency symbol s).2.buffer = s.buffer := by
  rw [addDependency]
  cases located : locate s.buffer (im.stamp s.buffer) with
  | error e => cases e <;> exact Or.inr ⟨by simp, rfl⟩
  | ok d =>
      simp only
      cases missing : d.hasParameter symbol with
      | true => exact Or.inr ⟨by simp, rfl⟩
      | false =>
          have kept := target_buffer symbol (s.progress (locatedNote d)) quiet
          have same := @target_progress im symbol s (locatedNote d)
          generalize im.target symbol (s.progress (locatedNote d)) = answer at kept same
          obtain ⟨answer, later⟩ := answer
          simp only [Bool.false_eq_true, if_false] at kept same ⊢
          have keptBuffer : later.buffer = s.buffer := kept
          rcases answer with stop | (ended | ⟨name, path⟩)
          · exact Or.inr ⟨by simp, keptBuffer⟩
          · have ends := target_ended symbol s same.symm
            refine Or.inr ⟨?_, keptBuffer⟩
            rintro isAdded
            obtain rfl : ended = { outcome := .added } := Except.ok.inj isAdded
            simp at ends
          · simp only [insert, keptBuffer]
            cases applied : s.buffer.apply (d.edits s.buffer.lineCount name path) with
            | error e => exact Or.inr ⟨by simp, keptBuffer⟩
            | ok after =>
                exact Or.inl ⟨d, name, path, after, ⟨located, missing, same.symm, applied⟩,
                  rfl, rfl⟩

theorem addDependency_alreadyImported_iff :
    (im.addDependency symbol s).1 = .ok { outcome := .alreadyImported } ↔
      ∃ d, locate s.buffer (im.stamp s.buffer) = .ok d ∧ d.hasParameter symbol = true := by
  rw [addDependency]
  cases located : locate s.buffer (im.stamp s.buffer) with
  | error e => cases e <;> simp
  | ok d =>
      simp only [Except.ok.injEq, exists_eq_left']
      cases has : d.hasParameter symbol with
      | true => simp
      | false =>
          have same := @target_progress im symbol s (locatedNote d)
          generalize im.target symbol (s.progress (locatedNote d)) = answer at same
          obtain ⟨answer, later⟩ := answer
          simp only [Bool.false_eq_true, if_false, iff_false] at same ⊢
          rcases answer with stop | (ended | ⟨name, path⟩)
          · simp
          · have ends := target_ended symbol s same.symm
            rintro isImported
            obtain rfl : ended = { outcome := .alreadyImported } := Except.ok.inj isImported
            simp at ends
          · simp only [insert]
            split <;> simp

end Call

end Importer

end ModuleDeps
