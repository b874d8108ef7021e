import Mathlib.Algebra.Group.Nat.Defs
import ModuleDeps.Block.Edits
import ModuleDeps.Proofs.Block.ImportLine

/-!
# Edits of a text that has changed

A descriptor carries the version of the text it was read from, and so do the
edits made from it.  Every accepted batch that inserts anything raises the
version by one, so within a session shorter than the range of versions the
version tells whether the text is still the one that was read.

`attempt` is a step of such a session: a refused batch changes nothing.  A
`Desk` adds the clients that locate the block, keep what they found and commit
it later, in any order.
-/

set_option autoImplicit false

namespace ModuleDeps

open Text

/-! ## Sessions of batches -/

namespace Buffer

def attempt (b : Buffer) (batch : Batch) : Buffer :=
  match b.apply batch with
  | .ok after => after
  | .error _ => b

def attemptAll (b : Buffer) (batches : List Batch) : Buffer := batches.foldl attempt b

def accepted : Buffer → List Batch → List Batch
  | _, [] => []
  | b, batch :: rest =>
    match b.apply batch with
    | .ok after => batch :: after.accepted rest
    | .error _ => b.accepted rest

def changes (b : Buffer) (batches : List Batch) : Nat :=
  ((b.accepted batches).filter fun batch => !batch.inserts.isEmpty).length

theorem attemptAll_append (b : Buffer) (batches more : List Batch) :
    b.attemptAll (batches ++ more) = (b.attemptAll batches).attemptAll more := by
  simp [attemptAll]

theorem attemptAll_concat (b : Buffer) (batches : List Batch) (batch : Batch) :
    b.attemptAll (batches ++ [batch]) = (b.attemptAll batches).attempt batch := by
  simp [attemptAll]

theorem Whole.attempt {b : Buffer} (whole : b.Whole) (batch : Batch) : (b.attempt batch).Whole := by
  unfold Buffer.attempt
  split
  · rename_i after accepted
    exact whole.apply accepted
  · exact whole

theorem Whole.attemptAll {b : Buffer} (whole : b.Whole) (batches : List Batch) :
    (b.attemptAll batches).Whole := by
  induction batches generalizing b with
  | nil => exact whole
  | cons batch rest ih => exact ih (whole.attempt batch)

theorem changes_eq_zero_iff {b : Buffer} {batches : List Batch} :
    b.changes batches = 0 ↔ ∀ batch ∈ b.accepted batches, batch.inserts = [] := by
  simp [changes]

theorem changes_le (b : Buffer) (batches : List Batch) : b.changes batches ≤ batches.length := by
  have acceptedLe : (b.accepted batches).length ≤ batches.length := by
    induction batches generalizing b with
    | nil => simp [accepted]
    | cons batch rest ih =>
        rw [accepted]
        split
        · rename_i after _
          have := ih after
          simp only [List.length_cons]
          omega
        · have := ih b
          simp only [List.length_cons]
          omega
  exact Nat.le_trans (List.length_filter_le _ _) acceptedLe

/-- One batch: it is counted exactly when it raises the version, and otherwise
nothing happens. -/
theorem attempt_cases (b : Buffer) (batch : Batch) (rest : List Batch) :
    b.attempt batch = b ∧ b.changes (batch :: rest) = b.changes rest ∨
      (b.attempt batch).version = b.version + 1 ∧
        b.changes (batch :: rest) = (b.attempt batch).changes rest + 1 := by
  cases tried : b.apply batch with
  | error e =>
      left
      constructor
      · rw [attempt, tried]
      · rw [changes, accepted, tried, changes]
  | ok after =>
      have kept : b.attempt batch = after := by rw [attempt, tried]
      obtain ⟨-, ⟨empty, same⟩ | ⟨nonempty, splices, -, rfl⟩⟩ := apply_eq_ok tried
      · left
        rw [kept, same]
        refine ⟨rfl, ?_⟩
        rw [changes, accepted, tried, changes, same]
        simp [empty]
      · right
        rw [kept]
        refine ⟨rfl, ?_⟩
        rw [changes, accepted, tried, changes]
        simp [nonempty]

theorem attemptAll_version (b : Buffer) (batches : List Batch) :
    (b.attemptAll batches).version.toNat = (b.version.toNat + b.changes batches) % 2 ^ 64 := by
  induction batches generalizing b with
  | nil =>
      have bound := b.version.toNat_lt
      simp [attemptAll, changes, accepted]
  | cons batch rest ih =>
      have step : b.attemptAll (batch :: rest) = (b.attempt batch).attemptAll rest := rfl
      rw [step, ih]
      rcases attempt_cases b batch rest with ⟨same, count⟩ | ⟨raised, count⟩
      · rw [same, count]
      · rw [raised, count, UInt64.toNat_add, UInt64.toNat_one]
        omega

theorem attemptAll_of_unchanged {b : Buffer} {batches : List Batch}
    (unchanged : b.changes batches = 0) :
    b.attemptAll batches = b := by
  induction batches generalizing b with
  | nil => rfl
  | cons batch rest ih =>
      have step : b.attemptAll (batch :: rest) = (b.attempt batch).attemptAll rest := rfl
      rcases attempt_cases b batch rest with ⟨same, count⟩ | ⟨-, count⟩
      · rw [step, same]
        exact ih (count ▸ unchanged)
      · omega

end Buffer

/-! ## The edits of a descriptor -/

section Placed

variable {b : Buffer}

theorem Buffer.insertPoint_bounds {X Y : Text} (holds : b.lines = splitAt lf (X ++ Y)) :
    0 ≤ (b.insertPoint (Position.after X)).1.line ∧
      (b.insertPoint (Position.after X)).1.line ≤ b.lineCount := by
  obtain ⟨above, line, R, comma, -, -, cut, place, -⟩ := exists_insert holds
  have holdsInsert : b.lines = splitAt lf (stacked above ++ line ++ (R ++ Y)) := by
    rw [holds, cut, List.append_assoc]
  have bounds := after_line_bounds holdsInsert
  rw [place]
  exact ⟨bounds.1, Int.le_of_lt bounds.2⟩

/-- The edits made from a descriptor are edits of the text it was read from:
they carry its version and lie on its lines. -/
theorem edits_fit (whole : b.Whole) {stamp : UInt64} {d : Descriptor}
    (located : locate b stamp = .ok d) (lineCount : Nat) (name path : Text) :
    (d.edits lineCount name path).version = stamp ∧
      (d.edits lineCount name path).inserts ≠ [] ∧
      ∀ i ∈ (d.edits lineCount name path).inserts, 0 ≤ i.place.line ∧
      i.place.line ≤ b.lineCount := by
  rcases locate_cases whole located with
    ⟨f, deps, params, quote, holds, read⟩ | ⟨n, last, found, rfl⟩
  · obtain rfl := read.described
    have holdsDeps := f.text_eq_depsTail ▸ holds
    have holdsParams := f.text_eq_paramsTail ▸ holds
    refine ⟨rfl, by simp [Descriptor.edits, describe], ?_⟩
    intro i member
    simp only [Descriptor.edits, describe, List.mem_cons, List.not_mem_nil, or_false] at member
    rcases member with rfl | rfl
    · have bounds := Buffer.insertPoint_bounds holdsDeps
      rwa [read.depsScanned.insertPoint] at bounds
    · have bounds := Buffer.insertPoint_bounds holdsParams
      rwa [read.paramsScanned.insertPoint] at bounds
  · have bound := importsFrom_bound (List.mem_of_getLast? found)
    refine ⟨rfl, by simp [Descriptor.edits, describeImports], ?_⟩
    intro i member
    simp only [Descriptor.edits, describeImports, List.mem_singleton] at member
    subst member
    simp only [Buffer.lineCount]
    omega

theorem apply_edits_of_unchanged (whole : b.Whole) {d : Descriptor}
    (located : locate b b.version = .ok d) {batches : List Batch}
    (unchanged : b.changes batches = 0) (lineCount : Nat) (name path : Text) :
    ∃ after, (b.attemptAll batches).apply (d.edits lineCount name path) = .ok after := by
  obtain ⟨stamped, nonempty, inRange⟩ := edits_fit whole located lineCount name path
  obtain ⟨splices, placed⟩ := Buffer.mapM_splice_eq_ok inRange
  rw [Buffer.attemptAll_of_unchanged unchanged]
  exact ⟨_, Buffer.apply_of_fit (Or.inr stamped) nonempty placed⟩

/-- Edits made from a text that has changed since are stale, as long as the
version has not gone round. -/
theorem apply_edits_of_changed (whole : b.Whole) {d : Descriptor}
    (located : locate b b.version = .ok d) {batches : List Batch} (nonzero : b.version ≠ 0)
    (short : batches.length < 2 ^ 64) (changed : b.changes batches ≠ 0) (lineCount : Nat)
    (name path : Text) :
    (b.attemptAll batches).apply (d.edits lineCount name path) =
      .error (.stale (d.edits lineCount name path).version (b.attemptAll batches).version) := by
  obtain ⟨stamped, -, -⟩ := edits_fit whole located lineCount name path
  have raised : b.version ≠ (b.attemptAll batches).version := by
    intro same
    have counted := Buffer.attemptAll_version b batches
    rw [← same] at counted
    have few := Buffer.changes_le b batches
    have bound := b.version.toNat_lt
    omega
  have stale : (d.edits lineCount name path).version ≠ 0 ∧
      (d.edits lineCount name path).version ≠ (b.attemptAll batches).version := by
    rw [stamped]
    exact ⟨nonzero, raised⟩
  rw [Buffer.apply, if_pos stale]

end Placed

/-! ## Clients -/

/-- What can happen at a desk: a client locates the block, a client commits an
addition to the block it located last, or somebody else edits the text. -/
inductive Event
  | locate (client : Nat)
  | commit (client lineCount : Nat) (name path : Text)
  | edit (batch : Batch)
deriving DecidableEq, Repr

/-- A buffer, and for each client the descriptor it holds with the lines that
were read for it. -/
structure Desk where
  buffer : Buffer
  held : Nat → Option (Descriptor × List Text)

namespace Desk

def opened (t : Text) : Desk := ⟨Buffer.ofText t, fun _ => none⟩

def step (s : Desk) : Event → Desk
  | .locate client =>
    match ModuleDeps.locate s.buffer s.buffer.version with
    | .ok d => { s with held := Function.update s.held client (some (d, s.buffer.lines)) }
    | .error _ => s
  | .commit client lineCount name path =>
    match s.held client with
    | some (d, _) => { s with buffer := s.buffer.attempt (d.edits lineCount name path) }
    | none => s
  | .edit batch => { s with buffer := s.buffer.attempt batch }

def run (s : Desk) (events : List Event) : Desk := events.foldl step s

end Desk

def Event.applies : Event → Bool
  | .locate _ => false
  | .commit _ _ _ _ => true
  | .edit _ => true

def reached (t : Text) (batches : List Batch) : Buffer := (Buffer.ofText t).attemptAll batches

/-- A desk that has come about by the batches `batches`: every descriptor held
was read between two of them. -/
structure Desk.Follows (t : Text) (batches : List Batch) (s : Desk) : Prop where
  buffer : s.buffer = reached t batches
  held : ∀ client d lines, s.held client = some (d, lines) →
    ∃ before between, batches = before ++ between ∧
      locate (reached t before) (reached t before).version = .ok d ∧
      lines = (reached t before).lines

namespace Desk

theorem Follows.attempt {t : Text} {batches : List Batch} {s : Desk}
    (follows : s.Follows t batches) (batch : Batch) :
    Follows t (batches ++ [batch]) { s with buffer := s.buffer.attempt batch } where
  buffer := by rw [reached, Buffer.attemptAll_concat, ← reached, ← follows.buffer]
  held client d lines holds := by
    obtain ⟨before, between, rfl, located, read⟩ := follows.held client d lines holds
    exact ⟨before, between ++ [batch], by simp, located, read⟩

theorem Follows.step {t : Text} {batches : List Batch} {s : Desk} (follows : s.Follows t batches)
    (event : Event) :
    ∃ more, more.length ≤ (if event.applies then 1 else 0) ∧
      (s.step event).Follows t (batches ++ more) := by
  cases event with
  | locate client =>
      refine ⟨[], by simp, ?_⟩
      rw [List.append_nil, Desk.step]
      split
      · rename_i d located
        refine ⟨follows.buffer, ?_⟩
        intro other d' lines holds
        by_cases same : other = client
        · subst same
          simp only [Function.update_self, Option.some.injEq, Prod.mk.injEq] at holds
          obtain ⟨rfl, rfl⟩ := holds
          rw [follows.buffer] at located ⊢
          exact ⟨batches, [], by simp, located, rfl⟩
        · simp only [Function.update_of_ne same] at holds
          exact follows.held other d' lines holds
      · exact follows
  | commit client lineCount name path =>
      rw [Desk.step]
      cases s.held client with
      | none => exact ⟨[], by simp, by rwa [List.append_nil]⟩
      | some row =>
          exact ⟨[row.1.edits lineCount name path], by simp [Event.applies], follows.attempt _⟩
  | edit batch => exact ⟨[batch], by simp [Event.applies], follows.attempt batch⟩

theorem follows_run (t : Text) (events : List Event) :
    ∃ batches, batches.length ≤ events.countP Event.applies ∧
      ((opened t).run events).Follows t batches := by
  induction events using List.reverseRecOn with
  | nil => exact ⟨[], by simp, rfl, fun _ _ _ holds => nomatch holds⟩
  | append_singleton events event ih =>
      obtain ⟨batches, few, follows⟩ := ih
      obtain ⟨more, moreFew, next⟩ := follows.step event
      refine ⟨batches ++ more, ?_, ?_⟩
      · rw [List.length_append, List.countP_append, List.countP_singleton]
        omega
      · rw [run, List.foldl_append]
        exact next

end Desk

/-! ## Safety -/

section Session

variable (t : Text)

theorem version_ne_zero {batches : List Batch} (short : batches.length + 1 < 2 ^ 64) :
    (reached t batches).version ≠ 0 := by
  intro zero
  have counted := Buffer.attemptAll_version (Buffer.ofText t) batches
  have few := Buffer.changes_le (Buffer.ofText t) batches
  have start : (Buffer.ofText t).version.toNat = 1 := rfl
  rw [← reached, zero, start] at counted
  have : (0 : UInt64).toNat = 0 := rfl
  omega

/-- Edits made from a descriptor are accepted exactly when the text was not
changed since it was read; otherwise they are refused as stale and nothing
changes.  Hence whatever a client commits was made for the text it is applied
to, in any order of events. -/
theorem edits_accepted_iff_unchanged :
    (∀ (before between : List Batch) (d : Descriptor) (lineCount : Nat) (name path : Text),
      before.length + between.length + 1 < 2 ^ 64 →
      locate (reached t before) (reached t before).version = .ok d →
      ((∃ after, (reached t (before ++ between)).apply (d.edits lineCount name path) =
        .ok after) ↔
        ∀ batch ∈ (reached t before).accepted between, batch.inserts = []) ∧
      (∀ after, (reached t (before ++ between)).apply (d.edits lineCount name path) =
        .ok after →
        (reached t (before ++ between)).lines = (reached t before).lines) ∧
      (∀ e, (reached t (before ++ between)).apply (d.edits lineCount name path) = .error e →
        e = .stale (reached t before).version (reached t (before ++ between)).version ∧
          (reached t (before ++ between)).attempt (d.edits lineCount name path) =
            reached t (before ++ between))) ∧
    (∀ (past : List Event) (client lineCount : Nat) (name path : Text) (d : Descriptor)
        (lines : List Text),
      past.countP Event.applies + 1 < 2 ^ 64 →
      ((Desk.opened t).run past).held client = some (d, lines) →
      ∀ after, ((Desk.opened t).run past).buffer.apply (d.edits lineCount name path) =
        .ok after →
        ((Desk.opened t).run past).buffer.lines = lines) := by
  have wholeAt (batches : List Batch) : (reached t batches).Whole :=
    (Buffer.whole_ofText t).attemptAll batches
  have continued (before between : List Batch) :
      reached t (before ++ between) = (reached t before).attemptAll between :=
    Buffer.attemptAll_append _ before between
  have unchangedOfOk {before between : List Batch} {d : Descriptor} {lineCount : Nat}
      {name path : Text}
      (short : before.length + between.length + 1 < 2 ^ 64)
      (located : locate (reached t before) (reached t before).version = .ok d) {after : Buffer}
      (done : ((reached t before).attemptAll between).apply (d.edits lineCount name path) =
        .ok after) :
      (reached t before).changes between = 0 := by
    by_contra changed
    rw [apply_edits_of_changed (wholeAt before) located (version_ne_zero t (by omega)) (by omega)
      changed] at done
    cases done
  constructor
  · intro before between d lineCount name path short located
    rw [continued, ← Buffer.changes_eq_zero_iff]
    refine ⟨⟨?_, ?_⟩, ?_, ?_⟩
    · rintro ⟨after, done⟩
      exact unchangedOfOk short located done
    · intro unchanged
      exact apply_edits_of_unchanged (wholeAt before) located unchanged lineCount name path
    · intro after done
      rw [Buffer.attemptAll_of_unchanged (unchangedOfOk short located done)]
    · intro e refused
      by_cases unchanged : (reached t before).changes between = 0
      · obtain ⟨after, done⟩ :=
          apply_edits_of_unchanged (wholeAt before) located unchanged lineCount name path
        rw [done] at refused
        cases refused
      · have stale :=
          apply_edits_of_changed (wholeAt before) located (version_ne_zero t (by omega))
          (by omega) unchanged lineCount name path
        obtain ⟨stamped, -, -⟩ := edits_fit (wholeAt before) located lineCount name path
        rw [stale, stamped] at refused
        refine ⟨(Except.error.inj refused).symm, ?_⟩
        rw [Buffer.attempt, stale]
  · intro past client lineCount name path d lines short holds after done
    -- A run of clients comes down to the batches of all of them, in their order.
    obtain ⟨batches, few, follows⟩ := Desk.follows_run t past
    obtain ⟨before, between, rfl, located, rfl⟩ := follows.held client d lines holds
    rw [List.length_append] at few
    rw [follows.buffer, continued] at done ⊢
    rw [Buffer.attemptAll_of_unchanged (unchangedOfOk (by omega) located done)]

end Session

/-- A block that is read, an empty batch after it, and a foreign line put in
front of it. -/
theorem edits_accepted_iff_unchanged_foreign :
    ∃ t d, locate (reached t []) (reached t []).version = .ok d ∧
      (∃ after, (reached t ([] ++ [⟨1, []⟩])).apply (d.edits 1 (utf8 "B") (utf8 "b/B")) =
        .ok after) ∧
      ¬ ∃ after, (reached t ([] ++ [⟨1, [⟨⟨0, 0⟩, utf8 "// first\n"⟩]⟩])).apply
        (d.edits 1 (utf8 "B") (utf8 "b/B")) = .ok after := by
  have located : locate (reached (utf8 "sap.ui.define([], function () {});") [])
      (reached (utf8 "sap.ui.define([], function () {});") []).version =
        .ok (describe 1 ⟨[], ⟨0, 15⟩, ⟨0, 15⟩, false⟩
          ⟨[], ⟨0, 28⟩, ⟨0, 28⟩, false⟩ (utf8 "'")) := by
    decide +kernel
  refine ⟨_, _, located, ?_, ?_⟩
  · apply ((edits_accepted_iff_unchanged _).1 [] _ _ 1 _ _ (by decide) located).1.mpr
    decide +kernel
  · intro accepted
    have unchanged :=
      ((edits_accepted_iff_unchanged _).1 [] _ _ 1 _ _ (by decide) located).1.mp accepted
    revert unchanged
    decide +kernel

end ModuleDeps
