import ModuleDeps.Proofs.Block.Reading
import ModuleDeps.Proofs.Importer

/-!
# The exits of a call

A call that adds a dependency ends in one of seven ways, or where the layout
cannot be applied to a path that was found.  `ends_addDependency` lists them
for any finder, one that changes the buffer under the call included; that a call
is atomic and gives one note is read off that list, and so is what can make it
fail.
-/

set_option autoImplicit false

namespace ModuleDeps

open Text

theorem Descriptor.hasParameter_eq_false_iff {d : Descriptor} {name : Text} :
    d.hasParameter name = false ↔ ∀ parameter ∈ d.parameters,
      ¬ name.lower <:+ parameter.lower := by
  simp [hasParameter, endsWith]

namespace Importer

/-! ## The search -/

/-- A call has asked its finder: the query is on record, and the buffer is as
the finder left it. -/
structure Asked (im : Importer) (symbol : Text) (s : Session) (finder : Finder) (left : Session) :
    Prop where
  given : im.finder = some finder
  unlisted : im.settings.modules.lookup symbol = none
  calls : left.calls = s.calls ++ [im.query symbol]
  buffer : left.buffer = (finder (im.query symbol) s.buffer).2
  notes : left.notes = s.notes

theorem Asked.of_progress {im : Importer} {symbol words : Text} {s left : Session} {finder : Finder}
    (asked : im.Asked symbol (s.progress words) finder left) : im.Asked symbol s finder left :=
  ⟨asked.given, asked.unlisted, asked.calls, asked.buffer, asked.notes⟩

inductive Seeks (im : Importer) (symbol : Text) (s : Session) :
    Except OutOfRange (Except Addition (Text × Text)) × Session → Prop
  | listed {known : KnownModule} (found : im.settings.modules.lookup symbol = some known) :
      Seeks im symbol s (.ok (.ok (known.name, known.path)), s)
  | alone (unlisted : im.settings.modules.lookup symbol = none) (unaided : im.finder = none)
      (words : Text) :
        Seeks im symbol s (.ok (.error { outcome := .candidateNotFound }), s.note words)
  | broken {finder : Finder} {left : Session} (asked : im.Asked symbol s finder left) {e : Failure}
      (reply : (finder (im.query symbol) s.buffer).1 = .error e) (words : Text) :
      Seeks im symbol s
        (.ok (.error { outcome := .failed, failure := some (.during .search e) }), left.note words)
  | stopped {finder : Finder} {left : Session} (asked : im.Asked symbol s finder left)
      {paths : List Text}
      (reply : (finder (im.query symbol) s.buffer).1 = .ok paths) {stop : OutOfRange}
      (mapped : ModuleDeps.resolve paths im.settings.markers = .error stop) :
      Seeks im symbol s (.error stop, left)
  | unmapped {finder : Finder} {left : Session} (asked : im.Asked symbol s finder left)
      {paths : List Text}
      (reply : (finder (im.query symbol) s.buffer).1 = .ok paths)
      (mapped : ModuleDeps.resolve paths im.settings.markers = .ok none) (words : Text) :
      Seeks im symbol s (.ok (.error { outcome := .candidateNotFound }), left.note words)
  | mapped {finder : Finder} {left : Session} (asked : im.Asked symbol s finder left)
      {paths : List Text}
      (reply : (finder (im.query symbol) s.buffer).1 = .ok paths) {candidate : Candidate}
      (mapped : ModuleDeps.resolve paths im.settings.markers = .ok (some candidate)) :
      Seeks im symbol s (.ok (.ok (symbol, candidate.importPath)), left)

theorem seeks_target (im : Importer) (symbol : Text) (s : Session) :
    im.Seeks symbol s (im.target symbol s) := by
  rw [target]
  cases unlisted : im.settings.modules.lookup symbol with
  | some known => exact .listed unlisted
  | none =>
      rw [resolve]
      cases given : im.finder with
      | none => exact .alone unlisted given _
      | some finder =>
          simp only
          have reported (log : List Text) : im.Asked symbol s finder
              ⟨(finder (im.query symbol) s.buffer).2, s.notes, log,
                s.calls ++ [im.query symbol]⟩ :=
            ⟨given, unlisted, rfl, rfl, rfl⟩
          cases reply : (finder (im.query symbol) s.buffer).1 with
          | error e =>
              simp only [Session.progress, reply]
              exact .broken (reported _) reply _
          | ok paths =>
              simp only [Session.progress, reply]
              rcases mapped :
                ModuleDeps.resolve paths im.settings.markers with stop | (_ | candidate)
              · exact .stopped (reported _) reply mapped
              · exact .unmapped (reported _) reply mapped _
              · exact .mapped (reported _) reply mapped

/-! ## The call -/

/-- The ways for a call to end. -/
inductive Ends (im : Importer) (symbol : Text) (s : Session) :
    Except OutOfRange Addition × Session → Prop
  | astray (refused : locate s.buffer (im.stamp s.buffer) = .error .outOfRange) :
      Ends im symbol s (.error .mk, s)
  | unread {e : LocateError} (refused : locate s.buffer (im.stamp s.buffer) = .error e)
      {outcome : Outcome} (told : outcome = .blockNotFound ∨ outcome = .malformedBlock)
        (words : Text) :
      Ends im symbol s (.ok { outcome }, s.note words)
  | present {d : Descriptor} (located : locate s.buffer (im.stamp s.buffer) = .ok d)
      (has : d.hasParameter symbol = true) (log words : Text) :
      Ends im symbol s (.ok { outcome := .alreadyImported }, (s.progress log).note words)
  | stopped {d : Descriptor} (located : locate s.buffer (im.stamp s.buffer) = .ok d)
      (missing : d.hasParameter symbol = false) {log : Text} {stop : OutOfRange} {left : Session}
      (seeks : im.Seeks symbol (s.progress log) (.error stop, left)) :
      Ends im symbol s (.error stop, left)
  | missed {d : Descriptor} (located : locate s.buffer (im.stamp s.buffer) = .ok d)
      (missing : d.hasParameter symbol = false) {log : Text} {r : Addition} {left : Session}
      (seeks : im.Seeks symbol (s.progress log) (.ok (.error r), left)) :
      Ends im symbol s (.ok r, left)
  | refused {d : Descriptor} (located : locate s.buffer (im.stamp s.buffer) = .ok d)
      (missing : d.hasParameter symbol = false) {log name path : Text} {left : Session}
      (seeks : im.Seeks symbol (s.progress log) (.ok (.ok (name, path)), left)) {e : ApplyError}
      (refused : left.buffer.apply (d.edits left.buffer.lineCount name path) = .error e)
        (words : Text) :
      Ends im symbol s
        (.ok { outcome := .failed, failure := some (.during .applyEdits (.apply e)) },
          left.note words)
  | added {d : Descriptor} (located : locate s.buffer (im.stamp s.buffer) = .ok d)
      (missing : d.hasParameter symbol = false) {log name path : Text} {left : Session}
      (seeks : im.Seeks symbol (s.progress log) (.ok (.ok (name, path)), left)) {after : Buffer}
      (applied : left.buffer.apply (d.edits left.buffer.lineCount name path) = .ok after)
        (words : Text) :
      Ends im symbol s (.ok { outcome := .added }, { left with buffer := after }.note words)

theorem ends_addDependency (im : Importer) (symbol : Text) (s : Session) :
    im.Ends symbol s (im.addDependency symbol s) := by
  rw [addDependency]
  cases located : locate s.buffer (im.stamp s.buffer) with
  | error e =>
      cases e with
      | notFound => exact .unread located (Or.inl rfl) _
      | malformed => exact .unread located (Or.inr rfl) _
      | misaligned => exact .unread located (Or.inr rfl) _
      | outOfRange => exact .astray located
  | ok d =>
      simp only
      cases missing : d.hasParameter symbol with
      | true => exact .present located missing _ _
      | false =>
          have seeks := im.seeks_target symbol (s.progress (locatedNote d))
          generalize im.target symbol (s.progress (locatedNote d)) = answer at seeks ⊢
          obtain ⟨stop | (r | ⟨name, path⟩), left⟩ := answer
          · exact .stopped located missing seeks
          · exact .missed located missing seeks
          · simp only [Bool.false_eq_true, if_false, insert]
            cases applied : left.buffer.apply (d.edits left.buffer.lineCount name path) with
            | error e => exact .refused located missing seeks applied _
            | ok after => exact .added located missing seeks applied _

/-! ## One note, one search, one batch -/

/-- A call has to search: the block was read and has no parameter that ends with
the symbol, and the catalog has no name equal to it up to letter case. -/
structure Searches (im : Importer) (symbol : Text) (s : Session) (finder : Finder) : Prop where
  given : im.finder = some finder
  missing : ∃ d, locate s.buffer (im.stamp s.buffer) = .ok d ∧
    ∀ parameter ∈ d.parameters, ¬ symbol.lower <:+ parameter.lower
  unlisted : ∀ known ∈ im.settings.modules, known.name.equalFold symbol = false

section Exits

variable {im : Importer} {symbol : Text} {s : Session}

theorem Asked.searches {finder : Finder} {left : Session} (asked : im.Asked symbol s finder left)
    {d : Descriptor} (located : locate s.buffer (im.stamp s.buffer) = .ok d)
    (missing : d.hasParameter symbol = false) : im.Searches symbol s finder :=
  ⟨asked.given, ⟨d, located, Descriptor.hasParameter_eq_false_iff.mp missing⟩,
    Catalog.lookup_eq_none_iff.mp asked.unlisted⟩

/-- What is known of a session behind the search of a call, whether there was
one or not. -/
structure Left (im : Importer) (symbol : Text) (s left : Session) : Prop where
  notes : left.notes = s.notes
  search : left.calls = s.calls ∧ left.buffer = s.buffer ∨
    ∃ finder, im.Searches symbol s finder ∧ left.calls = s.calls ++ [im.query symbol] ∧
      left.buffer = (finder (im.query symbol) s.buffer).2

theorem Asked.left {finder : Finder} {left : Session} (asked : im.Asked symbol s finder left)
    {d : Descriptor} (located : locate s.buffer (im.stamp s.buffer) = .ok d)
    (missing : d.hasParameter symbol = false) : im.Left symbol s left :=
  ⟨asked.notes, Or.inr ⟨finder, asked.searches located missing, asked.calls, asked.buffer⟩⟩

variable {d : Descriptor} (located : locate s.buffer (im.stamp s.buffer) = .ok d)
  (missing : d.hasParameter symbol = false) {log : Text} {left : Session}
include located missing

theorem Seeks.left_of_found {name path : Text}
    (seeks : im.Seeks symbol (s.progress log) (.ok (.ok (name, path)), left)) :
    im.Left symbol s left := by
  cases seeks with
  | listed found => exact ⟨rfl, Or.inl ⟨rfl, rfl⟩⟩
  | mapped asked reply mapped => exact asked.of_progress.left located missing

/-- A search without a result is told, and it failed when its failure is handed
on. -/
theorem Seeks.left_of_ended {r : Addition}
    (seeks : im.Seeks symbol (s.progress log) (.ok (.error r), left)) :
    ∃ before words, im.Left symbol s before ∧ left = before.note words ∧
      r.outcome ≠ .added ∧
      (r.failure ≠ none ↔ r.outcome = .failed) := by
  cases seeks with
  | alone unlisted unaided words =>
      exact ⟨s.progress log, words, ⟨rfl, Or.inl ⟨rfl, rfl⟩⟩, rfl, by simp, by simp⟩
  | broken asked reply words =>
      exact ⟨_, words, asked.of_progress.left located missing, rfl, by simp, by simp⟩
  | unmapped asked reply mapped words =>
      exact ⟨_, words, asked.of_progress.left located missing, rfl, by simp, by simp⟩

end Exits

/-- A call is atomic and gives one note.  It asks the finder once, or not at all
unless it has to search.  It fails with a failure only, leaves the buffer to
the finder unless it adds, and adds by one batch.  Edits made while the finder
was at work make the call fail as stale. -/
theorem addDependency_atomic (t : Text) (past : List Batch) (im : Importer) (symbol : Text)
    (s : Session) (opened : s.buffer = reached t past) :
    ((∃ finder paths, im.Searches symbol s finder ∧
      (finder (im.query symbol) s.buffer).1 = .ok paths ∧
          ModuleDeps.resolve paths im.settings.markers = .error .mk) ∨
      ∃ (r : Addition) (words : Text) (left : Buffer),
        (im.addDependency symbol s).1 = .ok r ∧
        (im.addDependency symbol s).2.notes = s.notes ++ [words] ∧
        (r.failure ≠ none ↔ r.outcome = .failed) ∧
        ((im.addDependency symbol s).2.calls = s.calls ∧ left = s.buffer ∨
          ∃ finder, im.Searches symbol s finder ∧
            (im.addDependency symbol s).2.calls = s.calls ++ [im.query symbol] ∧
            left = (finder (im.query symbol) s.buffer).2) ∧
        (r.outcome ≠ .added → (im.addDependency symbol s).2.buffer = left) ∧
        (r.outcome = .added → ∃ batch : Batch, batch.inserts ≠ [] ∧
          left.apply batch = .ok (im.addDependency symbol s).2.buffer ∧
          (im.addDependency symbol s).2.buffer.version = left.version + 1)) ∧
    ∀ (finder : Finder) (paths : List Text) (edits : List Batch) (candidate : Candidate),
      past.length + edits.length + 1 < 2 ^ 64 → im.versioned = true →
      im.Searches symbol s finder →
      finder (im.query symbol) s.buffer = (.ok paths, s.buffer.attemptAll edits) →
      (∃ batch ∈ s.buffer.accepted edits, batch.inserts ≠ []) →
      ModuleDeps.resolve paths im.settings.markers = .ok (some candidate) →
      (im.addDependency symbol s).1 = .ok
        { outcome := .failed
          failure := some (.during .applyEdits
            (.apply (.stale s.buffer.version (s.buffer.attemptAll edits).version))) } := by
  have whole : s.buffer.Whole := opened ▸ (Buffer.whole_ofText t).attemptAll past
  -- `Ends` lists the ways out of a call.  The rest reads off each of them.
  have ends := im.ends_addDependency symbol s
  constructor
  · generalize im.addDependency symbol s = done at ends
    cases ends with
    | astray refused => rcases locate_error_cases whole refused with h | h | h <;> cases h
    | unread refused told words =>
        right
        refine ⟨_, words, s.buffer, rfl, rfl, ?_, Or.inl ⟨rfl, rfl⟩, fun _ => rfl, ?_⟩
        · rcases told with rfl | rfl <;> simp
        · rcases told with rfl | rfl <;> simp
    | present located has log words =>
        exact Or.inr ⟨_, words, s.buffer, rfl, rfl, by simp, Or.inl ⟨rfl, rfl⟩,
          fun _ => rfl, by simp⟩
    | stopped located missing seeks =>
        cases seeks with
        | stopped asked reply mapped =>
            exact Or.inl ⟨_, _, asked.of_progress.searches located missing, reply, mapped⟩
    | missed located missing seeks =>
        obtain ⟨before, words, left, rfl, notAdded, failure⟩ :=
          seeks.left_of_ended located missing
        right
        refine ⟨_, words, before.buffer, rfl, ?_, failure, left.search, fun _ => rfl,
          fun isAdded => absurd isAdded notAdded⟩
        exact congrArg (· ++ [words]) left.notes
    | refused located missing seeks refused words =>
        have left := seeks.left_of_found located missing
        right
        refine ⟨_, words, _, rfl, ?_, by simp, left.search, fun _ => rfl, by simp⟩
        exact congrArg (· ++ [words]) left.notes
    | @added d located missing _ name path before seeks after applied words =>
        have left := seeks.left_of_found located missing
        obtain ⟨-, nonempty, -⟩ := edits_fit whole located before.buffer.lineCount name path
        obtain ⟨-, ⟨empty, -⟩ | ⟨-, splices, -, edited⟩⟩ := Buffer.apply_eq_ok applied
        · exact absurd empty nonempty
        right
        refine ⟨_, words, before.buffer, rfl, ?_, by simp, left.search,
          fun notAdded => absurd rfl notAdded, fun _ => ⟨_, nonempty, applied, ?_⟩⟩
        · exact congrArg (· ++ [words]) left.notes
        · exact congrArg Buffer.version edited
  · intro finder paths edits candidate short versioned searches answer changed mapped
    obtain ⟨d, located, missing⟩ := searches.missing
    have unlisted := Catalog.lookup_eq_none_iff.mpr searches.unlisted
    have stamped : im.stamp s.buffer = s.buffer.version := if_pos versioned
    rw [stamped] at located
    have nonzero : s.buffer.version ≠ 0 := opened ▸ version_ne_zero t (by omega)
    have raised : s.buffer.changes edits ≠ 0 := by
      simpa [Buffer.changes_eq_zero_iff] using changed
    -- The edits carry the version the block was read at, which is no longer current.
    have stale := apply_edits_of_changed whole located nonzero (by omega) raised
      (s.buffer.attemptAll edits).lineCount symbol candidate.importPath
    obtain ⟨version, -, -⟩ :=
      edits_fit whole located (s.buffer.attemptAll edits).lineCount symbol
      candidate.importPath
    rw [version] at stale
    simp only [addDependency, stamped, located, Descriptor.hasParameter_eq_false_iff.mpr missing,
      Bool.false_eq_true, if_false, target, unlisted, resolve, searches.given,
      Session.progress, answer, mapped, Except.map, insert, stale]

def unlistedBlock : Session where
  buffer := reached (utf8 "sap.ui.define([], function () \x7b\x7d);\n") []

theorem locate_unlistedBlock : locate unlistedBlock.buffer 1 =
    .ok (describe 1 ⟨[], ⟨0, 15⟩, ⟨0, 15⟩, false⟩
      ⟨[], ⟨0, 28⟩, ⟨0, 28⟩, false⟩ (utf8 "'")) := by
  decide +kernel

def headline : Batch := ⟨0, [⟨⟨0, 0⟩, utf8 "// first\n"⟩]⟩

/-- An importer whose finder edits the text while it searches. -/
def meddling : Importer where
  settings := .builtin
  finder := some fun _ b => (.ok [utf8 "app/webapp/Store.js"], b.attempt headline)

/-- The edits are made for the first version, and find the second. -/
theorem addDependency_atomic_meddling :
    (meddling.addDependency (utf8 "Store") unlistedBlock).1 =
      .ok { outcome := .failed, failure := some (.during .applyEdits (.apply (.stale 1 2))) } := by
  have searches : meddling.Searches (utf8 "Store") unlistedBlock
      (fun _ b => (.ok [utf8 "app/webapp/Store.js"], b.attempt headline)) :=
    ⟨rfl, ⟨_, locate_unlistedBlock, by simp [describe]⟩, by decide +kernel⟩
  have raised : (unlistedBlock.buffer.attemptAll [headline]).version = 2 := by decide +kernel
  have stale :=
    (addDependency_atomic _ [] meddling (utf8 "Store") unlistedBlock rfl).2 _ _ [headline]
    ⟨utf8 "app/webapp/Store.js", utf8 "sap/bi/webi/Store"⟩ (by decide) rfl searches rfl
    ⟨headline, by decide +kernel, by decide⟩ (by decide +kernel)
  rwa [raised] at stale

/-! ## Failures -/

theorem Left.kept {im : Importer} {symbol : Text} {s left : Session}
    (behind : im.Left symbol s left)
    (quiet : ∀ finder, im.finder = some finder →
      (finder (im.query symbol) s.buffer).2 = s.buffer) :
    left.buffer = s.buffer := by
  rcases behind.search with ⟨-, kept⟩ | ⟨finder, searches, -, kept⟩
  · exact kept
  · exact kept.trans (quiet finder searches.given)

/-- A document is read, or refused for what it holds: no place outside of it is
looked at.  The places of a descriptor lie in the document, which takes the
edits made from it; so a call without foreign edits fails only when its search
does. -/
theorem locate_applicable (t : Text) (past : List Batch) :
    (∀ stamp, stamp = 0 ∨ stamp = (reached t past).version →
      ((∃ d, locate (reached t past) stamp = .ok d) ∨
        locate (reached t past) stamp = .error .notFound ∨
        locate (reached t past) stamp = .error .malformed ∨
        locate (reached t past) stamp = .error .misaligned) ∧
      ∀ d, locate (reached t past) stamp = .ok d →
        d.dependencies.length = d.parameters.length ∧ d.Applicable (reached t past) ∧
        ∀ name path, ∃ after,
          (reached t past).apply (d.edits (reached t past).lineCount name path) = .ok after) ∧
    ∀ (im : Importer) (symbol : Text) (s : Session) (r : Addition), s.buffer = reached t past →
      (∀ finder, im.finder = some finder → (finder (im.query symbol) s.buffer).2 = s.buffer) →
      (im.addDependency symbol s).1 = .ok r → r.outcome = .failed →
      ∃ finder e, im.finder = some finder ∧ (finder (im.query symbol) s.buffer).1 = .error e ∧
        r.failure = some (.during .search e) := by
  have whole : (reached t past).Whole := (Buffer.whole_ofText t).attemptAll past
  constructor
  · intro stamp fits
    constructor
    · cases located : locate (reached t past) stamp with
      | ok d => exact Or.inl ⟨d, rfl⟩
      | error e => rcases locate_error_cases whole located with rfl | rfl | rfl <;> simp
    · intro d located
      obtain ⟨aligned, places⟩ := applicable_of_locate whole located
      exact ⟨aligned, places, exists_apply_edits whole fits located _⟩
  · intro im symbol s r opened quiet returned failed
    rw [← opened] at whole
    have ends := im.ends_addDependency symbol s
    generalize im.addDependency symbol s = done at ends returned
    cases ends with
    | astray refused => cases returned
    | unread refused told words =>
        cases returned
        rcases told with rfl | rfl <;> cases failed
    | present located has log words =>
        cases returned
        cases failed
    | stopped located missing seeks => cases returned
    | missed located missing seeks =>
        cases returned
        cases seeks with
        | alone unlisted unaided words => cases failed
        | broken asked reply words => exact ⟨_, _, asked.given, reply, rfl⟩
        | unmapped asked reply mapped words => cases failed
    | refused located missing seeks refused words =>
        -- The buffer is the one the edits were made for, which takes them.
        have kept := (seeks.left_of_found located missing).kept quiet
        obtain ⟨after, applied⟩ :=
          exists_apply_edits whole (im.stamp_fits s.buffer) located _ _ _
        rw [kept, applied] at refused
        cases refused
    | added located missing seeks applied words =>
        cases returned
        cases failed

def searchless : Importer where
  settings := .builtin
  finder := some fun _ b => (.error (.find .cancelled), b)

theorem locate_applicable_searchless :
    (∃ after, unlistedBlock.buffer.apply ((describe 1 ⟨[], ⟨0, 15⟩, ⟨0, 15⟩, false⟩
        ⟨[], ⟨0, 28⟩, ⟨0, 28⟩, false⟩ (utf8 "'")).edits unlistedBlock.buffer.lineCount
          (utf8 "Store")
          (utf8 "a/Store")) = .ok after) ∧
      ∃ finder e, searchless.finder = some finder ∧
        (finder (searchless.query (utf8 "Store")) unlistedBlock.buffer).1 = .error e := by
  have returned : (searchless.addDependency (utf8 "Store") unlistedBlock).1 =
      .ok { outcome := .failed, failure := some (.during .search (.find .cancelled)) } := by
    decide +kernel
  obtain ⟨reading, calls⟩ :=
    locate_applicable (utf8 "sap.ui.define([], function () \x7b\x7d);\n") []
  constructor
  · exact ((reading 1 (Or.inr rfl)).2 _ locate_unlistedBlock).2.2 _ _
  · obtain ⟨finder, e, given, reply, -⟩ := calls searchless (utf8 "Store") unlistedBlock _ rfl
      (fun finder given => by cases given; rfl) returned rfl
    exact ⟨finder, e, given, reply⟩

end Importer

end ModuleDeps
