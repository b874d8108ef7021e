import ModuleDeps.Proofs.Block.CommentFree
import ModuleDeps.Proofs.Block.ImportLine
import ModuleDeps.Proofs.Importer

/-!
# Runs of calls

Calls that add symbols to one buffer, one after the other.  On a factory block
without comments every call that returns `added` adds one literal and one name,
and every other call adds nothing (`Faithful.call`); so after any run the lists
are the old ones followed by what was added, in the order of the calls
(`additions_readBack`).
-/

set_option autoImplicit false

namespace ModuleDeps

open Text

structure Call where
  importer : Importer
  symbol : Text

namespace Call

def returned (c : Call) (s : Session) : Except OutOfRange Importer.Addition :=
  (c.importer.addDependency c.symbol s).1

def after (c : Call) (s : Session) : Session := (c.importer.addDependency c.symbol s).2

def found? (c : Call) (s : Session) : Option (Text × Text) :=
  match (c.importer.target c.symbol s).1 with
  | .ok (.ok row) => some row
  | _ => none

def added (c : Call) (s : Session) : List (Text × Text) :=
  if c.returned s = .ok { outcome := .added } then (c.found? s).toList else []

end Call

def finished (s : Session) (calls : List Call) : Session := calls.foldl (fun s c => c.after s) s

def results : Session → List Call → List (Except OutOfRange Importer.Addition)
  | _, [] => []
  | s, c :: rest => c.returned s :: results (c.after s) rest

def additions : Session → List Call → List (Text × Text)
  | _, [] => []
  | s, c :: rest => c.added s ++ additions (c.after s) rest

/-! ## One call -/

/-- A buffer whose block is that of `d` with `rows` added. -/
structure Faithful (d : Descriptor) (rows : List (Text × Text)) (b : Buffer) : Prop where
  whole : b.Whole
  free : b.CommentFree
  located : ∀ stamp, ∃ d', locate b stamp = .ok d' ∧ d'.kind = .bracketedFactory ∧
    d'.dependencies = d.dependencies ++ rows.map (fun row => d.literal row.2) ∧
    d'.parameters = d.parameters ++ rows.map Prod.fst ∧ d'.quote = d.quote

/-- The search leaves the buffer alone, and whatever can become a parameter is
an identifier. -/
structure Call.Proper (c : Call) : Prop where
  quiet : c.importer.Quiet
  symbol : isIdentifier c.symbol = true
  keys : ∀ known ∈ c.importer.settings.modules, isIdentifier known.name = true

theorem Call.Proper.identifier {c : Call} (proper : c.Proper) {s : Session} {name path : Text}
    (found : (c.importer.target c.symbol s).1 = .ok (.ok (name, path))) :
    isIdentifier name = true := by
  rcases Importer.target_spec c.symbol s found with ⟨known, member, rfl, -⟩ | rfl
  · exact proper.keys known member
  · exact proper.symbol

/-- A call adds the one row of its target, or nothing. -/
theorem Call.added_cases {c : Call} (quiet : c.importer.Quiet) (s : Session) :
    (∃ d name path, c.importer.Adds c.symbol s d name path (c.after s).buffer ∧
        c.returned s = .ok { outcome := .added } ∧ c.added s = [(name, path)]) ∨
      c.returned s ≠ .ok { outcome := .added } ∧ c.added s = [] ∧
      (c.after s).buffer = s.buffer := by
  rcases Importer.addDependency_cases c.symbol s quiet with
    ⟨d, name, path, after, adds, isAdded, rfl⟩ | ⟨notAdded, kept⟩
  · have returned : c.returned s = .ok { outcome := .added } := isAdded
    refine Or.inl ⟨d, name, path, adds, returned, ?_⟩
    rw [added, if_pos returned, found?, adds.target]
    rfl
  · have returned : c.returned s ≠ .ok { outcome := .added } := notAdded
    exact Or.inr ⟨returned, by rw [added, if_neg returned], kept⟩

theorem Faithful.call {d : Descriptor} {rows : List (Text × Text)} {s : Session}
    (faithful : Faithful d rows s.buffer) {c : Call} (proper : c.Proper)
    (paths : ∀ row ∈ c.added s, isPlainPath row.2 = true) :
    Faithful d (rows ++ c.added s) (c.after s).buffer := by
  rcases Call.added_cases proper.quiet s with
    ⟨d', name, path, adds, -, row⟩ | ⟨-, none, kept⟩
  · have plain : isPlainPath path = true := paths (name, path) (by simp [row])
    have identifier := proper.identifier adds.target
    obtain ⟨again, located, factory, dependencies, parameters, quote⟩ :=
      faithful.located (c.importer.stamp s.buffer)
    obtain rfl : d' = again := Except.ok.inj (adds.located.symm.trans located)
    obtain ⟨block⟩ := exists_block faithful.whole located factory
      (placed_of_commentFree faithful.whole faithful.free located factory)
    have edited : (c.after s).buffer = block.edited name path :=
      Except.ok.inj (adds.applied.symm.trans
        (block.apply_edits (c.importer.stamp_fits _) _ name path))
    have literal : d'.literal path = d.literal path := by simp [Descriptor.literal, quote]
    rw [edited, row]
    refine ⟨block.whole_edited name path, ?_, ?_⟩
    · exact block.commentFree_edited faithful.free plain (spelled_of_isIdentifier identifier)
        (nameBytes_of_isIdentifier identifier).1
    · intro stamp
      obtain ⟨d'', located', factory', dependencies', parameters', quote'⟩ :=
        block.locate_added faithful.free plain identifier stamp
      refine ⟨d'', located', factory', ?_, ?_, quote'.trans quote⟩
      · rw [dependencies', dependencies, literal]
        simp
      · rw [parameters', parameters]
        simp
  · rw [none, kept, List.append_nil]
    exact faithful

/-! ## Whole runs -/

theorem Faithful.finished {d : Descriptor} {calls : List Call} {rows : List (Text × Text)}
    {s : Session} (faithful : Faithful d rows s.buffer) (proper : ∀ c ∈ calls, c.Proper)
    (paths : ∀ row ∈ additions s calls, isPlainPath row.2 = true) :
    Faithful d (rows ++ additions s calls) (finished s calls).buffer := by
  induction calls generalizing rows s with
  | nil =>
      rw [additions, List.append_nil]
      exact faithful
  | cons c rest ih =>
      rw [additions] at paths ⊢
      have first :=
        faithful.call (proper c (by simp)) fun row member => paths row (by simp [member])
      have later := ih first (fun c' member => proper c' (by simp [member]))
        fun row member => paths row (by simp [member])
      rw [List.append_assoc] at later
      exact later

theorem length_additions {calls : List Call} {s : Session}
    (quiet : ∀ c ∈ calls, c.importer.Quiet) :
    (additions s calls).length = (results s calls).count (.ok { outcome := .added }) := by
  induction calls generalizing s with
  | nil => rfl
  | cons c rest ih =>
      have later := ih (s := c.after s) fun c' member => quiet c' (by simp [member])
      rw [additions, results, List.length_append, List.count_cons, later]
      rcases Call.added_cases (quiet c (by simp)) s with
        ⟨d, name, path, -, returned, row⟩ | ⟨returned, none, -⟩
      · rw [row, returned]
        simp
        omega
      · rw [none]
        simp [returned]

theorem faithful_ofText {t : Text} (noComment : t.contains lineComment = false) {d : Descriptor}
    {stamp : UInt64} (located : locate (Buffer.ofText t) stamp = .ok d)
    (factory : d.kind = .bracketedFactory) : Faithful d [] (Buffer.ofText t) where
  whole := Buffer.whole_ofText t
  free := by
    refine Buffer.commentFree_ofText fun occurs => ?_
    rw [(contains_iff_isInfix (by decide) t).mpr occurs] at noComment
    cases noComment
  located stamp' := by
    rw [locate_stamp] at located ⊢
    cases read : locate (Buffer.ofText t) 0 with
    | error e =>
        rw [read] at located
        cases located
    | ok found =>
        rw [read] at located
        obtain rfl := Except.ok.inj located
        exact ⟨_, rfl, factory, by simp, by simp, rfl⟩

/-- After any run of calls on a factory block without comments the block is
still read, with its lists followed by what the calls have added that returned
`added`: each path at the index of its name, in the order of the calls. -/
theorem additions_readBack {t : Text} (noComment : t.contains lineComment = false) {d : Descriptor}
    (located : locate (Buffer.ofText t) (Buffer.ofText t).version = .ok d)
    (factory : d.kind = .bracketedFactory) {s : Session} (start : s.buffer = Buffer.ofText t)
    (calls : List Call) (proper : ∀ c ∈ calls, c.Proper)
    (paths : ∀ row ∈ additions s calls, isPlainPath row.2 = true) :
    ∃ d', locate (finished s calls).buffer (finished s calls).buffer.version = .ok d' ∧
      d'.kind = .bracketedFactory ∧
      d'.dependencies = d.dependencies ++ (additions s calls).map (fun row => d.literal row.2) ∧
      d'.parameters = d.parameters ++ (additions s calls).map Prod.fst ∧
      (additions s calls).length = (results s calls).count (.ok { outcome := .added }) ∧
      ∀ i row, (additions s calls)[i]? = some row →
        d'.dependencies[d.dependencies.length + i]? = some (d.literal row.2) ∧
        d'.parameters[d.dependencies.length + i]? = some row.1 := by
  have initial : Faithful d [] s.buffer := start ▸ faithful_ofText noComment located factory
  have final := initial.finished proper paths
  rw [List.nil_append] at final
  obtain ⟨d', located', factory', dependencies, parameters, -⟩ :=
    final.located (finished s calls).buffer.version
  refine ⟨d', located', factory', dependencies, parameters,
    length_additions fun c member => (proper c member).quiet, ?_⟩
  intro i row here
  obtain ⟨block⟩ := exists_block initial.whole (start ▸ located) factory
    (placed_of_commentFree initial.whole initial.free (start ▸ located) factory)
  constructor
  · rw [dependencies, List.getElem?_append_right (by omega), Nat.add_sub_cancel_left,
      List.getElem?_map, here]
    rfl
  · rw [parameters, ← block.aligned, List.getElem?_append_right (by omega),
      Nat.add_sub_cancel_left, List.getElem?_map, here]
    rfl

def oneModule : Session where
  buffer := Buffer.ofText (utf8 "sap.ui.define([\r\n  'a/A',\r\n], function (A) \x7b\r\n\x7d);\r\n")

def oneFile : Importer where
  settings := ⟨Marker.builtin, [⟨utf8 "B", utf8 "b/B"⟩], [], 10⟩
  finder := some fun _ b => (.ok [utf8 "/webapp/C.js"], b)

def threeCalls : List Call :=
  [⟨oneFile, utf8 "B"⟩, ⟨oneFile, utf8 "b"⟩, ⟨oneFile, utf8 "C"⟩]

/-- A module of the catalog is added, but not twice, and one that is searched
for after it. -/
theorem additions_readBack_catalog_and_search :
    ∃ d', locate (finished oneModule threeCalls).buffer
      (finished oneModule threeCalls).buffer.version =
        .ok d' ∧
      d'.dependencies = [utf8 "'a/A'", utf8 "'b/B'", utf8 "'sap/bi/webi/C'"] ∧
      d'.parameters = [utf8 "A", utf8 "B", utf8 "C"] := by
  have located : locate oneModule.buffer oneModule.buffer.version =
      .ok (describe 1 ⟨[utf8 "  'a/A'"], ⟨1, 8⟩, ⟨2, 0⟩, true⟩ ⟨[utf8 "A"],
        ⟨2, 14⟩, ⟨2, 14⟩, false⟩
        (utf8 "'")) := by
    decide +kernel
  have rows : additions oneModule threeCalls =
      [(utf8 "B", utf8 "b/B"), (utf8 "C", utf8 "sap/bi/webi/C")] := by
    decide +kernel
  have quiet : oneFile.Quiet := by
    intro finder given q b
    cases given
    rfl
  have keys : ∀ known ∈ oneFile.settings.modules, isIdentifier known.name = true := by
    decide +kernel
  have proper : ∀ c ∈ threeCalls, c.Proper := by
    intro c member
    have identifier : ∀ c ∈ threeCalls, isIdentifier c.symbol = true := by decide +kernel
    have same : ∀ c ∈ threeCalls, c.importer = oneFile := by simp [threeCalls]
    exact ⟨same c member ▸ quiet, identifier c member, same c member ▸ keys⟩
  obtain ⟨d', located', -, dependencies, parameters, -⟩ :=
    additions_readBack (s := oneModule) (by decide +kernel) located rfl rfl threeCalls proper
      (by rw [rows]; decide +kernel)
  rw [rows] at dependencies parameters
  exact ⟨d', located', dependencies.trans (by decide +kernel),
    parameters.trans (by decide +kernel)⟩

end ModuleDeps
