import ModuleDeps.Proofs.Block.ImportReread
import ModuleDeps.Proofs.Block.Reading
import ModuleDeps.Proofs.Buffer.LineEnding
import ModuleDeps.Proofs.Importer

/-!
# Line ends do not matter

A block is read from the lines of a buffer: the text between two delimiters is
put together with line ends, but nothing of them is left in an entry or in an
indentation (`locate_congr`).  What is written has no carriage return unless the
name or the path has one, so converting a document and adding a dependency to
it can be done in either order (`addDependency_crlf`).
-/

set_option autoImplicit false

namespace ModuleDeps

open Text

/-! ## Reading -/

section Lines

variable {b b' : Buffer} (same : b'.lines = b.lines)
include same

namespace Buffer

theorem line_congr (i : Int) : b'.line i = b.line i := by rw [line, line, same]

theorem lineBefore_congr (p : Position) : b'.lineBefore p = b.lineBefore p := by
  rw [lineBefore, lineBefore, line_congr same]

theorem walkUp_congr (n : Nat) (p : Position) (state : CommaState) :
    b'.walkUp n p state = b.walkUp n p state := by
  induction n generalizing p state with
  | zero => rfl
  | succ n ih => simp only [walkUp, line_congr same, ih]

theorem commaAbove_congr (n : Nat) : b'.commaAbove n = b.commaAbove n := by
  induction n with
  | zero => rfl
  | succ n ih => simp only [commaAbove, line_congr same, ih]

theorem settleAbove_congr (p : Position) (n : Nat) : b'.settleAbove p n = b.settleAbove p n := by
  induction n with
  | zero => rfl
  | succ n ih => simp only [settleAbove, line_congr same, ih]

theorem insertPoint_congr (close : Position) : b'.insertPoint close = b.insertPoint close := by
  simp only [insertPoint, lastMeaningful, settleInsert, resolveComma, lineBefore_congr same,
    walkUp_congr same, commaAbove_congr same, settleAbove_congr same]

theorem Scanned.congr {lead inner : Text} {opener : UInt8} {L L' : EntryList}
    (scanned : b.Scanned lead opener inner L) (scanned' : b'.Scanned lead opener inner L') :
    L'.insert = L.insert ∧ L'.comma = L.comma ∧ L'.entries.map trim = L.entries.map trim ∧
      filler L'.entries = filler L.entries := by
  obtain ⟨insert, comma⟩ : L'.insert = L.insert ∧ L'.comma = L.comma := by
    rw [← Prod.mk.injEq, ← scanned.insertPoint, ← scanned'.insertPoint,
      insertPoint_congr same]
  refine ⟨insert, comma, ?_⟩
  cases scanned' with
  | behind _ _ _ cut _ _ =>
      rw [scanned.entries_of_insert cut insert.symm, entries_withEnding, entries_withEnding,
        filler_withEnding, filler_withEnding]
      exact ⟨rfl, rfl⟩
  | ahead _ before =>
      rw [scanned.entries_of_ahead (insert ▸ before)]
      exact ⟨rfl, rfl⟩

end Buffer

theorem locate_congr (whole : b.Whole) (stamp : UInt64) : locate b' stamp = locate b stamp := by
  obtain ⟨t, holds⟩ := whole.exists_text
  have holds' : b'.lines = splitAt lf t := same.trans holds
  by_cases marked : defineMarker <:+: t
  · rcases marked_cases marked with ⟨e, -, stop⟩ | ⟨f, rfl⟩
    · rw [stop b holds, stop b' holds']
    · obtain ⟨deps, params, depsScanned, paramsScanned, read⟩ := locate_frame f holds stamp
      obtain ⟨deps', params', depsScanned', paramsScanned', read'⟩ :=
        locate_frame f holds' stamp
      obtain ⟨depsInsert, depsComma, depsEntries, depsFiller⟩ :=
        depsScanned.congr same depsScanned'
      obtain ⟨paramsInsert, paramsComma, paramsEntries, paramsFiller⟩ :=
        paramsScanned.congr same paramsScanned'
      rw [read, read', b.onlySeparators_withEnding, b'.onlySeparators_withEnding]
      simp only [report, describe, depsInsert, depsComma, depsEntries, depsFiller, paramsInsert,
        paramsComma, paramsEntries, paramsFiller]
  · have unmarked := unmarked_of_absent holds marked
    rw [locate_of_unmarked unmarked, locate_of_unmarked (same ▸ unmarked), locateImports,
      locateImports, same]

end Lines

/-! ## Writing -/

theorem cr_notMem_filler (entries : List Text) : cr ∉ filler entries := by
  induction entries with
  | nil => simp [filler]
  | cons entry rest ih =>
      rw [filler]
      split
      · exact ih
      · split <;> simp

/-- The parts of a text that further entries take over have no carriage return. -/
theorem cr_notMem_of_locate {b : Buffer} (whole : b.Whole) {stamp : UInt64} {d : Descriptor}
    (located : locate b stamp = .ok d) :
    cr ∉ d.quote ∧ cr ∉ d.dependencyIndent ∧ cr ∉ d.parameterIndent := by
  have noQuote {q : UInt8} (isQuote : q = squote ∨ q = dquote) : cr ∉ [q] := by
    rcases isQuote with rfl | rfl <;> decide
  rcases locate_cases whole located with
    ⟨f, deps, params, quote, -, read⟩ | ⟨n, last, found, rfl⟩
  · obtain rfl := read.described
    exact ⟨noQuote read.quoteKind, cr_notMem_filler _, cr_notMem_filler _⟩
  · exact ⟨noQuote (importsFrom_spec (List.mem_of_getLast? found)).2, by simp [describeImports],
      by simp [describeImports]⟩

theorem cr_notMem_entryText {entry indent : Text} (entryFree : cr ∉ entry)
    (indentFree : cr ∉ indent) (existing : Nat) (comma : Bool) :
    cr ∉ entryText entry existing comma indent := by
  have noComma : cr ∉ (if comma then [] else [Text.comma] : Text) := by cases comma <;> decide
  have notLf : cr ≠ lf := by decide
  rw [entryText]
  split
  · exact entryFree
  · simp [noComma, notLf, indentFree, entryFree]

theorem cr_notMem_edits {b : Buffer} (whole : b.Whole) {stamp : UInt64} {d : Descriptor}
    (located : locate b stamp = .ok d) {name path : Text} (nameFree : cr ∉ name)
    (pathFree : cr ∉ path) (lineCount : Nat) :
    ∀ i ∈ (d.edits lineCount name path).inserts, cr ∉ i.text := by
  obtain ⟨quoteFree, dependencyFree, parameterFree⟩ := cr_notMem_of_locate whole located
  have literalFree : cr ∉ d.literal path := by simp [Descriptor.literal, quoteFree, pathFree]
  rw [Descriptor.edits]
  cases d.kind with
  | bracketedFactory =>
      simp only [List.mem_cons, List.not_mem_nil, or_false, forall_eq_or_imp, forall_eq]
      exact ⟨cr_notMem_entryText literalFree dependencyFree _ _,
        cr_notMem_entryText nameFree parameterFree _ _⟩
  | lineImports =>
      have noImport : cr ∉ utf8 "import " := by decide
      have noFrom : cr ∉ utf8 " from " := by decide
      have noEnd : cr ∉ (if d.semicolon then utf8 ";" else [] : Text) := by
        cases d.semicolon <;> decide
      have lineFree : cr ∉ importText name (d.literal path) d.semicolon := by
        simp [importText, noImport, nameFree, noFrom, literalFree, noEnd]
      have notLf : cr ≠ lf := by decide
      simp only [List.mem_singleton, forall_eq]
      split <;> simp [notLf, lineFree]

/-! ## Adding -/

def Session.crlfEnded (s : Session) : Session := { s with buffer := s.buffer.crlfEnded }

namespace Importer

theorem insert_crlfEnded {s : Session} {d : Descriptor} {name path : Text} (unix : s.buffer.Unix)
    (free : ∀ i ∈ (d.edits s.buffer.lineCount name path).inserts, cr ∉ i.text)
    {after : Buffer} (applied : s.buffer.apply (d.edits s.buffer.lineCount name path) = .ok after) :
    insert d name path s.crlfEnded = Prod.map id Session.crlfEnded (insert d name path s) ∧
      (insert d name path s).2.buffer.Unix := by
  obtain ⟨unixAfter, applied'⟩ := unix.apply_crlfEnded free applied
  have applied'' : s.crlfEnded.buffer.apply (d.edits s.crlfEnded.buffer.lineCount name path) =
      .ok after.crlfEnded := applied'
  rw [insert, insert, applied, applied'']
  exact ⟨rfl, unixAfter⟩

section Converted

variable {im : Importer} (steady : im.Steady) (symbol : Text) (s : Session)
include steady

theorem resolve_crlfEnded :
    im.resolve symbol s.crlfEnded = Prod.map id Session.crlfEnded (im.resolve symbol s) := by
  rw [resolve, resolve]
  cases given : im.finder with
  | none => rfl
  | some finder =>
      have kept := steady finder given (im.query symbol) s.buffer s.buffer
      have answer := steady finder given (im.query symbol) s.buffer.crlfEnded s.buffer
      simp only [Session.progress, Session.crlfEnded, answer]
      generalize finder (im.query symbol) s.buffer = found at kept ⊢
      obtain ⟨reply, left⟩ := found
      obtain rfl : left = s.buffer := congrArg Prod.snd kept
      cases reply with
      | error e => rfl
      | ok paths => rfl

theorem target_crlfEnded :
    im.target symbol s.crlfEnded = Prod.map id Session.crlfEnded (im.target symbol s) := by
  rw [target, target, resolve_crlfEnded steady]
  cases im.settings.modules.lookup symbol with
  | some known => rfl
  | none =>
      obtain ⟨stop | (e | ⟨candidate, paths⟩), after⟩ := im.resolve symbol s
      · rfl
      · rfl
      · cases candidate <;> rfl

theorem addDependency_crlfEnded (unix : s.buffer.Unix)
    (free : ∀ d name path after, im.Adds symbol s d name path after → cr ∉ name ∧
      cr ∉ path) :
    im.addDependency symbol s.crlfEnded =
      Prod.map id Session.crlfEnded (im.addDependency symbol s) ∧
      (im.addDependency symbol s).2.buffer.Unix := by
  have sameLines : s.crlfEnded.buffer.lines = s.buffer.lines := rfl
  have read : locate s.crlfEnded.buffer (im.stamp s.crlfEnded.buffer) =
      locate s.buffer (im.stamp s.buffer) :=
    locate_congr sameLines unix.whole _
  rw [addDependency, addDependency, read]
  cases located : locate s.buffer (im.stamp s.buffer) with
  | error e => cases e <;> exact ⟨rfl, unix⟩
  | ok d =>
      simp only
      cases missing : d.hasParameter symbol with
      | true => exact ⟨rfl, unix⟩
      | false =>
          have kept := target_buffer symbol (s.progress (locatedNote d)) steady.quiet
          have row := @target_progress im symbol s (locatedNote d)
          have converted := target_crlfEnded steady symbol (s.progress (locatedNote d))
          have log : s.crlfEnded.progress (locatedNote d) =
              (s.progress (locatedNote d)).crlfEnded := rfl
          simp only [Bool.false_eq_true, if_false]
          rw [log, converted]
          generalize im.target symbol (s.progress (locatedNote d)) = answer at kept row
          obtain ⟨answer, left⟩ := answer
          have keptBuffer : left.buffer = s.buffer := kept
          rcases answer with stop | (ended | ⟨name, path⟩)
          · exact ⟨rfl, keptBuffer ▸ unix⟩
          · exact ⟨rfl, keptBuffer ▸ unix⟩
          · obtain ⟨after, applied⟩ :=
              exists_apply_edits unix.whole (im.stamp_fits s.buffer) located
                s.buffer.lineCount name path
            obtain ⟨nameFree, pathFree⟩ :=
              free d name path after ⟨located, missing, row.symm, applied⟩
            have editsFree :=
              cr_notMem_edits unix.whole located nameFree pathFree s.buffer.lineCount
            rw [← keptBuffer] at unix editsFree applied
            -- Only here do the two calls touch their buffers.
            obtain ⟨inserted, unixAfter⟩ := insert_crlfEnded unix editsFree applied
            exact ⟨congrArg (fun done => (Except.ok done.1, done.2)) inserted, unixAfter⟩

end Converted

end Importer

/-- Converting the line feeds of a document to CRLFs changes nothing but these:
the same block is read from it, and a call ends in the same way with the same
notes and a text that is the converted one. -/
theorem addDependency_crlf (t : Text) (free : cr ∉ t) (lined : lf ∈ t) :
    (∀ stamp, locate (Buffer.ofText (crlf t)) stamp = locate (Buffer.ofText t) stamp) ∧
    ∀ (im : Importer) (symbol : Text) (s : Session), im.Steady → s.buffer = Buffer.ofText t →
      (∀ d name path after, im.Adds symbol s d name path after → cr ∉ name ∧
        cr ∉ path) →
      ∃ r after converted, im.addDependency symbol s = (r, after) ∧
        im.addDependency symbol { s with buffer := Buffer.ofText (crlf t) } =
          (r, { after with buffer := converted }) ∧
        converted.text = crlf after.buffer.text := by
  rw [Buffer.ofText_crlf free lined]
  have unix : (Buffer.ofText t).Unix := Buffer.ofText_of_free free ▸ Buffer.unix_of_free free 1
  have sameLines : (Buffer.ofText t).crlfEnded.lines = (Buffer.ofText t).lines := rfl
  refine ⟨locate_congr sameLines unix.whole, ?_⟩
  intro im symbol s steady opened namesFree
  rw [← opened] at unix ⊢
  obtain ⟨done, unixAfter⟩ := im.addDependency_crlfEnded steady symbol s unix namesFree
  exact ⟨_, _, _, rfl, done, unixAfter.text_crlfEnded⟩

def tabbed : Text :=
  utf8 "sap.ui.define([\n\t'a/A'\n], function (\n\tA\n) \x7b\x7d);\n"

def onePath : Importer where
  settings := .builtin
  finder := some fun _ b => (.ok [utf8 "app/webapp/B.js"], b)

/-- The new entries take over the tabs, and the CRLFs, but no carriage return as
part of a tab. -/
theorem addDependency_crlf_tabbed :
    (onePath.addDependency (utf8 "B") { buffer := Buffer.ofText (crlf tabbed) }).2.buffer.text =
      utf8
        "sap.ui.define([\r\n\t'a/A',\r\n\t'sap/bi/webi/B'\r\n], function (\r\n\tA,\r\n\tB\r\n) \x7b\x7d);\r\n" := by
  have steady : onePath.Steady := by
    intro finder given q b b'
    obtain rfl := Option.some.inj given
    rfl
  have row : (onePath.target (utf8 "B") { buffer := Buffer.ofText tabbed }).1 =
      .ok (.ok (utf8 "B", utf8 "sap/bi/webi/B")) := by
    decide +kernel
  have text : (onePath.addDependency (utf8 "B") { buffer := Buffer.ofText tabbed }).2.buffer.text =
      utf8
        "sap.ui.define([\n\t'a/A',\n\t'sap/bi/webi/B'\n], function (\n\tA,\n\tB\n) \x7b\x7d);\n" := by
    decide +kernel
  obtain ⟨r, after, converted, done, done', text'⟩ :=
    (addDependency_crlf tabbed (by decide +kernel) (by decide +kernel)).2 onePath (utf8 "B")
      { buffer := Buffer.ofText tabbed } steady rfl fun d name path after adds => by
        obtain ⟨rfl, rfl⟩ : name = utf8 "B" ∧ path = utf8 "sap/bi/webi/B" := by
          simpa using adds.target.symm.trans row
        decide
  rw [done] at text
  rw [done']
  exact text'.trans ((congrArg crlf text).trans (by decide +kernel))

end ModuleDeps
