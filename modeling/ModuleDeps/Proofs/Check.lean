import ModuleDeps.Check
import ModuleDeps.Proofs.Disk.Walk
import ModuleDeps.Proofs.Exits

/-!
# Checks and calls agree

A check and a call that adds a dependency sort the failed readings of a block
on their own.  Both sort them alike: the files that a check reports as broken
are those that a call finds malformed, and the files it counts as without a
block those where a call finds none (`check_agrees_with_add`).
-/

set_option autoImplicit false

namespace ModuleDeps

open Text

def reading (text : Text) : Except LocateError Descriptor :=
  locate (Buffer.ofText text) (Buffer.ofText text).version

def lacksBlock (text : Text) : Bool :=
  match reading text with
  | .ok _ => false
  | .error e => e = .notFound

def isMisread (text : Text) : Bool :=
  match reading text with
  | .ok _ => false
  | .error e => e ≠ .notFound

def verdict (text : Text) : Text :=
  match reading text with
  | .ok d => d.kind.name ++ utf8 " block, " ++ ofNat d.dependencies.length ++ utf8 " dependencies"
  | .error .notFound => utf8 "no declaration block"
  | .error e => e.message

theorem lf_notMem_ofNat (n : Nat) : lf ∉ ofNat n := by
  intro member
  obtain ⟨c, inDigits, encoded⟩ := List.mem_flatMap.mp member
  have digit : c.isDigit = true := Nat.isDigit_of_mem_toDigits (by decide) (by decide) inDigits
  have bounds : 48 ≤ c.val.toNat ∧ c.val.toNat ≤ 57 := by
    simpa [Char.isDigit, UInt32.le_iff_toNat_le] using digit
  have short : c.val.toNat ≤ 0x7f := by omega
  rw [String.utf8EncodeChar, if_pos short, List.mem_singleton] at encoded
  have code := congrArg UInt8.toNat encoded
  rw [UInt8.toNat_ofNat'] at code
  have newline : lf.toNat = 10 := rfl
  omega

theorem lf_notMem_verdict (text : Text) : lf ∉ verdict text := by
  rw [verdict]
  split
  · rename_i d read
    have kind : lf ∉ d.kind.name := by cases d.kind <;> decide
    have count := lf_notMem_ofNat d.dependencies.length
    have words : lf ∉ utf8 " block, " ∧ lf ∉ utf8 " dependencies" := by decide
    simp [kind, count, words]
  · decide
  · rename_i e _ _
    cases e <;> decide

def fileLine (path text : Text) : Text := path ++ utf8 ": " ++ verdict text ++ [lf]

namespace CheckResult

section OfText

variable (path text : Text)

theorem isBroken_ofText : (ofText path text).isBroken = isMisread text := by
  rw [ofText, isMisread, reading]
  rcases locate (Buffer.ofText text) (Buffer.ofText text).version with e | d
  · cases e <;> rfl
  · rfl

theorem isWithoutBlock_ofText : (ofText path text).isWithoutBlock = lacksBlock text := by
  rw [ofText, lacksBlock, reading]
  rcases locate (Buffer.ofText text) (Buffer.ofText text).version with e | d
  · cases e <;> rfl
  · rfl

theorem line_ofText : (ofText path text).line = fileLine path text := by
  have unlisted : utf8 ": no declaration block\n" = utf8 ": " ++ utf8 "no declaration block" ++
      [lf] := by decide
  have dependencies : utf8 " dependencies\n" = utf8 " dependencies" ++ [lf] := by decide
  rw [ofText, fileLine, verdict, reading]
  rcases locate (Buffer.ofText text) (Buffer.ofText text).version with e | d
  · cases e <;> simp [line, Failure.message, unlisted]
  · simp [line, dependencies]

theorem report_ofText (verbose : Bool) :
    (ofText path text).report verbose =
      if verbose || isMisread text then fileLine path text else [] := by
  rw [report, ← isBroken, isBroken_ofText, line_ofText, Bool.or_comm]

end OfText

end CheckResult

namespace Disk

section Files

variable {d : Disk} {files texts : List Text}

theorem checkOrFail_of_read {path text : Text} (read : d.readFile path = .ok text) :
    d.checkOrFail path = .ofText path text := by
  rw [checkOrFail, checkFile, read]

theorem exists_texts (readable : ∀ path ∈ files, ∃ text, d.readFile path = .ok text) :
    ∃ texts : List Text, files.map d.readFile = texts.map .ok := by
  induction files with
  | nil => exact ⟨[], rfl⟩
  | cons path rest ih =>
      obtain ⟨text, read⟩ := readable path (by simp)
      obtain ⟨texts, reads⟩ := ih fun path member => readable path (by simp [member])
      exact ⟨text :: texts, by simp [read, reads]⟩

theorem results_of_read (reads : files.map d.readFile = texts.map .ok) :
    files.map d.checkOrFail = (files.zip texts).map fun file => .ofText file.1 file.2 := by
  induction files generalizing texts with
  | nil => rfl
  | cons path rest ih =>
      obtain ⟨text, texts, rfl⟩ : ∃ text more, texts = text :: more := by
        cases texts with
        | nil => cases reads
        | cons text more => exact ⟨text, more, rfl⟩
      obtain ⟨read, reads⟩ := List.cons.inj reads
      rw [List.zip_cons_cons, List.map_cons, List.map_cons, ih reads, checkOrFail_of_read read]

/-- The report on files that can be read: the lines of those that are broken, or
of all, and the counts. -/
theorem checkFiles_of_read (reads : files.map d.readFile = texts.map .ok) (verbose : Bool) :
    d.checkFiles verbose files =
      { output := ((files.zip texts).filter fun file => verbose || isMisread file.2).flatMap
            (fun file => fileLine file.1 file.2) ++
          (utf8 "Checked " ++ ofNat files.length ++ utf8 " files" ++
            countPart (texts.countP lacksBlock) " without a declaration block" ++
            countPart (texts.countP isMisread) " with errors" ++ [lf])
        failure :=
          if texts.countP isMisread = 0 then none
          else some (.brokenFiles (texts.countP isMisread)) } := by
  have length : files.length = texts.length := by simpa using congrArg List.length reads
  have count (holds : Text → Bool) : (files.zip texts).countP (fun file => holds file.2) =
      texts.countP holds := by
    have snd : (files.zip texts).map Prod.snd = texts := List.map_snd_zip (Nat.le_of_eq length.symm)
    conv_rhs => rw [← snd, List.countP_map]
    rfl
  have lines : ((files.zip texts).map fun file => CheckResult.ofText file.1 file.2).flatMap
      (·.report verbose) =
      ((files.zip texts).filter fun file => verbose || isMisread file.2).flatMap fun file =>
        fileLine file.1 file.2 := by
    induction files.zip texts with
    | nil => rfl
    | cons file rest ih =>
        rw [List.map_cons, List.flatMap_cons, ih, CheckResult.report_ofText, List.filter_cons]
        split <;> simp
  have lacking : ((files.zip texts).map fun file => CheckResult.ofText file.1 file.2).countP
      CheckResult.isWithoutBlock = texts.countP lacksBlock := by
    rw [List.countP_map, ← count]
    exact congrArg (List.countP · _)
      (funext fun file => CheckResult.isWithoutBlock_ofText file.1 file.2)
  have broken : ((files.zip texts).map fun file => CheckResult.ofText file.1 file.2).countP
      CheckResult.isBroken = texts.countP isMisread := by
    rw [List.countP_map, ← count]
    exact congrArg (List.countP · _) (funext fun file => CheckResult.isBroken_ofText file.1 file.2)
  rw [checkFiles, results_of_read reads]
  simp only [summary, lines, lacking, broken, List.length_map, List.length_zip, length,
    Nat.min_self]

end Files

end Disk

/-! ## Calls -/

namespace Importer

variable {im : Importer} {symbol text : Text} {s : Session}

theorem locate_of_reading {e : LocateError} (stamp : UInt64)
    (opened : s.buffer = Buffer.ofText text) :
    locate s.buffer stamp = .error e ↔ reading text = .error e := by
  rw [opened, reading, locate_stamp, locate_stamp _ (Buffer.ofText text).version]
  cases locate (Buffer.ofText text) 0 <;> simp [Except.map]

theorem outcome_of_located {d : Descriptor}
    (located : locate s.buffer (im.stamp s.buffer) = .ok d) {r : Addition}
    (done : (im.addDependency symbol s).1 = .ok r) :
    r.outcome ≠ .malformedBlock ∧ r.outcome ≠ .blockNotFound := by
  have ends := im.ends_addDependency symbol s
  generalize im.addDependency symbol s = ended at ends done
  cases ends with
  | astray refused => simp [located] at refused
  | unread refused => simp [located] at refused
  | stopped => cases done
  | present | refused | added =>
      obtain rfl := Except.ok.inj done
      exact ⟨by simp, by simp⟩
  | missed _ _ seeks =>
      obtain rfl := Except.ok.inj done
      cases seeks <;> exact ⟨by simp, by simp⟩

theorem outcome_iff (opened : s.buffer = Buffer.ofText text) :
    ((im.addDependency symbol s).1.map Addition.outcome = .ok .malformedBlock ↔
      isMisread text = true) ∧
      ((im.addDependency symbol s).1.map Addition.outcome = .ok .blockNotFound ↔
        lacksBlock text = true) := by
  cases located : locate s.buffer (im.stamp s.buffer) with
  | error e =>
      have whole : s.buffer.Whole := opened ▸ Buffer.whole_ofText text
      have read : reading text = .error e := (locate_of_reading _ opened).mp located
      rw [addDependency, located, isMisread, lacksBlock, read]
      rcases locate_error_cases whole located with rfl | rfl | rfl <;> simp [Except.map]
  | ok d =>
      obtain ⟨d', read⟩ : ∃ d', reading text = .ok d' := by
        cases read : reading text with
        | error e => simp [(locate_of_reading _ opened).mpr read] at located
        | ok d' => exact ⟨d', rfl⟩
      rw [isMisread, lacksBlock, read]
      cases done : (im.addDependency symbol s).1 with
      | error stop => simp [Except.map]
      | ok r =>
          obtain ⟨notMalformed, notMissing⟩ := outcome_of_located located done
          simp [Except.map, notMalformed, notMissing]

end Importer

/-- A check of a folder reads every module file below it, counts those without a
block and those whose block cannot be edited, and fails when there is one of
the latter.  A call on the text of such a file sorts it alike, whatever it is
asked to add. -/
theorem check_agrees_with_add {d : Disk} {dir : Text} {files : List Text} (proper : d.root.Proper)
    (isFolder : d.isFolder dir = .ok true) (found : d.moduleFiles dir = .ok files)
    (nonempty : files ≠ []) (verbose : Bool) :
    ∃ texts : List Text, files.map d.readFile = texts.map .ok ∧
      d.checkPath verbose dir =
        { output :=
            (if verbose then utf8 "Found " ++ ofNat files.length ++ utf8 " JavaScript files in " ++
              dir ++ utf8 "\n\n"
              else []) ++
            ((files.zip texts).filter fun file => verbose || isMisread file.2).flatMap
              (fun file => fileLine file.1 file.2) ++
            (utf8 "Checked " ++ ofNat files.length ++ utf8 " files" ++
              Disk.countPart (texts.countP lacksBlock) " without a declaration block" ++
              Disk.countPart (texts.countP isMisread) " with errors" ++ [lf])
          failure :=
            if texts.countP isMisread = 0 then none
            else some (.brokenFiles (texts.countP isMisread)) } ∧
      ∀ text ∈ texts, lf ∉ verdict text ∧
        ∀ (im : Importer) (symbol : Text) (s : Session), s.buffer = Buffer.ofText text →
          ((im.addDependency symbol s).1.map Importer.Addition.outcome = .ok .malformedBlock ↔
              isMisread text = true) ∧
            ((im.addDependency symbol s).1.map Importer.Addition.outcome = .ok .blockNotFound ↔
              lacksBlock text = true) := by
  obtain ⟨texts, reads⟩ := Disk.exists_texts (Disk.exists_readFile proper isFolder found)
  refine ⟨texts, reads, ?_, ?_⟩
  · obtain ⟨first, rest, rfl⟩ := List.exists_cons_of_ne_nil nonempty
    rw [Disk.checkPath, isFolder, found]
    simp only [Disk.checkFiles_of_read reads]
    cases verbose <;> simp
  · intro text _
    exact ⟨lf_notMem_verdict text, fun im symbol s opened => Importer.outcome_iff opened⟩

def misaligned : Text := utf8 "sap.ui.define(['a/B'], function () {});"

/-- A folder with a file whose block is misaligned, a sound one and one without a
block, and an unreadable block in a folder that is left out. -/
def mixedFolder : Disk where
  root := .folder (utf8 "app")
    (.file (utf8 "Bad.js") misaligned
      (.file (utf8 "Good.js") (utf8 "sap.ui.define([], function () {});")
        (.file (utf8 "Plain.js") (utf8 "var x;")
          (.folder (utf8 "dist") (.file (utf8 "Out.js") (utf8 "sap.ui.define([") .nil) .nil)))) .nil
  workingDir := []

theorem check_agrees_with_add_mixed :
    mixedFolder.checkPath false (utf8 "app") =
        ⟨utf8 "app/Bad.js: declaration block has different dependency and parameter counts\n" ++
            utf8 "Checked 3 files, 1 without a declaration block, 1 with errors\n",
            some (.brokenFiles 1)⟩ ∧
      (Importer.searchless.addDependency (utf8 "B") ⟨Buffer.ofText misaligned, [], [],
        []⟩).1.map
        Importer.Addition.outcome = .ok .malformedBlock := by
  have proper : mixedFolder.root.Proper := by decide
  have isFolder : mixedFolder.isFolder (utf8 "app") = .ok true := by decide
  have found : mixedFolder.moduleFiles (utf8 "app") =
      .ok [utf8 "app/Bad.js", utf8 "app/Good.js", utf8 "app/Plain.js"] := by decide
  obtain ⟨texts, reads, report, agree⟩ :=
    check_agrees_with_add proper isFolder found (by simp) false
  have contents :
      texts = [misaligned, utf8 "sap.ui.define([], function () {});", utf8 "var x;"] := by
    have exact :
        [utf8 "app/Bad.js", utf8 "app/Good.js", utf8 "app/Plain.js"].map mixedFolder.readFile =
        [misaligned, utf8 "sap.ui.define([], function () {});", utf8 "var x;"].map .ok := by decide
    exact List.map_injective_iff.mpr (fun _ _ => Except.ok.inj) (reads.symm.trans exact)
  subst contents
  have misread : isMisread misaligned = true := by decide +kernel
  refine ⟨?_, ((agree misaligned (by simp)).2 _ _ _ rfl).1.mpr misread⟩
  rw [report]
  decide +kernel

end ModuleDeps
