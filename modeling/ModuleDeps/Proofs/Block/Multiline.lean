import ModuleDeps.Proofs.Block.Tidy

/-!
# Blocks over several lines

The usual way to write a block: each list starts on the line behind its opening
delimiter, with one entry a line, and the line of the closing delimiter holds
only blanks in front of it.  Lines may be blank, hold a comment only, or end in
one.  A `Multiline` block is such a text with its entries known; it is read as
these entries, and edits made from that reading add exactly one literal and one
name (`multiline_readBack`).
-/

set_option autoImplicit false

namespace ModuleDeps

open Text

/-! ## Ends of lines -/

def isPad (a : UInt8) : Bool := a == space || a == tab

theorem isLineBlank_of_isPad {a : UInt8} (pad : isPad a = true) : Buffer.isLineBlank a = true := by
  rw [isPad, Bool.or_eq_true, beq_iff_eq, beq_iff_eq] at pad
  rcases pad with rfl | rfl <;> decide

theorem blanks_of_isPad {t : Text} (pad : ∀ a ∈ t, isPad a = true) : Blanks t :=
  Buffer.blanks_of_isLineBlank fun a member => isLineBlank_of_isPad (pad a member)

structure IsLine (line : Text) : Prop where
  apart : lf ∉ line
  ends : line.getLast? ≠ some cr

instance (line : Text) : Decidable (IsLine line) :=
  decidable_of_iff (lf ∉ line ∧ line.getLast? ≠ some cr)
    ⟨fun both => ⟨both.1, both.2⟩, fun isLine => ⟨isLine.apart, isLine.ends⟩⟩

theorem IsLine.append {s t : Text} (first : IsLine s) (second : IsLine t) : IsLine (s ++ t) where
  apart := by simp [first.apart, second.apart]
  ends := by
    rw [List.getLast?_append]
    cases last : t.getLast? with
    | none => exact first.ends
    | some a =>
        have ends := second.ends
        rw [last] at ends
        exact ends

theorem isLine_of_pad {t : Text} (pad : ∀ a ∈ t, isPad a = true) : IsLine t where
  apart member := absurd (pad lf member) (by decide)
  ends last := absurd (pad cr (List.mem_of_getLast? last)) (by decide)

theorem Fit.isLine {entry : Text} (fit : Fit entry) : IsLine entry where
  apart := fit.lfFree
  ends last := absurd (fit.ends cr last) (by decide)

/-- Spaces and tabs, and the comment behind them if there is one. -/
structure Trail where
  pad : Text
  comment : Option Text
deriving DecidableEq, Repr

namespace Trail

def text (t : Trail) : Text := t.pad ++ t.comment.elim [] (lineComment ++ ·)

/-- Within a line, and without the delimiter that closes the list. -/
structure Fits (closer : UInt8) (t : Trail) : Prop where
  pad : ∀ a ∈ t.pad, isPad a = true
  line : ∀ words ∈ t.comment, IsLine words
  unclosed : ∀ words ∈ t.comment, closer ∉ words

instance (closer : UInt8) (t : Trail) : Decidable (t.Fits closer) :=
  decidable_of_iff (t.pad.all isPad = true ∧ (∀ words ∈ t.comment, IsLine words) ∧
      ∀ words ∈ t.comment, closer ∉ words)
    ⟨fun all => ⟨List.all_eq_true.mp all.1, all.2.1, all.2.2⟩,
      fun fits => ⟨List.all_eq_true.mpr fits.pad, fits.line, fits.unclosed⟩⟩

def Commaless (t : Trail) : Prop := ∀ words ∈ t.comment, comma ∉ words

instance (t : Trail) : Decidable t.Commaless :=
  inferInstanceAs (Decidable (∀ words ∈ t.comment, comma ∉ words))

section Fits

variable {closer : UInt8} {t : Trail} (fits : t.Fits closer)
include fits

theorem Fits.blank : ∀ a ∈ t.pad, Buffer.isLineBlank a = true :=
  fun a member => isLineBlank_of_isPad (fits.pad a member)

theorem Fits.isLine : IsLine t.text := by
  have pad := isLine_of_pad fits.pad
  have slashes : IsLine lineComment := ⟨by decide, by decide⟩
  cases given : t.comment with
  | none => simpa [text, given] using pad
  | some words =>
      rw [text, given]
      exact pad.append (slashes.append (fits.line words given))

theorem Fits.stripComment : stripComment t.text = t.pad := by
  cases given : t.comment with
  | none =>
      have whole : t.text = t.pad := by simp [text, given]
      rw [whole, stripComment_of_blanks (blanks_of_isPad fits.pad)]
  | some words =>
      rw [text, given]
      exact Buffer.stripComment_blank_comment fits.blank words

theorem Fits.notMem (visible : isVisible closer = true) (notSlash : closer ≠ slash) :
    closer ∉ t.text := by
  have noPad : closer ∉ t.pad := (blanks_of_isPad fits.pad).notMem_of_visible visible
  cases given : t.comment with
  | none => simpa [text, given] using noPad
  | some words =>
      have noWords := fits.unclosed words given
      simp [text, given, lineComment, noPad, notSlash, noWords]

theorem Fits.lineEntries (commaless : t.Commaless) : lineEntries [comma] t.text = [] := by
  have blank := blanks_of_isPad fits.pad
  cases given : t.comment with
  | none =>
      have whole : t.text = t.pad := by simp [text, given]
      rw [whole, lineEntries_of_blanks blank]
  | some words =>
      have spelled : t.text = t.pad ++ (lineComment ++ words) := by rw [text, given]; rfl
      have comment : isComment t.text = true := isComment_iff.mpr ⟨t.pad, words, blank, spelled⟩
      have apart : comma ∉ t.text := by
        have noPad : comma ∉ t.pad := blank.notMem_of_visible (by decide)
        have noSlash : comma ∉ lineComment := by decide
        simp [spelled, noPad, noSlash, commaless words given]
      rw [lineEntries_comma, if_pos comment, splitAt_of_notMem apart]
      simp [isEntry_eq_false_iff.mpr (Or.inr comment)]

end Fits

end Trail

/-! ## Lines of a list -/

/-- One line of a list: without code, or with one entry. -/
inductive ListLine
  | idle (trail : Trail)
  | entry (indent core : Text) (comma : Bool) (trail : Trail)
deriving DecidableEq, Repr

namespace ListLine

def text : ListLine → Text
  | .idle trail => trail.text
  | .entry indent core comma trail =>
    indent ++ (core ++ ((if comma then [Text.comma] else []) ++ trail.text))

def core? : ListLine → Option Text
  | .idle _ => none
  | .entry _ core _ _ => some core

/-- Comments hold commas only behind an entry. -/
def Fits (closer : UInt8) (IsCore : Text → Prop) : ListLine → Prop
  | .idle trail => trail.Fits closer ∧ trail.Commaless
  | .entry indent core _ trail =>
    (∀ a ∈ indent, isPad a = true) ∧ IsCore core ∧ trail.Fits closer

theorem stripComment_entry {core indent : Text} (fit : Fit core)
    (indentPad : ∀ a ∈ indent, isPad a = true) (comma : Bool) {closer : UInt8} {trail : Trail}
    (trailFits : trail.Fits closer) :
    stripComment (entry indent core comma trail).text =
      indent ++ core ++ (if comma then [Text.comma] else []) ++ trail.pad := by
  have commaPlain : ∀ a ∈ (if comma then [Text.comma] else [] : Text), isQuote a = false ∧
      a ≠ slash := by
    cases comma <;> decide +kernel
  have coreCode (more : Text) : stripComment (core ++ more) = core ++ stripComment more :=
    fit.closed more
  rw [text, stripComment_append_plain (plain_of_blanks (blanks_of_isPad indentPad)), coreCode,
    stripComment_append_plain commaPlain, trailFits.stripComment]
  simp

section Fits

variable {closer : UInt8} {IsCore : Text → Prop}
  (cores : ∀ core, IsCore core → Fit core ∧ closer ∉ core) {line : ListLine}
  (fits : line.Fits closer IsCore)
include cores fits

theorem isLine_text : IsLine line.text := by
  cases line with
  | idle trail => exact fits.1.isLine
  | entry indent core comma trail =>
      obtain ⟨indentPad, isCore, trailFits⟩ := fits
      have ends : IsLine (if comma then [Text.comma] else []) := by
        cases comma
        · exact ⟨by decide, by decide⟩
        · exact ⟨by decide, by decide⟩
      exact (isLine_of_pad indentPad).append
        ((cores core isCore).1.isLine.append (ends.append trailFits.isLine))

theorem notMem_text (visible : isVisible closer = true) (notSlash : closer ≠ slash)
    (notComma : closer ≠ Text.comma) : closer ∉ line.text := by
  cases line with
  | idle trail => exact fits.1.notMem visible notSlash
  | entry indent core comma trail =>
      obtain ⟨indentPad, isCore, trailFits⟩ := fits
      have noIndent : closer ∉ indent := (blanks_of_isPad indentPad).notMem_of_visible visible
      have noComma : closer ∉ (if comma then [Text.comma] else [] : Text) := by
        cases comma <;> simp [notComma]
      simp only [text, List.mem_append, not_or]
      exact ⟨noIndent, (cores core isCore).2, noComma, trailFits.notMem visible notSlash⟩

theorem lineEntries_text : (lineEntries [Text.comma] line.text).map trim = line.core?.toList := by
  cases line with
  | idle trail =>
      rw [text, fits.1.lineEntries fits.2]
      rfl
  | entry indent core comma trail =>
      obtain ⟨indentPad, isCore, trailFits⟩ := fits
      have fit := (cores core isCore).1
      have code := stripComment_entry fit indentPad comma trailFits
      have notComment : isComment (entry indent core comma trail).text = false := by
        by_contra comment
        obtain ⟨a, member, foreign⟩ := fit.inked
        have blank := blanks_of_isComment (by simpa using comment)
        rw [code] at blank
        exact foreign _ blank (by simp [member])
      have own := fit.lineEntries_own (blanks_of_isPad indentPad) Runs.nil
      rw [List.append_nil] at own
      rw [lineEntries_strip notComment, code, lineEntries_append_blanks trailFits.blank]
      cases comma with
      | true =>
          rw [if_pos rfl, lineEntries_append_comma]
          exact own
      | false =>
          rw [if_neg (by simp), List.append_nil]
          exact own

theorem core?_eq_none_iff : line.core? = none ↔ Blanks (stripComment line.text) := by
  cases line with
  | idle trail =>
      rw [text, fits.1.stripComment]
      exact iff_of_true rfl (blanks_of_isPad fits.1.pad)
  | entry indent core comma trail =>
      obtain ⟨indentPad, isCore, trailFits⟩ := fits
      have fit := (cores core isCore).1
      rw [stripComment_entry fit indentPad comma trailFits]
      obtain ⟨a, member, foreign⟩ := fit.inked
      exact iff_of_false (fun none => nomatch none) fun blank => foreign _ blank (by simp [member])

end Fits

end ListLine

/-! ## Whole lists -/

/-- A list over several lines: the end of the line that opens it, its lines, and
what stands in front of the closing delimiter. -/
structure LineList where
  opening : Trail
  lines : List ListLine
  indent : Text
deriving DecidableEq, Repr

namespace LineList

/-- The end of the opening line counts as a line without code. -/
def rows (L : LineList) : List ListLine := .idle L.opening :: L.lines

def inner (L : LineList) : Text := stacked (L.rows.map ListLine.text) ++ L.indent

def entries (L : LineList) : List Text := L.lines.filterMap ListLine.core?

structure Fits (closer : UInt8) (IsCore : Text → Prop) (L : LineList) : Prop where
  rows : ∀ row ∈ L.rows, row.Fits closer IsCore
  indent : ∀ a ∈ L.indent, isPad a = true

theorem Fits.isCore {closer : UInt8} {IsCore : Text → Prop} {L : LineList}
    (fits : L.Fits closer IsCore) :
    ∀ core ∈ L.entries, IsCore core := by
  intro core member
  obtain ⟨line, lineMember, given⟩ := List.mem_filterMap.mp member
  have lineFits := fits.rows line (List.mem_cons_of_mem _ lineMember)
  cases line with
  | idle trail => cases given
  | entry indent core' comma trail =>
      obtain rfl := Option.some.inj given
      exact lineFits.2.1

section Fits

variable {closer : UInt8} {IsCore : Text → Prop}
  (cores : ∀ core, IsCore core → Fit core ∧ closer ∉ core) {L : LineList}
  (fits : L.Fits closer IsCore)
include cores fits

theorem isLine_rows : ∀ l ∈ L.rows.map ListLine.text, IsLine l := by
  intro l member
  obtain ⟨row, rowMember, rfl⟩ := List.mem_map.mp member
  exact ListLine.isLine_text cores (fits.rows row rowMember)

theorem splitAt_inner : splitAt lf L.inner = L.rows.map ListLine.text ++ [L.indent] := by
  rw [inner, splitAt_stacked fun l member => (isLine_rows cores fits l member).apart,
    splitAt_of_notMem (isLine_of_pad fits.indent).apart]

theorem lastLine_append_inner (t : Text) : lastLine (t ++ L.inner) = L.indent := by
  have within : lf ∈ L.inner := by simp [inner, rows]
  rw [lastLine_append_of_mem within, inner,
    lastLine_stacked (fun l member => (isLine_rows cores fits l member).apart)
      (isLine_of_pad fits.indent).apart]

theorem notMem_inner (visible : isVisible closer = true) (notSlash : closer ≠ slash)
    (notComma : closer ≠ comma) (notLf : closer ≠ lf) : closer ∉ L.inner := by
  have noIndent : closer ∉ L.indent := (blanks_of_isPad fits.indent).notMem_of_visible visible
  have noRow : closer ∉ stacked (L.rows.map ListLine.text) := by
    rw [stacked, List.mem_flatMap]
    rintro ⟨l, member, inLine⟩
    obtain ⟨row, rowMember, rfl⟩ := List.mem_map.mp member
    have noText := ListLine.notMem_text cores (fits.rows row rowMember) visible notSlash notComma
    simp [noText, notLf] at inLine
  simp [inner, noRow, noIndent]

theorem splitEntries_inner : (splitEntries L.inner [comma]).map trim = L.entries := by
  have byRow : ∀ rows : List ListLine, (∀ row ∈ rows, row.Fits closer IsCore) →
      ((rows.map ListLine.text).flatMap (lineEntries [comma])).map trim =
        rows.filterMap ListLine.core? := by
    intro rows
    induction rows with
    | nil => exact fun _ => rfl
    | cons row rows ih =>
        intro rowFits
        have first := ListLine.lineEntries_text cores (rowFits row (by simp))
        have later := ih fun other member => rowFits other (by simp [member])
        rw [List.map_cons, List.flatMap_cons, List.map_append, first, later]
        cases given : row.core? <;> simp [given]
  have all := byRow L.rows fits.rows
  rw [inner, splitEntries_stacked (fun l member => (isLine_rows cores fits l member).apart)
    (isLine_of_pad fits.indent).apart, lineEntries_of_blanks (blanks_of_isPad fits.indent),
      List.append_nil, all]
  rfl

theorem tidy_inner : Tidy L.inner where
  opening := by
    have first : (splitAt lf L.inner).headD [] = L.opening.text := by
      rw [splitAt_inner cores fits]
      rfl
    have opened : (ListLine.idle L.opening).Fits closer IsCore := fits.rows _ List.mem_cons_self
    rw [first, opened.1.stripComment]
    exact opened.1.blank
  idle l member blank := by
    rw [splitAt_inner cores fits] at member
    rcases List.mem_append.mp member with member | member
    · obtain ⟨row, rowMember, rfl⟩ := List.mem_map.mp member
      have rowFits := fits.rows row rowMember
      have entries := ListLine.lineEntries_text cores rowFits
      rw [(ListLine.core?_eq_none_iff cores rowFits).mpr blank] at entries
      simpa using entries
    · rw [List.mem_singleton.mp member]
      exact lineEntries_of_blanks (blanks_of_isPad fits.indent)
  comma l member ends := by
    have code := not_blanks_of_endsWithComma ends
    rw [blanks_lineCode_iff] at code
    rw [splitAt_inner cores fits] at member
    rcases List.mem_append.mp member with member | member
    · obtain ⟨row, rowMember, rfl⟩ := List.mem_map.mp member
      have rowFits := fits.rows row rowMember
      have entries := ListLine.lineEntries_text cores rowFits
      cases given : row.core? with
      | none => exact absurd ((ListLine.core?_eq_none_iff cores rowFits).mp given) code
      | some core =>
          intro none
          rw [none, given] at entries
          cases entries
    · rw [List.mem_singleton.mp member] at code
      have blank := blanks_of_isPad fits.indent
      rw [stripComment_of_blanks blank] at code
      exact absurd blank code

end Fits

/-- A list over several lines as it stands in a buffer, opened on a line without
quotes and slashes. -/
structure Held (L : LineList) (IsCore : Text → Prop) (b : Buffer) (lead : Text)
    (opener closer : UInt8)
    (tail : Text) : Prop where
  cores : ∀ core, IsCore core → Fit core ∧ closer ∉ core
  fits : L.Fits closer IsCore
  holds : b.lines = splitAt lf (lead ++ opener :: L.inner ++ closer :: tail)
  plain : ∀ a ∈ lastLine lead ++ [opener], isQuote a = false ∧ a ≠ slash
  openVisible : isVisible opener = true
  openCode : opener ≠ comma
  closeLine : closer ≠ lf
  closeCode : closer ≠ slash ∧ isQuote closer = false

section Held

variable {IsCore : Text → Prop} {L : LineList} {b : Buffer} {lead tail : Text}
  {opener closer : UInt8} (held : L.Held IsCore b lead opener closer tail)
include held

theorem Held.openLine : opener ≠ lf := by
  intro isLf
  have visible := held.openVisible
  rw [isLf] at visible
  cases visible

theorem Held.not_commented : ¬ b.Commented (Position.after lead) :=
  Buffer.not_commented_opener held.holds held.plain held.openVisible

theorem Held.blanks_before :
    Blanks (b.lineBefore (Position.after (lead ++ opener :: L.inner))) := by
  have spelled : lead ++ opener :: L.inner = lead ++ [opener] ++ L.inner := by simp
  rw [Buffer.lineBefore_lastLine held.holds, spelled, lastLine_append_inner held.cores held.fits]
  exact blanks_of_isPad held.fits.indent

variable {E : EntryList} (scanned : b.Scanned lead opener L.inner E)
include scanned

theorem Held.before_insert : (Position.after lead).Before E.insert := by
  have stands := Buffer.stands_after held.closeLine held.holds
  exact scanned.behind_of_code held.holds held.openVisible held.not_commented held.closeLine
    held.closeCode
    (Buffer.not_commented_of_blanks stands held.closeCode held.blanks_before)

theorem Held.entries : E.entries.map trim = L.entries := by
  obtain ⟨body, R, read⟩ := scanned.exists_readTo (held.before_insert scanned) held.openLine
  rw [read.entries_of_tidy held.plain held.openLine (tidy_inner held.cores held.fits),
    splitEntries_inner held.cores held.fits]

variable {body R : Text} (read : b.ReadTo lead opener L.inner body R E)
include read

theorem Held.rest_ne_nil : R ≠ [] := by
  rintro rfl
  refine scanned.insert_ne_close held.holds held.openVisible held.not_commented
    held.blanks_before ?_
  rw [read.insert, read.cut, List.append_nil]

theorem Held.takes : splitEntries body [comma] ≠ [] ∨ takesEntry (lastLine body) = true := by
  have notBlank : Buffer.isLineBlank opener = false := by
    by_contra blank
    have notOne := isVisible.not_one held.openVisible
    rw [Buffer.isBlank1_of_isLineBlank (by simpa using blank)] at notOne
    cases notOne
  exact read.takes_of_tidy held.plain held.openLine (tidy_inner held.cores held.fits)
    (held.rest_ne_nil scanned read) held.openCode notBlank

end Held

end LineList

/-! ## Blocks -/

/-- A literal without its own quote, escapes, commas and closing brackets. -/
inductive PlainLiteral : Text → Prop
  | mk {q : UInt8} {body : Text} : q = squote ∨ q = dquote → q ∉ body →
      backslash ∉ body → comma ∉ body →
      0x5D ∉ body → lf ∉ body → PlainLiteral (q :: (body ++ [q]))

theorem PlainLiteral.fit {core : Text} (literal : PlainLiteral core) :
    Fit core ∧ 0x5D ∉ core := by
  cases literal with
  | mk quote closed unescaped commaFree bracketFree lfFree =>
      refine ⟨fit_quoted quote closed unescaped commaFree lfFree, ?_⟩
      rcases quote with rfl | rfl
      · simp [bracketFree, squote]
      · simp [bracketFree, dquote]

theorem PlainLiteral.isLiteral {core : Text} (literal : PlainLiteral core) :
    isLiteral core = true := by
  cases literal with
  | mk quote closed unescaped _ _ _ => exact isLiteral_quoted quote closed unescaped

theorem fit_of_isIdentifier {name : Text} (identifier : isIdentifier name = true) :
    Fit name ∧ 0x29 ∉ name := by
  have spelled := spelled_of_isIdentifier identifier
  exact ⟨fit_spelled spelled (nameBytes_of_isIdentifier identifier).1,
    spelled.notMem (by decide) (by decide)⟩

/-- A document with a block over several lines.  Whether an entry has its comma
does not matter for reading it. -/
structure Multiline where
  front : List Text
  deps : LineList
  params : LineList
  /-- What follows the parameters. -/
  rest : Text
  front_line : ∀ l ∈ front, IsLine l
  front_bare : ∀ l ∈ front, l.contains defineMarker = false
  deps_fits : deps.Fits 0x5D PlainLiteral
  params_fits : params.Fits 0x29 fun name => isIdentifier name = true
  aligned : params.entries.length = deps.entries.length

theorem exists_cutLines_append {t : Text} (line : IsLine t) (more : Text) :
    ∃ more', cutLines (t ++ more) = splitAt lf (t ++ more') := by
  obtain ⟨y, below, yApart, wholeBelow, rfl⟩ := exists_hung more
  refine ⟨dropCr y ++ hung (below.map dropCr), ?_⟩
  have first : dropCr (t ++ y) = t ++ dropCr y := by
    cases last : y.getLast? with
    | none =>
        rw [List.getLast?_eq_none_iff.mp last, List.append_nil, dropCr_of_getLast? line.ends]
        simp [dropCr]
    | some a =>
        obtain ⟨init, rfl⟩ := List.getLast?_eq_some_iff.mp last
        by_cases isCr : a = cr
        · rw [isCr, ← List.append_assoc, dropCr_concat, dropCr_concat]
        · rw [dropCr_of_getLast? (by simpa using isCr), dropCr_of_getLast? (by simpa using isCr)]
  have apart : lf ∉ t ++ y := by simp [line.apart, yApart]
  have apart' : lf ∉ t ++ dropCr y := by
    rw [← first]
    exact fun member => apart (dropCr_subset _ member)
  have wholeBelow' : ∀ l ∈ below.map dropCr, lf ∉ l := by
    intro l member
    obtain ⟨l', member', rfl⟩ := List.mem_map.mp member
    exact fun inLine => wholeBelow l' member' (dropCr_subset l' inLine)
  rw [← List.append_assoc, cutLines, splitAt_hung apart wholeBelow, ← List.append_assoc,
    splitAt_hung apart' wholeBelow', List.map_cons, first]

theorem cutLines_lines (ending : LineEnding) {lines : List Text}
    (isLine : ∀ l ∈ lines, IsLine l) (t : Text) :
    cutLines (lines.flatMap (· ++ ending.bytes) ++ t) = lines ++ cutLines t := by
  induction lines with
  | nil => rfl
  | cons l lines ih =>
      have line := isLine l (by simp)
      have later := ih fun l' member => isLine l' (by simp [member])
      rw [cutLines] at later
      cases ending with
      | lf =>
          have spelled : (l :: lines).flatMap (· ++ LineEnding.lf.bytes) ++ t =
              l ++ lf :: (lines.flatMap (· ++ LineEnding.lf.bytes) ++ t) := by
            simp [LineEnding.bytes]
          rw [cutLines, spelled, splitAt_append_sep, splitAt_of_notMem line.apart,
            List.map_append, later]
          simp [dropCr_of_getLast? line.ends]
      | crlf =>
          have spelled : (l :: lines).flatMap (· ++ LineEnding.crlf.bytes) ++ t =
              (l ++ [cr]) ++ lf :: (lines.flatMap (· ++ LineEnding.crlf.bytes) ++ t) := by
            simp [LineEnding.bytes]
          have apart : lf ∉ l ++ [cr] := by
            have distinct : lf ≠ cr := by decide
            simp [line.apart, distinct]
          rw [cutLines, spelled, splitAt_append_sep, splitAt_of_notMem apart,
            List.map_append, later]
          simp [dropCr_concat]

namespace Multiline

def lines (m : Multiline) : List Text :=
  m.front ++ ((utf8 "sap.ui.define([" ++ m.deps.opening.text) :: m.deps.lines.map ListLine.text ++
    (m.deps.indent ++ (utf8 "], function (" ++ m.params.opening.text)) ::
      m.params.lines.map ListLine.text)

def text (m : Multiline) (ending : LineEnding) : Text :=
  m.lines.flatMap (· ++ ending.bytes) ++ (m.params.indent ++ (utf8 ") \x7b" ++ m.rest))

section Located

variable (m : Multiline)

theorem isLine_lines : ∀ l ∈ m.lines, IsLine l := by
  have deps := LineList.isLine_rows (fun _ => PlainLiteral.fit) m.deps_fits
  have params := LineList.isLine_rows (fun _ => fit_of_isIdentifier) m.params_fits
  have opening : IsLine (utf8 "sap.ui.define([") := ⟨by decide, by decide⟩
  have middle : IsLine (utf8 "], function (") := ⟨by decide, by decide⟩
  intro l member
  simp only [lines, List.mem_append, List.mem_cons, or_assoc] at member
  rcases member with member | rfl | member | rfl | member
  · exact m.front_line l member
  · exact opening.append (deps _ (by simp [LineList.rows, ListLine.text]))
  · exact deps l (by simp only [LineList.rows, List.map_cons, List.mem_cons, member, or_true])
  · exact (isLine_of_pad m.deps_fits.indent).append
      (middle.append (params _ (by simp [LineList.rows, ListLine.text])))
  · exact params l (by simp only [LineList.rows, List.map_cons, List.mem_cons, member, or_true])

def frame (tail : Text) : Frame where
  front := stacked m.front
  head := utf8 "("
  deps := m.deps.inner
  gap := utf8 ", "
  neck := utf8 " "
  params := m.params.inner
  tail := tail
  marker_first := by
    have bare : ∀ l ∈ m.front, indexOf? defineMarker l = none := by
      intro l member
      simpa [Text.contains] using m.front_bare l member
    have start : Leads defineMarker [] := by
      unfold Leads
      decide
    have leads :=
      (leads_stacked_iff marker_ne_nil.1 marker_ne_nil.2.1 m.front []).mpr ⟨bare, start⟩
    rwa [List.append_nil] at leads
  head_open := by decide
  deps_close :=
    LineList.notMem_inner (fun _ => PlainLiteral.fit) m.deps_fits (by decide) (by decide)
      (by decide)
    (by decide)
  factory_first := by
    unfold Leads
    decide
  neck_open := by decide
  params_close :=
    LineList.notMem_inner (fun _ => fit_of_isIdentifier) m.params_fits (by decide) (by decide)
    (by decide) (by decide)

theorem text_frame (tail : Text) : (m.frame (utf8 " \x7b" ++ tail)).text =
    stacked m.lines ++ (m.params.indent ++ utf8 ") \x7b" ++ tail) := by
  have opening : utf8 "sap.ui.define([" = defineMarker ++ (utf8 "(" ++ [0x5B]) := by decide
  have middle : utf8 "], function (" =
      0x5D :: (utf8 ", " ++ (factoryMarker ++ (utf8 " " ++ [0x28]))) := by decide
  have closing : utf8 ") \x7b" = 0x29 :: utf8 " \x7b" := by decide
  simp [frame, Frame.text, Frame.paramsLead, Frame.factoryLead, Frame.depsLead, lines, opening,
    middle, closing, LineList.inner, LineList.rows, ListLine.text]

theorem exists_holds (ending : LineEnding) :
    ∃ tail, (Buffer.ofText (m.text ending)).lines = splitAt lf (m.frame tail).text := by
  have closing : IsLine (m.params.indent ++ utf8 ") \x7b") :=
    (isLine_of_pad m.params_fits.indent).append ⟨by decide, by decide⟩
  obtain ⟨tail, cut⟩ := exists_cutLines_append closing m.rest
  refine ⟨utf8 " \x7b" ++ tail, ?_⟩
  show cutLines (m.text ending) = _
  rw [text, cutLines_lines ending m.isLine_lines, ← List.append_assoc, cut, m.text_frame,
    splitAt_stacked fun l member => (m.isLine_lines l member).apart]

theorem plain_deps (tail : Text) : ∀ a ∈ lastLine (m.frame tail).depsLead ++ [0x5B],
    isQuote a = false ∧ a ≠ slash := by
  have line : lastLine (m.frame tail).depsLead = defineMarker ++ utf8 "(" :=
    lastLine_stacked (fun l member => (m.front_line l member).apart)
      (by decide : lf ∉ defineMarker ++ utf8 "(")
  rw [line]
  decide +kernel

theorem plain_params (tail : Text) : ∀ a ∈ lastLine (m.frame tail).paramsLead ++ [0x28],
    isQuote a = false ∧ a ≠ slash := by
  have cut : (m.frame tail).paramsLead = (m.frame tail).depsLead ++ [0x5B] ++ m.deps.inner ++
      (0x5D :: (utf8 ", " ++ (factoryMarker ++ utf8 " "))) := by
    simp [frame, Frame.paramsLead, Frame.factoryLead]
  have line : lastLine (m.frame tail).paramsLead =
      m.deps.indent ++ 0x5D :: (utf8 ", " ++ (factoryMarker ++ utf8 " ")) := by
    rw [cut, lastLine_append_of_notMem (by decide),
      LineList.lastLine_append_inner (fun _ => PlainLiteral.fit) m.deps_fits]
  have words : ∀ a ∈ 0x5D :: (utf8 ", " ++ (factoryMarker ++ utf8 " ")) ++ [0x28],
      isQuote a = false ∧ a ≠ slash := by
    decide +kernel
  rw [line, List.append_assoc]
  intro a member
  rcases List.mem_append.mp member with inIndent | behind
  · exact plain_of_blanks (blanks_of_isPad m.deps_fits.indent) a inIndent
  · exact words a behind

theorem checkEntries_entries : checkEntries m.deps.entries m.params.entries = .ok () := by
  rw [checkEntries_eq_ok_iff]
  exact ⟨fun e member => (m.deps_fits.isCore e member).isLiteral, m.params_fits.isCore,
    m.aligned⟩

section Held

variable {m} {b : Buffer} {tail : Text} (holds : b.lines = splitAt lf (m.frame tail).text)
include holds

theorem held_deps : m.deps.Held PlainLiteral b (m.frame tail).depsLead 0x5B 0x5D
    ((m.frame tail).gap ++ (factoryMarker ++
      ((m.frame tail).neck ++ 0x28 :: (m.params.inner ++ 0x29 :: tail)))) where
  cores _ := PlainLiteral.fit
  fits := m.deps_fits
  holds := (m.frame tail).text_eq_depsTail ▸ holds
  plain := m.plain_deps tail
  openVisible := by decide
  openCode := by decide
  closeLine := by decide
  closeCode := by decide

theorem held_params :
    m.params.Held (fun name => isIdentifier name = true) b (m.frame tail).paramsLead 0x28 0x29
    tail where
  cores _ := fit_of_isIdentifier
  fits := m.params_fits
  holds := (m.frame tail).text_eq_paramsTail ▸ holds
  plain := m.plain_params tail
  openVisible := by decide
  openCode := by decide
  closeLine := by decide
  closeCode := by decide

theorem exists_located (stamp : UInt64) :
    ∃ d, locate b stamp = .ok d ∧ d.kind = .bracketedFactory ∧
    d.dependencies = m.deps.entries ∧ d.parameters = m.params.entries ∧ b.Placed d := by
  obtain ⟨deps, params, depsScanned, paramsScanned, read⟩ :=
    locate_frame (m.frame tail) holds stamp
  have depsEntries := (held_deps holds).entries depsScanned
  have paramsEntries := (held_params holds).entries paramsScanned
  have clear : onlySeparators (b.withEnding (m.frame tail).gap) = true := by
    have gap : (m.frame tail).gap = utf8 ", " := rfl
    rw [gap, Buffer.withEnding_of_notMem b (by decide)]
    decide +kernel
  obtain ⟨q, -, quoteFound, -⟩ :=
    quoteOf_spec (checkEntries_eq_ok_iff.mp m.checkEntries_entries).1
  refine ⟨describe stamp deps params [q], ?_, rfl, depsEntries, paramsEntries, ?_⟩
  · rw [read, report_eq_ok_iff, depsEntries, paramsEntries]
    exact ⟨clear, m.checkEntries_entries, [q], quoteFound, rfl⟩
  · intro found delimited
    rw [delimited.unique (delimited_frame _ holds)]
    exact ⟨(held_deps holds).before_insert depsScanned,
      (held_params holds).before_insert paramsScanned⟩

theorem exists_added {stamp : UInt64} (fits : stamp = 0 ∨ stamp = b.version) {d : Descriptor}
    (located : locate b stamp = .ok d) (placed : b.Placed d) {name path : Text}
    (identifier : isIdentifier name = true) (plain : isPlainPath path = true) :
    ∃ b', b.apply (d.edits b.lineCount name path) = .ok b' ∧
      ∀ stamp', ∃ d', locate b' stamp' = .ok d' ∧
      d'.kind = .bracketedFactory ∧ d'.dependencies = d.dependencies ++ [d.literal path] ∧
      d'.parameters = d.parameters ++ [name] ∧ d'.quote = d.quote := by
  obtain ⟨block, same, depsScanned, paramsScanned⟩ := exists_block_of_frame holds located placed
  have readDeps := block.readDeps
  have readParams := block.readParams
  rw [same] at readDeps readParams
  have takesDeps := (held_deps holds).takes depsScanned readDeps
  have takesParams := (held_params holds).takes paramsScanned readParams
  have takesPath : block.TakesPath := by
    rwa [Block.TakesPath, block.dependencies, ne_eq, List.map_eq_nil_iff,
      readDeps.entries_eq_nil_iff]
  have takesName : block.TakesName := by
    rwa [Block.TakesName, block.parameters, ne_eq, List.map_eq_nil_iff,
      readParams.entries_eq_nil_iff]
  have below : lf ∈ block.between := by
    have some := (held_deps holds).rest_ne_nil depsScanned readDeps
    exact List.mem_append_left _ (readDeps.slack.eq_nil_or_mem.resolve_left some)
  exact ⟨block.edited name path, block.apply_edits fits _ name path,
    block.locate_taken plain identifier takesPath takesName (block.endsAlike_of_below below path)⟩

end Held

end Located

end Multiline

/-- A block over several lines is read as the literals and names written in it,
whatever comments stand around them and with either line end; and an addition
made from that reading is read back behind them. -/
theorem multiline_readBack (m : Multiline) (ending : LineEnding) (stamp : UInt64) :
    ∃ d, locate (Buffer.ofText (m.text ending)) stamp = .ok d ∧ d.kind = .bracketedFactory ∧
      d.dependencies = m.deps.entries ∧ d.parameters = m.params.entries ∧
      ∀ name path, isIdentifier name = true → isPlainPath path = true →
        (stamp = 0 ∨ stamp = (Buffer.ofText (m.text ending)).version) →
        ∃ b, (Buffer.ofText (m.text ending)).apply
            (d.edits (Buffer.ofText (m.text ending)).lineCount name path) = .ok b ∧
          ∀ stamp', ∃ d', locate b stamp' = .ok d' ∧ d'.kind = .bracketedFactory ∧
            d'.dependencies = m.deps.entries ++ [d.literal path] ∧
            d'.parameters = m.params.entries ++ [name] ∧ d'.quote = d.quote := by
  obtain ⟨tail, holds⟩ := m.exists_holds ending
  obtain ⟨d, located, factory, dependencies, parameters, placed⟩ :=
    Multiline.exists_located holds stamp
  refine ⟨d, located, factory, dependencies, parameters, ?_⟩
  intro name path identifier plain fits
  rw [← dependencies, ← parameters]
  exact Multiline.exists_added holds fits located placed identifier plain

def commentedModules : Multiline where
  front := [utf8 "// an example", []]
  deps := ⟨⟨utf8 " ", some (utf8 " paths")⟩, [
      .entry (utf8 "  ") (squote :: (utf8 "a/A" ++ [squote])) true ⟨utf8 " ",
        some (utf8 " first, of two")⟩,
      .idle ⟨[], none⟩,
      .entry (utf8 "\t") (dquote :: (utf8 "http://b/B" ++ [dquote])) false
        ⟨[], some (utf8 " 'second'")⟩,
      .idle ⟨utf8 "  ", some (utf8 " the last")⟩], utf8 " "⟩
  params := ⟨⟨[], none⟩, [
      .entry (utf8 "  ") (utf8 "A") true ⟨[], some []⟩,
      .entry (utf8 "  ") (utf8 "B") true ⟨utf8 " ", some (utf8 " function (")⟩], []⟩
  rest := utf8 "\r\n\x7d);\r\n"
  front_line := by decide
  front_bare := by decide +kernel
  deps_fits := by
    have first : PlainLiteral (squote :: (utf8 "a/A" ++ [squote])) :=
      PlainLiteral.mk (Or.inl rfl) (by decide) (by decide) (by decide) (by decide) (by decide)
    have second : PlainLiteral (dquote :: (utf8 "http://b/B" ++ [dquote])) :=
      PlainLiteral.mk (Or.inr rfl) (by decide) (by decide) (by decide) (by decide) (by decide)
    refine ⟨?_, by decide +kernel⟩
    intro row member
    simp only [LineList.rows, List.mem_cons, List.not_mem_nil, or_false] at member
    rcases member with rfl | rfl | rfl | rfl | rfl
    · exact ⟨by decide +kernel, by decide +kernel⟩
    · exact ⟨by decide +kernel, first, by decide +kernel⟩
    · exact ⟨by decide +kernel, by decide +kernel⟩
    · exact ⟨by decide +kernel, second, by decide +kernel⟩
    · exact ⟨by decide +kernel, by decide +kernel⟩
  params_fits := by
    refine ⟨?_, by decide +kernel⟩
    intro row member
    simp only [LineList.rows, List.mem_cons, List.not_mem_nil, or_false] at member
    rcases member with rfl | rfl | rfl
    · exact ⟨by decide +kernel, by decide +kernel⟩
    · exact ⟨by decide +kernel, by decide +kernel, by decide +kernel⟩
    · exact ⟨by decide +kernel, by decide +kernel, by decide +kernel⟩
  aligned := rfl

/-- A third module is added behind the comments of the second one. -/
theorem multiline_readBack_commentedModules :
    ∃ d b d', locate (Buffer.ofText (commentedModules.text .crlf)) 1 = .ok d ∧
      d.dependencies = [utf8 "'a/A'", utf8 "\"http://b/B\""] ∧
      d.parameters = [utf8 "A", utf8 "B"] ∧
      (Buffer.ofText (commentedModules.text .crlf)).apply
        (d.edits (Buffer.ofText (commentedModules.text .crlf)).lineCount (utf8 "C") (utf8 "c/C")) =
          .ok b ∧
      locate b 2 = .ok d' ∧ d'.parameters = [utf8 "A", utf8 "B", utf8 "C"] := by
  obtain ⟨d, located, -, dependencies, parameters, added⟩ :=
    multiline_readBack commentedModules .crlf 1
  obtain ⟨b, applied, again⟩ :=
    added (utf8 "C") (utf8 "c/C") (by decide) (by decide +kernel) (Or.inr rfl)
  obtain ⟨d', located', -, -, parameters', -⟩ := again 2
  exact ⟨d, b, d', located, dependencies, parameters, applied, located', parameters'⟩

end ModuleDeps
