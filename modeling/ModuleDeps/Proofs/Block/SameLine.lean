import ModuleDeps.Proofs.Block.Addition

/-!
# Both lists on one line

A path that is added to the first list may stand on the line on which the second
list is opened.  A literal without quotes in it does not change the state of
quoting around it, whether it is put outside or inside of quotes
(`codeFrom_literal`), so that the line ends as before (`Block.endsAlike`).
-/

set_option autoImplicit false

namespace ModuleDeps

open Text

/-! ## The state of quoting -/

/-- Behind a line of code the reading goes on in some state of quoting, unless
the line ends within an escape or the beginning of a comment. -/
theorem exists_quoteState {state : Option UInt8} (quotes : QuoteState state) (t : Text)
    (code : codeFrom state t = t) (ends : ∀ a ∈ t.getLast?, a ≠ slash ∧ a ≠ backslash) :
    ∃ state', QuoteState state' ∧
      ∀ more, codeFrom state (t ++ more) = t ++ codeFrom state' more := by
  cases exists_ends state t with
  | @through _ state' passes => exact ⟨state', passes.quoteState quotes, passes.reads⟩
  | escaping passes => exact absurd rfl (ends backslash (by simp)).2
  | slash passes => exact absurd rfl (ends slash (by simp)).1
  | comment c passes =>
      rw [passes.reads, codeFrom_lineComment, List.append_nil] at code
      simp [lineComment] at code

theorem codeFrom_unquoted {t more : Text} (unquoted : ∀ b ∈ t, isQuote b = false)
    (free : ¬ lineComment <:+: t) (start : more.head? ≠ some slash) :
    codeFrom none (t ++ more) = t ++ codeFrom none more := by
  induction t with
  | nil => rfl
  | cons b t ih =>
      have notQuote : ¬ isQuote b = true := by simp [unquoted b (by simp)]
      have noComment : ¬ lineComment.isPrefixOf (b :: (t ++ more)) = true := by
        rw [lineComment_isPrefixOf_append start, List.isPrefixOf_iff_prefix]
        exact fun starts => free starts.isInfix
      rw [List.cons_append, codeFrom_code notQuote noComment,
        ih (fun c member => unquoted c (by simp [member])) fun occurs =>
          free (List.infix_cons occurs)]
      rfl

theorem codeFrom_literal {q : UInt8} (quote : isQuote q = true) {path : Text}
    (unquoted : ∀ b ∈ path, isQuote b = false) (unescaped : backslash ∉ path)
    (free : ¬ lineComment <:+: path) {state : Option UInt8} (quotes : QuoteState state)
    (more : Text) :
    codeFrom state (q :: (path ++ q :: more)) = q :: (path ++ q :: codeFrom state more) := by
  have closed {c : UInt8} (isQuoteC : isQuote c = true) : c ∉ path := by
    intro member
    rw [unquoted c member] at isQuoteC
    cases isQuoteC
  cases state with
  | none => exact codeFrom_literal_append quote (closed quote) unescaped more
  | some c =>
      have cQuote := quotes c rfl
      by_cases same : q = c
      · -- The first quote ends the quotes around the literal, the second one opens them again.
        subst same
        have notSlash : (q :: more).head? ≠ some slash := by
          rw [List.head?_cons]
          intro isSlash
          obtain rfl := Option.some.inj isSlash
          exact absurd quote (by decide)
        rw [codeFrom_inside (isQuote_ne_backslash quote), if_pos rfl,
          codeFrom_unquoted unquoted free notSlash, codeFrom_quote quote]
      · have apart : c ∉ q :: (path ++ [q]) := by simp [closed cQuote, Ne.symm same]
        have noEscape : backslash ∉ q :: (path ++ [q]) := by
          simp [unescaped, (isQuote_ne_backslash quote).symm]
        have passed := (passes_quoted apart noEscape).reads more
        simpa using passed

/-! ## The line of the second list -/

theorem lastLine_append_of_mem {t more : Text} (member : lf ∈ more) :
    lastLine (t ++ more) = lastLine more := by
  obtain ⟨above, v, whole, vApart, rfl⟩ := exists_stacked more
  cases above with
  | nil => exact absurd member vApart
  | cons l above =>
      obtain ⟨lines, w, wholeLines, wApart, rfl⟩ := exists_stacked t
      have stack : stacked lines ++ w ++ (stacked (l :: above) ++ v) =
          stacked (lines ++ (w ++ l) :: above) ++ v := by
        simp
      have wholeStack : ∀ x ∈ lines ++ (w ++ l) :: above, lf ∉ x := by
        intro x member
        rcases List.mem_append.mp member with member | member
        · exact wholeLines x member
        · rcases List.mem_cons.mp member with rfl | member
          · simp [wApart, whole l (by simp)]
          · exact whole x (by simp [member])
      rw [stack, lastLine_stacked wholeStack vApart, lastLine_stacked whole vApart]

theorem lastLine_append_of_notMem {t more : Text} (apart : lf ∉ more) :
    lastLine (t ++ more) = lastLine t ++ more := by
  obtain ⟨above, v, whole, vApart, rfl⟩ := exists_stacked t
  have longer : lf ∉ v ++ more := by simp [vApart, apart]
  rw [List.append_assoc, lastLine_stacked whole longer, lastLine_stacked whole vApart]

theorem endsWithComma_iff {t : Text} : endsWithComma t = true ↔ t.getLast? = some comma := by
  rw [endsWithComma, endsWith, List.isSuffixOf_iff_suffix, List.getLast?_eq_some_iff]
  constructor
  · rintro ⟨init, cut⟩
    exact ⟨init, cut.symm⟩
  · rintro ⟨init, cut⟩
    exact ⟨init, cut.symm⟩

/-- The comma at the end of a line does not depend on what stands in front of
its last code. -/
theorem endsWithComma_trimmed {x y : Text} (inked : ∃ a ∈ y, Buffer.isLineBlank a = false) :
    endsWithComma ((x ++ y).trimEndWhere Buffer.isLineBlank) =
      endsWithComma (y.trimEndWhere Buffer.isLineBlank) := by
  obtain ⟨a, member, notBlank⟩ := inked
  have stays : y.reverse.dropWhile Buffer.isLineBlank ≠ [] := by
    intro none
    have blank := List.dropWhile_eq_nil_iff.mp none a (List.mem_reverse.mpr member)
    rw [notBlank] at blank
    cases blank
  have cut : (x ++ y).trimEndWhere Buffer.isLineBlank = x ++ y.trimEndWhere Buffer.isLineBlank := by
    rw [trimEndWhere, trimEndWhere, List.reverse_append, List.dropWhile_append,
      if_neg (by simpa using stays)]
    simp
  have nonempty : y.trimEndWhere Buffer.isLineBlank ≠ [] := by simpa [trimEndWhere] using stays
  rw [Bool.eq_iff_iff, endsWithComma_iff, endsWithComma_iff, cut, List.getLast?_append,
    List.getLast?_eq_some_getLast nonempty]
  rfl

section Insert

variable {q : UInt8} (quote : isQuote q = true) {path : Text}
  (unquoted : ∀ b ∈ path, isQuote b = false) (unescaped : backslash ∉ path)
  (free : ¬ lineComment <:+: path)

include quote unquoted unescaped free in
theorem Buffer.Ending.insert_of_code {v M r : Text} (code : stripComment v = v)
    (ending : Buffer.Ending (v ++ 0x5D :: M) r)
    (ends : ∀ a ∈ v.getLast?, a ≠ slash ∧ a ≠ backslash) :
    Buffer.Ending (v ++ q :: (path ++ q :: 0x5D :: M)) r := by
  obtain ⟨state, quotes, reads⟩ := exists_quoteState quoteState_none v code ends
  -- The literal leaves the state of quoting, so the bracket is read as it was before.
  have reads' (more : Text) : stripComment (v ++ q :: (path ++ q :: more)) =
      v ++ q :: (path ++ q :: codeFrom state more) := by
    rw [stripComment, reads, codeFrom_literal quote unquoted unescaped free quotes]
  have bracket : ∃ rest, codeFrom state (0x5D :: M) = 0x5D :: rest := by
    cases state with
    | none =>
        have noComment : ¬ lineComment.isPrefixOf (0x5D :: M) = true := by
          rw [lineComment_isPrefixOf]
          exact fun starts => absurd starts.1 (by decide)
        exact ⟨_, codeFrom_code (by decide) noComment⟩
    | some c => exact ⟨_, codeFrom_inside (by decide) M⟩
  cases ending with
  | blank whole blank =>
      refine Buffer.Ending.blank ?_ blank
      rw [stripComment, reads] at whole
      rw [reads', List.append_cancel_left whole]
  | @comment w c rest wBlank cut whole distinct =>
      refine Buffer.Ending.comment wBlank cut ?_ distinct
      rw [stripComment, List.append_assoc, reads, List.append_assoc] at whole
      have tail := List.append_cancel_left whole
      have spelled : v ++ q :: (path ++ q :: 0x5D :: M) ++ rest =
          v ++ q :: (path ++ q :: (0x5D :: M ++ rest)) := by
        simp
      rw [spelled, reads', tail]
      simp
  | inside comment comma blank =>
      refine Buffer.Ending.inside ?_ ?_ blank
      · rw [reads']
        intro whole
        refine comment ?_
        have tail : codeFrom state (0x5D :: M) = 0x5D :: M := by simpa using whole
        rw [stripComment, reads, tail]
      · obtain ⟨rest, start⟩ := bracket
        have inked : ∃ a ∈ (0x5D :: rest : Text), Buffer.isLineBlank a = false :=
          ⟨0x5D, by simp, by decide⟩
        rw [lineCode, stripComment, reads, start, endsWithComma_trimmed inked] at comma
        have spelled : v ++ q :: (path ++ q :: 0x5D :: rest) =
            v ++ q :: (path ++ [q]) ++ 0x5D :: rest := by
          simp
        rw [lineCode, reads', start, spelled, endsWithComma_trimmed inked, comma]

theorem Buffer.Ending.of_commented {v N N' r : Text} (comment : stripComment v ≠ v)
    (some : N ≠ []) (some' : N' ≠ []) (ending : Buffer.Ending (v ++ N) r) :
    Buffer.Ending (v ++ N') r := by
  have same (more : Text) : stripComment (v ++ more) = stripComment v :=
    codeFrom_append_of_comment none v more comment
  have short : (stripComment v).length ≤ v.length := (stripComment_isPrefix v).length_le
  have longer {more : Text} (nonempty : more ≠ []) : stripComment v ≠ v ++ more := by
    intro whole
    have lengths := congrArg List.length whole
    have positive := List.length_pos_iff.mpr nonempty
    rw [List.length_append] at lengths
    omega
  cases ending with
  | blank whole _ =>
      rw [same] at whole
      exact absurd whole (longer some)
  | comment _ _ whole _ =>
      rw [List.append_assoc, same, List.append_assoc] at whole
      exact absurd whole (longer (by simp [some]))
  | inside _ comma blank =>
      refine Buffer.Ending.inside ?_ ?_ blank
      · rw [same]
        exact longer some'
      · rw [lineCode, same] at comma ⊢
        exact comma

include quote unquoted unescaped free in
theorem Buffer.Ending.insert {v M r : Text} (ending : Buffer.Ending (v ++ 0x5D :: M) r)
    (ends : ∀ a ∈ v.getLast?, a ≠ slash ∧ a ≠ backslash) :
    Buffer.Ending (v ++ q :: (path ++ q :: 0x5D :: M)) r := by
  by_cases code : stripComment v = v
  · exact ending.insert_of_code quote unquoted unescaped free code ends
  · exact ending.of_commented code (by simp) (by simp)

end Insert

/-! ## Lists without entries -/

/-- A line without entries that takes one ends in blanks or with a comma. -/
theorem last_of_takesEntry {line : Text} (none : lineEntries [comma] line = [])
    (takes : takesEntry line = true) :
    ∀ a ∈ line.getLast?, a ≠ slash ∧ a ≠ backslash := by
  intro a last
  have blank : Blanks ((splitAt comma line).getLastD []) := by
    have member : (splitAt comma line).getLastD [] ∈ splitAt comma line := by
      rw [List.getLastD_eq_getLast?, List.getLast?_eq_some_getLast (splitAt_ne_nil comma line)]
      exact List.getLast_mem _
    cases comment : isComment line with
    | true =>
        rw [lineEntries_comma, if_pos comment, List.filter_eq_nil_iff] at none
        rw [takesEntry, if_pos comment, Bool.not_eq_true'] at takes
        have noEntry := none _ member
        rw [Bool.not_eq_true, isEntry_eq_false_iff] at noEntry
        rcases noEntry with blank | isCommentLast
        · exact blank
        · rw [takes] at isCommentLast
          cases isCommentLast
    | false =>
        have code : stripComment line = line := by simpa [takesEntry, comment] using takes
        exact blanks_of_lineEntries_eq_nil code none _ member
  obtain ⟨init, rfl⟩ := List.getLast?_eq_some_iff.mp last
  by_cases isComma : a = comma
  · subst isComma
    decide
  · obtain ⟨pieces, piece, cut⟩ := exists_splitAt_concat comma init
    have apart : comma ∉ [a] := by simp [Ne.symm isComma]
    rw [splitAt_append_of_notMem apart init cut] at blank
    have member : a ∈ (pieces ++ [piece ++ [a]]).getLastD [] := by simp
    constructor
    · rintro rfl
      exact blank.notMem_of_visible (by decide) member
    · rintro rfl
      exact blank.notMem_of_visible (by decide) member

theorem lastLine_mem (t : Text) : lastLine t ∈ splitAt lf t := by
  rw [lastLine, List.getLastD_eq_getLast?, List.getLast?_eq_some_getLast (splitAt_ne_nil lf t)]
  exact List.getLast_mem _

theorem last_of_open {lead body : Text} (none : splitEntries body [comma] = [])
    (takes : takesEntry (lastLine body) = true) :
    ∀ a ∈ (lastLine (lead ++ 0x5B :: body)).getLast?, a ≠ slash ∧ a ≠ backslash := by
  have noEntries : lineEntries [comma] (lastLine body) = [] := by
    rw [splitEntries, List.flatMap_eq_nil_iff] at none
    exact none _ (lastLine_mem body)
  have lastBody := last_of_takesEntry noEntries takes
  have spelled : lead ++ 0x5B :: body = lead ++ [0x5B] ++ body := by simp
  rw [spelled]
  by_cases within : lf ∈ body
  · rw [lastLine_append_of_mem within]
    exact lastBody
  · have whole : lastLine body = body := by
      rw [lastLine, splitAt_of_notMem within]
      rfl
    rw [whole] at lastBody
    rw [lastLine_append_of_notMem within, lastLine_append_of_notMem (by decide)]
    intro a last
    rw [List.getLast?_append] at last
    cases ends : body.getLast? with
    | none =>
        rw [ends] at last
        have isOpen : 0x5B = a := by simpa using last
        subst isOpen
        decide
    | some c =>
        rw [ends] at last
        obtain rfl : c = a := by simpa using last
        exact lastBody c ends

namespace Block

section Between

variable {b : Buffer} {stamp : UInt64} {d : Descriptor} (block : Block b stamp d)

def between : Text :=
  block.depsRest ++ 0x5D ::
    (block.frame.gap ++ (factoryMarker ++ (block.frame.neck ++ 0x28 :: block.paramsBody)))

theorem front_eq : block.frame.paramsLead ++ 0x28 :: block.paramsBody =
    block.frame.depsLead ++ 0x5B :: block.depsBody ++ block.between := by
  simp [Frame.paramsLead, Frame.factoryLead, block.readDeps.cut, between]

theorem editedFront_eq (path : Text) : block.editedFront path =
    block.frame.depsLead ++ 0x5B :: block.depsBody ++
      (block.writtenPath path ++ block.between) := by
  simp [editedFront, Frame.editedLead, between]

/-- A path on a line above the second list leaves the line of that list as it
is. -/
theorem endsAlike_of_below (below : lf ∈ block.between) (path : Text) : block.EndsAlike path := by
  intro _ r _ ending
  rw [front_eq, lastLine_append_of_mem below] at ending
  rw [editedFront_eq, lastLine_append_of_mem (List.mem_append_right _ below),
    lastLine_append_of_mem below]
  exact ending

/-- Adding a path without any quotes leaves the end of the line in front of the
parameters as it was, if the path is read as an entry. -/
theorem endsAlike {path : Text} (plain : isPlainPath path = true) (noBackquote : backquote ∉ path)
    (takes : block.TakesPath) : block.EndsAlike path := by
  by_cases below : lf ∈ block.between
  · exact block.endsAlike_of_below below path
  · intro noParams r _ ending
    have noDeps : d.dependencies = [] := by
      apply List.eq_nil_of_length_eq_zero
      rw [← block.aligned, noParams]
      rfl
    have noEntries : splitEntries block.depsBody [comma] = [] := by
      rw [← block.readDeps.entries_eq_nil_iff, ← List.map_eq_nil_iff (f := trim),
        ← block.dependencies, noDeps]
    have takesLine : takesEntry (lastLine block.depsBody) = true :=
      takes.resolve_left fun some => some noDeps
    have written : block.writtenPath path = block.quote :: (path ++ [block.quote]) := by
      rw [writtenPath, writtenEntry, ← block.dependencies, noDeps]
      rfl
    have noRest : block.depsRest = [] := by
      rcases block.readDeps.slack.eq_nil_or_mem with empty | member
      · exact empty
      · exact absurd (List.mem_append_left _ member) below
    have bothApart : lf ∉ block.writtenPath path ++ block.between := by
      rw [written, List.mem_append, not_or]
      exact ⟨notMem_literal block.quoteKind plain (by decide) (by decide), below⟩
    rw [front_eq, lastLine_append_of_notMem below, between, noRest, List.nil_append] at ending
    rw [editedFront_eq, lastLine_append_of_notMem bothApart, written, between, noRest,
      List.nil_append]
    have isQuoted : isQuote block.quote = true := by
      rcases block.quoteKind with same | same <;> rw [same] <;> decide
    have unquoted : ∀ b ∈ path, isQuote b = false := by
      intro b member
      by_contra quote
      rw [Bool.not_eq_false, isQuote, Bool.or_eq_true, Bool.or_eq_true, beq_iff_eq, beq_iff_eq,
        beq_iff_eq] at quote
      rcases quote with (rfl | rfl) | rfl
      · exact notMem_of_isPlainPath plain (by decide) member
      · exact notMem_of_isPlainPath plain (by decide) member
      · exact noBackquote member
    have inserted := ending.insert isQuoted unquoted (notMem_of_isPlainPath plain (by decide))
      (not_infix_of_isPlainPath plain) (last_of_open noEntries takesLine)
    simpa using inserted

end Between

end Block

end ModuleDeps
