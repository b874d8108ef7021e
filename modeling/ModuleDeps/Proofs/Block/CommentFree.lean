import ModuleDeps.Proofs.Block.Addition

/-!
# Blocks without comments

Where no line holds `//`, every search for the end of a list ends in the list
(`placed_of_commentFree`) and every entry added is read as one
(`Block.locate_added`).  The edits of such a text leave no `//` behind
(`Block.commentFree_edited`), so this can go on for ever.
-/

set_option autoImplicit false

namespace ModuleDeps

open Text

/-! ## Texts without comments -/

/-- A piece that neither starts nor ends with a slash makes no comment out of
its surroundings. -/
theorem not_infix_insert {A E B : Text} (free : ¬ lineComment <:+: A ++ B)
    (piece : ¬ lineComment <:+: E) (start : E.head? ≠ some slash)
    (ends : E.getLast? ≠ some slash) : ¬ lineComment <:+: A ++ (E ++ B) := by
  have sep {c : UInt8} (code : c ≠ slash) : c ∉ lineComment := by simp [lineComment, code]
  have freeA : ¬ lineComment <:+: A :=
    fun occurs => free (occurs.trans (List.prefix_append A B).isInfix)
  have freeB : ¬ lineComment <:+: B :=
    fun occurs => free (occurs.trans (List.suffix_append A B).isInfix)
  cases E with
  | nil => exact free
  | cons c m =>
      have notStart : c ≠ slash := fun isSlash => start (by simp [isSlash])
      rw [List.cons_append, infix_append_sep_iff (by decide) (sep notStart), not_or]
      refine ⟨freeA, ?_⟩
      cases last : m.getLast? with
      | none =>
          rw [List.getLast?_eq_none_iff.mp last]
          exact freeB
      | some e =>
          obtain ⟨init, rfl⟩ := List.getLast?_eq_some_iff.mp last
          have notEnd : e ≠ slash := by
            rintro rfl
            exact ends (by simp [List.getLast?_cons])
          rw [List.append_assoc, List.singleton_append,
            infix_append_sep_iff (by decide) (sep notEnd), not_or]
          refine ⟨fun occurs => piece (occurs.trans ?_), freeB⟩
          exact ⟨[c], [e], by simp⟩

theorem not_infix_of_notMem {t : Text} (apart : slash ∉ t) : ¬ lineComment <:+: t :=
  fun occurs => apart (occurs.subset (by decide))

theorem takesEntry_of_notComment {line : Text} (free : ¬ lineComment <:+: line) :
    takesEntry line = true := by
  have code := stripComment_of_notComment free
  simp [takesEntry, isComment_of_code code, code]

theorem lastLine_isInfix (t : Text) : lastLine t <:+: t := by
  obtain ⟨above, v, whole, vApart, rfl⟩ := exists_stacked t
  rw [lastLine_stacked whole vApart]
  exact (List.suffix_append _ _).isInfix

theorem not_infix_entryText {entry indent : Text} (fit : Fit entry)
    (free : ¬ lineComment <:+: entry) (ends : entry.getLast? ≠ some slash)
    (indentBlank : Blanks indent) (existing : Nat) (comma : Bool) :
    ¬ lineComment <:+: entryText entry existing comma indent := by
  rw [entryText]
  split
  · exact free
  · have sepApart : slash ∉ (if comma then [] else [Text.comma] : Text) := by
      cases comma <;> decide
    have lead : slash ∉ (if comma then [] else [Text.comma]) ++ [lf] ++ indent := by
      have distinct : slash ≠ lf := by decide
      simp [sepApart, distinct, indentBlank.notMem_of_visible (by decide : isVisible slash = true)]
    have whole :=
      not_infix_insert (B := []) (by simpa using not_infix_of_notMem lead) free fit.start ends
    simpa using whole

theorem entryText_edges {entry indent : Text} (fit : Fit entry)
    (ends : entry.getLast? ≠ some slash) (existing : Nat) (comma : Bool) :
    (entryText entry existing comma indent).head? ≠ some slash ∧
      (entryText entry existing comma indent).getLast? ≠ some slash := by
  rw [entryText]
  split
  · exact ⟨fit.start, ends⟩
  · constructor
    · have distinct : Text.comma ≠ slash ∧ lf ≠ slash := by decide
      cases comma <;> simp [distinct.1, distinct.2]
    · rw [List.getLast?_append]
      cases last : entry.getLast? with
      | none => exact absurd (List.getLast?_eq_none_iff.mp last) fit.ne_nil
      | some c =>
          rw [last] at ends
          exact ends

namespace Buffer

/-- No line holds a comment. -/
def CommentFree (b : Buffer) : Prop := ∀ l ∈ b.lines, ¬ lineComment <:+: l

theorem commentFree_iff {b : Buffer} {t : Text} (holds : b.lines = splitAt lf t) :
    b.CommentFree ↔ ¬ lineComment <:+: t := by
  rw [CommentFree, holds, infix_iff_exists_line (by decide) (by decide)]
  simp

theorem commentFree_of_chomp {b : Buffer} {t : Text}
    (same : b.lines.map chomp = (splitAt lf t).map chomp) (free : ¬ lineComment <:+: t) :
    b.CommentFree := by
  intro l member
  have chomped : chomp l ∈ (splitAt lf t).map chomp := by
    rw [← same]
    exact List.mem_map_of_mem member
  obtain ⟨line, lineMember, lineSame⟩ := List.mem_map.mp chomped
  refine not_infix_of_chomp_eq lineSame fun occurs => free ?_
  exact (infix_iff_exists_line (by decide) (by decide)).mpr ⟨line, lineMember, occurs⟩

theorem commentFree_ofText {t : Text} (free : ¬ lineComment <:+: t) : (ofText t).CommentFree := by
  refine commentFree_of_chomp (t := t) ?_ free
  show (cutLines t).map chomp = (splitAt lf t).map chomp
  rw [cutLines, List.map_map]
  exact List.map_congr_left fun l _ => chomp_dropCr l

theorem CommentFree.stripComment {b : Buffer} (free : b.CommentFree) (n : Nat) :
    stripComment (b.line n) = b.line n := by
  rw [line_natCast, List.getD_eq_getElem?_getD]
  cases here : b.lines[n]? with
  | none => rfl
  | some l => exact stripComment_of_notComment (free l (List.mem_of_getElem? here))

/-! ## Insert points -/

theorem CommentFree.not_commented {b : Buffer} (free : b.CommentFree) {c : UInt8} {p : Position}
    (stands : b.Stands c p) : ¬ b.Commented p := by
  obtain ⟨n, column, rfl, here⟩ := stands
  have inside : column < (b.line n).length := (List.getElem?_eq_some_iff.mp here).1
  simp only [Commented, free.stripComment n]
  omega

theorem CommentFree.behind {b : Buffer} (free : b.CommentFree) {lead inner tail : Text}
    {opener closer : UInt8} {L : EntryList} (scanned : b.Scanned lead opener inner L)
    (holds : b.lines = splitAt lf (lead ++ opener :: inner ++ closer :: tail))
    (openVisible : isVisible opener = true) (openLine : opener ≠ lf) (closeLine : closer ≠ lf)
    (closeCode : closer ≠ slash ∧ isQuote closer = false) :
    (Position.after lead).Before L.insert := by
  have holdsOpen : b.lines = splitAt lf (lead ++ opener :: (inner ++ closer :: tail)) := by
    rw [holds]
    simp
  exact scanned.behind_of_code holds openVisible
    (free.not_commented (stands_after openLine holdsOpen)) closeLine
    closeCode (free.not_commented (stands_after closeLine holds))

end Buffer

theorem placed_of_commentFree {b : Buffer} (whole : b.Whole) (free : b.CommentFree) {stamp : UInt64}
    {d : Descriptor} (located : locate b stamp = .ok d) (factory : d.kind = .bracketedFactory) :
    b.Placed d := by
  obtain ⟨f, holds⟩ := exists_frame whole located factory
  obtain ⟨deps, params, quote, read⟩ := exists_described f holds located
  obtain rfl := read.described
  intro found delimited
  rw [delimited.unique (delimited_frame f holds)]
  exact ⟨free.behind read.depsScanned (f.text_eq_depsTail ▸ holds) (by decide) (by decide)
    (by decide) (by decide),
    free.behind read.paramsScanned (f.text_eq_paramsTail ▸ holds) (by decide) (by decide)
      (by decide) (by decide)⟩

/-! ## Adding without comments -/

namespace Block

section Free

variable {b : Buffer} {stamp : UInt64} {d : Descriptor} (block : Block b stamp d)
  (free : b.CommentFree)

include free in
theorem not_infix_of_infix_text {part : Text} (inside : part <:+: block.frame.text) :
    ¬ lineComment <:+: part :=
  fun occurs => (Buffer.commentFree_iff block.holds).mp free (occurs.trans inside)

include free in
theorem takesPath_of_free : block.TakesPath := by
  have inside : block.depsBody <:+: block.frame.text := by
    refine ⟨block.frame.depsLead ++ [0x5B], block.depsRest ++ block.frame.depsTail, ?_⟩
    rw [block.frame.text_eq_depsTail, block.readDeps.cut]
    simp
  exact Or.inr (takesEntry_of_notComment
    (block.not_infix_of_infix_text free ((lastLine_isInfix _).trans inside)))

include free in
theorem takesName_of_free : block.TakesName := by
  have inside : block.paramsBody <:+: block.frame.text := by
    refine ⟨block.frame.paramsLead ++ [0x28], block.paramsRest ++ 0x29 :: block.frame.tail, ?_⟩
    rw [block.frame.text_eq_paramsTail, block.readParams.cut]
    simp
  exact Or.inr (takesEntry_of_notComment
    (block.not_infix_of_infix_text free ((lastLine_isInfix _).trans inside)))

variable {name path : Text} (plain : isPlainPath path = true) (spelled : Spelled name)
  (nonempty : name ≠ [])

include plain in
theorem writtenPath_spec : ¬ lineComment <:+: block.writtenPath path ∧
    (block.writtenPath path).head? ≠ some slash ∧
    (block.writtenPath path).getLast? ≠ some slash := by
  have fit := fit_literal block.quoteKind plain
  have ends : (block.quote :: (path ++ [block.quote])).getLast? ≠ some slash := by
    rcases block.quoteKind with same | same <;> simp [same, List.getLast?_cons] <;> decide
  exact ⟨not_infix_entryText fit (not_infix_literal block.quoteKind plain) ends
    block.filler_deps.1 _ _, entryText_edges fit ends _ _⟩

include spelled nonempty in
theorem writtenName_spec : ¬ lineComment <:+: block.writtenName name ∧
    (block.writtenName name).head? ≠ some slash ∧
    (block.writtenName name).getLast? ≠ some slash := by
  have fit := fit_spelled spelled nonempty
  have ends : name.getLast? ≠ some slash := by
    intro isSlash
    exact spelled.notMem (by decide : slash < 0x80) (by decide) (List.mem_of_getLast? isSlash)
  exact ⟨not_infix_entryText fit spelled.not_infix ends block.filler_params.1 _ _,
    entryText_edges fit ends _ _⟩

include free plain in
theorem not_infix_withPath :
    ¬ lineComment <:+: block.editedFront path ++
      (block.paramsRest ++ 0x29 :: block.frame.tail) := by
  have spec := block.writtenPath_spec plain
  have before := block.not_infix_of_infix_text free (List.infix_refl _)
  have cut : block.frame.text = block.frame.depsLead ++ 0x5B :: block.depsBody ++
      (block.depsRest ++ block.frame.depsTail) := by
    rw [block.frame.text_eq_depsTail, block.readDeps.cut]
    simp
  rw [cut] at before
  have inserted := not_infix_insert before spec.1 spec.2.1 spec.2.2
  simpa [editedFront, Frame.editedLead, Frame.depsTail, block.readParams.cut] using inserted

include free plain spelled nonempty in
theorem commentFree_edited : (block.edited name path).CommentFree := by
  have spec := block.writtenName_spec spelled nonempty
  have inserted := not_infix_insert (block.not_infix_withPath free plain) spec.1 spec.2.1 spec.2.2
  refine Buffer.commentFree_of_chomp (b.cutLines_withEnding (block.editedText name path)) ?_
  simpa [editedText, editedFront, Frame.editedText] using inserted

include free plain in
theorem endsAlike_of_free : block.EndsAlike path := by
  intro _ r rFree ending
  have restFree : ¬ lineComment <:+: block.paramsRest := by
    refine block.not_infix_of_infix_text free ?_
    refine ⟨block.frame.paramsLead ++ 0x28 :: block.paramsBody, 0x29 :: block.frame.tail, ?_⟩
    rw [block.frame.text_eq_paramsTail, block.readParams.cut]
    simp
  have frontFree : ¬ lineComment <:+: block.frame.paramsLead ++ 0x28 :: block.paramsBody := by
    refine block.not_infix_of_infix_text free ?_
    refine ⟨[], block.paramsRest ++ 0x29 :: block.frame.tail, ?_⟩
    rw [block.frame.text_eq_paramsTail, block.readParams.cut]
    simp
  have editedFree : ¬ lineComment <:+: block.editedFront path := fun occurs =>
    block.not_infix_withPath free plain (occurs.trans (List.prefix_append _ _).isInfix)
  have code :=
    stripComment_of_notComment fun occurs => frontFree (occurs.trans (lastLine_isInfix _))
  have editedCode :=
    stripComment_of_notComment fun occurs => editedFree (occurs.trans (lastLine_isInfix _))
  cases ending with
  | blank _ blank => exact Buffer.Ending.blank editedCode blank
  | @comment w c rest _ cut _ _ => exact absurd ⟨w, c, by simp [cut]⟩ (rFree restFree)
  | inside comment _ _ => exact absurd code comment

include free in
/-- An addition to a block without comments is read back as it was made. -/
theorem locate_added {name path : Text} (plain : isPlainPath path = true)
    (identifier : isIdentifier name = true) (stamp' : UInt64) :
    ∃ d', locate (block.edited name path) stamp' = .ok d' ∧ d'.kind = .bracketedFactory ∧
      d'.dependencies = d.dependencies ++ [d.literal path] ∧
      d'.parameters = d.parameters ++ [name] ∧
      d'.quote = d.quote :=
  block.locate_taken plain identifier (block.takesPath_of_free free) (block.takesName_of_free free)
    (block.endsAlike_of_free free plain) stamp'

end Free

end Block

end ModuleDeps
