import ModuleDeps.Block.Entries
import ModuleDeps.Block.Grammar
import ModuleDeps.Block.InsertPoint
import ModuleDeps.Proofs.Block.Comment
import ModuleDeps.Proofs.Text.Blank
import ModuleDeps.Proofs.Text.Lines
import ModuleDeps.Proofs.Text.Occurrence

/-!
# Reading the entries of a list

The entries of a text are those of its lines, one after the other.  A comma at
the end of a line adds no entry, and carriage returns at the ends of lines do
not show once the entries are trimmed.

An entry is fit to be written when it stays one piece: it holds no comma, line
feed or comment, leaves no quote open and is not changed by trimming.  A fit
entry put behind a text is read as a further entry, unless it ends up in a
comment (`takesEntry`).
-/

set_option autoImplicit false

namespace ModuleDeps

open Text

/-! ## Cutting at commas -/

theorem splitFrom_byte (sep : UInt8) (t piece : Text) :
    splitFrom [sep] 0 piece t = (splitAt sep t).modifyHead (piece.reverse ++ ·) := by
  induction t generalizing piece with
  | nil => simp [splitFrom, splitAt]
  | cons b t ih =>
      rw [splitFrom, splitAt]
      by_cases isSep : b = sep
      · have here : [sep].isPrefixOf (b :: t) = true := by simp [isSep]
        rw [if_pos here, if_pos isSep, List.length_singleton, ih]
        obtain ⟨first, more, cut⟩ := List.exists_cons_of_ne_nil (splitAt_ne_nil sep t)
        simp [cut]
      · have notHere : ¬ [sep].isPrefixOf (b :: t) = true := by simp [Ne.symm isSep]
        rw [if_neg notHere, if_neg isSep, ih]
        obtain ⟨first, more, cut⟩ := List.exists_cons_of_ne_nil (splitAt_ne_nil sep t)
        simp [cut]

theorem splitOn_byte (sep : UInt8) (t : Text) : Text.splitOn t [sep] = splitAt sep t := by
  rw [Text.splitOn, if_neg (by simp), splitFrom_byte]
  obtain ⟨first, more, cut⟩ := List.exists_cons_of_ne_nil (splitAt_ne_nil sep t)
  simp [cut]

theorem splitAt_append_of_notMem {sep : UInt8} {more : Text} (apart : sep ∉ more) :
    ∀ (t : Text) {init : List Text} {last : Text}, splitAt sep t = init ++ [last] →
      splitAt sep (t ++ more) = init ++ [last ++ more] := by
  intro t
  induction t with
  | nil =>
      intro init last cut
      obtain ⟨rfl, rfl⟩ : init = [] ∧ last = [] := by
        cases init with
        | nil => simpa [splitAt, eq_comm] using cut
        | cons p init => simp [splitAt] at cut
      simpa using splitAt_of_notMem apart
  | cons b t ih =>
      intro init last cut
      obtain ⟨first, pieces, pieceCut⟩ := List.exists_cons_of_ne_nil (splitAt_ne_nil sep t)
      rw [splitAt, pieceCut] at cut
      rw [List.cons_append, splitAt]
      by_cases isSep : b = sep
      · rw [if_pos isSep] at cut ⊢
        cases init with
        | nil => simp at cut
        | cons p init =>
            obtain ⟨rfl, rest⟩ := List.cons.inj cut
            rw [ih (pieceCut.trans rest)]
            rfl
      · rw [if_neg isSep] at cut ⊢
        cases init with
        | nil =>
            obtain ⟨rfl, rfl⟩ : b :: first = last ∧ pieces = [] := by simpa using cut
            have inLast : splitAt sep (t ++ more) = [] ++ [first ++ more] := ih pieceCut
            rw [inLast]
            rfl
        | cons p init =>
            obtain ⟨rfl, rest⟩ := List.cons.inj cut
            have rest' : first :: pieces = (first :: init) ++ [last] := by
              rw [rest]
              rfl
            rw [ih (pieceCut.trans rest')]
            rfl

theorem exists_splitAt_concat (sep : UInt8) (t : Text) :
    ∃ init last, splitAt sep t = init ++ [last] :=
  ⟨_, _, (List.dropLast_concat_getLast (splitAt_ne_nil sep t)).symm⟩

/-! ## Comments among pieces -/

theorem isComment_iff {t : Text} :
    isComment t = true ↔ ∃ s u, Blanks s ∧ t = s ++ (lineComment ++ u) := by
  rw [isComment, startsWith, List.isPrefixOf_iff_prefix]
  constructor
  · rintro ⟨u, cut⟩
    obtain ⟨s, w, lead, -, whole⟩ := exists_trim t
    exact ⟨s, u ++ w, lead, by rw [whole, ← cut, List.append_assoc]⟩
  · rintro ⟨s, u, lead, rfl⟩
    have start : trimStart (s ++ (lineComment ++ u)) = lineComment ++ u := by
      rw [trimStart, dropRuns_append prefixFree_blank lead]
      exact trimStart_of_visible (by decide) _
    obtain ⟨w, tail, cut⟩ := exists_trimEnd (lineComment ++ u)
    rw [trim, start]
    -- The slashes are visible, so they are not among the blanks trimmed from the end.
    have slashFree : slash ∉ w := tail.notMem_of_visible (by decide)
    cases ends : trimEnd (lineComment ++ u) with
    | nil =>
        rw [ends, List.nil_append] at cut
        exact absurd (by simp [← cut, lineComment]) slashFree
    | cons a rest =>
        rw [ends] at cut
        cases rest with
        | nil =>
            have : lineComment.tail ++ u = w := by simpa [lineComment] using congrArg List.tail cut
            exact absurd (by simp [← this, lineComment]) slashFree
        | cons b rest =>
            have firsts : slash = a ∧ slash = b := by
              simp [lineComment] at cut
              exact ⟨cut.1, cut.2.1⟩
            exact ⟨rest, by simp [lineComment, ← firsts.1, ← firsts.2]⟩

theorem isComment_append {t : Text} (comment : isComment t = true) (more : Text) :
    isComment (t ++ more) = true := by
  obtain ⟨s, u, lead, rfl⟩ := isComment_iff.mp comment
  exact isComment_iff.mpr ⟨s, u ++ more, lead, by simp⟩

theorem isComment_of_blanks {t : Text} (blank : Blanks t) : isComment t = false := by
  rw [isComment, trim_eq_nil_iff.mpr blank]
  rfl

/-! ## Lines -/

theorem lineEntries_comma (line : Text) :
    lineEntries [comma] line =
      (splitAt comma (if isComment line then line else stripComment line)).filter isEntry := by
  simp only [lineEntries, splitOn_byte]

theorem splitEntries_append_lf (s t : Text) :
    splitEntries (s ++ lf :: t) [comma] = splitEntries s [comma] ++ splitEntries t [comma] := by
  simp [splitEntries, splitAt_append_sep]

theorem splitEntries_of_notMem {s : Text} (apart : lf ∉ s) :
    splitEntries s [comma] = lineEntries [comma] s := by
  simp [splitEntries, splitAt_of_notMem apart]

theorem isEntry_nil : isEntry [] = false := by
  rw [isEntry, isBlank_iff.mpr Runs.nil]
  rfl

/-- Whether a line is all comment shows in front of any byte that is visible
and no slash. -/
theorem isComment_append_of_code {line : Text} (code : isComment line = false) {a : UInt8}
    (visible : isVisible a = true) (notSlash : a ≠ slash) (more : Text) :
    isComment (line ++ a :: more) = false := by
  by_contra comment
  rw [Bool.not_eq_false, isComment_iff] at comment
  obtain ⟨s, u, lead, cut⟩ := comment
  rcases List.append_eq_append_iff.mp cut with ⟨v, leadCut, restCut⟩ | ⟨v, lineCut, restCut⟩
  · -- The byte lies among the blanks, or right behind them.
    cases v with
    | nil => exact notSlash (by simpa [lineComment] using congrArg List.head? restCut)
    | cons b v =>
        have same : a = b := by simpa using congrArg List.head? restCut
        exact lead.notMem_of_visible visible (by simp [leadCut, same])
  · cases v with
    | nil => exact notSlash (by simpa [lineComment, eq_comm] using congrArg List.head? restCut)
    | cons b v =>
        cases v with
        | nil =>
            have second : slash = b ∧ slash = a ∧ u = more := by
              simpa [lineComment] using restCut
            exact notSlash second.2.1.symm
        | cons c v =>
            have starts : lineComment <+: b :: c :: v := by
              refine List.prefix_of_prefix_length_le ⟨u, restCut⟩
                (List.prefix_append _ (a :: more)) ?_
              simp [lineComment]
            obtain ⟨w, starts⟩ := starts
            have : isComment line = true :=
              isComment_iff.mpr ⟨s, w, lead, by rw [starts, lineCut]⟩
            rw [this] at code
            cases code

theorem lineEntries_append_comma (line : Text) :
    lineEntries [comma] (line ++ [comma]) = lineEntries [comma] line := by
  have cutMore (t : Text) :
      (splitAt comma (t ++ [comma])).filter isEntry = (splitAt comma t).filter isEntry := by
    rw [splitAt_append_sep, List.filter_append]
    simp [splitAt, isEntry_nil]
  rw [lineEntries_comma, lineEntries_comma]
  cases comment : isComment line with
  | true =>
      rw [isComment_append comment]
      simpa using cutMore line
  | false =>
      rw [isComment_append_of_code comment (by decide) (by decide)]
      simp only [Bool.false_eq_true, if_false]
      by_cases code : stripComment line = line
      · have longer : stripComment (line ++ [comma]) = line ++ [comma] :=
          codeFrom_append_of_code none line [comma] code (by decide) (by decide)
        rw [longer, code, cutMore]
      · have same : stripComment (line ++ [comma]) = stripComment line :=
          codeFrom_append_of_comment none line [comma] code
        rw [same]

/-! ## A further entry -/

/-- What can be written into a list as one entry. -/
structure Fit (entry : Text) : Prop where
  commaFree : comma ∉ entry
  lfFree : lf ∉ entry
  start : entry.head? ≠ some slash
  trimmed : ∀ {s u : Text}, Blanks s → Blanks u → trim (s ++ (entry ++ u)) = entry
  closed : ∀ more, codeFrom none (entry ++ more) = entry ++ codeFrom none more
  inked : ∃ a ∈ entry, ∀ t, Blanks t → a ∉ t
  ends : ∀ b ∈ entry.getLast?, Buffer.isLineBlank b = false

/-- Whether text put behind a line without entries is read as an entry. -/
def takesEntry (line : Text) : Bool :=
  if isComment line then !isComment ((splitAt comma line).getLastD []) else stripComment
    line == line

theorem stripComment_of_isComment {line : Text} (comment : isComment line = true) :
    stripComment line ≠ line := by
  obtain ⟨s, u, lead, rfl⟩ := isComment_iff.mp comment
  rw [stripComment_append_plain (plain_of_blanks lead)]
  intro same
  have empty : stripComment (lineComment ++ u) = [] :=
    codeFrom_comment (by decide) (by simp [lineComment])
  rw [empty] at same
  simp [lineComment] at same

theorem isComment_of_code {line : Text} (code : stripComment line = line) :
    isComment line = false := by
  by_contra comment
  exact stripComment_of_isComment (by simpa using comment) code

/-- The start of a comment lies in a line or behind all of its code. -/
theorem stripComment_of_isComment_append {line more : Text}
    (comment : isComment (line ++ more) = true) (code : isComment line = false) :
    stripComment line = line := by
  obtain ⟨s, u, lead, cut⟩ := isComment_iff.mp comment
  rcases List.append_eq_append_iff.mp cut with ⟨v, leadCut, -⟩ | ⟨v, lineCut, restCut⟩
  · have plain : ∀ b ∈ line, isQuote b = false ∧ b ≠ slash := by
      intro b member
      exact plain_of_blanks lead b (by simp [leadCut, member])
    exact stripComment_of_plain plain
  · have plain := plain_of_blanks lead
    cases v with
    | nil =>
        rw [List.append_nil] at lineCut
        rw [lineCut]
        exact stripComment_of_plain plain
    | cons b v =>
        cases v with
        | nil =>
            have first : slash = b ∧ slash :: u = more := by simpa [lineComment] using restCut
            rw [lineCut, stripComment_append_plain plain, ← first.1]
            rfl
        | cons c v =>
            have starts : lineComment <+: b :: c :: v := by
              refine List.prefix_of_prefix_length_le ⟨u, restCut⟩ (List.prefix_append _ more) ?_
              simp [lineComment]
            obtain ⟨w, starts⟩ := starts
            have : isComment line = true :=
              isComment_iff.mpr ⟨s, w, lead, by rw [starts, lineCut]⟩
            rw [this] at code
            cases code

theorem isEntry_eq_false_iff {piece : Text} :
    isEntry piece = false ↔ Blanks piece ∨ isComment piece = true := by
  rw [isEntry, Bool.and_eq_false_iff, Bool.not_eq_false', Bool.not_eq_false', isBlank_iff]

theorem lineEntries_of_blanks {line : Text} (blank : Blanks line) :
    lineEntries [comma] line = [] := by
  have apart : comma ∉ line := blank.notMem_of_visible (by decide)
  rw [lineEntries_comma, isComment_of_blanks blank, if_neg (by simp), stripComment_of_blanks blank,
    splitAt_of_notMem apart]
  simp [isEntry_eq_false_iff.mpr (Or.inl blank)]

theorem blanks_of_lineEntries_eq_nil {line : Text} (code : stripComment line = line)
    (none : lineEntries [comma] line = []) : ∀ p ∈ splitAt comma line, Blanks p := by
  have notComment := isComment_of_code code
  rw [lineEntries_comma, notComment, if_neg (by simp), code, List.filter_eq_nil_iff] at none
  have noEntry : ∀ p ∈ splitAt comma line, Blanks p ∨ isComment p = true := by
    intro p member
    exact isEntry_eq_false_iff.mp (by simpa using none p member)
  clear none notComment
  -- Going from comma to comma, a comment would have been cut off.
  induction size : line.length using Nat.strong_induction_on generalizing line with
  | _ n ih =>
      by_cases hasComma : comma ∈ line
      · obtain ⟨p, rest, rfl, pApart⟩ := List.eq_append_cons_of_mem hasComma
        rw [splitAt_append_sep, splitAt_of_notMem pApart] at noEntry ⊢
        have pBlank : Blanks p := by
          rcases noEntry p (by simp) with blank | comment
          · exact blank
          · exact absurd (stripComment_of_append code) (stripComment_of_isComment comment)
        have restCode : stripComment rest = rest := by
          have plain : ∀ b ∈ p ++ [comma], isQuote b = false ∧ b ≠ slash := by
            intro b member
            rcases List.mem_append.mp member with member | member
            · exact plain_of_blanks pBlank b member
            · rw [List.mem_singleton.mp member]
              decide
          have split := stripComment_append_plain plain rest
          rw [List.append_assoc, List.singleton_append, code] at split
          simpa using split.symm
        intro x member
        rcases List.mem_append.mp member with member | member
        · rw [List.mem_singleton.mp member]
          exact pBlank
        · exact ih rest.length (by rw [← size]; simp; omega) restCode
            (fun q qMember => noEntry q (by simp [qMember])) rfl x member
      · rw [splitAt_of_notMem hasComma] at noEntry ⊢
        intro x member
        rw [List.mem_singleton.mp member]
        rcases noEntry line (by simp) with blank | comment
        · exact blank
        · exact absurd code (stripComment_of_isComment comment)

section Further

variable {entry : Text} (fit : Fit entry)
include fit

theorem Fit.ne_nil : entry ≠ [] := by
  obtain ⟨a, member, -⟩ := fit.inked
  exact List.ne_nil_of_mem member

theorem Fit.isEntry_around {s u : Text} (lead : Blanks s) (tail : Blanks u) :
    isEntry (s ++ (entry ++ u)) = true := by
  have trimmed := fit.trimmed lead tail
  have notBlank : ¬ Blanks (s ++ (entry ++ u)) := by
    rw [← trim_eq_nil_iff, trimmed]
    exact fit.ne_nil
  have notComment : ¬ isComment (s ++ (entry ++ u)) = true := by
    rw [isComment, trimmed, startsWith, List.isPrefixOf_iff_prefix]
    rintro ⟨rest, cut⟩
    exact fit.start (by simp [← cut, lineComment])
  rw [isEntry, isBlank_eq_false_iff.mpr notBlank, Bool.eq_false_iff.mpr notComment]
  rfl

theorem Fit.pieces_append {line u : Text} (tail : Blanks u)
    (none : (splitAt comma line).filter isEntry = []) :
    ((splitAt comma (line ++ (entry ++ u))).filter isEntry).map trim =
      if isComment ((splitAt comma line).getLastD []) then [] else [entry] := by
  obtain ⟨init, last, cut⟩ := exists_splitAt_concat comma line
  have apart : comma ∉ entry ++ u := by
    simp [fit.commaFree, tail.notMem_of_visible (by decide : isVisible comma = true)]
  rw [cut, List.filter_append, List.append_eq_nil_iff] at none
  rw [splitAt_append_of_notMem apart line cut, cut, List.filter_append, none.1]
  have lastPiece : (init ++ [last]).getLastD [] = last := by simp
  rw [lastPiece]
  cases comment : isComment last with
  | true =>
      have absorbed : isEntry (last ++ (entry ++ u)) = false :=
        isEntry_eq_false_iff.mpr (Or.inr (isComment_append comment _))
      simp [absorbed]
  | false =>
      have lastBlank : Blanks last := by
        have noEntry : isEntry last = false := by simpa using none.2
        rcases isEntry_eq_false_iff.mp noEntry with blank | isCommentLast
        · exact blank
        · rw [comment] at isCommentLast
          cases isCommentLast
      simp [fit.isEntry_around lastBlank tail, fit.trimmed lastBlank tail]

/-- A fit entry behind a line without entries is the only one, or is lost in a
comment. -/
theorem Fit.lineEntries_append {line u : Text} (none : lineEntries [comma] line = [])
    (tail : Blanks u) :
    (lineEntries [comma] (line ++ (entry ++ u))).map trim =
      if takesEntry line then [entry] else [] := by
  rw [lineEntries_comma]
  cases comment : isComment line with
  | true =>
      have whole : (splitAt comma line).filter isEntry = [] := by
        simpa [lineEntries_comma, comment] using none
      rw [isComment_append comment, if_pos rfl, fit.pieces_append tail whole, takesEntry,
        if_pos comment]
      cases isComment ((splitAt comma line).getLastD []) <;> rfl
  | false =>
      by_cases code : stripComment line = line
      · have blank := blanks_of_lineEntries_eq_nil code none
        have plain : ∀ b ∈ line, isQuote b = false ∧ b ≠ slash := by
          intro b member
          by_cases isComma : b = comma
          · rw [isComma]
            decide
          · obtain ⟨p, pMember, bMember⟩ := exists_mem_splitAt isComma member
            exact plain_of_blanks (blank p pMember) b bMember
        have longer : stripComment (line ++ (entry ++ u)) = line ++ (entry ++ u) := by
          have tailCode : codeFrom Option.none u = u := stripComment_of_blanks tail
          rw [stripComment_append_plain plain, stripComment, fit.closed, tailCode]
        have notComment : isComment (line ++ (entry ++ u)) = false := by
          by_cases hasComma : comma ∈ line
          · obtain ⟨p, rest, rfl, pApart⟩ := List.eq_append_cons_of_mem hasComma
            have pBlank : Blanks p :=
              blank p (by simp [splitAt_append_sep, splitAt_of_notMem pApart])
            rw [List.append_assoc, List.cons_append]
            exact isComment_append_of_code (isComment_of_blanks pBlank) (by decide) (by decide) _
          · have lineBlank : Blanks line := blank line (by simp [splitAt_of_notMem hasComma])
            have isOne := fit.isEntry_around lineBlank tail
            rw [isEntry, Bool.and_eq_true, Bool.not_eq_true', Bool.not_eq_true'] at isOne
            exact isOne.2
        have noEntry : (splitAt comma line).filter isEntry = [] := by
          simpa [lineEntries_comma, comment, code] using none
        have lastBlank : Blanks ((splitAt comma line).getLastD []) := by
          rw [List.getLastD_eq_getLast?, List.getLast?_eq_some_getLast (splitAt_ne_nil comma line)]
          exact blank _ (List.getLast_mem _)
        rw [notComment, if_neg (by simp), longer, fit.pieces_append tail noEntry,
          isComment_of_blanks lastBlank]
        simp [takesEntry, comment, code]
      · have notComment : isComment (line ++ (entry ++ u)) = false := by
          by_contra longComment
          exact code (stripComment_of_isComment_append (by simpa using longComment) comment)
        have same : stripComment (line ++ (entry ++ u)) = stripComment line :=
          codeFrom_append_of_comment Option.none line _ code
        rw [lineEntries_comma, comment, if_neg (by simp)] at none
        rw [notComment, if_neg (by simp), same, none]
        simp [takesEntry, comment, code]

theorem Fit.lineEntries_own {s u : Text} (lead : Blanks s) (tail : Blanks u) :
    (lineEntries [comma] (s ++ (entry ++ u))).map trim = [entry] := by
  have code : stripComment s = s := stripComment_of_blanks lead
  have takes : takesEntry s = true := by simp [takesEntry, isComment_of_blanks lead, code]
  rw [fit.lineEntries_append (lineEntries_of_blanks lead) tail, if_pos takes]

end Further

/-! ## Blanks at the end of a line -/

theorem isEntry_append_blank {c : UInt8} (word : isBlank1 c = true) (piece : Text) :
    isEntry (piece ++ [c]) = isEntry piece := by
  simp only [isEntry, isBlank, isComment, trim_append_blank word]

/-- A blank behind a line adds nothing to what is seen of its entries, whatever
that is, when a blank behind an entry does not. -/
theorem lineEntries_append_blank {α : Type} {view : Text → α} {c : UInt8}
    (word : isBlank1 c = true) (unseen : ∀ t, view (t ++ [c]) = view t) (line : Text) :
    (lineEntries [comma] (line ++ [c])).map view = (lineEntries [comma] line).map view := by
  have pieces (t : Text) : ((splitAt comma (t ++ [c])).filter isEntry).map view =
      ((splitAt comma t).filter isEntry).map view := by
    obtain ⟨init, last, cut⟩ := exists_splitAt_concat comma t
    have apart : comma ∉ [c] := by
      intro isComma
      rw [← List.mem_singleton.mp isComma] at word
      cases word
    rw [splitAt_append_of_notMem apart t cut, cut, List.filter_append, List.filter_append,
      List.map_append, List.map_append]
    congr 1
    by_cases lastEntry : isEntry last = true
    · have longEntry : isEntry (last ++ [c]) = true := by rw [isEntry_append_blank word, lastEntry]
      simp [lastEntry, longEntry, unseen]
    · have longEntry : ¬ isEntry (last ++ [c]) = true := by
        rw [isEntry_append_blank word]; exact lastEntry
      simp [lastEntry, longEntry]
  have sameKind : isComment (line ++ [c]) = isComment line := by
    simp only [isComment, trim_append_blank word]
  rw [lineEntries_comma, lineEntries_comma, sameKind]
  cases isComment line with
  | true => simpa using pieces line
  | false =>
      by_cases code : stripComment line = line
      · have notSlash : slash ∉ [c] := by
          intro isSlash
          rw [← List.mem_singleton.mp isSlash] at word
          cases word
        have longer : stripComment (line ++ [c]) = line ++ [c] :=
          codeFrom_append_of_code none line [c] code
            (fun isSlash => notSlash (List.mem_of_mem_head? isSlash))
            fun occurs => notSlash (occurs.subset (by decide))
        simpa [longer, code] using pieces line
      · have same : stripComment (line ++ [c]) = stripComment line :=
          codeFrom_append_of_comment none line [c] code
        simp [same]

/-- Texts whose lines differ by carriage returns at their ends show the same of
their entries. -/
theorem splitEntries_congr {α : Type} {view : Text → α}
    (unseen : ∀ t, view (t ++ [cr]) = view t) {s t : Text}
    (same : (splitAt lf s).map chomp = (splitAt lf t).map chomp) :
    (splitEntries s [comma]).map view = (splitEntries t [comma]).map view := by
  have chomped (line : Text) :
      (lineEntries [comma] (chomp line)).map view = (lineEntries [comma] line).map view :=
    eq_of_chomp_eq (f := fun line => (lineEntries [comma] line).map view)
      (lineEntries_append_blank (by decide) unseen) (chomp_idem line)
  have byLine (u : Text) : (splitEntries u [comma]).map view =
      ((splitAt lf u).map chomp).flatMap fun line => (lineEntries [comma] line).map view := by
    rw [splitEntries, List.map_flatMap, List.flatMap_map]
    exact List.flatMap_congr fun line _ => (chomped line).symm
  rw [byLine, byLine, same]

/-! ## Indentation -/

theorem blanks_filter {t : Text} (blank : Blanks t) :
    Blanks (t.filter fun b => b != cr && b != lf) := by
  have wide {a : UInt8} (high : ¬ a < 0x80) : (a != cr && a != lf) = true := by
    rw [Bool.and_eq_true, bne_iff_ne, bne_iff_ne]
    constructor
    · rintro rfl
      exact high (by decide)
    · rintro rfl
      exact high (by decide)
  induction blank with
  | nil => exact Runs.nil
  | one word _ ih =>
      rw [List.filter_cons]
      split
      · exact Runs.one word ih
      · exact ih
  | two word _ ih =>
      have high := isBlank2_not_lt word
      simp only [List.filter_cons, wide high.1, wide high.2, if_true]
      exact Runs.two word ih
  | three word _ ih =>
      have high := isBlank3_not_lt word
      simp only [List.filter_cons, wide high.1, wide high.2.1, wide high.2.2, if_true]
      exact Runs.three word ih

/-- What the indentation of a list depends on in an entry: nothing when it is a
comment, and the white space in front of it otherwise. -/
def indentOf? (entry : Text) : Option Text :=
  if isComment entry then none
  else
    some (match indexOf? entry.trim entry with
      | some i => (entry.take i).filter fun b => b != cr && b != lf
      | none => [])

theorem indentOf?_append_cr (entry : Text) : indentOf? (entry ++ [cr]) = indentOf? entry := by
  have kind : isComment (entry ++ [cr]) = isComment entry := by
    simp only [isComment, trim_append_cr]
  rw [indentOf?, indentOf?, kind, trim_append_cr]
  cases core : entry.trim with
  | nil => cases entry <;> simp [indexOf?]
  | cons a rest =>
      obtain ⟨s, u, -, -, cut⟩ := exists_trim entry
      have occurs : a :: rest <:+: entry := ⟨s, u, by rw [← core, List.append_assoc, ← cut]⟩
      obtain ⟨i, found⟩ :=
        Option.isSome_iff_exists.mp ((contains_iff_isInfix (List.cons_ne_nil a rest) entry).mpr
          occurs)
      obtain ⟨lead, tail, leadCut, rfl, -⟩ := indexOf?_spec found
      have front : (entry ++ [cr]).take lead.length = entry.take lead.length := by
        rw [List.take_append_of_le_length]
        simp [leadCut]
      simp only [indexOf?_append_of_some (List.cons_ne_nil a rest) [cr] found, found, front]

theorem filler_eq (entries : List Text) :
    filler entries = ((entries.map indentOf?).findSome? id).getD [] := by
  induction entries with
  | nil => rfl
  | cons entry rest ih =>
      rw [filler, List.map_cons, indentOf?]
      cases isComment entry with
      | true => simpa using ih
      | false => rfl

theorem filler_spec : ∀ {entries : List Text},
    (∀ e ∈ entries, ∃ a, (trim e).head? = some a ∧ isVisible a = true) →
      Blanks (filler entries) ∧ lf ∉ filler entries := by
  intro entries
  induction entries with
  | nil => exact fun _ => ⟨Runs.nil, by simp [filler]⟩
  | cons e entries ih =>
      intro visible
      rw [filler]
      split
      · exact ih fun x member => visible x (by simp [member])
      · obtain ⟨a, starts, aVisible⟩ := visible e (by simp)
        obtain ⟨s, u, lead, -, cut⟩ := exists_trim e
        obtain ⟨rest, core⟩ : ∃ rest, trim e = a :: rest := List.head?_eq_some_iff.mp starts
        -- The first byte of the entry is not among the blanks in front of it.
        have found : indexOf? (trim e) e = some s.length := by
          conv_lhs => arg 2; rw [cut]
          rw [core]
          exact indexOf?_of_notMem (lead.notMem_of_visible aVisible) u
        have front : e.take s.length = s := by
          conv_lhs => rw [cut]
          exact List.take_left
        simp only [found, front]
        exact ⟨blanks_filter lead, by simp⟩

end ModuleDeps
