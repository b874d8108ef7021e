import ModuleDeps.Proofs.Block.Frame

/-!
# Where further entries go

A further entry belongs between the delimiters of its list and in front of the
comment of its line; at the end of a line with a comment it may stand only where
it is put on a line of its own (`WellPlaced`).  The delimiters themselves are
searched for without regard to comments, and so the insert point can go astray:
with the closing delimiter in a comment, with no line of code since the opening
one, or behind the comma and the comment of a list without entries.  These are
all the ways (`wellPlaced_iff`).
-/

set_option autoImplicit false

namespace ModuleDeps

open Text

namespace Buffer

/-- The byte `c` stands at the position `p`. -/
def Stands (b : Buffer) (c : UInt8) (p : Position) : Prop :=
  ∃ n column : Nat, p = ⟨n, column⟩ ∧ (b.line n)[column]? = some c

/-- In front of the comment of its line, or at its end when a further entry
starts a line of its own. -/
def Sheltered (b : Buffer) (p : Position) (entries : List Text) (comma : Bool) : Prop :=
  p.column ≤ (stripComment (b.line p.line)).length ∨
    p.column = (b.line p.line).length ∧ entries ≠ [] ∧ comma = true

instance (b : Buffer) (p : Position) (entries : List Text) (comma : Bool) :
    Decidable (b.Sheltered p entries comma) :=
  inferInstanceAs (Decidable (p.column ≤ (stripComment (b.line p.line)).length ∨
    p.column = (b.line p.line).length ∧ entries ≠ [] ∧ comma = true))

/-- An insert point between the delimiters of its list and out of comments. -/
structure WellPlaced (b : Buffer) (opened closed insert : Position) (entries : List Text)
    (comma : Bool) : Prop where
  behind : opened.Before insert
  within : ¬ closed.Before insert
  sheltered : b.Sheltered insert entries comma

/-- The comment of a line starts at or before a position. -/
def Commented (b : Buffer) (p : Position) : Prop :=
  (stripComment (b.line p.line)).length ≤ p.column

/-- What leads the search for the end of a list astray. -/
inductive Astray (b : Buffer) (opened closed : Position) (entries : List Text) : Prop
  | closedInComment : b.Commented closed → Astray b opened closed entries
  | above {k : Nat} : Blanks (b.lineBefore closed) → b.LastCode k closed.line.toNat →
      k < opened.line → Astray b opened closed entries
  | openedInComment {k : Nat} : Blanks (b.lineBefore closed) → b.LastCode k closed.line.toNat →
      k = opened.line → b.Commented opened → endsWithComma (lineCode (b.line k)) = false →
      Astray b opened closed entries
  | hole {k : Nat} : Blanks (b.lineBefore closed) → b.LastCode k closed.line.toNat →
      endsWithComma (lineCode (b.line k)) = true → stripComment (b.line k) ≠ b.line k →
      entries = [] → Astray b opened closed entries

/-! ## Delimiters on their lines -/

theorem stands_after {b : Buffer} {A B : Text} {c : UInt8} (notLf : c ≠ lf)
    (holds : b.lines = splitAt lf (A ++ c :: B)) : b.Stands c (Position.after A) := by
  obtain ⟨above, v, wholeAbove, vApart, rfl⟩ := exists_stacked A
  obtain ⟨y, below, yApart, wholeBelow, rfl⟩ := exists_hung B
  have lineApart : lf ∉ c :: y := by simp [yApart, Ne.symm notLf]
  rw [← List.cons_append, splitAt_around wholeAbove vApart lineApart wholeBelow] at holds
  refine ⟨above.length, v.length, Position.after_stacked wholeAbove vApart, ?_⟩
  rw [line_at holds]
  simp

end Buffer

theorem length_stripComment_ne {l : Text} {column : Nat} {c : UInt8}
    (here : l[column]? = some c) (notSlash : c ≠ slash) : (stripComment l).length ≠ column := by
  intro same
  by_cases code : stripComment l = l
  · rw [code] at same
    rw [← same, List.getElem?_length] at here
    cases here
  · obtain ⟨u, cut⟩ := exists_comment none l code
    rw [cut, ← stripComment, List.getElem?_append_right (by omega), ← same,
      Nat.sub_self] at here
    exact notSlash (by simpa [lineComment, eq_comm] using here)

theorem length_lineCode_le (l : Text) : (lineCode l).length ≤ (stripComment l).length := by
  obtain ⟨w, cut, -⟩ := exists_lineCode l
  rw [cut, List.length_append]
  omega

theorem lt_length_lineCode {l : Text} {column : Nat} {c : UInt8} (here : l[column]? = some c)
    (visible : isVisible c = true) (inCode : column < (stripComment l).length) :
    column < (lineCode l).length := by
  obtain ⟨w, cut, wBlank⟩ := exists_lineCode l
  by_contra long
  obtain ⟨u, front⟩ : ∃ u, stripComment l ++ u = l := stripComment_isPrefix l
  have inStrip : (stripComment l)[column]? = some c := by
    rw [← front, List.getElem?_append_left inCode] at here
    exact here
  rw [cut, List.getElem?_append_right (by omega)] at inStrip
  have blank := wBlank c (List.mem_of_getElem? inStrip)
  have notBlank := isVisible.not_one visible
  rw [Buffer.isBlank1_of_isLineBlank blank] at notBlank
  cases notBlank

theorem lt_length_stripComment {l : Text} {column : Nat} {c : UInt8} (here : l[column]? = some c)
    (notSlash : c ≠ slash) (notQuote : isQuote c = false)
    (front : ∀ a ∈ l.take column, isQuote a = false ∧ a ≠ slash) :
    column < (stripComment l).length := by
  obtain ⟨inside, hereAt⟩ := List.getElem?_eq_some_iff.mp here
  have cut : l = l.take column ++ c :: l.drop (column + 1) := by
    rw [← hereAt, List.getElem_cons_drop, List.take_append_drop]
  have noComment : ¬ lineComment.isPrefixOf (c :: l.drop (column + 1)) = true := by
    rw [lineComment_isPrefixOf]
    exact fun starts => notSlash starts.1
  rw [cut, stripComment_append_plain front, stripComment,
    codeFrom_code (by simp [notQuote]) noComment, List.length_append, List.length_take]
  simp only [List.length_cons]
  omega

namespace Buffer

section Placed

variable {b : Buffer} {opened closed : Position} {entries : List Text} {x y : UInt8}
  (openStands : b.Stands x opened) (closeStands : b.Stands y closed) (order : opened.Before closed)
  (xVisible : isVisible x = true) (yCode : y ≠ slash ∧ isQuote y = false)

include closeStands yCode in
theorem not_commented_of_plain
    (front : ∀ a ∈ b.lineBefore closed, isQuote a = false ∧ a ≠ slash) :
    ¬ b.Commented closed := by
  obtain ⟨n, column, rfl, here⟩ := closeStands
  have inCode :=
    lt_length_stripComment here yCode.1 yCode.2 (by simpa [lineBefore, cutAt] using front)
  simp only [Commented]
  omega

include closeStands yCode in
theorem not_commented_of_blanks (front : Blanks (b.lineBefore closed)) : ¬ b.Commented closed :=
  not_commented_of_plain closeStands yCode (plain_of_blanks front)

include openStands order xVisible in
theorem opened_above_of_blanks (front : Blanks (b.lineBefore closed)) :
    opened.line < closed.line := by
  obtain ⟨o, column, rfl, here⟩ := openStands
  rcases order with above | ⟨same, before⟩
  · exact above
  · -- On that line it would stand among the blanks.
    simp only at same before
    have member : x ∈ b.lineBefore closed := by
      rw [lineBefore, cutAt, ← same]
      apply List.mem_of_getElem? (i := column)
      rw [List.getElem?_take_of_lt (by omega), here]
    exact absurd member (front.notMem_of_visible xVisible)

include closeStands order yCode in
theorem wellPlaced_here_iff {comma : Bool} (inked : ¬ Blanks (b.lineBefore closed)) :
    b.WellPlaced opened closed closed entries comma ↔ ¬ b.Astray opened closed entries := by
  obtain ⟨n, column, rfl, here⟩ := closeStands
  have notStart := length_stripComment_ne here yCode.1
  have inside : column < (b.line n).length := (List.getElem?_eq_some_iff.mp here).1
  constructor
  · intro placed astray
    cases astray with
    | closedInComment commented =>
        simp only [Commented] at commented
        rcases placed.sheltered with inCode | ⟨atEnd, -⟩
        · simp only at inCode
          omega
        · simp only at atEnd
          omega
    | above front _ _ => exact inked front
    | openedInComment front _ _ _ _ => exact inked front
    | hole front _ _ _ _ => exact inked front
  · intro sound
    refine ⟨order, by simp [Position.Before], Or.inl ?_⟩
    by_contra commented
    refine sound (Astray.closedInComment ?_)
    simp only [Commented] at commented ⊢
    omega

section Behind

variable {k column : Nat} {comma : Bool} (front : Blanks (b.lineBefore closed))
  (last : b.LastCode k closed.line.toNat) (codeEnd : CodeEnd (b.line k) column comma)
include openStands front last codeEnd

include closeStands yCode in
theorem not_astray_of_wellPlaced_behind
    (placed : b.WellPlaced opened closed ⟨k, column⟩ entries comma) :
    ¬ b.Astray opened closed entries := by
  have notCommented := not_commented_of_blanks closeStands yCode front
  obtain ⟨o, openColumn, rfl, here⟩ := openStands
  have inside : openColumn < (b.line o).length := (List.getElem?_eq_some_iff.mp here).1
  have codeShort := length_lineCode_le (b.line k)
  intro astray
  have behind := placed.behind
  simp only [Position.Before] at behind
  -- Each way to go astray contradicts what is known of the last line with code.
  cases astray with
  | closedInComment commented => exact notCommented commented
  | above _ last' lower =>
      rw [last'.unique last] at lower
      simp only at lower
      omega
  | openedInComment _ last' same commented noComma =>
      rw [last'.unique last] at same noComma
      obtain rfl : k = o := Int.ofNat.inj same
      simp only [Commented] at commented
      cases codeEnd with
      | whole code =>
          rw [code] at commented
          omega
      | comma ends =>
          rw [ends] at noComma
          cases noComma
      | code _ => omega
  | hole _ last' ends comment none =>
      rw [last'.unique last] at ends comment
      cases codeEnd with
      | whole code => exact comment code
      | comma _ =>
          rcases placed.sheltered with inCode | ⟨-, some, -⟩
          · refine comment ((stripComment_isPrefix (b.line k)).eq_of_length ?_)
            have long : (b.line k).length ≤ (stripComment (b.line k)).length := by
              simpa using inCode
            exact Nat.le_antisymm (stripComment_isPrefix (b.line k)).length_le long
          · exact some none
      | code noComma =>
          rw [ends] at noComma
          cases noComma

include xVisible in
theorem wellPlaced_behind_of_not_astray (sound : ¬ b.Astray opened closed entries) :
    b.WellPlaced opened closed ⟨k, column⟩ entries comma := by
  obtain ⟨o, openColumn, rfl, here⟩ := openStands
  have inside : openColumn < (b.line o).length := (List.getElem?_eq_some_iff.mp here).1
  have notAbove : o ≤ k := by
    by_contra lower
    exact sound (Astray.above front last (by simp only; omega))
  have opensEarlier (same : k = o) : openColumn < column := by
    subst same
    cases codeEnd with
    | whole _ => exact inside
    | comma _ => exact inside
    | code noComma =>
        refine lt_length_lineCode here xVisible ?_
        by_contra commented
        refine sound (Astray.openedInComment front last rfl ?_ noComma)
        simp only [Commented]
        omega
  refine ⟨?_, ?_, ?_⟩
  · simp only [Position.Before]
    rcases Nat.lt_or_ge o k with lower | same
    · left
      omega
    · right
      have := opensEarlier (by omega)
      omega
  · have above := last.above
    simp only [Position.Before]
    omega
  · cases codeEnd with
    | whole code => exact Or.inl (Int.le_of_eq (congrArg (fun l => (l.length : Int)) code.symm))
    | comma ends =>
        by_cases code : stripComment (b.line k) = b.line k
        · exact Or.inl (Int.le_of_eq (congrArg (fun l => (l.length : Int)) code.symm))
        · right
          exact ⟨rfl, fun none => sound (Astray.hole front last ends code none), rfl⟩
    | code _ =>
        left
        simpa using length_lineCode_le (b.line k)

include closeStands yCode xVisible in
theorem wellPlaced_behind_iff :
    b.WellPlaced opened closed ⟨k, column⟩ entries comma ↔
      ¬ b.Astray opened closed entries :=
  ⟨not_astray_of_wellPlaced_behind openStands closeStands yCode front last codeEnd,
    wellPlaced_behind_of_not_astray openStands xVisible front last codeEnd⟩

end Behind

include openStands closeStands order xVisible yCode in
theorem wellPlaced_bare_iff {p : Position} {comma : Bool} (front : Blanks (b.lineBefore closed))
    (idle : ∀ k < closed.line.toNat, Blanks (stripComment (b.line (k : Int))))
    (place : p = closed ∨ ∃ m : Nat, m < closed.line.toNat ∧
      (∀ j : Nat, m ≤ j → j < closed.line.toNat → Blanks (b.line j)) ∧
      p = ⟨m, (b.line m).length⟩) :
    b.WellPlaced opened closed p entries comma ↔ ¬ b.Astray opened closed entries := by
  have notCommented := not_commented_of_blanks closeStands yCode front
  have above := opened_above_of_blanks openStands order xVisible front
  constructor
  · intro _ astray
    cases astray with
    | closedInComment commented => exact notCommented commented
    | above _ last _ => exact last.code (idle _ last.above)
    | openedInComment _ last _ _ _ => exact last.code (idle _ last.above)
    | hole _ last _ _ _ => exact last.code (idle _ last.above)
  · intro _
    rcases place with rfl | ⟨m, below, blank, rfl⟩
    · refine ⟨order, by simp [Position.Before], Or.inl ?_⟩
      simp only [Commented] at notCommented
      omega
    · obtain ⟨o, openColumn, rfl, here⟩ := openStands
      simp only at above
      -- The line of the opening delimiter is not among the blank ones.
      have lower : o < m := by
        by_contra higher
        have blankLine := blank o (by omega) (by omega)
        exact blankLine.notMem_of_visible xVisible (List.mem_of_getElem? here)
      refine ⟨?_, ?_, Or.inl ?_⟩
      · simp only [Position.Before]
        omega
      · simp only [Position.Before]
        omega
      · have code := stripComment_of_blanks (blank m (Nat.le_refl m) below)
        exact Int.le_of_eq (congrArg (fun l => (l.length : Int)) code.symm)

include openStands closeStands order xVisible yCode in
theorem wellPlaced_iff_of_insertsAt {p : Position} {comma : Bool}
    (stop : InsertsAt b closed p comma) :
    b.WellPlaced opened closed p entries comma ↔ ¬ b.Astray opened closed entries := by
  cases stop with
  | here inked => exact wellPlaced_here_iff closeStands order yCode inked
  | behind front last codeEnd =>
      exact wellPlaced_behind_iff openStands closeStands xVisible yCode front last codeEnd
  | bare front idle place =>
      exact wellPlaced_bare_iff openStands closeStands order xVisible yCode front idle place

end Placed

end Buffer

/-! ## The delimiters of a block -/

/-- Where the parts of a factory block were found. -/
structure Delimiters where
  marker : Position
  openBracket : Position
  closeBracket : Position
  factory : Position
  openParen : Position
  closeParen : Position
deriving DecidableEq, Repr

/-- Each delimiter is the first one behind the delimiter before it. -/
structure Buffer.Delimited (b : Buffer) (found : Delimiters) : Prop where
  marker : b.search defineMarker ⟨0, 0⟩ = .ok (some found.marker)
  openBracket : b.search [0x5B] found.marker = .ok (some found.openBracket)
  closeBracket : b.search [0x5D] found.openBracket = .ok (some found.closeBracket)
  factory : b.search factoryMarker found.closeBracket = .ok (some found.factory)
  openParen : b.search [0x28] found.factory = .ok (some found.openParen)
  closeParen : b.search [0x29] found.openParen = .ok (some found.closeParen)

theorem Buffer.Delimited.unique {b : Buffer} {found found' : Delimiters} (first : b.Delimited found)
    (second : b.Delimited found') : found = found' := by
  obtain ⟨marker, openBracket, closeBracket, factory, openParen, closeParen⟩ := found
  obtain ⟨marker', openBracket', closeBracket', factory', openParen', closeParen'⟩ := found'
  have same {p q : Position} {r : Except OutOfRange (Option Position)} (one : r = .ok (some p))
      (two : r = .ok (some q)) : p = q :=
    Option.some.inj (Except.ok.inj (one.symm.trans two))
  obtain rfl : marker = marker' := same first.marker second.marker
  obtain rfl : openBracket = openBracket' := same first.openBracket second.openBracket
  obtain rfl : closeBracket = closeBracket' := same first.closeBracket second.closeBracket
  obtain rfl : factory = factory' := same first.factory second.factory
  obtain rfl : openParen = openParen' := same first.openParen second.openParen
  obtain rfl : closeParen = closeParen' := same first.closeParen second.closeParen
  rfl

def Frame.delimiters (f : Frame) : Delimiters where
  marker := Position.after f.front
  openBracket := Position.after f.depsLead
  closeBracket := Position.after (f.depsLead ++ 0x5B :: f.deps)
  factory := Position.after f.factoryLead
  openParen := Position.after f.paramsLead
  closeParen := Position.after (f.paramsLead ++ 0x28 :: f.params)

section Located

variable {b : Buffer}

theorem delimited_frame (f : Frame) (holds : b.lines = splitAt lf f.text) :
    b.Delimited f.delimiters where
  marker := search_marker f holds
  openBracket := Buffer.search_opener (f.text_eq_deps ▸ holds) f.bracket_first (by decide)
  closeBracket :=
    Buffer.search_closer (f.text_eq_deps ▸ holds) f.deps_close (by decide) (by decide)
  factory := search_factory f holds
  openParen := Buffer.search_opener (f.text_eq_params ▸ holds) f.paren_first (by decide)
  closeParen :=
    Buffer.search_closer (f.text_eq_params ▸ holds) f.params_close (by decide) (by decide)

/-- A list that was read is well placed exactly when nothing leads it astray. -/
theorem Buffer.Scanned.wellPlaced_iff {lead inner tail : Text} {opener closer : UInt8}
    {L : EntryList} (scanned : b.Scanned lead opener inner L)
    (holds : b.lines = splitAt lf (lead ++ opener :: inner ++ closer :: tail))
    (openVisible : isVisible opener = true) (closeLine : closer ≠ lf)
    (closeCode : closer ≠ slash ∧ isQuote closer = false) (entries : List Text) :
    b.WellPlaced (Position.after lead) (Position.after (lead ++ opener :: inner)) L.insert entries
      L.comma ↔
      ¬ b.Astray (Position.after lead) (Position.after (lead ++ opener :: inner)) entries := by
  have openLine : opener ≠ lf := by
    rintro rfl
    cases openVisible
  have holdsOpen : b.lines = splitAt lf (lead ++ opener :: (inner ++ closer :: tail)) := by
    rw [holds]
    simp
  have order : (Position.after lead).Before (Position.after (lead ++ opener :: inner)) :=
    Position.after_before_append (by simp)
  have stop := insertsAt_insertPoint b (Position.after (lead ++ opener :: inner))
  rw [scanned.insertPoint] at stop
  exact wellPlaced_iff_of_insertsAt (stands_after openLine holdsOpen) (stands_after closeLine holds)
    order openVisible closeCode stop

theorem Buffer.Stands.exists_code {x : UInt8} {p : Position} (stands : b.Stands x p)
    (visible : isVisible x = true) (code : ¬ b.Commented p) :
    ∃ n : Nat, p.line = n ∧ ¬ Blanks (stripComment (b.line n)) := by
  obtain ⟨n, column, rfl, here⟩ := stands
  have inside : column < (stripComment (b.line n)).length := by
    simp only [Commented] at code
    omega
  obtain ⟨u, front⟩ : ∃ u, stripComment (b.line n) ++ u = b.line n :=
    stripComment_isPrefix (b.line n)
  rw [← front, List.getElem?_append_left inside] at here
  exact ⟨n, rfl, fun blank => blank.notMem_of_visible visible (List.mem_of_getElem? here)⟩

section Code

variable {lead inner tail : Text} {opener closer : UInt8} {L : EntryList}
  (scanned : b.Scanned lead opener inner L)
  (holds : b.lines = splitAt lf (lead ++ opener :: inner ++ closer :: tail))
  (openVisible : isVisible opener = true) (openCode : ¬ b.Commented (Position.after lead))
include scanned holds openVisible openCode

theorem Buffer.Scanned.behind_of_code (closeLine : closer ≠ lf)
    (closeCode : closer ≠ slash ∧ isQuote closer = false)
    (closed : ¬ b.Commented (Position.after (lead ++ opener :: inner))) :
    (Position.after lead).Before L.insert := by
  have openLine : opener ≠ lf := by
    rintro rfl
    cases openVisible
  have holdsOpen : b.lines = splitAt lf (lead ++ opener :: (inner ++ closer :: tail)) := by
    rw [holds]
    simp
  have stands := stands_after openLine holdsOpen
  refine ((scanned.wellPlaced_iff holds openVisible closeLine closeCode [[]]).mpr
    fun astray => ?_).behind
  cases astray with
  | closedInComment commented => exact closed commented
  | @above k front last lower =>
      have below :=
        opened_above_of_blanks stands (Position.after_before_append (by simp)) openVisible front
      obtain ⟨n, place, code⟩ := stands.exists_code openVisible openCode
      exact code (last.idle n (by omega) (by omega))
  | openedInComment _ _ _ commented _ => exact openCode commented
  | hole _ _ _ _ none => exact List.cons_ne_nil _ _ none

theorem Buffer.Scanned.insert_ne_close
    (front : Blanks (b.lineBefore (Position.after (lead ++ opener :: inner)))) :
    L.insert ≠ Position.after (lead ++ opener :: inner) := by
  have openLine : opener ≠ lf := by
    rintro rfl
    cases openVisible
  have holdsOpen : b.lines = splitAt lf (lead ++ opener :: (inner ++ closer :: tail)) := by
    rw [holds]
    simp
  have stands := stands_after openLine holdsOpen
  have stop := insertsAt_insertPoint b (Position.after (lead ++ opener :: inner))
  rw [scanned.insertPoint] at stop
  intro same
  simp only [same] at stop
  have below :=
    opened_above_of_blanks stands (Position.after_before_append (by simp)) openVisible front
  generalize Position.after (lead ++ opener :: inner) = closed at front below stop
  generalize L.comma = comma at stop
  cases stop with
  | here inked => exact inked front
  | behind _ last _ =>
      have above := last.above
      simp only at above
      omega
  | bare _ idle _ =>
      obtain ⟨n, place, code⟩ := stands.exists_code openVisible openCode
      exact code (idle n (by omega))

end Code

end Located

/-- The insert points of a factory block are well placed exactly when nothing
leads them astray. -/
theorem insert_wellPlaced_iff {t : Text} {stamp : UInt64} {d : Descriptor}
    (located : locate (Buffer.ofText t) stamp = .ok d) (factory : d.kind = .bracketedFactory) :
    ∃ found : Delimiters, (Buffer.ofText t).Delimited found ∧
      ((Buffer.ofText t).WellPlaced found.openBracket found.closeBracket d.dependencyInsert
          d.dependencies d.dependencyComma ↔
        ¬ (Buffer.ofText t).Astray found.openBracket found.closeBracket d.dependencies) ∧
      ((Buffer.ofText t).WellPlaced found.openParen found.closeParen d.parameterInsert d.parameters
          d.parameterComma ↔
        ¬ (Buffer.ofText t).Astray found.openParen found.closeParen d.parameters) := by
  obtain ⟨f, holds⟩ := exists_frame (Buffer.whole_ofText t) located factory
  obtain ⟨deps, params, depsScanned, paramsScanned, read⟩ := locate_frame f holds stamp
  rw [read, report_eq_ok_iff] at located
  obtain ⟨-, -, quote, -, rfl⟩ := located
  refine ⟨f.delimiters, delimited_frame f holds, ?_, ?_⟩
  · exact depsScanned.wellPlaced_iff (f.text_eq_depsTail ▸ holds) (by decide) (by decide)
      (by decide) _
  · exact paramsScanned.wellPlaced_iff (f.text_eq_paramsTail ▸ holds) (by decide) (by decide)
      (by decide) _

/-- A comment behind the comma of the last entry leads nothing astray. -/
theorem insert_wellPlaced_iff_trailing_comment :
    ∃ t d, locate (Buffer.ofText t) 1 = .ok d ∧ d.kind = .bracketedFactory ∧
      d.dependencyInsert = ⟨1, 17⟩ ∧
      stripComment ((Buffer.ofText t).line 1) = utf8 "  'a/A', " ∧
      ∃ found, (Buffer.ofText t).Delimited found ∧
        ¬ (Buffer.ofText t).Astray found.openBracket found.closeBracket d.dependencies ∧
        ¬ (Buffer.ofText t).Astray found.openParen found.closeParen d.parameters := by
  have located :
      locate
        (Buffer.ofText (utf8 "sap.ui.define([\n  'a/A', // first\n], function (A) \x7b\x7d);\n"))
        1 =
      .ok (describe 1 ⟨[utf8 "  'a/A'"], ⟨1, 17⟩, ⟨2, 0⟩, true⟩ ⟨[utf8 "A"],
        ⟨2, 14⟩, ⟨2, 14⟩, false⟩
        (utf8 "'")) := by
    decide +kernel
  have delimited :
      (Buffer.ofText
        (utf8 "sap.ui.define([\n  'a/A', // first\n], function (A) \x7b\x7d);\n")).Delimited
      ⟨⟨0, 0⟩, ⟨0, 14⟩, ⟨2, 0⟩, ⟨2, 3⟩, ⟨2, 12⟩, ⟨2, 14⟩⟩ := by
    constructor <;> decide +kernel
  obtain ⟨found, again, deps, params⟩ := insert_wellPlaced_iff located rfl
  rw [again.unique delimited] at deps params
  refine ⟨_, _, located, rfl, rfl, by decide +kernel, _, delimited, ?_, ?_⟩
  · exact deps.mp ⟨by decide, by decide, by decide +kernel⟩
  · exact params.mp ⟨by decide, by decide, by decide +kernel⟩

/-- A closing parenthesis in a comment takes the insert point into the
comment. -/
theorem parameterInsert_in_comment :
    ∃ t d, locate (Buffer.ofText t) 1 = .ok d ∧ d.kind = .bracketedFactory ∧
      ∃ found, (Buffer.ofText t).Delimited found ∧
        ¬ (Buffer.ofText t).WellPlaced found.openParen found.closeParen d.parameterInsert
          d.parameters
          d.parameterComma := by
  refine ⟨utf8 "sap.ui.define(['x/a'], function (a // the (only) one\n) \x7b\n\x7d);\n",
    describe 1 ⟨[utf8 "'x/a'"], ⟨0, 20⟩, ⟨0, 20⟩, false⟩
      ⟨[utf8 "a "], ⟨0, 47⟩, ⟨0, 47⟩, false⟩ (utf8 "'"),
    by
      decide +kernel, rfl, ⟨⟨0, 0⟩, ⟨0, 14⟩, ⟨0, 20⟩, ⟨0, 23⟩, ⟨0, 32⟩,
        ⟨0, 47⟩⟩,
    by constructor <;> decide +kernel, ?_⟩
  intro placed
  have sheltered := placed.sheltered
  revert sheltered
  decide +kernel

end ModuleDeps
