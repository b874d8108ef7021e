import ModuleDeps.Block.Locate
import ModuleDeps.Proofs.Block.Comment
import ModuleDeps.Proofs.Buffer.Place
import ModuleDeps.Proofs.Text.Blank

/-!
# Where the search for the end of a list stops

`InsertsAt` says where a list can be continued, by what stands in front of its
closing delimiter: at the delimiter itself when its line holds anything in
front of it, and otherwise at the end of the last line of code above.  Two
searches lead there, one over blank lines (`Walk`) and one over lines that hold
comments only; `insertsAt_insertPoint` shows that together they never stop
elsewhere.
-/

set_option autoImplicit false

namespace ModuleDeps

open Text

def lineCode (line : Text) : Text := (stripComment line).trimEndWhere Buffer.isLineBlank

/-- Where the code of a line ends for a list that goes on behind it, and
whether the list has a comma there. -/
inductive CodeEnd (line : Text) : Nat → Bool → Prop
  | whole : stripComment line = line → CodeEnd line line.length (endsWithComma line.trim)
  | comma : endsWithComma (lineCode line) = true → CodeEnd line line.length true
  | code : endsWithComma (lineCode line) = false → CodeEnd line (lineCode line).length false

namespace Buffer

/-- Line `k` is the last one above line `n` that holds code. -/
structure LastCode (b : Buffer) (k n : Nat) : Prop where
  above : k < n
  code : ¬ Blanks (stripComment (b.line k))
  idle : ∀ j : Nat, k < j → j < n → Blanks (stripComment (b.line j))

/-- The places at which a list closed at `close` can be continued. -/
inductive InsertsAt (b : Buffer) (close : Position) : Position → Bool → Prop
  | here : ¬ Blanks (b.lineBefore close) →
      InsertsAt b close close (b.resolveComma close .unknown)
  | behind {k column : Nat} {comma : Bool} : Blanks (b.lineBefore close) →
      b.LastCode k close.line.toNat → CodeEnd (b.line k) column comma →
      InsertsAt b close ⟨k, column⟩ comma
  | bare {p : Position} : Blanks (b.lineBefore close) →
      (∀ k < close.line.toNat, Blanks (stripComment (b.line (k : Int)))) →
      (p = close ∨ ∃ m : Nat, m < close.line.toNat ∧
        (∀ j : Nat, m ≤ j → j < close.line.toNat → Blanks (b.line j)) ∧
        p = ⟨m, (b.line m).length⟩) →
      InsertsAt b close p false

/-! ## Blanks behind code -/

theorem isBlank1_of_isLineBlank {a : UInt8} (blank : isLineBlank a = true) : isBlank1 a = true := by
  simp only [isLineBlank, Bool.or_eq_true, beq_iff_eq] at blank
  rcases blank with (rfl | rfl) | rfl <;> decide

theorem blanks_of_isLineBlank {t : Text} (blank : ∀ a ∈ t, isLineBlank a = true) :
    Blanks t := by
  induction t with
  | nil => exact Runs.nil
  | cons a t ih =>
      exact Runs.one (isBlank1_of_isLineBlank (blank a (by simp)))
        (ih fun c member => blank c (by simp [member]))

end Buffer

theorem exists_lineCode (line : Text) :
    ∃ w, stripComment line = lineCode line ++ w ∧ ∀ a ∈ w, Buffer.isLineBlank a = true := by
  refine ⟨((stripComment line).reverse.takeWhile Buffer.isLineBlank).reverse, ?_, ?_⟩
  · rw [lineCode, trimEndWhere, ← List.reverse_append, List.takeWhile_append_dropWhile,
      List.reverse_reverse]
  · intro a member
    exact List.mem_takeWhile_imp (List.mem_reverse.mp member)

theorem blanks_lineCode_iff (line : Text) :
    Blanks (lineCode line) ↔ Blanks (stripComment line) := by
  obtain ⟨w, cut, blank⟩ := exists_lineCode line
  rw [cut, blanks_append_right_iff (Buffer.blanks_of_isLineBlank blank)]

theorem endsWithComma_nil : endsWithComma [] = false := rfl

theorem not_blanks_of_endsWithComma {t : Text} (ends : endsWithComma t = true) : ¬ Blanks t := by
  intro blank
  have suffix : [comma] <:+ t := List.isSuffixOf_iff_suffix.mp ends
  have member : comma ∈ t := suffix.subset (by simp)
  exact blank.notMem_of_visible (by decide) member

namespace Buffer

/-! ## The two searches -/

theorem LastCode.widen {b : Buffer} {k n N : Nat} (last : b.LastCode k n) (wider : n ≤ N)
    (idle : ∀ j : Nat, n ≤ j → j < N → Blanks (stripComment (b.line j))) :
    b.LastCode k N where
  above := by have := last.above; omega
  code := last.code
  idle j behind within := by
    rcases Nat.lt_or_ge j n with inside | outside
    · exact last.idle j behind inside
    · exact idle j outside within

theorem LastCode.unique {b : Buffer} {k k' n : Nat} (last : b.LastCode k n)
    (last' : b.LastCode k' n) : k = k' := by
  rcases Nat.lt_trichotomy k k' with lower | same | higher
  · exact absurd (last.idle k' lower last'.above) last'.code
  · exact same
  · exact absurd (last'.idle k higher last.above) last.code

theorem settleAbove_succ (b : Buffer) (p : Position) (n : Nat) :
    b.settleAbove p (n + 1) =
      if (lineCode (b.line n)).isBlank then b.settleAbove p n
      else if endsWithComma (lineCode (b.line n)) then (⟨n, (b.line n).length⟩, true)
      else (⟨n, (lineCode (b.line n)).length⟩, false) := rfl

/-- The search over comments ends on the last line of code, or finds none. -/
theorem settleAbove_cases (b : Buffer) (p : Position) (n : Nat) :
    (∃ k column comma, b.LastCode k n ∧ CodeEnd (b.line k) column comma ∧
        b.settleAbove p n = (⟨k, column⟩, comma)) ∨
      (∀ k : Nat, k < n → Blanks (stripComment (b.line k))) ∧
      b.settleAbove p n = (p, false) := by
  induction n with
  | zero => exact Or.inr ⟨by omega, rfl⟩
  | succ n ih =>
      rw [settleAbove_succ]
      by_cases blank : Blanks (lineCode (b.line n))
      · have idleLine : Blanks (stripComment (b.line n)) := (blanks_lineCode_iff _).mp blank
        rw [if_pos (isBlank_iff.mpr blank)]
        rcases ih with ⟨k, column, comma, last, codeEnd, stop⟩ | ⟨idle, stop⟩
        · left
          refine ⟨k, column, comma, last.widen (Nat.le_succ n) ?_, codeEnd, stop⟩
          intro j low high
          rwa [show j = n by omega]
        · right
          refine ⟨?_, stop⟩
          intro k below
          rcases Nat.lt_or_ge k n with inside | outside
          · exact idle k inside
          · rwa [show k = n by omega]
      · have hasCode : ¬ Blanks (stripComment (b.line n)) :=
          fun idle => blank ((blanks_lineCode_iff _).mpr idle)
        have last : b.LastCode n (n + 1) := ⟨Nat.lt_succ_self n, hasCode, by omega⟩
        rw [if_neg (fun isBlank => blank (isBlank_iff.mp isBlank))]
        left
        cases ends : endsWithComma (lineCode (b.line n)) with
        | true => exact ⟨n, _, true, last, CodeEnd.comma ends, rfl⟩
        | false => exact ⟨n, _, false, last, CodeEnd.code ends, rfl⟩

/-- A place that the search over blank lines has come to, with `n` lines left. -/
inductive Pause (b : Buffer) (close : Position) : Nat → Position → CommaState → Prop
  | start : Pause b close close.line.toNat close .unknown
  | up {n : Nat} : n < close.line.toNat →
      (∀ j : Nat, n ≤ j → j < close.line.toNat → Blanks (b.line j)) →
      Pause b close n ⟨n, (b.line n).length⟩ .absent

/-- What is made of the place where the search over blank lines ended. -/
def settle (b : Buffer) : Position × CommaState → Position × Bool
  | (p, .unknown) => b.settleInsert p
  | (p, .present) => (p, true)
  | (p, .absent) => (p, false)

theorem insertPoint_eq_settle (b : Buffer) (close : Position) :
    b.insertPoint close = b.settle (b.lastMeaningful close) := rfl

section Walk

variable {b : Buffer} {close : Position}

theorem Pause.le {n : Nat} {p : Position} {state : CommaState} (pause : Pause b close n p state) :
    n ≤ close.line.toNat := by
  cases pause with
  | start => exact Nat.le_refl _
  | up below _ => omega

theorem Pause.bare {n : Nat} {p : Position} {state : CommaState} (pause : Pause b close n p state) :
    p = close ∨ ∃ m : Nat, m < close.line.toNat ∧
      (∀ j : Nat, m ≤ j → j < close.line.toNat → Blanks (b.line j)) ∧
      p = ⟨m, (b.line m).length⟩ := by
  cases pause with
  | start => exact Or.inl rfl
  | up below blank => exact Or.inr ⟨n, below, blank, rfl⟩

/-- Going on from a pause with the search over comments. -/
theorem Pause.settleInsert (front : Blanks (b.lineBefore close)) {n : Nat} {p : Position}
    {state : CommaState} (pause : Pause b close n p state) :
    b.settleInsert p = b.settleAbove p n := by
  cases pause with
  | start => rw [Buffer.settleInsert, if_pos (isBlank_iff.mpr front)]
  | up below blank =>
      have before : b.lineBefore ⟨n, (b.line n).length⟩ = b.line n := by
        simp [lineBefore, cutAt]
      rw [Buffer.settleInsert, before, if_pos (isBlank_iff.mpr (blank n (Nat.le_refl n) below)),
        Int.toNat_natCast]

theorem Pause.passed {n : Nat} {p : Position} {state : CommaState}
    (pause : Pause b close n p state) :
    ∀ j : Nat, n ≤ j → j < close.line.toNat → Blanks (b.line j) := by
  cases pause with
  | start => omega
  | up _ blank => exact blank

theorem Pause.idle {n : Nat} {p : Position} {state : CommaState} (pause : Pause b close n p state) :
    ∀ j : Nat, n ≤ j → j < close.line.toNat → Blanks (stripComment (b.line j)) := by
  intro j low high
  have blank := pause.passed j low high
  rwa [stripComment_of_blanks blank]

theorem insertsAt_settleAbove (front : Blanks (b.lineBefore close)) {n : Nat} {p : Position}
    {state : CommaState} (pause : Pause b close n p state) :
    InsertsAt b close (b.settleAbove p n).1 (b.settleAbove p n).2 := by
  rcases settleAbove_cases b p n with ⟨k, column, comma, last, codeEnd, stop⟩ | ⟨none, stop⟩
  · rw [stop]
    exact InsertsAt.behind front (last.widen pause.le pause.idle) codeEnd
  · rw [stop]
    refine InsertsAt.bare front ?_ pause.bare
    intro k below
    rcases Nat.lt_or_ge k n with inside | outside
    · exact none k inside
    · exact pause.idle k outside below

theorem stripComment_of_contains {line : Text} (free : ¬ line.contains lineComment = true) :
    stripComment line = line :=
  stripComment_of_notComment fun occurs => free ((contains_iff_isInfix (by decide) line).mpr occurs)

/-- The places and comma states that the walk from `p` can end with: at once, in
front of a comment, or on the first line that is not blank, if there is one. -/
inductive Walk (b : Buffer) (p : Position) : Position → CommaState → Prop
  | stay : Walk b p p .unknown
  | stop {m : Nat} : Blanks (b.lineBefore p) → m < p.line.toNat →
      (∀ j : Nat, m ≤ j → j < p.line.toNat → Blanks (b.line j)) →
      Walk b p ⟨m, (b.line m).length⟩ .unknown
  | land {k : Nat} : Blanks (b.lineBefore p) → k < p.line.toNat →
      (∀ j : Nat, k < j → j < p.line.toNat → Blanks (b.line j)) →
      stripComment (b.line k) = b.line k → (Blanks (b.line k) → k = 0) →
      Walk b p ⟨k, (b.line k).length⟩
        (if endsWithComma (b.line k).trim then .present else .absent)

theorem Pause.walk (front : Blanks (b.lineBefore close)) {n : Nat} {p : Position}
    {state : CommaState} (pause : Pause b close n p state) : Walk b close p .unknown := by
  cases pause with
  | start => exact Walk.stay
  | up below blank => exact Walk.stop front below blank

theorem Pause.walkUp (front : Blanks (b.lineBefore close)) :
    ∀ {n : Nat} {p : Position} {state : CommaState}, Pause b close n p state →
      Walk b close (b.walkUp n p state).1 (b.walkUp n p state).2 := by
  intro n
  induction n with
  | zero =>
      intro p state pause
      rw [Buffer.walkUp]
      generalize top : 0 = n at pause
      cases pause with
      | start => exact Walk.stay
      | up below blank =>
          subst top
          have first : Blanks (b.line (0 : Nat)) := blank 0 (Nat.le_refl 0) below
          have land := Walk.land (k := 0) front below (fun j low => blank j (Nat.zero_le j))
            (stripComment_of_blanks first) fun _ => rfl
          rwa [trim_eq_nil_iff.mpr first, endsWithComma_nil, if_neg (by simp)] at land
  | succ n ih =>
      intro p state pause
      have below : n < close.line.toNat := pause.le
      rw [Buffer.walkUp]
      by_cases comment : (b.line n).contains lineComment = true
      · rw [if_pos comment]
        exact pause.walk front
      · rw [if_neg comment]
        by_cases blank : Blanks (b.line n)
        · have noComma : endsWithComma (b.line n).trim = false := by
            rw [trim_eq_nil_iff.mpr blank, endsWithComma_nil]
          simp only [noComma, Bool.false_eq_true, if_false, isBlank_iff.mpr blank, if_true]
          refine ih (Pause.up below fun j low high => ?_)
          rcases Nat.lt_or_ge n j with inside | outside
          · exact pause.passed j inside high
          · rwa [show j = n by omega]
        · simp only [if_neg fun isBlank => blank (isBlank_iff.mp isBlank)]
          exact Walk.land front below (fun j low high => pause.passed j low high)
            (stripComment_of_contains comment) fun isBlank => absurd isBlank blank

theorem walk_lastMeaningful (b : Buffer) (p : Position) :
    b.Walk p (b.lastMeaningful p).1 (b.lastMeaningful p).2 := by
  rw [lastMeaningful]
  split
  · rename_i front
    exact Pause.walkUp (isBlank_iff.mp front) Pause.start
  · exact Walk.stay

/-- From wherever the walk over blank lines ended, the search over comments leads
to a place where the list can be continued. -/
theorem Walk.insertsAt (front : Blanks (b.lineBefore close)) {p : Position} {state : CommaState}
    (walk : Walk b close p state) :
    InsertsAt b close (b.settle (p, state)).1 (b.settle (p, state)).2 := by
  cases walk with
  | stay =>
      rw [settle, Pause.start.settleInsert front]
      exact insertsAt_settleAbove front Pause.start
  | stop _ below blank =>
      have pause := Pause.up below blank
      rw [settle, pause.settleInsert front]
      exact insertsAt_settleAbove front pause
  | @land k _ below passed whole first =>
      have idle (j : Nat) (low : k < j) (high : j < close.line.toNat) :
          Blanks (stripComment (b.line j)) := by
        rw [stripComment_of_blanks (passed j low high)]
        exact passed j low high
      by_cases blank : Blanks (b.line k)
      · -- The walk has come to the first line, and found nothing but blanks.
        obtain rfl := first blank
        have all (j : Nat) (high : j < close.line.toNat) : Blanks (b.line j) := by
          rcases Nat.eq_zero_or_pos j with rfl | low
          · exact blank
          · exact passed j low high
        rw [trim_eq_nil_iff.mpr blank, endsWithComma_nil, if_neg (by simp)]
        refine InsertsAt.bare front ?_ (Or.inr ⟨0, below, fun j _ high => all j high, rfl⟩)
        intro j high
        rw [stripComment_of_blanks (all j high)]
        exact all j high
      · have last : b.LastCode k close.line.toNat := ⟨below, by rwa [whole], idle⟩
        have codeEnd := CodeEnd.whole whole
        cases ends : endsWithComma (b.line k).trim with
        | true =>
            rw [ends] at codeEnd
            exact InsertsAt.behind front last codeEnd
        | false =>
            rw [ends] at codeEnd
            exact InsertsAt.behind front last codeEnd

theorem insertsAt_insertPoint (b : Buffer) (close : Position) :
    InsertsAt b close (b.insertPoint close).1 (b.insertPoint close).2 := by
  rw [insertPoint_eq_settle]
  by_cases front : Blanks (b.lineBefore close)
  · exact (walk_lastMeaningful b close).insertsAt front
  · have notBlank : ¬ (b.lineBefore close).isBlank = true :=
      fun isBlank => front (isBlank_iff.mp isBlank)
    rw [lastMeaningful, if_neg notBlank, settle, settleInsert, if_neg notBlank]
    exact InsertsAt.here front

end Walk

/-! ## Insert points as beginnings of the text -/

/-- How the line of an insert point goes on behind it. -/
inductive Edge (line : Text) (comma : Bool) (r : Text) : Prop
  | code {w : Text} : (∀ a ∈ w, isLineBlank a = true) →
      stripComment (line ++ r) = line ++ w → Edge line comma r
  | comment : r = [] → comma = true → endsWithComma (lineCode line) = true → Edge line comma r

/-- What can stand between an insert point, on the line `line` so far, and the
closing delimiter. -/
inductive Slack (line : Text) (comma : Bool) : Text → Prop
  | none : Slack line comma []
  | lines {r v : Text} {rs : List Text} : (∀ l ∈ r :: rs, lf ∉ l) → lf ∉ v →
      Edge line comma r → (∀ l ∈ rs, Blanks (stripComment l)) → Blanks v →
      Slack line comma (stacked (r :: rs) ++ v)

theorem Slack.eq_nil_or_mem {line R : Text} {comma : Bool} (slack : Slack line comma R) :
    R = [] ∨ lf ∈ R := by
  cases slack with
  | none => exact Or.inl rfl
  | lines _ _ _ _ _ => exact Or.inr (by simp)

theorem lineBefore_after {b : Buffer} {above below : List Text} {v y : Text}
    (cut : b.lines = above ++ (v ++ y) :: below) :
    b.lineBefore ⟨above.length, v.length⟩ = v := by
  simp [lineBefore, cutAt, line_at cut]

theorem slack_of_line {b : Buffer} {above below : List Text} {v y : Text}
    (cut : b.lines = above ++ (v ++ y) :: below) (wholeAbove : ∀ l ∈ above, lf ∉ l)
    (vApart : lf ∉ v) {k column : Nat} {comma : Bool} (k_lt : k < above.length)
    (short : column ≤ (b.line k).length)
    (edge : Edge ((b.line k).take column) comma ((b.line k).drop column))
    (idle : ∀ j : Nat, k < j → j < above.length → Blanks (stripComment (b.line j)))
    (vBlank : Blanks v) :
    ∃ above' line R, (∀ l ∈ above', lf ∉ l) ∧ lf ∉ line ∧
      stacked above ++ v = stacked above' ++ line ++ R ∧
      (⟨k, column⟩ : Position) = Position.after (stacked above' ++ line) ∧
      Slack line comma R := by
  have lineAt (j : Nat) (j_lt : j < above.length) : b.line j = above[j] := by
    rw [line_above cut j_lt, List.getD_eq_getElem?_getD, List.getElem?_eq_getElem j_lt]
    rfl
  have split : above = above.take k ++ b.line k :: above.drop (k + 1) := by
    rw [lineAt k k_lt, List.getElem_cons_drop, List.take_append_drop]
  have wholeInit : ∀ l ∈ above.take k, lf ∉ l :=
    fun l member => wholeAbove l (List.mem_of_mem_take member)
  have lineApart : lf ∉ b.line k := wholeAbove _ (by rw [split]; simp)
  have takeApart : lf ∉ (b.line k).take column :=
    fun member => lineApart (List.mem_of_mem_take member)
  refine ⟨above.take k, (b.line k).take column,
    stacked ((b.line k).drop column :: above.drop (k + 1)) ++ v, wholeInit, takeApart, ?_, ?_, ?_⟩
  · have rejoined := List.take_append_drop column (b.line k)
    conv_lhs => rw [split]
    rw [stacked_append, stacked_cons, stacked_cons]
    conv_lhs => rw [← rejoined]
    simp only [List.append_assoc, List.cons_append]
  · rw [Position.after_stacked wholeInit takeApart, List.length_take, List.length_take,
      Nat.min_eq_left (Nat.le_of_lt k_lt), Nat.min_eq_left short]
  · refine Slack.lines ?_ vApart edge ?_ vBlank
    · intro l member
      rcases List.mem_cons.mp member with rfl | member
      · exact fun inLine => lineApart (List.mem_of_mem_drop inLine)
      · exact wholeAbove l (List.mem_of_mem_drop member)
    · intro l member
      obtain ⟨i, i_lt, rfl⟩ := List.getElem_of_mem member
      rw [List.length_drop] at i_lt
      rw [List.getElem_drop, ← lineAt (k + 1 + i) (by omega)]
      exact idle (k + 1 + i) (by omega) (by omega)

theorem exists_insert {b : Buffer} {X Y : Text} (holds : b.lines = splitAt lf (X ++ Y)) :
    ∃ above line R comma, (∀ l ∈ above, lf ∉ l) ∧ lf ∉ line ∧
      X = stacked above ++ line ++ R ∧
      b.insertPoint (Position.after X) = (Position.after (stacked above ++ line), comma) ∧
      Slack line comma R := by
  obtain ⟨above, v, y, below, wholeAbove, vApart, -, -, rfl, -, cut⟩ := lines_around holds
  have stop := insertsAt_insertPoint b (Position.after (stacked above ++ v))
  rw [Position.after_stacked wholeAbove vApart] at stop ⊢
  -- Two of the three stops continue the list right at its end.
  have atClose : ∃ above' line R, (∀ l ∈ above', lf ∉ l) ∧ lf ∉ line ∧
      stacked above ++ v = stacked above' ++ line ++ R ∧
      (⟨above.length, v.length⟩ : Position) = Position.after (stacked above' ++ line) ∧
      ∀ comma, Slack line comma R :=
    ⟨above, v, [], wholeAbove, vApart, by simp, (Position.after_stacked wholeAbove vApart).symm,
      fun _ => Slack.none⟩
  generalize b.insertPoint ⟨above.length, v.length⟩ = result at stop ⊢
  obtain ⟨p, comma⟩ := result
  cases stop with
  | here _ =>
      obtain ⟨above', line, R, whole, lineApart, text, place, slack⟩ := atClose
      exact ⟨above', line, R, _, whole, lineApart, text, by rw [place], slack _⟩
  | @behind k column comma vBlank last codeEnd =>
      rw [lineBefore_after cut] at vBlank
      simp only [Int.toNat_natCast] at last
      have within : column ≤ (b.line k).length ∧
          Edge ((b.line k).take column) comma ((b.line k).drop column) := by
        cases codeEnd with
        | whole code =>
            refine ⟨Nat.le_refl _, Edge.code (w := []) (by simp) ?_⟩
            simpa using code
        | comma ends => exact ⟨Nat.le_refl _, Edge.comment (by simp) rfl (by simpa using ends)⟩
        | code _ =>
            obtain ⟨w, codeCut, wBlank⟩ := exists_lineCode (b.line k)
            have front : lineCode (b.line k) <+: b.line k :=
              (List.prefix_append _ w).trans (codeCut ▸ stripComment_isPrefix (b.line k))
            refine ⟨front.length_le, Edge.code wBlank ?_⟩
            rw [List.take_append_drop, ← List.prefix_iff_eq_take.mp front, codeCut]
      obtain ⟨above', line, R, whole, lineApart, text, place, slack⟩ :=
        slack_of_line cut wholeAbove vApart last.above within.1 within.2 last.idle vBlank
      exact ⟨above', line, R, comma, whole, lineApart, text, by rw [place], slack⟩
  | bare vBlank idle place =>
      rw [lineBefore_after cut] at vBlank
      simp only [Int.toNat_natCast] at idle place
      rcases place with rfl | ⟨m, below, blank, rfl⟩
      · obtain ⟨above', line, R, whole, lineApart, text, place, slack⟩ := atClose
        exact ⟨above', line, R, false, whole, lineApart, text, by rw [place], slack _⟩
      · have code : stripComment (b.line m) = b.line m :=
          stripComment_of_blanks (blank m (Nat.le_refl m) below)
        have edge :
            Edge ((b.line m).take (b.line m).length) false ((b.line m).drop (b.line m).length) := by
          refine Edge.code (w := []) (by simp) ?_
          simpa using code
        obtain ⟨above', line, R, whole, lineApart, text, place, slack⟩ :=
          slack_of_line cut wholeAbove vApart below (Nat.le_refl _) edge
            (fun j _ j_lt => idle j j_lt) vBlank
        exact ⟨above', line, R, false, whole, lineApart, text, by rw [place], slack⟩

/-! ## Insert points behind a known last entry -/

/-- How the line of a last entry goes on behind it: with blanks and a comment,
or at once inside a comment behind a comma. -/
inductive Close (line r : Text) : Prop
  | code {w : Text} : (∀ a ∈ w, isLineBlank a = true) →
      stripComment (line ++ r) = line ++ w →
      ¬ Blanks line → (∀ a ∈ line.getLast?, isLineBlank a = false ∧ a ≠ comma) →
      Close line r
  | comment : Blanks r → stripComment (line ++ r) ≠ line ++ r →
      endsWithComma (lineCode (line ++ r)) = true → Close line r

/-- A last entry, at the end of `line`, and what separates it from the closing
delimiter. -/
inductive Kept (line : Text) : Text → Prop
  | none : ¬ Blanks line → Kept line []
  | lines {r v : Text} {rs : List Text} : (∀ l ∈ r :: rs, lf ∉ l) → lf ∉ v →
      Close line r → (∀ l ∈ rs, Blanks (stripComment l)) → Blanks v →
      Kept line (stacked (r :: rs) ++ v)

theorem trimEndWhere_append {t w : Text} (blank : ∀ a ∈ w, isLineBlank a = true)
    (inked : ∀ a ∈ t.getLast?, isLineBlank a = false) :
    (t ++ w).trimEndWhere isLineBlank = t := by
  rw [trimEndWhere, List.reverse_append,
    List.dropWhile_append_of_pos fun a member => blank a (List.mem_reverse.mp member)]
  cases ends : t.reverse with
  | nil => simpa using ends.symm
  | cons a rest =>
      have last : t.getLast? = some a := by rw [← List.head?_reverse, ends]; rfl
      have stays : ¬ isLineBlank a = true := by simp [inked a (by simp [last])]
      rw [List.dropWhile_cons_of_neg stays, ← ends, List.reverse_reverse]

theorem Close.not_blanks {line r : Text} (close : Close line r) :
    ¬ Blanks (stripComment (line ++ r)) := by
  cases close with
  | code wBlank code inked _ =>
      rw [code, blanks_append_right_iff (blanks_of_isLineBlank wBlank)]
      exact inked
  | comment _ _ ends =>
      rw [← blanks_lineCode_iff]
      exact not_blanks_of_endsWithComma ends

theorem Close.codeEnd {line r : Text} (close : Close line r) {column : Nat} {comma : Bool}
    (stop : CodeEnd (line ++ r) column comma) :
    ∃ W r', r = W ++ r' ∧ Blanks W ∧ column = (line ++ W).length := by
  have atEnd (blank : Blanks r) : ∃ W r', r = W ++ r' ∧ Blanks W ∧
      (line ++ r).length = (line ++ W).length :=
    ⟨r, [], by simp, blank, rfl⟩
  cases close with
  | @code w wBlank code _ inked =>
      have ended : lineCode (line ++ r) = line := by
        rw [lineCode, code]
        exact trimEndWhere_append wBlank fun a member => (inked a member).1
      cases stop with
      | whole whole =>
          obtain rfl : r = w := List.append_cancel_left (whole.symm.trans code)
          exact atEnd (blanks_of_isLineBlank wBlank)
      | comma ends =>
          rw [ended] at ends
          obtain ⟨init, rfl⟩ := List.isSuffixOf_iff_suffix.mp ends
          exact absurd rfl (inked Text.comma (by simp)).2
      | code _ => exact ⟨[], r, by simp, Runs.nil, by rw [ended, List.append_nil]⟩
  | comment blank comment ends =>
      cases stop with
      | whole whole => exact absurd whole comment
      | comma _ => exact atEnd blank
      | code noComma =>
          rw [ends] at noComma
          cases noComma

theorem lastCode_of_lines {b : Buffer} {above rs below : List Text} {entry : Text}
    (cut : b.lines = above ++ entry :: (rs ++ below)) (code : ¬ Blanks (stripComment entry))
    (idle : ∀ l ∈ rs, Blanks (stripComment l)) :
    b.LastCode above.length (above ++ entry :: rs).length where
  above := by simp
  code := by rwa [line_at cut]
  idle j behind within := by
    obtain ⟨i, rfl⟩ : ∃ i, j = above.length + (i + 1) := ⟨j - above.length - 1, by omega⟩
    have inside : i < rs.length := by
      simp only [List.length_append, List.length_cons] at within
      omega
    have lineBelow : b.line ((above.length + (i + 1) : Nat) : Int) = rs[i] := by
      rw [line_natCast, cut, List.getD_eq_getElem?_getD,
        List.getElem?_append_right (Nat.le_add_right _ _), Nat.add_sub_cancel_left,
        List.getElem?_cons_succ, List.getElem?_append_left inside, List.getElem?_eq_getElem inside]
      rfl
    rw [lineBelow]
    exact idle _ (List.getElem_mem inside)

theorem insertPoint_of_kept {b : Buffer} {above : List Text} {line R Y : Text}
    (holds : b.lines = splitAt lf (stacked above ++ line ++ R ++ Y))
    (wholeAbove : ∀ l ∈ above, lf ∉ l) (lineApart : lf ∉ line) (kept : Kept line R) :
    ∃ W R' comma, R = W ++ R' ∧ Blanks W ∧ lf ∉ W ∧
      b.insertPoint (Position.after (stacked above ++ line ++ R)) =
        (Position.after (stacked above ++ line ++ W), comma) := by
  obtain ⟨y, below, yApart, wholeBelow, rfl⟩ := exists_hung Y
  cases kept with
  | none inked =>
      rw [List.append_nil] at holds ⊢
      have cut : b.lines = above ++ (line ++ y) :: below :=
        holds.trans (splitAt_around wholeAbove lineApart yApart wholeBelow)
      have stop := insertsAt_insertPoint b (Position.after (stacked above ++ line))
      rw [Position.after_stacked wholeAbove lineApart] at stop ⊢
      generalize b.insertPoint ⟨above.length, line.length⟩ = result at stop ⊢
      obtain ⟨p, comma⟩ := result
      refine ⟨[], [], comma, rfl, Runs.nil, by simp, ?_⟩
      rw [List.append_nil, Position.after_stacked wholeAbove lineApart]
      cases stop with
      | here _ => rfl
      | behind blank _ _ => exact absurd (lineBefore_after cut ▸ blank) inked
      | bare blank _ _ => exact absurd (lineBefore_after cut ▸ blank) inked
  | @lines r v rs whole vApart close idle vBlank =>
      have wholeLines : ∀ l ∈ above ++ (line ++ r) :: rs, lf ∉ l := by
        intro l member
        rcases List.mem_append.mp member with member | member
        · exact wholeAbove l member
        · rcases List.mem_cons.mp member with rfl | member
          · simp [lineApart, whole r (by simp)]
          · exact whole l (by simp [member])
      have stack : stacked above ++ line ++ (stacked (r :: rs) ++ v) =
          stacked (above ++ (line ++ r) :: rs) ++ v := by
        simp
      rw [stack] at holds ⊢
      have cut : b.lines = (above ++ (line ++ r) :: rs) ++ (v ++ y) :: below :=
        holds.trans (splitAt_around wholeLines vApart yApart wholeBelow)
      have entryCut : b.lines = above ++ (line ++ r) :: (rs ++ (v ++ y) :: below) := by
        rw [cut, List.append_assoc, List.cons_append]
      have entryLine := line_at entryCut
      -- The line of the entry is the last one with code, which leaves one stop only.
      have entryLast : b.LastCode above.length (above ++ (line ++ r) :: rs).length :=
        lastCode_of_lines entryCut close.not_blanks idle
      have stop :=
        insertsAt_insertPoint b (Position.after (stacked (above ++ (line ++ r) :: rs) ++ v))
      rw [Position.after_stacked wholeLines vApart] at stop ⊢
      generalize b.insertPoint ⟨(above ++ (line ++ r) :: rs).length, v.length⟩ =
        result at stop ⊢
      obtain ⟨p, comma⟩ := result
      cases stop with
      | here inked =>
          rw [lineBefore_after cut] at inked
          exact absurd vBlank inked
      | @behind k column comma _ last codeEnd =>
          obtain rfl := last.unique entryLast
          rw [entryLine] at codeEnd
          obtain ⟨W, r', rCut, wBlank, columnExact⟩ := close.codeEnd codeEnd
          have wApart : lf ∉ W := fun member => whole r (by simp) (by simp [rCut, member])
          refine ⟨W, r' ++ lf :: (stacked rs ++ v), comma, by simp [rCut], wBlank, wApart, ?_⟩
          have longer : lf ∉ line ++ W := by simp [lineApart, wApart]
          rw [List.append_assoc, Position.after_stacked wholeAbove longer, columnExact]
      | bare _ idleAll _ => exact absurd (idleAll above.length entryLast.above) entryLast.code

end Buffer

end ModuleDeps
