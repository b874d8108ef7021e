import ModuleDeps.Proofs.Block.Reread
import ModuleDeps.Proofs.Buffer.Slice

/-!
# Least occurrences

A search goes through the lines from the start on, the first of them from the
starting column, so what it reports is the least position, line first, that does
not come before the start and from which a line carries the needle.  A needle
without line ends occurs in the rendered text where a line carries it and nowhere
else, so the offset of that position is the first occurrence behind the start
(`search_least`).
-/

set_option autoImplicit false

namespace ModuleDeps

open Text

namespace Position

/-- The least position with a property, or that there is none. -/
def Least (holds : Position → Prop) : Option Position → Prop
  | none => ∀ p, ¬ holds p
  | some p => holds p ∧ ∀ q, holds q → ¬ q.Before p

theorem Least.unique {holds : Position → Prop} {found found' : Option Position}
    (least : Least holds found) (least' : Least holds found') : found = found' := by
  cases found with
  | none =>
      cases found' with
      | none => rfl
      | some q => exact absurd least'.1 (least q)
  | some p =>
      cases found' with
      | none => exact absurd least.1 (least' p)
      | some q => rw [eq_of_not_before (least'.2 p least.1) (least.2 q least'.1)]

theorem Least.congr {holds holds' : Position → Prop} (same : ∀ p, holds p ↔ holds' p)
    {found : Option Position} (least : Least holds found) : Least holds' found := by
  have equal : holds = holds' := funext fun p => propext (same p)
  exact equal ▸ least

end Position

namespace Buffer

variable {b : Buffer} {needle : Text}

/-- The line of the position carries the needle from its column on. -/
def Carries (b : Buffer) (needle : Text) (p : Position) : Prop :=
  ∃ (n : Nat) (lead tail : Text), b.lines[n]? = some (lead ++ (needle ++ tail)) ∧
    p = ⟨n, lead.length⟩

/-- What is looked for from a start. -/
def CarriesFrom (b : Buffer) (needle : Text) (start p : Position) : Prop :=
  b.Carries needle p ∧ ¬ p.Before start

/-! ## Line by line -/

theorem CarriesFrom.cases {n : Nat} {column : Int} {l : Text} (line : b.lines[n]? = some l)
    {p : Position} (carries : b.CarriesFrom needle ⟨n, column⟩ p) :
    (∃ lead tail, l = lead ++ (needle ++ tail) ∧ p = ⟨n, lead.length⟩ ∧
      column ≤ lead.length) ∨
      (n : Int) < p.line := by
  obtain ⟨⟨m, lead, tail, atLine, rfl⟩, notBefore⟩ := carries
  simp only [Position.Before] at notBefore
  by_cases here : m = n
  · subst here
    obtain rfl : lead ++ (needle ++ tail) = l := Option.some.inj (atLine.symm.trans line)
    exact .inl ⟨lead, tail, rfl, rfl, by omega⟩
  · right
    simp only
    omega

theorem carriesFrom_below {n : Nat} {column : Int} {l : Text} (line : b.lines[n]? = some l)
    (nothing : ∀ lead tail, l = lead ++ (needle ++ tail) → lead.length < column)
    (p : Position) :
    b.CarriesFrom needle ⟨(n + 1 : Nat), 0⟩ p ↔ b.CarriesFrom needle ⟨n, column⟩ p := by
  constructor
  · rintro ⟨carries, notBefore⟩
    refine ⟨carries, ?_⟩
    simp only [Position.Before] at notBefore ⊢
    omega
  · intro carries
    refine ⟨carries.1, ?_⟩
    obtain ⟨lead, tail, cut, rfl, behind⟩ | below := carries.cases line
    · have := nothing lead tail cut
      omega
    · obtain ⟨m, lead, -, -, rfl⟩ := carries.1
      simp only [Position.Before] at below ⊢
      omega

theorem not_infix_of_indexOf? {t : Text} (absent : indexOf? needle t = none) :
    ¬ needle <:+: t := by
  by_cases nonempty : needle = []
  · rw [nonempty, indexOf?_eq_some_of_isPrefix List.nil_prefix] at absent
    cases absent
  · exact (indexOf?_eq_none_iff nonempty).mp absent

theorem least_onLine {n c : Nat} {l : Text} (line : b.lines[n]? = some l)
    (inside : c ≤ l.length) {i : Nat} (found : indexOf? needle (l.drop c) = some i) :
    Position.Least (b.CarriesFrom needle ⟨n, c⟩) (some ⟨n, c + i⟩) := by
  obtain ⟨lead, tail, cut, rfl, first⟩ := indexOf?_spec found
  have short : (l.take c).length = c := List.length_take_of_le inside
  have whole : l = l.take c ++ lead ++ (needle ++ tail) := by
    rw [List.append_assoc, ← cut, List.take_append_drop]
  refine ⟨⟨⟨n, l.take c ++ lead, tail, whole ▸ line, ?_⟩, ?_⟩, ?_⟩
  · rw [List.length_append, short]
    rfl
  · simp only [Position.Before]
    omega
  · intro q carries
    obtain ⟨lead', tail', cut', rfl, behind⟩ | below := carries.cases line
    · -- an earlier occurrence on the line would have been found first
      have notEarlier := first (lead'.length - c)
      rw [List.drop_drop, show c + (lead'.length - c) = lead'.length by omega, cut',
        List.drop_left] at notEarlier
      have := mt notEarlier (not_not_intro (List.prefix_append _ _))
      simp only [Position.Before]
      omega
    · simp only [Position.Before]
      omega

theorem searchLines_least {lines : List Text} {n : Nat} {column : Int}
    (isRest : b.lines.drop n = lines) (nonneg : 0 ≤ column) :
    ∃ found, searchLines needle lines n column = .ok found ∧
      Position.Least (b.CarriesFrom needle ⟨n, column⟩) found := by
  induction lines generalizing n column with
  | nil =>
      refine ⟨none, rfl, ?_⟩
      rintro p ⟨⟨m, lead, tail, atLine, rfl⟩, notBefore⟩
      have inside := (List.getElem?_eq_some_iff.mp atLine).1
      have outside := List.drop_eq_nil_iff.mp isRest
      simp only [Position.Before] at notBefore
      omega
  | cons l rest ih =>
      have line : b.lines[n]? = some l := by
        rw [← List.head?_drop, isRest]
        rfl
      -- Without an occurrence in this line the search goes on in the next one.
      have onward (nothing : ∀ lead tail, l = lead ++ (needle ++ tail) → lead.length < column) :
          ∃ found, searchLines needle rest (n + 1) 0 = .ok found ∧
            Position.Least (b.CarriesFrom needle ⟨n, column⟩) found := by
        have below : b.lines.drop (n + 1) = rest := by
          rw [← List.tail_drop, isRest]
          rfl
        obtain ⟨found, run, least⟩ := ih below (Int.le_refl 0)
        exact ⟨found, run, least.congr (carriesFrom_below line nothing)⟩
      rw [searchLines]
      by_cases past : (l.length : Int) < column
      · rw [if_pos past]
        refine onward fun lead tail cut => ?_
        have := congrArg List.length cut
        rw [List.length_append] at this
        omega
      · rw [if_neg past, if_neg (by omega)]
        obtain ⟨c, rfl⟩ : ∃ c : Nat, column = c := ⟨column.toNat, by omega⟩
        rw [Int.toNat_natCast]
        cases found : indexOf? needle (l.drop c) with
        | none =>
            refine onward fun lead tail cut => ?_
            by_contra behind
            apply not_infix_of_indexOf? found
            rw [cut, List.drop_append_of_le_length (by omega)]
            exact ⟨lead.drop c, tail, by simp⟩
        | some i => exact ⟨_, rfl, least_onLine line (by omega) found⟩

theorem search_eq_least (b : Buffer) (needle : Text) {start : Position}
    (lineNonneg : 0 ≤ start.line) (columnNonneg : 0 ≤ start.column) :
    ∃ found, b.search needle start = .ok found ∧
      Position.Least (b.CarriesFrom needle start) found := by
  have exact : (⟨(start.line.toNat : Nat), start.column⟩ : Position) = start := by
    rw [Int.toNat_of_nonneg lineNonneg]
  have run := @searchLines_least b needle _ start.line.toNat _ rfl columnNonneg
  rw [search, if_pos lineNonneg]
  rwa [exact] at run

/-! ## In the rendered text -/

section Rendered

variable (nonempty : needle ≠ []) (lfApart : lf ∉ needle) (crApart : cr ∉ needle)
include nonempty lfApart crApart

theorem indexOf?_withEnding (b : Buffer) (Y : Text) :
    indexOf? needle (b.withEnding Y) = (indexOf? needle Y).map fun i =>
      (b.withEnding (Y.take i)).length := by
  cases found : indexOf? needle Y with
  | none =>
      have absent := (indexOf?_eq_none_iff nonempty).mp found
      rw [Option.map_none, indexOf?_eq_none_iff nonempty,
        (b.alikeFront_withEnding Y).alike.infix_iff nonempty lfApart crApart]
      exact absent
  | some i =>
      obtain ⟨lead, tail, cut, leads, isFront⟩ := exists_leads nonempty found
      have leads' := (b.alikeFront_withEnding lead).symm.leads nonempty lfApart crApart leads
      rw [Option.map_some, isFront, cut, withEnding_append, withEnding_append,
        withEnding_of_notMem b lfApart]
      exact leads'.indexOf? nonempty _

end Rendered

theorem Whole.exists_after (whole : b.Whole) {n : Nat} {v y : Text}
    (line : b.lines[n]? = some (v ++ y)) :
    ∃ X Y, b.lines = splitAt lf (X ++ Y) ∧ Position.after X = ⟨n, v.length⟩ := by
  obtain ⟨cut, above, aboveWhole, vApart, yApart, belowWhole⟩ := whole.around line
  refine ⟨stacked (b.lines.take n) ++ v, y ++ hung (b.lines.drop (n + 1)), ?_, ?_⟩
  · rw [splitAt_around aboveWhole vApart yApart belowWhole]
    exact cut
  · rw [Position.after_stacked aboveWhole vApart, above]

end Buffer

/-- The first place of a text at or behind `k` from which it goes on with the
needle, or that there is none. -/
def Text.FirstFrom (needle t : Text) (k : Nat) : Option Nat → Prop
  | none => ∀ j, k ≤ j → ¬ needle <+: t.drop j
  | some j =>
    k ≤ j ∧ needle <+: t.drop j ∧ ∀ i, k ≤ i → i < j → ¬ needle <+: t.drop i

theorem Text.firstFrom_append {needle : Text} (nonempty : needle ≠ []) (X Y : Text) :
    FirstFrom needle (X ++ Y) X.length ((indexOf? needle Y).map (X.length + ·)) := by
  have behind {i : Nat} (past : X.length ≤ i) : (X ++ Y).drop i = Y.drop (i - X.length) := by
    rw [List.drop_append, List.drop_eq_nil_of_le past, List.nil_append]
  cases found : indexOf? needle Y with
  | none =>
      intro j past occurs
      rw [behind past] at occurs
      exact (indexOf?_eq_none_iff nonempty).mp found
        (occurs.isInfix.trans (List.drop_suffix _ _).isInfix)
  | some i =>
      obtain ⟨lead, tail, cut, rfl, first⟩ := indexOf?_spec found
      refine ⟨Nat.le_add_right _ _, ?_, fun i past before => ?_⟩
      · rw [behind (Nat.le_add_right _ _), Nat.add_sub_cancel_left, cut, List.drop_left]
        exact List.prefix_append _ _
      · rw [behind past]
        exact first _ (Nat.sub_lt_left_of_lt_add past before)

namespace Buffer

variable {b : Buffer} {needle : Text}

/-- The offset of what a search finds is the first occurrence behind the offset of
the start. -/
theorem Whole.search_firstFrom (whole : b.Whole) (nonempty : needle ≠ [])
    (lfApart : lf ∉ needle) (crApart : cr ∉ needle) {start : Position}
    (lineNonneg : 0 ≤ start.line) (columnNonneg : 0 ≤ start.column)
    (lineInside : start.line < b.lineCount)
    (columnInside : start.column ≤ (b.line start.line).length) :
    ∃ k, b.offset start = .ok k ∧
      (∀ p, b.search needle start = .ok (some p) → ∃ j, b.offset p = .ok j ∧
        FirstFrom needle b.text k (some j)) ∧
      (b.search needle start = .ok none → FirstFrom needle b.text k none) := by
  obtain ⟨n, c, rfl⟩ : ∃ n c : Nat, start = ⟨n, c⟩ := by
    refine ⟨start.line.toNat, start.column.toNat, ?_⟩
    rw [Int.toNat_of_nonneg lineNonneg, Int.toNat_of_nonneg columnNonneg]
  simp only [line_natCast, lineCount, Int.ofNat_lt, Int.ofNat_le] at lineInside columnInside
  rw [List.getD_eq_getElem _ _ lineInside] at columnInside
  have line : b.lines[n]? = some (b.lines[n].take c ++ b.lines[n].drop c) := by
    rw [List.take_append_drop]
    exact List.getElem?_eq_getElem lineInside
  obtain ⟨X, Y, holds, place⟩ := whole.exists_after line
  rw [List.length_take_of_le columnInside] at place
  have first := firstFrom_append nonempty (b.withEnding X) (b.withEnding Y)
  rw [← withEnding_append, ← text_eq holds,
    indexOf?_withEnding nonempty lfApart crApart] at first
  rw [← place, search_after holds nonempty lfApart]
  refine ⟨_, offset_after holds, ?_⟩
  cases found : indexOf? needle Y with
  | none =>
      rw [found] at first
      refine ⟨fun p other => ?_, fun _ => first⟩
      cases other
  | some i =>
      rw [found] at first
      have holds' : b.lines = splitAt lf (X ++ Y.take i ++ Y.drop i) := by
        rw [List.append_assoc, List.take_append_drop, holds]
      refine ⟨fun p same => ?_, fun other => ?_⟩
      · obtain rfl := Option.some.inj (Except.ok.inj same)
        refine ⟨_, offset_after holds', ?_⟩
        rw [withEnding_append, List.length_append]
        exact first
      · cases other

end Buffer

/-- A search from a position that is not negative reports the least position at or
behind it from which a line carries the needle.  In the rendered text that is the
first occurrence behind the start. -/
theorem search_least (t : Text) (past : List Batch) (needle : Text) (start : Position)
    (lineNonneg : 0 ≤ start.line) (columnNonneg : 0 ≤ start.column) :
    (∀ p, (reached t past).search needle start = .ok (some p) ↔
      (reached t past).Carries needle p ∧ ¬ p.Before start ∧
        ∀ q, (reached t past).Carries needle q → ¬ q.Before start → ¬ q.Before p) ∧
    ((reached t past).search needle start = .ok none ↔
      ∀ p, (reached t past).Carries needle p → p.Before start) ∧
    (needle ≠ [] → cr ∉ needle → lf ∉ needle →
      start.line < (reached t past).lineCount →
      start.column ≤ ((reached t past).line start.line).length →
      ∃ k, (reached t past).offset start = .ok k ∧
        (∀ p, (reached t past).search needle start = .ok (some p) →
          ∃ j, (reached t past).offset p = .ok j ∧
          FirstFrom needle (reached t past).text k (some j)) ∧
        ((reached t past).search needle start = .ok none →
          FirstFrom needle (reached t past).text k none)) := by
  have whole : (reached t past).Whole := (Buffer.whole_ofText t).attemptAll past
  obtain ⟨found, run, least⟩ :=
    Buffer.search_eq_least (reached t past) needle lineNonneg columnNonneg
  have least_iff (found' : Option Position) : (reached t past).search needle start = .ok found' ↔
      Position.Least ((reached t past).CarriesFrom needle start) found' := by
    rw [run, Except.ok.injEq]
    exact ⟨fun same => same ▸ least, fun least' => least.unique least'⟩
  refine ⟨fun p => ?_, ?_, ?_⟩
  · rw [least_iff, Position.Least]
    simp only [Buffer.CarriesFrom, and_assoc, and_imp]
  · rw [least_iff, Position.Least]
    simp only [Buffer.CarriesFrom, not_and, not_not]
  · intro nonempty crApart lfApart lineInside columnInside
    exact whole.search_firstFrom nonempty lfApart crApart lineNonneg columnNonneg lineInside
      columnInside

/-- In a CRLF document with a line put in, an occurrence in front of the starting
column does not count, and the next one is two line ends away. -/
theorem search_least_nextLine :
    (reached (utf8 "a [b]\r\n  ] c\r\n]") [⟨1, [⟨⟨1, 0⟩, utf8 "X\n"⟩]⟩]).search
      (utf8 "] c") ⟨0, 4⟩ =
        .ok (some ⟨2, 2⟩) ∧
      (∀ q, (reached (utf8 "a [b]\r\n  ] c\r\n]")
        [⟨1, [⟨⟨1, 0⟩, utf8 "X\n"⟩]⟩]).Carries (utf8 "] c") q →
        ¬ q.Before ⟨0, 4⟩ → ¬ q.Before ⟨2, 2⟩) ∧
      FirstFrom (utf8 "] c") (utf8 "a [b]\r\nX\r\n  ] c\r\n]") 4 (some 12) := by
  obtain ⟨least, -, rendered⟩ :=
    search_least (utf8 "a [b]\r\n  ] c\r\n]") [⟨1, [⟨⟨1, 0⟩, utf8 "X\n"⟩]⟩]
    (utf8 "] c") ⟨0, 4⟩ (by decide) (by decide)
  have run : (reached (utf8 "a [b]\r\n  ] c\r\n]") [⟨1, [⟨⟨1, 0⟩, utf8 "X\n"⟩]⟩]).search
      (utf8 "] c") ⟨0, 4⟩ =
      .ok (some ⟨2, 2⟩) := by decide +kernel
  obtain ⟨k, place, first, -⟩ :=
    rendered (by decide) (by decide) (by decide) (by decide +kernel) (by decide +kernel)
  obtain ⟨j, offset, isFirst⟩ := first _ run
  have here :
      (reached (utf8 "a [b]\r\n  ] c\r\n]") [⟨1, [⟨⟨1, 0⟩, utf8 "X\n"⟩]⟩]).offset
        ⟨0, 4⟩ = .ok 4 := by
    decide +kernel
  have there :
      (reached (utf8 "a [b]\r\n  ] c\r\n]") [⟨1, [⟨⟨1, 0⟩, utf8 "X\n"⟩]⟩]).offset
        ⟨2, 2⟩ = .ok 12 := by
    decide +kernel
  have text :
      (reached (utf8 "a [b]\r\n  ] c\r\n]") [⟨1, [⟨⟨1, 0⟩, utf8 "X\n"⟩]⟩]).text =
      utf8 "a [b]\r\nX\r\n  ] c\r\n]" := by decide +kernel
  obtain rfl := Except.ok.inj (place.symm.trans here)
  obtain rfl := Except.ok.inj (offset.symm.trans there)
  exact ⟨run, ((least _).mp run).2.2, text ▸ isFirst⟩

end ModuleDeps
