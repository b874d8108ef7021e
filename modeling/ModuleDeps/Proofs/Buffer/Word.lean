import ModuleDeps.Buffer.Word
import ModuleDeps.Proofs.Buffer.Slice
import ModuleDeps.Proofs.Buffer.Untouched

/-!
# The word that touches a cursor

The words of a line are its longest runs of word bytes (`Text.mem_words_iff`).
Two of them have another byte in between, so a column touches at most one, ends
included.  A selection within a line is the text between its columns.
-/

set_option autoImplicit false

namespace ModuleDeps

open Text

namespace Text

/-! ## Columns -/

/-- The text of a line between two columns, in whichever order.  A column in front
of the line counts as its start and one behind it as its end. -/
def between (l : Text) (c d : Int) : Text := (l.take (max c d).toNat).drop (min c d).toNat

theorem between_comm (l : Text) (c d : Int) : between l c d = between l d c := by
  rw [between, between, Int.max_comm, Int.min_comm]

/-! ## Runs -/

def WordByteAt (t : Text) (i : Nat) : Prop := ∃ b ∈ t[i]?, isWord b = true

instance (t : Text) : DecidablePred t.WordByteAt :=
  fun i => inferInstanceAs (Decidable (∃ b ∈ t[i]?, isWord b = true))

/-- A longest run of word bytes, from the offset `a` up to the offset `b`. -/
structure IsRun (t : Text) (a b : Nat) : Prop where
  nonempty : a < b
  inside : ∀ i < b, a ≤ i → t.WordByteAt i
  first : 0 < a → ¬ t.WordByteAt (a - 1)
  last : ¬ t.WordByteAt b

/-- A longest run that a column touches. -/
structure RunAt (t : Text) (column : Int) (a b : Nat) : Prop extends IsRun t a b where
  start_le : (a : Int) ≤ column
  le_stop : column ≤ b

theorem IsRun.start_le {t : Text} {a b a' b' : Nat} (run : t.IsRun a b) (run' : t.IsRun a' b')
    (near : a' ≤ b) :
    a' ≤ a := by
  by_contra later
  exact run'.first (by omega) (run.inside (a' - 1) (by omega) (by omega))

theorem IsRun.stop_le {t : Text} {a b b' : Nat} (run : t.IsRun a b) (run' : t.IsRun a b') :
    b' ≤ b := by
  by_contra longer
  exact run.last (run'.inside b (by omega) (Nat.le_of_lt run.nonempty))

/-- A column touches at most one run. -/
theorem RunAt.unique {t : Text} {column : Int} {a b a' b' : Nat} (run : t.RunAt column a b)
    (run' : t.RunAt column a' b') : a = a' ∧ b = b' := by
  have near : a' ≤ b := by
    have := run'.start_le
    have := run.le_stop
    omega
  have near' : a ≤ b' := by
    have := run.start_le
    have := run'.le_stop
    omega
  obtain rfl :=
    Nat.le_antisymm (run'.toIsRun.start_le run.toIsRun near')
      (run.toIsRun.start_le run'.toIsRun near)
  exact ⟨rfl, Nat.le_antisymm (run'.toIsRun.stop_le run.toIsRun)
    (run.toIsRun.stop_le run'.toIsRun)⟩

/-! ## Runs as parts of a text -/

/-- A word with no word byte on either side. -/
structure Surrounded (lead word behind : Text) : Prop where
  nonempty : word ≠ []
  inside : ∀ b ∈ word, isWord b = true
  first : ∀ b, lead.getLast? = some b → isWord b = false
  last : ∀ b, behind.head? = some b → isWord b = false

theorem Surrounded.isRun {lead word behind : Text} (surrounded : Surrounded lead word behind) :
    (lead ++ (word ++ behind)).IsRun lead.length (lead.length + word.length) := by
  refine ⟨?_, fun i below least => ?_, fun some' ⟨b, atEnd, isWord⟩ => ?_,
    fun ⟨b, atEnd, isWord⟩ => ?_⟩
  · have := List.length_pos_iff.mpr surrounded.nonempty
    omega
  · have bound : i - lead.length < word.length := by omega
    refine ⟨word[i - lead.length], ?_, surrounded.inside _ (List.getElem_mem bound)⟩
    rw [List.getElem?_append_right least, List.getElem?_append_left bound,
      List.getElem?_eq_getElem bound]
    exact rfl
  · rw [List.getElem?_append_left (by omega), ← List.getLast?_eq_getElem?] at atEnd
    rw [surrounded.first b atEnd] at isWord
    cases isWord
  · rw [List.getElem?_append_right (by omega), Nat.add_sub_cancel_left,
      List.getElem?_append_right (Nat.le_refl _), Nat.sub_self, ← List.head?_eq_getElem?] at atEnd
    rw [surrounded.last b atEnd] at isWord
    cases isWord

theorem Surrounded.widen {front lead word behind : Text} (surrounded : Surrounded lead word behind)
    (first : lead = [] → ∀ b, front.getLast? = some b → isWord b = false) :
    Surrounded (front ++ lead) word behind := by
  refine { surrounded with first := fun b atEnd => ?_ }
  by_cases empty : lead = []
  · rw [empty, List.append_nil] at atEnd
    exact first empty b atEnd
  · rw [List.getLast?_append_of_ne_nil _ empty] at atEnd
    exact surrounded.first b atEnd

theorem IsRun.exists_surrounded {t : Text} {a b : Nat} (run : t.IsRun a b) :
    ∃ lead word behind, t = lead ++ (word ++ behind) ∧ lead.length = a ∧
      a + word.length = b ∧
      Surrounded lead word behind := by
  obtain ⟨nonempty, inside, first, last⟩ := run
  have short : b ≤ t.length := by
    obtain ⟨c, atEnd, -⟩ := inside (b - 1) (by omega) (by omega)
    have := (List.getElem?_eq_some_iff.mp atEnd).1
    omega
  refine ⟨t.take a, (t.take b).drop a, t.drop b, ?_, ?_, ?_, ?_, fun c member => ?_,
    fun c atEnd => ?_, fun c atStart => ?_⟩
  · have front : t.take a = (t.take b).take a := by
      rw [List.take_take, Nat.min_eq_left (Nat.le_of_lt nonempty)]
    rw [front, ← List.append_assoc, List.take_append_drop, List.take_append_drop]
  · rw [List.length_take]
    omega
  · rw [List.length_drop, List.length_take]
    omega
  · rw [Ne, List.drop_eq_nil_iff, List.length_take]
    omega
  · obtain ⟨i, bound, rfl⟩ := List.getElem_of_mem member
    rw [List.length_drop, List.length_take] at bound
    obtain ⟨c, atPlace, isWord⟩ := inside (a + i) (by omega) (by omega)
    rwa [List.getElem_drop, List.getElem_take, (List.getElem?_eq_some_iff.mp atPlace).2]
  · have some : 0 < a := by
      by_contra zero
      obtain rfl : a = 0 := by omega
      cases atEnd
    rw [List.getLast?_eq_getElem?, List.length_take, Nat.min_eq_left (by omega),
      List.getElem?_take_of_lt (by omega)] at atEnd
    exact Bool.eq_false_iff.mpr fun isWord => first some ⟨c, atEnd, isWord⟩
  · rw [List.head?_drop] at atStart
    exact Bool.eq_false_iff.mpr fun isWord => last ⟨c, atStart, isWord⟩

/-! ## Words -/

section Words

variable {b : UInt8} {n : Nat} {lead word behind t : Text}

theorem wordsFrom_other (other : isWord b = false) :
    wordsFrom n (b :: t) = wordsFrom (n + 1) t := by
  simp [wordsFrom, other]

theorem le_of_mem_wordsFrom {row : Nat × Text} (member : row ∈ wordsFrom n t) : n ≤ row.1 := by
  induction t generalizing n row with
  | nil => cases member
  | cons b rest ih =>
      have later (inRest : row ∈ wordsFrom (n + 1) rest) : n ≤ row.1 :=
        Nat.le_of_succ_le (ih inRest)
      rw [wordsFrom] at member
      split at member
      · cases found : wordsFrom (n + 1) rest with
        | nil =>
            simp only [found, List.mem_singleton] at member
            simp [member]
        | cons first more =>
            obtain ⟨start, own⟩ := first
            rw [found] at later
            simp only [found] at member
            split at member <;> rcases List.mem_cons.mp member with rfl | member
            · simp
            · exact later (by simp [member])
            · simp
            · exact later member
      · exact later member

theorem wordsFrom_alone (inside : isWord b = true)
    (last : ∀ c, t.head? = some c → isWord c = false) :
    wordsFrom n (b :: t) = (n, [b]) :: wordsFrom (n + 1) t := by
  rw [wordsFrom, if_pos inside]
  cases t with
  | nil => rfl
  | cons c t =>
      rw [wordsFrom_other (last c rfl)]
      cases found : wordsFrom (n + 1 + 1) t with
      | nil => rfl
      | cons first more =>
          have later :=
            le_of_mem_wordsFrom (found ▸ List.mem_cons_self : first ∈ wordsFrom (n + 1 + 1) t)
          simp only [if_neg (show ¬ first.1 = n + 1 by omega)]

theorem wordsFrom_word (surrounded : Surrounded lead word behind) :
    wordsFrom n (word ++ behind) = (n, word) :: wordsFrom (n + word.length) behind := by
  obtain ⟨nonempty, inside, -, last⟩ := surrounded
  induction word generalizing n with
  | nil => exact absurd rfl nonempty
  | cons b word ih =>
      have isFirst : isWord b = true := inside b (by simp)
      cases word with
      | nil => exact wordsFrom_alone isFirst last
      | cons c word =>
          have rest :=
            ih (n := n + 1) (by simp) fun x member => inside x (List.mem_cons_of_mem _ member)
          rw [List.cons_append, wordsFrom, if_pos isFirst, rest]
          simp [Nat.add_comm, Nat.add_left_comm]

theorem wordsFrom_append (first : ∀ b, lead.getLast? = some b → isWord b = false) :
    wordsFrom n (lead ++ t) = wordsFrom n lead ++ wordsFrom (n + lead.length) t := by
  induction lead generalizing n with
  | nil => rfl
  | cons b lead ih =>
      cases lead with
      | nil =>
          have other := first b rfl
          rw [List.singleton_append, wordsFrom_other other, wordsFrom_other other]
          rfl
      | cons c lead =>
          have shift : n + 1 + (c :: lead).length = n + (b :: c :: lead).length := by
            simp only [List.length_cons]
            omega
          have rest := ih (n := n + 1) fun x atEnd => first x (by simpa using atEnd)
          rw [shift] at rest
          rw [List.cons_append, wordsFrom, wordsFrom, rest]
          split
          · cases wordsFrom (n + 1) (c :: lead) with
            | cons row more =>
                simp only [List.cons_append]
                split <;> rfl
            | nil =>
                -- What stands further on does not reach back to the byte.
                cases found : wordsFrom (n + (b :: c :: lead).length) t with
                | nil => rfl
                | cons row more =>
                    have later :=
                      le_of_mem_wordsFrom (found ▸ List.mem_cons_self : row ∈ wordsFrom _ t)
                    simp only [List.length_cons] at later
                    simp only [List.nil_append, if_neg (show ¬ row.1 = n + 1 by omega)]
                    rfl
          · rfl

theorem exists_word (isFirst : isWord b = true) (t : Text) :
    ∃ word behind, b :: t = word ++ behind ∧ Surrounded [] word behind := by
  refine ⟨_, _, (List.takeWhile_append_dropWhile (p := isWord)).symm, by simp [isFirst],
    fun c member => List.mem_takeWhile_imp member, by simp, fun c atStart => ?_⟩
  have stop := List.head?_dropWhile_not isWord (b :: t)
  rwa [atStart] at stop

/-- The induction takes a byte that is in no word, or a whole word, from the front. -/
theorem exists_surrounded {row : Nat × Text} (member : row ∈ wordsFrom n t) :
    ∃ lead behind, t = lead ++ (row.2 ++ behind) ∧ row.1 = n + lead.length ∧
      Surrounded lead row.2 behind := by
  induction size : t.length using Nat.strong_induction_on generalizing t n with
  | _ size ih =>
      subst size
      cases t with
      | nil => cases member
      | cons b rest =>
          by_cases isFirst : isWord b = true
          · obtain ⟨word, behind, cut, own⟩ := exists_word isFirst rest
            rw [cut, wordsFrom_word own] at member
            rcases List.mem_cons.mp member with rfl | member
            · exact ⟨[], behind, cut, rfl, own⟩
            · have shorter : behind.length < (b :: rest).length := by
                have some := List.length_pos_iff.mpr own.nonempty
                rw [cut, List.length_append]
                omega
              obtain ⟨lead, behind, rfl, start, surrounded⟩ := ih _ shorter member rfl
              refine ⟨word ++ lead, behind, by rw [cut, List.append_assoc], ?_,
                surrounded.widen fun empty => ?_⟩
              · rw [start, List.length_append, Nat.add_assoc]
              · -- Next to the first word there is no room for another one.
                obtain ⟨c, more, isMore⟩ := List.exists_cons_of_ne_nil surrounded.nonempty
                have isWord := surrounded.inside c (by simp [isMore])
                rw [own.last c (by rw [empty, isMore]; rfl)] at isWord
                cases isWord
          · have other : isWord b = false := by simpa using isFirst
            rw [wordsFrom_other other] at member
            obtain ⟨lead, behind, rfl, start, surrounded⟩ := ih rest.length (by simp) member rfl
            refine ⟨[b] ++ lead, behind, rfl, ?_, surrounded.widen fun _ c atEnd => ?_⟩
            · rw [start, List.length_append, List.length_singleton, Nat.add_assoc]
            · obtain rfl : b = c := by simpa using atEnd
              exact other

theorem mem_wordsFrom (surrounded : Surrounded lead word behind) :
    (n + lead.length, word) ∈ wordsFrom n (lead ++ (word ++ behind)) := by
  rw [wordsFrom_append surrounded.first, wordsFrom_word surrounded]
  exact List.mem_append_right _ List.mem_cons_self

end Words

/-- The words of a text are its longest runs of word bytes. -/
theorem mem_words_iff {t : Text} {row : Nat × Text} : row ∈ t.words ↔
    t.IsRun row.1 (row.1 + row.2.length) ∧
    row.2 = (t.take (row.1 + row.2.length)).drop row.1 := by
  obtain ⟨start, word⟩ := row
  constructor
  · intro member
    obtain ⟨lead, behind, rfl, rfl, surrounded⟩ := exists_surrounded member
    rw [Nat.zero_add]
    refine ⟨surrounded.isRun, ?_⟩
    rw [List.take_length_add_append, List.take_left, List.drop_left]
  · rintro ⟨run, own⟩
    obtain ⟨lead, run', behind, rfl, rfl, stop, surrounded⟩ := run.exists_surrounded
    rw [← stop, List.take_length_add_append, List.take_left, List.drop_left] at own
    obtain rfl : word = run' := own
    have member := mem_wordsFrom (n := 0) surrounded
    rwa [Nat.zero_add] at member

end Text

namespace Buffer

theorem wordTouching_eq_some_iff {b : Buffer} {p : Position} {word : Text} :
    b.wordTouching p = some word ↔
    ∃ start stop, (b.line p.line).RunAt p.column start stop ∧
    word = ((b.line p.line).take stop).drop start := by
  have touches {row : Nat × Text} (member : row ∈ (b.line p.line).words) :
      (row.1 ≤ p.column && p.column ≤ row.1 + row.2.length) = true ↔
        (b.line p.line).RunAt p.column row.1 (row.1 + row.2.length) := by
    rw [Bool.and_eq_true, decide_eq_true_eq, decide_eq_true_eq, ← Int.natCast_add]
    exact ⟨fun ⟨least, most⟩ => ⟨(mem_words_iff.mp member).1, least, most⟩,
      fun run => ⟨run.start_le, run.le_stop⟩⟩
  rw [wordTouching]
  constructor
  · intro found
    obtain ⟨row, isFirst, rfl⟩ := Option.map_eq_some_iff.mp found
    have member := List.mem_of_find?_eq_some isFirst
    have touched := @List.find?_some _ _ row _ isFirst
    exact ⟨_, _, (touches member).mp touched, (mem_words_iff.mp member).2⟩
  · rintro ⟨start, stop, run, rfl⟩
    obtain ⟨lead, own, behind, cut, rfl, rfl, surrounded⟩ := run.toIsRun.exists_surrounded
    have taken : ((b.line p.line).take (lead.length + own.length)).drop lead.length = own := by
      rw [cut, List.take_length_add_append, List.take_left, List.drop_left]
    have member : (lead.length, own) ∈ (b.line p.line).words :=
      mem_words_iff.mpr ⟨run.toIsRun, taken.symm⟩
    cases found : (b.line p.line).words.find? fun row =>
      row.1 ≤ p.column && p.column ≤ row.1 + row.2.length with
    | none => exact absurd ((touches member).mpr run) (List.find?_eq_none.mp found _ member)
    | some row =>
        -- The first word that is touched is the only one.
        have member' := List.mem_of_find?_eq_some found
        have touched := @List.find?_some _ _ row _ found
        obtain ⟨start, stop⟩ := ((touches member').mp touched).unique run
        rw [Option.map_some, (mem_words_iff.mp member').2, stop, start]

/-! ## Selections -/

theorem front_onLine {b : Buffer} {p : Position} (inside : p.line < b.lineCount) :
    b.front p = b.rows (b.lines.take p.line.toNat) ++ (b.line p.line).take p.column.toNat := by
  rw [front, if_pos inside, joinWith_rows _ (by simp)]
  simp [joinWith]

theorem Whole.textRange_onLine {b : Buffer} (whole : b.Whole) {n : Int} (nonneg : 0 ≤ n)
    (c d : Int) :
    b.textRange ⟨n, c⟩ ⟨n, d⟩ = .ok (between (b.line n) c d) := by
  wlog inOrder : c ≤ d generalizing c d
  · rw [textRange_comm, between_comm]
    exact this d c (by omega)
  have notBefore : ¬ (⟨n, d⟩ : Position).Before ⟨n, c⟩ := by
    simp only [Position.Before]
    omega
  obtain ⟨u, fronts, range⟩ :=
    whole.exists_between (p := ⟨n, c⟩) (q := ⟨n, d⟩) nonneg nonneg notBefore
  rw [range, between, Int.max_eq_right inOrder, Int.min_eq_left inOrder]
  by_cases inside : n < b.lineCount
  · rw [front_onLine inside, front_onLine inside, List.append_assoc,
      List.append_cancel_left_eq] at fronts
    have short : c.toNat ≤ d.toNat := by omega
    have behind : ((b.line n).take d.toNat).take c.toNat = (b.line n).take c.toNat := by
      rw [List.take_take, Nat.min_eq_left short]
    have parts := (List.take_append_drop c.toNat ((b.line n).take d.toNat)).trans fronts
    rw [behind] at parts
    exact congrArg Except.ok (List.append_cancel_left parts).symm
  · have past : b.line n = [] := by
      rw [line, if_neg (by omega), List.getD_eq_getElem?_getD, List.getElem?_eq_none,
        Option.getD_none]
      rw [lineCount] at inside
      omega
    rw [front, front, if_neg inside, if_neg inside, List.self_eq_append_right] at fronts
    rw [fronts, past, List.take_nil, List.drop_nil]

theorem wordAt_cursor (b : Buffer) (p : Position) :
    b.wordAt (.cursor p) = .ok (b.wordTouching p) := by
  simp [wordAt, Selection.cursor, Selection.isSingleLine, Selection.isEmpty]

theorem wordAt_acrossLines {b : Buffer} {s : Selection} (lines : s.start.line ≠ s.stop.line) :
    b.wordAt s = .ok none := by
  simp [wordAt, Selection.isSingleLine, lines]

theorem wordAt_within {b : Buffer} {s : Selection} (line : s.start.line = s.stop.line)
    (wide : s.start ≠ s.stop) :
    b.wordAt s = (b.textRange s.start s.stop).map fun t =>
      if t = [] then b.wordTouching s.start else some t := by
  rw [wordAt]
  simp only [Selection.isSingleLine, Selection.isEmpty, line, beq_self_eq_true, Bool.not_true,
    Bool.false_eq_true, if_false, beq_iff_eq, if_neg wide]
  cases b.textRange s.start s.stop with
  | error e => rfl
  | ok t => cases t <;> rfl

section Whole

variable {b : Buffer} (whole : b.Whole) {s : Selection} (line : s.start.line = s.stop.line)
include whole line

theorem Whole.wordAt_onLine (nonneg : 0 ≤ s.start.line) (wide : s.start ≠ s.stop) :
    b.wordAt s = .ok
      (if between (b.line s.start.line) s.start.column s.stop.column = [] then
        b.wordTouching s.start
      else some (between (b.line s.start.line) s.start.column s.stop.column)) := by
  have range := whole.textRange_onLine nonneg s.start.column s.stop.column
  have stop : s.stop = ⟨s.start.line, s.stop.column⟩ := by rw [line]
  rw [wordAt_within line wide, stop, range]
  rfl

end Whole

/-- What a selection designates is refused to be told only on a negative line, where
there is no range to look at. -/
theorem Whole.wordAt_eq_error_iff {b : Buffer} (whole : b.Whole) {s : Selection} :
    b.wordAt s = .error .mk ↔
    s.start.line = s.stop.line ∧ s.start.line < 0 ∧ s.start.column ≠ s.stop.column := by
  by_cases line : s.start.line = s.stop.line
  · by_cases wide : s.start = s.stop
    · have cursor : s = .cursor s.start := by
        obtain ⟨start, stop⟩ := s
        rw [Selection.cursor, show stop = start from wide.symm]
      rw [cursor, wordAt_cursor]
      simp [Selection.cursor]
    · have apart : s.start.column ≠ s.stop.column := fun same => wide (by
        obtain ⟨⟨l, c⟩, ⟨l', c'⟩⟩ := s
        exact Position.mk.injEq .. ▸ ⟨line, same⟩)
      by_cases negative : s.start.line < 0
      · rw [wordAt_within line wide, textRange_of_negative (.inl negative)]
        exact iff_of_true rfl ⟨line, negative, apart⟩
      · rw [whole.wordAt_onLine line (by omega) wide]
        exact iff_of_false (nomatch ·) fun ⟨_, below, _⟩ => negative below
  · rw [wordAt_acrossLines line]
    exact iff_of_false (nomatch ·) fun ⟨same, _⟩ => line same

end Buffer

/-- A cursor designates the one longest run of word bytes that it touches, if there
is one.  A selection within a line designates the text between its columns, and
where there is none what a cursor at its start does.  A selection across lines
designates nothing. -/
theorem wordAt_touches (t : Text) (past : List Batch) :
    (∀ p, ∃ found, (reached t past).wordAt (.cursor p) = .ok found ∧
      ∀ word, found = some word ↔
      ∃ start stop, ((reached t past).line p.line).RunAt p.column start stop ∧
        word = (((reached t past).line p.line).take stop).drop start) ∧
    (∀ (l : Text) (column : Int) (start stop start' stop' : Nat), l.RunAt column start stop →
      l.RunAt column start' stop' → start = start' ∧ stop = stop') ∧
    (∀ s : Selection, s.start.line = s.stop.line → 0 ≤ s.start.line → s.start ≠ s.stop →
      (reached t past).wordAt s =
        if ((reached t past).line s.start.line).between s.start.column s.stop.column = [] then
          (reached t past).wordAt (.cursor s.start)
        else .ok (some (((reached t past).line s.start.line).between s.start.column
          s.stop.column))) ∧
    ∀ s : Selection, s.start.line ≠ s.stop.line → (reached t past).wordAt s = .ok none := by
  have whole : (reached t past).Whole := (Buffer.whole_ofText t).attemptAll past
  refine ⟨fun p => ⟨_, Buffer.wordAt_cursor _ p, fun word => Buffer.wordTouching_eq_some_iff⟩,
    fun l column start stop start' stop' run run' => run.unique run', fun s line nonneg wide => ?_,
    fun s lines => Buffer.wordAt_acrossLines lines⟩
  rw [whole.wordAt_onLine line nonneg wide, Buffer.wordAt_cursor]
  split <;> rfl

/-- A word with a cursor at its end, columns in falling order, and columns behind the
end of a line. -/
theorem wordAt_touches_selected :
    let b := reached (utf8 "let a_b = c") [⟨1, [⟨⟨0, 0⟩, utf8 "//\n"⟩]⟩]
    b.wordAt (.cursor ⟨1, 7⟩) = .ok (some (utf8 "a_b")) ∧
      b.wordAt ⟨⟨1, 9⟩, ⟨1, 2⟩⟩ = .ok (some (utf8 "t a_b =")) ∧
      b.wordAt ⟨⟨1, 11⟩, ⟨1, 15⟩⟩ = .ok (some (utf8 "c")) ∧
      b.wordAt ⟨⟨0, 1⟩, ⟨1, 1⟩⟩ = .ok none := by
  obtain ⟨touched, -, within, across⟩ :=
    wordAt_touches (utf8 "let a_b = c") [⟨1, [⟨⟨0, 0⟩, utf8 "//\n"⟩]⟩]
  have line : (reached (utf8 "let a_b = c") [⟨1, [⟨⟨0, 0⟩, utf8 "//\n"⟩]⟩]).line 1 =
      utf8 "let a_b = c" := by
    decide +kernel
  have word : (utf8 "let a_b = c").RunAt 7 4 7 :=
    ⟨⟨by decide, by decide +kernel, by decide +kernel, by decide +kernel⟩,
      by decide, by decide⟩
  have next : (utf8 "let a_b = c").RunAt 11 10 11 :=
    ⟨⟨by decide, by decide +kernel, by decide +kernel, by decide +kernel⟩,
      by decide, by decide⟩
  have cursor {column : Int} {start stop : Nat}
      (run : (utf8 "let a_b = c").RunAt column start stop) :
      (reached (utf8 "let a_b = c") [⟨1, [⟨⟨0, 0⟩, utf8 "//\n"⟩]⟩]).wordAt
        (.cursor ⟨1, column⟩) =
        .ok (some (((utf8 "let a_b = c").take stop).drop start)) := by
    obtain ⟨found, told, iff⟩ := touched ⟨1, column⟩
    rw [told, (iff _).mpr ⟨start, stop, line.symm ▸ run, by rw [line]⟩]
  refine ⟨?_, ?_, ?_, across _ (by decide)⟩
  · rw [cursor word]
    decide +kernel
  · rw [within _ rfl (by decide) (by decide), line]
    decide +kernel
  · rw [within _ rfl (by decide) (by decide), line, if_pos (by decide +kernel), cursor next]
    decide +kernel

end ModuleDeps
