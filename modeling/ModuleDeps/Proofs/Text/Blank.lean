import Mathlib.Data.List.Basic
import ModuleDeps.Text.Blank

/-!
# Blank texts and trimming

White space is a code of words of one, two or three bytes in which no word
begins another one, from either end.  A blank text is a sequence of such words,
and trimming takes away the longest blank beginning and then the longest blank
end.  A text that begins and ends with visible bytes is left alone, whatever
blank text stands around it.
-/

set_option autoImplicit false

namespace ModuleDeps.Text

/-! ## Sequences of words -/

section Runs

variable {one : UInt8 → Bool} {two : UInt8 → UInt8 → Bool}
  {three : UInt8 → UInt8 → UInt8 → Bool}

/-- A sequence of words of a code. -/
inductive Runs (one : UInt8 → Bool) (two : UInt8 → UInt8 → Bool)
    (three : UInt8 → UInt8 → UInt8 → Bool) : Text → Prop
  | nil : Runs one two three []
  | one {a : UInt8} {t : Text} : one a = true → Runs one two three t →
      Runs one two three (a :: t)
  | two {a b : UInt8} {t : Text} : two a b = true → Runs one two three t →
      Runs one two three (a :: b :: t)
  | three {a b c : UInt8} {t : Text} : three a b c = true → Runs one two three t →
      Runs one two three (a :: b :: c :: t)

theorem Runs.append {s t : Text} (first : Runs one two three s) (second : Runs one two three t) :
    Runs one two three (s ++ t) := by
  induction first with
  | nil => exact second
  | one word _ ih => exact Runs.one word ih
  | two word _ ih => exact Runs.two word ih
  | three word _ ih => exact Runs.three word ih

/-- Read backwards, a sequence of words is one of the words read backwards. -/
theorem Runs.reverse {t : Text} (runs : Runs one two three t) :
    Runs one (fun b a => two a b) (fun c b a => three a b c) t.reverse := by
  induction runs with
  | nil => exact Runs.nil
  | one word _ ih =>
      rw [List.reverse_cons]
      exact ih.append (Runs.one word Runs.nil)
  | @two a b t word _ ih =>
      have cut : (a :: b :: t).reverse = t.reverse ++ [b, a] := by simp
      rw [cut]
      exact ih.append (Runs.two word Runs.nil)
  | @three a b c t word _ ih =>
      have cut : (a :: b :: c :: t).reverse = t.reverse ++ [c, b, a] := by simp
      rw [cut]
      exact ih.append (Runs.three word Runs.nil)

variable (one two three) in
theorem exists_runs (t : Text) :
    ∃ s, Runs one two three s ∧ t = s ++ dropRuns one two three t := by
  fun_induction dropRuns one two three t with
  | case1 => exact ⟨[], Runs.nil, rfl⟩
  | case2 a rest word ih =>
      obtain ⟨s, runs, cut⟩ := ih
      exact ⟨a :: s, Runs.one word runs, by simpa using cut⟩
  | case3 a _ => exact ⟨[], Runs.nil, rfl⟩
  | case4 a _ b rest word ih =>
      obtain ⟨s, runs, cut⟩ := ih
      exact ⟨a :: b :: s, Runs.two word runs, by simpa using cut⟩
  | case5 a _ b _ => exact ⟨[], Runs.nil, rfl⟩
  | case6 a _ b _ c rest word ih =>
      obtain ⟨s, runs, cut⟩ := ih
      exact ⟨a :: b :: c :: s, Runs.three word runs, by simpa using cut⟩
  | case7 a _ b _ c rest _ => exact ⟨[], Runs.nil, rfl⟩

/-- No word begins another one. -/
structure PrefixFree (one : UInt8 → Bool) (two : UInt8 → UInt8 → Bool)
    (three : UInt8 → UInt8 → UInt8 → Bool) : Prop where
  one_two : ∀ {a b}, two a b = true → one a = false
  one_three : ∀ {a b c}, three a b c = true → one a = false
  two_three : ∀ {a b c}, three a b c = true → two a b = false

theorem dropRuns_append (code : PrefixFree one two three) {s : Text} (runs : Runs one two three s)
    (t : Text) : dropRuns one two three (s ++ t) = dropRuns one two three t := by
  induction runs with
  | nil => rfl
  | one word _ ih =>
      rw [List.cons_append, dropRuns.eq_def]
      simp only [word, if_true]
      exact ih
  | two word _ ih =>
      rw [List.cons_append, List.cons_append, dropRuns.eq_def]
      simp only [code.one_two word, word, if_true, Bool.false_eq_true, if_false]
      exact ih
  | three word _ ih =>
      rw [List.cons_append, List.cons_append, List.cons_append, dropRuns.eq_def]
      simp only [code.one_three word, code.two_three word, word, if_true,
        Bool.false_eq_true, if_false]
      exact ih

theorem dropRuns_eq_nil_iff (code : PrefixFree one two three) {t : Text} :
    dropRuns one two three t = [] ↔ Runs one two three t := by
  constructor
  · intro empty
    obtain ⟨s, runs, cut⟩ := exists_runs one two three t
    rw [empty, List.append_nil] at cut
    exact cut ▸ runs
  · intro runs
    simpa [dropRuns] using dropRuns_append code runs []

theorem dropRuns_of_stop {a : UInt8} (noOne : one a = false) (noTwo : ∀ b, two a b = false)
    (noThree : ∀ b c, three a b c = false) (t : Text) :
    dropRuns one two three (a :: t) = a :: t := by
  rw [dropRuns.eq_def]
  simp only [noOne, Bool.false_eq_true, if_false]
  cases t with
  | nil => rfl
  | cons b t =>
      simp only [noTwo, Bool.false_eq_true, if_false]
      cases t with
      | nil => rfl
      | cons c t => simp only [noThree, Bool.false_eq_true, if_false]

theorem dropRuns_concat {c : UInt8} (word : one c = true) (noTwo : ∀ a, two a c = false)
    (noThree : ∀ a b, three a b c = false) (t : Text) :
    dropRuns one two three (t ++ [c]) =
      if dropRuns one two three t = [] then [] else dropRuns one two three t ++ [c] := by
  fun_induction dropRuns one two three t with
  | case1 => simp [dropRuns, word]
  | case2 a rest isWord ih =>
      rw [List.cons_append, dropRuns.eq_def]
      simpa only [isWord, if_true] using ih
  | case3 a notWord =>
      simp [dropRuns, notWord, noTwo]
  | case4 a notWord b rest isWord ih =>
      rw [List.cons_append, List.cons_append, dropRuns.eq_def]
      simpa only [notWord, isWord, if_true, Bool.false_eq_true, if_false] using ih
  | case5 a notWord b notPair =>
      simp [dropRuns, notWord, notPair, noThree]
  | case6 a notWord b notPair d rest isWord ih =>
      rw [List.cons_append, List.cons_append, List.cons_append, dropRuns.eq_def]
      simpa only [notWord, notPair, isWord, if_true, Bool.false_eq_true, if_false] using ih
  | case7 a notWord b notPair d rest notTriple =>
      simp [dropRuns, notWord, notPair, notTriple]

end Runs

/-! ## Blank texts -/

theorem isBlank1_lt {a : UInt8} (word : isBlank1 a = true) : a < 0x80 := by
  simp only [isBlank1, Bool.or_eq_true, Bool.and_eq_true, decide_eq_true_eq, beq_iff_eq,
    UInt8.le_iff_toNat_le] at word
  rcases word with ⟨-, high⟩ | rfl
  · rw [UInt8.lt_iff_toNat_lt]
    exact Nat.lt_of_le_of_lt high (by decide)
  · decide

theorem isBlank2_not_lt {a b : UInt8} (word : isBlank2 a b = true) :
    ¬ a < 0x80 ∧ ¬ b < 0x80 := by
  simp only [isBlank2, Bool.and_eq_true, Bool.or_eq_true, beq_iff_eq] at word
  rcases word with ⟨rfl, rfl | rfl⟩ <;> decide

theorem isBlank3_not_lt {a b c : UInt8} (word : isBlank3 a b c = true) :
    ¬ a < 0x80 ∧ ¬ b < 0x80 ∧ ¬ c < 0x80 := by
  simp only [isBlank3, Bool.or_eq_true, Bool.and_eq_true, beq_iff_eq, decide_eq_true_eq] at word
  rcases word with
    ((⟨⟨rfl, rfl⟩, rfl⟩ | ⟨⟨rfl, rfl⟩,
      ((⟨low, -⟩ | rfl) | rfl) | rfl⟩) | ⟨⟨rfl, rfl⟩, rfl⟩) |
      ⟨⟨rfl, rfl⟩, rfl⟩
  case inl.inl.inr.inl.inl.inl => exact ⟨by decide, by decide, UInt8.not_lt.mpr low⟩
  all_goals decide

/-- A sequence of white space characters. -/
abbrev Blanks : Text → Prop := Runs isBlank1 isBlank2 isBlank3

theorem prefixFree_blank : PrefixFree isBlank1 isBlank2 isBlank3 where
  one_two word := Bool.eq_false_iff.mpr fun single => (isBlank2_not_lt word).1 (isBlank1_lt single)
  one_three word :=
    Bool.eq_false_iff.mpr fun single => (isBlank3_not_lt word).1 (isBlank1_lt single)
  two_three {a b c} word := by
    have first : a ≠ 0xC2 := by
      rintro rfl
      simp [isBlank3] at word
    simp [isBlank2, first]

theorem prefixFree_blank_reverse :
    PrefixFree isBlank1 (fun b a => isBlank2 a b) (fun c b a => isBlank3 a b c) where
  one_two word := Bool.eq_false_iff.mpr fun single => (isBlank2_not_lt word).2 (isBlank1_lt single)
  one_three word :=
    Bool.eq_false_iff.mpr fun single => (isBlank3_not_lt word).2.2 (isBlank1_lt single)
  two_three {c b a} word := by
    have middle : b ≠ 0xC2 := by
      rintro rfl
      simp [isBlank3] at word
    simp [isBlank2, middle]

theorem blanks_reverse {t : Text} :
    Runs isBlank1 (fun b a => isBlank2 a b) (fun c b a => isBlank3 a b c) t.reverse ↔
      Blanks t := by
  constructor
  · intro runs
    have back := runs.reverse
    rwa [List.reverse_reverse] at back
  · exact Runs.reverse

theorem trimStart_eq_nil_iff {t : Text} : trimStart t = [] ↔ Blanks t :=
  dropRuns_eq_nil_iff prefixFree_blank

theorem trimEnd_eq_nil_iff {t : Text} : trimEnd t = [] ↔ Blanks t := by
  rw [trimEnd, List.reverse_eq_nil_iff, dropRuns_eq_nil_iff prefixFree_blank_reverse,
    blanks_reverse]

theorem exists_trimStart (t : Text) : ∃ s, Blanks s ∧ t = s ++ trimStart t :=
  exists_runs isBlank1 isBlank2 isBlank3 t

theorem exists_trimEnd (t : Text) : ∃ s, Blanks s ∧ t = trimEnd t ++ s := by
  obtain ⟨s, runs, cut⟩ :=
    exists_runs isBlank1 (fun b a => isBlank2 a b) (fun c b a => isBlank3 a b c) t.reverse
  refine ⟨s.reverse, ?_, ?_⟩
  · rw [← blanks_reverse, List.reverse_reverse]
    exact runs
  · rw [trimEnd, ← List.reverse_append, ← cut, List.reverse_reverse]

theorem isBlank_iff {t : Text} : isBlank t = true ↔ Blanks t := by
  rw [isBlank, List.isEmpty_iff, trim, trimEnd_eq_nil_iff]
  constructor
  · intro restBlank
    obtain ⟨s, leadBlank, cut⟩ := exists_trimStart t
    rw [cut]
    exact leadBlank.append restBlank
  · intro blank
    rw [trimStart_eq_nil_iff.mpr blank]
    exact Runs.nil

theorem isBlank_eq_false_iff {t : Text} : isBlank t = false ↔ ¬ Blanks t := by
  rw [← isBlank_iff, Bool.not_eq_true]

theorem trim_eq_nil_iff {t : Text} : trim t = [] ↔ Blanks t := by
  rw [← isBlank_iff, isBlank, List.isEmpty_iff]

theorem exists_trim (t : Text) : ∃ s u, Blanks s ∧ Blanks u ∧ t = s ++ (trim t ++ u) := by
  obtain ⟨s, leadBlank, leadCut⟩ := exists_trimStart t
  obtain ⟨u, tailBlank, tailCut⟩ := exists_trimEnd (trimStart t)
  exact ⟨s, u, leadBlank, tailBlank, by rw [trim, ← tailCut, ← leadCut]⟩

theorem blanks_append_right_iff {u : Text} (tail : Blanks u) (t : Text) :
    Blanks (t ++ u) ↔ Blanks t := by
  rw [← trimEnd_eq_nil_iff, ← trimEnd_eq_nil_iff, trimEnd, trimEnd, List.reverse_append,
    dropRuns_append prefixFree_blank_reverse (blanks_reverse.mpr tail)]

/-! ## Visible bytes -/

def isVisible (a : UInt8) : Bool := a < 0x80 && !isBlank1 a

theorem isVisible.lt {a : UInt8} (visible : isVisible a = true) : a < 0x80 := by
  simp only [isVisible, Bool.and_eq_true, decide_eq_true_eq] at visible
  exact visible.1

theorem isVisible.not_one {a : UInt8} (visible : isVisible a = true) : isBlank1 a = false := by
  simpa [isVisible] using (Bool.and_eq_true_iff.mp visible).2

/-- A byte that occurs in no character of white space. -/
structure Foreign (a : UInt8) : Prop where
  one : isBlank1 a = false
  two : ∀ b, isBlank2 a b = false ∧ isBlank2 b a = false
  three : ∀ b c, isBlank3 a b c = false ∧ isBlank3 b a c = false ∧ isBlank3 b c a = false

theorem foreign_of_visible {a : UInt8} (visible : isVisible a = true) : Foreign a := by
  have small := isVisible.lt visible
  refine ⟨isVisible.not_one visible, fun b => ⟨?_, ?_⟩, fun b c => ⟨?_, ?_, ?_⟩⟩
  · exact Bool.eq_false_iff.mpr fun word => (isBlank2_not_lt word).1 small
  · exact Bool.eq_false_iff.mpr fun word => (isBlank2_not_lt word).2 small
  · exact Bool.eq_false_iff.mpr fun word => (isBlank3_not_lt word).1 small
  · exact Bool.eq_false_iff.mpr fun word => (isBlank3_not_lt word).2.1 small
  · exact Bool.eq_false_iff.mpr fun word => (isBlank3_not_lt word).2.2 small

theorem Runs.notMem_of_foreign {t : Text} (blank : Blanks t) {a : UInt8} (foreign : Foreign a) :
    a ∉ t := by
  have absent {word : Bool} (isWord : word = true) (noWord : word = false) : False := by
    rw [isWord] at noWord
    cases noWord
  induction blank with
  | nil => simp
  | one word _ ih =>
      rintro (_ | ⟨_, member⟩)
      · exact absent word foreign.one
      · exact ih member
  | two word _ ih =>
      rintro (_ | ⟨_, _ | ⟨_, member⟩⟩)
      · exact absent word (foreign.two _).1
      · exact absent word (foreign.two _).2
      · exact ih member
  | three word _ ih =>
      rintro (_ | ⟨_, _ | ⟨_, _ | ⟨_, member⟩⟩⟩)
      · exact absent word (foreign.three _ _).1
      · exact absent word (foreign.three _ _).2.1
      · exact absent word (foreign.three _ _).2.2
      · exact ih member

theorem Runs.notMem_of_visible {t : Text} (blank : Blanks t) {a : UInt8}
    (visible : isVisible a = true) : a ∉ t :=
  blank.notMem_of_foreign (foreign_of_visible visible)

theorem trimStart_of_foreign {a : UInt8} (foreign : Foreign a) (t : Text) :
    trimStart (a :: t) = a :: t :=
  dropRuns_of_stop foreign.one (fun b => (foreign.two b).1) (fun b c => (foreign.three b c).1) t

theorem trimStart_of_visible {a : UInt8} (visible : isVisible a = true) (t : Text) :
    trimStart (a :: t) = a :: t :=
  trimStart_of_foreign (foreign_of_visible visible) t

theorem trim_around {s u core : Text} (lead : Blanks s) (tail : Blanks u)
    (starts : trimStart (core ++ u) = core ++ u) {last : UInt8} (ends : core.getLast? = some last)
    (stops : Foreign last) : trim (s ++ (core ++ u)) = core := by
  have startStays : trimStart (s ++ (core ++ u)) = core ++ u := by
    rw [trimStart, dropRuns_append prefixFree_blank lead]
    exact starts
  have endStays : trimEnd (core ++ u) = core := by
    rw [trimEnd, List.reverse_append, dropRuns_append prefixFree_blank_reverse
      (blanks_reverse.mpr tail)]
    obtain ⟨init, rfl⟩ : ∃ init, core = init ++ [last] :=
      ⟨core.dropLast, (List.dropLast_append_getLast? last ends).symm⟩
    rw [List.reverse_concat, dropRuns_of_stop stops.one (fun b => (stops.two b).2) fun b c =>
      (stops.three c b).2.2]
    simp
  rw [trim, startStays, endStays]

/-! ## A blank at the end -/

/-- A blank of one byte is no part of a longer one, so it can be trimmed alone. -/
theorem trim_append_blank {c : UInt8} (word : isBlank1 c = true) (t : Text) :
    trim (t ++ [c]) = trim t := by
  have low := isBlank1_lt word
  have notPair (a : UInt8) : isBlank2 a c = false := by
    exact Bool.eq_false_iff.mpr fun word => (isBlank2_not_lt word).2 low
  have notLast (a b : UInt8) : isBlank3 a b c = false := by
    exact Bool.eq_false_iff.mpr fun word => (isBlank3_not_lt word).2.2 low
  have start : trimStart (t ++ [c]) = if trimStart t = [] then [] else trimStart t ++ [c] :=
    dropRuns_concat word notPair notLast t
  rw [trim, trim, start]
  split
  · rename_i empty
    rw [empty]
  · rw [trimEnd, List.reverse_append, dropRuns_append prefixFree_blank_reverse
      (blanks_reverse.mpr (Runs.one word Runs.nil)), ← trimEnd]

theorem trim_append_cr (t : Text) : trim (t ++ [cr]) = trim t := trim_append_blank (by decide) t

end ModuleDeps.Text
