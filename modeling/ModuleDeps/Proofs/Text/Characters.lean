import ModuleDeps.Proofs.Text.Occurrence
import ModuleDeps.Text.Case

/-!
# Characters and their small letters

Lower-casing goes character by character.  The encoding of a code point starts
with its only byte that is no continuation, and tells where it ends, so what
occurs in a lower-cased text occurs among the characters of the text
(`occursFirst_iff`).  The offset found is the length of the lower-cased
characters in front, which is not always the length of these characters.
-/

set_option autoImplicit false

namespace ModuleDeps.Text

/-! ## The characters of a text -/

def written (characters : List Scalar) : Text := characters.flatMap Scalar.bytes

def codeLimit : Nat := 0x200000

theorem firstScalar?_bounds {t : Text} {code width : Nat}
    (found : firstScalar? t = some (code, width)) :
    0 < width ∧ width ≤ t.length ∧ code < codeLimit := by
  rw [firstScalar?.eq_def] at found
  repeat' split at found
  all_goals cases found
  all_goals simp only [codeLimit, low6, List.length_cons]
  · have byte := UInt8.toNat_lt ‹UInt8›
    omega
  · omega
  · omega
  · omega

theorem between_iff {low b top : UInt8} :
    (decide (low ≤ b) && decide (b ≤ top)) = true ↔ low.toNat ≤ b.toNat ∧
      b.toNat ≤ top.toNat := by
  rw [Bool.and_eq_true, decide_eq_true_eq, decide_eq_true_eq, UInt8.le_iff_toNat_le,
    UInt8.le_iff_toNat_le]

theorem isContinuation_iff {b : UInt8} :
    isContinuation b = true ↔ 0x80 ≤ b.toNat ∧ b.toNat ≤ 0xBF :=
  between_iff

theorem secondOfThree_bounds {a b : UInt8} (second : secondOfThree a b = true) :
    (0x80 ≤ b.toNat ∧ b.toNat ≤ 0xBF) ∧
      (a.toNat = 0xE0 ∧ 0xA0 ≤ b.toNat ∨ 0xE1 ≤ a.toNat ∧ a.toNat ≤ 0xEF) := by
  rw [secondOfThree] at second
  split at second
  · rename_i first
    obtain ⟨low, high⟩ := between_iff.mp second
    simp only [UInt8.reduceToNat] at low high
    exact ⟨by omega, .inl ⟨congrArg UInt8.toNat first, low⟩⟩
  · split at second
    · rename_i first
      obtain ⟨low, high⟩ := between_iff.mp second
      simp only [UInt8.reduceToNat] at low high
      have lead : a.toNat = 0xED := congrArg UInt8.toNat first
      exact ⟨by omega, .inr (by omega)⟩
    · obtain ⟨lead, inside⟩ := Bool.and_eq_true_iff.mp second
      exact ⟨isContinuation_iff.mp inside, .inr (between_iff.mp lead)⟩

theorem secondOfFour_bounds {a b : UInt8} (second : secondOfFour a b = true) :
    (0x80 ≤ b.toNat ∧ b.toNat ≤ 0xBF) ∧
      (a.toNat = 0xF0 ∧ 0x90 ≤ b.toNat ∨ 0xF1 ≤ a.toNat ∧ a.toNat ≤ 0xF4) := by
  rw [secondOfFour] at second
  split at second
  · rename_i first
    obtain ⟨low, high⟩ := between_iff.mp second
    simp only [UInt8.reduceToNat] at low high
    exact ⟨by omega, .inl ⟨congrArg UInt8.toNat first, low⟩⟩
  · split at second
    · rename_i first
      obtain ⟨low, high⟩ := between_iff.mp second
      simp only [UInt8.reduceToNat] at low high
      have lead : a.toNat = 0xF4 := congrArg UInt8.toNat first
      exact ⟨by omega, .inr (by omega)⟩
    · obtain ⟨lead, inside⟩ := Bool.and_eq_true_iff.mp second
      obtain ⟨low, high⟩ := between_iff.mp lead
      simp only [UInt8.reduceToNat] at low high
      exact ⟨isContinuation_iff.mp inside, .inr (by omega)⟩

/-- What is read where a text starts with a byte beyond ASCII: a character of
two, three or four bytes. -/
inductive Wide : Text → Nat → Nat → Prop
  | two {a b : UInt8} (t : Text) : 0xC2 ≤ a.toNat → a.toNat ≤ 0xDF →
      isContinuation b = true → Wide (a :: b :: t) (a.toNat % 32 * 64 + low6 b) 2
  | three {a b c : UInt8} (t : Text) : secondOfThree a b = true → isContinuation c = true →
      Wide (a :: b :: c :: t) ((a.toNat % 16 * 64 + low6 b) * 64 + low6 c) 3
  | four {a b c d : UInt8} (t : Text) : secondOfFour a b = true → isContinuation c = true →
      isContinuation d = true →
      Wide (a :: b :: c :: d :: t) (((a.toNat % 8 * 64 + low6 b) * 64 + low6 c) * 64 + low6 d) 4

theorem wide_of_firstScalar? {a : UInt8} {t : Text} {code width : Nat} (high : ¬ a < 0x80)
    (found : firstScalar? (a :: t) = some (code, width)) : Wide (a :: t) code width := by
  rw [firstScalar?.eq_def] at found
  simp only [if_neg high] at found
  repeat' split at found
  all_goals cases found
  · rename_i lead
    rw [Bool.and_eq_true, between_iff] at lead
    exact .two _ lead.1.1 lead.1.2 lead.2
  · rename_i second
    rw [Bool.and_eq_true] at second
    exact .three _ second.1 second.2
  · rename_i second
    rw [Bool.and_eq_true, Bool.and_eq_true] at second
    exact .four _ second.1.1 second.1.2 second.2

theorem scalarsFrom_eq_drop (skip : Nat) (t : Text) :
    scalarsFrom skip t = scalars (t.drop skip) := by
  induction t generalizing skip with
  | nil => cases skip <;> simp [scalars, scalarsFrom]
  | cons b rest ih =>
      cases skip with
      | zero => rfl
      | succ skip => rw [scalarsFrom, ih, List.drop_succ_cons]

theorem exists_scalar (a : UInt8) (t : Text) :
    ∃ s rest, a :: t = s.bytes ++ rest ∧ s.bytes ≠ [] ∧ s.code < codeLimit ∧
      scalars (s.bytes ++ rest) = s :: scalars rest := by
  cases found : firstScalar? (a :: t) with
  | none =>
      refine ⟨⟨replacement, [a], false⟩, t, rfl, by simp,
        (by decide : replacement < codeLimit), ?_⟩
      rw [List.singleton_append, scalars, scalarsFrom, found]
      rfl
  | some row =>
      obtain ⟨code, width⟩ := row
      obtain ⟨positive, inside, small⟩ := firstScalar?_bounds found
      obtain ⟨n, rfl⟩ : ∃ n, width = n + 1 := ⟨width - 1, by omega⟩
      have cut : (a :: t).take (n + 1) ++ t.drop n = a :: t := by
        rw [← List.drop_succ_cons (a := a), List.take_append_drop]
      refine ⟨⟨code, (a :: t).take (n + 1), true⟩, t.drop n, cut.symm, by simp, small, ?_⟩
      rw [cut, scalars, scalarsFrom, found]
      simp only [Nat.add_sub_cancel, scalarsFrom_eq_drop]

@[elab_as_elim]
theorem scalars_induction {motive : Text → Prop} (nil : motive [])
    (step : ∀ (s : Scalar) (rest : Text), s.bytes ≠ [] → s.code < codeLimit →
      scalars (s.bytes ++ rest) = s :: scalars rest → motive rest → motive (s.bytes ++ rest))
    (t : Text) : motive t := by
  induction size : t.length using Nat.strongRecOn generalizing t with
  | ind n ih =>
      cases t with
      | nil => exact nil
      | cons a t =>
          obtain ⟨s, rest, cut, some, small, read⟩ := exists_scalar a t
          rw [cut] at size ⊢
          have positive := List.length_pos_iff.mpr some
          refine step s rest some small read (ih rest.length ?_ rest rfl)
          rw [← size, List.length_append]
          omega

theorem toNat_lt_of_lt {b : UInt8} (ascii : b < 0x80) : b.toNat < 0x80 :=
  UInt8.lt_iff_toNat_lt.mp ascii

theorem scalars_cons_ascii {b : UInt8} (ascii : b < 0x80) (t : Text) :
    scalars (b :: t) = ⟨b.toNat, [b], true⟩ :: scalars t := by
  simp [scalars, scalarsFrom, firstScalar?, ascii]

theorem scalars_eq_nil_iff {t : Text} : scalars t = [] ↔ t = [] := by
  cases t with
  | nil => simp [scalars, scalarsFrom]
  | cons a rest =>
      rw [scalars, scalarsFrom]
      split
      · simp
      · simp

theorem written_scalars (t : Text) : written (scalars t) = t := by
  induction t using scalars_induction with
  | nil => rfl
  | step s rest _ _ read ih =>
      rw [read]
      exact congrArg (s.bytes ++ ·) ih

theorem code_lt_of_mem_scalars {t : Text} : ∀ s ∈ scalars t, s.code < codeLimit := by
  induction t using scalars_induction with
  | nil => simp [scalars, scalarsFrom]
  | step s rest _ small read ih =>
      rw [read]
      exact List.forall_mem_cons.mpr ⟨small, ih⟩

/-! ## Small letters -/

def letter (s : Scalar) : Nat := lowerCode s.code

theorem lowerCode_ascii {code : Nat} (ascii : code < 0x80) : lowerCode code < 0x80 := by
  rw [lowerCode, if_pos ascii]
  split
  · rename_i capital
    rw [Bool.and_eq_true, decide_eq_true_eq, decide_eq_true_eq] at capital
    omega
  · exact ascii

/-- Beyond ASCII, the small letter of a character is found in a row of the
table, or is the character itself. -/
theorem lowerCode_cases {code : Nat} (large : 0x80 ≤ code) :
    lowerCode code = code ∨ ∃ row ∈ lowerRows, row.1 ≤ code ∧ code ≤ row.2.1 ∧
      lowerCode code = ((code : Int) + row.2.2.1).toNat := by
  have notAscii : ¬ code < 0x80 := by omega
  rw [lowerCode, if_neg notAscii]
  cases found : lowerRows.find? (inLowerRow code) with
  | none => exact Or.inl rfl
  | some row =>
      have inside := List.find?_some found
      simp only [inLowerRow, Bool.and_eq_true, decide_eq_true_eq] at inside
      exact Or.inr ⟨row, List.mem_of_find?_eq_some found, inside.1.1, inside.1.2, rfl⟩

theorem lowerRows_bounded : ∀ row ∈ lowerRows, (row.2.1 : Int) + row.2.2.1 < codeLimit := by
  decide +kernel

theorem lowerCode_lt {code : Nat} (small : code < codeLimit) : lowerCode code < codeLimit := by
  by_cases ascii : code < 0x80
  · exact Nat.lt_trans (lowerCode_ascii ascii) (by decide)
  · rcases lowerCode_cases (Nat.le_of_not_lt ascii) with same | ⟨row, member, -, high, lowered⟩
    · rwa [same]
    · have bounded := lowerRows_bounded row member
      rw [codeLimit] at *
      omega

theorem letter_lt {t : Text} : ∀ code ∈ (scalars t).map letter, code < codeLimit := by
  intro code member
  obtain ⟨s, inside, rfl⟩ := List.mem_map.mp member
  exact lowerCode_lt (code_lt_of_mem_scalars s inside)

/-! ## Encodings -/

theorem encode_ascii {code : Nat} (ascii : code < 0x80) : encode code = [code.toUInt8] := by
  rw [encode, if_pos ascii]

theorem toNat_toUInt8 {n : Nat} (small : n < 256) : n.toUInt8.toNat = n := by
  rw [Nat.toUInt8_eq, UInt8.toNat_ofNat', Nat.mod_eq_of_lt small]

theorem isContinuation_eq_false_iff {b : UInt8} :
    isContinuation b = false ↔ b.toNat < 0x80 ∨ 0xBF < b.toNat := by
  rw [← Bool.not_eq_true, isContinuation_iff]
  omega

theorem toUInt8_inj {m n : Nat} (mByte : m < 256) (nByte : n < 256) :
    m.toUInt8 = n.toUInt8 ↔ m = n := by
  rw [← UInt8.toNat_inj, toNat_toUInt8 mByte, toNat_toUInt8 nByte]

theorem encode_bytes {code : Nat} (small : code < codeLimit) :
    ∃ a tail, encode code = a :: tail ∧ isContinuation a = false ∧
      tail.all isContinuation = true := by
  rw [codeLimit] at small
  have first {n : Nat} (byte : n < 256) (lead : n < 0x80 ∨ 0xBF < n) : isContinuation n.toUInt8 =
      false := by
    rwa [isContinuation_eq_false_iff, toNat_toUInt8 byte]
  have later (n : Nat) : isContinuation (0x80 + n % 64).toUInt8 = true := by
    rw [isContinuation_iff, toNat_toUInt8 (by omega)]
    omega
  rw [encode]
  repeat' split
  all_goals refine ⟨_, _, rfl, first (by omega) (by omega), ?_⟩
  all_goals simp only [List.all_cons, List.all_nil, later, Bool.and_self]

/-- An encoding tells where it ends, and what it encodes. -/
theorem encode_append_inj {c d : Nat} (cSmall : c < codeLimit) (dSmall : d < codeLimit) {x y : Text}
    (same : encode c ++ x = encode d ++ y) : c = d ∧ x = y := by
  rw [codeLimit] at cSmall dSmall
  rw [encode, encode] at same
  repeat' split at same
  all_goals simp (disch := omega) only [List.cons_append, List.nil_append, List.cons.injEq,
      toUInt8_inj] at same
  -- encodings of different lengths differ in their first byte
  all_goals first
    | exact absurd same.1 (by omega)
    | exact ⟨by omega, by simp only [same]⟩

theorem encode_ne_nil (code : Nat) : encode code ≠ [] := by
  rw [encode]
  repeat' split
  all_goals simp

/-! ## Texts of code points -/

def spell (codes : List Nat) : Text := codes.flatMap encode

/-- No character begun before the text goes on in it. -/
def Opens (t : Text) : Prop := ∀ a ∈ t.head?, isContinuation a = false

section Spell

variable {codes wanted : List Nat} (small : ∀ c ∈ codes, c < codeLimit)
  (smallWanted : ∀ c ∈ wanted, c < codeLimit)

include small

theorem opens_spell (more : Text) (some : codes ≠ []) : Opens (spell codes ++ more) := by
  cases codes with
  | nil => exact absurd rfl some
  | cons c codes =>
      obtain ⟨a, tail, bytes, first, -⟩ := encode_bytes (small c (by simp))
      simpa [Opens, spell, bytes] using first

theorem exists_of_spell_eq_append {x z : Text} (opens : Opens z) (cut : spell codes = x ++ z) :
    ∃ left right, codes = left ++ right ∧ spell left = x ∧ spell right = z := by
  induction codes generalizing x with
  | nil =>
      obtain ⟨rfl, rfl⟩ := List.append_eq_nil_iff.mp cut.symm
      exact ⟨[], [], rfl, rfl, rfl⟩
  | cons c codes ih =>
      have parts : encode c ++ spell codes = x ++ z := cut
      rcases List.append_eq_append_iff.mp parts with ⟨more, rfl, rest⟩ | ⟨more, bytes, rest⟩
      · obtain ⟨left, right, rfl, rfl, rfl⟩ :=
          ih (fun d member => small d (by simp [member])) rest
        exact ⟨c :: left, right, rfl, rfl, rfl⟩
      · cases x with
        | nil => exact ⟨[], c :: codes, rfl, rfl, cut⟩
        | cons b x =>
            cases more with
            | nil => exact ⟨[c], codes, rfl, by simpa [spell] using bytes, rest.symm⟩
            | cons d more =>
                obtain ⟨a, tail, whole, -, later⟩ := encode_bytes (small c (by simp))
                have inside : d ∈ tail := by
                  rw [whole] at bytes
                  simp [(List.cons.inj bytes).2]
                have continued := List.all_eq_true.mp later d inside
                rw [opens d (by simp [rest])] at continued
                cases continued

include smallWanted

/-- A beginning that is spelled itself ends between characters. -/
theorem exists_of_spell_eq_spell_append {y : Text} (cut : spell codes = spell wanted ++ y) :
    ∃ right, codes = wanted ++ right ∧ spell right = y := by
  induction wanted generalizing codes with
  | nil => exact ⟨codes, rfl, cut⟩
  | cons w wanted ih =>
      have restWanted : ∀ c ∈ wanted, c < codeLimit :=
        fun c member => smallWanted c (by simp [member])
      cases codes with
      | nil =>
          exact absurd (List.append_eq_nil_iff.mp (List.append_eq_nil_iff.mp cut.symm).1).1
            (encode_ne_nil w)
      | cons c codes =>
          have parts : encode c ++ spell codes = encode w ++ (spell wanted ++ y) := by
            simpa [spell] using cut
          obtain ⟨rfl, rest⟩ :=
            encode_append_inj (small c (by simp)) (smallWanted w (by simp)) parts
          obtain ⟨right, rfl, spelled⟩ :=
            ih (fun d member => small d (by simp [member])) restWanted rest
          exact ⟨right, rfl, spelled⟩

theorem exists_of_spell_eq_infix (some : wanted ≠ []) {x y : Text}
    (cut : spell codes = x ++ (spell wanted ++ y)) :
    ∃ left right, codes = left ++ (wanted ++ right) ∧ spell left = x := by
  obtain ⟨left, more, rfl, front, back⟩ :=
    exists_of_spell_eq_append small (opens_spell smallWanted y some) cut
  obtain ⟨right, rfl, -⟩ :=
    exists_of_spell_eq_spell_append (fun c member => small c (by simp [member])) smallWanted back
  exact ⟨left, right, rfl, front⟩

end Spell

/-! ## Occurrences up to letter case -/

def lowered (characters : List Scalar) : Text := spell (characters.map letter)

theorem lower_eq (t : Text) : lower t = lowered (scalars t) := by
  rw [lower, lowered, spell, List.flatMap_map]
  rfl

theorem lowered_append (front rest : List Scalar) :
    lowered (front ++ rest) = lowered front ++ lowered rest := by
  rw [lowered, List.map_append, spell, List.flatMap_append]
  rfl

theorem lowered_eq_nil_iff {characters : List Scalar} :
    lowered characters = [] ↔ characters = [] := by
  constructor
  · intro empty
    cases characters with
    | nil => rfl
    | cons s characters => exact absurd (List.append_eq_nil_iff.mp empty).1 (encode_ne_nil _)
  · rintro rfl
    rfl

/-- Among the characters of a text, those in the middle are the characters of
the segment up to letter case. -/
structure Occurs (segment t : Text) (front found behind : List Scalar) : Prop where
  parts : scalars t = front ++ (found ++ behind)
  letters : found.map letter = (scalars segment).map letter

structure OccursFirst (segment t : Text) (front found behind : List Scalar) : Prop
    extends Occurs segment t front found behind where
  first : ∀ front' found' behind', Occurs segment t front' found' behind' →
    front.length ≤ front'.length

section Occurrences

variable {segment t : Text} {front found behind front' found' behind' : List Scalar}

theorem Occurs.lowered_found (occurs : Occurs segment t front found behind) :
    lowered found = segment.lower := by
  rw [lower_eq, lowered, occurs.letters, lowered]

theorem Occurs.lower_cut (occurs : Occurs segment t front found behind) :
    t.lower = lowered front ++ (segment.lower ++ lowered behind) := by
  rw [lower_eq, occurs.parts, lowered_append, lowered_append, occurs.lowered_found]

theorem exists_occurs (some : segment ≠ []) {x y : Text}
    (cut : t.lower = x ++ (segment.lower ++ y)) :
    ∃ front found behind, Occurs segment t front found behind ∧ lowered front = x := by
  have letters : (scalars segment).map letter ≠ [] := by
    rwa [Ne, List.map_eq_nil_iff, scalars_eq_nil_iff]
  rw [lower_eq, lower_eq] at cut
  obtain ⟨left, right, codes, spelled⟩ :=
    exists_of_spell_eq_infix letter_lt letter_lt letters cut
  obtain ⟨front, more, parts, rfl, rest⟩ := List.map_eq_append_iff.mp codes
  obtain ⟨found, behind, rfl, same, -⟩ := List.map_eq_append_iff.mp rest
  exact ⟨front, found, behind, ⟨parts, same⟩, spelled⟩

/-- The offset of an occurrence grows with the number of characters in front. -/
theorem length_le_of_lowered (isFront : front <+: scalars t) (isFront' : front' <+: scalars t)
    (shorter : (lowered front).length ≤ (lowered front').length) :
    front.length ≤ front'.length := by
  by_contra longer
  obtain ⟨more, rfl⟩ :=
    List.prefix_of_prefix_length_le isFront' isFront (Nat.le_of_not_le longer)
  rw [lowered_append, List.length_append] at shorter
  have none : more = [] := lowered_eq_nil_iff.mp (List.length_eq_zero_iff.mp (by omega))
  simp [none] at longer

theorem lower_ne_nil (some : segment ≠ []) : segment.lower ≠ [] := by
  rwa [lower_eq, Ne, lowered_eq_nil_iff, scalars_eq_nil_iff]

theorem indexOf?_lower_eq_none_iff (some : segment ≠ []) :
    indexOf? segment.lower t.lower = none ↔ ∀ front found behind,
      ¬ Occurs segment t front found behind := by
  rw [indexOf?_eq_none_iff (lower_ne_nil some)]
  constructor
  · intro apart front found behind occurs
    exact apart ⟨lowered front, lowered behind, by rw [occurs.lower_cut, List.append_assoc]⟩
  · rintro apart ⟨x, y, cut⟩
    obtain ⟨front, found, behind, occurs, -⟩ :=
      exists_occurs some (x := x) (y := y) (by rw [← cut, List.append_assoc])
    exact apart front found behind occurs

theorem exists_first_of_indexOf?_lower (some : segment ≠ []) {i : Nat}
    (search : indexOf? segment.lower t.lower = Option.some i) :
    ∃ front found behind, OccursFirst segment t front found behind ∧
      (lowered front).length = i := by
  obtain ⟨lead, tail, cut, leadLength, earlier⟩ := indexOf?_spec search
  obtain ⟨front, found, behind, occurs, rfl⟩ := exists_occurs some cut
  refine ⟨front, found, behind, ⟨occurs, ?_⟩, leadLength⟩
  intro front' found' behind' occurs'
  refine length_le_of_lowered ⟨_, occurs.parts.symm⟩ ⟨_, occurs'.parts.symm⟩ ?_
  by_contra before
  refine earlier (lowered front').length (by omega) ?_
  rw [occurs'.lower_cut, List.drop_left]
  exact List.prefix_append _ _

/-- The offset found is the length of the lower-cased characters in front. -/
theorem OccursFirst.indexOf?_lower (some : segment ≠ [])
    (first : OccursFirst segment t front found behind) :
    indexOf? segment.lower t.lower = Option.some (lowered front).length := by
  cases search : indexOf? segment.lower t.lower with
  | none =>
      exact absurd first.toOccurs ((indexOf?_lower_eq_none_iff some).mp search front found behind)
  | some i =>
      obtain ⟨front', found', behind', first', rfl⟩ :=
        exists_first_of_indexOf?_lower some search
      have lengths :=
        Nat.le_antisymm (first.first _ _ _ first'.toOccurs) (first'.first _ _ _ first.toOccurs)
      have same := first.parts.symm.trans first'.parts
      rw [(List.append_inj same lengths).1]

theorem occursFirst_iff (some : segment ≠ []) : OccursFirst segment t front found behind ↔
    Occurs segment t front found behind ∧
    indexOf? segment.lower t.lower = Option.some (lowered front).length := by
  refine ⟨fun first => ⟨first.toOccurs, first.indexOf?_lower some⟩, ?_⟩
  rintro ⟨occurs, search⟩
  obtain ⟨front', _, _, first', length⟩ := exists_first_of_indexOf?_lower some search
  refine ⟨occurs, fun _ _ _ other => Nat.le_trans ?_ (first'.first _ _ _ other)⟩
  exact length_le_of_lowered ⟨_, occurs.parts.symm⟩ ⟨_, first'.parts.symm⟩
    (Nat.le_of_eq length.symm)

end Occurrences

end ModuleDeps.Text
