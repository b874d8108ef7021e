import ModuleDeps.Block.Descriptor
import ModuleDeps.Proofs.Block.Grammar
import ModuleDeps.Proofs.Text.Characters

/-!
# Letter case and identifiers

A symbol that an identifier ends with, up to letter case, is spelled with bytes
of identifiers but for two characters whose small letters are ASCII, the dotted
capital I and the Kelvin sign.  A name that is equal to such a symbol up to case
may also hold the long s, which folds together with the letter s but is no
capital of it.  These three characters are the only ones that `Spelled` has to
allow (`spelled_of_endsWith`).
-/

set_option autoImplicit false

namespace ModuleDeps

open Text

/-! ## Characters -/

/-- Characters that have a letter of an identifier in their folding class, and
the dotted capital I. -/
def isSpelling (code : Nat) : Bool :=
  (code < 0x80 && isNameByte code.toUInt8) || code == 0x130 || code == 0x17F || code == 0x212A

theorem isSpelling_of_ascii {code : Nat} (ascii : code < 0x80) (spelling : isSpelling code = true) :
    isNameByte code.toUInt8 = true := by
  have others : (code == 0x130) = false ∧ (code == 0x17F) = false ∧
      (code == 0x212A) = false := by
    simp only [beq_eq_false_iff_ne]
    omega
  simpa [isSpelling, others.1, others.2.1, others.2.2, ascii] using spelling

theorem isSpelling_cases {code : Nat} (spelling : isSpelling code = true) (large : 0x80 ≤ code) :
    code = 0x130 ∨ code = 0x17F ∨ code = 0x212A := by
  have notAscii : ¬ code < 0x80 := by omega
  simpa [isSpelling, notAscii, or_assoc] using spelling

theorem lowerRows_low : ∀ row ∈ lowerRows, 0x80 ≤ (row.1 : Int) + row.2.2.1 ∨
    row.1 = 0x130 ∧ row.2.1 = 0x130 ∨ row.1 = 0x212A ∧ row.2.1 = 0x212A := by
  decide +kernel

theorem lowerRows_dotted : ∀ row ∈ lowerRows,
    (row.2.1 : Int) + row.2.2.1 < 0x130 ∨ 0x130 < (row.1 : Int) + row.2.2.1 := by
  decide +kernel

theorem foldRows_low :
    ∀ row ∈ foldRows, 0x80 ≤ row.2 ∧ row.2 ≠ 0x130 ∨ row.1 = 0x17F := by
  decide +kernel

theorem isNameByte_lowerCode_iff {code : Nat} (ascii : code < 0x80) :
    isNameByte (lowerCode code).toUInt8 = isNameByte code.toUInt8 := by
  have all : ∀ n : Fin 128, isNameByte (lowerCode n).toUInt8 = isNameByte (n : Nat).toUInt8 := by
    decide +kernel
  exact all ⟨code, ascii⟩

theorem isSpelling_of_lowerCode {code : Nat} (ascii : lowerCode code < 0x80)
    (name : isNameByte (lowerCode code).toUInt8 = true) : isSpelling code = true := by
  by_cases small : code < 0x80
  · rw [isNameByte_lowerCode_iff small] at name
    simp [isSpelling, small, name]
  · rcases lowerCode_cases (Nat.le_of_not_lt small) with
      same | ⟨row, member, low, high, lowered⟩
    · omega
    · rcases lowerRows_low row member with shifted | dotted | kelvin
      · omega
      · obtain rfl : code = 0x130 := by omega
        decide
      · obtain rfl : code = 0x212A := by omega
        decide

theorem lowerCode_ne_dotted {code : Nat} (large : 0x80 ≤ code) (distinct : code ≠ 0x130) :
    lowerCode code ≠ 0x130 := by
  rcases lowerCode_cases large with same | ⟨row, member, low, high, lowered⟩
  · rwa [same]
  · have apart := lowerRows_dotted row member
    omega

theorem foldCode_of_isSpelling {code : Nat} (spelling : isSpelling code = true) :
    foldCode code = 0x130 ∨ foldCode code < 0x80 ∧
      isNameByte (foldCode code).toUInt8 = true := by
  by_cases small : code < 0x80
  · have name := isSpelling_of_ascii small spelling
    have notDotted : ¬ code = 0x130 := by omega
    right
    rw [foldCode, if_neg notDotted, if_pos small, isNameByte_lowerCode_iff small]
    exact ⟨lowerCode_ascii small, name⟩
  · rcases isSpelling_cases spelling (Nat.le_of_not_lt small) with rfl | rfl | rfl
    · decide +kernel
    · decide +kernel
    · decide +kernel

theorem isSpelling_of_foldCode {code other : Nat} (same : foldCode other = foldCode code)
    (spelling : isSpelling code = true) : isSpelling other = true := by
  have represented := foldCode_of_isSpelling spelling
  rw [← same] at represented
  by_cases dotted : other = 0x130
  · rw [dotted]
    decide
  · rw [foldCode, if_neg dotted] at represented
    by_cases small : other < 0x80
    · rw [if_pos small] at represented
      have ascii := lowerCode_ascii small
      exact isSpelling_of_lowerCode ascii (represented.resolve_left (by omega)).2
    · rw [if_neg small] at represented
      cases found : foldRows.find? (·.1 == other) with
      | some row =>
          simp only [found] at represented
          have here : row.1 = other := by simpa using List.find?_some found
          rcases foldRows_low row (List.mem_of_find?_eq_some found) with high | long
          · omega
          · rw [← here, long]
            decide
      | none =>
          simp only [found] at represented
          rcases represented with isDotted | ⟨ascii, name⟩
          · exact absurd isDotted (lowerCode_ne_dotted (Nat.le_of_not_lt small) dotted)
          · exact isSpelling_of_lowerCode ascii name

/-! ## Texts -/

theorem lt_of_encode {code : Nat} (bytes : ∀ b ∈ encode code, isNameByte b = true) :
    code < 0x80 := by
  by_contra large
  have member : (0x80 + code % 64).toUInt8 ∈ encode code := by
    rw [encode, if_neg large]
    split
    · simp
    · split <;> simp
  have ascii := toNat_lt_of_lt (isVisible.lt (isNameByte_visible (bytes _ member)))
  have exact : (0x80 + code % 64).toUInt8.toNat = 0x80 + code % 64 := by
    rw [Nat.toUInt8_eq, UInt8.toNat_ofNat']
    omega
  omega

theorem nameBytes_lower {t : Text} (bytes : ∀ b ∈ t, isNameByte b = true) :
    ∀ b ∈ lower t, isNameByte b = true := by
  induction t with
  | nil => simp [lower, scalars, scalarsFrom]
  | cons a t ih =>
      have ascii := isVisible.lt (isNameByte_visible (bytes a (by simp)))
      have small := toNat_lt_of_lt ascii
      intro b member
      rw [lower, scalars_cons_ascii ascii, List.flatMap_cons,
        encode_ascii (lowerCode_ascii small)] at member
      rcases List.mem_append.mp member with here | later
      · rw [List.mem_singleton.mp here, isNameByte_lowerCode_iff small]
        simpa using bytes a (by simp)
      · exact ih (fun c cMember => bytes c (by simp [cMember])) b later

theorem isSpelling_of_lower {t : Text} (bytes : ∀ b ∈ lower t, isNameByte b = true) :
    ∀ s ∈ scalars t, isSpelling s.code = true := by
  intro s member
  have own : ∀ b ∈ encode (lowerCode s.code), isNameByte b = true := by
    intro b inside
    exact bytes b (List.mem_flatMap.mpr ⟨s, member, inside⟩)
  have ascii := lt_of_encode own
  refine isSpelling_of_lowerCode ascii (own _ ?_)
  rw [encode_ascii ascii]
  simp

/-- A character beyond ASCII that is a spelling is one of three. -/
theorem firstScalar?_spelling {a : UInt8} {rest : Text} {code width : Nat} (high : ¬ a < 0x80)
    (found : firstScalar? (a :: rest) = some (code, width)) (spelling : isSpelling code = true) :
    (∃ more, a :: rest = 0xC4 :: 0xB0 :: more ∧ width = 2) ∨
      (∃ more, a :: rest = 0xC5 :: 0xBF :: more ∧ width = 2) ∨
      ∃ more, a :: rest = 0xE2 :: 0x84 :: 0xAA :: more ∧ width = 3 := by
  have same {x : UInt8} {n : Nat} (exact : x.toNat = n) (small : n < 256) : x = n.toUInt8 := by
    rw [← UInt8.toNat_inj, Nat.toUInt8_eq, UInt8.toNat_ofNat', exact]
    omega
  cases wide_of_firstScalar? high found with
  | @two a b more low top second =>
      -- Two bytes give the codes from 0x80 to 0x7FF.
      rw [isContinuation_iff] at second
      simp only [low6] at spelling
      rcases isSpelling_cases spelling (by omega) with dotted | long | kelvin
      · left
        have aExact := same (x := a) (n := 196) (by omega) (by omega)
        have bExact := same (x := b) (n := 176) (by omega) (by omega)
        exact ⟨more, by rw [aExact, bExact]; rfl, rfl⟩
      · right
        left
        have aExact := same (x := a) (n := 197) (by omega) (by omega)
        have bExact := same (x := b) (n := 191) (by omega) (by omega)
        exact ⟨more, by rw [aExact, bExact]; rfl, rfl⟩
      · omega
  | @three a b c more second third =>
      -- Three bytes give the codes from 0x800 on.
      have bounds := secondOfThree_bounds second
      rw [isContinuation_iff] at third
      simp only [low6] at spelling
      rcases isSpelling_cases spelling (by omega) with dotted | long | kelvin
      · omega
      · omega
      · right
        right
        have aExact := same (x := a) (n := 226) (by omega) (by omega)
        have bExact := same (x := b) (n := 132) (by omega) (by omega)
        have cExact := same (x := c) (n := 170) (by omega) (by omega)
        exact ⟨more, by rw [aExact, bExact, cExact]; rfl, rfl⟩
  | four more second third fourth =>
      -- Four bytes give the codes from 0x10000 on.
      have bounds := secondOfFour_bounds second
      simp only [low6] at spelling
      rcases isSpelling_cases spelling (by omega) with dotted | long | kelvin
      · omega
      · omega
      · omega

theorem spelled_of_scalars {t : Text} (spellings : ∀ s ∈ scalars t, isSpelling s.code = true) :
    Spelled t := by
  induction size : t.length using Nat.strong_induction_on generalizing t with
  | _ n ih =>
      cases t with
      | nil => exact Spelled.nil
      | cons a rest =>
          by_cases ascii : a < 0x80
          · rw [scalars_cons_ascii ascii] at spellings
            have small := toNat_lt_of_lt ascii
            have name := isSpelling_of_ascii small (spellings _ List.mem_cons_self)
            refine Spelled.byte (by simpa using name) ?_
            exact ih rest.length (by rw [← size]; simp)
              (fun s member => spellings s (List.mem_cons_of_mem _ member)) rfl
          · rw [scalars, scalarsFrom] at spellings
            cases found : firstScalar? (a :: rest) with
            | none =>
                simp only [found] at spellings
                have replaced : isSpelling replacement = true := spellings _ List.mem_cons_self
                exact absurd replaced (by decide)
            | some row =>
                obtain ⟨code, width⟩ := row
                simp only [found] at spellings
                have spelling := spellings _ List.mem_cons_self
                have later (more : Text) (short : more.length < n)
                    (same : scalarsFrom (width - 1) rest = scalars more) : Spelled more :=
                  ih more.length short (fun s member =>
                    spellings s (List.mem_cons_of_mem _ (same ▸ member))) rfl
                rcases firstScalar?_spelling ascii found spelling with
                  ⟨more, cut, rfl⟩ | ⟨more, cut, rfl⟩ | ⟨more, cut, rfl⟩
                · obtain ⟨rfl, rfl⟩ := List.cons.inj cut
                  exact Spelled.dotted (later more
                    (by rw [← size, List.length_cons, List.length_cons]; omega) rfl)
                · obtain ⟨rfl, rfl⟩ := List.cons.inj cut
                  exact Spelled.long (later more
                    (by rw [← size, List.length_cons, List.length_cons]; omega) rfl)
                · obtain ⟨rfl, rfl⟩ := List.cons.inj cut
                  exact Spelled.kelvin (later more
                    (by rw [← size, List.length_cons, List.length_cons, List.length_cons]; omega)
                    rfl)

/-! ## Names -/

/-- A name that stands for a symbol: the symbol itself, or one that is equal to
it up to letter case. -/
def StandsFor (name symbol : Text) : Prop := name = symbol ∨ name.equalFold symbol = true

theorem StandsFor.ne_nil {name symbol : Text} (stands : StandsFor name symbol)
    (nonempty : symbol ≠ []) :
    name ≠ [] := by
  rcases stands with rfl | same
  · exact nonempty
  · rintro rfl
    have folds : folded [] = folded symbol := by simpa [equalFold] using same
    have none : scalars symbol = [] := by
      have lengths := congrArg List.length folds
      simp only [folded, List.length_map] at lengths
      exact List.length_eq_zero_iff.mp (by simpa [scalars, scalarsFrom] using lengths.symm)
    exact nonempty (scalars_eq_nil_iff.mp none)

/-- Whatever stands for a symbol that an identifier ends with, up to letter
case, is spelled with the characters of identifiers and three others. -/
theorem spelled_of_endsWith {parameter name symbol : Text}
    (identifier : isIdentifier parameter = true)
    (ends : parameter.lower.endsWith symbol.lower = true) (stands : StandsFor name symbol) :
    Spelled name := by
  have suffix : symbol.lower <:+ parameter.lower := List.isSuffixOf_iff_suffix.mp ends
  have bytes : ∀ b ∈ symbol.lower, isNameByte b = true := by
    intro b member
    exact nameBytes_lower (nameBytes_of_isIdentifier identifier).2 b (suffix.subset member)
  have spellings := isSpelling_of_lower bytes
  rcases stands with rfl | same
  · exact spelled_of_scalars spellings
  · have folds : folded name = folded symbol := by simpa [equalFold] using same
    refine spelled_of_scalars fun s member => ?_
    have folded : foldCode s.code ∈ folded symbol := by
      rw [← folds]
      exact List.mem_map_of_mem member
    obtain ⟨s', member', fold⟩ := List.mem_map.mp folded
    exact isSpelling_of_foldCode fold.symm (spellings s' member')

end ModuleDeps
