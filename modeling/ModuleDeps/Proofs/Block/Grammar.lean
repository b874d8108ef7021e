import ModuleDeps.Block.Grammar
import ModuleDeps.Proofs.Block.Entries
import ModuleDeps.Proofs.Block.InsertPoint
import ModuleDeps.Proofs.Text.Alike

/-!
# Pieces that can be written and read again

Identifiers and literals without line ends, commas and escapes are fit to be
entries of a list.  What stands between the two lists of a block is judged
without regard to carriage returns in front of line feeds.
-/

set_option autoImplicit false

namespace ModuleDeps

open Text

/-! ## Between the lists -/

theorem dropBlocksFrom_eq_drop (skip : Nat) (t : Text) :
    dropBlocksFrom skip t = dropBlocksFrom 0 (t.drop skip) := by
  induction t generalizing skip with
  | nil => cases skip <;> simp [dropBlocksFrom]
  | cons b rest ih =>
      cases skip with
      | zero => rfl
      | succ skip => rw [dropBlocksFrom, ih, List.drop_succ_cons]

theorem blockOpen_isPrefixOf {b : UInt8} {t : Text} :
    blockOpen.isPrefixOf (b :: t) = true ↔ b = slash ∧ t.head? = some star := by
  cases t with
  | nil => simp [blockOpen, List.isPrefixOf]
  | cons c t =>
      simp only [blockOpen, List.isPrefixOf, Bool.and_true, Bool.and_eq_true, beq_iff_eq,
        List.head?_cons, Option.some.injEq]
      exact and_congr eq_comm eq_comm

theorem dropBlocks_code {b : UInt8} {t : Text} (code : ¬ (b = slash ∧ t.head? = some star)) :
    dropBlocksFrom 0 (b :: t) = b :: dropBlocksFrom 0 t := by
  rw [dropBlocksFrom, if_neg fun starts => code (blockOpen_isPrefixOf.mp starts)]

theorem dropBlocks_plain {b : UInt8} (notSlash : b ≠ slash) (t : Text) :
    dropBlocksFrom 0 (b :: t) = b :: dropBlocksFrom 0 t :=
  dropBlocks_code fun starts => notSlash starts.1

theorem dropBlocks_comment (t : Text) :
    dropBlocksFrom 0 (slash :: star :: t) =
      match indexOf? blockClose t with
      | some i => dropBlocksFrom 0 (t.drop (i + 2))
      | none => slash :: star :: dropBlocksFrom 0 t := by
  have starts : blockOpen.isPrefixOf (slash :: star :: t) = true := by simp [blockOpen]
  rw [dropBlocksFrom, if_pos starts, List.drop_succ_cons, List.drop_zero]
  cases indexOf? blockClose t with
  | some i => simp only [dropBlocksFrom_eq_drop (i + 3), List.drop_succ_cons]
  | none => simp only [dropBlocks_plain (by decide : star ≠ slash)]

theorem dropBlocks_code_append {a : UInt8} {A more : Text}
    (code : ¬ (a = slash ∧ A.head? = some star)) (start : more.head? ≠ some star) :
    dropBlocksFrom 0 (a :: A ++ more) = [a] ++ dropBlocksFrom 0 (A ++ more) := by
  refine dropBlocks_code fun starts => code ⟨starts.1, ?_⟩
  cases A with
  | nil => exact absurd starts.2 start
  | cons c A => exact starts.2

/-- A block comment is closed in front of a byte, behind it or nowhere. -/
theorem dropBlocks_comment_append {c : UInt8} (apart : c ∉ blockClose) (A B : Text) :
    dropBlocksFrom 0 (slash :: star :: A ++ c :: B) =
      match indexOf? blockClose A, indexOf? blockClose B with
      | some i, _ => dropBlocksFrom 0 (A.drop (i + 2) ++ c :: B)
      | none, some j => dropBlocksFrom 0 (B.drop (j + 2))
      | none, none => slash :: star :: dropBlocksFrom 0 (A ++ c :: B) := by
  rw [List.cons_append, List.cons_append, dropBlocks_comment, indexOf?_append_sep (by decide) apart]
  cases inside : indexOf? blockClose A with
  | some i =>
      obtain ⟨lead, tail, cut, leadLength, -⟩ := indexOf?_spec inside
      have short : i + 2 ≤ A.length := by
        rw [cut]
        simp [blockClose]
        omega
      simp only [Option.some_or, List.drop_append_of_le_length short]
  | none =>
      cases below : indexOf? blockClose B with
      | none => rfl
      | some j =>
          have past : (A ++ c :: B).drop (j + (A.length + 1) + 2) = B.drop (j + 2) := by
            rw [show j + (A.length + 1) + 2 = A.length + (j + 2 + 1) by omega, ← List.drop_drop,
              List.drop_left]
            rfl
          simp only [Option.none_or, Option.map_some, past]

/-- A carriage return in front of a line feed is dropped with a block comment or
stays in front of its line feed. -/
theorem dropBlocks_cr (A B : Text) :
    dropBlocksFrom 0 (A ++ cr :: lf :: B) = dropBlocksFrom 0 (A ++ lf :: B) ∨
      ∃ P Q, dropBlocksFrom 0 (A ++ cr :: lf :: B) = P ++ cr :: lf :: Q ∧
        dropBlocksFrom 0 (A ++ lf :: B) = P ++ lf :: Q := by
  induction size : A.length using Nat.strong_induction_on generalizing A with
  | _ n ih =>
      cases A with
      | nil =>
          right
          have crCode := dropBlocks_plain (by decide : cr ≠ slash) (lf :: B)
          have lfCode := dropBlocks_plain (by decide : lf ≠ slash) B
          exact ⟨[], dropBlocksFrom 0 B, by simp [crCode, lfCode], by simp [lfCode]⟩
      | cons a A =>
          -- Bytes kept on both sides go to the front of the common part.
          have carry (kept A' : Text) (shorter : A'.length < n)
              (left : dropBlocksFrom 0 (a :: A ++ cr :: lf :: B) =
                kept ++ dropBlocksFrom 0 (A' ++ cr :: lf :: B))
              (right : dropBlocksFrom 0 (a :: A ++ lf :: B) =
                kept ++ dropBlocksFrom 0 (A' ++ lf :: B)) :
              dropBlocksFrom 0 (a :: A ++ cr :: lf :: B) = dropBlocksFrom 0 (a :: A ++ lf :: B) ∨
                ∃ P Q, dropBlocksFrom 0 (a :: A ++ cr :: lf :: B) = P ++ cr :: lf :: Q ∧
                  dropBlocksFrom 0 (a :: A ++ lf :: B) = P ++ lf :: Q := by
            rw [left, right]
            rcases ih A'.length shorter A' rfl with same | ⟨P, Q, leftCut, rightCut⟩
            · exact Or.inl (by rw [same])
            · exact Or.inr ⟨kept ++ P,
                Q, by rw [leftCut, List.append_assoc], by rw [rightCut, List.append_assoc]⟩
          rw [List.length_cons] at size
          by_cases starts : a = slash ∧ A.head? = some star
          · obtain ⟨rfl, secondStar⟩ := starts
            obtain ⟨A, rfl⟩ := List.head?_eq_some_iff.mp secondStar
            rw [List.length_cons] at size
            have pastFeed : indexOf? blockClose (lf :: B) =
                (indexOf? blockClose B).map (· + 1) := by
              have notHere : blockClose.isPrefixOf (lf :: B) = false := rfl
              rw [indexOf?, notHere, if_neg (by simp)]
            have left := dropBlocks_comment_append (by decide : cr ∉ blockClose) A (lf :: B)
            have right := dropBlocks_comment_append (by decide : lf ∉ blockClose) A B
            rw [pastFeed] at left
            cases inside : indexOf? blockClose A with
            | some i =>
                rw [inside] at left right
                exact carry [] (A.drop (i + 2)) (by rw [List.length_drop]; omega) left right
            | none =>
                cases below : indexOf? blockClose B with
                | none =>
                    rw [inside, below] at left right
                    exact carry [slash, star] A (by omega) left right
                | some j =>
                    rw [inside, below] at left right
                    exact Or.inl (left.trans right.symm)
          · have crStart : (cr :: lf :: B).head? ≠ some star := by
              rw [List.head?_cons]
              decide
            have lfStart : (lf :: B).head? ≠ some star := by
              rw [List.head?_cons]
              decide
            exact carry [a] A (by omega) (dropBlocks_code_append starts crStart)
              (dropBlocks_code_append starts lfStart)

theorem allSeparators_append_cr (line : Text) :
    (stripComment (line ++ [cr])).all isSeparator = (stripComment line).all isSeparator := by
  by_cases code : stripComment line = line
  · have longer : stripComment (line ++ [cr]) = line ++ [cr] :=
      codeFrom_append_of_code none line [cr] code (by decide) (by decide)
    have crSeparates : isSeparator cr = true := by decide
    rw [longer, code, List.all_append]
    simp [crSeparates]
  · have same : stripComment (line ++ [cr]) = stripComment line :=
      codeFrom_append_of_comment none line [cr] code
    rw [same]

theorem onlySeparators_cr (A B : Text) :
    onlySeparators (A ++ cr :: lf :: B) = onlySeparators (A ++ lf :: B) := by
  have lines (P Q : Text) :
      ((splitAt lf (P ++ cr :: lf :: Q)).all fun line => (stripComment line).all isSeparator) =
        (splitAt lf (P ++ lf :: Q)).all fun line => (stripComment line).all isSeparator := by
    obtain ⟨init, last, cut⟩ := exists_splitAt_concat lf P
    have apart : lf ∉ [cr] := by decide
    have longer := splitAt_append_of_notMem apart P cut
    have spelled : P ++ cr :: lf :: Q = P ++ [cr] ++ lf :: Q := by simp
    rw [spelled, splitAt_append_sep, splitAt_append_sep, longer, cut, List.all_append,
      List.all_append, List.all_append, List.all_append, List.all_cons, List.all_cons,
      allSeparators_append_cr]
  rw [onlySeparators, onlySeparators, dropBlockComments, dropBlockComments]
  rcases dropBlocks_cr A B with same | ⟨P, Q, left, right⟩
  · rw [same]
  · rw [left, right, lines]

/-- Lines above a place may lose the carriage returns at their ends. -/
theorem onlySeparators_chomp (above : List Text) (lead v : Text) :
    onlySeparators (lead ++ (stacked above ++ v)) =
      onlySeparators (lead ++ (stacked (above.map chomp) ++ v)) := by
  have padded (n : Nat) (A B : Text) :
      onlySeparators (A ++ List.replicate n cr ++ lf :: B) = onlySeparators (A ++ lf :: B) := by
    induction n with
    | zero => simp
    | succ n ih =>
        have spelled : A ++ List.replicate (n + 1) cr ++ lf :: B =
            A ++ List.replicate n cr ++ cr :: lf :: B := by
          rw [List.replicate_succ']
          simp
        rw [spelled, onlySeparators_cr, ih]
  induction above generalizing lead with
  | nil => rfl
  | cons l above ih =>
      obtain ⟨n, cut⟩ := exists_chomp l
      have shorter := padded n (lead ++ chomp l) (stacked above ++ v)
      have rest := ih (lead ++ chomp l ++ [lf])
      rw [List.append_assoc lead (chomp l), ← cut] at shorter
      simp only [List.map_cons, stacked_cons, List.append_assoc, List.cons_append, List.nil_append]
        at shorter rest ⊢
      rw [shorter, rest]

theorem onlySeparators_congr {s t : Text} (same : AlikeFront s t) :
    onlySeparators s = onlySeparators t := by
  obtain ⟨above, above', v, -, -, -, likeAbove, rfl, rfl⟩ := same
  have left := onlySeparators_chomp above [] v
  have right := onlySeparators_chomp above' [] v
  rw [List.nil_append, List.nil_append] at left right
  rw [left, right, likeAbove]

/-! ## Entries that can be written -/

/-- Bytes of a path that mean the same inside and outside of a list. -/
def isPlainByte (b : UInt8) : Bool :=
  b != squote && b != dquote && b != backslash && b != comma && b != 0x5D && b != cr && b != lf

/-- A path that a literal can hold as it is. -/
def isPlainPath (path : Text) : Bool := path.all isPlainByte && !path.contains lineComment

theorem notMem_of_isPlainPath {path : Text} (plain : isPlainPath path = true) {c : UInt8}
    (special : isPlainByte c = false) : c ∉ path := by
  rw [isPlainPath, Bool.and_eq_true, List.all_eq_true] at plain
  intro member
  rw [plain.1 c member] at special
  cases special

theorem not_infix_of_isPlainPath {path : Text} (plain : isPlainPath path = true) :
    ¬ lineComment <:+: path := by
  rw [isPlainPath, Bool.and_eq_true, Bool.not_eq_true'] at plain
  intro occurs
  rw [(contains_iff_isInfix (by decide) path).mpr occurs] at plain
  cases plain.2

theorem not_infix_between {a c : UInt8} (aCode : a ≠ slash) (cCode : c ≠ slash) {t : Text}
    (free : ¬ lineComment <:+: t) : ¬ lineComment <:+: a :: (t ++ [c]) := by
  have sep {x : UInt8} (code : x ≠ slash) : x ∉ lineComment := by simp [lineComment, code]
  have none := (indexOf?_eq_none_iff (by decide)).mpr free
  rw [← indexOf?_eq_none_iff (by decide), ← List.nil_append (a :: _),
    indexOf?_append_sep (by decide) (sep aCode), indexOf?_append_sep (by decide) (sep cCode), none]
  have empty : indexOf? lineComment [] = Option.none := by decide
  simp [empty]

section Quoted

variable {q : UInt8} {body : Text} (quote : q = squote ∨ q = dquote) (closed : q ∉ body)
  (unescaped : backslash ∉ body)
include quote closed unescaped

theorem fit_quoted (commaFree : comma ∉ body) (lfFree : lf ∉ body) :
    Fit (q :: (body ++ [q])) where
  commaFree := by
    have notComma : comma ≠ q := by rcases quote with rfl | rfl <;> decide
    simp [commaFree, notComma]
  lfFree := by
    have notLf : lf ≠ q := by rcases quote with rfl | rfl <;> decide
    simp [lfFree, notLf]
  start := by
    rw [List.head?_cons]
    rcases quote with rfl | rfl <;> decide
  trimmed lead tail := by
    have ends : (q :: (body ++ [q])).getLast? = some q := by simp [List.getLast?_cons]
    have visible : isVisible q = true := by rcases quote with rfl | rfl <;> decide
    exact trim_around lead tail (trimStart_of_visible visible _) ends (foreign_of_visible visible)
  closed more := by
    have isQuoted : isQuote q = true := by rcases quote with rfl | rfl <;> decide
    simpa using codeFrom_literal_append isQuoted closed unescaped more
  inked := by
    refine ⟨q, by simp, fun t blank => blank.notMem_of_visible ?_⟩
    rcases quote with rfl | rfl <;> decide
  ends b last := by
    obtain rfl : q = b := by simpa [List.getLast?_cons] using last
    rcases quote with rfl | rfl <;> decide

theorem isLiteral_quoted : isLiteral (q :: (body ++ [q])) = true := by
  have notEscape : q ≠ backslash := by rcases quote with rfl | rfl <;> decide
  have closes : closesLiteral q (body ++ [q]) = true := by
    induction body with
    | nil => simp [closesLiteral, notEscape]
    | cons b body ih =>
        have notQuote : b ≠ q := by
          rintro rfl
          exact closed (by simp)
        have notBackslash : b ≠ backslash := by
          rintro rfl
          exact unescaped (by simp)
        rw [List.cons_append, closesLiteral.eq_def]
        simp only [if_neg notBackslash, if_neg notQuote]
        exact ih (fun member => closed (by simp [member])) fun member =>
          unescaped (by simp [member])
  rw [isLiteral, closes]
  rcases quote with rfl | rfl <;> decide

end Quoted

section Literal

variable {q : UInt8} {path : Text} (quote : q = squote ∨ q = dquote)
  (plain : isPlainPath path = true)
include quote plain

theorem notMem_literal {c : UInt8} (special : isPlainByte c = false)
    (notQuote : c ≠ squote ∧ c ≠ dquote) :
    c ∉ q :: (path ++ [q]) := by
  have apart := notMem_of_isPlainPath plain special
  rcases quote with rfl | rfl
  · simp [apart, notQuote.1]
  · simp [apart, notQuote.2]

theorem quote_notMem : q ∉ path := by
  rcases quote with rfl | rfl
  · exact notMem_of_isPlainPath plain (by decide)
  · exact notMem_of_isPlainPath plain (by decide)

theorem fit_literal : Fit (q :: (path ++ [q])) :=
  fit_quoted quote (quote_notMem quote plain) (notMem_of_isPlainPath plain (by decide))
    (notMem_of_isPlainPath plain (by decide)) (notMem_of_isPlainPath plain (by decide))

theorem not_infix_literal : ¬ lineComment <:+: q :: (path ++ [q]) := by
  have code : q ≠ slash := by rcases quote with rfl | rfl <;> decide
  exact not_infix_between code code (not_infix_of_isPlainPath plain)

theorem isLiteral_literal : isLiteral (q :: (path ++ [q])) = true :=
  isLiteral_quoted quote (quote_notMem quote plain) (notMem_of_isPlainPath plain (by decide))

end Literal

/-! ## Names -/

/-- Text spelled with bytes of identifiers and the few other characters that a
letter of an identifier is equal to up to case: the dotted capital I, the long s
and the Kelvin sign. -/
inductive Spelled : Text → Prop
  | nil : Spelled []
  | byte {b : UInt8} {t : Text} : isNameByte b = true → Spelled t → Spelled (b :: t)
  | dotted {t : Text} : Spelled t → Spelled (0xC4 :: 0xB0 :: t)
  | long {t : Text} : Spelled t → Spelled (0xC5 :: 0xBF :: t)
  | kelvin {t : Text} : Spelled t → Spelled (0xE2 :: 0x84 :: 0xAA :: t)

theorem forall_byte {p : UInt8 → Prop} (all : ∀ n : Fin 256, p (UInt8.ofFin n)) (b : UInt8) :
    p b := by
  simpa using all b.toFin

theorem isNameByte_visible {b : UInt8} (name : isNameByte b = true) : isVisible b = true := by
  have all :=
    forall_byte (p := fun b => isNameByte b = true → isVisible b = true) (by decide +kernel)
  exact all b name

theorem isNameByte_of_isNameStart {b : UInt8} (start : isNameStart b = true) :
    isNameByte b = true := by
  have all :=
    forall_byte (p := fun b => isNameStart b = true → isNameByte b = true) (by decide +kernel)
  exact all b start

theorem spelled_of_nameBytes {t : Text} (bytes : ∀ b ∈ t, isNameByte b = true) : Spelled t := by
  induction t with
  | nil => exact Spelled.nil
  | cons b t ih =>
      exact Spelled.byte (bytes b (by simp)) (ih fun c member => bytes c (by simp [member]))

theorem nameBytes_of_isIdentifier {name : Text} (identifier : isIdentifier name = true) :
    name ≠ [] ∧ ∀ b ∈ name, isNameByte b = true := by
  cases name with
  | nil => cases identifier
  | cons b name =>
      rw [isIdentifier, Bool.and_eq_true, List.all_eq_true] at identifier
      refine ⟨by simp, ?_⟩
      intro c member
      rcases List.mem_cons.mp member with rfl | member
      · exact isNameByte_of_isNameStart identifier.1
      · exact identifier.2 c member

theorem Spelled.notMem {t : Text} (spelled : Spelled t) {c : UInt8} (low : c < 0x80)
    (special : isNameByte c = false) : c ∉ t := by
  have high {a : UInt8} (large : ¬ a < 0x80) : c ≠ a := by
    rintro rfl
    exact large low
  induction spelled with
  | nil => simp
  | @byte b t name _ ih =>
      have distinct : c ≠ b := by
        rintro rfl
        rw [name] at special
        cases special
      simp [distinct, ih]
  | dotted _ ih =>
      simp [high (by decide : ¬ (0xC4 : UInt8) < 0x80),
        high (by decide : ¬ (0xB0 : UInt8) < 0x80), ih]
  | long _ ih =>
      simp [high (by decide : ¬ (0xC5 : UInt8) < 0x80),
        high (by decide : ¬ (0xBF : UInt8) < 0x80), ih]
  | kelvin _ ih =>
      simp [high (by decide : ¬ (0xE2 : UInt8) < 0x80),
        high (by decide : ¬ (0x84 : UInt8) < 0x80),
        high (by decide : ¬ (0xAA : UInt8) < 0x80), ih]

theorem foreign_high {a : UInt8}
    (high : a = 0xC4 ∨ a = 0xC5 ∨ a = 0xB0 ∨ a = 0xBF ∨ a = 0xAA) :
    Foreign a := by
  rcases high with rfl | rfl | rfl | rfl | rfl <;>
    exact ⟨by decide, fun b => by simp [isBlank2], fun b c => by simp [isBlank3]⟩

theorem Spelled.last {t : Text} (spelled : Spelled t) (nonempty : t ≠ []) :
    ∃ a, t.getLast? = some a ∧ Foreign a ∧ Buffer.isLineBlank a = false := by
  -- Behind the first character either nothing follows or the rest has the last byte.
  have extend (lead : Text) {rest : Text} {a : UInt8} (foreign : Foreign a)
      (noBlank : Buffer.isLineBlank a = false)
      (ih : rest ≠ [] → ∃ a, rest.getLast? = some a ∧ Foreign a ∧
        Buffer.isLineBlank a = false) :
      ∃ c, (lead ++ a :: rest).getLast? = some c ∧ Foreign c ∧
        Buffer.isLineBlank c = false := by
    cases rest with
    | nil => exact ⟨a, by simp, foreign, noBlank⟩
    | cons b rest =>
        obtain ⟨c, ends, rest'⟩ := ih (by simp)
        refine ⟨c, ?_, rest'⟩
        rw [List.getLast?_append, List.getLast?_cons_cons, ends]
        rfl
  induction spelled with
  | nil => exact absurd rfl nonempty
  | @byte b t name _ ih =>
      have foreign := foreign_of_visible (isNameByte_visible name)
      have noBlank : Buffer.isLineBlank b = false :=
        Bool.eq_false_iff.mpr fun blank => by
          have one := Buffer.isBlank1_of_isLineBlank blank
          rw [foreign.one] at one
          cases one
      exact extend [] foreign noBlank ih
  | dotted _ ih => exact extend [0xC4] (foreign_high (by simp)) (by decide) ih
  | long _ ih => exact extend [0xC5] (foreign_high (by simp)) (by decide) ih
  | kelvin _ ih => exact extend [0xE2, 0x84] (foreign_high (by simp)) (by decide) ih

theorem Spelled.trimStart {t : Text} (spelled : Spelled t) (nonempty : t ≠ []) (more : Text) :
    Text.trimStart (t ++ more) = t ++ more := by
  cases spelled with
  | nil => exact absurd rfl nonempty
  | byte name _ => exact trimStart_of_visible (isNameByte_visible name) _
  | dotted _ => exact trimStart_of_foreign (foreign_high (by simp)) _
  | long _ => exact trimStart_of_foreign (foreign_high (by simp)) _
  | kelvin _ => rfl

theorem fit_spelled {name : Text} (spelled : Spelled name) (nonempty : name ≠ []) : Fit name := by
  obtain ⟨a, ends, foreign, noBlank⟩ := spelled.last nonempty
  have plain : ∀ b ∈ name, isQuote b = false ∧ b ≠ slash := by
    intro b member
    constructor
    · by_contra quote
      rw [Bool.not_eq_false, isQuote, Bool.or_eq_true, Bool.or_eq_true, beq_iff_eq, beq_iff_eq,
        beq_iff_eq] at quote
      rcases quote with (rfl | rfl) | rfl
      · exact spelled.notMem (by decide) (by decide) member
      · exact spelled.notMem (by decide) (by decide) member
      · exact spelled.notMem (by decide) (by decide) member
    · rintro rfl
      exact spelled.notMem (by decide) (by decide) member
  refine ⟨spelled.notMem (by decide) (by decide), spelled.notMem (by decide) (by decide), ?_, ?_,
    codeFrom_plain_append plain,
    ⟨a, List.mem_of_getLast? ends, fun t blank => blank.notMem_of_foreign foreign⟩, ?_⟩
  · intro start
    exact spelled.notMem (by decide : slash < 0x80) (by decide) (List.mem_of_mem_head? start)
  · intro s u lead tail
    exact trim_around lead tail (spelled.trimStart nonempty u) ends foreign
  · intro b last
    obtain rfl : a = b := Option.some.inj (ends.symm.trans last)
    exact noBlank

theorem Spelled.not_infix {name : Text} (spelled : Spelled name) : ¬ lineComment <:+: name := by
  intro occurs
  exact spelled.notMem (by decide : slash < 0x80) (by decide) (occurs.subset (by decide))

theorem spelled_of_isIdentifier {name : Text} (identifier : isIdentifier name = true) :
    Spelled name :=
  spelled_of_nameBytes (nameBytes_of_isIdentifier identifier).2

end ModuleDeps
