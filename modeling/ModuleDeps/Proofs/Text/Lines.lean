import Mathlib.Data.List.DropRight
import ModuleDeps.Buffer.Basic

/-!
# Texts and their lines

A text is cut into lines at its line feeds.  The part in front of a place is a
stack of whole lines followed by the beginning of a line; the part behind it is
the rest of that line with further lines hung below.  In these terms cutting at
a place, joining the lines and cutting the joined text again are plain
equations between lists.
-/

set_option autoImplicit false

namespace ModuleDeps.Text

/-! ## Cutting at a byte -/

theorem splitAt_eq_splitOn (sep : UInt8) (t : Text) : splitAt sep t = List.splitOn sep t := by
  induction t with
  | nil => simp [splitAt]
  | cons b rest ih =>
      rw [List.splitOn_cons_eq_if_modifyHead, splitAt, ih]
      by_cases isSep : b = sep
      · simp [isSep]
      · obtain ⟨piece, more, cut⟩ := List.exists_cons_of_ne_nil (List.splitOn_ne_nil sep rest)
        simp [isSep, cut]

theorem splitAt_append_sep (sep : UInt8) (t more : Text) :
    splitAt sep (t ++ sep :: more) = splitAt sep t ++ splitAt sep more := by
  simp [splitAt_eq_splitOn, List.splitOn_append_cons_self]

theorem splitAt_of_notMem {sep : UInt8} {t : Text} (apart : sep ∉ t) : splitAt sep t = [t] := by
  rw [splitAt_eq_splitOn, List.splitOn_eq_singleton apart]

theorem splitAt_ne_nil (sep : UInt8) (t : Text) : splitAt sep t ≠ [] := by
  rw [splitAt_eq_splitOn]
  exact List.splitOn_ne_nil sep t

theorem notMem_of_mem_splitAt {sep : UInt8} :
    ∀ {t piece : Text}, piece ∈ splitAt sep t → sep ∉ piece := by
  intro t
  induction t with
  | nil =>
      intro piece member
      simp [splitAt] at member
      simp [member]
  | cons b rest ih =>
      intro piece member
      rw [splitAt] at member
      by_cases isSep : b = sep
      · rcases List.mem_cons.mp (by simpa [isSep] using member) with rfl | member
        · simp
        · exact ih member
      · obtain ⟨first, more, cut⟩ := List.exists_cons_of_ne_nil (splitAt_ne_nil sep rest)
        rcases List.mem_cons.mp (by simpa [isSep, cut] using member) with rfl | member
        · have apart : sep ∉ first := ih (by simp [cut])
          simp [apart, Ne.symm isSep]
        · exact ih (by simp [cut, member])

theorem exists_mem_splitAt {sep b : UInt8} (notSep : b ≠ sep) :
    ∀ {t : Text}, b ∈ t → ∃ piece ∈ splitAt sep t, b ∈ piece := by
  intro t
  induction t with
  | nil => exact fun member => absurd member (by simp)
  | cons c rest ih =>
      intro member
      obtain ⟨first, more, cut⟩ := List.exists_cons_of_ne_nil (splitAt_ne_nil sep rest)
      rw [cut] at ih
      rw [splitAt, cut]
      rcases List.mem_cons.mp member with rfl | member
      · exact ⟨b :: first, by simp [notSep], by simp⟩
      · obtain ⟨piece, pieceMember, bMember⟩ := ih member
        by_cases isSep : c = sep
        · exact ⟨piece, by simpa [isSep] using Or.inr (List.mem_cons.mp pieceMember), bMember⟩
        · rcases List.mem_cons.mp pieceMember with rfl | pieceMember
          · exact ⟨c :: piece, by simp [isSep], by simp [bMember]⟩
          · exact ⟨piece, by simp [isSep, pieceMember], bMember⟩

theorem splitAt_isPrefix {sep : UInt8} {t first : Text} {more : List Text}
    (cut : splitAt sep t = first :: more) : first <+: t := by
  induction t generalizing first more with
  | nil =>
      obtain ⟨rfl, -⟩ := List.cons.inj cut
      exact List.prefix_refl []
  | cons b t ih =>
      obtain ⟨first', more', cut'⟩ := List.exists_cons_of_ne_nil (splitAt_ne_nil sep t)
      rw [splitAt, cut'] at cut
      split at cut
      · obtain ⟨rfl, -⟩ := List.cons.inj cut
        exact List.nil_prefix
      · obtain ⟨rfl, -⟩ := List.cons.inj cut
        exact List.cons_prefix_cons.mpr ⟨rfl, ih cut'⟩

theorem isInfix_of_mem_splitAt {sep : UInt8} {t piece : Text} (member : piece ∈ splitAt sep t) :
    piece <:+: t := by
  induction t with
  | nil =>
      obtain rfl : piece = [] := by simpa [splitAt] using member
      exact List.infix_refl []
  | cons b t ih =>
      obtain ⟨first, more, cut⟩ := List.exists_cons_of_ne_nil (splitAt_ne_nil sep t)
      rw [cut] at ih
      rw [splitAt, cut] at member
      split at member
      · rcases List.mem_cons.mp member with rfl | member
        · exact List.nil_infix
        · exact List.infix_cons (ih member)
      · rcases List.mem_cons.mp member with rfl | member
        · exact (List.cons_prefix_cons.mpr ⟨rfl, splitAt_isPrefix cut⟩).isInfix
        · exact List.infix_cons (ih (by simp [member]))

/-- Pieces put together again with `joint` between them: every separator has
become a joint. -/
theorem joinWith_splitAt (sep : UInt8) (joint t : Text) :
    joinWith joint (splitAt sep t) = t.replaceByte sep joint := by
  induction t with
  | nil => simp [splitAt, joinWith, replaceByte]
  | cons b rest ih =>
      obtain ⟨first, more, cut⟩ := List.exists_cons_of_ne_nil (splitAt_ne_nil sep rest)
      rw [replaceByte, List.flatMap_cons, ← replaceByte, ← ih, splitAt, cut]
      by_cases isSep : b = sep
      · simp [isSep, joinWith]
      · cases more <;> simp [isSep, joinWith]

theorem joinWith_splitAt_self (sep : UInt8) (t : Text) : joinWith [sep] (splitAt sep t) = t := by
  rw [joinWith, splitAt_eq_splitOn, List.intercalate_splitOn]

theorem splitAt_injective {sep : UInt8} {s t : Text} (same : splitAt sep s = splitAt sep t) :
    s = t := by
  rw [← joinWith_splitAt_self sep s, same, joinWith_splitAt_self]

/-! ## Stacks of lines -/

def stacked (lines : List Text) : Text := lines.flatMap (· ++ [lf])

/-- Lines that follow a line, each with the line feed in front of it. -/
def hung (lines : List Text) : Text := lines.flatMap (lf :: ·)

@[simp] theorem stacked_nil : stacked [] = [] := rfl

@[simp] theorem stacked_cons (l : Text) (lines : List Text) :
    stacked (l :: lines) = l ++ lf :: stacked lines := by
  simp [stacked]

@[simp] theorem stacked_append (lines more : List Text) :
    stacked (lines ++ more) = stacked lines ++ stacked more := by
  simp [stacked]

@[simp] theorem hung_nil : hung [] = [] := rfl

@[simp] theorem hung_cons (l : Text) (lines : List Text) :
    hung (l :: lines) = lf :: (l ++ hung lines) := by
  simp [hung]

theorem stacked_concat_eq (lines : List Text) (l : Text) :
    stacked lines ++ l = joinWith [lf] (lines ++ [l]) := by
  induction lines with
  | nil => simp [joinWith]
  | cons first lines ih =>
      cases lines with
      | nil => simp [joinWith]
      | cons second lines =>
          rw [stacked_cons, List.append_assoc, List.cons_append, ih]
          simp [joinWith]

theorem splitAt_stacked {lines : List Text} (whole : ∀ l ∈ lines, lf ∉ l) (t : Text) :
    splitAt lf (stacked lines ++ t) = lines ++ splitAt lf t := by
  induction lines with
  | nil => simp
  | cons l lines ih =>
      have apart : lf ∉ l := whole l (by simp)
      rw [stacked_cons, List.append_assoc, List.cons_append, splitAt_append_sep,
        splitAt_of_notMem apart, ih fun x member => whole x (by simp [member])]
      simp

/-- Whole lines and the beginning behind them can be told apart. -/
theorem stacked_append_inj {lines more : List Text} {v w : Text} (whole : ∀ l ∈ lines, lf ∉ l)
    (wholeMore : ∀ l ∈ more, lf ∉ l) (vApart : lf ∉ v) (wApart : lf ∉ w)
    (same : stacked lines ++ v = stacked more ++ w) : lines = more ∧ v = w := by
  have cut := congrArg (splitAt lf) same
  rw [splitAt_stacked whole, splitAt_stacked wholeMore, splitAt_of_notMem vApart,
    splitAt_of_notMem wApart] at cut
  obtain ⟨lineSame, lastSame⟩ := List.append_inj' cut rfl
  exact ⟨lineSame, by simpa using lastSame⟩

theorem splitAt_hung {y : Text} (apart : lf ∉ y) {lines : List Text}
    (whole : ∀ l ∈ lines, lf ∉ l) : splitAt lf (y ++ hung lines) = y :: lines := by
  induction lines generalizing y with
  | nil => simp [splitAt_of_notMem apart]
  | cons l lines ih =>
      rw [hung_cons, splitAt_append_sep, splitAt_of_notMem apart,
        ih (whole l (by simp)) fun x member => whole x (by simp [member])]
      simp

theorem exists_stacked (t : Text) :
    ∃ lines v, (∀ l ∈ lines, lf ∉ l) ∧ lf ∉ v ∧ t = stacked lines ++ v := by
  refine ⟨(splitAt lf t).dropLast, (splitAt lf t).getLast (splitAt_ne_nil lf t), ?_, ?_, ?_⟩
  · intro l member
    exact notMem_of_mem_splitAt (List.dropLast_subset _ member)
  · exact notMem_of_mem_splitAt (List.getLast_mem _)
  · rw [stacked_concat_eq, List.dropLast_concat_getLast, joinWith_splitAt_self]

theorem exists_hung (t : Text) :
    ∃ y lines, lf ∉ y ∧ (∀ l ∈ lines, lf ∉ l) ∧ t = y ++ hung lines := by
  induction t with
  | nil => exact ⟨[], [], by simp, by simp, by simp⟩
  | cons b rest ih =>
      obtain ⟨y, lines, apart, whole, cut⟩ := ih
      by_cases isLf : b = lf
      · refine ⟨[], y :: lines, by simp, ?_, by simp [isLf, cut]⟩
        intro l member
        rcases List.mem_cons.mp member with rfl | member
        · exact apart
        · exact whole l member
      · exact ⟨b :: y, lines, by simp [apart, Ne.symm isLf], whole, by simp [cut]⟩

theorem splitAt_around {above below : List Text} {v y : Text}
    (wholeAbove : ∀ l ∈ above, lf ∉ l) (vApart : lf ∉ v) (yApart : lf ∉ y)
    (wholeBelow : ∀ l ∈ below, lf ∉ l) :
    splitAt lf (stacked above ++ v ++ (y ++ hung below)) = above ++ (v ++ y) :: below := by
  have lineApart : lf ∉ v ++ y := by simp [vApart, yApart]
  rw [List.append_assoc, splitAt_stacked wholeAbove, ← List.append_assoc v,
    splitAt_hung lineApart wholeBelow]

/-- Line ends of two bytes: every stacked line gets a carriage return. -/
theorem replaceByte_stacked {above : List Text} {v : Text} (wholeAbove : ∀ l ∈ above, lf ∉ l)
    (vApart : lf ∉ v) :
    (stacked above ++ v).replaceByte lf [cr, lf] = stacked (above.map (· ++ [cr])) ++ v := by
  have plain {l : Text} (apart : lf ∉ l) :
      l.flatMap (fun b => if b = lf then [cr, lf] else [b]) = l := by
    induction l with
    | nil => rfl
    | cons b l ih =>
        have notLf : b ≠ lf := by
          rintro rfl
          exact apart (by simp)
        rw [List.flatMap_cons, if_neg notLf, ih fun member => apart (by simp [member])]
        rfl
  induction above with
  | nil => simpa [replaceByte] using plain vApart
  | cons l above ih =>
      have rest := ih fun x member => wholeAbove x (by simp [member])
      rw [replaceByte] at rest ⊢
      rw [stacked_cons, List.append_assoc, List.cons_append, List.flatMap_append, List.flatMap_cons,
        if_pos rfl, rest, plain (wholeAbove l (by simp))]
      simp

/-! ## Carriage returns at the end of a line -/

/-- A line without the carriage returns at its end. -/
def chomp (t : Text) : Text := t.trimEndWhere (· == cr)

theorem chomp_eq_rdropWhile (t : Text) : chomp t = t.rdropWhile (· == cr) := rfl

theorem chomp_append_cr (t : Text) : chomp (t ++ [cr]) = chomp t := by
  simp [chomp_eq_rdropWhile]

theorem chomp_dropCr (t : Text) : chomp (dropCr t) = chomp t := by
  unfold dropCr
  split
  · rename_i endsInCr
    obtain ⟨init, rfl⟩ : ∃ init, t = init ++ [cr] := by
      exact ⟨t.dropLast, (List.dropLast_append_getLast? cr endsInCr).symm⟩
    rw [List.dropLast_concat, chomp_append_cr]
  · rfl

theorem exists_chomp (t : Text) : ∃ n, t = chomp t ++ List.replicate n cr := by
  induction t using List.reverseRecOn with
  | nil => exact ⟨0, by simp [chomp_eq_rdropWhile]⟩
  | append_singleton t b ih =>
      by_cases isCr : b = cr
      · obtain ⟨n, cut⟩ := ih
        refine ⟨n + 1, ?_⟩
        rw [isCr, chomp_append_cr, List.replicate_succ', ← List.append_assoc, ← cut]
      · refine ⟨0, ?_⟩
        rw [chomp_eq_rdropWhile, List.rdropWhile_concat_neg _ _ _ (by simpa using isCr)]
        simp

theorem chomp_append_replicate (t : Text) (n : Nat) :
    chomp (t ++ List.replicate n cr) = chomp t := by
  induction n with
  | zero => simp
  | succ n ih => rw [List.replicate_succ', ← List.append_assoc, chomp_append_cr, ih]

theorem chomp_idem (t : Text) : chomp (chomp t) = chomp t := by
  obtain ⟨n, cut⟩ := exists_chomp t
  conv_rhs => rw [cut, chomp_append_replicate]

/-- What does not depend on one carriage return at the end of a line does not
depend on any. -/
theorem eq_of_chomp_eq {α : Type} {f : Text → α} (step : ∀ t, f (t ++ [cr]) = f t)
    {s t : Text} (same : chomp s = chomp t) : f s = f t := by
  have padded (t : Text) (n : Nat) : f (t ++ List.replicate n cr) = f t := by
    induction n with
    | zero => simp
    | succ n ih => rw [List.replicate_succ', ← List.append_assoc, step, ih]
  obtain ⟨n, cut⟩ := exists_chomp s
  obtain ⟨m, cut'⟩ := exists_chomp t
  rw [cut, cut', padded, padded, same]

end ModuleDeps.Text
