import ModuleDeps.Proofs.Text.Lines
import ModuleDeps.Proofs.Text.Occurrence

/-!
# Texts that differ in line ends

Cutting an edited text into lines may take a carriage return from the end of a
line.  `Alike` relates texts whose lines are the same but for that.  In front of
a byte that is no line end the current line is not touched, so the beginnings
up to there agree in their last line as well: `AlikeFront`.  Cutting one text at
such a byte therefore cuts every text like it.
-/

set_option autoImplicit false

namespace ModuleDeps.Text

/-! ## Chomping -/

theorem chomp_append_of_ne {c : UInt8} (notCr : c ≠ cr) (s t : Text) :
    chomp (s ++ c :: t) = s ++ c :: chomp t := by
  induction t using List.reverseRecOn with
  | nil =>
      rw [chomp_eq_rdropWhile, List.rdropWhile_concat_neg _ _ _ (by simpa using notCr)]
      rfl
  | append_singleton t b ih =>
      by_cases isCr : b = cr
      · rw [isCr, ← List.cons_append, ← List.append_assoc, chomp_append_cr,
          chomp_append_cr, ih]
      · have stays (u : Text) : chomp (u ++ [b]) = u ++ [b] := by
          rw [chomp_eq_rdropWhile, List.rdropWhile_concat_neg _ _ _ (by simpa using isCr)]
        rw [← List.cons_append, ← List.append_assoc, stays, stays]
        simp

theorem chomp_append_congr {y y' : Text} (same : chomp y = chomp y') (v : Text) :
    chomp (v ++ y) = chomp (v ++ y') := by
  refine eq_of_chomp_eq (f := fun y => chomp (v ++ y)) ?_ same
  intro t
  rw [← List.append_assoc, chomp_append_cr]

/-! ## Alike texts -/

/-- The same lines, up to carriage returns at their ends. -/
def Alike (s t : Text) : Prop := (splitAt lf s).map chomp = (splitAt lf t).map chomp

/-- Alike whole lines, followed by the same beginning of a line. -/
def AlikeFront (s t : Text) : Prop :=
  ∃ above above' v, (∀ l ∈ above, lf ∉ l) ∧ (∀ l ∈ above', lf ∉ l) ∧ lf ∉ v ∧
    above.map chomp = above'.map chomp ∧ s = stacked above ++ v ∧ t = stacked above' ++ v

theorem AlikeFront.refl (t : Text) : AlikeFront t t := by
  obtain ⟨above, v, whole, vApart, rfl⟩ := exists_stacked t
  exact ⟨above, above, v, whole, whole, vApart, rfl, rfl, rfl⟩

theorem AlikeFront.symm {s t : Text} (same : AlikeFront s t) : AlikeFront t s := by
  obtain ⟨above, above', v, whole, whole', vApart, likeAbove, rfl, rfl⟩ := same
  exact ⟨above', above, v, whole', whole, vApart, likeAbove.symm, rfl, rfl⟩

theorem AlikeFront.alike {s t : Text} (same : AlikeFront s t) : Alike s t := by
  obtain ⟨above, above', v, whole, whole', vApart, likeAbove, rfl, rfl⟩ := same
  rw [Alike, splitAt_stacked whole, splitAt_stacked whole', List.map_append,
    List.map_append, likeAbove]

theorem AlikeFront.append_within {s t : Text} (same : AlikeFront s t) {u : Text}
    (apart : lf ∉ u) :
    AlikeFront (s ++ u) (t ++ u) := by
  obtain ⟨above, above', v, whole, whole', vApart, likeAbove, rfl, rfl⟩ := same
  exact ⟨above, above', v ++ u, whole, whole', by simp [vApart, apart],
    likeAbove, by simp, by simp⟩

/-! ## Cutting alike texts -/

/-- A byte that is no line end cuts alike texts into alike parts. -/
theorem Alike.cut {A B F : Text} {c : UInt8} (same : Alike (A ++ c :: B) F) (notCr : c ≠ cr)
    (notLf : c ≠ lf) : ∃ A' B', F = A' ++ c :: B' ∧ AlikeFront A A' ∧ Alike B B' := by
  obtain ⟨above, v, whole, vApart, rfl⟩ := exists_stacked A
  obtain ⟨y, below, yApart, wholeBelow, rfl⟩ := exists_hung B
  have lineApart : lf ∉ c :: y := by simp [yApart, Ne.symm notLf]
  have cutLines : splitAt lf (stacked above ++ v ++ c :: (y ++ hung below)) =
      above ++ (v ++ c :: y) :: below := by
    rw [← List.cons_append]
    exact splitAt_around whole vApart lineApart wholeBelow
  rw [Alike, cutLines, List.map_append, List.map_cons, chomp_append_of_ne notCr] at same
  obtain ⟨above', rest, linesCut, likeAbove, restSame⟩ := List.map_eq_append_iff.mp same.symm
  obtain ⟨line, below', rfl, lineSame, likeBelow⟩ := List.map_eq_cons_iff.mp restSame
  obtain ⟨n, lineCut⟩ := exists_chomp line
  rw [lineSame] at lineCut
  have notMem : ∀ l ∈ above' ++ line :: below', lf ∉ l := by
    intro l member
    rw [← linesCut] at member
    exact notMem_of_mem_splitAt member
  have whole' : ∀ l ∈ above', lf ∉ l := fun l member => notMem l (by simp [member])
  have wholeBelow' : ∀ l ∈ below', lf ∉ l := fun l member => notMem l (by simp [member])
  have tailApart : lf ∉ chomp y ++ List.replicate n cr := by
    have := notMem line (by simp)
    rw [lineCut] at this
    simp only [List.mem_append, List.mem_cons, not_or] at this ⊢
    exact ⟨this.1.2.2, this.2⟩
  refine ⟨stacked above' ++ v, chomp y ++ List.replicate n cr ++ hung below', ?_, ?_, ?_⟩
  · have tailLine : lf ∉ c :: (chomp y ++ List.replicate n cr) := by
      simp [tailApart, Ne.symm notLf]
    apply @splitAt_injective lf
    rw [← List.cons_append, splitAt_around whole' vApart tailLine wholeBelow', linesCut]
    conv_lhs => rw [lineCut]
    simp
  · exact ⟨above, above', v, whole, whole', vApart, likeAbove.symm, rfl, rfl⟩
  · rw [Alike, splitAt_hung yApart wholeBelow, splitAt_hung tailApart wholeBelow', List.map_cons,
      List.map_cons, chomp_append_replicate, chomp_idem, likeBelow]

theorem AlikeFront.of_append {A N T : Text} (same : AlikeFront (A ++ N) T) (apart : lf ∉ N) :
    ∃ A', T = A' ++ N ∧ AlikeFront A A' := by
  obtain ⟨above, above', w, whole, whole', wApart, likeAbove, cut, rfl⟩ := same
  obtain ⟨lines, v, wholeLines, vApart, rfl⟩ := exists_stacked A
  have lineApart : lf ∉ v ++ N := by simp [vApart, apart]
  rw [List.append_assoc] at cut
  obtain ⟨rfl, rfl⟩ := stacked_append_inj wholeLines whole lineApart wApart cut
  exact ⟨stacked above' ++ v, by simp, lines, above', v, whole, whole', vApart, likeAbove,
    rfl, rfl⟩

theorem Alike.cut_behind {A B F : Text} {c : UInt8} (same : Alike (A ++ B) F)
    (last : A.getLast? = some c) (notCr : c ≠ cr) (notLf : c ≠ lf) :
    ∃ A' B', F = A' ++ B' ∧ AlikeFront A A' ∧ Alike B B' := by
  obtain ⟨init, rfl⟩ := List.getLast?_eq_some_iff.mp last
  rw [List.append_assoc, List.singleton_append] at same
  obtain ⟨T, B', rfl, sameFront, sameRest⟩ := same.cut notCr notLf
  exact ⟨T ++ [c], B', by simp, sameFront.append_within (by simp [Ne.symm notLf]), sameRest⟩

theorem Alike.cut_word {A B F word : Text} (same : Alike (A ++ (word ++ B)) F)
    (nonempty : word ≠ []) (lfApart : lf ∉ word) (crApart : cr ∉ word) :
    ∃ A' B', F = A' ++ (word ++ B') ∧ AlikeFront A A' ∧ Alike B B' := by
  have ends : (A ++ word).getLast? = some (word.getLast nonempty) := by
    rw [List.getLast?_append, List.getLast?_eq_some_getLast nonempty]
    rfl
  have member := List.getLast_mem nonempty
  rw [← List.append_assoc] at same
  obtain ⟨T, B', rfl, sameFront, sameRest⟩ := same.cut_behind ends
    (fun isCr => crApart (isCr ▸ member)) fun isLf => lfApart (isLf ▸ member)
  obtain ⟨A', rfl, sameA⟩ := sameFront.of_append lfApart
  exact ⟨A', B', by simp, sameA, sameRest⟩

theorem AlikeFront.append {s s' t t' : Text} (first : AlikeFront s s') (second : AlikeFront t t') :
    AlikeFront (s ++ t) (s' ++ t') := by
  obtain ⟨above, above', v, whole, whole', vApart, likeAbove, rfl, rfl⟩ := first
  obtain ⟨below, below', w, wholeBelow, wholeBelow', wApart, likeBelow, rfl, rfl⟩ := second
  cases below with
  | nil =>
      obtain rfl : below' = [] := by simpa using likeBelow.symm
      refine ⟨above, above', v ++ w, whole, whole', by simp [vApart, wApart], likeAbove, ?_, ?_⟩
      · simp
      · simp
  | cons l below =>
      obtain ⟨l', below', rfl, lineSame, restSame⟩ := List.map_eq_cons_iff.mp likeBelow.symm
      refine ⟨above ++ (v ++ l) :: below, above' ++ (v ++ l') :: below', w, ?_, ?_, wApart,
        ?_, ?_, ?_⟩
      · intro x member
        rcases List.mem_append.mp member with member | member
        · exact whole x member
        · rcases List.mem_cons.mp member with rfl | member
          · simp [vApart, wholeBelow l (by simp)]
          · exact wholeBelow x (by simp [member])
      · intro x member
        rcases List.mem_append.mp member with member | member
        · exact whole' x member
        · rcases List.mem_cons.mp member with rfl | member
          · simp [vApart, wholeBelow' l' (by simp)]
          · exact wholeBelow' x (by simp [member])
      · rw [List.map_append, List.map_append, List.map_cons, List.map_cons, likeAbove, restSame,
          chomp_append_congr lineSame]
      · simp
      · simp

/-! ## What alike texts share -/

theorem indexOf?_chomp {needle : Text} (nonempty : needle ≠ []) (apart : cr ∉ needle)
    (line : Text) :
    indexOf? needle (chomp line) = indexOf? needle line := by
  refine eq_of_chomp_eq (f := indexOf? needle) ?_ (chomp_idem line)
  intro t
  rw [indexOf?_append_sep nonempty apart]
  simp [indexOf?, nonempty]

/-- What a line can hold is searched for line by line. -/
theorem infix_iff_exists_line {needle : Text} (nonempty : needle ≠ []) (apart : lf ∉ needle)
    {t : Text} :
    needle <:+: t ↔ ∃ l ∈ splitAt lf t, needle <:+: l := by
  obtain ⟨above, v, whole, vApart, rfl⟩ := exists_stacked t
  rw [splitAt_stacked whole, splitAt_of_notMem vApart]
  clear whole vApart
  induction above with
  | nil => simp
  | cons l above ih =>
      rw [stacked_cons, List.append_assoc, List.cons_append,
        infix_append_sep_iff nonempty apart, ih]
      simp

/-- Carriage returns at line ends hide nothing and show nothing. -/
theorem Alike.infix_iff {s t needle : Text} (same : Alike s t) (nonempty : needle ≠ [])
    (lfApart : lf ∉ needle) (crApart : cr ∉ needle) : needle <:+: s ↔ needle <:+: t := by
  have inChomped (u : Text) : needle <:+: u ↔ ∃ l ∈ (splitAt lf u).map chomp,
      needle <:+: l := by
    have lineSame (l : Text) : needle <:+: chomp l ↔ needle <:+: l := by
      rw [← not_iff_not, ← indexOf?_eq_none_iff nonempty, ← indexOf?_eq_none_iff nonempty,
        indexOf?_chomp nonempty crApart]
    rw [infix_iff_exists_line nonempty lfApart]
    simp only [List.mem_map, exists_exists_and_eq_and, lineSame]
  rw [inChomped, inChomped, same]

theorem leads_stacked_iff {needle : Text} (nonempty : needle ≠ []) (apart : lf ∉ needle)
    (above : List Text) (v : Text) :
    Leads needle (stacked above ++ v) ↔ (∀ l ∈ above, indexOf? needle l = none) ∧
      Leads needle v := by
  induction above with
  | nil => simp
  | cons l above ih =>
      rw [stacked_cons, List.append_assoc, List.cons_append, leads_append_sep_iff nonempty apart,
        ih, List.forall_mem_cons, and_assoc]

theorem AlikeFront.leads {s t needle : Text} (same : AlikeFront s t) (nonempty : needle ≠ [])
    (lfApart : lf ∉ needle) (crApart : cr ∉ needle) (leads : Leads needle s) :
    Leads needle t := by
  obtain ⟨above, above', v, -, -, -, likeAbove, rfl, rfl⟩ := same
  rw [leads_stacked_iff nonempty lfApart] at leads ⊢
  refine ⟨?_, leads.2⟩
  have inChomped (lines : List Text) : (∀ l ∈ lines, indexOf? needle l = none) ↔
      ∀ l ∈ lines.map chomp, indexOf? needle l = none := by
    simp only [List.forall_mem_map, indexOf?_chomp nonempty crApart]
  rw [inChomped, ← likeAbove, ← inChomped]
  exact leads.1

theorem AlikeFront.notMem {s t : Text} (same : AlikeFront s t) {c : UInt8} (notCr : c ≠ cr)
    (notLf : c ≠ lf) (apart : c ∉ s) : c ∉ t := by
  rw [← leads_singleton_iff] at apart ⊢
  exact same.leads (by simp) (by simp [Ne.symm notLf]) (by simp [Ne.symm notCr]) apart

end ModuleDeps.Text
