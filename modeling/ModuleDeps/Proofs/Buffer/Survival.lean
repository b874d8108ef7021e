import ModuleDeps.Proofs.Buffer.Simultaneous

/-!
# Texts that survive opening

Opening a text drops one carriage return from the end of every line, and putting
the lines together again gives all of them the same line end.  A text comes back
as it was if its line ends were alike and no carriage return stands at its end,
and no other text does (`text_ofText_iff_uniformEnds`).
-/

set_option autoImplicit false

namespace ModuleDeps

open Text

namespace Text

/-- The part of a text in front of one of its line feeds. -/
def LeadsLine (front t : Text) : Prop := front ++ [lf] <+: t

/-- No carriage return ends the text, and none stands in front of a line feed or
one in front of each. -/
def UniformEnds (t : Text) : Prop :=
  t.getLast? ≠ some cr ∧
    ((∀ front, LeadsLine front t → front.getLast? ≠ some cr) ∨
      ∀ front, LeadsLine front t → front.getLast? = some cr)

theorem getLast?_stacked_append_iff (above : List Text) {l : Text} :
    (stacked above ++ l).getLast? = some cr ↔ l.getLast? = some cr := by
  have closed : (stacked above).getLast? ≠ some cr := by
    have distinct : lf ≠ cr := by decide
    induction above using List.reverseRecOn with
    | nil => simp
    | append_singleton above x _ => simp [distinct]
  rw [List.getLast?_append]
  cases l.getLast? <;> simp [closed]

section Stacked

variable {lines : List Text} {v : Text} (whole : ∀ l ∈ lines, lf ∉ l) (apart : lf ∉ v)
include whole apart

theorem leadsLine_stacked_iff {front : Text} :
    LeadsLine front (stacked lines ++ v) ↔
      ∃ above l below, lines = above ++ l :: below ∧ front = stacked above ++ l := by
  constructor
  · rintro ⟨rest, cut⟩
    obtain ⟨above, l, aboveWhole, lApart, rfl⟩ := exists_stacked front
    have rows := congrArg (splitAt lf) cut
    rw [splitAt_stacked whole, splitAt_of_notMem apart, List.append_assoc, List.append_assoc,
      splitAt_stacked aboveWhole, List.singleton_append, splitAt_append_sep,
        splitAt_of_notMem lApart,
      List.singleton_append] at rows
    obtain ⟨below, last, restCut⟩ : ∃ below last, splitAt lf rest = below ++ [last] :=
      ⟨_, _, (List.dropLast_concat_getLast (splitAt_ne_nil lf rest)).symm⟩
    rw [restCut, ← List.cons_append, ← List.append_assoc] at rows
    exact ⟨above, l, below, (List.append_inj' rows rfl).1.symm, rfl⟩
  · rintro ⟨above, l, below, rfl, rfl⟩
    exact ⟨stacked below ++ v, by simp⟩

/-- Whether a line feed follows a carriage return is told by the line in front of it. -/
theorem forall_leadsLine_iff {p : Prop → Prop} :
    (∀ front, LeadsLine front (stacked lines ++ v) → p (front.getLast? = some cr)) ↔
      ∀ l ∈ lines, p (l.getLast? = some cr) := by
  constructor
  · intro fronts l member
    obtain ⟨above, below, rfl⟩ := List.append_of_mem member
    rw [← getLast?_stacked_append_iff above]
    exact fronts _ ((leadsLine_stacked_iff whole apart).mpr ⟨above, l, below, rfl, rfl⟩)
  · intro ends front leads
    obtain ⟨above, l, below, rfl, rfl⟩ := (leadsLine_stacked_iff whole apart).mp leads
    rw [getLast?_stacked_append_iff]
    exact ends l (by simp)

end Stacked

theorem dropCr_append_cr_iff {l : Text} : dropCr l ++ [cr] = l ↔ l.getLast? = some cr := by
  constructor
  · intro same
    rw [← same]
    simp
  · intro ends
    rw [dropCr, if_pos ends, List.dropLast_append_getLast? cr ends]

theorem exists_leadsLine_iff {t : Text} :
    (∃ front, LeadsLine front t ∧ front.getLast? = some cr) ↔ t.contains [cr, lf] = true := by
  rw [contains_iff_isInfix (by simp)]
  constructor
  · rintro ⟨front, ⟨rest, cut⟩, ends⟩
    refine ⟨front.dropLast, rest, ?_⟩
    rw [← cut]
    conv_rhs => rw [← List.dropLast_append_getLast? cr ends]
    simp
  · rintro ⟨s, rest, cut⟩
    exact ⟨s ++ [cr], ⟨rest, by simpa using cut⟩, by simp⟩

end Text

namespace Buffer

section Stacked

variable {lines : List Text} {v : Text} (whole : ∀ l ∈ lines, lf ∉ l) (apart : lf ∉ v)
include whole apart

theorem text_ofText_of_plain (plain : ∀ l ∈ lines, l.getLast? ≠ some cr) :
    (ofText (stacked lines ++ v)).text = stacked lines ++ dropCr v := by
  have ending : (ofText (stacked lines ++ v)).ending = .lf := by
    rw [ofText, if_neg]
    rw [← exists_leadsLine_iff, not_exists]
    exact fun front both =>
      (forall_leadsLine_iff whole apart (p := Not)).mpr plain front both.1 both.2
  have kept : lines.map dropCr = lines := by
    conv_rhs => rw [← List.map_id lines]
    exact List.map_congr_left fun l member => dropCr_of_getLast? (plain l member)
  have cut : (ofText (stacked lines ++ v)).lines = lines ++ [dropCr v] := by
    conv_rhs => rw [← kept]
    exact cutLines_stacked whole apart
  rw [text, ending, cut, stacked_concat_eq]
  rfl

/-- Line ends of two bytes, one of which is in the text. -/
theorem text_ofText_of_paired {l : Text} (member : l ∈ lines) (ends : l.getLast? = some cr) :
    (ofText (stacked lines ++ v)).text = stacked (lines.map fun l => dropCr l ++ [cr]) ++
      dropCr v := by
  have ending : (ofText (stacked lines ++ v)).ending = .crlf := by
    obtain ⟨above, below, rfl⟩ := List.append_of_mem member
    rw [ofText, if_pos]
    rw [← exists_leadsLine_iff]
    exact ⟨stacked above ++ l,
      (leadsLine_stacked_iff whole apart).mpr ⟨above, l, below, rfl, rfl⟩,
      (getLast?_stacked_append_iff above).mpr ends⟩
  have droppedWhole : ∀ x ∈ lines.map dropCr, lf ∉ x := by
    intro x inDropped
    obtain ⟨y, inLines, rfl⟩ := List.mem_map.mp inDropped
    exact fun inside => whole y inLines (dropCr_subset y inside)
  have lastApart : lf ∉ dropCr v := fun inside => apart (dropCr_subset v inside)
  have joined := withEnding_stacked (ofText (stacked lines ++ v)) droppedWhole lastApart
  rw [withEnding, ending] at joined
  have cut : (ofText (stacked lines ++ v)).lines = lines.map dropCr ++ [dropCr v] :=
    cutLines_stacked whole apart
  rw [text, ending, cut, ← joined, replaceByte_stacked droppedWhole lastApart, List.map_map]
  rfl

end Stacked

theorem getLast?_of_ofText {t : Text} (ending : (ofText t).ending = .lf) {above below : List Text}
    {l : Text} (cut : (ofText t).lines = above ++ l :: below) (more : below ≠ []) :
    l.getLast? ≠ some cr := by
  obtain ⟨lines, v, whole, apart, rfl⟩ := exists_stacked t
  have plain : ∀ x ∈ lines, x.getLast? ≠ some cr := by
    rw [← forall_leadsLine_iff whole apart (p := Not)]
    intro front leads ends
    have paired := exists_leadsLine_iff.mp ⟨front, leads, ends⟩
    rw [ofText, if_pos paired] at ending
    cases ending
  have rows : lines.map dropCr ++ [dropCr v] = above ++ l :: below := by
    rw [← cut]
    exact (cutLines_stacked whole apart).symm
  obtain ⟨init, last, rfl⟩ := (List.eq_nil_or_concat' below).resolve_left more
  rw [← List.cons_append, ← List.append_assoc] at rows
  have member : l ∈ lines.map dropCr := by
    rw [(List.append_inj' rows rfl).1]
    simp
  obtain ⟨x, inLines, rfl⟩ := List.mem_map.mp member
  rw [dropCr_of_getLast? (plain x inLines)]
  exact plain x inLines

/-- A text is given back by its buffer if no carriage return ends it and its line
feeds either all follow a carriage return or none does, and only then. -/
theorem text_ofText_iff_uniformEnds (t : Text) : (ofText t).text = t ↔ UniformEnds t := by
  obtain ⟨lines, v, whole, apart, rfl⟩ := exists_stacked t
  have none := forall_leadsLine_iff whole apart (p := Not)
  have each := forall_leadsLine_iff whole apart (p := fun ends => ends)
  have last : dropCr v = v ↔ v.getLast? ≠ some cr := by
    refine ⟨fun kept ends => ?_, dropCr_of_getLast?⟩
    have shorter := congrArg List.length kept
    have nonempty : 0 < v.length := List.length_pos_iff.mpr (by rintro rfl; cases ends)
    rw [dropCr, if_pos ends, List.length_dropLast] at shorter
    omega
  rw [UniformEnds, none, each, Ne, getLast?_stacked_append_iff, ← Ne, ← last]
  have rows : (lines.map fun l => dropCr l ++ [cr]) = lines ↔
      ∀ l ∈ lines, l.getLast? = some cr := by
    conv_lhs => rw [← List.map_id lines]
    rw [List.map_map, List.map_inj_left]
    exact forall₂_congr fun l _ => dropCr_append_cr_iff
  by_cases plain : ∀ l ∈ lines, l.getLast? ≠ some cr
  · rw [text_ofText_of_plain whole apart plain, List.append_cancel_left_eq]
    exact ⟨fun kept => ⟨kept, Or.inl plain⟩, fun uniform => uniform.1⟩
  · obtain ⟨l, member, ends⟩ : ∃ l ∈ lines, l.getLast? = some cr := by simpa using plain
    have mappedWhole : ∀ x ∈ lines.map fun l => dropCr l ++ [cr], lf ∉ x := by
      have distinct : lf ≠ cr := by decide
      intro x inMapped
      obtain ⟨y, inLines, rfl⟩ := List.mem_map.mp inMapped
      simpa [distinct] using fun inside => whole y inLines (dropCr_subset y inside)
    have lastApart : lf ∉ dropCr v := fun inside => apart (dropCr_subset v inside)
    rw [text_ofText_of_paired whole apart member ends]
    constructor
    · intro same
      obtain ⟨led, kept⟩ := stacked_append_inj mappedWhole whole lastApart apart same
      exact ⟨kept, Or.inr (rows.mp led)⟩
    · rintro ⟨kept, unled | led⟩
      · exact absurd ends (unled l member)
      · rw [rows.mpr led, kept]

end Buffer

end ModuleDeps
