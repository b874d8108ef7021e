import ModuleDeps.Proofs.Block.Tidy

/-!
# Entries out of comments

A comment behind code takes no part in the entries of its line.  A line that
holds nothing but a comment is cut at its commas all the same, and the pieces
behind the first comma pass for entries, though they stand in the comment.
These phantoms are all that a text has more than the code of its lines
(`lineEntries_eq_append_phantoms`).
-/

set_option autoImplicit false

namespace ModuleDeps

open Text

def withoutComments (t : Text) : Text := joinWith [lf] ((splitAt lf t).map stripComment)

/-- The pieces of a comment that are read as entries. -/
def phantoms (line : Text) : List Text :=
  if isComment line then (splitAt comma line).tail.filter isEntry else []

theorem splitAt_withoutComments (t : Text) :
    splitAt lf (withoutComments t) = (splitAt lf t).map stripComment := by
  have whole : ∀ l ∈ (splitAt lf t).map stripComment, lf ∉ l := by
    intro l member
    obtain ⟨line, lineMember, rfl⟩ := List.mem_map.mp member
    exact fun inCode =>
      notMem_of_mem_splitAt lineMember ((stripComment_isPrefix line).subset inCode)
  have some : (splitAt lf t).map stripComment ≠ [] := by simpa using splitAt_ne_nil lf t
  rw [withoutComments, joinWith, splitAt_eq_splitOn, List.splitOn_intercalate lf whole some]

theorem splitAt_notMem_append {sep : UInt8} {opening : Text} (apart : sep ∉ opening) (t : Text) :
    splitAt sep (opening ++ t) = (splitAt sep t).modifyHead (opening ++ ·) := by
  obtain ⟨first, more, cut⟩ := List.exists_cons_of_ne_nil (splitAt_ne_nil sep t)
  induction opening with
  | nil => simp [cut]
  | cons b opening ih =>
      have notSep : b ≠ sep := by
        rintro rfl
        exact apart (by simp)
      rw [List.cons_append, splitAt, if_neg notSep, ih fun member => apart (by simp [member]), cut]
      rfl

theorem filter_pieces_of_isComment {line : Text} (comment : isComment line = true) :
    (splitAt comma line).filter isEntry = (splitAt comma line).tail.filter isEntry := by
  obtain ⟨s, u, lead, rfl⟩ := isComment_iff.mp comment
  obtain ⟨first, more, cut⟩ := List.exists_cons_of_ne_nil (splitAt_ne_nil comma u)
  have apart : comma ∉ s ++ lineComment := by
    rw [List.mem_append, not_or]
    exact ⟨lead.notMem_of_visible (by decide), by decide⟩
  have opened : splitAt comma (s ++ (lineComment ++ u)) =
      (s ++ (lineComment ++ first)) :: more := by
    rw [← List.append_assoc, splitAt_notMem_append apart, cut, List.modifyHead_cons,
      List.append_assoc]
  have noEntry : isEntry (s ++ (lineComment ++ first)) = false :=
    isEntry_eq_false_iff.mpr (Or.inr (isComment_iff.mpr ⟨s, first, lead, rfl⟩))
  rw [opened, List.filter_cons_of_neg (by simp [noEntry]), List.tail_cons]

/-- A line has the entries of its code, and its phantoms. -/
theorem lineEntries_eq_append_phantoms (line : Text) :
    lineEntries [comma] line = lineEntries [comma] (stripComment line) ++ phantoms line := by
  cases comment : isComment line with
  | true =>
      have blank := blanks_of_isComment comment
      rw [lineEntries_of_blanks blank, lineEntries_comma, phantoms, if_pos comment, if_pos comment,
        filter_pieces_of_isComment comment, List.nil_append]
  | false =>
      rw [lineEntries_strip comment, phantoms, comment, if_neg (by simp), List.append_nil]

theorem flatMap_append_eq_iff {α β : Type} {own added : α → List β} {items : List α} :
    items.flatMap (fun x => own x ++ added x) = items.flatMap own ↔
      ∀ x ∈ items, added x = [] := by
  constructor
  · intro same
    have counted : (items.flatMap fun x => own x ++ added x).length =
        (items.flatMap own).length + (items.flatMap added).length := by
      clear same
      induction items with
      | nil => rfl
      | cons x items ih =>
          simp only [List.flatMap_cons, List.length_append, ih]
          omega
    rw [same] at counted
    have nothing : items.flatMap added = [] := List.eq_nil_of_length_eq_zero (by omega)
    exact List.flatMap_eq_nil_iff.mp nothing
  · intro nothing
    exact List.flatMap_congr fun x member => by rw [nothing x member, List.append_nil]

/-- A text has the entries of its code, unless a comment that has a line for
itself holds a piece behind a comma that is neither blank nor a comment again. -/
theorem splitEntries_withoutComments_iff (t : Text) :
    (splitEntries t [comma]).map trim = (splitEntries (withoutComments t) [comma]).map trim ↔
      ∀ line ∈ splitAt lf t, isComment line = true →
        ∀ piece ∈ (splitAt comma line).tail, isBlank piece = true ∨
        isComment piece = true := by
  have code : splitEntries (withoutComments t) [comma] =
      (splitAt lf t).flatMap fun line => lineEntries [comma] (stripComment line) := by
    rw [splitEntries, splitAt_withoutComments, List.flatMap_map]
  have whole : splitEntries t [comma] =
      (splitAt lf t).flatMap fun line =>
        lineEntries [comma] (stripComment line) ++ phantoms line := by
    rw [splitEntries]
    exact List.flatMap_congr fun line _ => lineEntries_eq_append_phantoms line
  have unphantomed (line : Text) : (phantoms line).map trim = [] ↔
      (isComment line = true → ∀ piece ∈ (splitAt comma line).tail, isBlank piece = true ∨
        isComment piece = true) := by
    rw [List.map_eq_nil_iff, phantoms]
    split
    · rename_i comment
      simp [comment, List.filter_eq_nil_iff, isEntry_eq_false_iff, isBlank_iff]
    · rename_i noComment
      simp [noComment]
  rw [code, whole, List.map_flatMap, List.map_flatMap]
  simp only [List.map_append]
  rw [flatMap_append_eq_iff]
  exact forall₂_congr fun line _ => unphantomed line

/-- Behind a comma in a comment stands an entry. -/
theorem splitEntries_comment_comma :
    splitEntries (utf8 "// a, b") [comma] = [utf8 " b"] ∧
      splitEntries (withoutComments (utf8 "// a, b")) [comma] = [] := by
  decide +kernel

end ModuleDeps
