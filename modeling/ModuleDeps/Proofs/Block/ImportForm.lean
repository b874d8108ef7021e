import ModuleDeps.Proofs.Block.ImportReread

/-!
# The form of an import statement

An import statement is made of pieces that each end where they can go no further:
a gap in front of a byte that is in no gap, a name in front of a gap, a path in
front of a quote.  So a line can be taken apart in at most one way, and reading it
from the left finds that way (`ofText?_eq_some_iff_form`).
-/

set_option autoImplicit false

namespace ModuleDeps

open Text

/-! ## Longest beginnings -/

structure Longest (p : UInt8 → Bool) (s u : Text) : Prop where
  all : ∀ b ∈ s, p b = true
  stop : ∀ b, u.head? = some b → p b = false

section Longest

variable {p : UInt8 → Bool} {s u s' u' : Text}

theorem exists_longest (p : UInt8 → Bool) (t : Text) : ∃ s u, t = s ++ u ∧ Longest p s u := by
  refine ⟨t.takeWhile p, t.dropWhile p, List.takeWhile_append_dropWhile.symm,
    fun b member => List.mem_takeWhile_imp member, fun b first => ?_⟩
  have stop := List.head?_dropWhile_not p t
  rwa [first] at stop

theorem Longest.takeWhile (longest : Longest p s u) : (s ++ u).takeWhile p = s := by
  rw [List.takeWhile_append_of_pos longest.all]
  cases u with
  | nil => exact List.append_nil s
  | cons b u => rw [List.takeWhile_cons_of_neg (by simp [longest.stop b rfl]), List.append_nil]

theorem Longest.dropWhile (longest : Longest p s u) : (s ++ u).dropWhile p = u := by
  rw [List.dropWhile_append_of_pos longest.all]
  cases u with
  | nil => rfl
  | cons b u => rw [List.dropWhile_cons_of_neg (by simp [longest.stop b rfl])]

theorem Longest.unique (longest : Longest p s u) (longest' : Longest p s' u')
    (same : s ++ u = s' ++ u') :
    s = s' ∧ u = u' := by
  have front := congrArg (List.takeWhile p) same
  have back := congrArg (List.dropWhile p) same
  rw [longest.takeWhile, longest'.takeWhile] at front
  rw [longest.dropWhile, longest'.dropWhile] at back
  exact ⟨front, back⟩

end Longest

/-! ## The pieces -/

namespace ImportLine

variable {t u name path : Text} {q : UInt8}

theorem afterWord?_eq_some_iff {word : Text} : afterWord? word t = some u ↔ t = word ++ u := by
  constructor
  · intro read
    rw [afterWord?] at read
    split at read
    · rename_i starts
      obtain ⟨rest, rfl⟩ := List.isPrefixOf_iff_prefix.mp starts
      rw [List.drop_left] at read
      rw [Option.some.inj read]
    · cases read
  · rintro rfl
    exact afterWord?_append word u

theorem afterGap?_eq_some_iff :
    afterGap? t = some u ↔ ∃ gap, gap ≠ [] ∧ t = gap ++ u ∧ Longest isGap gap u := by
  constructor
  · intro read
    cases t with
    | nil => cases read
    | cons b t =>
        rw [afterGap?] at read
        split at read
        · rename_i isGap'
          obtain ⟨gap, rest, rfl, longest⟩ := exists_longest isGap t
          rw [longest.dropWhile] at read
          obtain rfl := Option.some.inj read
          exact ⟨b :: gap, by simp, rfl, by simpa [isGap'] using longest.all, longest.stop⟩
        · cases read
  · rintro ⟨gap, nonempty, rfl, longest⟩
    obtain ⟨b, gap, rfl⟩ := List.exists_cons_of_ne_nil nonempty
    obtain ⟨isFirst, others⟩ := List.forall_mem_cons.mp longest.all
    rw [List.cons_append, afterGap?, if_pos isFirst, Longest.dropWhile ⟨others, longest.stop⟩]

theorem takeName?_eq_some_iff : takeName? t = some (name, u) ↔
    t = name ++ u ∧ isIdentifier name = true ∧ ∀ b, u.head? = some b →
    isNameByte b = false := by
  constructor
  · intro read
    have identifier := takeName?_spec read
    cases t with
    | nil => cases read
    | cons b t =>
        rw [takeName?] at read
        split at read
        · obtain ⟨more, rest, rfl, longest⟩ := exists_longest isNameByte t
          rw [longest.takeWhile, longest.dropWhile] at read
          obtain ⟨rfl, rfl⟩ := Prod.mk.inj (Option.some.inj read)
          exact ⟨rfl, identifier, longest.stop⟩
        · cases read
  · rintro ⟨rfl, identifier, stop⟩
    cases name with
    | nil => cases identifier
    | cons b more =>
        rw [isIdentifier, Bool.and_eq_true, List.all_eq_true] at identifier
        have longest : Longest isNameByte more u := ⟨identifier.2, stop⟩
        rw [List.cons_append, takeName?, if_pos identifier.1, longest.takeWhile, longest.dropWhile]

theorem takePath?_eq_some_iff : takePath? t = some (q, path, u) ↔
    ∃ closing, t = q :: (path ++ closing :: u) ∧ isPathQuote q = true ∧
    isPathQuote closing = true ∧ path ≠ [] ∧
      ∀ b ∈ path, isPathQuote b = false := by
  constructor
  · intro read
    cases t with
    | nil => cases read
    | cons opening t =>
        obtain ⟨body, rest, rfl, longest⟩ := exists_longest (fun b => !isPathQuote b) t
        rw [takePath?, longest.takeWhile, longest.dropWhile] at read
        split at read
        · rename_i isOpening
          cases body with
          | nil => cases read
          | cons first more =>
              cases rest with
              | nil => cases read
              | cons closing after =>
                  obtain ⟨rfl, rfl, rfl⟩ :
                      opening = q ∧ first :: more = path ∧ after = u := by
                    simpa using read
                  exact ⟨closing, rfl, isOpening, by simpa using longest.stop closing rfl,
                    by simp, by simpa using longest.all⟩
        · cases read
  · rintro ⟨closing, rfl, isOpening, isClosing, nonempty, quoteless⟩
    have longest : Longest (fun b => !isPathQuote b) path (closing :: u) :=
      ⟨fun b member => by simp [quoteless b member], by simpa using isClosing⟩
    rw [takePath?, if_pos isOpening, longest.takeWhile, longest.dropWhile]
    cases path with
    | nil => exact absurd rfl nonempty
    | cons first more => rfl

/-- Tab, line feed, form feed, carriage return and space. -/
def gapBytes : List UInt8 := [tab, lf, 0x0C, cr, space]

theorem isGap_iff {b : UInt8} : isGap b = true ↔ b ∈ gapBytes := by
  simp [isGap, gapBytes, or_assoc]

theorem isPathQuote_iff {b : UInt8} : isPathQuote b = true ↔ b = squote ∨ b = dquote := by
  simp [isPathQuote]

theorem isGap_of_isNameByte {b : UInt8} : isNameByte b = true → isGap b = false :=
  forall_byte (p := fun b => isNameByte b = true → isGap b = false) (by decide +kernel) b

theorem isNameByte_of_isGap {b : UInt8} (gap : isGap b = true) : isNameByte b = false := by
  rw [Bool.eq_false_iff]
  intro inName
  rw [isGap_of_isNameByte inName] at gap
  cases gap

theorem startsWith_semicolon (t : Text) :
    startsWith (t.dropWhile isGap) (utf8 ";") =
      decide (t.find? (fun b => b ∉ gapBytes) = some 0x3B) := by
  have mark : utf8 ";" = [0x3B] := by decide
  induction t with
  | nil => rfl
  | cons b t ih =>
      by_cases gap : isGap b = true
      · rw [List.dropWhile_cons_of_pos gap,
          List.find?_cons_of_neg (by simpa using isGap_iff.mp gap), ih]
      · rw [List.dropWhile_cons_of_neg gap,
          List.find?_cons_of_pos (by simpa using mt isGap_iff.mpr gap), mark]
        simp [startsWith, List.isPrefixOf, eq_comm, beq_eq_decide]

end ImportLine

/-! ## The form -/

/-- The pieces of an import statement, with what stands in front of it and behind
it. -/
structure ImportForm where
  indent : Text
  nameGap : Text
  name : Text
  fromGap : Text
  pathGap : Text
  opening : UInt8
  path : Text
  closing : UInt8
  rest : Text
deriving DecidableEq, Repr

namespace ImportForm

def fromPath (f : ImportForm) : Text := f.opening :: (f.path ++ f.closing :: f.rest)

def fromKeyword (f : ImportForm) : Text := utf8 "from" ++ (f.pathGap ++ f.fromPath)

def fromName (f : ImportForm) : Text := f.name ++ (f.fromGap ++ f.fromKeyword)

def text (f : ImportForm) : Text := f.indent ++ (utf8 "import" ++ (f.nameGap ++ f.fromName))

structure WellFormed (f : ImportForm) : Prop where
  indent : f.indent ⊆ ImportLine.gapBytes
  nameGap : f.nameGap ≠ [] ∧ f.nameGap ⊆ ImportLine.gapBytes
  name : isIdentifier f.name = true
  fromGap : f.fromGap ≠ [] ∧ f.fromGap ⊆ ImportLine.gapBytes
  pathGap : f.pathGap ≠ [] ∧ f.pathGap ⊆ ImportLine.gapBytes
  opening : f.opening = squote ∨ f.opening = dquote
  path : f.path ≠ [] ∧ squote ∉ f.path ∧ dquote ∉ f.path
  closing : f.closing = squote ∨ f.closing = dquote

/-- What a form says.  It has a semicolon when that is the first byte behind the
path that is in no gap. -/
def statement (f : ImportForm) : ImportLine :=
  ⟨f.name, f.path, f.opening, f.rest.find? (fun b => b ∉ ImportLine.gapBytes) = some 0x3B⟩

end ImportForm

namespace ImportForm.WellFormed

open ImportLine

variable {f g : ImportForm} (formed : f.WellFormed) (formed' : g.WellFormed)

/-! ## Where the pieces end -/

include formed

theorem longest_indent : Longest isGap f.indent (utf8 "import" ++ (f.nameGap ++ f.fromName)) := by
  refine ⟨fun b member => isGap_iff.mpr (formed.indent member), fun b first => ?_⟩
  obtain rfl : (0x69 : UInt8) = b := Option.some.inj first
  decide

theorem longest_nameGap : Longest isGap f.nameGap f.fromName := by
  refine ⟨fun b member => isGap_iff.mpr (formed.nameGap.2 member), fun b first => ?_⟩
  have inName : b ∈ f.name := by
    rw [ImportForm.fromName, List.head?_append_of_ne_nil _
      (nameBytes_of_isIdentifier formed.name).1] at first
    exact List.mem_of_head? first
  exact isGap_of_isNameByte ((nameBytes_of_isIdentifier formed.name).2 b inName)

theorem longest_name : Longest isNameByte f.name (f.fromGap ++ f.fromKeyword) := by
  refine ⟨(nameBytes_of_isIdentifier formed.name).2, fun b first => ?_⟩
  rw [List.head?_append_of_ne_nil _ formed.fromGap.1] at first
  exact isNameByte_of_isGap (isGap_iff.mpr (formed.fromGap.2 (List.mem_of_head? first)))

theorem longest_fromGap : Longest isGap f.fromGap f.fromKeyword := by
  refine ⟨fun b member => isGap_iff.mpr (formed.fromGap.2 member), fun b first => ?_⟩
  obtain rfl : (0x66 : UInt8) = b := Option.some.inj first
  decide

theorem longest_pathGap : Longest isGap f.pathGap f.fromPath := by
  refine ⟨fun b member => isGap_iff.mpr (formed.pathGap.2 member), fun b first => ?_⟩
  obtain rfl : f.opening = b := Option.some.inj first
  rcases formed.opening with quote | quote <;> rw [quote] <;> decide

theorem longest_path : Longest (fun b => !isPathQuote b) f.path (f.closing :: f.rest) := by
  refine ⟨fun b member => ?_, fun b first => ?_⟩
  · have noQuote : ¬ (b = squote ∨ b = dquote) := by
      rintro (rfl | rfl)
      · exact formed.path.2.1 member
      · exact formed.path.2.2 member
    simpa using mt isPathQuote_iff.mp noQuote
  · obtain rfl : f.closing = b := Option.some.inj first
    simpa using isPathQuote_iff.mpr formed.closing

/-! ## From a form to what is read -/

theorem readPath_fromPath : readPath f.name f.fromPath = some f.statement := by
  have taken : takePath? f.fromPath = some (f.opening, f.path, f.rest) :=
    takePath?_eq_some_iff.mpr ⟨f.closing, rfl, isPathQuote_iff.mpr formed.opening,
      isPathQuote_iff.mpr formed.closing, formed.path.1,
      fun b member => by simpa using formed.longest_path.all b member⟩
  rw [readPath, taken, Option.bind_some, startsWith_semicolon]
  rfl

theorem readKeyword_fromKeyword : readKeyword f.name f.fromKeyword = some f.statement := by
  have passed : afterGap? (f.pathGap ++ f.fromPath) = some f.fromPath :=
    afterGap?_eq_some_iff.mpr ⟨f.pathGap, formed.pathGap.1, rfl, formed.longest_pathGap⟩
  rw [readKeyword, ImportForm.fromKeyword, afterWord?_append, Option.bind_some, passed,
    Option.bind_some, formed.readPath_fromPath]

theorem readName_fromName : readName f.fromName = some f.statement := by
  have taken : takeName? f.fromName = some (f.name, f.fromGap ++ f.fromKeyword) :=
    takeName?_eq_some_iff.mpr ⟨rfl, formed.name, formed.longest_name.stop⟩
  have passed : afterGap? (f.fromGap ++ f.fromKeyword) = some f.fromKeyword :=
    afterGap?_eq_some_iff.mpr ⟨f.fromGap, formed.fromGap.1, rfl, formed.longest_fromGap⟩
  rw [readName, taken, Option.bind_some, passed, Option.bind_some, formed.readKeyword_fromKeyword]

theorem ofText?_text : ofText? f.text = some f.statement := by
  have passed : afterGap? (f.nameGap ++ f.fromName) = some f.fromName :=
    afterGap?_eq_some_iff.mpr ⟨f.nameGap, formed.nameGap.1, rfl, formed.longest_nameGap⟩
  rw [ofText?_eq, ImportForm.text, formed.longest_indent.dropWhile, afterWord?_append,
    Option.bind_some, passed, Option.bind_some, formed.readName_fromName]

/-! ## One form for a text -/

include formed'

theorem unique (same : f.text = g.text) : f = g := by
  obtain ⟨indent, same⟩ := formed.longest_indent.unique formed'.longest_indent same
  obtain ⟨nameGap, same⟩ :=
    formed.longest_nameGap.unique formed'.longest_nameGap (List.append_cancel_left same)
  obtain ⟨name, same⟩ := formed.longest_name.unique formed'.longest_name same
  obtain ⟨fromGap, same⟩ := formed.longest_fromGap.unique formed'.longest_fromGap same
  obtain ⟨pathGap, same⟩ :=
    formed.longest_pathGap.unique formed'.longest_pathGap (List.append_cancel_left same)
  obtain ⟨opening, same⟩ := List.cons.inj same
  obtain ⟨path, same⟩ := formed.longest_path.unique formed'.longest_path same
  obtain ⟨closing, rest⟩ := List.cons.inj same
  cases f
  cases g
  simp_all

end ImportForm.WellFormed

/-! ## From what is read to a form -/

namespace ImportLine

theorem exists_form_of_ofText? {t : Text} {statement : ImportLine}
    (read : ofText? t = some statement) :
    ∃ f : ImportForm, f.WellFormed ∧ f.text = t ∧ f.statement = statement := by
  obtain ⟨indent, behind, rfl, indented⟩ := exists_longest isGap t
  rw [ofText?_eq, indented.dropWhile] at read
  obtain ⟨afterImport, keyword, read⟩ := Option.bind_eq_some_iff.mp read
  obtain ⟨fromName, gap, read⟩ := Option.bind_eq_some_iff.mp read
  obtain ⟨⟨name, afterName⟩, named, read⟩ := Option.bind_eq_some_iff.mp read
  obtain ⟨fromKeyword, gap', read⟩ := Option.bind_eq_some_iff.mp read
  obtain ⟨afterFrom, keyword', read⟩ := Option.bind_eq_some_iff.mp read
  obtain ⟨fromPath, gap'', read⟩ := Option.bind_eq_some_iff.mp read
  obtain ⟨⟨opening, path, rest⟩, quoted, meant⟩ := Option.bind_eq_some_iff.mp read
  obtain rfl := afterWord?_eq_some_iff.mp keyword
  obtain ⟨nameGap, nameGapped, rfl, nameGaps⟩ := afterGap?_eq_some_iff.mp gap
  obtain ⟨rfl, identifier, -⟩ := takeName?_eq_some_iff.mp named
  obtain ⟨fromGap, fromGapped, rfl, fromGaps⟩ := afterGap?_eq_some_iff.mp gap'
  obtain rfl := afterWord?_eq_some_iff.mp keyword'
  obtain ⟨pathGap, pathGapped, rfl, pathGaps⟩ := afterGap?_eq_some_iff.mp gap''
  obtain ⟨closing, rfl, isOpening, isClosing, nonempty, quoteless⟩ :=
    takePath?_eq_some_iff.mp quoted
  have gaps {s v : Text} (run : Longest isGap s v) : s ⊆ gapBytes :=
    fun b member => isGap_iff.mp (run.all b member)
  have apart {q : UInt8} (quote : isPathQuote q = true) : q ∉ path := by
    intro member
    rw [quoteless q member] at quote
    cases quote
  refine ⟨⟨indent, nameGap, name, fromGap, pathGap, opening, path, closing, rest⟩,
    ?_, rfl, ?_⟩
  · exact ⟨gaps indented, ⟨nameGapped, gaps nameGaps⟩, identifier,
      ⟨fromGapped, gaps fromGaps⟩,
      ⟨pathGapped, gaps pathGaps⟩, isPathQuote_iff.mp isOpening,
      ⟨nonempty, apart (by decide), apart (by decide)⟩, isPathQuote_iff.mp isClosing⟩
  · rw [← Option.some.inj meant, startsWith_semicolon]
    rfl

/-- A text is read as an import statement exactly when it has the form of one.
It then has one such form, and what is read is what the form says. -/
theorem ofText?_eq_some_iff_form (t : Text) :
    (∀ statement, ofText? t = some statement ↔
      ∃ f : ImportForm, f.WellFormed ∧ f.text = t ∧ f.statement = statement) ∧
    ∀ f g : ImportForm, f.WellFormed → g.WellFormed → f.text = t → g.text = t →
    f = g := by
  refine ⟨fun statement => ⟨exists_form_of_ofText?, ?_⟩, ?_⟩
  · rintro ⟨f, formed, rfl, rfl⟩
    exact formed.ofText?_text
  · rintro f g formed formed' rfl same
    exact formed.unique formed' same.symm

def mixedForm : ImportForm where
  indent := [tab, space]
  nameGap := [space, tab]
  name := utf8 "from"
  fromGap := [0x0C]
  pathGap := [cr, lf]
  opening := dquote
  path := utf8 "import x;"
  closing := squote
  rest := utf8 " ; from 'y'"

theorem ofText?_mixedForm : mixedForm.WellFormed ∧
    ofText? mixedForm.text = some ⟨utf8 "from", utf8 "import x;", dquote, true⟩ ∧
    ∀ f : ImportForm, f.WellFormed → f.text = mixedForm.text → f = mixedForm := by
  have formed : mixedForm.WellFormed := by constructor <;> decide
  obtain ⟨read, unique⟩ := ofText?_eq_some_iff_form mixedForm.text
  exact ⟨formed, (read _).mpr ⟨mixedForm, formed, rfl, by decide⟩,
    fun f other same => unique f _ other formed same rfl⟩

end ImportLine

end ModuleDeps
