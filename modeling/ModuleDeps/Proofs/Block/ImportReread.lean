import ModuleDeps.Block.Edits
import ModuleDeps.Proofs.Block.ImportLine
import ModuleDeps.Proofs.Block.Spelling

/-!
# Import lines that are read again

A line added behind the last import line is read as a further import exactly
when its name is an identifier and its path is not empty
(`ofText?_importText`).  The other lines keep what they had, also where their
ends change.
-/

set_option autoImplicit false

namespace ModuleDeps

open Text

theorem takeWhile_stop {p : UInt8 → Bool} {c : UInt8} (stop : p c = false) (t u : Text) :
    (t ++ c :: u).takeWhile p = t.takeWhile p := by
  induction t with
  | nil => simp [stop]
  | cons b t ih => simp only [List.cons_append, List.takeWhile_cons, ih]

theorem dropWhile_stop {p : UInt8 → Bool} {c : UInt8} (stop : p c = false) (t u : Text) :
    (t ++ c :: u).dropWhile p = t.dropWhile p ++ c :: u := by
  induction t with
  | nil => simp [stop]
  | cons b t ih =>
      simp only [List.cons_append, List.dropWhile_cons, ih]
      split <;> rfl

theorem importText_eq (name path : Text) (q : UInt8) (semicolon : Bool) :
    importText name (q :: (path ++ [q])) semicolon = utf8 "import" ++ space ::
      (name ++ space :: (utf8 "from" ++ space ::
        (q :: (path ++ q :: if semicolon then utf8 ";" else [])))) := by
  have first : utf8 "import " = utf8 "import" ++ [space] := by decide
  have second : utf8 " from " = space :: (utf8 "from" ++ [space]) := by decide
  simp [importText, first, second]

namespace ImportLine

/-! ## Line ends -/

theorem startsWith_append_cr {word : Text} (apart : cr ∉ word) (t : Text) :
    startsWith (t ++ [cr]) word = startsWith t word := by
  rw [startsWith, startsWith, Bool.eq_iff_iff, List.isPrefixOf_iff_prefix,
    List.isPrefixOf_iff_prefix]
  exact prefix_append_sep_iff apart t []

theorem afterWord?_append_cr {α : Type} {f : Text → Option α} {word : Text}
    (apart : cr ∉ word) (step : ∀ t, f (t ++ [cr]) = f t) (t : Text) :
    (afterWord? word (t ++ [cr])).bind f = (afterWord? word t).bind f := by
  rw [afterWord?, afterWord?, startsWith_append_cr apart]
  split
  · rename_i starts
    have short : word.length ≤ t.length := (List.isPrefixOf_iff_prefix.mp starts).length_le
    rw [List.drop_append_of_le_length short]
    exact step _
  · rfl

theorem dropWhile_append_cr (t : Text) :
    (t ++ [cr]).dropWhile isGap = t.dropWhile isGap ++ [cr] ∨
      t.dropWhile isGap = [] ∧ (t ++ [cr]).dropWhile isGap = [] := by
  rw [List.dropWhile_append]
  split
  · rename_i empty
    exact Or.inr ⟨List.isEmpty_iff.mp empty, by decide⟩
  · exact Or.inl rfl

theorem afterGap?_append_cr {α : Type} {f : Text → Option α} (nothing : f [] = none)
    (step : ∀ t, f (t ++ [cr]) = f t) (t : Text) :
    (afterGap? (t ++ [cr])).bind f = (afterGap? t).bind f := by
  cases t with
  | nil =>
      have gap : afterGap? ([] ++ [cr]) = some [] := by decide
      rw [gap]
      exact nothing
  | cons b t =>
      rw [List.cons_append, afterGap?, afterGap?]
      split
      · rcases dropWhile_append_cr t with longer | ⟨empty, empty'⟩
        · rw [longer]
          exact step _
        · rw [empty, empty']
      · rfl

theorem takeName?_append_cr {α : Type} {f : Text × Text → Option α}
    (step : ∀ name t, f (name, t ++ [cr]) = f (name, t)) (t : Text) :
    (takeName? (t ++ [cr])).bind f = (takeName? t).bind f := by
  cases t with
  | nil => rfl
  | cons b t =>
      rw [List.cons_append, takeName?, takeName?,
        takeWhile_stop (by decide : isNameByte cr = false),
        dropWhile_stop (by decide : isNameByte cr = false)]
      split
      · exact step _ _
      · rfl

theorem takePath?_append_cr {α : Type} {f : UInt8 × Text × Text → Option α}
    (step : ∀ q path t, f (q, path, t ++ [cr]) = f (q, path, t)) (t : Text) :
    (takePath? (t ++ [cr])).bind f = (takePath? t).bind f := by
  cases t with
  | nil => rfl
  | cons q t =>
      rw [List.cons_append, takePath?, takePath?]
      split
      · rw [List.takeWhile_append, List.dropWhile_append]
        cases rest : t.dropWhile fun b => !isPathQuote b with
        | nil =>
            -- Without a closing quote there is no path, with or without the line end.
            have passed : (([cr] : Text).dropWhile fun b => !isPathQuote b) = [] := by decide
            simp only [List.isEmpty_nil, if_true, passed]
            split <;> split <;> simp_all
        | cons c after =>
            have proper : ¬ (t.takeWhile fun b => !isPathQuote b).length = t.length := by
              intro whole
              have lengths :=
                congrArg List.length (List.takeWhile_append_dropWhile
                  (p := fun b => !isPathQuote b) (l := t))
              rw [rest, List.length_append, List.length_cons] at lengths
              omega
            simp only [if_neg proper, List.isEmpty_cons, Bool.false_eq_true, if_false,
              List.cons_append]
            cases t.takeWhile fun b => !isPathQuote b with
            | nil => rfl
            | cons first path => exact step _ _ _
      · rfl

/-! ## Stages of the reading -/

def readPath (name t : Text) : Option ImportLine :=
  (takePath? t).bind fun row =>
    some ⟨name, row.2.1, row.1, startsWith (row.2.2.dropWhile isGap) (utf8 ";")⟩

def readKeyword (name t : Text) : Option ImportLine :=
  (afterWord? (utf8 "from") t).bind fun t => (afterGap? t).bind (readPath name)

def readName (t : Text) : Option ImportLine :=
  (takeName? t).bind fun row => (afterGap? row.2).bind (readKeyword row.1)

theorem ofText?_eq (t : Text) : ofText? t =
    (afterWord? (utf8 "import") (t.dropWhile isGap)).bind fun t =>
      (afterGap? t).bind readName := rfl

theorem readPath_append_cr (name t : Text) : readPath name (t ++ [cr]) = readPath name t := by
  refine takePath?_append_cr (fun q path rest => ?_) t
  have same : startsWith ((rest ++ [cr]).dropWhile isGap) (utf8 ";") =
      startsWith (rest.dropWhile isGap) (utf8 ";") := by
    rcases dropWhile_append_cr rest with longer | ⟨empty, empty'⟩
    · rw [longer, startsWith_append_cr (by decide)]
    · rw [empty, empty']
  simp only [same]

theorem readKeyword_append_cr (name t : Text) : readKeyword name (t ++ [cr]) = readKeyword name t :=
  afterWord?_append_cr (by decide) (afterGap?_append_cr rfl (readPath_append_cr name)) t

theorem readName_append_cr (t : Text) : readName (t ++ [cr]) = readName t :=
  takeName?_append_cr (fun name => afterGap?_append_cr rfl (readKeyword_append_cr name)) t

theorem ofText?_append_cr (t : Text) : ofText? (t ++ [cr]) = ofText? t := by
  rw [ofText?_eq, ofText?_eq]
  rcases dropWhile_append_cr t with longer | ⟨empty, empty'⟩
  · rw [longer]
    exact afterWord?_append_cr (by decide) (afterGap?_append_cr rfl readName_append_cr) _
  · rw [empty, empty']

theorem ofText?_chomp (line : Text) : ofText? (chomp line) = ofText? line :=
  eq_of_chomp_eq (f := ofText?) ofText?_append_cr (chomp_idem line)

/-! ## Names and quotes -/

theorem takeName?_spec {t name rest : Text} (taken : takeName? t = some (name, rest)) :
    isIdentifier name = true := by
  cases t with
  | nil => cases taken
  | cons b t =>
      rw [takeName?] at taken
      split at taken
      · rename_i start
        obtain ⟨rfl, -⟩ := Prod.mk.inj (Option.some.inj taken)
        rw [isIdentifier, start, Bool.true_and, List.all_eq_true]
        exact fun c member => List.mem_takeWhile_imp member
      · cases taken

theorem takePath?_spec {t path rest : Text} {q : UInt8}
    (taken : takePath? t = some (q, path, rest)) :
    q = squote ∨ q = dquote := by
  cases t with
  | nil => cases taken
  | cons b t =>
      rw [takePath?] at taken
      split at taken
      · rename_i quote
        split at taken
        · cases taken
        · cases taken
        · cases taken
          simpa [isPathQuote] using quote
      · cases taken

theorem ofText?_spec {t : Text} {statement : ImportLine} (read : ofText? t = some statement) :
    isIdentifier statement.name = true ∧
      (statement.quote = squote ∨ statement.quote = dquote) := by
  rw [ofText?_eq] at read
  obtain ⟨t, -, read⟩ := Option.bind_eq_some_iff.mp read
  obtain ⟨t, -, read⟩ := Option.bind_eq_some_iff.mp read
  obtain ⟨⟨name, t⟩, named, read⟩ := Option.bind_eq_some_iff.mp read
  obtain ⟨t, -, read⟩ := Option.bind_eq_some_iff.mp read
  obtain ⟨t, -, read⟩ := Option.bind_eq_some_iff.mp read
  obtain ⟨t, -, read⟩ := Option.bind_eq_some_iff.mp read
  obtain ⟨⟨q, path, t⟩, quoted, read⟩ := Option.bind_eq_some_iff.mp read
  obtain rfl := Option.some.inj read
  exact ⟨takeName?_spec named, takePath?_spec quoted⟩

/-! ## A line that was written -/

section Written

variable {name path : Text} {q : UInt8} (nonempty : name ≠ [])
  (apart : ∀ b ∈ name, isGap b = false) (quote : q = squote ∨ q = dquote)

theorem afterWord?_append (word t : Text) : afterWord? word (word ++ t) = some t := by
  have starts : startsWith (word ++ t) word = true := by
    rw [startsWith, List.isPrefixOf_iff_prefix]
    exact List.prefix_append word t
  rw [afterWord?, if_pos starts, List.drop_left]

theorem afterGap?_space {b : UInt8} (notGap : isGap b = false) (t : Text) :
    afterGap? (space :: (b :: t)) = some (b :: t) := by
  have gap : isGap space = true := by decide
  rw [afterGap?, if_pos gap, List.dropWhile_cons_of_neg (by simp [notGap])]

include nonempty apart in
theorem readName_append (t : Text) : readName (name ++ space :: t) =
    if isIdentifier name then readKeyword name (t.dropWhile isGap) else none := by
  obtain ⟨b, rest, rfl⟩ := List.exists_cons_of_ne_nil nonempty
  have stop : isNameByte space = false := by decide
  rw [readName, List.cons_append, takeName?, takeWhile_stop stop, dropWhile_stop stop, isIdentifier]
  cases isNameStart b with
  | false => simp
  | true =>
      simp only [if_true, Option.bind_some, Bool.true_and]
      cases behind : rest.dropWhile isNameByte with
      | nil =>
          have all : rest.all isNameByte = true := by
            rw [List.all_eq_true]
            exact List.dropWhile_eq_nil_iff.mp behind
          have taken : rest.takeWhile isNameByte = rest := by
            have whole := List.takeWhile_append_dropWhile (p := isNameByte) (l := rest)
            rwa [behind, List.append_nil] at whole
          rw [all, if_pos rfl, taken]
          rfl
      | cons c more =>
          have foreign : isNameByte c = false := by
            have first := List.head?_dropWhile_not isNameByte rest
            rw [behind] at first
            simpa using first
          have inRest : c ∈ rest :=
            (List.dropWhile_suffix isNameByte).subset (by rw [behind]; simp)
          have notAll : rest.all isNameByte = false := by
            rw [List.all_eq_false]
            exact ⟨c, inRest, by simp [foreign]⟩
          rw [notAll, if_neg (by simp), List.cons_append, afterGap?, apart c (by simp [inRest])]
          rfl

include quote in
theorem readPath_literal (t : Text) : readPath name (q :: (path ++ q :: t)) =
    match path.takeWhile fun b => !isPathQuote b with
    | [] => none
    | first :: more => some ⟨name, first :: more, q,
        startsWith ((((path.dropWhile fun b => !isPathQuote b) ++ q :: t).drop 1).dropWhile isGap)
          (utf8 ";")⟩ := by
  have isQuoted : isPathQuote q = true := by rcases quote with rfl | rfl <;> decide
  have stop : (!isPathQuote q) = false := by simp [isQuoted]
  rw [readPath, takePath?, if_pos isQuoted, takeWhile_stop (p := fun b => !isPathQuote b) stop,
    dropWhile_stop (p := fun b => !isPathQuote b) stop]
  cases path.takeWhile fun b => !isPathQuote b with
  | nil => rfl
  | cons first more =>
      cases path.dropWhile fun b => !isPathQuote b with
      | nil => rfl
      | cons c rest => rfl

include nonempty apart quote in
/-- A written line is read up to its path, if its name is one. -/
theorem ofText?_importText_eq (semicolon : Bool) :
    ofText? (importText name (q :: (path ++ [q])) semicolon) =
      if isIdentifier name then readPath name
        (q :: (path ++ q :: if semicolon then utf8 ";" else []))
      else none := by
  obtain ⟨b, rest, cut⟩ := List.exists_cons_of_ne_nil nonempty
  have notGap : isGap b = false := apart b (by simp [cut])
  have quoteSeen : isGap q = false := by rcases quote with rfl | rfl <;> decide
  have keyword : utf8 "import" = 0x69 :: utf8 "mport" := by decide
  have keyword' : utf8 "from" = 0x66 :: utf8 "rom" := by decide
  have start (t : Text) : (utf8 "import" ++ t).dropWhile isGap = utf8 "import" ++ t := by
    rw [keyword, List.cons_append, List.dropWhile_cons_of_neg (by decide)]
  have start' (t : Text) : (utf8 "from" ++ t).dropWhile isGap = utf8 "from" ++ t := by
    rw [keyword', List.cons_append, List.dropWhile_cons_of_neg (by decide)]
  have named (t : Text) : afterGap? (space :: (name ++ t)) = some (name ++ t) := by
    rw [cut, List.cons_append]
    exact afterGap?_space notGap _
  rw [importText_eq, ofText?_eq, start, afterWord?_append, Option.bind_some, named,
    Option.bind_some, readName_append nonempty apart, start']
  by_cases identifier : isIdentifier name = true
  · rw [if_pos identifier, if_pos identifier, readKeyword, afterWord?_append, Option.bind_some,
      afterGap?_space quoteSeen, Option.bind_some]
  · rw [if_neg identifier, if_neg identifier]

include nonempty apart quote in
/-- A written line is read back exactly when its name is an identifier and its
path does not start with a quote. -/
theorem ofText?_importText (semicolon : Bool) :
    (ofText? (importText name (q :: (path ++ [q])) semicolon)).map ImportLine.name =
      if isIdentifier name = true ∧ (path.takeWhile fun b => !isPathQuote b) ≠ [] then some name
      else none := by
  rw [ofText?_importText_eq nonempty apart quote]
  by_cases identifier : isIdentifier name = true
  · rw [if_pos identifier, readPath_literal quote]
    simp only [identifier, true_and]
    cases path.takeWhile fun b => !isPathQuote b with
    | nil => rfl
    | cons first more => rfl
  · rw [if_neg identifier, if_neg fun both => identifier both.1]
    rfl

include nonempty apart quote in
/-- With a path free of quotes all of a written line is read back. -/
theorem ofText?_importText_of_quoteless (identifier : isIdentifier name = true)
    (some' : path ≠ []) (quoteless : ∀ b ∈ path, isPathQuote b = false) (semicolon : Bool) :
    ofText? (importText name (q :: (path ++ [q])) semicolon) =
      some ⟨name, path, q, semicolon⟩ := by
  have taken : (path.takeWhile fun b => !isPathQuote b) = path := by
    rw [List.takeWhile_eq_self_iff]
    intro b member
    simp [quoteless b member]
  have dropped : (path.dropWhile fun b => !isPathQuote b) = [] := by
    rw [List.dropWhile_eq_nil_iff]
    intro b member
    simp [quoteless b member]
  rw [ofText?_importText_eq nonempty apart quote, if_pos identifier, readPath_literal quote,
    taken, dropped]
  obtain ⟨first, more, rfl⟩ := List.exists_cons_of_ne_nil some'
  cases semicolon <;> rfl

end Written

end ImportLine

/-! ## Lines among others -/

theorem statements_importsFrom (k : Nat) (lines : List Text) :
    (importsFrom k lines).map Prod.snd = lines.filterMap ImportLine.ofText? := by
  induction lines generalizing k with
  | nil => rfl
  | cons line rest ih =>
      rw [importsFrom, List.filterMap_cons]
      cases ImportLine.ofText? line with
      | none => exact ih (k + 1)
      | some statement => rw [List.map_cons, ih]

theorem importsFrom_spec {k n : Nat} {lines : List Text} {statement : ImportLine}
    (member : (n, statement) ∈ importsFrom k lines) :
    isIdentifier statement.name = true ∧
      (statement.quote = squote ∨ statement.quote = dquote) := by
  have read : statement ∈ lines.filterMap ImportLine.ofText? := by
    rw [← statements_importsFrom k]
    exact List.mem_map_of_mem member
  obtain ⟨line, -, read⟩ := List.mem_filterMap.mp read
  exact ImportLine.ofText?_spec read

theorem statements_chomp (lines : List Text) :
    (lines.map chomp).filterMap ImportLine.ofText? = lines.filterMap ImportLine.ofText? := by
  rw [List.filterMap_map]
  exact List.filterMap_congr fun line _ => ImportLine.ofText?_chomp line

section Located

variable {b : Buffer} (unmarked : ∀ l ∈ b.lines, l.contains defineMarker = false)
  (stamp : UInt64)

include unmarked in
theorem hasParameter_imports_iff (symbol : Text) :
    (∃ d, locate b stamp = .ok d ∧ d.hasParameter symbol = true) ↔
      ∃ statement ∈ b.lines.filterMap ImportLine.ofText?,
        statement.name.lower.endsWith symbol.lower = true := by
  rw [locate_of_unmarked unmarked, ← statements_importsFrom 0]
  constructor
  · rintro ⟨d, located, has⟩
    obtain ⟨n, last, -, rfl⟩ := locateImports_eq_ok_iff.mp located
    obtain ⟨parameter, member, ends⟩ := List.any_eq_true.mp has
    obtain ⟨row, rowMember, rfl⟩ := List.mem_map.mp member
    exact ⟨row.2, List.mem_map_of_mem rowMember, ends⟩
  · rintro ⟨statement, member, ends⟩
    obtain ⟨row, rowMember, rfl⟩ := List.mem_map.mp member
    have found := List.getLast?_eq_some_getLast (List.ne_nil_of_mem rowMember)
    refine ⟨_, locateImports_eq_ok_iff.mpr ⟨_, _, found, rfl⟩, List.any_eq_true.mpr ?_⟩
    exact ⟨row.2.name, List.mem_map_of_mem rowMember, ends⟩

end Located

/-! ## Adding a line -/

def Descriptor.addedLine (d : Descriptor) (name path : Text) : Text :=
  importText name (d.literal path) d.semicolon

section Added

variable {b : Buffer} (whole : b.Whole) {stamp : UInt64} (fits : stamp = 0 ∨ stamp = b.version)
  {n : Nat} (within : n < b.lineCount) {rows : List (Nat × ImportLine)} {last : ImportLine}

include whole fits within in
theorem apply_importLine {name path : Text}
    (apart : lf ∉ (describeImports stamp rows n last).addedLine name path) :
    ∃ t, splitAt lf t = b.lines.take (n + 1) ++
        (describeImports stamp rows n last).addedLine name path :: b.lines.drop (n + 1) ∧
      b.apply ((describeImports stamp rows n last).edits b.lineCount name path) =
        .ok { b with lines := (b.withEnding t).cutLines, version := b.version + 1 } := by
  generalize written : (describeImports stamp rows n last).addedLine name path = line at apart ⊢
  have batch : (describeImports stamp rows n last).edits b.lineCount name path =
      ⟨stamp, [⟨⟨n + 1, 0⟩, if (b.lineCount : Int) ≤ n + 1 then lf :: line else line ++
        [lf]⟩]⟩ := by
    rw [← written]
    rfl
  rw [batch]
  cases below : b.lines.drop (n + 1) with
  | nil =>
      have atEnd : n + 1 = b.lineCount := by
        have := List.drop_eq_nil_iff.mp below
        simp only [Buffer.lineCount] at within ⊢
        omega
      have past : (b.lineCount : Int) ≤ n + 1 := by omega
      have place : (n : Int) + 1 = b.lineCount := by omega
      obtain ⟨t, holds⟩ := whole.exists_text
      refine ⟨t ++ lf :: line, ?_,
        by rw [if_pos past, place]; exact Buffer.apply_past holds fits _⟩
      rw [splitAt_append_sep, splitAt_of_notMem apart, ← holds, atEnd, Buffer.lineCount,
        List.take_length]
  | cons y rest =>
      have short : n + 1 < b.lineCount := by
        have := congrArg List.length below
        simp only [List.length_drop, List.length_cons] at this
        simp only [Buffer.lineCount]
        omega
      have early : ¬ (b.lineCount : Int) ≤ n + 1 := by omega
      have cut : b.lines = b.lines.take (n + 1) ++ y :: rest := by
        rw [← below, List.take_append_drop]
      have wholeAbove : ∀ l ∈ b.lines.take (n + 1), lf ∉ l :=
        fun l member => whole.apart l (List.mem_of_mem_take member)
      have yApart : lf ∉ y := whole.apart y (by rw [cut]; simp)
      have wholeBelow : ∀ l ∈ rest, lf ∉ l :=
        fun l member => whole.apart l (by rw [cut]; simp [member])
      have holds : b.lines = splitAt lf (stacked (b.lines.take (n + 1)) ++ (y ++ hung rest)) := by
        rw [splitAt_stacked wholeAbove, splitAt_hung yApart wholeBelow, ← cut]
      have place : Position.after (stacked (b.lines.take (n + 1))) = ⟨n + 1, 0⟩ := by
        have after := Position.after_stacked wholeAbove (v := []) (by simp)
        rw [List.append_nil] at after
        have length : (b.lines.take (n + 1)).length = n + 1 :=
          List.length_take_of_le (Nat.le_of_lt short)
        rw [after, length]
        rfl
      refine ⟨_, ?_, by rw [if_neg early, ← place]; exact Buffer.apply_one holds fits _⟩
      rw [splitAt_stacked wholeAbove, List.append_assoc, List.singleton_append,
        splitAt_append_sep, splitAt_of_notMem apart, splitAt_hung yApart wholeBelow]
      rfl

end Added

theorem isGap_of_spelled {name : Text} (spelled : Spelled name) :
    ∀ b ∈ name, ImportLine.isGap b = false := by
  intro b member
  by_contra gap
  rw [Bool.not_eq_false] at gap
  have low :=
    forall_byte (p := fun b => ImportLine.isGap b = true → b < 0x80 ∧ isNameByte b = false)
    (by decide +kernel) b gap
  exact spelled.notMem low.1 low.2 member

section Line

variable {d : Descriptor} {q : UInt8} (quoted : d.quote = [q]) (quote : q = squote ∨ q = dquote)
  {name path : Text} (spelled : Spelled name)

include quoted in
theorem addedLine_eq (name path : Text) :
    d.addedLine name path = importText name (q :: (path ++ [q])) d.semicolon := by
  simp [Descriptor.addedLine, Descriptor.literal, quoted]

include quoted quote spelled in
theorem notMem_addedLine {c : UInt8} (breaks : c = lf ∨ c = cr) (apart : c ∉ path) :
    c ∉ d.addedLine name path := by
  have noName : c ∉ name := by
    apply spelled.notMem <;> rcases breaks with rfl | rfl <;> decide
  have noQuote : c ≠ q := by
    rcases breaks with rfl | rfl <;> rcases quote with rfl | rfl <;> decide
  have noEnd : c ∉ (if d.semicolon then utf8 ";" else [] : Text) := by
    rcases breaks with rfl | rfl <;> cases d.semicolon <;> decide
  have noImport : c ∉ utf8 "import " := by rcases breaks with rfl | rfl <;> decide
  have noFrom : c ∉ utf8 " from " := by rcases breaks with rfl | rfl <;> decide
  rw [addedLine_eq quoted, importText]
  simp only [List.mem_append, List.mem_cons, List.not_mem_nil, or_false, not_or]
  exact ⟨⟨⟨⟨noImport, noName⟩, noFrom⟩, noQuote, apart, noQuote⟩, noEnd⟩

include quoted quote spelled in
theorem addedLine_unmarked (free : ¬ defineMarker <:+: path) :
    ¬ defineMarker <:+: d.addedLine name path := by
  have spaced : space ∉ defineMarker := by decide
  have unquoted : q ∉ defineMarker := by rcases quote with rfl | rfl <;> decide
  have noName : ¬ defineMarker <:+: name := by
    intro occurs
    exact spelled.notMem (by decide : (0x2E : UInt8) < 0x80) (by decide) (occurs.subset (by decide))
  have noEnd : ¬ defineMarker <:+: (if d.semicolon then utf8 ";" else [] : Text) := by
    cases d.semicolon <;> decide
  have noImport : ¬ defineMarker <:+: utf8 "import" := by decide
  have noFrom : ¬ defineMarker <:+: utf8 "from" := by decide
  have noText : ¬ defineMarker <:+: [] := by decide
  have cut : d.addedLine name path =
      utf8 "import" ++ space :: (name ++ space :: (utf8 "from" ++ space ::
      ([] ++ q :: (path ++ q :: if d.semicolon then utf8 ";" else [])))) := by
    rw [addedLine_eq quoted, importText_eq]
    rfl
  rw [cut, infix_append_sep_iff marker_ne_nil.1 spaced, infix_append_sep_iff marker_ne_nil.1 spaced,
    infix_append_sep_iff marker_ne_nil.1 spaced, infix_append_sep_iff marker_ne_nil.1 unquoted,
    infix_append_sep_iff marker_ne_nil.1 unquoted]
  simp only [not_or]
  exact ⟨noImport, noName, noFrom, noText, free, noEnd⟩

include quoted quote spelled in
theorem ofText?_addedLine (nonempty : name ≠ []) :
    (ImportLine.ofText? (d.addedLine name path)).map ImportLine.name =
      if isIdentifier name = true ∧
        (path.takeWhile fun b => !ImportLine.isPathQuote b) ≠ [] then some name
      else none := by
  rw [addedLine_eq quoted]
  exact ImportLine.ofText?_importText nonempty (isGap_of_spelled spelled) quote d.semicolon

end Line

theorem unmarked_of_chomp {lines lines' : List Text} (same : lines'.map chomp = lines.map chomp)
    (bare : ∀ l ∈ lines, l.contains defineMarker = false) :
    ∀ l ∈ lines', l.contains defineMarker = false := by
  intro l member
  have chomped : chomp l ∈ lines'.map chomp := List.mem_map_of_mem member
  rw [same] at chomped
  obtain ⟨l', member', alike⟩ := List.mem_map.mp chomped
  rw [contains, ← indexOf?_chomp marker_ne_nil.1 marker_ne_nil.2.2 l, ← alike,
    indexOf?_chomp marker_ne_nil.1 marker_ne_nil.2.2, ← contains]
  exact bare l' member'

/-- Import lines with one added bind a symbol that they did not bind before
exactly when the new line is read and binds it. -/
theorem hasParameter_added_iff {b after : Buffer} (whole : b.Whole) {stamp : UInt64}
    {d : Descriptor} (fits : stamp = 0 ∨ stamp = b.version) (located : locate b stamp = .ok d)
    (kind : d.kind = .lineImports) {symbol name path : Text}
    (missing : d.hasParameter symbol = false) (spelled : Spelled name) (nonempty : name ≠ [])
    (lineFree : lf ∉ path) (unmarked : ¬ defineMarker <:+: path)
    (applied : b.apply (d.edits b.lineCount name path) = .ok after) (stamp' : UInt64) :
    (∃ d', locate after stamp' = .ok d' ∧ d'.hasParameter symbol = true) ↔
      isIdentifier name = true ∧ (path.takeWhile fun b => !ImportLine.isPathQuote b) ≠ [] ∧
        name.lower.endsWith symbol.lower = true := by
  obtain ⟨bare, imports⟩ := locate_lineImports_iff.mp ⟨located, kind⟩
  obtain ⟨n, last, found, rfl⟩ := locateImports_eq_ok_iff.mp imports
  have lastMember := List.mem_of_getLast? found
  have quote := (importsFrom_spec lastMember).2
  have within : n < b.lineCount := by
    have bound := importsFrom_bound lastMember
    rwa [Nat.zero_add] at bound
  obtain ⟨t, cut, applied'⟩ :=
    apply_importLine whole fits within (notMem_addedLine rfl quote spelled (Or.inl rfl) lineFree)
  have lines : after.lines.map chomp = (b.lines.take (n + 1) ++
      (describeImports stamp (importsFrom 0 b.lines) n last).addedLine name path ::
        b.lines.drop (n + 1)).map chomp := by
    rw [← Except.ok.inj (applied'.symm.trans applied), ← cut]
    exact Buffer.cutLines_withEnding b t
  have bareAfter : ∀ l ∈ after.lines, l.contains defineMarker = false := by
    refine unmarked_of_chomp lines fun l member => ?_
    rcases List.mem_append.mp member with above | here
    · exact bare l (List.mem_of_mem_take above)
    · rcases List.mem_cons.mp here with rfl | below
      · rw [← Bool.not_eq_true, contains_iff_isInfix marker_ne_nil.1]
        exact addedLine_unmarked rfl quote spelled unmarked
      · exact bare l (List.mem_of_mem_drop below)
  -- None of the old lines binds the symbol, so it is up to the new one.
  have missed : ∀ statement ∈ b.lines.filterMap ImportLine.ofText?,
      ¬ statement.name.lower.endsWith symbol.lower = true := by
    intro statement member ends
    have has := (hasParameter_imports_iff bare stamp symbol).mpr ⟨statement, member, ends⟩
    obtain ⟨d', located', has⟩ := has
    rw [Except.ok.inj (located'.symm.trans located), missing] at has
    cases has
  have read :=
    @ofText?_addedLine (describeImports stamp (importsFrom 0 b.lines) n last) _ rfl quote name path
    spelled nonempty
  rw [hasParameter_imports_iff bareAfter, ← statements_chomp, lines, statements_chomp]
  constructor
  · rintro ⟨statement, member, ends⟩
    obtain ⟨l, lineMember, readLine⟩ := List.mem_filterMap.mp member
    rcases List.mem_append.mp lineMember with above | here
    · exact absurd ends (missed statement
        (List.mem_filterMap.mpr ⟨l, List.mem_of_mem_take above, readLine⟩))
    · rcases List.mem_cons.mp here with rfl | below
      · rw [readLine, Option.map_some] at read
        split at read
        · rename_i holds
          rw [Option.some.inj read] at ends
          exact ⟨holds.1, holds.2, ends⟩
        · cases read
      · exact absurd ends (missed statement
          (List.mem_filterMap.mpr ⟨l, List.mem_of_mem_drop below, readLine⟩))
  · rintro ⟨identifier, starts, ends⟩
    rw [if_pos ⟨identifier, starts⟩] at read
    obtain ⟨statement, readLine, rfl⟩ := Option.map_eq_some_iff.mp read
    exact ⟨statement, List.mem_filterMap.mpr ⟨_, by simp, readLine⟩, ends⟩

end ModuleDeps
