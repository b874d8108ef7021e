import ModuleDeps.Proofs.Block.Continue
import ModuleDeps.Proofs.Block.Frame

/-!
# Blocks that are read again

Adding an entry to both lists of a factory block cuts the edited text into lines
anew.  What the delimiters cut out of the new lines is like what they cut out of
the old ones, so the edited buffer holds a frame again (`Frame.exists_edited`),
and each of its lists is the old one with the entry added
(`entries_of_continued`).
-/

set_option autoImplicit false

namespace ModuleDeps

open Text

/-! ## Line ends -/

namespace Buffer

theorem alikeFront_withEnding (b : Buffer) (t : Text) : AlikeFront (b.withEnding t) t := by
  obtain ⟨above, v, whole, vApart, rfl⟩ := exists_stacked t
  rw [withEnding_eq]
  cases b.ending with
  | lf =>
      rw [LineEnding.bytes, ← joinWith_splitAt, joinWith_splitAt_self]
      exact AlikeFront.refl _
  | crlf =>
      have ended : ∀ l ∈ above.map (· ++ [cr]), lf ∉ l := by
        intro l member
        obtain ⟨line, lineMember, rfl⟩ := List.mem_map.mp member
        have distinct : lf ≠ cr := by decide
        simp [whole line lineMember, distinct]
      refine ⟨above.map (· ++ [cr]), above, v, ended, whole, vApart, ?_, ?_, rfl⟩
      · rw [List.map_map]
        exact List.map_congr_left fun l _ => chomp_append_cr l
      · rw [LineEnding.bytes, replaceByte_stacked whole vApart]

theorem entries_withEnding (b : Buffer) (t : Text) :
    (splitEntries (b.withEnding t) [comma]).map trim = (splitEntries t [comma]).map trim :=
  splitEntries_congr trim_append_cr (b.alikeFront_withEnding t).alike

theorem filler_withEnding (b : Buffer) (t : Text) :
    filler (splitEntries (b.withEnding t) [comma]) = filler (splitEntries t [comma]) := by
  rw [filler_eq, filler_eq, splitEntries_congr indentOf?_append_cr
    (b.alikeFront_withEnding t).alike]

theorem onlySeparators_withEnding (b : Buffer) (t : Text) :
    onlySeparators (b.withEnding t) = onlySeparators t :=
  onlySeparators_congr (b.alikeFront_withEnding t)

theorem lastLine_withEnding (b : Buffer) (t : Text) : lastLine (b.withEnding t) = lastLine t := by
  obtain ⟨above, above', v, whole, whole', vApart, -, cut, cut'⟩ := b.alikeFront_withEnding t
  rw [cut, cut', lastLine_stacked whole vApart, lastLine_stacked whole' vApart]

/-! ## One list -/

section Place

variable {b : Buffer} {lead inner : Text} {opener : UInt8} {L : EntryList}
  (scanned : b.Scanned lead opener inner L)
include scanned

theorem Scanned.entries_of_insert {body R : Text} (cut : inner = body ++ R)
    (insert : L.insert = Position.after (lead ++ opener :: body)) :
    L.entries = splitEntries (b.withEnding body) [comma] := by
  cases scanned with
  | @behind _ _ body' R' _ _ _ _ innerCut _ _ =>
      have sameText : lead ++ opener :: body' ++ R' = lead ++ opener :: body ++ R := by
        simp [← cut, ← innerCut]
      have exact : body' = body := by simpa using Position.eq_of_after_eq sameText insert
      rw [exact]
  | ahead place before =>
      have notBefore := Position.not_after_append_before (lead ++ [opener]) body
      rw [List.append_assoc, List.singleton_append, ← insert] at notBefore
      exact absurd before notBefore

theorem Scanned.entries_of_ahead (ahead : L.insert.Before (Position.after (lead ++ [opener]))) :
    L.entries = [] := by
  cases scanned with
  | @behind _ _ body _ _ _ _ _ _ _ _ =>
      have notBefore := Position.not_after_append_before (lead ++ [opener]) body
      rw [List.append_assoc, List.singleton_append] at notBefore
      exact absurd ahead notBefore
  | ahead _ _ => rfl

end Place

section Continued

variable {b : Buffer} {leadE lead' body body' R R' tail line entry indent : Text} {opener : UInt8}
  {comma : Bool} {existing : Nat} (slack : Slack line comma R)
  (endings : existing = 0 → ∀ r, (¬ lineComment <:+: R → ¬ lineComment <:+: r) →
    Ending line r → Ending (lastLine (leadE ++ opener :: body)) r)
  (fit : Fit entry) (free : ¬ lineComment <:+: entry) (indentBlank : Blanks indent)
  (indentLine : lf ∉ indent)

include fit indentLine in
theorem exists_written (t : Text) (comma : Bool) (existing : Nat) :
    ∃ lines written, (∀ l ∈ lines, lf ∉ l) ∧ lf ∉ written ∧
      t ++ entryText entry existing comma indent = stacked lines ++ written ∧
      (existing = 0 ∧ written = lastLine t ++ entry ∨ written = indent ++ entry) := by
  obtain ⟨above, v, whole, vApart, rfl⟩ := exists_stacked t
  rw [entryText, lastLine_stacked whole vApart]
  by_cases none : existing = 0
  · rw [if_pos none]
    exact ⟨above, v ++ entry, whole, by simp [vApart, fit.lfFree], by simp,
      Or.inl ⟨none, rfl⟩⟩
  · rw [if_neg none]
    have sepApart : lf ∉ (if comma then [] else [Text.comma] : Text) := by cases comma <;> decide
    refine ⟨above ++ [v ++ if comma then [] else [Text.comma]], indent ++ entry, ?_,
      by simp [indentLine, fit.lfFree], by simp, Or.inr rfl⟩
    intro l member
    rcases List.mem_append.mp member with member | member
    · exact whole l member
    · simp [List.mem_singleton.mp member, vApart, sepApart]

include slack endings fit free indentBlank indentLine in
/-- The insert point of a continued list lies right behind the new entry.  The
line in front of it may have been edited, as long as it ends in the same way. -/
theorem insertPoint_of_continued (likeLead : AlikeFront (leadE ++ [opener]) (lead' ++ [opener]))
    (likeBody : AlikeFront (body ++ entryText entry existing comma indent) body')
    (likeRest : AlikeFront R R')
    (holds : b.lines = splitAt lf (lead' ++ opener :: (body' ++ R') ++ tail)) :
    ∃ W R'' comma', R' = W ++ R'' ∧ Blanks W ∧ lf ∉ W ∧
      b.insertPoint (Position.after (lead' ++ opener :: (body' ++ R'))) =
        (Position.after (lead' ++ opener :: (body' ++ W)), comma') := by
  obtain ⟨lines, written, wholeLines, writtenApart, writtenCut, kind⟩ :=
    exists_written fit indentLine (leadE ++ opener :: body) comma existing
  obtain ⟨front, front', v, wholeFront, wholeFront', vApart, -, frontCut, frontCut'⟩ :=
    likeLead.append likeBody
  have same : stacked lines ++ written = stacked front ++ v := by
    rw [← frontCut, ← writtenCut]
    simp
  obtain ⟨-, rfl⟩ := stacked_append_inj wholeLines wholeFront writtenApart vApart same
  have kept : Kept written R' := by
    rcases kind with ⟨none, rfl⟩ | rfl
    · exact slack.kept likeRest (not_blanks_append_fit fit _) fun r freeRest ending =>
        (endings none r freeRest ending).behind fit free
    · exact slack.kept likeRest (not_blanks_append_fit fit indent) fun r _ ending =>
        ending.own fit indentBlank
  have holdsLine : b.lines = splitAt lf (stacked front' ++ written ++ R' ++ tail) := by
    rw [holds, ← frontCut']
    simp
  obtain ⟨W, R'', comma', restCut, blank, apart, place⟩ :=
    insertPoint_of_kept holdsLine wholeFront' writtenApart kept
  refine ⟨W, R'', comma', restCut, blank, apart, ?_⟩
  rw [← frontCut'] at place
  simpa using place

include slack endings fit free indentBlank indentLine in
/-- A continued list is read with its entries as before and the new one, unless
that is lost in a comment. -/
theorem entries_of_continued (count : existing = (splitEntries body [Text.comma]).length)
    (likeLead : AlikeFront (leadE ++ [opener]) (lead' ++ [opener]))
    (likeBody : AlikeFront (body ++ entryText entry existing comma indent) body')
    (likeRest : AlikeFront R R')
    (holds : b.lines = splitAt lf (lead' ++ opener :: (body' ++ R') ++ tail)) {L : EntryList}
    (scanned : b.Scanned lead' opener (body' ++ R') L) :
    L.entries.map trim = (splitEntries body [Text.comma]).map trim ++
      if splitEntries body [Text.comma] ≠ [] ∨ takesEntry (lastLine body) = true then [entry]
      else [] := by
  obtain ⟨W, R'', comma', rfl, blank, apart, place⟩ :=
    insertPoint_of_continued slack endings fit free indentBlank indentLine likeLead likeBody
      likeRest holds
  have cut : body' ++ (W ++ R'') = (body' ++ W) ++ R'' := (List.append_assoc _ _ _).symm
  have read :=
    scanned.entries_of_insert cut (congrArg Prod.fst (scanned.insertPoint.symm.trans place))
  have likeWhole := (likeBody.append_within apart).alike
  rw [read, entries_withEnding, ← splitEntries_congr trim_append_cr likeWhole, count]
  exact entries_continued fit indentBlank indentLine blank apart

end Continued

/-- A list that was read up to an insert point behind its opening delimiter:
`body` stands in front of that point and `R` behind it. -/
structure ReadTo (b : Buffer) (lead : Text) (opener : UInt8) (inner body R : Text) (L : EntryList) :
    Prop where
  cut : inner = body ++ R
  slack : Slack (lastLine (lead ++ opener :: body)) L.comma R
  entries : L.entries = splitEntries (b.withEnding body) [comma]
  insert : L.insert = Position.after (lead ++ opener :: body)

theorem Scanned.exists_readTo {b : Buffer} {lead inner : Text} {opener : UInt8} {L : EntryList}
    (scanned : b.Scanned lead opener inner L) (behind : (Position.after lead).Before L.insert)
    (openerLine : opener ≠ lf) : ∃ body R, b.ReadTo lead opener inner body R L := by
  cases scanned with
  | @behind above line body R comma wholeAbove lineApart lineCut innerCut slack place =>
      refine ⟨body, R, innerCut, ?_, rfl, rfl⟩
      rw [← lineCut, lastLine_stacked wholeAbove lineApart]
      exact slack
  | ahead place before =>
      -- No position lies between the two sides of the delimiter.
      rw [Position.after_concat openerLine] at before
      simp only [Position.Before] at before behind
      omega

section ReadTo

variable {b : Buffer} {lead inner body R : Text} {opener : UInt8} {L : EntryList}
  (read : b.ReadTo lead opener inner body R L)
include read

theorem ReadTo.trimmed : L.entries.map trim = (splitEntries body [comma]).map trim := by
  rw [read.entries, entries_withEnding]

theorem ReadTo.count : (L.entries.map trim).length = (splitEntries body [comma]).length := by
  rw [read.trimmed, List.length_map]

theorem ReadTo.entries_eq_nil_iff : L.entries = [] ↔ splitEntries body [comma] = [] := by
  rw [← List.map_eq_nil_iff (f := trim), read.trimmed, List.map_eq_nil_iff]

end ReadTo

end Buffer

/-! ## Both lists -/

namespace Frame

section Edited

variable (f : Frame) {F bodyD RD bodyP RP writtenD writtenP : Text} {lastD lastP : UInt8}
  (depsCut : f.deps = bodyD ++ RD) (paramsCut : f.params = bodyP ++ RP)
  (endsD : writtenD.getLast? = some lastD) (lineD : lastD ≠ cr ∧ lastD ≠ lf)
  (openD : 0x5D ∉ writtenD) (endsP : writtenP.getLast? = some lastP)
  (lineP : lastP ≠ cr ∧ lastP ≠ lf) (openP : 0x29 ∉ writtenP)

/-- What stands in front of the opening parenthesis when `writtenD` was put into
the first list. -/
def editedLead (bodyD writtenD RD : Text) : Text :=
  f.depsLead ++ 0x5B :: (bodyD ++ writtenD ++ (RD ++ 0x5D :: (f.gap ++ (factoryMarker ++ f.neck))))

def editedText (bodyD writtenD RD bodyP writtenP RP : Text) : Text :=
  f.editedLead bodyD writtenD RD ++ 0x28 :: (bodyP ++ writtenP ++ (RP ++ 0x29 :: f.tail))

include depsCut paramsCut endsD lineD openD endsP lineP openP in
theorem exists_edited (same : Alike (f.editedText bodyD writtenD RD bodyP writtenP RP) F) :
    ∃ (f' : Frame) (bodyD' RD' bodyP' RP' : Text), f'.text = F ∧
      f'.deps = bodyD' ++ RD' ∧ f'.params = bodyP' ++ RP' ∧
      AlikeFront (f.depsLead ++ [0x5B]) (f'.depsLead ++ [0x5B]) ∧
      AlikeFront (bodyD ++ writtenD) bodyD' ∧ AlikeFront RD RD' ∧ AlikeFront f.gap f'.gap ∧
      AlikeFront (f.editedLead bodyD writtenD RD ++ [0x28]) (f'.paramsLead ++ [0x28]) ∧
      AlikeFront (bodyP ++ writtenP) bodyP' ∧ AlikeFront RP RP' := by
  have endsBody {body written : Text} {last : UInt8} (ends : written.getLast? = some last) :
      (body ++ written).getLast? = some last := by
    rw [List.getLast?_append, ends]
    rfl
  have spelled : f.editedText bodyD writtenD RD bodyP writtenP RP =
      f.front ++ (defineMarker ++ (f.head ++ 0x5B :: (bodyD ++ writtenD ++ (RD ++ 0x5D ::
        (f.gap ++ (factoryMarker ++ (f.neck ++ 0x28 ::
          (bodyP ++ writtenP ++ (RP ++ 0x29 :: f.tail))))))))) := by
    simp [editedText, editedLead, depsLead]
  -- The two texts are cut from the front, one part of the frame at a time.
  rw [spelled] at same
  obtain ⟨front, _, rfl, likeFront, same⟩ :=
    same.cut_word marker_ne_nil.1 marker_ne_nil.2.1 marker_ne_nil.2.2
  obtain ⟨head, _, rfl, likeHead, same⟩ := same.cut (by decide) (by decide)
  obtain ⟨bodyD', _, rfl, likeBodyD, same⟩ := same.cut_behind (endsBody endsD) lineD.1 lineD.2
  obtain ⟨RD', _, rfl, likeRD, same⟩ := same.cut (by decide) (by decide)
  obtain ⟨gap, _, rfl, likeGap, same⟩ :=
    same.cut_word factory_ne_nil.1 factory_ne_nil.2.1 factory_ne_nil.2.2
  obtain ⟨neck, _, rfl, likeNeck, same⟩ := same.cut (by decide) (by decide)
  obtain ⟨bodyP', _, rfl, likeBodyP, same⟩ := same.cut_behind (endsBody endsP) lineP.1 lineP.2
  obtain ⟨RP', tail, rfl, likeRP, -⟩ := same.cut (by decide) (by decide)
  have depsClose : (0x5D : UInt8) ∉ bodyD' ++ RD' := by
    refine (likeBodyD.append likeRD).notMem (by decide) (by decide) ?_
    have apart := f.deps_close
    rw [depsCut] at apart
    simp only [List.mem_append, not_or] at apart ⊢
    exact ⟨⟨apart.1, openD⟩, apart.2⟩
  have paramsClose : (0x29 : UInt8) ∉ bodyP' ++ RP' := by
    refine (likeBodyP.append likeRP).notMem (by decide) (by decide) ?_
    have apart := f.params_close
    rw [paramsCut] at apart
    simp only [List.mem_append, not_or] at apart ⊢
    exact ⟨⟨apart.1, openP⟩, apart.2⟩
  have likeClose : AlikeFront (0x5D :: f.gap) (0x5D :: gap) :=
    (AlikeFront.refl [0x5D]).append likeGap
  have likeLead :
      AlikeFront (f.depsLead ++ [0x5B]) (front ++ (defineMarker ++ head) ++ [0x5B]) := by
    have parts := ((likeFront.append_within marker_ne_nil.2.1).append likeHead).append_within
      (by decide : lf ∉ [0x5B])
    simpa [depsLead] using parts
  refine ⟨⟨front, head, bodyD' ++ RD', gap, neck, bodyP' ++ RP', tail, ?_, ?_,
    depsClose, ?_, ?_,
    paramsClose⟩, bodyD', RD', bodyP', RP', ?_, rfl, rfl, likeLead, likeBodyD, likeRD,
      likeGap, ?_,
    likeBodyP, likeRP⟩
  · exact likeFront.leads marker_ne_nil.1 marker_ne_nil.2.1 marker_ne_nil.2.2 f.marker_first
  · exact likeHead.notMem (by decide) (by decide) f.head_open
  · exact likeClose.leads factory_ne_nil.1 factory_ne_nil.2.1 factory_ne_nil.2.2 f.factory_first
  · exact likeNeck.notMem (by decide) (by decide) f.neck_open
  · simp [text, paramsLead, factoryLead, depsLead]
  · have parts := (((((likeLead.append likeBodyD).append likeRD).append likeClose).append_within
      factory_ne_nil.2.1).append likeNeck).append_within (by decide : lf ∉ [0x28])
    simpa [editedLead, paramsLead, factoryLead, depsLead] using parts

end Edited

end Frame

theorem entryText_last {entry : Text} (fit : Fit entry) (existing : Nat) (comma : Bool)
    (indent : Text) :
    ∃ c, (entryText entry existing comma indent).getLast? = some c ∧ c ≠ cr ∧ c ≠ lf := by
  have ends := List.getLast?_eq_some_getLast fit.ne_nil
  refine ⟨entry.getLast fit.ne_nil, ?_, ?_, ?_⟩
  · rw [entryText]
    split
    · exact ends
    · rw [List.getLast?_append, ends]
      rfl
  · intro isCr
    have noBlank := fit.ends _ ends
    rw [isCr] at noBlank
    cases noBlank
  · intro isLf
    exact fit.lfFree (isLf ▸ List.getLast_mem fit.ne_nil)

theorem notMem_entryText {entry indent : Text} {c : UInt8} (apart : c ∉ entry)
    (visible : isVisible c = true) (notComma : c ≠ Text.comma) (indentBlank : Blanks indent)
    (existing : Nat) (comma : Bool) : c ∉ entryText entry existing comma indent := by
  have notLf : c ≠ lf := by
    rintro rfl
    cases visible
  rw [entryText]
  split
  · exact apart
  · cases comma <;> simp [apart, notComma, notLf, indentBlank.notMem_of_visible visible]

section Both

variable {b b' : Buffer} {f : Frame} (holds : b.lines = splitAt lf f.text) {deps params : EntryList}
  {bodyD RD bodyP RP entryD entryP indentD indentP : Text}
  (readD : b.ReadTo f.depsLead 0x5B f.deps bodyD RD deps)
  (readP : b.ReadTo f.paramsLead 0x28 f.params bodyP RP params) (fitD : Fit entryD)
  (freeD : ¬ lineComment <:+: entryD) (openD : 0x5D ∉ entryD) (fitP : Fit entryP)
  (freeP : ¬ lineComment <:+: entryP) (openP : 0x29 ∉ entryP) (indentD_blank : Blanks indentD)
  (indentD_line : lf ∉ indentD) (indentP_blank : Blanks indentP) (indentP_line : lf ∉ indentP)

def writtenEntry (L : EntryList) (entry indent : Text) : Text :=
  entryText entry (L.entries.map trim).length L.comma indent

include holds readD readP in
theorem apply_edited {stamp : UInt64} (fits : stamp = 0 ∨ stamp = b.version)
    (writtenD writtenP : Text) :
    b.apply ⟨stamp, [⟨deps.insert, writtenD⟩, ⟨params.insert, writtenP⟩]⟩ =
      .ok { b with
        lines := (b.withEnding (f.editedText bodyD writtenD RD bodyP writtenP RP)).cutLines
        version := b.version + 1 } := by
  have upToParams : f.paramsLead ++ 0x28 :: bodyP = f.depsLead ++ 0x5B :: bodyD ++ (RD ++ 0x5D ::
      (f.gap ++ (factoryMarker ++ (f.neck ++ 0x28 :: bodyP)))) := by
    simp [Frame.paramsLead, Frame.factoryLead, readD.cut]
  have holdsParts : b.lines = splitAt lf (f.depsLead ++ 0x5B :: bodyD ++ (RD ++ 0x5D ::
      (f.gap ++ (factoryMarker ++ (f.neck ++ 0x28 :: bodyP))) ++ (RP ++ 0x29 :: f.tail))) := by
    rw [holds, f.text_eq_paramsTail, readP.cut, ← List.append_assoc, ← upToParams]
    simp
  rw [readD.insert, readP.insert, upToParams, Buffer.apply_two holdsParts fits]
  simp [Frame.editedText, Frame.editedLead]

include readD readP fitD freeD openD fitP freeP openP indentD_blank indentD_line indentP_blank
  indentP_line in
/-- An edited block is read with the entries added to both lists.  The second
list needs the line in front of it to end as before, which the edit of the first
list can change. -/
theorem locate_edited (whole : b'.Whole)
    (edited : b'.lines.map chomp =
      (splitAt lf (f.editedText bodyD (writtenEntry deps entryD indentD) RD bodyP
      (writtenEntry params entryP indentP) RP)).map chomp)
    (stamp : UInt64) :
    ∃ deps' params',
      locate b' stamp = report stamp (onlySeparators (b.withEnding f.gap)) deps' params' ∧
      deps'.entries.map trim = deps.entries.map trim ++
        (if deps.entries ≠ [] ∨ takesEntry (lastLine bodyD) = true then [entryD] else []) ∧
      ((params.entries = [] → ∀ r, (¬ lineComment <:+: RP → ¬ lineComment <:+: r) →
          Buffer.Ending (lastLine (f.paramsLead ++ 0x28 :: bodyP)) r →
          Buffer.Ending (lastLine (f.editedLead bodyD (writtenEntry deps entryD indentD) RD ++
            0x28 :: bodyP)) r) →
        params'.entries.map trim = params.entries.map trim ++
          if params.entries ≠ [] ∨ takesEntry (lastLine bodyP) = true then [entryP]
          else []) := by
  obtain ⟨F, holdsF⟩ := whole.exists_text
  have same : Alike (f.editedText bodyD (writtenEntry deps entryD indentD) RD bodyP
      (writtenEntry params entryP indentP) RP) F := by
    rw [Alike, ← edited, holdsF]
  obtain ⟨lastD, endsD, lineD⟩ :=
    entryText_last fitD (deps.entries.map trim).length deps.comma indentD
  obtain ⟨lastP, endsP, lineP⟩ :=
    entryText_last fitP (params.entries.map trim).length params.comma indentP
  obtain ⟨f', bodyD', RD', bodyP', RP', rfl, depsCut, paramsCut, likeLead, likeBodyD,
    likeRD, likeGap,
      likeParamsLead, likeBodyP, likeRP⟩ :=
    f.exists_edited readD.cut readP.cut endsD lineD
      (notMem_entryText openD (by decide) (by decide) indentD_blank _ _) endsP lineP
      (notMem_entryText openP (by decide) (by decide) indentP_blank _ _) same
  obtain ⟨deps', params', depsScanned, paramsScanned, located⟩ := locate_frame f' holdsF stamp
  rw [depsCut] at depsScanned
  rw [paramsCut] at paramsScanned
  have holdsDeps := f'.text_eq_depsTail ▸ holdsF
  have holdsParams := f'.text_eq_paramsTail ▸ holdsF
  rw [depsCut] at holdsDeps
  rw [paramsCut] at holdsParams
  have sameGap : onlySeparators (b'.withEnding f'.gap) = onlySeparators (b.withEnding f.gap) := by
    rw [Buffer.onlySeparators_withEnding, Buffer.onlySeparators_withEnding,
      onlySeparators_congr likeGap]
  refine ⟨deps', params', by rw [located, sameGap], ?_, ?_⟩
  · rw [Buffer.entries_of_continued readD.slack (fun _ _ _ ending => ending) fitD freeD
      indentD_blank indentD_line readD.count likeLead likeBodyD likeRD holdsDeps depsScanned,
      readD.trimmed]
    simp only [ne_eq, readD.entries_eq_nil_iff]
  · intro endings
    have none (empty : (params.entries.map trim).length = 0) : params.entries = [] := by
      simpa using empty
    rw [Buffer.entries_of_continued readP.slack (fun empty => endings (none empty)) fitP freeP
      indentP_blank indentP_line readP.count likeParamsLead likeBodyP likeRP holdsParams
      paramsScanned, readP.trimmed]
    simp only [ne_eq, readP.entries_eq_nil_iff]

end Both

end ModuleDeps
