import MarkovFit.LinearProgram.Octave
import MarkovFit.Proofs.DecimalForms
import MarkovFit.Proofs.RequestStream

/-!
# The exchange with Octave

A program is written as a script and three files of data, and the values of its unknowns come back in
one of three tagged lines. Every field of the script ends at a character that the field does not have,
and so do the entries of its lists, so the program can be read off the files up to the names of its
unknowns and the trailing zeros of its numbers. A reply is found among other lines in whatever order its
lines stand.
-/

namespace MarkovFit.Proofs

open Octave Text

/-! ### Lists of numbers -/

theorem shortText_eq_iff {a b : Decimal} : a.shortText = b.shortText ↔ a.SameValue b := by
  refine ⟨sameValue_of_shortText_eq, fun h => ?_⟩
  rw [Decimal.shortText, Decimal.shortText, normalize_eq_of_sameValue h]

theorem shortText_toList_ne_nil (a : Decimal) : a.shortText.toList ≠ [] := by
  obtain ⟨c, cs, hcs, -⟩ := exists_magnitudeChars_eq_cons a.abs.normalize
  rw [shortText_toList, hcs]
  exact List.append_ne_nil_of_right_ne_nil _ (List.cons_ne_nil _ _)

theorem not_mem_shortText {c : Char} (hc : isPlain c = false) (a : Decimal) :
    c ∉ a.shortText.toList := fun hmem => ne_of_isPlain (isPlain_of_mem_text hmem) hc rfl

theorem toList_commaList (values : List Decimal) :
    (commaList values).toList = [','].intercalate (values.map fun a => a.shortText.toList) := by
  rw [commaList, String.toList_intercalate, List.map_map]
  rfl

/-- Lists of numbers with the same text have the same values. -/
theorem commaList_eq_iff {values values' : List Decimal} :
    commaList values = commaList values' ↔ List.Forall₂ Decimal.SameValue values values' := by
  have hparts : ∀ values : List Decimal, ∀ part ∈ values.map fun a => a.shortText.toList,
      part ≠ [] ∧ ',' ∉ part := by
    intro values
    rw [List.forall_mem_map]
    exact fun a _ => ⟨shortText_toList_ne_nil a, not_mem_shortText rfl a⟩
  rw [← String.toList_inj, toList_commaList, toList_commaList,
    intercalate_inj (hparts values) (hparts values'), map_eq_map_iff_forall₂]
  simp only [String.toList_inj, shortText_eq_iff]

theorem not_mem_commaList {c : Char} (hc : isPlain c = false) (hcomma : c ≠ ',')
    (values : List Decimal) : c ∉ (commaList values).toList := by
  intro hmem
  rw [toList_commaList] at hmem
  obtain hmem | ⟨part, hpart, hmem⟩ := mem_intercalate_cases hmem
  · exact hcomma hmem
  · obtain ⟨a, -, rfl⟩ := List.mem_map.1 hpart
    exact not_mem_shortText hc a hmem

/-! ### Ends of intervals -/

section

variable {infinity : String} {e e' : Option Decimal} {c : Char}

/-- A word that no number is spelled like. -/
def IsInfinity (infinity : String) : Prop :=
  'f' ∈ infinity.toList ∧ ';' ∉ infinity.toList ∧ ']' ∉ infinity.toList

theorem endText_eq_iff (h : IsInfinity infinity) :
    endText infinity e = endText infinity e' ↔ Option.Rel Decimal.SameValue e e' := by
  have hnumber : ∀ a : Decimal, infinity ≠ a.shortText := by
    rintro a rfl
    exact not_mem_shortText rfl a h.1
  cases e with
  | none =>
    cases e' with
    | none => exact iff_of_true rfl .none
    | some a => exact iff_of_false (hnumber a) nofun
  | some a =>
    cases e' with
    | none => exact iff_of_false (hnumber a).symm nofun
    | some a' => exact shortText_eq_iff.trans Option.rel_some_some.symm

theorem not_mem_endText (hc : isPlain c = false) (hinfinity : c ∉ infinity.toList) :
    c ∉ (endText infinity e).toList := by
  cases e with
  | none => exact hinfinity
  | some a => exact not_mem_shortText hc a

theorem endText_toList_ne_nil (h : IsInfinity infinity) : (endText infinity e).toList ≠ [] := by
  cases e with
  | none => exact List.ne_nil_of_mem h.1
  | some a => exact shortText_toList_ne_nil a

/-- The text of one end of each interval. -/
def columnChars (infinity : String) (ends : List (Option Decimal)) : List Char :=
  [';'].intercalate (ends.map fun e => (endText infinity e).toList)

theorem columnChars_eq_iff (h : IsInfinity infinity) {ends ends' : List (Option Decimal)} :
    columnChars infinity ends = columnChars infinity ends' ↔
      List.Forall₂ (Option.Rel Decimal.SameValue) ends ends' := by
  have hparts : ∀ ends : List (Option Decimal),
      ∀ part ∈ ends.map fun e => (endText infinity e).toList, part ≠ [] ∧ ';' ∉ part := by
    intro ends
    rw [List.forall_mem_map]
    exact fun e _ => ⟨endText_toList_ne_nil h, not_mem_endText rfl h.2.1⟩
  rw [columnChars, columnChars, intercalate_inj (hparts ends) (hparts ends'),
    map_eq_map_iff_forall₂]
  simp only [String.toList_inj, endText_eq_iff h]

theorem not_mem_columnChars (h : IsInfinity infinity) (ends : List (Option Decimal)) :
    ']' ∉ columnChars infinity ends := by
  intro hmem
  obtain hmem | ⟨part, hpart, hmem⟩ := mem_intercalate_cases hmem
  · exact absurd hmem (by decide)
  · obtain ⟨e, -, rfl⟩ := List.mem_map.1 hpart
    exact not_mem_endText rfl h.2.2 hmem

end

/-! ### The script -/

/-- A field ends at the first character of what closes it. -/
theorem append_closing_inj {c : Char} {closing : String} {cs ds rest rest' : List Char}
    (hclosing : closing.toList.head? = some c) (hcs : c ∉ cs) (hds : c ∉ ds) :
    cs ++ (closing.toList ++ rest) = ds ++ (closing.toList ++ rest') ↔ cs = ds ∧ rest = rest' := by
  constructor
  · intro h
    obtain ⟨tail, htail⟩ := List.head?_eq_some_iff.1 hclosing
    rw [htail, List.cons_append, List.cons_append] at h
    have hcut : cutAt? (· == c) _ = some (cs, tail ++ rest) := cutAt?_eq_some_iff.2 ⟨hcs, rfl⟩
    rw [h, cutAt?_eq_some_iff.2 ⟨hds, rfl⟩, Option.some_inj, Prod.mk.injEq] at hcut
    exact ⟨hcut.1.symm, (List.append_cancel_left hcut.2).symm⟩
  · rintro ⟨rfl, rfl⟩
    rfl

theorem senseText_eq_iff {d d' : Direction} : senseText d = senseText d' ↔ d = d' := by
  cases d <;> cases d' <;> decide

theorem not_mem_senseText (d : Direction) : ';' ∉ (senseText d).toList := by
  cases d <;> decide

theorem toList_column (infinity : String) (ends : Interval → Option Decimal)
    (intervals : List Interval) :
    (";".intercalate (intervals.map fun i => endText infinity (ends i))).toList =
      columnChars infinity (intervals.map ends) := by
  rw [columnChars, String.toList_intercalate, List.map_map, List.map_map]
  rfl

theorem isInfinity_words : IsInfinity "-Inf" ∧ IsInfinity "Inf" := by
  unfold IsInfinity
  decide

/-- Scripts for the same directory are the same if their fields are. -/
theorem script_eq_iff {directory : String} {p q : LinearProgram} :
    script directory p = script directory q ↔
      p.direction = q.direction ∧ List.Forall₂ Decimal.SameValue p.objective q.objective ∧
      p.unknowns.length = q.unknowns.length ∧
      List.Forall₂ (Option.Rel Decimal.SameValue) (p.intervals.map Interval.lower)
        (q.intervals.map Interval.lower) ∧
      List.Forall₂ (Option.Rel Decimal.SameValue) (p.intervals.map Interval.upper)
        (q.intervals.map Interval.upper) := by
  obtain ⟨hlower, hupper⟩ := isInfinity_words
  have hquote : ∀ names : List String, '"' ∉ names.map fun _ => 'C' := by simp
  have hletters : (p.unknowns.map fun _ => 'C') = (q.unknowns.map fun _ => 'C') ↔
      p.unknowns.length = q.unknowns.length := by
    rw [List.map_const', List.map_const', List.replicate_left_inj]
  have hbracket : ∀ values, ']' ∉ (commaList values).toList :=
    not_mem_commaList rfl (by decide)
  rw [← String.toList_inj, script, script, String.toList_join, String.toList_join]
  simp only [List.flatMap_cons, List.flatMap_nil, List.append_cancel_left_eq, toList_column,
    String.toList_ofList]
  rw [append_closing_inj rfl (not_mem_senseText _) (not_mem_senseText _),
    List.append_cancel_left_eq, append_closing_inj rfl (hbracket _) (hbracket _)]
  simp only [List.append_cancel_left_eq]
  rw [append_closing_inj rfl (hquote _) (hquote _), List.append_cancel_left_eq,
    append_closing_inj rfl (not_mem_columnChars hlower _) (not_mem_columnChars hlower _),
    List.append_cancel_left_eq,
    append_closing_inj rfl (not_mem_columnChars hupper _) (not_mem_columnChars hupper _),
    String.toList_inj, senseText_eq_iff, String.toList_inj, commaList_eq_iff, hletters,
    columnChars_eq_iff hlower, columnChars_eq_iff hupper, eq_self, and_true]

/-! ### The files -/

/-- Texts that are written one a line are the same if they have the same lines. -/
theorem join_lines_eq_iff {texts texts' : List String} (h : ∀ text ∈ texts, Unbroken text)
    (h' : ∀ text ∈ texts', Unbroken text) :
    String.join (texts.map (· ++ "\n")) = String.join (texts'.map (· ++ "\n")) ↔ texts = texts' := by
  refine ⟨fun heq => ?_, fun heq => heq ▸ rfl⟩
  rw [← lines_join h, heq, lines_join h']

theorem unbroken_commaList (values : List Decimal) : Unbroken (commaList values) := by
  intro c hc
  constructor
  · rintro rfl
    exact not_mem_commaList rfl (by decide) values hc
  · rintro rfl
    exact not_mem_commaList rfl (by decide) values hc

theorem unbroken_shortText (a : Decimal) : Unbroken a.shortText := by
  intro c hc
  have hplain := isPlain_of_mem_text hc
  exact ⟨ne_of_isPlain hplain rfl, ne_of_isPlain hplain rfl⟩

theorem matrixText_eq_iff {p q : LinearProgram} : matrixText p = matrixText q ↔
    List.Forall₂ (fun row row' => List.Forall₂ Decimal.SameValue row.coefficients row'.coefficients)
      p.rows q.rows := by
  have htext : ∀ p : LinearProgram, matrixText p =
      String.join ((p.rows.map fun row => commaList row.coefficients).map (· ++ "\n")) := by
    intro p
    rw [matrixText, List.map_map]
    rfl
  have hlines : ∀ p : LinearProgram,
      ∀ text ∈ p.rows.map fun row => commaList row.coefficients, Unbroken text := by
    intro p
    rw [List.forall_mem_map]
    exact fun row _ => unbroken_commaList row.coefficients
  rw [htext, htext, join_lines_eq_iff (hlines p) (hlines q), map_eq_map_iff_forall₂]
  simp only [commaList_eq_iff]

theorem vectorText_eq_iff {p q : LinearProgram} : vectorText p = vectorText q ↔
    List.Forall₂ (fun row row' => row.bound.SameValue row'.bound) p.rows q.rows := by
  have htext : ∀ p : LinearProgram, vectorText p =
      String.join ((p.rows.map fun row => row.bound.shortText).map (· ++ "\n")) := by
    intro p
    rw [vectorText, List.map_map]
    rfl
  have hlines : ∀ p : LinearProgram,
      ∀ text ∈ p.rows.map fun row => row.bound.shortText, Unbroken text := by
    intro p
    rw [List.forall_mem_map]
    exact fun row _ => unbroken_shortText row.bound
  rw [htext, htext, join_lines_eq_iff (hlines p) (hlines q), map_eq_map_iff_forall₂]
  simp only [shortText_eq_iff]

theorem rowTypes_eq_iff {p q : LinearProgram} : rowTypes p = rowTypes q ↔
    List.Forall₂ (fun row row' => row.sense = row'.sense) p.rows q.rows := by
  rw [rowTypes, rowTypes, ← String.toList_inj, String.toList_ofList, String.toList_ofList,
    map_eq_map_iff_forall₂]
  constructor
  · refine fun h => h.imp fun row row' hletter => ?_
    revert hletter
    cases row.sense <;> cases row'.sense <;> decide
  · exact fun h => h.imp fun row row' hsense => by rw [hsense]

/-- Intervals with the same finite ends. -/
structure SameInterval (i i' : Interval) : Prop where
  lower : Option.Rel Decimal.SameValue i.lower i'.lower
  upper : Option.Rel Decimal.SameValue i.upper i'.upper

/-- Rows of one sense with the same numbers. -/
structure SameRow (row row' : Row) : Prop where
  coefficients : List.Forall₂ Decimal.SameValue row.coefficients row'.coefficients
  sense : row.sense = row'.sense
  bound : row.bound.SameValue row'.bound

/-- Programs of one shape with the same numbers, whatever the names of their unknowns are. -/
structure SameProgram (p q : LinearProgram) : Prop where
  unknowns : p.unknowns.length = q.unknowns.length
  intervals : List.Forall₂ SameInterval p.intervals q.intervals
  direction : p.direction = q.direction
  objective : List.Forall₂ Decimal.SameValue p.objective q.objective
  rows : List.Forall₂ SameRow p.rows q.rows

/-- The files for two programs in one directory are the same exactly if the programs are. -/
theorem files_eq_iff {directory : String} {p q : LinearProgram} :
    files directory p = files directory q ↔ SameProgram p q := by
  have hfiles : files directory p = files directory q ↔ matrixText p = matrixText q ∧
      vectorText p = vectorText q ∧ rowTypes p = rowTypes q ∧
        script directory p = script directory q := by
    simp [files]
  rw [hfiles, matrixText_eq_iff, vectorText_eq_iff, rowTypes_eq_iff, script_eq_iff,
    List.forall₂_map_left_iff, List.forall₂_map_right_iff, List.forall₂_map_left_iff,
    List.forall₂_map_right_iff]
  constructor
  · rintro ⟨hcoefficients, hbounds, hsenses, hdirection, hobjective, hunknowns, hlower, hupper⟩
    refine ⟨hunknowns, ?_, hdirection, hobjective, ?_⟩
    · exact (forall₂_and.2 ⟨hlower, hupper⟩).imp fun _ _ h => ⟨h.1, h.2⟩
    · refine (forall₂_and.2 ⟨hcoefficients, forall₂_and.2 ⟨hsenses, hbounds⟩⟩).imp ?_
      exact fun _ _ h => ⟨h.1, h.2.1, h.2.2⟩
  · rintro ⟨hunknowns, hintervals, hdirection, hobjective, hrows⟩
    exact ⟨hrows.imp fun _ _ h => h.coefficients, hrows.imp fun _ _ h => h.bound,
      hrows.imp fun _ _ h => h.sense, hdirection, hobjective, hunknowns,
      hintervals.imp fun _ _ h => h.lower, hintervals.imp fun _ _ h => h.upper⟩

/-! ### Numbers that come back -/

/-- The same number with the same digits; only the sign of a zero may differ. -/
structure SameDigits (b a : Decimal) : Prop where
  value : b.SameValue a
  mantissa : b.mantissa = a.mantissa
  scale : b.scale = a.scale

theorem exists_parse_text (a : Decimal) : ∃ b, Decimal.parse? a.text = some b ∧ SameDigits b a := by
  let b : Decimal := { a with negative := a.negative && a.mantissa != 0 }
  have hunits : Decimal.ofUnits? a.negative a.mantissa a.scale = some b := by
    rw [Decimal.ofUnits?, Decimal.ofParts?, dif_pos a.mantissa_lt, dif_pos a.scale_le]
  refine ⟨b, (ofPlain?_text_eq a).trans hunits, ?_, rfl, rfl⟩
  rw [sameValue_iff_toRat_eq]
  by_cases hzero : a.mantissa = 0
  · rw [(toRat_eq_zero_iff a).2 hzero, (toRat_eq_zero_iff b).2 hzero]
  · have hsign : (a.negative && a.mantissa != 0) = a.negative := by simp [hzero]
    exact congrArg Decimal.toRat (congrArg (fun negative => { a with negative }) hsign)

/-- Numbers with commas between them. -/
def joinedTexts (xs : List Decimal) : String := ",".intercalate (xs.map Decimal.text)

theorem toList_joinedTexts (xs : List Decimal) :
    (joinedTexts xs).toList = [','].intercalate (xs.map fun a => a.text.toList) := by
  rw [joinedTexts, String.toList_intercalate, List.map_map]
  rfl

theorem trim_joinedTexts (xs : List Decimal) : trim (joinedTexts xs) = joinedTexts xs := by
  apply trim_eq_self
  intro c hc
  rw [toList_joinedTexts] at hc
  obtain rfl | ⟨part, hpart, hc⟩ := mem_intercalate_cases hc
  · rfl
  · obtain ⟨a, -, rfl⟩ := List.mem_map.1 hpart
    exact isBlank_of_isPlain (isPlain_of_mem_text hc)

theorem pieces_joinedTexts {xs : List Decimal} (h : xs ≠ []) :
    pieces ',' (joinedTexts xs) = xs.map Decimal.text := by
  have hparts : ∀ part ∈ xs.map fun a => a.text.toList, ',' ∉ part := by
    rw [List.forall_mem_map]
    exact fun a _ hmem => ne_of_isPlain (isPlain_of_mem_text hmem) rfl rfl
  rw [pieces_eq, toList_joinedTexts, List.splitOn_intercalate ',' hparts (mt List.map_eq_nil_iff.1 h),
    List.map_map]
  exact List.map_congr_left fun a _ => String.ofList_toList

theorem exists_readValues_joinedTexts {xs : List Decimal} (h : xs ≠ []) :
    ∃ ys, readValues (joinedTexts xs) = .ok ys ∧ List.Forall₂ SameDigits ys xs := by
  choose back hback hsame using exists_parse_text
  refine ⟨xs.map back, ?_, ?_⟩
  · rw [readValues, pieces_joinedTexts h, mapM_eq_ok, List.forall₂_map_left_iff,
      List.forall₂_map_right_iff, List.forall₂_same]
    intro a _
    have hread : readValue? (trim a.text) = some (back a) := by
      rw [trim_eq_self fun c hc => isBlank_of_isPlain (isPlain_of_mem_text hc), readValue?, hback]
      rfl
    rw [hread]
  · rw [List.forall₂_map_left_iff, List.forall₂_same]
    exact fun a _ => hsame a

/-! ### Lines with tags -/

theorem findSome?_eq_some_of_unique {α β : Type} {f : α → Option β} {xs : List α} {x : α} {y : β}
    (hx : x ∈ xs) (hy : f x = some y) (hunique : ∀ x' ∈ xs, ∀ y', f x' = some y' → y' = y) :
    xs.findSome? f = some y := by
  cases hfound : xs.findSome? f with
  | none =>
    rw [List.findSome?_eq_none_iff.1 hfound x hx] at hy
    cases hy
  | some y' =>
    obtain ⟨x', hx', hy'⟩ := List.exists_of_findSome?_eq_some hfound
    rw [hunique x' hx' y' hy']

/-- The rest of the only line with a tag. -/
theorem tagged?_eq_some {output tag rest : String} (hmem : tag ++ ":" ++ rest ∈ lines output)
    (hunique : ∀ line ∈ lines output, IsTagged tag line → line = tag ++ ":" ++ rest) :
    tagged? output tag = some (trim rest) := by
  have hstrip : ∀ {line rest' : String}, stripFront? (tag ++ ":") line = some rest' ↔
      line = tag ++ ":" ++ rest' := stripFront?_eq_some_iff
  refine findSome?_eq_some_of_unique hmem (by rw [hstrip.2 rfl]; rfl) ?_
  intro line hline value hvalue
  obtain ⟨rest', hrest', rfl⟩ := Option.map_eq_some_iff.1 hvalue
  have hsame := hunique line hline (isTagged_iff.2 ⟨rest', hstrip.1 hrest'⟩)
  rw [hsame, hstrip.2 rfl, Option.some_inj] at hrest'
  rw [hrest']

/-- A line with a tag that has no colon has no other such tag. -/
theorem eq_of_isTagged {tag tag' rest : String} (htag : ':' ∉ tag.toList) (htag' : ':' ∉ tag'.toList)
    (h : IsTagged tag (tag' ++ ":" ++ rest)) : tag = tag' := by
  obtain ⟨rest', hrest'⟩ := isTagged_iff.1 h
  rw [← String.toList_inj, String.append_assoc, String.append_assoc, String.toList_append,
    String.toList_append, String.toList_append, String.toList_append,
    append_closing_inj rfl htag' htag, String.toList_inj] at hrest'
  exact hrest'.1.symm

/-- The tags of a solution with what follows them: no error, a status, and the values of the
unknowns. -/
def replyFields (status : String) (xs : List Decimal) : List (String × String) :=
  [("errnum", "0"), ("extra.status", status), ("opt_var", joinedTexts xs)]

def replyTags : List String := ["errnum", "extra.status", "opt_var"]

/-- The line has one of the tags. -/
def IsReplyLine (line : String) : Prop := ∃ tag ∈ replyTags, IsTagged tag line

instance : DecidablePred IsReplyLine :=
  fun line => inferInstanceAs (Decidable (∃ tag ∈ replyTags, IsTagged tag line))

/-- The lines of a solution stand in the output in some order, among lines without their tags. -/
def IsReply (status : String) (xs : List Decimal) (output : String) : Prop :=
  ((lines output).filter IsReplyLine).Perm
    ((replyFields status xs).map fun field => field.1 ++ ":" ++ field.2)

section

variable {status output : String} {xs : List Decimal}

theorem nodup_replyFields : ((replyFields status xs).map Prod.fst).Nodup := by
  change replyTags.Nodup
  decide

/-- The first line with a tag of the reply is the line of the reply. -/
theorem IsReply.tagged? (h : IsReply status xs output) {field : String × String}
    (hfield : field ∈ replyFields status xs) :
    Octave.tagged? output field.1 = some (trim field.2) := by
  have htags : ∀ field ∈ replyFields status xs, field.1 ∈ replyTags ∧ ':' ∉ field.1.toList := by
    have hall : ∀ tag ∈ replyTags, ':' ∉ tag.toList := by decide
    intro field hfield
    have htag : field.1 ∈ replyTags := List.mem_map_of_mem (f := Prod.fst) hfield
    exact ⟨htag, hall _ htag⟩
  have hiff : ∀ line, line ∈ lines output ∧ IsReplyLine line ↔
      ∃ field ∈ replyFields status xs, field.1 ++ ":" ++ field.2 = line := by
    intro line
    rw [← List.mem_map, ← h.mem_iff, List.mem_filter, decide_eq_true_eq]
  obtain ⟨htag, hcolon⟩ := htags field hfield
  refine tagged?_eq_some ((hiff _).2 ⟨field, hfield, rfl⟩).1 fun line hline htagged => ?_
  obtain ⟨other, hother, rfl⟩ := (hiff line).1 ⟨hline, field.1, htag, htagged⟩
  have hsame := eq_of_isTagged hcolon (htags other hother).2 htagged
  rw [List.inj_on_of_nodup_map nodup_replyFields hfield hother hsame]

/-- The values of the unknowns are found in a reply. -/
theorem IsReply.exists_readOutput (h : IsReply status xs output)
    (hstatus : status ∈ acceptedStatuses) (hxs : xs ≠ []) :
    ∃ ys, readOutput output xs.length = .ok (some ys) ∧ List.Forall₂ SameDigits ys xs := by
  obtain ⟨ys, hys, hsame⟩ := exists_readValues_joinedTexts hxs
  have htrim : ∀ s ∈ "0" :: acceptedStatuses, trim s = s := by decide
  have herrnum : Octave.tagged? output "errnum" = some "0" := by
    rw [h.tagged? (.head _), htrim _ (.head _)]
  have hstatusLine : Octave.tagged? output "extra.status" = some status := by
    rw [h.tagged? (.tail _ (.head _)), htrim _ (.tail _ hstatus)]
  have hvalues : Octave.tagged? output "opt_var" = some (joinedTexts xs) := by
    rw [h.tagged? (.tail _ (.tail _ (.head _))), trim_joinedTexts]
  refine ⟨ys, ?_, hsame⟩
  have hcontains : acceptedStatuses.contains status = true := List.contains_iff_mem.2 hstatus
  rw [readOutput, herrnum, hstatusLine]
  dsimp only
  rw [if_neg (not_not.2 rfl), hcontains, if_neg (by decide), hvalues]
  dsimp only
  rw [hys]
  exact if_pos hsame.length_eq

end

/-- The files for Octave say all of a program but the names of its unknowns and the trailing zeros of
its numbers, and the values in a reply are those that were printed. -/
theorem octave_exchange_is_lossless :
    (∀ (directory : String) (p q : LinearProgram),
      files directory p = files directory q ↔ SameProgram p q) ∧
    ∀ (status : String) (xs : List Decimal) (output : String), status ∈ acceptedStatuses → xs ≠ [] →
      IsReply status xs output →
        ∃ ys, readOutput output xs.length = .ok (some ys) ∧ List.Forall₂ SameDigits ys xs :=
  ⟨fun _ _ _ => files_eq_iff, fun _ _ _ hstatus hxs h => h.exists_readOutput hstatus hxs⟩

/-- A negative half with a zero at its end and the smallest positive number. -/
def halfAndUnit : List Decimal := [-unsigned 50 2, Decimal.unit 28]

/-- The lines of a solution in reverse order, the last one without its end, between remarks that have
a tag further in. -/
def remarkedOutput : String :=
  "remark: errnum:7\nopt_var:-0.50,0.0000000000000000000000000001\r\n opt_var:1\n" ++
    "extra.status:5\n\nerrnum:0"

theorem remarkedOutput_is_read : "5" ∈ acceptedStatuses ∧ halfAndUnit ≠ [] ∧
    IsReply "5" halfAndUnit remarkedOutput ∧
      ∃ ys, readOutput remarkedOutput 2 = .ok (some ys) ∧
        List.Forall₂ SameDigits ys halfAndUnit := by
  have hstatus : "5" ∈ acceptedStatuses := by decide
  have hxs : halfAndUnit ≠ [] := List.cons_ne_nil _ _
  have hreply : IsReply "5" halfAndUnit remarkedOutput := by
    unfold IsReply
    decide +kernel
  have hlength : halfAndUnit.length = 2 := rfl
  have hread := octave_exchange_is_lossless.2 "5" _ _ hstatus hxs hreply
  rw [hlength] at hread
  exact ⟨hstatus, hxs, hreply, hread⟩

end MarkovFit.Proofs
