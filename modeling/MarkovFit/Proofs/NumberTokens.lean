import MarkovFit.Proofs.ExpressionGrammar
import MarkovFit.Proofs.SignedNumbers
import MarkovFit.Proofs.TokenBoundaries

/-!
# Numbers as tokens

Number readers take more than expressions do: underscores between digits, and a plus sign behind the
minus sign of an exponent. In an expression such a text falls apart into words that follow one
another, which no phrase allows. What both accept is a sign at most and one token with the number,
so that the text has one value.
-/

namespace MarkovFit.Proofs

open MarkovFit.Expr Decimal Text

variable {cs ds : List Char} {c : Char} {v w : Decimal} {r : Reading} {ts us : List Token}
  {t : Token}

/-! ### The characters of a number -/

/-- In a number a sign stands only behind the mark of the exponent or the sign of the exponent. -/
def SignFollows (x y : Char) : Prop := y ∈ ['+', '-'] → x ∈ ['e', 'E', '-']

instance : DecidableRel SignFollows := fun x y =>
  inferInstanceAs (Decidable (y ∈ ['+', '-'] → x ∈ ['e', 'E', '-']))

/-- What a number without a sign in front looks like. -/
structure NumberText (cs : List Char) : Prop where
  head : ∃ c rest, cs = c :: rest ∧ (isDigit c = true ∨ c = '.')
  chars : ∀ c ∈ cs, (isIdentRest c = true ∨ c = '.') ∨ c ∈ ['+', '-']
  signs : cs.IsChain SignFollows

/-- The characters of plain numbers. -/
def isMantissaChar (c : Char) : Bool := isDigit c || ['.', '_'].contains c

theorem isMantissaChar_of_isDigit (h : isDigit c = true) : isMantissaChar c = true := by
  rw [isMantissaChar, h, Bool.true_or]

theorem isMantissaChar_of_readPlain {negative : Bool} (h : readPlain negative r cs = some v) :
    ∀ c ∈ cs, isMantissaChar c = true := by
  fun_induction readPlain negative r cs with
  | case1 r hseen => exact fun c hc => absurd hc List.not_mem_nil
  | case4 r c rest hc m hfull hpoint hrest =>
    rw [List.forall_mem_cons]
    refine ⟨isMantissaChar_of_isDigit hc, fun d hd => ?_⟩
    have hdigits := List.all_eq_true.1 hrest d hd
    simp only [isMantissaChar, Bool.or_eq_true, beq_iff_eq] at hdigits ⊢
    exact hdigits.imp_right fun h => by simp [h]
  | case6 r c rest hc m hroom ih =>
    exact List.forall_mem_cons.2 ⟨isMantissaChar_of_isDigit hc, ih h⟩
  | case8 r rest hpoint hdot ih => exact List.forall_mem_cons.2 ⟨rfl, ih h⟩
  | case9 r rest hseen hdigit hdot ih => exact List.forall_mem_cons.2 ⟨rfl, ih h⟩
  | case2 | case3 | case5 | case7 | case10 | case11 => cases h

theorem head_of_readPlain (h : readPlain false {} cs = some v) :
    ∃ c rest, cs = c :: rest ∧ (isDigit c = true ∨ c = '.') := by
  cases cs with
  | nil => cases h
  | cons c rest =>
    refine ⟨c, rest, rfl, ?_⟩
    by_contra hne
    obtain ⟨hdigit, hpoint⟩ := not_or.1 hne
    rw [readPlain, if_neg hdigit, if_neg hpoint] at h
    split at h
    · cases h
    · cases h

theorem isMantissaChar_cases (h : isMantissaChar c = true) :
    (isIdentRest c = true ∨ c = '.') ∧ c ∉ ['+', '-'] := by
  simp only [isMantissaChar, Bool.or_eq_true] at h
  rcases h with hdigit | hother
  · refine ⟨.inl (isIdentRest_of_isDigit hdigit), fun hsign => ?_⟩
    have hno : ∀ sign ∈ ['+', '-'], isDigit sign = false :=
      List.all_iff_forall_prop.1 (by decide)
    rw [hno c hsign] at hdigit
    cases hdigit
  · have hno : ∀ d ∈ ['.', '_'], (isIdentRest d = true ∨ d = '.') ∧ d ∉ ['+', '-'] :=
      List.all_iff_forall_prop.1 (by decide)
    exact hno c (by simpa using hother)

theorem isChain_signFollows (h : ∀ c ∈ cs, c ∉ ['+', '-']) : cs.IsChain SignFollows :=
  (List.pairwise_of_forall_mem_list fun _ _ y hy hsign => absurd hsign (h y hy)).isChain

theorem isDigit_not_sign (h : isDigit c = true) : c ∉ ['+', '-'] :=
  (isMantissaChar_cases (isMantissaChar_of_isDigit h)).2

theorem digits_of_readNat? {bound n : ℕ} (h : readNat? bound cs = some n) :
    ∃ digits, (cs = digits ∨ cs = '+' :: digits) ∧ ∀ c ∈ digits, isDigit c = true := by
  have hdigits : ∀ {digits : List Char}, (if digits.isEmpty || !digits.all isDigit then none
      else if digitsValue 0 digits < bound then some (digitsValue 0 digits) else none) = some n →
        ∀ c ∈ digits, isDigit c = true := by
    intro digits h
    split at h
    · cases h
    · rename_i hall
      rw [Bool.or_eq_true, not_or, Bool.not_eq_true, Bool.not_eq_true, Bool.not_eq_false'] at hall
      exact List.all_eq_true.1 hall.2
  unfold readNat? at h
  split at h
  · exact ⟨_, .inr rfl, hdigits h⟩
  · exact ⟨cs, .inl rfl, hdigits h⟩

/-- An exponent is a list of digits behind a minus sign, a plus sign, both or none. -/
theorem exponent_of_shifted? {exponent : List Char} (h : shifted? w exponent = some v) :
    ∃ signs ∈ [[], ['+'], ['-'], ['-', '+']], ∃ digits, exponent = signs ++ digits ∧
      ∀ c ∈ digits, isDigit c = true := by
  unfold shifted? at h
  split at h
  · obtain ⟨e, he, -⟩ := Option.bind_eq_some_iff.1 h
    obtain ⟨digits, rfl | rfl, hdigits⟩ := digits_of_readNat? he
    · exact ⟨['-'], by decide, _, rfl, hdigits⟩
    · exact ⟨['-', '+'], by decide, _, rfl, hdigits⟩
  · obtain ⟨e, he, -⟩ := Option.bind_eq_some_iff.1 h
    obtain ⟨digits, rfl | rfl, hdigits⟩ := digits_of_readNat? he
    · exact ⟨[], by decide, _, rfl, hdigits⟩
    · exact ⟨['+'], by decide, _, rfl, hdigits⟩

theorem numberText_of_ofPlain? (hcs : Unsigned cs) (h : ofPlain? cs = some v) :
    NumberText cs ∧ ∀ c ∈ cs, c ∉ ['+', '-'] := by
  rw [ofPlain?_of_unsigned hcs] at h
  have hchars := isMantissaChar_of_readPlain h
  have hsigns : ∀ c ∈ cs, c ∉ ['+', '-'] := fun c hc => (isMantissaChar_cases (hchars c hc)).2
  refine ⟨⟨head_of_readPlain h, fun c hc => .inl ?_, isChain_signFollows hsigns⟩, hsigns⟩
  exact (isMantissaChar_cases (hchars c hc)).1

theorem NumberText.append (h : NumberText cs) (hchars : ∀ c ∈ ds,
    (isIdentRest c = true ∨ c = '.') ∨ c ∈ ['+', '-']) (hsigns : ds.IsChain SignFollows)
    (hhead : ∀ c ∈ ds.head?, c ∉ ['+', '-']) : NumberText (cs ++ ds) where
  head := by
    obtain ⟨c, rest, rfl, hc⟩ := h.head
    exact ⟨c, rest ++ ds, rfl, hc⟩
  chars := by
    intro c hc
    exact (List.mem_append.1 hc).elim (h.chars c) (hchars c)
  signs := by
    refine List.isChain_append.2 ⟨h.signs, hsigns, fun x _ y hy hsign => ?_⟩
    exact absurd hsign (hhead y hy)

theorem exists_eq_of_cutAt? {p : Char → Bool} {before after : List Char}
    (h : cutAt? p cs = some (before, after)) : ∃ c, p c = true ∧ cs = before ++ c :: after := by
  induction cs generalizing before with
  | nil => cases h
  | cons d cs ih =>
    rw [cutAt?] at h
    split at h
    · rename_i hd
      cases h
      exact ⟨d, hd, rfl⟩
    · obtain ⟨⟨front, rest⟩, hfront, heq⟩ := Option.map_eq_some_iff.1 h
      cases heq
      obtain ⟨c, hc, rfl⟩ := ih hfront
      exact ⟨c, hc, rfl⟩

theorem numberText_of_readNumber? (hcs : Unsigned cs) (h : readNumber? cs = some v) :
    NumberText cs := by
  rw [readNumber?_eq] at h
  split at h
  · obtain ⟨⟨base, exponent⟩, hcut, hread⟩ := Option.bind_eq_some_iff.1 h
    obtain ⟨a, ha, hshifted⟩ := Option.bind_eq_some_iff.1 hread
    obtain ⟨mark, hmark, rfl⟩ := exists_eq_of_cutAt? hcut
    obtain ⟨signs, hsigns, digits, rfl, hdigits⟩ := exponent_of_shifted? hshifted
    have hbase : Unsigned base := by
      intro c hc
      exact hcs c (by rw [List.head?_append, Option.mem_def.1 hc]; rfl)
    have hmark : mark ∈ ['e', 'E'] := by simpa [isExponentMark] using hmark
    have hmarks : ∀ mark ∈ ['e', 'E'], isIdentRest mark = true ∧ mark ∉ ['+', '-'] :=
      List.all_iff_forall_prop.1 (by decide)
    have hfronts : ∀ mark ∈ ['e', 'E'], ∀ signs ∈ [[], ['+'], ['-'], ['-', '+']],
        (mark :: signs).IsChain SignFollows ∧ signs ⊆ ['+', '-'] :=
      List.all_iff_forall_prop.1 (by decide)
    obtain ⟨hchain, hsigns⟩ := hfronts mark hmark signs hsigns
    refine (numberText_of_ofPlain? hbase ha).1.append ?_ ?_ ?_
    · intro c hc
      rw [List.mem_cons, List.mem_append] at hc
      rcases hc with rfl | hc | hc
      · exact .inl (.inl (hmarks c hmark).1)
      · exact .inr (hsigns hc)
      · exact .inl (.inl (isIdentRest_of_isDigit (hdigits c hc)))
    · rw [← List.cons_append]
      refine List.isChain_append.2 ⟨hchain, isChain_signFollows ?_, ?_⟩
      · exact fun c hc => isDigit_not_sign (hdigits c hc)
      · intro x _ y hy hsign
        exact absurd hsign (isDigit_not_sign (hdigits y (List.mem_of_mem_head? hy)))
    · rintro c ⟨⟩
      exact (hmarks mark hmark).2
  · exact (numberText_of_ofPlain? hcs h).1

/-! ### The token of a number -/

theorem isDigit_of_getLast?_cutExponent (hc : c ∈ (cutExponent cs).1.getLast?) :
    isDigit c = true := by
  cases cs with
  | nil => cases hc
  | cons e rest =>
    rw [cutExponent] at hc
    split at hc
    · dsimp only at hc
      split at hc
      · cases hc
      · rename_i hne
        rw [List.getLast?_append_of_ne_nil _ (by simpa using hne)] at hc
        exact List.mem_takeWhile_imp (List.mem_of_mem_getLast? hc)
    · cases hc

theorem getLast?_cutMantissa (hc : c ∈ (cutMantissa cs).1.getLast?) :
    isDigit c = true ∨ c = '.' := by
  have hmem := List.mem_of_mem_getLast? hc
  rw [cutMantissa] at hmem
  split at hmem
  · split at hmem
    · cases hmem
    · rw [List.mem_append, List.mem_cons] at hmem
      rcases hmem with hmem | rfl | hmem
      · exact .inl (List.mem_takeWhile_imp hmem)
      · exact .inr rfl
      · exact .inl (List.mem_takeWhile_imp hmem)
  · exact .inl (List.mem_takeWhile_imp hmem)

/-- A number that is cut off a text ends with a digit or its point. -/
theorem getLast?_of_cutNumber? {lexeme more : List Char} (h : cutNumber? cs = some (lexeme, more)) :
    ∃ c ∈ lexeme.getLast?, isDigit c = true ∨ c = '.' := by
  rw [cutNumber?_eq] at h
  split at h
  · cases h
  · rename_i hne
    cases h
    have happend : (cutMantissa cs).1 ++ (cutExponent (cutMantissa cs).2).1 ≠ [] :=
      List.append_ne_nil_of_left_ne_nil (by simpa using hne) _
    refine ⟨_, List.getLast?_eq_some_getLast happend, ?_⟩
    have hlast := List.getLast?_eq_some_getLast happend
    rw [List.getLast?_append, Option.or_eq_some_iff] at hlast
    rcases hlast with hexponent | ⟨-, hmantissa⟩
    · exact .inl (isDigit_of_getLast?_cutExponent hexponent)
    · exact getLast?_cutMantissa hmantissa

/-- Names and numbers; two of them would be one word without something between them. -/
def isWord : Token → Bool
  | .number _ | .ident _ => true
  | _ => false

/-- No two words follow one another. -/
def Apart (t u : Token) : Prop := ¬(isWord t = true ∧ isWord u = true)

theorem isWord_of_firstToken {n : ℕ} (hc : symbol? c = none) (h : firstToken c cs = .ok (t, n)) :
    isWord t = true := by
  rw [firstToken, hc] at h
  dsimp only at h
  split at h
  · cases h
    rfl
  · split at h
    · cases h
    · split at h
      · cases h
        rfl
      · cases h

/-- A text that looks like a number begins with a number. -/
theorem scans_numberText (h : NumberText cs) (hscan : Scans cs ts) :
    ∃ lexeme more w us, cutNumber? cs = some (lexeme, more) ∧
      Decimal.read (String.ofList lexeme) = .ok w ∧ ts = .number w :: us ∧ Scans more us := by
  obtain ⟨c, rest, rfl, hc⟩ := h.head
  have hstart : isGap c = false ∧ symbol? c = none ∧ isIdentStart c = false := by
    rcases hc with hdigit | rfl
    · have hrest := isIdentRest_of_isDigit hdigit
      exact ⟨isGap_of_isIdentRest hrest, symbol?_of_isIdentRest hrest,
        Bool.eq_false_of_not_eq_true (not_isIdentStart_of_isDigit hdigit)⟩
    · decide
  obtain ⟨hgap, hsymbol, hident⟩ := hstart
  obtain ⟨t, n, us, hfirst, rfl, hscan⟩ := (scans_token_iff hgap).1 hscan
  rw [firstToken, hsymbol] at hfirst
  dsimp only at hfirst
  rw [if_neg (by simp [hident])] at hfirst
  split at hfirst
  · cases hfirst
  · rename_i lexeme more hcut
    split at hfirst
    · rename_i w hread
      cases hfirst
      refine ⟨lexeme, more, w, us, hcut, hread, rfl, ?_⟩
      obtain ⟨last, hlast, -⟩ := getLast?_of_cutNumber? hcut
      have hpos : 1 ≤ lexeme.length := List.length_pos_of_mem (List.mem_of_mem_getLast? hlast)
      have hlength : Nat.max 1 lexeme.length = lexeme.length := Nat.max_eq_right hpos
      rw [hlength, eq_of_cutNumber? hcut, List.drop_left] at hscan
      exact hscan
    · cases hfirst

/-- A word follows on a number that does not end where its text ends. -/
theorem exists_word_of_scans {lexeme : List Char} (h : NumberText (lexeme ++ c :: cs))
    (hlast : ∃ x ∈ lexeme.getLast?, isDigit x = true ∨ x = '.') (hscan : Scans (c :: cs) ts) :
    ∃ t us, ts = t :: us ∧ isWord t = true := by
  -- Signs follow the mark of an exponent, which is not what the first number ends with.
  have hsign : c ∉ ['+', '-'] := by
    obtain ⟨x, hx, hend⟩ := hlast
    intro hc
    have hfollows := (List.isChain_append.1 h.signs).2.2 x hx c rfl hc
    have hmarks : ∀ x ∈ ['e', 'E', '-'], ¬(isDigit x = true ∨ x = '.') :=
      List.all_iff_forall_prop.1 (by decide)
    exact hmarks x hfollows hend
  have hword : isGap c = false ∧ symbol? c = none := by
    rcases (h.chars c (by simp)).resolve_right hsign with hrest | rfl
    · exact ⟨isGap_of_isIdentRest hrest, symbol?_of_isIdentRest hrest⟩
    · decide
  obtain ⟨t, n, us, hfirst, rfl, -⟩ := (scans_token_iff hword.1).1 hscan
  exact ⟨t, us, rfl, isWord_of_firstToken hword.2 hfirst⟩

/-- Where no two words follow one another, a number that is read is the only token of its text. -/
theorem eq_number_of_scans (hcs : Unsigned cs) (h : readNumber? cs = some v) (hscan : Scans cs ts)
    (hapart : ts.IsChain Apart) : ts = [.number v] := by
  have htext := numberText_of_readNumber? hcs h
  obtain ⟨lexeme, more, w, us, hcut, hread, rfl, hmore⟩ := scans_numberText htext hscan
  have hcs := eq_of_cutNumber? hcut
  cases more with
  | nil =>
    rw [List.append_nil] at hcs
    subst hcs
    obtain rfl := scans_nil.1 hmore
    have hlexeme := (isLexeme_of_cutNumber? hcut).1
    have hslash : '/' ∉ cs := fun hmem => absurd (hlexeme _ hmem) (by decide)
    rw [Decimal.read, mapError_eq_ok, String.toList_ofList,
      trimChars_eq_self fun c hc => isBlank_of_isNumberChar (hlexeme c hc),
      readTrimmed_eq_ok_iff hslash, h] at hread
    cases hread
    rfl
  | cons c more =>
    subst hcs
    obtain ⟨t, us, rfl, hword⟩ := exists_word_of_scans htext (getLast?_of_cutNumber? hcut) hmore
    exact absurd ⟨rfl, hword⟩ (List.isChain_cons_cons.1 hapart).1

/-! ### Numbers in phrases -/

theorem isChain_apart_symbol (ht : isWord t = false) (hts : ts.IsChain Apart)
    (hus : us.IsChain Apart) : (ts ++ t :: us).IsChain Apart := by
  refine List.isChain_append.2 ⟨hts, List.isChain_cons.2 ⟨fun u _ hwords => ?_, hus⟩, ?_⟩
  · rw [ht] at hwords
    cases hwords.1
  · rintro s _ _ ⟨⟩ hwords
    rw [ht] at hwords
    cases hwords.2

/-- In a phrase there is something between two words. -/
theorem isChain_apart_of_derives {phrase : Phrase} {e : Expr} (h : Derives phrase ts e) :
    ts.IsChain Apart := by
  have hnil : [].IsChain Apart := .nil
  have hparen : ∀ {ts : List Token}, ts.IsChain Apart →
      (Token.leftParen :: (ts ++ [.rightParen])).IsChain Apart := fun hts =>
    isChain_apart_symbol rfl hnil (isChain_apart_symbol rfl hts hnil)
  induction h with
  | number | ident => exact .singleton _
  | ceil _ ih | sqrt _ ih =>
    exact List.isChain_cons_cons.2 ⟨fun hwords => Bool.false_ne_true hwords.2, hparen ih⟩
  | paren _ ih => exact hparen ih
  | base _ ih | power _ ih | factor _ ih | summand _ ih => exact ih
  | minus _ ih | plus _ ih => exact isChain_apart_symbol rfl hnil ih
  | pow _ _ ihbase ihexponent => exact isChain_apart_symbol rfl ihbase ihexponent
  | @product _ _ t _ _ _ _ hop _ ihleft ihright =>
    refine isChain_apart_symbol ?_ ihleft ihright
    cases t <;> first | rfl | cases hop
  | @sum _ _ t _ _ _ _ hop _ ihleft ihright =>
    refine isChain_apart_symbol ?_ ihleft ihright
    cases t <;> first | rfl | cases hop

/-- The tree has the value, whatever the names stand for. -/
def EvaluatesTo (e : Expr) (v : Decimal) : Prop :=
  ∀ lookup, ∃ b, e.evaluate lookup = .ok b ∧ b.SameValue v

/-- A number that is read is a phrase of its value, with the sign that it has. -/
theorem exists_unary_of_scans (h : readNumber? cs = some v) (hscan : Scans cs ts)
    (hapart : ts.IsChain Apart) : ∃ e, Derives .unary ts e ∧ EvaluatesTo e v := by
  have hnumber : ∀ w, Derives .unary [.number w] (.number w) := fun w => .power (.base (.number w))
  by_cases hcs : Unsigned cs
  · obtain rfl := eq_number_of_scans hcs h hscan hapart
    exact ⟨_, hnumber v, fun lookup => ⟨v, rfl, sameValue_refl v⟩⟩
  · obtain ⟨sign, body, rfl, hsign⟩ : ∃ sign body, cs = sign :: body ∧ sign ∈ ['+', '-'] := by
      cases cs with
      | nil => exact absurd nofun hcs
      | cons c cs =>
        refine ⟨c, cs, rfl, by_contra fun hc => hcs ?_⟩
        rintro d ⟨⟩
        exact hc
    have hbody := unsigned_of_readNumber? hsign h
    rw [List.mem_pair] at hsign
    rcases hsign with rfl | rfl
    · obtain ⟨us, rfl, hus⟩ := (scans_symbol_iff (t := .plus) rfl).1 hscan
      obtain rfl := eq_number_of_scans hbody (readNumber?_plus h) hus hapart.tail
      exact ⟨_, .plus (hnumber v), fun lookup => ⟨v, rfl, sameValue_refl v⟩⟩
    · obtain ⟨us, rfl, hus⟩ := (scans_symbol_iff (t := .minus) rfl).1 hscan
      obtain ⟨w, hw, hopposite⟩ := opposes_readNumber body v h
      obtain rfl := eq_number_of_scans hbody hw hus hapart.tail
      refine ⟨_, .minus (hnumber w), fun lookup => ⟨-w, rfl, sameValue_of_toRat_eq ?_⟩⟩
      rw [toRat_neg, hopposite]

end MarkovFit.Proofs
