import MarkovFit.Decimal.Text
import MarkovFit.Proofs.DecimalScaling

/-!
# Decimals written and read back

The text of a decimal consists of digits with one point at most, behind at most one minus sign. It
is read back as the same decimal. The short text has the same value as the decimal it is written
for.
-/

namespace MarkovFit.Proofs

open Decimal Text

/-! ### Digits -/

theorem digitsValue_eq_ofDigitChars (start : Nat) (cs : List Char) :
    digitsValue start cs = Nat.ofDigitChars 10 cs start := by
  rw [Nat.ofDigitChars_eq_foldl]
  rfl

theorem digitsValue_append (start : Nat) (cs ds : List Char) :
    digitsValue start (cs ++ ds) = digitsValue (digitsValue start cs) ds :=
  List.foldl_append

theorem digitsValue_eq_add (start : Nat) (cs : List Char) :
    digitsValue start cs = 10 ^ cs.length * start + digitsValue 0 cs := by
  simp only [digitsValue_eq_ofDigitChars]
  exact Nat.ofDigitChars_eq_ofDigitChars_zero

theorem le_digitsValue (start : Nat) (cs : List Char) : start ≤ digitsValue start cs := by
  rw [digitsValue_eq_add]
  have hpow : 0 < 10 ^ cs.length := by positivity
  nlinarith

theorem isDigit_of_mem_toString {n : Nat} {c : Char} (h : c ∈ (toString n).toList) :
    isDigit c = true := by
  rw [Nat.toString_eq_ofList_toDigits, String.toList_ofList] at h
  exact Nat.isDigit_of_mem_toDigits (by decide) (by decide) h

theorem digitsValue_toString (n : Nat) : digitsValue 0 (toString n).toList = n := by
  rw [Nat.toString_eq_ofList_toDigits, String.toList_ofList, digitsValue_eq_ofDigitChars,
    Nat.ofDigitChars_ten_toDigits]

theorem toList_toString_ne_nil (n : Nat) : (toString n).toList ≠ [] := by
  rw [Nat.toString_eq_ofList_toDigits, String.toList_ofList]
  exact Nat.toDigits_ne_nil

theorem length_paddedDigits {width n : Nat} (hwidth : 0 < width) (h : n < 10 ^ width) :
    (paddedDigits width n).length = width := by
  have hlength : (toString n).toList.length ≤ width := by
    rw [Nat.toString_eq_ofList_toDigits, String.toList_ofList]
    exact (Nat.length_toDigits_le_iff (by decide) hwidth).2 h
  rw [paddedDigits, List.length_append, List.length_replicate]
  omega

theorem digitsValue_paddedDigits (width n : Nat) : digitsValue 0 (paddedDigits width n) = n := by
  have hzeros : ∀ k, digitsValue 0 (List.replicate k '0') = 0 := by
    intro k
    rw [digitsValue_eq_ofDigitChars, Nat.ofDigitChars_replicate_zero, Nat.mul_zero]
  rw [paddedDigits, digitsValue_append, hzeros, digitsValue_toString]

theorem isDigit_of_mem_paddedDigits {width n : Nat} {c : Char} (h : c ∈ paddedDigits width n) :
    isDigit c = true := by
  rcases List.mem_append.1 h with hzero | hdigit
  · rw [List.eq_of_mem_replicate hzero]
    rfl
  · exact isDigit_of_mem_toString hdigit

/-! ### Plain text -/

/-- Digits that fit are read at once. -/
theorem readPlain_digits {b : Bool} {cs : List Char} (hcs : ∀ c ∈ cs, isDigit c = true)
    (rest : List Char) (r : Reading) (hroom : digitsValue r.mantissa cs < mantissaBound)
    (hscale : r.seenPoint = true → r.scale + cs.length ≤ maxScale) :
    readPlain b r (cs ++ rest) = readPlain b
      { r with
        mantissa := digitsValue r.mantissa cs
        scale := if r.seenPoint then r.scale + cs.length else r.scale
        seenDigit := r.seenDigit || !cs.isEmpty } rest := by
  induction cs generalizing r with
  | nil => simp [digitsValue]
  | cons c cs ih =>
    have hc : isDigit c = true := hcs c List.mem_cons_self
    have hvalue : digitsValue r.mantissa (c :: cs) =
        digitsValue (r.mantissa * 10 + digitValue c) cs := by
      rw [Nat.mul_comm]
      rfl
    have hfits : r.mantissa * 10 + digitValue c < mantissaBound := by
      rw [hvalue] at hroom
      exact (le_digitsValue _ _).trans_lt hroom
    have hplace : ¬(((r.seenPoint && r.scale == maxScale) ||
        decide (mantissaBound ≤ r.mantissa * 10 + digitValue c)) = true) := by
      rw [List.length_cons] at hscale
      simp only [Bool.or_eq_true, Bool.and_eq_true, beq_iff_eq, decide_eq_true_eq, not_or, not_and]
      exact ⟨fun hpoint => by have := hscale hpoint; omega, by omega⟩
    rw [List.cons_append, readPlain, if_pos hc]
    dsimp only
    rw [if_neg hplace, ih (fun d hd => hcs d (List.mem_cons_of_mem _ hd)) _ (hvalue ▸ hroom)]
    · rw [hvalue]
      cases r.seenPoint <;> simp [Nat.add_assoc, Nat.add_comm 1]
    · intro hpoint
      have hroom' := hscale hpoint
      rw [List.length_cons] at hroom'
      rw [if_pos hpoint]
      change r.scale + 1 + cs.length ≤ maxScale
      omega

/-- The digits of a decimal, with a point in front of the last ones if it has a scale. -/
theorem magnitudeChars_shape (a : Decimal) : ∃ whole fraction : List Char, whole ≠ [] ∧
    (∀ c ∈ whole, isDigit c = true) ∧ (∀ c ∈ fraction, isDigit c = true) ∧
    (a.magnitudeChars = whole ∨ a.magnitudeChars = whole ++ '.' :: fraction) := by
  refine ⟨(toString (a.mantissa / Nat.pow 10 a.scale)).toList,
    paddedDigits a.scale (a.mantissa % Nat.pow 10 a.scale), toList_toString_ne_nil _,
    fun c => isDigit_of_mem_toString, fun c => isDigit_of_mem_paddedDigits, ?_⟩
  rw [magnitudeChars]
  split
  · exact .inl rfl
  · exact .inr rfl

theorem readPlain_magnitudeChars (negative : Bool) (a : Decimal) :
    readPlain negative {} a.magnitudeChars = ofUnits? negative a.mantissa a.scale := by
  let whole := a.mantissa / 10 ^ a.scale
  have hwhole : ∀ c ∈ (toString whole).toList, isDigit c = true :=
    fun c => isDigit_of_mem_toString
  have hroom : digitsValue 0 (toString whole).toList < mantissaBound := by
    rw [digitsValue_toString]
    exact (Nat.div_le_self _ _).trans_lt a.mantissa_lt
  have hseen : (toString whole).toList.isEmpty = false :=
    List.isEmpty_eq_false_iff.2 (toList_toString_ne_nil _)
  rw [magnitudeChars, Nat.pow_eq]
  by_cases hscale : a.scale = 0
  · have hread := readPlain_digits (b := negative) hwhole [] {} hroom nofun
    rw [List.append_nil, hseen] at hread
    rw [if_pos hscale, hread, readPlain, digitsValue_toString]
    simp [whole, hscale]
  · let fraction := paddedDigits a.scale (a.mantissa % 10 ^ a.scale)
    have hlength : fraction.length = a.scale :=
      length_paddedDigits (Nat.pos_of_ne_zero hscale) (Nat.mod_lt _ (by positivity))
    have htotal : digitsValue whole fraction = a.mantissa := by
      rw [digitsValue_eq_add, hlength, digitsValue_paddedDigits]
      exact Nat.div_add_mod a.mantissa (10 ^ a.scale)
    have hfraction : ∀ c ∈ fraction, isDigit c = true := fun c => isDigit_of_mem_paddedDigits
    have hread := readPlain_digits (b := negative) hfraction []
      { mantissa := whole, seenDigit := true, seenPoint := true } (htotal ▸ a.mantissa_lt)
      (fun _ => by rw [hlength, Nat.zero_add]; exact a.scale_le)
    rw [List.append_nil] at hread
    calc readPlain negative {} _
        = readPlain negative {} ((toString whole).toList ++ '.' :: fraction) := by
          rw [if_neg hscale]
      _ = readPlain negative { mantissa := whole, seenDigit := true } ('.' :: fraction) := by
          rw [readPlain_digits hwhole _ {} hroom nofun, digitsValue_toString, hseen]
          rfl
      _ = readPlain negative { mantissa := whole, seenDigit := true, seenPoint := true } fraction :=
          by rw [readPlain, if_neg (by decide), if_pos rfl, if_neg Bool.false_ne_true]
      _ = ofUnits? negative a.mantissa a.scale := by
          rw [hread, readPlain]
          simp [hlength, htotal]

/-- A decimal that is no negative zero has the parts of itself. -/
theorem ofUnits?_self {a : Decimal} (h : a.mantissa = 0 → a.negative = false) :
    ofUnits? a.negative a.mantissa a.scale = some a := by
  have hsign : (a.negative && a.mantissa != 0) = a.negative := by
    by_cases hzero : a.mantissa = 0
    · simp [hzero, h hzero]
    · simp [hzero]
  rw [ofUnits?, hsign, ofParts?, dif_pos a.mantissa_lt, dif_pos a.scale_le]

theorem ofPlain?_of_digit {c : Char} (hc : isDigit c = true) (cs : List Char) :
    ofPlain? (c :: cs) = readPlain false {} (c :: cs) := by
  rw [ofPlain?]
  · rintro rest ⟨⟩
    cases hc
  · rintro rest ⟨⟩
    cases hc

theorem exists_magnitudeChars_eq_cons (a : Decimal) :
    ∃ c cs, a.magnitudeChars = c :: cs ∧ isDigit c = true := by
  obtain ⟨_ | ⟨c, cs⟩, fraction, hne, hwhole, -, heq⟩ := magnitudeChars_shape a
  · exact absurd rfl hne
  · have hc := hwhole c List.mem_cons_self
    rcases heq with heq | heq
    · exact ⟨c, cs, heq, hc⟩
    · exact ⟨c, cs ++ '.' :: fraction, heq, hc⟩

/-- The text of a decimal is read as its parts, where a zero loses its sign. -/
theorem ofPlain?_text_eq (a : Decimal) :
    ofPlain? a.text.toList = ofUnits? a.negative a.mantissa a.scale := by
  rw [text, String.toList_ofList]
  cases hsign : a.negative with
  | true => rw [if_pos rfl, ofPlain?, readPlain_magnitudeChars]
  | false =>
    obtain ⟨c, cs, hcs, hc⟩ := exists_magnitudeChars_eq_cons a
    rw [if_neg Bool.false_ne_true, hcs, ofPlain?_of_digit hc, ← hcs, readPlain_magnitudeChars]

theorem ofPlain?_text {a : Decimal} (h : a.mantissa = 0 → a.negative = false) :
    ofPlain? a.text.toList = some a := by
  rw [ofPlain?_text_eq, ofUnits?_self h]

/-! ### Numbers with blanks around them -/

/-- The characters of plain text. -/
def isPlain (c : Char) : Bool := isDigit c || c == '.' || c == '-'

theorem isPlain_of_mem_text {a : Decimal} {c : Char} (h : c ∈ a.text.toList) :
    isPlain c = true := by
  have hmagnitude : ∀ d ∈ a.magnitudeChars, isPlain d = true := by
    intro d hd
    obtain ⟨whole, fraction, -, hwhole, hfraction, heq | heq⟩ := magnitudeChars_shape a
    · simp [isPlain, hwhole d (heq ▸ hd)]
    · rw [heq, List.mem_append, List.mem_cons] at hd
      rcases hd with hd | rfl | hd
      · simp [isPlain, hwhole d hd]
      · rfl
      · simp [isPlain, hfraction d hd]
  rw [text, String.toList_ofList] at h
  split at h
  · rcases List.mem_cons.1 h with rfl | h
    · rfl
    · exact hmagnitude c h
  · exact hmagnitude c h

theorem trimChars_eq_self {cs : List Char} (h : ∀ c ∈ cs, isBlank c = false) :
    trimChars cs = cs := by
  have hkeep : ∀ ds : List Char, (∀ c ∈ ds, isBlank c = false) → ds.dropWhile isBlank = ds := by
    intro ds hds
    cases ds with
    | nil => rfl
    | cons d ds => rw [List.dropWhile_cons_of_neg (by simp [hds d List.mem_cons_self])]
  rw [trimChars, trimLeft, hkeep cs h, trimRight, hkeep, List.reverse_reverse]
  intro c hc
  exact h c (List.mem_reverse.1 hc)

theorem trim_eq_self {s : String} (h : ∀ c ∈ s.toList, isBlank c = false) : trim s = s := by
  rw [trim, trimChars_eq_self h, String.ofList_toList]

theorem cutAt?_eq_none {p : Char → Bool} {cs : List Char} (h : ∀ c ∈ cs, p c = false) :
    cutAt? p cs = none := by
  induction cs with
  | nil => rfl
  | cons c cs ih =>
    rw [cutAt?, if_neg (by simp [h c List.mem_cons_self]),
      ih fun d hd => h d (List.mem_cons_of_mem _ hd)]
    rfl

/-- Without a slash a number is plain or scientific. -/
theorem readTrimmed_eq {cs : List Char} (h : ∀ c ∈ cs, c ≠ '/') :
    readTrimmed cs = (if cs.any fun c => c == 'e' || c == 'E' then ofScientific? cs
      else ofPlain? cs).elim (.error cs) .ok := by
  have hcut : cutAt? (· == '/') cs = none := cutAt?_eq_none fun c hc => by simp [h c hc]
  rw [readTrimmed.eq_def]
  split
  · rename_i hsome
    rw [hcut] at hsome
    cases hsome
  · rfl

/-- No visible character of ASCII is a blank. -/
theorem isBlank_eq_false {c : Char} (h : 0x21 ≤ c.toNat) (h' : c.toNat ≤ 0x7E) :
    isBlank c = false := by
  simp [isBlank, UInt32.le_iff_toNat_le, ← UInt32.toNat_inj]
  omega

theorem isDigit_iff {c : Char} :
    isDigit c = true ↔ 48 ≤ c.toNat ∧ c.toNat ≤ 57 := by
  simp [isDigit, UInt32.le_iff_toNat_le]

theorem isPlain_cases {c : Char} (h : isPlain c = true) : isDigit c = true ∨ c = '.' ∨ c = '-' := by
  simpa [isPlain, or_assoc] using h

theorem isBlank_of_isPlain {c : Char} (h : isPlain c = true) : isBlank c = false := by
  rcases isPlain_cases h with hdigit | rfl | rfl
  · obtain ⟨hle, hge⟩ := isDigit_iff.1 hdigit
    exact isBlank_eq_false (by omega) (by omega)
  · rfl
  · rfl

theorem ne_of_isPlain {c d : Char} (h : isPlain c = true) (hd : isPlain d = false) : c ≠ d := by
  rintro rfl
  rw [h] at hd
  cases hd

/-- What is written for a decimal is read as that decimal. -/
theorem read_text {a : Decimal} (h : a.mantissa = 0 → a.negative = false) :
    Decimal.read a.text = .ok a := by
  have hplain : ∀ c ∈ a.text.toList, isPlain c = true := fun c => isPlain_of_mem_text
  have hscientific : (a.text.toList.any fun c => c == 'e' || c == 'E') = false := by
    rw [List.any_eq_false]
    intro c hc
    have he := ne_of_isPlain (d := 'e') (hplain c hc) rfl
    have hE := ne_of_isPlain (d := 'E') (hplain c hc) rfl
    simp [he, hE]
  rw [Decimal.read, trimChars_eq_self fun c hc => isBlank_of_isPlain (hplain c hc),
    readTrimmed_eq fun c hc => ne_of_isPlain (hplain c hc) rfl, hscientific, if_neg (by decide),
    ofPlain?_text h]
  rfl

/-! ### Short text -/

theorem stripZeros_value (m s : Nat) :
    ((stripZeros m s).1 : ℚ) / 10 ^ (stripZeros m s).2 = m / 10 ^ s := by
  induction s generalizing m with
  | zero => simp [stripZeros]
  | succ s ih =>
    rw [stripZeros]
    by_cases hzero : m % 10 = 0
    · rw [if_pos hzero, ih, Nat.cast_div (Nat.dvd_of_mod_eq_zero hzero) (by norm_num), pow_succ]
      push_cast
      field_simp
    · rw [if_neg hzero]

@[simp] theorem toRat_normalize (a : Decimal) : a.normalize.toRat = a.toRat := by
  rw [Decimal.normalize]
  by_cases hzero : a.isZero = true
  · rw [if_pos hzero, toRat_zero, eq_comm, toRat_eq_zero_iff]
    simpa [isZero] using hzero
  · rw [if_neg hzero, toRat_eq_div, toRat_eq_div, signedMantissa, signedMantissa]
    have hvalue := stripZeros_value a.mantissa a.scale
    cases a.negative with
    | true => simp [neg_div, hvalue]
    | false => simp [hvalue]

theorem normalize_negative_of_zero {a : Decimal} (h : a.normalize.mantissa = 0) :
    a.normalize.negative = false := by
  have hzero : a.mantissa = 0 := by
    rwa [← toRat_eq_zero_iff, ← toRat_normalize, toRat_eq_zero_iff]
  rw [Decimal.normalize, if_pos (by simp [isZero, hzero])]
  rfl

theorem stripZeros_stripZeros (m s : Nat) :
    stripZeros (stripZeros m s).1 (stripZeros m s).2 = stripZeros m s := by
  induction s generalizing m with
  | zero => rfl
  | succ s ih =>
    rw [stripZeros]
    split
    · exact ih (m / 10)
    · rename_i hdigit
      rw [stripZeros, if_neg hdigit]

theorem isZero_normalize (a : Decimal) : a.normalize.isZero = a.isZero := by
  have hiff : a.normalize.mantissa = 0 ↔ a.mantissa = 0 := by
    rw [← toRat_eq_zero_iff, toRat_normalize, toRat_eq_zero_iff]
  simp [isZero, hiff]

theorem normalize_normalize (a : Decimal) : a.normalize.normalize = a.normalize := by
  rw [Decimal.normalize.eq_def a.normalize, isZero_normalize]
  by_cases hzero : a.isZero = true
  · rw [if_pos hzero, Decimal.normalize, if_pos hzero]
  · rw [if_neg hzero, Decimal.normalize, if_neg hzero]
    simp only [stripZeros_stripZeros]

/-- The short text of a decimal is read as the decimal without trailing zeros. -/
theorem read_shortText (a : Decimal) : Decimal.read a.shortText = .ok a.normalize :=
  read_text normalize_negative_of_zero

/-- A minus sign stands in front of a negative decimal, but not of a zero. -/
theorem shortText_toList (a : Decimal) : a.shortText.toList =
    (if a.negative && !a.isZero then ['-'] else []) ++ a.abs.normalize.magnitudeChars := by
  have hzero : a.abs.isZero = a.isZero := rfl
  rw [shortText, text, String.toList_ofList]
  by_cases h : a.isZero = true
  · have habs : a.abs.normalize = a.normalize := by
      rw [Decimal.normalize, Decimal.normalize, hzero, if_pos h, if_pos h]
    have hsign : a.normalize.negative = false := by
      rw [Decimal.normalize, if_pos h]
      rfl
    rw [hsign, habs, h]
    simp
  · have habs : a.abs.normalize.magnitudeChars = a.normalize.magnitudeChars := by
      rw [Decimal.normalize, Decimal.normalize, hzero, if_neg h, if_neg h]
      rfl
    have hsign : a.normalize.negative = a.negative := by
      rw [Decimal.normalize, if_neg h]
    rw [hsign, habs, Bool.eq_false_of_not_eq_true h]
    cases a.negative <;> rfl

theorem read_magnitudeChars {a : Decimal} (h : a.negative = false) :
    Decimal.read (String.ofList a.magnitudeChars) = .ok a := by
  have hread := read_text (a := a) fun _ => h
  rwa [text, h, if_neg Bool.false_ne_true] at hread

/-! ### Numbers without a minus sign -/

theorem negative_of_ofUnits? {m s : Nat} {a : Decimal} (h : ofUnits? false m s = some a) :
    a.negative = false := by
  obtain ⟨hsign, -⟩ := ofParts?_eq_some h
  rw [hsign, Bool.false_and]

theorem negative_of_rounded? {r : Reading} {digit : Nat} {a : Decimal}
    (h : r.rounded? false digit = some a) : a.negative = false := by
  unfold Reading.rounded? at h
  generalize (if 5 ≤ digit then r.mantissa + 1 else r.mantissa) = m at h
  dsimp only at h
  split at h
  · exact negative_of_ofUnits? h
  · split at h
    · cases h
    · exact negative_of_ofUnits? h

theorem negative_of_readPlain {r : Reading} {cs : List Char} {a : Decimal}
    (h : readPlain false r cs = some a) : a.negative = false := by
  fun_induction readPlain false r cs with
  | case1 r hseen => exact negative_of_ofUnits? h
  | case4 r c rest hc m hfull hpoint hrest => exact negative_of_rounded? h
  | case6 r c rest hc m hroom ih => exact ih h
  | case8 r rest hpoint hdot ih => exact ih h
  | case9 r rest hseen hdigit hdot ih => exact ih h
  | case2 | case3 | case5 | case7 | case10 | case11 => cases h

theorem negative_of_ofPlain? {cs : List Char} {a : Decimal} (hminus : cs.head? ≠ some '-')
    (h : ofPlain? cs = some a) : a.negative = false := by
  unfold ofPlain? at h
  split at h
  · exact absurd rfl hminus
  · exact negative_of_readPlain h
  · exact negative_of_readPlain h

theorem negative_of_mul? {a b c : Decimal} (ha : a.negative = false) (hb : b.negative = false)
    (h : a.mul? b = some c) : c.negative = false := by
  rw [mul?, ha, hb] at h
  split at h
  · cases h
    rfl
  · dsimp only at h
    split at h
    · split at h
      · cases h
        rfl
      · split at h
        · exact negative_of_ofUnits? h
        · exact negative_of_ofUnits? h
    · obtain ⟨⟨m, s⟩, -, hparts⟩ := Option.bind_eq_some_iff.1 h
      exact (ofParts?_eq_some hparts).1

theorem negative_of_ofNat? {n : Nat} {a : Decimal} (h : ofNat? n = some a) : a.negative = false :=
  (ofParts?_eq_some h).1

theorem negative_of_shiftLeft? {a b : Decimal} {e : Nat} (ha : a.negative = false)
    (h : shiftLeft? a e = some b) : b.negative = false := by
  fun_induction shiftLeft? a e with
  | case1 a e hlarge ih =>
    obtain ⟨power, hpower, h⟩ := Option.bind_eq_some_iff.1 h
    obtain ⟨c, hc, h⟩ := Option.bind_eq_some_iff.1 h
    exact ih c (negative_of_mul? ha (negative_of_ofNat? hpower) hc) h
  | case2 a => 
    cases h
    exact ha
  | case3 a e hsmall hzero =>
    obtain ⟨power, hpower, h⟩ := Option.bind_eq_some_iff.1 h
    exact negative_of_mul? ha (negative_of_ofNat? hpower) h

theorem negative_normalize {a : Decimal} (h : a.negative = false) :
    a.normalize.negative = false := by
  rw [Decimal.normalize]
  split
  · rfl
  · exact h

theorem head?_of_cutAt? {p : Char → Bool} {cs before after : List Char} {c : Char}
    (h : cutAt? p cs = some (before, after)) (hc : before.head? = some c) : cs.head? = some c := by
  cases cs with
  | nil => cases h
  | cons d ds =>
    rw [cutAt?] at h
    split at h
    · cases h
      cases hc
    · obtain ⟨⟨b, a⟩, -, heq⟩ := Option.map_eq_some_iff.1 h
      cases heq
      exact hc

theorem negative_of_ofScientific? {cs : List Char} {a : Decimal} (hminus : cs.head? ≠ some '-')
    (h : ofScientific? cs = some a) : a.negative = false := by
  obtain ⟨⟨base, exponent⟩, hcut, h⟩ := Option.bind_eq_some_iff.1 h
  obtain ⟨b, hbase, h⟩ := Option.bind_eq_some_iff.1 h
  have hb : b.negative = false :=
    negative_of_ofPlain? (fun hhead => hminus (head?_of_cutAt? hcut hhead)) hbase
  split at h
  · obtain ⟨e, -, h⟩ := Option.bind_eq_some_iff.1 h
    split at h
    · rw [(ofParts?_eq_some h).1, hb]
    · cases h
  · obtain ⟨e, -, h⟩ := Option.bind_eq_some_iff.1 h
    split at h
    · rw [(ofParts?_eq_some h).1, hb]
    · split at h
      · obtain ⟨c, hc, rfl⟩ := Option.map_eq_some_iff.1 h
        exact negative_normalize (negative_of_shiftLeft? hb hc)
      · cases h

theorem negative_of_readTrimmed {cs : List Char} {a : Decimal} (hslash : ∀ c ∈ cs, c ≠ '/')
    (hminus : cs.head? ≠ some '-') (h : readTrimmed cs = .ok a) : a.negative = false := by
  rw [readTrimmed_eq hslash] at h
  split at h
  · cases hread : ofScientific? cs with
    | none =>
      rw [hread] at h
      cases h
    | some b =>
      rw [hread] at h
      cases h
      exact negative_of_ofScientific? hminus hread
  · cases hread : ofPlain? cs with
    | none =>
      rw [hread] at h
      cases h
    | some b =>
      rw [hread] at h
      cases h
      exact negative_of_ofPlain? hminus hread

end MarkovFit.Proofs
