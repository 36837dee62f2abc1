import MarkovFit.Proofs.PrintedFit

/-!
# Elementwise expressions

The expressions of Matlab as far as they concern numbers: signs of products and powers carry a point,
powers group to the left like sums and products do, and an exponent has no sign of its own. A text
has one reading at most.
-/

namespace MarkovFit.Proofs

open MarkovFit.Expr

/-! ### Signs with a point -/

/-- The signs that stand for operations on whole matrices without a point in front. -/
def isMatrixSign (c : Char) : Bool := c == '*' || c == '/' || c == '^'

/-- The text without the points of elementwise signs; a sign without its point is refused. -/
def undotted : List Char → Option (List Char)
  | [] => some []
  | '.' :: c :: cs =>
    if isMatrixSign c then (undotted cs).map (c :: ·) else (undotted (c :: cs)).map ('.' :: ·)
  | c :: cs => if isMatrixSign c then none else (undotted cs).map (c :: ·)

/-- The characters lose their points in this way, whatever stands after them. -/
def Undots (cs ds : List Char) : Prop :=
  ∀ rest us, undotted rest = some us → undotted (cs ++ rest) = some (ds ++ us)

section

variable {c : Char} {cs ds cs' ds' : List Char}

theorem undots_nil : Undots [] [] := fun _ _ h => h

theorem Undots.append (h : Undots cs ds) (h' : Undots cs' ds') : Undots (cs ++ cs') (ds ++ ds') := by
  intro rest us hrest
  rw [List.append_assoc, List.append_assoc]
  exact h _ _ (h' _ _ hrest)

theorem Undots.eq_some (h : Undots cs ds) : undotted cs = some ds := by
  have hnil := h [] [] rfl
  rwa [List.append_nil, List.append_nil] at hnil

theorem undotted_cons (hc : c ≠ '.') :
    undotted (c :: cs) = if isMatrixSign c then none else (undotted cs).map (c :: ·) := by
  rw [undotted.eq_def]
  split
  · rename_i h
    cases h
  · rename_i h
    cases h
    exact absurd rfl hc
  · rename_i h
    cases h
    rfl

theorem undots_cons (hc : c ≠ '.') (hsign : isMatrixSign c = false) (h : Undots cs ds) :
    Undots (c :: cs) (c :: ds) := by
  intro rest us hrest
  rw [List.cons_append, undotted_cons hc, hsign, h rest us hrest]
  rfl

theorem undots_sign_cons (hsign : isMatrixSign c = true) (h : Undots cs ds) :
    Undots ('.' :: c :: cs) (c :: ds) := by
  intro rest us hrest
  rw [List.cons_append, List.cons_append, undotted, if_pos hsign, h rest us hrest]
  rfl

theorem undots_self (h : ∀ c ∈ cs, c ≠ '.' ∧ isMatrixSign c = false) : Undots cs cs := by
  induction cs with
  | nil => exact undots_nil
  | cons c cs ih =>
    obtain ⟨hc, hsign⟩ := h c List.mem_cons_self
    exact undots_cons hc hsign (ih fun d hd => h d (List.mem_cons_of_mem c hd))

/-- A point in front of a digit is kept. -/
theorem undots_point_cons (hsign : isMatrixSign c = false) (h : Undots (c :: cs) (c :: ds)) :
    Undots ('.' :: c :: cs) ('.' :: c :: ds) := by
  intro rest us hrest
  have hcs := h rest us hrest
  rw [List.cons_append] at hcs
  rw [List.cons_append, List.cons_append, undotted, if_neg (by simp [hsign]), hcs]
  rfl

end

/-! ### Phrases -/

/-- The tokens of an elementwise phrase, with its tree. -/
inductive MatlabDerives : Phrase → List Token → Expr → Prop
  | number (v : Decimal) : MatlabDerives .atom [.number v] (.number v)
  | ident (name : String) : MatlabDerives .atom [.ident name] (.ident name)
  | ceil {ts e} : MatlabDerives .sum ts e →
      MatlabDerives .atom (.ident "ceil" :: .leftParen :: (ts ++ [.rightParen])) (.ceil e)
  | paren {ts e} : MatlabDerives .sum ts e →
      MatlabDerives .atom (.leftParen :: (ts ++ [.rightParen])) e
  | base {ts e} : MatlabDerives .atom ts e → MatlabDerives .power ts e
  | pow {ts us b e} : MatlabDerives .power ts b → MatlabDerives .atom us e →
      MatlabDerives .power (ts ++ .caret :: us) (.binary .pow b e)
  | power {ts e} : MatlabDerives .power ts e → MatlabDerives .unary ts e
  | minus {ts e} : MatlabDerives .unary ts e → MatlabDerives .unary (.minus :: ts) (.neg e)
  | factor {ts e} : MatlabDerives .unary ts e → MatlabDerives .product ts e
  | product {ts us t op l r} : MatlabDerives .product ts l → productOperator? t = some op →
      MatlabDerives .unary us r → MatlabDerives .product (ts ++ t :: us) (.binary op l r)
  | summand {ts e} : MatlabDerives .product ts e → MatlabDerives .sum ts e
  | sum {ts us t op l r} : MatlabDerives .sum ts l → sumOperator? t = some op →
      MatlabDerives .product us r → MatlabDerives .sum (ts ++ t :: us) (.binary op l r)

/-- The text is read as this tree. -/
def MatlabReads (text : String) (e : Expr) : Prop :=
  ∃ cs ts, undotted text.toList = some cs ∧ scan (String.ofList cs) = .ok ts ∧
    MatlabDerives .sum ts e

/-! ### Reading with a stack -/

/-- What waits for an operand. -/
inductive Frame where
  | paren
  | ceil
  | neg
  | left (op : Operator) (operand : Expr)

/-- How tightly a frame holds its operand. -/
def Frame.level : Frame → Nat
  | .paren | .ceil => 0
  | .neg => negPrecedence
  | .left op _ => op.precedence

/-- The frame with its operand. -/
def Frame.complete : Frame → Expr → Expr
  | .paren, e => e
  | .ceil, e => .ceil e
  | .neg, e => .neg e
  | .left op l, e => .binary op l e

/-- Completes the topmost frames, as far as they hold their operands this tightly. -/
def settle (level : Nat) : List Frame → Expr → List Frame × Expr
  | [], e => ([], e)
  | f :: frames, e =>
    if level ≤ f.level then settle level frames (f.complete e) else (f :: frames, e)

/-- The operation of a sign between operands. -/
def operator? : Token → Option Operator
  | .plus => some .add
  | .minus => some .sub
  | .star => some .mul
  | .slash => some .div
  | .caret => some .pow
  | _ => none

/-- Reads tokens one by one, with an operand or waiting for one. -/
def readFrames : List Frame → Option Expr → List Token → Option Expr
  | frames, some e, [] =>
    match settle 1 frames e with
    | ([], e) => some e
    | _ => none
  | _, none, [] => none
  | frames, none, .number v :: ts => readFrames frames (some (.number v)) ts
  | frames, none, .ident name :: ts => readFrames frames (some (.ident name)) ts
  | frames, none, .leftParen :: ts => readFrames (.paren :: frames) none ts
  | frames, none, .minus :: ts => readFrames (.neg :: frames) none ts
  | _, none, _ => none
  | frames, some (.ident "ceil"), .leftParen :: ts => readFrames (.ceil :: frames) none ts
  | frames, some e, .rightParen :: ts =>
    match settle 1 frames e with
    | (f :: frames, e) => readFrames frames (some (f.complete e)) ts
    | _ => none
  | frames, some e, t :: ts =>
    match operator? t with
    | some op =>
      let (frames, e) := settle op.precedence frames e
      readFrames (.left op e :: frames) none ts
    | none => none

section

variable {frames fs : List Frame} {x e : Expr} {t : Token} {op : Operator} {ts rest : List Token}

/-- The frames are completed one after the other. -/
def completeAll (fs : List Frame) (x : Expr) : Expr := fs.foldl (fun e f => f.complete e) x

theorem settle_append {level : Nat} (hfs : ∀ f ∈ fs, level ≤ f.level)
    (hframes : ∀ f ∈ frames.head?, f.level < level) :
    settle level (fs ++ frames) x = (frames, completeAll fs x) := by
  induction fs generalizing x with
  | nil =>
    cases frames with
    | nil => rfl
    | cons f frames => exact if_neg (Nat.not_le.2 (hframes f rfl))
  | cons f fs ih =>
    rw [List.cons_append, settle, if_pos (hfs f List.mem_cons_self),
      ih fun f' hf' => hfs f' (List.mem_cons_of_mem f hf')]
    rfl

theorem readFrames_operator (hop : operator? t = some op) :
    readFrames frames (some x) (t :: ts) =
      readFrames (.left op (settle op.precedence frames x).2 ::
        (settle op.precedence frames x).1) none ts := by
  cases t <;> cases hop <;> rfl

theorem readFrames_rightParen {f : Frame} (hfs : ∀ f ∈ fs, 1 ≤ f.level) (hf : f.level = 0) :
    readFrames (fs ++ f :: frames) (some x) (.rightParen :: ts) =
      readFrames frames (some (f.complete (completeAll fs x))) ts := by
  have hframes : ∀ f' ∈ (f :: frames).head?, f'.level < 1 := by
    rintro _ ⟨⟩
    omega
  rw [readFrames, settle_append hfs hframes]

theorem completeAll_concat (fs : List Frame) (f : Frame) (x : Expr) :
    completeAll (fs ++ [f]) x = f.complete (completeAll fs x) := by
  rw [completeAll, List.foldl_append]
  rfl

theorem holds_concat {level : Nat} {f : Frame} (hfs : ∀ f ∈ fs, level ≤ f.level)
    (hf : level ≤ f.level) : ∀ f' ∈ fs ++ [f], level ≤ f'.level := by
  intro f' hf'
  obtain hf' | hf' := List.mem_append.1 hf'
  · exact hfs f' hf'
  · exact List.mem_singleton.1 hf' ▸ hf

/-- How tightly a frame may hold in front of a phrase without taking the first part of it. -/
def Phrase.reach : Phrase → Nat
  | .sum => 1
  | .product => 2
  | .unary | .power => 4
  | .atom => 5

/-- What is left of a phrase when its tokens are read: frames that can still be completed to the
tree of the phrase, since they hold as tightly as the phrase binds. -/
def Absorbs (phrase : Phrase) (ts : List Token) (e : Expr) : Prop :=
  ∃ fs x, (∀ f ∈ fs, phrase.level ≤ f.level) ∧ completeAll fs x = e ∧
    ∀ frames rest, (∀ f ∈ frames.head?, f.level < phrase.reach) →
      readFrames frames none (ts ++ rest) = readFrames (fs ++ frames) (some x) rest

theorem absorbs_loosen {phrase phrase' : Phrase} (h : Absorbs phrase ts e)
    (hlevel : phrase'.level ≤ phrase.level) (hreach : phrase'.reach ≤ phrase.reach) :
    Absorbs phrase' ts e := by
  obtain ⟨fs, x, hfs, hx, hread⟩ := h
  refine ⟨fs, x, fun f hf => hlevel.trans (hfs f hf), hx, ?_⟩
  intro frames rest hframes
  exact hread frames rest fun f hf => (hframes f hf).trans_le hreach

/-- A phrase in parentheses, or the argument of a call. -/
theorem absorbs_closed (f : Frame) (front : List Token) (h : Absorbs .sum ts e) (hf : f.level = 0)
    (hfront : ∀ frames rest, readFrames frames none (front ++ rest) =
      readFrames (f :: frames) none rest) :
    Absorbs .atom (front ++ (ts ++ [.rightParen])) (f.complete e) := by
  obtain ⟨fs, x, hfs, rfl, hread⟩ := h
  refine ⟨[], f.complete (completeAll fs x), nofun, rfl, ?_⟩
  intro frames rest _
  have hinside : ∀ f' ∈ (f :: frames).head?, f'.level < 1 := by
    rintro _ ⟨⟩
    omega
  rw [List.append_assoc, List.append_assoc, hfront, hread _ _ hinside]
  exact readFrames_rightParen hfs hf

/-- An operation whose left operand reaches as far as the operation binds. -/
theorem absorbs_operation {phrase phrase' : Phrase} {us : List Token} {l r : Expr}
    (hl : Absorbs phrase ts l) (hop : operator? t = some op) (hr : Absorbs phrase' us r)
    (hlevel : phrase.level = op.precedence) (hreach : phrase.reach = op.precedence)
    (hright : op.precedence < phrase'.reach) (htight : op.precedence ≤ phrase'.level) :
    Absorbs phrase (ts ++ t :: us) (.binary op l r) := by
  obtain ⟨fs, x, hfs, rfl, hread⟩ := hl
  obtain ⟨fs', x', hfs', rfl, hread'⟩ := hr
  refine ⟨fs' ++ [.left op (completeAll fs x)], x', ?_, completeAll_concat _ _ _, ?_⟩
  · rw [hlevel]
    exact holds_concat (fun f hf => htight.trans (hfs' f hf)) le_rfl
  · intro frames rest hframes
    have hsettle := settle_append (x := x) (hlevel ▸ hfs) (hreach ▸ hframes)
    have hinside : ∀ f ∈ (Frame.left op (completeAll fs x) :: frames).head?,
        f.level < phrase'.reach := by
      rintro _ ⟨⟩
      exact hright
    rw [List.append_assoc, hread _ _ hframes, List.cons_append, readFrames_operator hop, hsettle,
      hread' _ _ hinside, List.append_assoc]
    rfl

theorem operator?_of_sum (h : sumOperator? t = some op) :
    operator? t = some op ∧ op.precedence = 1 := by
  cases t <;> cases h <;> exact ⟨rfl, rfl⟩

theorem operator?_of_product (h : productOperator? t = some op) :
    operator? t = some op ∧ op.precedence = 2 := by
  cases t <;> cases h <;> exact ⟨rfl, rfl⟩

theorem absorbs_of_derives {phrase : Phrase} (h : MatlabDerives phrase ts e) :
    Absorbs phrase ts e := by
  -- On the derivation: the frames a phrase leaves behind are settled by what follows the phrase.
  induction h with
  | number v => exact ⟨[], .number v, nofun, rfl, fun _ _ _ => rfl⟩
  | ident name => exact ⟨[], .ident name, nofun, rfl, fun _ _ _ => rfl⟩
  | ceil _ ih =>
    exact absorbs_closed .ceil [.ident "ceil", .leftParen] ih rfl fun _ _ => rfl
  | paren _ ih => exact absorbs_closed .paren [.leftParen] ih rfl fun _ _ => rfl
  | base _ ih | power _ ih | factor _ ih | summand _ ih =>
    exact absorbs_loosen ih (by decide) (by decide)
  | @minus ts e _ ih =>
    obtain ⟨fs, x, hfs, rfl, hread⟩ := ih
    refine ⟨fs ++ [.neg], x, holds_concat hfs le_rfl, completeAll_concat _ _ _, ?_⟩
    intro frames rest _
    have hinside : ∀ f ∈ (Frame.neg :: frames).head?, f.level < Phrase.unary.reach := by
      rintro _ ⟨⟩
      decide
    rw [List.cons_append, readFrames, hread _ _ hinside, List.append_assoc]
    rfl
  | pow _ _ ihl ihr =>
    exact absorbs_operation ihl rfl ihr rfl rfl (by decide) (by decide)
  | product _ hop _ ihl ihr =>
    obtain ⟨hop, hlevel⟩ := operator?_of_product hop
    exact absorbs_operation ihl hop ihr hlevel.symm hlevel.symm (by rw [hlevel]; decide)
      (by rw [hlevel]; decide)
  | sum _ hop _ ihl ihr =>
    obtain ⟨hop, hlevel⟩ := operator?_of_sum hop
    exact absorbs_operation ihl hop ihr hlevel.symm hlevel.symm (by rw [hlevel]; decide)
      (by rw [hlevel]; decide)

theorem readFrames_eq_of_derives (h : MatlabDerives .sum ts e) : readFrames [] none ts = some e := by
  obtain ⟨fs, x, hfs, rfl, hread⟩ := absorbs_of_derives h
  have hall := hread [] [] nofun
  rw [List.append_nil, List.append_nil] at hall
  have hsettle : settle 1 (fs ++ []) x = ([], completeAll fs x) := settle_append hfs nofun
  rw [List.append_nil] at hsettle
  rw [hall, readFrames, hsettle]

/-- A list of tokens has one tree at most. -/
theorem matlabDerives_unique {e' : Expr} (h : MatlabDerives .sum ts e)
    (h' : MatlabDerives .sum ts e') : e = e' := by
  have hread := readFrames_eq_of_derives h
  rw [readFrames_eq_of_derives h', Option.some_inj] at hread
  exact hread.symm

end

/-- A text is read as one tree at most. -/
theorem matlabReads_unique {text : String} {e e' : Expr} (h : MatlabReads text e)
    (h' : MatlabReads text e') : e = e' := by
  obtain ⟨cs, ts, hcs, hts, he⟩ := h
  obtain ⟨cs', ts', hcs', hts', he'⟩ := h'
  rw [hcs, Option.some_inj] at hcs'
  subst hcs'
  rw [hts, Except.ok.injEq] at hts'
  subst hts'
  exact matlabDerives_unique he he'

end MarkovFit.Proofs
