import MarkovFit.Expr.Parser
import MarkovFit.Proofs.Outcomes
import MarkovFit.Proofs.TextPieces

/-!
# The grammar of expressions

A phrase of the grammar derives a list of tokens together with the tree that it denotes. Sums and
products group to the left, a power groups to the right and takes a signed exponent, a plus sign
leaves no trace. The readers accept exactly the phrases, each with its tree, and stop where a phrase
cannot go on.
-/

namespace MarkovFit.Proofs

open MarkovFit.Expr

/-! ### Phrases -/

/-- The phrases by how tightly they bind. -/
inductive Phrase where
  | sum | product | unary | power | atom
deriving DecidableEq, Repr

/-- The operation behind a sign between the parts of a sum. -/
def sumOperator? : Token → Option Operator
  | .plus => some .add
  | .minus => some .sub
  | _ => none

/-- The operation behind a sign between the parts of a product. -/
def productOperator? : Token → Option Operator
  | .star => some .mul
  | .slash => some .div
  | _ => none

/-- The tokens of a phrase, with its tree. -/
inductive Derives : Phrase → List Token → Expr → Prop
  | number (v : Decimal) : Derives .atom [.number v] (.number v)
  | ident (name : String) : Derives .atom [.ident name] (.ident name)
  | ceil {ts e} : Derives .sum ts e →
      Derives .atom (.ident "ceil" :: .leftParen :: (ts ++ [.rightParen])) (.ceil e)
  | sqrt {ts e} : Derives .sum ts e →
      Derives .atom (.ident "sqrt" :: .leftParen :: (ts ++ [.rightParen])) (.sqrt e)
  | paren {ts e} : Derives .sum ts e → Derives .atom (.leftParen :: (ts ++ [.rightParen])) e
  | base {ts e} : Derives .atom ts e → Derives .power ts e
  | pow {ts us b e} : Derives .atom ts b → Derives .unary us e →
      Derives .power (ts ++ .caret :: us) (.binary .pow b e)
  | power {ts e} : Derives .power ts e → Derives .unary ts e
  | minus {ts e} : Derives .unary ts e → Derives .unary (.minus :: ts) (.neg e)
  | plus {ts e} : Derives .unary ts e → Derives .unary (.plus :: ts) e
  | factor {ts e} : Derives .unary ts e → Derives .product ts e
  | product {ts us t op l r} : Derives .product ts l → productOperator? t = some op →
      Derives .unary us r → Derives .product (ts ++ t :: us) (.binary op l r)
  | summand {ts e} : Derives .product ts e → Derives .sum ts e
  | sum {ts us t op l r} : Derives .sum ts l → sumOperator? t = some op →
      Derives .product us r → Derives .sum (ts ++ t :: us) (.binary op l r)

/-- A part of a sum or of a product after the first one, with the sign in front of it. -/
structure Part where
  sign : Token
  op : Operator
  tokens : List Token
  tree : Expr

/-- Phrases one after the other with signs between them, grouped to the left. -/
def Chain (operator? : Token → Option Operator) (phrase : Phrase) (ts : List Token) (e : Expr) :
    Prop :=
  ∃ first left, ∃ parts : List Part, Derives phrase first left ∧
    (∀ p ∈ parts, operator? p.sign = some p.op ∧ Derives phrase p.tokens p.tree) ∧
    ts = first ++ parts.flatMap (fun p => p.sign :: p.tokens) ∧
    e = parts.foldl (fun left p => .binary p.op left p.tree) left

theorem chain_of_derives {operator? : Token → Option Operator} {phrase : Phrase} {ts : List Token}
    {e : Expr} (h : Derives phrase ts e) : Chain operator? phrase ts e :=
  ⟨ts, e, [], h, nofun, by simp, rfl⟩

theorem Chain.snoc {operator? : Token → Option Operator} {phrase : Phrase} {ts us : List Token}
    {t : Token} {op : Operator} {l r : Expr} (h : Chain operator? phrase ts l)
    (hop : operator? t = some op) (hr : Derives phrase us r) :
    Chain operator? phrase (ts ++ t :: us) (.binary op l r) := by
  obtain ⟨first, left, parts, hfirst, hparts, rfl, rfl⟩ := h
  refine ⟨first, left, parts ++ [⟨t, op, us, r⟩], hfirst, ?_, by simp, by simp⟩
  intro p hp
  rcases List.mem_append.1 hp with hp | hp
  · exact hparts p hp
  · obtain rfl := List.mem_singleton.1 hp
    exact ⟨hop, hr⟩

/-- What is closed under one more part holds of a whole chain. -/
theorem Chain.fold {operator? : Token → Option Operator} {phrase phrase' : Phrase}
    (first_derives : ∀ {ts e}, Derives phrase ts e → Derives phrase' ts e)
    (more_derives : ∀ {ts us t op l r}, Derives phrase' ts l → operator? t = some op →
      Derives phrase us r → Derives phrase' (ts ++ t :: us) (.binary op l r))
    {ts : List Token} {e : Expr} (h : Chain operator? phrase ts e) : Derives phrase' ts e := by
  obtain ⟨first, left, parts, hfirst, hparts, rfl, rfl⟩ := h
  have hleft := first_derives hfirst
  clear hfirst
  induction parts generalizing first left with
  | nil => simpa using hleft
  | cons p parts ih =>
    obtain ⟨hop, hp⟩ := hparts p List.mem_cons_self
    have hrest := ih _ _ (fun q hq => hparts q (List.mem_cons_of_mem _ hq))
      (more_derives hleft hop hp)
    simpa using hrest

theorem chain_of_derives_sum {ts : List Token} {e : Expr} (h : Derives .sum ts e) :
    Chain sumOperator? .product ts e :=
  match h with
  | .summand hfirst => chain_of_derives hfirst
  | .sum hleft hop hright => (chain_of_derives_sum hleft).snoc hop hright

theorem chain_of_derives_product {ts : List Token} {e : Expr} (h : Derives .product ts e) :
    Chain productOperator? .unary ts e :=
  match h with
  | .factor hfirst => chain_of_derives hfirst
  | .product hleft hop hright => (chain_of_derives_product hleft).snoc hop hright

/-- A sum is one product or more with plus and minus signs between them. -/
theorem derives_sum_iff_chain {ts : List Token} {e : Expr} :
    Derives .sum ts e ↔ Chain sumOperator? .product ts e :=
  ⟨chain_of_derives_sum, Chain.fold .summand .sum⟩

theorem derives_product_iff_chain {ts : List Token} {e : Expr} :
    Derives .product ts e ↔ Chain productOperator? .unary ts e :=
  ⟨chain_of_derives_product, Chain.fold .factor .product⟩

/-! ### What the readers give -/

section

variable {P Q : Expr × List Token → Prop} {e : Expr} {rest ts : List Token}

/-- The reader gives this expression and leaves these tokens. -/
def Gives (r : Except SyntaxError {p // P p}) (e : Expr) (rest : List Token) : Prop :=
  r.map Subtype.val = .ok (e, rest)

theorem gives_ok {p : Expr × List Token} {h : P p} :
    Gives (.ok (⟨p, h⟩ : {p // P p})) e rest ↔ e = p.1 ∧ rest = p.2 := by
  rw [Gives, Except.map, Except.ok.injEq, Prod.ext_iff, eq_comm, eq_comm (a := rest)]

theorem not_gives_error {err : SyntaxError} :
    ¬Gives (.error err : Except SyntaxError {p // P p}) e rest := nofun

theorem Gives.property {r : Except SyntaxError {p // P p}} (h : Gives r e rest) : P (e, rest) := by
  cases r with
  | error err => exact absurd h not_gives_error
  | ok p =>
    obtain ⟨rfl, rfl⟩ := gives_ok.1 h
    exact p.2

/-- A reader that goes on after another one. -/
theorem gives_bind {x : Except SyntaxError {p // P p}}
    {f : {p // P p} → Except SyntaxError {p // Q p}} {R : Expr → List Token → Prop}
    (hf : ∀ a more h, Gives (f ⟨(a, more), h⟩) e rest ↔ R a more) :
    Gives (x >>= f) e rest ↔ ∃ a more, Gives x a more ∧ R a more := by
  cases x with
  | error err =>
    refine iff_of_false not_gives_error ?_
    rintro ⟨a, more, hx, -⟩
    exact not_gives_error hx
  | ok p =>
    obtain ⟨⟨a, more⟩, h⟩ := p
    refine (hf a more h).trans ⟨fun hR => ⟨a, more, gives_ok.2 ⟨rfl, rfl⟩, hR⟩, ?_⟩
    rintro ⟨_, _, hx, hR⟩
    obtain ⟨rfl, rfl⟩ := gives_ok.1 hx
    exact hR

theorem gives_return {x : Except SyntaxError {p // P p}}
    {f : {p // P p} → Except SyntaxError {p // Q p}} (hf : ∀ p, (f p).map Subtype.val = .ok p.1) :
    Gives (x >>= f) e rest ↔ Gives x e rest := by
  cases x with
  | error err => exact iff_of_false not_gives_error not_gives_error
  | ok p =>
    change (f p).map Subtype.val = _ ↔ _
    rw [hf]
    rfl

theorem gives_closing {e' : Expr}
    {f : {us : List Token // us.length < ts.length} → Except SyntaxError {p // Q p}}
    (hf : ∀ us, (f us).map Subtype.val = .ok (e', us.1)) :
    Gives (closing ts >>= f) e rest ↔ e = e' ∧ ts = .rightParen :: rest := by
  unfold closing
  split
  · rename_i us
    change (f ⟨us, _⟩).map Subtype.val = _ ↔ _
    rw [hf, Except.ok.injEq, Prod.mk.injEq, List.cons.injEq, eq_comm]
    simp
  · rename_i hne
    refine iff_of_false not_gives_error ?_
    rintro ⟨-, rfl⟩
    exact hne rest rfl

theorem head_cases (operator? : Token → Option Operator) (ts : List Token) :
    (∃ t us op, ts = t :: us ∧ operator? t = some op) ∨ ∀ t ∈ ts.head?, operator? t = none := by
  cases ts with
  | nil => exact .inr nofun
  | cons t us =>
    cases hop : operator? t with
    | some op => exact .inl ⟨t, us, op, rfl, hop⟩
    | none =>
      right
      rintro _ ⟨⟩
      exact hop

theorem gives_parseSum : Gives (parseSum ts) e rest ↔
    ∃ left more, Gives (parseProduct ts) left more ∧ Gives (continueSum left more) e rest := by
  rw [parseSum]
  exact gives_bind fun _ _ _ => gives_return fun _ => rfl

theorem gives_continueSum_cons {left : Expr} {t : Token} {op : Operator}
    (hop : sumOperator? t = some op) : Gives (continueSum left (t :: ts)) e rest ↔
      ∃ right more, Gives (parseProduct ts) right more ∧
        Gives (continueSum (.binary op left right) more) e rest := by
  cases t <;> cases hop <;> rw [continueSum] <;>
    exact gives_bind fun _ _ _ => gives_return fun _ => rfl

theorem gives_continueSum_stop {left : Expr} (hstop : ∀ t ∈ ts.head?, sumOperator? t = none) :
    Gives (continueSum left ts) e rest ↔ e = left ∧ rest = ts := by
  rw [continueSum]
  · exact gives_ok
  · rintro more rfl
    cases hstop _ rfl
  · rintro more rfl
    cases hstop _ rfl

theorem continueSum_cases {left : Expr} (h : Gives (continueSum left ts) e rest) :
    (∃ t us op right more, ts = t :: us ∧ sumOperator? t = some op ∧
      Gives (parseProduct us) right more ∧
      Gives (continueSum (.binary op left right) more) e rest) ∨ e = left ∧ rest = ts := by
  rcases head_cases sumOperator? ts with ⟨t, us, op, rfl, hop⟩ | hstop
  · obtain ⟨right, more, hright, hmore⟩ := (gives_continueSum_cons hop).1 h
    exact .inl ⟨t, us, op, right, more, rfl, hop, hright, hmore⟩
  · exact .inr ((gives_continueSum_stop hstop).1 h)

theorem gives_parseProduct : Gives (parseProduct ts) e rest ↔
    ∃ left more, Gives (parseUnary ts) left more ∧ Gives (continueProduct left more) e rest := by
  rw [parseProduct]
  exact gives_bind fun _ _ _ => gives_return fun _ => rfl

theorem gives_continueProduct_cons {left : Expr} {t : Token} {op : Operator}
    (hop : productOperator? t = some op) : Gives (continueProduct left (t :: ts)) e rest ↔
      ∃ right more, Gives (parseUnary ts) right more ∧
        Gives (continueProduct (.binary op left right) more) e rest := by
  cases t <;> cases hop <;> rw [continueProduct] <;>
    exact gives_bind fun _ _ _ => gives_return fun _ => rfl

theorem gives_continueProduct_stop {left : Expr}
    (hstop : ∀ t ∈ ts.head?, productOperator? t = none) :
    Gives (continueProduct left ts) e rest ↔ e = left ∧ rest = ts := by
  rw [continueProduct]
  · exact gives_ok
  · rintro more rfl
    cases hstop _ rfl
  · rintro more rfl
    cases hstop _ rfl

theorem continueProduct_cases {left : Expr} (h : Gives (continueProduct left ts) e rest) :
    (∃ t us op right more, ts = t :: us ∧ productOperator? t = some op ∧
      Gives (parseUnary us) right more ∧
      Gives (continueProduct (.binary op left right) more) e rest) ∨ e = left ∧ rest = ts := by
  rcases head_cases productOperator? ts with ⟨t, us, op, rfl, hop⟩ | hstop
  · obtain ⟨right, more, hright, hmore⟩ := (gives_continueProduct_cons hop).1 h
    exact .inl ⟨t, us, op, right, more, rfl, hop, hright, hmore⟩
  · exact .inr ((gives_continueProduct_stop hstop).1 h)

theorem gives_parseUnary_minus : Gives (parseUnary (.minus :: ts)) e rest ↔
    ∃ operand, Gives (parseUnary ts) operand rest ∧ e = .neg operand := by
  rw [parseUnary]
  refine (gives_bind (R := fun operand more => e = .neg operand ∧ rest = more)
    fun _ _ _ => gives_ok).trans ?_
  simp

theorem gives_parseUnary_plus :
    Gives (parseUnary (.plus :: ts)) e rest ↔ Gives (parseUnary ts) e rest := by
  rw [parseUnary]
  exact gives_return fun _ => rfl

theorem gives_parseUnary (hminus : ∀ more, ts ≠ .minus :: more)
    (hplus : ∀ more, ts ≠ .plus :: more) :
    Gives (parseUnary ts) e rest ↔ Gives (parsePower ts) e rest := by
  rw [parseUnary]
  · exact hminus
  · exact hplus

theorem gives_parsePower : Gives (parsePower ts) e rest ↔
    ∃ base more, Gives (parseAtom ts) base more ∧
      ((∃ us exponent, more = .caret :: us ∧ Gives (parseUnary us) exponent rest ∧
          e = .binary .pow base exponent) ∨
        more.head? ≠ some .caret ∧ e = base ∧ rest = more) := by
  rw [parsePower]
  refine gives_bind fun base more h => ?_
  cases more with
  | nil => exact gives_ok.trans (by simp)
  | cons t us =>
    cases t
    case caret =>
      refine (gives_bind (R := fun exponent left => e = .binary .pow base exponent ∧ rest = left)
        fun _ _ _ => gives_ok).trans ?_
      simp
    all_goals exact gives_ok.trans (by simp)

theorem gives_parseAtom_number {v : Decimal} :
    Gives (parseAtom (.number v :: ts)) e rest ↔ e = .number v ∧ rest = ts := by
  rw [parseAtom]
  exact gives_ok

theorem gives_parseAtom_call {name : String} :
    Gives (parseAtom (.ident name :: .leftParen :: ts)) e rest ↔
      ∃ wrap argument, function? name = some wrap ∧
        Gives (parseSum ts) argument (.rightParen :: rest) ∧ e = wrap argument := by
  rw [parseAtom]
  split
  · rename_i hnone
    refine iff_of_false not_gives_error ?_
    rintro ⟨wrap, argument, hwrap, -⟩
    rw [hnone] at hwrap
    cases hwrap
  · rename_i wrap hwrap
    refine (gives_bind fun _ _ _ => gives_closing fun _ => rfl).trans ?_
    simp [hwrap]

theorem gives_parseAtom_ident {name : String} (hparen : ts.head? ≠ some .leftParen) :
    Gives (parseAtom (.ident name :: ts)) e rest ↔ e = .ident name ∧ rest = ts := by
  rw [parseAtom]
  · exact gives_ok
  · rintro more rfl
    exact hparen rfl

theorem gives_parseAtom_paren : Gives (parseAtom (.leftParen :: ts)) e rest ↔
    Gives (parseSum ts) e (.rightParen :: rest) := by
  rw [parseAtom]
  refine (gives_bind fun _ _ _ => gives_closing fun _ => rfl).trans ?_
  simp

/-- The first token of an atom tells what it is, of a name together with the token after it. -/
theorem parseAtom_cases (h : Gives (parseAtom ts) e rest) :
    (∃ v, ts = .number v :: rest ∧ e = .number v) ∨
    (∃ name, ts = .ident name :: rest ∧ e = .ident name) ∨
    (∃ name wrap us argument, ts = .ident name :: .leftParen :: us ∧ function? name = some wrap ∧
      Gives (parseSum us) argument (.rightParen :: rest) ∧ e = wrap argument) ∨
    (∃ us, ts = .leftParen :: us ∧ Gives (parseSum us) e (.rightParen :: rest)) := by
  have hdef := h
  rw [parseAtom.eq_def] at hdef
  split at hdef
  · rename_i v us
    obtain ⟨rfl, rfl⟩ := gives_ok.1 hdef
    exact .inl ⟨v, rfl, rfl⟩
  · rename_i name us
    obtain ⟨wrap, argument, hwrap, hargument, rfl⟩ := gives_parseAtom_call.1 h
    exact .inr (.inr (.inl ⟨name, wrap, us, argument, rfl, hwrap, hargument, rfl⟩))
  · rename_i name us _
    obtain ⟨rfl, rfl⟩ := gives_ok.1 hdef
    exact .inr (.inl ⟨name, rfl, rfl⟩)
  · rename_i us
    exact .inr (.inr (.inr ⟨us, rfl, gives_parseAtom_paren.1 h⟩))
  · exact absurd hdef not_gives_error

theorem parseUnary_cases (h : Gives (parseUnary ts) e rest) :
    (∃ us operand, ts = .minus :: us ∧ Gives (parseUnary us) operand rest ∧ e = .neg operand) ∨
    (∃ us, ts = .plus :: us ∧ Gives (parseUnary us) e rest) ∨ Gives (parsePower ts) e rest := by
  have hdef := h
  rw [parseUnary.eq_def] at hdef
  split at hdef
  · rename_i us
    obtain ⟨operand, hoperand, rfl⟩ := gives_parseUnary_minus.1 h
    exact .inl ⟨us, operand, rfl, hoperand, rfl⟩
  · rename_i us
    exact .inr (.inl ⟨us, rfl, gives_parseUnary_plus.1 h⟩)
  · exact .inr (.inr hdef)

/-- No sign begins a power. -/
theorem gives_parseUnary_of_power (h : Gives (parsePower ts) e rest) :
    Gives (parseUnary ts) e rest := by
  obtain ⟨base, more, hbase, -⟩ := gives_parsePower.1 h
  have hfirst : ∀ us, ts ≠ .minus :: us ∧ ts ≠ .plus :: us := by
    intro us
    rcases parseAtom_cases hbase with ⟨_, rfl, -⟩ | ⟨_, rfl, -⟩ | ⟨_, _, _, _, rfl, -⟩ | ⟨_, rfl, -⟩
    all_goals exact ⟨nofun, nofun⟩
  exact (gives_parseUnary (fun us => (hfirst us).1) fun us => (hfirst us).2).2 h

end

/-! ### Readers accept phrases only -/

theorem derives_call {name : String} {wrap : Expr → Expr} (hwrap : function? name = some wrap)
    {ts : List Token} {e : Expr} (h : Derives .sum ts e) :
    Derives .atom (.ident name :: .leftParen :: (ts ++ [.rightParen])) (wrap e) := by
  unfold function? at hwrap
  split at hwrap
  · cases hwrap
    exact .ceil h
  · cases hwrap
    exact .sqrt h
  · cases hwrap

-- The readers call each other, so these are proved together, by the number of tokens that are left
-- and, for the same tokens, in the order in which one reader starts with another.
mutual

/-- What is read as a sum is a sum, in front of the tokens that are left. -/
theorem derives_of_parseSum {ts : List Token} {e : Expr} {rest : List Token}
    (h : Gives (parseSum ts) e rest) : ∃ us, ts = us ++ rest ∧ Derives .sum us e := by
  obtain ⟨left, more, hleft, hmore⟩ := gives_parseSum.1 h
  have hlt : more.length < ts.length := hleft.property
  obtain ⟨us, hus, left_derives⟩ := derives_of_parseProduct hleft
  obtain ⟨vs, hvs, extends_sum⟩ := derives_of_continueSum hmore
  refine ⟨us ++ vs, by rw [hus, hvs, List.append_assoc], ?_⟩
  exact extends_sum us (.summand left_derives)
termination_by (ts.length, 6)

/-- What is read after the first part of a sum makes a longer sum of it. -/
theorem derives_of_continueSum {left : Expr} {ts : List Token} {e : Expr} {rest : List Token}
    (h : Gives (continueSum left ts) e rest) :
    ∃ us, ts = us ++ rest ∧ ∀ front, Derives .sum front left → Derives .sum (front ++ us) e := by
  rcases continueSum_cases h with ⟨t, us, op, right, more, hts, hop, hright, hmore⟩ | ⟨rfl, rfl⟩
  · have hus : us.length < ts.length := by simp [hts]
    have hlt : more.length < us.length := hright.property
    obtain ⟨vs, hvs, right_derives⟩ := derives_of_parseProduct hright
    obtain ⟨ws, hws, extends_sum⟩ := derives_of_continueSum hmore
    refine ⟨t :: vs ++ ws, by simp [hts, hvs, hws], ?_⟩
    intro front hfront
    rw [← List.append_assoc]
    exact extends_sum _ (.sum hfront hop right_derives)
  · refine ⟨[], rfl, ?_⟩
    intro front hfront
    rwa [List.append_nil]
termination_by (ts.length, 5)

theorem derives_of_parseProduct {ts : List Token} {e : Expr} {rest : List Token}
    (h : Gives (parseProduct ts) e rest) : ∃ us, ts = us ++ rest ∧ Derives .product us e := by
  obtain ⟨left, more, hleft, hmore⟩ := gives_parseProduct.1 h
  have hlt : more.length < ts.length := hleft.property
  obtain ⟨us, hus, left_derives⟩ := derives_of_parseUnary hleft
  obtain ⟨vs, hvs, extends_product⟩ := derives_of_continueProduct hmore
  refine ⟨us ++ vs, by rw [hus, hvs, List.append_assoc], ?_⟩
  exact extends_product us (.factor left_derives)
termination_by (ts.length, 4)

/-- What is read after the first part of a product makes a longer product of it. -/
theorem derives_of_continueProduct {left : Expr} {ts : List Token} {e : Expr} {rest : List Token}
    (h : Gives (continueProduct left ts) e rest) :
    ∃ us, ts = us ++ rest ∧
      ∀ front, Derives .product front left → Derives .product (front ++ us) e := by
  rcases continueProduct_cases h with ⟨t, us, op, right, more, hts, hop, hright, hmore⟩ | ⟨rfl, rfl⟩
  · have hus : us.length < ts.length := by simp [hts]
    have hlt : more.length < us.length := hright.property
    obtain ⟨vs, hvs, right_derives⟩ := derives_of_parseUnary hright
    obtain ⟨ws, hws, extends_product⟩ := derives_of_continueProduct hmore
    refine ⟨t :: vs ++ ws, by simp [hts, hvs, hws], ?_⟩
    intro front hfront
    rw [← List.append_assoc]
    exact extends_product _ (.product hfront hop right_derives)
  · refine ⟨[], rfl, ?_⟩
    intro front hfront
    rwa [List.append_nil]
termination_by (ts.length, 3)

theorem derives_of_parseUnary {ts : List Token} {e : Expr} {rest : List Token}
    (h : Gives (parseUnary ts) e rest) : ∃ us, ts = us ++ rest ∧ Derives .unary us e := by
  rcases parseUnary_cases h with ⟨us, operand, hts, hoperand, rfl⟩ | ⟨us, hts, hoperand⟩ | hpower
  · have hlt : us.length < ts.length := by simp [hts]
    obtain ⟨vs, rfl, hvs⟩ := derives_of_parseUnary hoperand
    exact ⟨.minus :: vs, hts, .minus hvs⟩
  · have hlt : us.length < ts.length := by simp [hts]
    obtain ⟨vs, rfl, hvs⟩ := derives_of_parseUnary hoperand
    exact ⟨.plus :: vs, hts, .plus hvs⟩
  · obtain ⟨us, hus, power_derives⟩ := derives_of_parsePower hpower
    exact ⟨us, hus, .power power_derives⟩
termination_by (ts.length, 2)

theorem derives_of_parsePower {ts : List Token} {e : Expr} {rest : List Token}
    (h : Gives (parsePower ts) e rest) : ∃ us, ts = us ++ rest ∧ Derives .power us e := by
  obtain ⟨base, more, hbase, hmore⟩ := gives_parsePower.1 h
  have hlt : more.length < ts.length := hbase.property
  obtain ⟨us, hus, base_derives⟩ := derives_of_parseAtom hbase
  rcases hmore with ⟨vs, exponent, hvs, hexponent, rfl⟩ | ⟨-, rfl, rfl⟩
  · have hcaret : vs.length < more.length := by simp [hvs]
    obtain ⟨ws, rfl, exponent_derives⟩ := derives_of_parseUnary hexponent
    exact ⟨us ++ .caret :: ws, by simp [hus, hvs], .pow base_derives exponent_derives⟩
  · exact ⟨us, hus, .base base_derives⟩
termination_by (ts.length, 1)

theorem derives_of_parseAtom {ts : List Token} {e : Expr} {rest : List Token}
    (h : Gives (parseAtom ts) e rest) : ∃ us, ts = us ++ rest ∧ Derives .atom us e := by
  rcases parseAtom_cases h with ⟨v, rfl, rfl⟩ | ⟨name, rfl, rfl⟩ |
    ⟨name, wrap, us, argument, hts, hwrap, hargument, rfl⟩ | ⟨us, hts, hinner⟩
  · exact ⟨[.number v], rfl, .number v⟩
  · exact ⟨[.ident name], rfl, .ident name⟩
  · have hlt : us.length < ts.length := by
      rw [hts, List.length_cons, List.length_cons]
      omega
    obtain ⟨vs, rfl, argument_derives⟩ := derives_of_parseSum hargument
    exact ⟨_, by simp [hts], derives_call hwrap argument_derives⟩
  · have hlt : us.length < ts.length := by simp [hts]
    obtain ⟨vs, rfl, inner_derives⟩ := derives_of_parseSum hinner
    exact ⟨_, by simp [hts], .paren inner_derives⟩
termination_by (ts.length, 0)

end

/-! ### Readers accept every phrase -/

/-- The tokens with which a text goes on after a phrase rather than ending it. -/
def Phrase.goesOn : Phrase → List Token
  | .atom => [.leftParen]
  | .power | .unary => [.leftParen, .caret]
  | .product => [.leftParen, .caret, .star, .slash]
  | .sum => [.leftParen, .caret, .star, .slash, .plus, .minus]

/-- The phrase is over when these tokens follow it. -/
def Phrase.EndsBefore (phrase : Phrase) (rest : List Token) : Prop :=
  ∀ t ∈ rest.head?, t ∉ phrase.goesOn

/-- The reader of a phrase takes it up to its end. A sum or a product may be the first part of a
longer one, which its reader then goes on with. -/
def Completes : Phrase → List Token → Expr → Prop
  | .atom, ts, e => ∀ rest, Phrase.atom.EndsBefore rest → Gives (parseAtom (ts ++ rest)) e rest
  | .power, ts, e => ∀ rest, Phrase.power.EndsBefore rest → Gives (parsePower (ts ++ rest)) e rest
  | .unary, ts, e => ∀ rest, Phrase.unary.EndsBefore rest → Gives (parseUnary (ts ++ rest)) e rest
  | .product, ts, e => ∀ rest, Phrase.unary.EndsBefore rest → ∀ e' rest',
      Gives (continueProduct e rest) e' rest' → Gives (parseProduct (ts ++ rest)) e' rest'
  | .sum, ts, e => ∀ rest, Phrase.product.EndsBefore rest → ∀ e' rest',
      Gives (continueSum e rest) e' rest' → Gives (parseSum (ts ++ rest)) e' rest'

theorem Phrase.endsBefore_nil (phrase : Phrase) : phrase.EndsBefore [] := nofun

theorem Phrase.endsBefore_cons {phrase : Phrase} {t : Token} {ts : List Token} :
    phrase.EndsBefore (t :: ts) ↔ t ∉ phrase.goesOn := by
  simp [Phrase.EndsBefore]

theorem Phrase.EndsBefore.mono {phrase phrase' : Phrase} {rest : List Token}
    (h : phrase.EndsBefore rest) (hsub : phrase'.goesOn ⊆ phrase.goesOn) :
    phrase'.EndsBefore rest :=
  fun t ht hmem => h t ht (hsub hmem)

theorem productOperator?_eq_none {t : Token} (h : t ∉ Phrase.product.goesOn) :
    productOperator? t = none := by
  cases t with
  | star | slash => exact absurd (by simp [Phrase.goesOn]) h
  | _ => rfl

theorem sumOperator?_eq_none {t : Token} (h : t ∉ Phrase.sum.goesOn) : sumOperator? t = none := by
  cases t with
  | plus | minus => exact absurd (by simp [Phrase.goesOn]) h
  | _ => rfl

theorem Completes.parseProduct {ts rest : List Token} {e : Expr} (h : Completes .product ts e)
    (hrest : Phrase.product.EndsBefore rest) : Gives (parseProduct (ts ++ rest)) e rest := by
  apply h rest (hrest.mono (by simp [Phrase.goesOn]))
  apply (gives_continueProduct_stop _).2 ⟨rfl, rfl⟩
  exact fun t ht => productOperator?_eq_none (hrest t ht)

theorem Completes.parseSum {ts rest : List Token} {e : Expr} (h : Completes .sum ts e)
    (hrest : Phrase.sum.EndsBefore rest) : Gives (parseSum (ts ++ rest)) e rest := by
  apply h rest (hrest.mono (by simp [Phrase.goesOn]))
  apply (gives_continueSum_stop _).2 ⟨rfl, rfl⟩
  exact fun t ht => sumOperator?_eq_none (hrest t ht)

theorem Completes.call {ts : List Token} {e : Expr} (h : Completes .sum ts e) {name : String}
    {wrap : Expr → Expr} (hwrap : function? name = some wrap) :
    Completes .atom (.ident name :: .leftParen :: (ts ++ [.rightParen])) (wrap e) := by
  intro rest _
  have hclosing : Phrase.sum.EndsBefore (.rightParen :: rest) := by
    simp [Phrase.endsBefore_cons, Phrase.goesOn]
  have hargument : Gives (Expr.parseSum (ts ++ .rightParen :: rest)) e (.rightParen :: rest) :=
    h.parseSum hclosing
  rw [List.cons_append, List.cons_append, List.append_assoc]
  exact gives_parseAtom_call.2 ⟨wrap, e, hwrap, hargument, rfl⟩

theorem completes_of_derives {phrase : Phrase} {ts : List Token} {e : Expr}
    (h : Derives phrase ts e) : Completes phrase ts e := by
  -- The left parts of sums and products come first here, while the readers take them in a loop:
  -- that is why a sum completes whatever the loop gives after it.
  induction h with
  | number v =>
    intro rest _
    exact gives_parseAtom_number.2 ⟨rfl, rfl⟩
  | ident name =>
    intro rest hrest
    refine (gives_parseAtom_ident ?_).2 ⟨rfl, rfl⟩
    intro hparen
    exact hrest _ hparen (by simp [Phrase.goesOn])
  | ceil _ ih => exact ih.call rfl
  | sqrt _ ih => exact ih.call rfl
  | @paren ts e _ ih =>
    intro rest _
    have hclosing : Phrase.sum.EndsBefore (.rightParen :: rest) := by
      simp [Phrase.endsBefore_cons, Phrase.goesOn]
    rw [List.cons_append, List.append_assoc]
    exact gives_parseAtom_paren.2 (ih.parseSum hclosing)
  | @base ts e _ ih =>
    intro rest hrest
    have hatom := ih rest (hrest.mono (by simp [Phrase.goesOn]))
    refine gives_parsePower.2 ⟨e, rest, hatom, .inr ⟨?_, rfl, rfl⟩⟩
    intro hcaret
    exact hrest _ hcaret (by simp [Phrase.goesOn])
  | @pow ts us b e _ _ ihbase ihexponent =>
    intro rest hrest
    have hbase := ihbase (.caret :: us ++ rest) (by simp [Phrase.EndsBefore, Phrase.goesOn])
    have hexponent := ihexponent rest (hrest.mono (by simp [Phrase.goesOn]))
    rw [List.append_assoc]
    exact gives_parsePower.2 ⟨b, _, hbase, .inl ⟨us ++ rest, e, rfl, hexponent, rfl⟩⟩
  | power _ ih =>
    intro rest hrest
    exact gives_parseUnary_of_power (ih rest hrest)
  | minus _ ih =>
    intro rest hrest
    exact gives_parseUnary_minus.2 ⟨_, ih rest hrest, rfl⟩
  | plus _ ih =>
    intro rest hrest
    exact gives_parseUnary_plus.2 (ih rest hrest)
  | factor _ ih =>
    intro rest hrest e' rest' hmore
    exact gives_parseProduct.2 ⟨_, _, ih rest hrest, hmore⟩
  | @product ts us t op l r _ hop _ ihleft ihright =>
    intro rest hrest e' rest' hmore
    rw [List.append_assoc]
    apply ihleft (t :: us ++ rest)
    · cases t <;> cases hop <;> simp [Phrase.EndsBefore, Phrase.goesOn]
    · exact (gives_continueProduct_cons hop).2 ⟨r, rest, ihright rest hrest, hmore⟩
  | summand _ ih =>
    intro rest hrest e' rest' hmore
    exact gives_parseSum.2 ⟨_, _, ih.parseProduct hrest, hmore⟩
  | @sum ts us t op l r _ hop _ ihleft ihright =>
    intro rest hrest e' rest' hmore
    rw [List.append_assoc]
    apply ihleft (t :: us ++ rest)
    · cases t <;> cases hop <;> simp [Phrase.EndsBefore, Phrase.goesOn]
    · exact (gives_continueSum_cons hop).2 ⟨r, rest, ihright.parseProduct hrest, hmore⟩

/-! ### Whole token lists -/

theorem gives_parseSum_nil_iff {ts : List Token} {e : Expr} :
    Gives (parseSum ts) e [] ↔ Derives .sum ts e := by
  constructor
  · intro h
    obtain ⟨us, rfl, hus⟩ := derives_of_parseSum h
    rwa [List.append_nil]
  · intro h
    have hread := (completes_of_derives h).parseSum (Phrase.endsBefore_nil _)
    rwa [List.append_nil] at hread

theorem ofTokens_eq_ok_iff {ts : List Token} {e : Expr} :
    ofTokens ts = .ok e ↔ Derives .sum ts e := by
  rw [← gives_parseSum_nil_iff, ofTokens, Gives, map_eq_ok, bind_eq_ok]
  apply exists_congr
  rintro ⟨⟨e', rest⟩, h⟩
  apply and_congr_right
  intro _
  cases rest with
  | nil => simp [finish, Bind.bind, Except.bind, Pure.pure, Except.pure]
  | cons t ts => simp [finish, Bind.bind, Except.bind]

-- the minus sign in front is around the power, the one behind the caret is inside it
example : ofTokens [.minus, .ident "x", .caret, .minus, .ident "y"] =
    .ok (.neg (.binary .pow (.ident "x") (.neg (.ident "y")))) := by cbv

/-- A list of tokens has one tree at most. -/
theorem derives_unique {ts : List Token} {e e' : Expr} (h : Derives .sum ts e)
    (h' : Derives .sum ts e') : e = e' := by
  have hread := ofTokens_eq_ok_iff.2 h
  rw [ofTokens_eq_ok_iff.2 h', Except.ok.injEq] at hread
  exact hread.symm

theorem parse_eq_ok_iff {source : String} {e : Expr} :
    parse source = .ok e ↔ ∃ ts, scan source = .ok ts ∧ Derives .sum ts e := by
  rw [parse, bind_eq_ok]
  simp only [mapError_eq_ok, ofTokens_eq_ok_iff]

/-- A list of tokens is read as an expression exactly when it is a sum, with the tree of that sum,
and refused exactly when it is none; a text is read by its tokens. -/
theorem parse_accepts_grammar :
    (∀ ts e, ofTokens ts = .ok e ↔ Derives .sum ts e) ∧
    (∀ ts, (∃ err, ofTokens ts = .error err) ↔ ∀ e, ¬Derives .sum ts e) ∧
    ∀ source e, parse source = .ok e ↔ ∃ ts, scan source = .ok ts ∧ Derives .sum ts e := by
  refine ⟨fun ts e => ofTokens_eq_ok_iff, ?_, fun source e => parse_eq_ok_iff⟩
  intro ts
  simp only [← ofTokens_eq_ok_iff]
  cases ofTokens ts with
  | error err => exact iff_of_true ⟨err, rfl⟩ nofun
  | ok e => exact iff_of_false nofun (fun h => h e rfl)

/-! ### Lists of expressions -/

theorem gives_iff_exists {P : Expr × List Token → Prop} {r : Except SyntaxError {p // P p}} {e : Expr}
    {rest : List Token} : Gives r e rest ↔ ∃ h, r = .ok ⟨(e, rest), h⟩ := by
  constructor
  · intro h
    refine ⟨h.property, ?_⟩
    cases r with
    | error err => exact absurd h not_gives_error
    | ok p =>
      obtain ⟨rfl, rfl⟩ := gives_ok.1 h
      rfl
  · rintro ⟨h, rfl⟩
    exact gives_ok.2 ⟨rfl, rfl⟩

/-- More terms are groups of tokens that are sums, each behind a comma. -/
theorem groups_of_parseMore {ts : List Token} {terms : List Expr}
    (h : parseMore ts = .ok (terms, [])) :
    ∃ groups, List.Forall₂ (Derives .sum) groups terms ∧ ts = groups.flatMap (.comma :: ·) := by
  rw [parseMore.eq_def] at h
  split at h
  · rename_i more
    obtain ⟨⟨⟨term, left⟩, hlt⟩, hterm, h⟩ := bind_eq_ok.1 h
    obtain ⟨⟨terms', rest'⟩, hmore, h⟩ := bind_eq_ok.1 h
    cases h
    obtain ⟨group, hgroup, term_derives⟩ := derives_of_parseSum (gives_iff_exists.2 ⟨_, hterm⟩)
    obtain ⟨groups, groups_derive, hgroups⟩ := groups_of_parseMore hmore
    refine ⟨group :: groups, .cons term_derives groups_derive, ?_⟩
    rw [hgroup, hgroups]
    rfl
  · cases h
    exact ⟨[], .nil, rfl⟩
termination_by ts.length
decreasing_by
  subst_vars
  simp only [List.length_cons]
  dsimp only at hlt
  omega

theorem endsBefore_groups (groups : List (List Token)) :
    Phrase.sum.EndsBefore (groups.flatMap (.comma :: ·)) := by
  cases groups with
  | nil => exact Phrase.endsBefore_nil _
  | cons group groups => simp [Phrase.EndsBefore, Phrase.goesOn]

theorem gives_parseSum_group {group : List Token} {term : Expr} (h : Derives .sum group term)
    (groups : List (List Token)) : Gives (parseSum (group ++ groups.flatMap (.comma :: ·))) term
      (groups.flatMap (.comma :: ·)) :=
  (completes_of_derives h).parseSum (endsBefore_groups groups)

theorem parseMore_groups {groups : List (List Token)} {terms : List Expr}
    (h : List.Forall₂ (Derives .sum) groups terms) :
    parseMore (groups.flatMap (.comma :: ·)) = .ok (terms, []) := by
  induction h with
  | nil =>
    rw [List.flatMap_nil, parseMore]
    · rfl
    · intro rest h
      cases h
  | @cons group term groups terms hgroup _ ih =>
    obtain ⟨hlt, hterm⟩ := gives_iff_exists.1 (gives_parseSum_group hgroup groups)
    rw [List.flatMap_cons, List.cons_append, parseMore]
    exact bind_eq_ok.2 ⟨_, hterm, bind_eq_ok.2 ⟨_, ih, rfl⟩⟩

/-- A list of tokens is read as a list of expressions exactly when it is sums with commas between
them. -/
theorem listOfTokens_eq_ok_iff {ts : List Token} {terms : List Expr} :
    listOfTokens ts = .ok terms ↔ ∃ groups, groups ≠ [] ∧
      List.Forall₂ (Derives .sum) groups terms ∧ ts = [.comma].intercalate groups := by
  rw [listOfTokens]
  constructor
  · intro h
    obtain ⟨⟨⟨term, left⟩, hlt⟩, hterm, h⟩ := bind_eq_ok.1 h
    obtain ⟨⟨terms', rest⟩, hmore, h⟩ := bind_eq_ok.1 h
    obtain ⟨_, hfinish, h⟩ := bind_eq_ok.1 h
    cases h
    obtain rfl : rest = [] := by
      cases rest with
      | nil => rfl
      | cons t rest => simp [finish] at hfinish
    obtain ⟨group, hgroup, term_derives⟩ := derives_of_parseSum (gives_iff_exists.2 ⟨_, hterm⟩)
    obtain ⟨groups, groups_derive, hgroups⟩ := groups_of_parseMore hmore
    refine ⟨group :: groups, List.cons_ne_nil _ _, .cons term_derives groups_derive, ?_⟩
    rw [intercalate_cons_eq, hgroup, hgroups]
  · rintro ⟨_, hne, hgroups, rfl⟩
    cases hgroups with
    | nil => exact absurd rfl hne
    | @cons group term groups terms hgroup hgroups =>
      obtain ⟨hlt, hterm⟩ := gives_iff_exists.1 (gives_parseSum_group hgroup groups)
      rw [intercalate_cons_eq]
      exact bind_eq_ok.2 ⟨_, hterm, bind_eq_ok.2 ⟨_, parseMore_groups hgroups,
        bind_eq_ok.2 ⟨(), rfl, rfl⟩⟩⟩

theorem derives_of_listOfTokens {ts : List Token} {terms : List Expr}
    (h : listOfTokens ts = .ok terms) :
    terms ≠ [] ∧ ∀ e ∈ terms, ∃ us, us ⊆ ts ∧ Derives .sum us e := by
  obtain ⟨groups, hne, hgroups, rfl⟩ := listOfTokens_eq_ok_iff.1 h
  constructor
  · rintro rfl
    exact hne (List.forall₂_nil_right_iff.1 hgroups)
  · intro e he
    obtain ⟨us, hus, hderives⟩ := exists_mem_of_forall₂ hgroups.flip he
    exact ⟨us, (infix_intercalate hus).subset, hderives⟩

end MarkovFit.Proofs
