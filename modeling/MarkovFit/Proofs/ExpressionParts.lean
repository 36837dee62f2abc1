import MarkovFit.Proofs.Outcomes
import Mathlib.Tactic

/-!
# Parts of expressions

An expression is evaluated from the values of its operands. If it has a value, so has every part of
it; if it has none, its evaluation stops at one part, whose operands still have values. A value
depends only on what the names in the expression stand for.
-/

namespace MarkovFit.Proofs

/-- What the outermost operation of an expression works on, in the order of evaluation. -/
def operands : Expr → List Expr
  | .number _ | .ident _ => []
  | .neg e | .ceil e | .sqrt e => [e]
  | .binary _ l r => [l, r]

/-- A part of an expression is the expression itself or a part of an operand. -/
inductive IsPart (d : Expr) : Expr → Prop where
  | whole : IsPart d d
  | operand {o e : Expr} (ho : o ∈ operands e) (h : IsPart d o) : IsPart d e

variable {lookup lookup' : String → Option Decimal} {d e o : Expr} {v : Decimal} {f : Failure}

def HasValue (lookup : String → Option Decimal) (e : Expr) : Prop := ∃ v, e.evaluate lookup = .ok v

/-- The evaluation of an expression stops at this part: everything before it has a value, and so have
its operands, but it has none. -/
inductive StopsAt (lookup : String → Option Decimal) (d : Expr) : Expr → Prop where
  | whole (hvalues : ∀ o ∈ operands d, HasValue lookup o) (h : ¬HasValue lookup d) :
    StopsAt lookup d d
  | operand {before after : List Expr} {o e : Expr} (he : operands e = before ++ o :: after)
    (hvalues : ∀ o ∈ before, HasValue lookup o) (h : StopsAt lookup d o) : StopsAt lookup d e

theorem StopsAt.isPart (h : StopsAt lookup d e) : IsPart d e := by
  induction h with
  | whole => exact .whole
  | operand he _ _ ih => exact .operand (he ▸ List.mem_append_cons_self) ih

theorem StopsAt.hasValue_operands (h : StopsAt lookup d e) : ∀ o ∈ operands d, HasValue lookup o := by
  induction h with
  | whole hvalues => exact hvalues
  | operand _ _ _ ih => exact ih

theorem StopsAt.not_hasValue (h : StopsAt lookup d e) : ¬HasValue lookup d := by
  induction h with
  | whole _ h => exact h
  | operand _ _ _ ih => exact ih

/-! ### Evaluation from the operands -/

theorem hasValue_operand (h : HasValue lookup e) (ho : o ∈ operands e) : HasValue lookup o := by
  obtain ⟨v, hv⟩ := h
  cases e with
  | number | ident => cases ho
  | neg e | ceil e | sqrt e =>
    obtain rfl := List.mem_singleton.1 ho
    obtain ⟨a, ha, -⟩ := bind_eq_ok.1 hv
    exact ⟨a, ha⟩
  | binary op l r =>
    obtain ⟨a, ha, hv⟩ := bind_eq_ok.1 hv
    obtain ⟨b, hb, -⟩ := bind_eq_ok.1 hv
    obtain rfl | ho := List.mem_cons.1 ho
    · exact ⟨a, ha⟩
    · obtain rfl := List.mem_singleton.1 ho
      exact ⟨b, hb⟩

theorem hasValue_part (h : HasValue lookup e) (hd : IsPart d e) : HasValue lookup d := by
  induction hd with
  | whole => exact h
  | operand ho _ ih => exact ih (hasValue_operand h ho)

lemma eq_of_singleton {before after : List Expr} (h : [e] = before ++ o :: after) :
    before = [] ∧ o = e := by
  cases before with
  | nil => exact ⟨rfl, (List.cons.inj h).1.symm⟩
  | cons first before => simp at h

/-- The first operand without a value decides the failure. -/
theorem evaluate_of_operand {before after : List Expr} (he : operands e = before ++ o :: after)
    (hvalues : ∀ o ∈ before, HasValue lookup o) (h : o.evaluate lookup = .error f) :
    e.evaluate lookup = .error f := by
  cases e with
  | number | ident => simp [operands] at he
  | neg e | ceil e | sqrt e =>
    obtain ⟨rfl, rfl⟩ := eq_of_singleton he
    rw [Expr.evaluate, h]
    rfl
  | binary op l r =>
    cases before with
    | nil =>
      obtain ⟨rfl, -⟩ := List.cons.inj he
      rw [Expr.evaluate, h]
      rfl
    | cons first before =>
      obtain ⟨rfl, hrest⟩ := List.cons.inj he
      obtain ⟨a, ha⟩ := hvalues l List.mem_cons_self
      obtain ⟨rfl, rfl⟩ := eq_of_singleton hrest
      rw [Expr.evaluate, ha]
      change (o.evaluate lookup >>= _) = _
      rw [h]
      rfl

theorem not_hasValue_iff : ¬HasValue lookup e ↔ ∃ f, e.evaluate lookup = .error f := by
  rw [HasValue]
  cases e.evaluate lookup <;> simp

/-- An operand without a value has values before it only. -/
theorem exists_first_operand (os : List Expr) (h : ¬∀ o ∈ os, HasValue lookup o) :
    ∃ before o after, os = before ++ o :: after ∧ (∀ o ∈ before, HasValue lookup o) ∧
      ¬HasValue lookup o := by
  induction os with
  | nil => exact absurd (List.forall_mem_nil _) h
  | cons o os ih =>
    by_cases ho : HasValue lookup o
    · have hrest : ¬∀ o ∈ os, HasValue lookup o := fun hall =>
        h (List.forall_mem_cons.2 ⟨ho, hall⟩)
      obtain ⟨before, o', after, rfl, hbefore, ho'⟩ := ih hrest
      exact ⟨o :: before, o', after, rfl, List.forall_mem_cons.2 ⟨ho, hbefore⟩, ho'⟩
    · exact ⟨[], o, os, rfl, List.forall_mem_nil _, ho⟩

theorem sizeOf_lt_of_mem_operands (ho : o ∈ operands e) : sizeOf o < sizeOf e := by
  cases e with
  | number | ident => cases ho
  | neg e | ceil e | sqrt e =>
    obtain rfl := List.mem_singleton.1 ho
    simp
  | binary op l r =>
    obtain rfl | ho := List.mem_cons.1 ho
    · simp
      omega
    · obtain rfl := List.mem_singleton.1 ho
      simp

/-- An expression without a value has a part at which its evaluation stops. -/
theorem exists_stopsAt (h : ¬HasValue lookup e) : ∃ d, StopsAt lookup d e := by
  -- On the size: the operand at which the evaluation stops is found in a list.
  induction hn : sizeOf e using Nat.strong_induction_on generalizing e with
  | _ n ih =>
    subst hn
    by_cases hall : ∀ o ∈ operands e, HasValue lookup o
    · exact ⟨e, .whole hall h⟩
    · obtain ⟨before, o, after, he, hbefore, ho⟩ := exists_first_operand _ hall
      have hlt := sizeOf_lt_of_mem_operands (he ▸ List.mem_append_cons_self : o ∈ operands e)
      obtain ⟨d, hd⟩ := ih _ hlt ho rfl
      exact ⟨d, .operand he hbefore hd⟩

theorem StopsAt.evaluate_eq (h : StopsAt lookup d e) (hd : d.evaluate lookup = .error f) :
    e.evaluate lookup = .error f := by
  induction h with
  | whole => exact hd
  | operand he hvalues _ ih => exact evaluate_of_operand he hvalues ih

/-- An expression fails as the part does at which its evaluation stops. -/
theorem evaluate_eq_error_iff :
    e.evaluate lookup = .error f ↔ ∃ d, StopsAt lookup d e ∧ d.evaluate lookup = .error f := by
  constructor
  · intro h
    obtain ⟨d, hd⟩ := exists_stopsAt (not_hasValue_iff.2 ⟨f, h⟩)
    obtain ⟨f', hf'⟩ := not_hasValue_iff.1 hd.not_hasValue
    have hsame := hd.evaluate_eq hf'
    rw [h] at hsame
    cases hsame
    exact ⟨d, hd, hf'⟩
  · rintro ⟨d, hd, hf⟩
    exact hd.evaluate_eq hf

/-! ### Where an evaluation stops -/

theorem evaluate_sqrt {a : Decimal} (ha : o.evaluate lookup = .ok a) :
    (Expr.sqrt o).evaluate lookup =
      match a.sqrt with
      | .ok root => .ok root
      | .error .negative => .error (.arithmetic (.negativeRoot a))
      | .error .unsettled => .error (.fault .unsettledRoot) := by
  rw [Expr.evaluate, ha]
  rfl

theorem evaluate_binary {op : Operator} {l r : Expr} {a b : Decimal} (ha : l.evaluate lookup = .ok a)
    (hb : r.evaluate lookup = .ok b) : (Expr.binary op l r).evaluate lookup = op.apply a b := by
  rw [Expr.evaluate, ha]
  change (r.evaluate lookup >>= _) = _
  rw [hb]
  rfl

/-- A name without a value, a root that does not exist or an operation that fails. -/
inductive StopCause (lookup : String → Option Decimal) : Expr → Failure → Prop where
  | name {name : String} (h : lookup name = none) :
    StopCause lookup (.ident name) (.undefinedIdentifier name)
  | negativeRoot {o : Expr} {a : Decimal} (ha : o.evaluate lookup = .ok a)
    (h : a.sqrt = .error .negative) : StopCause lookup (.sqrt o) (.arithmetic (.negativeRoot a))
  | unsettledRoot {o : Expr} {a : Decimal} (ha : o.evaluate lookup = .ok a)
    (h : a.sqrt = .error .unsettled) : StopCause lookup (.sqrt o) (.fault .unsettledRoot)
  | operation {op : Operator} {l r : Expr} {a b : Decimal} {f : Failure}
    (ha : l.evaluate lookup = .ok a) (hb : r.evaluate lookup = .ok b)
    (h : op.apply a b = .error f) : StopCause lookup (.binary op l r) f

theorem stopCause_of_operands (hvalues : ∀ o ∈ operands d, HasValue lookup o)
    (hf : d.evaluate lookup = .error f) : StopCause lookup d f := by
  cases d with
  | number value => cases hf
  | ident name =>
    rw [Expr.evaluate] at hf
    split at hf
    · cases hf
    · rename_i hnone
      cases hf
      exact .name hnone
  | neg o | ceil o =>
    obtain ⟨a, ha⟩ := hvalues o List.mem_cons_self
    rw [Expr.evaluate, ha] at hf
    cases hf
  | sqrt o =>
    obtain ⟨a, ha⟩ := hvalues o List.mem_cons_self
    rw [evaluate_sqrt ha] at hf
    split at hf
    · cases hf
    · rename_i hnegative
      cases hf
      exact .negativeRoot ha hnegative
    · rename_i hunsettled
      cases hf
      exact .unsettledRoot ha hunsettled
  | binary op l r =>
    obtain ⟨a, ha⟩ := hvalues l List.mem_cons_self
    obtain ⟨b, hb⟩ := hvalues r (List.mem_cons_of_mem _ List.mem_cons_self)
    rw [evaluate_binary ha hb] at hf
    exact .operation ha hb hf

/-- What an expression fails with is the failure of the part at which its evaluation stops. -/
theorem exists_stopCause (h : e.evaluate lookup = .error f) :
    ∃ d, StopsAt lookup d e ∧ StopCause lookup d f := by
  obtain ⟨d, hd, hf⟩ := evaluate_eq_error_iff.1 h
  exact ⟨d, hd, stopCause_of_operands hd.hasValue_operands hf⟩

theorem orArithmetic_eq_error {α : Type} {cause : ArithmeticCause} {x : Option α} :
    orArithmetic cause x = .error f ↔ x = none ∧ f = .arithmetic cause := by
  cases x <;> simp [orArithmetic, eq_comm]

/-- Operations on two decimals fail by their arithmetic. -/
theorem apply_eq_error {op : Operator} {a b : Decimal} (h : op.apply a b = .error f) :
    ∃ cause, f = .arithmetic cause := by
  cases op with
  | add | sub | mul => exact ⟨_, (orArithmetic_eq_error.1 h).2⟩
  | div =>
    rw [Operator.apply] at h
    split at h
    · cases h
      exact ⟨_, rfl⟩
    · exact ⟨_, (orArithmetic_eq_error.1 h).2⟩
  | pow =>
    rw [Operator.apply, Operator.applyPow] at h
    split at h
    · split at h
      · cases h
        exact ⟨_, rfl⟩
      · split at h
        · cases h
          exact ⟨_, rfl⟩
        · exact ⟨_, (orArithmetic_eq_error.1 h).2⟩
    · split at h
      · cases h
        exact ⟨_, rfl⟩
      · exact ⟨_, (orArithmetic_eq_error.1 h).2⟩

/-! ### Names -/

theorem mem_insertName_iff {name n : String} {names : List String} :
    n ∈ Expr.insertName name names ↔ n = name ∨ n ∈ names := by
  induction names with
  | nil => simp [Expr.insertName]
  | cons m names ih =>
    rw [Expr.insertName]
    split
    · simp
    · split
      · rename_i heq
        simp [heq]
      · rw [List.mem_cons, ih, List.mem_cons]
        exact or_left_comm

theorem isPart_iff : IsPart d e ↔ d = e ∨ ∃ o ∈ operands e, IsPart d o := by
  constructor
  · rintro (_ | ⟨ho, h⟩)
    · exact .inl rfl
    · exact .inr ⟨_, ho, h⟩
  · rintro (rfl | ⟨o, ho, h⟩)
    · exact .whole
    · exact .operand ho h

theorem mem_addIdentifiers_iff {n : String} {names : List String} :
    n ∈ e.addIdentifiers names ↔ IsPart (.ident n) e ∨ n ∈ names := by
  induction e generalizing names with
  | number value =>
    rw [Expr.addIdentifiers, isPart_iff]
    simp [operands]
  | ident name =>
    rw [Expr.addIdentifiers, isPart_iff, mem_insertName_iff]
    simp [operands]
  | neg e ih =>
    rw [Expr.addIdentifiers, ih, isPart_iff (e := .neg e)]
    simp [operands]
  | ceil e ih =>
    rw [Expr.addIdentifiers, ih, isPart_iff (e := .ceil e)]
    simp [operands]
  | sqrt e ih =>
    rw [Expr.addIdentifiers, ih, isPart_iff (e := .sqrt e)]
    simp [operands]
  | binary op l r ihl ihr =>
    rw [Expr.addIdentifiers, ihr, ihl, isPart_iff (e := .binary op l r), or_left_comm]
    simp [operands, or_assoc]

/-- The names of an expression are those that stand in it at any depth. -/
theorem mem_identifiers_iff {n : String} : n ∈ e.identifiers ↔ IsPart (.ident n) e := by
  rw [Expr.identifiers, mem_addIdentifiers_iff]
  simp

/-- The outcome depends only on what the names in the expression stand for. -/
theorem evaluate_eq_of_lookup_eq (h : ∀ n, IsPart (.ident n) e → lookup n = lookup' n) :
    e.evaluate lookup = e.evaluate lookup' := by
  induction e with
  | number value => rfl
  | ident name =>
    rw [Expr.evaluate, Expr.evaluate, h name .whole]
  | neg e ih | ceil e ih | sqrt e ih =>
    have he := ih fun n hn => h n (.operand List.mem_cons_self hn)
    rw [Expr.evaluate, Expr.evaluate, he]
  | binary op l r ihl ihr =>
    have hl := ihl fun n hn => h n (.operand List.mem_cons_self hn)
    have hr := ihr fun n hn => h n (.operand (List.mem_cons_of_mem _ List.mem_cons_self) hn)
    rw [Expr.evaluate, Expr.evaluate, hl, hr]

end MarkovFit.Proofs
