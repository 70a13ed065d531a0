/-
DepSchema.Proofs.Oracle.Integers — folding computes with the integers.

Literals have 64 bits and come in two kinds, and which kind an operator gives depends on its
operands and on the sign of the result. None of this shows in the value: an expression of whole
numbers is folded to a literal of its exact value or to no literal at all. As long as the values of
its parts fit a signed literal it is folded to one, so that among such expressions the structural
oracle finds out which have the same value.

Main definitions: `Expr.whole?` and `Expr.Small`. Main result: `fold_exact`.
-/
import DepSchema.Proofs.Dispatch.Instances
import DepSchema.Proofs.Oracle.Meaning

namespace DepSchema

/-! ## §1. Operators between literals. -/

namespace Scalar

/-- The number has a signed literal. -/
def FitsSigned (n : Int) : Prop := -2 ^ 63 ≤ n ∧ n < 2 ^ 63

theorem exists_signedOf? {n : Int} (hn : FitsSigned n) : ∃ v, signedOf? n = some v := by
  have hbounds : -0x8000000000000000 ≤ n ∧ n < 0x8000000000000000 := by
    simpa [FitsSigned] using hn
  exact ⟨_, if_pos hbounds⟩

end Scalar

namespace BinaryOp

variable {op : BinaryOp} {f : Int → Int → Int} {a b : Scalar} {m n : Int}

/-- What an operator gives for two integer literals is an exact result. -/
theorem integer?_of_eval? (hop : op.onIntegers? = some f) (ha : a.integer? = some m)
    (hb : b.integer? = some n) {v : Scalar} (h : op.eval? a b = some v) :
    v.integer? = some (f m n) := by
  simp only [eval?, ha, hb, hop, Option.bind_eq_bind, Option.bind_some] at h
  split at h
  · -- unsigned operands: an unsigned literal if the result fits, else a signed one
    rw [Option.orElse_eq_orElse, Option.orElse_eq_or] at h
    rcases Option.or_eq_some_iff.mp h with h | ⟨-, h⟩
    · exact Scalar.integer?_of_unsignedOf? h
    · exact Scalar.integer?_of_signedOf? h
  · exact Scalar.integer?_of_signedOf? h

/-- An operator gives a literal wherever the result has a signed one. -/
theorem exists_eval? (hop : op.onIntegers? = some f) (ha : a.integer? = some m)
    (hb : b.integer? = some n) (hfits : Scalar.FitsSigned (f m n)) :
    ∃ v, op.eval? a b = some v := by
  obtain ⟨v, hv⟩ := Scalar.exists_signedOf? hfits
  simp only [eval?, ha, hb, hop, Option.bind_eq_bind, Option.bind_some, hv]
  split
  · rw [Option.orElse_eq_orElse, Option.orElse_eq_or]
    cases Scalar.unsignedOf? (f m n) with
    | none => exact ⟨v, rfl⟩
    | some w => exact ⟨w, rfl⟩
  · exact ⟨v, rfl⟩

end BinaryOp

namespace UnaryOp

variable {a : Scalar} {m : Int}

theorem integer?_of_neg (ha : a.integer? = some m) {v : Scalar} (h : neg.eval? a = some v) :
    v.integer? = some (-m) := by
  cases a with
  | int i =>
    cases ha
    exact Scalar.integer?_of_signedOf? h
  | unsigned i =>
    cases ha
    exact Scalar.integer?_of_signedOf? (Option.ite_none_right_eq_some.mp h).2
  | _ => cases ha

/-- A literal is negated wherever it and the result have signed ones. -/
theorem exists_neg (ha : a.integer? = some m) (hm : Scalar.FitsSigned m)
    (hneg : Scalar.FitsSigned (-m)) : ∃ v, neg.eval? a = some v := by
  obtain ⟨v, hv⟩ := Scalar.exists_signedOf? hneg
  cases a with
  | int i =>
    cases ha
    exact ⟨v, hv⟩
  | unsigned i =>
    cases ha
    -- an unsigned literal is negated only if it is below 2^63
    have hlt : i.toNat < 0x8000000000000000 := by
      have hlt := hm.2
      omega
    exact ⟨v, (if_pos hlt).trans hv⟩
  | _ => cases ha

end UnaryOp

/-! ## §2. Expressions of whole numbers. -/

namespace Expr

/-- The exact value of an expression of whole numbers: integer literals of either kind, their sums,
differences and products, and negations. -/
def whole? : Expr → Option Int
  | scalar _ (.int v) => some v.toInt
  | scalar _ (.unsigned v) => some v.toNat
  | binary _ .add l r => return (← whole? l) + (← whole? r)
  | binary _ .sub l r => return (← whole? l) - (← whole? r)
  | binary _ .mul l r => return (← whole? l) * (← whole? r)
  | unary _ .neg x => return - (← whole? x)
  | _ => none
termination_by structural e => e

/-- The expression and the operands in it, at any depth. -/
def operands : Expr → List Expr
  | binary s op l r => binary s op l r :: (operands l ++ operands r)
  | unary s op x => unary s op x :: operands x
  | e => [e]
termination_by structural e => e

/-- The exact values of the expression and of all operands in it have signed literals. -/
def Small (e : Expr) : Prop := ∀ x ∈ e.operands, ∀ n, x.whole? = some n → Scalar.FitsSigned n

instance (e : Expr) : Decidable e.Small :=
  decidable_of_iff (∀ x ∈ e.operands, ∀ n ∈ x.whole?, -2 ^ 63 ≤ n ∧ n < 2 ^ 63) Iff.rfl

variable {e l r x : Expr} {n : Int}

theorem mem_operands_self (e : Expr) : e ∈ e.operands := by
  cases e <;> exact List.mem_cons_self

theorem Small.fits (h : e.Small) (he : e.whole? = some n) : Scalar.FitsSigned n :=
  h e (mem_operands_self e) n he

theorem Small.left {span : Span} {op : BinaryOp} (h : (binary span op l r).Small) : l.Small :=
  fun x hx => h x (List.mem_cons_of_mem _ (List.mem_append_left _ hx))

theorem Small.right {span : Span} {op : BinaryOp} (h : (binary span op l r).Small) : r.Small :=
  fun x hx => h x (List.mem_cons_of_mem _ (List.mem_append_right _ hx))

theorem Small.operand {span : Span} {op : UnaryOp} (h : (unary span op x).Small) : x.Small :=
  fun y hy => h y (List.mem_cons_of_mem _ hy)

theorem of_whole?_scalar {span : Span} {v : Scalar} (h : (scalar span v).whole? = some n) :
    v.integer? = some n := by
  cases v with
  | int i => exact h
  | unsigned i => exact h
  | _ => cases h

theorem of_whole?_binary {span : Span} {op : BinaryOp} (h : (binary span op l r).whole? = some n) :
    ∃ f a b, op.onIntegers? = some f ∧ l.whole? = some a ∧ r.whole? = some b ∧ f a b = n := by
  cases op <;>
    simp only [whole?, Option.bind_eq_bind, Option.bind_eq_some_iff, Option.pure_def,
      Option.some.injEq, reduceCtorEq] at h <;>
    obtain ⟨a, ha, b, hb, hn⟩ := h
  · exact ⟨_, a, b, rfl, ha, hb, hn⟩
  · exact ⟨_, a, b, rfl, ha, hb, hn⟩
  · exact ⟨_, a, b, rfl, ha, hb, hn⟩

theorem of_whole?_unary {span : Span} {op : UnaryOp} (h : (unary span op x).whole? = some n) :
    op = .neg ∧ ∃ a, x.whole? = some a ∧ -a = n := by
  cases op with
  | not => cases h
  | neg =>
    simp only [whole?, Option.bind_eq_bind, Option.bind_eq_some_iff, Option.pure_def,
      Option.some.injEq] at h
    exact ⟨rfl, h⟩

/-! ## §3. Their literals. -/

/-- **Folding is exact**: whatever literal comes out stands for the exact value. -/
theorem integer?_of_fold : ∀ {e : Expr} {n : Int}, e.whole? = some n →
    ∀ v, e.fold.scalar? = some v → v.integer? = some n
  | .scalar _ _, _, h, v, hv => by
    cases hv
    exact of_whole?_scalar h
  | .binary span op l r, _, h, v, hv => by
    obtain ⟨f, a, b, hop, hl, hr, rfl⟩ := of_whole?_binary h
    rw [fold, scalar?_evalBinary] at hv
    obtain ⟨left, hleft, hv⟩ := Option.bind_eq_some_iff.mp hv
    obtain ⟨right, hright, hv⟩ := Option.bind_eq_some_iff.mp hv
    exact BinaryOp.integer?_of_eval? hop (integer?_of_fold hl left hleft)
      (integer?_of_fold hr right hright) hv
  | .unary span op x, _, h, v, hv => by
    obtain ⟨rfl, a, hx, rfl⟩ := of_whole?_unary h
    rw [fold, scalar?_evalUnary] at hv
    obtain ⟨operand, hoperand, hv⟩ := Option.bind_eq_some_iff.mp hv
    exact UnaryOp.integer?_of_neg (integer?_of_fold hx operand hoperand) hv

/-- **What stays in range is folded to a literal.** -/
theorem exists_fold : ∀ {e : Expr} {n : Int}, e.whole? = some n → e.Small →
    ∃ v, e.fold = .scalar e.span v
  | .scalar _ v, _, _, _ => ⟨v, rfl⟩
  | .binary span op l r, _, h, hsmall => by
    obtain ⟨f, a, b, hop, hl, hr, rfl⟩ := of_whole?_binary h
    obtain ⟨left, hleft⟩ := exists_fold hl hsmall.left
    obtain ⟨right, hright⟩ := exists_fold hr hsmall.right
    have ha := integer?_of_fold hl left (by rw [hleft]; rfl)
    have hb := integer?_of_fold hr right (by rw [hright]; rfl)
    obtain ⟨v, hv⟩ := BinaryOp.exists_eval? hop ha hb (hsmall.fits h)
    refine ⟨v, ?_⟩
    rw [fold, hleft, hright]
    simp only [evalBinary, scalar?, hv, Expr.span]
  | .unary span op x, _, h, hsmall => by
    obtain ⟨rfl, a, hx, rfl⟩ := of_whole?_unary h
    obtain ⟨operand, hoperand⟩ := exists_fold hx hsmall.operand
    have ha := integer?_of_fold hx operand (by rw [hoperand]; rfl)
    obtain ⟨v, hv⟩ := UnaryOp.exists_neg ha (hsmall.operand.fits hx) (hsmall.fits h)
    refine ⟨v, ?_⟩
    rw [fold, hoperand]
    simp only [evalUnary, scalar?, Option.bind_some, hv, Expr.span]

/-- **Integer folding is exact**: an expression of whole numbers is folded to no literal but one of
its exact value, whatever its parts are; if they are all in the range of signed literals it is
folded to one; and of two such expressions the structural oracle says whether the values are equal.
-/
theorem fold_exact {e : Expr} {n : Int} (he : e.whole? = some n) :
    (∀ v, e.fold.scalar? = some v → v.integer? = some n)
      ∧ (e.Small → ∃ v, e.fold = .scalar e.span v ∧ v.integer? = some n)
      ∧ ∀ (e' : Expr) (n' : Int), e'.whole? = some n' → e.Small → e'.Small →
          ∀ past scopes, Structural.oracle past (.equal e e' scopes) = .ok true ↔ n = n' := by
  have hliteral : ∀ {e : Expr} {n : Int}, e.whole? = some n → e.Small →
      ∃ v, e.fold = .scalar e.span v ∧ v.integer? = some n := by
    intro e n he hsmall
    obtain ⟨v, hv⟩ := exists_fold he hsmall
    exact ⟨v, hv, integer?_of_fold he v (by rw [hv]; rfl)⟩
  refine ⟨integer?_of_fold he, hliteral he, fun e' n' he' hsmall hsmall' past scopes => ?_⟩
  obtain ⟨v, hfold, hv⟩ := hliteral he hsmall
  obtain ⟨v', hfold', hv'⟩ := hliteral he' hsmall'
  rw [Structural.oracle, Except.ok.injEq, Structural.equal, hfold, hfold']
  simp only [sameAs, Scalar.sameAs, hv, hv', beq_iff_eq]

/-! ## The ends of the range. -/

namespace Example

/-- An unsigned literal. -/
def unsigned (n : UInt64) : Expr := .scalar ⟨0, 0⟩ (.unsigned n)

/-- The smallest number that has a signed literal, from an unsigned one: `-(2^63 - 1) - 1`. -/
def least : Expr :=
  .binary ⟨0, 0⟩ .sub (.unary ⟨0, 0⟩ .neg (unsigned 0x7fffffffffffffff)) (unsigned 1)

/-- The same number as a product: `2^62 * -2`. -/
def product : Expr :=
  .binary ⟨0, 0⟩ .mul (unsigned 0x4000000000000000) (.scalar ⟨0, 0⟩ (.int (-2)))

end Example

open Example

/-- The negation of 2^63 is in range and its operand is not: it stays as it is. -/
example : (unary ⟨0, 0⟩ .neg (unsigned 0x8000000000000000)).fold.scalar? = none := by decide

/-- The least number in range is computed in both ways, and they are equal. -/
theorem fold_least : least.whole? = some (-2 ^ 63) ∧ product.whole? = some (-2 ^ 63)
    ∧ least.Small ∧ product.Small
    ∧ (∃ v, least.fold = .scalar least.span v ∧ v.integer? = some (-2 ^ 63))
    ∧ Structural.oracle [] (.equal least product .single) = .ok true := by
  have hleast : least.whole? = some (-2 ^ 63) := by decide
  have hproduct : product.whole? = some (-2 ^ 63) := by decide
  have hsmall : least.Small := by decide
  have hsmall' : product.Small := by decide
  obtain ⟨-, hfold, hequal⟩ := fold_exact hleast
  exact ⟨hleast, hproduct, hsmall, hsmall', hfold hsmall,
    (hequal product _ hproduct hsmall hsmall' [] .single).mpr rfl⟩

end Expr

end DepSchema
