/-
DepSchema.Proofs.Oracle.Meaning — what an expression stands for.

An interpretation says what literals, operators, functions, types and fields mean in some domain of
values. Integers are the integers, without bound and whatever their literals are; strings are
concatenated, truth values joined, floats computed as binary64. A constructed value is known by its
constructor and by which field has which value. Everything else may mean anything, as long as it
depends on the values of its operands alone.

Main result: `eval_fold`, folding keeps the value of every expression.
-/
import Mathlib
import DepSchema.Oracle.Structural

namespace DepSchema

/-! ## §1. Literals of a number. -/

namespace Scalar

theorem integer?_of_signedOf? {n : Int} {v : Scalar} (h : signedOf? n = some v) :
    v.integer? = some n := by
  obtain ⟨⟨hmin, hmax⟩, h⟩ := Option.ite_none_right_eq_some.mp h
  cases h
  rw [integer?, Int64.toInt_ofInt_of_le hmin hmax]

theorem integer?_of_unsignedOf? {n : Int} {v : Scalar} (h : unsignedOf? n = some v) :
    v.integer? = some n := by
  obtain ⟨⟨hmin, hmax⟩, h⟩ := Option.ite_none_right_eq_some.mp h
  cases h
  -- the bound is checked on integers, the literal is made of the natural number
  have hlt : n.toNat < UInt64.size := by
    simp only [UInt64.size]
    omega
  rw [integer?, UInt64.toNat_ofNat_of_lt' hlt, Int.toNat_of_nonneg hmin]

end Scalar

/-! ## §2. Interpretations. -/

/-- The meaning of literals, operators and names in a domain of values. -/
structure Interpretation (D : Type*) where
  integer : Int → D
  float : Binary64 → D
  bool : Bool → D
  string : String → D
  /-- The value of a constructor whose fields have these values. -/
  constructed : Symbol → (Symbol → Option D) → D
  collection : List D → D
  type : Symbol → List D → D
  call : Symbol → List D → D
  field : Symbol → D → D
  binary : BinaryOp → D → D → D
  unary : UnaryOp → D → D
  add_integer (m n : Int) : binary .add (integer m) (integer n) = integer (m + n)
  sub_integer (m n : Int) : binary .sub (integer m) (integer n) = integer (m - n)
  mul_integer (m n : Int) : binary .mul (integer m) (integer n) = integer (m * n)
  neg_integer (m : Int) : unary .neg (integer m) = integer (-m)
  add_float (x y : Binary64) : binary .add (float x) (float y) = float (x.add y)
  sub_float (x y : Binary64) : binary .sub (float x) (float y) = float (x.sub y)
  mul_float (x y : Binary64) : binary .mul (float x) (float y) = float (x.mul y)
  div_float (x y : Binary64) : binary .div (float x) (float y) = float (x.div y)
  neg_float (x : Binary64) : unary .neg (float x) = float x.neg
  add_string (s t : String) : binary .add (string s) (string t) = string (s ++ t)
  and_bool (p q : Bool) : binary .and (bool p) (bool q) = bool (p && q)
  or_bool (p q : Bool) : binary .or (bool p) (bool q) = bool (p || q)
  not_bool (p : Bool) : unary .not (bool p) = bool !p

namespace Interpretation

variable {D : Type*} (I : Interpretation D) (ρ : Symbol → D)

/-- The value of a literal. The two kinds of integers are not told apart. -/
def scalar : Scalar → D
  | .bool b => I.bool b
  | .int v => I.integer v.toInt
  | .unsigned v => I.integer v.toNat
  | .float x => I.float x
  | .string s => I.string s

/-- The value of a variable with its fields, where `ρ` assigns values to variables. -/
def access (a : Access) : D :=
  (a.fields.map Ident.name).foldl (fun d f => I.field f d) (ρ a.var.name)

mutual

/-- The value of an expression. -/
def eval : Expr → D
  | .binary _ op l r => I.binary op (eval l) (eval r)
  | .unary _ op x => I.unary op (eval x)
  | .type _ i ps => I.type i.name (evalAll ps)
  | .access a => I.access ρ a
  | .scalar _ v => I.scalar v
  | .constructed _ c fs => I.constructed c.name (evalFields fs)
  | .collection _ es => I.collection (evalAll es)
  | .call _ f as => I.call f.name (evalAll as)
termination_by structural e => e

/-- The values of several expressions. -/
def evalAll : List Expr → List D
  | [] => []
  | e :: es => eval e :: evalAll es
termination_by structural es => es

/-- The values of fields, by name. -/
def evalFields : List (Named Expr) → Symbol → Option D
  | [], _ => none
  | f :: fs, name => if f.name.name = name then some (eval f.val) else evalFields fs name
termination_by structural fs => fs

end

/-! ## §3. Folding. -/

theorem scalar_of_integer? {v : Scalar} {n : Int} (h : v.integer? = some n) :
    I.scalar v = I.integer n := by
  cases v <;> simp_all [Scalar.integer?, scalar]

theorem scalar_of_signedOf? {n : Int} {v : Scalar} (h : Scalar.signedOf? n = some v) :
    I.scalar v = I.integer n :=
  I.scalar_of_integer? (Scalar.integer?_of_signedOf? h)

theorem scalar_of_unsignedOf? {n : Int} {v : Scalar} (h : Scalar.unsignedOf? n = some v) :
    I.scalar v = I.integer n :=
  I.scalar_of_integer? (Scalar.integer?_of_unsignedOf? h)

theorem binary_of_onIntegers? {op : BinaryOp} {f : Int → Int → Int} (h : op.onIntegers? = some f)
    (m n : Int) : I.binary op (I.integer m) (I.integer n) = I.integer (f m n) := by
  cases op <;> simp only [BinaryOp.onIntegers?, Option.some.injEq, reduceCtorEq] at h <;> subst h
  · exact I.add_integer m n
  · exact I.sub_integer m n
  · exact I.mul_integer m n

/-- **Folding an operator between literals gives its value.** -/
theorem scalar_of_binary {op : BinaryOp} {a b v : Scalar} (h : op.eval? a b = some v) :
    I.scalar v = I.binary op (I.scalar a) (I.scalar b) := by
  unfold BinaryOp.eval? at h
  split at h
  · next m n hm hn =>
    -- two integers: whichever literal holds the exact result
    simp only [Option.bind_eq_bind, Option.bind_eq_some_iff] at h
    obtain ⟨f, hf, h⟩ := h
    rw [I.scalar_of_integer? hm, I.scalar_of_integer? hn, I.binary_of_onIntegers? hf]
    split at h
    · -- unsigned operands: an unsigned literal if the result fits, else a signed one
      rw [Option.orElse_eq_orElse, Option.orElse_eq_or] at h
      rcases Option.or_eq_some_iff.mp h with h | ⟨-, h⟩
      · exact I.scalar_of_unsignedOf? h
      · exact I.scalar_of_signedOf? h
    · exact I.scalar_of_signedOf? h
  · -- no pair of integers: floats, strings and truth values, each with an operator of its own
    split at h <;> first | (injection h with h; subst h) | cases h
    · exact (I.add_float _ _).symm
    · exact (I.sub_float _ _).symm
    · exact (I.mul_float _ _).symm
    · exact (I.div_float _ _).symm
    · exact (I.add_string _ _).symm
    · exact (I.and_bool _ _).symm
    · exact (I.or_bool _ _).symm

/-- **Folding an operator before a literal gives its value.** -/
theorem scalar_of_unary {op : UnaryOp} {a v : Scalar} (h : op.eval? a = some v) :
    I.scalar v = I.unary op (I.scalar a) := by
  unfold UnaryOp.eval? at h
  split at h
  · -- a negated literal is signed, whatever the literal was
    rw [I.scalar_of_signedOf? h]
    exact (I.neg_integer _).symm
  · split at h
    · rw [I.scalar_of_signedOf? h]
      exact (I.neg_integer _).symm
    · cases h
  · injection h with h
    subst h
    exact (I.neg_float _).symm
  · injection h with h
    subst h
    exact (I.not_bool _).symm
  · cases h

theorem eval_of_scalar? {e : Expr} {v : Scalar} (h : e.scalar? = some v) :
    I.eval ρ e = I.scalar v := by
  cases e <;> simp_all [Expr.scalar?, eval]

theorem eval_evalBinary (span : Span) (op : BinaryOp) (l r : Expr) :
    I.eval ρ (Expr.evalBinary span op l r) = I.binary op (I.eval ρ l) (I.eval ρ r) := by
  unfold Expr.evalBinary
  split
  · next a b ha hb =>
    split
    · next v hv =>
      show I.scalar v = _
      rw [I.scalar_of_binary hv, I.eval_of_scalar? ρ ha, I.eval_of_scalar? ρ hb]
    · rfl
  · rfl

theorem eval_evalUnary (span : Span) (op : UnaryOp) (x : Expr) :
    I.eval ρ (Expr.evalUnary span op x) = I.unary op (I.eval ρ x) := by
  unfold Expr.evalUnary
  split
  · next v hv =>
    obtain ⟨a, ha, hv⟩ := Option.bind_eq_some_iff.mp hv
    show I.scalar v = _
    rw [I.scalar_of_unary hv, I.eval_of_scalar? ρ ha]
  · rfl

mutual

/-- **Folding keeps the value of an expression.** -/
theorem eval_fold : ∀ e : Expr, I.eval ρ e.fold = I.eval ρ e
  | .binary span op l r => by
    rw [Expr.fold, eval_evalBinary, eval_fold l, eval_fold r, eval]
  | .unary span op x => by
    rw [Expr.fold, eval_evalUnary, eval_fold x, eval]
  | .type span i ps => by
    rw [Expr.fold, eval, evalAll_foldAll ps, eval]
  | .access a => rfl
  | .scalar span v => rfl
  | .constructed span c fs => by
    rw [Expr.fold, eval, evalFields_foldFields fs, eval]
  | .collection span es => by
    rw [Expr.fold, eval, evalAll_foldAll es, eval]
  | .call span f as => by
    rw [Expr.fold, eval, evalAll_foldAll as, eval]

theorem evalAll_foldAll : ∀ es : List Expr, I.evalAll ρ (Expr.foldAll es) = I.evalAll ρ es
  | [] => rfl
  | e :: es => by
    rw [Expr.foldAll, evalAll, eval_fold e, evalAll_foldAll es, evalAll]

theorem evalFields_foldFields :
    ∀ fs : List (Named Expr), I.evalFields ρ (Expr.foldFields fs) = I.evalFields ρ fs
  | [] => rfl
  | f :: fs => by
    funext name
    rw [Expr.foldFields, evalFields, eval_fold f.val, evalFields_foldFields fs, evalFields]

end

end Interpretation

end DepSchema
