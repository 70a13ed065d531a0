/-
DepSchema.Proofs.Renaming.Exchange — another name for a parameter, as an exchange of two names.

A parameter is renamed together with everything in its scope that refers to it. Where the new name
did not occur before and the old one does not occur afterwards, exchanging the two names everywhere
comes to the same: then no other parameter has either of them, and no place is left in which the
scope of the parameter would matter.

Main definition: `FunctionDef.renameParameter`. Main result:
`Exchange.functionDef_renameParameter`.
-/
import DepSchema.Proofs.Renaming.Fixed

namespace DepSchema

/-! ## §1. Renaming a parameter. -/

/-- The identifier, with `y` in the place of `x`. -/
def Ident.rename (x y : Symbol) (i : Ident) : Ident := if i.name = x then ⟨y, i.span⟩ else i

namespace Expr

mutual

/-- The expression with the variable `x` called `y`. What is called is looked up like a variable;
types, constructors and fields are not. -/
def renameVar (x y : Symbol) : Expr → Expr
  | binary span op l r => binary span op (renameVar x y l) (renameVar x y r)
  | unary span op e => unary span op (renameVar x y e)
  | type span i ps => type span i (renameVarAll x y ps)
  | access a => access ⟨a.span, a.var.rename x y, a.fields⟩
  | scalar span v => scalar span v
  | constructed span c fs => constructed span c (renameVarFields x y fs)
  | collection span es => collection span (renameVarAll x y es)
  | call span f as => call span (f.rename x y) (renameVarAll x y as)
termination_by structural e => e

/-- Several expressions with the variable renamed. -/
def renameVarAll (x y : Symbol) : List Expr → List Expr
  | [] => []
  | e :: es => renameVar x y e :: renameVarAll x y es
termination_by structural es => es

/-- The values of fields with the variable renamed. -/
def renameVarFields (x y : Symbol) : List (Named Expr) → List (Named Expr)
  | [] => []
  | f :: fs => ⟨f.name, renameVar x y f.val⟩ :: renameVarFields x y fs
termination_by structural fs => fs

end

end Expr

/-- The type with the variable `x` called `y`. -/
def TypeExpr.renameVar (x y : Symbol) (t : TypeExpr) : TypeExpr :=
  ⟨t.span, t.ident, Expr.renameVarAll x y t.params⟩

namespace ParameterType

mutual

/-- The type of a parameter with the variable `x` called `y`, as far as no parameter of a function
type takes the name `x`. -/
def renameVar (x y : Symbol) : ParameterType → ParameterType
  | value t => value (t.renameVar x y)
  | function ps result =>
    function (renameVarAll x y ps)
      (if ps.any fun p => p.name.name == x then result else result.renameVar x y)
termination_by structural t => t

/-- The types of parameters with the variable renamed, up to one that takes its name. -/
def renameVarAll (x y : Symbol) : List (Named ParameterType) → List (Named ParameterType)
  | [] => []
  | p :: ps =>
    ⟨p.name, renameVar x y p.val⟩ :: if p.name.name = x then ps else renameVarAll x y ps
termination_by structural ps => ps

end

/-- Parameters of which the one at place `i` is called `y`, with the parameters after it. -/
def renameAt (y : Symbol) : Nat → List Parameter → List Parameter
  | _, [] => []
  | 0, p :: ps => ⟨⟨y, p.name.span⟩, p.val⟩ :: renameVarAll p.name.name y ps
  | i + 1, p :: ps => p :: renameAt y i ps

end ParameterType

/-- The function with its parameter at place `i` called `y`: in the parameters after it, in the
result type and in the body, as far as no later parameter takes its name. -/
def FunctionDef.renameParameter (i : Nat) (y : Symbol) (f : FunctionDef) : FunctionDef :=
  match f.params.drop i with
  | [] => f
  | p :: later =>
    let x := p.name.name
    let taken := later.any fun q => q.name.name == x
    { f with
      params := ParameterType.renameAt y i f.params
      result := if taken then f.result else f.result.renameVar x y
      body := if taken then f.body else f.body.map (Expr.renameVar x y) }

/-! ## §2. Exchanging two names. -/

/-- The renaming that exchanges two names. Places stay as they are. -/
def Renaming.exchange (x y : Symbol) (hx : x.isBuiltin = false) (hy : y.isBuiltin = false) :
    Renaming where
  name := Equiv.swap x y
  place := id
  injective := (Equiv.swap x y).injective
  builtin := by
    intro n hn
    refine Equiv.swap_apply_of_ne_of_ne ?_ ?_
    · rintro rfl
      rw [hx] at hn
      cases hn
    · rintro rfl
      rw [hy] at hn
      cases hn

namespace Exchange

open Renaming

variable {x y : Symbol} {hx : x.isBuiltin = false} {hy : y.isBuiltin = false}

/-! ### What the two names do not occur in. -/

theorem fixes {names : List Symbol} (places : List Span)
    (h : ∀ n ∈ names, Equiv.swap x y n = n) : (exchange x y hx hy).Fixes names places :=
  ⟨h, fun _ _ => rfl⟩

theorem ident_fixed {i : Ident} (h : Equiv.swap x y i.name = i.name) :
    (exchange x y hx hy).ident i = i :=
  congrArg (Ident.mk · i.span) h

/-! ### What the one name occurs in as a variable. -/

theorem swap_of_fresh {n : Symbol} (hfresh : n ≠ y) (hgone : n ≠ x) : Equiv.swap x y n = n :=
  Equiv.swap_apply_of_ne_of_ne hgone hfresh

theorem swap_of_not_mem {names : List Symbol} (hfresh : y ∉ names) (hgone : x ∉ names) :
    ∀ n ∈ names, Equiv.swap x y n = n :=
  fun _ hn => swap_of_fresh (ne_of_mem_of_not_mem hn hfresh) (ne_of_mem_of_not_mem hn hgone)

theorem ident_rename {i : Ident} (hfresh : i.name ≠ y) :
    (exchange x y hx hy).ident i = i.rename x y := by
  unfold Ident.rename
  split
  · next h =>
    show Ident.mk (Equiv.swap x y i.name) i.span = _
    rw [h, Equiv.swap_apply_left]
  · next h => exact ident_fixed (swap_of_fresh hfresh h)

mutual

/-- Where `y` does not occur and `x` only as a variable, exchanging them renames the variable. -/
theorem expr_renameVar : ∀ (e : Expr), y ∉ e.symbols → x ∉ (e.renameVar x y).symbols →
    (exchange x y hx hy).expr e = e.renameVar x y
  | .binary span op l r, hfresh, hgone => by
    simp only [Expr.renameVar, Expr.symbols, List.mem_append, not_or] at hfresh hgone ⊢
    rw [expr, expr_renameVar l hfresh.1 hgone.1, expr_renameVar r hfresh.2 hgone.2]
    rfl
  | .unary span op e, hfresh, hgone => by
    rw [expr, expr_renameVar e hfresh hgone]
    rfl
  | .type span i ps, hfresh, hgone => by
    simp only [Expr.renameVar, Expr.symbols, List.mem_cons, not_or] at hfresh hgone ⊢
    rw [expr, ident_fixed (swap_of_fresh (Ne.symm hfresh.1) (Ne.symm hgone.1)),
      exprs_renameVar ps hfresh.2 hgone.2]
    rfl
  | .access a, hfresh, hgone => by
    simp only [Expr.renameVar, Expr.symbols, List.mem_cons, not_or] at hfresh hgone ⊢
    rw [expr, access, ident_rename (Ne.symm hfresh.1),
      (fixes _ (swap_of_not_mem hfresh.2 hgone.2)).idents]
    rfl
  | .scalar span v, _, _ => rfl
  | .constructed span c fs, hfresh, hgone => by
    simp only [Expr.renameVar, Expr.symbols, List.mem_cons, not_or] at hfresh hgone ⊢
    rw [expr, ident_fixed (swap_of_fresh (Ne.symm hfresh.1) (Ne.symm hgone.1)),
      inits_renameVar fs hfresh.2 hgone.2]
    rfl
  | .collection span es, hfresh, hgone => by
    rw [expr, exprs_renameVar es hfresh hgone]
    rfl
  | .call span f as, hfresh, hgone => by
    simp only [Expr.renameVar, Expr.symbols, List.mem_cons, not_or] at hfresh hgone ⊢
    rw [expr, ident_rename (Ne.symm hfresh.1), exprs_renameVar as hfresh.2 hgone.2]
    rfl

theorem exprs_renameVar : ∀ (es : List Expr), y ∉ Expr.symbolsAll es →
    x ∉ Expr.symbolsAll (Expr.renameVarAll x y es) →
      (exchange x y hx hy).exprs es = Expr.renameVarAll x y es
  | [], _, _ => rfl
  | e :: es, hfresh, hgone => by
    simp only [Expr.renameVarAll, Expr.symbolsAll, List.mem_append, not_or] at hfresh hgone ⊢
    rw [exprs, expr_renameVar e hfresh.1 hgone.1, exprs_renameVar es hfresh.2 hgone.2]

theorem inits_renameVar : ∀ (fs : List (Named Expr)), y ∉ Expr.symbolsFields fs →
    x ∉ Expr.symbolsFields (Expr.renameVarFields x y fs) →
      (exchange x y hx hy).inits fs = Expr.renameVarFields x y fs
  | [], _, _ => rfl
  | f :: fs, hfresh, hgone => by
    simp only [Expr.renameVarFields, Expr.symbolsFields, List.cons_append, List.mem_cons,
      List.mem_append, not_or] at hfresh hgone ⊢
    rw [inits, ident_fixed (swap_of_fresh (Ne.symm hfresh.1) (Ne.symm hgone.1)),
      expr_renameVar f.val hfresh.2.1 hgone.2.1, inits_renameVar fs hfresh.2.2 hgone.2.2]

end

theorem type_renameVar {t : TypeExpr} (hfresh : y ∉ t.symbols)
    (hgone : x ∉ (t.renameVar x y).symbols) :
    (exchange x y hx hy).type t = t.renameVar x y := by
  simp only [TypeExpr.symbols, TypeExpr.toExpr, TypeExpr.renameVar, Expr.symbols, List.mem_cons,
    not_or] at hfresh hgone
  rw [type, ident_fixed (swap_of_fresh (Ne.symm hfresh.1) (Ne.symm hgone.1)), ← exprs_eq_map,
    exprs_renameVar t.params hfresh.2 hgone.2]
  rfl

/-- A parameter that keeps the name `x` would be found after the renaming. -/
theorem any_renameVarAll {ps : List (Named ParameterType)}
    (hgone : x ∉ ParameterType.symbolsAll (ParameterType.renameVarAll x y ps)) :
    (ps.any fun p => p.name.name == x) = false := by
  induction ps with
  | nil => rfl
  | cons p ps ih =>
    simp only [ParameterType.renameVarAll, ParameterType.symbolsAll, List.cons_append,
      List.mem_cons, List.mem_append, not_or] at hgone
    rw [if_neg (Ne.symm hgone.1)] at hgone
    rw [List.any_cons, ih hgone.2.2, Bool.or_false]
    exact beq_eq_false_iff_ne.mpr (Ne.symm hgone.1)

mutual

theorem parameterType_renameVar : ∀ (t : ParameterType), y ∉ t.symbols →
    x ∉ (t.renameVar x y).symbols → (exchange x y hx hy).parameterType t = t.renameVar x y
  | .value t, hfresh, hgone => by
    rw [parameterType, type_renameVar hfresh hgone]
    rfl
  | .function ps result, hfresh, hgone => by
    simp only [ParameterType.renameVar, ParameterType.symbols, List.mem_append, not_or]
      at hfresh hgone ⊢
    have hany := any_renameVarAll hgone.1
    rw [hany] at hgone ⊢
    rw [parameterType, parameters_renameVar ps hfresh.1 hgone.1, type_renameVar hfresh.2 hgone.2]
    rfl

theorem parameters_renameVar : ∀ (ps : List (Named ParameterType)),
    y ∉ ParameterType.symbolsAll ps →
    x ∉ ParameterType.symbolsAll (ParameterType.renameVarAll x y ps) →
      (exchange x y hx hy).parameters ps = ParameterType.renameVarAll x y ps
  | [], _, _ => rfl
  | p :: ps, hfresh, hgone => by
    simp only [ParameterType.renameVarAll, ParameterType.symbolsAll, List.cons_append,
      List.mem_cons, List.mem_append, not_or] at hfresh hgone ⊢
    rw [if_neg (Ne.symm hgone.1)] at hgone ⊢
    rw [parameters, ident_fixed (swap_of_fresh (Ne.symm hfresh.1) (Ne.symm hgone.1)),
      parameterType_renameVar p.val hfresh.2.1 hgone.2.1,
      parameters_renameVar ps hfresh.2.2 hgone.2.2]

end

/-- The parameters behind the renamed one have its variable renamed, those before it stay. -/
theorem parameters_renameAt {p : Parameter} (hname : p.name.name = x) :
    ∀ (i : Nat) (ps : List Parameter), ps[i]? = some p → y ∉ ParameterType.symbolsAll ps →
      x ∉ ParameterType.symbolsAll (ParameterType.renameAt y i ps) →
        (exchange x y hx hy).parameters ps = ParameterType.renameAt y i ps
  | _, [], hp, _, _ => by cases hp
  | 0, q :: ps, hp, hfresh, hgone => by
    obtain rfl : q = p := Option.some.inj hp
    subst hname
    simp only [ParameterType.renameAt, ParameterType.symbolsAll, List.cons_append,
      List.mem_cons, List.mem_append, not_or] at hfresh hgone ⊢
    rw [parameters, ident_rename (Ne.symm hfresh.1),
      (fixes _ (swap_of_not_mem hfresh.2.1 hgone.2.1)).parameterType,
      parameters_renameVar ps hfresh.2.2 hgone.2.2, Ident.rename, if_pos rfl]
  | i + 1, q :: ps, hp, hfresh, hgone => by
    simp only [ParameterType.renameAt, ParameterType.symbolsAll, List.cons_append,
      List.mem_cons, List.mem_append, not_or] at hfresh hgone ⊢
    rw [parameters, ident_fixed (swap_of_fresh (Ne.symm hfresh.1) (Ne.symm hgone.1)),
      (fixes _ (swap_of_not_mem hfresh.2.1 hgone.2.1)).parameterType,
      parameters_renameAt hname i ps hp hfresh.2.2 hgone.2.2]

/-- No parameter behind the renamed one has its old name. -/
theorem any_renameAt {p : Parameter} (hname : p.name.name = x) :
    ∀ (i : Nat) (ps later : List Parameter), ps.drop i = p :: later →
      x ∉ ParameterType.symbolsAll (ParameterType.renameAt y i ps) →
        (later.any fun q => q.name.name == x) = false
  | i, [], later, hp, _ => by simp at hp
  | 0, q :: ps, later, hp, hgone => by
    cases hp
    subst hname
    simp only [ParameterType.renameAt, ParameterType.symbolsAll, List.cons_append, List.mem_cons,
      List.mem_append, not_or] at hgone
    exact any_renameVarAll hgone.2.2
  | i + 1, q :: ps, later, hp, hgone => by
    simp only [ParameterType.renameAt, ParameterType.symbolsAll, List.cons_append, List.mem_cons,
      List.mem_append, not_or] at hgone
    exact any_renameAt hname i ps later hp hgone.2.2

/-- **Where the new name does not occur and the old one no more, exchanging the two renames the
parameter.** -/
theorem functionDef_renameParameter {f : FunctionDef} {i : Nat} {p : Parameter}
    (hp : f.params[i]? = some p) (hname : p.name.name = x) (hfresh : y ∉ f.symbols)
    (hgone : x ∉ (f.renameParameter i y).symbols) :
    (exchange x y hx hy).functionDef f = f.renameParameter i y := by
  obtain ⟨later, hlater⟩ : ∃ later, f.params.drop i = p :: later := by
    obtain ⟨hlt, hget⟩ := List.getElem?_eq_some_iff.mp hp
    exact ⟨_, (List.drop_eq_getElem_cons hlt).trans (by rw [hget])⟩
  subst hname
  simp only [FunctionDef.renameParameter, hlater] at hgone ⊢
  simp only [FunctionDef.symbols, FunctionDef.name, List.mem_append, List.mem_cons, not_or]
    at hfresh hgone
  have htaken := any_renameAt rfl i f.params later hlater hgone.1.1.2
  simp only [htaken, if_false, Bool.false_eq_true] at hgone ⊢
  have hbody : f.body.map (exchange p.name.name y hx hy).expr
      = f.body.map (Expr.renameVar p.name.name y) := by
    cases hb : f.body with
    | none => rfl
    | some body =>
      have hfreshbody : y ∉ body.symbols := by simpa [hb] using hfresh.2
      have hgonebody : p.name.name ∉ (body.renameVar p.name.name y).symbols := by
        simpa [hb] using hgone.2
      rw [Option.map_some, Option.map_some, expr_renameVar body hfreshbody hgonebody]
  rw [functionDef, ident_fixed (swap_of_fresh (Ne.symm hfresh.1.1.1) (Ne.symm hgone.1.1.1)),
    parameters_renameAt rfl i f.params hp hfresh.1.1.2 hgone.1.1.2,
    type_renameVar hfresh.1.2 hgone.1.2, hbody]

end Exchange

end DepSchema
