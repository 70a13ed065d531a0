/-
DepSchema.Proofs.Renaming.Fixed — what a renaming leaves as it is.

The names and the places in a part of a schema are all that a renaming changes. So it leaves alone
every part whose names and places it leaves alone.

Main results: `Fixes.expr` and `Fixes.declaration`.
-/
import DepSchema.Proofs.Renaming.Schema

namespace DepSchema

/-! ## §1. All names of a declaration. -/

namespace Expr

mutual

/-- The names in an expression, whatever they name. -/
def symbols : Expr → List Symbol
  | binary _ _ l r => symbols l ++ symbols r
  | unary _ _ x => symbols x
  | type _ i ps => i.name :: symbolsAll ps
  | access a => a.var.name :: a.fields.map Ident.name
  | scalar _ _ => []
  | constructed _ c fs => c.name :: symbolsFields fs
  | collection _ es => symbolsAll es
  | call _ f as => f.name :: symbolsAll as
termination_by structural e => e

/-- The names in several expressions. -/
def symbolsAll : List Expr → List Symbol
  | [] => []
  | e :: es => symbols e ++ symbolsAll es
termination_by structural es => es

/-- The names of fields and in their values. -/
def symbolsFields : List (Named Expr) → List Symbol
  | [] => []
  | f :: fs => f.name.name :: symbols f.val ++ symbolsFields fs
termination_by structural fs => fs

end

end Expr

/-- The names in a type. -/
def TypeExpr.symbols (t : TypeExpr) : List Symbol := t.toExpr.symbols

/-- The name of a dependency or a field, and those in its type. -/
def Variable.symbols (v : Variable) : List Symbol := v.name.name :: v.type.symbols

/-- The names in a variant of an enum. -/
def Constructor.symbols (c : Constructor) : List Symbol :=
  c.name :: c.fields.flatMap Variable.symbols

/-- The names in an input of a rule. -/
def RuleInput.symbols : RuleInput → List Symbol
  | any _ => []
  | value e => e.symbols

/-- The names in a row of an enum. -/
def Rule.symbols (r : Rule) : List Symbol :=
  r.inputs.flatMap RuleInput.symbols ++ r.constructors.flatMap Constructor.symbols

/-- The names in a declared type. -/
def TypeDef.symbols : TypeDef → List Symbol
  | message m =>
    m.ident.name :: m.deps.flatMap Variable.symbols ++ m.fields.flatMap Variable.symbols
  | enum e => e.ident.name :: e.deps.flatMap Variable.symbols ++ e.rules.flatMap Rule.symbols

namespace ParameterType

mutual

/-- The names in the type of a parameter. -/
def symbols : ParameterType → List Symbol
  | value t => t.symbols
  | function ps result => symbolsAll ps ++ result.symbols
termination_by structural t => t

/-- The names of parameters and in their types. -/
def symbolsAll : List (Named ParameterType) → List Symbol
  | [] => []
  | p :: ps => p.name.name :: symbols p.val ++ symbolsAll ps
termination_by structural ps => ps

end

end ParameterType

/-- The names in a function. -/
def FunctionDef.symbols (f : FunctionDef) : List Symbol :=
  f.name :: ParameterType.symbolsAll f.params ++ f.result.symbols
    ++ f.body.toList.flatMap Expr.symbols

/-- The names in a declaration. -/
def Declaration.symbols : Declaration → List Symbol
  | type d => d.symbols
  | function f => f.symbols

/-! ## §2. All places of a schema. -/

/-- The places of a variable and of the fields behind it. -/
def Access.spans (a : Access) : List Span := a.span :: a.var.span :: a.fields.map Ident.span

namespace Expr

mutual

/-- The places in an expression: those of its nodes and those of its names. -/
def spans : Expr → List Span
  | binary span _ l r => span :: (spans l ++ spans r)
  | unary span _ x => span :: spans x
  | type span i ps => span :: i.span :: spansAll ps
  | access a => a.spans
  | scalar span _ => [span]
  | constructed span c fs => span :: c.span :: spansFields fs
  | collection span es => span :: spansAll es
  | call span f as => span :: f.span :: spansAll as
termination_by structural e => e

/-- The places in several expressions. -/
def spansAll : List Expr → List Span
  | [] => []
  | e :: es => spans e ++ spansAll es
termination_by structural es => es

/-- The places of fields and in their values. -/
def spansFields : List (Named Expr) → List Span
  | [] => []
  | f :: fs => f.name.span :: spans f.val ++ spansFields fs
termination_by structural fs => fs

end

end Expr

/-- The places in a type. -/
def TypeExpr.spans (t : TypeExpr) : List Span := t.toExpr.spans

/-- The place of a dependency or a field, and those in its type. -/
def Variable.spans (v : Variable) : List Span := v.name.span :: v.type.spans

/-- The places in a variant of an enum. -/
def Constructor.spans (c : Constructor) : List Span :=
  c.ident.span :: c.fields.flatMap Variable.spans

/-- The places in an input of a rule. -/
def RuleInput.spans : RuleInput → List Span
  | any span => [span]
  | value e => e.spans

/-- The places in a row of an enum. -/
def Rule.spans (r : Rule) : List Span :=
  r.inputs.flatMap RuleInput.spans ++ r.constructors.flatMap Constructor.spans

/-- The places in a declared type. -/
def TypeDef.spans : TypeDef → List Span
  | message m =>
    m.ident.span :: m.deps.flatMap Variable.spans ++ m.fields.flatMap Variable.spans
  | enum e => e.ident.span :: e.deps.flatMap Variable.spans ++ e.rules.flatMap Rule.spans

namespace ParameterType

mutual

/-- The places in the type of a parameter. -/
def spans : ParameterType → List Span
  | value t => t.spans
  | function ps result => spansAll ps ++ result.spans
termination_by structural t => t

/-- The places of parameters and in their types. -/
def spansAll : List (Named ParameterType) → List Span
  | [] => []
  | p :: ps => p.name.span :: spans p.val ++ spansAll ps
termination_by structural ps => ps

end

end ParameterType

/-- The places in a function. -/
def FunctionDef.spans (f : FunctionDef) : List Span :=
  f.ident.span :: ParameterType.spansAll f.params ++ f.result.spans
    ++ f.body.toList.flatMap Expr.spans

/-- The places in a declaration. -/
def Declaration.spans : Declaration → List Span
  | type d => d.spans
  | function f => f.spans

/-- The places in a schema, those of the names of refused declarations among them. -/
def Schema.spans (s : Schema) : List Span :=
  s.types.flatMap TypeDef.spans ++ s.functions.flatMap FunctionDef.spans
    ++ s.refused.map fun p => p.1.span

namespace Renaming

/-! ## §3. What stays. -/

/-- The renaming leaves these names and these places as they are. -/
structure Fixes (ρ : Renaming) (names : List Symbol) (places : List Span) : Prop where
  names : ∀ n ∈ names, ρ.name n = n
  places : ∀ p ∈ places, ρ.place p = p

namespace Fixes

variable {ρ : Renaming} {names names' : List Symbol} {places places' : List Span}

theorem append (h : ρ.Fixes (names ++ names') (places ++ places')) :
    ρ.Fixes names places ∧ ρ.Fixes names' places' := by
  obtain ⟨hnames, hnames'⟩ := List.forall_mem_append.mp h.names
  obtain ⟨hplaces, hplaces'⟩ := List.forall_mem_append.mp h.places
  exact ⟨⟨hnames, hplaces⟩, ⟨hnames', hplaces'⟩⟩

theorem place {p : Span} (h : ρ.Fixes names (p :: places)) :
    ρ.place p = p ∧ ρ.Fixes names places := by
  obtain ⟨hp, hplaces⟩ := List.forall_mem_cons.mp h.places
  exact ⟨hp, h.names, hplaces⟩

theorem ident {i : Ident} (h : ρ.Fixes (i.name :: names) (i.span :: places)) :
    ρ.ident i = i ∧ ρ.Fixes names places := by
  obtain ⟨hn, hnames⟩ := List.forall_mem_cons.mp h.names
  obtain ⟨hp, hplaces⟩ := List.forall_mem_cons.mp h.places
  exact ⟨congrArg₂ Ident.mk hn hp, hnames, hplaces⟩

/-- Items stay when each of them does for its names and places. -/
theorem map {α : Type} {f : α → α} {symbols : α → List Symbol} {spans : α → List Span}
    (hf : ∀ a, ρ.Fixes (symbols a) (spans a) → f a = a) {as : List α}
    (h : ρ.Fixes (as.flatMap symbols) (as.flatMap spans)) : as.map f = as := by
  conv_rhs => rw [← List.map_id as]
  refine List.map_congr_left fun a ha => hf a ⟨fun n hn => ?_, fun p hp => ?_⟩
  · exact h.names n (List.mem_flatMap.mpr ⟨a, ha, hn⟩)
  · exact h.places p (List.mem_flatMap.mpr ⟨a, ha, hp⟩)

theorem idents {is : List Ident} (h : ρ.Fixes (is.map Ident.name) (is.map Ident.span)) :
    is.map ρ.ident = is := by
  conv_rhs => rw [← List.map_id is]
  refine List.map_congr_left fun i hi => ?_
  exact congrArg₂ Ident.mk (h.names _ (List.mem_map_of_mem hi))
    (h.places _ (List.mem_map_of_mem hi))

mutual

/-- **An expression stays when its names and its places do.** -/
theorem expr : ∀ {e : Expr}, ρ.Fixes e.symbols e.spans → ρ.expr e = e
  | .binary span op l r, h => by
    obtain ⟨hspan, hargs⟩ := h.place
    obtain ⟨hl, hr⟩ := hargs.append
    rw [Renaming.expr, hspan, hl.expr, hr.expr]
  | .unary span op x, h => by
    obtain ⟨hspan, hx⟩ := h.place
    rw [Renaming.expr, hspan, expr hx]
  | .type span i ps, h => by
    obtain ⟨hspan, hall⟩ := h.place
    obtain ⟨hi, hps⟩ := hall.ident
    rw [Renaming.expr, hspan, hi, exprs hps]
  | .access a, h => by
    obtain ⟨hspan, hall⟩ := h.place
    obtain ⟨hvar, hfields⟩ := hall.ident
    rw [Renaming.expr, access, hspan, hvar, idents hfields]
  | .scalar span v, h => by
    rw [Renaming.expr, h.place.1]
  | .constructed span c fs, h => by
    obtain ⟨hspan, hall⟩ := h.place
    obtain ⟨hc, hfs⟩ := hall.ident
    rw [Renaming.expr, hspan, hc, inits hfs]
  | .collection span es, h => by
    obtain ⟨hspan, hes⟩ := h.place
    rw [Renaming.expr, hspan, exprs hes]
  | .call span f as, h => by
    obtain ⟨hspan, hall⟩ := h.place
    obtain ⟨hf, has⟩ := hall.ident
    rw [Renaming.expr, hspan, hf, exprs has]

theorem exprs : ∀ {es : List Expr}, ρ.Fixes (Expr.symbolsAll es) (Expr.spansAll es) →
    ρ.exprs es = es
  | [], _ => rfl
  | e :: es, h => by
    obtain ⟨he, hes⟩ := h.append
    rw [Renaming.exprs, expr he, exprs hes]

theorem inits : ∀ {fs : List (Named Expr)},
    ρ.Fixes (Expr.symbolsFields fs) (Expr.spansFields fs) → ρ.inits fs = fs
  | [], _ => rfl
  | f :: fs, h => by
    obtain ⟨hf, hfs⟩ := h.append
    obtain ⟨hname, hvalue⟩ := hf.ident
    rw [Renaming.inits, hname, expr hvalue, inits hfs]

end

theorem type {t : TypeExpr} (h : ρ.Fixes t.symbols t.spans) : ρ.type t = t := by
  obtain ⟨hspan, hall⟩ := h.place
  obtain ⟨hi, hps⟩ := hall.ident
  rw [Renaming.type, hspan, hi, ← exprs_eq_map, hps.exprs]

theorem vars {vs : List Variable}
    (h : ρ.Fixes (vs.flatMap Variable.symbols) (vs.flatMap Variable.spans)) :
    vs.map ρ.variableOf = vs := by
  refine map (fun v hv => ?_) h
  obtain ⟨hname, htype⟩ := hv.ident
  rw [variableOf, hname, htype.type]

theorem constructors {cs : List Constructor}
    (h : ρ.Fixes (cs.flatMap Constructor.symbols) (cs.flatMap Constructor.spans)) :
    cs.map ρ.constructor = cs := by
  refine map (fun c hc => ?_) h
  obtain ⟨hname, hfields⟩ := hc.ident
  rw [Renaming.constructor, hname, hfields.vars]

theorem ruleInputs {is : List RuleInput}
    (h : ρ.Fixes (is.flatMap RuleInput.symbols) (is.flatMap RuleInput.spans)) :
    is.map ρ.ruleInput = is := by
  refine map (fun i hi => ?_) h
  cases i with
  | any span => rw [ruleInput, hi.place.1]
  | value e => rw [ruleInput, expr hi]

theorem rules {rs : List Rule} (h : ρ.Fixes (rs.flatMap Rule.symbols) (rs.flatMap Rule.spans)) :
    rs.map ρ.rule = rs := by
  refine map (fun r hr => ?_) h
  obtain ⟨hinputs, hctors⟩ := hr.append
  rw [rule, hinputs.ruleInputs, hctors.constructors]

theorem typeDef {d : TypeDef} (h : ρ.Fixes d.symbols d.spans) : ρ.typeDef d = d := by
  cases d with
  | message m =>
    obtain ⟨hfirst, hfields⟩ := h.append
    obtain ⟨hname, hdeps⟩ := hfirst.ident
    rw [Renaming.typeDef, message, hname, hdeps.vars, hfields.vars]
  | enum e =>
    obtain ⟨hfirst, hrules⟩ := h.append
    obtain ⟨hname, hdeps⟩ := hfirst.ident
    rw [Renaming.typeDef, enum, hname, hdeps.vars, hrules.rules]

mutual

theorem parameterType : ∀ {t : ParameterType}, ρ.Fixes t.symbols t.spans → ρ.parameterType t = t
  | .value t, h => by rw [Renaming.parameterType, type h]
  | .function ps result, h => by
    obtain ⟨hps, hresult⟩ := h.append
    rw [Renaming.parameterType, parameters hps, hresult.type]

theorem parameters : ∀ {ps : List (Named ParameterType)},
    ρ.Fixes (ParameterType.symbolsAll ps) (ParameterType.spansAll ps) → ρ.parameters ps = ps
  | [], _ => rfl
  | p :: ps, h => by
    obtain ⟨hp, hps⟩ := h.append
    obtain ⟨hname, htype⟩ := hp.ident
    rw [Renaming.parameters, hname, parameterType htype, parameters hps]

end

theorem functionDef {f : FunctionDef} (h : ρ.Fixes f.symbols f.spans) : ρ.functionDef f = f := by
  obtain ⟨ident, params, result, body⟩ := f
  obtain ⟨hfirst, hbody⟩ := h.append
  obtain ⟨hsignature, hresult⟩ := hfirst.append
  obtain ⟨hname, hparams⟩ := hsignature.ident
  rw [Renaming.functionDef, hname, hparams.parameters, hresult.type]
  cases body with
  | none => rfl
  | some body =>
    have hvalue : ρ.Fixes body.symbols body.spans := by simpa using hbody
    rw [Option.map_some, hvalue.expr]

/-- **A declaration stays when its names and its places do.** -/
theorem declaration {d : Declaration} (h : ρ.Fixes d.symbols d.spans) : ρ.declaration d = d := by
  cases d with
  | type d => rw [Renaming.declaration, typeDef h]
  | function f => rw [Renaming.declaration, functionDef h]

end Fixes

end Renaming

end DepSchema
