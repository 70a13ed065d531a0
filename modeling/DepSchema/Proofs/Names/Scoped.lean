/-
DepSchema.Proofs.Names.Scoped — a schema has no name faults exactly when it is well-scoped.

What it means that a name is in scope is said here without a walk, for each kind of syntax by the
names that are in scope where it stands: those that are declared everywhere, the dependencies of a
type, what the inputs of a rule bind, the fields or the parameters before. Expressions bind names
in rule inputs only, for the expressions after them; the fields of a constructed value are in scope
for the values after them.

Main definitions: `Expr.Resolves` and `Schema.WellScoped`. Main result:
`Schema.nameFaults_eq_nil_iff_wellScoped`.
-/
import DepSchema.Proofs.Names.Faults

namespace DepSchema

/-! ## §1. Scopes. -/

/-- The names that are in scope. -/
abbrev Scope := Set Symbol

/-- A scope with some more names. -/
def Scope.extend (G : Scope) (names : List Symbol) : Scope := G ∪ {n | n ∈ names}

theorem Scope.extend_append (G : Scope) (names more : List Symbol) :
    G.extend (names ++ more) = (G.extend names).extend more := by
  ext n
  simp [Scope.extend, or_assoc]

/-- What holds of each of several items in the scope that the names of those before it extend. -/
inductive InTurn {α : Type} (holds : Scope → α → Prop) (names : α → List Symbol) :
    Scope → List α → Prop where
  | nil {G : Scope} : InTurn holds names G []
  | cons {G : Scope} {a : α} {as : List α} (hfirst : holds G a)
      (hrest : InTurn holds names (G.extend (names a)) as) : InTurn holds names G (a :: as)

/-- The names that an expression binds for those after it: none, unless a rule input is read. -/
def Expr.bindsIf (reading : Bool) (e : Expr) : List Symbol := if reading then e.binds else []

/-- The names that a field of a constructed value has in scope for the values after it: what its
value binds, and its own. -/
def Expr.fieldBindsIf (reading : Bool) (f : Named Expr) : List Symbol :=
  (if reading then f.val.bindsValue else []) ++ [f.name.name]

/-! ## §2. Well-scoped syntax. -/

/-- The expression resolves in a scope: it uses only names of the scope, and gives a constructor
only fields that it has. Inside a rule input a variable alone may be the value of a field whether
or not it is in scope. -/
inductive Expr.Resolves (known : Symbol → Symbol → Bool) (reading : Bool) :
    Scope → Expr → Prop where
  | scalar {G : Scope} {span : Span} {v : Scalar} : Resolves known reading G (.scalar span v)
  | access {G : Scope} {a : Access} (hvar : a.var.name ∈ G) :
      Resolves known reading G (.access a)
  | unary {G : Scope} {span : Span} {op : UnaryOp} {x : Expr}
      (hx : Resolves known reading G x) : Resolves known reading G (.unary span op x)
  | binary {G : Scope} {span : Span} {op : BinaryOp} {l r : Expr}
      (hl : Resolves known reading G l)
      (hr : Resolves known reading (G.extend (l.bindsIf reading)) r) :
      Resolves known reading G (.binary span op l r)
  | type {G : Scope} {span : Span} {i : Ident} {ps : List Expr} (hname : i.name ∈ G)
      (hparams : InTurn (Resolves known reading) (Expr.bindsIf reading) G ps) :
      Resolves known reading G (.type span i ps)
  | collection {G : Scope} {span : Span} {es : List Expr}
      (helements : InTurn (Resolves known reading) (Expr.bindsIf reading) G es) :
      Resolves known reading G (.collection span es)
  | call {G : Scope} {span : Span} {f : Ident} {as : List Expr} (hname : f.name ∈ G)
      (hargs : InTurn (Resolves known reading) (Expr.bindsIf reading) G as) :
      Resolves known reading G (.call span f as)
  | constructed {G : Scope} {span : Span} {c : Ident} {fs : List (Named Expr)}
      (hname : c.name ∈ G) (hfields : ∀ f ∈ fs, known c.name f.name.name = true)
      (hvalues : InTurn
        (fun G f => ¬(reading = true ∧ f.val.bareVar?.isSome) → Resolves known reading G f.val)
        (Expr.fieldBindsIf reading) G fs) :
      Resolves known reading G (.constructed span c fs)

namespace Variable

/-- The dependencies have types over the scope and the dependencies before them. -/
def DepsResolve (known : Symbol → Symbol → Bool) (G : Scope) (deps : List Variable) : Prop :=
  InTurn (fun G v => Expr.Resolves known false G v.type.toExpr) (fun v => [v.name.name]) G deps

/-- The fields have names that are not in scope yet, and types over what is. -/
def FieldsResolve (known : Symbol → Symbol → Bool) (G : Scope) (fields : List Variable) : Prop :=
  InTurn (fun G v => v.name.name ∉ G ∧ Expr.Resolves known false G v.type.toExpr)
    (fun v => [v.name.name]) G fields

end Variable

/-- The input resolves in a scope: it is a variable alone, or a value that resolves. -/
def RuleInput.Resolves (known : Symbol → Symbol → Bool) (G : Scope) : RuleInput → Prop
  | any _ => True
  | value p => p.bareVar?.isSome ∨ Expr.Resolves known true G p

/-- The inputs resolve in turn, and the fields of the constructors after them. -/
structure Rule.Resolves (known : Symbol → Symbol → Bool) (G : Scope) (r : Rule) : Prop where
  inputs : InTurn (RuleInput.Resolves known) RuleInput.binds G r.inputs
  constructors : ∀ c ∈ r.constructors,
    Variable.FieldsResolve known (G.extend (RuleInput.bindsAll r.inputs)) c.fields

/-- The names of the constructors of an enum, each as often as rules offer it. -/
def TypeDef.enumConstructors : TypeDef → List Symbol
  | message _ => []
  | enum e => e.constructors.map Constructor.name

/-- The dependencies resolve, and then the fields of a message or the rules of an enum. -/
def TypeDef.Resolves (known : Symbol → Symbol → Bool) (G : Scope) (d : TypeDef) : Prop :=
  Variable.DepsResolve known G d.deps
    ∧ match d with
      | message m => Variable.FieldsResolve known (G.extend (Variable.names m.deps)) m.fields
      | enum e => ∀ r ∈ e.rules, r.Resolves known (G.extend (Variable.names e.deps))

/-- The type of a parameter resolves. In a function type each parameter has a name that is not in
scope yet and a type over what is, and the result a type over all of them. -/
inductive ParameterType.Resolves (known : Symbol → Symbol → Bool) :
    Scope → ParameterType → Prop where
  | value {G : Scope} {t : TypeExpr} (htype : Expr.Resolves known false G t.toExpr) :
      Resolves known G (.value t)
  | function {G : Scope} {ps : List (Named ParameterType)} {result : TypeExpr}
      (hnames : InTurn (fun G p => p.name.name ∉ G) (fun p => [p.name.name]) G ps)
      (htypes : InTurn (fun G p => Resolves known G p.val) (fun p => [p.name.name]) G ps)
      (hresult : Expr.Resolves known false (G.extend (ps.map fun p => p.name.name))
        result.toExpr) :
      Resolves known G (.function ps result)

/-- The function has a type that resolves, and so does its body over the parameters. -/
structure FunctionDef.Resolves (known : Symbol → Symbol → Bool) (G : Scope)
    (f : FunctionDef) : Prop where
  signature : ParameterType.Resolves known G (.function f.params f.result)
  body : ∀ e, f.body = some e →
    Expr.Resolves known false (G.extend (f.params.map fun p => p.name.name)) e

namespace Schema

/-- The names of the constructors of enums, each as often as rules offer it. -/
def enumConstructors (s : Schema) : List Symbol := s.types.flatMap TypeDef.enumConstructors

/-- The names that are in scope everywhere. -/
def everywhere (s : Schema) : List Symbol :=
  Symbol.builtins ++ s.typeNames ++ s.enumConstructors ++ s.functionNames

/-- Nothing was refused, the names that are in scope everywhere are different, and each type and
each function resolves over them. -/
structure WellScoped (s : Schema) : Prop where
  refused : s.refused = []
  distinct : s.everywhere.Nodup
  types : ∀ d ∈ s.types, d.Resolves s.hasField {n | n ∈ s.everywhere}
  functions : ∀ f ∈ s.functions, f.Resolves s.hasField {n | n ∈ s.everywhere}

end Schema

/-! ## §3. Expressions. -/

theorem inTurn_cons {α : Type} {holds : Scope → α → Prop} {names : α → List Symbol}
    {G : Scope} {a : α} {as : List α} :
    InTurn holds names G (a :: as)
      ↔ holds G a ∧ InTurn holds names (G.extend (names a)) as := by
  constructor
  · intro h
    cases h with
    | cons hfirst hrest => exact ⟨hfirst, hrest⟩
  · intro h
    exact .cons h.1 h.2

namespace Declared

/-- The names that are declared. -/
def scope (V : Declared) : Scope := {n | V n = true}

theorem scope_adding (V : Declared) (names : List Symbol) :
    (V.adding names).scope = V.scope.extend names := by
  ext n
  simp [scope, adding, Scope.extend, or_comm]

theorem scope_bound (V : Declared) (reading : Bool) (names : List Symbol) :
    (V.bound reading names).scope = V.scope.extend (if reading then names else []) := by
  cases reading with
  | true => exact scope_adding V names
  | false => simp [bound, Scope.extend]

theorem demand_eq_nil {V : Declared} {i : Ident} {cause : Symbol → Cause} :
    V.demand i cause = [] ↔ i.name ∈ V.scope := by
  by_cases h : V i.name = true <;> simp [demand, scope, h]

theorem redeclared_eq_nil {V : Declared} {kind : NameKind} {i : Ident} :
    V.redeclared kind i = [] ↔ i.name ∉ V.scope := by
  by_cases h : V i.name = true <;> simp [redeclared, scope, h]

end Declared

namespace Expr

variable {known : Symbol → Symbol → Bool} {reading : Bool}

theorem unknownField_eq_nil {ctor : Symbol} {f : Ident} :
    unknownField known ctor true f = [] ↔ known ctor f.name = true := by
  unfold unknownField
  cases known ctor f.name <;> simp

mutual

/-- **An expression resolves exactly when it has no name fault.** -/
theorem resolves_iff : ∀ (e : Expr) (V : Declared),
    Resolves known reading V.scope e ↔ e.faults known reading V = []
  | .scalar span v, V => ⟨fun _ => rfl, fun _ => .scalar⟩
  | .access a, V => by
    unfold faults
    rw [Declared.demand_eq_nil]
    exact ⟨fun h => by cases h; assumption, .access⟩
  | .unary span op x, V => by
    unfold faults
    rw [← resolves_iff x V]
    exact ⟨fun h => by cases h; assumption, .unary⟩
  | .binary span op l r, V => by
    unfold faults
    rw [List.append_eq_nil_iff, ← resolves_iff l V, ← resolves_iff r, Declared.scope_bound]
    constructor
    · intro h
      cases h with
      | binary hl hr => exact ⟨hl, hr⟩
    · exact fun h => .binary h.1 h.2
  | .type span i ps, V => by
    unfold faults
    rw [List.append_eq_nil_iff, Declared.demand_eq_nil, ← inTurn_iff ps V]
    constructor
    · intro h
      cases h with
      | type hname hparams => exact ⟨hname, hparams⟩
    · exact fun h => .type h.1 h.2
  | .collection span es, V => by
    unfold faults
    rw [← inTurn_iff es V]
    exact ⟨fun h => by cases h; assumption, .collection⟩
  | .call span f as, V => by
    unfold faults
    rw [List.append_eq_nil_iff, Declared.demand_eq_nil, ← inTurn_iff as V]
    constructor
    · intro h
      cases h with
      | call hname hargs => exact ⟨hname, hargs⟩
    · exact fun h => .call h.1 h.2
  | .constructed span c fs, V => by
    unfold faults
    rw [List.append_eq_nil_iff, Declared.demand_eq_nil]
    constructor
    · intro h
      cases h with
      | constructed hname hfields hvalues =>
        rw [show V c.name = true from hname]
        exact ⟨hname, (inTurnFields_iff fs V).mp ⟨hfields, hvalues⟩⟩
    · intro h
      obtain ⟨hname, hrest⟩ := h
      rw [show V c.name = true from hname] at hrest
      obtain ⟨hfields, hvalues⟩ := (inTurnFields_iff fs V).mpr hrest
      exact .constructed hname hfields hvalues

theorem inTurn_iff : ∀ (es : List Expr) (V : Declared),
    InTurn (Resolves known reading) (bindsIf reading) V.scope es
      ↔ faultsAll known reading V es = []
  | [], V => ⟨fun _ => rfl, fun _ => .nil⟩
  | e :: es, V => by
    unfold faultsAll
    rw [List.append_eq_nil_iff, ← resolves_iff e V, ← inTurn_iff es, Declared.scope_bound,
      inTurn_cons]
    rfl

theorem inTurnFields_iff {ctor : Symbol} : ∀ (fs : List (Named Expr)) (V : Declared),
    (∀ f ∈ fs, known ctor f.name.name = true) ∧ InTurn
        (fun G f => ¬(reading = true ∧ f.val.bareVar?.isSome) → Resolves known reading G f.val)
        (fieldBindsIf reading) V.scope fs
      ↔ faultsFields known reading ctor true V fs = []
  | [], V => ⟨fun _ => rfl, fun _ => ⟨by simp, .nil⟩⟩
  | f :: fs, V => by
    -- a variable alone is not looked up where rule inputs are read, here as there
    have hvalue : (¬(reading = true ∧ f.val.bareVar?.isSome) →
          Resolves known reading V.scope f.val)
        ↔ (if reading && f.val.bareVar?.isSome then []
          else f.val.faults known reading V) = [] := by
      rw [resolves_iff f.val V]
      by_cases h : reading = true ∧ f.val.bareVar?.isSome <;> simp [h]
    have hscope : ((V.bound reading f.val.bindsValue).adding [f.name.name]).scope
        = V.scope.extend (fieldBindsIf reading f) := by
      rw [Declared.scope_adding, Declared.scope_bound, fieldBindsIf, Scope.extend_append]
    unfold faultsFields
    rw [List.append_eq_nil_iff, List.append_eq_nil_iff, unknownField_eq_nil, ← hvalue,
      ← inTurnFields_iff fs, hscope, inTurn_cons, List.forall_mem_cons]
    tauto

end

end Expr

/-! ## §4. Declarations. -/

/-- What is checked in turn has no fault exactly when it holds in turn. -/
theorem inTurn_iff_faults {α : Type} {holds : Scope → α → Prop} {names : α → List Symbol}
    {fault : Declared → α → List Diagnostic} {faults : Declared → List α → List Diagnostic}
    (hnil : ∀ V, faults V [] = [])
    (hcons : ∀ V a as, faults V (a :: as) = fault V a ++ faults (V.adding (names a)) as)
    (hholds : ∀ V a, holds V.scope a ↔ fault V a = []) (as : List α) :
    ∀ V : Declared, InTurn holds names V.scope as ↔ faults V as = [] := by
  induction as with
  | nil => exact fun V => ⟨fun _ => hnil V, fun _ => .nil⟩
  | cons a as ih =>
    intro V
    rw [inTurn_cons, hcons, List.append_eq_nil_iff, hholds, ← ih, Declared.scope_adding]

section Declarations

variable {known : Symbol → Symbol → Bool}

theorem TypeExpr.resolves_iff (t : TypeExpr) (V : Declared) :
    Expr.Resolves known false V.scope t.toExpr ↔ t.faults known V = [] :=
  Expr.resolves_iff _ _

namespace Variable

theorem depsResolve_iff (deps : List Variable) (V : Declared) :
    DepsResolve known V.scope deps ↔ depFaults known V deps = [] :=
  inTurn_iff_faults (fun _ => rfl) (fun _ _ _ => rfl) (fun V v => v.type.resolves_iff V) deps V

theorem fieldsResolve_iff (fields : List Variable) (V : Declared) :
    FieldsResolve known V.scope fields ↔ fieldFaults known V fields = [] := by
  have hfield : ∀ (V : Declared) (v : Variable),
      (v.name.name ∉ V.scope ∧ Expr.Resolves known false V.scope v.type.toExpr)
        ↔ v.type.faults known V ++ V.redeclared .field v.name = [] := by
    intro V v
    rw [List.append_eq_nil_iff, Declared.redeclared_eq_nil, v.type.resolves_iff, and_comm]
  exact inTurn_iff_faults (fun _ => rfl) (fun _ _ _ => rfl) hfield fields V

end Variable

namespace RuleInput

theorem resolves_iff (i : RuleInput) (V : Declared) :
    i.Resolves known V.scope ↔ i.faults known V = [] := by
  cases i with
  | any span => exact ⟨fun _ => rfl, fun _ => trivial⟩
  | value p =>
    show (p.bareVar?.isSome ∨ Expr.Resolves known true V.scope p)
      ↔ (if p.bareVar?.isSome then [] else p.faults known true V) = []
    rw [p.resolves_iff]
    cases p.bareVar?.isSome <;> simp

theorem inTurn_iff (inputs : List RuleInput) (V : Declared) :
    InTurn (Resolves known) binds V.scope inputs
      ↔ faultsAll known V inputs = [] :=
  inTurn_iff_faults (fun _ => rfl) (fun _ _ _ => rfl) (fun V i => i.resolves_iff V) inputs V

end RuleInput

theorem Rule.resolves_iff (r : Rule) (V : Declared) :
    r.Resolves known V.scope ↔ r.faults known V = [] := by
  unfold Rule.faults
  rw [List.append_eq_nil_iff, ← RuleInput.inTurn_iff, List.flatMap_eq_nil_iff]
  simp only [← Variable.fieldsResolve_iff, Declared.scope_adding]
  constructor
  · exact fun h => ⟨h.inputs, h.constructors⟩
  · exact fun h => ⟨h.1, h.2⟩

theorem TypeDef.resolves_iff (d : TypeDef) (V : Declared) :
    d.Resolves known V.scope ↔ d.faults known V = [] := by
  cases d with
  | message m =>
    unfold TypeDef.faults
    rw [List.append_eq_nil_iff, ← Variable.depsResolve_iff, ← Variable.fieldsResolve_iff,
      Declared.scope_adding]
    rfl
  | enum e =>
    unfold TypeDef.faults
    rw [List.append_eq_nil_iff, ← Variable.depsResolve_iff, List.flatMap_eq_nil_iff]
    simp only [← Rule.resolves_iff, Declared.scope_adding]
    rfl

namespace ParameterType

mutual

theorem resolves_iff : ∀ (t : ParameterType) (V : Declared),
    t.Resolves known V.scope ↔ t.faults known V = []
  | .value t, V => by
    unfold faults
    rw [← t.resolves_iff]
    constructor
    · intro h
      cases h with
      | value htype => exact htype
    · exact .value
  | .function ps result, V => by
    unfold faults
    rw [List.append_eq_nil_iff, ← inTurn_iff ps V, ← result.resolves_iff, Declared.scope_adding]
    constructor
    · intro h
      cases h with
      | function hnames htypes hresult => exact ⟨⟨hnames, htypes⟩, hresult⟩
    · exact fun h => .function h.1.1 h.1.2 h.2

theorem inTurn_iff : ∀ (ps : List (Named ParameterType)) (V : Declared),
    InTurn (fun G p => p.name.name ∉ G) (fun p => [p.name.name]) V.scope ps
        ∧ InTurn (fun G p => Resolves known G p.val) (fun p => [p.name.name]) V.scope ps
      ↔ faultsAll known V ps = []
  | [], V => ⟨fun _ => rfl, fun _ => ⟨.nil, .nil⟩⟩
  | p :: ps, V => by
    unfold faultsAll
    rw [List.append_eq_nil_iff, List.append_eq_nil_iff, ← resolves_iff p.val V,
      Declared.redeclared_eq_nil, ← inTurn_iff ps, Declared.scope_adding, inTurn_cons,
      inTurn_cons]
    tauto

end

end ParameterType

theorem FunctionDef.resolves_iff (f : FunctionDef) (V : Declared) :
    f.Resolves known V.scope ↔ f.faults known V = [] := by
  have hsignature : ParameterType.Resolves known V.scope (.function f.params f.result)
      ↔ ParameterType.faultsAll known V f.params
        ++ f.result.faults known (V.adding (f.params.map fun p => p.name.name)) = [] :=
    ParameterType.resolves_iff _ V
  unfold FunctionDef.faults
  rw [List.append_eq_nil_iff, ← hsignature]
  constructor
  · intro h
    refine ⟨h.signature, ?_⟩
    cases hbody : f.body with
    | none => rfl
    | some body =>
      show body.faults known false _ = []
      rw [← Expr.resolves_iff, Declared.scope_adding]
      exact h.body body hbody
  · intro h
    obtain ⟨hresolves, hfaults⟩ := h
    refine ⟨hresolves, fun body hbody => ?_⟩
    rw [hbody] at hfaults
    rw [← Declared.scope_adding, Expr.resolves_iff]
    exact hfaults

end Declarations

/-! ## §5. Schemas. -/

namespace Schema

/-- A type declares its own name and then those of its constructors; a schema has first the names of
all types and then those of all constructors. -/
theorem declaredNames_perm (s : Schema) :
    s.declaredNames.Perm (s.typeNames ++ s.enumConstructors ++ s.functionNames) := by
  have hnames : s.types.flatMap TypeDef.declaredNames
      = s.types.flatMap fun d => [d.name] ++ d.enumConstructors := by
    congr 1
    funext d
    cases d with
    | message m => rfl
    | enum e => simp [TypeDef.declaredNames, TypeDef.globalNames, TypeDef.enumConstructors,
        TypeDef.name, Constructor.name, Function.comp_def]
  rw [declaredNames_eq, hnames, typeNames, List.map_eq_flatMap]
  exact (List.flatMap_append_perm _ _ _).symm.append_right _

theorem everywhere_perm (s : Schema) :
    s.everywhere.Perm (Symbol.builtins ++ s.declaredNames) := by
  unfold everywhere
  rw [List.append_assoc, List.append_assoc, ← List.append_assoc s.typeNames]
  exact (declaredNames_perm s).symm.append_left _

theorem scope_globals (s : Schema) : s.globals.scope = {n | n ∈ s.everywhere} := by
  ext n
  show s.globals n = true ↔ n ∈ s.everywhere
  rw [(everywhere_perm s).mem_iff]
  simp [globals, Declared.adding, or_comm]

theorem nodup_everywhere (s : Schema) :
    s.everywhere.Nodup ↔ s.declaredNames.Nodup
      ∧ ∀ n ∈ s.declaredNames, Symbol.builtins.contains n = false := by
  rw [(everywhere_perm s).nodup_iff, List.nodup_append]
  constructor
  · intro h
    obtain ⟨-, hnodup, hapart⟩ := h
    refine ⟨hnodup, fun n hn => ?_⟩
    by_contra hbuiltin
    exact hapart n (by simpa using hbuiltin) n hn rfl
  · intro h
    obtain ⟨hnodup, hnew⟩ := h
    refine ⟨by decide, hnodup, ?_⟩
    rintro n hbuiltin _ hn rfl
    simpa [hbuiltin] using hnew n hn

/-- **Name resolution finds no fault exactly in the schemas that are well-scoped.** -/
theorem nameFaults_eq_nil_iff_wellScoped (s : Schema) : s.nameFaults = [] ↔ s.WellScoped := by
  have htypes : s.types.flatMap (TypeDef.faults s.hasField s.globals) = []
      ↔ ∀ d ∈ s.types, d.Resolves s.hasField {n | n ∈ s.everywhere} := by
    rw [List.flatMap_eq_nil_iff, ← scope_globals]
    simp only [TypeDef.resolves_iff]
  have hfunctions : s.functions.flatMap (FunctionDef.faults s.hasField s.globals) = []
      ↔ ∀ f ∈ s.functions, f.Resolves s.hasField {n | n ∈ s.everywhere} := by
    rw [List.flatMap_eq_nil_iff, ← scope_globals]
    simp only [FunctionDef.resolves_iff]
  rw [nameFaults_eq_nil, ← nodup_everywhere, htypes, hfunctions]
  constructor
  · intro h
    obtain ⟨hdistinct, hrefused, htypes, hfunctions⟩ := h
    exact ⟨hrefused, hdistinct, htypes, hfunctions⟩
  · exact fun h => ⟨h.distinct, h.refused, h.types, h.functions⟩

end Schema

end DepSchema
