/-
DepSchema.Proofs.Vocabulary.Reference — what an expression refers to.

An expression refers to types, constructors, functions and variables by their names. A vocabulary
says which references are allowed; an expression is within it when it makes no other. Declarations
are within a vocabulary when each of their expressions is within what is in scope at its place:
each dependency, field and parameter adds its own name for those after it.

Two places are stricter than scopes are. A function type that stands as the type of a parameter may
not use the parameters beside it, and what a rule input compares, rather than binds, may not use any
name of the declaration.

Main definitions: `Expr.refs`, `Expr.Within` and `TypeDef.Within`.
-/
import Mathlib
import DepSchema.Query
import DepSchema.Proofs.Names.Reading

namespace DepSchema

/-! ## §1. References. -/

/-- Something that an expression refers to by its name. A reference to a type says how many
parameters the type is given. -/
inductive Reference where
  | type (name : Symbol) (arity : Nat)
  | ctor (name : Symbol)
  | callee (name : Symbol)
  | var (name : Symbol)
  deriving Repr, DecidableEq

namespace Expr

mutual

/-- The references of an expression, from left to right, with repetitions. -/
def refs : Expr → List Reference
  | binary _ _ l r => refs l ++ refs r
  | unary _ _ x => refs x
  | type _ i ps => .type i.name ps.length :: refsAll ps
  | access a => [.var a.var.name]
  | scalar _ _ => []
  | constructed _ c fs => .ctor c.name :: refsFields fs
  | collection _ es => refsAll es
  | call _ f as => .callee f.name :: refsAll as
termination_by structural e => e

/-- The references of several expressions. -/
def refsAll : List Expr → List Reference
  | [] => []
  | e :: es => refs e ++ refsAll es
termination_by structural es => es

/-- The references of the values of several fields. -/
def refsFields : List (Named Expr) → List Reference
  | [] => []
  | f :: fs => refs f.val ++ refsFields fs
termination_by structural fs => fs

end

theorem mem_refsAll {r : Reference} {es : List Expr} :
    r ∈ refsAll es ↔ ∃ e ∈ es, r ∈ e.refs := by
  induction es with
  | nil => simp [refsAll]
  | cons e es ih => simp [refsAll, ih]

theorem mem_refsFields {r : Reference} {fs : List (Named Expr)} :
    r ∈ refsFields fs ↔ ∃ f ∈ fs, r ∈ f.val.refs := by
  induction fs with
  | nil => simp [refsFields]
  | cons f fs ih => simp [refsFields, ih]

mutual

/-- The variables of an expression are those that it refers to. -/
theorem mem_vars {n : Symbol} : ∀ {e : Expr}, n ∈ e.vars ↔ .var n ∈ e.refs
  | .binary _ _ l r => by simp [vars, refs, mem_vars (e := l), mem_vars (e := r)]
  | .unary _ _ x => mem_vars (e := x)
  | .type _ _ ps => by simp [vars, refs, mem_varsAll (l := ps)]
  | .access _ => by simp [vars, refs]
  | .scalar _ _ => by simp [vars, refs]
  | .constructed _ _ fs => by simp [vars, refs, mem_varsFields (l := fs)]
  | .collection _ es => mem_varsAll (l := es)
  | .call _ _ as => by simp [vars, refs, mem_varsAll (l := as)]

theorem mem_varsAll {n : Symbol} : ∀ {l : List Expr}, n ∈ varsAll l ↔ .var n ∈ refsAll l
  | [] => by simp [varsAll, refsAll]
  | e :: es => by simp [varsAll, refsAll, mem_vars (e := e), mem_varsAll (l := es)]

theorem mem_varsFields {n : Symbol} :
    ∀ {l : List (Named Expr)}, n ∈ varsFields l ↔ .var n ∈ refsFields l
  | [] => by simp [varsFields, refsFields]
  | f :: fs => by simp [varsFields, refsFields, mem_vars (e := f.val), mem_varsFields (l := fs)]

end

end Expr

/-! ## §2. Vocabularies. -/

/-- Which references are allowed. -/
abbrev Vocabulary := Reference → Prop

namespace Vocabulary

variable {V W : Vocabulary} {names : List Symbol} {n : Symbol}

/-- Some more variables are allowed. -/
def also (V : Vocabulary) (p : Symbol → Prop) : Vocabulary := fun r => V r ∨ ∃ n, r = .var n ∧ p n

/-- The variables of these names are allowed, too. -/
def adding (V : Vocabulary) (names : List Symbol) : Vocabulary := V.also (· ∈ names)

/-- The variables in scope are allowed, too. -/
def inScope (V : Vocabulary) (scope : Scopes Binding) : Vocabulary :=
  V.also fun n => scope.contains n = true

theorem le_also (p : Symbol → Prop) : V ≤ V.also p := fun _ h => .inl h

theorem also_mono {p q : Symbol → Prop} (h : V ≤ W) (hpq : ∀ n, p n → q n) :
    V.also p ≤ W.also q := by
  intro r hr
  rcases hr with hr | ⟨n, rfl, hn⟩
  · exact .inl (h _ hr)
  · exact .inr ⟨n, rfl, hpq n hn⟩

theorem le_adding (names : List Symbol) : V ≤ V.adding names := le_also _

theorem le_inScope (scope : Scopes Binding) : V ≤ V.inScope scope := le_also _

theorem adding_mono (h : V ≤ W) (names : List Symbol) : V.adding names ≤ W.adding names :=
  also_mono h fun _ hn => hn

theorem inScope_mono {s t : Scopes Binding} (h : ∀ n, s.contains n = true → t.contains n = true) :
    V.inScope s ≤ V.inScope t :=
  also_mono le_rfl h

/-- A vocabulary with some more variables is below each one that has the rest and the variables. -/
theorem adding_le (h : V ≤ W) (hn : ∀ n ∈ names, W (.var n)) : V.adding names ≤ W := by
  intro r hr
  rcases hr with hr | ⟨n, rfl, hmem⟩
  · exact h _ hr
  · exact hn n hmem

theorem adding_adding (V : Vocabulary) (names more : List Symbol) :
    (V.adding names).adding more = V.adding (names ++ more) := by
  funext r
  refine propext ⟨?_, ?_⟩
  · intro h
    rcases h with (h | ⟨n, rfl, hn⟩) | ⟨n, rfl, hn⟩
    · exact .inl h
    · exact .inr ⟨n, rfl, List.mem_append_left _ hn⟩
    · exact .inr ⟨n, rfl, List.mem_append_right _ hn⟩
  · intro h
    rcases h with h | ⟨n, rfl, hn⟩
    · exact .inl (.inl h)
    · rcases List.mem_append.mp hn with hn | hn
      · exact .inl (.inr ⟨n, rfl, hn⟩)
      · exact .inr ⟨n, rfl, hn⟩

@[simp] theorem adding_nil (V : Vocabulary) : V.adding [] = V := by
  funext r
  simp [adding, also]

end Vocabulary

/-! ## §3. Expressions within a vocabulary. -/

/-- The expression makes no reference outside of the vocabulary. -/
def Expr.Within (V : Vocabulary) (e : Expr) : Prop := ∀ r ∈ e.refs, V r

/-- The type makes no reference outside of the vocabulary. -/
def TypeExpr.Within (V : Vocabulary) (t : TypeExpr) : Prop := t.toExpr.Within V

namespace Expr

variable {V W : Vocabulary} {span : Span}

theorem Within.mono {e : Expr} (h : e.Within V) (hVW : V ≤ W) : e.Within W :=
  fun r hr => hVW r (h r hr)

@[simp] theorem within_binary {op : BinaryOp} {l r : Expr} :
    (binary span op l r).Within V ↔ l.Within V ∧ r.Within V := by
  simp [Within, refs, or_imp, forall_and]

@[simp] theorem within_unary {op : UnaryOp} {x : Expr} :
    (unary span op x).Within V ↔ x.Within V := Iff.rfl

@[simp] theorem within_type {i : Ident} {ps : List Expr} :
    (type span i ps).Within V ↔ V (.type i.name ps.length) ∧ ∀ p ∈ ps, p.Within V := by
  simp only [Within, refs, List.forall_mem_cons, mem_refsAll]
  grind

@[simp] theorem within_access {a : Access} : (access a).Within V ↔ V (.var a.var.name) := by
  simp [Within, refs]

@[simp] theorem within_scalar {v : Scalar} : (scalar span v).Within V := by
  simp [Within, refs]

@[simp] theorem within_constructed {c : Ident} {fs : List (Named Expr)} :
    (constructed span c fs).Within V ↔ V (.ctor c.name) ∧ ∀ f ∈ fs, f.val.Within V := by
  simp only [Within, refs, List.forall_mem_cons, mem_refsFields]
  grind

@[simp] theorem within_collection {es : List Expr} :
    (collection span es).Within V ↔ ∀ e ∈ es, e.Within V := by
  simp only [Within, refs, mem_refsAll]
  grind

@[simp] theorem within_call {f : Ident} {as : List Expr} :
    (call span f as).Within V ↔ V (.callee f.name) ∧ ∀ a ∈ as, a.Within V := by
  simp only [Within, refs, List.forall_mem_cons, mem_refsAll]
  grind

end Expr

namespace TypeExpr

variable {V W : Vocabulary}

theorem Within.mono {t : TypeExpr} (h : t.Within V) (hVW : V ≤ W) : t.Within W :=
  Expr.Within.mono h hVW

theorem within_iff {t : TypeExpr} :
    t.Within V ↔ V (.type t.name t.params.length) ∧ ∀ p ∈ t.params, p.Within V :=
  Expr.within_type

end TypeExpr

/-! ## §4. Declarations within a vocabulary. -/

/-- Dependencies or fields are within a vocabulary, each within what those before it add. -/
def Variable.Within : Vocabulary → List Variable → Prop
  | _, [] => True
  | V, v :: vs => v.type.Within V ∧ Variable.Within (V.adding [v.name.name]) vs

namespace Expr

mutual

/-- The names that a value of a rule input binds where a rule is matched: variables alone, as the
input itself or as values of fields. -/
def caught : Expr → List Symbol
  | access a => if a.isVar then [a.var.name] else []
  | constructed _ _ fs => caughtFields fs
  | _ => []
termination_by structural e => e

/-- The names that the values of several fields bind. -/
def caughtFields : List (Named Expr) → List Symbol
  | [] => []
  | f :: fs => caught f.val ++ caughtFields fs
termination_by structural fs => fs

end

mutual

/-- A value is within a vocabulary where it is read as a rule input: variables alone, as values of
fields, are bound and need not be allowed. -/
def Plain (V : Vocabulary) : Expr → Prop
  | constructed _ c fs => V (.ctor c.name) ∧ PlainFields V fs
  | e => e.Within V
termination_by structural e => e

/-- Each value of a field is a variable alone or within the vocabulary. -/
def PlainFields (V : Vocabulary) : List (Named Expr) → Prop
  | [] => True
  | f :: fs => (f.val.bareVar?.isSome ∨ Plain V f.val) ∧ PlainFields V fs
termination_by structural fs => fs

end

end Expr

namespace RuleInput

/-- The names that an input binds where a rule is matched. -/
def caught : RuleInput → List Symbol
  | any _ => []
  | value p => p.caught

/-- The input binds, or else is within the vocabulary. -/
def Plain (V : Vocabulary) : RuleInput → Prop
  | any _ => True
  | value p => p.bareVar?.isSome ∨ p.Plain V

end RuleInput

/-- The rule of an enum with dependencies `deps` is within a vocabulary: what the inputs compare
is, and each field is within what the dependencies, the inputs and the fields before it add. -/
structure Rule.Within (V : Vocabulary) (deps : List Symbol) (r : Rule) : Prop where
  inputs : ∀ i ∈ r.inputs, i.Plain V
  fields : ∀ c ∈ r.constructors,
    Variable.Within ((V.adding deps).adding (r.inputs.flatMap RuleInput.caught)) c.fields

/-- A declared type is within a vocabulary: the dependencies, then fields or rules. -/
def TypeDef.Within (V : Vocabulary) (d : TypeDef) : Prop :=
  Variable.Within V d.deps ∧
    match d with
    | message m => Variable.Within (V.adding (Variable.names m.deps)) m.fields
    | enum e => ∀ r ∈ e.rules, r.Within V (Variable.names e.deps)

namespace ParameterType

mutual

/-- The type of a parameter is within a vocabulary; if it is a function type, within the vocabulary
`outer` that does not have the parameters before it. -/
def Within (outer V : Vocabulary) : ParameterType → Prop
  | value t => t.Within V
  | function ps result =>
    AllWithin outer outer ps ∧ result.Within (outer.adding (ps.map fun p => p.name.name))
termination_by structural t => t

/-- Parameters are within a vocabulary, each within what those before it add. -/
def AllWithin (outer V : Vocabulary) : List (Named ParameterType) → Prop
  | [] => True
  | p :: ps => Within outer V p.val ∧ AllWithin outer (V.adding [p.name.name]) ps
termination_by structural ps => ps

end

end ParameterType

/-- A function type is within a vocabulary: the parameters, and the result in their scope. -/
structure FunctionType.Within (V : Vocabulary) (ft : FunctionType) : Prop where
  params : ParameterType.AllWithin V V ft.params
  result : ft.result.Within (V.adding (ft.params.map fun p => p.name.name))

/-- A function is within a vocabulary: its type, and the body in the scope of the parameters. -/
structure FunctionDef.Within (V : Vocabulary) (f : FunctionDef) : Prop where
  signature : f.signature.Within V
  body : ∀ b ∈ f.body, b.Within (V.adding (f.params.map fun p => p.name.name))

/-- What a name stands for is within a vocabulary. -/
def Binding.Within (V : Vocabulary) : Binding → Prop
  | value t => t.Within V
  | function ft => ft.Within V

/-! ## §5. Parts of what is within a vocabulary. -/

namespace Variable

variable {V : Vocabulary}

/-- Each variable is within what those before it add. -/
theorem Within.mem : ∀ {vars : List Variable} {V : Vocabulary}, Within V vars →
    ∀ v ∈ vars, v.type.Within (V.adding (names vars))
  | [], _, _, _, hv => by cases hv
  | w :: vars, V, h, v, hv => by
    rw [show names (w :: vars) = [w.name.name] ++ names vars from rfl, ← Vocabulary.adding_adding]
    rcases List.mem_cons.mp hv with rfl | hv
    · exact TypeExpr.Within.mono h.1 ((Vocabulary.le_adding _).trans (Vocabulary.le_adding _))
    · exact Within.mem h.2 v hv

/-- The first variable of a name is within what those before it add. -/
theorem Within.find? {name : Symbol} {v : Variable} :
    ∀ {vars : List Variable} {V : Vocabulary}, Within V vars → Variable.find? vars name = some v →
      v.type.Within (V.adding (names (vars.takeWhile fun v => v.name.name != name)))
  | [], _, _, h => by cases h
  | w :: vars, V, hvars, h => by
    unfold Variable.find? at h
    by_cases heq : w.name.name = name
    · simp only [List.find?_cons, heq, beq_self_eq_true] at h
      cases h
      simpa [heq, names] using hvars.1
    · have hne : (w.name.name != name) = true := by simpa using heq
      rw [List.find?_cons_of_neg (by simpa using heq)] at h
      rw [List.takeWhile_cons_of_pos (p := fun v : Variable => v.name.name != name) hne,
        show names (w :: vars.takeWhile fun v => v.name.name != name)
          = [w.name.name] ++ names (vars.takeWhile fun v => v.name.name != name) from rfl,
        ← Vocabulary.adding_adding]
      exact Within.find? hvars.2 h

end Variable

theorem ParameterType.AllWithin.append {outer : Vocabulary} {qs : List (Named ParameterType)} :
    ∀ {ps : List (Named ParameterType)} {V : Vocabulary}, AllWithin outer V (ps ++ qs) →
      AllWithin outer (V.adding (ps.map fun p => p.name.name)) qs
  | [], V, h => by simpa using h
  | p :: ps, V, h => by
    rw [List.map_cons, ← List.singleton_append, ← Vocabulary.adding_adding]
    exact AllWithin.append h.2

namespace Expr

/-- A variable alone is the access of a variable. -/
theorem access_of_bareVar? {e : Expr} {v : Ident} (h : e.bareVar? = some v) :
    ∃ a, e = .access a ∧ a.isVar = true ∧ a.var = v := by
  cases e with
  | access a => exact ⟨a, rfl, by simpa [bareVar?] using h⟩
  | _ => cases h

mutual

/-- What a rule input binds it refers to. -/
theorem caught_subset_refs {n : Symbol} : ∀ {e : Expr}, n ∈ e.caught → .var n ∈ e.refs
  | .access a, h => by
    unfold caught at h
    split at h
    · simpa [refs] using h
    · cases h
  | .constructed _ _ _, h => List.mem_cons_of_mem _ (caughtFields_subset_refs h)
  | .binary _ _ _ _, h => by cases h
  | .unary _ _ _, h => by cases h
  | .type _ _ _, h => by cases h
  | .scalar _ _, h => by cases h
  | .collection _ _, h => by cases h
  | .call _ _ _, h => by cases h

theorem caughtFields_subset_refs {n : Symbol} :
    ∀ {fs : List (Named Expr)}, n ∈ caughtFields fs → .var n ∈ refsFields fs
  | [], h => by cases h
  | f :: fs, h => by
    unfold refsFields
    rcases List.mem_append.mp h with h | h
    · exact List.mem_append_left _ (caught_subset_refs h)
    · exact List.mem_append_right _ (caughtFields_subset_refs h)

end

end Expr

/-! ## §6. Larger vocabularies. -/

namespace Variable

theorem Within.mono : ∀ {vars : List Variable} {V W : Vocabulary},
    Within V vars → V ≤ W → Within W vars
  | [], _, _, _, _ => trivial
  | _ :: _, _, _, h, hVW => ⟨h.1.mono hVW, h.2.mono (Vocabulary.adding_mono hVW _)⟩

end Variable

namespace Expr

variable {V W : Vocabulary}

theorem plainFields_iff {fs : List (Named Expr)} :
    PlainFields V fs ↔ ∀ f ∈ fs, f.val.bareVar?.isSome ∨ f.val.Plain V := by
  induction fs with
  | nil => simp [PlainFields]
  | cons f fs ih => simp [PlainFields, ih]

theorem plain_constructed {span : Span} {c : Ident} {fs : List (Named Expr)} :
    (constructed span c fs).Plain V
      ↔ V (.ctor c.name) ∧ ∀ f ∈ fs, f.val.bareVar?.isSome ∨ f.val.Plain V := by
  rw [Plain, plainFields_iff]

mutual

/-- What is within a vocabulary is so, too, where it is read as a rule input. -/
theorem Within.plain : ∀ {e : Expr}, e.Within V → e.Plain V
  | .constructed _ _ fs, h => by
    rw [within_constructed] at h
    exact ⟨h.1, Within.plainFields h.2⟩
  | .binary _ _ _ _, h => h
  | .unary _ _ _, h => h
  | .type _ _ _, h => h
  | .access _, h => h
  | .scalar _ _, h => h
  | .collection _ _, h => h
  | .call _ _ _, h => h

theorem Within.plainFields :
    ∀ {fs : List (Named Expr)}, (∀ f ∈ fs, f.val.Within V) → PlainFields V fs
  | [], _ => trivial
  | f :: fs, h => by
    rw [List.forall_mem_cons] at h
    exact ⟨.inr h.1.plain, Within.plainFields h.2⟩

end

mutual

theorem Plain.mono (hVW : V ≤ W) : ∀ {e : Expr}, e.Plain V → e.Plain W
  | .constructed _ _ _, h => ⟨hVW _ h.1, PlainFields.mono hVW h.2⟩
  | .binary _ _ _ _, h => Within.mono h hVW
  | .unary _ _ _, h => Within.mono h hVW
  | .type _ _ _, h => Within.mono h hVW
  | .access _, h => Within.mono h hVW
  | .scalar _ _, h => Within.mono h hVW
  | .collection _ _, h => Within.mono h hVW
  | .call _ _ _, h => Within.mono h hVW

theorem PlainFields.mono (hVW : V ≤ W) :
    ∀ {fs : List (Named Expr)}, PlainFields V fs → PlainFields W fs
  | [], _ => trivial
  | _ :: _, h => ⟨h.1.imp_right (Plain.mono hVW), PlainFields.mono hVW h.2⟩

end

end Expr

namespace ParameterType

mutual

theorem Within.mono {outer outer' V W : Vocabulary} (ho : outer ≤ outer') (hVW : V ≤ W) :
    ∀ {t : ParameterType}, Within outer V t → Within outer' W t
  | .value _, h => TypeExpr.Within.mono h hVW
  | .function _ _, h => ⟨AllWithin.mono ho ho h.1, h.2.mono (Vocabulary.adding_mono ho _)⟩

theorem AllWithin.mono {outer outer' V W : Vocabulary} (ho : outer ≤ outer') (hVW : V ≤ W) :
    ∀ {ps : List (Named ParameterType)}, AllWithin outer V ps → AllWithin outer' W ps
  | [], _ => trivial
  | _ :: _, h => ⟨Within.mono ho hVW h.1, AllWithin.mono ho (Vocabulary.adding_mono hVW _) h.2⟩

end

end ParameterType

theorem FunctionType.Within.mono {V W : Vocabulary} {ft : FunctionType} (h : ft.Within V)
    (hVW : V ≤ W) : ft.Within W :=
  ⟨h.params.mono hVW hVW, h.result.mono (Vocabulary.adding_mono hVW _)⟩

theorem Binding.Within.mono {V W : Vocabulary} (hVW : V ≤ W) :
    ∀ {b : Binding}, b.Within V → b.Within W
  | .value _, h => TypeExpr.Within.mono h hVW
  | .function _, h => FunctionType.Within.mono h hVW

/-! ## §7. Expressions of declarations. -/

/-- The types of some variables, as expressions. -/
def Variable.exprs (vars : List Variable) : List Expr := vars.map fun v => v.type.toExpr

/-- The expression of a rule input, if it has one. -/
def RuleInput.exprs : RuleInput → List Expr
  | any _ => []
  | value p => [p]

/-- The expressions of a rule, inputs first. -/
def Rule.exprs (r : Rule) : List Expr :=
  r.inputs.flatMap RuleInput.exprs ++ r.constructors.flatMap fun c => Variable.exprs c.fields

/-- The expressions of a type, dependencies first. -/
def TypeDef.exprs (d : TypeDef) : List Expr :=
  Variable.exprs d.deps ++
    match d with
    | message m => Variable.exprs m.fields
    | enum e => e.rules.flatMap Rule.exprs

/-- The type of a field is one of the expressions of a type. -/
theorem TypeDef.exprs_of_field {d : TypeDef} {ctor : Constructor} (hctor : ctor ∈ d.constructors)
    {v : Variable} (hv : v ∈ ctor.fields) : v.type.toExpr ∈ d.exprs := by
  refine List.mem_append_right _ ?_
  cases d with
  | message m =>
    obtain rfl := List.mem_singleton.mp hctor
    exact List.mem_map_of_mem hv
  | enum e =>
    obtain ⟨r, hr, hctor⟩ := List.mem_flatMap.mp hctor
    refine List.mem_flatMap.mpr ⟨r, hr, List.mem_append_right _ ?_⟩
    exact List.mem_flatMap.mpr ⟨ctor, hctor, List.mem_map_of_mem hv⟩

namespace ParameterType

mutual

/-- The types that stand in the type of a parameter, as expressions. -/
def exprs : ParameterType → List Expr
  | value t => [t.toExpr]
  | function ps result => exprsAll ps ++ [result.toExpr]
termination_by structural t => t

/-- The types that stand in the types of several parameters. -/
def exprsAll : List (Named ParameterType) → List Expr
  | [] => []
  | p :: ps => exprs p.val ++ exprsAll ps
termination_by structural ps => ps

end

end ParameterType

/-- The expressions of a function type: its parameters, then the result. -/
def FunctionType.exprs (ft : FunctionType) : List Expr :=
  ParameterType.exprsAll ft.params ++ [ft.result.toExpr]

/-- The expressions of a function: its type, then the body. -/
def FunctionDef.exprs (f : FunctionDef) : List Expr := f.signature.exprs ++ f.body.toList

/-- The expressions of a schema. -/
def Schema.exprs (s : Schema) : List Expr :=
  s.types.flatMap TypeDef.exprs ++ s.functions.flatMap FunctionDef.exprs

namespace Schema

variable {s : Schema}

theorem exprs_of_type {d : TypeDef} (hd : d ∈ s.types) : d.exprs ⊆ s.exprs :=
  fun _ he => List.mem_append_left _ (List.mem_flatMap.mpr ⟨d, hd, he⟩)

end Schema

variable {V W : Vocabulary}

theorem Variable.within_of_exprs {vars : List Variable} {V : Vocabulary}
    (h : ∀ e ∈ exprs vars, e.Within V) : Variable.Within V vars := by
  induction vars generalizing V with
  | nil => trivial
  | cons v vars ih =>
    obtain ⟨hv, hvars⟩ := List.forall_mem_cons.mp h
    exact ⟨hv, ih fun e he => (hvars e he).mono (Vocabulary.le_adding _)⟩

theorem Rule.within_of_exprs {r : Rule} (deps : List Symbol) (h : ∀ e ∈ r.exprs, e.Within V) :
    r.Within V deps := by
  obtain ⟨hinputs, hfields⟩ := List.forall_mem_append.mp h
  refine ⟨?_, ?_⟩
  · intro i hi
    cases i with
    | any span => trivial
    | value p =>
      exact .inr (hinputs p (List.mem_flatMap.mpr ⟨_, hi, List.mem_singleton_self p⟩)).plain
  · intro c hc
    refine Variable.Within.mono (Variable.within_of_exprs fun e he => hfields e ?_)
      ((Vocabulary.le_adding _).trans (Vocabulary.le_adding _))
    exact List.mem_flatMap.mpr ⟨c, hc, he⟩

/-- **A type is within a vocabulary if its expressions are.** -/
theorem TypeDef.within_of_exprs {d : TypeDef} (h : ∀ e ∈ d.exprs, e.Within V) : d.Within V := by
  obtain ⟨hdeps, hrest⟩ := List.forall_mem_append.mp h
  refine ⟨Variable.within_of_exprs hdeps, ?_⟩
  cases d with
  | message m => exact (Variable.within_of_exprs hrest).mono (Vocabulary.le_adding _)
  | enum e =>
    exact fun r hr => Rule.within_of_exprs _ fun e he =>
      hrest e (List.mem_flatMap.mpr ⟨r, hr, he⟩)

namespace ParameterType

mutual

theorem within_of_exprs : ∀ {t : ParameterType} {W : Vocabulary},
    (∀ e ∈ t.exprs, e.Within V) → V ≤ W → t.Within V W
  | .value _, _, h, hVW => (h _ List.mem_cons_self).mono hVW
  | .function _ _, _, h, _ => by
    obtain ⟨hps, hresult⟩ := List.forall_mem_append.mp h
    exact ⟨allWithin_of_exprs hps le_rfl,
      (hresult _ List.mem_cons_self).mono (Vocabulary.le_adding _)⟩

theorem allWithin_of_exprs : ∀ {ps : List (Named ParameterType)} {W : Vocabulary},
    (∀ e ∈ exprsAll ps, e.Within V) → V ≤ W → AllWithin V W ps
  | [], _, _, _ => trivial
  | _ :: _, _, h, hVW => by
    obtain ⟨hp, hps⟩ := List.forall_mem_append.mp h
    exact ⟨within_of_exprs hp hVW, allWithin_of_exprs hps (hVW.trans (Vocabulary.le_adding _))⟩

end

end ParameterType

theorem FunctionType.within_of_exprs {ft : FunctionType} (h : ∀ e ∈ ft.exprs, e.Within V) :
    ft.Within V := by
  obtain ⟨hparams, hresult⟩ := List.forall_mem_append.mp h
  exact ⟨ParameterType.allWithin_of_exprs hparams le_rfl,
    (hresult _ List.mem_cons_self).mono (Vocabulary.le_adding _)⟩

/-- **A function is within a vocabulary if its expressions are.** -/
theorem FunctionDef.within_of_exprs {f : FunctionDef} (h : ∀ e ∈ f.exprs, e.Within V) :
    f.Within V := by
  obtain ⟨hsignature, hbody⟩ := List.forall_mem_append.mp h
  refine ⟨FunctionType.within_of_exprs hsignature, fun b hb => ?_⟩
  exact (hbody b (Option.mem_toList.mpr hb)).mono (Vocabulary.le_adding _)

/-- Everything is allowed. -/
def Vocabulary.all : Vocabulary := fun _ => True

theorem Expr.within_all (e : Expr) : e.Within .all := fun _ _ => trivial

theorem TypeDef.within_all (d : TypeDef) : d.Within .all :=
  within_of_exprs fun e _ => e.within_all

theorem FunctionDef.within_all (f : FunctionDef) : f.Within .all :=
  within_of_exprs fun e _ => e.within_all

end DepSchema
