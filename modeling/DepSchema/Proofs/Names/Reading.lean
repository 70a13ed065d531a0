/-
DepSchema.Proofs.Names.Reading — the name faults of each part of a schema, read off the part.

The faults of an expression, a type or a declaration depend on the part itself, on which names are
declared where it stands, and on which constructor has which field. The functions here give them
without a walk: each takes the declared names as a predicate and passes on those that its parts
declare for what comes after them.

Main definitions: `Expr.faults`, `TypeDef.faults`, `FunctionDef.faults` and `Schema.globalNames`.
-/
import DepSchema.Resolution

namespace DepSchema

/-! ## §1. Declared names. -/

/-- Which names are declared. -/
abbrev Declared := Symbol → Bool

namespace Declared

/-- Some more names are declared. -/
def adding (V : Declared) (names : List Symbol) : Declared := fun n => names.contains n || V n

/-- The names that a rule input binds count only where one is being read. -/
def bound (reading : Bool) (V : Declared) (names : List Symbol) : Declared :=
  if reading then V.adding names else V

/-- The fault of a name that is used without being declared. -/
def demand (V : Declared) (i : Ident) (cause : Symbol → Cause) : List Diagnostic :=
  if V i.name then [] else [.located i.span (cause i.name)]

/-- The fault of a name that is declared although it is declared already. -/
def redeclared (V : Declared) (kind : NameKind) (i : Ident) : List Diagnostic :=
  if V i.name then [.located i.span (.redeclared kind i.name)] else []

end Declared

/-! ## §2. Expressions. -/

namespace Expr

mutual

/-- The names that an expression binds inside a rule input: variables alone, as values of fields. -/
def binds : Expr → List Symbol
  | binary _ _ l r => binds l ++ binds r
  | unary _ _ x => binds x
  | type _ _ ps => bindsAll ps
  | access _ => []
  | scalar _ _ => []
  | constructed _ _ fs => bindsFields fs
  | collection _ es => bindsAll es
  | call _ _ as => bindsAll as
termination_by structural e => e

/-- The names that several expressions bind. -/
def bindsAll : List Expr → List Symbol
  | [] => []
  | e :: es => binds e ++ bindsAll es
termination_by structural es => es

/-- The names that the values of fields bind. -/
def bindsFields : List (Named Expr) → List Symbol
  | [] => []
  | f :: fs =>
    (match f.val.bareVar? with
      | some i => [i.name]
      | none => binds f.val) ++ bindsFields fs
termination_by structural fs => fs

end

/-- What the value of a field binds. -/
def bindsValue (e : Expr) : List Symbol :=
  match e.bareVar? with
  | some i => [i.name]
  | none => e.binds

/-- The fault of a field that no constructor of the name has. -/
def unknownField (known : Symbol → Symbol → Bool) (ctor : Symbol) (defined : Bool) (f : Ident) :
    List Diagnostic :=
  if defined && !known ctor f.name then [.located f.span (.unknownField f.name ctor)] else []

mutual

/-- The name faults of an expression. -/
def faults (known : Symbol → Symbol → Bool) (reading : Bool) (V : Declared) : Expr → List Diagnostic
  | binary _ _ l r =>
    faults known reading V l ++ faults known reading (V.bound reading l.binds) r
  | unary _ _ x => faults known reading V x
  | type _ i ps => V.demand i .undefinedType ++ faultsAll known reading V ps
  | access a => V.demand a.var .undefinedVariable
  | scalar _ _ => []
  | constructed _ c fs =>
    V.demand c .undefinedConstructor ++ faultsFields known reading c.name (V c.name) V fs
  | collection _ es => faultsAll known reading V es
  | call _ f as => V.demand f .undefinedFunction ++ faultsAll known reading V as
termination_by structural e => e

/-- The name faults of several expressions. -/
def faultsAll (known : Symbol → Symbol → Bool) (reading : Bool) (V : Declared) :
    List Expr → List Diagnostic
  | [] => []
  | e :: es =>
    faults known reading V e ++ faultsAll known reading (V.bound reading e.binds) es
termination_by structural es => es

/-- The name faults of the fields of a constructed value. -/
def faultsFields (known : Symbol → Symbol → Bool) (reading : Bool) (ctor : Symbol) (defined : Bool)
    (V : Declared) : List (Named Expr) → List Diagnostic
  | [] => []
  | f :: fs =>
    unknownField known ctor defined f.name
      ++ (if reading && f.val.bareVar?.isSome then [] else faults known reading V f.val)
      ++ faultsFields known reading ctor defined
        ((V.bound reading f.val.bindsValue).adding [f.name.name]) fs
termination_by structural fs => fs

end

end Expr

/-- The name faults of a type. -/
def TypeExpr.faults (known : Symbol → Symbol → Bool) (V : Declared) (t : TypeExpr) :
    List Diagnostic :=
  t.toExpr.faults known false V

/-! ## §3. Declarations. -/

namespace Variable

/-- The names of some dependencies or fields. -/
def names (vars : List Variable) : List Symbol := vars.map fun v => v.name.name

/-- The name faults of dependencies, each declared for those after it. -/
def depFaults (known : Symbol → Symbol → Bool) : Declared → List Variable → List Diagnostic
  | _, [] => []
  | V, v :: vs => v.type.faults known V ++ depFaults known (V.adding [v.name.name]) vs

/-- The name faults of fields, each declared for those after it and not before. -/
def fieldFaults (known : Symbol → Symbol → Bool) : Declared → List Variable → List Diagnostic
  | _, [] => []
  | V, v :: vs =>
    v.type.faults known V ++ V.redeclared .field v.name
      ++ fieldFaults known (V.adding [v.name.name]) vs

end Variable

namespace RuleInput

/-- The names that an input binds. -/
def binds : RuleInput → List Symbol
  | any _ => []
  | value e => e.bindsValue

/-- The names that inputs bind. -/
def bindsAll (inputs : List RuleInput) : List Symbol := inputs.flatMap binds

/-- The name faults of an input. -/
def faults (known : Symbol → Symbol → Bool) (V : Declared) : RuleInput → List Diagnostic
  | any _ => []
  | value e => if e.bareVar?.isSome then [] else e.faults known true V

/-- The name faults of inputs, each of which sees what those before it bind. -/
def faultsAll (known : Symbol → Symbol → Bool) : Declared → List RuleInput → List Diagnostic
  | _, [] => []
  | V, i :: is => i.faults known V ++ faultsAll known (V.adding i.binds) is

end RuleInput

/-- The name faults of a rule: its inputs, then its constructors, which see what the inputs bind. -/
def Rule.faults (known : Symbol → Symbol → Bool) (V : Declared) (r : Rule) : List Diagnostic :=
  RuleInput.faultsAll known V r.inputs
    ++ r.constructors.flatMap fun c =>
      Variable.fieldFaults known (V.adding (RuleInput.bindsAll r.inputs)) c.fields

/-- The name faults of a declared type. -/
def TypeDef.faults (known : Symbol → Symbol → Bool) (V : Declared) : TypeDef → List Diagnostic
  | message m =>
    Variable.depFaults known V m.deps
      ++ Variable.fieldFaults known (V.adding (Variable.names m.deps)) m.fields
  | enum e =>
    Variable.depFaults known V e.deps
      ++ e.rules.flatMap (Rule.faults known (V.adding (Variable.names e.deps)))

namespace ParameterType

mutual

/-- The name faults of the type of a parameter. -/
def faults (known : Symbol → Symbol → Bool) (V : Declared) : ParameterType → List Diagnostic
  | value t => t.faults known V
  | function ps result =>
    faultsAll known V ps ++ result.faults known (V.adding (ps.map fun p => p.name.name))
termination_by structural t => t

/-- The name faults of parameters, each declared for those after it and not before. -/
def faultsAll (known : Symbol → Symbol → Bool) (V : Declared) :
    List (Named ParameterType) → List Diagnostic
  | [] => []
  | p :: ps =>
    faults known V p.val ++ V.redeclared .parameter p.name
      ++ faultsAll known (V.adding [p.name.name]) ps
termination_by structural ps => ps

end

end ParameterType

/-- The name faults of a function. -/
def FunctionDef.faults (known : Symbol → Symbol → Bool) (V : Declared) (f : FunctionDef) :
    List Diagnostic :=
  ParameterType.faultsAll known V f.params
    ++ f.result.faults known (V.adding (f.params.map fun p => p.name.name))
    ++ (match f.body with
      | some body => body.faults known false (V.adding (f.params.map fun p => p.name.name))
      | none => [])

/-! ## §4. Global names. -/

/-- The name of a type and of its constructors, where they are declared. A message is its own
constructor and declares its name once. -/
def TypeDef.globalNames (d : TypeDef) : List (NameKind × Ident) :=
  (d.kind, d.ident) :: match d with
    | message _ => []
    | enum e => e.constructors.map fun c => (.constructor, c.ident)

/-- The names that a type declares everywhere. -/
def TypeDef.declaredNames (d : TypeDef) : List Symbol := d.globalNames.map fun p => p.2.name

/-- The name faults of global names, each declared for those after it and not before. -/
def Declared.globalFaults : Declared → List (NameKind × Ident) → List Diagnostic
  | _, [] => []
  | V, (kind, i) :: rest => V.redeclared kind i ++ globalFaults (V.adding [i.name]) rest

namespace Schema

/-- The names that a schema declares everywhere, in the order of the walk. -/
def globalNames (s : Schema) : List (NameKind × Ident) :=
  s.types.flatMap TypeDef.globalNames ++ s.functions.map fun f => (.function, f.ident)

/-- The names themselves. -/
def declaredNames (s : Schema) : List Symbol := s.globalNames.map fun p => p.2.name

/-- The names that are declared everywhere, the builtin types among them. -/
def globals (s : Schema) : Declared := Declared.adding Symbol.builtins.contains s.declaredNames

end Schema

end DepSchema
