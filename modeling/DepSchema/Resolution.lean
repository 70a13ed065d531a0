/-
DepSchema.Resolution — every name is declared where it is used.

A `NameWalk` walks a schema with the scopes that are open at each point. Faults do not stop it: it
notes them and goes on, so a run reports all of them, in the order of the walk. Inside a rule's
inputs a variable alone does not refer to anything; it is bound, in the frame of the rule, for the
inputs after it and for the rule's constructors.

Main functions: `Schema.resolution` is the log of a whole walk, `Schema.nameFaults` the faults in
it. A schema without name faults has every name declared exactly once in each scope.
-/
import DepSchema.Event
import DepSchema.Schema

namespace DepSchema

/-- A walk in progress. -/
structure NameWalk where
  /-- The names that are declared. -/
  scopes : Scopes Unit
  /-- The frame that takes the names bound by rule inputs, counted from the outermost one. -/
  aliasFrame : Option Nat
  /-- What was noted so far, the newest first. -/
  events : List Event

namespace NameWalk

/-- Nothing is open and nothing was noted. -/
def start : NameWalk := ⟨.none, none, []⟩

/-! ## §1. Single steps. -/

/-- Adds an event. -/
def note (r : NameWalk) (e : Event) : NameWalk := { r with events := e :: r.events }

/-- Notes a fault. -/
def fault (r : NameWalk) (span : Span) (cause : Cause) : NameWalk :=
  r.note (.nameFault (.located span cause))

/-- Opens a frame. -/
def push (r : NameWalk) : NameWalk :=
  let scopes := r.scopes.push
  { r with scopes }.note (.nameScopePushed scopes.depth)

/-- Closes the innermost frame. -/
def pop (r : NameWalk) : NameWalk :=
  let scopes := r.scopes.pop
  { r with scopes }.note (.nameScopePopped scopes.depth)

/-- Whether a name is declared, in whatever frame. -/
def inScope (r : NameWalk) (name : Symbol) : Bool := r.scopes.contains name

/-- Asks for a name that is used to be declared. -/
def demand (r : NameWalk) (i : Ident) (cause : Symbol → Cause) : NameWalk :=
  if r.inScope i.name then r else r.fault i.span (cause i.name)

/-- Declares a name, whether or not it is declared already. -/
def add (r : NameWalk) (i : Ident) (kind : NameKind) : NameWalk :=
  { r.note (.nameAdded i.name kind) with scopes := r.scopes.bind i.name () }

/-- Declares a name that must not be declared already. It is declared in any case. -/
def declare (kind : NameKind) (r : NameWalk) (i : Ident) : NameWalk :=
  (if r.inScope i.name then r.fault i.span (.redeclared kind i.name) else r).add i kind

/-- Binds a name in the frame that takes names bound by rule inputs. -/
def bindAlias (r : NameWalk) (i : Ident) : NameWalk :=
  let r := r.note (.aliasAdded i.name)
  match r.aliasFrame with
  | some k => { r with scopes := r.scopes.bindOut (r.scopes.depth - 1 - k) i.name () }
  | none => r

/-- The variable that an expression binds where rule inputs are read. -/
def bound? (r : NameWalk) (e : Expr) : Option Ident :=
  if r.aliasFrame.isSome then e.bareVar? else none

/-! ## §2. Expressions and types. The argument `known` tells which constructor has which field. -/

mutual

/-- Walks an expression. A constructed value has a frame of its own for its fields. -/
def expr (known : Symbol → Symbol → Bool) (r : NameWalk) : Expr → NameWalk
  | .binary _ _ left right => expr known (expr known r left) right
  | .unary _ _ x => expr known r x
  | .type _ i ps => exprs known (r.demand i .undefinedType) ps
  | .access a => r.demand a.var .undefinedVariable
  | .scalar _ _ => r
  | .constructed _ c fs =>
    let defined := r.inScope c.name
    (inits known c.name defined (r.demand c .undefinedConstructor).push fs).pop
  | .collection _ es => exprs known r es
  | .call _ f as => exprs known (r.demand f .undefinedFunction) as
termination_by structural e => e

/-- Walks expressions in order. -/
def exprs (known : Symbol → Symbol → Bool) (r : NameWalk) : List Expr → NameWalk
  | [] => r
  | e :: es => exprs known (expr known r e) es
termination_by structural es => es

/-- The fields of a constructed value; each is in scope for those after it. -/
def inits (known : Symbol → Symbol → Bool) (ctor : Symbol) (defined : Bool) (r : NameWalk) :
    List (Named Expr) → NameWalk
  | [] => r
  | f :: fs =>
    let r :=
      if defined && !known ctor f.name.name then
        r.fault f.name.span (.unknownField f.name.name ctor)
      else r
    let r :=
      match r.bound? f.val with
      | some i => r.bindAlias i
      | none => expr known r f.val
    inits known ctor defined (r.add f.name .field) fs
termination_by structural fs => fs

end

/-- Walks a type. -/
def type (known : Symbol → Symbol → Bool) (r : NameWalk) (t : TypeExpr) : NameWalk :=
  r.expr known t.toExpr

/-! ## §3. Declarations. -/

/-- A dependency may take a name that is declared already. -/
def dependency (known : Symbol → Symbol → Bool) (r : NameWalk) (v : Variable) : NameWalk :=
  (r.type known v.type).add v.name .dependency

/-- A field must not take a name that is declared already. -/
def field (known : Symbol → Symbol → Bool) (r : NameWalk) (v : Variable) : NameWalk :=
  (r.type known v.type).declare .field v.name

/-- A constructor has a frame of its own for its fields. -/
def constructor (known : Symbol → Symbol → Bool) (r : NameWalk) (c : Constructor) : NameWalk :=
  (c.fields.foldl (field known) r.push).pop

/-- Walks a rule input. A variable alone is bound, all else is walked as an expression. -/
def input (known : Symbol → Symbol → Bool) (r : NameWalk) : RuleInput → NameWalk
  | .any _ => r
  | .value e =>
    match r.bound? e with
    | some i => r.bindAlias i
    | none => r.expr known e

/-- A rule has a frame of its own, which takes what its inputs bind. -/
def rule (known : Symbol → Symbol → Bool) (r : NameWalk) (rule : Rule) : NameWalk :=
  let r := r.push
  let r := rule.inputs.foldl (input known) { r with aliasFrame := some (r.scopes.depth - 1) }
  (rule.constructors.foldl (constructor known) { r with aliasFrame := none }).pop

/-- Walks a type. It has a frame for its dependencies, a message also for its fields. -/
def typeDef (known : Symbol → Symbol → Bool) (r : NameWalk) : TypeDef → NameWalk
  | .message m => (m.fields.foldl (field known) (m.deps.foldl (dependency known) r.push)).pop
  | .enum e => (e.rules.foldl (rule known) (e.deps.foldl (dependency known) r.push)).pop

mutual

/-- The type of a parameter. A function type has a frame of its own. -/
def parameterType (known : Symbol → Symbol → Bool) (r : NameWalk) : ParameterType → NameWalk
  | .value t => r.type known t
  | .function ps result => ((params known r.push ps).type known result).pop
termination_by structural t => t

/-- Walks parameters, each declared for those after it. -/
def params (known : Symbol → Symbol → Bool) (r : NameWalk) : List (Named ParameterType) → NameWalk
  | [] => r
  | p :: ps => params known ((parameterType known r p.val).declare .parameter p.name) ps
termination_by structural ps => ps

end

/-- Walks a function: parameters, result type and body in one frame. -/
def functionDef (known : Symbol → Symbol → Bool) (r : NameWalk) (f : FunctionDef) : NameWalk :=
  let r := (r.push.params known f.params).type known f.result
  (match f.body with
    | some body => r.expr known body
    | none => r).pop

/-- The names that are in scope everywhere: builtin types, declared types, the constructors of
enums, functions. Declarations that the schema refused are faults. -/
def globals (s : Schema) (r : NameWalk) : NameWalk :=
  let r := { r with scopes := Symbol.builtins.foldl (fun sc n => sc.bind n ()) r.scopes }
  let r := s.types.foldl (fun r d =>
    let r := r.declare d.kind d.ident
    match d with
    | .message _ => r
    | .enum e => (e.constructors.map Constructor.ident).foldl (declare .constructor) r) r
  let r := (s.functions.map FunctionDef.ident).foldl (declare .function) r
  s.refused.foldl (fun r (i, kind) => r.fault i.span (.redeclared kind i.name)) r

end NameWalk

namespace Schema

/-- Whether a constructor of that name, of whatever type, has a field of that name. -/
def hasField (s : Schema) (ctor field : Symbol) : Bool :=
  s.types.any fun d => d.constructors.any fun c =>
    c.name == ctor && (Variable.find? c.fields field).isSome

/-- The whole walk: global names, then the types, then the functions, each in order. -/
def nameWalk (s : Schema) : NameWalk :=
  let r := NameWalk.globals s NameWalk.start.push
  let r := s.types.foldl (NameWalk.typeDef s.hasField) r
  (s.functions.foldl (NameWalk.functionDef s.hasField) r).pop

/-- What the walk notes, in order. -/
def resolution (s : Schema) : List Event := s.nameWalk.events.reverse

/-- The faults that the walk finds, in order. -/
def nameFaults (s : Schema) : List Diagnostic :=
  s.resolution.filterMap fun
    | .nameFault d => some d
    | _ => none

end Schema

end DepSchema
