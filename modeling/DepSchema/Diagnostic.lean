/-
DepSchema.Diagnostic — what can be wrong with a schema.

A diagnostic is a cause and the place it is reported at; a few causes concern the schema as a
whole and have no place. Causes keep the names and expressions that they are about. The wording of
all of them is in `Cause.message`.
-/
import DepSchema.Substitution
import DepSchema.Query

namespace DepSchema

/-- What is wrong. -/
inductive Cause where
  /- names -/
  | undefinedType (name : Symbol)
  | undefinedVariable (name : Symbol)
  | undefinedFunction (name : Symbol)
  | undefinedConstructor (name : Symbol)
  | redeclared (kind : NameKind) (name : Symbol)
  | unknownField (field ctor : Symbol)
  /- order of types -/
  | dependencyCycle (path : List Symbol)
  | orderIncomplete (types got : Nat)
  | orderUndeclared (name : Symbol)
  /- types -/
  | parameterCount (name : Symbol) (expected got : Nat)
  | noParameter (type : TypeExpr) (index : Nat)
  | parameterNotType (name : Symbol) (index : Nat) (param : Expr)
  | unencodableField (field : Symbol) (type : TypeExpr)
  | inputCount (enum : Symbol) (expected got : Nat)
  | typeMismatch (expected got : TypeExpr)
  | parameterMismatch (index : Nat) (expected got : Expr)
  /- values -/
  | typeAsValue (expected got : TypeExpr)
  | valueMismatch (expected : TypeExpr) (got : Symbol)
  | functionAsValue (expected : TypeExpr)
  | collectionAsValue (expected : TypeExpr) (got : Expr)
  | unsupportedBinary (op : BinaryOp) (type : TypeExpr)
  | unsupportedUnary (op : UnaryOp) (type : TypeExpr)
  /- arrays -/
  | arraySize (expected got : Expr)
  | notArray (e : Expr)
  | notArrayType (element got : TypeExpr)
  | functionAsArray (element : TypeExpr)
  | arrayWithoutLength (type : TypeExpr)
  /- constructed values -/
  | fieldCount (ctor : Symbol) (expected got : Nat)
  | fieldMissing (field ctor : Symbol)
  | constructorUnavailable (ctor : Symbol)
  /- fields of variables -/
  | fieldsOfFunction (var : Symbol)
  | fieldsOfEnum (type : Symbol)
  | fieldsOfBuiltin (type : Symbol)
  | noSuchField (field message : Symbol)
  /- functions -/
  | tooManyArguments (function : Symbol) (atMost got : Nat)
  | notFunction (name : Symbol) (type : TypeExpr)
  | expressionAsFunction (e : Expr)
  | valueAsFunction (type : TypeExpr)
  | functionArity (expected got : Nat)
  | parameterKind (index : Nat)
  /- other stages -/
  | substitution (error : AccessError)
  | solver (message : String)
  deriving Repr

/-- A cause and where it is reported. -/
structure Diagnostic where
  cause : Cause
  span : Option Span
  deriving Repr

namespace Diagnostic

/-- A cause that is reported at a place. -/
def located (span : Span) (cause : Cause) : Diagnostic := ⟨cause, some span⟩

/-- A cause that concerns the schema as a whole. -/
def unlocated (cause : Cause) : Diagnostic := ⟨cause, none⟩

/-- A failed substitution is reported at the field that cannot be taken. -/
def ofSubstitution (e : AccessError) : Diagnostic := .located e.field.span (.substitution e)

/-- A failure of the oracle is reported where the oracle says. -/
def ofOracle (e : OracleFailure) : Diagnostic := ⟨.solver e.message, e.span⟩

/-- What kind of report it is. -/
def code : String := "dbuf::check"

end Diagnostic

/-- A text between double quotes, with nothing escaped. -/
private def inQuotes (s : String) : String := "\"" ++ s ++ "\""

namespace SymbolTable

/-- A name between double quotes. -/
def quoted (t : SymbolTable) (n : Symbol) : String := inQuotes (t.text n)

/-- A type between double quotes. -/
def quotedType (t : SymbolTable) (type : TypeExpr) : String := inQuotes (type.text t)

/-- The words for an operator at a type that it does not work on. -/
def unsupported (t : SymbolTable) (op : String) (type : TypeExpr) : String :=
  "Operator " ++ inQuotes op ++ " is not supported by type " ++ type.text t

/-- The words for a name of some kind whose values have no fields. -/
def noFields (t : SymbolTable) (n : Symbol) (kind : String) : String :=
  "Field access works only for messages, but " ++ t.quoted n ++ " is " ++ kind

end SymbolTable

/-- The words of a failed substitution. -/
def AccessError.message (t : SymbolTable) (e : AccessError) : String :=
  "substitution error: " ++ e.fault.text ++ " (field " ++ inQuotes (t.identText e.field) ++ ")"

/-- A cycle, as names with arrows between them. -/
def cycleText (t : SymbolTable) (path : List Symbol) : String :=
  " -> ".intercalate (path.map t.text)

/-- The words of a cause. -/
def Cause.message (t : SymbolTable) : Cause → String
  | undefinedType n => "Undefined type name: " ++ t.quoted n
  | undefinedVariable n => "Undefined variable: " ++ t.quoted n
  | undefinedFunction n => "Undefined function: " ++ t.quoted n
  | undefinedConstructor n => "Undefined constructor: " ++ t.quoted n
  | redeclared kind n => "Re-declaration of " ++ kind.text ++ ": " ++ t.quoted n
  | unknownField f c => "No field with name " ++ t.text f ++ " in constructor " ++ t.text c ++ "."
  | dependencyCycle path => "Found dependency cycle: " ++ cycleText t path
  | orderIncomplete types got =>
    "Type checking needs an order of all " ++ toString types ++ " types, but got " ++ toString got
  | orderUndeclared n => "Type " ++ t.quoted n ++ " is in the visit order but not declared"
  | parameterCount n expected got =>
    "Expected " ++ toString expected ++ " parameters for typename " ++ t.quoted n ++ ", but got "
      ++ toString got
  | noParameter ty i => "Type " ++ t.quotedType ty ++ " has no parameter " ++ toString i
  | parameterNotType n i p =>
    "Expected a type as parameter " ++ toString i ++ " of " ++ t.quoted n ++ ", but got value "
      ++ p.text t
  | unencodableField f ty => "Cannot encode field " ++ t.quoted f ++ " of type " ++ t.quotedType ty
  | inputCount e expected got =>
    "Expected " ++ toString expected ++ " inputs in pattern for enum " ++ t.quoted e ++ ", but got "
      ++ toString got
  | typeMismatch expected got =>
    "Got type " ++ t.quotedType got ++ ", but expected type is " ++ t.quotedType expected
  | parameterMismatch i expected got =>
    "Type parameter " ++ toString i ++ " mismatch: Expressions " ++ expected.text t ++ " and "
      ++ got.text t ++ " are not equal"
  | typeAsValue expected got =>
    "Expected value of type " ++ t.quotedType expected ++ ", but got type " ++ t.quotedType got
  | valueMismatch expected got =>
    "Got value of type " ++ t.quoted got ++ ", but expected type is " ++ t.quotedType expected
  | functionAsValue expected => "Got function, but expected value of type " ++ t.quotedType expected
  | collectionAsValue expected got =>
    "Got collection " ++ got.text t ++ ", but expected type is " ++ t.quotedType expected
  | unsupportedBinary op ty => t.unsupported op.text ty
  | unsupportedUnary op ty => t.unsupported op.text ty
  | arraySize expected got =>
    "Array size mismatch: expected size " ++ expected.text t ++ ", but got " ++ got.text t
  | notArray e => "Expression " ++ e.text t ++ " is not an array"
  | notArrayType element got =>
    "Got type " ++ t.quotedType got ++ ", but expected an array of " ++ t.quotedType element
  | functionAsArray element => "Got function, but expected an array of " ++ t.quotedType element
  | arrayWithoutLength ty => "Array type " ++ t.quotedType ty ++ " has no length"
  | fieldCount c expected got =>
    "Expected " ++ toString expected ++ " fields in constructor " ++ t.quoted c ++ ", but got "
      ++ toString got
  | fieldMissing f c => "Field " ++ t.quoted f ++ " is missing in constructor " ++ t.quoted c
  | constructorUnavailable c => "Constructor " ++ t.quoted c ++ " cannot be used in this context"
  | fieldsOfFunction v => t.noFields v "a function"
  | fieldsOfEnum n => t.noFields n "enum"
  | fieldsOfBuiltin n => t.noFields n "builtin"
  | noSuchField f m => "Field " ++ t.quoted f ++ " not found in message " ++ t.quoted m
  | tooManyArguments f atMost got =>
    "Expected at most " ++ toString atMost ++ " arguments for function " ++ t.quoted f
      ++ ", but got " ++ toString got
  | notFunction n ty => t.quoted n ++ " is not a function, it has type " ++ t.quotedType ty
  | expressionAsFunction e => "Expected function, but got " ++ e.text t
  | valueAsFunction ty => "Expected function, but got value of type " ++ t.quotedType ty
  | functionArity expected got =>
    "Expected function with " ++ toString expected ++ " parameters, but got " ++ toString got
  | parameterKind i => "Function parameter " ++ toString i ++ " mismatch: value and function"
  | substitution e => e.message t
  | solver message => "solver error: " ++ message

/-- The words of a diagnostic. -/
def Diagnostic.message (t : SymbolTable) (d : Diagnostic) : String := d.cause.message t

end DepSchema
