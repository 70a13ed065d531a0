/-
DepSchema.Expr.Print — expressions as text.

The text is close to the written schema: operators stand between their operands in parentheses,
parameters and arguments in parentheses, elements in brackets, fields in braces.
-/
import DepSchema.Expr
import DepSchema.Symbol.Table
import DepSchema.Decimal.Form
import DepSchema.Text.Quoted

namespace DepSchema

/-- The text of a literal. Unsigned integers end in `u`, strings stand between quotes. -/
def Scalar.text : Scalar → String
  | bool b => if b then "true" else "false"
  | int v => toString v.toInt
  | unsigned v => toString v.toNat ++ "u"
  | float v => Form.shown.text v
  | string s => Text.quote s

/-- Texts with a comma and a blank between them. -/
def commaSeparated (items : List String) : String := ", ".intercalate items

namespace SymbolTable

/-- The name of an identifier. -/
def identText (t : SymbolTable) (i : Ident) : String := t.text i.name

/-- A variable and its fields, with points between them. -/
def accessText (t : SymbolTable) (a : Access) : String :=
  ".".intercalate ((a.var :: a.fields).map t.identText)

/-- A type name and the texts of its parameters. -/
def typeText (t : SymbolTable) (i : Ident) (params : List String) : String :=
  if params.isEmpty then t.identText i else t.identText i ++ "(" ++ commaSeparated params ++ ")"

end SymbolTable

namespace Expr

mutual

/-- The text of an expression. -/
def text (t : SymbolTable) : Expr → String
  | binary _ op l r => "(" ++ text t l ++ " " ++ op.text ++ " " ++ text t r ++ ")"
  | unary _ op x => op.text ++ text t x
  | type _ i ps => t.typeText i (texts t ps)
  | access a => t.accessText a
  | scalar _ v => v.text
  | constructed _ c fs => t.identText c ++ "\x7b" ++ commaSeparated (fieldTexts t fs) ++ "\x7d"
  | collection _ es => "[" ++ commaSeparated (texts t es) ++ "]"
  | call _ f as => t.identText f ++ "(" ++ commaSeparated (texts t as) ++ ")"
termination_by structural e => e

/-- The texts of several expressions. -/
def texts (t : SymbolTable) : List Expr → List String
  | [] => []
  | e :: es => text t e :: texts t es
termination_by structural es => es

/-- The texts of field values, each behind its name. -/
def fieldTexts (t : SymbolTable) : List (Named Expr) → List String
  | [] => []
  | f :: fs => (t.identText f.name ++ ": " ++ text t f.val) :: fieldTexts t fs
termination_by structural fs => fs

end

end Expr

/-- The text of a type. -/
def TypeExpr.text (t : SymbolTable) (ty : TypeExpr) : String := ty.toExpr.text t

end DepSchema
