/-
DepSchema.Oracle.Sameness — equality of expressions as they stand.

Two expressions are the same when they have the same shape and the same names, wherever they are
written. Integer literals are compared as numbers, so that `5` and `5u` are the same; floats by
their bits. The fields of a constructed value may come in any order.
-/
import DepSchema.Oracle.Folding

namespace DepSchema

/-- Equality of literals. -/
def Scalar.sameAs (a b : Scalar) : Bool :=
  match a.integer?, b.integer? with
  | some m, some n => m == n
  | _, _ =>
    match a, b with
    | bool x, bool y => x == y
    | float x, float y => x == y
    | string x, string y => x == y
    | _, _ => false

/-- Whether two accesses name the same fields of the same variable. -/
def Access.sameAs (a b : Access) : Bool :=
  a.var.name == b.var.name && a.fields.map Ident.name == b.fields.map Ident.name

namespace Expr

mutual

/-- Whether two expressions are the same but for their places. -/
def sameAs : Expr → Expr → Bool
  | binary _ op l r, binary _ op' l' r' => op == op' && sameAs l l' && sameAs r r'
  | unary _ op x, unary _ op' x' => op == op' && sameAs x x'
  | type _ i ps, type _ i' ps' => i.name == i'.name && allSameAs ps ps'
  | access a, access a' => a.sameAs a'
  | scalar _ v, scalar _ v' => v.sameAs v'
  | constructed _ c fs, constructed _ c' fs' =>
    c.name == c'.name && fs.length == fs'.length && fieldsSameAs fs fs'
  | collection _ es, collection _ es' => allSameAs es es'
  | call _ f as, call _ f' as' => f.name == f'.name && allSameAs as as'
  | _, _ => false
termination_by structural e => e

/-- Whether two lists are the same, item by item. -/
def allSameAs : List Expr → List Expr → Bool
  | [], [] => true
  | e :: es, e' :: es' => sameAs e e' && allSameAs es es'
  | _, _ => false
termination_by structural es => es

/-- Whether each field has the same value among the others. -/
def fieldsSameAs : List (Named Expr) → List (Named Expr) → Bool
  | [], _ => true
  | f :: fs, others =>
    (match Named.find? others f.name.name with
      | some value => sameAs f.val value
      | none => false) && fieldsSameAs fs others
termination_by structural fs => fs

end

end Expr

end DepSchema
