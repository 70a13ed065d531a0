/-
DepSchema.Proofs.Renaming.Expr — other handles and other places for an expression.

A renaming gives every name another handle, different names different ones and the builtin types
their own, and every node another place. It is carried through expressions, types and scopes. What
the checks do with expressions does not notice: they look names up, follow fields, substitute, fold
and compare, and each of these commutes with the renaming.

Main results: `find?_named`, `apply_expr`, `expr_fold` and `equal_expr`.
-/
import Mathlib
import DepSchema.Oracle.Structural
import DepSchema.Substitution

namespace DepSchema

/-- A change of handles and places that keeps names apart and leaves the builtin types alone. -/
structure Renaming where
  name : Symbol → Symbol
  place : Span → Span
  injective : Function.Injective name
  builtin : ∀ {n : Symbol}, n.isBuiltin = true → name n = n

namespace Renaming

variable (ρ : Renaming)

/-! ## §1. Names. -/

@[simp] theorem name_eq_name {m n : Symbol} : ρ.name m = ρ.name n ↔ m = n := ρ.injective.eq_iff

@[simp] theorem name_beq_name (m n : Symbol) : (ρ.name m == ρ.name n) = (m == n) := by
  rw [Bool.eq_iff_iff, beq_iff_eq, beq_iff_eq, name_eq_name]

/-- The handles of the builtin types stay as they are. -/
theorem name_eq_builtin {m n : Symbol} (h : n.isBuiltin = true) : ρ.name m = n ↔ m = n := by
  have hfixed : ρ.name n = n := ρ.builtin h
  constructor
  · intro hm
    exact ρ.injective (hm.trans hfixed.symm)
  · rintro rfl
    exact hfixed

@[simp] theorem name_eq_int {n : Symbol} : ρ.name n = .int ↔ n = .int :=
  ρ.name_eq_builtin (by decide)

@[simp] theorem name_eq_unsigned {n : Symbol} : ρ.name n = .unsigned ↔ n = .unsigned :=
  ρ.name_eq_builtin (by decide)

@[simp] theorem name_eq_float {n : Symbol} : ρ.name n = .float ↔ n = .float :=
  ρ.name_eq_builtin (by decide)

@[simp] theorem name_eq_bool {n : Symbol} : ρ.name n = .bool ↔ n = .bool :=
  ρ.name_eq_builtin (by decide)

@[simp] theorem name_eq_string {n : Symbol} : ρ.name n = .string ↔ n = .string :=
  ρ.name_eq_builtin (by decide)

@[simp] theorem name_eq_array {n : Symbol} : ρ.name n = .array ↔ n = .array :=
  ρ.name_eq_builtin (by decide)

@[simp] theorem name_eq_set {n : Symbol} : ρ.name n = .set ↔ n = .set :=
  ρ.name_eq_builtin (by decide)

theorem isBuiltin_of_isScalar {n : Symbol} (h : n.isScalar = true) : n.isBuiltin = true := by
  simp only [Symbol.isScalar, Symbol.isBuiltin, decide_eq_true_eq] at h ⊢
  exact UInt32.le_trans h (by decide)

@[simp] theorem isScalar_name (n : Symbol) : (ρ.name n).isScalar = n.isScalar := by
  rw [Bool.eq_iff_iff]
  constructor
  · intro h
    -- only a builtin handle is renamed to a builtin one, and then it is itself
    have hback : ρ.name n = n := by
      have hfixed : ρ.name (ρ.name n) = ρ.name n := ρ.builtin (isBuiltin_of_isScalar h)
      exact ρ.injective hfixed
    rwa [hback] at h
  · intro h
    rwa [ρ.builtin (isBuiltin_of_isScalar h)]

@[simp] theorem name_scalarType (v : Scalar) : ρ.name v.type = v.type :=
  ρ.builtin (by cases v <;> rfl)

/-! ## §2. Expressions and types. -/

/-- An identifier, renamed. -/
def ident (i : Ident) : Ident := ⟨ρ.name i.name, ρ.place i.span⟩

/-- Something under a name, both renamed. -/
def named {α β : Type} (h : α → β) (x : Named α) : Named β := ⟨ρ.ident x.name, h x.val⟩

/-- A variable with its fields, renamed. -/
def access (a : Access) : Access := ⟨ρ.place a.span, ρ.ident a.var, a.fields.map ρ.ident⟩

mutual

/-- An expression, renamed. -/
def expr : Expr → Expr
  | .binary span op l r => .binary (ρ.place span) op (expr l) (expr r)
  | .unary span op x => .unary (ρ.place span) op (expr x)
  | .type span i ps => .type (ρ.place span) (ρ.ident i) (exprs ps)
  | .access a => .access (ρ.access a)
  | .scalar span v => .scalar (ρ.place span) v
  | .constructed span c fs => .constructed (ρ.place span) (ρ.ident c) (inits fs)
  | .collection span es => .collection (ρ.place span) (exprs es)
  | .call span f as => .call (ρ.place span) (ρ.ident f) (exprs as)
termination_by structural e => e

/-- Several expressions, renamed. -/
def exprs : List Expr → List Expr
  | [] => []
  | e :: es => expr e :: exprs es
termination_by structural es => es

/-- Field values, renamed with the names of the fields. -/
def inits : List (Named Expr) → List (Named Expr)
  | [] => []
  | f :: fs => ⟨ρ.ident f.name, expr f.val⟩ :: inits fs
termination_by structural fs => fs

end

/-- A type, renamed. -/
def type (t : TypeExpr) : TypeExpr := ⟨ρ.place t.span, ρ.ident t.ident, t.params.map ρ.expr⟩

@[simp] theorem exprs_eq_map (es : List Expr) : ρ.exprs es = es.map ρ.expr := by
  induction es with
  | nil => rfl
  | cons e es ih => rw [exprs, ih, List.map_cons]

@[simp] theorem inits_eq_map (fs : List (Named Expr)) : ρ.inits fs = fs.map (ρ.named ρ.expr) := by
  induction fs with
  | nil => rfl
  | cons f fs ih => rw [inits, ih, List.map_cons, named]

@[simp] theorem ident_name (i : Ident) : (ρ.ident i).name = ρ.name i.name := rfl

@[simp] theorem named_name {α β : Type} (h : α → β) (x : Named α) :
    (ρ.named h x).name = ρ.ident x.name := rfl

@[simp] theorem named_val {α β : Type} (h : α → β) (x : Named α) :
    (ρ.named h x).val = h x.val := rfl

@[simp] theorem access_var (a : Access) : (ρ.access a).var = ρ.ident a.var := rfl

@[simp] theorem access_fields (a : Access) : (ρ.access a).fields = a.fields.map ρ.ident := rfl

@[simp] theorem access_isVar (a : Access) : (ρ.access a).isVar = a.isVar := by
  simp [Access.isVar]

theorem access_field (a : Access) (f : Ident) :
    ρ.access (a.field f) = (ρ.access a).field (ρ.ident f) := by
  simp [access, Access.field]

theorem expr_ofVar (v : Ident) : ρ.expr (.ofVar v) = .ofVar (ρ.ident v) := rfl

@[simp] theorem type_name (t : TypeExpr) : (ρ.type t).name = ρ.name t.name := rfl

@[simp] theorem type_params (t : TypeExpr) : (ρ.type t).params = t.params.map ρ.expr := rfl

theorem expr_toExpr (t : TypeExpr) : ρ.expr t.toExpr = (ρ.type t).toExpr := by
  simp [TypeExpr.toExpr, expr, type]

@[simp] theorem expr_span (e : Expr) : (ρ.expr e).span = ρ.place e.span := by
  cases e <;> rfl

@[simp] theorem expr_type? (e : Expr) : (ρ.expr e).type? = e.type?.map ρ.type := by
  cases e <;> simp [expr, Expr.type?, type]

@[simp] theorem expr_scalar? (e : Expr) : (ρ.expr e).scalar? = e.scalar? := by
  cases e <;> rfl

@[simp] theorem expr_bareVar? (e : Expr) : (ρ.expr e).bareVar? = e.bareVar?.map ρ.ident := by
  cases e with
  | access a =>
    show (if (ρ.access a).isVar then some (ρ.ident a.var) else none)
      = (if a.isVar then some a.var else none).map ρ.ident
    rw [access_isVar]
    cases a.isVar <;> rfl
  | _ => rfl

/-- A name leads to the renamed item. -/
theorem find?_named {α β : Type} (h : α → β) (items : List (Named α)) (n : Symbol) :
    Named.find? (items.map (ρ.named h)) (ρ.name n) = (Named.find? items n).map h := by
  induction items with
  | nil => rfl
  | cons item items ih =>
    unfold Named.find? at ih ⊢
    rw [List.map_cons, List.find?_cons, List.find?_cons, named_name, ident_name, name_beq_name]
    cases item.name.name == n with
    | true => rfl
    | false => exact ih

/-! ## §3. Scopes. -/

/-- Scopes, renamed. -/
def scopes {α β : Type} (h : α → β) (s : Scopes α) : Scopes β :=
  ⟨s.frames.map fun frame => frame.map fun p => (ρ.name p.1, h p.2)⟩

section Scopes

variable {α β : Type} (h : α → β)

theorem lookup_frame (frame : List (Symbol × α)) (n : Symbol) :
    (frame.map fun p => (ρ.name p.1, h p.2)).lookup (ρ.name n) = (frame.lookup n).map h := by
  induction frame with
  | nil => rfl
  | cons p frame ih =>
    rw [List.map_cons, List.lookup_cons, List.lookup_cons, name_beq_name, ih]
    cases n == p.1 <;> rfl

/-- A name stands for the renaming of what it stood for. -/
@[simp] theorem find?_scopes (s : Scopes α) (n : Symbol) :
    (ρ.scopes h s).find? (ρ.name n) = (s.find? n).map h := by
  obtain ⟨frames⟩ := s
  unfold Scopes.find? scopes
  induction frames with
  | nil => rfl
  | cons frame frames ih =>
    rw [List.map_cons, List.findSome?_cons, List.findSome?_cons, lookup_frame]
    cases frame.lookup n with
    | none => exact ih
    | some a => rfl

@[simp] theorem depth_scopes (s : Scopes α) : (ρ.scopes h s).depth = s.depth := by
  simp [scopes, Scopes.depth]

theorem scopes_push (s : Scopes α) : ρ.scopes h s.push = (ρ.scopes h s).push := rfl

theorem scopes_pop (s : Scopes α) : ρ.scopes h s.pop = (ρ.scopes h s).pop := by
  simp [scopes, Scopes.pop, List.map_tail]

theorem scopes_bind (s : Scopes α) (n : Symbol) (a : α) :
    ρ.scopes h (s.bind n a) = (ρ.scopes h s).bind (ρ.name n) (h a) := by
  obtain ⟨frames⟩ := s
  cases frames with
  | nil => rfl
  | cons frame frames =>
    -- what is taken out of the renamed frame is what was taken out of the frame, since no
    -- other name has the same new handle
    have hframe : (frame.filter fun p => p.1 != n).map (fun p => (ρ.name p.1, h p.2))
        = (frame.map fun p => (ρ.name p.1, h p.2)).filter fun p => p.1 != ρ.name n := by
      rw [List.filter_map]
      congr 2
      funext p
      simp [bne]
    simp [scopes, Scopes.bind, Scopes.bindOut, Scopes.insertInto, hframe]

end Scopes

/-! ## §4. Substitution. -/

/-- The bindings of a substitution, renamed. -/
def substitution (σ : Substitution) : Substitution := ⟨ρ.scopes ρ.expr σ.scopes⟩

theorem substitution_push (σ : Substitution) :
    ρ.substitution σ.push = (ρ.substitution σ).push := rfl

theorem substitution_pop (σ : Substitution) :
    ρ.substitution σ.pop = (ρ.substitution σ).pop := by
  unfold Substitution.pop
  rw [show (ρ.substitution σ).scopes.depth = σ.scopes.depth from ρ.depth_scopes _ _]
  split
  · exact congrArg Substitution.mk (ρ.scopes_pop _ _)
  · rfl

theorem substitution_bind (σ : Substitution) (n : Symbol) (e : Expr) :
    ρ.substitution (σ.bind n e) = (ρ.substitution σ).bind (ρ.name n) (ρ.expr e) :=
  congrArg Substitution.mk (ρ.scopes_bind _ _ _ _)

/-- A field that cannot be taken, renamed. -/
def accessError (e : AccessError) : AccessError := ⟨e.fault, ρ.ident e.field⟩

/-- The outcome of a substitution, renamed. -/
def substituted {α β : Type} (h : α → β) : Except AccessError α → Except AccessError β
  | .ok a => .ok (h a)
  | .error e => .error (ρ.accessError e)

/-- Renamed outcomes, one after the other. -/
theorem substituted_bind {α β γ δ : Type} {h : α → β} {k : γ → δ} {x : Except AccessError α}
    {y : Except AccessError β} {f : α → Except AccessError γ} {g : β → Except AccessError δ}
    (hx : y = ρ.substituted h x) (hf : ∀ a, g (h a) = ρ.substituted k (f a)) :
    (y >>= g) = ρ.substituted k (x >>= f) := by
  subst hx
  cases x with
  | ok a => exact hf a
  | error e => rfl

theorem substituted_pure {α β : Type} {h : α → β} {a : α} {b : β} (hab : b = h a) :
    (pure b : Except AccessError β) = ρ.substituted h (pure a) := by
  rw [hab]
  rfl

/-- Fields lead to the renamed expression, or the renamed field cannot be taken. -/
theorem follow_expr (fields : List Ident) :
    ∀ e : Expr, (ρ.expr e).follow (fields.map ρ.ident)
      = ρ.substituted ρ.expr (e.follow fields) := by
  induction fields with
  | nil =>
    intro e
    cases e <;> rfl
  | cons f rest ih =>
    intro e
    cases e with
    | constructed span c fs =>
      simp only [expr, inits_eq_map, List.map_cons, Expr.follow, ident_name, find?_named]
      cases Named.find? fs f.name with
      | none => rfl
      | some value => exact ih value
    -- a variable collects the fields, anything else has none
    | access a => simp [expr, access, Expr.follow, substituted]
    | _ => rfl

mutual

/-- **Substitution commutes with renaming**, and it fails for the renamed expression exactly where
it failed before. -/
theorem apply_expr (σ : Substitution) :
    ∀ e : Expr, (ρ.substitution σ).apply (ρ.expr e) = ρ.substituted ρ.expr (σ.apply e)
  | .scalar span v => rfl
  | .access a => by
    have hfind : (ρ.substitution σ).find? (ρ.name a.var.name)
        = (σ.find? a.var.name).map ρ.expr := ρ.find?_scopes _ _ _
    -- a bound variable gives way to its value, and the fields are looked up in there
    simp only [expr, Substitution.apply, access_var, ident_name, hfind]
    cases σ.find? a.var.name with
    | none => rfl
    | some bound => exact ρ.follow_expr a.fields bound
  | .binary span op l r =>
    ρ.substituted_bind (apply_expr σ l) fun _ =>
      ρ.substituted_bind (apply_expr σ r) fun _ => ρ.substituted_pure rfl
  | .unary span op x =>
    ρ.substituted_bind (apply_expr σ x) fun _ => ρ.substituted_pure rfl
  | .type span i ps => by
    rw [expr, exprs_eq_map]
    exact ρ.substituted_bind (applyAll_exprs σ ps) fun _ => ρ.substituted_pure (by simp [expr])
  | .constructed span c fs => by
    rw [expr, inits_eq_map]
    exact ρ.substituted_bind (applyFields_inits σ fs) fun _ => ρ.substituted_pure (by simp [expr])
  | .collection span es => by
    rw [expr, exprs_eq_map]
    exact ρ.substituted_bind (applyAll_exprs σ es) fun _ => ρ.substituted_pure (by simp [expr])
  | .call span f as => by
    rw [expr, exprs_eq_map]
    exact ρ.substituted_bind (applyAll_exprs σ as) fun _ => ρ.substituted_pure (by simp [expr])

theorem applyAll_exprs (σ : Substitution) :
    ∀ es : List Expr, (ρ.substitution σ).applyAll (es.map ρ.expr)
      = ρ.substituted (List.map ρ.expr) (σ.applyAll es)
  | [] => rfl
  | e :: es =>
    ρ.substituted_bind (apply_expr σ e) fun _ =>
      ρ.substituted_bind (applyAll_exprs σ es) fun _ => ρ.substituted_pure rfl

theorem applyFields_inits (σ : Substitution) :
    ∀ fs : List (Named Expr), (ρ.substitution σ).applyFields (fs.map (ρ.named ρ.expr))
      = ρ.substituted (List.map (ρ.named ρ.expr)) (σ.applyFields fs)
  | [] => rfl
  | f :: fs =>
    ρ.substituted_bind (apply_expr σ f.val) fun _ =>
      ρ.substituted_bind (applyFields_inits σ fs) fun _ => ρ.substituted_pure rfl

end

theorem applyType_type (σ : Substitution) (t : TypeExpr) :
    (ρ.substitution σ).applyType (ρ.type t) = ρ.substituted ρ.type (σ.applyType t) :=
  ρ.substituted_bind (ρ.applyAll_exprs σ t.params) fun _ => ρ.substituted_pure rfl

theorem add_expr (σ : Substitution) (n : Symbol) (e : Expr) :
    (ρ.substitution σ).add (ρ.name n) (ρ.expr e) = ρ.substituted ρ.substitution (σ.add n e) :=
  ρ.substituted_bind (ρ.apply_expr σ e) fun _ => ρ.substituted_pure (ρ.substitution_bind σ n _).symm

/-! ## §5. Folding and sameness. -/

theorem expr_evalBinary (span : Span) (op : BinaryOp) (l r : Expr) :
    ρ.expr (.evalBinary span op l r) = .evalBinary (ρ.place span) op (ρ.expr l) (ρ.expr r) := by
  simp only [Expr.evalBinary, expr_scalar?]
  split
  · split <;> rfl
  · rfl

theorem expr_evalUnary (span : Span) (op : UnaryOp) (x : Expr) :
    ρ.expr (.evalUnary span op x) = .evalUnary (ρ.place span) op (ρ.expr x) := by
  unfold Expr.evalUnary
  rw [expr_scalar?]
  split <;> rfl

mutual

/-- **Folding commutes with renaming.** -/
theorem expr_fold : ∀ e : Expr, ρ.expr e.fold = (ρ.expr e).fold
  | .binary _ _ l r => by rw [Expr.fold, expr_evalBinary, expr_fold l, expr_fold r, expr, Expr.fold]
  | .unary _ _ x => by rw [Expr.fold, expr_evalUnary, expr_fold x, expr, Expr.fold]
  | .type _ _ ps => by rw [Expr.fold, expr, exprs_foldAll ps, expr, Expr.fold]
  | .access _ => rfl
  | .scalar _ _ => rfl
  | .constructed _ _ fs => by rw [Expr.fold, expr, inits_foldFields fs, expr, Expr.fold]
  | .collection _ es => by rw [Expr.fold, expr, exprs_foldAll es, expr, Expr.fold]
  | .call _ _ as => by rw [Expr.fold, expr, exprs_foldAll as, expr, Expr.fold]

theorem exprs_foldAll : ∀ es : List Expr, ρ.exprs (Expr.foldAll es) = Expr.foldAll (ρ.exprs es)
  | [] => rfl
  | e :: es => by rw [Expr.foldAll, exprs, expr_fold e, exprs_foldAll es, exprs, Expr.foldAll]

theorem inits_foldFields :
    ∀ fs : List (Named Expr), ρ.inits (Expr.foldFields fs) = Expr.foldFields (ρ.inits fs)
  | [] => rfl
  | f :: fs => by
    rw [Expr.foldFields, inits, expr_fold f.val, inits_foldFields fs, inits, Expr.foldFields]

end

theorem sameAs_access (a b : Access) : (ρ.access a).sameAs (ρ.access b) = a.sameAs b := by
  have hfields : ∀ fs : List Ident,
      (fs.map ρ.ident).map Ident.name = (fs.map Ident.name).map ρ.name := by
    intro fs
    simp [Function.comp_def]
  unfold Access.sameAs
  rw [access_var, access_var, ident_name, ident_name, name_beq_name, access_fields, access_fields,
    hfields, hfields]
  -- lists of renamed names are equal when the names are
  congr 1
  rw [Bool.eq_iff_iff, beq_iff_eq, beq_iff_eq, (List.map_injective_iff.mpr ρ.injective).eq_iff]

mutual

/-- **Sameness does not notice a renaming.** -/
theorem sameAs_expr : ∀ a b : Expr, (ρ.expr a).sameAs (ρ.expr b) = a.sameAs b
  | .binary _ _ l r, b => by
    cases b with
    | binary _ _ l' r' => simp only [expr, Expr.sameAs, sameAs_expr l l', sameAs_expr r r']
    | _ => rfl
  | .unary _ _ x, b => by
    cases b with
    | unary _ _ x' => simp only [expr, Expr.sameAs, sameAs_expr x x']
    | _ => rfl
  | .type _ _ ps, b => by
    cases b with
    | type _ _ ps' =>
      simp only [expr, Expr.sameAs, ident_name, name_beq_name, allSameAs_exprs ps ps']
    | _ => rfl
  | .access a, b => by
    cases b with
    | access a' => exact ρ.sameAs_access a a'
    | _ => rfl
  | .scalar _ _, b => by cases b <;> rfl
  | .constructed _ _ fs, b => by
    cases b with
    | constructed _ _ fs' =>
      have hlen : ∀ fs : List (Named Expr), (ρ.inits fs).length = fs.length := by simp
      simp only [expr, Expr.sameAs, ident_name, name_beq_name, hlen, fieldsSameAs_inits fs fs']
    | _ => rfl
  | .collection _ es, b => by
    cases b with
    | collection _ es' => simp only [expr, Expr.sameAs, allSameAs_exprs es es']
    | _ => rfl
  | .call _ _ as, b => by
    cases b with
    | call _ _ as' =>
      simp only [expr, Expr.sameAs, ident_name, name_beq_name, allSameAs_exprs as as']
    | _ => rfl

theorem allSameAs_exprs :
    ∀ es es' : List Expr, Expr.allSameAs (ρ.exprs es) (ρ.exprs es') = Expr.allSameAs es es'
  | [], es' => by cases es' <;> rfl
  | e :: es, es' => by
    cases es' with
    | nil => rfl
    | cons e' es' => simp only [exprs, Expr.allSameAs, sameAs_expr e e', allSameAs_exprs es es']

theorem fieldsSameAs_inits :
    ∀ fs others : List (Named Expr),
      Expr.fieldsSameAs (ρ.inits fs) (ρ.inits others) = Expr.fieldsSameAs fs others
  | [], _ => rfl
  | f :: fs, others => by
    -- a field is compared with the one of its name on the other side, wherever that stands
    have hfind : Named.find? (ρ.inits others) (ρ.name f.name.name)
        = (Named.find? others f.name.name).map ρ.expr := by
      rw [inits_eq_map, find?_named]
    have ih := fieldsSameAs_inits fs others
    simp only [inits, Expr.fieldsSameAs, ident_name, hfind] at ih ⊢
    rw [ih]
    cases Named.find? others f.name.name with
    | none => rfl
    | some value => simp only [Option.map_some, sameAs_expr f.val value]

end

/-- **The structural oracle does not notice a renaming.** -/
theorem equal_expr (a b : Expr) :
    Structural.equal (ρ.expr a) (ρ.expr b) = Structural.equal a b := by
  rw [Structural.equal, ← expr_fold, ← expr_fold, sameAs_expr, Structural.equal]

end Renaming

end DepSchema
