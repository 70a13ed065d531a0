/-
DepSchema.Proofs.Renaming.Schema — a renaming carried through declarations.

A schema carries another one over when, up to order, it declares the same types and functions
under their new names. Then it answers every look-up alike, whatever the order in which its
declarations came.

Main results: `Carries.type?`, `Carries.function?`, `Carries.owner?`, `Carries.constructor?` and
`carries_ofDeclarations`.
-/
import DepSchema.Proofs.Registry
import DepSchema.Proofs.Renaming.Expr
import DepSchema.Sort
import DepSchema.Expr.Variables

namespace DepSchema

namespace Renaming

variable (ρ : Renaming)

/-! ## §1. Declarations. -/

/-- A dependency or a field, renamed. -/
def variableOf (v : Variable) : Variable := ⟨ρ.ident v.name, ρ.type v.type⟩

/-- A variant of an enum, renamed. -/
def constructor (c : Constructor) : Constructor := ⟨ρ.ident c.ident, c.fields.map ρ.variableOf⟩

/-- An input of a rule, renamed. -/
def ruleInput : RuleInput → RuleInput
  | .any span => .any (ρ.place span)
  | .value e => .value (ρ.expr e)

/-- A row of an enum, renamed. -/
def rule (r : Rule) : Rule := ⟨r.inputs.map ρ.ruleInput, r.constructors.map ρ.constructor⟩

/-- A message, renamed. -/
def message (m : Message) : Message :=
  ⟨ρ.ident m.ident, m.deps.map ρ.variableOf, m.fields.map ρ.variableOf⟩

/-- An enum, renamed. -/
def enum (e : Enum) : Enum := ⟨ρ.ident e.ident, e.deps.map ρ.variableOf, e.rules.map ρ.rule⟩

/-- A declared type, renamed. -/
def typeDef : TypeDef → TypeDef
  | .message m => .message (ρ.message m)
  | .enum e => .enum (ρ.enum e)

mutual

/-- The type of a parameter, renamed. -/
def parameterType : ParameterType → ParameterType
  | .value t => .value (ρ.type t)
  | .function ps result => .function (parameters ps) (ρ.type result)
termination_by structural t => t

/-- Parameters, renamed. -/
def parameters : List (Named ParameterType) → List (Named ParameterType)
  | [] => []
  | p :: ps => ⟨ρ.ident p.name, parameterType p.val⟩ :: parameters ps
termination_by structural ps => ps

end

/-- The type of a function, renamed. -/
def functionType (ft : FunctionType) : FunctionType := ⟨ρ.parameters ft.params, ρ.type ft.result⟩

/-- A function, renamed. -/
def functionDef (f : FunctionDef) : FunctionDef :=
  ⟨ρ.ident f.ident, ρ.parameters f.params, ρ.type f.result, f.body.map ρ.expr⟩

@[simp] theorem parameters_eq_map (ps : List (Named ParameterType)) :
    ρ.parameters ps = ps.map (ρ.named ρ.parameterType) := by
  induction ps with
  | nil => rfl
  | cons p ps ih => rw [parameters, ih, List.map_cons, named]

@[simp] theorem variable_name (v : Variable) : (ρ.variableOf v).name = ρ.ident v.name := rfl

@[simp] theorem variable_type (v : Variable) : (ρ.variableOf v).type = ρ.type v.type := rfl

@[simp] theorem constructor_name (c : Constructor) : (ρ.constructor c).name = ρ.name c.name := rfl

@[simp] theorem constructor_fields (c : Constructor) :
    (ρ.constructor c).fields = c.fields.map ρ.variableOf := rfl

@[simp] theorem typeDef_name (d : TypeDef) : (ρ.typeDef d).name = ρ.name d.name := by
  cases d <;> rfl

@[simp] theorem typeDef_deps (d : TypeDef) : (ρ.typeDef d).deps = d.deps.map ρ.variableOf := by
  cases d <;> rfl

@[simp] theorem functionDef_name (f : FunctionDef) : (ρ.functionDef f).name = ρ.name f.name := rfl

theorem functionDef_signature (f : FunctionDef) :
    (ρ.functionDef f).signature = ρ.functionType f.signature := rfl

theorem enum_constructors (e : Enum) :
    (ρ.enum e).constructors = e.constructors.map ρ.constructor := by
  show (e.rules.map ρ.rule).flatMap Rule.constructors
    = (e.rules.flatMap Rule.constructors).map ρ.constructor
  rw [List.flatMap_map, List.map_flatMap]
  rfl

@[simp] theorem typeDef_constructors (d : TypeDef) :
    (ρ.typeDef d).constructors = d.constructors.map ρ.constructor := by
  cases d with
  | message m => rfl
  | enum e => exact ρ.enum_constructors e

@[simp] theorem typeDef_constructorNames (d : TypeDef) :
    (ρ.typeDef d).constructorNames = d.constructorNames.map ρ.name := by
  simp [TypeDef.constructorNames, Function.comp_def]

/-! ## §2. Look-ups in declarations. -/

/-- A search by name finds the renamed item. -/
theorem find?_map {α β : Type} (h : α → β) (key : α → Symbol) (key' : β → Symbol)
    (hkey : ∀ a, key' (h a) = ρ.name (key a)) (items : List α) (n : Symbol) :
    (items.map h).find? (fun b => key' b == ρ.name n)
      = (items.find? fun a => key a == n).map h := by
  rw [List.find?_map]
  congr 2
  funext a
  rw [Function.comp_apply, hkey, name_beq_name]

theorem find?_variable (vars : List Variable) (n : Symbol) :
    Variable.find? (vars.map ρ.variableOf) (ρ.name n) = (Variable.find? vars n).map ρ.variableOf :=
  ρ.find?_map ρ.variableOf (fun v => v.name.name) _ (fun _ => rfl) vars n

theorem field?_message (m : Message) (n : Symbol) :
    (ρ.message m).field? (ρ.name n) = (m.field? n).map ρ.variableOf :=
  ρ.find?_variable m.fields n

theorem constructor?_rule (r : Rule) (n : Symbol) :
    (ρ.rule r).constructor? (ρ.name n) = (r.constructor? n).map ρ.constructor :=
  ρ.find?_map ρ.constructor Constructor.name Constructor.name (fun _ => rfl) r.constructors n

theorem constructor?_typeDef (d : TypeDef) (n : Symbol) :
    (ρ.typeDef d).constructor? (ρ.name n) = (d.constructor? n).map ρ.constructor := by
  unfold TypeDef.constructor?
  rw [typeDef_constructors]
  exact ρ.find?_map ρ.constructor Constructor.name Constructor.name (fun _ => rfl) d.constructors n

/-! ## §3. Sorts. -/

/-- A sort, renamed. -/
def sort : ValueSort → ValueSort
  | .named n => .named (ρ.name n)
  | .array element => .array (sort element)
  | .set element => .set (sort element)
  | .int => .int
  | .unsigned => .unsigned
  | .float => .float
  | .bool => .bool
  | .string => .string

mutual

theorem sort?_expr : ∀ e : Expr, (ρ.expr e).sort? = e.sort?.map ρ.sort
  | .type _ i ps => by
    have hps := elementSort?_exprs ps
    simp only [expr, Expr.sort?, ident_name, name_eq_int, name_eq_unsigned, name_eq_float,
      name_eq_bool, name_eq_string, name_eq_array, name_eq_set, hps]
    split_ifs <;> simp [sort, Function.comp_def]
  | .binary _ _ _ _ => rfl
  | .unary _ _ _ => rfl
  | .access _ => rfl
  | .scalar _ _ => rfl
  | .constructed _ _ _ => rfl
  | .collection _ _ => rfl
  | .call _ _ _ => rfl

theorem elementSort?_exprs :
    ∀ es : List Expr, Expr.elementSort? (ρ.exprs es) = (Expr.elementSort? es).map ρ.sort
  | [] => rfl
  | e :: _ => sort?_expr e

end

/-- The sort of a renamed type is the renamed sort. -/
theorem sort?_type (t : TypeExpr) : (ρ.type t).sort? = t.sort?.map ρ.sort := by
  unfold TypeExpr.sort?
  rw [← expr_toExpr, sort?_expr]

/-! ## §4. Schemas. -/

/-- The schema `s'` declares what `s` declares, renamed and in whatever order. -/
structure Carries (s s' : Schema) : Prop where
  types : (s.types.map ρ.typeDef).Perm s'.types
  functions : (s.functions.map ρ.functionDef).Perm s'.functions

variable {ρ} {s s' : Schema}

theorem Carries.typeNames (h : ρ.Carries s s') : (s.typeNames.map ρ.name).Perm s'.typeNames := by
  have hperm := h.types.map TypeDef.name
  rw [List.map_map] at hperm
  have hnames : TypeDef.name ∘ ρ.typeDef = ρ.name ∘ TypeDef.name := by
    funext d
    exact ρ.typeDef_name d
  rw [hnames, ← List.map_map] at hperm
  exact hperm

/-- The declared type of a name is the renaming of the one before. -/
theorem Carries.type? (h : ρ.Carries s s') (hs' : s'.Keyed) (n : Symbol) :
    s'.type? (ρ.name n) = (s.type? n).map ρ.typeDef := by
  cases hd : s.type? n with
  | some d =>
    obtain rfl : d.name = n := by simpa using List.find?_some hd
    rw [Option.map_some, hs'.type?_eq_some]
    have hmem : ρ.typeDef d ∈ s.types.map ρ.typeDef :=
      List.mem_map_of_mem (List.mem_of_find?_eq_some hd)
    exact ⟨h.types.mem_iff.mp hmem, ρ.typeDef_name d⟩
  | none =>
    -- a declared type of the renamed name would be the renaming of one of the name
    have hnew : n ∉ s.typeNames := by
      rw [← Schema.isSome_type?, hd]
      simp
    rw [Option.map_none, ← Option.not_isSome_iff_eq_none, Schema.isSome_type?,
      ← h.typeNames.mem_iff, List.mem_map]
    intro hgiven
    obtain ⟨m, hm, heq⟩ := hgiven
    exact hnew (ρ.injective heq ▸ hm)

/-- The declared function of a name is the renaming of the one before. -/
theorem Carries.function? (h : ρ.Carries s s') (hs' : s'.Keyed) (n : Symbol) :
    s'.function? (ρ.name n) = (s.function? n).map ρ.functionDef := by
  cases hf : s.function? n with
  | some f =>
    obtain rfl : f.name = n := by simpa using List.find?_some hf
    rw [Option.map_some, hs'.function?_eq_some]
    have hmem : ρ.functionDef f ∈ s.functions.map ρ.functionDef :=
      List.mem_map_of_mem (List.mem_of_find?_eq_some hf)
    exact ⟨h.functions.mem_iff.mp hmem, rfl⟩
  | none =>
    rw [Option.map_none, ← Option.not_isSome_iff_eq_none, Schema.isSome_function?,
      Schema.functionNames, List.mem_map]
    intro hgiven
    obtain ⟨f', hf', heq⟩ := hgiven
    obtain ⟨f, hmem, rfl⟩ := List.mem_map.mp (h.functions.mem_iff.mpr hf')
    have hname : f.name ∈ s.functionNames := List.mem_map_of_mem hmem
    rw [functionDef_name, name_eq_name] at heq
    rw [heq, ← Schema.isSome_function?, hf] at hname
    cases hname

/-- Constructors stay apart. -/
theorem Carries.unshared (h : ρ.Carries s s') (hfree : s.Unshared) : s'.Unshared := by
  intro d' hd' e' he' c' hc' hc''
  obtain ⟨d, hd, rfl⟩ := List.mem_map.mp (h.types.mem_iff.mpr hd')
  obtain ⟨e, he, rfl⟩ := List.mem_map.mp (h.types.mem_iff.mpr he')
  rw [typeDef_constructorNames, List.mem_map] at hc' hc''
  obtain ⟨c, hc, rfl⟩ := hc'
  -- two renamed types that share a constructor share one before the renaming
  obtain ⟨k, hk, heq⟩ := hc''
  rw [name_eq_name] at heq
  subst heq
  rw [typeDef_name, typeDef_name, hfree d hd e he k hc hk]

/-- **A constructor belongs to the renaming of the type that it belonged to**, as long as no two
types share one. -/
theorem Carries.owner? (h : ρ.Carries s s') (hs : s.Registered) (hs' : s'.Registered)
    (hfree : s.Unshared) (c : Symbol) : s'.owner? (ρ.name c) = (s.owner? c).map ρ.name := by
  -- who owns the constructor is told by membership, which does not see the order
  ext u
  rw [hs'.owner?_eq_some (h.unshared hfree), Option.map_eq_some_iff]
  constructor
  · intro hgiven
    obtain ⟨d', hd', rfl, hc⟩ := hgiven
    obtain ⟨d, hd, rfl⟩ := List.mem_map.mp (h.types.mem_iff.mpr hd')
    rw [typeDef_constructorNames, List.mem_map] at hc
    obtain ⟨c', hc', heq⟩ := hc
    rw [name_eq_name] at heq
    subst heq
    exact ⟨d.name, (hs.owner?_eq_some hfree).mpr ⟨d, hd, rfl, hc'⟩, (ρ.typeDef_name d).symm⟩
  · intro hfound
    obtain ⟨type, htype, rfl⟩ := hfound
    obtain ⟨d, hd, rfl, hc⟩ := (hs.owner?_eq_some hfree).mp htype
    refine ⟨ρ.typeDef d, h.types.mem_iff.mp (List.mem_map_of_mem hd), ρ.typeDef_name d, ?_⟩
    rw [typeDef_constructorNames]
    exact List.mem_map_of_mem hc

/-- A constructor is found with its type, wherever the type that it belongs to is. -/
theorem constructor?_of_owner? {c : Symbol}
    (howner : s'.owner? (ρ.name c) = (s.owner? c).map ρ.name)
    (htype : ∀ n, s'.type? (ρ.name n) = (s.type? n).map ρ.typeDef) :
    s'.constructor? (ρ.name c)
      = (s.constructor? c).map fun p => (ρ.typeDef p.1, ρ.constructor p.2) := by
  unfold Schema.constructor?
  rw [howner]
  cases s.owner? c with
  | none => rfl
  | some type =>
    simp only [Option.map_some, Option.bind_eq_bind, Option.bind_some, htype]
    cases s.type? type with
    | none => rfl
    | some d =>
      simp only [Option.map_some, Option.bind_some, constructor?_typeDef]
      cases d.constructor? c <;> rfl

/-- A constructor and its type, renamed. -/
theorem Carries.constructor? (h : ρ.Carries s s') (hs : s.Registered) (hs' : s'.Registered)
    (hkeyed : s'.Keyed) (hfree : s.Unshared) (c : Symbol) :
    s'.constructor? (ρ.name c)
      = (s.constructor? c).map fun p => (ρ.typeDef p.1, ρ.constructor p.2) :=
  constructor?_of_owner? (h.owner? hs hs' hfree c) (h.type? hkeyed)

/-! ## §5. Schemas in the same order. -/

section Schema

variable (ρ) (s : Schema)

/-- A schema, renamed, with its declarations and its visit order as they are. -/
def schema (s : Schema) : Schema where
  types := s.types.map ρ.typeDef
  functions := s.functions.map ρ.functionDef
  owners := s.owners.map fun p => (ρ.name p.1, ρ.name p.2)
  visitOrder := s.visitOrder.map ρ.name
  refused := s.refused.map fun p => (ρ.ident p.1, p.2)

theorem carries_schema : ρ.Carries s (ρ.schema s) := ⟨.refl _, .refl _⟩

theorem type?_schema (n : Symbol) :
    (ρ.schema s).type? (ρ.name n) = (s.type? n).map ρ.typeDef :=
  ρ.find?_map ρ.typeDef TypeDef.name TypeDef.name ρ.typeDef_name s.types n

theorem function?_schema (n : Symbol) :
    (ρ.schema s).function? (ρ.name n) = (s.function? n).map ρ.functionDef :=
  ρ.find?_map ρ.functionDef FunctionDef.name FunctionDef.name ρ.functionDef_name s.functions n

theorem owner?_schema (c : Symbol) : (ρ.schema s).owner? (ρ.name c) = (s.owner? c).map ρ.name :=
  ρ.lookup_frame ρ.name s.owners c

theorem constructor?_schema (c : Symbol) : (ρ.schema s).constructor? (ρ.name c)
    = (s.constructor? c).map fun p => (ρ.typeDef p.1, ρ.constructor p.2) :=
  constructor?_of_owner? (ρ.owner?_schema s c) (ρ.type?_schema s)

end Schema

/-! ## §6. Schemas of declarations. -/

variable (ρ) in
/-- A declaration, renamed. -/
def declaration : Declaration → Declaration
  | .type d => .type (ρ.typeDef d)
  | .function f => .function (ρ.functionDef f)

theorem types_declaration (ds : List Declaration) :
    Declaration.types (ds.map ρ.declaration) = (Declaration.types ds).map ρ.typeDef := by
  unfold Declaration.types
  rw [List.filterMap_map, List.map_filterMap]
  congr 1
  funext d
  cases d <;> rfl

theorem functions_declaration (ds : List Declaration) :
    Declaration.functions (ds.map ρ.declaration)
      = (Declaration.functions ds).map ρ.functionDef := by
  unfold Declaration.functions
  rw [List.filterMap_map, List.map_filterMap]
  congr 1
  funext d
  cases d <;> rfl

variable {ds es : List Declaration}

theorem types_perm (h : (ds.map ρ.declaration).Perm es) :
    ((Declaration.types ds).map ρ.typeDef).Perm (Declaration.types es) := by
  rw [← types_declaration]
  exact h.filterMap Declaration.type?

theorem functions_perm (h : (ds.map ρ.declaration).Perm es) :
    ((Declaration.functions ds).map ρ.functionDef).Perm (Declaration.functions es) := by
  rw [← functions_declaration]
  exact h.filterMap Declaration.function?

/-- The names of renamed items are different when those of the items are. -/
theorem nodup_keys {α : Type} {f : α → α} {key : α → Symbol}
    (hkey : ∀ a, key (f a) = ρ.name (key a))
    {as bs : List α} (h : (as.map f).Perm bs) : (bs.map key).Nodup ↔ (as.map key).Nodup := by
  have hnames : (as.map f).map key = (as.map key).map ρ.name := by
    rw [List.map_map, List.map_map]
    exact List.map_congr_left fun a _ => hkey a
  rw [← (h.map key).nodup_iff, hnames, List.nodup_map_iff ρ.injective]

/-- **Whether a declaration is refused depends neither on names nor on order.** -/
theorem refused_iff (h : (ds.map ρ.declaration).Perm es) :
    (Schema.ofDeclarations es).refused = [] ↔ (Schema.ofDeclarations ds).refused = [] := by
  rw [Schema.refused_ofDeclarations, Schema.refused_ofDeclarations,
    nodup_keys ρ.typeDef_name (types_perm h), nodup_keys ρ.functionDef_name (functions_perm h)]

/-- **Where no declaration is refused, the schema carries over.** -/
theorem carries_ofDeclarations (h : (ds.map ρ.declaration).Perm es)
    (hr : (Schema.ofDeclarations ds).refused = []) :
    ρ.Carries (Schema.ofDeclarations ds) (Schema.ofDeclarations es) := by
  have hds := Schema.keeps_ofDeclarations hr
  have hes := Schema.keeps_ofDeclarations ((refused_iff h).mpr hr)
  constructor
  · exact (hds.types.map ρ.typeDef).trans ((types_perm h).trans hes.types.symm)
  · exact (hds.functions.map ρ.functionDef).trans ((functions_perm h).trans hes.functions.symm)

end Renaming

end DepSchema
