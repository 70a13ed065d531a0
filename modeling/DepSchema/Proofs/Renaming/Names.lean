/-
DepSchema.Proofs.Renaming.Names — name faults under other names.

Whether a part of a schema has a name fault depends on which of its names are declared, not on
what they are called. So the renaming of a part has its faults, at the renamed places, wherever a
renamed name is declared exactly if the name was. Whether a whole schema has faults does not depend
on the order of the declarations either: its global names are clean when they are all different and
none is a builtin type.

Main results: `faults_typeDef`, `faults_functionDef`, `faults_schema` and
`Carries.nameFaults_eq_nil`.
-/
import DepSchema.Proofs.Names.Faults
import DepSchema.Proofs.Renaming.Schema

namespace DepSchema

namespace Renaming

/-! ## §1. Faults at corresponding places. -/

/-- A renamed name is declared exactly if the name was. -/
def SameDeclared (ρ : Renaming) (V V' : Declared) : Prop := ∀ n, V' (ρ.name n) = V n

/-- A renamed constructor has the renamed fields and no other renamed ones. -/
def SameFields (ρ : Renaming) (known known' : Symbol → Symbol → Bool) : Prop :=
  ∀ k f, known' (ρ.name k) (ρ.name f) = known k f

/-- The faults on one side are reported at the renamed places of those on the other. -/
def FaultsAlike (ρ : Renaming) (faults faults' : List Diagnostic) : Prop :=
  faults'.map Diagnostic.span = faults.map fun d => d.span.map ρ.place

section FaultsAlike

variable {ρ : Renaming} {xs xs' ys ys' : List Diagnostic}

/-- There are faults on both sides or on none. -/
theorem FaultsAlike.eq_nil (h : ρ.FaultsAlike xs xs') : xs' = [] ↔ xs = [] := by
  unfold FaultsAlike at h
  rw [← List.map_eq_nil_iff (f := Diagnostic.span), h, List.map_eq_nil_iff]

theorem FaultsAlike.nil : ρ.FaultsAlike [] [] := rfl

theorem FaultsAlike.append (hx : ρ.FaultsAlike xs xs') (hy : ρ.FaultsAlike ys ys') :
    ρ.FaultsAlike (xs ++ ys) (xs' ++ ys') := by
  unfold FaultsAlike at hx hy ⊢
  rw [List.map_append, List.map_append, hx, hy]

variable {α β : Type} {h : α → β} {part : α → List Diagnostic} {part' : β → List Diagnostic}

/-- Parts that correspond one by one. -/
theorem FaultsAlike.flatMap (hpart : ∀ a, ρ.FaultsAlike (part a) (part' (h a))) (as : List α) :
    ρ.FaultsAlike (as.flatMap part) ((as.map h).flatMap part') := by
  induction as with
  | nil => exact .nil
  | cons a as ih => exact (hpart a).append ih

/-- Parts that correspond one by one, in whatever order: there are faults on both sides or on none.
-/
theorem FaultsAlike.flatMap_perm (hpart : ∀ a, ρ.FaultsAlike (part a) (part' (h a))) {as : List α}
    {bs : List β} (hperm : (as.map h).Perm bs) :
    bs.flatMap part' = [] ↔ as.flatMap part = [] := by
  have hnil : bs.flatMap part' = [] ↔ (as.map h).flatMap part' = [] := by
    rw [← List.length_eq_zero_iff, ← List.length_eq_zero_iff,
      (hperm.flatMap_right part').length_eq]
  exact hnil.trans (FaultsAlike.flatMap hpart as).eq_nil

end FaultsAlike

variable {ρ : Renaming} {V V' : Declared}

theorem SameDeclared.adding (hV : ρ.SameDeclared V V') (names : List Symbol) :
    ρ.SameDeclared (V.adding names) (V'.adding (names.map ρ.name)) := by
  intro n
  show ((names.map ρ.name).contains (ρ.name n) || V' (ρ.name n)) = (names.contains n || V n)
  rw [hV n]
  congr 1
  rw [Bool.eq_iff_iff, List.contains_iff_mem, List.contains_iff_mem]
  exact List.mem_map_of_injective ρ.injective

theorem SameDeclared.bound (hV : ρ.SameDeclared V V') (reading : Bool) (names : List Symbol) :
    ρ.SameDeclared (V.bound reading names) (V'.bound reading (names.map ρ.name)) := by
  cases reading with
  | true => exact hV.adding names
  | false => exact hV

theorem SameDeclared.demand (hV : ρ.SameDeclared V V') (i : Ident) (cause : Symbol → Cause) :
    ρ.FaultsAlike (V.demand i cause) (V'.demand (ρ.ident i) cause) := by
  unfold FaultsAlike Declared.demand
  rw [ident_name, hV i.name]
  cases V i.name <;> rfl

theorem SameDeclared.redeclared (hV : ρ.SameDeclared V V') (kind : NameKind) (i : Ident) :
    ρ.FaultsAlike (V.redeclared kind i) (V'.redeclared kind (ρ.ident i)) := by
  unfold FaultsAlike Declared.redeclared
  rw [ident_name, hV i.name]
  cases V i.name <;> rfl

/-! ## §2. Expressions. -/

/-- The value of a field binds what it is, a variable alone, or else what is inside it. -/
theorem bindsValue_of_binds {e : Expr} (h : (ρ.expr e).binds = e.binds.map ρ.name) :
    (ρ.expr e).bindsValue = e.bindsValue.map ρ.name := by
  unfold Expr.bindsValue
  rw [expr_bareVar?]
  cases e.bareVar? with
  | none => exact h
  | some i => rfl

mutual

theorem binds_expr : ∀ e : Expr, (ρ.expr e).binds = e.binds.map ρ.name
  | .binary _ _ l r => by
    show (ρ.expr l).binds ++ (ρ.expr r).binds = (l.binds ++ r.binds).map ρ.name
    rw [binds_expr l, binds_expr r, List.map_append]
  | .unary _ _ x => binds_expr x
  | .type _ _ ps => bindsAll_exprs ps
  | .access _ => rfl
  | .scalar _ _ => rfl
  | .constructed _ _ fs => bindsFields_inits fs
  | .collection _ es => bindsAll_exprs es
  | .call _ _ as => bindsAll_exprs as

theorem bindsAll_exprs : ∀ es : List Expr,
    Expr.bindsAll (ρ.exprs es) = (Expr.bindsAll es).map ρ.name
  | [] => rfl
  | e :: es => by
    show (ρ.expr e).binds ++ Expr.bindsAll (ρ.exprs es) = (e.binds ++ Expr.bindsAll es).map ρ.name
    rw [binds_expr e, bindsAll_exprs es, List.map_append]

theorem bindsFields_inits : ∀ fs : List (Named Expr),
    Expr.bindsFields (ρ.inits fs) = (Expr.bindsFields fs).map ρ.name
  | [] => rfl
  | f :: fs => by
    have hvalue := bindsValue_of_binds (binds_expr f.val)
    show (ρ.expr f.val).bindsValue ++ Expr.bindsFields (ρ.inits fs)
      = (f.val.bindsValue ++ Expr.bindsFields fs).map ρ.name
    rw [hvalue, bindsFields_inits fs, List.map_append]

end

theorem bindsValue_expr (e : Expr) : (ρ.expr e).bindsValue = e.bindsValue.map ρ.name :=
  bindsValue_of_binds (binds_expr e)

variable {known known' : Symbol → Symbol → Bool}

theorem faults_unknownField (hf : ρ.SameFields known known') (ctor : Symbol) (defined : Bool)
    (f : Ident) : ρ.FaultsAlike (Expr.unknownField known ctor defined f)
      (Expr.unknownField known' (ρ.name ctor) defined (ρ.ident f)) := by
  unfold FaultsAlike Expr.unknownField
  rw [ident_name, hf ctor f.name]
  cases defined && !known ctor f.name <;> rfl

mutual

/-- **The faults of a renamed expression are those of the expression, at renamed places.** -/
theorem faults_expr (hf : ρ.SameFields known known') (reading : Bool) :
    ∀ (e : Expr) {V V' : Declared}, ρ.SameDeclared V V' →
      ρ.FaultsAlike (e.faults known reading V) ((ρ.expr e).faults known' reading V')
  | .binary _ _ l r, V, V', hV => by
    have hright := hV.bound reading l.binds
    -- the right operand sees what the left one binds
    rw [← binds_expr l] at hright
    exact (faults_expr hf reading l hV).append (faults_expr hf reading r hright)
  | .unary _ _ x, _, _, hV => faults_expr hf reading x hV
  | .type _ i ps, _, _, hV => (hV.demand i .undefinedType).append (faults_exprs hf reading ps hV)
  | .access a, _, _, hV => hV.demand a.var .undefinedVariable
  | .scalar _ _, _, _, _ => .nil
  | .constructed _ c fs, V, V', hV => by
    have hfields := faults_inits hf reading c.name (V c.name) fs hV
    rw [← hV c.name] at hfields
    refine (hV.demand c .undefinedConstructor).append ?_
    rw [← hV c.name]
    exact hfields
  | .collection _ es, _, _, hV => faults_exprs hf reading es hV
  | .call _ f as, _, _, hV =>
    (hV.demand f .undefinedFunction).append (faults_exprs hf reading as hV)

theorem faults_exprs (hf : ρ.SameFields known known') (reading : Bool) :
    ∀ (es : List Expr) {V V' : Declared}, ρ.SameDeclared V V' →
      ρ.FaultsAlike (Expr.faultsAll known reading V es)
        (Expr.faultsAll known' reading V' (ρ.exprs es))
  | [], _, _, _ => .nil
  | e :: es, V, V', hV => by
    have hrest := hV.bound reading e.binds
    rw [← binds_expr e] at hrest
    exact (faults_expr hf reading e hV).append (faults_exprs hf reading es hrest)

theorem faults_inits (hf : ρ.SameFields known known') (reading : Bool) (ctor : Symbol)
    (defined : Bool) :
    ∀ (fs : List (Named Expr)) {V V' : Declared}, ρ.SameDeclared V V' →
      ρ.FaultsAlike (Expr.faultsFields known reading ctor defined V fs)
        (Expr.faultsFields known' reading (ρ.name ctor) defined V' (ρ.inits fs))
  | [], _, _, _ => .nil
  | f :: fs, V, V', hV => by
    -- a variable alone as the value of a field is bound by the input and not looked up
    have hvalue : ρ.FaultsAlike
        (if reading && f.val.bareVar?.isSome then [] else f.val.faults known reading V)
        (if reading && (ρ.expr f.val).bareVar?.isSome then []
          else (ρ.expr f.val).faults known' reading V') := by
      rw [expr_bareVar?, Option.isSome_map]
      cases reading && f.val.bareVar?.isSome with
      | true => exact .nil
      | false => exact faults_expr hf reading f.val hV
    have hrest := (hV.bound reading f.val.bindsValue).adding [f.name.name]
    rw [← bindsValue_expr f.val] at hrest
    exact ((faults_unknownField hf ctor defined f.name).append hvalue).append
      (faults_inits hf reading ctor defined fs hrest)

end

/-! ## §3. Declarations. -/

theorem faults_type (hf : ρ.SameFields known known') (hV : ρ.SameDeclared V V') (t : TypeExpr) :
    ρ.FaultsAlike (t.faults known V) ((ρ.type t).faults known' V') := by
  unfold TypeExpr.faults
  rw [← expr_toExpr]
  exact faults_expr hf false t.toExpr hV

theorem names_variables (vars : List Variable) :
    Variable.names (vars.map ρ.variableOf) = (Variable.names vars).map ρ.name := by
  simp [Variable.names, Function.comp_def]

theorem faults_dependencies (hf : ρ.SameFields known known') (vars : List Variable) :
    ∀ {V V' : Declared}, ρ.SameDeclared V V' →
      ρ.FaultsAlike (Variable.depFaults known V vars)
        (Variable.depFaults known' V' (vars.map ρ.variableOf)) := by
  induction vars with
  | nil =>
    intro V V' _
    exact .nil
  | cons v vs ih =>
    intro V V' hV
    exact (faults_type hf hV v.type).append (ih (hV.adding [v.name.name]))

theorem faults_fields (hf : ρ.SameFields known known') (vars : List Variable) :
    ∀ {V V' : Declared}, ρ.SameDeclared V V' →
      ρ.FaultsAlike (Variable.fieldFaults known V vars)
        (Variable.fieldFaults known' V' (vars.map ρ.variableOf)) := by
  induction vars with
  | nil =>
    intro V V' _
    exact .nil
  | cons v vs ih =>
    intro V V' hV
    have hone := (faults_type hf hV v.type).append (hV.redeclared .field v.name)
    exact hone.append (ih (hV.adding [v.name.name]))

theorem binds_input (i : RuleInput) : (ρ.ruleInput i).binds = i.binds.map ρ.name := by
  cases i with
  | any span => rfl
  | value e => exact bindsValue_expr e

theorem bindsAll_inputs (inputs : List RuleInput) :
    RuleInput.bindsAll (inputs.map ρ.ruleInput) = (RuleInput.bindsAll inputs).map ρ.name := by
  unfold RuleInput.bindsAll
  rw [List.flatMap_map, List.map_flatMap]
  congr 1
  funext i
  exact binds_input i

theorem faults_input (hf : ρ.SameFields known known') (hV : ρ.SameDeclared V V') (i : RuleInput) :
    ρ.FaultsAlike (i.faults known V) ((ρ.ruleInput i).faults known' V') := by
  cases i with
  | any span => exact .nil
  | value e =>
    show ρ.FaultsAlike (if e.bareVar?.isSome then [] else e.faults known true V)
      (if (ρ.expr e).bareVar?.isSome then [] else (ρ.expr e).faults known' true V')
    rw [expr_bareVar?, Option.isSome_map]
    cases e.bareVar?.isSome with
    | true => exact .nil
    | false => exact faults_expr hf true e hV

theorem faults_inputs (hf : ρ.SameFields known known') (inputs : List RuleInput) :
    ∀ {V V' : Declared}, ρ.SameDeclared V V' →
      ρ.FaultsAlike (RuleInput.faultsAll known V inputs)
        (RuleInput.faultsAll known' V' (inputs.map ρ.ruleInput)) := by
  induction inputs with
  | nil =>
    intro V V' _
    exact .nil
  | cons i is ih =>
    intro V V' hV
    have hrest := hV.adding i.binds
    rw [← binds_input i] at hrest
    exact (faults_input hf hV i).append (ih hrest)

theorem faults_rule (hf : ρ.SameFields known known') (hV : ρ.SameDeclared V V') (r : Rule) :
    ρ.FaultsAlike (r.faults known V) ((ρ.rule r).faults known' V') := by
  have hbound := hV.adding (RuleInput.bindsAll r.inputs)
  rw [← bindsAll_inputs] at hbound
  refine (faults_inputs hf r.inputs hV).append ?_
  exact .flatMap (h := ρ.constructor) (fun c => faults_fields hf c.fields hbound) r.constructors

/-- **The faults of a renamed type are those of the type, at renamed places.** -/
theorem faults_typeDef (hf : ρ.SameFields known known') (hV : ρ.SameDeclared V V') (d : TypeDef) :
    ρ.FaultsAlike (d.faults known V) ((ρ.typeDef d).faults known' V') := by
  have hafter := hV.adding (Variable.names d.deps)
  rw [← names_variables] at hafter
  cases d with
  | message m => exact (faults_dependencies hf m.deps hV).append (faults_fields hf m.fields hafter)
  | enum e =>
    refine (faults_dependencies hf e.deps hV).append ?_
    exact .flatMap (fun r => faults_rule hf hafter r) e.rules

theorem names_parameters (ps : List (Named ParameterType)) :
    ((ρ.parameters ps).map fun p => p.name.name) = (ps.map fun p => p.name.name).map ρ.name := by
  simp [Function.comp_def]

mutual

theorem faults_parameterType (hf : ρ.SameFields known known') :
    ∀ (t : ParameterType) {V V' : Declared}, ρ.SameDeclared V V' →
      ρ.FaultsAlike (t.faults known V) ((ρ.parameterType t).faults known' V')
  | .value t, _, _, hV => faults_type hf hV t
  | .function ps result, V, V', hV => by
    have hafter := hV.adding (ps.map fun p => p.name.name)
    rw [← names_parameters] at hafter
    exact (faults_parameters hf ps hV).append (faults_type hf hafter result)

theorem faults_parameters (hf : ρ.SameFields known known') :
    ∀ (ps : List (Named ParameterType)) {V V' : Declared}, ρ.SameDeclared V V' →
      ρ.FaultsAlike (ParameterType.faultsAll known V ps)
        (ParameterType.faultsAll known' V' (ρ.parameters ps))
  | [], _, _, _ => .nil
  | p :: ps, V, V', hV => by
    have hone := (faults_parameterType hf p.val hV).append (hV.redeclared .parameter p.name)
    exact hone.append (faults_parameters hf ps (hV.adding [p.name.name]))

end

/-- **The faults of a renamed function are those of the function, at renamed places.** -/
theorem faults_functionDef (hf : ρ.SameFields known known') (hV : ρ.SameDeclared V V')
    (f : FunctionDef) : ρ.FaultsAlike (f.faults known V) ((ρ.functionDef f).faults known' V') := by
  have hafter := hV.adding (f.params.map fun p => p.name.name)
  rw [← names_parameters] at hafter
  have hhead := (faults_parameters hf f.params hV).append (faults_type hf hafter f.result)
  obtain ⟨i, ps, result, body⟩ := f
  cases body with
  | none => exact hhead.append .nil
  | some body => exact hhead.append (faults_expr hf false body hafter)

/-! ## §4. Schemas. -/

theorem contains_builtins (n : Symbol) :
    Symbol.builtins.contains (ρ.name n) = Symbol.builtins.contains n := by
  have hbuiltin : ∀ m ∈ Symbol.builtins, ρ.name m = m := by
    intro m hm
    have hall : ∀ m ∈ Symbol.builtins, m.isBuiltin = true := by decide
    exact ρ.builtin (hall m hm)
  rw [Bool.eq_iff_iff, List.contains_iff_mem, List.contains_iff_mem]
  constructor
  · intro h
    -- only a builtin handle is renamed to a builtin one
    have hback : ρ.name n = n := ρ.injective (hbuiltin _ h)
    rwa [hback] at h
  · intro h
    rwa [hbuiltin n h]

/-- A declared name with its kind, renamed. -/
def globalName (ρ : Renaming) (p : NameKind × Ident) : NameKind × Ident := (p.1, ρ.ident p.2)

theorem globalNames_typeDef (d : TypeDef) :
    (ρ.typeDef d).globalNames = d.globalNames.map ρ.globalName := by
  cases d with
  | message m => rfl
  | enum e =>
    show (NameKind.enum, ρ.ident e.ident) ::
        (ρ.enum e).constructors.map (fun c => (NameKind.constructor, c.ident))
      = ((NameKind.enum, e.ident) ::
        e.constructors.map fun c => (NameKind.constructor, c.ident)).map ρ.globalName
    rw [enum_constructors, List.map_cons, List.map_map, List.map_map]
    rfl

theorem declaredNames_typeDef (d : TypeDef) :
    (ρ.typeDef d).declaredNames = d.declaredNames.map ρ.name := by
  unfold TypeDef.declaredNames
  rw [globalNames_typeDef, List.map_map, List.map_map]
  rfl

/-- The faults of renamed global names are those of the names, at renamed places. -/
theorem faults_globalNames (names : List (NameKind × Ident)) :
    ∀ {V V' : Declared}, ρ.SameDeclared V V' →
      ρ.FaultsAlike (V.globalFaults names) (V'.globalFaults (names.map ρ.globalName)) := by
  induction names with
  | nil =>
    intro V V' _
    exact .nil
  | cons p names ih =>
    intro V V' hV
    exact (hV.redeclared p.1 p.2).append (ih (hV.adding [p.2.name]))

variable {s s' : Schema}

theorem Carries.declaredNames (h : ρ.Carries s s') :
    (s.declaredNames.map ρ.name).Perm s'.declaredNames := by
  rw [Schema.declaredNames_eq, Schema.declaredNames_eq, List.map_append]
  refine .append ?_ ?_
  · have htypes := h.types.flatMap_right TypeDef.declaredNames
    rw [List.flatMap_map] at htypes
    rw [List.map_flatMap]
    have hnames : (fun d => (ρ.typeDef d).declaredNames) = fun d => d.declaredNames.map ρ.name :=
      funext declaredNames_typeDef
    rwa [hnames] at htypes
  · have hfunctions := h.functions.map FunctionDef.name
    rw [List.map_map] at hfunctions
    unfold Schema.functionNames
    rwa [List.map_map]

theorem Carries.globals (h : ρ.Carries s s') : ρ.SameDeclared s.globals s'.globals := by
  intro n
  show (s'.declaredNames.contains (ρ.name n) || Symbol.builtins.contains (ρ.name n))
    = (s.declaredNames.contains n || Symbol.builtins.contains n)
  rw [contains_builtins]
  congr 1
  rw [Bool.eq_iff_iff, List.contains_iff_mem, List.contains_iff_mem, ← h.declaredNames.mem_iff]
  exact List.mem_map_of_injective ρ.injective

theorem Carries.hasField (h : ρ.Carries s s') : ρ.SameFields s.hasField s'.hasField := by
  intro k f
  have hone : ∀ c : Constructor,
      ((ρ.constructor c).name == ρ.name k
          && (Variable.find? (ρ.constructor c).fields (ρ.name f)).isSome)
        = (c.name == k && (Variable.find? c.fields f).isSome) := by
    intro c
    rw [constructor_name, name_beq_name, constructor_fields, find?_variable, Option.isSome_map]
  unfold Schema.hasField
  rw [← h.types.any_eq, List.any_map]
  congr 1
  funext d
  rw [Function.comp_apply, typeDef_constructors, List.any_map]
  congr 1
  funext c
  exact hone c

/-- **A schema and its renaming are both free of name faults or both not**, if both or none refused
a declaration. -/
theorem Carries.nameFaults_eq_nil (h : ρ.Carries s s') (hr : s'.refused = [] ↔ s.refused = []) :
    s'.nameFaults = [] ↔ s.nameFaults = [] := by
  have hnames : s'.declaredNames.Nodup ↔ s.declaredNames.Nodup := by
    rw [← h.declaredNames.nodup_iff, List.nodup_map_iff ρ.injective]
  have hbuiltin : (∀ n ∈ s'.declaredNames, Symbol.builtins.contains n = false) ↔
      ∀ n ∈ s.declaredNames, Symbol.builtins.contains n = false := by
    constructor
    · intro hall n hn
      rw [← contains_builtins (ρ := ρ)]
      exact hall _ (h.declaredNames.mem_iff.mp (List.mem_map_of_mem hn))
    · intro hall n' hn'
      obtain ⟨n, hn, rfl⟩ := List.mem_map.mp (h.declaredNames.mem_iff.mpr hn')
      rw [contains_builtins]
      exact hall n hn
  have htypes : s'.types.flatMap (TypeDef.faults s'.hasField s'.globals) = [] ↔
      s.types.flatMap (TypeDef.faults s.hasField s.globals) = [] :=
    FaultsAlike.flatMap_perm (faults_typeDef h.hasField h.globals) h.types
  have hfunctions : s'.functions.flatMap (FunctionDef.faults s'.hasField s'.globals) = [] ↔
      s.functions.flatMap (FunctionDef.faults s.hasField s.globals) = [] :=
    FaultsAlike.flatMap_perm (faults_functionDef h.hasField h.globals) h.functions
  -- the global names are told by four conditions, none of which sees the order of declaration
  rw [Schema.nameFaults_eq_nil, Schema.nameFaults_eq_nil, hnames, hbuiltin, hr, htypes, hfunctions]

/-- **The name faults of a renamed schema are those of the schema, at renamed places.** -/
theorem faults_schema (s : Schema) : ρ.FaultsAlike s.nameFaults (ρ.schema s).nameFaults := by
  have hcarries := ρ.carries_schema s
  have hnames : (ρ.schema s).globalNames = s.globalNames.map ρ.globalName := by
    unfold Schema.globalNames
    rw [List.map_append, List.map_flatMap, List.map_map]
    show (s.types.map ρ.typeDef).flatMap TypeDef.globalNames
      ++ (s.functions.map ρ.functionDef).map _ = _
    rw [List.flatMap_map, List.map_map, funext globalNames_typeDef]
    rfl
  have hglobals := faults_globalNames (ρ := ρ) s.globalNames contains_builtins
  have hrefused : ρ.FaultsAlike
      (s.refused.map fun r => .located r.1.span (.redeclared r.2 r.1.name))
      ((ρ.schema s).refused.map fun r => .located r.1.span (.redeclared r.2 r.1.name)) := by
    unfold FaultsAlike schema
    rw [List.map_map, List.map_map, List.map_map]
    rfl
  rw [Schema.nameFaults_eq, Schema.nameFaults_eq, hnames]
  exact ((hglobals.append hrefused).append
    (.flatMap (faults_typeDef hcarries.hasField hcarries.globals) s.types)).append
    (.flatMap (faults_functionDef hcarries.hasField hcarries.globals) s.functions)

end Renaming

end DepSchema
