/-
DepSchema.Proofs.Renaming.Around — what a name of one function can matter for.

Around a function stands the function itself, what leads to it, and whatever these lead to. Only the
checks of the function and of what leads to it look at its parameters, and they look at nothing
outside of what is around it. So two schemas that differ in one function, in which one of them says
`y` where the other one says `x`, have the same verdict as soon as neither name occurs in anything
else around the function: what is around it in the one schema is, with the two names exchanged, what
is around it in the other one. Elsewhere `x` may occur.

Main definition: `Schema.Around`. Main results: `Exchanged.eachPasses_iff` and
`Exchanged.nameFaults_iff`.
-/
import DepSchema.Proofs.Names.Uses
import DepSchema.Proofs.Renaming.Exchange
import DepSchema.Proofs.Renaming.Verdict
import DepSchema.Proofs.Vocabulary.Kept

namespace DepSchema

/-! ## §1. References under other names. -/

namespace Renaming

variable (ρ : Renaming)

/-- A reference, renamed. -/
def reference : Reference → Reference
  | .type n k => .type (ρ.name n) k
  | .ctor n => .ctor (ρ.name n)
  | .callee n => .callee (ρ.name n)
  | .var n => .var (ρ.name n)

mutual

/-- **The references of a renamed expression are the renamed references.** -/
theorem refs_expr : ∀ e : Expr, (ρ.expr e).refs = e.refs.map ρ.reference
  | .binary _ _ l r => by
    rw [expr, Expr.refs, Expr.refs, refs_expr l, refs_expr r, List.map_append]
  | .unary _ _ x => refs_expr x
  | .type _ i ps => by
    rw [expr, Expr.refs, Expr.refs, refsAll_exprs ps, exprs_eq_map, List.length_map]
    rfl
  | .access _ => rfl
  | .scalar _ _ => rfl
  | .constructed _ c fs => by
    rw [expr, Expr.refs, Expr.refs, refsFields_inits fs]
    rfl
  | .collection _ es => refsAll_exprs es
  | .call _ f as => by
    rw [expr, Expr.refs, Expr.refs, refsAll_exprs as]
    rfl

theorem refsAll_exprs : ∀ es : List Expr,
    Expr.refsAll (ρ.exprs es) = (Expr.refsAll es).map ρ.reference
  | [] => rfl
  | e :: es => by
    rw [exprs, Expr.refsAll, Expr.refsAll, refs_expr e, refsAll_exprs es, List.map_append]

theorem refsFields_inits : ∀ fs : List (Named Expr),
    Expr.refsFields (ρ.inits fs) = (Expr.refsFields fs).map ρ.reference
  | [] => rfl
  | f :: fs => by
    rw [inits, Expr.refsFields, Expr.refsFields, refs_expr f.val, refsFields_inits fs,
      List.map_append]

end

mutual

theorem exprs_parameterType : ∀ t : ParameterType, (ρ.parameterType t).exprs = t.exprs.map ρ.expr
  | .value t => by
    rw [parameterType, ParameterType.exprs, ParameterType.exprs, ← expr_toExpr]
    rfl
  | .function ps result => by
    rw [parameterType, ParameterType.exprs, ParameterType.exprs, exprsAll_parameters ps,
      ← expr_toExpr, List.map_append]
    rfl

theorem exprsAll_parameters : ∀ ps : List (Named ParameterType),
    ParameterType.exprsAll (ρ.parameters ps) = (ParameterType.exprsAll ps).map ρ.expr
  | [] => rfl
  | p :: ps => by
    rw [parameters, ParameterType.exprsAll, ParameterType.exprsAll, exprs_parameterType p.val,
      exprsAll_parameters ps, List.map_append]

end

theorem exprs_functionType (ft : FunctionType) :
    (ρ.functionType ft).exprs = ft.exprs.map ρ.expr := by
  rw [functionType, FunctionType.exprs, FunctionType.exprs, exprsAll_parameters, ← expr_toExpr,
    List.map_append]
  rfl

theorem exprs_functionDef (f : FunctionDef) :
    (ρ.functionDef f).exprs = f.exprs.map ρ.expr := by
  rw [FunctionDef.exprs, FunctionDef.exprs, functionDef_signature, exprs_functionType,
    List.map_append]
  obtain ⟨i, ps, result, body⟩ := f
  cases body <;> rfl

end Renaming

/-! ## §2. Name faults and fields. -/

namespace Expr

variable {known known' : Symbol → Symbol → Bool}

mutual

/-- The name faults of an expression depend on the fields of the constructors in it only. -/
theorem faults_congr (reading : Bool) : ∀ (e : Expr) (V : Declared),
    (∀ c, .ctor c ∈ e.refs → known c = known' c) →
      e.faults known reading V = e.faults known' reading V
  | .binary _ _ l r, V, h => by
    rw [faults, faults, faults_congr reading l V fun c hc => h c (List.mem_append_left _ hc),
      faults_congr reading r _ fun c hc => h c (List.mem_append_right _ hc)]
  | .unary _ _ x, V, h => faults_congr reading x V h
  | .type _ _ ps, V, h => by
    rw [faults, faults, faultsAll_congr reading ps V fun c hc => h c (List.mem_cons_of_mem _ hc)]
  | .access _, _, _ => rfl
  | .scalar _ _, _, _ => rfl
  | .constructed _ c fs, V, h => by
    rw [faults, faults, faultsFields_congr reading c.name (V c.name) fs V (h _ List.mem_cons_self)
      fun c hc => h c (List.mem_cons_of_mem _ hc)]
  | .collection _ es, V, h => faultsAll_congr reading es V h
  | .call _ _ as, V, h => by
    rw [faults, faults, faultsAll_congr reading as V fun c hc => h c (List.mem_cons_of_mem _ hc)]

theorem faultsAll_congr (reading : Bool) : ∀ (es : List Expr) (V : Declared),
    (∀ c, .ctor c ∈ refsAll es → known c = known' c) →
      faultsAll known reading V es = faultsAll known' reading V es
  | [], _, _ => rfl
  | e :: es, V, h => by
    rw [faultsAll, faultsAll,
      faults_congr reading e V fun c hc => h c (List.mem_append_left _ hc),
      faultsAll_congr reading es _ fun c hc => h c (List.mem_append_right _ hc)]

theorem faultsFields_congr (reading : Bool) (ctor : Symbol) (defined : Bool) :
    ∀ (fs : List (Named Expr)) (V : Declared), known ctor = known' ctor →
      (∀ c, .ctor c ∈ refsFields fs → known c = known' c) →
        faultsFields known reading ctor defined V fs
          = faultsFields known' reading ctor defined V fs
  | [], _, _, _ => rfl
  | f :: fs, V, hctor, h => by
    rw [faultsFields, faultsFields, unknownField, unknownField, hctor,
      faults_congr reading f.val V fun c hc => h c (List.mem_append_left _ hc),
      faultsFields_congr reading ctor defined fs _ hctor
        fun c hc => h c (List.mem_append_right _ hc)]

end

end Expr

namespace ParameterType

variable {known known' : Symbol → Symbol → Bool}

mutual

theorem faults_congr : ∀ (t : ParameterType) (V : Declared),
    (∀ e ∈ t.exprs, ∀ c, .ctor c ∈ e.refs → known c = known' c) →
      t.faults known V = t.faults known' V
  | .value t, V, h => Expr.faults_congr false t.toExpr V (h _ List.mem_cons_self)
  | .function ps result, V, h => by
    rw [exprs, List.forall_mem_append, List.forall_mem_singleton] at h
    rw [faults, faults, faultsAll_congr ps V h.1, TypeExpr.faults, TypeExpr.faults,
      Expr.faults_congr false result.toExpr _ h.2]

theorem faultsAll_congr : ∀ (ps : List (Named ParameterType)) (V : Declared),
    (∀ e ∈ exprsAll ps, ∀ c, .ctor c ∈ e.refs → known c = known' c) →
      faultsAll known V ps = faultsAll known' V ps
  | [], _, _ => rfl
  | p :: ps, V, h => by
    rw [exprsAll, List.forall_mem_append] at h
    rw [faultsAll, faultsAll, faults_congr p.val V h.1, faultsAll_congr ps _ h.2]

end

end ParameterType

/-- **The name faults of a function depend on the fields of the constructors in it only.** -/
theorem FunctionDef.faults_congr {known known' : Symbol → Symbol → Bool} (f : FunctionDef)
    (V : Declared) (h : ∀ e ∈ f.exprs, ∀ c, .ctor c ∈ e.refs → known c = known' c) :
    f.faults known V = f.faults known' V := by
  rw [exprs, FunctionType.exprs, List.forall_mem_append, List.forall_mem_append,
    List.forall_mem_singleton] at h
  obtain ⟨⟨hparams, hresult⟩, hbody⟩ := h
  have hparams' := ParameterType.faultsAll_congr f.params V hparams
  have hresult' := Expr.faults_congr false f.result.toExpr
    (V.adding (f.params.map fun p => p.name.name)) hresult
  rw [faults, faults, hparams', TypeExpr.faults, TypeExpr.faults, hresult']
  cases hb : f.body with
  | none => rfl
  | some body =>
    dsimp only
    rw [Expr.faults_congr false body _ (hbody body (by simp [hb]))]

/-! ## §3. What is around a function. -/

/-- The name under which something is declared. -/
def Entity.name : Entity → Symbol
  | type n => n
  | function n => n
  | body n => n

/-- The names of the fields of a type are among its names. -/
theorem TypeDef.symbols_of_field {d : TypeDef} {ctor : Constructor} (hctor : ctor ∈ d.constructors)
    {v : Variable} (hv : v ∈ ctor.fields) : v.name.name ∈ d.symbols := by
  have hname : v.name.name ∈ v.symbols := List.mem_cons_self
  cases d with
  | message m =>
    obtain rfl := List.mem_singleton.mp hctor
    exact List.mem_append_right _ (List.mem_flatMap.mpr ⟨v, hv, hname⟩)
  | enum e =>
    obtain ⟨r, hr, hctor⟩ := List.mem_flatMap.mp hctor
    have hfields : v.name.name ∈ ctor.symbols :=
      List.mem_cons_of_mem _ (List.mem_flatMap.mpr ⟨v, hv, hname⟩)
    refine List.mem_append_right _ (List.mem_flatMap.mpr ⟨r, hr, ?_⟩)
    exact List.mem_append_right _ (List.mem_flatMap.mpr ⟨ctor, hctor, hfields⟩)

namespace Schema

/-- All names in a declaration as others see it, and in a function with its body. -/
def symbolsOf (s : Schema) : Entity → List Symbol
  | .type n => (s.type? n).elim [] TypeDef.symbols
  | .function n => (s.function? n).elim [] fun f => f.bodiless.symbols
  | .body n => (s.function? n).elim [] FunctionDef.symbols

/-- What others see of a function has no other names than the function. -/
theorem symbols_bodiless (f : FunctionDef) : f.bodiless.symbols ⊆ f.symbols := by
  intro n hn
  rcases List.mem_append.mp hn with hn | hn
  · exact List.mem_append_left _ hn
  · cases hn

/-- Around a function are the function with its body, what leads to it, and whatever these lead to.
-/
def Around (s : Schema) (f : Symbol) (b : Entity) : Prop :=
  ∃ a, (a = .body f ∨ s.Reaches a (.function f)) ∧ s.Reaches a b

variable {s s' : Schema}

theorem symbolsOf_type {n : Symbol} {d : TypeDef} (hd : s.type? n = some d) :
    s.symbolsOf (.type n) = d.symbols := by
  rw [symbolsOf, hd]
  rfl

theorem symbolsOf_function {n : Symbol} {f : FunctionDef} (hf : s.function? n = some f) :
    s.symbolsOf (.function n) = f.bodiless.symbols := by
  rw [symbolsOf, hf]
  rfl

theorem symbolsOf_body {n : Symbol} {f : FunctionDef} (hf : s.function? n = some f) :
    s.symbolsOf (.body n) = f.symbols := by
  rw [symbolsOf, hf]
  rfl

/-- What has a name in it is declared, and the name is in one of the types and functions. -/
theorem exists_of_mem_symbolsOf {b : Entity} {x : Symbol} (hx : x ∈ s.symbolsOf b) :
    b ∈ s.entities ∧ ((∃ d ∈ s.types, x ∈ d.symbols) ∨ ∃ f ∈ s.functions, x ∈ f.symbols) := by
  cases b with
  | type n =>
    cases hd : s.type? n with
    | none => simp [symbolsOf, hd] at hx
    | some d =>
      rw [symbolsOf_type hd] at hx
      exact ⟨mem_entities_of_type hd, .inl ⟨d, mem_of_type? hd, hx⟩⟩
  | function n =>
    cases hf : s.function? n with
    | none => simp [symbolsOf, hf] at hx
    | some f =>
      rw [symbolsOf_function hf] at hx
      exact ⟨(mem_entities_of_function hf).1,
        .inr ⟨f, List.mem_of_find?_eq_some hf, symbols_bodiless f hx⟩⟩
  | body n =>
    cases hf : s.function? n with
    | none => simp [symbolsOf, hf] at hx
    | some f =>
      rw [symbolsOf_body hf] at hx
      exact ⟨(mem_entities_of_function hf).2, .inr ⟨f, List.mem_of_find?_eq_some hf, hx⟩⟩

/-- A name that is in nothing that is declared is in nothing. -/
theorem not_mem_symbolsOf {P : Entity → Prop} {x : Symbol}
    (h : ∀ b ∈ s.entities, P b → x ∉ s.symbolsOf b) : ∀ b, P b → x ∉ s.symbolsOf b :=
  fun b hb hx => h b (exists_of_mem_symbolsOf hx).1 hb hx

/-- **Two parts of a schema**, each of them closed under uses: what is around a function is in the
one part if its body is there and the function is not in the other part. -/
theorem forall_around {P Q : Entity → Prop} (hP : s.ClosedUnderUses P) (hQ : s.ClosedUnderUses Q)
    (hall : ∀ a, P a ∨ Q a) {f : Symbol} (hbody : P (.body f)) (hout : ¬Q (.function f)) :
    ∀ b, s.Around f b → P b := by
  intro b hb
  obtain ⟨a, ha, hab⟩ := hb
  refine hP.of_reaches ?_ hab
  rcases ha with rfl | ha
  · exact hbody
  · exact (hall a).resolve_right fun hQa => hout (hQ.of_reaches hQa ha)

/-- The two schemas have the same types, found in the same way. -/
structure SameTypes (s s' : Schema) : Prop where
  types : s.types = s'.types
  owners : s.owners = s'.owners

namespace SameTypes

variable (h : s.SameTypes s')

include h

theorem type?_eq : s.type? = s'.type? := by
  funext n
  unfold type?
  rw [h.types]

theorem owner?_eq : s.owner? = s'.owner? := by
  funext c
  unfold owner?
  rw [h.owners]

theorem constructor?_eq : s.constructor? = s'.constructor? := by
  funext c
  unfold constructor?
  rw [h.type?_eq, h.owner?_eq]

theorem hasField_eq : s.hasField = s'.hasField := by
  funext c f
  unfold hasField
  rw [h.types]

end SameTypes

/-- A constructor has fields only if it is one of a type, in which the fields occur. -/
theorem exists_of_hasField {c f : Symbol} (h : s.hasField c f = true) :
    ∃ d ∈ s.types, c ∈ d.constructorNames ∧ f ∈ d.symbols := by
  simp only [hasField, List.any_eq_true, Bool.and_eq_true, beq_iff_eq] at h
  obtain ⟨d, hd, ctor, hctor, rfl, hf⟩ := h
  obtain ⟨v, hv⟩ := Option.isSome_iff_exists.mp hf
  obtain rfl : v.name.name = f := by simpa using List.find?_some hv
  exact ⟨d, hd, List.mem_map_of_mem hctor,
    TypeDef.symbols_of_field hctor (List.mem_of_find?_eq_some hv)⟩

/-- The second schema has the function `f'` where the first one has `f`, and the one is the other
with the names `x` and `y` exchanged, neither of which is a type, a constructor or a function. The
first schema does not have the name `y`, and around the function the second one does not have the
name `x`. -/
structure Exchanged (x y : Symbol) (hx : x.isBuiltin = false) (hy : y.isBuiltin = false)
    (f f' : FunctionDef) (s s' : Schema) : Prop where
  keyed : s.Keyed
  keyed' : s'.Keyed
  registered : s.Registered
  types : s.SameTypes s'
  function : s.function? f.name = some f
  function' : s'.function? f.name = some f'
  others : ∀ n, n ≠ f.name → s'.function? n = s.function? n
  exchanged : (Renaming.exchange x y hx hy).functionDef f = f'
  undeclared : ∀ n, n = x ∨ n = y → n ∉ s.declaredNames
  fresh : ∀ b, y ∉ s.symbolsOf b
  gone : ∀ b, s'.Around f.name b → x ∉ s'.symbolsOf b

namespace Exchanged

variable {x y : Symbol} {hx : x.isBuiltin = false} {hy : y.isBuiltin = false} {f f' : FunctionDef}

variable (x y) in
/-- The entity is around the function or has one of the two names. -/
def Nearby (s' : Schema) (f : Symbol) (b : Entity) : Prop :=
  s'.Around f b ∨ b.name = x ∨ b.name = y

/-- The two names are exchanged, the others stay. -/
theorem swap_cases (n : Symbol) :
    (n = x ∨ n = y) ∧ (Equiv.swap x y n = x ∨ Equiv.swap x y n = y)
      ∨ n ≠ x ∧ n ≠ y ∧ Equiv.swap x y n = n := by
  by_cases hnx : n = x
  · subst hnx
    exact .inl ⟨.inl rfl, .inr (Equiv.swap_apply_left _ _)⟩
  · by_cases hny : n = y
    · subst hny
      exact .inl ⟨.inr rfl, .inl (Equiv.swap_apply_right _ _)⟩
    · exact .inr ⟨hnx, hny, Equiv.swap_apply_of_ne_of_ne hnx hny⟩

variable (h : Exchanged x y hx hy f f' s s')

include h

/-! ### The two names. -/

theorem type?_eq_none {n : Symbol} (hn : n = x ∨ n = y) : s.type? n = none := by
  rw [← Option.not_isSome_iff_eq_none, isSome_type?]
  intro hmem
  obtain ⟨d, hd, rfl⟩ := List.mem_map.mp hmem
  refine h.undeclared _ hn ?_
  rw [declaredNames_eq]
  exact List.mem_append_left _ (List.mem_flatMap.mpr ⟨d, hd, List.mem_cons_self⟩)

theorem function?_eq_none {n : Symbol} (hn : n = x ∨ n = y) : s.function? n = none := by
  rw [← Option.not_isSome_iff_eq_none, isSome_function?]
  intro hmem
  refine h.undeclared _ hn ?_
  rw [declaredNames_eq]
  exact List.mem_append_right _ hmem

/-- The function itself has neither of the two names. -/
theorem name_ne : f.name ≠ x ∧ f.name ≠ y := by
  constructor <;>
  · intro heq
    have hnone := h.function?_eq_none (n := f.name) (by simp [heq])
    rw [h.function] at hnone
    cases hnone

theorem function?_eq_none' {n : Symbol} (hn : n = x ∨ n = y) : s'.function? n = none := by
  rw [h.others, h.function?_eq_none hn]
  rintro rfl
  obtain ⟨hnx, hny⟩ := h.name_ne
  exact hn.elim hnx hny

theorem not_mem_constructorNames {d : TypeDef} (hd : d ∈ s.types) {c : Symbol}
    (hc : c ∈ d.constructorNames) : ¬(c = x ∨ c = y) := by
  intro heq
  refine h.undeclared c heq ?_
  rw [declaredNames_eq]
  exact List.mem_append_left _ (List.mem_flatMap.mpr ⟨d, hd, constructorNames_subset d hc⟩)

theorem owner?_eq_none {c : Symbol} (hc : c = x ∨ c = y) : s.owner? c = none := by
  cases howner : s.owner? c with
  | none => rfl
  | some u =>
    obtain ⟨d, hd, -, hmem⟩ := h.registered.offers howner
    exact absurd hc (h.not_mem_constructorNames hd hmem)

theorem not_mem_owner? {c u : Symbol} (hc : s.owner? c = some u) : ¬(u = x ∨ u = y) := by
  intro hu
  obtain ⟨d, hd, rfl, -⟩ := h.registered.offers hc
  have hnone := h.type?_eq_none hu
  rw [h.keyed.type?_eq_some.mpr ⟨hd, rfl⟩] at hnone
  cases hnone

theorem refsOf_eq_nil {b : Entity} (hb : b.name = x ∨ b.name = y) : s'.refsOf b = [] := by
  cases b with
  | type n =>
    have hnone : s'.type? n = none := h.types.type?_eq ▸ h.type?_eq_none hb
    rw [refsOf, hnone]
  | function n | body n =>
    have hnone : s'.function? n = none := h.function?_eq_none' hb
    rw [refsOf, hnone]

/-! ### What is nearby. -/

/-- Under other names, a reference leads to what it led to, or else to one of the two names. -/
theorem entity?_reference {r : Reference} {b : Entity} (hb : r.entity? s.owner? = some b) :
    (b.name = x ∨ b.name = y)
      ∨ ((Renaming.exchange x y hx hy).reference r).entity? s.owner? = some b := by
  have hswap : ∀ n, (n = x ∨ n = y) ∨ (Renaming.exchange x y hx hy).name n = n :=
    fun n => (swap_cases n).imp And.left fun hn => hn.2.2
  cases r with
  | type n k =>
    cases hb
    refine (hswap n).imp_right fun hn => ?_
    rw [Renaming.reference, hn]
    rfl
  | ctor c =>
    obtain ⟨u, howner, rfl⟩ := Option.map_eq_some_iff.mp hb
    refine .inr ?_
    rcases hswap c with hc | hc
    · rw [h.owner?_eq_none hc] at howner
      cases howner
    · rw [Renaming.reference, hc]
      exact hb
  | callee n | var n =>
    cases hb
    refine (hswap n).imp_right fun hn => ?_
    rw [Renaming.reference, hn]
    rfl

/-- What a declaration of the first schema refers to, that of the second one does, under the same
name or under the other one. -/
theorem mem_refsOf {a : Entity} {r : Reference} (hr : r ∈ s.refsOf a) :
    r ∈ s'.refsOf a ∨ (Renaming.exchange x y hx hy).reference r ∈ s'.refsOf a := by
  have hrefs : ∀ {es : List Expr} {e : Expr}, e ∈ es → r ∈ e.refs →
      ∃ e' ∈ es.map (Renaming.exchange x y hx hy).expr,
        (Renaming.exchange x y hx hy).reference r ∈ e'.refs := by
    intro es e he hr
    refine ⟨_, List.mem_map_of_mem he, ?_⟩
    rw [Renaming.refs_expr]
    exact List.mem_map_of_mem hr
  cases a with
  | type n =>
    rw [mem_refsOf_type, ← h.types.type?_eq, ← mem_refsOf_type]
    exact .inl hr
  | function n =>
    by_cases hn : n = f.name
    · obtain ⟨g, hg, e, he, hr⟩ := mem_refsOf_function.mp hr
      rw [hn, h.function] at hg
      cases hg
      refine .inr (mem_refsOf_function.mpr ⟨f', hn ▸ h.function', ?_⟩)
      rw [← h.exchanged, Renaming.functionDef_signature, Renaming.exprs_functionType]
      exact hrefs he hr
    · rw [mem_refsOf_function, h.others n hn, ← mem_refsOf_function]
      exact .inl hr
  | body n =>
    by_cases hn : n = f.name
    · obtain ⟨g, hg, e, he, hr⟩ := mem_refsOf_body.mp hr
      rw [hn, h.function] at hg
      cases hg
      refine .inr (mem_refsOf_body.mpr ⟨f', hn ▸ h.function', ?_⟩)
      rw [← h.exchanged, Renaming.exprs_functionDef]
      exact hrefs he hr
    · rw [mem_refsOf_body, h.others n hn, ← mem_refsOf_body]
      exact .inl hr

/-- **What is nearby is closed under uses**, in both schemas. -/
theorem closed' : s'.ClosedUnderUses (Nearby x y s' f.name) := by
  intro a b ha hab
  rcases ha with ⟨c, hc, hca⟩ | hname
  · exact .inl ⟨c, hc, hca.tail hab⟩
  · obtain ⟨r, hr, -⟩ := hab
    rw [h.refsOf_eq_nil hname] at hr
    cases hr

theorem closed : s.ClosedUnderUses (Nearby x y s' f.name) := by
  intro a b ha hab
  obtain ⟨r, hr, hb⟩ := hab
  rcases h.mem_refsOf hr with hr' | hr'
  · exact h.closed' a b ha ⟨r, hr', h.types.owner?_eq ▸ hb⟩
  · refine (h.entity?_reference hb).elim .inr fun hb' => ?_
    exact h.closed' a b ha ⟨_, hr', h.types.owner?_eq ▸ hb'⟩

/-! ### What stays. -/

/-- What is around the function and the same in both schemas has neither of the two names. -/
theorem fixes {b : Entity} (hb : s'.Around f.name b) {names : List Symbol}
    (hs : s.symbolsOf b = names) (hs' : s'.symbolsOf b = names) (places : List Span) :
    (Renaming.exchange x y hx hy).Fixes names places := by
  refine Exchange.fixes places (Exchange.swap_of_not_mem ?_ ?_)
  · exact hs ▸ h.fresh b
  · exact hs' ▸ h.gone b hb

theorem typeDef_stays {n : Symbol} {d : TypeDef} (hd : s.type? n = some d)
    (hb : s'.Around f.name (.type n)) : (Renaming.exchange x y hx hy).typeDef d = d := by
  have hd' : s'.type? n = some d := h.types.type?_eq ▸ hd
  exact (h.fixes hb (symbolsOf_type hd) (symbolsOf_type hd') d.spans).typeDef

theorem bodiless_stays {n : Symbol} (hn : n ≠ f.name) {g : FunctionDef}
    (hg : s.function? n = some g) (hb : s'.Around f.name (.function n)) :
    (Renaming.exchange x y hx hy).functionDef g.bodiless = g.bodiless := by
  have hg' : s'.function? n = some g := (h.others n hn).trans hg
  exact (h.fixes hb (symbolsOf_function hg) (symbolsOf_function hg') g.bodiless.spans).functionDef

theorem functionDef_stays {n : Symbol} (hn : n ≠ f.name) {g : FunctionDef}
    (hg : s.function? n = some g) (hb : s'.Around f.name (.body n)) :
    (Renaming.exchange x y hx hy).functionDef g = g := by
  have hg' : s'.function? n = some g := (h.others n hn).trans hg
  exact (h.fixes hb (symbolsOf_body hg) (symbolsOf_body hg') g.spans).functionDef

section

variable [DecidablePred (Nearby x y s' f.name)]

theorem type?_kept (n : Symbol) :
    (s'.keeping (Nearby x y s' f.name)).type? ((Renaming.exchange x y hx hy).name n)
      = ((s.keeping (Nearby x y s' f.name)).type? n).map
          (Renaming.exchange x y hx hy).typeDef := by
  show (s'.keeping (Nearby x y s' f.name)).type? (Equiv.swap x y n) = _
  rcases swap_cases n with ⟨hn, hn'⟩ | ⟨hnx, hny, hn⟩
  · rw [type?_keeping, type?_keeping, ← h.types.type?_eq, h.type?_eq_none hn,
      h.type?_eq_none hn', ite_self, ite_self]
    rfl
  · rw [hn, type?_keeping, type?_keeping, ← h.types.type?_eq]
    split
    · next hnear =>
      have hb : s'.Around f.name (.type n) := hnear.resolve_right (not_or.mpr ⟨hnx, hny⟩)
      cases hd : s.type? n with
      | none => rfl
      | some d => rw [Option.map_some, h.typeDef_stays hd hb]
    · rfl

theorem function?_kept (n : Symbol) :
    (s'.keeping (Nearby x y s' f.name)).function? ((Renaming.exchange x y hx hy).name n)
      = ((s.keeping (Nearby x y s' f.name)).function? n).map
          (Renaming.exchange x y hx hy).functionDef := by
  show (s'.keeping (Nearby x y s' f.name)).function? (Equiv.swap x y n) = _
  rcases swap_cases n with ⟨hn, hn'⟩ | ⟨hnx, hny, hn⟩
  · rw [function?_keeping, function?_keeping, h.function?_eq_none hn, h.function?_eq_none' hn',
      Option.map_none, ite_self, ite_self]
    rfl
  · rw [hn, function?_keeping, function?_keeping]
    split
    · next hnear =>
      have hb : s'.Around f.name (.function n) := hnear.resolve_right (not_or.mpr ⟨hnx, hny⟩)
      by_cases hname : n = f.name
      · rw [hname, h.function, h.function', ← h.exchanged]
        rfl
      · rw [h.others n hname]
        cases hg : s.function? n with
        | none => rfl
        | some g => rw [Option.map_some, Option.map_some, h.bodiless_stays hname hg hb]
    · rfl

theorem owner?_kept (c : Symbol) :
    (s'.keeping (Nearby x y s' f.name)).owner? ((Renaming.exchange x y hx hy).name c)
      = ((s.keeping (Nearby x y s' f.name)).owner? c).map (Renaming.exchange x y hx hy).name := by
  show s'.owner? (Equiv.swap x y c) = (s.owner? c).map (Equiv.swap x y)
  rw [← h.types.owner?_eq]
  rcases swap_cases c with ⟨hc, hc'⟩ | ⟨-, -, hc⟩
  · rw [h.owner?_eq_none hc, h.owner?_eq_none hc']
    rfl
  · rw [hc]
    cases howner : s.owner? c with
    | none => rfl
    | some u =>
      obtain ⟨hux, huy⟩ := not_or.mp (h.not_mem_owner? howner)
      rw [Option.map_some, Equiv.swap_apply_of_ne_of_ne hux huy]

/-- **What is nearby in the one schema is, with the two names exchanged, what is nearby in the other
one.** -/
theorem relates : (Renaming.exchange x y hx hy).Relates
    ⟨s.keeping (Nearby x y s' f.name), Structural.oracle⟩
    ⟨s'.keeping (Nearby x y s' f.name), Structural.oracle⟩ :=
  .structural h.type?_kept h.function?_kept fun c =>
    Renaming.constructor?_of_owner? (h.owner?_kept c) h.type?_kept

end

/-- What holds of the functions of both schemas can be told one by one. -/
theorem forall_functions_iff {Q Q' : FunctionDef → Prop} (hf : Q f ↔ Q' f')
    (hothers : ∀ g ∈ s.functions, g.name ≠ f.name → (Q g ↔ Q' g)) :
    (∀ g ∈ s.functions, Q g) ↔ ∀ g ∈ s'.functions, Q' g := by
  have hmem : f ∈ s.functions := List.mem_of_find?_eq_some h.function
  have hmem' : f' ∈ s'.functions := List.mem_of_find?_eq_some h.function'
  have hsame : ∀ {g}, g.name ≠ f.name → (g ∈ s'.functions ↔ g ∈ s.functions) := by
    intro g hn
    have hiff : s'.function? g.name = some g ↔ s.function? g.name = some g := by
      rw [h.others _ hn]
    simpa [h.keyed.function?_eq_some, h.keyed'.function?_eq_some] using hiff
  constructor
  · intro hall g hg
    by_cases hn : g.name = f.name
    · obtain rfl : f' = g := Option.some.inj (h.function'.symm.trans
        (h.keyed'.function?_eq_some.mpr ⟨hg, hn⟩))
      exact hf.mp (hall f hmem)
    · exact (hothers g ((hsame hn).mp hg) hn).mp (hall g ((hsame hn).mp hg))
  · intro hall g hg
    by_cases hn : g.name = f.name
    · obtain rfl : f = g := Option.some.inj (h.function.symm.trans
        (h.keyed.function?_eq_some.mpr ⟨hg, hn⟩))
      exact hf.mpr (hall f' hmem')
    · exact (hothers g hg hn).mpr (hall g ((hsame hn).mpr hg))

/-! ### Checks. -/

/-- For what does not lead to the function both schemas declare the same. -/
theorem agreesOn_apart {a : Entity} (ha : ¬s'.Reaches a (.function f.name)) :
    s'.AgreesOn (s'.reached a) s := by
  constructor
  · intro n k _
    rw [h.types.type?_eq]
  · intro n _
    rw [h.types.constructor?_eq]
  · intro n hn
    have hreached : s'.Reaches a (.function n) := of_leading_function hn
    rw [h.others n]
    rintro rfl
    exact ha hreached

section

variable (hnames : s.nameFaults = []) (hnames' : s'.nameFaults = [])

include hnames hnames'

/-- **A type passes in both schemas or in none.** -/
theorem passes_type_iff {n : Symbol} {d : TypeDef} (hd : s.type? n = some d) :
    Check.Passes ⟨s, Structural.oracle⟩ (Typing.checkTypeDef d) ↔
      Check.Passes ⟨s', Structural.oracle⟩ (Typing.checkTypeDef d) := by
  classical
  have hd' : s'.type? n = some d := h.types.type?_eq ▸ hd
  by_cases ha : s'.Reaches (.type n) (.function f.name)
  · have hb : s'.Around f.name (.type n) := ⟨_, .inr ha, .refl⟩
    have hmatch := (Renaming.matches_checkTypeDef h.relates d).passes
    rw [h.typeDef_stays hd hb] at hmatch
    rwa [passes_checkTypeDef_iff _ hnames h.closed hd (.inl hb) (agreesOn_keeping hnames),
      passes_checkTypeDef_iff _ hnames' h.closed' hd' (.inl hb) (agreesOn_keeping hnames')]
      at hmatch
  · exact passes_checkTypeDef_iff _ hnames' closedUnderUses_reaches hd' .refl (h.agreesOn_apart ha)

/-- A function that is around the function passes if it passes in the other schema with the two
names exchanged. -/
theorem passes_exchanged_iff {n : Symbol} {g g' : FunctionDef} (hg : s.function? n = some g)
    (hg' : s'.function? n = some g') (hgg' : (Renaming.exchange x y hx hy).functionDef g = g')
    (hb : s'.Around f.name (.body n)) :
    Check.Passes ⟨s, Structural.oracle⟩ (Typing.checkFunctionDef g) ↔
      Check.Passes ⟨s', Structural.oracle⟩ (Typing.checkFunctionDef g') := by
  classical
  have hmatch := (Renaming.matches_checkFunctionDef h.relates g).passes
  rw [hgg'] at hmatch
  rwa [passes_checkFunctionDef_iff _ hnames h.closed hg (.inl hb) (agreesOn_keeping hnames),
    passes_checkFunctionDef_iff _ hnames' h.closed' hg' (.inl hb) (agreesOn_keeping hnames')]
    at hmatch

/-- **Any other function passes in both schemas or in none.** -/
theorem passes_function_iff {n : Symbol} (hn : n ≠ f.name) {g : FunctionDef}
    (hg : s.function? n = some g) :
    Check.Passes ⟨s, Structural.oracle⟩ (Typing.checkFunctionDef g) ↔
      Check.Passes ⟨s', Structural.oracle⟩ (Typing.checkFunctionDef g) := by
  have hg' : s'.function? n = some g := by rw [h.others n hn, hg]
  by_cases ha : s'.Reaches (.body n) (.function f.name)
  · have hb : s'.Around f.name (.body n) := ⟨_, .inr ha, .refl⟩
    exact h.passes_exchanged_iff hnames hnames' hg hg' (h.functionDef_stays hn hg hb) hb
  · exact passes_checkFunctionDef_iff _ hnames' closedUnderUses_reaches hg' .refl
      (h.agreesOn_apart ha)

/-- **Either all declarations pass in both schemas or some fail in each.** -/
theorem eachPasses_iff : s.EachPasses ↔ s'.EachPasses := by
  have hself : s'.Around f.name (.body f.name) := ⟨_, .inl rfl, .refl⟩
  unfold EachPasses
  refine and_congr ?_ (h.forall_functions_iff ?_ fun g hg hn => ?_)
  · rw [← h.types.types]
    refine forall₂_congr fun d hd => h.passes_type_iff hnames hnames' (n := d.name) ?_
    exact h.keyed.type?_eq_some.mpr ⟨hd, rfl⟩
  · exact h.passes_exchanged_iff hnames hnames' h.function h.function' h.exchanged hself
  · exact h.passes_function_iff hnames hnames' hn (h.keyed.function?_eq_some.mpr ⟨hg, rfl⟩)

end

/-! ### Name faults. -/

theorem declaredNames_perm : s.declaredNames.Perm s'.declaredNames := by
  have hfunctions : s.functionNames.Perm s'.functionNames := by
    refine (List.perm_ext_iff_of_nodup h.keyed.functions h.keyed'.functions).mpr fun n => ?_
    rw [← isSome_function?, ← isSome_function?]
    by_cases hn : n = f.name
    · rw [hn, h.function, h.function']
      exact iff_of_true rfl rfl
    · rw [h.others n hn]
  rw [declaredNames_eq, declaredNames_eq, ← h.types.types]
  exact hfunctions.append_left _

theorem globals_eq : s'.globals = s.globals := by
  funext n
  show (s'.declaredNames.contains n || Symbol.builtins.contains n)
    = (s.declaredNames.contains n || Symbol.builtins.contains n)
  rw [h.declaredNames_perm.contains_eq]

/-- The names that are declared everywhere stay. -/
theorem sameDeclared : (Renaming.exchange x y hx hy).SameDeclared s.globals s.globals := by
  intro n
  show (s.declaredNames.contains (Equiv.swap x y n)
      || Symbol.builtins.contains ((Renaming.exchange x y hx hy).name n))
    = (s.declaredNames.contains n || Symbol.builtins.contains n)
  rw [Renaming.contains_builtins]
  rcases swap_cases n with ⟨hn, hn'⟩ | ⟨-, -, hn⟩
  · have hout := h.undeclared n hn
    have hout' := h.undeclared _ hn'
    rw [← List.contains_iff_mem, Bool.not_eq_true] at hout hout'
    rw [hout, hout']
  · rw [hn]

/-- No constructor has one of the two names. -/
theorem hasField_of_name {c n : Symbol} (hc : c = x ∨ c = y) : s.hasField c n = false := by
  rw [← Bool.not_eq_true]
  intro hfield
  obtain ⟨d, hd, hctor, -⟩ := exists_of_hasField hfield
  exact h.not_mem_constructorNames hd hctor hc

/-- The constructors in the function have none of the two names as a field. -/
theorem hasField_eq_false (hunshared : s.Unshared) {e : Expr} (he : e ∈ f'.exprs) {c n : Symbol}
    (hc : .ctor c ∈ e.refs) (hn : n = x ∨ n = y) : s.hasField c n = false := by
  rw [← Bool.not_eq_true]
  intro hfield
  obtain ⟨d, hd, hctor, hmem⟩ := exists_of_hasField hfield
  have hfind : s.type? d.name = some d := h.keyed.type?_eq_some.mpr ⟨hd, rfl⟩
  rcases hn with rfl | rfl
  · -- the type of the constructor is around the function
    have howner : s'.owner? c = some d.name := by
      rw [← h.types.owner?_eq, h.registered.owner?_eq_some hunshared]
      exact ⟨d, hd, rfl, hctor⟩
    have huses : s'.Uses (.body f.name) (.type d.name) := by
      refine ⟨.ctor c, mem_refsOf_body.mpr ⟨f', h.function', e, he, hc⟩, ?_⟩
      rw [Reference.entity?, howner]
      rfl
    refine h.gone (.type d.name) ⟨_, .inl rfl, .single huses⟩ ?_
    rwa [symbolsOf_type (h.types.type?_eq ▸ hfind)]
  · refine h.fresh (.type d.name) ?_
    rwa [symbolsOf_type hfind]

/-- The name faults of the function are there under both names or under none. -/
theorem faults_iff (hunshared : s.Unshared) :
    f'.faults s.hasField s.globals = [] ↔ f.faults s.hasField s.globals = [] := by
  let known : Symbol → Symbol → Bool := fun c n =>
    s.hasField ((Equiv.swap x y).symm c) ((Equiv.swap x y).symm n)
  have hknown : (Renaming.exchange x y hx hy).SameFields s.hasField known := by
    intro c n
    show s.hasField ((Equiv.swap x y).symm (Equiv.swap x y c))
      ((Equiv.swap x y).symm (Equiv.swap x y n)) = _
    rw [Equiv.symm_apply_apply, Equiv.symm_apply_apply]
  have halike := (Renaming.faults_functionDef hknown h.sameDeclared f).eq_nil
  rw [h.exchanged] at halike
  rw [← halike]
  -- the constructors in the function are not renamed, and none of their fields is
  have hsame : ∀ e ∈ f'.exprs, ∀ c, .ctor c ∈ e.refs → s.hasField c = known c := by
    intro e he c hc
    funext n
    show s.hasField c n = s.hasField ((Equiv.swap x y).symm c) ((Equiv.swap x y).symm n)
    rw [Equiv.symm_swap]
    rcases swap_cases c with ⟨hcx, hcy⟩ | ⟨-, -, hcx⟩
    · rw [h.hasField_of_name hcx, h.hasField_of_name hcy]
    · rw [hcx]
      rcases swap_cases n with ⟨hn, hn'⟩ | ⟨-, -, hn⟩
      · rw [h.hasField_eq_false hunshared he hc hn, h.hasField_eq_false hunshared he hc hn']
      · rw [hn]
  rw [f'.faults_congr s.globals hsame]

/-- **Either both schemas have name faults or none has.** -/
theorem nameFaults_iff (hr : s.refused = []) (hr' : s'.refused = []) :
    s'.nameFaults = [] ↔ s.nameFaults = [] := by
  have hnames : (s'.declaredNames.Nodup ∧ ∀ n ∈ s'.declaredNames,
      Symbol.builtins.contains n = false) ↔
        s.declaredNames.Nodup ∧ ∀ n ∈ s.declaredNames, Symbol.builtins.contains n = false := by
    rw [h.declaredNames_perm.nodup_iff]
    simp only [h.declaredNames_perm.mem_iff]
  rw [nameFaults_eq_nil, nameFaults_eq_nil, hnames, hr, hr', h.globals_eq, ← h.types.hasField_eq,
    ← h.types.types]
  refine and_congr_right fun hclean => and_congr_right fun _ => and_congr_right fun _ => ?_
  rw [List.flatMap_eq_nil_iff, List.flatMap_eq_nil_iff]
  refine (h.forall_functions_iff ?_ fun g _ _ => Iff.rfl).symm
  exact (h.faults_iff (unshared_of_nodup hclean.1)).symm

end Exchanged

end Schema

end DepSchema
