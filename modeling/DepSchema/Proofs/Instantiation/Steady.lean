/-
DepSchema.Proofs.Instantiation.Steady — what passes has the sort of its type.

A check compares types with their parameters, and so what passes against a type has also the sort of
that type. This holds of the steady expressions, in which a check looks at every part and in which
no sort depends on a parameter: operators keep the sort of their operands, constructors belong to
their type whatever its parameters are, and functions take values and give no message.

Main definitions: `Expr.steady` and `Checking.Sorted`. Main results: `sorts_of_steady` and
`hasSort_of_requireFormed`.
-/
import DepSchema.Proofs.Instantiation.Checked
import DepSchema.Proofs.Instantiation.Sameness
import DepSchema.Proofs.Queries.Declared
import DepSchema.Proofs.Registration
import DepSchema.Proofs.Typing.Formed

namespace DepSchema

/-! ## §1. Steady expressions. -/

/-- The constructors of the type do not depend on its parameters. -/
def TypeDef.isFixed : TypeDef → Bool
  | .message _ => true
  | .enum e => e.deps.isEmpty

/-- The parameter is a value, not a function. -/
def Parameter.isValue (p : Parameter) : Bool :=
  match p.val with
  | .value _ => true
  | .function _ _ => false

namespace Schema

/-- The constructor belongs to its type whatever the parameters of the type are. -/
def isFixed (s : Schema) (ctor : Symbol) : Bool :=
  match s.constructor? ctor with
  | some (owner, _) => owner.isFixed
  | none => false

/-- The function takes values, and it does not give a message. -/
def isSteady (s : Schema) (function : Symbol) : Bool :=
  match s.function? function with
  | none => false
  | some f => f.params.all Parameter.isValue && match s.type? f.result.name with
    | some (.message _) => false
    | _ => true

end Schema

namespace Expr

mutual

/-- Every part of the expression is checked and has a sort that depends on no parameter. -/
def steady (s : Schema) : Expr → Bool
  | .scalar _ _ | .access _ => true
  | .binary _ op l r => op.keepsSort && (steady s l && steady s r)
  | .unary _ _ x => steady s x
  | .type _ _ ps => steadyAll s ps
  | .constructed _ c fs => s.isFixed c.name && steadyFields s fs
  | .collection _ es => steadyAll s es
  | .call _ f as => s.isSteady f.name && steadyAll s as
termination_by structural e => e

/-- All of these are steady. -/
def steadyAll (s : Schema) : List Expr → Bool
  | [] => true
  | e :: es => steady s e && steadyAll s es
termination_by structural es => es

/-- The values of all these are steady. -/
def steadyFields (s : Schema) : List (Named Expr) → Bool
  | [] => true
  | f :: fs => steady s f.val && steadyFields s fs
termination_by structural fs => fs

end

variable {s : Schema}

theorem steadyAll_iff {es : List Expr} : steadyAll s es = true ↔ ∀ e ∈ es, e.steady s = true := by
  induction es with
  | nil => simp [steadyAll]
  | cons e es ih => simp [steadyAll, ih]

theorem steadyFields_iff {fs : List (Named Expr)} :
    steadyFields s fs = true ↔ ∀ f ∈ fs, f.val.steady s = true := by
  induction fs with
  | nil => simp [steadyFields]
  | cons f fs ih => simp [steadyFields, ih]

end Expr

theorem Variable.exists_map_toParameter {params : List Parameter}
    (h : ∀ p ∈ params, p.isValue = true) : ∃ vars, params = List.map toParameter vars := by
  induction params with
  | nil => exact ⟨[], rfl⟩
  | cons p params ih =>
    rw [List.forall_mem_cons] at h
    obtain ⟨vars, rfl⟩ := ih h.2
    obtain ⟨name, type⟩ := p
    cases type with
    | value type => exact ⟨⟨name, type⟩ :: vars, rfl⟩
    | function ps result => cases h.1

theorem Schema.exists_of_isSteady {s : Schema} {n : Symbol} (h : s.isSteady n = true) :
    ∃ f vars, s.function? n = some f ∧ f.params = List.map Variable.toParameter vars
      ∧ ¬s.IsMessage f.result.name := by
  unfold isSteady at h
  cases hf : s.function? n with
  | none =>
    rw [hf] at h
    cases h
  | some f =>
    rw [hf] at h
    obtain ⟨hvalues, hresult⟩ := Bool.and_eq_true_iff.mp h
    obtain ⟨vars, hvars⟩ := Variable.exists_map_toParameter (List.all_eq_true.mp hvalues)
    refine ⟨f, vars, rfl, hvars, ?_⟩
    rintro ⟨m, hm⟩
    rw [hm] at hresult
    cases hresult

/-! ## §2. Sorts of types. -/

/-- Only a type is equal to one, and then their parameters are equal. -/
theorem Expr.exists_of_equal_type {span : Span} {i : Ident} {ps : List Expr} {y : Expr}
    (h : Structural.equal (.type span i ps) y = true) :
    ∃ span' i' qs, y = .type span' i' qs ∧ i.name = i'.name
      ∧ List.Forall₂ (fun p q => Structural.equal p q = true) ps qs := by
  have htype := type?_isSome_of_equal h
  cases y with
  | type span' i' qs =>
    obtain ⟨⟨hname, -⟩, hparams⟩ := equal_type_iff.mp h
    rw [allSameAs_iff_forall₂, foldAll_eq_map, foldAll_eq_map, List.forall₂_map_left_iff,
      List.forall₂_map_right_iff] at hparams
    exact ⟨span', i', qs, rfl, hname, hparams⟩
  | _ => cases htype

theorem Expr.sort?_eq_none {e : Expr} (h : ¬e.type?.isSome = true) : e.sort? = none := by
  cases e with
  | type => exact absurd rfl h
  | _ => rfl

/-- **Equal types have the same sort.** -/
theorem Expr.sort?_eq_of_equal (x : Expr) : ∀ {y : Expr}, Structural.equal x y = true →
    x.sort? = y.sort? := by
  induction x using Expr.induct with
  | type span i ps ih =>
    intro y h
    obtain ⟨span', i', qs, rfl, hname, hparams⟩ := exists_of_equal_type h
    have helement : elementSort? ps = elementSort? qs := by
      cases hparams with
      | nil => rfl
      | cons hp _ => exact ih _ List.mem_cons_self hp
    unfold sort?
    rw [hname, helement]
  | _ =>
    intro y h
    rw [sort?_eq_none (by simp [type?])]
    exact (sort?_eq_none (by rw [← type?_isSome_of_equal h]; simp [type?])).symm

/-- **A type keeps its sort under every substitution.** -/
theorem Expr.sort?_of_apply {σ : Substitution} (e : Expr) : ∀ {e' : Expr} {κ : ValueSort},
    e.sort? = some κ → σ.apply e = .ok e' → e'.sort? = some κ := by
  induction e using Expr.induct with
  | type span i ps ih =>
    intro e' κ h happly
    obtain ⟨ps', hps, rfl⟩ := Substitution.of_apply_type happly
    have helement : ∀ κ, elementSort? ps = some κ → elementSort? ps' = some κ := by
      intro κ hκ
      cases ps with
      | nil => cases hκ
      | cons p ps =>
        obtain ⟨p', ps', hp, -, rfl⟩ := Substitution.of_applyAll_cons hps
        exact ih p List.mem_cons_self hκ hp
    by_cases hscalar : i.name.isScalar = true
    · unfold sort? at h ⊢
      rcases Symbol.isScalar_iff.mp hscalar with hi | hi | hi | hi | hi <;> rw [hi] at h ⊢ <;>
        exact h
    · rw [sort?_of_not_scalar hscalar] at h ⊢
      by_cases harray : i.name = .array
      · rw [if_pos harray] at h ⊢
        obtain ⟨κ', hκ', rfl⟩ := Option.map_eq_some_iff.mp h
        rw [helement κ' hκ', Option.map_some]
      · rw [if_neg harray] at h ⊢
        by_cases hset : i.name = .set
        · rw [if_pos hset] at h ⊢
          obtain ⟨κ', hκ', rfl⟩ := Option.map_eq_some_iff.mp h
          rw [helement κ' hκ', Option.map_some]
        · rwa [if_neg hset] at h ⊢
  | _ =>
    intro e' κ h
    cases h

theorem TypeExpr.sort?_of_applyType {σ : Substitution} {t t' : TypeExpr} {κ : ValueSort}
    (h : t.sort? = some κ) (happly : σ.applyType t = .ok t') : t'.sort? = some κ :=
  Expr.sort?_of_apply t.toExpr h (Substitution.applyType_eq_ok_iff.mp happly)

theorem TypeExpr.sort?_of_declared {t : TypeExpr} (h : t.name ∉ Symbol.builtins) :
    t.sort? = some (.named t.name) := by
  obtain ⟨hscalar, harray, hset⟩ := Symbol.of_not_mem_builtins (n := t.ident.name) h
  show (Expr.type t.span t.ident t.params).sort? = _
  rw [Expr.sort?_of_not_scalar hscalar, if_neg harray, if_neg hset]
  rfl

theorem TypeExpr.IsArrayOf.sort?_eq {t element : TypeExpr} {length : Expr}
    (h : t.IsArrayOf element length) : t.sort? = element.sort?.map .array := by
  obtain ⟨span, i, ps⟩ := t
  obtain ⟨hname, helement, -⟩ := h
  cases ps with
  | nil => cases helement
  | cons p ps =>
    cases helement
    have hname : i.name = .array := hname
    show (Expr.type span i (element.toExpr :: ps)).sort? = _
    rw [Expr.sort?_of_not_scalar (by rw [hname]; decide), if_pos hname, Expr.elementSort?_cons]
    rfl

theorem TypeExpr.IsSetOf.sort?_eq {t element : TypeExpr} (h : t.IsSetOf element) :
    t.sort? = element.sort?.map .set := by
  obtain ⟨span, i, ps⟩ := t
  obtain ⟨hname, helement⟩ := h
  cases ps with
  | nil => cases helement
  | cons p ps =>
    cases helement
    have hname : i.name = .set := hname
    show (Expr.type span i (element.toExpr :: ps)).sort? = _
    rw [Expr.sort?_of_not_scalar (by rw [hname]; decide), if_neg (by rw [hname]; decide),
      if_pos hname, Expr.elementSort?_cons]
    rfl

/-! ## §3. What is checked in a scope. -/

theorem Variable.mem_exprsAll {vars : List Variable} {v : Variable} (hv : v ∈ vars) :
    v.type.toExpr ∈ ParameterType.exprsAll (vars.map Variable.toParameter) := by
  induction vars with
  | nil => cases hv
  | cons w vars ih =>
    rw [List.map_cons, ParameterType.exprsAll, List.mem_append]
    rcases List.mem_cons.mp hv with rfl | hv
    · exact .inl (List.mem_singleton_self _)
    · exact .inr (ih hv)

/-- Where no name occurs twice, a variable is found under its name. -/
theorem Variable.find?_of_mem {vars : List Variable} (h : (names vars).Nodup) {v : Variable}
    (hv : v ∈ vars) : find? vars v.name.name = some v := by
  have hkeys : (vars.map fun v : Variable => v.name.name).Nodup := h
  exact find?_of_nodup hkeys hv

/-- What the checks of the names and of the types of a schema leave. -/
structure Schema.Proper (s : Schema) : Prop where
  builtin : ∀ n ∈ Symbol.builtins, s.type? n = none
  tidy : s.Tidy
  formed : s.Formed

namespace Schema.Proper

variable {s : Schema} (hs : s.Proper)

include hs

theorem sort?_of_dep {n : Symbol} {deps : List Variable} (h : s.deps? n = some deps) :
    ∀ v ∈ deps, v.type.sort?.isSome = true := by
  obtain ⟨d, hd, rfl⟩ := Option.map_eq_some_iff.mp h
  exact fun v hv => (hs.formed.deps d (mem_of_type? hd) v hv).sort?_isSome

theorem sort?_of_field {n : Symbol} {owner : TypeDef} {ctor : Constructor}
    (h : s.constructor? n = some (owner, ctor)) :
    ∀ v ∈ ctor.fields, v.type.sort?.isSome = true := by
  obtain ⟨hmem, hctor, -⟩ := of_constructor? h
  exact fun v hv => (hs.formed.fields owner hmem ctor hctor v hv).sort?_isSome

theorem sort?_of_function {f : FunctionDef} (h : f ∈ s.functions) {vars : List Variable}
    (hparams : f.params = vars.map Variable.toParameter) :
    (∀ v ∈ vars, v.type.sort?.isSome = true) ∧ f.result.sort?.isSome = true := by
  have hformed := hs.formed.signatures f h
  unfold FunctionType.exprs FunctionDef.signature at hformed
  rw [hparams] at hformed
  constructor
  · exact fun v hv => (hformed _ (List.mem_append_left _ (Variable.mem_exprsAll hv))).sort?_isSome
  · exact (hformed _ (List.mem_append_right _ (List.mem_singleton_self _))).sort?_isSome

end Schema.Proper

/-- The sorts of the values in scope. -/
def Checking.sorts (s : Checking) : Sorts := fun n =>
  match s.scopes.find? n with
  | some (.value type) => type.sort?
  | _ => none

theorem Checking.sorts_eq_some {s : Checking} {n : Symbol} {κ : ValueSort} : s.sorts n = some κ
    ↔ ∃ type, s.scopes.find? n = some (.value type) ∧ type.sort? = some κ := by
  unfold sorts
  cases s.scopes.find? n with
  | none => simp
  | some b => cases b <;> simp

/-- The values in scope have sorts, and no name of a function of the schema stands for another one.
-/
structure Checking.Sorted (c : Setting) (s : Checking) : Prop where
  outer : s.Outer
  values : ∀ n type, s.scopes.find? n = some (.value type) → type.sort?.isSome = true
  functions : ∀ n ft, s.scopes.find? n = some (.function ft) → c.schema.function? n = none

/-- **Fields lead to a value of the sort that they lead to.** -/
theorem Schema.Path.sort?_eq {s : Schema} (hs : s.Proper) {base : Access} {type t : TypeExpr}
    {fields : List Ident} (h : s.Path base type fields t) : ∀ {κ : ValueSort},
      type.sort? = some κ → ∃ κ', t.sort? = some κ' ∧ s.sortAlong? κ fields = some κ' := by
  induction h with
  | here => exact fun hκ => ⟨_, hκ, rfl⟩
  | @field base type type' t f fs hfield _ ih =>
    intro κ hκ
    obtain ⟨m, declared, hm, hdeclared, happly⟩ := hfield
    have hmem := List.mem_of_find?_eq_some hdeclared
    have hformed := hs.formed.fields _ (mem_of_type? hm) _ (List.mem_singleton_self _) declared hmem
    obtain ⟨κ₁, hκ₁⟩ := Option.isSome_iff_exists.mp hformed.sort?_isSome
    obtain ⟨κ', hκ', hrest⟩ := ih (TypeExpr.sort?_of_applyType hκ₁ happly)
    refine ⟨κ', hκ', sortAlong?_cons_eq_some.mpr ⟨κ₁, ?_, hrest⟩⟩
    exact fieldSort?_eq_some_iff.mpr ⟨m, declared, TypeExpr.name_of_sort? hκ ▸ hm, hdeclared, hκ₁⟩

/-! ## §4. Values. -/

namespace Typing

variable {c : Setting} {s : Checking}

/-- An access that stands for a value has the sort of the type of the value. -/
theorem hasSort_of_accessType (hs : c.schema.Proper) (hsort : s.Sorted c) {a : Access}
    {type : TypeExpr} (h : (accessType a c s).1 = .ok (.value type)) {κ : ValueSort}
    (hκ : type.sort? = some κ) : (Expr.access a).HasSort c.schema s.sorts (.value κ) := by
  obtain ⟨origin, hfind, hpath⟩ := exists_path_of_accessType h
  obtain ⟨κ₀, hκ₀⟩ := Option.isSome_iff_exists.mp (hsort.values _ _ hfind)
  obtain ⟨κ', hκ', halong⟩ := hpath.sort?_eq hs hκ₀
  rw [hκ] at hκ'
  cases hκ'
  exact .access (Checking.sorts_eq_some.mpr ⟨origin, hfind, hκ₀⟩) halong

/-- Against every type that the expression passes, it has the sort of the type. -/
def SortsValue (c : Setting) (s : Checking) (e : Expr) : Prop :=
  ∀ type κ, (checkValue e type c s).1 = .ok () → type.sort? = some κ →
    e.HasSort c.schema s.sorts (.value κ)

/-- With every type of elements with which the expression has a length, it has the sort of arrays
of such elements. -/
def SortsArray (c : Setting) (s : Checking) (e : Expr) : Prop :=
  ∀ element length κ, (lengthOf e element c s).1 = .ok length → element.sort? = some κ →
    e.HasSort c.schema s.sorts (.value (.array κ))

/-- What is supplied for variables has the sorts of their types. -/
theorem forall₂_of_checkParams (hc : c.oracle = Structural.oracle) (hs : s.Outer)
    {vars : List Variable} : ∀ {ps : List Expr} {σ : Substitution},
      (∀ p ∈ ps, SortsValue c s p) → (∀ v ∈ vars, v.type.sort?.isSome = true) →
        ps.length = vars.length → (checkParams σ vars ps c s).1 = .ok () →
          List.Forall₂ (fun v p => ∃ κ, v.type.sort? = some κ
            ∧ p.HasSort c.schema s.sorts (.value κ)) vars ps := by
  induction vars with
  | nil =>
    intro ps σ _ _ hlength _
    obtain rfl := List.length_eq_zero_iff.mp hlength
    exact .nil
  | cons v vars ih =>
    intro ps σ hps hvars hlength h
    cases ps with
    | nil => cases hlength
    | cons p ps =>
      rw [List.forall_mem_cons] at hps hvars
      obtain ⟨type, happly, hvalue, hrest⟩ := (checkParams_cons_iff hc hs).mp h
      obtain ⟨κ, hκ⟩ := Option.isSome_iff_exists.mp hvars.1
      refine .cons ⟨κ, hκ, ?_⟩ (ih hps.2 hvars.2 (by simpa using hlength) hrest)
      exact hps.1 type κ hvalue (TypeExpr.sort?_of_applyType hκ happly)

theorem exists_kinds {Γ : Sorts} {vars : List Variable} {ps : List Expr}
    (h : List.Forall₂ (fun v p => ∃ κ, v.type.sort? = some κ
      ∧ p.HasSort c.schema Γ (.value κ)) vars ps) :
    ∃ ks, Variable.kinds? vars = some ks ∧ List.Forall₂ (Expr.HasSort c.schema Γ) ps ks := by
  induction h with
  | nil => exact ⟨[], rfl, .nil⟩
  | cons hp _ ih =>
    obtain ⟨κ, hκ, hp⟩ := hp
    obtain ⟨ks, hks, hps⟩ := ih
    exact ⟨_, Variable.kinds?_cons_eq_some.mpr ⟨κ, ks, hκ, hks, rfl⟩, .cons hp hps⟩

/-- The fields of a constructed value have the sorts that are declared for them. -/
theorem hasSort_constructed {span : Span} {ctor : Ident} {inits : List (Named Expr)}
    {owner : TypeDef} {declared : Constructor} (hs : c.schema.Proper)
    (hfound : c.schema.constructor? ctor.name = some (owner, declared))
    (hlength : inits.length = declared.fields.length)
    (hall : ∀ v ∈ declared.fields, ∃ value, Named.find? inits v.name.name = some value
      ∧ ∃ κ, v.type.sort? = some κ ∧ value.HasSort c.schema s.sorts (.value κ)) :
    (Expr.constructed span ctor inits).HasSort c.schema s.sorts (.value (.named owner.name)) := by
  obtain ⟨hmem, hctor, -⟩ := Schema.of_constructor? hfound
  have hdistinct := hs.tidy.fields owner hmem declared hctor
  have hsupplied : ∀ v ∈ declared.fields, (Named.find? inits v.name.name).isSome = true := by
    intro v hv
    obtain ⟨value, hvalue, -⟩ := hall v hv
    rw [hvalue]
    rfl
  have hnodup := (names_perm_of_supplied hdistinct hlength hsupplied).nodup_iff.mp hdistinct
  have hsorts : ∀ f ∈ inits, ∃ κ, declared.fieldSort? f.name.name = some κ
      ∧ f.val.HasSort c.schema s.sorts (.value κ) := by
    intro f hf
    obtain ⟨v, hv, hname, κ, hκ, hvalue⟩ := exists_field hdistinct hlength hall f hf
    refine ⟨κ, ?_, hvalue⟩
    unfold Constructor.fieldSort?
    have hfind : Variable.find? declared.fields f.name.name = some v := by
      rw [← hname]
      exact Variable.find?_of_mem hdistinct hv
    rw [hfind]
    exact hκ
  refine .constructed hfound hnodup hsupplied (fun f hf => ?_) fun f hf κ hκ => ?_
  · obtain ⟨κ, hκ, -⟩ := hsorts f hf
    rw [hκ]
    rfl
  · obtain ⟨κ', hκ', hvalue⟩ := hsorts f hf
    rw [hκ] at hκ'
    cases hκ'
    exact hvalue

/-- What a call gives has the sort of the result of the function. -/
theorem hasSort_call (hc : c.oracle = Structural.oracle) (hs : c.schema.Proper)
    (hsort : s.Sorted c) {span : Span} {callee : Ident} {as : List Expr}
    (hplain : c.schema.isSteady callee.name = true) (has : ∀ a ∈ as, SortsValue c s a)
    {type : TypeExpr}
    (h : (callType span callee as.length (checkArguments as .empty) c s).1 = .ok (.value type))
    {κ : ValueSort} (hκ : type.sort? = some κ) :
    (Expr.call span callee as).HasSort c.schema s.sorts (.value κ) := by
  obtain ⟨f, vars, hf, hparams, hmessage⟩ := Schema.exists_of_isSteady hplain
  have hhidden : ∀ ft, s.scopes.find? callee.name ≠ some (.function ft) := by
    intro ft hft
    rw [hsort.functions _ ft hft] at hf
    cases hf
  obtain ⟨-, hlength, hchecked, happly⟩ :=
    (callType_ok_iff hf hhidden hc hsort.outer hparams).mp h
  obtain ⟨hvars, hresult⟩ := hs.sort?_of_function (List.mem_of_find?_eq_some hf) hparams
  obtain ⟨ks, hks, hall⟩ :=
    exists_kinds (forall₂_of_checkParams hc hsort.outer has hvars hlength hchecked)
  obtain ⟨κ', hκ'⟩ := Option.isSome_iff_exists.mp hresult
  have hsame := TypeExpr.sort?_of_applyType hκ' happly
  rw [hκ] at hsame
  cases hsame
  exact .call hf hparams hks hκ' hmessage hall

/-- **A steady expression has the sort of every type that it passes against.** -/
theorem sorts_of_steady (hc : c.oracle = Structural.oracle) (hs : c.schema.Proper)
    (hsort : s.Sorted c) (e : Expr) (hsteady : e.steady c.schema = true) :
    SortsValue c s e ∧ SortsArray c s e := by
  induction e using Expr.induct with
  | scalar span v =>
    refine ⟨fun type κ h hκ => ?_, fun _ _ _ h => by cases h⟩
    obtain ⟨htype, -⟩ := checkValue_scalar_iff.mp h
    exact .scalar (htype.trans (TypeExpr.name_of_sort? hκ).symm)
  | access a =>
    refine ⟨fun type κ h hκ => ?_, fun element length κ h hκ => ?_⟩
    · obtain ⟨actual, haccess, hequal⟩ := (checkValue_access_iff hc hsort.outer).mp h
      have hsame : type.sort? = actual.sort? := Expr.sort?_eq_of_equal _ hequal
      exact hasSort_of_accessType hs hsort haccess (hsame ▸ hκ)
    · obtain ⟨type, actual, haccess, harray, hequal⟩ :=
        (lengthOf_access_iff hc hsort.outer).mp h
      have hsame : element.sort? = actual.sort? := Expr.sort?_eq_of_equal _ hequal
      refine hasSort_of_accessType hs hsort haccess ?_
      rw [harray.sort?_eq, ← hsame, hκ]
      rfl
  | binary span op l r ihl ihr =>
    simp only [Expr.steady, Bool.and_eq_true] at hsteady
    obtain ⟨hkeeps, hl, hr⟩ := hsteady
    refine ⟨fun type κ h hκ => ?_, fun element length κ h hκ => ?_⟩
    · by_cases hunion : op = .union ∧ type.name = .array
      · obtain ⟨rfl, hname⟩ := hunion
        obtain ⟨element, length, left, right, harray, hleft, hright, -⟩ :=
          (checkValue_union_iff hc hsort.outer hname).mp h
        rw [harray.sort?_eq] at hκ
        obtain ⟨κ', hκ', rfl⟩ := Option.map_eq_some_iff.mp hκ
        exact .binary hkeeps (by simp [ValueSort.name, BinaryOp.operandTypes])
          ((ihl hl).2 element left κ' hleft hκ') ((ihr hr).2 element right κ' hright hκ')
      · have hmem : op ≠ .mem := by
          rintro rfl
          cases hkeeps
        obtain ⟨hname, hleft, hright⟩ :=
          (checkValue_binary_iff hc hsort.outer hmem hunion).mp h
        exact .binary hkeeps (TypeExpr.name_of_sort? hκ ▸ hname) ((ihl hl).1 type κ hleft hκ)
          ((ihr hr).1 type κ hright hκ)
    · obtain ⟨rfl, left, right, hleft, hright, -⟩ := (lengthOf_binary_iff hc hsort.outer).mp h
      exact .binary hkeeps (by simp [ValueSort.name, BinaryOp.operandTypes])
        ((ihl hl).2 element left κ hleft hκ) ((ihr hr).2 element right κ hright hκ)
  | unary span op x ih =>
    refine ⟨fun type κ h hκ => ?_, fun _ _ _ h => by cases h⟩
    obtain ⟨hname, hx⟩ := checkValue_unary_iff.mp h
    exact .unary (TypeExpr.name_of_sort? hκ ▸ hname) ((ih hsteady).1 type κ hx hκ)
  | type span i ps ih =>
    refine ⟨fun _ _ h => ?_, fun _ _ _ h => ?_⟩ <;> cases h
  | constructed span ctor inits ih =>
    simp only [Expr.steady, Bool.and_eq_true] at hsteady
    have hvalues := Expr.steadyFields_iff.mp hsteady.2
    refine ⟨fun type κ h hκ => ?_, fun _ _ _ h => by cases h⟩
    obtain ⟨owner, declared, σ, values, hfound, hname, -, -, hlength, hsupplied, hchecked⟩ :=
      (checkValue_constructed_iff hc hsort.outer).mp h
    have hsorts : ∀ value ∈ values, SortsValue c s value := by
      intro value hvalue
      obtain ⟨v, -, hfind⟩ := forall₂_mem_left hsupplied.flip hvalue
      obtain ⟨f, hf, -, rfl⟩ := Named.exists_of_find? hfind
      exact (ih f hf (hvalues f hf)).1
    have hall := forall₂_of_checkParams hc hsort.outer hsorts (hs.sort?_of_field hfound)
      hsupplied.length_eq.symm hchecked
    have hboth := hsupplied.mp (fun _ _ hfind hsorted => And.intro hfind hsorted) hall
    have hdeclared : type.name ∉ Symbol.builtins := fun hmem => by
      have htype := Schema.type?_of_constructor? hfound
      rw [hname, hs.builtin _ hmem] at htype
      cases htype
    rw [TypeExpr.sort?_of_declared hdeclared, ← hname] at hκ
    cases hκ
    refine hasSort_constructed hs hfound hlength fun v hv => ?_
    obtain ⟨value, -, hvalue⟩ := forall₂_mem_left hboth hv
    exact ⟨value, hvalue⟩
  | collection span es ih =>
    have helements := Expr.steadyAll_iff.mp hsteady
    refine ⟨fun type κ h hκ => ?_, fun element length κ h hκ => ?_⟩
    · rcases (checkValue_collection_iff hc hsort.outer).mp h with
        ⟨element, hset, hall⟩ | ⟨element, length, harray, hall, -⟩
      · rw [hset.sort?_eq] at hκ
        obtain ⟨κ', hκ', rfl⟩ := Option.map_eq_some_iff.mp hκ
        exact .set fun e he => (ih e he (helements e he)).1 element κ' (hall e he) hκ'
      · rw [harray.sort?_eq] at hκ
        obtain ⟨κ', hκ', rfl⟩ := Option.map_eq_some_iff.mp hκ
        exact .array fun e he => (ih e he (helements e he)).1 element κ' (hall e he) hκ'
    · obtain ⟨hall, -⟩ := (lengthOf_collection_iff hc hsort.outer).mp h
      exact .array fun e he => (ih e he (helements e he)).1 element κ (hall e he) hκ
  | call span callee as ih =>
    simp only [Expr.steady, Bool.and_eq_true] at hsteady
    have hvalues := Expr.steadyAll_iff.mp hsteady.2
    have has : ∀ a ∈ as, SortsValue c s a := fun a ha => (ih a ha (hvalues a ha)).1
    refine ⟨fun type κ h hκ => ?_, fun element length κ h hκ => ?_⟩
    · obtain ⟨actual, hcall, hequal⟩ := (checkValue_call_iff hc hsort.outer).mp h
      have hsame : type.sort? = actual.sort? := Expr.sort?_eq_of_equal _ hequal
      exact hasSort_call hc hs hsort hsteady.1 has hcall (hsame ▸ hκ)
    · obtain ⟨type, actual, hcall, harray, hequal⟩ := (lengthOf_call_iff hc hsort.outer).mp h
      have hsame : element.sort? = actual.sort? := Expr.sort?_eq_of_equal _ hequal
      refine hasSort_call hc hs hsort hsteady.1 has hcall ?_
      rw [harray.sort?_eq, ← hsame, hκ]
      rfl

/-! ## §5. Types. -/

/-- **The parameters of a steady type that is well-formed have the sorts of the dependencies.** -/
theorem hasSort_of_requireFormed (hc : c.oracle = Structural.oracle) (hs : c.schema.Proper)
    (hsort : s.Sorted c) (e : Expr) : ∀ {type : TypeExpr}, e = type.toExpr →
      e.steady c.schema = true → (requireFormed type c s).1 = .ok () →
        e.HasSort c.schema s.sorts .type := by
  induction e using Expr.induct with
  | type span i ps ih =>
    intro type htype hsteady h
    obtain rfl : type = ⟨span, i, ps⟩ := Option.some.inj (congrArg Expr.type? htype).symm
    have hparams := Expr.steadyAll_iff.mp hsteady
    -- each kind of type has its own way to check the parameters
    by_cases hscalar : i.name.isScalar = true
    · have hempty : ps = [] := (requireFormed_scalar_iff (t := ⟨span, i, ps⟩) hscalar).mp h
      rw [hempty]
      exact .type (by rw [Schema.paramKinds?, if_pos hscalar]) .nil
    by_cases harray : i.name = .array
    · obtain ⟨element, length, hps, helement, hlength⟩ :=
        (requireFormed_array_iff (t := ⟨span, i, ps⟩) hc hsort.outer harray).mp h
      have hps : ps = [element.toExpr, length] := hps
      subst hps
      rw [List.forall_mem_cons, List.forall_mem_singleton] at hparams
      have hsorted := (sorts_of_steady hc hs hsort length hparams.2).1 _ .unsigned hlength rfl
      refine .type ?_ (.cons (ih _ List.mem_cons_self rfl hparams.1 helement) (.cons hsorted .nil))
      rw [Schema.paramKinds?, if_neg hscalar, if_pos harray]
    by_cases hset : i.name = .set
    · obtain ⟨element, hps, helement⟩ :=
        (requireFormed_set_iff (t := ⟨span, i, ps⟩) hc hsort.outer hset).mp h
      have hps : ps = [element.toExpr] := hps
      subst hps
      rw [List.forall_mem_singleton] at hparams
      refine .type ?_ (.cons (ih _ List.mem_cons_self rfl hparams helement) .nil)
      rw [Schema.paramKinds?, if_neg hscalar, if_neg harray, if_pos hset]
    · have hname := Symbol.not_mem_builtins hscalar harray hset
      obtain ⟨deps, hdeps, hlength, hchecked⟩ :=
        (requireFormed_declared_iff (t := ⟨span, i, ps⟩) hc hsort.outer hname).mp h
      obtain ⟨ks, hks, hall⟩ := exists_kinds (forall₂_of_checkParams hc hsort.outer
        (fun p hp => (sorts_of_steady hc hs hsort p (hparams p hp)).1) (hs.sort?_of_dep hdeps)
        hlength hchecked)
      refine .type ?_ hall
      rw [Schema.paramKinds?, if_neg hscalar, if_neg harray, if_neg hset]
      exact Option.bind_eq_some_iff.mpr ⟨deps, hdeps, hks⟩
  | _ =>
    intro type htype
    cases htype

end Typing

end DepSchema
