/-
DepSchema.Proofs.Instantiation.Sorts — what is left of typing when dependencies are forgotten.

Behind the type of a value stands its sort, in which no expression occurs. An expression has a sort
if every part of it has the one that its place asks for; types have a kind of their own, and the
sorts of their parameters are those of the dependencies. Sorts are not changed by what is put for
variables, and so a substitution that puts for each variable an expression of its sort can be
applied everywhere: all fields that are taken are there, and each expression keeps its sort.

Left out are the operators whose operands may have another sort than their result: a subtraction of
unsigned numbers may give a signed one, and the operands of `in` are not checked. Left out are also
calls that give a message, since no field can be taken from them.

Main definition: `Expr.HasSort`. Main results: `HasSort.follow`, `HasSort.apply` and `HasSort.fold`.
-/
import DepSchema.Proofs.Oracle.Congruence
import DepSchema.Proofs.Substitution.Folding
import DepSchema.Proofs.Substitution.Shapes
import DepSchema.Proofs.Vocabulary.Declarations

namespace DepSchema

/-! ## §1. The parts of an expression. -/

theorem Named.sizeOf_val_lt {fs : List (Named Expr)} {f : Named Expr} (hf : f ∈ fs) :
    sizeOf f.val < sizeOf fs := by
  have hlt := List.sizeOf_lt_of_mem hf
  have hval : sizeOf f = 1 + sizeOf f.name + sizeOf f.val := by
    cases f
    rfl
  omega

namespace Expr

section

variable {P : Expr → Prop} (scalar : ∀ span v, P (.scalar span v)) (access : ∀ a, P (.access a))
  (binary : ∀ span op l r, P l → P r → P (.binary span op l r))
  (unary : ∀ span op x, P x → P (.unary span op x))
  (type : ∀ span i ps, (∀ p ∈ ps, P p) → P (.type span i ps))
  (constructed : ∀ span c fs, (∀ f ∈ fs, P f.val) → P (.constructed span c fs))
  (collection : ∀ span es, (∀ e ∈ es, P e) → P (.collection span es))
  (call : ∀ span f as, (∀ a ∈ as, P a) → P (.call span f as))

include scalar access binary unary type constructed collection call in
/-- **What an expression has whenever its parts have it**, every expression has. -/
theorem induct (e : Expr) : P e := by
  cases e with
  | scalar span v => exact scalar span v
  | access a => exact access a
  | binary span op l r => exact binary span op l r (induct l) (induct r)
  | unary span op x => exact unary span op x (induct x)
  | type span i ps => exact type span i ps fun p _ => induct p
  | constructed span c fs =>
    refine constructed span c fs fun f hf => ?_
    have := Named.sizeOf_val_lt hf
    exact induct f.val
  | collection span es => exact collection span es fun e _ => induct e
  | call span f as => exact call span f as fun a _ => induct a
termination_by sizeOf e

end

end Expr

/-! ## §2. Sorts of types, fields and parameters. -/

/-- What an expression is: a type, or a value of a sort. -/
inductive Kind where
  | type
  | value (sort : ValueSort)

/-- The name of the types whose values have the sort. -/
def ValueSort.name : ValueSort → Symbol
  | int => .int
  | unsigned => .unsigned
  | float => .float
  | bool => .bool
  | string => .string
  | named type => type
  | array _ => .array
  | set _ => .set

/-- The operands have the sort of the result. -/
def BinaryOp.keepsSort : BinaryOp → Bool
  | sub | mem => false
  | _ => true

/-- The sorts of the variables that are known. -/
abbrev Sorts := Symbol → Option ValueSort

/-- No variable is known. -/
def Sorts.none : Sorts := fun _ => Option.none

/-- The variable has that sort, whatever was known of it before. -/
def Sorts.bind (Γ : Sorts) (n : Symbol) (κ : Option ValueSort) : Sorts :=
  fun m => if m = n then κ else Γ m

namespace Schema

/-- The sort of a field of the values of a sort. -/
def fieldSort? (s : Schema) (κ : ValueSort) (field : Symbol) : Option ValueSort :=
  match s.type? κ.name with
  | some (.message m) => (m.field? field).bind fun v => v.type.sort?
  | _ => none

/-- The sort that a chain of fields leads to. -/
def sortAlong? (s : Schema) : ValueSort → List Ident → Option ValueSort
  | κ, [] => some κ
  | κ, f :: fs => (s.fieldSort? κ f.name).bind fun κ' => s.sortAlong? κ' fs

end Schema

/-- The sorts of the values of dependencies, fields or parameters. -/
def Variable.kinds? : List Variable → Option (List Kind)
  | [] => some []
  | v :: vs => do
    let κ ← v.type.sort?
    let ks ← kinds? vs
    pure (.value κ :: ks)

/-- A dependency as a parameter of a function. -/
def Variable.toParameter (v : Variable) : Parameter := ⟨v.name, .value v.type⟩

/-- What the parameters of a type of that name are. -/
def Schema.paramKinds? (s : Schema) (n : Symbol) : Option (List Kind) :=
  if n.isScalar then some []
  else if n = .array then some [.type, .value .unsigned]
  else if n = .set then some [.type]
  else (s.deps? n).bind Variable.kinds?

/-- The sort of the field of that name. -/
def Constructor.fieldSort? (c : Constructor) (field : Symbol) : Option ValueSort :=
  (Variable.find? c.fields field).bind fun v => v.type.sort?

/-- The expression is a type or a value of a sort, and so is each part of it, where variables have
the sorts `Γ`. -/
inductive Expr.HasSort (s : Schema) (Γ : Sorts) : Expr → Kind → Prop where
  | scalar {span : Span} {v : Scalar} {κ : ValueSort} (htype : v.type = κ.name) :
      HasSort s Γ (.scalar span v) (.value κ)
  | access {a : Access} {κ κ' : ValueSort} (hvar : Γ a.var.name = some κ)
      (hfields : s.sortAlong? κ a.fields = some κ') : HasSort s Γ (.access a) (.value κ')
  | binary {span : Span} {op : BinaryOp} {l r : Expr} {κ : ValueSort}
      (hkeeps : op.keepsSort = true) (hname : κ.name ∈ op.operandTypes)
      (hl : HasSort s Γ l (.value κ)) (hr : HasSort s Γ r (.value κ)) :
      HasSort s Γ (.binary span op l r) (.value κ)
  | unary {span : Span} {op : UnaryOp} {x : Expr} {κ : ValueSort}
      (hname : κ.name ∈ op.operandTypes) (hx : HasSort s Γ x (.value κ)) :
      HasSort s Γ (.unary span op x) (.value κ)
  | type {span : Span} {i : Ident} {ps : List Expr} {ks : List Kind}
      (hkinds : s.paramKinds? i.name = some ks) (hps : List.Forall₂ (HasSort s Γ) ps ks) :
      HasSort s Γ (.type span i ps) .type
  | constructed {span : Span} {c : Ident} {fs : List (Named Expr)} {owner : TypeDef}
      {ctor : Constructor} (hfound : s.constructor? c.name = some (owner, ctor))
      (hdistinct : (fs.map fun f => f.name.name).Nodup)
      (hsupplied : ∀ v ∈ ctor.fields, (Named.find? fs v.name.name).isSome = true)
      (hdeclared : ∀ f ∈ fs, (ctor.fieldSort? f.name.name).isSome = true)
      (hvalues : ∀ f ∈ fs, ∀ κ, ctor.fieldSort? f.name.name = some κ →
        HasSort s Γ f.val (.value κ)) :
      HasSort s Γ (.constructed span c fs) (.value (.named owner.name))
  | array {span : Span} {es : List Expr} {κ : ValueSort}
      (hes : ∀ e ∈ es, HasSort s Γ e (.value κ)) :
      HasSort s Γ (.collection span es) (.value (.array κ))
  | set {span : Span} {es : List Expr} {κ : ValueSort}
      (hes : ∀ e ∈ es, HasSort s Γ e (.value κ)) :
      HasSort s Γ (.collection span es) (.value (.set κ))
  | call {span : Span} {i : Ident} {as : List Expr} {f : FunctionDef} {vars : List Variable}
      {ks : List Kind} {κ : ValueSort} (hf : s.function? i.name = some f)
      (hparams : f.params = vars.map Variable.toParameter) (hkinds : Variable.kinds? vars = some ks)
      (hresult : f.result.sort? = some κ) (hmessage : ¬s.IsMessage f.result.name)
      (has : List.Forall₂ (HasSort s Γ) as ks) : HasSort s Γ (.call span i as) (.value κ)

/-! ## §3. Fields. -/

theorem name_of_sort? {e : Expr} {t : TypeExpr} {κ : ValueSort} (ht : e.type? = some t)
    (h : e.sort? = some κ) : κ.name = t.name := by
  cases e with
  | type span i ps =>
    cases ht
    show κ.name = i.name
    by_cases hscalar : i.name.isScalar = true
    · unfold Expr.sort? at h
      rcases Symbol.isScalar_iff.mp hscalar with hi | hi | hi | hi | hi <;> rw [hi] at h ⊢ <;>
        cases h <;> rfl
    · rw [Expr.sort?_of_not_scalar hscalar] at h
      split at h
      · next harray =>
        obtain ⟨element, -, rfl⟩ := Option.map_eq_some_iff.mp h
        exact harray.symm
      · split at h
        · next hset =>
          obtain ⟨element, -, rfl⟩ := Option.map_eq_some_iff.mp h
          exact hset.symm
        · cases h
          rfl
  | _ => cases ht

/-- The sort of the values of a type has the name of the type. -/
theorem TypeExpr.name_of_sort? {t : TypeExpr} {κ : ValueSort} (h : t.sort? = some κ) :
    κ.name = t.name :=
  DepSchema.name_of_sort? (e := t.toExpr) rfl h

theorem Variable.kinds?_cons_eq_some {v : Variable} {vs : List Variable} {ks : List Kind} :
    kinds? (v :: vs) = some ks ↔ ∃ κ ks', v.type.sort? = some κ ∧ kinds? vs = some ks'
      ∧ ks = .value κ :: ks' := by
  rw [kinds?]
  simp only [Option.bind_eq_bind, Option.bind_eq_some_iff, Option.pure_def, Option.some.injEq]
  constructor
  · rintro ⟨κ, hκ, ks', hks, rfl⟩
    exact ⟨κ, ks', hκ, hks, rfl⟩
  · rintro ⟨κ, ks', hκ, hks, rfl⟩
    exact ⟨κ, hκ, ks', hks, rfl⟩

namespace Schema

variable {s : Schema} {κ κ' : ValueSort}

theorem fieldSort?_eq_some_iff {field : Symbol} : s.fieldSort? κ field = some κ'
    ↔ ∃ m v, s.type? κ.name = some (.message m) ∧ m.field? field = some v
      ∧ v.type.sort? = some κ' := by
  unfold fieldSort?
  cases hd : s.type? κ.name with
  | none => simp
  | some d => cases d <;> simp [Option.bind_eq_some_iff]

theorem sortAlong?_cons_eq_some {f : Ident} {fs : List Ident} :
    s.sortAlong? κ (f :: fs) = some κ'
      ↔ ∃ κ₁, s.fieldSort? κ f.name = some κ₁ ∧ s.sortAlong? κ₁ fs = some κ' := by
  rw [sortAlong?, Option.bind_eq_some_iff]

theorem sortAlong?_append (fields more : List Ident) : s.sortAlong? κ (fields ++ more)
    = (s.sortAlong? κ fields).bind fun κ₁ => s.sortAlong? κ₁ more := by
  induction fields generalizing κ with
  | nil => rfl
  | cons f fields ih =>
    rw [List.cons_append, sortAlong?, sortAlong?, Option.bind_assoc]
    simp only [ih]

end Schema

namespace Expr

variable {s : Schema} {Γ Δ : Sorts} {e : Expr}

/-- **The fields of the values of a sort can be followed into every expression of that sort.** -/
theorem HasSort.follow (hs : ∀ n ∈ Symbol.builtins, s.type? n = none) (fields : List Ident) :
    ∀ {e : Expr} {κ κ' : ValueSort}, e.HasSort s Γ (.value κ) →
      s.sortAlong? κ fields = some κ' →
      ∃ e', e.follow fields = .ok e' ∧ e'.HasSort s Γ (.value κ') := by
  induction fields with
  | nil =>
    intro e κ κ' he h
    cases h
    exact ⟨e, e.follow_nil, he⟩
  | cons f fields ih =>
    intro e κ κ' he h
    obtain ⟨κ₁, hfield, hrest⟩ := Schema.sortAlong?_cons_eq_some.mp h
    obtain ⟨m, v, hm, hv, hsort⟩ := Schema.fieldSort?_eq_some_iff.mp hfield
    -- the values of builtin types have no fields
    have hdeclared : κ.name ∉ Symbol.builtins := by
      intro hmem
      rw [hs _ hmem] at hm
      cases hm
    cases he with
    | access hvar hfields =>
      refine ⟨_, rfl, .access hvar ?_⟩
      rw [Schema.sortAlong?_append, hfields]
      exact h
    | @constructed span c fs owner ctor hfound hdistinct hsupplied _ hvalues =>
      rw [show (ValueSort.named owner.name).name = owner.name from rfl,
        Schema.type?_of_constructor? hfound] at hm
      cases hm
      obtain rfl := List.mem_singleton.mp (Schema.of_constructor? hfound).2.1
      have hname : v.name.name = f.name := by simpa using List.find?_some hv
      obtain ⟨value, hvalue⟩ :=
        Option.isSome_iff_exists.mp (hsupplied v (List.mem_of_find?_eq_some hv))
      rw [hname] at hvalue
      obtain ⟨g, hg, hgname, rfl⟩ := Named.exists_of_find? hvalue
      have hgsort : (Constructor.mk m.ident m.fields).fieldSort? g.name.name = some κ₁ := by
        rw [hgname]
        exact Option.bind_eq_some_iff.mpr ⟨v, hv, hsort⟩
      unfold Expr.follow
      rw [hvalue]
      exact ih (hvalues g hg κ₁ hgsort) hrest
    | scalar htype =>
      refine absurd ?_ hdeclared
      rw [← htype]
      exact Scalar.type_mem_builtins _
    | @binary _ op _ _ _ _ hname => exact absurd (op.operandTypes_subset hname) hdeclared
    | @unary _ op _ _ hname => exact absurd (op.operandTypes_subset hname) hdeclared
    | array | set => exact absurd (by simp [ValueSort.name, Symbol.builtins]) hdeclared
    | call _ _ _ hresult hmessage =>
      rw [TypeExpr.name_of_sort? hresult] at hm
      exact absurd ⟨m, hm⟩ hmessage

theorem allFieldsDistinct_iff {es : List Expr} :
    allFieldsDistinct es = true ↔ ∀ e ∈ es, e.fieldsDistinct = true := by
  induction es with
  | nil => simp [allFieldsDistinct]
  | cons e es ih => simp [allFieldsDistinct, ih]

/-- What holds of every expression with a kind holds of the items of a list with kinds. -/
theorem forall_of_forall₂ {P : Expr → Prop} {es : List Expr} {ks : List Kind}
    (hes : List.Forall₂ (HasSort s Γ) es ks) (h : ∀ e ∈ es, ∀ k, e.HasSort s Γ k → P e) :
    ∀ e ∈ es, P e := by
  induction hes with
  | nil => exact List.forall_mem_nil _
  | cons he _ ih =>
    rw [List.forall_mem_cons] at h ⊢
    exact ⟨h.1 _ he, ih h.2⟩

/-- No field is named twice. -/
theorem HasSort.fieldsDistinct (e : Expr) : ∀ {k : Kind}, e.HasSort s Γ k →
    e.fieldsDistinct = true := by
  induction e using Expr.induct with
  | scalar | access => exact fun _ => rfl
  | binary span op l r ihl ihr =>
    intro k h
    cases h with
    | binary _ _ hl hr => simp [Expr.fieldsDistinct, ihl hl, ihr hr]
  | unary span op x ih =>
    intro k h
    cases h with
    | unary _ hx => exact ih hx
  | type span i ps ih =>
    intro k h
    cases h with
    | type _ hps => exact allFieldsDistinct_iff.mpr (forall_of_forall₂ hps fun p hp _ => ih p hp)
  | constructed span c fs ih =>
    intro k h
    cases h with
    | constructed _ hdistinct _ hdeclared hvalues =>
      simp only [Expr.fieldsDistinct, Bool.and_eq_true, decide_eq_true_eq]
      refine ⟨hdistinct, valuesFieldsDistinct_iff.mpr fun f hf => ?_⟩
      obtain ⟨κ, hκ⟩ := Option.isSome_iff_exists.mp (hdeclared f hf)
      exact ih f hf (hvalues f hf κ hκ)
  | collection span es ih =>
    intro k h
    cases h with
    | array hes | set hes => exact allFieldsDistinct_iff.mpr fun e he => ih e he (hes e he)
  | call span i as ih =>
    intro k h
    cases h with
    | call _ _ _ _ _ has =>
      exact allFieldsDistinct_iff.mpr (forall_of_forall₂ has fun a ha _ => ih a ha)

end Expr

/-! ## §4. Substitution. -/

namespace Substitution

variable {s : Schema} {Γ Δ : Sorts} {σ : Substitution}

/-- A variable of a sort is replaced by an expression of that sort, or it stays and keeps its sort.
-/
def Respects (s : Schema) (Γ Δ : Sorts) (σ : Substitution) : Prop :=
  ∀ n κ, Γ n = some κ → (σ.find? n = none ∧ Δ n = some κ)
    ∨ ∃ e, σ.find? n = some e ∧ e.HasSort s Δ (.value κ)

/-- Where nothing is replaced, more variables may be known. -/
theorem respects_empty (h : ∀ n κ, Γ n = some κ → Δ n = some κ) : empty.Respects s Γ Δ :=
  fun n κ hn => .inl ⟨rfl, h n κ hn⟩

theorem exists_applyAll {es : List Expr} {ks : List Kind}
    (hes : List.Forall₂ (Expr.HasSort s Γ) es ks)
    (h : ∀ e ∈ es, ∀ k, e.HasSort s Γ k → ∃ e', σ.apply e = .ok e' ∧ e'.HasSort s Δ k) :
    ∃ es', σ.applyAll es = .ok es' ∧ List.Forall₂ (Expr.HasSort s Δ) es' ks := by
  induction hes with
  | nil => exact ⟨[], rfl, .nil⟩
  | cons he _ ih =>
    rw [List.forall_mem_cons] at h
    obtain ⟨e', happly, he'⟩ := h.1 _ he
    obtain ⟨es', happlyAll, hes'⟩ := ih h.2
    exact ⟨e' :: es', by rw [applyAll, happly, happlyAll]; rfl, .cons he' hes'⟩

theorem exists_applyEach {es : List Expr} {P : Expr → Prop}
    (h : ∀ e ∈ es, ∃ e', σ.apply e = .ok e' ∧ P e') :
    ∃ es', σ.applyAll es = .ok es' ∧ ∀ e ∈ es', P e := by
  induction es with
  | nil => exact ⟨[], rfl, List.forall_mem_nil _⟩
  | cons e es ih =>
    rw [List.forall_mem_cons] at h
    obtain ⟨⟨e', happly, he'⟩, hes⟩ := h
    obtain ⟨es', happlyAll, hes'⟩ := ih hes
    exact ⟨e' :: es', by rw [applyAll, happly, happlyAll]; rfl,
      List.forall_mem_cons.mpr ⟨he', hes'⟩⟩

theorem exists_applyFields {fs : List (Named Expr)} {P : Symbol → Expr → Prop}
    (h : ∀ f ∈ fs, ∃ e', σ.apply f.val = .ok e' ∧ P f.name.name e') :
    ∃ fs', σ.applyFields fs = .ok fs' ∧ ∀ f ∈ fs', P f.name.name f.val := by
  induction fs with
  | nil => exact ⟨[], rfl, List.forall_mem_nil _⟩
  | cons f fs ih =>
    rw [List.forall_mem_cons] at h
    obtain ⟨⟨value, happly, hvalue⟩, hfs⟩ := h
    obtain ⟨fs', happlyFields, hfs'⟩ := ih hfs
    refine ⟨⟨f.name, value⟩ :: fs', ?_, List.forall_mem_cons.mpr ⟨hvalue, hfs'⟩⟩
    rw [applyFields, happly, happlyFields]
    rfl

end Substitution

namespace Expr

variable {s : Schema} {Γ Δ : Sorts} {σ : Substitution}

/-- **A substitution that respects sorts can be applied, and keeps them.** -/
theorem HasSort.apply (hs : ∀ n ∈ Symbol.builtins, s.type? n = none) (hσ : σ.Respects s Γ Δ)
    (e : Expr) : ∀ {k : Kind}, e.HasSort s Γ k → ∃ e', σ.apply e = .ok e' ∧ e'.HasSort s Δ k := by
  induction e using Expr.induct with
  | scalar span v =>
    intro k h
    cases h with
    | scalar htype => exact ⟨_, rfl, .scalar htype⟩
  | access a =>
    intro k h
    cases h with
    | access hvar hfields =>
      unfold Substitution.apply
      rcases hσ _ _ hvar with ⟨hfind, hΔ⟩ | ⟨bound, hfind, hbound⟩
      · rw [hfind]
        exact ⟨_, rfl, .access hΔ hfields⟩
      · rw [hfind]
        exact hbound.follow hs a.fields hfields
  | binary span op l r ihl ihr =>
    intro k h
    cases h with
    | binary hkeeps hname hl hr =>
      obtain ⟨l', hl, hl'⟩ := ihl hl
      obtain ⟨r', hr, hr'⟩ := ihr hr
      exact ⟨_, by rw [Substitution.apply, hl, hr]; rfl, .binary hkeeps hname hl' hr'⟩
  | unary span op x ih =>
    intro k h
    cases h with
    | unary hname hx =>
      obtain ⟨x', hx, hx'⟩ := ih hx
      exact ⟨_, by rw [Substitution.apply, hx]; rfl, .unary hname hx'⟩
  | type span i ps ih =>
    intro k h
    cases h with
    | type hkinds hps =>
      obtain ⟨ps', hps, hps'⟩ := Substitution.exists_applyAll hps fun p hp _ => ih p hp
      exact ⟨_, by rw [Substitution.apply, hps]; rfl, .type hkinds hps'⟩
  | constructed span c fs ih =>
    intro k h
    cases h with
    | @constructed _ _ _ owner ctor hfound hdistinct hsupplied hdeclared hvalues =>
      obtain ⟨fs', hfs, hfs'⟩ := Substitution.exists_applyFields (σ := σ)
        (P := fun n e => ∃ κ, ctor.fieldSort? n = some κ ∧ e.HasSort s Δ (.value κ)) fun f hf => by
          obtain ⟨κ, hκ⟩ := Option.isSome_iff_exists.mp (hdeclared f hf)
          obtain ⟨e', happly, he'⟩ := ih f hf (hvalues f hf κ hκ)
          exact ⟨e', happly, κ, hκ, he'⟩
      have hnames := Named.names_of_rel (Substitution.forall₂_of_applyFields hfs)
      refine ⟨_, by rw [Substitution.apply, hfs]; rfl,
        .constructed hfound (hnames ▸ hdistinct) (fun v hv => ?_) (fun f hf => ?_)
          fun f hf κ hκ => ?_⟩
      · rw [Named.find?_isSome, hnames, ← Named.find?_isSome]
        exact hsupplied v hv
      · obtain ⟨κ, hκ, -⟩ := hfs' f hf
        rw [hκ]
        rfl
      · obtain ⟨κ', hκ', hf'⟩ := hfs' f hf
        rw [hκ] at hκ'
        cases hκ'
        exact hf'
  | collection span es ih =>
    intro k h
    cases h with
    | array hes =>
      obtain ⟨es', hes, hes'⟩ := Substitution.exists_applyEach fun e he => ih e he (hes e he)
      exact ⟨_, by rw [Substitution.apply, hes]; rfl, .array hes'⟩
    | set hes =>
      obtain ⟨es', hes, hes'⟩ := Substitution.exists_applyEach fun e he => ih e he (hes e he)
      exact ⟨_, by rw [Substitution.apply, hes]; rfl, .set hes'⟩
  | call span i as ih =>
    intro k h
    cases h with
    | call hf hparams hkinds hresult hmessage has =>
      obtain ⟨as', has, has'⟩ := Substitution.exists_applyAll has fun a ha _ => ih a ha
      exact ⟨_, by rw [Substitution.apply, has]; rfl,
        .call hf hparams hkinds hresult hmessage has'⟩

theorem HasSort.of_apply (hs : ∀ n ∈ Symbol.builtins, s.type? n = none) (hσ : σ.Respects s Γ Δ)
    {e e' : Expr} {k : Kind} (h : e.HasSort s Γ k) (happly : σ.apply e = .ok e') :
    e'.HasSort s Δ k := by
  obtain ⟨e'', happly', he''⟩ := h.apply hs hσ
  rw [happly] at happly'
  cases happly'
  exact he''

/-- What has a kind keeps it where more variables are known. -/
theorem HasSort.mono (hs : ∀ n ∈ Symbol.builtins, s.type? n = none)
    (hΓ : ∀ n κ, Γ n = some κ → Δ n = some κ) {e : Expr} {k : Kind} (h : e.HasSort s Γ k) :
    e.HasSort s Δ k :=
  h.of_apply hs (Substitution.respects_empty hΓ) (Substitution.apply_empty e)

/-! ## §5. Folding. -/

theorem foldAll_eq_map (es : List Expr) : foldAll es = es.map fold := by
  induction es with
  | nil => rfl
  | cons e es ih => rw [foldAll, List.map_cons, ih]

theorem foldFields_eq_map (fs : List (Named Expr)) :
    foldFields fs = fs.map fun f => ⟨f.name, f.val.fold⟩ := by
  induction fs with
  | nil => rfl
  | cons f fs ih => rw [foldFields, List.map_cons, ih]

theorem HasSort.type_eq {span : Span} {v : Scalar} {κ : ValueSort}
    (h : (Expr.scalar span v).HasSort s Γ (.value κ)) : v.type = κ.name := by
  cases h with
  | scalar htype => exact htype

theorem HasSort.evalBinary {span : Span} {op : BinaryOp} {l r : Expr} {κ : ValueSort}
    (hkeeps : op.keepsSort = true) (hname : κ.name ∈ op.operandTypes)
    (hl : l.HasSort s Γ (.value κ)) (hr : r.HasSort s Γ (.value κ)) :
    (Expr.evalBinary span op l r).HasSort s Γ (.value κ) := by
  unfold Expr.evalBinary
  split
  · next a b ha hb =>
    cases l <;> cases ha
    cases r <;> cases hb
    split
    · next v hv =>
      have hsub : op ≠ .sub := by
        rintro rfl
        cases hkeeps
      have htype := op.type_of_eval? hsub (hr.type_eq.trans hl.type_eq.symm) hv
      exact .scalar (htype.trans hl.type_eq)
    · exact .binary hkeeps hname hl hr
  · exact .binary hkeeps hname hl hr

theorem HasSort.evalUnary {span : Span} {op : UnaryOp} {x : Expr} {κ : ValueSort}
    (hname : κ.name ∈ op.operandTypes) (hx : x.HasSort s Γ (.value κ)) :
    (Expr.evalUnary span op x).HasSort s Γ (.value κ) := by
  unfold Expr.evalUnary
  split
  · next v hv =>
    obtain ⟨a, ha, hv⟩ := Option.bind_eq_some_iff.mp hv
    cases x <;> cases ha
    have hunsigned : a.type ≠ .unsigned := by
      rw [hx.type_eq]
      rintro heq
      rw [heq] at hname
      revert hname
      cases op <;> decide
    exact .scalar ((op.type_of_eval? hunsigned hv).trans hx.type_eq)
  · exact .unary hname hx

theorem forall₂_foldAll {es : List Expr} {ks : List Kind}
    (hes : List.Forall₂ (HasSort s Γ) es ks)
    (h : ∀ e ∈ es, ∀ k, e.HasSort s Γ k → e.fold.HasSort s Γ k) :
    List.Forall₂ (HasSort s Γ) (foldAll es) ks := by
  induction hes with
  | nil => exact .nil
  | cons he _ ih =>
    rw [List.forall_mem_cons] at h
    exact .cons (h.1 _ he) (ih h.2)

/-- **Folding keeps sorts.** -/
theorem HasSort.fold (e : Expr) : ∀ {k : Kind}, e.HasSort s Γ k → e.fold.HasSort s Γ k := by
  induction e using Expr.induct with
  | scalar | access => exact fun h => h
  | binary span op l r ihl ihr =>
    intro k h
    cases h with
    | binary hkeeps hname hl hr => exact .evalBinary hkeeps hname (ihl hl) (ihr hr)
  | unary span op x ih =>
    intro k h
    cases h with
    | unary hname hx => exact .evalUnary hname (ih hx)
  | type span i ps ih =>
    intro k h
    cases h with
    | type hkinds hps => exact .type hkinds (forall₂_foldAll hps fun p hp _ => ih p hp)
  | constructed span c fs ih =>
    intro k h
    cases h with
    | @constructed _ _ _ owner ctor hfound hdistinct hsupplied hdeclared hvalues =>
      refine .constructed hfound ((names_foldFields fs).symm ▸ hdistinct) (fun v hv => ?_) ?_ ?_
      · rw [find?_foldFields, Option.isSome_map]
        exact hsupplied v hv
      · rw [foldFields_eq_map, List.forall_mem_map]
        exact hdeclared
      · rw [foldFields_eq_map, List.forall_mem_map]
        exact fun f hf κ hκ => ih f hf (hvalues f hf κ hκ)
  | collection span es ih =>
    intro k h
    cases h with
    | array hes =>
      refine .array ?_
      rw [foldAll_eq_map, List.forall_mem_map]
      exact fun e he => ih e he (hes e he)
    | set hes =>
      refine .set ?_
      rw [foldAll_eq_map, List.forall_mem_map]
      exact fun e he => ih e he (hes e he)
  | call span i as ih =>
    intro k h
    cases h with
    | call hf hparams hkinds hresult hmessage has =>
      exact .call hf hparams hkinds hresult hmessage (forall₂_foldAll has fun a ha _ => ih a ha)

/-- What is computed to a literal has the type of the literal. -/
theorem HasSort.type_of_fold {e : Expr} {κ : ValueSort} (h : e.HasSort s Γ (.value κ)) {v : Scalar}
    (hv : e.fold.scalar? = some v) : v.type = κ.name := by
  have hfold := h.fold
  cases he : e.fold <;> rw [he] at hv hfold <;> cases hv
  exact hfold.type_eq

end Expr

end DepSchema
