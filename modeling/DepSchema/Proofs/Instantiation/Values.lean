/-
DepSchema.Proofs.Instantiation.Values — what passes in one place passes in another.

A substitution takes a scope to another one if what it makes of a variable with its fields passes,
in the other scope, against what it makes of the type of the variable with these fields. Then it
takes every steady value that passes to one that passes, against whatever its type becomes, and
every well-formed type to a well-formed one. The induction is on the expression. It is carried by
the sorts of its parts, since equal expressions of one sort become equal ones, and for arrays
together with their lengths.

Main definitions: `Checking.WellSorted` and `Substitution.Carries`. Main results:
`Carries.keeps`, `carries_of_access` and `Carries.requireFormed`.
-/
import DepSchema.Proofs.Instantiation.Tracking

namespace DepSchema

open Substitution (Becomes BecomeAll Tracks)

/-! ## §1. Scopes with well-sorted types. -/

/-- The types of the values in scope have parameters of the sorts of the dependencies. -/
structure Checking.WellSorted (c : Setting) (s : Checking) : Prop extends s.Sorted c where
  types : ∀ n type, s.scopes.find? n = some (.value type) →
    type.toExpr.HasSort c.schema s.sorts .type

namespace Typing

variable {c : Setting} {s t : Checking}

/-- What an access stands for has a well-sorted type. -/
theorem hasSort_type_of_accessType (hp : c.schema.Proper) (hw : c.schema.WellSorted)
    (hs : s.WellSorted c) {a : Access} {type : TypeExpr}
    (h : (accessType a c s).1 = .ok (.value type)) :
    type.toExpr.HasSort c.schema s.sorts .type := by
  obtain ⟨origin, hfind, hpath⟩ := exists_path_of_accessType h
  obtain ⟨κ, hκ⟩ := Option.isSome_iff_exists.mp (hs.values _ _ hfind)
  have hvar : (Expr.access (.ofVar a.var)).HasSort c.schema s.sorts (.value κ) :=
    .access (Checking.sorts_eq_some.mpr ⟨origin, hfind, hκ⟩) rfl
  exact hpath.hasSort hp hw hvar hκ (hs.types _ _ hfind)

/-- A function of the schema that takes values is called with values of the right sorts, and its
result has a well-sorted type. -/
theorem tracks_of_call (hp : c.schema.Proper) (hw : c.schema.WellSorted) {σ : Substitution}
    (hσ : σ.Respects c.schema s.sorts t.sorts) {f : FunctionDef} (hf : f ∈ c.schema.functions)
    {vars : List Variable} (hparams : f.params = vars.map Variable.toParameter) {ks : List Kind}
    (hks : Variable.kinds? vars = some ks) {as bs : List Expr}
    (hall : BecomeAll c.schema s.sorts t.sorts σ ks as bs) :
    ∃ type other : TypeExpr, (Substitution.supply .empty vars as).applyType f.result = .ok type
      ∧ (Substitution.supply .empty vars bs).applyType f.result = .ok other
      ∧ Becomes c.schema s.sorts t.sorts σ .type type.toExpr other.toExpr := by
  have htracks := Substitution.tracks_empty.supply hks hall
  have hsorted := hw.functions f hf vars hparams
  rw [FunctionDef.telescope, Variable.wellSorted_append] at hsorted
  exact htracks.applyType hp.builtin hσ hsorted.2.1

end Typing

/-! ## §2. Substitutions between scopes. -/

/-- The substitution takes one scope to another: each variable with its fields becomes something
that passes against whatever its type becomes, and that has a length wherever it is an array. -/
structure Substitution.Carries (c : Setting) (σ : Substitution) (s t : Checking) : Prop where
  source : s.WellSorted c
  target : t.WellSorted c
  free : ∀ n f, c.schema.function? n = some f → t.scopes.find? n = none
  respects : σ.Respects c.schema s.sorts t.sorts
  access : ∀ {a : Access} {type other : TypeExpr} {e : Expr},
    (Typing.accessType a c s).1 = .ok (.value type) →
    Becomes c.schema s.sorts t.sorts σ .type type.toExpr other.toExpr →
    σ.apply (.access a) = .ok e → (Typing.checkValue e other c t).1 = .ok ()
  length : ∀ {a : Access} {type element other : TypeExpr} {l e : Expr},
    (Typing.accessType a c s).1 = .ok (.value type) → type.IsArrayOf element l →
    Becomes c.schema s.sorts t.sorts σ .type element.toExpr other.toExpr →
    σ.apply (.access a) = .ok e → ∃ l', (Typing.lengthOf e other c t).1 = .ok l'
      ∧ Becomes c.schema s.sorts t.sorts σ (.value .unsigned) l l'

/-- A type of arrays has one type of elements and one length. -/
theorem TypeExpr.IsArrayOf.unique {t element other : TypeExpr} {l l' : Expr}
    (h : t.IsArrayOf element l) (h' : t.IsArrayOf other l') : element = other ∧ l = l' := by
  have helement : element.toExpr = other.toExpr := Option.some.inj (h.2.1.symm.trans h'.2.1)
  refine ⟨?_, Option.some.inj (h.2.2.symm.trans h'.2.2)⟩
  exact Option.some.inj (congrArg Expr.type? helement)

/-- What is equal to a type of arrays is one, with an equal type of elements and an equal length. -/
theorem TypeExpr.IsArrayOf.of_equal {t u element : TypeExpr} {l : Expr} (h : t.IsArrayOf element l)
    (hequal : Structural.equal t.toExpr u.toExpr = true) : ∃ other l', u.IsArrayOf other l'
      ∧ Structural.equal element.toExpr other.toExpr = true ∧ Structural.equal l l' = true := by
  obtain ⟨span, i, ps⟩ := t
  obtain ⟨span', i', qs⟩ := u
  obtain ⟨hname, helement, hl⟩ := h
  obtain ⟨_, _, _, hu, hnames, hparams⟩ := Expr.exists_of_equal_type hequal
  cases hu
  cases hparams with
  | nil => cases helement
  | cons hfirst hrest =>
    cases hrest with
    | nil => cases hl
    | cons hsecond _ =>
      cases helement
      cases hl
      obtain ⟨span₁, i₁, ps₁, rfl, -⟩ := Expr.exists_of_equal_type hfirst
      exact ⟨⟨span₁, i₁, ps₁⟩, _, ⟨hnames.symm.trans hname, rfl, rfl⟩, hfirst, hsecond⟩

namespace Substitution

open Typing

variable {c : Setting} {σ : Substitution} {s t : Checking}

/-- Against every type that the expression passes, what it becomes passes whatever the type becomes.
-/
def KeepsValue (c : Setting) (σ : Substitution) (s t : Checking) (e : Expr) : Prop :=
  ∀ (type other : TypeExpr) (e' : Expr), (checkValue e type c s).1 = .ok () →
    Becomes c.schema s.sorts t.sorts σ .type type.toExpr other.toExpr → σ.apply e = .ok e' →
      (checkValue e' other c t).1 = .ok ()

/-- With every type of elements with which the expression has a length, what it becomes has a length
with whatever the type becomes, and the one length becomes the other. -/
def KeepsLength (c : Setting) (σ : Substitution) (s t : Checking) (e : Expr) : Prop :=
  ∀ (element other : TypeExpr) (l e' : Expr), (lengthOf e element c s).1 = .ok l →
    Becomes c.schema s.sorts t.sorts σ .type element.toExpr other.toExpr → σ.apply e = .ok e' →
      ∃ l', (lengthOf e' other c t).1 = .ok l'
        ∧ Becomes c.schema s.sorts t.sorts σ (.value .unsigned) l l'

/-- **What is supplied for variables passes in the other scope**, too. -/
theorem checkParams_of_tracks (hc : c.oracle = Structural.oracle) (hp : c.schema.Proper)
    (hs : s.Outer) (ht : t.Outer) (hσ : σ.Respects c.schema s.sorts t.sorts)
    {vars : List Variable} : ∀ {Γ : Sorts} {τ τ' : Substitution} {ks : List Kind}
      {ps qs : List Expr}, Tracks c.schema Γ s.sorts t.sorts σ τ τ' →
      Variable.WellSorted c.schema Γ vars → Variable.kinds? vars = some ks →
      List.Forall₂ (Expr.HasSort c.schema s.sorts) ps ks → (∀ p ∈ ps, KeepsValue c σ s t p) →
      σ.applyAll ps = .ok qs → (checkParams τ vars ps c s).1 = .ok () →
        (checkParams τ' vars qs c t).1 = .ok () := by
  induction vars with
  | nil =>
    intro Γ τ τ' ks ps qs _ _ _ _ _ _ _
    cases qs <;> rfl
  | cons v vars ih =>
    intro Γ τ τ' ks ps qs htracks hsorted hkinds hps hkeeps happly h
    obtain ⟨κ, ks, hκ, hks, rfl⟩ := Variable.kinds?_cons_eq_some.mp hkinds
    cases hps with
    | @cons p _ ps _ hfirst hps =>
      rw [List.forall_mem_cons] at hkeeps
      obtain ⟨q, qs, hq, hqs, rfl⟩ := of_applyAll_cons happly
      obtain ⟨type, htype, hvalue, hrest⟩ := (checkParams_cons_iff hc hs).mp h
      obtain ⟨_, other, htype', hother, hbecomes⟩ := htracks.applyType hp.builtin hσ hsorted.1
      rw [htype] at htype'
      cases htype'
      have hnext := htracks.bind (n := v.name.name) (becomes_of_apply hp.builtin hσ hfirst hq)
      rw [← hκ] at hnext
      exact (checkParams_cons_iff hc ht).mpr ⟨other, hother,
        hkeeps.1 type other q hvalue hbecomes hq,
        ih hnext hsorted.2 hks hps hkeeps.2 hqs hrest⟩

/-- **What stands for the dependencies in the fields of a constructor** follows the parameters, if
the constructor belongs to its type whatever they are. -/
theorem exists_opening {owner : TypeDef} (hfixed : owner.isFixed = true) {ctor : Symbol}
    {ks : List Kind} {ps qs : List Expr} (hks : Variable.kinds? owner.deps = some ks)
    (hall : BecomeAll c.schema s.sorts t.sorts σ ks ps qs) {τ : Substitution}
    (h : c.schema.opening? owner ctor ps = some τ) : ∃ τ',
      c.schema.opening? owner ctor qs = some τ'
        ∧ Tracks c.schema (Sorts.none.declare owner.deps) s.sorts t.sorts σ τ τ' := by
  cases owner with
  | message m =>
    refine ⟨_, rfl, ?_⟩
    obtain rfl := Option.some.inj h
    rw [bindDeps_eq_supply, bindDeps_eq_supply]
    exact tracks_empty.supply hks hall
  | enum e =>
    have he : e.deps = [] := List.isEmpty_iff.mp hfixed
    have hdeps : (TypeDef.enum e).deps = [] := he
    rw [hdeps] at hks
    cases hks
    cases hall
    refine ⟨τ, h, ?_⟩
    rw [Schema.opening?, hdeps] at h
    rw [hdeps, Rule.eq_of_offered?_nil h]
    exact tracks_empty

/-- What passes against a type of arrays has a length, which is equal to that of the type. -/
theorem exists_length (hc : c.oracle = Structural.oracle) (hp : c.schema.Proper) (ht : t.Outer)
    {e : Expr} (hsteady : e.steady c.schema = true) {type element : TypeExpr} {l : Expr}
    (harray : type.IsArrayOf element l) (h : (checkValue e type c t).1 = .ok ()) :
    ∃ l', (lengthOf e element c t).1 = .ok l' ∧ Structural.equal l l' = true := by
  have hname := harray.1
  cases e with
  | scalar span v =>
    have htype := (checkValue_scalar_iff.mp h).1
    rw [hname] at htype
    cases v <;> cases htype
  | access a =>
    obtain ⟨actual, haccess, hequal⟩ := (checkValue_access_iff hc ht).mp h
    obtain ⟨other, l', harray', helement, hlength⟩ := harray.of_equal hequal
    exact ⟨l', (lengthOf_access_iff hc ht).mpr ⟨actual, other, haccess, harray', helement⟩, hlength⟩
  | binary span op l r =>
    simp only [Expr.steady, Bool.and_eq_true] at hsteady
    by_cases hunion : op = .union
    · obtain rfl := hunion
      obtain ⟨_, _, left, right, harray', hleft, hright, hequal⟩ :=
        (checkValue_union_iff hc ht hname).mp h
      obtain ⟨helement, hl⟩ := harray.unique harray'
      subst helement hl
      exact ⟨_, (lengthOf_binary_iff hc ht).mpr ⟨rfl, left, right, hleft, hright, rfl⟩, hequal⟩
    · have hmem : op ≠ .mem := by
        rintro rfl
        cases hsteady.1
      obtain ⟨hoperand, -⟩ := (checkValue_binary_iff hc ht hmem fun h => hunion h.1).mp h
      rw [hname] at hoperand
      cases op <;> first | exact absurd rfl hunion | exact absurd hoperand (by decide)
  | unary span op x =>
    obtain ⟨hoperand, -⟩ := checkValue_unary_iff.mp h
    rw [hname] at hoperand
    cases op <;> exact absurd hoperand (by decide)
  | type span i ps => cases h
  | constructed span ctor inits =>
    obtain ⟨owner, _, _, _, hfound, howner, -⟩ := (checkValue_constructed_iff hc ht).mp h
    have htype := Schema.type?_of_constructor? hfound
    rw [howner, hname, hp.builtin .array (by decide)] at htype
    cases htype
  | collection span es =>
    rcases (checkValue_collection_iff hc ht).mp h with ⟨_, hset, -⟩ | ⟨_, _, harray', hall, hequal⟩
    · rw [hset.1] at hname
      exact absurd hname (by decide)
    · obtain ⟨helement, hl⟩ := harray.unique harray'
      subst helement hl
      exact ⟨_, (lengthOf_collection_iff hc ht).mpr ⟨hall, rfl⟩, hequal⟩
  | call span callee as =>
    obtain ⟨actual, hcall, hequal⟩ := (checkValue_call_iff hc ht).mp h
    obtain ⟨other, l', harray', helement, hlength⟩ := harray.of_equal hequal
    exact ⟨l', (lengthOf_call_iff hc ht).mpr ⟨actual, other, hcall, harray', helement⟩, hlength⟩

theorem exists_of_mem_applyAll {es es' : List Expr} (h : σ.applyAll es = .ok es') {e' : Expr}
    (he' : e' ∈ es') : ∃ e ∈ es, σ.apply e = .ok e' := by
  obtain ⟨e, he, happly⟩ := forall₂_mem_left (forall₂_of_applyAll h).flip he'
  exact ⟨e, he, happly⟩

theorem becomes_literalLength {s : Schema} {Γ Δ : Sorts}
    (hs : ∀ n ∈ Symbol.builtins, s.type? n = none) (hσ : σ.Respects s Γ Δ) {span : Span}
    {es es' : List Expr} (h : σ.applyAll es = .ok es') :
    Becomes s Γ Δ σ (.value .unsigned) (literalLength span es) (literalLength span es') := by
  have hsame : literalLength span es' = literalLength span es := by
    unfold literalLength
    rw [applyAll_length h]
  rw [hsame]
  exact becomes_of_apply hs hσ (.scalar rfl) rfl

theorem hasSort_element {s : Schema} {Γ : Sorts} (hs : ∀ n ∈ Symbol.builtins, s.type? n = none)
    {type element : TypeExpr} {l : Expr} (harray : type.IsArrayOf element l)
    (h : type.toExpr.HasSort s Γ .type) : element.toExpr.HasSort s Γ .type := by
  have hσ : empty.Respects s Γ Γ := respects_empty fun _ _ h => h
  obtain ⟨_, _, -, hbecomes, -⟩ := (becomes_self hs h).isArrayOf hs hσ harray
  exact hbecomes.left

/-- What is found for the fields of a constructor is found in the values that are put for it. -/
theorem exists_supplied {inits inits' : List (Named Expr)} (h : σ.applyFields inits = .ok inits')
    {fields : List Variable} {values : List Expr}
    (hsupplied : List.Forall₂ (fun v value => Named.find? inits v.name.name = some value)
      fields values) : ∃ values', σ.applyAll values = .ok values'
        ∧ List.Forall₂ (fun v value => Named.find? inits' v.name.name = some value)
            fields values' := by
  induction hsupplied with
  | nil => exact ⟨[], rfl, .nil⟩
  | @cons v _ _ _ hfind _ ih =>
    obtain ⟨values', happly, hall⟩ := ih
    rcases find?_applyFields h v.name.name with ⟨hnone, -⟩ | ⟨_, value', hfind', hvalue', hsome⟩
    · rw [hfind] at hnone
      cases hnone
    · rw [hfind] at hfind'
      cases hfind'
      exact ⟨value' :: values', by rw [applyAll, hsome, happly]; rfl, .cons hvalue' hall⟩

/-- The elements of a collection are taken along. -/
theorem checkValue_of_elements {es es' : List Expr} (hkeeps : ∀ e ∈ es, KeepsValue c σ s t e)
    (happly : σ.applyAll es = .ok es') {element other : TypeExpr}
    (hbecomes : Becomes c.schema s.sorts t.sorts σ .type element.toExpr other.toExpr)
    (hall : ∀ e ∈ es, (checkValue e element c s).1 = .ok ()) :
    ∀ e ∈ es', (checkValue e other c t).1 = .ok () := by
  intro e' he'
  obtain ⟨e, he, heq⟩ := exists_of_mem_applyAll happly he'
  exact hkeeps e he element other e' (hall e he) hbecomes heq

namespace Carries

variable (hc : c.oracle = Structural.oracle) (hp : c.schema.Proper) (hw : c.schema.WellSorted)
  (h : σ.Carries c s t)

include hc hp hw h

/-- A call gives a value in the other scope, and its type there is what the type becomes. -/
theorem exists_callType {span : Span} {callee : Ident} {as bs : List Expr}
    (hcallee : c.schema.isSteady callee.name = true) (hsteady : ∀ a ∈ as, a.steady c.schema = true)
    (hkeeps : ∀ a ∈ as, KeepsValue c σ s t a) (happly : σ.applyAll as = .ok bs) {type : TypeExpr}
    (hcall : (callType span callee as.length (checkArguments as .empty) c s).1
      = .ok (.value type)) :
    ∃ other, (callType span callee bs.length (checkArguments bs .empty) c t).1 = .ok (.value other)
      ∧ Becomes c.schema s.sorts t.sorts σ .type type.toExpr other.toExpr := by
  obtain ⟨f, vars, hf, hparams, -⟩ := Schema.exists_of_isSteady hcallee
  have hmem := List.mem_of_find?_eq_some hf
  have hhidden : ∀ ft, s.scopes.find? callee.name ≠ some (.function ft) := fun ft hft => by
    rw [h.source.functions _ ft hft] at hf
    cases hf
  obtain ⟨-, hlength, hchecked, hresult⟩ :=
    (callType_ok_iff hf hhidden hc h.source.outer hparams).mp hcall
  obtain ⟨ks, hks, has⟩ := exists_kinds (forall₂_of_checkParams hc h.source.outer
    (fun a ha => (sorts_of_steady hc hp h.source.toSorted a (hsteady a ha)).1)
    (hp.sort?_of_function hmem hparams).1 hlength hchecked)
  obtain ⟨_, other, hresult', hother, hbecomes⟩ := tracks_of_call hp hw h.respects hmem hparams
    hks (becomeAll_of_apply hp.builtin h.respects has happly)
  rw [hresult] at hresult'
  cases hresult'
  have hsorted := hw.functions f hmem vars hparams
  rw [FunctionDef.telescope, Variable.wellSorted_append] at hsorted
  have hfree := h.free _ _ hf
  refine ⟨other, (callType_ok_iff hf (fun ft hft => ?_) hc h.target.outer hparams).mpr
    ⟨hfree, ?_, ?_, hother⟩, hbecomes⟩
  · rw [hfree] at hft
    cases hft
  · rw [applyAll_length happly, hlength]
  · exact checkParams_of_tracks hc hp h.source.outer h.target.outer h.respects tracks_empty
      hsorted.1 hks has hkeeps happly hchecked

/-- The fields of a constructed value are taken along. -/
theorem keepsValue_constructed {span : Span} {ctor : Ident} {inits : List (Named Expr)}
    (hfixed : c.schema.isFixed ctor.name = true)
    (hsteady : ∀ f ∈ inits, f.val.steady c.schema = true)
    (hkeeps : ∀ f ∈ inits, KeepsValue c σ s t f.val) :
    KeepsValue c σ s t (.constructed span ctor inits) := by
  intro type other e' hvalue hbecomes happly
  obtain ⟨inits', hinits, rfl⟩ := of_apply_constructed happly
  obtain ⟨owner, declared, τ, values, hfound, hname, hcount, hopening, hlength, hsupplied,
    hchecked⟩ := (checkValue_constructed_iff hc h.source.outer).mp hvalue
  obtain ⟨hmem, hctor, -⟩ := Schema.of_constructor? hfound
  have howner : owner.isFixed = true := by
    unfold Schema.isFixed at hfixed
    rwa [hfound] at hfixed
  have hdeps := Schema.type?_of_constructor? hfound
  rw [hname] at hdeps
  -- what stands for the dependencies
  obtain ⟨hsame, ks, hks, hparams⟩ := hbecomes.params hp.builtin h.respects
  rw [Schema.paramKinds?_of_type? hp.builtin hdeps] at hks
  obtain ⟨τ', hopening', htracks⟩ := exists_opening howner hks hparams hopening
  -- the values of the fields, in the order of the declaration
  have hinit : ∀ value ∈ values, ∃ f ∈ inits, f.val = value := by
    intro value hvalue
    obtain ⟨v, -, hfind⟩ := forall₂_mem_left hsupplied.flip hvalue
    obtain ⟨f, hf, -, hval⟩ := Named.exists_of_find? hfind
    exact ⟨f, hf, hval⟩
  have hsorts : ∀ value ∈ values, SortsValue c s value := by
    intro value hvalue
    obtain ⟨f, hf, rfl⟩ := hinit value hvalue
    exact (sorts_of_steady hc hp h.source.toSorted f.val (hsteady f hf)).1
  have hkeeps' : ∀ value ∈ values, KeepsValue c σ s t value := by
    intro value hvalue
    obtain ⟨f, hf, rfl⟩ := hinit value hvalue
    exact hkeeps f hf
  obtain ⟨ks', hks', hvalues⟩ := exists_kinds (forall₂_of_checkParams hc h.source.outer hsorts
    (hp.sort?_of_field hfound) hsupplied.length_eq.symm hchecked)
  obtain ⟨values', happly', hsupplied'⟩ := exists_supplied hinits hsupplied
  have hsorted := hw.fields owner hmem howner declared hctor
  rw [Variable.wellSorted_append] at hsorted
  have hchecked' := checkParams_of_tracks hc hp h.source.outer h.target.outer h.respects htracks
    hsorted.2 hks' hvalues hkeeps' happly' hchecked
  have hcount' : owner.deps.length = other.params.length := by
    rw [hcount, hparams.left.length_eq, hparams.right.length_eq]
  have hlength' : inits'.length = declared.fields.length := by
    rw [← (forall₂_of_applyFields hinits).length_eq, hlength]
  exact (checkValue_constructed_iff hc h.target.outer).mpr ⟨owner, declared, τ', values', hfound,
    hname.trans hsame, hcount', hopening', hlength', hsupplied', hchecked'⟩

omit hc hw in
/-- A literal that passes is one of a type without parameters. -/
theorem keepsValue_scalar (span : Span) (v : Scalar) : KeepsValue c σ s t (.scalar span v) := by
  intro type other e' hvalue hbecomes happly
  cases happly
  obtain ⟨htype, hparams⟩ := checkValue_scalar_iff.mp hvalue
  obtain ⟨hname, ks, -, hall⟩ := hbecomes.params hp.builtin h.respects
  rw [hparams] at hall
  have hempty : other.params = [] := by
    generalize other.params = ps at hall
    cases hall
    rfl
  exact checkValue_scalar_iff.mpr ⟨htype.trans hname, hempty⟩

theorem keeps_access (a : Access) :
    KeepsValue c σ s t (.access a) ∧ KeepsLength c σ s t (.access a) := by
  refine ⟨fun type other e' hvalue hbecomes happly => ?_,
    fun element other l e' hlength hbecomes happly => ?_⟩
  · obtain ⟨actual, haccess, hequal⟩ := (checkValue_access_iff hc h.source.outer).mp hvalue
    have hactual := hasSort_type_of_accessType hp hw h.source haccess
    exact h.access haccess (hbecomes.of_equal hp.builtin h.respects hactual hequal) happly
  · obtain ⟨type, actual, haccess, harray, hequal⟩ :=
      (lengthOf_access_iff hc h.source.outer).mp hlength
    have hactual := hasSort_element hp.builtin harray
      (hasSort_type_of_accessType hp hw h.source haccess)
    exact h.length haccess harray (hbecomes.of_equal hp.builtin h.respects hactual hequal) happly

omit hw in
theorem keeps_binary {span : Span} {op : BinaryOp} {l r : Expr} (hop : op.keepsSort = true)
    (hl : KeepsValue c σ s t l ∧ KeepsLength c σ s t l)
    (hr : KeepsValue c σ s t r ∧ KeepsLength c σ s t r) :
    KeepsValue c σ s t (.binary span op l r) ∧ KeepsLength c σ s t (.binary span op l r) := by
  have hs := h.source.outer
  have ht := h.target.outer
  have hadd : ∀ {left left' right right' : Expr},
      Becomes c.schema s.sorts t.sorts σ (.value .unsigned) left left' →
      Becomes c.schema s.sorts t.sorts σ (.value .unsigned) right right' →
      Becomes c.schema s.sorts t.sorts σ (.value .unsigned) (.binary span .add left right)
        (.binary span .add left' right') := fun hleft hright =>
    hleft.binary rfl (by decide) hright span span
  refine ⟨fun type other e' hvalue hbecomes happly => ?_,
    fun element other length e' hlength hbecomes happly => ?_⟩ <;>
    obtain ⟨l', r', hl', hr', rfl⟩ := of_apply_binary happly
  · by_cases hunion : op = .union ∧ type.name = .array
    · obtain ⟨rfl, harray⟩ := hunion
      obtain ⟨element, length, left, right, harray, hleft, hright, hequal⟩ :=
        (checkValue_union_iff hc hs harray).mp hvalue
      obtain ⟨element', length', harray', helement, hlength⟩ :=
        hbecomes.isArrayOf hp.builtin h.respects harray
      obtain ⟨left', hleft', hleft⟩ := hl.2 _ _ _ _ hleft helement hl'
      obtain ⟨right', hright', hright⟩ := hr.2 _ _ _ _ hright helement hr'
      exact (checkValue_union_iff hc ht harray'.1).mpr ⟨element', length', left', right', harray',
        hleft', hright', hlength.equal hp.builtin h.respects (hadd hleft hright) hequal⟩
    · have hmem : op ≠ .mem := by
        rintro rfl
        cases hop
      obtain ⟨hoperand, hleft, hright⟩ := (checkValue_binary_iff hc hs hmem hunion).mp hvalue
      rw [(hbecomes.params hp.builtin h.respects).1] at hoperand hunion
      exact (checkValue_binary_iff hc ht hmem hunion).mpr ⟨hoperand,
        hl.1 _ _ _ hleft hbecomes hl', hr.1 _ _ _ hright hbecomes hr'⟩
  · obtain ⟨rfl, left, right, hleft, hright, rfl⟩ := (lengthOf_binary_iff hc hs).mp hlength
    obtain ⟨left', hleft', hleft⟩ := hl.2 _ _ _ _ hleft hbecomes hl'
    obtain ⟨right', hright', hright⟩ := hr.2 _ _ _ _ hright hbecomes hr'
    exact ⟨_, (lengthOf_binary_iff hc ht).mpr ⟨rfl, left', right', hleft', hright', rfl⟩,
      hadd hleft hright⟩

omit hw in
theorem keeps_collection {span : Span} {es : List Expr} (hes : ∀ e ∈ es, KeepsValue c σ s t e) :
    KeepsValue c σ s t (.collection span es) ∧ KeepsLength c σ s t (.collection span es) := by
  have hs := h.source.outer
  have ht := h.target.outer
  refine ⟨fun type other e' hvalue hbecomes happly => ?_,
    fun element other length e' hlength hbecomes happly => ?_⟩ <;>
    obtain ⟨es', hes', rfl⟩ := of_apply_collection happly
  · rcases (checkValue_collection_iff hc hs).mp hvalue with
      ⟨element, hset, hall⟩ | ⟨element, length, harray, hall, hequal⟩
    · obtain ⟨element', hset', helement⟩ := hbecomes.isSetOf hp.builtin h.respects hset
      exact (checkValue_collection_iff hc ht).mpr (.inl ⟨element', hset',
        checkValue_of_elements hes hes' helement hall⟩)
    · obtain ⟨element', length', harray', helement, hlength⟩ :=
        hbecomes.isArrayOf hp.builtin h.respects harray
      refine (checkValue_collection_iff hc ht).mpr (.inr ⟨element', length', harray',
        checkValue_of_elements hes hes' helement hall, ?_⟩)
      exact hlength.equal hp.builtin h.respects (becomes_literalLength hp.builtin h.respects hes')
        hequal
  · obtain ⟨hall, rfl⟩ := (lengthOf_collection_iff hc hs).mp hlength
    exact ⟨_, (lengthOf_collection_iff hc ht).mpr
      ⟨checkValue_of_elements hes hes' hbecomes hall, rfl⟩,
      becomes_literalLength hp.builtin h.respects hes'⟩

theorem keeps_call {span : Span} {callee : Ident} {as : List Expr}
    (hcallee : c.schema.isSteady callee.name = true) (hsteady : ∀ a ∈ as, a.steady c.schema = true)
    (has : ∀ a ∈ as, KeepsValue c σ s t a) :
    KeepsValue c σ s t (.call span callee as) ∧ KeepsLength c σ s t (.call span callee as) := by
  have hs := h.source.outer
  have ht := h.target.outer
  refine ⟨fun type other e' hvalue hbecomes happly => ?_,
    fun element other length e' hlength hbecomes happly => ?_⟩ <;>
    obtain ⟨bs, hbs, rfl⟩ := of_apply_call happly
  · obtain ⟨actual, hcall, hequal⟩ := (checkValue_call_iff hc hs).mp hvalue
    obtain ⟨actual', hcall', hactual⟩ := exists_callType hc hp hw h hcallee hsteady has hbs hcall
    exact (checkValue_call_iff hc ht).mpr
      ⟨actual', hcall', hbecomes.equal hp.builtin h.respects hactual hequal⟩
  · obtain ⟨type, actual, hcall, harray, hequal⟩ := (lengthOf_call_iff hc hs).mp hlength
    obtain ⟨type', hcall', htype⟩ := exists_callType hc hp hw h hcallee hsteady has hbs hcall
    obtain ⟨actual', length', harray', hactual, hlength⟩ :=
      htype.isArrayOf hp.builtin h.respects harray
    exact ⟨length', (lengthOf_call_iff hc ht).mpr ⟨type', actual', hcall', harray',
      hbecomes.equal hp.builtin h.respects hactual hequal⟩, hlength⟩

/-- **A substitution that takes one scope to another takes what passes to what passes**, and lengths
to lengths. -/
theorem keeps (e : Expr) (hsteady : e.steady c.schema = true) :
    KeepsValue c σ s t e ∧ KeepsLength c σ s t e := by
  induction e using Expr.induct with
  | scalar span v => exact ⟨keepsValue_scalar hp h span v, fun _ _ _ _ hlength => by cases hlength⟩
  | access a => exact keeps_access hc hp hw h a
  | binary span op l r ihl ihr =>
    simp only [Expr.steady, Bool.and_eq_true] at hsteady
    exact keeps_binary hc hp h hsteady.1 (ihl hsteady.2.1) (ihr hsteady.2.2)
  | unary span op x ih =>
    refine ⟨fun type other e' hvalue hbecomes happly => ?_, fun _ _ _ _ hlength => by cases hlength⟩
    obtain ⟨x', hx', rfl⟩ := of_apply_unary happly
    obtain ⟨hoperand, hx⟩ := checkValue_unary_iff.mp hvalue
    rw [(hbecomes.params hp.builtin h.respects).1] at hoperand
    exact checkValue_unary_iff.mpr ⟨hoperand, (ih hsteady).1 _ _ _ hx hbecomes hx'⟩
  | type span i ps =>
    refine ⟨fun _ _ _ hvalue => ?_, fun _ _ _ _ hlength => ?_⟩
    · cases hvalue
    · cases hlength
  | constructed span ctor inits ih =>
    simp only [Expr.steady, Bool.and_eq_true] at hsteady
    have hvalues := Expr.steadyFields_iff.mp hsteady.2
    exact ⟨keepsValue_constructed hc hp hw h hsteady.1 hvalues
      fun f hf => (ih f hf (hvalues f hf)).1, fun _ _ _ _ hlength => by cases hlength⟩
  | collection span es ih =>
    have hvalues := Expr.steadyAll_iff.mp hsteady
    exact keeps_collection hc hp h fun e he => (ih e he (hvalues e he)).1
  | call span callee as ih =>
    simp only [Expr.steady, Bool.and_eq_true] at hsteady
    have hvalues := Expr.steadyAll_iff.mp hsteady.2
    exact keeps_call hc hp hw h hsteady.1 hvalues fun a ha => (ih a ha (hvalues a ha)).1

end Carries

/-! ## §3. Carrying by what accesses become. -/

/-- Every scope is taken to itself where nothing is replaced. -/
theorem carries_self (hc : c.oracle = Structural.oracle) (hp : c.schema.Proper)
    (hw : c.schema.WellSorted) (ht : t.WellSorted c)
    (hfree : ∀ n f, c.schema.function? n = some f → t.scopes.find? n = none) :
    Carries c empty t t := by
  have hσ : empty.Respects c.schema t.sorts t.sorts := respects_empty fun _ _ h => h
  refine ⟨ht, ht, hfree, hσ, fun haccess hbecomes happly => ?_,
    fun haccess harray hbecomes happly => ?_⟩ <;>
    cases happly
  · have htype := hasSort_type_of_accessType hp hw ht haccess
    exact (checkValue_access_iff hc ht.outer).mpr
      ⟨_, haccess, hbecomes.unique hp.builtin hσ (becomes_self hp.builtin htype)⟩
  · have htype := hasSort_type_of_accessType hp hw ht haccess
    obtain ⟨_, _, _, helement, hlength⟩ :=
      (becomes_self hp.builtin htype).isArrayOf hp.builtin hσ harray
    refine ⟨_, (lengthOf_access_iff hc ht.outer).mpr ⟨_, _, haccess, harray,
      hbecomes.unique hp.builtin hσ (becomes_self hp.builtin helement.left)⟩,
      becomes_self hp.builtin hlength.left⟩

/-- What passes against a type passes against every equal type. -/
theorem checkValue_of_becomes (hc : c.oracle = Structural.oracle) (hp : c.schema.Proper)
    (hw : c.schema.WellSorted) (ht : t.WellSorted c)
    (hfree : ∀ n f, c.schema.function? n = some f → t.scopes.find? n = none) {e : Expr}
    (hsteady : e.steady c.schema = true) {type other : TypeExpr}
    (hbecomes : Becomes c.schema t.sorts t.sorts empty .type type.toExpr other.toExpr)
    (h : (checkValue e type c t).1 = .ok ()) : (checkValue e other c t).1 = .ok () :=
  ((carries_self hc hp hw ht hfree).keeps hc hp hw e hsteady).1 type other e h hbecomes
    (apply_empty e)

/-- **It is enough that what each access becomes is steady and passes.** -/
theorem carries_of_access (hc : c.oracle = Structural.oracle) (hp : c.schema.Proper)
    (hw : c.schema.WellSorted) (hs : s.WellSorted c) (ht : t.WellSorted c)
    (hfree : ∀ n f, c.schema.function? n = some f → t.scopes.find? n = none)
    (hσ : σ.Respects c.schema s.sorts t.sorts)
    (haccess : ∀ {a : Access} {type other : TypeExpr} {e : Expr},
      (accessType a c s).1 = .ok (.value type) →
      Becomes c.schema s.sorts t.sorts σ .type type.toExpr other.toExpr →
      σ.apply (.access a) = .ok e →
        e.steady c.schema = true ∧ (checkValue e other c t).1 = .ok ()) :
    Carries c σ s t := by
  refine ⟨hs, ht, hfree, hσ, fun h hbecomes happly => (haccess h hbecomes happly).2,
    fun {a type element other l e} h harray hbecomes happly => ?_⟩
  have htype := hasSort_type_of_accessType hp hw hs h
  obtain ⟨_, htype', -⟩ := htype.apply hp.builtin hσ
  obtain ⟨ps, -, rfl⟩ := of_apply_type htype'
  have hbecomes' : Becomes c.schema s.sorts t.sorts σ .type type.toExpr
      (TypeExpr.toExpr ⟨type.span, type.ident, ps⟩) := becomes_of_apply hp.builtin hσ htype htype'
  obtain ⟨element', l', harray', helement, hl⟩ := hbecomes'.isArrayOf hp.builtin hσ harray
  -- the length that the type becomes, and the one of what the access becomes
  obtain ⟨hsteady, hvalue⟩ := haccess h hbecomes' happly
  obtain ⟨l₁, hl₁, hequal⟩ := exists_length hc hp ht.outer hsteady harray' hvalue
  have hself := becomes_of_equal helement.right hbecomes.right
    (helement.unique hp.builtin hσ hbecomes)
  obtain ⟨l₂, hl₂, hboth⟩ := ((carries_self hc hp hw ht hfree).keeps hc hp hw e hsteady).2 element'
    other l₁ e hl₁ hself (apply_empty e)
  obtain ⟨_, hempty, hsame⟩ := hboth.same
  cases (apply_empty l₁).symm.trans hempty
  exact ⟨l₂, hl₂, (hl.trans_equal hp.builtin hσ hboth.left hequal).trans_equal hp.builtin hσ
    hboth.right hsame.equal⟩

/-! ## §4. Types. -/

/-- **A substitution that takes one scope to another takes well-formed types to well-formed
ones.** -/
theorem Carries.requireFormed (hc : c.oracle = Structural.oracle) (hp : c.schema.Proper)
    (hw : c.schema.WellSorted) (h : σ.Carries c s t) (e : Expr) :
    ∀ {type other : TypeExpr}, e = type.toExpr → e.steady c.schema = true →
      (Typing.requireFormed type c s).1 = .ok () → σ.applyType type = .ok other →
        (Typing.requireFormed other c t).1 = .ok () := by
  have hs := h.source.outer
  have ht := h.target.outer
  induction e using Expr.induct with
  | type span i ps ih =>
    intro type other htype hsteady hformed happly
    obtain rfl : type = ⟨span, i, ps⟩ := Option.some.inj (congrArg Expr.type? htype).symm
    obtain ⟨qs, hqs, hother⟩ := of_apply_type (applyType_eq_ok_iff.mp happly)
    obtain rfl : other = ⟨span, i, qs⟩ := Option.some.inj (congrArg Expr.type? hother)
    have hparams := Expr.steadyAll_iff.mp hsteady
    by_cases hscalar : i.name.isScalar = true
    · have hempty : ps = [] :=
        (requireFormed_scalar_iff (t := ⟨span, i, ps⟩) hscalar).mp hformed
      subst hempty
      cases hqs
      exact (requireFormed_scalar_iff (t := ⟨span, i, []⟩) hscalar).mpr rfl
    by_cases harray : i.name = .array
    · obtain ⟨element, length, hps, helement, hlength⟩ :=
        (requireFormed_array_iff (t := ⟨span, i, ps⟩) hc hs harray).mp hformed
      have hps : ps = [element.toExpr, length] := hps
      subst hps
      rw [List.forall_mem_cons, List.forall_mem_singleton] at hparams
      obtain ⟨_, _, helement', hrest, rfl⟩ := of_applyAll_cons hqs
      obtain ⟨length', _, hlength', hnil, rfl⟩ := of_applyAll_cons hrest
      cases hnil
      obtain ⟨elementParams, -, rfl⟩ := of_apply_type helement'
      refine (requireFormed_array_iff (t := ⟨span, i, _⟩) hc ht harray).mpr
        ⟨⟨element.span, element.ident, elementParams⟩, length', rfl, ?_, ?_⟩
      · exact ih _ List.mem_cons_self rfl hparams.1 helement (applyType_eq_ok_iff.mpr helement')
      · have hkinds : c.schema.paramKinds? .unsigned = some [] := by
          rw [Schema.paramKinds?, if_pos (by decide)]
        exact (h.keeps hc hp hw length hparams.2).1 _ _ _ hlength (BecomeAll.type rfl hkinds .nil)
          hlength'
    by_cases hset : i.name = .set
    · obtain ⟨element, hps, helement⟩ :=
        (requireFormed_set_iff (t := ⟨span, i, ps⟩) hc hs hset).mp hformed
      have hps : ps = [element.toExpr] := hps
      subst hps
      rw [List.forall_mem_singleton] at hparams
      obtain ⟨_, _, helement', hnil, rfl⟩ := of_applyAll_cons hqs
      cases hnil
      obtain ⟨elementParams, -, rfl⟩ := of_apply_type helement'
      exact (requireFormed_set_iff (t := ⟨span, i, _⟩) hc ht hset).mpr
        ⟨⟨element.span, element.ident, elementParams⟩, rfl,
          ih _ List.mem_cons_self rfl hparams helement (applyType_eq_ok_iff.mpr helement')⟩
    · have hname := Symbol.not_mem_builtins hscalar harray hset
      obtain ⟨deps, hdeps, hlength, hchecked⟩ :=
        (requireFormed_declared_iff (t := ⟨span, i, ps⟩) hc hs hname).mp hformed
      obtain ⟨ks, hks, hall⟩ := exists_kinds (forall₂_of_checkParams hc hs
        (fun p hp' => (sorts_of_steady hc hp h.source.toSorted p (hparams p hp')).1)
        (hp.sort?_of_dep hdeps) hlength hchecked)
      obtain ⟨d, hd, rfl⟩ := Option.map_eq_some_iff.mp hdeps
      refine (requireFormed_declared_iff (t := ⟨span, i, qs⟩) hc ht hname).mpr
        ⟨d.deps, hdeps, (applyAll_length hqs).trans hlength, ?_⟩
      exact checkParams_of_tracks hc hp hs ht h.respects tracks_empty
        (hw.deps d (Schema.mem_of_type? hd)) hks hall
        (fun p hp' => (h.keeps hc hp hw p (hparams p hp')).1) hqs hchecked
  | _ =>
    intro type other htype
    cases htype

end Substitution

end DepSchema
