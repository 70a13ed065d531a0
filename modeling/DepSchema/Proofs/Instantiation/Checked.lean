/-
DepSchema.Proofs.Instantiation.Checked — what a check asks of the parts of a value or a type.

Outside a rule input no check changes the names in scope, and the structural oracle does not
remember what it was asked. What a check of several steps finds is then what each step finds in one
and the same state, so that each check is a conjunction of checks of parts. Dependencies with their
parameters, fields with their values and parameters with their arguments are all checked in one way:
in order, each standing for what was supplied in the types after it.

Main results: `bind_ok_iff`, and one equivalence for each way in which a value or a type is built,
from `checkValue_access_iff` to `requireFormed_declared_iff`.
-/
import DepSchema.Proofs.Instantiation.Sorts
import DepSchema.Proofs.Typing.Arrays
import DepSchema.Proofs.Typing.Paths

namespace DepSchema

namespace Check

variable {α β : Type} {c : Setting} {s : Checking}

/-! ## §1. Single steps. -/

/-- **Two steps are taken in one state.** -/
theorem bind_ok_iff (hc : c.oracle.Forgetful) (hs : s.Outer) {x : Check α} {f : α → Check β} {b : β}
    (hx : StepwiseInside false x) (hf : ∀ a, StepwiseInside false (f a)) :
    ((x >>= f) c s).1 = .ok b ↔ ∃ a, (x c s).1 = .ok a ∧ (f a c s).1 = .ok b := by
  rcases hrun : x c s with ⟨d | a, t⟩
  · rw [bind_error hrun]
    exact ⟨nofun, fun h => by obtain ⟨_, h, -⟩ := h; cases h⟩
  · have hstill := hx.quiet.still_of_run hs.isOpen hrun
    have hagrees : s.Agrees t :=
      ⟨hstill.scopes hs.notReading, hstill.substitution, hstill.readingInput⟩
    rw [bind_ok hrun, ((hf a).stepwise.forgets hc s t hagrees).1]
    simp

theorem seq_ok_iff (hc : c.oracle.Forgetful) (hs : s.Outer) {x : Check Unit} {f : Unit → Check β}
    {b : β} (hx : StepwiseInside false x) (hf : ∀ u, StepwiseInside false (f u)) :
    ((x >>= f) c s).1 = .ok b ↔ (x c s).1 = .ok () ∧ (f () c s).1 = .ok b := by
  rw [bind_ok_iff hc hs hx hf]
  exact ⟨fun ⟨_, h⟩ => h, fun h => ⟨(), h⟩⟩

theorem fail_ne_ok {span : Span} {cause : Cause} {b : β} :
    (fail span cause c s : Except Diagnostic β × Checking).1 ≠ .ok b := by
  intro h
  cases h

theorem getSome_bind_ok_iff {span : Span} {cause : Cause} {o : Option α} {f : α → Check β} {b : β} :
    ((getSome span cause o >>= f) c s).1 = .ok b ↔ ∃ a, o = some a ∧ (f a c s).1 = .ok b := by
  cases o with
  | none => exact ⟨nofun, fun h => by obtain ⟨_, h, -⟩ := h; cases h⟩
  | some a =>
    show (f a c s).1 = .ok b ↔ _
    simp

theorem getSome_ok_iff {span : Span} {cause : Cause} {o : Option α} {a : α} :
    (getSome span cause o c s).1 = .ok a ↔ o = some a := by
  cases o with
  | none => exact ⟨nofun, nofun⟩
  | some b => simp [getSome, pure]

theorem under_ok_iff {σ : Substitution} {type type' : TypeExpr} :
    (under σ type c s).1 = .ok type' ↔ σ.applyType type = .ok type' := by
  unfold under ofSubstitution
  cases σ.applyType type with
  | error e => exact ⟨nofun, nofun⟩
  | ok t => simp [Except.mapError]

theorem under_bind_ok_iff {σ : Substitution} {type : TypeExpr} {f : TypeExpr → Check β} {b : β} :
    ((under σ type >>= f) c s).1 = .ok b
      ↔ ∃ type', σ.applyType type = .ok type' ∧ (f type' c s).1 = .ok b := by
  rcases hrun : under σ type c s with ⟨d | type', t⟩
  · rw [bind_error hrun]
    refine ⟨nofun, ?_⟩
    rintro ⟨type', happly, -⟩
    rw [← under_ok_iff (c := c) (s := s), hrun] at happly
    cases happly
  · obtain ⟨happly, rfl⟩ := under_eq_ok hrun
    rw [bind_ok hrun, happly]
    simp

theorem guard_ok_iff {p : Prop} [Decidable p] {span : Span} {cause : Cause} {f : α → Check β}
    {x : Check β} {b : β} :
    ((if p then fail span cause >>= f else x) c s).1 = .ok b ↔ ¬p ∧ (x c s).1 = .ok b := by
  by_cases hp : p
  · rw [if_pos hp]
    exact ⟨nofun, fun h => absurd hp h.1⟩
  · rw [if_neg hp]
    exact (and_iff_right hp).symm

end Check

namespace Typing

open Check

variable {c : Setting} {s : Checking}

/-! ## §2. Values. -/

theorem requireSameType_ok_iff (hc : c.oracle = Structural.oracle) {expected got : TypeExpr}
    {span : Span} : (requireSameType expected got span c s).1 = .ok ()
      ↔ Structural.equal expected.toExpr got.toExpr = true :=
  settles_requireSameType hc expected got span s

theorem requireValue_ok_iff (hc : c.oracle = Structural.oracle) {expected : TypeExpr} {b : Binding}
    {span : Span} : (requireValue expected b span c s).1 = .ok ()
      ↔ ∃ type, b = .value type ∧ Structural.equal expected.toExpr type.toExpr = true := by
  cases b with
  | value type =>
    refine (requireSameType_ok_iff hc).trans ?_
    simp
  | function ft => exact ⟨nofun, fun h => by obtain ⟨_, h, -⟩ := h; cases h⟩

/-- What stands for a value has a type, which is compared with the expected one. -/
theorem requireValue_bind_ok_iff (hc : c.oracle = Structural.oracle) (hs : s.Outer)
    {x : Check Binding} (hx : StepwiseInside false x) {expected : TypeExpr} {span : Span} :
    ((x >>= fun b => requireValue expected b span) c s).1 = .ok ()
      ↔ ∃ type, (x c s).1 = .ok (.value type)
        ∧ Structural.equal expected.toExpr type.toExpr = true := by
  rw [bind_ok_iff (hc ▸ Structural.forgetful) hs hx fun b => stepwise_requireValue expected b span]
  simp only [requireValue_ok_iff hc]
  constructor
  · rintro ⟨_, haccess, type, rfl, hequal⟩
    exact ⟨type, haccess, hequal⟩
  · rintro ⟨type, haccess, hequal⟩
    exact ⟨_, haccess, type, rfl, hequal⟩

theorem checkElements_iff (hc : c.oracle = Structural.oracle) (hs : s.Outer) {element : TypeExpr}
    {es : List Expr} : (checkElements es element c s).1 = .ok ()
      ↔ ∀ e ∈ es, (checkValue e element c s).1 = .ok () :=
  (givesIf_checkElements (hc ▸ Structural.forgetful) hs element es).passes_iff

theorem requireLength_ok_iff (hc : c.oracle = Structural.oracle) {expected got : Expr}
    {span : Span} : (requireLength expected got span c s).1 = .ok ()
      ↔ Structural.equal expected got = true :=
  settles_requireLength hc expected got span s

/-! ## §3. Variables with what is supplied for them. -/

end Typing

/-- The substitution with what is supplied for some variables, in order. -/
def Substitution.supply : Substitution → List Variable → List Expr → Substitution
  | σ, v :: vs, p :: ps => supply (σ.bind v.name.name p) vs ps
  | σ, _, _ => σ

namespace Typing

open Check

variable {c : Setting} {s : Checking}

theorem bindDeps_eq_supply (deps : List Variable) (params : List Expr) :
    bindDeps deps params = Substitution.supply .empty deps params := by
  unfold bindDeps
  generalize Substitution.empty = σ
  induction deps generalizing params σ with
  | nil => rfl
  | cons dep deps ih =>
    cases params with
    | nil => rfl
    | cons param params => exact ih params _

theorem checkParams_cons_iff (hc : c.oracle = Structural.oracle) (hs : s.Outer) {σ : Substitution}
    {v : Variable} {vs : List Variable} {p : Expr} {ps : List Expr} :
    (checkParams σ (v :: vs) (p :: ps) c s).1 = .ok () ↔ ∃ type, σ.applyType v.type = .ok type
      ∧ (checkValue p type c s).1 = .ok ()
      ∧ (checkParams (σ.bind v.name.name p) vs ps c s).1 = .ok () := by
  rw [checkParams, under_bind_ok_iff]
  refine exists_congr fun type => and_congr_right fun _ => ?_
  rw [seq_ok_iff (hc ▸ Structural.forgetful) hs (stepwise_checkValue p type)
    fun _ => stepwise_checkParams vs ps _]

/-- **Arguments are checked against parameters that are values as parameters of a type are.** -/
theorem checkArguments_ok_iff (hc : c.oracle = Structural.oracle) (hs : s.Outer)
    (vars : List Variable) : ∀ {as : List Expr} {σ σ' : Substitution} {rest : List Parameter},
      (checkArguments as σ (vars.map Variable.toParameter) c s).1 = .ok (σ', rest)
        ↔ (checkParams σ vars as c s).1 = .ok () ∧ σ' = Substitution.supply σ vars as
          ∧ rest = (vars.drop as.length).map Variable.toParameter := by
  induction vars with
  | nil =>
    intro as σ σ' rest
    cases as <;> simp [checkArguments, checkParams, Substitution.supply, pure, eq_comm]
  | cons v vars ih =>
    intro as σ σ' rest
    cases as with
    | nil => simp [checkArguments, checkParams, Substitution.supply, pure, eq_comm]
    | cons a as =>
      rw [checkParams_cons_iff hc hs]
      show ((under σ v.type >>= fun type => checkValue a type >>= fun _ =>
        checkArguments as (σ.bind v.name.name a) (vars.map Variable.toParameter)) c s).1 = _ ↔ _
      rw [under_bind_ok_iff]
      have hstep : ∀ type, ((checkValue a type >>= fun _ =>
          checkArguments as (σ.bind v.name.name a) (vars.map Variable.toParameter)) c s).1
            = .ok (σ', rest) ↔ (checkValue a type c s).1 = .ok ()
          ∧ (checkArguments as (σ.bind v.name.name a) (vars.map Variable.toParameter) c s).1
            = .ok (σ', rest) := fun type =>
        seq_ok_iff (hc ▸ Structural.forgetful) hs (stepwise_checkValue a type)
          fun _ => stepwise_checkArguments as _ _
      simp only [hstep, ih]
      constructor
      · rintro ⟨type, htype, hvalue, hrest, hσ, hdrop⟩
        exact ⟨⟨type, htype, hvalue, hrest⟩, hσ, hdrop⟩
      · rintro ⟨⟨type, htype, hvalue, hrest⟩, hσ, hdrop⟩
        exact ⟨type, htype, hvalue, hrest, hσ, hdrop⟩

/-- **Fields are checked against their values in the same way.** -/
theorem checkFields_ok_iff (hc : c.oracle = Structural.oracle) (hs : s.Outer) {span : Span}
    {ctor : Ident} {inits : List (Named Expr)} (fields : List Variable) : ∀ {σ : Substitution},
      (checkFields span ctor inits (checkField inits) σ fields c s).1 = .ok ()
        ↔ ∃ values, List.Forall₂ (fun v value => Named.find? inits v.name.name = some value)
            fields values ∧ (checkParams σ fields values c s).1 = .ok () := by
  induction fields with
  | nil =>
    intro σ
    refine ⟨fun _ => ⟨[], .nil, rfl⟩, fun _ => rfl⟩
  | cons field fields ih =>
    intro σ
    have hstep : (checkFields span ctor inits (checkField inits) σ (field :: fields) c s).1 = .ok ()
        ↔ ∃ value, Named.find? inits field.name.name = some value
          ∧ ∃ type, σ.applyType field.type = .ok type ∧ (checkValue value type c s).1 = .ok ()
            ∧ (checkFields span ctor inits (checkField inits) (σ.bind field.name.name value)
              fields c s).1 = .ok () := by
      rw [checkFields, getSome_bind_ok_iff]
      refine exists_congr fun value => and_congr_right fun hvalue => ?_
      rw [under_bind_ok_iff]
      refine exists_congr fun type => and_congr_right fun _ => ?_
      -- no rule input is read, so that the value is checked even if it is a variable alone
      have hread := introduceIfReading_eq value.bareVar? (.value type)
        (checkField inits field.name.name type) (fun _ => checkFields span ctor inits
          (checkField inits) (σ.bind field.name.name value) fields) c s
      refine (iff_of_eq (congrArg (fun r => r.1 = .ok ()) hread)).trans ?_
      rw [hs.notReading, checkField_of_find? hvalue]
      have hboth := seq_ok_iff (b := ()) (hc ▸ Structural.forgetful) hs
        (stepwise_checkValue value type) fun _ => stepwise_checkFields span ctor inits
          (fun n t => stepwise_checkField inits n t) fields (σ.bind field.name.name value)
      cases value.bareVar? <;> exact hboth
    rw [hstep]
    constructor
    · rintro ⟨value, hvalue, type, htype, hchecked, hrest⟩
      obtain ⟨values, hvalues, hrest⟩ := ih.mp hrest
      exact ⟨value :: values, .cons hvalue hvalues,
        (checkParams_cons_iff hc hs).mpr ⟨type, htype, hchecked, hrest⟩⟩
    · rintro ⟨_, hvalues, h⟩
      cases hvalues with
      | @cons _ value _ values hvalue hvalues =>
        obtain ⟨type, htype, hchecked, hrest⟩ := (checkParams_cons_iff hc hs).mp h
        exact ⟨value, hvalue, type, htype, hchecked, ih.mpr ⟨values, hvalues, hrest⟩⟩

end Typing

/-! ## §4. Values by the way they are built. -/

theorem Expr.type?_eq_some_iff {e : Expr} {t : TypeExpr} : e.type? = some t ↔ e = t.toExpr := by
  constructor
  · intro h
    cases e <;> cases h
    rfl
  · rintro rfl
    rfl

namespace TypeExpr

/-- The type is one of arrays with elements of a type and with a length. -/
def IsArrayOf (t element : TypeExpr) (length : Expr) : Prop :=
  t.name = .array ∧ t.params[0]? = some element.toExpr ∧ t.params[1]? = some length

/-- The type is one of sets with elements of a type. -/
def IsSetOf (t element : TypeExpr) : Prop := t.name = .set ∧ t.params[0]? = some element.toExpr

end TypeExpr

/-- What stands for the dependencies of a type in the fields of one of its constructors. -/
def Schema.opening? (s : Schema) (owner : TypeDef) (ctor : Symbol) (params : List Expr) :
    Option Substitution :=
  let σ := Typing.bindDeps owner.deps params
  match owner with
  | .message _ => some σ
  | .enum e => Rule.offered? s.ofMessage σ params e.rules ctor

namespace Typing

open Check

variable {c : Setting} {s : Checking}

theorem elementType_ok_iff {t element : TypeExpr} : (elementType t 0 c s).1 = .ok element
    ↔ t.params[0]? = some element.toExpr := by
  unfold elementType
  rw [getSome_bind_ok_iff]
  simp only [getSome_ok_iff, Expr.type?_eq_some_iff]
  simp

theorem stepwise_expectedLength (t : TypeExpr) : StepwiseInside false (expectedLength t) :=
  .getSome _ _ _

theorem expectedLength_bind_ok_iff {t : TypeExpr} {f : Expr → Check Unit} :
    ((expectedLength t >>= f) c s).1 = .ok ()
      ↔ ∃ length, t.params[1]? = some length ∧ (f length c s).1 = .ok () :=
  getSome_bind_ok_iff

theorem checkValue_scalar_iff {span : Span} {v : Scalar} {expected : TypeExpr} :
    (checkValue (.scalar span v) expected c s).1 = .ok ()
      ↔ v.type = expected.name ∧ expected.params = [] := by
  rw [checkValue, ← List.isEmpty_iff]
  split
  · next h => exact iff_of_true rfl h
  · next h => exact iff_of_false fail_ne_ok h

theorem checkValue_unary_iff {span : Span} {op : UnaryOp} {x : Expr} {expected : TypeExpr} :
    (checkValue (.unary span op x) expected c s).1 = .ok ()
      ↔ expected.name ∈ op.operandTypes ∧ (checkValue x expected c s).1 = .ok () := by
  rw [checkValue]
  split
  · next h => exact iff_of_false fail_ne_ok fun h' => h h'.1
  · next h => exact (and_iff_right (not_not.mp h)).symm

theorem checkValue_union_iff (hc : c.oracle = Structural.oracle) (hs : s.Outer) {span : Span}
    {l r : Expr} {expected : TypeExpr} (harray : expected.name = .array) :
    (checkValue (.binary span .union l r) expected c s).1 = .ok () ↔ ∃ element length left right,
      expected.IsArrayOf element length ∧ (lengthOf l element c s).1 = .ok left
        ∧ (lengthOf r element c s).1 = .ok right
        ∧ Structural.equal length (.binary span .add left right) = true := by
  have hforgets := hc ▸ Structural.forgetful
  have hlast : ∀ length left right : Expr, StepwiseInside false
      (requireLength length (.binary span .add left right) span) :=
    fun _ _ _ => stepwise_requireLength _ _ _
  rw [checkValue, if_pos ⟨rfl, harray⟩, bind_ok_iff hforgets hs (stepwise_elementType _ _)
    fun element => (stepwise_expectedLength _).bind fun length =>
      (stepwise_lengthOf l element).bind fun left =>
        (stepwise_lengthOf r element).bind fun right => hlast length left right]
  refine exists_congr fun element => ?_
  rw [elementType_ok_iff, expectedLength_bind_ok_iff, ← exists_and_left]
  refine exists_congr fun length => ?_
  rw [bind_ok_iff hforgets hs (stepwise_lengthOf l element) fun left =>
    (stepwise_lengthOf r element).bind fun right => hlast length left right]
  have hright : ∀ left, ((lengthOf r element >>= fun right =>
      requireLength length (.binary span .add left right) span) c s).1 = .ok () ↔ ∃ right,
        (lengthOf r element c s).1 = .ok right
          ∧ Structural.equal length (.binary span .add left right) = true := by
    intro left
    rw [bind_ok_iff hforgets hs (stepwise_lengthOf r element) fun right => hlast length left right]
    simp only [requireLength_ok_iff hc]
  simp only [hright, TypeExpr.IsArrayOf, harray, true_and, and_assoc, exists_and_left]

theorem checkValue_binary_iff (hc : c.oracle = Structural.oracle) (hs : s.Outer) {span : Span}
    {op : BinaryOp} {l r : Expr} {expected : TypeExpr} (hmem : op ≠ .mem)
    (hunion : ¬(op = .union ∧ expected.name = .array)) :
    (checkValue (.binary span op l r) expected c s).1 = .ok () ↔ expected.name ∈ op.operandTypes
      ∧ (checkValue l expected c s).1 = .ok () ∧ (checkValue r expected c s).1 = .ok () := by
  rw [checkValue, if_neg hunion]
  split
  · next h => exact iff_of_false fail_ne_ok fun h' => h h'.1
  · next h =>
    rw [seq_ok_iff (hc ▸ Structural.forgetful) hs (stepwise_checkValue l expected)
      fun _ => stepwise_checkValue r expected, and_iff_right (not_not.mp h)]

theorem checkValue_collection_iff (hc : c.oracle = Structural.oracle) (hs : s.Outer) {span : Span}
    {es : List Expr} {expected : TypeExpr} :
    (checkValue (.collection span es) expected c s).1 = .ok ()
      ↔ (∃ element, expected.IsSetOf element ∧ ∀ e ∈ es, (checkValue e element c s).1 = .ok ())
        ∨ ∃ element length, expected.IsArrayOf element length
          ∧ (∀ e ∈ es, (checkValue e element c s).1 = .ok ())
          ∧ Structural.equal length (literalLength span es) = true := by
  have hforgets := hc ▸ Structural.forgetful
  rw [checkValue]
  split
  · next hset =>
    rw [bind_ok_iff hforgets hs (stepwise_elementType _ _)
      fun element => stepwise_checkElements es element]
    simp only [elementType_ok_iff, checkElements_iff hc hs, TypeExpr.IsSetOf, TypeExpr.IsArrayOf,
      hset, true_and]
    refine (or_iff_left ?_).symm
    rintro ⟨_, _, h, -⟩
    exact absurd h.1 (by decide)
  · next hset =>
    split
    · next harray =>
      rw [bind_ok_iff hforgets hs (stepwise_elementType _ _) fun element =>
        (stepwise_expectedLength _).bind fun length =>
          (stepwise_checkElements es element).bind fun _ => stepwise_requireLength _ _ _]
      have hnot : ¬∃ element, expected.IsSetOf element
          ∧ ∀ e ∈ es, (checkValue e element c s).1 = .ok () := by
        rintro ⟨_, h, -⟩
        exact hset h.1
      refine Iff.trans (exists_congr fun element => ?_) (or_iff_right hnot).symm
      rw [elementType_ok_iff, expectedLength_bind_ok_iff, ← exists_and_left]
      refine exists_congr fun length => ?_
      rw [seq_ok_iff hforgets hs (stepwise_checkElements es element)
        fun _ => stepwise_requireLength _ _ _, checkElements_iff hc hs, requireLength_ok_iff hc]
      simp only [TypeExpr.IsArrayOf, harray, true_and, and_assoc]
    · next harray =>
      refine iff_of_false fail_ne_ok ?_
      rintro (⟨_, h, -⟩ | ⟨_, _, h, -⟩)
      · exact hset h.1
      · exact harray h.1

theorem checkValue_constructed_iff (hc : c.oracle = Structural.oracle) (hs : s.Outer) {span : Span}
    {ctor : Ident} {inits : List (Named Expr)} {expected : TypeExpr} :
    (checkValue (.constructed span ctor inits) expected c s).1 = .ok ()
      ↔ ∃ owner declared σ values, c.schema.constructor? ctor.name = some (owner, declared)
        ∧ owner.name = expected.name ∧ owner.deps.length = expected.params.length
        ∧ c.schema.opening? owner ctor.name expected.params = some σ
        ∧ inits.length = declared.fields.length
        ∧ List.Forall₂ (fun v value => Named.find? inits v.name.name = some value)
            declared.fields values
        ∧ (checkParams σ declared.fields values c s).1 = .ok () := by
  have hforgets := hc ▸ Structural.forgetful
  have hfields : ∀ declared σ, StepwiseInside false
      (checkFields span ctor inits (checkField inits) σ declared) :=
    fun declared σ => stepwise_checkFields span ctor inits
      (fun n t => stepwise_checkField inits n t) declared σ
  rw [checkValue, checkConstructed]
  show ((getSome ctor.span _ (c.schema.constructor? ctor.name) >>= _) c s).1 = .ok () ↔ _
  rw [getSome_bind_ok_iff]
  rw [Prod.exists]
  refine exists_congr fun owner => exists_congr fun declared => ?_
  simp only [exists_and_left]
  refine and_congr_right fun hfound => ?_
  rw [guard_ok_iff, not_not, guard_ok_iff, not_not]
  refine and_congr_right fun hname => and_congr_right fun hlength => ?_
  have hopened : ∀ σ, ((if inits.length ≠ declared.fields.length then
        fail span (.fieldCount ctor.name declared.fields.length inits.length) >>= fun _ : Unit =>
          checkFields span ctor inits (checkField inits) σ declared.fields
      else checkFields span ctor inits (checkField inits) σ declared.fields : Check Unit) c s).1
        = .ok ()
      ↔ inits.length = declared.fields.length ∧ ∃ values,
        List.Forall₂ (fun v value => Named.find? inits v.name.name = some value) declared.fields
          values ∧ (checkParams σ declared.fields values c s).1 = .ok () := by
    intro σ
    rw [guard_ok_iff, not_not, checkFields_ok_iff hc hs]
  cases owner with
  | message m =>
    refine Iff.trans (hopened _) ?_
    simp [Schema.opening?]
  | enum e =>
    refine Iff.trans (bind_ok_iff hforgets hs (stepwise_dispatch _ _ _ _)
      fun σ => .guard (hfields _ σ)) (exists_congr fun σ => and_congr ?_ (hopened σ))
    rw [dispatch_ok_iff hc, ← Rule.offered?_eq_some_iff]
    rfl

/-! ## §5. Variables and calls. -/

theorem checkValue_access_iff (hc : c.oracle = Structural.oracle) (hs : s.Outer) {a : Access}
    {expected : TypeExpr} : (checkValue (.access a) expected c s).1 = .ok ()
      ↔ ∃ type, (accessType a c s).1 = .ok (.value type)
        ∧ Structural.equal expected.toExpr type.toExpr = true :=
  requireValue_bind_ok_iff hc hs (stepwise_accessType a)

theorem checkValue_call_iff (hc : c.oracle = Structural.oracle) (hs : s.Outer) {span : Span}
    {callee : Ident} {as : List Expr} {expected : TypeExpr} :
    (checkValue (.call span callee as) expected c s).1 = .ok () ↔ ∃ type,
      (callType span callee as.length (checkArguments as .empty) c s).1 = .ok (.value type)
        ∧ Structural.equal expected.toExpr type.toExpr = true := by
  rw [checkValue]
  exact requireValue_bind_ok_iff hc hs
    (stepwise_callType span callee as.length (stepwise_checkArguments as .empty))

section

variable {callee : Ident} {f : FunctionDef} (hf : c.schema.function? callee.name = some f)
  (hhidden : ∀ ft, s.scopes.find? callee.name ≠ some (.function ft))

include hf hhidden

/-- A function of the schema is called unless its name stands for something in scope. -/
theorem calleeType_ok_iff {ft : FunctionType} : (calleeType callee c s).1 = .ok ft
    ↔ s.scopes.find? callee.name = none ∧ ft = f.signature := by
  have hmeaning : meaning? callee.name c s = (.ok (s.scopes.find? callee.name), s) := rfl
  unfold calleeType
  rw [bind_ok hmeaning]
  cases hfind : s.scopes.find? callee.name with
  | some b =>
    cases b with
    | function ft => exact absurd hfind (hhidden ft)
    | value type =>
      refine iff_of_false fail_ne_ok ?_
      rintro ⟨h, -⟩
      cases h
  | none =>
    show ((getSome _ _ (c.schema.function? callee.name) >>= _) c s).1 = _ ↔ _
    rw [getSome_bind_ok_iff, hf]
    simp [pure, eq_comm]

/-- **A function whose parameters are values gives a value** if it has all its arguments and they
are values of the types of the parameters. -/
theorem callType_ok_iff (hc : c.oracle = Structural.oracle) (hs : s.Outer) {vars : List Variable}
    (hparams : f.params = vars.map Variable.toParameter) {span : Span} {as : List Expr}
    {type : TypeExpr} :
    (callType span callee as.length (checkArguments as .empty) c s).1 = .ok (.value type)
      ↔ s.scopes.find? callee.name = none ∧ as.length = vars.length
        ∧ (checkParams .empty vars as c s).1 = .ok ()
        ∧ (Substitution.supply .empty vars as).applyType f.result = .ok type := by
  have hforgets := hc ▸ Structural.forgetful
  have hgiven : ∀ r : Substitution × List Parameter, StepwiseInside false (do
      let result ← under r.1 f.signature.result
      if r.2.isEmpty then pure (.value result)
      else pure (.function ⟨← underParameters r.1 r.2, result⟩) : Check Binding) := fun r =>
    (StepwiseInside.under _ _).bind fun _ => .ite (.pure _)
      ((stepwise_underParameters _ _).bind fun _ => .pure _)
  -- with parameters that remain the call gives a function
  have hresult : ∀ r : Substitution × List Parameter, ((do
      let result ← under r.1 f.signature.result
      if r.2.isEmpty then pure (.value result)
      else pure (.function ⟨← underParameters r.1 r.2, result⟩) : Check Binding) c s).1
        = .ok (.value type) ↔ r.2 = [] ∧ r.1.applyType f.result = .ok type := by
    rintro ⟨σ, remaining⟩
    rw [under_bind_ok_iff]
    cases remaining with
    | nil =>
      constructor
      · rintro ⟨result, happly, h⟩
        cases h
        exact ⟨rfl, happly⟩
      · rintro ⟨-, happly⟩
        exact ⟨type, happly, rfl⟩
    | cons p ps =>
      refine ⟨fun ⟨result, _, h⟩ => ?_, fun h => by cases h.1⟩
      obtain ⟨ps', _, -, h⟩ := bind_eq_ok (Prod.ext h rfl)
      cases congrArg Prod.fst h
  unfold callType
  refine (bind_ok_iff hforgets hs (stepwise_calleeType callee) fun signature => .guard
    ((stepwise_checkArguments _ _ _).bind fun r => (StepwiseInside.under _ _).bind fun _ =>
      .ite (.pure _) ((stepwise_underParameters _ _).bind fun _ => .pure _))).trans ?_
  simp only [calleeType_ok_iff hf hhidden, and_assoc, exists_and_left, exists_eq_left]
  refine and_congr_right fun _ => ?_
  rw [guard_ok_iff, bind_ok_iff hforgets hs (stepwise_checkArguments as _ _) hgiven]
  simp only [hresult, Prod.exists]
  have hsignature : f.signature.params = vars.map Variable.toParameter := hparams
  rw [hsignature]
  simp only [checkArguments_ok_iff hc hs, List.length_map]
  constructor
  · rintro ⟨hcount, σ, _, ⟨hchecked, rfl, rfl⟩, hempty, happly⟩
    have hlength := List.drop_eq_nil_iff.mp (List.map_eq_nil_iff.mp hempty)
    exact ⟨by omega, hchecked, happly⟩
  · rintro ⟨hcount, hchecked, happly⟩
    refine ⟨by omega, _, _, ⟨hchecked, rfl, rfl⟩, ?_, happly⟩
    rw [hcount, List.drop_length, List.map_nil]

end

/-! ## §6. Lengths of arrays. -/

/-- What stands for an array has an array type, and its elements have the type asked for. -/
theorem lengthOfBinding_bind_ok_iff (hc : c.oracle = Structural.oracle) (hs : s.Outer)
    {x : Check Binding} (hx : StepwiseInside false x) {element : TypeExpr} {span : Span}
    {length : Expr} :
    ((x >>= fun b => lengthOfBinding element b span) c s).1 = .ok length
      ↔ ∃ type actual, (x c s).1 = .ok (.value type) ∧ type.IsArrayOf actual length
        ∧ Structural.equal element.toExpr actual.toExpr = true := by
  have hforgets := hc ▸ Structural.forgetful
  rw [bind_ok_iff hforgets hs hx fun b => stepwise_lengthOfBinding element b span]
  have harray : ∀ type, (lengthOfBinding element (.value type) span c s).1 = .ok length
      ↔ ∃ actual, type.IsArrayOf actual length
        ∧ Structural.equal element.toExpr actual.toExpr = true := by
    intro type
    show ((if type.name ≠ .array then fail span (.notArrayType element type)
      else elementType type 0 >>= fun actual => requireSameType element actual span >>= fun _ =>
        getSome span (.arrayWithoutLength type) type.params[1]? : Check Expr) c s).1 = _ ↔ _
    by_cases hname : type.name = .array
    · rw [if_neg (not_not.mpr hname), bind_ok_iff hforgets hs (stepwise_elementType _ _)
        fun actual => (stepwise_requireSameType _ _ _).bind fun _ => .getSome _ _ _]
      refine exists_congr fun actual => ?_
      rw [elementType_ok_iff, seq_ok_iff hforgets hs (stepwise_requireSameType _ _ _)
        fun _ => .getSome _ _ _, getSome_ok_iff, requireSameType_ok_iff hc, TypeExpr.IsArrayOf]
      tauto
    · rw [if_pos hname]
      exact ⟨nofun, fun ⟨_, h, _⟩ => absurd h.1 hname⟩
  constructor
  · rintro ⟨b, hb, h⟩
    cases b with
    | function ft => cases h
    | value type =>
      obtain ⟨actual, hactual⟩ := (harray type).mp h
      exact ⟨type, actual, hb, hactual⟩
  · rintro ⟨type, actual, htype, hactual⟩
    exact ⟨_, htype, (harray type).mpr ⟨actual, hactual⟩⟩

theorem lengthOf_collection_iff (hc : c.oracle = Structural.oracle) (hs : s.Outer) {span : Span}
    {es : List Expr} {element : TypeExpr} {length : Expr} :
    (lengthOf (.collection span es) element c s).1 = .ok length
      ↔ (∀ e ∈ es, (checkValue e element c s).1 = .ok ()) ∧ length = literalLength span es := by
  rw [lengthOf, seq_ok_iff (hc ▸ Structural.forgetful) hs (stepwise_checkElements es element)
    fun _ => .pure _, checkElements_iff hc hs]
  simp [pure, eq_comm]

theorem lengthOf_binary_iff (hc : c.oracle = Structural.oracle) (hs : s.Outer) {span : Span}
    {op : BinaryOp} {l r : Expr} {element : TypeExpr} {length : Expr} :
    (lengthOf (.binary span op l r) element c s).1 = .ok length ↔ op = .union ∧ ∃ left right,
      (lengthOf l element c s).1 = .ok left ∧ (lengthOf r element c s).1 = .ok right
        ∧ length = .binary span .add left right := by
  have hforgets := hc ▸ Structural.forgetful
  rw [lengthOf]
  by_cases hop : op = .union
  · rw [if_pos hop, and_iff_right hop, bind_ok_iff hforgets hs (stepwise_lengthOf l element)
      fun left => (stepwise_lengthOf r element).bind fun right => .pure _]
    refine exists_congr fun left => ?_
    rw [bind_ok_iff hforgets hs (stepwise_lengthOf r element) fun right => .pure _]
    simp [pure, eq_comm]
  · rw [if_neg hop]
    exact iff_of_false fail_ne_ok fun h => hop h.1

theorem lengthOf_access_iff (hc : c.oracle = Structural.oracle) (hs : s.Outer) {a : Access}
    {element : TypeExpr} {length : Expr} : (lengthOf (.access a) element c s).1 = .ok length
      ↔ ∃ type actual, (accessType a c s).1 = .ok (.value type) ∧ type.IsArrayOf actual length
        ∧ Structural.equal element.toExpr actual.toExpr = true :=
  lengthOfBinding_bind_ok_iff hc hs (stepwise_accessType a)

theorem lengthOf_call_iff (hc : c.oracle = Structural.oracle) (hs : s.Outer) {span : Span}
    {callee : Ident} {as : List Expr} {element : TypeExpr} {length : Expr} :
    (lengthOf (.call span callee as) element c s).1 = .ok length ↔ ∃ type actual,
      (callType span callee as.length (checkArguments as .empty) c s).1 = .ok (.value type)
        ∧ type.IsArrayOf actual length
        ∧ Structural.equal element.toExpr actual.toExpr = true := by
  rw [lengthOf]
  exact lengthOfBinding_bind_ok_iff hc hs
    (stepwise_callType span callee as.length (stepwise_checkArguments as .empty))

/-! ## §7. Types. -/

end Typing

theorem Symbol.of_not_mem_builtins {n : Symbol} (h : n ∉ builtins) :
    ¬n.isScalar = true ∧ n ≠ .array ∧ n ≠ .set := by
  refine ⟨fun hscalar => ?_, fun harray => ?_, fun hset => ?_⟩
  · rcases isScalar_iff.mp hscalar with rfl | rfl | rfl | rfl | rfl <;> exact h (by decide)
  · exact h (by rw [harray]; decide)
  · exact h (by rw [hset]; decide)

namespace Typing

open Check

variable {c : Setting} {s : Checking}

section

variable {t : TypeExpr}

theorem requireParams_ok_iff {arity : Nat} :
    (requireParams t arity c s).1 = .ok () ↔ t.params.length = arity := by
  unfold requireParams
  split
  · next h => exact iff_of_true rfl h
  · next h => exact iff_of_false fail_ne_ok h

theorem requireFormed_eq (t : TypeExpr) : requireFormed t
    = if t.name.isScalar then requireParams t 0
      else if t.name = .array then requireParams t 2 >>= fun _ =>
        requireFormedElement t t.params >>= fun _ => requireFormedLength t.params
      else if t.name = .set then requireParams t 1 >>= fun _ =>
        requireFormedElement t t.params
      else schema >>= fun s => getSome t.ident.span (.undefinedType t.name)
        (s.deps? t.name) >>= fun deps => requireParams t deps.length >>= fun _ =>
          checkParams .empty deps t.params := by
  rw [requireFormed, TypeExpr.toExpr, requireFormedExpr]
  rfl

/-- The elements of a collection have a well-formed type. -/
theorem requireFormedElement_ok_iff {e : Expr} {es : List Expr} :
    (requireFormedElement t (e :: es) c s).1 = .ok ()
      ↔ ∃ element, e = TypeExpr.toExpr element ∧ (requireFormed element c s).1 = .ok () := by
  rw [requireFormedElement]
  cases htype : e.type? with
  | none =>
    refine iff_of_false fail_ne_ok ?_
    rintro ⟨element, rfl, -⟩
    cases htype
  | some element =>
    obtain rfl := Expr.type?_eq_some_iff.mp htype
    constructor
    · exact fun h => ⟨element, rfl, h⟩
    · rintro ⟨other, heq, h⟩
      have hsame : some element = some other := congrArg Expr.type? heq
      cases hsame
      exact h

theorem requireFormed_scalar_iff (hscalar : t.name.isScalar = true) :
    (requireFormed t c s).1 = .ok () ↔ t.params = [] := by
  rw [requireFormed_eq, if_pos hscalar, requireParams_ok_iff, List.length_eq_zero_iff]

theorem requireFormed_array_iff (hc : c.oracle = Structural.oracle) (hs : s.Outer)
    (harray : t.name = .array) : (requireFormed t c s).1 = .ok () ↔ ∃ element length,
      t.params = [TypeExpr.toExpr element, length] ∧ (requireFormed element c s).1 = .ok ()
        ∧ (checkValue length (.builtin .unsigned length.span) c s).1 = .ok () := by
  have hforgets := hc ▸ Structural.forgetful
  rw [requireFormed_eq, if_neg (by rw [harray]; decide), if_pos harray,
    seq_ok_iff hforgets hs (stepwise_requireParams _ _) fun _ =>
      (stepwise_requireFormedElement _ _).bind fun _ => stepwise_requireFormedLength _,
    seq_ok_iff hforgets hs (stepwise_requireFormedElement _ _)
      fun _ => stepwise_requireFormedLength _, requireParams_ok_iff]
  constructor
  · rintro ⟨hcount, helement, hlength⟩
    obtain ⟨e, length, hparams⟩ := List.length_eq_two.mp hcount
    rw [hparams] at helement hlength
    obtain ⟨element, rfl, helement⟩ := requireFormedElement_ok_iff.mp helement
    exact ⟨element, length, hparams, helement, hlength⟩
  · rintro ⟨element, length, hparams, helement, hlength⟩
    rw [hparams]
    exact ⟨rfl, requireFormedElement_ok_iff.mpr ⟨element, rfl, helement⟩, hlength⟩

theorem requireFormed_set_iff (hc : c.oracle = Structural.oracle) (hs : s.Outer)
    (hset : t.name = .set) : (requireFormed t c s).1 = .ok () ↔ ∃ element,
      t.params = [TypeExpr.toExpr element] ∧ (requireFormed element c s).1 = .ok () := by
  rw [requireFormed_eq, if_neg (by rw [hset]; decide), if_neg (by rw [hset]; decide),
    if_pos hset, seq_ok_iff (hc ▸ Structural.forgetful) hs (stepwise_requireParams _ _)
      fun _ => stepwise_requireFormedElement _ _, requireParams_ok_iff]
  constructor
  · rintro ⟨hcount, helement⟩
    obtain ⟨e, hparams⟩ := List.length_eq_one_iff.mp hcount
    rw [hparams] at helement
    obtain ⟨element, rfl, helement⟩ := requireFormedElement_ok_iff.mp helement
    exact ⟨element, hparams, helement⟩
  · rintro ⟨element, hparams, helement⟩
    rw [hparams]
    exact ⟨rfl, requireFormedElement_ok_iff.mpr ⟨element, rfl, helement⟩⟩

theorem requireFormed_declared_iff (hc : c.oracle = Structural.oracle) (hs : s.Outer)
    (hname : t.name ∉ Symbol.builtins) : (requireFormed t c s).1 = .ok () ↔ ∃ deps,
      c.schema.deps? t.name = some deps ∧ t.params.length = deps.length
        ∧ (checkParams .empty deps t.params c s).1 = .ok () := by
  obtain ⟨hscalar, harray, hset⟩ := Symbol.of_not_mem_builtins hname
  rw [requireFormed_eq, if_neg hscalar, if_neg harray, if_neg hset]
  show ((getSome _ _ (c.schema.deps? t.name) >>= _) c s).1 = _ ↔ _
  rw [getSome_bind_ok_iff]
  refine exists_congr fun deps => and_congr_right fun _ => ?_
  rw [seq_ok_iff (hc ▸ Structural.forgetful) hs (stepwise_requireParams _ _)
    fun _ => stepwise_checkParams _ _ _, requireParams_ok_iff]

end

end Typing

end DepSchema
