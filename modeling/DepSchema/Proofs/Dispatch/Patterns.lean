/-
DepSchema.Proofs.Dispatch.Patterns — a matched pattern gives back what it was matched with.

A pattern that matches a closed value has no variables but those it binds. With these replaced by
what they were bound to, the pattern is the same as the value, and so are the parts that chains of
fields lead to. Where pattern and value are well typed and subtract nothing, this is so down to the
kinds of their integer literals.

Main definitions: `Expr.Agrees` and `Typing.Typed`. Main result: `agrees_of_bindings?`.
-/
import DepSchema.Proofs.Dispatch.Choice
import DepSchema.Proofs.Names.Tidy
import DepSchema.Proofs.Oracle.Congruence
import DepSchema.Proofs.Substitution.Composition
import DepSchema.Proofs.Vocabulary.Values

namespace DepSchema

/-! ## §1. Fields. -/

namespace Expr

/-- What holds of the parts of an expression holds of what fields lead to. -/
theorem follow_induction {P : Expr → Prop} (haccess : ∀ a, P (.access a))
    (hvalue : ∀ span c fs, P (.constructed span c fs) → ∀ f ∈ fs, P f.val) (fields : List Ident) :
    ∀ {e e' : Expr}, P e → e.follow fields = .ok e' → P e' := by
  induction fields with
  | nil =>
    intro e e' he h
    rw [follow_nil] at h
    cases h
    exact he
  | cons f fields ih =>
    intro e e' he h
    cases e with
    | access a =>
      cases h
      exact haccess _
    | constructed span c inits =>
      unfold follow at h
      cases hfind : Named.find? inits f.name with
      | none => simp [hfind] at h
      | some value =>
        obtain ⟨g, hg, rfl⟩ := Named.mem_of_find? hfind
        rw [hfind] at h
        exact ih (hvalue _ _ _ he g hg) h
    | _ => cases h

theorem fieldsDistinct_part {span : Span} {c : Ident} {fs : List (Named Expr)}
    (h : (constructed span c fs).fieldsDistinct = true) :
    ∀ f ∈ fs, f.val.fieldsDistinct = true := by
  simp only [fieldsDistinct, Bool.and_eq_true] at h
  exact valuesFieldsDistinct_iff.mp h.2

theorem fieldsDistinct_follow {e e' : Expr} {fields : List Ident} (he : e.fieldsDistinct = true)
    (h : e.follow fields = .ok e') : e'.fieldsDistinct = true :=
  follow_induction (P := fun e => e.fieldsDistinct = true) (fun _ => rfl)
    (fun _ _ _ => fieldsDistinct_part) fields he h

end Expr

/-! ## §2. Closed patterns. -/

namespace Expr

theorem varsFields_eq_nil {fs : List (Named Expr)} :
    varsFields fs = [] ↔ ∀ f ∈ fs, f.val.vars = [] := by
  induction fs with
  | nil => simp [varsFields]
  | cons f fs ih => simp [varsFields, ih]

mutual

/-- What is the same as a closed expression is closed. -/
theorem closed_of_sameAs : ∀ {e e' : Expr}, e.sameAs e' = true → e'.vars = [] → e.vars = []
  | .binary _ _ _ _, e', h, hclosed => by
    cases e' with
    | binary =>
      simp only [sameAs, Bool.and_eq_true] at h
      obtain ⟨hl, hr⟩ := List.append_eq_nil_iff.mp hclosed
      exact List.append_eq_nil_iff.mpr ⟨closed_of_sameAs h.1.2 hl, closed_of_sameAs h.2 hr⟩
    | _ => cases h
  | .unary _ _ x, e', h, hclosed => by
    cases e' with
    | unary _ _ x' =>
      simp only [sameAs, Bool.and_eq_true] at h
      have hx' : x'.vars = [] := hclosed
      have hx : x.vars = [] := closed_of_sameAs h.2 hx'
      exact hx
    | _ => cases h
  | .type _ _ ps, e', h, hclosed => by
    cases e' with
    | type _ _ ps' =>
      simp only [sameAs, Bool.and_eq_true] at h
      exact closed_of_allSameAs (l := ps) h.2 hclosed
    | _ => cases h
  | .access _, e', h, hclosed => by
    cases e' with
    | access => cases hclosed
    | _ => cases h
  | .scalar _ _, _, _, _ => rfl
  | .constructed _ _ fs, e', h, hclosed => by
    cases e' with
    | constructed _ _ fs' =>
      simp only [sameAs, Bool.and_eq_true] at h
      exact closed_of_fieldsSameAs (l := fs) h.2 hclosed
    | _ => cases h
  | .collection _ es, e', h, hclosed => by
    cases e' with
    | collection _ es' => exact closed_of_allSameAs (l := es) h hclosed
    | _ => cases h
  | .call _ _ as, e', h, hclosed => by
    cases e' with
    | call _ _ as' =>
      simp only [sameAs, Bool.and_eq_true] at h
      exact closed_of_allSameAs (l := as) h.2 hclosed
    | _ => cases h

theorem closed_of_allSameAs : ∀ {l l' : List Expr}, allSameAs l l' = true → varsAll l' = [] →
    varsAll l = []
  | [], _, _, _ => rfl
  | e :: es, l', h, hclosed => by
    cases l' with
    | nil => cases h
    | cons e' es' =>
      simp only [allSameAs, Bool.and_eq_true] at h
      obtain ⟨he, hes⟩ := List.append_eq_nil_iff.mp hclosed
      exact List.append_eq_nil_iff.mpr ⟨closed_of_sameAs h.1 he, closed_of_allSameAs h.2 hes⟩

theorem closed_of_fieldsSameAs : ∀ {l others : List (Named Expr)}, fieldsSameAs l others = true →
    varsFields others = [] → varsFields l = []
  | [], _, _, _ => rfl
  | f :: fs, others, h, hclosed => by
    unfold fieldsSameAs at h
    rw [Bool.and_eq_true] at h
    refine List.append_eq_nil_iff.mpr ⟨?_, closed_of_fieldsSameAs h.2 hclosed⟩
    cases hfind : Named.find? others f.name.name with
    | none =>
      rw [hfind] at h
      cases h.1
    | some value =>
      obtain ⟨g, hg, rfl⟩ := Named.mem_of_find? hfind
      rw [hfind] at h
      exact closed_of_sameAs h.1 (varsFields_eq_nil.mp hclosed g hg)

end

/-- A pattern that is equal to a closed value is closed. -/
theorem closed_of_equal {p a : Expr} (h : Structural.equal p a = true) (ha : a.vars = []) :
    p.vars = [] := by
  rw [← vars_fold]
  exact closed_of_sameAs h ((vars_fold a).trans ha)

end Expr

/-! ## §3. Well-typed literals. -/

namespace Expr

mutual

/-- Something is subtracted in the value, under operators or in its fields. -/
def subtracts : Expr → Bool
  | binary _ op l r => op == .sub || subtracts l || subtracts r
  | unary _ _ x => subtracts x
  | constructed _ _ fs => subtractsFields fs
  | _ => false
termination_by structural e => e

/-- Something is subtracted in the value of a field. -/
def subtractsFields : List (Named Expr) → Bool
  | [] => false
  | f :: fs => subtracts f.val || subtractsFields fs
termination_by structural fs => fs

end

theorem subtractsFields_eq_false {fs : List (Named Expr)} :
    subtractsFields fs = false ↔ ∀ f ∈ fs, f.val.subtracts = false := by
  induction fs with
  | nil => simp [subtractsFields]
  | cons f fs ih => simp [subtractsFields, ih]

end Expr

namespace Typing

open Check

variable {c : Setting}

/-- The value was checked against a type of that name, as part of a rule input or not. -/
def Typed (c : Setting) (reading : Bool) (e : Expr) (name : Symbol) : Prop :=
  ∃ (type : TypeExpr) (s t : Checking), type.name = name ∧ s.readingInput = reading
    ∧ s.substitution.scopes.frames ≠ [] ∧ checkValue e type c s = (.ok (), t)

/-- The value of a field is a variable alone inside a rule input, which is bound, or it was checked.
-/
def Supplied (c : Setting) (reading : Bool) (e : Expr) (name : Symbol) : Prop :=
  (reading = true ∧ e.bareVar?.isSome = true) ∨ Typed c reading e name

/-- **A well-typed value that is computed to a literal gives one of its type**, if it subtracts
nothing. -/
theorem Typed.literal {reading : Bool} {name : Symbol} {v : Scalar} : ∀ {e : Expr},
    Typed c reading e name → e.subtracts = false → e.fold.scalar? = some v → v.type = name
  | .scalar span w, h, _, hv => by
    obtain ⟨type, s, t, rfl, -, -, hrun⟩ := h
    cases hv
    unfold checkValue at hrun
    split at hrun
    · next heq => exact heq.1
    · cases hrun
  | .binary span op l r, h, hsub, hv => by
    simp only [Expr.subtracts, Bool.or_eq_false_iff, beq_eq_false_iff_ne] at hsub
    obtain ⟨a, ha, hv⟩ := Option.bind_eq_some_iff.mp ((Expr.scalar?_evalBinary ..).symm.trans hv)
    obtain ⟨b, hb, hv⟩ := Option.bind_eq_some_iff.mp hv
    obtain ⟨type, s, t, rfl, hreading, hopen, hrun⟩ := h
    unfold checkValue at hrun
    split at hrun
    · -- arrays are joined, which gives no literal
      next hunion =>
      rw [hunion.1] at hv
      cases a <;> cases b <;> cases hv
    · split at hrun
      · cases hrun
      · split at hrun
        · next hmem =>
          rw [hmem] at hv
          cases a <;> cases b <;> cases hv
        · obtain ⟨_, t₁, hl, hr⟩ := bind_eq_ok hrun
          have hstill := (stepwise_checkValue l type).quiet.still_of_run hopen hl
          have hla : a.type = type.name :=
            Typed.literal ⟨type, s, t₁, rfl, hreading, hopen, hl⟩ hsub.1.2 ha
          have hrb : b.type = type.name :=
            Typed.literal ⟨type, t₁, t, rfl, hstill.readingInput.trans hreading,
              hstill.substitution ▸ hopen, hr⟩ hsub.2 hb
          rw [op.type_of_eval? hsub.1.1 (hrb.trans hla.symm) hv, hla]
  | .unary span op x, h, hsub, hv => by
    obtain ⟨a, ha, hv⟩ := Option.bind_eq_some_iff.mp ((Expr.scalar?_evalUnary ..).symm.trans hv)
    obtain ⟨type, s, t, rfl, hreading, hopen, hrun⟩ := h
    unfold checkValue at hrun
    split at hrun
    · cases hrun
    · next hmem =>
      have hx : a.type = type.name :=
        Typed.literal ⟨type, s, t, rfl, hreading, hopen, hrun⟩ hsub ha
      have hunsigned : a.type ≠ .unsigned := by
        rw [hx]
        rintro heq
        rw [heq] at hmem
        exact hmem (by cases op <;> decide)
      rw [op.type_of_eval? hunsigned hv, hx]

theorem checkField_of_find? {inits : List (Named Expr)} {name : Symbol} {value : Expr}
    (h : Named.find? inits name = some value) (type : TypeExpr) :
    checkField inits name type = checkValue value type := by
  induction inits with
  | nil => cases h
  | cons f inits ih =>
    rw [Named.find?_cons] at h
    unfold checkField
    split
    · next hname =>
      rw [if_pos hname] at h
      cases h
      rfl
    · next hname =>
      rw [if_neg hname] at h
      exact ih h

theorem name_of_applyType {σ : Substitution} {type type' : TypeExpr}
    (h : σ.applyType type = .ok type') : type'.name = type.name := by
  obtain ⟨params, -, h⟩ := exists_of_bind_eq_ok h
  cases h
  rfl

/-- What the check of the fields of a constructor finds. -/
theorem supplied_of_checkFields {span : Span} {ctor : Ident} {inits : List (Named Expr)}
    (fields : List Variable) : ∀ {σ : Substitution} {s t : Checking},
      s.substitution.scopes.frames ≠ [] →
      checkFields span ctor inits (checkField inits) σ fields c s = (.ok (), t) →
      ∀ v ∈ fields, ∃ value, Named.find? inits v.name.name = some value
        ∧ Supplied c s.readingInput value v.type.name := by
  induction fields with
  | nil => simp
  | cons field fields ih =>
    intro σ s t hopen hrun
    unfold checkFields at hrun
    obtain ⟨value, s₁, hvalue, htype⟩ := bind_eq_ok hrun
    obtain ⟨hfind, rfl⟩ := getSome_eq_ok hvalue
    obtain ⟨type, s₂, hunder, hsupply⟩ := bind_eq_ok htype
    obtain ⟨happly, rfl⟩ := under_eq_ok hunder
    have hname : type.name = field.type.name := name_of_applyType happly
    rw [List.forall_mem_cons]
    obtain heq | ⟨hreading, v, hbare, heq⟩ := introduceIfReading_or value.bareVar? (.value type)
      (checkField inits field.name.name type) (fun _ => checkFields span ctor inits
        (checkField inits) (σ.bind field.name.name value) fields) s₂
    · obtain ⟨_, s₃, hchecked, hrest⟩ := bind_eq_ok ((heq c).symm.trans hsupply)
      rw [checkField_of_find? hfind] at hchecked
      have hstill := (stepwise_checkValue value type).quiet.still_of_run hopen hchecked
      refine ⟨⟨value, hfind, .inr ⟨type, _, _, hname, rfl, hopen, hchecked⟩⟩, ?_⟩
      rw [← hstill.readingInput]
      exact ih (hstill.substitution ▸ hopen) hrest
    · obtain ⟨_, s₃, hbound, hrest⟩ := bind_eq_ok ((heq c).symm.trans hsupply)
      cases hbound
      refine ⟨⟨value, hfind, .inl ⟨hreading, by rw [hbare]; rfl⟩⟩, ?_⟩
      exact ih (s := { s₂ with scopes := s₂.scopes.bind v.name (.value type) }) hopen hrest

/-- **The constructor of a well-typed value is declared, and its fields are supplied**, each once.
-/
theorem Typed.constructed {reading : Bool} {name : Symbol} {span : Span} {ctor : Ident}
    {inits : List (Named Expr)} (h : Typed c reading (.constructed span ctor inits) name) :
    ∃ owner declared, c.schema.constructor? ctor.name = some (owner, declared)
      ∧ inits.length = declared.fields.length
      ∧ ∀ v ∈ declared.fields, ∃ value, Named.find? inits v.name.name = some value
        ∧ Supplied c reading value v.type.name := by
  obtain ⟨type, s, t, rfl, rfl, hopen, hrun⟩ := h
  unfold checkValue checkConstructed at hrun
  rw [bind_ok (show schema c s = (.ok c.schema, s) from rfl)] at hrun
  obtain ⟨⟨owner, declared⟩, s₁, hfind, hguarded⟩ := bind_eq_ok hrun
  obtain ⟨hfound, rfl⟩ := getSome_eq_ok hfind
  obtain ⟨-, hguarded⟩ := guard_eq_ok hguarded
  obtain ⟨-, hguarded⟩ := guard_eq_ok hguarded
  refine ⟨owner, declared, hfound, ?_⟩
  have hfields : ∀ (σ : Substitution) (u : Checking), u.substitution.scopes.frames ≠ [] →
      (if inits.length ≠ declared.fields.length then
        fail span (.fieldCount ctor.name declared.fields.length inits.length) >>= fun _ : Unit =>
          checkFields span ctor inits (checkField inits) σ declared.fields
        else checkFields span ctor inits (checkField inits) σ declared.fields) c u = (.ok (), t) →
      inits.length = declared.fields.length
        ∧ ∀ v ∈ declared.fields, ∃ value, Named.find? inits v.name.name = some value
          ∧ Supplied c u.readingInput value v.type.name := by
    intro σ u hopen hrun
    obtain ⟨hcount, hrun⟩ := guard_eq_ok hrun
    exact ⟨not_not.mp hcount, supplied_of_checkFields declared.fields hopen hrun⟩
  dsimp only at hguarded
  cases owner with
  | message m => exact hfields _ _ hopen hguarded
  | enum e =>
    obtain ⟨σ, u, hdispatch, hguarded⟩ := bind_eq_ok hguarded
    have hstill := (stepwise_dispatch e ctor type.params _).quiet.still_of_run hopen hdispatch
    rw [← hstill.readingInput]
    exact hfields σ u (hstill.substitution ▸ hopen) hguarded

end Typing

/-! ## §4. What a match binds. -/

namespace Substitution

/-- No value that a variable stands for names a field twice. -/
def Distinct (σ : Substitution) : Prop := ∀ n e, σ.find? n = some e → e.fieldsDistinct = true

theorem distinct_empty : empty.Distinct := fun _ _ h => by cases h

theorem Distinct.bind {σ : Substitution} (h : σ.Distinct) (hopen : σ.scopes.frames ≠ [])
    {name : Symbol} {e : Expr} (he : e.fieldsDistinct = true) : (σ.bind name e).Distinct :=
  Scopes.forall_find?_bind hopen he h

/-- Some names were bound, to values that name no field twice. -/
structure Extends (names : List Symbol) (σ σ' : Substitution) : Prop where
  isOpen : σ'.scopes.frames ≠ []
  outside : ∀ n ∉ names, σ'.find? n = σ.find? n
  distinct : σ.Distinct → σ'.Distinct

theorem Extends.refl {σ : Substitution} (hopen : σ.scopes.frames ≠ []) {names : List Symbol} :
    Extends names σ σ :=
  ⟨hopen, fun _ _ => rfl, id⟩

theorem Extends.trans {names more : List Symbol} {σ σ₁ σ₂ : Substitution} (h : Extends names σ σ₁)
    (h' : Extends more σ₁ σ₂) : Extends (names ++ more) σ σ₂ := by
  refine ⟨h'.isOpen, fun n hn => ?_, fun hσ => h'.distinct (h.distinct hσ)⟩
  rw [List.mem_append, not_or] at hn
  rw [h'.outside n hn.2, h.outside n hn.1]

theorem Extends.bind {σ : Substitution} (hopen : σ.scopes.frames ≠ []) (name : Symbol) {e : Expr}
    (he : e.fieldsDistinct = true) : Extends [name] σ (σ.bind name e) := by
  refine ⟨bind_open hopen _ _, fun n hn => ?_, fun hσ => hσ.bind hopen he⟩
  rw [find?_bind hopen, if_neg fun h => hn (List.mem_singleton.mpr h)]

end Substitution

namespace Expr

variable {message : Symbol → Bool} {σ σ' b : Substitution}

theorem comparison?_eq_some {actual pattern : Expr} (h : actual.comparison? σ pattern = some σ') :
    σ' = σ ∧ Structural.equal pattern actual = true := by
  cases actual with
  | constructed _ _ _ => cases h
  | _ =>
    obtain ⟨hequal, h⟩ := Option.ite_none_right_eq_some.mp h
    cases h
    exact ⟨rfl, hequal⟩

theorem extends_of_comparison? {actual pattern : Expr} (hopen : σ.scopes.frames ≠ [])
    (h : actual.comparison? σ pattern = some σ') {names : List Symbol} :
    Substitution.Extends names σ σ' := by
  obtain ⟨rfl, -⟩ := comparison?_eq_some h
  exact .refl hopen

/-- The parts of a value that names no field twice do not, either. -/
theorem fieldsDistinct_of_parts? {actual : Expr} (ha : actual.fieldsDistinct = true) {ctor : Symbol}
    {valueOf : Ident → Option Expr} (h : actual.parts? message ctor = some valueOf) :
    ∀ f value, valueOf f = some value → value.fieldsDistinct = true := by
  intro f value hvalue
  cases actual with
  | constructed _ head values =>
    obtain ⟨-, h⟩ := Option.ite_none_right_eq_some.mp h
    cases h
    obtain ⟨g, hg, rfl⟩ := Named.mem_of_find? hvalue
    exact fieldsDistinct_part ha g hg
  | access a =>
    obtain ⟨-, h⟩ := Option.ite_none_right_eq_some.mp h
    cases h
    cases hvalue
    rfl
  | _ => cases h

mutual

/-- **A match binds the names that the pattern catches and no others.** -/
theorem extends_of_bindings? : ∀ {pattern actual : Expr} {σ σ' : Substitution},
    σ.scopes.frames ≠ [] → actual.fieldsDistinct = true →
    actual.bindings? message σ pattern = some σ' → Substitution.Extends pattern.caught σ σ'
  | .access a, _, _, _, hopen, ha, h => by
    unfold bindings? at h
    unfold caught
    by_cases hvar : a.isVar = true
    · rw [if_pos hvar] at h ⊢
      cases h
      exact .bind hopen _ ha
    · rw [if_neg hvar] at h ⊢
      exact extends_of_comparison? hopen h
  | .constructed _ _ _, _, _, _, hopen, ha, h => by
    obtain ⟨valueOf, hparts, h⟩ := Option.bind_eq_some_iff.mp h
    exact extends_of_fieldBindings? hopen (fieldsDistinct_of_parts? ha hparts) h
  | .scalar _ _, _, _, _, hopen, _, h => extends_of_comparison? hopen h
  | .binary _ _ _ _, _, _, _, hopen, _, h => extends_of_comparison? hopen h
  | .unary _ _ _, _, _, _, hopen, _, h => extends_of_comparison? hopen h
  | .type _ _ _, _, _, _, hopen, _, h => extends_of_comparison? hopen h
  | .collection _ _, _, _, _, hopen, _, h => extends_of_comparison? hopen h
  | .call _ _ _, _, _, _, hopen, _, h => extends_of_comparison? hopen h

theorem extends_of_fieldBindings? : ∀ {fs : List (Named Expr)} {valueOf : Ident → Option Expr}
    {σ σ' : Substitution}, σ.scopes.frames ≠ [] →
    (∀ f value, valueOf f = some value → value.fieldsDistinct = true) →
    fieldBindings? message σ valueOf fs = some σ' → Substitution.Extends (caughtFields fs) σ σ'
  | [], _, _, _, hopen, _, h => by
    cases h
    exact .refl hopen
  | f :: fs, _, _, _, hopen, hdistinct, h => by
    obtain ⟨value, hvalue, h⟩ := Option.bind_eq_some_iff.mp h
    obtain ⟨σ₁, hfirst, hrest⟩ := Option.bind_eq_some_iff.mp h
    have hσ₁ := extends_of_bindings? hopen (hdistinct _ _ hvalue) hfirst
    exact hσ₁.trans (extends_of_fieldBindings? hσ₁.isOpen hdistinct hrest)

end

theorem vars_subset_of_comparison? {actual pattern : Expr} (hclosed : actual.vars = [])
    (h : actual.comparison? σ pattern = some σ') {names : List Symbol} :
    pattern.vars ⊆ names := by
  rw [closed_of_equal (comparison?_eq_some h).2 hclosed]
  exact List.nil_subset _

mutual

/-- A pattern that a closed value matches has no variables but those it binds. -/
theorem vars_subset_caught : ∀ {pattern actual : Expr} {σ σ' : Substitution}, actual.vars = [] →
    actual.bindings? message σ pattern = some σ' → pattern.vars ⊆ pattern.caught
  | .access a, _, _, _, hclosed, h => by
    unfold bindings? at h
    unfold caught
    by_cases hvar : a.isVar = true
    · rw [if_pos hvar]
      exact List.Subset.refl _
    · rw [if_neg hvar] at h
      exact vars_subset_of_comparison? hclosed h
  | .constructed _ _ inits, actual, _, _, hclosed, h => by
    obtain ⟨valueOf, hparts, h⟩ := Option.bind_eq_some_iff.mp h
    cases actual with
    | constructed _ _ values =>
      obtain ⟨-, hparts⟩ := Option.ite_none_right_eq_some.mp hparts
      cases hparts
      refine varsFields_subset_caught (l := inits) (fun f value hvalue => ?_) h
      obtain ⟨g, hg, rfl⟩ := Named.mem_of_find? hvalue
      exact varsFields_eq_nil.mp hclosed g hg
    | access a => cases hclosed
    | _ => cases hparts
  | .scalar _ _, _, _, _, hclosed, h => vars_subset_of_comparison? hclosed h
  | .binary _ _ _ _, _, _, _, hclosed, h => vars_subset_of_comparison? hclosed h
  | .unary _ _ _, _, _, _, hclosed, h => vars_subset_of_comparison? hclosed h
  | .type _ _ _, _, _, _, hclosed, h => vars_subset_of_comparison? hclosed h
  | .collection _ _, _, _, _, hclosed, h => vars_subset_of_comparison? hclosed h
  | .call _ _ _, _, _, _, hclosed, h => vars_subset_of_comparison? hclosed h

theorem varsFields_subset_caught : ∀ {l : List (Named Expr)} {valueOf : Ident → Option Expr}
    {σ σ' : Substitution}, (∀ f value, valueOf f = some value → value.vars = []) →
    fieldBindings? message σ valueOf l = some σ' → varsFields l ⊆ caughtFields l
  | [], _, _, _, _, _ => List.nil_subset _
  | f :: inits, _, _, _, hclosed, h => by
    obtain ⟨value, hvalue, h⟩ := Option.bind_eq_some_iff.mp h
    obtain ⟨σ₁, hfirst, hrest⟩ := Option.bind_eq_some_iff.mp h
    have hf := vars_subset_caught (hclosed _ _ hvalue) hfirst
    have hfs := varsFields_subset_caught hclosed hrest
    exact List.append_subset.mpr ⟨List.subset_append_of_subset_left _ hf,
      List.subset_append_of_subset_right _ hfs⟩

end

/-! ## §5. What a match gives back. -/

/-- Two expressions are the same, and so are the parts that fields lead to in both. -/
def Agrees (x y : Expr) : Prop :=
  ∀ fields x' y', x.follow fields = .ok x' → y.follow fields = .ok y' → Same x' y'

theorem Agrees.refl {x : Expr} (h : x.fieldsDistinct = true) : Agrees x x := by
  intro fields x' y' hx hy
  rw [hx] at hy
  cases hy
  exact .refl (fieldsDistinct_follow h hx)

/-- The one has no fields to follow. -/
theorem Agrees.of_same {x y : Expr} (h : Same x y) (hclosed : x.vars = [])
    (hx : ∀ span c fs, x ≠ .constructed span c fs) : Agrees x y := by
  intro fields x' y' hx' hy'
  cases fields with
  | nil =>
    rw [follow_nil] at hx' hy'
    cases hx'
    cases hy'
    exact h
  | cons f fields =>
    cases x with
    | constructed span c fs => exact absurd rfl (hx span c fs)
    | access a => cases hclosed
    | _ => cases hx'

theorem Agrees.constructed {fs fs' : List (Named Expr)} (hlength : fs.length = fs'.length)
    (h : ∀ f ∈ fs, ∃ value, Named.find? fs' f.name.name = some value ∧ Agrees f.val value)
    (span span' : Span) {c c' : Ident} (hname : c.name = c'.name) :
    Agrees (.constructed span c fs) (.constructed span' c' fs') := by
  intro fields x' y' hx hy
  cases fields with
  | nil =>
    cases hx
    cases hy
    refine .constructed hlength (fun f hf => ?_) span span' hname
    obtain ⟨value, hvalue, hagrees⟩ := h f hf
    exact ⟨value, hvalue, hagrees [] _ _ (follow_nil _) (follow_nil _)⟩
  | cons g fields =>
    unfold follow at hx hy
    cases hfind : Named.find? fs g.name with
    | none => simp [hfind] at hx
    | some v =>
      obtain ⟨f, hf, hfield, rfl⟩ := Named.exists_of_find? hfind
      obtain ⟨value, hvalue, hagrees⟩ := h f hf
      rw [hfind] at hx
      rw [← hfield, hvalue] at hy
      exact hagrees fields x' y' hx hy

open Typing

variable {c : Setting}

/-- **A pattern that was compared with a closed value agrees with it**, if both are well typed and
subtract nothing. -/
theorem agrees_of_comparison? {name : Symbol} {pattern actual : Expr}
    (hpattern : Typed c true pattern name) (hactual : Typed c false actual name)
    (hclosed : actual.vars = []) (hsub : pattern.subtracts = false)
    (hsub' : actual.subtracts = false) (hne : ∀ span c fs, pattern ≠ .constructed span c fs)
    (h : actual.comparison? σ pattern = some σ') :
    ∃ p, b.apply pattern = .ok p ∧ Agrees p actual := by
  obtain ⟨-, hequal⟩ := comparison?_eq_some h
  have hvars := closed_of_equal hequal hclosed
  have hsame : Same pattern actual := .of_equal hequal fun v w hv hw =>
    (hpattern.literal hsub hv).trans (hactual.literal hsub' hw).symm
  exact ⟨pattern, Substitution.apply_of_unbound (by simp [hvars]), .of_same hsame hvars hne⟩

/-- A field of a pattern and the value at its place, of one type. -/
def Paired (c : Setting) (values : List (Named Expr)) (f : Named Expr) : Prop :=
  ∃ name value, Named.find? values f.name.name = some value ∧ Supplied c true f.val name
    ∧ Typed c false value name

theorem paired_of_typed (hs : c.schema.Tidy) {name name' : Symbol} {span span' : Span}
    {ctor ctor' : Ident} {inits values : List (Named Expr)} (hname : ctor'.name = ctor.name)
    (hpattern : Typed c true (.constructed span ctor inits) name)
    (hactual : Typed c false (.constructed span' ctor' values) name') :
    inits.length = values.length ∧ ∀ f ∈ inits, Paired c values f := by
  obtain ⟨owner, declared, hfound, hcount, hfields⟩ := hpattern.constructed
  obtain ⟨owner', declared', hfound', hcount', hfields'⟩ := hactual.constructed
  rw [hname, hfound] at hfound'
  cases hfound'
  obtain ⟨hmem, hdeclared, -⟩ := Schema.of_constructor? hfound
  refine ⟨hcount.trans hcount'.symm, fun f hf => ?_⟩
  obtain ⟨v, hv, hfield, hsupplied⟩ :=
    exists_field (hs.fields owner hmem declared hdeclared) hcount hfields f hf
  obtain ⟨value, hvalue, ⟨hreading, -⟩ | htyped⟩ := hfields' v hv
  · cases hreading
  · exact ⟨_, value, hfield ▸ hvalue, hsupplied, htyped⟩

mutual

/-- **A pattern that a closed value matches gives the value back** when what it binds is put in for
its variables. -/
theorem agrees_of_bindings? (hs : c.schema.Tidy) : ∀ {pattern actual : Expr} {σ σ' : Substitution}
    {name : Symbol}, Supplied c true pattern name → Typed c false actual name → actual.vars = [] →
    actual.fieldsDistinct = true → pattern.subtracts = false → actual.subtracts = false →
    pattern.caught.Nodup → σ.scopes.frames ≠ [] →
    actual.bindings? c.schema.ofMessage σ pattern = some σ' →
    (∀ n ∈ pattern.caught, b.find? n = σ'.find? n) →
      ∃ p, b.apply pattern = .ok p ∧ Agrees p actual
  | .access a, actual, σ, _, _, hpattern, hactual, hclosed, ha, hsub, hsub', _, hopen, h, hb => by
    unfold bindings? at h
    by_cases hvar : a.isVar = true
    · rw [if_pos hvar] at h
      cases h
      have hbound : b.find? a.var.name = some actual := by
        rw [hb a.var.name (by simp [caught, hvar]), Substitution.find?_bind hopen, if_pos rfl]
      refine ⟨actual, ?_, .refl ha⟩
      unfold Substitution.apply
      rw [hbound, show a.fields = [] from List.isEmpty_iff.mp hvar]
      exact follow_nil _
    · rw [if_neg hvar] at h
      obtain ⟨-, hbare⟩ | htyped := hpattern
      · simp [bareVar?, hvar] at hbare
      · exact agrees_of_comparison? htyped hactual hclosed hsub hsub' nofun h
  | .constructed span ctor inits, actual, σ, σ', _, hpattern, hactual, hclosed, ha, hsub, hsub',
      hnodup, hopen, h, hb => by
    obtain ⟨-, hbare⟩ | htyped := hpattern
    · cases hbare
    obtain ⟨valueOf, hparts, h⟩ := Option.bind_eq_some_iff.mp h
    cases actual with
    | constructed span' ctor' values =>
      obtain ⟨hctor, hparts⟩ := Option.ite_none_right_eq_some.mp hparts
      cases hparts
      obtain ⟨hcount, hpaired⟩ := paired_of_typed hs hctor htyped hactual
      obtain ⟨fs, hfs, hlength, hagrees⟩ := agrees_of_fieldBindings? hs hpaired
        (varsFields_eq_nil.mp hclosed) (fieldsDistinct_part ha) (subtractsFields_eq_false.mp hsub)
        (subtractsFields_eq_false.mp hsub') hnodup hopen h hb
      refine ⟨.constructed span ctor fs, ?_, ?_⟩
      · rw [Substitution.apply, hfs]
        rfl
      · exact .constructed (hlength.trans hcount) hagrees _ _ hctor.symm
    | access a => cases hclosed
    | _ => cases hparts
  | .scalar _ _, _, _, _, _, hp, ha, hclosed, _, hsub, hsub', _, _, h, _ =>
    agrees_of_comparison? (hp.resolve_left nofun) ha hclosed hsub hsub' nofun h
  | .binary _ _ _ _, _, _, _, _, hp, ha, hclosed, _, hsub, hsub', _, _, h, _ =>
    agrees_of_comparison? (hp.resolve_left nofun) ha hclosed hsub hsub' nofun h
  | .unary _ _ _, _, _, _, _, hp, ha, hclosed, _, hsub, hsub', _, _, h, _ =>
    agrees_of_comparison? (hp.resolve_left nofun) ha hclosed hsub hsub' nofun h
  | .type _ _ _, _, _, _, _, hp, ha, hclosed, _, hsub, hsub', _, _, h, _ =>
    agrees_of_comparison? (hp.resolve_left nofun) ha hclosed hsub hsub' nofun h
  | .collection _ _, _, _, _, _, hp, ha, hclosed, _, hsub, hsub', _, _, h, _ =>
    agrees_of_comparison? (hp.resolve_left nofun) ha hclosed hsub hsub' nofun h
  | .call _ _ _, _, _, _, _, hp, ha, hclosed, _, hsub, hsub', _, _, h, _ =>
    agrees_of_comparison? (hp.resolve_left nofun) ha hclosed hsub hsub' nofun h

theorem agrees_of_fieldBindings? (hs : c.schema.Tidy) : ∀ {inits values : List (Named Expr)}
    {σ σ' : Substitution}, (∀ f ∈ inits, Paired c values f) → (∀ g ∈ values, g.val.vars = []) →
    (∀ g ∈ values, g.val.fieldsDistinct = true) → (∀ f ∈ inits, f.val.subtracts = false) →
    (∀ g ∈ values, g.val.subtracts = false) → (caughtFields inits).Nodup → σ.scopes.frames ≠ [] →
    fieldBindings? c.schema.ofMessage σ (fun f => Named.find? values f.name) inits = some σ' →
    (∀ n ∈ caughtFields inits, b.find? n = σ'.find? n) →
      ∃ fs, b.applyFields inits = .ok fs ∧ fs.length = inits.length
        ∧ ∀ f ∈ fs, ∃ value, Named.find? values f.name.name = some value ∧ Agrees f.val value
  | [], _, _, _, _, _, _, _, _, _, _, _, _ => ⟨[], rfl, rfl, by simp⟩
  | f :: inits, values, _, _, hpaired, hclosed, ha, hsub, hsub', hnodup, hopen, h, hb => by
    obtain ⟨value, hvalue, h⟩ := Option.bind_eq_some_iff.mp h
    obtain ⟨σ₁, hfirst, hrest⟩ := Option.bind_eq_some_iff.mp h
    rw [List.forall_mem_cons] at hpaired hsub
    obtain ⟨name, value', hfind, hpattern, hactual⟩ := hpaired.1
    obtain rfl : value = value' := Option.some.inj (hvalue.symm.trans hfind)
    obtain ⟨g, hg, rfl⟩ := Named.mem_of_find? hfind
    obtain ⟨hone, hothers, hdisjoint⟩ := List.nodup_append.mp hnodup
    have hext := extends_of_bindings? hopen (ha g hg) hfirst
    have hext' := extends_of_fieldBindings? hext.isOpen
      (fun i v hv => by obtain ⟨g, hg, rfl⟩ := Named.mem_of_find? hv; exact ha g hg) hrest
    obtain ⟨p, hp, hagrees⟩ := agrees_of_bindings? hs hpattern hactual (hclosed g hg) (ha g hg)
      hsub.1 (hsub' g hg) hone hopen hfirst fun n hn => by
        rw [hb n (List.mem_append_left _ hn)]
        exact hext'.outside n fun hmem => hdisjoint n hn n hmem rfl
    obtain ⟨fs, hfs, hlength, hall⟩ := agrees_of_fieldBindings? hs hpaired.2 hclosed ha hsub.2 hsub'
      hothers hext.isOpen hrest fun n hn => hb n (List.mem_append_right _ hn)
    refine ⟨⟨f.name, p⟩ :: fs, ?_, by simp [hlength], List.forall_mem_cons.mpr ⟨?_, hall⟩⟩
    · rw [Substitution.applyFields, hp, hfs]
      rfl
    · exact ⟨g.val, hfind, hagrees⟩

end

end Expr

end DepSchema
