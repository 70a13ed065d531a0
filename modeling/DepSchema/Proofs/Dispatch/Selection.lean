/-
DepSchema.Proofs.Dispatch.Selection — the rule that decides an instance of parameters.

When literals take the place of variables in the parameters of an enum, a pattern that matched still
matches, and what it binds is an instance of what it bound. A pattern that did not match may match
now: that a comparison failed only means that the two were not found the same. The rule that is
chosen for parameters therefore decides their instance too, unless an earlier rule, which did not
match before, takes its place.

Main results: `bindings?_instance` and `dispatch_instance`.
-/
import DepSchema.Proofs.Dispatch.Choice
import DepSchema.Proofs.Dispatch.Instances
import DepSchema.Proofs.Order.TypeOrder
import DepSchema.Proofs.Vocabulary.Exposed
import DepSchema.Pipeline

namespace DepSchema

/-! ## §1. Instances of substitutions. -/

namespace Substitution

variable {τ σ σ' : Substitution}

/-- The substitution has a literal for each variable that it replaces. -/
def IsLiteral (τ : Substitution) : Prop := ∀ n e, τ.find? n = some e → ∃ span v, e = .scalar span v

theorem isLiteral_empty : empty.IsLiteral := fun _ _ h => by cases h

theorem IsLiteral.bind (h : τ.IsLiteral) (hopen : τ.scopes.frames ≠ []) {name : Symbol}
    {span : Span} {v : Scalar} : (τ.bind name (.scalar span v)).IsLiteral :=
  Scopes.forall_find?_bind hopen ⟨span, v, rfl⟩ h

/-- Each variable stands for an instance of what it stood for. -/
structure Instance (τ σ σ' : Substitution) : Prop where
  find? : ∀ n, Option.Rel τ.Takes (σ.find? n) (σ'.find? n)
  isOpen : σ.scopes.frames ≠ []
  isOpen' : σ'.scopes.frames ≠ []

theorem Instance.bind (h : Instance τ σ σ') (name : Symbol) {e e' : Expr} (he : τ.Takes e e') :
    Instance τ (σ.bind name e) (σ'.bind name e') := by
  refine ⟨fun n => ?_, bind_open h.isOpen _ _, bind_open h.isOpen' _ _⟩
  rw [find?_bind h.isOpen, find?_bind h.isOpen']
  split
  · exact .some he
  · exact h.find? n

theorem Instance.bindZip {params params' : List Expr}
    (hparams : List.Forall₂ τ.Takes params params') :
    ∀ (deps : List Variable) {σ σ' : Substitution}, Instance τ σ σ' →
      Instance τ ((deps.zip params).foldl (fun σ (dep, param) => σ.bind dep.name.name param) σ)
        ((deps.zip params').foldl (fun σ (dep, param) => σ.bind dep.name.name param) σ') := by
  induction hparams with
  | nil =>
    intro deps σ σ' h
    rw [List.zip_nil_right]
    exact h
  | cons hparam _ ih =>
    intro deps σ σ' h
    cases deps with
    | nil => exact h
    | cons dep deps => exact ih deps (h.bind dep.name.name hparam)

/-- Dependencies stand for instances of the parameters. -/
theorem instance_bindDeps (deps : List Variable) {params params' : List Expr}
    (hparams : List.Forall₂ τ.Takes params params') :
    Instance τ (Typing.bindDeps deps params) (Typing.bindDeps deps params') :=
  Instance.bindZip hparams deps ⟨fun _ => .none, empty_open, empty_open⟩

end Substitution

/-! ## §2. Matching. -/

namespace Expr

variable {message : Symbol → Bool} {τ : Substitution}

mutual

/-- The pattern asks for the fields of a variable that is replaced. -/
def Opens (message : Symbol → Bool) (τ : Substitution) (actual : Expr) : Expr → Prop
  | constructed _ ctor inits =>
    (∃ a, actual = .access a ∧ (τ.find? a.var.name).isSome = true)
      ∨ ∃ valueOf, actual.parts? message ctor.name = some valueOf
        ∧ FieldsOpen message τ valueOf inits
  | _ => False
termination_by structural pattern => pattern

/-- The same for the fields of a pattern. -/
def FieldsOpen (message : Symbol → Bool) (τ : Substitution) (valueOf : Ident → Option Expr) :
    List (Named Expr) → Prop
  | [] => False
  | f :: fs =>
    (∃ value, valueOf f.name = some value ∧ Opens message τ value f.val)
      ∨ FieldsOpen message τ valueOf fs
termination_by structural fs => fs

end

/-- The fields of an instance are instances of the fields. -/
theorem parts?_instance {ctor : Symbol} {actual actual' : Expr} {valueOf : Ident → Option Expr}
    (h : τ.Takes actual actual') (hparts : actual.parts? message ctor = some valueOf)
    (hopen : ∀ a, actual = .access a → τ.find? a.var.name = none) :
    ∃ valueOf', actual'.parts? message ctor = some valueOf'
      ∧ ∀ f, Option.Rel τ.Takes (valueOf f) (valueOf' f) := by
  cases actual with
  | constructed span c values =>
    obtain ⟨values', hvalues, h⟩ := exists_of_bind_eq_ok h
    cases h
    obtain ⟨hname, hparts⟩ := Option.ite_none_right_eq_some.mp hparts
    cases hparts
    exact ⟨_, if_pos hname,
      fun f => Named.find?_rel (Substitution.forall₂_of_applyFields hvalues) f.name⟩
  | access a =>
    have hnone := hopen a rfl
    have hself : ∀ b : Access, b.var = a.var → τ.Takes (.access b) (.access b) := by
      intro b hb
      unfold Substitution.Takes Substitution.apply
      rw [hb, hnone]
    obtain rfl : Expr.access a = actual' := Except.ok.inj ((hself a rfl).symm.trans h)
    obtain ⟨hmessage, hparts⟩ := Option.ite_none_right_eq_some.mp hparts
    cases hparts
    exact ⟨_, if_pos hmessage, fun f => .some (hself (a.field f) rfl)⟩
  | _ => cases hparts

theorem comparison?_of_ne {actual : Expr} (h : ∀ span c fs, actual ≠ .constructed span c fs)
    (σ : Substitution) (p : Expr) :
    actual.comparison? σ p = if Structural.equal p actual then some σ else none := by
  cases actual with
  | constructed span c fs => exact absurd rfl (h span c fs)
  | _ => rfl

/-- Literals do not make a constructed value of another expression. -/
theorem ne_constructed_of_takes (hτ : τ.IsLiteral) : ∀ {e e' : Expr}, τ.Takes e e' →
    (∀ span c fs, e ≠ .constructed span c fs) → ∀ span c fs, e' ≠ .constructed span c fs
  | .scalar _ _, _, h, _, _, _, _ => by
    cases h
    exact nofun
  | .access a, e', h, _, _, _, _ => by
    unfold Substitution.Takes Substitution.apply at h
    cases hfind : τ.find? a.var.name with
    | none =>
      rw [hfind] at h
      cases h
      exact nofun
    | some e =>
      obtain ⟨span, v, rfl⟩ := hτ _ _ hfind
      rw [hfind] at h
      cases hfields : a.fields with
      | nil =>
        rw [hfields] at h
        cases h
        exact nofun
      | cons f fields =>
        rw [hfields] at h
        cases h
  | .binary _ _ _ _, _, h, _, _, _, _ => by
    obtain ⟨_, -, h⟩ := exists_of_bind_eq_ok h
    obtain ⟨_, -, h⟩ := exists_of_bind_eq_ok h
    cases h
    exact nofun
  | .unary _ _ _, _, h, _, _, _, _ => by
    obtain ⟨_, -, h⟩ := exists_of_bind_eq_ok h
    cases h
    exact nofun
  | .type _ _ _, _, h, _, _, _, _ => by
    obtain ⟨_, -, h⟩ := exists_of_bind_eq_ok h
    cases h
    exact nofun
  | .constructed span c fs, _, _, hne, _, _, _ => absurd rfl (hne span c fs)
  | .collection _ _, _, h, _, _, _, _ => by
    obtain ⟨_, -, h⟩ := exists_of_bind_eq_ok h
    cases h
    exact nofun
  | .call _ _ _, _, h, _, _, _, _ => by
    obtain ⟨_, -, h⟩ := exists_of_bind_eq_ok h
    cases h
    exact nofun

/-- A comparison that succeeded succeeds again. -/
theorem comparison?_instance (hτ : τ.IsLiteral) {actual actual' p : Expr}
    {σ σ' bound : Substitution} (h : τ.Takes actual actual') (hσ : Substitution.Instance τ σ σ')
    (hp : ∀ n ∈ p.vars, τ.find? n = none) (hfound : actual.comparison? σ p = some bound) :
    ∃ bound', actual'.comparison? σ' p = some bound' ∧ Substitution.Instance τ bound bound' := by
  have hne : ∀ span c fs, actual ≠ .constructed span c fs := by
    rintro span c fs rfl
    cases hfound
  rw [comparison?_of_ne hne] at hfound
  obtain ⟨hequal, hbound⟩ := Option.ite_none_right_eq_some.mp hfound
  cases hbound
  refine ⟨σ', ?_, hσ⟩
  rw [comparison?_of_ne (ne_constructed_of_takes hτ h hne)]
  exact if_pos ((kept_fold h).same p.fold (fun n hn => hp n (vars_fold p ▸ hn)) hequal)

mutual

/-- **A match is kept by an instance**, and what the pattern binds is an instance of what it bound,
if no variable that is compared is replaced. -/
theorem bindings?_instance (hτ : τ.IsLiteral) : ∀ {p actual actual' : Expr}
    {σ σ' bound : Substitution}, τ.Takes actual actual' → Substitution.Instance τ σ σ' →
    (∀ n ∈ (RuleInput.value p).compared, τ.find? n = none) → ¬actual.Opens message τ p →
    actual.bindings? message σ p = some bound →
      ∃ bound', actual'.bindings? message σ' p = some bound' ∧ Substitution.Instance τ bound bound'
  | .access a, _, _, _, _, _, h, hσ, hp, _, hfound => by
    unfold bindings? at hfound ⊢
    by_cases hvar : a.isVar = true
    · rw [if_pos hvar] at hfound ⊢
      cases hfound
      exact ⟨_, rfl, hσ.bind a.var.name h⟩
    · rw [if_neg hvar] at hfound ⊢
      refine comparison?_instance hτ h hσ ?_ hfound
      simpa [RuleInput.compared, bareVar?, hvar, compared] using hp
  | .constructed _ ctor inits, actual, _, _, _, _, h, hσ, hp, hopens, hfound => by
    obtain ⟨valueOf, hparts, hfound⟩ := Option.bind_eq_some_iff.mp hfound
    have hopen : ∀ a, actual = .access a → τ.find? a.var.name = none := by
      intro a ha
      by_contra hsome
      exact hopens (.inl ⟨a, ha, Option.isSome_iff_ne_none.mpr hsome⟩)
    obtain ⟨valueOf', hparts', hvalues⟩ := parts?_instance h hparts hopen
    obtain ⟨bound', hfound', hbound⟩ := fieldBindings?_instance hτ hvalues hσ hp
      (fun hfields => hopens (.inr ⟨valueOf, hparts, hfields⟩)) hfound
    exact ⟨bound', Option.bind_eq_some_iff.mpr ⟨valueOf', hparts', hfound'⟩, hbound⟩
  | .scalar _ _, _, _, _, _, _, h, hσ, hp, _, hfound => comparison?_instance hτ h hσ hp hfound
  | .binary _ _ _ _, _, _, _, _, _, h, hσ, hp, _, hfound => comparison?_instance hτ h hσ hp hfound
  | .unary _ _ _, _, _, _, _, _, h, hσ, hp, _, hfound => comparison?_instance hτ h hσ hp hfound
  | .type _ _ _, _, _, _, _, _, h, hσ, hp, _, hfound => comparison?_instance hτ h hσ hp hfound
  | .collection _ _, _, _, _, _, _, h, hσ, hp, _, hfound => comparison?_instance hτ h hσ hp hfound
  | .call _ _ _, _, _, _, _, _, h, hσ, hp, _, hfound => comparison?_instance hτ h hσ hp hfound

theorem fieldBindings?_instance (hτ : τ.IsLiteral) : ∀ {fs : List (Named Expr)}
    {valueOf valueOf' : Ident → Option Expr} {σ σ' bound : Substitution},
    (∀ f, Option.Rel τ.Takes (valueOf f) (valueOf' f)) → Substitution.Instance τ σ σ' →
    (∀ n ∈ comparedFields fs, τ.find? n = none) → ¬FieldsOpen message τ valueOf fs →
    fieldBindings? message σ valueOf fs = some bound →
      ∃ bound', fieldBindings? message σ' valueOf' fs = some bound'
        ∧ Substitution.Instance τ bound bound'
  | [], _, _, _, _, _, _, hσ, _, _, hfound => by
    cases hfound
    exact ⟨_, rfl, hσ⟩
  | f :: fs, valueOf, valueOf', _, _, _, hvalues, hσ, hp, hopens, hfound => by
    obtain ⟨value, hvalue, hfound⟩ := Option.bind_eq_some_iff.mp hfound
    obtain ⟨σ₁, hfirst, hrest⟩ := Option.bind_eq_some_iff.mp hfound
    unfold comparedFields at hp
    rw [List.forall_mem_append] at hp
    have hrel := hvalues f.name
    rw [hvalue] at hrel
    cases hvalue' : valueOf' f.name with
    | none =>
      rw [hvalue'] at hrel
      cases hrel
    | some value' =>
      rw [hvalue'] at hrel
      cases hrel with
      | some h =>
        obtain ⟨σ₁', hfirst', hσ₁⟩ := bindings?_instance hτ h hσ hp.1
          (fun hfield => hopens (.inl ⟨value, hvalue, hfield⟩)) hfirst
        obtain ⟨bound', hrest', hbound⟩ := fieldBindings?_instance hτ hvalues hσ₁ hp.2
          (fun hfields => hopens (.inr hfields)) hrest
        refine ⟨bound', Option.bind_eq_some_iff.mpr ⟨value', hvalue', ?_⟩, hbound⟩
        exact Option.bind_eq_some_iff.mpr ⟨σ₁', hfirst', hrest'⟩

end

end Expr

/-! ## §3. Rules. -/

variable {message : Symbol → Bool} {τ : Substitution}

/-- An input asks for the fields of a variable that is replaced. -/
def RuleInput.Opens (message : Symbol → Bool) (τ : Substitution) :
    List RuleInput → List Expr → Prop
  | .any _ :: inputs, _ :: params => Opens message τ inputs params
  | .value p :: inputs, param :: params => param.Opens message τ p ∨ Opens message τ inputs params
  | _, _ => False

theorem RuleInput.bindings?_instance (hτ : τ.IsLiteral) {params params' : List Expr}
    (hparams : List.Forall₂ τ.Takes params params') : ∀ {inputs : List RuleInput}
    {σ σ' bound : Substitution}, Substitution.Instance τ σ σ' →
    (∀ i ∈ inputs, ∀ n ∈ i.compared, τ.find? n = none) → ¬Opens message τ inputs params →
    bindings? message σ inputs params = some bound →
      ∃ bound', bindings? message σ' inputs params' = some bound'
        ∧ Substitution.Instance τ bound bound' := by
  induction hparams with
  | nil =>
    intro inputs σ σ' bound hσ _ _ hfound
    have hall : ∀ σ, bindings? message σ inputs [] = some σ := by
      intro σ
      cases inputs with
      | nil => rfl
      | cons i inputs => cases i <;> rfl
    rw [hall] at hfound ⊢
    cases hfound
    exact ⟨_, rfl, hσ⟩
  | cons hparam _ ih =>
    intro inputs σ σ' bound hσ hinputs hopens hfound
    cases inputs with
    | nil =>
      cases hfound
      exact ⟨_, rfl, hσ⟩
    | cons i inputs =>
      rw [List.forall_mem_cons] at hinputs
      cases i with
      | any span => exact ih hσ hinputs.2 hopens hfound
      | value p =>
        obtain ⟨σ₁, hfirst, hrest⟩ := Option.bind_eq_some_iff.mp hfound
        obtain ⟨σ₁', hfirst', hσ₁⟩ := Expr.bindings?_instance hτ hparam hσ hinputs.1
          (fun h => hopens (.inl h)) hfirst
        obtain ⟨bound', hrest', hbound⟩ := ih hσ₁ hinputs.2 (fun h => hopens (.inr h)) hrest
        exact ⟨bound', Option.bind_eq_some_iff.mpr ⟨σ₁', hfirst', hrest'⟩, hbound⟩

/-- The substitution replaces nothing that a rule compares, and no input of the rule asks for the
fields of a variable that it replaces. -/
structure Rule.Steady (message : Symbol → Bool) (τ : Substitution) (rule : Rule)
    (params : List Expr) : Prop where
  compared : ∀ i ∈ rule.inputs, ∀ n ∈ i.compared, τ.find? n = none
  opens : ¬RuleInput.Opens message τ rule.inputs params

/-- A rule that matches parameters matches an instance of them. -/
theorem Rule.bindings?_instance (hτ : τ.IsLiteral) {params params' : List Expr}
    (hparams : List.Forall₂ τ.Takes params params') {rule : Rule}
    (hrule : rule.Steady message τ params) {σ σ' bound : Substitution}
    (hσ : Substitution.Instance τ σ σ') (hfound : rule.bindings? message σ params = some bound) :
    ∃ bound', rule.bindings? message σ' params' = some bound'
      ∧ Substitution.Instance τ bound bound' := by
  obtain ⟨hlength, hfound⟩ := Option.ite_none_right_eq_some.mp hfound
  obtain ⟨bound', hfound', hbound⟩ :=
    RuleInput.bindings?_instance hτ hparams hσ hrule.compared hrule.opens hfound
  exact ⟨bound', Option.ite_none_right_eq_some.mpr ⟨hlength.trans hparams.length_eq, hfound'⟩,
    hbound⟩

/-- The rule that is chosen for parameters is chosen for their instance too, unless a rule that did
not match before is. -/
theorem Rule.chosen?_instance (hτ : τ.IsLiteral) {params params' : List Expr}
    (hparams : List.Forall₂ τ.Takes params params') {σ σ' : Substitution}
    (hσ : Substitution.Instance τ σ σ') {rule : Rule} {bound : Substitution} {rules : List Rule}
    (hrules : ∀ r ∈ rules, r.Steady message τ params)
    (hchosen : Rule.chosen? message σ params rules = some (rule, bound)) :
    (∃ bound', Rule.chosen? message σ' params' rules = some (rule, bound')
        ∧ Substitution.Instance τ bound bound')
      ∨ ∃ other ∈ rules, other.bindings? message σ params = none
        ∧ ∃ bound', Rule.chosen? message σ' params' rules = some (other, bound') := by
  induction rules with
  | nil => cases hchosen
  | cons r rules ih =>
    rw [List.forall_mem_cons] at hrules
    unfold Rule.chosen? at hchosen ih ⊢
    rw [List.findSome?_cons] at hchosen ⊢
    cases hr : r.bindings? message σ params with
    | some b =>
      obtain ⟨b', hr', hb⟩ := Rule.bindings?_instance hτ hparams hrules.1 hσ hr
      rw [hr] at hchosen
      cases hchosen
      rw [hr']
      exact .inl ⟨b', rfl, hb⟩
    | none =>
      rw [hr] at hchosen
      cases hr' : r.bindings? message σ' params' with
      | some b' => exact .inr ⟨r, List.mem_cons_self, hr, b', rfl⟩
      | none =>
        refine (ih hrules.2 hchosen).imp_right ?_
        rintro ⟨other, hother, hnone, hfirst⟩
        exact ⟨other, List.mem_cons_of_mem _ hother, hnone, hfirst⟩

namespace Typing

/-- **A constructor that is offered for parameters is offered for an instance of them**, with an
instance of what was bound, unless a rule decides that did not match the parameters themselves. -/
theorem dispatch_instance {c : Setting} (hc : c.oracle = Structural.oracle) (c' : Setting)
    (hc' : c'.oracle = Structural.oracle) (hmessage : c'.schema.ofMessage = c.schema.ofMessage)
    (hτ : τ.IsLiteral) {e : Enum} {params params' : List Expr}
    (hparams : τ.applyAll params = .ok params')
    (hrules : ∀ rule ∈ e.rules, rule.Steady c.schema.ofMessage τ params)
    {ctor : Ident} {s : Checking} {bound : Substitution}
    (hoffered : (dispatch e ctor params (bindDeps e.deps params) c s).1 = .ok bound) :
    (∃ bound', Substitution.Instance τ bound bound'
        ∧ ∀ t, (dispatch e ctor params' (bindDeps e.deps params') c' t).1 = .ok bound')
      ∨ ∃ rule ∈ e.rules,
        rule.bindings? c.schema.ofMessage (bindDeps e.deps params) params = none
          ∧ ∃ bound', Rule.chosen? c'.schema.ofMessage (bindDeps e.deps params') params' e.rules
            = some (rule, bound') := by
  obtain ⟨rule, hchosen, hctor⟩ := (dispatch_ok_iff hc s).mp hoffered
  have hforall := Substitution.forall₂_of_applyAll hparams
  rw [hmessage]
  rcases Rule.chosen?_instance hτ hforall (Substitution.instance_bindDeps e.deps hforall) hrules
    hchosen with ⟨bound', hchosen', hbound⟩ | hother
  · refine .inl ⟨bound', hbound, fun t => (dispatch_ok_iff hc' t).mpr ⟨rule, ?_, hctor⟩⟩
    rw [hmessage]
    exact hchosen'
  · exact .inr hother

end Typing

/-! ## A value that an earlier rule takes over. -/

namespace Schema

namespace Example

/-- An integer literal. -/
def int (n : Int64) : Expr := .scalar ⟨0, 0⟩ (.int n)

/-- The variable 12. -/
def twelve : Expr := .ofVar (ident 12)

/-- The value 5 has the constructor 9, all others have the constructor 10. -/
def pick : Enum :=
  ⟨ident 7, [field 8 0 []],
    [⟨[.value (int 5)], [⟨ident 9, []⟩]⟩, ⟨[.any ⟨0, 0⟩], [⟨ident 10, []⟩]⟩]⟩

/-- A function gives the constructor 10 as a value of the type that is picked by an expression. -/
def picking (params : List Parameter) (actual : Expr) : List Declaration :=
  [.type (.enum pick), .function ⟨ident 11, params, ⟨⟨0, 0⟩, ident 7, [actual]⟩,
    some (.constructed ⟨0, 0⟩ (ident 10) [])⟩]

end Example

open Example

/-- The constructor that is offered for a variable is offered for the value 7. -/
theorem dispatch_seven : ∃ bound, ∀ t,
    (Typing.dispatch pick (ident 10) [int 7] (Typing.bindDeps pick.deps [int 7])
      ⟨.empty, Structural.oracle⟩ t).1 = .ok bound := by
  let τ : Substitution := Substitution.empty.bind ⟨12⟩ (int 7)
  have hτ : τ.IsLiteral := Substitution.isLiteral_empty.bind Substitution.empty_open
  have happly : τ.applyAll [twelve] = .ok [int 7] := rfl
  have hrules : ∀ rule ∈ pick.rules, rule.Steady (ofMessage .empty) τ [twelve] := by
    have hfive : Rule.Steady (ofMessage .empty) τ ⟨[.value (int 5)], [⟨ident 9, []⟩]⟩ [twelve] :=
      ⟨by decide, by simp [RuleInput.Opens, Expr.Opens, int]⟩
    have hany : Rule.Steady (ofMessage .empty) τ ⟨[.any ⟨0, 0⟩], [⟨ident 10, []⟩]⟩ [twelve] :=
      ⟨by decide, by simp [RuleInput.Opens]⟩
    simp only [pick, List.forall_mem_cons]
    exact ⟨hfive, hany, by simp⟩
  have hoffered : (Typing.dispatch pick (ident 10) [twelve] (Typing.bindDeps pick.deps [twelve])
      ⟨.empty, Structural.oracle⟩ .start).1 = .ok (Typing.bindDeps pick.deps [twelve]) := rfl
  rcases Typing.dispatch_instance rfl ⟨.empty, Structural.oracle⟩ rfl rfl hτ happly hrules hoffered
    with ⟨bound, -, hall⟩ | ⟨rule, hrule, hnone, b, hchosen⟩
  · exact ⟨bound, hall⟩
  · -- the rule for 5 is not chosen for 7, and the rule for all values matched the variable
    cases hchosen
    cases hnone

/-- A function that is accepted for a variable is refused for the value 5. -/
theorem picked_five :
    ((ofDeclarations (picking [⟨ident 12, .value (.builtin .int ⟨0, 0⟩)⟩] twelve)).checkWith names
        Structural.oracle).result = .ok ()
      ∧ (Substitution.empty.bind ⟨12⟩ (int 5)).apply twelve = .ok (int 5)
      ∧ ((ofDeclarations (picking [] (int 5))).checkWith names Structural.oracle).result
        = .error [.located ⟨0, 0⟩ (.constructorUnavailable ⟨10⟩)] := by
  refine ⟨?_, ?_, ?_⟩
  · cbv
  · cbv
  · cbv

end Schema

end DepSchema
