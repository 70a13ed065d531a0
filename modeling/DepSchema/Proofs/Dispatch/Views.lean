/-
DepSchema.Proofs.Dispatch.Views — the fields of a rule as they are declared and as they are used.

Where an enum is declared, the fields of a rule stand under the patterns: each dependency is
replaced by the input at its place. Where a value is constructed, they stand under what the
parameters were matched with: the dependencies and the names that the inputs bind stand for values,
all in one scope. If those names are all different, then it comes to the same type whether the
dependencies are replaced by the patterns first or by the parameters at once.

Main results: `sameType_of_views`, and `views_of_typing` for a schema that passes.
-/
import DepSchema.Proofs.Dispatch.Patterns
import DepSchema.Proofs.Dispatch.Selection
import DepSchema.Proofs.Oracle.Comparison
import DepSchema.Proofs.Queries.Locals
import DepSchema.Proofs.Typing.Formed

namespace DepSchema

/-! ## §1. Substituting in two steps or in one. -/

namespace Substitution

open DepSchema.Expr (Same)

variable {σ b : Substitution}

/-- What `σ` puts for a variable becomes, under `b`, what `b` puts for it. -/
def Through (σ b : Substitution) : Prop :=
  ∀ n p, σ.find? n = some p → ∃ p' v, b.apply p = .ok p' ∧ b.find? n = some v ∧ p'.Agrees v

theorem Distinct.apply_access (hb : b.Distinct) {a : Access} {e : Expr}
    (h : b.apply (.access a) = .ok e) : e.fieldsDistinct = true := by
  rcases of_apply_access h with ⟨-, rfl⟩ | ⟨v, hfind, hfollow⟩
  · rfl
  · exact Expr.fieldsDistinct_follow (hb _ _ hfind) hfollow

theorem Through.same_access (hσ : σ.Through b) (hb : b.Distinct) {a : Access} {e₁ e₂ e₃ : Expr}
    (h₁ : σ.apply (.access a) = .ok e₁) (h₂ : b.apply e₁ = .ok e₂)
    (h₃ : b.apply (.access a) = .ok e₃) : Same e₂ e₃ := by
  unfold apply at h₁
  cases hfind : σ.find? a.var.name with
  | none =>
    rw [hfind] at h₁
    cases h₁
    rw [h₂] at h₃
    cases h₃
    exact .refl (hb.apply_access h₂)
  | some p =>
    obtain ⟨p', v, hp, hv, hagrees⟩ := hσ _ _ hfind
    rw [hfind] at h₁
    unfold apply at h₃
    rw [hv] at h₃
    exact hagrees a.fields e₂ e₃ ((follow_apply a.fields hp h₁).trans h₂) h₃

mutual

/-- **It comes to the same** whether `σ` is applied first and `b` then, or `b` alone. -/
theorem Through.same (hσ : σ.Through b) (hb : b.Distinct) : ∀ {e e₁ e₂ e₃ : Expr},
    e.fieldsDistinct = true → σ.apply e = .ok e₁ → b.apply e₁ = .ok e₂ → b.apply e = .ok e₃ →
      Same e₂ e₃
  | .scalar _ _, _, _, _, _, h₁, h₂, h₃ => by
    cases h₁
    cases h₂
    cases h₃
    exact .refl rfl
  | .access _, _, _, _, _, h₁, h₂, h₃ => hσ.same_access hb h₁ h₂ h₃
  | .binary _ _ _ _, _, _, _, hd, h₁, h₂, h₃ => by
    simp only [Expr.fieldsDistinct, Bool.and_eq_true] at hd
    obtain ⟨l₁, r₁, hl₁, hr₁, rfl⟩ := of_apply_binary h₁
    obtain ⟨l₂, r₂, hl₂, hr₂, rfl⟩ := of_apply_binary h₂
    obtain ⟨l₃, r₃, hl₃, hr₃, rfl⟩ := of_apply_binary h₃
    exact .binary (hσ.same hb hd.1 hl₁ hl₂ hl₃) (hσ.same hb hd.2 hr₁ hr₂ hr₃) _ _ _
  | .unary _ _ x, _, _, _, hd, h₁, h₂, h₃ => by
    obtain ⟨x₁, hx₁, rfl⟩ := of_apply_unary h₁
    obtain ⟨x₂, hx₂, rfl⟩ := of_apply_unary h₂
    obtain ⟨x₃, hx₃, rfl⟩ := of_apply_unary h₃
    exact .unary (hσ.same (e := x) hb hd hx₁ hx₂ hx₃) _ _ _
  | .type _ _ ps, _, _, _, hd, h₁, h₂, h₃ => by
    obtain ⟨ps₁, hps₁, rfl⟩ := of_apply_type h₁
    obtain ⟨ps₂, hps₂, rfl⟩ := of_apply_type h₂
    obtain ⟨ps₃, hps₃, rfl⟩ := of_apply_type h₃
    exact .type (hσ.sameAll (l := ps) hb hd hps₁ hps₂ hps₃) _ _ rfl
  | .constructed _ _ fs, _, _, _, hd, h₁, h₂, h₃ => by
    simp only [Expr.fieldsDistinct, Bool.and_eq_true, decide_eq_true_eq] at hd
    obtain ⟨fs₁, hfs₁, rfl⟩ := of_apply_constructed h₁
    obtain ⟨fs₂, hfs₂, rfl⟩ := of_apply_constructed h₂
    obtain ⟨fs₃, hfs₃, rfl⟩ := of_apply_constructed h₃
    have hrel := hσ.sameFields (l := fs) hb hd.2 hfs₁ hfs₂ hfs₃
    have hnodup : (fs₂.map fun f => f.name.name).Nodup := by
      rw [Named.names_of_rel (forall₂_of_applyFields hfs₂),
        Named.names_of_rel (forall₂_of_applyFields hfs₁)]
      exact hd.1
    refine .constructed hrel.length_eq (fun f hf => ?_) _ _ rfl
    -- the field of that name on the one side goes with the field of that name on the other
    have hfield := Named.find?_rel hrel f.name.name
    rw [Named.find?_of_mem hnodup hf] at hfield
    generalize Named.find? fs₃ f.name.name = found at hfield
    cases hfield with
    | some hsame => exact ⟨_, rfl, hsame⟩
  | .collection _ es, _, _, _, hd, h₁, h₂, h₃ => by
    obtain ⟨es₁, hes₁, rfl⟩ := of_apply_collection h₁
    obtain ⟨es₂, hes₂, rfl⟩ := of_apply_collection h₂
    obtain ⟨es₃, hes₃, rfl⟩ := of_apply_collection h₃
    exact .collection (hσ.sameAll (l := es) hb hd hes₁ hes₂ hes₃) _ _
  | .call _ _ as, _, _, _, hd, h₁, h₂, h₃ => by
    obtain ⟨as₁, has₁, rfl⟩ := of_apply_call h₁
    obtain ⟨as₂, has₂, rfl⟩ := of_apply_call h₂
    obtain ⟨as₃, has₃, rfl⟩ := of_apply_call h₃
    exact .call (hσ.sameAll (l := as) hb hd has₁ has₂ has₃) _ _ rfl
termination_by structural e => e

theorem Through.sameAll (hσ : σ.Through b) (hb : b.Distinct) : ∀ {l l₁ l₂ l₃ : List Expr},
    Expr.allFieldsDistinct l = true → σ.applyAll l = .ok l₁ → b.applyAll l₁ = .ok l₂ →
      b.applyAll l = .ok l₃ → List.Forall₂ Same l₂ l₃
  | [], _, _, _, _, h₁, h₂, h₃ => by
    cases h₁
    cases h₂
    cases h₃
    exact .nil
  | _ :: _, _, _, _, hd, h₁, h₂, h₃ => by
    simp only [Expr.allFieldsDistinct, Bool.and_eq_true] at hd
    obtain ⟨e₁, es₁, he₁, hes₁, rfl⟩ := of_applyAll_cons h₁
    obtain ⟨e₂, es₂, he₂, hes₂, rfl⟩ := of_applyAll_cons h₂
    obtain ⟨e₃, es₃, he₃, hes₃, rfl⟩ := of_applyAll_cons h₃
    exact .cons (hσ.same hb hd.1 he₁ he₂ he₃) (hσ.sameAll hb hd.2 hes₁ hes₂ hes₃)
termination_by structural l => l

theorem Through.sameFields (hσ : σ.Through b) (hb : b.Distinct) :
    ∀ {l l₁ l₂ l₃ : List (Named Expr)}, Expr.valuesFieldsDistinct l = true →
      σ.applyFields l = .ok l₁ → b.applyFields l₁ = .ok l₂ → b.applyFields l = .ok l₃ →
        List.Forall₂ (Named.Rel Same) l₂ l₃
  | [], _, _, _, _, h₁, h₂, h₃ => by
    cases h₁
    cases h₂
    cases h₃
    exact .nil
  | _ :: _, _, _, _, hd, h₁, h₂, h₃ => by
    simp only [Expr.valuesFieldsDistinct, Bool.and_eq_true] at hd
    obtain ⟨v₁, fs₁, hv₁, hfs₁, rfl⟩ := of_applyFields_cons h₁
    obtain ⟨v₂, fs₂, hv₂, hfs₂, rfl⟩ := of_applyFields_cons h₂
    obtain ⟨v₃, fs₃, hv₃, hfs₃, rfl⟩ := of_applyFields_cons h₃
    exact .cons ⟨rfl, hσ.same hb hd.1 hv₁ hv₂ hv₃⟩ (hσ.sameFields hb hd.2 hfs₁ hfs₂ hfs₃)
termination_by structural l => l

end

end Substitution

/-! ## §2. Inputs and parameters. -/

/-- Something is subtracted in an input. -/
def RuleInput.subtracts : RuleInput → Bool
  | any _ => false
  | value p => p.subtracts

/-- The value is closed, names no field twice and subtracts nothing. -/
structure Expr.Ground (e : Expr) : Prop where
  closed : e.vars = []
  distinct : e.fieldsDistinct = true
  noSub : e.subtracts = false

/-- A match binds the names that the inputs catch and no others. -/
theorem RuleInput.extends_of_bindings? {message : Symbol → Bool} :
    ∀ {l : List RuleInput} {params : List Expr} {σ σ' : Substitution},
      σ.scopes.frames ≠ [] → (∀ p ∈ params, p.fieldsDistinct = true) →
      bindings? message σ l params = some σ' →
        Substitution.Extends (l.flatMap caught) σ σ'
  | .any _ :: inputs, _ :: params, _, _, hopen, hparams, h =>
    extends_of_bindings? (l := inputs) hopen (List.forall_mem_cons.mp hparams).2 h
  | .value p :: inputs, param :: params, _, _, hopen, hparams, h => by
    obtain ⟨σ₁, hfirst, hrest⟩ := Option.bind_eq_some_iff.mp h
    rw [List.forall_mem_cons] at hparams
    have hσ₁ := Expr.extends_of_bindings? hopen hparams.1 hfirst
    exact hσ₁.trans (extends_of_bindings? hσ₁.isOpen hparams.2 hrest)
  | [], _, _, _, hopen, _, h => by
    cases h
    exact .refl hopen
  | .any _ :: _, [], _, _, hopen, _, h => by
    cases h
    exact .refl hopen
  | .value _ :: _, [], _, _, hopen, _, h => by
    cases h
    exact .refl hopen

namespace Typing

open Check

variable {c : Setting} {b : Substitution}

theorem typed_of_checkParams : ∀ {deps : List Variable} {params : List Expr} {σ : Substitution}
    {s t : Checking}, s.readingInput = false → s.substitution.scopes.frames ≠ [] →
      params.length = deps.length → checkParams σ deps params c s = (.ok (), t) →
        List.Forall₂ (fun dep param => Typed c false param dep.type.name) deps params
  | [], params, _, _, _, _, _, hcount, _ => by
    obtain rfl := List.length_eq_zero_iff.mp hcount
    exact .nil
  | dep :: deps, [], _, _, _, _, _, hcount, _ => by cases hcount
  | dep :: deps, param :: params, _, s, _, hreading, hopen, hcount, hrun => by
    obtain ⟨type, s₁, hunder, hchecked⟩ := bind_eq_ok hrun
    obtain ⟨happly, rfl⟩ := under_eq_ok hunder
    obtain ⟨_, s₂, hvalue, hrest⟩ := bind_eq_ok hchecked
    have hstill := (stepwise_checkValue param type).quiet.still_of_run hopen hvalue
    refine .cons ⟨type, _, _, name_of_applyType happly, hreading, hopen, hvalue⟩ ?_
    exact typed_of_checkParams (hstill.readingInput.trans hreading) (hstill.substitution ▸ hopen)
      (Nat.succ.inj hcount) hrest

/-- A parameter that is well typed for a dependency, which stands for it. -/
structure Supplies (c : Setting) (b : Substitution) (dep : Variable) (param : Expr) : Prop where
  typed : Typed c false param dep.type.name
  ground : param.Ground
  bound : b.find? dep.name.name = some param

theorem supplies_of_forall₂ {deps : List Variable} {params : List Expr}
    (htyped : List.Forall₂ (fun dep param => Typed c false param dep.type.name) deps params)
    (hground : ∀ p ∈ params, p.Ground)
    (hbound : List.Forall₂ (fun dep param => b.find? dep.name.name = some param) deps params) :
    List.Forall₂ (Supplies c b) deps params := by
  induction htyped with
  | nil => exact .nil
  | cons htyped _ ih =>
    rw [List.forall_mem_cons] at hground
    cases hbound with
    | cons hdep hdeps => exact .cons ⟨htyped, hground.1, hdep⟩ (ih hground.2 hdeps)

theorem ground_of_supplies {deps : List Variable} {params : List Expr}
    (h : List.Forall₂ (Supplies c b) deps params) : ∀ p ∈ params, p.Ground := by
  induction h with
  | nil => simp
  | cons hdep _ ih => exact List.forall_mem_cons.mpr ⟨hdep.ground, ih⟩

theorem replace_eq_ok {name : Symbol} {e : Expr} {s t : Checking} {a : Unit}
    (h : replace name e c s = (.ok a, t)) : s.substitution.add name e = .ok t.substitution := by
  unfold replace at h
  cases hadd : s.substitution.add name e with
  | error err =>
    rw [hadd] at h
    cases h
  | ok σ =>
    rw [hadd] at h
    cases h
    rfl

/-- What the check of an input finds: it is a variable alone or well typed, and the dependency is
replaced by it. -/
theorem supplied_of_checkInputs {p : Expr} {inputs : List RuleInput} {dep : Variable}
    {deps : List Variable} {s t : Checking} (hopen : s.substitution.scopes.frames ≠ [])
    (h : checkInputs (.value p :: inputs) (dep :: deps) c s = (.ok (), t)) :
    Supplied c true p dep.type.name ∧ ∃ u,
      s.substitution.add dep.name.name p = .ok u.substitution
        ∧ checkInputs inputs deps c u = (.ok (), t) := by
  unfold checkInputs at h
  obtain ⟨type, s₁, hunder, hread⟩ := bind_eq_ok h
  obtain ⟨happly, rfl⟩ := applyType_of_underCurrent hunder
  have hname : type.name = dep.type.name := name_of_applyType happly
  have hafter : ∀ v : Checking, v.substitution = s₁.substitution →
      (replace dep.name.name p >>= fun _ => checkInputs inputs deps) c v = (.ok (), t) →
        ∃ u, s₁.substitution.add dep.name.name p = .ok u.substitution
          ∧ checkInputs inputs deps c u = (.ok (), t) := by
    intro v hv hrun
    obtain ⟨_, u, hreplace, hrest⟩ := bind_eq_ok hrun
    exact ⟨u, hv ▸ replace_eq_ok hreplace, hrest⟩
  cases hbare : p.bareVar? with
  | some v =>
    rw [hbare] at hread
    obtain ⟨_, s₂, hbound, hrest⟩ := bind_eq_ok hread
    cases hbound
    refine ⟨.inl ⟨rfl, by rw [hbare]; rfl⟩, ?_⟩
    exact hafter { s₁ with scopes := s₁.scopes.bind v.name (.value type) } rfl hrest
  | none =>
    rw [hbare] at hread
    obtain ⟨_, s₂, hvalue, hrest⟩ := bind_eq_ok hread
    obtain ⟨u, hrun, rfl⟩ := readInput_eq_ok hvalue
    have hopen' : ({ s₁ with readingInput := true } : Checking).substitution.scopes.frames ≠ [] :=
      hopen
    have hstill := (stepwise_checkValue p type).quiet.still_of_run hopen' hrun
    refine ⟨.inr ⟨type, _, _, hname, rfl, hopen', hrun⟩, ?_⟩
    exact hafter { u with readingInput := s₁.readingInput } hstill.substitution hrest

/-- **A dependency is replaced by a pattern that becomes the parameter** when what the inputs bind
is put in for their variables: what the inputs catch are new names, each caught once. -/
theorem through_of_checkInputs (hs : c.schema.Tidy) {deps : List Variable} {params : List Expr}
    (hsupplies : List.Forall₂ (Supplies c b) deps params) :
    ∀ {inputs : List RuleInput} {μ : Substitution} {s t : Checking},
      inputs.length = deps.length → (∀ i ∈ inputs, i.subtracts = false) →
      (inputs.flatMap RuleInput.caught).Nodup →
      (∀ n ∈ Variable.names deps, n ∉ inputs.flatMap RuleInput.caught) →
      (∀ n ∈ inputs.flatMap RuleInput.caught, s.substitution.find? n = none) →
      s.substitution.scopes.frames ≠ [] → μ.scopes.frames ≠ [] →
      RuleInput.bindings? c.schema.ofMessage μ inputs params = some b →
      checkInputs inputs deps c s = (.ok (), t) → s.substitution.Through b →
        t.substitution.Through b := by
  induction hsupplies with
  | nil =>
    intro inputs μ s t hcount _ _ _ _ _ _ _ hrun hthrough
    obtain rfl := List.length_eq_zero_iff.mp hcount
    cases hrun
    exact hthrough
  | @cons dep param deps params hdep hdeps ih =>
    intro inputs μ s t hcount hsub hnodup hdisjoint hnew hopen hμ hmatch hrun hthrough
    cases inputs with
    | nil => cases hcount
    | cons input inputs =>
      rw [List.forall_mem_cons] at hsub
      have hcount' : inputs.length = deps.length := Nat.succ.inj hcount
      obtain ⟨hone, hothers, hapart⟩ := List.nodup_append.mp hnodup
      obtain ⟨hname, hnames⟩ := List.forall_mem_cons.mp hdisjoint
      cases input with
      | any span => exact ih hcount' hsub.2 hnodup hnames hnew hopen hμ hmatch hrun hthrough
      | value p =>
        obtain ⟨hpattern, u, hadd, hrest⟩ := supplied_of_checkInputs hopen hrun
        obtain ⟨μ₁, hfirst, hmatch'⟩ := Option.bind_eq_some_iff.mp hmatch
        have hextends := Expr.extends_of_bindings? hμ hdep.ground.distinct hfirst
        have hextends' := RuleInput.extends_of_bindings? hextends.isOpen
          (fun q hq => (ground_of_supplies hdeps q hq).distinct) hmatch'
        -- the variables of the pattern are new, so that it is stored as it is
        have hvars := Expr.vars_subset_caught hdep.ground.closed hfirst
        have hself : s.substitution.apply p = .ok p :=
          Substitution.apply_of_unbound fun n hn => hnew n (List.mem_append_left _ (hvars hn))
        have hu : u.substitution = s.substitution.bind dep.name.name p := by
          unfold Substitution.add at hadd
          rw [hself] at hadd
          exact (Except.ok.inj hadd).symm
        obtain ⟨p', hp', hagrees⟩ := Expr.agrees_of_bindings? hs hpattern hdep.typed
          hdep.ground.closed hdep.ground.distinct hsub.1 hdep.ground.noSub hone hμ hfirst
          fun n hn => hextends'.outside n fun hmem => hapart n hn n hmem rfl
        have hthrough' : u.substitution.Through b := by
          intro n q hq
          rw [hu, Substitution.find?_bind hopen] at hq
          split at hq
          · next heq =>
            cases hq
            exact ⟨p', param, hp', heq ▸ hdep.bound, hagrees⟩
          · exact hthrough n q hq
        refine ih hcount' hsub.2 hothers ?_ ?_ ?_ hextends.isOpen hmatch' hrest hthrough'
        · exact fun n hn hmem => hnames n hn (List.mem_append_right _ hmem)
        · intro n hn
          have hmem : n ∈ (RuleInput.value p :: inputs).flatMap RuleInput.caught :=
            List.mem_append_right _ hn
          rw [hu, Substitution.find?_bind hopen,
            if_neg fun heq : n = dep.name.name => hname (show dep.name.name ∈ _ from heq ▸ hmem)]
          exact hnew n hmem
        · rw [hu]
          exact Substitution.bind_open hopen _ _

/-! ## §3. The two views. -/

theorem extends_bindZip : ∀ (deps : List Variable) {params : List Expr} {σ : Substitution},
    σ.scopes.frames ≠ [] → (∀ p ∈ params, p.fieldsDistinct = true) →
      Substitution.Extends (Variable.names deps) σ
        ((deps.zip params).foldl (fun σ (dep, param) => σ.bind dep.name.name param) σ)
  | [], _, _, hopen, _ => .refl hopen
  | _ :: _, [], _, hopen, _ => .refl hopen
  | dep :: deps, _ :: _, _, hopen, hparams => by
    rw [List.forall_mem_cons] at hparams
    have hdep := Substitution.Extends.bind hopen dep.name.name hparams.1
    exact hdep.trans (extends_bindZip deps hdep.isOpen hparams.2)

/-- Dependencies with different names stand for their parameters, also where other names are bound.
-/
theorem find?_bindZip : ∀ {deps : List Variable} {params : List Expr} {σ : Substitution},
    σ.scopes.frames ≠ [] → (Variable.names deps).Nodup → params.length = deps.length →
      (∀ p ∈ params, p.fieldsDistinct = true) →
      let σ' := (deps.zip params).foldl (fun σ (dep, param) => σ.bind dep.name.name param) σ
      (∀ n ∈ Variable.names deps, b.find? n = σ'.find? n) →
        List.Forall₂ (fun dep param => b.find? dep.name.name = some param) deps params
  | [], params, _, _, _, hcount, _, _ => by
    obtain rfl := List.length_eq_zero_iff.mp hcount
    exact .nil
  | _ :: _, [], _, _, _, hcount, _, _ => by cases hcount
  | dep :: deps, param :: params, σ, hopen, hnodup, hcount, hparams, hb => by
    obtain ⟨hnew, hnodup⟩ := List.nodup_cons.mp hnodup
    obtain ⟨hparam, hparams⟩ := List.forall_mem_cons.mp hparams
    obtain ⟨hfirst, hb⟩ := List.forall_mem_cons.mp hb
    have hdep := Substitution.Extends.bind hopen dep.name.name hparam
    refine .cons ?_ (find?_bindZip hdep.isOpen hnodup (Nat.succ.inj hcount) hparams hb)
    -- the dependencies after this one have other names
    refine hfirst.trans (((extends_bindZip deps hdep.isOpen hparams).outside _ hnew).trans ?_)
    rw [Substitution.find?_bind hopen, if_pos rfl]

/-- The rule matches these parameters, which are closed and well typed, and binds `bound`. -/
structure MatchedBy (c : Setting) (e : Enum) (rule : Rule) (params : List Expr)
    (bound : Substitution) : Prop where
  ground : ∀ p ∈ params, p.Ground
  count : params.length = e.deps.length
  typed : ∃ s t : Checking, s.readingInput = false ∧ s.substitution.scopes.frames ≠ []
    ∧ checkParams .empty e.deps params c s = (.ok (), t)
  matched : ∃ s t, matchRule (bindDeps e.deps params) rule params c s = (.ok (some bound), t)

/-- **What the patterns put for the dependencies becomes what was matched with them**, where the
names of the dependencies and those that the inputs bind are all different. -/
theorem MatchedBy.through (hc : c.oracle = Structural.oracle) (hs : c.schema.Tidy) {e : Enum}
    {rule : Rule} {params : List Expr} {bound : Substitution} (h : MatchedBy c e rule params bound)
    (hnames : (Variable.names e.deps ++ rule.inputs.flatMap RuleInput.caught).Nodup)
    (hsub : ∀ i ∈ rule.inputs, i.subtracts = false) {s t : Checking} (hunbound : Unbound s)
    (hinputs : checkInputs rule.inputs e.deps c s = (.ok (), t)) :
    t.substitution.Through bound ∧ bound.Distinct := by
  obtain ⟨hground, hcount, ⟨s₁, t₁, hreading, hopen, hparams⟩, s₂, t₂, hmatch⟩ := h
  obtain ⟨hdeps, hcaught, hapart⟩ := List.nodup_append.mp hnames
  have hdistinct := fun p hp => (hground p hp).distinct
  have hmatch' : rule.bindings? c.schema.ofMessage (bindDeps e.deps params) params = some bound :=
    (Except.ok.inj ((congrArg Prod.fst hmatch).symm.trans (gives_matchRule hc _ _ _ s₂))).symm
  obtain ⟨hlength, hbound⟩ := Option.ite_none_right_eq_some.mp hmatch'
  have hzip := extends_bindZip e.deps Substitution.empty_open hdistinct
  have hextends := RuleInput.extends_of_bindings? hzip.isOpen hdistinct hbound
  have hsupplies : List.Forall₂ (Supplies c bound) e.deps params := by
    have htyped := typed_of_checkParams hreading hopen hcount hparams
    refine supplies_of_forall₂ htyped hground
      (find?_bindZip Substitution.empty_open hdeps hcount hdistinct fun n hn => ?_)
    exact hextends.outside n fun hmem => hapart n hn n hmem rfl
  refine ⟨?_, hextends.distinct (hzip.distinct Substitution.distinct_empty)⟩
  refine through_of_checkInputs hs hsupplies (hlength.trans hcount) hsub hcaught
    (fun n hn hmem => hapart n hn n hmem rfl) (fun n _ => hunbound.2 n) hunbound.1 hzip.isOpen
    hbound hinputs ?_
  intro n p hfind
  rw [hunbound.2] at hfind
  cases hfind

/-- A type is the same whether it is taken through the patterns or not. -/
theorem sameType_of_through (hc : c.oracle = Structural.oracle) {σ bound : Substitution}
    (hthrough : σ.Through bound) (hbound : bound.Distinct)
    {type declared used direct : TypeExpr} (htype : type.toExpr.fieldsDistinct = true)
    (hdeclared : σ.applyType type = .ok declared) (hused : bound.applyType declared = .ok used)
    (hdirect : bound.applyType type = .ok direct) (span : Span) (u : Checking) :
    (requireSameType used direct span c u).1 = .ok () := by
  obtain ⟨ps₁, hps₁, rfl⟩ := Substitution.of_applyType hdeclared
  obtain ⟨ps₂, hps₂, rfl⟩ := Substitution.of_applyType hused
  obtain ⟨ps₃, hps₃, rfl⟩ := Substitution.of_applyType hdirect
  have hsame := hthrough.sameAll hbound (l := type.params) htype hps₁ hps₂ hps₃
  have hpasses : Gives c
      (requireSameType ⟨type.span, type.ident, ps₂⟩ ⟨type.span, type.ident, ps₃⟩ span) () :=
    gives_requireSameType hc (by rfl) (Expr.allSameAs_of_same hsame) span
  exact hpasses u

/-- **The declaration of a rule and its use agree on the types of fields.** Where the names of the
dependencies and those that the inputs bind are all different, and neither inputs nor parameters
subtract, a type under the patterns and then under what the closed parameters were matched with is
the same, to the structural oracle, as that type under what they were matched with alone. -/
theorem sameType_of_views (hc : c.oracle = Structural.oracle) (hs : c.schema.nameFaults = [])
    {e : Enum} {rule : Rule}
    (hnames : (Variable.names e.deps ++ rule.inputs.flatMap RuleInput.caught).Nodup)
    (hsub : ∀ i ∈ rule.inputs, i.subtracts = false)
    -- the rule is declared
    {s t : Checking} (hunbound : Unbound s)
    (hinputs : checkInputs rule.inputs e.deps c s = (.ok (), t))
    -- parameters are given, and the rule matches them
    {params : List Expr} {s₁ t₁ s₂ t₂ : Checking} (hground : ∀ p ∈ params, p.Ground)
    (hcount : params.length = e.deps.length) (hreading : s₁.readingInput = false)
    (hopen : s₁.substitution.scopes.frames ≠ [])
    (hparams : checkParams .empty e.deps params c s₁ = (.ok (), t₁)) {bound : Substitution}
    (hmatch : matchRule (bindDeps e.deps params) rule params c s₂ = (.ok (some bound), t₂))
    -- a type under the patterns, and under both, and under what was matched
    {type declared used direct : TypeExpr} (htype : type.toExpr.fieldsDistinct = true)
    (hdeclared : t.substitution.applyType type = .ok declared)
    (hused : bound.applyType declared = .ok used) (hdirect : bound.applyType type = .ok direct)
    (span : Span) (u : Checking) : (requireSameType used direct span c u).1 = .ok () := by
  have hmatched : MatchedBy c e rule params bound :=
    ⟨hground, hcount, ⟨s₁, t₁, hreading, hopen, hparams⟩, s₂, t₂, hmatch⟩
  obtain ⟨hthrough, hbound⟩ :=
    hmatched.through hc (Schema.tidy_of_nameFaults hs) hnames hsub hunbound hinputs
  exact sameType_of_through hc hthrough hbound htype hdeclared hused hdirect span u

end Typing

/-! ## §4. Schemas that pass. -/

namespace Typing

open Check

variable {c : Setting}

theorem Unbound.of_eq {s t : Checking} (h : Unbound s) (heq : t.substitution = s.substitution) :
    Unbound t := by
  unfold Unbound
  rw [heq]
  exact h

/-- Rules that passed had their inputs checked with nothing substituted. -/
theorem inputs_of_checkRules {e : Enum} {rules : List Rule} :
    ∀ {s t : Checking}, Unbound s → checkRules e rules c s = (.ok (), t) → ∀ rule ∈ rules,
      ∃ v u, Unbound v ∧ checkInputs rule.inputs e.deps c v = (.ok (), u) := by
  induction rules with
  | nil => simp
  | cons rule rules ih =>
    intro s t hs h
    obtain ⟨_, t₁, hrule, hrest⟩ := bind_eq_ok h
    have hstill := (stepwise_checkRule e rule).quiet.still_of_run hs.1 hrule
    refine List.forall_mem_cons.mpr ⟨?_, ih (hs.of_eq hstill.substitution) hrest⟩
    obtain ⟨-, hrule⟩ := guard_eq_ok hrule
    obtain ⟨_, hrun, -⟩ := inScope_eq_ok hrule
    obtain ⟨_, u, hinputs, -⟩ := bind_eq_ok hrun
    exact ⟨s.opened, u, ⟨List.cons_ne_nil _ _, hs.2⟩, hinputs⟩

/-- **The inputs of every rule are checked with nothing substituted**, if the schema passes. -/
theorem inputs_of_typing {t : SymbolTable} {s : Schema} (hs : s.Keyed) {order : List Symbol}
    (horder : s.typeOrder t = .ok order) (oracle : Oracle)
    (hok : ((s.withOrder order).typing oracle).1 = .ok ()) {e : Enum} (he : .enum e ∈ s.types)
    {rule : Rule} (hrule : rule ∈ e.rules) :
    ∃ v u, Unbound v
      ∧ checkInputs rule.inputs e.deps ⟨s.withOrder order, oracle⟩ v = (.ok (), u) := by
  obtain ⟨htypes, -⟩ := Schema.passed_of_typing hok
  have hordered := Schema.ordered_of_typeOrder hs.types horder
  obtain ⟨s₀, hs₀, _, _, hrun⟩ :=
    (hordered.forall_iff (hs.withOrder order)).mp htypes _ he
  obtain ⟨_, _, hbody, -⟩ := bind_eq_ok hrun
  obtain ⟨_, hbody, -⟩ := inScope_eq_ok hbody
  obtain ⟨_, t₁, hdeps, hrules⟩ := bind_eq_ok hbody
  have hopened := unbound_opened hs₀
  obtain ⟨hsame, -⟩ := formedUnder_of_introduceVariables hopened.1 hdeps
  exact inputs_of_checkRules (hopened.of_eq hsame) hrules rule hrule

/-- **In a schema that passes both views agree.** The check of the schema leaves a rule whose names
are all different with patterns for the dependencies; whatever closed parameters the rule matches,
the type of a field under these patterns and then under what was matched is the same as under what
was matched alone. -/
theorem views_of_typing {t : SymbolTable} {s : Schema} (hfaults : s.nameFaults = [])
    {order : List Symbol} (horder : s.typeOrder t = .ok order)
    (hok : ((s.withOrder order).typing Structural.oracle).1 = .ok ()) {e : Enum}
    (he : .enum e ∈ s.types) {rule : Rule} (hrule : rule ∈ e.rules)
    (hnames : (Variable.names e.deps ++ rule.inputs.flatMap RuleInput.caught).Nodup)
    (hsub : ∀ i ∈ rule.inputs, i.subtracts = false) :
    let c : Setting := ⟨s.withOrder order, Structural.oracle⟩
    ∃ v u, Unbound v ∧ checkInputs rule.inputs e.deps c v = (.ok (), u)
      ∧ ∀ params bound, MatchedBy c e rule params bound →
        ∀ ctor ∈ rule.constructors, ∀ w ∈ ctor.fields, w.type.toExpr.fieldsDistinct = true →
          ∀ declared used direct, u.substitution.applyType w.type = .ok declared →
            bound.applyType declared = .ok used → bound.applyType w.type = .ok direct →
              ∀ span z, (requireSameType used direct span c z).1 = .ok () := by
  intro c
  have htidy : c.schema.Tidy := Schema.tidy_of_nameFaults hfaults
  obtain ⟨v, u, hunbound, hinputs⟩ :=
    inputs_of_typing (Schema.keyed_of_nameFaults hfaults) horder Structural.oracle hok he hrule
  refine ⟨v, u, hunbound, hinputs, ?_⟩
  intro params bound hmatched ctor _ w _ htype declared used direct hdeclared hused hdirect span z
  obtain ⟨hthrough, hbound⟩ := hmatched.through rfl htidy hnames hsub hunbound hinputs
  exact sameType_of_through rfl hthrough hbound htype hdeclared hused hdirect span z

end Typing

namespace Schema

/-! ## A dependency whose name is caught. -/

namespace Example

/-- The rule that catches the first parameter and compares the second one. -/
def catching (name : UInt32) (second : Expr) : Rule :=
  ⟨[.value (var name), .value second], [⟨ident 13, [field 14 7 [var 11, var 12]]⟩]⟩

/-- An enum with two numbers, the dependencies 11 and 12, and that rule only. -/
def caughtAs (name : UInt32) (second : Expr) : Enum :=
  ⟨ident 10, [field 11 0 [], field 12 0 []], [catching name second]⟩

/-- The enum, and the message 7 with two numbers for its field. -/
def pointed (name : UInt32) (second : Expr) : List Declaration :=
  [.type (.message ⟨ident 7, [field 8 0 [], field 9 0 []], []⟩),
    .type (.enum (caughtAs name second))]

/-- What the schema is checked with. -/
def setting (name : UInt32) (second : Expr) : Setting :=
  ⟨ofDeclarations (pointed name second), Structural.oracle⟩

/-- What matching the parameters 5 and 3 gives: the first one is caught. -/
def five (name : UInt32) (second : Expr) : Substitution :=
  (Typing.bindDeps (caughtAs name second).deps [int 5, int 3]).bind ⟨name⟩ (int 5)

/-- The type of the field as it is written. -/
def written : TypeExpr := type 7 [var 11, var 12]

/-- The sum of 1 and 2. -/
def onePlusTwo : Expr := .binary ⟨0, 0⟩ .add (int 1) (int 2)

end Example

open Example Typing

/-- Where 15 is caught, the type of the field is the same in both views. -/
theorem views_caught :
    let c := setting 15 onePlusTwo
    let e := caughtAs 15 onePlusTwo
    let rule := catching 15 onePlusTwo
    let t := (checkInputs rule.inputs e.deps c .start).2
    (checkInputs rule.inputs e.deps c .start).1 = .ok ()
      ∧ (checkParams .empty e.deps [int 5, int 3] c .start).1 = .ok ()
      ∧ (matchRule (bindDeps e.deps [int 5, int 3]) rule [int 5, int 3] c .start).1
        = .ok (some (five 15 onePlusTwo))
      ∧ t.substitution.applyType written = .ok (type 7 [var 15, onePlusTwo])
      ∧ (five 15 onePlusTwo).applyType (type 7 [var 15, onePlusTwo])
        = .ok (type 7 [int 5, onePlusTwo])
      ∧ (five 15 onePlusTwo).applyType written = .ok (type 7 [int 5, int 3])
      ∧ (requireSameType (type 7 [int 5, onePlusTwo]) (type 7 [int 5, int 3]) ⟨0, 0⟩ c .start).1
        = .ok () := by
  intro c e rule t
  have hread : (checkInputs rule.inputs e.deps c .start).1 = .ok () := by cbv
  have hparams : (checkParams .empty e.deps [int 5, int 3] c .start).1 = .ok () := by cbv
  have hmatch : (matchRule (bindDeps e.deps [int 5, int 3]) rule [int 5, int 3] c .start).1
      = .ok (some (five 15 onePlusTwo)) := by cbv
  have hdeclared : t.substitution.applyType written = .ok (type 7 [var 15, onePlusTwo]) := by cbv
  have hused : (five 15 onePlusTwo).applyType (type 7 [var 15, onePlusTwo])
      = .ok (type 7 [int 5, onePlusTwo]) := by cbv
  have hdirect : (five 15 onePlusTwo).applyType written = .ok (type 7 [int 5, int 3]) := by cbv
  have hground : ∀ p ∈ [int 5, int 3], p.Ground :=
    List.forall_mem_cons.mpr ⟨⟨rfl, rfl, rfl⟩, List.forall_mem_singleton.mpr ⟨rfl, rfl, rfl⟩⟩
  have hempty : Unbound .start := ⟨Substitution.empty_open, fun _ => rfl⟩
  refine ⟨hread, hparams, hmatch, hdeclared, hused, hdirect, ?_⟩
  exact sameType_of_views rfl (by cbv) (by decide) (by decide) hempty (Prod.ext hread rfl) hground
    rfl rfl hempty.1 (Prod.ext hparams rfl) (Prod.ext hmatch rfl) (by decide) hdeclared hused
    hdirect _ _

/-- **Where the dependency 12 is caught, the type of the field differs**, although the schema
passes: as declared its numbers are 5 and 3, as written they are 5 and 5. -/
theorem views_differ :
    let c := setting 12 (int 3)
    let e := caughtAs 12 (int 3)
    let rule := catching 12 (int 3)
    let t := (checkInputs rule.inputs e.deps c .start).2
    ((ofDeclarations (pointed 12 (int 3))).check names .fast).result = .ok ()
      ∧ (checkInputs rule.inputs e.deps c .start).1 = .ok ()
      ∧ (checkParams .empty e.deps [int 5, int 3] c .start).1 = .ok ()
      ∧ (matchRule (bindDeps e.deps [int 5, int 3]) rule [int 5, int 3] c .start).1
        = .ok (some (five 12 (int 3)))
      ∧ t.substitution.applyType written = .ok (type 7 [var 12, int 3])
      ∧ (five 12 (int 3)).applyType (type 7 [var 12, int 3]) = .ok (type 7 [int 5, int 3])
      ∧ (five 12 (int 3)).applyType written = .ok (type 7 [int 5, int 5])
      ∧ (requireSameType (type 7 [int 5, int 3]) (type 7 [int 5, int 5]) ⟨0, 0⟩ c .start).1
        = .error (.located ⟨0, 0⟩ (.parameterMismatch 1 (int 3) (int 5))) := by
  intro c e rule t
  refine ⟨?_, ?_, ?_, ?_, ?_, ?_, ?_, ?_⟩ <;> cbv

end Schema

end DepSchema
