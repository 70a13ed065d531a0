/-
DepSchema.Proofs.Substitution.Composition — one substitution after another.

A new binding is closed under the bindings that are already there before it is stored. Replacing
variables by what is stored is then the same as replacing the new variable by the expression as it
was given and after that applying the bindings that were there. The two ways take fields at
different moments, from the closed expression or from the given one, but fields are taken one after
the other and replacing variables does not get in their way.

What holds of the variables of an expression holds of the expression: a law for one substitution
after another is shown for the variables alone.

Main results: `follow_apply` for fields, `Composes.apply` for expressions, `apply_add` for a new
binding.
-/
import DepSchema.Proofs.Dispatch.Instances

namespace DepSchema

/-! ## §1. Chains of fields. -/

namespace Expr

theorem follow_nil (e : Expr) : e.follow [] = .ok e := by
  cases e <;> rfl

/-- Fields are followed one after the other. -/
theorem follow_append (fields more : List Ident) :
    ∀ {e e' : Expr}, e.follow fields = .ok e' → e.follow (fields ++ more) = e'.follow more := by
  induction fields with
  | nil =>
    intro e e' h
    rw [follow_nil] at h
    cases h
    rfl
  | cons f fields ih =>
    intro e e' h
    cases e with
    | access a =>
      cases h
      cases more with
      | nil => rw [List.append_nil, follow_nil]; rfl
      | cons g more => simp [follow]
    | constructed span c inits =>
      unfold follow at h
      rw [List.cons_append, follow]
      cases hfind : Named.find? inits f.name with
      | none => simp [hfind] at h
      | some value =>
        rw [hfind] at h
        exact ih h
    | _ => cases h

end Expr

namespace Substitution

variable {τ σ σ' : Substitution}

theorem find?_applyFields {fs fs' : List (Named Expr)} (h : σ.applyFields fs = .ok fs')
    (n : Symbol) : Named.find? fs n = none ∧ Named.find? fs' n = none
      ∨ ∃ e e', Named.find? fs n = some e ∧ Named.find? fs' n = some e' ∧ σ.apply e = .ok e' := by
  have hrel := Named.find?_rel (forall₂_of_applyFields h) n
  generalize Named.find? fs n = x at hrel ⊢
  generalize Named.find? fs' n = y at hrel ⊢
  cases hrel with
  | none => exact .inl ⟨rfl, rfl⟩
  | some h => exact .inr ⟨_, _, rfl, rfl, h⟩

/-- The fields of a variable are followed into what the substitution gives for the variable. -/
theorem apply_longer {a : Access} {e : Expr} (h : σ.apply (.access a) = .ok e) (f : Ident)
    (fields : List Ident) :
    σ.apply (.access { a with fields := a.fields ++ f :: fields }) = e.follow (f :: fields) := by
  rcases of_apply_access h with ⟨hfree, rfl⟩ | ⟨bound, hbound, hfollow⟩
  · unfold apply
    dsimp only
    rw [hfree]
    rfl
  · unfold apply
    dsimp only
    rw [hbound]
    exact Expr.follow_append a.fields (f :: fields) hfollow

/-- **To follow fields and to replace variables may be done in either order.** -/
theorem follow_apply (fields : List Ident) : ∀ {e e' q : Expr}, σ.apply e = .ok e' →
    e.follow fields = .ok q → e'.follow fields = σ.apply q := by
  induction fields with
  | nil =>
    intro e e' q he hq
    rw [Expr.follow_nil] at hq ⊢
    cases hq
    exact he.symm
  | cons f fields ih =>
    intro e e' q he hq
    cases e with
    | access a =>
      cases hq
      exact (apply_longer he f fields).symm
    | constructed span c inits =>
      obtain ⟨inits', hinits, rfl⟩ := of_apply_constructed he
      unfold Expr.follow at hq ⊢
      rcases find?_applyFields hinits f.name with ⟨hnone, -⟩ | ⟨v, v', hv, hv', happly⟩
      · simp [hnone] at hq
      · rw [hv] at hq
        rw [hv']
        exact ih happly hq
    | _ => cases hq

/-- Fields that can be followed once variables are replaced can be followed before. -/
theorem exists_follow_of_apply (fields : List Ident) : ∀ {e e' u : Expr}, σ.apply e = .ok e' →
    e'.follow fields = .ok u → ∃ q, e.follow fields = .ok q := by
  induction fields with
  | nil => exact fun {e _ _} _ _ => ⟨e, e.follow_nil⟩
  | cons f fields ih =>
    intro e e' u he hu
    cases e with
    | access a => exact ⟨_, rfl⟩
    | constructed span c inits =>
      obtain ⟨inits', hinits, rfl⟩ := of_apply_constructed he
      unfold Expr.follow at hu ⊢
      rcases find?_applyFields hinits f.name with ⟨-, hnone⟩ | ⟨v, v', hv, hv', happly⟩
      · simp [hnone] at hu
      · rw [hv'] at hu
        rw [hv]
        exact ih happly hu
    -- all others stay what they are, and have no fields
    | scalar =>
      cases he
      cases hu
    | binary =>
      obtain ⟨_, _, -, -, rfl⟩ := of_apply_binary he
      cases hu
    | unary =>
      obtain ⟨_, -, rfl⟩ := of_apply_unary he
      cases hu
    | type =>
      obtain ⟨_, -, rfl⟩ := of_apply_type he
      cases hu
    | collection =>
      obtain ⟨_, -, rfl⟩ := of_apply_collection he
      cases hu
    | call =>
      obtain ⟨_, -, rfl⟩ := of_apply_call he
      cases hu

/-! ## §2. Variables that are not bound. -/

mutual

/-- An expression none of whose variables is replaced stays as it is. -/
theorem apply_of_unbound : ∀ {e : Expr}, (∀ n ∈ e.vars, σ.find? n = none) → σ.apply e = .ok e
  | .scalar _ _, _ => rfl
  | .access a, h => by
    unfold apply
    rw [h a.var.name (List.mem_singleton_self _)]
  | .binary _ _ _ _, h => by
    obtain ⟨hl, hr⟩ := List.forall_mem_append.mp h
    rw [apply, apply_of_unbound hl, apply_of_unbound hr]
    rfl
  | .unary _ _ x, h => by
    rw [apply, apply_of_unbound (e := x) h]
    rfl
  | .type _ _ ps, h => by
    rw [apply, applyAll_of_unbound (l := ps) h]
    rfl
  | .constructed _ _ fs, h => by
    rw [apply, applyFields_of_unbound (l := fs) h]
    rfl
  | .collection _ es, h => by
    rw [apply, applyAll_of_unbound (l := es) h]
    rfl
  | .call _ _ as, h => by
    rw [apply, applyAll_of_unbound (l := as) h]
    rfl

theorem applyAll_of_unbound : ∀ {l : List Expr}, (∀ n ∈ Expr.varsAll l, σ.find? n = none) →
    σ.applyAll l = .ok l
  | [], _ => rfl
  | _ :: _, h => by
    obtain ⟨he, hes⟩ := List.forall_mem_append.mp h
    rw [applyAll, apply_of_unbound he, applyAll_of_unbound hes]
    rfl

theorem applyFields_of_unbound : ∀ {l : List (Named Expr)},
    (∀ n ∈ Expr.varsFields l, σ.find? n = none) → σ.applyFields l = .ok l
  | [], _ => rfl
  | _ :: _, h => by
    obtain ⟨hf, hfs⟩ := List.forall_mem_append.mp h
    rw [applyFields, apply_of_unbound hf, applyFields_of_unbound hfs]
    rfl

end

/-! ## §3. One after the other. -/

/-- On variables, `σ'` is `τ` and then `σ`: where `τ` gives something, `σ'` and `σ` go on alike, and
`σ'` gives nothing where `τ` does not. -/
structure Composes (τ σ σ' : Substitution) : Prop where
  agrees : ∀ (a : Access) (v : Expr), τ.apply (.access a) = .ok v →
    σ'.apply (.access a) = σ.apply v
  defined : ∀ (a : Access) (u : Expr), σ'.apply (.access a) = .ok u →
    ∃ v, τ.apply (.access a) = .ok v

mutual

theorem Composes.apply_of_ok (h : Composes τ σ σ') :
    ∀ {e v : Expr}, τ.apply e = .ok v → σ'.apply e = σ.apply v
  | .scalar _ _, _, hv => by
    cases hv
    rfl
  | .access a, v, hv => h.agrees a v hv
  | .binary _ _ _ _, _, hv => by
    obtain ⟨l, r, hl, hr, rfl⟩ := of_apply_binary hv
    rw [apply, apply, h.apply_of_ok hl, h.apply_of_ok hr]
  | .unary _ _ _, _, hv => by
    obtain ⟨x, hx, rfl⟩ := of_apply_unary hv
    rw [apply, apply, h.apply_of_ok hx]
  | .type _ _ _, _, hv => by
    obtain ⟨ps, hps, rfl⟩ := of_apply_type hv
    rw [apply, apply, h.applyAll_of_ok hps]
  | .constructed _ _ _, _, hv => by
    obtain ⟨fs, hfs, rfl⟩ := of_apply_constructed hv
    rw [apply, apply, h.applyFields_of_ok hfs]
  | .collection _ _, _, hv => by
    obtain ⟨es, hes, rfl⟩ := of_apply_collection hv
    rw [apply, apply, h.applyAll_of_ok hes]
  | .call _ _ _, _, hv => by
    obtain ⟨as, has, rfl⟩ := of_apply_call hv
    rw [apply, apply, h.applyAll_of_ok has]

theorem Composes.applyAll_of_ok (h : Composes τ σ σ') :
    ∀ {es vs : List Expr}, τ.applyAll es = .ok vs → σ'.applyAll es = σ.applyAll vs
  | [], _, hl => by
    cases hl
    rfl
  | _ :: _, _, hl => by
    obtain ⟨v, vs, hv, hvs, rfl⟩ := of_applyAll_cons hl
    rw [applyAll, applyAll, h.apply_of_ok hv, h.applyAll_of_ok hvs]

theorem Composes.applyFields_of_ok (h : Composes τ σ σ') :
    ∀ {fs gs : List (Named Expr)}, τ.applyFields fs = .ok gs →
      σ'.applyFields fs = σ.applyFields gs
  | [], _, hl => by
    cases hl
    rfl
  | _ :: _, _, hl => by
    obtain ⟨v, gs, hv, hgs, rfl⟩ := of_applyFields_cons hl
    rw [applyFields, applyFields, h.apply_of_ok hv, h.applyFields_of_ok hgs]

end

/-- **A substitution that is one after another on variables is so on all expressions.** -/
theorem Composes.apply (h : Composes τ σ σ') {e u : Expr} :
    σ'.apply e = .ok u ↔ ∃ v, τ.apply e = .ok v ∧ σ.apply v = .ok u := by
  constructor
  · intro hu
    -- what succeeds at every variable of the expression under `σ'` does so under `τ`
    have hall : τ.SucceedsAt e.accesses := by
      intro a ha
      obtain ⟨w, hw⟩ := exists_apply_iff.mp ⟨u, hu⟩ a ha
      exact h.defined a w hw
    obtain ⟨v, hv⟩ := exists_apply_iff.mpr hall
    exact ⟨v, hv, (h.apply_of_ok hv).symm.trans hu⟩
  · rintro ⟨v, hv, hu⟩
    exact (h.apply_of_ok hv).trans hu

/-! ## §4. A new binding. -/

theorem apply_bind_self (hσ : σ.scopes.frames ≠ []) {x : Symbol} {e : Expr} {a : Access}
    (hx : a.var.name = x) : (σ.bind x e).apply (.access a) = e.follow a.fields := by
  unfold apply
  rw [find?_bind hσ, if_pos hx]

theorem apply_bind_other (hσ : σ.scopes.frames ≠ []) {x : Symbol} {e : Expr} {a : Access}
    (hx : a.var.name ≠ x) : (σ.bind x e).apply (.access a) = σ.apply (.access a) := by
  unfold apply
  rw [find?_bind hσ, if_neg hx]

/-- Where nothing is replaced at first, the rest is done as before. -/
theorem composes_empty (σ : Substitution) : Composes empty σ σ := by
  constructor
  · intro a v hv
    cases hv
    rfl
  · exact fun a u _ => ⟨.access a, rfl⟩

/-- **A new binding on both sides keeps the law**, if one side binds what `σ` makes of the other. -/
theorem Composes.bind (h : Composes τ σ σ') (hτ : τ.scopes.frames ≠ [])
    (hσ' : σ'.scopes.frames ≠ []) {x : Symbol} {e e' : Expr} (he : σ.apply e = .ok e') :
    Composes (τ.bind x e) σ (σ'.bind x e') := by
  constructor
  · intro a v hv
    by_cases hx : a.var.name = x
    · rw [apply_bind_self hτ hx] at hv
      rw [apply_bind_self hσ' hx]
      exact follow_apply a.fields he hv
    · rw [apply_bind_other hτ hx] at hv
      rw [apply_bind_other hσ' hx]
      exact h.agrees a v hv
  · intro a u hu
    by_cases hx : a.var.name = x
    · rw [apply_bind_self hσ' hx] at hu
      rw [apply_bind_self hτ hx]
      exact exists_follow_of_apply a.fields he hu
    · rw [apply_bind_other hσ' hx] at hu
      rw [apply_bind_other hτ hx]
      exact h.defined a u hu

/-- A new binding is the expression as it was given, and then the bindings that were there. -/
theorem composes_add (hσ : σ.scopes.frames ≠ []) {x : Symbol} {e : Expr}
    (h : σ.add x e = .ok σ') : Composes (empty.bind x e) σ σ' := by
  obtain ⟨e', he, h⟩ := exists_of_bind_eq_ok h
  cases h
  exact (composes_empty σ).bind empty_open hσ he

/-- **Bindings are composed as they are added.** Where an expression can be added, replacing
variables afterwards is replacing the new variable alone and then applying the bindings that were
there before: either both ways give the same tree or neither gives one. -/
theorem apply_add (hσ : σ.scopes.frames ≠ []) {x : Symbol} {e : Expr} (h : σ.add x e = .ok σ')
    (t u : Expr) :
    σ'.apply t = .ok u ↔ ∃ v, (empty.bind x e).apply t = .ok v ∧ σ.apply v = .ok u :=
  (composes_add hσ h).apply

/-! ## A chain of fields through two bindings. -/

namespace Example

/-- The variable `slot` with fields taken from it. -/
def chain (slot : UInt32) (fields : List UInt32) : Expr :=
  .access ⟨⟨0, 0⟩, ⟨⟨slot⟩, ⟨0, 0⟩⟩, fields.map fun f => ⟨⟨f⟩, ⟨0, 0⟩⟩⟩

/-- In the outer of two scopes the variable 7 stands for a value whose field 8 is `11.9`. -/
def outer : Substitution :=
  (empty.bind ⟨7⟩ (.constructed ⟨0, 0⟩ ⟨⟨12⟩, ⟨0, 0⟩⟩ [⟨⟨⟨8⟩, ⟨0, 0⟩⟩, chain 11 [9]⟩])).push

end Example

open Example

/-- With the variable 13 added for `7.8`, the access `13.10` leads into the value and on from the
variable found there. -/
theorem apply_add_chain : outer.scopes.frames ≠ [] ∧ ∃ σ', outer.add ⟨13⟩ (chain 7 [8]) = .ok σ'
    ∧ (∃ v, (empty.bind ⟨13⟩ (chain 7 [8])).apply (chain 13 [10]) = .ok v
      ∧ outer.apply v = .ok (chain 11 [9, 10]))
    ∧ σ'.apply (chain 13 [10]) = .ok (chain 11 [9, 10]) := by
  have hopen : outer.scopes.frames ≠ [] := by simp [outer, push, Scopes.push]
  have hadd : outer.add ⟨13⟩ (chain 7 [8]) = .ok (outer.bind ⟨13⟩ (chain 11 [9])) := rfl
  have hsteps : ∃ v, (empty.bind ⟨13⟩ (chain 7 [8])).apply (chain 13 [10]) = .ok v
      ∧ outer.apply v = .ok (chain 11 [9, 10]) := ⟨chain 7 [8, 10], rfl, rfl⟩
  exact ⟨hopen, _, hadd, hsteps, (apply_add hopen hadd _ _).mpr hsteps⟩

end Substitution

end DepSchema
