/-
DepSchema.Proofs.Substitution.Idempotence — substituting once is enough.

A binding is closed under those before it when it is added, so that what is stored mentions none of
their names. It may still mention a name that is bound later, and then substituting twice goes
further than substituting once. As long as no name is bound that is mentioned already, in any scope,
or by the expression that it is bound to, what is stored mentions no bound name at all: opening and
closing scopes keeps that, although a binding may hide another and come to light again. What a
variable is replaced by, and what its fields lead to, is then left alone the second time.

Main definition: `Substitution.Separate`. Main results: `Separate.apart` and `apply_idempotent`.
-/
import DepSchema.Proofs.Substitution.Composition

namespace DepSchema

/-! ## §1. All bindings of all scopes. -/

namespace Scopes

variable {α : Type} {s : Scopes α} {name : Symbol} {p : Symbol × α}

theorem mem_toList : p ∈ s.toList ↔ ∃ frame ∈ s.frames, p ∈ frame := by
  simp [toList]

/-- A name that stands for nothing is bound in no frame. -/
theorem find?_eq_none_iff : s.find? name = Option.none ↔ ∀ p ∈ s.toList, p.1 ≠ name := by
  simp only [find?, List.findSome?_eq_none_iff, List.lookup_eq_none_iff, mem_toList]
  constructor
  · rintro h p ⟨frame, hframe, hp⟩ heq
    exact absurd heq.symm (by simpa using h frame hframe p hp)
  · intro h frame hframe p hp
    simpa using (h p ⟨frame, hframe, hp⟩).symm

theorem mem_toList_of_find? {a : α} (h : s.find? name = some a) : (name, a) ∈ s.toList := by
  obtain ⟨frame, hframe, hlookup⟩ := List.exists_of_findSome?_eq_some h
  obtain ⟨before, after, rfl, -⟩ := List.lookup_eq_some_iff.mp hlookup
  exact mem_toList.mpr ⟨_, hframe, List.mem_append_right _ List.mem_cons_self⟩

theorem toList_push : s.push.toList = s.toList := by
  simp [toList, push]

theorem mem_toList_of_pop (h : p ∈ s.pop.toList) : p ∈ s.toList := by
  obtain ⟨frame, hframe, hp⟩ := mem_toList.mp h
  exact mem_toList.mpr ⟨frame, List.mem_of_mem_tail hframe, hp⟩

theorem mem_toList_of_bind {a : α} (h : p ∈ (s.bind name a).toList) :
    p = (name, a) ∨ p ∈ s.toList := by
  obtain ⟨frame, hframe, hp⟩ := mem_toList.mp h
  obtain ⟨frames⟩ := s
  cases frames with
  | nil => cases hframe
  | cons first frames =>
    rcases List.mem_cons.mp hframe with rfl | hframe
    · rcases List.mem_cons.mp hp with rfl | hp
      · exact .inl rfl
      · exact .inr (mem_toList.mpr ⟨first, List.mem_cons_self, List.mem_of_mem_filter hp⟩)
    · exact .inr (mem_toList.mpr ⟨frame, List.mem_cons_of_mem _ hframe, hp⟩)

end Scopes

/-! ## §2. Names that are not mentioned. -/

namespace Substitution

variable {σ σ' : Substitution} {x : Symbol} {e e' : Expr}

/-- The substitutions that opening scopes, closing them and adding bindings lead to, if each name
that is bound occurs neither in what is stored nor in what is stored for it. -/
inductive Separate : Substitution → Prop
  | empty : Separate .empty
  | push {σ : Substitution} (h : Separate σ) : Separate σ.push
  | pop {σ : Substitution} (h : Separate σ) : Separate σ.pop
  | add {σ σ' : Substitution} {x : Symbol} {e : Expr} (h : Separate σ)
      (hadd : σ.add x e = .ok σ') (hstored : ∀ p ∈ σ.scopes.toList, x ∉ p.2.vars)
      (hclosed : ∀ e', σ.apply e = .ok e' → x ∉ e'.vars) : Separate σ'

/-- Some scope is open, and what is stored, hidden or not, mentions no name that is bound. -/
structure Apart (σ : Substitution) : Prop where
  isOpen : σ.scopes.frames ≠ []
  unbound : ∀ p ∈ σ.scopes.toList, ∀ n ∈ p.2.vars, σ.find? n = none

/-- Nothing but names that are not bound is left by a substitution. -/
theorem Apart.unbound_of_apply (hσ : σ.Apart) (h : σ.apply e = .ok e') :
    ∀ n ∈ e'.vars, σ.find? n = none := by
  have hcovers : σ.Covers (fun _ => True) fun r => ∀ n, r = .var n → σ.find? n = none := by
    refine ⟨fun r hr _ n hn => absurd hn (hr n), ?_, ?_⟩
    · intro n _ hnone m hm
      cases hm
      exact hnone
    · intro n v hv r hr m hm
      exact hσ.unbound _ (Scopes.mem_toList_of_find? hv) m (Expr.mem_vars.mpr (hm ▸ hr))
  intro n hn
  exact hcovers.apply (fun _ _ => trivial) h _ (Expr.mem_vars.mp hn) n rfl

theorem Apart.empty : Substitution.empty.Apart := ⟨empty_open, nofun⟩

theorem Apart.push (hσ : σ.Apart) : σ.push.Apart :=
  ⟨List.cons_ne_nil _ _, fun p hp => hσ.unbound p (Scopes.toList_push ▸ hp)⟩

theorem Apart.pop (hσ : σ.Apart) : σ.pop.Apart := by
  unfold Substitution.pop
  split
  · next hdepth =>
    constructor
    · -- one more scope was open
      intro hnil
      have hlength := congrArg List.length hnil
      rw [Scopes.pop, List.length_tail] at hlength
      rw [Scopes.depth] at hdepth
      simp only [List.length_nil] at hlength
      omega
    · intro p hp n hn
      have hnone := hσ.unbound p (Scopes.mem_toList_of_pop hp) n hn
      exact Scopes.find?_eq_none_iff.mpr fun q hq =>
        Scopes.find?_eq_none_iff.mp hnone q (Scopes.mem_toList_of_pop hq)
  · exact hσ

/-- **A new binding keeps bindings apart** if its name is mentioned nowhere. -/
theorem Apart.add (hσ : σ.Apart) (hadd : σ.add x e = .ok σ')
    (hstored : ∀ p ∈ σ.scopes.toList, x ∉ p.2.vars)
    (hclosed : ∀ e', σ.apply e = .ok e' → x ∉ e'.vars) : σ'.Apart := by
  obtain ⟨e', he, h⟩ := exists_of_bind_eq_ok hadd
  cases h
  refine ⟨bind_open hσ.isOpen x e', fun p hp n hn => ?_⟩
  -- neither the new expression nor those before mention a name that was bound, or the new one
  have hboth : n ≠ x ∧ σ.find? n = none := by
    rcases Scopes.mem_toList_of_bind hp with rfl | hp
    · exact ⟨fun heq => hclosed e' he (heq ▸ hn), hσ.unbound_of_apply he n hn⟩
    · exact ⟨fun heq => hstored p hp (heq ▸ hn), hσ.unbound p hp n hn⟩
  rw [find?_bind hσ.isOpen, if_neg hboth.1, hboth.2]

/-- **No stored expression mentions a bound name**, whatever scopes were opened and closed. -/
theorem Separate.apart (h : σ.Separate) : σ.Apart := by
  induction h with
  | empty => exact .empty
  | push _ ih => exact ih.push
  | pop _ ih => exact ih.pop
  | add _ hadd hstored hclosed ih => exact ih.add hadd hstored hclosed

/-! ## §3. Substituting twice. -/

/-- **Substitution leaves unbound names alone and is idempotent.** An expression none of whose
variables is bound stays as it is, under every substitution; and where each name was mentioned
nowhere when it was bound, substituting a second time succeeds and changes nothing. -/
theorem apply_idempotent :
    (∀ (σ : Substitution) (e : Expr), (∀ n ∈ e.vars, σ.find? n = none) → σ.apply e = .ok e)
      ∧ ∀ σ : Substitution, σ.Separate → ∀ e e' : Expr, σ.apply e = .ok e' →
          σ.apply e' = .ok e' :=
  ⟨fun _ _ h => apply_of_unbound h,
    fun _ hσ _ _ h => apply_of_unbound (hσ.apart.unbound_of_apply h)⟩

/-! ## A name that comes to light again. -/

namespace Example

/-- The value `12{8: first, 9: 3}`. -/
def point (first : Expr) : Expr :=
  .constructed ⟨0, 0⟩ ⟨⟨12⟩, ⟨0, 0⟩⟩
    [⟨⟨⟨8⟩, ⟨0, 0⟩⟩, first⟩, ⟨⟨⟨9⟩, ⟨0, 0⟩⟩, .scalar ⟨0, 0⟩ (.int 3)⟩]

/-- The variable 7 stands for `11.8`, and in an inner scope 13 for `12{8: 11.8, 9: 3}`. -/
def inner : Substitution := ((empty.bind ⟨7⟩ (chain 11 [8])).push).bind ⟨13⟩ (point (chain 11 [8]))

end Example

open Example

/-- A name that is bound after it was mentioned is replaced by the second substitution. -/
example : ((empty.bind ⟨7⟩ (chain 11 [])).bind ⟨11⟩ (chain 13 [])).apply (chain 7 [])
    = .ok (chain 11 [])
    ∧ ((empty.bind ⟨7⟩ (chain 11 [])).bind ⟨11⟩ (chain 13 [])).apply (chain 11 [])
      = .ok (chain 13 []) :=
  ⟨rfl, rfl⟩

/-- The value is given with 7 in it and stored with what 7 stands for. Its field, and the value
with the field in it, are left alone the second time; so is a name that is not bound. -/
theorem apply_inner : inner.Separate
    ∧ inner.apply (chain 13 [8, 10]) = .ok (chain 11 [8, 10])
    ∧ inner.apply (chain 11 [8, 10]) = .ok (chain 11 [8, 10])
    ∧ inner.pop.Separate := by
  have hfirst : empty.add ⟨7⟩ (chain 11 [8]) = .ok (empty.bind ⟨7⟩ (chain 11 [8])) := rfl
  have hpush : (empty.bind ⟨7⟩ (chain 11 [8])).push.Separate := by
    refine .push (.add .empty hfirst (by decide) fun e' he => ?_)
    cases he
    decide
  have hsecond : (empty.bind ⟨7⟩ (chain 11 [8])).push.add ⟨13⟩ (point (chain 7 [])) = .ok inner :=
    rfl
  have hinner : inner.Separate := by
    refine .add hpush hsecond (by decide) fun e' he => ?_
    cases he
    decide
  have happly : inner.apply (chain 13 [8, 10]) = .ok (chain 11 [8, 10]) := rfl
  exact ⟨hinner, happly, apply_idempotent.2 inner hinner _ _ happly, .pop hinner⟩

end Substitution

end DepSchema
