/-
DepSchema.Proofs.Dispatch.Instances — comparing an expression with an instance of another.

A substitution takes an expression to an *instance* of it. Folding an instance may compute more than
folding the expression does. But an expression none of whose variables is replaced, and which is the
same as the folded expression, has the shape of that at every place, so that there is nothing more
to compute there: it is the same as every folded instance.

Main result: `kept_fold`.
-/
import DepSchema.Oracle.Structural
import DepSchema.Proofs.Vocabulary.Substitution

namespace DepSchema

/-! ## §1. Lists of named things. -/

namespace Named

variable {α β : Type}

/-- The same name, and values that are related. -/
def Rel (R : α → β → Prop) (item : Named α) (item' : Named β) : Prop :=
  item'.name = item.name ∧ R item.val item'.val

theorem names_of_rel {R : α → β → Prop} {items : List (Named α)} {items' : List (Named β)}
    (h : List.Forall₂ (Rel R) items items') :
    (items'.map fun f => f.name.name) = items.map fun f => f.name.name := by
  induction h with
  | nil => rfl
  | cons hitem _ ih => rw [List.map_cons, List.map_cons, hitem.1, ih]

/-- In related lists a name leads to related values or to none. -/
theorem find?_rel {R : α → β → Prop} {items : List (Named α)} {items' : List (Named β)}
    (h : List.Forall₂ (Rel R) items items') (name : Symbol) :
    Option.Rel R (find? items name) (find? items' name) := by
  induction h with
  | nil => exact .none
  | cons hitem _ ih =>
    rw [find?_cons, find?_cons, hitem.1]
    split
    · exact .some hitem.2
    · exact ih

end Named

namespace Substitution

variable {τ : Substitution}

/-- An expression and its instance. -/
def Takes (τ : Substitution) (e e' : Expr) : Prop := τ.apply e = .ok e'

theorem forall₂_of_applyAll {es : List Expr} : ∀ {es' : List Expr}, τ.applyAll es = .ok es' →
    List.Forall₂ τ.Takes es es' := by
  induction es with
  | nil =>
    intro es' h
    cases h
    exact .nil
  | cons e es ih =>
    intro es' h
    obtain ⟨e', es', he, hes, rfl⟩ := of_applyAll_cons h
    exact .cons he (ih hes)

theorem forall₂_of_applyFields : ∀ {fs fs' : List (Named Expr)}, τ.applyFields fs = .ok fs' →
    List.Forall₂ (Named.Rel τ.Takes) fs fs'
  | [], _, h => by
    cases h
    exact .nil
  | f :: fs, _, h => by
    obtain ⟨v, hv, h⟩ := exists_of_bind_eq_ok h
    obtain ⟨fs', hfs, h⟩ := exists_of_bind_eq_ok h
    cases h
    exact .cons ⟨rfl, hv⟩ (forall₂_of_applyFields hfs)

end Substitution

/-! ## §2. Comparing with an instance. -/

namespace Expr

variable {τ : Substitution} {e e' l l' r r' x x' : Expr}

theorem vars_evalBinary {span : Span} {op : BinaryOp} {l r : Expr} :
    (evalBinary span op l r).vars = l.vars ++ r.vars := by
  unfold evalBinary
  split
  · next a b ha hb =>
    -- literals have no variables
    have hl : l.vars = [] := by cases l <;> cases ha; rfl
    have hr : r.vars = [] := by cases r <;> cases hb; rfl
    split
    · rw [hl, hr]
      rfl
    · rfl
  · rfl

theorem vars_evalUnary {span : Span} {op : UnaryOp} {x : Expr} :
    (evalUnary span op x).vars = x.vars := by
  unfold evalUnary
  split
  · next v hv =>
    obtain ⟨a, ha, -⟩ := Option.bind_eq_some_iff.mp hv
    cases x <;> cases ha
    rfl
  · rfl

mutual

/-- Folding keeps all variables. -/
theorem vars_fold : ∀ e : Expr, e.fold.vars = e.vars
  | .binary _ _ l r => by rw [fold, vars_evalBinary, vars_fold l, vars_fold r, vars]
  | .unary _ _ x => by rw [fold, vars_evalUnary, vars_fold x, vars]
  | .type _ _ ps => varsAll_foldAll ps
  | .access _ => rfl
  | .scalar _ _ => rfl
  | .constructed _ _ fs => varsFields_foldFields fs
  | .collection _ es => varsAll_foldAll es
  | .call _ _ as => varsAll_foldAll as

theorem varsAll_foldAll : ∀ es : List Expr, varsAll (foldAll es) = varsAll es
  | [] => rfl
  | e :: es => by rw [foldAll, varsAll, vars_fold e, varsAll_foldAll es, varsAll]

theorem varsFields_foldFields : ∀ fs : List (Named Expr), varsFields (foldFields fs) = varsFields fs
  | [] => rfl
  | f :: fs => by rw [foldFields, varsFields, vars_fold f.val, varsFields_foldFields fs, varsFields]

end

/-- If `e` is a literal then `e'` is that literal, and an expression without variables that are
replaced is the same as `e'` whenever it is the same as `e`. -/
structure Kept (τ : Substitution) (e e' : Expr) : Prop where
  literal : ∀ v, e.scalar? = some v → e'.scalar? = some v
  same : ∀ p : Expr, (∀ n ∈ p.vars, τ.find? n = none) → p.sameAs e = true → p.sameAs e' = true

theorem Kept.refl (τ : Substitution) (e : Expr) : Kept τ e e := ⟨fun _ h => h, fun _ _ h => h⟩

theorem Kept.of_same (hnone : e.scalar? = none)
    (hsame : ∀ p : Expr, (∀ n ∈ p.vars, τ.find? n = none) → p.sameAs e = true →
      p.sameAs e' = true) : Kept τ e e' := by
  refine ⟨fun v hv => ?_, hsame⟩
  rw [hnone] at hv
  cases hv

theorem scalar?_of_sameAs {p : Expr} (h : p.sameAs e = true) :
    p.scalar?.isSome = e.scalar?.isSome := by
  cases p <;> cases e <;> first | rfl | cases h

theorem sameAs_of_scalar? {p : Expr} {v : Scalar} (h : p.sameAs e = true)
    (he : e.scalar? = some v) (he' : e'.scalar? = some v) : p.sameAs e' = true := by
  cases e <;> cases he
  cases e' <;> cases he'
  cases p <;> exact h

/-- Where some such expression is the same as `e`, both are literals or neither is. -/
theorem Kept.scalar?_eq (h : Kept τ e e') {p : Expr} (hp : ∀ n ∈ p.vars, τ.find? n = none)
    (hsame : p.sameAs e = true) : e'.scalar? = e.scalar? := by
  cases hv : e.scalar? with
  | some v => exact h.literal v hv
  | none =>
    have hsome := (scalar?_of_sameAs (h.same p hp hsame)).symm.trans (scalar?_of_sameAs hsame)
    rw [hv] at hsome
    exact Option.isNone_iff_eq_none.mp (Option.isSome_eq_false_iff.mp hsome)

theorem scalar?_evalBinary (span : Span) (op : BinaryOp) (l r : Expr) :
    (evalBinary span op l r).scalar?
      = l.scalar?.bind fun a => r.scalar?.bind fun b => op.eval? a b := by
  unfold evalBinary
  cases hl : l.scalar? with
  | none => rfl
  | some a =>
    cases hr : r.scalar? with
    | none => rfl
    | some b => cases hv : op.eval? a b <;> simp [hv, scalar?]

theorem evalBinary_of_scalar? {span : Span} {op : BinaryOp}
    (h : (evalBinary span op l r).scalar? = none) :
    evalBinary span op l r = .binary span op l r := by
  unfold evalBinary at h ⊢
  split
  · split
    · simp_all [scalar?]
    · rfl
  · rfl

theorem scalar?_evalUnary (span : Span) (op : UnaryOp) (x : Expr) :
    (evalUnary span op x).scalar? = x.scalar?.bind op.eval? := by
  unfold evalUnary
  cases x.scalar?.bind op.eval? <;> rfl

theorem evalUnary_of_scalar? {span : Span} {op : UnaryOp}
    (h : (evalUnary span op x).scalar? = none) : evalUnary span op x = .unary span op x := by
  unfold evalUnary at h ⊢
  split
  · simp_all [scalar?]
  · rfl

theorem Kept.evalBinary (hl : Kept τ l l') (hr : Kept τ r r') (span : Span) (op : BinaryOp) :
    Kept τ (evalBinary span op l r) (evalBinary span op l' r') := by
  have hliteral : ∀ v, (Expr.evalBinary span op l r).scalar? = some v →
      (Expr.evalBinary span op l' r').scalar? = some v := by
    intro v hv
    rw [scalar?_evalBinary] at hv ⊢
    obtain ⟨a, ha, hv⟩ := Option.bind_eq_some_iff.mp hv
    obtain ⟨b, hb, hv⟩ := Option.bind_eq_some_iff.mp hv
    rw [hl.literal a ha, hr.literal b hb]
    exact hv
  refine ⟨hliteral, fun p hp h => ?_⟩
  cases hv : (Expr.evalBinary span op l r).scalar? with
  | some v => exact sameAs_of_scalar? h hv (hliteral v hv)
  | none =>
    rw [evalBinary_of_scalar? hv] at h
    cases p with
    | binary _ op' lp rp =>
      simp only [sameAs, Bool.and_eq_true] at h
      simp only [vars, List.forall_mem_append] at hp
      -- the operands of the instance are literals only where they were before
      rw [scalar?_evalBinary, ← hl.scalar?_eq hp.1 h.1.2, ← hr.scalar?_eq hp.2 h.2,
        ← scalar?_evalBinary span] at hv
      rw [evalBinary_of_scalar? hv]
      simp only [sameAs, Bool.and_eq_true]
      exact ⟨⟨h.1.1, hl.same lp hp.1 h.1.2⟩, hr.same rp hp.2 h.2⟩
    | _ => cases h

theorem Kept.evalUnary (hx : Kept τ x x') (span : Span) (op : UnaryOp) :
    Kept τ (evalUnary span op x) (evalUnary span op x') := by
  have hliteral : ∀ v, (Expr.evalUnary span op x).scalar? = some v →
      (Expr.evalUnary span op x').scalar? = some v := by
    intro v hv
    rw [scalar?_evalUnary] at hv ⊢
    obtain ⟨a, ha, hv⟩ := Option.bind_eq_some_iff.mp hv
    rw [hx.literal a ha]
    exact hv
  refine ⟨hliteral, fun p hp h => ?_⟩
  cases hv : (Expr.evalUnary span op x).scalar? with
  | some v => exact sameAs_of_scalar? h hv (hliteral v hv)
  | none =>
    rw [evalUnary_of_scalar? hv] at h
    cases p with
    | unary _ op' y =>
      simp only [sameAs, Bool.and_eq_true] at h
      have hy : ∀ n ∈ y.vars, τ.find? n = none := hp
      rw [scalar?_evalUnary, ← hx.scalar?_eq hy h.2, ← scalar?_evalUnary span] at hv
      rw [evalUnary_of_scalar? hv]
      simp only [sameAs, Bool.and_eq_true]
      exact ⟨h.1, hx.same y hy h.2⟩
    | _ => cases h

theorem allSameAs_of_kept {es es' : List Expr} (h : List.Forall₂ (Kept τ) es es') :
    ∀ {ps : List Expr}, (∀ n ∈ varsAll ps, τ.find? n = none) → allSameAs ps es = true →
      allSameAs ps es' = true := by
  induction h with
  | nil => exact fun _ hsame => hsame
  | cons he _ ih =>
    intro ps hps hsame
    cases ps with
    | nil => cases hsame
    | cons p ps =>
      unfold varsAll at hps
      rw [List.forall_mem_append] at hps
      simp only [allSameAs, Bool.and_eq_true] at hsame ⊢
      exact ⟨he.same p hps.1 hsame.1, ih hps.2 hsame.2⟩

theorem fieldsSameAs_of_kept {fs fs' : List (Named Expr)}
    (h : List.Forall₂ (Named.Rel (Kept τ)) fs fs') :
    ∀ {ps : List (Named Expr)}, (∀ n ∈ varsFields ps, τ.find? n = none) →
      fieldsSameAs ps fs = true → fieldsSameAs ps fs' = true := by
  intro ps
  induction ps with
  | nil => exact fun _ _ => rfl
  | cons p ps ih =>
    intro hps hsame
    unfold varsFields at hps
    rw [List.forall_mem_append] at hps
    unfold fieldsSameAs at hsame ⊢
    rw [Bool.and_eq_true] at hsame ⊢
    refine ⟨?_, ih hps.2 hsame.2⟩
    have hfirst := hsame.1
    have hrel := Named.find?_rel h p.name.name
    generalize Named.find? fs p.name.name = found at hfirst hrel
    generalize Named.find? fs' p.name.name = found' at hrel ⊢
    cases hrel with
    | none => exact hfirst
    | some hvalue => exact hvalue.same p.val hps.1 hfirst

mutual

/-- **An expression that is the same as a folded expression is the same as its folded instances**,
as long as none of its own variables is replaced. -/
theorem kept_fold : ∀ {e e' : Expr}, τ.Takes e e' → Kept τ e.fold e'.fold
  | .scalar _ _, _, h => by
    cases h
    exact .refl τ _
  | .access a, e', h => by
    refine .of_same rfl fun p hp hsame => ?_
    cases p with
    | access b =>
      have hname : b.var.name = a.var.name := by
        simp only [fold, sameAs, Access.sameAs, Bool.and_eq_true, beq_iff_eq] at hsame
        exact hsame.1
      have hnone : τ.find? a.var.name = none := hp _ (by simp [vars, hname])
      unfold Substitution.Takes Substitution.apply at h
      rw [hnone] at h
      cases h
      exact hsame
    | _ => cases hsame
  | .binary span op _ _, _, h => by
    obtain ⟨l', hl, h⟩ := exists_of_bind_eq_ok h
    obtain ⟨r', hr, h⟩ := exists_of_bind_eq_ok h
    cases h
    exact (kept_fold hl).evalBinary (kept_fold hr) span op
  | .unary span op _, _, h => by
    obtain ⟨x', hx, h⟩ := exists_of_bind_eq_ok h
    cases h
    exact (kept_fold hx).evalUnary span op
  | .type _ i _, _, h => by
    obtain ⟨ps', hps, h⟩ := exists_of_bind_eq_ok h
    cases h
    refine .of_same rfl fun p hp hsame => ?_
    cases p with
    | type _ j qs =>
      simp only [fold, sameAs, Bool.and_eq_true] at hsame ⊢
      exact ⟨hsame.1, allSameAs_of_kept (kept_foldAll hps) hp hsame.2⟩
    | _ => cases hsame
  | .constructed _ _ fs, _, h => by
    obtain ⟨fs', hfs, h⟩ := exists_of_bind_eq_ok h
    cases h
    have hkept := kept_foldFields hfs
    refine .of_same rfl fun p hp hsame => ?_
    cases p with
    | constructed _ c gs =>
      simp only [fold, sameAs, Bool.and_eq_true] at hsame ⊢
      rw [← hkept.length_eq]
      exact ⟨hsame.1, fieldsSameAs_of_kept hkept hp hsame.2⟩
    | _ => cases hsame
  | .collection _ es, _, h => by
    obtain ⟨es', hes, h⟩ := exists_of_bind_eq_ok h
    cases h
    refine .of_same rfl fun p hp hsame => ?_
    cases p with
    | collection _ qs =>
      simp only [fold, sameAs] at hsame ⊢
      exact allSameAs_of_kept (kept_foldAll hes) hp hsame
    | _ => cases hsame
  | .call _ _ as, _, h => by
    obtain ⟨as', has, h⟩ := exists_of_bind_eq_ok h
    cases h
    refine .of_same rfl fun p hp hsame => ?_
    cases p with
    | call _ f qs =>
      simp only [fold, sameAs, Bool.and_eq_true] at hsame ⊢
      exact ⟨hsame.1, allSameAs_of_kept (kept_foldAll has) hp hsame.2⟩
    | _ => cases hsame

theorem kept_foldAll : ∀ {es es' : List Expr}, τ.applyAll es = .ok es' →
    List.Forall₂ (Kept τ) (foldAll es) (foldAll es')
  | [], _, h => by
    cases h
    exact .nil
  | e :: es, _, h => by
    obtain ⟨e', he, h⟩ := exists_of_bind_eq_ok h
    obtain ⟨es', hes, h⟩ := exists_of_bind_eq_ok h
    cases h
    exact .cons (kept_fold he) (kept_foldAll hes)

theorem kept_foldFields : ∀ {fs fs' : List (Named Expr)}, τ.applyFields fs = .ok fs' →
    List.Forall₂ (Named.Rel (Kept τ)) (foldFields fs) (foldFields fs')
  | [], _, h => by
    cases h
    exact .nil
  | f :: fs, _, h => by
    obtain ⟨v, hv, h⟩ := exists_of_bind_eq_ok h
    obtain ⟨fs', hfs, h⟩ := exists_of_bind_eq_ok h
    cases h
    exact .cons ⟨rfl, kept_fold hv⟩ (kept_foldFields hfs)

end

end Expr

end DepSchema
