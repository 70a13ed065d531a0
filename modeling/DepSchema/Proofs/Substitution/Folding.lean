/-
DepSchema.Proofs.Substitution.Folding — folding before and after variables are replaced.

A substitution works on variables and folding on operators between literals. Neither undoes what the
other needs: an operator that is folded away had no variables left below it, and what takes the
place of a variable is the same whether or not the expression around it was folded. So an expression
may be folded before variables are replaced; folded afterwards, the results are the same trees, and
failures are the same failures. The results themselves may differ, since what a variable stands for
need not be folded.

Main results: `map_fold_apply` and, for the substitution that replaces nothing, `fold_fold`; both
together in `apply_fold`.
-/
import DepSchema.Proofs.Substitution.Composition

namespace DepSchema

/-! ## §1. One operator. -/

theorem Expr.fold_of_scalar? {e : Expr} {v : Scalar} (h : e.scalar? = some v) : e.fold = e := by
  cases e <;> cases h
  rfl

namespace Substitution

variable (σ : Substitution) (span : Span)

/-- What an operator comes to, replaced and then folded, by what its operands come to. -/
theorem map_fold_binary (op : BinaryOp) (l r : Expr) :
    (σ.apply (.binary span op l r)).map Expr.fold = (do
      let l ← (σ.apply l).map Expr.fold
      let r ← (σ.apply r).map Expr.fold
      pure (Expr.evalBinary span op l r)) := by
  rw [apply]
  cases σ.apply l with
  | error err => rfl
  | ok l' => cases σ.apply r <;> rfl

theorem map_fold_unary (op : UnaryOp) (x : Expr) :
    (σ.apply (.unary span op x)).map Expr.fold
      = ((σ.apply x).map Expr.fold).map (Expr.evalUnary span op) := by
  rw [apply]
  cases σ.apply x <;> rfl

theorem apply_of_scalar? {e : Expr} {v : Scalar} (h : e.scalar? = some v) : σ.apply e = .ok e := by
  cases e <;> cases h
  rfl

/-- An operator that is computed already comes to the same as one that is not. -/
theorem map_fold_evalBinary (op : BinaryOp) (l r : Expr) :
    (σ.apply (Expr.evalBinary span op l r)).map Expr.fold
      = (σ.apply (.binary span op l r)).map Expr.fold := by
  cases hv : (Expr.evalBinary span op l r).scalar? with
  | none => rw [Expr.evalBinary_of_scalar? hv]
  | some v =>
    -- operands and result are literals, which stay as they are on both ways
    have hoperands := hv
    rw [Expr.scalar?_evalBinary] at hoperands
    obtain ⟨a, ha, hoperands⟩ := Option.bind_eq_some_iff.mp hoperands
    obtain ⟨b, hb, -⟩ := Option.bind_eq_some_iff.mp hoperands
    rw [map_fold_binary, apply_of_scalar? σ hv, apply_of_scalar? σ ha, apply_of_scalar? σ hb]
    show Except.ok (Expr.evalBinary span op l r).fold
      = Except.ok (Expr.evalBinary span op l.fold r.fold)
    rw [Expr.fold_of_scalar? hv, Expr.fold_of_scalar? ha, Expr.fold_of_scalar? hb]

theorem map_fold_evalUnary (op : UnaryOp) (x : Expr) :
    (σ.apply (Expr.evalUnary span op x)).map Expr.fold
      = (σ.apply (.unary span op x)).map Expr.fold := by
  cases hv : (Expr.evalUnary span op x).scalar? with
  | none => rw [Expr.evalUnary_of_scalar? hv]
  | some v =>
    have hoperand := hv
    rw [Expr.scalar?_evalUnary] at hoperand
    obtain ⟨a, ha, -⟩ := Option.bind_eq_some_iff.mp hoperand
    rw [map_fold_unary, apply_of_scalar? σ hv, apply_of_scalar? σ ha]
    show Except.ok (Expr.evalUnary span op x).fold = Except.ok (Expr.evalUnary span op x.fold)
    rw [Expr.fold_of_scalar? hv, Expr.fold_of_scalar? ha]

/-! ## §2. Several expressions. -/

theorem map_foldAll_cons (e : Expr) (es : List Expr) :
    (σ.applyAll (e :: es)).map Expr.foldAll = (do
      let e ← (σ.apply e).map Expr.fold
      let es ← (σ.applyAll es).map Expr.foldAll
      pure (e :: es)) := by
  rw [applyAll]
  cases σ.apply e with
  | error err => rfl
  | ok e' => cases σ.applyAll es <;> rfl

theorem map_foldFields_cons (f : Named Expr) (fs : List (Named Expr)) :
    (σ.applyFields (f :: fs)).map Expr.foldFields = (do
      let value ← (σ.apply f.val).map Expr.fold
      let fs ← (σ.applyFields fs).map Expr.foldFields
      pure (⟨f.name, value⟩ :: fs)) := by
  rw [applyFields]
  cases σ.apply f.val with
  | error err => rfl
  | ok value => cases σ.applyFields fs <;> rfl

/-- Types, collections and calls are replaced and folded in each of their expressions. -/
theorem map_fold_parts (build : List Expr → Expr)
    (happly : ∀ es, σ.apply (build es) = (σ.applyAll es).map build)
    (hfold : ∀ es, (build es).fold = build (Expr.foldAll es)) {es : List Expr}
    (h : (σ.applyAll (Expr.foldAll es)).map Expr.foldAll = (σ.applyAll es).map Expr.foldAll) :
    (σ.apply (build es).fold).map Expr.fold = (σ.apply (build es)).map Expr.fold := by
  have hparts : ∀ l, (σ.apply (build l)).map Expr.fold
      = ((σ.applyAll l).map Expr.foldAll).map build := by
    intro l
    rw [happly]
    cases σ.applyAll l with
    | error err => rfl
    | ok l' => exact congrArg Except.ok (hfold l')
  rw [hfold, hparts, hparts, h]

/-! ## §3. Whole expressions. -/

mutual

/-- **Folding before variables are replaced shows in nothing once the results are folded**, and
where replacing variables fails it fails in the same way. -/
theorem map_fold_apply :
    ∀ e : Expr, (σ.apply e.fold).map Expr.fold = (σ.apply e).map Expr.fold
  | .scalar _ _ => rfl
  | .access _ => rfl
  | .binary span op l r => by
    calc (σ.apply (Expr.evalBinary span op l.fold r.fold)).map Expr.fold
      _ = (σ.apply (.binary span op l.fold r.fold)).map Expr.fold :=
        map_fold_evalBinary σ span op l.fold r.fold
      _ = (σ.apply (.binary span op l r)).map Expr.fold := by
        rw [map_fold_binary, map_fold_binary, map_fold_apply l, map_fold_apply r]
  | .unary span op x => by
    calc (σ.apply (Expr.evalUnary span op x.fold)).map Expr.fold
      _ = (σ.apply (.unary span op x.fold)).map Expr.fold := map_fold_evalUnary σ span op x.fold
      _ = (σ.apply (.unary span op x)).map Expr.fold := by
        rw [map_fold_unary, map_fold_unary, map_fold_apply x]
  | .type span i ps =>
    map_fold_parts σ (.type span i) (fun _ => rfl) (fun _ => rfl) (map_foldAll_applyAll ps)
  | .constructed span c fs => by
    have hparts : ∀ l, (σ.apply (.constructed span c l)).map Expr.fold
        = ((σ.applyFields l).map Expr.foldFields).map (.constructed span c) := by
      intro l
      rw [apply]
      cases σ.applyFields l <;> rfl
    rw [Expr.fold, hparts, hparts, map_foldFields_applyFields fs]
  | .collection span es =>
    map_fold_parts σ (.collection span) (fun _ => rfl) (fun _ => rfl)
      (map_foldAll_applyAll es)
  | .call span f as =>
    map_fold_parts σ (.call span f) (fun _ => rfl) (fun _ => rfl) (map_foldAll_applyAll as)

theorem map_foldAll_applyAll : ∀ es : List Expr,
    (σ.applyAll (Expr.foldAll es)).map Expr.foldAll = (σ.applyAll es).map Expr.foldAll
  | [] => rfl
  | e :: es => by
    rw [Expr.foldAll, map_foldAll_cons, map_foldAll_cons, map_fold_apply e,
      map_foldAll_applyAll es]

theorem map_foldFields_applyFields : ∀ fs : List (Named Expr),
    (σ.applyFields (Expr.foldFields fs)).map Expr.foldFields
      = (σ.applyFields fs).map Expr.foldFields
  | [] => rfl
  | f :: fs => by
    rw [Expr.foldFields, map_foldFields_cons, map_foldFields_cons, map_fold_apply f.val,
      map_foldFields_applyFields fs]

end

end Substitution

/-! ## §4. Nothing replaced. -/

theorem Substitution.apply_empty (e : Expr) : empty.apply e = .ok e :=
  apply_of_unbound fun n _ => find?_empty n

/-- What is folded stays as it is when it is folded again. -/
theorem Expr.fold_fold (e : Expr) : e.fold.fold = e.fold := by
  have h := Substitution.empty.map_fold_apply e
  rw [Substitution.apply_empty, Substitution.apply_empty] at h
  exact Except.ok.inj h

/-- **Folding commutes with substitution.** Variables can be replaced in an expression exactly when
they can be in the folded expression, and then the folded results are the same tree; in particular
folding twice is folding once. -/
theorem Substitution.apply_fold (σ : Substitution) (e : Expr) :
    ((∃ u, σ.apply e = .ok u) ↔ ∃ v, σ.apply e.fold = .ok v)
      ∧ (∀ u v, σ.apply e = .ok u → σ.apply e.fold = .ok v → u.fold = v.fold)
      ∧ e.fold.fold = e.fold := by
  have h := σ.map_fold_apply e
  refine ⟨?_, fun u v hu hv => ?_, e.fold_fold⟩
  · cases hu : σ.apply e with
    | ok u =>
      cases hv : σ.apply e.fold with
      | ok v => simp
      | error err =>
        rw [hu, hv] at h
        cases h
    | error err =>
      cases hv : σ.apply e.fold with
      | ok v =>
        rw [hu, hv] at h
        cases h
      | error err' => simp
  · rw [hu, hv] at h
    exact (Except.ok.inj h).symm

/-! ## A sum that is computed in part. -/

namespace Substitution

namespace Example

/-- An unsigned literal. -/
def unsigned (n : UInt64) : Expr := .scalar ⟨0, 0⟩ (.unsigned n)

/-- A sum. -/
def sum (l r : Expr) : Expr := .binary ⟨0, 0⟩ .add l r

/-- The variable 7 plus `3 + 4`. -/
def partly : Expr := sum (.ofVar ⟨⟨7⟩, ⟨0, 0⟩⟩) (sum (unsigned 3) (unsigned 4))

/-- The variable 7 stands for `1 + 2`. -/
def unfolded : Substitution := empty.bind ⟨7⟩ (sum (unsigned 1) (unsigned 2))

end Example

open Example

/-- The results `(1 + 2) + (3 + 4)` and `(1 + 2) + 7` differ until they are folded. -/
theorem apply_fold_partly : ∃ u v, unfolded.apply partly = .ok u
    ∧ unfolded.apply partly.fold = .ok v ∧ u ≠ v ∧ u.fold = v.fold := by
  have hpartly : partly.fold = sum (.ofVar ⟨⟨7⟩, ⟨0, 0⟩⟩) (unsigned 7) := by cbv
  have hfirst : unfolded.apply partly = .ok
      (sum (sum (unsigned 1) (unsigned 2)) (sum (unsigned 3) (unsigned 4))) := rfl
  have hthen : unfolded.apply partly.fold = .ok
      (sum (sum (unsigned 1) (unsigned 2)) (unsigned 7)) := by
    rw [hpartly]
    rfl
  have hdiffer : sum (sum (unsigned 1) (unsigned 2)) (sum (unsigned 3) (unsigned 4))
      ≠ sum (sum (unsigned 1) (unsigned 2)) (unsigned 7) := by
    intro h
    cases h
  exact ⟨_, _, hfirst, hthen, hdiffer, (apply_fold unfolded partly).2.1 _ _ hfirst hthen⟩

end Substitution

end DepSchema
