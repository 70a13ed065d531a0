/-
DepSchema.Proofs.Substitution.Results — what the result of a substitution is made of.

A substitution keeps the outermost part of every expression but a variable and works on what is
below it. If it gives a result, then it gave one for each part, and the result is put together from
those. If it fails, then it does so at one of the variables, whose fields cannot be followed into
what the variable stands for.

Main results: `of_apply_access` for variables, `of_apply_constructed` and its siblings for the rest,
`failsAt_of_apply` for failures, `exists_apply_iff` for the two together.
-/
import DepSchema.Substitution

namespace DepSchema

/-! ## §1. Results. -/

/-- A computation of two steps that gives a result took both. -/
theorem exists_of_bind_eq_ok {ε α β : Type} {x : Except ε α} {f : α → Except ε β} {b : β}
    (h : (x >>= f) = .ok b) : ∃ a, x = .ok a ∧ f a = .ok b := by
  cases x with
  | error e => cases h
  | ok a => exact ⟨a, rfl, h⟩

namespace Substitution

variable {σ : Substitution} {span : Span} {e : Expr}

/-- A variable that is not bound stays; the fields of one that is are followed. -/
theorem of_apply_access {a : Access} (h : σ.apply (.access a) = .ok e) :
    σ.find? a.var.name = none ∧ e = .access a
      ∨ ∃ bound, σ.find? a.var.name = some bound ∧ bound.follow a.fields = .ok e := by
  unfold apply at h
  cases hfind : σ.find? a.var.name with
  | none =>
    rw [hfind] at h
    cases h
    exact .inl ⟨rfl, rfl⟩
  | some bound =>
    rw [hfind] at h
    exact .inr ⟨bound, rfl, h⟩

theorem of_apply_binary {op : BinaryOp} {l r : Expr}
    (h : σ.apply (.binary span op l r) = .ok e) :
    ∃ l' r', σ.apply l = .ok l' ∧ σ.apply r = .ok r' ∧ e = .binary span op l' r' := by
  unfold apply at h
  obtain ⟨l', hl, h⟩ := exists_of_bind_eq_ok h
  obtain ⟨r', hr, h⟩ := exists_of_bind_eq_ok h
  cases h
  exact ⟨l', r', hl, hr, rfl⟩

theorem of_apply_unary {op : UnaryOp} {x : Expr} (h : σ.apply (.unary span op x) = .ok e) :
    ∃ x', σ.apply x = .ok x' ∧ e = .unary span op x' := by
  unfold apply at h
  obtain ⟨x', hx, h⟩ := exists_of_bind_eq_ok h
  cases h
  exact ⟨x', hx, rfl⟩

theorem of_apply_type {i : Ident} {ps : List Expr} (h : σ.apply (.type span i ps) = .ok e) :
    ∃ ps', σ.applyAll ps = .ok ps' ∧ e = .type span i ps' := by
  unfold apply at h
  obtain ⟨ps', hps, h⟩ := exists_of_bind_eq_ok h
  cases h
  exact ⟨ps', hps, rfl⟩

theorem of_apply_constructed {c : Ident} {fs : List (Named Expr)}
    (h : σ.apply (.constructed span c fs) = .ok e) :
    ∃ fs', σ.applyFields fs = .ok fs' ∧ e = .constructed span c fs' := by
  unfold apply at h
  obtain ⟨fs', hfs, h⟩ := exists_of_bind_eq_ok h
  cases h
  exact ⟨fs', hfs, rfl⟩

theorem of_apply_collection {es : List Expr} (h : σ.apply (.collection span es) = .ok e) :
    ∃ es', σ.applyAll es = .ok es' ∧ e = .collection span es' := by
  unfold apply at h
  obtain ⟨es', hes, h⟩ := exists_of_bind_eq_ok h
  cases h
  exact ⟨es', hes, rfl⟩

theorem of_apply_call {f : Ident} {as : List Expr} (h : σ.apply (.call span f as) = .ok e) :
    ∃ as', σ.applyAll as = .ok as' ∧ e = .call span f as' := by
  unfold apply at h
  obtain ⟨as', has, h⟩ := exists_of_bind_eq_ok h
  cases h
  exact ⟨as', has, rfl⟩

theorem of_applyAll_cons {es l : List Expr} (h : σ.applyAll (e :: es) = .ok l) :
    ∃ e' es', σ.apply e = .ok e' ∧ σ.applyAll es = .ok es' ∧ l = e' :: es' := by
  unfold applyAll at h
  obtain ⟨e', he, h⟩ := exists_of_bind_eq_ok h
  obtain ⟨es', hes, h⟩ := exists_of_bind_eq_ok h
  cases h
  exact ⟨e', es', he, hes, rfl⟩

theorem of_applyFields_cons {f : Named Expr} {fs l : List (Named Expr)}
    (h : σ.applyFields (f :: fs) = .ok l) :
    ∃ value fs', σ.apply f.val = .ok value ∧ σ.applyFields fs = .ok fs'
      ∧ l = ⟨f.name, value⟩ :: fs' := by
  unfold applyFields at h
  obtain ⟨value, hvalue, h⟩ := exists_of_bind_eq_ok h
  obtain ⟨fs', hfs, h⟩ := exists_of_bind_eq_ok h
  cases h
  exact ⟨value, fs', hvalue, hfs, rfl⟩

theorem of_applyType {t t' : TypeExpr} (h : σ.applyType t = .ok t') :
    ∃ ps', σ.applyAll t.params = .ok ps' ∧ t' = ⟨t.span, t.ident, ps'⟩ := by
  obtain ⟨ps', hps, h⟩ := exists_of_bind_eq_ok h
  cases h
  exact ⟨ps', hps, rfl⟩

end Substitution

/-! ## §2. Failures. -/

namespace Expr

mutual

/-- The variables of an expression with their fields, from left to right. -/
def accesses : Expr → List Access
  | binary _ _ l r => accesses l ++ accesses r
  | unary _ _ x => accesses x
  | type _ _ ps => accessesAll ps
  | access a => [a]
  | scalar _ _ => []
  | constructed _ _ fs => accessesFields fs
  | collection _ es => accessesAll es
  | call _ _ as => accessesAll as
termination_by structural e => e

/-- The variables of several expressions. -/
def accessesAll : List Expr → List Access
  | [] => []
  | e :: es => accesses e ++ accessesAll es
termination_by structural es => es

/-- The variables of the values of several fields. -/
def accessesFields : List (Named Expr) → List Access
  | [] => []
  | f :: fs => accesses f.val ++ accessesFields fs
termination_by structural fs => fs

end

end Expr

/-- A computation of two steps that fails does so in one of them. -/
theorem exists_of_bind_eq_error {ε α β : Type} {x : Except ε α} {f : α → Except ε β} {e : ε}
    (h : (x >>= f) = .error e) : x = .error e ∨ ∃ a, x = .ok a ∧ f a = .error e := by
  cases x with
  | error e' =>
    cases h
    exact .inl rfl
  | ok a => exact .inr ⟨a, rfl, h⟩

namespace Substitution

variable {σ : Substitution} {err : AccessError}

/-- The fields of one of the variables cannot be followed into what the variable stands for. -/
def FailsAt (σ : Substitution) (accesses : List Access) (err : AccessError) : Prop :=
  ∃ a ∈ accesses, ∃ bound, σ.find? a.var.name = some bound ∧ bound.follow a.fields = .error err

theorem FailsAt.mono {as bs : List Access} (h : σ.FailsAt as err) (hsub : as ⊆ bs) :
    σ.FailsAt bs err := by
  obtain ⟨a, ha, hfail⟩ := h
  exact ⟨a, hsub ha, hfail⟩

mutual

/-- **A substitution fails at a variable.** -/
theorem failsAt_of_apply : ∀ {e : Expr}, σ.apply e = .error err → σ.FailsAt e.accesses err
  | .scalar _ _, h => by cases h
  | .access a, h => by
    unfold apply at h
    cases hfind : σ.find? a.var.name with
    | none =>
      rw [hfind] at h
      cases h
    | some bound =>
      rw [hfind] at h
      exact ⟨a, List.mem_singleton_self a, bound, hfind, h⟩
  | .binary _ _ l r, h => by
    -- only the parts of an expression can fail, putting it together again does not
    unfold apply at h
    rcases exists_of_bind_eq_error h with hl | ⟨_, -, h⟩
    · exact (failsAt_of_apply hl).mono (List.subset_append_left _ _)
    rcases exists_of_bind_eq_error h with hr | ⟨_, -, h⟩
    · exact (failsAt_of_apply hr).mono (List.subset_append_right _ _)
    · cases h
  | .unary _ _ x, h => by
    unfold apply at h
    rcases exists_of_bind_eq_error h with hx | ⟨_, -, h⟩
    · show σ.FailsAt x.accesses err
      exact failsAt_of_apply hx
    · cases h
  | .type _ _ ps, h => by
    unfold apply at h
    rcases exists_of_bind_eq_error h with hps | ⟨_, -, h⟩
    · exact failsAt_of_applyAll hps
    · cases h
  | .constructed _ _ fs, h => by
    unfold apply at h
    rcases exists_of_bind_eq_error h with hfs | ⟨_, -, h⟩
    · exact failsAt_of_applyFields hfs
    · cases h
  | .collection _ es, h => by
    unfold apply at h
    rcases exists_of_bind_eq_error h with hes | ⟨_, -, h⟩
    · exact failsAt_of_applyAll hes
    · cases h
  | .call _ _ as, h => by
    unfold apply at h
    rcases exists_of_bind_eq_error h with has | ⟨_, -, h⟩
    · exact failsAt_of_applyAll has
    · cases h

theorem failsAt_of_applyAll : ∀ {es : List Expr}, σ.applyAll es = .error err →
    σ.FailsAt (Expr.accessesAll es) err
  | [], h => by cases h
  | e :: es, h => by
    unfold applyAll at h
    rcases exists_of_bind_eq_error h with he | ⟨_, -, h⟩
    · exact (failsAt_of_apply he).mono (List.subset_append_left _ _)
    rcases exists_of_bind_eq_error h with hes | ⟨_, -, h⟩
    · exact (failsAt_of_applyAll hes).mono (List.subset_append_right _ _)
    · cases h

theorem failsAt_of_applyFields : ∀ {fs : List (Named Expr)}, σ.applyFields fs = .error err →
    σ.FailsAt (Expr.accessesFields fs) err
  | [], h => by cases h
  | f :: fs, h => by
    unfold applyFields at h
    rcases exists_of_bind_eq_error h with hf | ⟨_, -, h⟩
    · exact (failsAt_of_apply hf).mono (List.subset_append_left _ _)
    rcases exists_of_bind_eq_error h with hfs | ⟨_, -, h⟩
    · exact (failsAt_of_applyFields hfs).mono (List.subset_append_right _ _)
    · cases h

end

theorem failsAt_of_applyType {t : TypeExpr} (h : σ.applyType t = .error err) :
    σ.FailsAt t.toExpr.accesses err := by
  rcases exists_of_bind_eq_error h with hps | ⟨_, -, h⟩
  · exact failsAt_of_applyAll hps
  · cases h

/-- The substitution succeeds at each of the variables. -/
def SucceedsAt (σ : Substitution) (accesses : List Access) : Prop :=
  ∀ a ∈ accesses, ∃ e, σ.apply (.access a) = .ok e

theorem succeedsAt_append {as bs : List Access} (has : σ.SucceedsAt as) (hbs : σ.SucceedsAt bs) :
    σ.SucceedsAt (as ++ bs) := by
  intro a ha
  rcases List.mem_append.mp ha with ha | ha
  · exact has a ha
  · exact hbs a ha

theorem FailsAt.not_succeedsAt {as : List Access} (h : σ.FailsAt as err) : ¬σ.SucceedsAt as := by
  intro hall
  obtain ⟨a, ha, bound, hfind, hfail⟩ := h
  obtain ⟨e, he⟩ := hall a ha
  unfold apply at he
  rw [hfind] at he
  cases hfail.symm.trans he

mutual

theorem succeedsAt_of_apply : ∀ {e e' : Expr}, σ.apply e = .ok e' → σ.SucceedsAt e.accesses
  | .scalar _ _, _, _ => fun _ ha => by cases ha
  | .access _, e', h => fun a ha => by
    cases List.mem_singleton.mp ha
    exact ⟨e', h⟩
  | .binary _ _ _ _, _, h => by
    obtain ⟨_, _, hl, hr, -⟩ := of_apply_binary h
    exact succeedsAt_append (succeedsAt_of_apply hl) (succeedsAt_of_apply hr)
  | .unary _ _ x, _, h => by
    obtain ⟨_, hx, -⟩ := of_apply_unary h
    show σ.SucceedsAt x.accesses
    exact succeedsAt_of_apply hx
  | .type _ _ _, _, h => by
    obtain ⟨_, hps, -⟩ := of_apply_type h
    exact succeedsAt_of_applyAll hps
  | .constructed _ _ _, _, h => by
    obtain ⟨_, hfs, -⟩ := of_apply_constructed h
    exact succeedsAt_of_applyFields hfs
  | .collection _ _, _, h => by
    obtain ⟨_, hes, -⟩ := of_apply_collection h
    exact succeedsAt_of_applyAll hes
  | .call _ _ _, _, h => by
    obtain ⟨_, has, -⟩ := of_apply_call h
    exact succeedsAt_of_applyAll has

theorem succeedsAt_of_applyAll : ∀ {es' es : List Expr}, σ.applyAll es = .ok es' →
    σ.SucceedsAt (Expr.accessesAll es)
  | _, [], _ => fun _ ha => by cases ha
  | _, _ :: _, h => by
    obtain ⟨_, _, he, hes, -⟩ := of_applyAll_cons h
    exact succeedsAt_append (succeedsAt_of_apply he) (succeedsAt_of_applyAll hes)

theorem succeedsAt_of_applyFields : ∀ {fs' fs : List (Named Expr)}, σ.applyFields fs = .ok fs' →
    σ.SucceedsAt (Expr.accessesFields fs)
  | _, [], _ => fun _ ha => by cases ha
  | _, _ :: _, h => by
    obtain ⟨_, _, hf, hfs, -⟩ := of_applyFields_cons h
    exact succeedsAt_append (succeedsAt_of_apply hf) (succeedsAt_of_applyFields hfs)

end

/-- **A substitution succeeds exactly where it succeeds at every variable.** -/
theorem exists_apply_iff {e : Expr} : (∃ e', σ.apply e = .ok e') ↔ σ.SucceedsAt e.accesses := by
  constructor
  · rintro ⟨e', he⟩
    exact succeedsAt_of_apply he
  · intro hall
    cases he : σ.apply e with
    | ok e' => exact ⟨e', rfl⟩
    | error err => exact absurd hall (failsAt_of_apply he).not_succeedsAt

end Substitution

end DepSchema
