/-
DepSchema.Proofs.Renaming.Variables — other names for variables and functions.

A renaming of the variables and of what is called, by any functions of names, need not keep names
apart, and everything else keeps its name. It goes through folding, and it can be followed by a
substitution that puts variables in for variables. The structural oracle finds an expression equal
to what it is renamed to only where nothing in it has got another name.

Main definition: `Expr.Renamed`. Main results: `Renamed.fold`, `equal_iff_of_renamed` and
`exists_apply_of_renamed`.
-/
import DepSchema.Proofs.Oracle.Comparison
import DepSchema.Proofs.Vocabulary.Substitution

namespace DepSchema

/-! ## §1. Renamed expressions. -/

namespace Expr

mutual

/-- The second expression is the first at other places, with `ξ n` for each variable `n` and `ζ f`
for each function `f` that is called. -/
inductive Renamed (ξ ζ : Symbol → Symbol) : Expr → Expr → Prop
  | binary {s s' : Span} {op : BinaryOp} {l l' r r' : Expr} (hl : Renamed ξ ζ l l')
      (hr : Renamed ξ ζ r r') : Renamed ξ ζ (.binary s op l r) (.binary s' op l' r')
  | unary {s s' : Span} {op : UnaryOp} {x x' : Expr} (hx : Renamed ξ ζ x x') :
      Renamed ξ ζ (.unary s op x) (.unary s' op x')
  | type {s s' : Span} {i i' : Ident} {ps ps' : List Expr} (hname : i.name = i'.name)
      (hparams : AllRenamed ξ ζ ps ps') : Renamed ξ ζ (.type s i ps) (.type s' i' ps')
  | access {a a' : Access} (hvar : ξ a.var.name = a'.var.name)
      (hfields : a.fields.map Ident.name = a'.fields.map Ident.name) :
      Renamed ξ ζ (.access a) (.access a')
  | scalar {s s' : Span} {v : Scalar} : Renamed ξ ζ (.scalar s v) (.scalar s' v)
  | constructed {s s' : Span} {c c' : Ident} {fs fs' : List (Named Expr)} (hname : c.name = c'.name)
      (hvalues : ValuesRenamed ξ ζ fs fs') :
      Renamed ξ ζ (.constructed s c fs) (.constructed s' c' fs')
  | collection {s s' : Span} {es es' : List Expr} (helements : AllRenamed ξ ζ es es') :
      Renamed ξ ζ (.collection s es) (.collection s' es')
  | call {s s' : Span} {f f' : Ident} {as as' : List Expr} (hname : ζ f.name = f'.name)
      (hargs : AllRenamed ξ ζ as as') : Renamed ξ ζ (.call s f as) (.call s' f' as')

/-- The same for several expressions, one by one. -/
inductive AllRenamed (ξ ζ : Symbol → Symbol) : List Expr → List Expr → Prop
  | nil : AllRenamed ξ ζ [] []
  | cons {e e' : Expr} {es es' : List Expr} (hfirst : Renamed ξ ζ e e')
      (hrest : AllRenamed ξ ζ es es') : AllRenamed ξ ζ (e :: es) (e' :: es')

/-- The same for the values of fields of the same names. -/
inductive ValuesRenamed (ξ ζ : Symbol → Symbol) : List (Named Expr) → List (Named Expr) → Prop
  | nil : ValuesRenamed ξ ζ [] []
  | cons {f f' : Named Expr} {fs fs' : List (Named Expr)} (hname : f.name.name = f'.name.name)
      (hvalue : Renamed ξ ζ f.val f'.val) (hrest : ValuesRenamed ξ ζ fs fs') :
      ValuesRenamed ξ ζ (f :: fs) (f' :: fs')

end

variable {ξ ζ : Symbol → Symbol}

theorem ValuesRenamed.names {fs fs' : List (Named Expr)} (h : ValuesRenamed ξ ζ fs fs') :
    fs.map (fun f => f.name.name) = fs'.map fun f => f.name.name := by
  induction fs generalizing fs' with
  | nil =>
    cases h
    rfl
  | cons f fs ih =>
    cases h with
    | cons hname _ hrest => rw [List.map_cons, List.map_cons, hname, ih hrest]

mutual

/-- A renaming names no field twice that was not. -/
theorem Renamed.fieldsDistinct : ∀ {e e' : Expr}, Renamed ξ ζ e e' → e.fieldsDistinct = true →
    e'.fieldsDistinct = true
  | _, _, .binary hl hr, h => by
    simp only [Expr.fieldsDistinct, Bool.and_eq_true] at h ⊢
    exact ⟨hl.fieldsDistinct h.1, hr.fieldsDistinct h.2⟩
  | _, _, .unary hx, h => hx.fieldsDistinct (e := _) h
  | _, _, .type _ hparams, h => hparams.fieldsDistinct h
  | _, _, .access _ _, _ => rfl
  | _, _, .scalar, _ => rfl
  | _, _, .constructed _ hvalues, h => by
    simp only [Expr.fieldsDistinct, Bool.and_eq_true, decide_eq_true_eq] at h ⊢
    exact ⟨hvalues.names ▸ h.1, hvalues.fieldsDistinct h.2⟩
  | _, _, .collection helements, h => helements.fieldsDistinct h
  | _, _, .call _ hargs, h => hargs.fieldsDistinct h

theorem AllRenamed.fieldsDistinct : ∀ {es es' : List Expr}, AllRenamed ξ ζ es es' →
    allFieldsDistinct es = true → allFieldsDistinct es' = true
  | _, _, .nil, _ => rfl
  | _, _, .cons hfirst hrest, h => by
    simp only [allFieldsDistinct, Bool.and_eq_true] at h ⊢
    exact ⟨hfirst.fieldsDistinct h.1, hrest.fieldsDistinct h.2⟩

theorem ValuesRenamed.fieldsDistinct : ∀ {fs fs' : List (Named Expr)}, ValuesRenamed ξ ζ fs fs' →
    valuesFieldsDistinct fs = true → valuesFieldsDistinct fs' = true
  | _, _, .nil, _ => rfl
  | _, _, .cons _ hvalue hrest, h => by
    simp only [valuesFieldsDistinct, Bool.and_eq_true] at h ⊢
    exact ⟨hvalue.fieldsDistinct h.1, hrest.fieldsDistinct h.2⟩

end

/-! ## §2. Folding. -/

theorem Renamed.scalar?_eq {e e' : Expr} (h : Renamed ξ ζ e e') : e.scalar? = e'.scalar? := by
  cases h <;> rfl

theorem Renamed.evalBinary {s s' : Span} {op : BinaryOp} {l l' r r' : Expr}
    (hl : Renamed ξ ζ l l') (hr : Renamed ξ ζ r r') :
    Renamed ξ ζ (evalBinary s op l r) (evalBinary s' op l' r') := by
  unfold Expr.evalBinary
  rw [hl.scalar?_eq, hr.scalar?_eq]
  split
  · split
    · exact .scalar
    · exact .binary hl hr
  · exact .binary hl hr

theorem Renamed.evalUnary {s s' : Span} {op : UnaryOp} {x x' : Expr} (hx : Renamed ξ ζ x x') :
    Renamed ξ ζ (evalUnary s op x) (evalUnary s' op x') := by
  unfold Expr.evalUnary
  rw [hx.scalar?_eq]
  split
  · exact .scalar
  · exact .unary hx

mutual

/-- **What is renamed is folded alike**: names are no constants. -/
theorem Renamed.fold : ∀ {e e' : Expr}, Renamed ξ ζ e e' → Renamed ξ ζ e.fold e'.fold
  | _, _, .binary hl hr => hl.fold.evalBinary hr.fold
  | _, _, .unary hx => hx.fold.evalUnary
  | _, _, .type hname hparams => .type hname hparams.fold
  | _, _, .access hvar hfields => .access hvar hfields
  | _, _, .scalar => .scalar
  | _, _, .constructed hname hvalues => .constructed hname hvalues.fold
  | _, _, .collection helements => .collection helements.fold
  | _, _, .call hname hargs => .call hname hargs.fold

theorem AllRenamed.fold : ∀ {es es' : List Expr}, AllRenamed ξ ζ es es' →
    AllRenamed ξ ζ (foldAll es) (foldAll es')
  | _, _, .nil => .nil
  | _, _, .cons hfirst hrest => .cons hfirst.fold hrest.fold

theorem ValuesRenamed.fold : ∀ {fs fs' : List (Named Expr)}, ValuesRenamed ξ ζ fs fs' →
    ValuesRenamed ξ ζ (foldFields fs) (foldFields fs')
  | _, _, .nil => .nil
  | _, _, .cons hname hvalue hrest => .cons hname hvalue.fold hrest.fold

end

theorem refs_evalBinary {span : Span} {op : BinaryOp} {l r : Expr} :
    (evalBinary span op l r).refs = l.refs ++ r.refs := by
  unfold evalBinary
  split
  · next a b ha hb =>
    -- literals refer to nothing
    have hl : l.refs = [] := by cases l <;> cases ha; rfl
    have hr : r.refs = [] := by cases r <;> cases hb; rfl
    split
    · rw [hl, hr]
      rfl
    · rfl
  · rfl

theorem refs_evalUnary {span : Span} {op : UnaryOp} {x : Expr} :
    (evalUnary span op x).refs = x.refs := by
  unfold evalUnary
  split
  · next v hv =>
    obtain ⟨a, ha, -⟩ := Option.bind_eq_some_iff.mp hv
    cases x <;> cases ha
    rfl
  · rfl

theorem length_foldAll (es : List Expr) : (foldAll es).length = es.length := by
  induction es with
  | nil => rfl
  | cons e es ih => rw [foldAll, List.length_cons, List.length_cons, ih]

mutual

/-- Folding keeps all references. -/
theorem refs_fold : ∀ e : Expr, e.fold.refs = e.refs
  | .binary _ _ l r => by rw [fold, refs_evalBinary, refs_fold l, refs_fold r, refs]
  | .unary _ _ x => by rw [fold, refs_evalUnary, refs_fold x, refs]
  | .type _ _ ps => by rw [fold, refs, refs, refsAll_foldAll ps, length_foldAll]
  | .access _ => rfl
  | .scalar _ _ => rfl
  | .constructed _ _ fs => by rw [fold, refs, refs, refsFields_foldFields fs]
  | .collection _ es => refsAll_foldAll es
  | .call _ _ as => by rw [fold, refs, refs, refsAll_foldAll as]

theorem refsAll_foldAll : ∀ es : List Expr, refsAll (foldAll es) = refsAll es
  | [] => rfl
  | e :: es => by rw [foldAll, refsAll, refs_fold e, refsAll_foldAll es, refsAll]

theorem refsFields_foldFields : ∀ fs : List (Named Expr), refsFields (foldFields fs) = refsFields fs
  | [] => rfl
  | f :: fs => by rw [foldFields, refsFields, refs_fold f.val, refsFields_foldFields fs, refsFields]

end

/-! ## §3. Equality. -/

end Expr

/-- The variables and the functions that keep their names, and everything else. -/
def Vocabulary.keeping (ξ ζ : Symbol → Symbol) : Vocabulary
  | .var n => ξ n = n
  | .callee f => ζ f = f
  | _ => True

namespace Expr

variable {ξ ζ : Symbol → Symbol}

/-- A field before others that do not have its name can be compared for itself. -/
theorem fieldContents_cons_eq_iff {f f' : Named Expr} {fs fs' : List (Named Expr)}
    (hname : f.name.name = f'.name.name) (hf : f.name.name ∉ fs.map fun f => f.name.name)
    (hf' : f.name.name ∉ fs'.map fun f => f.name.name) :
    fieldContents (f :: fs) = fieldContents (f' :: fs')
      ↔ f.val.content = f'.val.content ∧ fieldContents fs = fieldContents fs' := by
  have hnone : ∀ {gs : List (Named Expr)}, f.name.name ∉ gs.map (fun f => f.name.name) →
      fieldContents gs f.name.name = none := fun hgs => by
    rwa [← isSome_fieldContents, Option.not_isSome_iff_eq_none] at hgs
  rw [fieldContents, fieldContents, ← hname]
  constructor
  · intro h
    refine ⟨by simpa using congrFun h f.name.name, ?_⟩
    funext name
    by_cases hn : f.name.name = name
    · rw [← hn, hnone hf, hnone hf']
    · simpa [hn] using congrFun h name
  · rintro ⟨hvalue, hrest⟩
    rw [hvalue, hrest]

mutual

/-- **A renaming shows in the content**, unless nothing gets another name. -/
theorem Renamed.content_eq_iff : ∀ {e e' : Expr}, Renamed ξ ζ e e' → e.fieldsDistinct = true →
    (e.content = e'.content ↔ e.Within (.keeping ξ ζ))
  | _, _, .binary hl hr, h => by
    simp only [Expr.fieldsDistinct, Bool.and_eq_true] at h
    simp [content, hl.content_eq_iff h.1, hr.content_eq_iff h.2]
  | _, _, .unary hx, h => by
    have hx := hx.content_eq_iff h
    simp [content, hx]
  | _, _, .type hname hparams, h => by
    have hparams := hparams.contents_eq_iff h
    simp [content, hname, hparams, Vocabulary.keeping]
  | _, _, .access hvar hfields, _ => by
    simp [content, ← hvar, hfields, Vocabulary.keeping, eq_comm]
  | _, _, .scalar, _ => by simp [content]
  | _, _, .constructed hname hvalues, h => by
    simp only [Expr.fieldsDistinct, Bool.and_eq_true, decide_eq_true_eq] at h
    simp [content, hname, hvalues.fieldContents_eq_iff h.1 h.2, Vocabulary.keeping]
  | _, _, .collection helements, h => by
    have helements := helements.contents_eq_iff h
    simp [content, helements]
  | _, _, .call hname hargs, h => by
    have hargs := hargs.contents_eq_iff h
    simp [content, ← hname, hargs, Vocabulary.keeping, eq_comm]

theorem AllRenamed.contents_eq_iff : ∀ {es es' : List Expr}, AllRenamed ξ ζ es es' →
    allFieldsDistinct es = true →
      (contents es = contents es' ↔ ∀ e ∈ es, e.Within (.keeping ξ ζ))
  | _, _, .nil, _ => by simp
  | _, _, .cons hfirst hrest, h => by
    simp only [allFieldsDistinct, Bool.and_eq_true] at h
    simp [contents, hfirst.content_eq_iff h.1, hrest.contents_eq_iff h.2]

theorem ValuesRenamed.fieldContents_eq_iff : ∀ {fs fs' : List (Named Expr)},
    ValuesRenamed ξ ζ fs fs' → (fs.map fun f => f.name.name).Nodup →
    valuesFieldsDistinct fs = true →
      (fieldContents fs = fieldContents fs' ↔ ∀ f ∈ fs, f.val.Within (.keeping ξ ζ))
  | _, _, .nil, _, _ => by simp
  | _, _, .cons hname hvalue hrest, hnodup, h => by
    simp only [valuesFieldsDistinct, Bool.and_eq_true] at h
    obtain ⟨hfirst, hnodup⟩ := List.nodup_cons.mp hnodup
    rw [fieldContents_cons_eq_iff hname hfirst (hrest.names ▸ hfirst), List.forall_mem_cons,
      hvalue.content_eq_iff h.1, hrest.fieldContents_eq_iff hnodup h.2]

end

/-- **An expression is equal to what it is renamed to exactly if nothing in it gets another name.**
-/
theorem equal_iff_of_renamed {e e' : Expr} (h : Renamed ξ ζ e e') (he : e.fieldsDistinct = true) :
    Structural.equal e e' = true ↔ e.Within (.keeping ξ ζ) := by
  have hfold := fieldsDistinct_fold he
  rw [Structural.equal, sameAs_iff_content hfold (h.fold.fieldsDistinct hfold),
    h.fold.content_eq_iff hfold, Within, Within, refs_fold]

end Expr

/-! ## §4. Substituting variables for variables. -/

namespace Substitution

/-- Each variable that is bound stands for a variable alone, the one that `back` gives. -/
structure RenamesBy (σ : Substitution) (back : Symbol → Symbol) : Prop where
  isOpen : σ.scopes.frames ≠ []
  find : ∀ n, (σ.find? n = none ∧ back n = n)
    ∨ ∃ i : Ident, σ.find? n = some (.ofVar i) ∧ back n = i.name

theorem renamesBy_empty : empty.RenamesBy id := ⟨empty_open, fun _ => .inl ⟨rfl, rfl⟩⟩

theorem RenamesBy.bind {σ : Substitution} {back : Symbol → Symbol} (h : σ.RenamesBy back)
    (n : Symbol) (i : Ident) :
    (σ.bind n (.ofVar i)).RenamesBy (Function.update back n i.name) := by
  refine ⟨bind_open h.isOpen _ _, fun m => ?_⟩
  rw [find?_bind h.isOpen]
  by_cases hm : m = n
  · exact .inr ⟨i, by rw [if_pos hm], by rw [hm, Function.update_self]⟩
  · rw [if_neg hm, Function.update_of_ne hm]
    exact h.find m

variable {ξ ζ back : Symbol → Symbol} {σ : Substitution}

mutual

/-- **Variables for variables can be put in everywhere, and this renames once more.** -/
theorem exists_apply_of_renamed (hσ : σ.RenamesBy back) : ∀ {e e' : Expr}, e.Renamed ξ ζ e' →
    ∃ u, σ.apply e' = .ok u ∧ e.Renamed (back ∘ ξ) ζ u
  | _, _, .binary hl hr => by
    obtain ⟨l, hl, hl'⟩ := exists_apply_of_renamed hσ hl
    obtain ⟨r, hr, hr'⟩ := exists_apply_of_renamed hσ hr
    rw [apply, hl, hr]
    exact ⟨_, rfl, .binary hl' hr'⟩
  | _, _, .unary hx => by
    obtain ⟨x, hx, hx'⟩ := exists_apply_of_renamed hσ hx
    rw [apply, hx]
    exact ⟨_, rfl, .unary hx'⟩
  | _, _, .type hname hparams => by
    obtain ⟨ps, hps, hps'⟩ := exists_applyAll_of_renamed hσ hparams
    rw [apply, hps]
    exact ⟨_, rfl, .type hname hps'⟩
  | _, _, @Expr.Renamed.access _ _ a a' hvar hfields => by
    have hname : (back ∘ ξ) a.var.name = back a'.var.name := congrArg back hvar
    rw [apply]
    obtain ⟨hfind, hback⟩ | ⟨i, hfind, hback⟩ := hσ.find a'.var.name <;> rw [hfind]
    · exact ⟨_, rfl, .access (hname.trans hback) hfields⟩
    · cases hcases : a'.fields with
      | nil => exact ⟨_, rfl, .access (hname.trans hback) (by rw [hfields, hcases]; rfl)⟩
      | cons f fs => exact ⟨_, rfl, .access (hname.trans hback) (by rw [hfields, hcases]; rfl)⟩
  | _, _, .scalar => ⟨_, rfl, .scalar⟩
  | _, _, .constructed hname hvalues => by
    obtain ⟨fs, hfs, hfs'⟩ := exists_applyFields_of_renamed hσ hvalues
    rw [apply, hfs]
    exact ⟨_, rfl, .constructed hname hfs'⟩
  | _, _, .collection helements => by
    obtain ⟨es, hes, hes'⟩ := exists_applyAll_of_renamed hσ helements
    rw [apply, hes]
    exact ⟨_, rfl, .collection hes'⟩
  | _, _, .call hname hargs => by
    obtain ⟨as, has, has'⟩ := exists_applyAll_of_renamed hσ hargs
    rw [apply, has]
    exact ⟨_, rfl, .call hname has'⟩

theorem exists_applyAll_of_renamed (hσ : σ.RenamesBy back) : ∀ {es es' : List Expr},
    Expr.AllRenamed ξ ζ es es' → ∃ us, σ.applyAll es' = .ok us ∧ Expr.AllRenamed (back ∘ ξ) ζ es us
  | _, _, .nil => ⟨_, rfl, .nil⟩
  | _, _, .cons hfirst hrest => by
    obtain ⟨u, hu, hu'⟩ := exists_apply_of_renamed hσ hfirst
    obtain ⟨us, hus, hus'⟩ := exists_applyAll_of_renamed hσ hrest
    rw [applyAll, hu, hus]
    exact ⟨_, rfl, .cons hu' hus'⟩

theorem exists_applyFields_of_renamed (hσ : σ.RenamesBy back) : ∀ {fs fs' : List (Named Expr)},
    Expr.ValuesRenamed ξ ζ fs fs' →
      ∃ us, σ.applyFields fs' = .ok us ∧ Expr.ValuesRenamed (back ∘ ξ) ζ fs us
  | _, _, .nil => ⟨_, rfl, .nil⟩
  | _, _, .cons hname hvalue hrest => by
    obtain ⟨u, hu, hu'⟩ := exists_apply_of_renamed hσ hvalue
    obtain ⟨us, hus, hus'⟩ := exists_applyFields_of_renamed hσ hrest
    rw [applyFields, hu, hus]
    exact ⟨_, rfl, .cons hname hu' hus'⟩

end

end Substitution

end DepSchema
