/-
DepSchema.Proofs.Vocabulary.Substitution — what substitution does to references and sorts.

A substitution covers the step from one vocabulary to another when it replaces each variable that
only the first one has, and by something within the second. An expression within the first is then
within the second once it is substituted; this is how the parameters of a type take the place of its
dependencies.

What variables stand for are values. A value is never a type, and neither is anything that its
fields lead to, so that substitution cannot turn a variable into a type and keeps the sort of a
type.

Main results: `Covers.apply`, `IsValue.apply` and `sort?_apply`.
-/
import DepSchema.Proofs.Substitution.Results
import DepSchema.Proofs.Vocabulary.Reference
import DepSchema.Typing.Fields

namespace DepSchema

theorem Named.mem_of_find? {α : Type} {items : List (Named α)} {name : Symbol} {a : α}
    (h : Named.find? items name = some a) : ∃ f ∈ items, f.val = a := by
  obtain ⟨f, hf, -, hval⟩ := Named.exists_of_find? h
  exact ⟨f, hf, hval⟩

/-! ## §1. References. -/

/-- What is followed into has no references but those that were there. -/
theorem Expr.Within.follow {V : Vocabulary} (fields : List Ident) :
    ∀ {e e' : Expr}, e.Within V → e.follow fields = .ok e' → e'.Within V := by
  induction fields with
  | nil =>
    intro e e' he h
    rw [show e' = e from (by cases e <;> cases h <;> rfl)]
    exact he
  | cons f fields ih =>
    intro e e' he h
    cases e with
    | access a =>
      cases h
      exact within_access.mpr (within_access.mp he)
    | constructed span c inits =>
      unfold Expr.follow at h
      cases hfind : Named.find? inits f.name with
      | none => simp [hfind] at h
      | some value =>
        obtain ⟨g, hg, rfl⟩ := Named.mem_of_find? hfind
        rw [hfind] at h
        exact ih ((within_constructed.mp he).2 g hg) h
    | _ => cases h

namespace Substitution

variable {σ : Substitution} {V W V' W' : Vocabulary}

theorem applyAll_length : ∀ {es es' : List Expr}, σ.applyAll es = .ok es' → es'.length = es.length
  | [], _, h => by
    cases h
    rfl
  | e :: es, _, h => by
    obtain ⟨e', es', -, hes, rfl⟩ := of_applyAll_cons h
    rw [List.length_cons, List.length_cons, applyAll_length hes]

/-- The substitution leads from one vocabulary to the other: what is not a variable stays allowed,
and so does a variable that is not replaced; the others are replaced by what is allowed. -/
structure Covers (σ : Substitution) (V W : Vocabulary) : Prop where
  words : ∀ r, (∀ n, r ≠ .var n) → V r → W r
  vars : ∀ n, V (.var n) → σ.find? n = none → W (.var n)
  range : ∀ n e, σ.find? n = some e → e.Within W

mutual

/-- **A substitution that leads from one vocabulary to another takes expressions along.** -/
theorem Covers.apply (h : σ.Covers V W) :
    ∀ {e e' : Expr}, e.Within V → σ.apply e = .ok e' → e'.Within W
  | .scalar _ _, _, _, happly => by
    cases happly
    exact Expr.within_scalar
  | .access a, e', he, happly => by
    have hvar := Expr.within_access.mp he
    rcases of_apply_access happly with ⟨hfind, rfl⟩ | ⟨bound, hfind, hfollow⟩
    · exact Expr.within_access.mpr (h.vars _ hvar hfind)
    · exact (h.range _ _ hfind).follow _ hfollow
  | .binary _ _ l r, _, he, happly => by
    obtain ⟨l', r', hl, hr, rfl⟩ := of_apply_binary happly
    rw [Expr.within_binary] at he ⊢
    exact ⟨Covers.apply h he.1 hl, Covers.apply h he.2 hr⟩
  | .unary _ _ x, _, he, happly => by
    obtain ⟨x', hx, rfl⟩ := of_apply_unary happly
    rw [Expr.within_unary] at he ⊢
    exact Covers.apply h he hx
  | .type _ i ps, _, he, happly => by
    obtain ⟨ps', hps, rfl⟩ := of_apply_type happly
    rw [Expr.within_type] at he ⊢
    rw [applyAll_length hps]
    exact ⟨h.words _ (by simp) he.1, Covers.applyAll h he.2 hps⟩
  | .constructed _ c fs, _, he, happly => by
    obtain ⟨fs', hfs, rfl⟩ := of_apply_constructed happly
    rw [Expr.within_constructed] at he ⊢
    exact ⟨h.words _ (by simp) he.1, Covers.applyFields h he.2 hfs⟩
  | .collection _ es, _, he, happly => by
    obtain ⟨es', hes, rfl⟩ := of_apply_collection happly
    rw [Expr.within_collection] at he ⊢
    exact Covers.applyAll h he hes
  | .call _ f as, _, he, happly => by
    obtain ⟨as', has, rfl⟩ := of_apply_call happly
    rw [Expr.within_call] at he ⊢
    exact ⟨h.words _ (by simp) he.1, Covers.applyAll h he.2 has⟩

theorem Covers.applyAll (h : σ.Covers V W) :
    ∀ {es es' : List Expr}, (∀ e ∈ es, e.Within V) → σ.applyAll es = .ok es' →
      ∀ e ∈ es', e.Within W
  | [], _, _, happly => by
    cases happly
    simp
  | e :: es, _, he, happly => by
    obtain ⟨e', es', he', hes', rfl⟩ := of_applyAll_cons happly
    rw [List.forall_mem_cons] at he ⊢
    exact ⟨Covers.apply h he.1 he', Covers.applyAll h he.2 hes'⟩

theorem Covers.applyFields (h : σ.Covers V W) :
    ∀ {fs fs' : List (Named Expr)}, (∀ f ∈ fs, f.val.Within V) → σ.applyFields fs = .ok fs' →
      ∀ f ∈ fs', f.val.Within W
  | [], _, _, happly => by
    cases happly
    simp
  | f :: fs, _, hf, happly => by
    obtain ⟨e', fs', he', hfs', rfl⟩ := of_applyFields_cons happly
    rw [List.forall_mem_cons] at hf ⊢
    exact ⟨Covers.apply h hf.1 he', Covers.applyFields h hf.2 hfs'⟩

end

theorem Covers.applyType (h : σ.Covers V W) {t t' : TypeExpr} (ht : t.Within V)
    (happly : σ.applyType t = .ok t') : t'.Within W := by
  obtain ⟨ps', hps, rfl⟩ := of_applyType happly
  rw [TypeExpr.within_iff] at ht ⊢
  rw [applyAll_length hps]
  exact ⟨h.words _ (by simp) ht.1, h.applyAll ht.2 hps⟩

/-! ## §2. Building substitutions. -/

theorem Covers.mono (h : σ.Covers V W) (hV : V' ≤ V) (hW : W ≤ W') : σ.Covers V' W' :=
  ⟨fun r hr hv => hW _ (h.words r hr (hV _ hv)), fun n hn hnone => hW _ (h.vars n (hV _ hn) hnone),
    fun n e he => (h.range n e he).mono hW⟩

theorem find?_empty (n : Symbol) : empty.find? n = none := rfl

/-- A binding changes what its own name stands for and nothing else. -/
theorem find?_bind (hopen : σ.scopes.frames ≠ []) (name : Symbol) (e : Expr) (n : Symbol) :
    (σ.bind name e).find? n = if n = name then some e else σ.find? n :=
  Scopes.find?_bind hopen n name e

theorem Covers.empty (h : V ≤ W) : empty.Covers V W := by
  refine ⟨fun r _ hr => h r hr, fun n hn _ => h _ hn, ?_⟩
  intro n e he
  rw [find?_empty] at he
  cases he

/-- A binding takes its own name off the variables that have to be allowed. -/
theorem Covers.bind (h : σ.Covers V W) (hopen : σ.scopes.frames ≠ []) {name : Symbol} {e : Expr}
    (he : e.Within W) : (σ.bind name e).Covers (V.adding [name]) W := by
  have hfind := find?_bind hopen name e
  refine ⟨?_, ?_, ?_⟩
  · intro r hr hv
    rcases hv with hv | ⟨n, rfl, -⟩
    · exact h.words r hr hv
    · exact absurd rfl (hr n)
  · intro n hn hnone
    rw [hfind] at hnone
    by_cases heq : n = name
    · simp [heq] at hnone
    · rw [if_neg heq] at hnone
      rcases hn with hn | ⟨m, hm, hmem⟩
      · exact h.vars n hn hnone
      · cases hm
        exact absurd (List.mem_singleton.mp hmem) heq
  · exact Scopes.forall_find?_bind hopen he h.range

theorem bind_open (hopen : σ.scopes.frames ≠ []) (name : Symbol) (e : Expr) :
    (σ.bind name e).scopes.frames ≠ [] :=
  Scopes.bind_open hopen name e

theorem empty_open : empty.scopes.frames ≠ [] := by simp [empty, Scopes.single]

/-- Variables that are allowed anyway need no binding. -/
theorem Covers.of_allowed (h : σ.Covers V W) {names : List Symbol} (hn : ∀ n ∈ names, W (.var n)) :
    σ.Covers (V.adding names) W := by
  refine ⟨?_, ?_, h.range⟩
  · intro r hr hv
    rcases hv with hv | ⟨n, rfl, -⟩
    · exact h.words r hr hv
    · exact absurd rfl (hr n)
  · intro n hv hnone
    rcases hv with hv | ⟨m, hm, hmem⟩
    · exact h.vars n hv hnone
    · cases hm
      exact hn n hmem

/-- Under parameters the substitution leads from one vocabulary with their names to the other. -/
theorem Covers.adding (h : σ.Covers V W) (names : List Symbol) :
    σ.Covers (V.adding names) (W.adding names) :=
  (h.mono le_rfl (Vocabulary.le_adding names)).of_allowed fun n hn => .inr ⟨n, rfl, hn⟩

/-- Variables stand for the expressions at their places. Those that no expression is left for have
to be allowed as they are. -/
theorem Covers.bindZip : ∀ (deps : List Variable) (params : List Expr) {σ : Substitution}
    {V : Vocabulary}, σ.Covers V W → σ.scopes.frames ≠ [] → (∀ p ∈ params, p.Within W) →
    (∀ v ∈ deps.drop params.length, W (.var v.name.name)) →
    let bound := (deps.zip params).foldl (fun σ (dep, param) => σ.bind dep.name.name param) σ
    bound.Covers (V.adding (Variable.names deps)) W ∧ bound.scopes.frames ≠ []
  | [], _, σ, V, h, hopen, _, _ => by simpa [Variable.names] using ⟨h, hopen⟩
  | dep :: deps, [], σ, V, h, hopen, _, hrest => by
    refine ⟨h.of_allowed ?_, hopen⟩
    intro n hn
    obtain ⟨v, hv, rfl⟩ := List.mem_map.mp hn
    exact hrest v hv
  | dep :: deps, param :: params, σ, V, h, hopen, hparams, hrest => by
    rw [List.forall_mem_cons] at hparams
    have hbound : (σ.bind dep.name.name param).Covers (V.adding [dep.name.name]) W :=
      h.bind hopen hparams.1
    have hall := Covers.bindZip deps params hbound (bind_open hopen _ _) hparams.2 hrest
    rw [Vocabulary.adding_adding] at hall
    exact hall

/-- **Dependencies are replaced by their parameters.** -/
theorem covers_bindDeps (h : V ≤ W) (deps : List Variable) {params : List Expr}
    (hparams : ∀ p ∈ params, p.Within W)
    (hrest : ∀ v ∈ deps.drop params.length, W (.var v.name.name)) :
    (Typing.bindDeps deps params).Covers (V.adding (Variable.names deps)) W
      ∧ (Typing.bindDeps deps params).scopes.frames ≠ [] :=
  Covers.bindZip deps params (.empty h) empty_open hparams hrest

/-- Fields stand for accesses of a variable that is allowed. -/
theorem Covers.bindFields {base : Access} (hbase : W (.var base.var.name)) :
    ∀ (fields : List Variable) {σ : Substitution} {V : Vocabulary}, σ.Covers V W →
    σ.scopes.frames ≠ [] →
    (fields.foldl (fun σ v => σ.bind v.name.name (.access (base.field v.name))) σ).Covers
      (V.adding (Variable.names fields)) W
  | [], σ, V, h, _ => by simpa [Variable.names] using h
  | v :: fields, σ, V, h, hopen => by
    have hbound : (σ.bind v.name.name (.access (base.field v.name))).Covers
        (V.adding [v.name.name]) W := h.bind hopen (Expr.within_access.mpr hbase)
    have hall := Covers.bindFields hbase fields hbound (bind_open hopen _ _)
    rw [Vocabulary.adding_adding] at hall
    exact hall

end Substitution

/-! ## §3. Values. -/

namespace Expr

mutual

/-- The expression may stand for a variable: it is not a type, and its fields lead to none. -/
def IsValue : Expr → Prop
  | type _ _ _ => False
  | constructed _ _ fs => AreValues fs
  | _ => True
termination_by structural e => e

/-- The values of several fields may stand for variables. -/
def AreValues : List (Named Expr) → Prop
  | [] => True
  | f :: fs => IsValue f.val ∧ AreValues fs
termination_by structural fs => fs

end

theorem areValues_iff {fs : List (Named Expr)} : AreValues fs ↔ ∀ f ∈ fs, f.val.IsValue := by
  induction fs with
  | nil => simp [AreValues]
  | cons f fs ih => simp [AreValues, ih]

theorem IsValue.follow (fields : List Ident) :
    ∀ {e e' : Expr}, e.IsValue → e.follow fields = .ok e' → e'.IsValue := by
  induction fields with
  | nil =>
    intro e e' he h
    rw [show e' = e from (by cases e <;> cases h <;> rfl)]
    exact he
  | cons f fields ih =>
    intro e e' he h
    cases e with
    | access a =>
      cases h
      trivial
    | constructed span c inits =>
      unfold Expr.follow at h
      cases hfind : Named.find? inits f.name with
      | none => simp [hfind] at h
      | some value =>
        obtain ⟨g, hg, rfl⟩ := Named.mem_of_find? hfind
        rw [hfind] at h
        exact ih (areValues_iff.mp he g hg) h
    | _ => cases h

mutual

/-- **Values under a substitution of values are values.** -/
theorem IsValue.apply {σ : Substitution} (hσ : ∀ n b, σ.find? n = some b → b.IsValue) :
    ∀ {e e' : Expr}, e.IsValue → σ.apply e = .ok e' → e'.IsValue
  | .scalar _ _, _, _, happly => by
    cases happly
    trivial
  | .access a, e', _, happly => by
    rcases Substitution.of_apply_access happly with ⟨-, rfl⟩ | ⟨bound, hfind, hfollow⟩
    · trivial
    · exact (hσ _ _ hfind).follow _ hfollow
  | .binary _ _ _ _, _, _, happly => by
    obtain ⟨l', r', -, -, rfl⟩ := Substitution.of_apply_binary happly
    trivial
  | .unary _ _ _, _, _, happly => by
    obtain ⟨x', -, rfl⟩ := Substitution.of_apply_unary happly
    trivial
  | .type _ _ _, _, he, _ => he.elim
  | .constructed _ _ fs, _, he, happly => by
    obtain ⟨fs', hfs, rfl⟩ := Substitution.of_apply_constructed happly
    exact AreValues.applyFields hσ (l := fs) he hfs
  | .collection _ _, _, _, happly => by
    obtain ⟨es', -, rfl⟩ := Substitution.of_apply_collection happly
    trivial
  | .call _ _ _, _, _, happly => by
    obtain ⟨as', -, rfl⟩ := Substitution.of_apply_call happly
    trivial

theorem AreValues.applyFields {σ : Substitution} (hσ : ∀ n b, σ.find? n = some b → b.IsValue) :
    ∀ {l fs' : List (Named Expr)}, AreValues l → σ.applyFields l = .ok fs' → AreValues fs'
  | [], _, _, happly => by
    cases happly
    trivial
  | f :: fs, _, hfs, happly => by
    obtain ⟨e', fs', he', hfs', rfl⟩ := Substitution.of_applyFields_cons happly
    exact ⟨IsValue.apply hσ hfs.1 he', AreValues.applyFields hσ hfs.2 hfs'⟩

end

/-! ## §4. Sorts. -/

/-- A value has no sort, it is not a type. -/
theorem IsValue.sort?_eq_none {e : Expr} (he : e.IsValue) : e.sort? = none := by
  cases e with
  | type => exact he.elim
  | _ => rfl

theorem elementSort?_cons (e : Expr) (es : List Expr) : elementSort? (e :: es) = e.sort? := rfl

mutual

/-- **A type keeps its sort under a substitution of values.** -/
theorem sort?_apply {σ : Substitution} (hσ : ∀ n b, σ.find? n = some b → b.IsValue) :
    ∀ {e e' : Expr}, σ.apply e = .ok e' → e'.sort? = e.sort?
  | .type _ i ps, _, happly => by
    obtain ⟨ps', hps, rfl⟩ := Substitution.of_apply_type happly
    unfold sort?
    rw [elementSort?_applyAll hσ hps]
  | .scalar _ _, _, happly => by
    cases happly
    rfl
  | .access a, e', happly => by
    exact (IsValue.apply hσ (e := .access a) trivial happly).sort?_eq_none
  | .binary s op l r, _, happly =>
    (IsValue.apply hσ (e := .binary s op l r) trivial happly).sort?_eq_none
  | .unary s op x, _, happly =>
    (IsValue.apply hσ (e := .unary s op x) trivial happly).sort?_eq_none
  | .constructed _ _ _, _, happly => by
    obtain ⟨fs', -, rfl⟩ := Substitution.of_apply_constructed happly
    rfl
  | .collection s es, _, happly =>
    (IsValue.apply hσ (e := .collection s es) trivial happly).sort?_eq_none
  | .call s f as, _, happly =>
    (IsValue.apply hσ (e := .call s f as) trivial happly).sort?_eq_none

theorem elementSort?_applyAll {σ : Substitution} (hσ : ∀ n b, σ.find? n = some b → b.IsValue) :
    ∀ {es es' : List Expr}, σ.applyAll es = .ok es' → elementSort? es' = elementSort? es
  | [], _, happly => by
    cases happly
    rfl
  | e :: es, _, happly => by
    obtain ⟨e', es', he', -, rfl⟩ := Substitution.of_applyAll_cons happly
    rw [elementSort?_cons, elementSort?_cons, sort?_apply hσ he']

end

end Expr

theorem TypeExpr.sort?_applyType {σ : Substitution} (hσ : ∀ n b, σ.find? n = some b → b.IsValue)
    {t t' : TypeExpr} (happly : σ.applyType t = .ok t') : t'.sort? = t.sort? := by
  obtain ⟨ps', hps, rfl⟩ := Substitution.of_applyType happly
  unfold TypeExpr.sort? toExpr Expr.sort?
  rw [Expr.elementSort?_applyAll hσ hps]

end DepSchema
