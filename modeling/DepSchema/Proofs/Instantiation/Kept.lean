/-
DepSchema.Proofs.Instantiation.Kept — a part of an accepted schema.

Declarations of an accepted schema that are closed under uses are an accepted schema of their own:
their checks pass without the rest. So what is asked of all types of a schema need only hold of
those that the types in scope lead to.

Main definition: `Schema.SteadyOn`. Main results: `Schema.Accepted.keeping` and
`Schema.SteadyOn.keeping`.
-/
import DepSchema.Proofs.Instantiation.Telescopes
import DepSchema.Proofs.Vocabulary.Kept

namespace DepSchema

/-! ## §1. Expressions. -/

namespace Expr

variable {W : Vocabulary} {s s' : Schema}

/-- A well-formed type is one wherever its words mean the same. -/
theorem FormedIn.of_agreesOn (hs : s.AgreesOn W s') {e : Expr} (h : e.FormedIn s) :
    e.Within W → e.FormedIn s' := by
  induction h with
  | scalar hname => exact fun _ => .scalar hname
  | array hname _ hlength ih =>
    exact fun he => .array hname (ih ((within_type.mp he).2 _ List.mem_cons_self)) hlength
  | set hname _ ih => exact fun he => .set hname (ih ((within_type.mp he).2 _ List.mem_cons_self))
  | declared hname hdeps hcount hvalues =>
    intro he
    refine .declared hname ?_ hcount hvalues
    rw [Schema.deps?, hs.type (within_type.mp he).1]
    exact hdeps

theorem steadyAll_congr {es : List Expr} (h : ∀ e ∈ es, e.steady s' = e.steady s) :
    steadyAll s' es = steadyAll s es := by
  induction es with
  | nil => rfl
  | cons e es ih =>
    rw [List.forall_mem_cons] at h
    rw [steadyAll, steadyAll, h.1, ih h.2]

theorem steadyFields_congr {fs : List (Named Expr)}
    (h : ∀ f ∈ fs, f.val.steady s' = f.val.steady s) : steadyFields s' fs = steadyFields s fs := by
  induction fs with
  | nil => rfl
  | cons f fs ih =>
    rw [List.forall_mem_cons] at h
    rw [steadyFields, steadyFields, h.1, ih h.2]

/-- A function is as steady wherever the words of its type mean the same. -/
theorem isSteady_of_agreesOn (hW : W.Closed s) (hs : s.AgreesOn W s') {f : Symbol}
    (hcallee : W (.callee f)) : s'.isSteady f = s.isSteady f := by
  have hsignature := hs.function (.inl hcallee)
  unfold Schema.isSteady
  cases hf : s.function? f with
  | none =>
    rw [hf, Option.map_none, Option.map_eq_none_iff] at hsignature
    rw [hsignature]
  | some callee =>
    rw [hf] at hsignature
    obtain ⟨callee', hf', hsame⟩ := Option.map_eq_some_iff.mp hsignature
    obtain ⟨hparams, hresult⟩ := FunctionType.mk.inj hsame
    have hword := (TypeExpr.within_iff.mp (hW.function (.inl hcallee) hf).result).1
    have htype : s'.type? callee.result.name = s.type? callee.result.name :=
      hs.type (Vocabulary.of_also hword (by simp))
    rw [hf']
    dsimp only
    rw [hparams, hresult, htype]

/-- An expression is as steady wherever its words mean the same; variables do not matter. -/
theorem steady_of_agreesOn (hW : W.Closed s) (hs : s.AgreesOn W s') {p : Symbol → Prop} (e : Expr) :
    e.Within (W.also p) → e.steady s' = e.steady s := by
  induction e using Expr.induct with
  | scalar | access => exact fun _ => rfl
  | binary span op l r ihl ihr =>
    intro he
    obtain ⟨hl, hr⟩ := within_binary.mp he
    rw [steady, steady, ihl hl, ihr hr]
  | unary span op x ih => exact fun he => ih he
  | type span i ps ih =>
    exact fun he => steadyAll_congr fun p hp => ih p hp ((within_type.mp he).2 p hp)
  | constructed span c fs ih =>
    intro he
    obtain ⟨hword, hfs⟩ := within_constructed.mp he
    rw [steady, steady, Schema.isFixed, Schema.isFixed,
      hs.ctor (Vocabulary.of_also hword (by simp)),
      steadyFields_congr fun f hf => ih f hf (hfs f hf)]
  | collection span es ih =>
    exact fun he => steadyAll_congr fun e he' => ih e he' (within_collection.mp he e he')
  | call span f as ih =>
    intro he
    obtain ⟨hword, has⟩ := within_call.mp he
    have hcallee := Vocabulary.of_also hword (by simp)
    rw [steady, steady, steadyAll_congr fun a ha => ih a ha (has a ha),
      isSteady_of_agreesOn hW hs hcallee]

end Expr

/-! ## §2. Declarations. -/

namespace Checking.Blank

variable {t : Checking} (ht : t.Blank) (W : Vocabulary)

include ht

theorem within : t.Within W := by
  refine ⟨fun n b hb => ?_, ht.isOpen, ht.outer.isOpen⟩
  rw [ht.empty n] at hb
  cases hb

theorem replaces : t.Replaces W := by
  constructor
  · intro n e he
    rw [ht.unbound n] at he
    cases he
  · intro n e he
    rw [ht.unbound n] at he
    cases he

end Checking.Blank

theorem Variable.Declarable.of_agreesOn {W : Vocabulary} {s s' : Schema} {oracle : Oracle}
    (htidy : s.Tidy) (hW : W.Closed s) (hs : s.AgreesOn W s') {vars : List Variable}
    (hvars : ∀ v ∈ vars, v.type.Within W) (h : Declarable ⟨s, oracle⟩ vars) :
    Declarable ⟨s', oracle⟩ vars := by
  obtain ⟨t, ht, hok⟩ := h
  have hasks := Typing.asks_introduceVariables (c := ⟨s, oracle⟩) htidy hW vars W t (ht.within W)
    (ht.replaces W) (within_of_exprs (List.forall_mem_map.mpr hvars)) (Vocabulary.le_inScope _)
  exact ⟨t, ht, (congrArg Prod.fst (hasks.agrees s' hs)).trans hok⟩

namespace Schema

variable {s : Schema} {P : Entity → Prop}

/-- The types that these declarations give are steady, apart from those in enums with dependencies
and in functions with parameters that are functions. -/
structure SteadyOn (s : Schema) (P : Entity → Prop) : Prop where
  deps : ∀ d ∈ s.types, P (.type d.name) → ∀ v ∈ d.deps, v.type.toExpr.steady s = true
  fields : ∀ d ∈ s.types, P (.type d.name) → d.isFixed = true → ∀ ctor ∈ d.constructors,
    ∀ v ∈ ctor.fields, v.type.toExpr.steady s = true
  functions : ∀ f ∈ s.functions, P (.function f.name) → ∀ vars,
    f.params = vars.map Variable.toParameter → ∀ v ∈ f.telescope vars,
      v.type.toExpr.steady s = true

section

variable (hnames : s.nameFaults = []) (hP : s.ClosedUnderUses P)

include hnames hP

/-- What the types and functions that are kept give leads to what is kept. -/
theorem within_leading_of_dep {d : TypeDef} (hd : d ∈ s.types) (hkept : P (.type d.name))
    {v : Variable} (hv : v ∈ d.deps) : v.type.Within (s.leading P) :=
  exprs_leading_of_type hP hkept ((keyed_of_nameFaults hnames).type?_eq_some.mpr ⟨hd, rfl⟩) _
    (List.mem_append_left _ (List.mem_map_of_mem hv))

theorem within_leading_of_field {d : TypeDef} (hd : d ∈ s.types) (hkept : P (.type d.name))
    {ctor : Constructor} (hctor : ctor ∈ d.constructors) {v : Variable} (hv : v ∈ ctor.fields) :
    v.type.Within (s.leading P) :=
  exprs_leading_of_type hP hkept ((keyed_of_nameFaults hnames).type?_eq_some.mpr ⟨hd, rfl⟩) _
    (TypeDef.exprs_of_field hctor hv)

theorem within_leading_of_signature {f : FunctionDef} (hf : f ∈ s.functions)
    (hkept : P (.function f.name)) : ∀ e ∈ f.signature.exprs, e.Within (s.leading P) :=
  exprs_leading_of_function hP hkept
    ((keyed_of_nameFaults hnames).function?_eq_some.mpr ⟨hf, rfl⟩)

theorem within_leading_of_telescope {f : FunctionDef} (hf : f ∈ s.functions)
    (hkept : P (.function f.name)) {vars : List Variable}
    (hparams : f.params = vars.map Variable.toParameter) :
    ∀ v ∈ f.telescope vars, v.type.Within (s.leading P) := by
  have hexprs := within_leading_of_signature hnames hP hf hkept
  unfold FunctionType.exprs FunctionDef.signature at hexprs
  rw [hparams] at hexprs
  refine List.forall_mem_append.mpr ⟨fun v hv => ?_, List.forall_mem_singleton.mpr ?_⟩
  · exact hexprs _ (List.mem_append_left _ (Variable.mem_exprsAll hv))
  · exact hexprs _ (List.mem_append_right _ (List.mem_singleton_self _))

variable [DecidablePred P]

/-- **Types that are steady are steady in the schema of what they lead to.** -/
theorem SteadyOn.keeping (h : s.SteadyOn P) : (s.keeping P).Steady := by
  have hW := closed_leading hnames hP
  have hagrees := agreesOn_keeping (P := P) hnames
  have hsteady : ∀ {v : Variable}, v.type.Within (s.leading P) → v.type.toExpr.steady s = true →
      v.type.toExpr.steady (s.keeping P) = true := fun {v} hwithin hv =>
    (Expr.steady_of_agreesOn hW hagrees (p := fun _ => False) _
      (Expr.Within.mono hwithin (Vocabulary.le_also _))).trans hv
  refine ⟨fun d hd v hv => ?_, fun d hd hfixed ctor hctor v hv => ?_,
    fun f hf vars hparams v hv => ?_⟩
  · obtain ⟨hd, hkept⟩ := mem_types_keeping.mp hd
    exact hsteady (within_leading_of_dep hnames hP hd hkept hv) (h.deps d hd hkept v hv)
  · obtain ⟨hd, hkept⟩ := mem_types_keeping.mp hd
    exact hsteady (within_leading_of_field hnames hP hd hkept hctor hv)
      (h.fields d hd hkept hfixed ctor hctor v hv)
  · obtain ⟨g, hg, hkept, rfl⟩ := mem_functions_keeping.mp hf
    exact hsteady (within_leading_of_telescope hnames hP hg hkept hparams v hv)
      (h.functions g hg hkept vars hparams v hv)

/-- **What is kept of an accepted schema is one.** -/
theorem Accepted.keeping (h : s.Accepted) : (s.keeping P).Accepted := by
  have hW := closed_leading hnames hP
  have hagrees := agreesOn_keeping (P := P) hnames
  refine ⟨⟨fun n hn => ?_, ⟨fun d hd => ?_, fun d hd => ?_⟩, ⟨fun d hd v hv => ?_,
    fun d hd ctor hctor v hv => ?_, fun f hf e he => ?_, fun e he => ?_⟩⟩, fun d hd => ?_,
    fun d hd hfixed ctor hctor => ?_, fun f hf vars hparams => ?_, fun d hd => ?_⟩
  · rw [type?_keeping, h.builtin n hn]
    exact ite_self _
  · exact h.tidy.constructors d (mem_types_keeping.mp hd).1
  · exact h.tidy.fields d (mem_types_keeping.mp hd).1
  · obtain ⟨hd, hkept⟩ := mem_types_keeping.mp hd
    exact (h.formed.deps d hd v hv).of_agreesOn hagrees
      (within_leading_of_dep hnames hP hd hkept hv)
  · obtain ⟨hd, hkept⟩ := mem_types_keeping.mp hd
    exact (h.formed.fields d hd ctor hctor v hv).of_agreesOn hagrees
      (within_leading_of_field hnames hP hd hkept hctor hv)
  · obtain ⟨g, hg, hkept, rfl⟩ := mem_functions_keeping.mp hf
    exact (h.formed.signatures g hg e he).of_agreesOn hagrees
      (within_leading_of_signature hnames hP hg hkept e he)
  · exact h.formed.inputs e (mem_types_keeping.mp he).1
  · obtain ⟨hd, hkept⟩ := mem_types_keeping.mp hd
    exact (h.deps d hd).of_agreesOn h.tidy hW hagrees fun v hv =>
      within_leading_of_dep hnames hP hd hkept hv
  · obtain ⟨hd, hkept⟩ := mem_types_keeping.mp hd
    refine (h.fields d hd hfixed ctor hctor).of_agreesOn h.tidy hW hagrees ?_
    exact List.forall_mem_append.mpr
      ⟨fun v hv => within_leading_of_dep hnames hP hd hkept hv,
        fun v hv => within_leading_of_field hnames hP hd hkept hctor hv⟩
  · obtain ⟨g, hg, hkept, rfl⟩ := mem_functions_keeping.mp hf
    exact (h.functions g hg vars hparams).of_agreesOn h.tidy hW hagrees
      (within_leading_of_telescope hnames hP hg hkept hparams)
  · exact h.apart d (mem_types_keeping.mp hd).1

end

end Schema

end DepSchema
