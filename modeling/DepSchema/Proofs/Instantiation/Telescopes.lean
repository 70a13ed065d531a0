/-
DepSchema.Proofs.Instantiation.Telescopes — variables that are declared one after the other.

The dependencies of a type, its fields behind them, and the parameters of a function with its result
are checked in the same way: each has a well-formed type in the scope of those before it. Where all
of these types are steady, each of them has sorts for its parameters there. So one statement about a
list of variables says what the check of a schema leaves for the uses of its types and functions.

Main definitions: `Variable.Declarable` and `Variable.WellSorted`. Main results:
`Schema.accepted_of_typing` and `Schema.Accepted.wellSorted`.
-/
import DepSchema.Proofs.Instantiation.Steady
import DepSchema.Proofs.Typing.Applications

namespace DepSchema

/-! ## §1. Variables one after the other. -/

/-- Nothing is substituted, and names can be introduced. -/
structure Checking.Ready (s : Checking) : Prop where
  outer : s.Outer
  unbound : ∀ n, s.substitution.find? n = none
  isOpen : s.scopes.frames ≠ []

/-- The state with some variables in scope. -/
def Checking.declare (s : Checking) (vars : List Variable) : Checking :=
  { s with scopes := vars.foldl (fun scopes v => scopes.bind v.name.name (.value v.type)) s.scopes }

namespace Checking

variable {s : Checking}

theorem declare_cons (v : Variable) (vars : List Variable) :
    s.declare (v :: vars) = (s.declare [v]).declare vars := rfl

theorem Ready.declare_one (hs : s.Ready) (v : Variable) : (s.declare [v]).Ready :=
  ⟨⟨hs.outer.notReading, hs.outer.isOpen⟩, hs.unbound, Scopes.bind_open hs.isOpen _ _⟩

theorem Ready.declare (hs : s.Ready) (vars : List Variable) : (s.declare vars).Ready := by
  induction vars generalizing s with
  | nil => exact hs
  | cons v vars ih => exact ih (hs.declare_one v)

end Checking

namespace Check

theorem bind_assoc {α β γ : Type} (x : Check α) (f : α → Check β) (g : β → Check γ) :
    (x >>= f) >>= g = x >>= fun a => f a >>= g := by
  funext c s
  simp only [bind]
  rcases x c s with ⟨d | a, t⟩ <;> rfl

end Check

namespace Typing

open Check

variable {c : Setting} {s : Checking}

theorem underCurrent_eq (hs : s.Ready) (type : TypeExpr) :
    underCurrent type c s = (.ok type, s) := by
  have happly : s.substitution.applyType type = .ok type := by
    rw [Substitution.applyType_eq_ok_iff]
    exact Substitution.apply_of_unbound fun n _ => hs.unbound n
  show ofSubstitution (s.substitution.applyType type) c s = _
  rw [ofSubstitution, happly]
  rfl

/-- **A variable is checked in the scope of those before it.** -/
theorem introduceVariables_cons_iff (hc : c.oracle = Structural.oracle) (hs : s.Ready)
    {v : Variable} {vars : List Variable} :
    (introduceVariables (v :: vars) c s).1 = .ok () ↔ (requireFormed v.type c s).1 = .ok ()
      ∧ (introduceVariables vars c (s.declare [v])).1 = .ok () := by
  show ((underCurrent v.type >>= fun type => requireFormed type >>= fun _ =>
    introduce v.name.name (.value type) >>= fun _ => introduceVariables vars) c s).1 = _ ↔ _
  rw [bind_ok (underCurrent_eq hs v.type)]
  rcases hrun : requireFormed v.type c s with ⟨d | u, t⟩
  · rw [bind_error hrun]
    exact ⟨nofun, fun h => by cases h.1⟩
  · rw [bind_ok hrun]
    have hstill := (stepwise_requireFormed v.type).quiet.still_of_run hs.outer.isOpen hrun
    have hagrees : (s.declare [v]).Agrees
        { t with scopes := t.scopes.bind v.name.name (.value v.type) } := by
      refine ⟨?_, hstill.substitution, hstill.readingInput⟩
      rw [hstill.scopes hs.outer.notReading]
      rfl
    have hforgets := (stepwise_introduceVariables vars).stepwise.forgets
      (hc ▸ Structural.forgetful : c.oracle.Forgetful) _ _ hagrees
    show (introduceVariables vars c _).1 = _ ↔ _
    rw [hforgets.1]
    exact (and_iff_right rfl).symm

theorem introduceVariables_append (vars others : List Variable) :
    introduceVariables (vars ++ others)
      = introduceVariables vars >>= fun _ => introduceVariables others := by
  induction vars with
  | nil => rfl
  | cons v vars ih =>
    show (underCurrent v.type >>= fun type => requireFormed type >>= fun _ =>
      introduce v.name.name (.value type) >>= fun _ => introduceVariables (vars ++ others)) = _
    rw [ih, introduceVariables]
    simp only [bind_assoc]

theorem introduceVariables_append_iff (hc : c.oracle = Structural.oracle) (vars : List Variable)
    {others : List Variable} : ∀ {s : Checking}, s.Ready →
      ((introduceVariables (vars ++ others) c s).1 = .ok () ↔
        (introduceVariables vars c s).1 = .ok ()
          ∧ (introduceVariables others c (s.declare vars)).1 = .ok ()) := by
  induction vars with
  | nil => exact fun _ => (and_iff_right rfl).symm
  | cons v vars ih =>
    intro s hs
    rw [List.cons_append, introduceVariables_cons_iff hc hs, introduceVariables_cons_iff hc hs,
      ih (hs.declare_one v), ← Checking.declare_cons, and_assoc]

/-- The parameters of a function that are values are introduced as dependencies are. -/
theorem introduceParameters_eq (vars : List Variable) :
    introduceParameters (vars.map Variable.toParameter) = introduceVariables vars := by
  induction vars with
  | nil => rfl
  | cons v vars ih =>
    show ((underCurrent v.type >>= fun type => requireFormed type >>= fun _ =>
      pure (.value type)) >>= fun b => introduce v.name.name b >>= fun _ =>
        introduceParameters (vars.map Variable.toParameter)) = _
    rw [ih, introduceVariables]
    simp only [bind_assoc]
    rfl

end Typing

/-! ## §2. Their sorts. -/

/-- The sorts of some variables are known, and those of others that are not hidden. -/
def Sorts.declare (Γ : Sorts) (vars : List Variable) : Sorts :=
  vars.foldl (fun Γ v => Γ.bind v.name.name v.type.sort?) Γ

/-- The type of each variable is one with parameters of the right sorts, in the scope of the
variables before it. -/
def Variable.WellSorted (s : Schema) : Sorts → List Variable → Prop
  | _, [] => True
  | Γ, v :: vs => v.type.toExpr.HasSort s Γ .type
      ∧ WellSorted s (Γ.bind v.name.name v.type.sort?) vs

theorem Variable.wellSorted_append {s : Schema} {others : List Variable} (vars : List Variable) :
    ∀ {Γ : Sorts}, WellSorted s Γ (vars ++ others)
      ↔ WellSorted s Γ vars ∧ WellSorted s (Γ.declare vars) others := by
  induction vars with
  | nil => exact (and_iff_right trivial).symm
  | cons v vars ih =>
    intro Γ
    rw [List.cons_append, WellSorted, WellSorted, ih, and_assoc]
    rfl

namespace Checking

variable {c : Setting} {s : Checking}

theorem find?_declare_one (hs : s.scopes.frames ≠ []) (v : Variable) (n : Symbol) :
    (s.declare [v]).scopes.find? n
      = if n = v.name.name then some (.value v.type) else s.scopes.find? n :=
  Scopes.find?_bind hs n v.name.name (.value v.type)

theorem sorts_declare_one (hs : s.scopes.frames ≠ []) (v : Variable) :
    (s.declare [v]).sorts = s.sorts.bind v.name.name v.type.sort? := by
  funext n
  unfold sorts Sorts.bind
  rw [find?_declare_one hs]
  by_cases hn : n = v.name.name
  · rw [if_pos hn, if_pos hn]
  · rw [if_neg hn, if_neg hn]

theorem sorts_declare (vars : List Variable) : ∀ {s : Checking}, s.Ready →
    (s.declare vars).sorts = s.sorts.declare vars := by
  induction vars with
  | nil => exact fun _ => rfl
  | cons v vars ih =>
    intro s hs
    rw [declare_cons, ih (hs.declare_one v), sorts_declare_one hs.isOpen]
    rfl

theorem Sorted.declare_one (h : s.Sorted c) (hs : s.scopes.frames ≠ []) {v : Variable}
    (hv : v.type.sort?.isSome = true) : (s.declare [v]).Sorted c := by
  refine ⟨⟨h.outer.notReading, h.outer.isOpen⟩, fun n type hfind => ?_, fun n ft hfind => ?_⟩ <;>
    rw [find?_declare_one hs] at hfind <;> split at hfind
  · cases hfind
    exact hv
  · exact h.values n type hfind
  · cases hfind
  · exact h.functions n ft hfind

end Checking

namespace Typing

variable {c : Setting}

/-- **Variables with steady types that pass have well-sorted types.** -/
theorem wellSorted_of_introduceVariables (hc : c.oracle = Structural.oracle)
    (hp : c.schema.Proper) {vars : List Variable} : ∀ {s : Checking}, s.Ready → s.Sorted c →
      (∀ v ∈ vars, v.type.sort?.isSome = true ∧ v.type.toExpr.steady c.schema = true) →
      (introduceVariables vars c s).1 = .ok () →
        Variable.WellSorted c.schema s.sorts vars := by
  induction vars with
  | nil => exact fun _ _ _ _ => trivial
  | cons v vars ih =>
    intro s hs hsort hvars h
    rw [List.forall_mem_cons] at hvars
    obtain ⟨hformed, hrest⟩ := (introduceVariables_cons_iff hc hs).mp h
    refine ⟨hasSort_of_requireFormed hc hp hsort _ rfl hvars.1.2 hformed, ?_⟩
    have hrest := ih (hs.declare_one v) (hsort.declare_one hs.isOpen hvars.1.1) hvars.2 hrest
    rwa [Checking.sorts_declare_one hs.isOpen] at hrest

end Typing

/-! ## §3. Schemas. -/

/-- Nothing is in scope, and names can be introduced. -/
structure Checking.Blank (s : Checking) : Prop extends s.Ready where
  empty : ∀ n, s.scopes.find? n = none

namespace Checking.Blank

variable {s : Checking}

theorem sorts (hs : s.Blank) : s.sorts = .none := by
  funext n
  unfold Checking.sorts
  rw [hs.empty n]
  rfl

theorem sorted (hs : s.Blank) (c : Setting) : s.Sorted c := by
  refine ⟨hs.outer, fun n type h => ?_, fun n ft h => ?_⟩ <;>
  · rw [hs.empty n] at h
    cases h

theorem opened (hs : s.Blank) : s.opened.Blank :=
  ⟨⟨⟨hs.outer.notReading, List.cons_ne_nil _ _⟩, hs.unbound, List.cons_ne_nil _ _⟩, hs.empty⟩

theorem of_fresh (hs : s.Fresh) : s.opened.Blank := by
  refine ⟨⟨⟨hs.readingInput, List.cons_ne_nil _ _⟩, fun n => ?_, List.cons_ne_nil _ _⟩, fun n => ?_⟩
  · show s.substitution.find? n = none
    rw [hs.substitution]
    rfl
  · show s.scopes.find? n = none
    rw [hs.scopes]
    rfl

/-- Nothing comes into scope in a check that closes what it opens. -/
theorem still (hs : s.Blank) {t : Checking} (h : s.Still t) : t.Blank := by
  have hscopes := h.scopes hs.outer.notReading
  refine ⟨⟨⟨h.readingInput.trans hs.outer.notReading, ?_⟩, fun n => ?_, ?_⟩, fun n => ?_⟩
  · rw [h.substitution]
    exact hs.outer.isOpen
  · rw [h.substitution]
    exact hs.unbound n
  · rw [hscopes]
    exact hs.isOpen
  · rw [hscopes]
    exact hs.empty n

end Checking.Blank

/-- The variables pass one after the other where nothing else is in scope. -/
def Variable.Declarable (c : Setting) (vars : List Variable) : Prop :=
  ∃ s : Checking, s.Blank ∧ (Typing.introduceVariables vars c s).1 = .ok ()

/-- The result of a function behind its parameters, as if it were declared there. -/
def FunctionDef.telescope (f : FunctionDef) (vars : List Variable) : List Variable :=
  vars ++ [⟨f.ident, f.result⟩]

/-- What the check of a schema leaves for its uses. -/
structure Schema.Accepted (s : Schema) : Prop extends s.Proper where
  deps : ∀ d ∈ s.types, Variable.Declarable ⟨s, Structural.oracle⟩ d.deps
  fields : ∀ d ∈ s.types, d.isFixed = true → ∀ ctor ∈ d.constructors,
    Variable.Declarable ⟨s, Structural.oracle⟩ (d.deps ++ ctor.fields)
  functions : ∀ f ∈ s.functions, ∀ vars, f.params = vars.map Variable.toParameter →
    Variable.Declarable ⟨s, Structural.oracle⟩ (f.telescope vars)
  apart : ∀ d ∈ s.types, ∀ ctor ∈ d.constructors,
    ∀ n ∈ Variable.names ctor.fields, n ∉ Variable.names d.deps

namespace Typing

open Check

variable {c : Setting} {s t : Checking}

theorem declarable_of_checkConstructors {cs : List Constructor} : ∀ {s t : Checking}, s.Blank →
    checkConstructors cs c s = (.ok (), t) → ∀ ctor ∈ cs, Variable.Declarable c ctor.fields := by
  induction cs with
  | nil => simp
  | cons ctor cs ih =>
    intro s t hs h
    obtain ⟨_, t₁, hfirst, h⟩ := bind_eq_ok h
    have hstill := (StepwiseInside.inScope (stepwise_introduceVariables ctor.fields)
      : StepwiseInside false _).quiet.still_of_run hs.outer.isOpen hfirst
    obtain ⟨t₂, hfields, -⟩ := inScope_eq_ok hfirst
    exact List.forall_mem_cons.mpr
      ⟨⟨s.opened, hs.opened, congrArg Prod.fst hfields⟩, ih (hs.still hstill) h⟩

/-- The rules of an enum without dependencies have no inputs. -/
theorem declarable_of_checkRules {e : Enum} (he : e.deps = []) {rules : List Rule} :
    ∀ {s t : Checking}, s.Blank → checkRules e rules c s = (.ok (), t) →
      ∀ r ∈ rules, ∀ ctor ∈ r.constructors, Variable.Declarable c ctor.fields := by
  induction rules with
  | nil => simp
  | cons rule rules ih =>
    intro s t hs h
    obtain ⟨_, t₁, hrule, h⟩ := bind_eq_ok h
    have hstill := (stepwise_checkRule e rule : StepwiseInside false _).quiet.still_of_run
      hs.outer.isOpen hrule
    refine List.forall_mem_cons.mpr ⟨?_, ih (hs.still hstill) h⟩
    unfold checkRule at hrule
    split at hrule
    · cases hrule
    · next hlength =>
      obtain ⟨t₂, hrun, -⟩ := inScope_eq_ok hrule
      rw [not_not, he, List.length_nil, List.length_eq_zero_iff] at hlength
      rw [hlength] at hrun
      obtain ⟨_, t₃, hinputs, hconstructors⟩ := bind_eq_ok hrun
      cases hinputs
      exact declarable_of_checkConstructors hs.opened hconstructors

theorem declarable_of_checkTypeDef {d : TypeDef} (h : Passed c (checkTypeDef d)) :
    Variable.Declarable c d.deps ∧ (d.isFixed = true → ∀ ctor ∈ d.constructors,
      Variable.Declarable c (d.deps ++ ctor.fields)) := by
  obtain ⟨s, hs, _, _, hrun⟩ := h
  obtain ⟨_, _, hbody, -⟩ := bind_eq_ok hrun
  obtain ⟨t, hbody, -⟩ := inScope_eq_ok hbody
  have hblank := Checking.Blank.of_fresh hs
  have hboth := hbody
  obtain ⟨_, t₁, hdeps, hbody⟩ := bind_eq_ok hbody
  refine ⟨⟨_, hblank, congrArg Prod.fst hdeps⟩, fun hfixed ctor hctor => ?_⟩
  cases d with
  | message m =>
    obtain rfl := List.mem_singleton.mp hctor
    refine ⟨_, hblank, ?_⟩
    rw [introduceVariables_append]
    exact congrArg Prod.fst hboth
  | enum e =>
    have he : e.deps = [] := List.isEmpty_iff.mp hfixed
    obtain ⟨r, hr, hctor⟩ := List.mem_flatMap.mp hctor
    have hdeps : introduceVariables e.deps c s.opened = (.ok (), t₁) := hdeps
    rw [he] at hdeps
    cases hdeps
    show Variable.Declarable c (e.deps ++ ctor.fields)
    rw [he]
    exact declarable_of_checkRules he hblank hbody r hr ctor hctor

theorem declarable_of_checkFunctionDef {f : FunctionDef} (h : Passed c (checkFunctionDef f))
    {vars : List Variable} (hparams : f.params = vars.map Variable.toParameter) :
    Variable.Declarable c (f.telescope vars) := by
  obtain ⟨s, hs, _, _, hrun⟩ := h
  obtain ⟨_, s', hnote, hrun⟩ := bind_eq_ok hrun
  have hs' : s'.Fresh := by
    cases hnote
    exact ⟨hs.scopes, hs.substitution, hs.readingInput⟩
  obtain ⟨t, hbody, -⟩ := inScope_eq_ok hrun
  obtain ⟨_, t₁, hvars, hbody⟩ := bind_eq_ok hbody
  obtain ⟨result, t₂, hunder, hbody⟩ := bind_eq_ok hbody
  obtain ⟨_, t₃, hformed, -⟩ := bind_eq_ok hbody
  rw [hparams, introduceParameters_eq] at hvars
  refine ⟨_, .of_fresh hs', ?_⟩
  rw [FunctionDef.telescope, introduceVariables_append, bind_ok hvars]
  show ((underCurrent f.result >>= fun type => requireFormed type >>= fun _ =>
    introduce f.ident.name (.value type) >>= fun _ => pure ()) c t₁).1 = _
  rw [bind_ok hunder, bind_ok hformed]
  rfl

end Typing

namespace Schema

variable {s : Schema}

/-- **A schema that passes is accepted**, with the order of its types in it. -/
theorem accepted_of_typing {t : SymbolTable} (hnames : s.nameFaults = []) {order : List Symbol}
    (horder : s.typeOrder t = .ok order)
    (hok : ((s.withOrder order).typing Structural.oracle).1 = .ok ()) :
    (s.withOrder order).Accepted := by
  have hkeyed := keyed_of_nameFaults hnames
  have htidy := tidy_of_nameFaults hnames
  have hformed := formed_of_typing hkeyed horder Structural.oracle hok
  obtain ⟨htypes, hfunctions⟩ := passed_of_typing hok
  have hall := ((ordered_of_typeOrder hkeyed.types horder).forall_iff
    (hkeyed.withOrder order)).mp htypes
  -- the order is no part of what the types mean
  have hback : ∀ {e : Expr}, e.FormedIn s → e.FormedIn (s.withOrder order) := fun {e} h =>
    (show e.FormedIn ((s.withOrder order).withOrder s.visitOrder) from h).of_order
  refine ⟨⟨fun n hn => type?_builtin hnames hn, ⟨htidy.constructors, htidy.fields⟩,
      ⟨fun d hd v hv => hback (hformed.deps d hd v hv),
        fun d hd ctor hctor v hv => hback (hformed.fields d hd ctor hctor v hv),
        fun f hf e he => hback (hformed.signatures f hf e he), hformed.inputs⟩⟩,
    fun d hd => (Typing.declarable_of_checkTypeDef (hall d hd)).1,
    fun d hd => (Typing.declarable_of_checkTypeDef (hall d hd)).2,
    fun f hf vars hparams => Typing.declarable_of_checkFunctionDef (hfunctions f hf) hparams,
    fun d hd ctor hctor => fields_apart_of_nameFaults hnames hd hctor⟩

/-- The types that the schema gives are steady, apart from those in enums with dependencies and in
functions with parameters that are functions. -/
structure Steady (s : Schema) : Prop where
  deps : ∀ d ∈ s.types, ∀ v ∈ d.deps, v.type.toExpr.steady s = true
  fields : ∀ d ∈ s.types, d.isFixed = true → ∀ ctor ∈ d.constructors, ∀ v ∈ ctor.fields,
    v.type.toExpr.steady s = true
  functions : ∀ f ∈ s.functions, ∀ vars, f.params = vars.map Variable.toParameter →
    ∀ v ∈ f.telescope vars, v.type.toExpr.steady s = true

/-- The types that the schema gives have parameters of the sorts of the dependencies, where they
stand. -/
structure WellSorted (s : Schema) : Prop where
  deps : ∀ d ∈ s.types, Variable.WellSorted s .none d.deps
  fields : ∀ d ∈ s.types, d.isFixed = true → ∀ ctor ∈ d.constructors,
    Variable.WellSorted s .none (d.deps ++ ctor.fields)
  functions : ∀ f ∈ s.functions, ∀ vars, f.params = vars.map Variable.toParameter →
    Variable.WellSorted s .none (f.telescope vars)

theorem wellSorted_of_declarable (h : s.Accepted) {vars : List Variable}
    (hvars : ∀ v ∈ vars, v.type.sort?.isSome = true ∧ v.type.toExpr.steady s = true)
    (hdeclared : Variable.Declarable ⟨s, Structural.oracle⟩ vars) :
    Variable.WellSorted s .none vars := by
  obtain ⟨u, hu, hok⟩ := hdeclared
  have hsorted := Typing.wellSorted_of_introduceVariables (c := ⟨s, Structural.oracle⟩) rfl
    h.toProper hu.toReady (hu.sorted _) hvars hok
  rwa [hu.sorts] at hsorted

/-- **An accepted schema whose types are steady is well-sorted.** -/
theorem Accepted.wellSorted (h : s.Accepted) (hsteady : s.Steady) : s.WellSorted := by
  have hdeps : ∀ d ∈ s.types, ∀ v ∈ d.deps,
      v.type.sort?.isSome = true ∧ v.type.toExpr.steady s = true := fun d hd v hv =>
    ⟨(h.formed.deps d hd v hv).sort?_isSome, hsteady.deps d hd v hv⟩
  refine ⟨fun d hd => ?_, fun d hd hfixed ctor hctor => ?_, fun f hf vars hparams => ?_⟩
  · exact wellSorted_of_declarable h (hdeps d hd) (h.deps d hd)
  · refine wellSorted_of_declarable h (fun v hv => ?_) (h.fields d hd hfixed ctor hctor)
    rcases List.mem_append.mp hv with hv | hv
    · exact hdeps d hd v hv
    · exact ⟨(h.formed.fields d hd ctor hctor v hv).sort?_isSome,
        hsteady.fields d hd hfixed ctor hctor v hv⟩
  · refine wellSorted_of_declarable h (fun v hv => ?_) (h.functions f hf vars hparams)
    obtain ⟨hvars, hresult⟩ := h.sort?_of_function hf hparams
    refine ⟨?_, hsteady.functions f hf vars hparams v hv⟩
    rcases List.mem_append.mp hv with hv | hv
    · exact hvars v hv
    · rw [List.mem_singleton.mp hv]
      exact hresult

end Schema

end DepSchema
