/-
DepSchema.Proofs.Typing.Applications — the type of a full application belongs to the caller.

The result type of a function may mention its parameters. Where the function is applied to as many
arguments as it has parameters, each parameter stands for its argument, and none of them is left
among the variables of the type. What else the result type mentions was looked up when the function
was checked: variables and callees that are no parameters are functions of the schema. Nobody looked
at the operands of `in`, though, so that names of any kind may stand there, and a parameter that is
a function is replaced where it is passed on, but not where it is called.

Main definition: `Expr.memberRefs`. Main results: `Typing.uses_of_checkFunctionDef`,
`Typing.refs_of_callType` and `Schema.refs_of_application`; what is left is in
`Schema.application_limited` and `Schema.application_calling`.
-/
import DepSchema.Proofs.Dispatch.Selection
import DepSchema.Proofs.Queries.Locals
import DepSchema.Proofs.Runs
import DepSchema.Proofs.Substitution.Composition
import DepSchema.Proofs.Typing.Found
import DepSchema.Proofs.Vocabulary.Exposed

namespace DepSchema

/-! ## §1. The operands of `in`. -/

namespace Expr

mutual

/-- The references in the operands of `in`, at any depth. -/
def memberRefs : Expr → List Reference
  | binary _ op l r => if op = .mem then refs l ++ refs r else memberRefs l ++ memberRefs r
  | unary _ _ x => memberRefs x
  | type _ _ ps => memberRefsAll ps
  | access _ => []
  | scalar _ _ => []
  | constructed _ _ fs => memberRefsFields fs
  | collection _ es => memberRefsAll es
  | call _ _ as => memberRefsAll as
termination_by structural e => e

/-- The same for several expressions. -/
def memberRefsAll : List Expr → List Reference
  | [] => []
  | e :: es => memberRefs e ++ memberRefsAll es
termination_by structural es => es

/-- The same for the values of several fields. -/
def memberRefsFields : List (Named Expr) → List Reference
  | [] => []
  | f :: fs => memberRefs f.val ++ memberRefsFields fs
termination_by structural fs => fs

end

variable {r : Reference}

mutual

/-- **What an expression refers to is used by it, or stands in an operand of `in`.** -/
theorem uses_or_memberRefs : ∀ {e : Expr}, r ∈ e.refs → r ∈ e.uses false ∨ r ∈ e.memberRefs
  | .binary _ op l r', h => by
    unfold uses memberRefs
    by_cases hop : op = .mem
    · rw [if_pos hop, if_pos hop]
      exact .inr h
    · rw [if_neg hop, if_neg hop]
      rcases List.mem_append.mp h with h | h
      · exact (uses_or_memberRefs h).imp (List.mem_append_left _) (List.mem_append_left _)
      · exact (uses_or_memberRefs h).imp (List.mem_append_right _) (List.mem_append_right _)
  | .unary _ _ x, h => uses_or_memberRefs (e := x) h
  | .type _ _ ps, h => by
    rcases List.mem_cons.mp h with rfl | h
    · exact .inl List.mem_cons_self
    · exact (usesAll_or_memberRefsAll (l := ps) h).imp_left (List.mem_cons_of_mem _)
  | .access _, h => .inl h
  | .scalar _ _, h => .inl h
  | .constructed _ _ fs, h => by
    rcases List.mem_cons.mp h with rfl | h
    · exact .inl List.mem_cons_self
    · exact (usesFields_or_memberRefsFields (l := fs) h).imp_left (List.mem_cons_of_mem _)
  | .collection _ es, h => usesAll_or_memberRefsAll (l := es) h
  | .call _ _ as, h => by
    rcases List.mem_cons.mp h with rfl | h
    · exact .inl List.mem_cons_self
    · exact (usesAll_or_memberRefsAll (l := as) h).imp_left (List.mem_cons_of_mem _)

theorem usesAll_or_memberRefsAll : ∀ {l : List Expr}, r ∈ refsAll l →
    r ∈ usesAll false l ∨ r ∈ memberRefsAll l
  | [], h => .inl h
  | e :: es, h => by
    rcases List.mem_append.mp h with h | h
    · exact (uses_or_memberRefs h).imp (List.mem_append_left _) (List.mem_append_left _)
    · exact (usesAll_or_memberRefsAll h).imp (List.mem_append_right _) (List.mem_append_right _)

theorem usesFields_or_memberRefsFields : ∀ {l : List (Named Expr)}, r ∈ refsFields l →
    r ∈ usesFields false l ∨ r ∈ memberRefsFields l
  | [], h => .inl h
  | f :: fs, h => by
    rcases List.mem_append.mp h with h | h
    · exact (uses_or_memberRefs h).imp (List.mem_append_left _) (List.mem_append_left _)
    · exact (usesFields_or_memberRefsFields h).imp (List.mem_append_right _)
        (List.mem_append_right _)

end

end Expr

/-! ## §2. The result type of a function. -/

/-- The parameter is a function. -/
def ParameterType.isFunction : ParameterType → Bool
  | value _ => false
  | function _ _ => true

namespace FunctionDef

/-- The names of the parameters. -/
def paramNames (f : FunctionDef) : List Symbol := f.params.map fun p => p.name.name

/-- The names of the parameters that are functions. -/
def functionParams (f : FunctionDef) : List Symbol :=
  (f.params.filter fun p => p.val.isFunction).map fun p => p.name.name

/-- What the result type of a function may use: as variables the parameters and the functions of
the schema, as callees those that are functions. -/
def available (s : Schema) (f : FunctionDef) : Vocabulary
  | .var n => n ∈ f.paramNames ∨ (s.function? n).isSome = true
  | .callee n => n ∈ f.functionParams ∨ (s.function? n).isSome = true
  | _ => True

end FunctionDef

namespace Typing

open Check

variable {c : Setting}

theorem isFunction_of_checkParameter {p : ParameterType} {s t : Checking} {b : Binding}
    (h : checkParameter p c s = (.ok b, t)) {ft : FunctionType} (hb : b = .function ft) :
    p.isFunction = true := by
  cases p with
  | function ps result => rfl
  | value type =>
    obtain ⟨_, _, -, h⟩ := bind_eq_ok h
    obtain ⟨_, _, -, h⟩ := bind_eq_ok h
    cases h
    cases hb

/-- What is bound by parameters that passed, besides what was bound before. -/
theorem bound_of_introduceParameters : ∀ {ps : List Parameter} {s t : Checking},
    Unbound s → s.readingInput = false → s.scopes.frames ≠ [] →
      introduceParameters ps c s = (.ok (), t) → ∀ n b, t.scopes.find? n = some b →
        s.scopes.find? n = some b
          ∨ ∃ p ∈ ps, p.name.name = n ∧ ∀ ft, b = .function ft → p.val.isFunction = true
  | [], s, t, _, _, _, h, n, b, hb => by
    cases h
    exact .inl hb
  | p :: ps, s, t, hs, hreading, hopen, h, n, b, hb => by
    obtain ⟨binding, t₁, hp, h⟩ := bind_eq_ok h
    obtain ⟨_, t₂, hintroduce, h⟩ := bind_eq_ok h
    have hstill := (stepwise_checkParameter p.val).quiet.still_of_run hs.1 hp
    cases hintroduce
    -- the binding is the only change
    have hscopes : t₁.scopes = s.scopes := hstill.scopes hreading
    have hunbound : Unbound { t₁ with scopes := t₁.scopes.bind p.name.name binding } := by
      unfold Unbound
      rw [hstill.substitution]
      exact hs
    have hopen₂ : (t₁.scopes.bind p.name.name binding).frames ≠ [] :=
      Scopes.bind_open (hscopes ▸ hopen) _ _
    have hrest :=
      bound_of_introduceParameters hunbound (hstill.readingInput.trans hreading) hopen₂ h
    rcases hrest n b hb with hbefore | ⟨q, hq, hname, hfunction⟩
    · rw [Scopes.find?_bind (hscopes ▸ hopen)] at hbefore
      split at hbefore
      · next hname =>
        cases hbefore
        exact .inr ⟨p, List.mem_cons_self, hname.symm,
          fun ft hft => isFunction_of_checkParameter hp hft⟩
      · exact .inl (hscopes ▸ hbefore)
    · exact .inr ⟨q, List.mem_cons_of_mem _ hq, hname, hfunction⟩

/-- What is found where the parameters are bound is available. -/
theorem found_le_available {f : FunctionDef} {s : Schema} {scopes : Scopes Binding}
    (h : ∀ n b, scopes.find? n = some b → ∃ p ∈ f.params, p.name.name = n
      ∧ ∀ ft, b = .function ft → p.val.isFunction = true) :
    Vocabulary.found s scopes ≤ f.available s := by
  intro r hr
  cases r with
  | var n =>
    refine hr.imp_left fun hcontains => ?_
    obtain ⟨b, hb⟩ := Option.isSome_iff_exists.mp hcontains
    obtain ⟨p, hp, rfl, -⟩ := h n b hb
    exact List.mem_map_of_mem hp
  | callee n =>
    refine hr.imp_left fun hfunction => ?_
    obtain ⟨ft, hft⟩ := hfunction
    obtain ⟨p, hp, rfl, hisFunction⟩ := h n _ hft
    exact List.mem_map_of_mem (List.mem_filter.mpr ⟨hp, hisFunction ft rfl⟩)
  | _ => trivial

/-- **The result type of a function that passed uses nothing but parameters and functions.** -/
theorem uses_of_checkFunctionDef (hs : c.schema.Tidy) {f : FunctionDef}
    (h : Passed c (checkFunctionDef f)) :
    f.result.toExpr.Uses false (f.available c.schema) := by
  obtain ⟨s, hfresh, _, _, hrun⟩ := h
  obtain ⟨_, s', hnote, hrun⟩ := bind_eq_ok hrun
  have hfresh' : s'.Fresh := by
    cases hnote
    exact ⟨hfresh.scopes, hfresh.substitution, hfresh.readingInput⟩
  obtain ⟨_, hbody, -⟩ := inScope_eq_ok hrun
  obtain ⟨_, t₁, hparams, hbody⟩ := bind_eq_ok hbody
  obtain ⟨result, t₂, hunder, hbody⟩ := bind_eq_ok hbody
  obtain ⟨_, _, hresult, -⟩ := bind_eq_ok hbody
  obtain ⟨ht₁, -⟩ := formed_of_introduceParameters (unbound_opened hfresh') hparams
  obtain ⟨happly, hsame⟩ := applyType_of_underCurrent hunder
  rw [hsame] at hresult
  -- nothing is substituted in the result type
  have hself : result = f.result := by
    obtain ⟨ps, hps, rfl⟩ := Substitution.of_applyType happly
    rw [Substitution.applyAll_of_unbound fun n _ => ht₁.2 n] at hps
    cases hps
    rfl
  subst hself
  have hlooks : t₁.LooksIn t₁.scopes := by
    have houtside := (stepwise_introduceParameters f.params).framed.outside_of_run
      (unbound_opened hfresh').1 hparams
    exact ⟨rfl, houtside.readingInput.trans hfresh'.readingInput, ht₁.1⟩
  have huses := (ensures_requireFormed hs f.result t₁ hlooks () _ hresult).1
  refine huses.mono (found_le_available fun n b hb => ?_)
  rcases bound_of_introduceParameters (unbound_opened hfresh') hfresh'.readingInput
    (List.cons_ne_nil _ _) hparams n b hb with hbefore | hparam
  · -- there was nothing in scope before
    have hnone : s'.opened.scopes.find? n = none := by
      show s'.scopes.push.find? n = none
      rw [hfresh'.scopes]
      rfl
    rw [hnone] at hbefore
    cases hbefore
  · exact hparam

/-! ## §3. Applications. -/

/-- Arguments for all parameters: no parameter is left, and all of them are replaced. -/
theorem covers_of_checkArguments {V W : Vocabulary} :
    ∀ {args : List Expr} {ps : List Parameter} {σ σ' : Substitution} {rest : List Parameter}
      {s t : Checking}, args.length = ps.length → (∀ a ∈ args, a.Within W) → σ.Covers V W →
      σ.scopes.frames ≠ [] → checkArguments args σ ps c s = (.ok (σ', rest), t) →
        rest = [] ∧ σ'.Covers (V.adding (ps.map fun p => p.name.name)) W
  | [], [], σ, _, _, _, _, _, _, hcovers, _, h => by
    cases h
    exact ⟨rfl, by simpa using hcovers⟩
  | [], _ :: _, _, _, _, _, _, hcount, _, _, _, _ => by cases hcount
  | _ :: _, [], _, _, _, _, _, hcount, _, _, _, _ => by cases hcount
  | arg :: args, p :: ps, σ, σ', rest, s, t, hcount, hargs, hcovers, hopen, h => by
    rw [List.forall_mem_cons] at hargs
    -- the argument is checked in one way or the other, and then bound
    obtain ⟨s', h⟩ : ∃ s',
        checkArguments args (σ.bind p.name.name arg) ps c s' = (.ok (σ', rest), t) := by
      obtain ⟨name, type⟩ := p
      cases type with
      | value type =>
        obtain ⟨_, _, -, h⟩ := bind_eq_ok h
        obtain ⟨_, s', -, h⟩ := bind_eq_ok h
        exact ⟨s', h⟩
      | function qs result =>
        obtain ⟨_, _, -, h⟩ := bind_eq_ok h
        obtain ⟨_, _, -, h⟩ := bind_eq_ok h
        obtain ⟨_, s', -, h⟩ := bind_eq_ok h
        exact ⟨s', h⟩
    obtain ⟨hrest, hall⟩ := covers_of_checkArguments (Nat.succ.inj hcount) hargs.2
      (hcovers.bind hopen hargs.1) (Substitution.bind_open hopen _ _) h
    rw [Vocabulary.adding_adding] at hall
    exact ⟨hrest, hall⟩

/-- A function that no name in scope hides is called with its own signature. -/
theorem signature_of_calleeType {f : FunctionDef} (hf : c.schema.function? f.name = some f)
    {callee : Ident} (hname : callee.name = f.name) {s t : Checking}
    (hlocal : ∀ ft, s.scopes.find? f.name ≠ some (.function ft)) {ft : FunctionType}
    (h : calleeType callee c s = (.ok ft, t)) : ft = f.signature := by
  obtain ⟨m, s', hm, h⟩ := bind_eq_ok h
  cases hm
  rw [hname] at h
  cases hfind : s.scopes.find? f.name with
  | some b =>
    rw [hfind] at h
    cases b with
    | value type => cases h
    | function ft' => exact absurd hfind (hlocal ft')
  | none =>
    rw [hfind] at h
    obtain ⟨_, _, hschema, h⟩ := bind_eq_ok (x := schema) h
    cases hschema
    obtain ⟨g, _, hg, h⟩ := bind_eq_ok h
    rw [(getSome_eq_ok hg).1] at hf
    cases hf
    cases h
    rfl

/-- **The type of a full application** refers to nothing but what the arguments refer to and what
the result type refers to, where the variables are no parameters. -/
theorem refs_of_callType {f : FunctionDef} (hf : c.schema.function? f.name = some f) {span : Span}
    {callee : Ident} (hname : callee.name = f.name) {args : List Expr}
    (hcount : args.length = f.params.length) {s t : Checking}
    (hlocal : ∀ ft, s.scopes.find? f.name ≠ some (.function ft)) {b : Binding}
    (h : callType span callee args.length (checkArguments args .empty) c s = (.ok b, t)) :
    ∃ type, b = .value type ∧ ∀ r ∈ type.toExpr.refs, (∃ a ∈ args, r ∈ a.refs)
      ∨ r ∈ f.result.toExpr.refs ∧ ∀ n, r = .var n → n ∉ f.paramNames := by
  obtain ⟨signature, s₁, hcallee, h⟩ := bind_eq_ok h
  obtain rfl := signature_of_calleeType hf hname hlocal hcallee
  obtain ⟨-, h⟩ := guard_eq_ok h
  obtain ⟨⟨σ, remaining⟩, s₂, harguments, h⟩ := bind_eq_ok h
  obtain ⟨type, s₃, hunder, h⟩ := bind_eq_ok h
  -- what is left of the result type, and what comes with the arguments
  let V : Vocabulary := fun r => r ∈ f.result.toExpr.refs ∧ ∀ n, r = .var n → n ∉ f.paramNames
  let W : Vocabulary := fun r => (∃ a ∈ args, r ∈ a.refs) ∨ V r
  obtain ⟨rfl, hcovers⟩ : remaining = [] ∧ σ.Covers (V.adding f.paramNames) W :=
    covers_of_checkArguments hcount (fun a ha r hr => .inl ⟨a, ha, hr⟩)
      (.empty fun _ hr => .inr hr) Substitution.empty_open harguments
  cases h
  refine ⟨type, rfl, hcovers.applyType (fun r hr => ?_) (under_eq_ok hunder).1⟩
  by_cases hparam : ∃ n, r = .var n ∧ n ∈ f.paramNames
  · exact .inr hparam
  · exact .inl ⟨hr, fun n hn hmem => hparam ⟨n, hn, hmem⟩⟩

end Typing

/-! ## §4. Schemas that are accepted. -/

namespace Schema

open Check Typing

variable {t : SymbolTable} {oracle : Oracle} {s : Schema}

/-- A run with any oracle passes all three stages or none. -/
theorem typing_of_checkWith (h : (s.checkWith t oracle).result = .ok ()) :
    s.nameFaults = [] ∧ ∃ order, s.typeOrder t = .ok order
      ∧ ((s.withOrder order).typing oracle).1 = .ok () := by
  by_cases hnames : s.nameFaults = []
  · refine ⟨hnames, ?_⟩
    cases horder : s.typeOrder t with
    | error d =>
      rw [checkWith_of_cycle hnames horder] at h
      cases h
    | ok order =>
      refine ⟨order, rfl, ?_⟩
      rw [checkWith_of_order hnames horder, (typeStage_eq _ _ _).2.2] at h
      cases htyping : ((s.withOrder order).typing oracle).1 with
      | error d =>
        rw [htyping] at h
        cases h
      | ok u => rfl
  · rw [checkWith_of_faults hnames] at h
    cases h

/-- A run that passes all three stages keeps the schema with the order that it found. -/
theorem checkWith_of_typing (hnames : s.nameFaults = []) {order : List Symbol}
    (horder : s.typeOrder t = .ok order)
    (htyping : ((s.withOrder order).typing oracle).1 = .ok ()) :
    (s.checkWith t oracle).result = .ok ()
      ∧ (s.checkWith t oracle).schema = s.withOrder order := by
  obtain ⟨hschema, -, hresult⟩ :=
    typeStage_eq (s.withOrder order) oracle (s.resolution ++ s.orderEvents t)
  rw [checkWith_of_order hnames horder, hschema, hresult, htyping]
  exact ⟨rfl, rfl⟩

/-- A variable in the result type is a parameter, or declared everywhere, or an earlier field of a
constructed value around it. -/
theorem declared_of_result (h : s.nameFaults = []) {f : FunctionDef} (hf : f ∈ s.functions)
    {n : Symbol} (hn : n ∈ f.result.toExpr.vars) :
    n ∈ f.paramNames ∨ s.globals n = true ∨ n ∈ f.result.toExpr.ownFields := by
  obtain ⟨-, -, -, hfunctions⟩ := nameFaults_eq_nil.mp h
  obtain ⟨hsignature, -⟩ := List.append_eq_nil_iff.mp (List.flatMap_eq_nil_iff.mp hfunctions f hf)
  obtain ⟨-, hresult⟩ := List.append_eq_nil_iff.mp hsignature
  rcases Expr.declared_of_faults hresult hn with hdeclared | hown
  · rcases Bool.or_eq_true_iff.mp hdeclared with hparam | hglobal
    · exact .inl (List.contains_iff_mem.mp hparam)
    · exact .inr (.inl hglobal)
  · exact .inr (.inr hown)

/-- **The type of a full application belongs to the caller**, in a schema that is accepted. Each
variable in it occurs in an argument, or it is no parameter of the function and a function of the
schema; each callee in it occurs in an argument or is a function of the schema. In the operands of
`in` of the result type other names that are declared everywhere may stand for variables, and the
fields of constructed values there. Nothing is said about callees in these operands, nor about
parameters that the result type calls. -/
theorem refs_of_application (hs : (s.checkWith t oracle).result = .ok ()) {f : FunctionDef}
    (hf : f ∈ s.functions) {c : Setting} (hc : c.schema.functions = s.functions) {span : Span}
    {callee : Ident} (hname : callee.name = f.name) {args : List Expr}
    (hcount : args.length = f.params.length) {u v : Checking}
    (hlocal : ∀ ft, u.scopes.find? f.name ≠ some (.function ft)) {b : Binding}
    (hrun : callType span callee args.length (checkArguments args .empty) c u = (.ok b, v)) :
    ∃ type, b = .value type
      ∧ (∀ n ∈ type.toExpr.vars, (∃ a ∈ args, n ∈ a.vars)
          ∨ n ∉ f.paramNames
            ∧ ((s.function? n).isSome = true
              ∨ .var n ∈ f.result.toExpr.memberRefs
                ∧ (s.globals n = true ∨ n ∈ f.result.toExpr.ownFields)))
      ∧ ∀ n, .callee n ∈ type.toExpr.refs → (∃ a ∈ args, .callee n ∈ a.refs)
          ∨ (s.function? n).isSome = true ∨ .callee n ∈ f.result.toExpr.memberRefs
          ∨ n ∈ f.functionParams ∧ .callee n ∈ f.result.toExpr.refs := by
  obtain ⟨hnames, order, -, htyping⟩ := typing_of_checkWith hs
  have hfunction : c.schema.function? f.name = some f := by
    rw [function?, hc]
    exact (keyed_of_nameFaults hnames).function?_eq_some.mpr ⟨hf, rfl⟩
  obtain ⟨type, rfl, hrefs⟩ := refs_of_callType hfunction hname hcount hlocal hrun
  -- what the result type refers to was found, or stands in an operand of `in`
  have havailable : ∀ r ∈ f.result.toExpr.refs,
      f.available s r ∨ r ∈ f.result.toExpr.memberRefs := by
    intro r hr
    have htidy : (s.withOrder order).Tidy := tidy_of_nameFaults hnames
    have huses := uses_of_checkFunctionDef htidy ((passed_of_typing htyping).2 f hf)
    exact (Expr.uses_or_memberRefs hr).imp_left (huses r)
  refine ⟨type, rfl, fun n hn => ?_, fun n hn => ?_⟩
  · rcases hrefs _ (Expr.mem_vars.mp hn) with ⟨a, ha, hvar⟩ | ⟨hresult, hparam⟩
    · exact .inl ⟨a, ha, Expr.mem_vars.mpr hvar⟩
    · have hnot := hparam n rfl
      rcases havailable _ hresult with (hmem | hfound) | hmember
      · exact absurd hmem hnot
      · exact .inr ⟨hnot, .inl hfound⟩
      · have hdeclared := declared_of_result hnames hf (Expr.mem_vars.mpr hresult)
        exact .inr ⟨hnot, .inr ⟨hmember, hdeclared.resolve_left hnot⟩⟩
  · rcases hrefs _ hn with harg | ⟨hresult, -⟩
    · exact .inl harg
    · rcases havailable _ hresult with (hmem | hfound) | hmember
      · exact .inr (.inr (.inr ⟨hmem, hresult⟩))
      · exact .inr (.inl hfound)
      · exact .inr (.inr (.inl hmember))

/-! ## Three result types. -/

namespace Example

/-- The function 10, which has the parameters 11 and 12 and the result type `7(11 + 9(12))`. -/
def shifted : FunctionDef :=
  ⟨ident 10, [param 11 (type 0 []), param 12 (type 0 [])],
    type 7 [.binary ⟨0, 0⟩ .add (var 11) (.call ⟨0, 0⟩ (ident 9) [var 12])], none⟩

/-- The message 7 depends on a number, and 9 is a function between numbers. -/
def shifting : List Declaration :=
  [.type (.message ⟨ident 7, [field 8 0 []], []⟩),
    .function ⟨ident 9, [param 11 (type 0 [])], type 0 [], none⟩, .function shifted]

/-- The type `7(13 + 9(9(2)))`. -/
def shiftedType : TypeExpr :=
  type 7 [.binary ⟨0, 0⟩ .add (var 13) (.call ⟨0, 0⟩ (ident 9) [.call ⟨0, 0⟩ (ident 9) [int 2]])]

/-- The function 10, which has the parameter 11 and the result type `8(11 in 7)`. -/
def limited : FunctionDef :=
  ⟨ident 10, [param 11 (type 0 [])], type 8 [.binary ⟨0, 0⟩ .mem (var 11) (var 7)], none⟩

/-- The message 8 depends on a truth value, and 7 is a message. -/
def limits : List Declaration :=
  [.type (.message ⟨ident 7, [], []⟩), .type (.message ⟨ident 8, [field 9 3 []], []⟩),
    .function limited]

/-- The function 10 has the parameter 12, a function between numbers as 9 is, and the result type
`7(12(1))`. -/
def calling : List Declaration :=
  [.type (.message ⟨ident 7, [field 8 0 []], []⟩),
    .function ⟨ident 9, [param 11 (type 0 [])], type 0 [], none⟩,
    .function ⟨ident 10, [⟨ident 12, .function [⟨ident 13, .value (type 0 [])⟩] (type 0 [])⟩],
      type 7 [.call ⟨0, 0⟩ (ident 12) [int 1]], none⟩]

end Example

open Example

/-- The type of `10(13, 9(2))` is `7(13 + 9(9(2)))`, for a number 13 in scope: a variable of the
caller, and a function of the schema. -/
theorem application_shifted :
    let s := ofDeclarations shifting
    let args := [var 13, .call ⟨0, 0⟩ (ident 9) [int 2]]
    let u : Checking := ⟨Scopes.single.bind ⟨13⟩ (.value (type 0 [])), .empty, false, [], []⟩
    (s.checkWith names Structural.oracle).result = .ok ()
      ∧ (callType ⟨0, 0⟩ (ident 10) 2 (checkArguments args .empty) ⟨s, Structural.oracle⟩ u).1
        = .ok (.value shiftedType)
      ∧ ∀ n ∈ shiftedType.toExpr.vars, n ∉ shifted.paramNames := by
  intro s args u
  have hs : (s.checkWith names Structural.oracle).result = .ok () := by cbv
  have hrun : (callType ⟨0, 0⟩ (ident 10) 2 (checkArguments args .empty)
      ⟨s, Structural.oracle⟩ u).1 = .ok (.value shiftedType) := by cbv
  have hf : shifted ∈ s.functions := by
    have hfunction : s.function? ⟨10⟩ = some shifted := by cbv
    exact List.mem_of_find?_eq_some hfunction
  refine ⟨hs, hrun, ?_⟩
  have hlocal : ∀ ft, u.scopes.find? shifted.name ≠ some (.function ft) := by
    intro ft h
    have hnone : u.scopes.find? ⟨10⟩ = none := by cbv
    rw [show shifted.name = ⟨10⟩ from rfl, hnone] at h
    cases h
  have hwhole : callType ⟨0, 0⟩ (ident 10) args.length (checkArguments args .empty)
      ⟨s, Structural.oracle⟩ u = (.ok (.value shiftedType), _) := Prod.ext hrun rfl
  obtain ⟨type, hvalue, hvars, -⟩ := refs_of_application hs hf rfl rfl rfl hlocal hwhole
  cases hvalue
  refine fun n hn => ?_
  rcases hvars n hn with ⟨a, ha, hmem⟩ | ⟨hnot, -⟩
  · -- the arguments have no variable but 13
    have hargs : ∀ a ∈ args, ∀ m ∈ a.vars, m ∉ shifted.paramNames := by decide
    exact hargs a ha n hmem
  · exact hnot

/-- **A name of the callee's schema is left in an operand of `in`**: the type of `10(1)` is
`8(1 in 7)`, where the variable 7 occurs in no argument and is a message and no function. -/
theorem application_limited :
    let s := ofDeclarations limits
    let type := type 8 [.binary ⟨0, 0⟩ .mem (int 1) (var 7)]
    (s.checkWith names Structural.oracle).result = .ok ()
      ∧ s.function? ⟨10⟩ = some limited
      ∧ (callType ⟨0, 0⟩ (ident 10) 1 (checkArguments [int 1] .empty)
        ⟨s, Structural.oracle⟩ .start).1 = .ok (.value type)
      ∧ ⟨7⟩ ∈ type.toExpr.vars ∧ (∀ a ∈ [int 1], ⟨7⟩ ∉ a.vars)
      ∧ (s.function? ⟨7⟩).isSome = false := by
  intro s type
  refine ⟨?_, ?_, ?_, List.mem_singleton_self _, ?_, ?_⟩
  · cbv
  · cbv
  · cbv
  · exact List.forall_mem_singleton.mpr List.not_mem_nil
  · cbv

/-- **A parameter that is called is left**: the type of `10(9)` is `7(12(1))`, and 12 is the
parameter of 10 that stands for 9. -/
theorem application_calling :
    let s := ofDeclarations calling
    (s.checkWith names Structural.oracle).result = .ok ()
      ∧ (callType ⟨0, 0⟩ (ident 10) 1 (checkArguments [var 9] .empty)
        ⟨s, Structural.oracle⟩ .start).1
        = .ok (.value (type 7 [.call ⟨0, 0⟩ (ident 12) [int 1]])) := by
  intro s
  constructor
  · cbv
  · cbv

end Schema

end DepSchema
