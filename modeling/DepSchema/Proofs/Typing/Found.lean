/-
DepSchema.Proofs.Typing.Found — what a check has looked up is there.

A check that passes has found every name that it looked up: variables in scope, callees in scope or
among the functions of the schema, and a variable that is passed on as a function in either place.
What an expression uses is what its check looks up, so that an expression that passed uses nothing
but what was found. The operands of `in` are not used, and nothing is said about them.

Main definitions: `Vocabulary.found` and `Check.Ensures`. Main results: `ensures_checkValue` and
`ensures_requireFormedExpr`.
-/
import DepSchema.Proofs.Names.Tidy
import DepSchema.Proofs.Names.Uses
import DepSchema.Proofs.Typing.Formed

namespace DepSchema

/-! ## §1. What is found. -/

/-- What the checks of values find: variables in scope, functions in scope, and those of the schema.
Types and constructors are not asked for. -/
def Vocabulary.found (s : Schema) (scopes : Scopes Binding) : Vocabulary
  | .var n => scopes.contains n = true ∨ (s.function? n).isSome = true
  | .callee n => (∃ ft, scopes.find? n = some (.function ft)) ∨ (s.function? n).isSome = true
  | _ => True

/-- What may be called may be passed on. -/
theorem Vocabulary.found_var {s : Schema} {scopes : Scopes Binding} {n : Symbol}
    (h : found s scopes (.callee n)) : found s scopes (.var n) := by
  refine h.imp_left fun hfunction => ?_
  obtain ⟨ft, hft⟩ := hfunction
  rw [Scopes.contains, hft]
  rfl

/-- Names are looked up in these scopes, and no rule input is being read. -/
structure Checking.LooksIn (scopes : Scopes Binding) (t : Checking) : Prop where
  scopes : t.scopes = scopes
  readingInput : t.readingInput = false
  isOpen : t.substitution.scopes.frames ≠ []

namespace Check

variable {α β : Type} {c : Setting} {scopes : Scopes Binding} {P : α → Prop} {Q : β → Prop}

/-- The check leaves the scopes alone, and what it gives has the property `P`. -/
def Ensures (c : Setting) (scopes : Scopes Binding) (x : Check α) (P : α → Prop) : Prop :=
  ∀ t, t.LooksIn scopes → ∀ a u, x c t = (.ok a, u) → P a ∧ u.LooksIn scopes

namespace Ensures

/-- A quiet check has only to be looked at for what it gives. -/
theorem of_quiet {x : Check α} (hx : x.Quiet)
    (h : ∀ t a u, t.LooksIn scopes → x c t = (.ok a, u) → P a) : Ensures c scopes x P := by
  intro t ht a u hrun
  have hstill := hx.still_of_run ht.isOpen hrun
  refine ⟨h t a u ht hrun, ?_, ?_, ?_⟩
  · rw [hstill.scopes ht.readingInput, ht.scopes]
  · rw [hstill.readingInput, ht.readingInput]
  · rw [hstill.substitution]
    exact ht.isOpen

theorem quiet {x : Check α} (hx : x.Quiet) : Ensures c scopes x fun _ => True :=
  of_quiet hx fun _ _ _ _ _ => trivial

theorem mono {x : Check α} {P' : α → Prop} (h : Ensures c scopes x P) (hP : ∀ a, P a → P' a) :
    Ensures c scopes x P' :=
  fun t ht a u hrun => (h t ht a u hrun).imp_left (hP a)

theorem pure {a : α} (h : P a) : Ensures c scopes (Pure.pure a) P := by
  intro t ht b u hrun
  cases hrun
  exact ⟨h, ht⟩

theorem fail {span : Span} {cause : Cause} : Ensures c scopes (Check.fail span cause) P :=
  fun _ _ _ _ hrun => by cases hrun

/-- **One check after the other.** -/
theorem bind {x : Check α} {f : α → Check β} (hx : Ensures c scopes x P)
    (hf : ∀ a, P a → Ensures c scopes (f a) Q) : Ensures c scopes (x >>= f) Q := by
  intro t ht b u hrun
  obtain ⟨a, t', hfirst, hrest⟩ := bind_eq_ok hrun
  obtain ⟨ha, ht'⟩ := hx t ht a t' hfirst
  exact hf a ha t' ht' b u hrest

theorem guard {p : Prop} [Decidable p] {span : Span} {cause : Cause} {f : α → Check β}
    {x : Check β} (hx : ¬p → Ensures c scopes x Q) :
    Ensures c scopes (if p then Check.fail span cause >>= f else x) Q := by
  intro t ht b u hrun
  obtain ⟨hp, hrun⟩ := guard_eq_ok hrun
  exact hx hp t ht b u hrun

theorem getSome {span : Span} {cause : Cause} {o : Option α} :
    Ensures c scopes (Check.getSome span cause o) fun a => o = some a := by
  intro t ht a u hrun
  obtain ⟨ha, rfl⟩ := getSome_eq_ok hrun
  exact ⟨ha, ht⟩

theorem schema : Ensures c scopes Check.schema fun s => s = c.schema := by
  intro t ht s u hrun
  cases hrun
  exact ⟨rfl, ht⟩

theorem meaning? (n : Symbol) :
    Ensures c scopes (Check.meaning? n) fun m => m = scopes.find? n := by
  intro t ht m u hrun
  cases hrun
  exact ⟨by rw [ht.scopes], ht⟩

theorem isReadingInput : Ensures c scopes Check.isReadingInput fun reading => reading = false := by
  intro t ht reading u hrun
  cases hrun
  exact ⟨ht.readingInput, ht⟩

end Ensures

end Check

namespace Typing

open Check Vocabulary

variable {c : Setting} {scopes : Scopes Binding}

/-! ## §2. Variables, callees and fields. -/

theorem ensures_accessType (a : Access) :
    Ensures c scopes (accessType a) fun _ => found c.schema scopes (.var a.var.name) := by
  refine .of_quiet (stepwise_accessType a).quiet fun t b u ht hrun => ?_
  obtain ⟨m, _, hmeaning, hrun⟩ := bind_eq_ok hrun
  obtain ⟨b', _, hbinding, -⟩ := bind_eq_ok hrun
  cases hmeaning
  have hfound := (getSome_eq_ok hbinding).1
  rw [ht.scopes] at hfound
  exact .inl (by rw [Scopes.contains, hfound]; rfl)

theorem ensures_calleeType (callee : Ident) :
    Ensures c scopes (calleeType callee) fun _ => found c.schema scopes (.callee callee.name) := by
  refine (Ensures.meaning? callee.name).bind fun m hm => ?_
  cases m with
  | some b =>
    cases b with
    | value type => exact .fail
    | function ft => exact .pure (.inl ⟨ft, hm.symm⟩)
  | none =>
    refine Ensures.schema.bind fun s hs => ?_
    refine Ensures.getSome.bind fun f hf => .pure (.inr ?_)
    rw [← hs, hf]
    rfl

/-- A call whose arguments ensure something finds its callee besides. -/
theorem ensures_callType (span : Span) (callee : Ident) {count : Nat} {p : Prop}
    {arguments : List Parameter → Check (Substitution × List Parameter)}
    (harguments : ∀ ps, count ≤ ps.length → Ensures c scopes (arguments ps) fun _ => p) :
    Ensures c scopes (callType span callee count arguments) fun _ =>
      found c.schema scopes (.callee callee.name) ∧ p := by
  unfold callType
  refine (ensures_calleeType callee).bind fun signature hcallee => ?_
  refine .guard fun hcount => ?_
  refine (harguments signature.params (by omega)).bind fun result hp => ?_
  obtain ⟨σ, remaining⟩ := result
  refine (Ensures.quiet (StepwiseInside.under σ signature.result).quiet).bind fun type _ => ?_
  split
  · exact .pure ⟨hcallee, hp⟩
  · refine (Ensures.quiet (stepwise_underParameters σ remaining).quiet).bind fun ps _ => ?_
    exact .pure ⟨hcallee, hp⟩

theorem ensures_checkFields (span : Span) (ctor : Ident) {inits : List (Named Expr)}
    {check : Symbol → TypeExpr → Check Unit} {P : Expr → Prop}
    (hcheck : ∀ name value type, Named.find? inits name = some value →
      Ensures c scopes (check name type) fun _ => P value) (fields : List Variable) :
    ∀ σ : Substitution, Ensures c scopes (checkFields span ctor inits check σ fields) fun _ =>
      ∀ v ∈ fields, ∃ value, Named.find? inits v.name.name = some value ∧ P value := by
  induction fields with
  | nil => exact fun _ => .pure (by simp)
  | cons field fields ih =>
    intro σ
    unfold checkFields
    refine Ensures.getSome.bind fun value hvalue => ?_
    refine (Ensures.quiet (StepwiseInside.under σ field.type).quiet).bind fun type _ => ?_
    refine Ensures.isReadingInput.bind fun reading hreading => ?_
    -- outside of rule inputs no field is bound
    subst hreading
    have hrest : Ensures c scopes (check field.name.name type >>= fun _ =>
        checkFields span ctor inits check (σ.bind field.name.name value) fields) fun _ =>
          ∀ v ∈ field :: fields, ∃ value, Named.find? inits v.name.name = some value ∧ P value := by
      refine (hcheck field.name.name value type hvalue).bind fun _ hP => ?_
      refine (ih (σ.bind field.name.name value)).mono fun _ hall => ?_
      exact List.forall_mem_cons.mpr ⟨⟨value, hvalue, hP⟩, hall⟩
    cases value.bareVar? <;> exact hrest

theorem ensures_checkConstructed (hs : c.schema.Tidy) (span : Span) (ctor : Ident)
    {inits : List (Named Expr)} (expected : TypeExpr) {check : Symbol → TypeExpr → Check Unit}
    {P : Expr → Prop} (hcheck : ∀ name value type, Named.find? inits name = some value →
      Ensures c scopes (check name type) fun _ => P value) :
    Ensures c scopes (checkConstructed span ctor inits expected check) fun _ =>
      ∀ f ∈ inits, P f.val := by
  unfold checkConstructed
  refine Ensures.schema.bind fun s hschema => ?_
  subst hschema
  refine Ensures.getSome.bind fun found hfound => ?_
  obtain ⟨owner, declared⟩ := found
  obtain ⟨hmem, hdeclared, -⟩ := Schema.of_constructor? hfound
  refine .guard fun _ => .guard fun _ => ?_
  -- the fields are those of the constructor, whichever rule offers it
  have hfields : ∀ σ, Ensures c scopes (if inits.length ≠ declared.fields.length then
      (Check.fail span (.fieldCount ctor.name declared.fields.length inits.length) : Check Unit)
        >>= fun _ => checkFields span ctor inits check σ declared.fields
      else checkFields span ctor inits check σ declared.fields) fun _ => ∀ f ∈ inits, P f.val := by
    intro σ
    refine .guard fun hcount => ?_
    refine (ensures_checkFields span ctor hcheck declared.fields σ).mono fun _ hall => ?_
    exact forall_of_fields (hs.fields owner hmem declared hdeclared) (not_not.mp hcount) hall
  cases owner with
  | message m => exact (Ensures.pure (P := fun _ => True) trivial).bind fun σ _ => hfields σ
  | enum e => exact (Ensures.quiet (stepwise_dispatch _ _ _ _).quiet).bind fun σ _ => hfields σ

/-! ## §3. Values. -/

mutual

/-- **A value that passed uses nothing but what was found.** -/
theorem ensures_checkValue (hs : c.schema.Tidy) : ∀ (e : Expr) (expected : TypeExpr),
    Ensures c scopes (checkValue e expected) fun _ => e.Uses false (found c.schema scopes)
  | .type _ _ _, _ => .fail
  | .binary span op l r, expected => by
    unfold checkValue
    split
    · next hunion =>
      refine (Ensures.quiet (stepwise_elementType _ _).quiet).bind fun element _ => ?_
      refine Ensures.getSome.bind fun length _ => ?_
      refine (ensures_lengthOf hs l element).bind fun left hl => ?_
      refine (ensures_lengthOf hs r element).bind fun right hr => ?_
      refine (Ensures.quiet (stepwise_requireLength _ _ _).quiet).mono fun _ _ => ?_
      exact (Expr.uses_binary (by simp [hunion.1])).mpr ⟨hl, hr⟩
    · split
      · exact .fail
      · split
        · next hmem =>
          -- the operands of `in` are not looked at
          subst hmem
          exact (Ensures.quiet (Stepwise.note _).quiet).mono fun _ _ => Expr.uses_mem
        · next hmem =>
          refine (ensures_checkValue hs l expected).bind fun _ hl => ?_
          refine (ensures_checkValue hs r expected).mono fun _ hr => ?_
          exact (Expr.uses_binary hmem).mpr ⟨hl, hr⟩
  | .unary _ _ x, expected => by
    unfold checkValue
    split
    · exact .fail
    · exact ensures_checkValue hs x expected
  | .access a, expected => by
    refine (ensures_accessType a).bind fun b ha => ?_
    exact (Ensures.quiet (stepwise_requireValue _ _ _).quiet).mono fun _ _ =>
      Expr.uses_access.mpr ha
  | .scalar _ _, _ => by
    unfold checkValue
    split
    · exact .pure Expr.uses_scalar
    · exact .fail
  | .constructed span ctor inits, expected =>
    (ensures_checkConstructed hs span ctor expected (ensures_checkField hs inits)).mono
      fun _ hinits => Expr.uses_constructed.mpr ⟨trivial, fun f hf _ => hinits f hf⟩
  | .collection span es, expected => by
    unfold checkValue
    split
    · refine (Ensures.quiet (stepwise_elementType _ _).quiet).bind fun element _ => ?_
      exact (ensures_checkElements hs es element).mono fun _ => Expr.uses_collection.mpr
    · split
      · refine (Ensures.quiet (stepwise_elementType _ _).quiet).bind fun element _ => ?_
        refine Ensures.getSome.bind fun length _ => ?_
        refine (ensures_checkElements hs es element).bind fun _ hes => ?_
        exact (Ensures.quiet (stepwise_requireLength _ _ _).quiet).mono fun _ _ =>
          Expr.uses_collection.mpr hes
      · exact .fail
  | .call span f as, expected => by
    refine (ensures_callType span f fun ps => ensures_checkArguments hs as .empty ps).bind
      fun b huses => ?_
    exact (Ensures.quiet (stepwise_requireValue _ _ _).quiet).mono fun _ _ =>
      Expr.uses_call.mpr huses

theorem ensures_lengthOf (hs : c.schema.Tidy) : ∀ (e : Expr) (element : TypeExpr),
    Ensures c scopes (lengthOf e element) fun _ => e.Uses false (found c.schema scopes)
  | .collection span es, element => by
    refine (ensures_checkElements hs es element).bind fun _ hes => ?_
    exact .pure (Expr.uses_collection.mpr hes)
  | .binary span op l r, element => by
    unfold lengthOf
    split
    · next hunion =>
      refine (ensures_lengthOf hs l element).bind fun left hl => ?_
      refine (ensures_lengthOf hs r element).bind fun right hr => ?_
      exact .pure ((Expr.uses_binary (by simp [hunion])).mpr ⟨hl, hr⟩)
    · exact .fail
  | .access a, element => by
    refine (ensures_accessType a).bind fun b ha => ?_
    exact (Ensures.quiet (stepwise_lengthOfBinding _ _ _).quiet).mono fun _ _ =>
      Expr.uses_access.mpr ha
  | .call span f as, element => by
    refine (ensures_callType span f fun ps => ensures_checkArguments hs as .empty ps).bind
      fun b huses => ?_
    exact (Ensures.quiet (stepwise_lengthOfBinding _ _ _).quiet).mono fun _ _ =>
      Expr.uses_call.mpr huses
  | .type _ _ _, _ => .fail
  | .unary _ _ _, _ => .fail
  | .scalar _ _, _ => .fail
  | .constructed _ _ _, _ => .fail

theorem ensures_functionOf (hs : c.schema.Tidy) : ∀ e : Expr,
    Ensures c scopes (functionOf e) fun _ => e.Uses false (found c.schema scopes)
  | .access a => by
    unfold functionOf
    split
    · exact (ensures_calleeType a.var).mono fun _ ha => Expr.uses_access.mpr (found_var ha)
    · exact .fail
  | .call span f as => by
    refine (ensures_callType span f fun ps => ensures_checkArguments hs as .empty ps).bind
      fun b huses => ?_
    cases b with
    | function ft => exact .pure (Expr.uses_call.mpr huses)
    | value type => exact .fail
  | .type _ _ _ => .fail
  | .binary _ _ _ _ => .fail
  | .unary _ _ _ => .fail
  | .scalar _ _ => .fail
  | .constructed _ _ _ => .fail
  | .collection _ _ => .fail

/-- Arguments that passed, each with a parameter of its own. -/
theorem ensures_checkArguments (hs : c.schema.Tidy) :
    ∀ (args : List Expr) (σ : Substitution) (ps : List Parameter), args.length ≤ ps.length →
      Ensures c scopes (checkArguments args σ ps) fun _ =>
        ∀ a ∈ args, a.Uses false (found c.schema scopes)
  | [], _, _, _ => .pure (by simp)
  | arg :: args, _, [], hcount => by simp at hcount
  | arg :: args, σ, ⟨name, .value type⟩ :: ps, hcount => by
    unfold checkArguments
    refine (Ensures.quiet (StepwiseInside.under σ type).quiet).bind fun type' _ => ?_
    refine (ensures_checkValue hs arg type').bind fun _ harg => ?_
    refine (ensures_checkArguments hs args _ ps (Nat.le_of_succ_le_succ hcount)).mono
      fun _ hargs => ?_
    exact List.forall_mem_cons.mpr ⟨harg, hargs⟩
  | arg :: args, σ, ⟨name, .function qs result⟩ :: ps, hcount => by
    unfold checkArguments
    refine (Ensures.quiet (stepwise_underFunction σ ⟨qs, result⟩).quiet).bind fun expected _ => ?_
    refine (ensures_functionOf hs arg).bind fun got harg => ?_
    refine (Ensures.quiet (stepwise_requireSameFunctionType _ _ _).quiet).bind fun _ _ => ?_
    refine (ensures_checkArguments hs args _ ps (Nat.le_of_succ_le_succ hcount)).mono
      fun _ hargs => ?_
    exact List.forall_mem_cons.mpr ⟨harg, hargs⟩

theorem ensures_checkElements (hs : c.schema.Tidy) : ∀ (es : List Expr) (element : TypeExpr),
    Ensures c scopes (checkElements es element) fun _ =>
      ∀ e ∈ es, e.Uses false (found c.schema scopes)
  | [], _ => .pure (by simp)
  | e :: es, element => by
    refine (ensures_checkValue hs e element).bind fun _ he => ?_
    refine (ensures_checkElements hs es element).mono fun _ hes => ?_
    exact List.forall_mem_cons.mpr ⟨he, hes⟩

theorem ensures_checkField (hs : c.schema.Tidy) :
    ∀ (fs : List (Named Expr)) (name : Symbol) (value : Expr) (type : TypeExpr),
      Named.find? fs name = some value → Ensures c scopes (checkField fs name type) fun _ =>
        value.Uses false (found c.schema scopes)
  | [], _, _, _, hfind => by cases hfind
  | f :: fs, name, value, type, hfind => by
    unfold checkField
    rw [Named.find?_cons] at hfind
    split
    · next hname =>
      rw [if_pos hname] at hfind
      cases hfind
      exact ensures_checkValue hs f.val type
    · next hname =>
      rw [if_neg hname] at hfind
      exact ensures_checkField hs fs name value type hfind

end

/-! ## §4. Types. -/

theorem ensures_requireParams (type : TypeExpr) (arity : Nat) :
    Ensures c scopes (requireParams type arity) fun _ => type.params.length = arity :=
  .of_quiet (stepwise_requireParams type arity).quiet fun _ _ _ _ hrun =>
    length_of_requireParams hrun

theorem ensures_checkParams (hs : c.schema.Tidy) : ∀ (deps : List Variable) (params : List Expr)
    (σ : Substitution), params.length = deps.length →
      Ensures c scopes (checkParams σ deps params) fun _ =>
        ∀ p ∈ params, p.Uses false (found c.schema scopes)
  | [], params, _, hcount => by
    obtain rfl := List.length_eq_zero_iff.mp hcount
    exact .pure (by simp)
  | _ :: _, [], _, hcount => by cases hcount
  | dep :: deps, param :: params, σ, hcount => by
    unfold checkParams
    refine (Ensures.quiet (StepwiseInside.under σ dep.type).quiet).bind fun type _ => ?_
    refine (ensures_checkValue hs param type).bind fun _ hparam => ?_
    refine (ensures_checkParams hs deps params _ (Nat.succ.inj hcount)).mono fun _ hparams => ?_
    exact List.forall_mem_cons.mpr ⟨hparam, hparams⟩

/-- The length of an array, where there is one. -/
theorem ensures_requireFormedLength (hs : c.schema.Tidy) (element length : Expr) :
    Ensures c scopes (requireFormedLength [element, length]) fun _ =>
      length.Uses false (found c.schema scopes) :=
  ensures_checkValue hs length _

mutual

/-- **A type that passed uses nothing but what was found.** -/
theorem ensures_requireFormedExpr (hs : c.schema.Tidy) : ∀ e : Expr, e.type?.isSome →
    Ensures c scopes (requireFormedExpr e) fun _ => e.Uses false (found c.schema scopes)
  | .type span i ps, _ => by
    unfold requireFormedExpr
    dsimp only
    split
    · refine (ensures_requireParams _ 0).mono fun _ hcount => ?_
      obtain rfl := List.length_eq_zero_iff.mp hcount
      exact Expr.uses_type.mpr ⟨trivial, by simp⟩
    · split
      · refine (ensures_requireParams _ 2).bind fun _ hcount => ?_
        obtain ⟨element, length, rfl⟩ := List.length_eq_two.mp hcount
        refine (ensures_requireFormedElement hs _ [element, length]).bind fun _ helement => ?_
        refine (ensures_requireFormedLength hs element length).mono fun _ hlength => ?_
        refine Expr.uses_type.mpr ⟨trivial, ?_⟩
        exact List.forall_mem_cons.mpr ⟨helement element rfl, List.forall_mem_singleton.mpr hlength⟩
      · split
        · refine (ensures_requireParams _ 1).bind fun _ hcount => ?_
          obtain ⟨element, rfl⟩ := List.length_eq_one_iff.mp hcount
          refine (ensures_requireFormedElement hs _ [element]).mono fun _ helement => ?_
          exact Expr.uses_type.mpr ⟨trivial, List.forall_mem_singleton.mpr (helement element rfl)⟩
        · refine Ensures.schema.bind fun s _ => ?_
          refine Ensures.getSome.bind fun deps _ => ?_
          refine (ensures_requireParams _ deps.length).bind fun _ hcount => ?_
          refine (ensures_checkParams hs deps ps .empty hcount).mono fun _ hps => ?_
          exact Expr.uses_type.mpr ⟨trivial, hps⟩
termination_by e => sizeOf e

theorem ensures_requireFormedElement (hs : c.schema.Tidy) (collection : TypeExpr) :
    ∀ ps : List Expr, Ensures c scopes (requireFormedElement collection ps) fun _ =>
      ∀ e, ps.head? = some e → e.Uses false (found c.schema scopes)
  | [] => .fail
  | e :: _ => by
    unfold requireFormedElement
    cases htype : e.type? with
    | none => exact .fail
    | some type =>
      refine (ensures_requireFormedExpr hs e (by rw [htype]; rfl)).mono fun _ he e' he' => ?_
      cases he'
      exact he
termination_by ps => sizeOf ps

end

theorem ensures_requireFormed (hs : c.schema.Tidy) (type : TypeExpr) :
    Ensures c scopes (requireFormed type) fun _ =>
      type.toExpr.Uses false (found c.schema scopes) :=
  ensures_requireFormedExpr hs type.toExpr rfl

end Typing

end DepSchema
