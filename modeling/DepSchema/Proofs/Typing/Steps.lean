/-
DepSchema.Proofs.Typing.Steps — every check is put together from a few single steps.

A check reads and binds names, adds to the substitution, notes, asks and fails, and all that it does
beside is to run such steps one after the other, some of them in a scope of their own or as part of
a rule input. What single steps have and what putting them together keeps, every check has.

The checks of types and values bind nothing where they stand, apart from the variables alone that a
rule input binds; what they open they close again. The checks inside a declaration bind
dependencies, fields and parameters one by one, and a scope is opened around them. Inside a
declaration nothing is declared to the oracle and nothing is said about the order of the types. A
declaration to the oracle is one step together with its answer, since no check looks at that answer.

Main definitions: `Check.Stepwise` and `Check.StepwiseInside`. Main results: `stepwise_checkValue`,
`stepwise_requireFormed`, `stepwise_checkTypeDef`, `stepwise_checkFunctionDef` and
`stepwise_checkSchema`.
-/
import DepSchema.Typing.Declarations

namespace DepSchema

/-! ## §1. Steps. -/

/-- The state in which a check in a scope of its own begins. -/
def Checking.opened (s : Checking) : Checking :=
  { s with scopes := s.scopes.push, substitution := s.substitution.push }.note
    (.typeScopePushed s.scopes.push.depth)

/-- The state after a check in a scope of its own, when the scope is closed. -/
def Checking.closed (s : Checking) : Checking :=
  { s with scopes := s.scopes.pop, substitution := s.substitution.pop }.note
    (.typeScopePopped s.scopes.pop.depth)

/-- The fault concerns the order of the types, not one of the declarations. -/
def Cause.isOfOrder : Cause → Bool
  | .orderIncomplete _ _ | .orderUndeclared _ => true
  | _ => false

namespace Check

/-- The check is put together from single steps. Unless it is one that `binds`, it binds names and
adds to the substitution only in scopes of its own, apart from what a rule input binds. -/
inductive Stepwise : Bool → {α : Type} → Check α → Prop where
  | pure {binds : Bool} {α : Type} (a : α) : Stepwise binds (pure a)
  | bind {binds : Bool} {α β : Type} {x : Check α} {f : α → Check β} (hx : Stepwise binds x)
      (hf : ∀ a, Stepwise binds (f a)) : Stepwise binds (x >>= f)
  | fail {binds : Bool} {α : Type} (span : Span) (cause : Cause) :
      Stepwise binds (fail (α := α) span cause)
  | failUnlocated {binds : Bool} {α : Type} (cause : Cause) :
      Stepwise binds (failUnlocated (α := α) cause)
  | schema {binds : Bool} : Stepwise binds schema
  | meaning? {binds : Bool} (name : Symbol) : Stepwise binds (meaning? name)
  | note {binds : Bool} (e : Event) : Stepwise binds (note e)
  | ofSubstitution {binds : Bool} {α : Type} (r : Except AccessError α) :
      Stepwise binds (ofSubstitution r)
  | underCurrent {binds : Bool} (t : TypeExpr) : Stepwise binds (underCurrent t)
  | introduce (name : Symbol) (b : Binding) : Stepwise true (introduce name b)
  | introduceIfReading {binds : Bool} {α : Type} (o : Option Ident) (b : Binding) {x : Check Unit}
      {y : Unit → Check α} (hx : Stepwise binds x) (hy : ∀ u, Stepwise binds (y u)) :
      Stepwise binds (isReadingInput >>= fun reading => match o, reading with
        | some v, true => Check.introduce v.name b >>= y
        | _, _ => x >>= y)
  | replace (name : Symbol) (e : Expr) : Stepwise true (replace name e)
  | askEqual {binds : Bool} (expected got : Expr) : Stepwise binds (askEqual expected got)
  | declareType {binds : Bool} (d : Datatype) :
      Stepwise binds (ask (.datatype d) >>= fun _ => Pure.pure ())
  | declareFunction {binds : Bool} (f : SortedFunction) :
      Stepwise binds (ask (.function f) >>= fun _ => Pure.pure ())
  | inScope {binds : Bool} {α : Type} {x : Check α} (hx : Stepwise true x) :
      Stepwise binds (inScope x)
  | readInput {α : Type} {x : Check α} (hx : Stepwise true x) : Stepwise true (readInput x)

/-- The check is put together from the single steps that are taken inside a declaration: they ask
about equalities only, and no fault is one of the order of the types. -/
inductive StepwiseInside : Bool → {α : Type} → Check α → Prop where
  | pure {binds : Bool} {α : Type} (a : α) : StepwiseInside binds (pure a)
  | bind {binds : Bool} {α β : Type} {x : Check α} {f : α → Check β} (hx : StepwiseInside binds x)
      (hf : ∀ a, StepwiseInside binds (f a)) : StepwiseInside binds (x >>= f)
  | fail {binds : Bool} {α : Type} (span : Span) (cause : Cause)
      (h : cause.isOfOrder = false := by rfl) : StepwiseInside binds (fail (α := α) span cause)
  | schema {binds : Bool} : StepwiseInside binds schema
  | meaning? {binds : Bool} (name : Symbol) : StepwiseInside binds (meaning? name)
  | note {binds : Bool} (e : Event) : StepwiseInside binds (note e)
  | ofSubstitution {binds : Bool} {α : Type} (r : Except AccessError α) :
      StepwiseInside binds (ofSubstitution r)
  | underCurrent {binds : Bool} (t : TypeExpr) : StepwiseInside binds (underCurrent t)
  | introduce (name : Symbol) (b : Binding) : StepwiseInside true (introduce name b)
  | introduceIfReading {binds : Bool} {α : Type} (o : Option Ident) (b : Binding) {x : Check Unit}
      {y : Unit → Check α} (hx : StepwiseInside binds x) (hy : ∀ u, StepwiseInside binds (y u)) :
      StepwiseInside binds (isReadingInput >>= fun reading => match o, reading with
        | some v, true => Check.introduce v.name b >>= y
        | _, _ => x >>= y)
  | replace (name : Symbol) (e : Expr) : StepwiseInside true (replace name e)
  | askEqual {binds : Bool} (expected got : Expr) : StepwiseInside binds (askEqual expected got)
  | inScope {binds : Bool} {α : Type} {x : Check α} (hx : StepwiseInside true x) :
      StepwiseInside binds (inScope x)
  | readInput {α : Type} {x : Check α} (hx : StepwiseInside true x) :
      StepwiseInside true (readInput x)

theorem StepwiseInside.stepwise {binds : Bool} {α : Type} {x : Check α}
    (h : StepwiseInside binds x) : Stepwise binds x := by
  induction h with
  | pure a => exact .pure a
  | bind _ _ hx hf => exact hx.bind hf
  | fail span cause => exact .fail span cause
  | schema => exact .schema
  | meaning? n => exact .meaning? n
  | note e => exact .note e
  | ofSubstitution r => exact .ofSubstitution r
  | underCurrent t => exact .underCurrent t
  | introduce n b => exact .introduce n b
  | introduceIfReading o b _ _ hx hy => exact .introduceIfReading o b hx hy
  | replace n e => exact .replace n e
  | askEqual e g => exact .askEqual e g
  | inScope _ hx => exact .inScope hx
  | readInput _ hx => exact .readInput hx

theorem inScope_eq {α : Type} (x : Check α) (c : Setting) (s : Checking) :
    inScope x c s = ((x c s.opened).1, (x c s.opened).2.closed) := rfl

/-- What is run depends on the state in which the flag is read. -/
theorem introduceIfReading_eq {α : Type} (o : Option Ident) (b : Binding) (x : Check Unit)
    (y : Unit → Check α) (c : Setting) (s : Checking) :
    (isReadingInput >>= fun reading => match o, reading with
        | some v, true => introduce v.name b >>= y
        | _, _ => x >>= y) c s
      = (match o, s.readingInput with
        | some v, true => introduce v.name b >>= y
        | _, _ => x >>= y) c s := rfl

/-- A name that is bound inside a rule input, or else a check instead: one of the two is run. -/
theorem introduceIfReading_or {α : Type} (o : Option Ident) (b : Binding) (x : Check Unit)
    (y : Unit → Check α) (s : Checking) :
    let both := isReadingInput >>= fun reading => match o, reading with
      | some v, true => introduce v.name b >>= y
      | _, _ => x >>= y
    (∀ c, both c s = (x >>= y) c s)
      ∨ s.readingInput = true ∧ ∃ v, o = some v ∧
        ∀ c, both c s = (introduce v.name b >>= y) c s := by
  intro both
  have hread := fun c => introduceIfReading_eq o b x y c s
  cases hreading : s.readingInput with
  | false =>
    rw [hreading] at hread
    exact .inl fun c => by cases o <;> exact hread c
  | true =>
    rw [hreading] at hread
    cases o with
    | none => exact .inl hread
    | some v => exact .inr ⟨rfl, v, rfl, hread⟩

theorem Stepwise.ite {binds : Bool} {α : Type} {p : Prop} [Decidable p] {x y : Check α}
    (hx : Stepwise binds x) (hy : Stepwise binds y) : Stepwise binds (if p then x else y) := by
  split
  · exact hx
  · exact hy

theorem Stepwise.forM {binds : Bool} {α : Type} {f : α → Check Unit}
    (h : ∀ a, Stepwise binds (f a)) (as : List α) : Stepwise binds (as.forM f) := by
  induction as with
  | nil => exact .pure _
  | cons a as ih => exact (h a).bind fun _ => ih

namespace StepwiseInside

variable {binds : Bool} {α β : Type}

theorem ite {p : Prop} [Decidable p] {x y : Check α} (hx : StepwiseInside binds x)
    (hy : StepwiseInside binds y) : StepwiseInside binds (if p then x else y) := by
  split
  · exact hx
  · exact hy

/-- A condition under which the check fails, and what comes after it. -/
theorem guard {p : Prop} [Decidable p] {span : Span} {cause : Cause} {f : α → Check β}
    {x : Check β} (hx : StepwiseInside binds x) (h : cause.isOfOrder = false := by rfl) :
    StepwiseInside binds (if p then Check.fail span cause >>= f else x) := by
  -- nothing is run after a failure
  have hstop : Check.fail span cause >>= f = Check.fail span cause := rfl
  rw [hstop]
  exact ite (.fail span cause h) hx

theorem getSome (span : Span) (cause : Cause) (o : Option α)
    (h : cause.isOfOrder = false := by rfl) :
    StepwiseInside binds (Check.getSome span cause o) := by
  cases o with
  | none => exact .fail span cause h
  | some a => exact .pure a

theorem under (σ : Substitution) (t : TypeExpr) : StepwiseInside binds (Check.under σ t) :=
  .ofSubstitution _

end StepwiseInside

end Check

namespace Typing

open Check

variable {binds : Bool}

/-! ## §2. Types. -/

theorem stepwise_requireSameHead (expected got : TypeExpr) (span : Span) :
    StepwiseInside binds (requireSameHead expected got span) := by
  unfold requireSameHead
  dsimp only
  exact .guard (.ite (.fail _ _) (.pure _))

theorem stepwise_elementType (t : TypeExpr) (index : Nat) :
    StepwiseInside binds (elementType t index) := by
  unfold elementType
  exact (StepwiseInside.getSome _ _ _).bind fun _ => .getSome _ _ _

mutual

theorem stepwise_sameParam (span : Span) : ∀ e g : Expr, StepwiseInside binds (sameParam span e g)
  | .type s i ps, g => by
    unfold sameParam
    split
    · next t _ =>
      refine (stepwise_requireSameHead _ _ _).bind fun _ => ?_
      exact (stepwise_requireSameParams span ps t.params 0).bind fun _ => .pure _
    · exact .pure _
  | .binary _ _ _ _, g => .ite (.pure _) (.askEqual _ _)
  | .unary _ _ _, g => .ite (.pure _) (.askEqual _ _)
  | .access _, g => .ite (.pure _) (.askEqual _ _)
  | .scalar _ _, g => .ite (.pure _) (.askEqual _ _)
  | .constructed _ _ _, g => .ite (.pure _) (.askEqual _ _)
  | .collection _ _, g => .ite (.pure _) (.askEqual _ _)
  | .call _ _ _, g => .ite (.pure _) (.askEqual _ _)

theorem stepwise_requireSameParams (span : Span) :
    ∀ (es gs : List Expr) (index : Nat), StepwiseInside binds (requireSameParams span es gs index)
  | [], gs, _ => .pure _
  | e :: es, [], _ => .pure _
  | e :: es, g :: gs, index => by
    unfold requireSameParams
    refine (stepwise_sameParam span e g).bind fun same => ?_
    dsimp only
    have hrest := stepwise_requireSameParams span es gs (index + 1)
    split
    · exact hrest
    · exact (StepwiseInside.fail _ _).bind fun _ => hrest

end

theorem stepwise_requireSameType (expected got : TypeExpr) (span : Span) :
    StepwiseInside binds (requireSameType expected got span) := by
  unfold requireSameType
  exact (stepwise_requireSameHead _ _ _).bind fun _ => stepwise_requireSameParams _ _ _ _

theorem stepwise_requireSameSignature (span : Span) (arity : Nat) (result : TypeExpr)
    (got : FunctionType) {parameters : Check Substitution} (h : StepwiseInside true parameters) :
    StepwiseInside binds (requireSameSignature span arity result got parameters) := by
  unfold requireSameSignature
  dsimp only
  -- the parameters are bound in a scope that is closed again
  have hscope : StepwiseInside binds (inScope do
      let rename ← parameters
      requireSameType result (← under rename got.result) span) := by
    refine StepwiseInside.inScope (h.bind fun rename => ?_)
    exact (StepwiseInside.under _ _).bind fun _ => stepwise_requireSameType _ _ _
  exact .guard hscope

mutual

theorem stepwise_requireSameParameter (span : Span) :
    ∀ {b : Bool} (expected got : ParameterType) (index : Nat) (rename : Substitution),
      StepwiseInside b (requireSameParameter span expected got index rename)
  | _, .value expected, .value got, index, rename => by
    unfold requireSameParameter
    refine (StepwiseInside.under _ _).bind fun _ => ?_
    exact (stepwise_requireSameType _ _ _).bind fun _ => .pure _
  | _, .function ps result, .function qs got, index, rename => by
    unfold requireSameParameter
    have hparams := stepwise_requireSameParameters span ps qs 0 .empty
    exact (stepwise_requireSameSignature _ _ _ _ hparams).bind fun _ => .pure _
  | _, .value _, .function _ _, _, _ => .fail _ _
  | _, .function _ _, .value _, _, _ => .fail _ _

theorem stepwise_requireSameParameters (span : Span) :
    ∀ (es gs : List (Named ParameterType)) (index : Nat) (rename : Substitution),
      StepwiseInside true (requireSameParameters span es gs index rename)
  | [], gs, _, _ => .pure _
  | e :: es, [], _, _ => .pure _
  | e :: es, g :: gs, index, rename => by
    unfold requireSameParameters
    refine (stepwise_requireSameParameter span e.val g.val index rename).bind fun b => ?_
    refine (StepwiseInside.introduce _ _).bind fun _ => ?_
    exact stepwise_requireSameParameters span es gs _ _

end

theorem stepwise_requireSameFunctionType (expected got : FunctionType) (span : Span) :
    StepwiseInside binds (requireSameFunctionType expected got span) :=
  stepwise_requireSameSignature _ _ _ _ (stepwise_requireSameParameters _ _ _ _ _)

mutual

theorem stepwise_underParameter (σ : Substitution) :
    ∀ t : ParameterType, StepwiseInside binds (underParameter σ t)
  | .value t => (StepwiseInside.under _ _).bind fun _ => .pure _
  | .function ps result => by
    unfold underParameter
    refine (stepwise_underParameters σ ps).bind fun _ => ?_
    exact (StepwiseInside.under _ _).bind fun _ => .pure _

theorem stepwise_underParameters (σ : Substitution) :
    ∀ ps : List (Named ParameterType), StepwiseInside binds (underParameters σ ps)
  | [] => .pure _
  | p :: ps => by
    unfold underParameters
    refine (stepwise_underParameter σ p.val).bind fun _ => ?_
    exact (stepwise_underParameters σ ps).bind fun _ => .pure _

end

theorem stepwise_underFunction (σ : Substitution) (ft : FunctionType) :
    StepwiseInside binds (underFunction σ ft) := by
  unfold underFunction
  refine (stepwise_underParameters σ _).bind fun _ => ?_
  exact (StepwiseInside.under _ _).bind fun _ => .pure _

/-! ## §3. Variables and their fields. -/

theorem stepwise_fieldType (base : Access) (type : TypeExpr) (field : Ident) :
    StepwiseInside binds (fieldType base type field) := by
  unfold fieldType
  refine StepwiseInside.schema.bind fun s => ?_
  split
  · exact .fail _ _
  · exact .fail _ _
  · exact (StepwiseInside.getSome _ _ _).bind fun _ => .under _ _

theorem stepwise_fieldsType (fields : List Ident) :
    ∀ (base : Access) (type : TypeExpr), StepwiseInside binds (fieldsType base type fields) := by
  induction fields with
  | nil =>
    intro base type
    exact .pure _
  | cons f fs ih =>
    intro base type
    exact (stepwise_fieldType base type f).bind fun _ => ih _ _

theorem stepwise_accessType (a : Access) : StepwiseInside binds (accessType a) := by
  unfold accessType
  refine (StepwiseInside.meaning? _).bind fun m => ?_
  refine (StepwiseInside.getSome _ _ _).bind fun binding => ?_
  refine .ite (.pure _) ?_
  cases binding with
  | value type => exact (stepwise_fieldsType _ _ _).bind fun _ => .pure _
  | function ft => exact .fail _ _

theorem stepwise_calleeType (callee : Ident) : StepwiseInside binds (calleeType callee) := by
  unfold calleeType
  refine (StepwiseInside.meaning? _).bind fun m => ?_
  split
  · exact .pure _
  · exact .fail _ _
  · exact StepwiseInside.schema.bind fun _ => (StepwiseInside.getSome _ _ _).bind fun _ => .pure _

/-! ## §4. Rules. -/

theorem stepwise_matchByOracle (σ : Substitution) (pattern actual : Expr) :
    StepwiseInside binds (matchByOracle σ pattern actual) := by
  unfold matchByOracle
  split
  · exact .pure _
  · exact (StepwiseInside.askEqual _ _).bind fun _ => (StepwiseInside.note _).bind fun _ => .pure _

mutual

theorem stepwise_matchExpr : ∀ (pattern : Expr) (σ : Substitution) (actual : Expr),
    StepwiseInside binds (matchExpr σ actual pattern)
  | .access a, σ, actual => .ite (.pure _) (stepwise_matchByOracle _ _ _)
  | .constructed _ ctor inits, σ, actual => by
    unfold matchExpr
    split
    · exact .ite (stepwise_matchInits inits _ _) (.pure _)
    · refine StepwiseInside.schema.bind fun s => ?_
      split
      · exact stepwise_matchInits inits _ _
      · exact .pure _
    · exact .pure _
  | .binary _ _ _ _, _, _ => stepwise_matchByOracle _ _ _
  | .unary _ _ _, _, _ => stepwise_matchByOracle _ _ _
  | .type _ _ _, _, _ => stepwise_matchByOracle _ _ _
  | .scalar _ _, _, _ => stepwise_matchByOracle _ _ _
  | .collection _ _, _, _ => stepwise_matchByOracle _ _ _
  | .call _ _ _, _, _ => stepwise_matchByOracle _ _ _

theorem stepwise_matchInits : ∀ (fs : List (Named Expr)) (σ : Substitution)
    (valueOf : Ident → Option Expr), StepwiseInside binds (matchInits σ valueOf fs)
  | [], _, _ => .pure _
  | f :: fs, σ, valueOf => by
    unfold matchInits
    split
    · exact .pure _
    · refine (stepwise_matchExpr f.val _ _).bind fun r => ?_
      cases r with
      | none => exact .pure _
      | some σ' => exact stepwise_matchInits fs σ' valueOf

end

theorem stepwise_matchInputs (inputs : List RuleInput) : ∀ (σ : Substitution)
    (params : List Expr), StepwiseInside binds (matchInputs σ inputs params) := by
  induction inputs with
  | nil =>
    intro σ params
    exact .pure _
  | cons input inputs ih =>
    intro σ params
    cases params with
    | nil => cases input <;> exact .pure _
    | cons param params =>
      cases input with
      | any span => exact ih σ params
      | value p =>
        refine (stepwise_matchExpr p σ param).bind fun r => ?_
        cases r with
        | none => exact .pure _
        | some σ' => exact ih σ' params

theorem stepwise_matchRule (σ : Substitution) (rule : Rule) (params : List Expr) :
    StepwiseInside binds (matchRule σ rule params) :=
  .ite (stepwise_matchInputs _ _ _) (.pure _)

theorem stepwise_dispatchFrom (enum : Symbol) (ctor : Ident) (params : List Expr)
    (σ : Substitution) (rules : List Rule) :
    ∀ index : Nat, StepwiseInside binds (dispatchFrom enum ctor params σ rules index) := by
  induction rules with
  | nil =>
    intro index
    exact .fail _ _
  | cons rule rules ih =>
    intro index
    refine (stepwise_matchRule σ rule params).bind fun r => ?_
    cases r with
    | none => exact (StepwiseInside.note _).bind fun _ => ih _
    | some bound => exact (StepwiseInside.note _).bind fun _ => .ite (.pure _) (.fail _ _)

theorem stepwise_dispatch (e : Enum) (ctor : Ident) (params : List Expr) (σ : Substitution) :
    StepwiseInside binds (dispatch e ctor params σ) :=
  stepwise_dispatchFrom _ _ _ _ _ _

/-! ## §5. Values. -/

theorem stepwise_requireValue (expected : TypeExpr) (actual : Binding) (span : Span) :
    StepwiseInside binds (requireValue expected actual span) := by
  cases actual with
  | value type => exact stepwise_requireSameType _ _ _
  | function ft => exact .fail _ _

theorem stepwise_requireLength (expected got : Expr) (span : Span) :
    StepwiseInside binds (requireLength expected got span) := by
  unfold requireLength
  refine (StepwiseInside.askEqual _ _).bind fun equal => ?_
  exact .ite (.pure _) (.fail _ _)

theorem stepwise_lengthOfBinding (element : TypeExpr) (actual : Binding) (span : Span) :
    StepwiseInside binds (lengthOfBinding element actual span) := by
  unfold lengthOfBinding
  cases actual with
  | function ft => exact .fail _ _
  | value type =>
    refine .ite (.fail _ _) ?_
    refine (stepwise_elementType _ _).bind fun _ => ?_
    exact (stepwise_requireSameType _ _ _).bind fun _ => .getSome _ _ _

theorem stepwise_callType (span : Span) (callee : Ident) (count : Nat)
    {arguments : List Parameter → Check (Substitution × List Parameter)}
    (h : ∀ ps, StepwiseInside binds (arguments ps)) :
    StepwiseInside binds (callType span callee count arguments) := by
  unfold callType
  refine (stepwise_calleeType _).bind fun signature => .guard ?_
  refine (h _).bind fun r => (StepwiseInside.under _ _).bind fun _ => .ite (.pure _) ?_
  exact (stepwise_underParameters _ _).bind fun _ => .pure _

theorem stepwise_checkFields (span : Span) (ctor : Ident) (inits : List (Named Expr))
    {check : Symbol → TypeExpr → Check Unit}
    (h : ∀ name type, StepwiseInside binds (check name type)) (fields : List Variable) :
    ∀ σ : Substitution, StepwiseInside binds (checkFields span ctor inits check σ fields) := by
  induction fields with
  | nil =>
    intro σ
    exact .pure _
  | cons field fields ih =>
    intro σ
    unfold checkFields
    refine (StepwiseInside.getSome _ _ _).bind fun value => ?_
    refine (StepwiseInside.under _ _).bind fun type => ?_
    exact .introduceIfReading _ _ (h _ _) fun _ => ih _

theorem stepwise_checkConstructed (span : Span) (ctor : Ident) (inits : List (Named Expr))
    (expected : TypeExpr) {check : Symbol → TypeExpr → Check Unit}
    (h : ∀ name type, StepwiseInside binds (check name type)) :
    StepwiseInside binds (checkConstructed span ctor inits expected check) := by
  unfold checkConstructed
  refine StepwiseInside.schema.bind fun s => (StepwiseInside.getSome _ _ _).bind fun owned => ?_
  obtain ⟨owner, declared⟩ := owned
  refine .guard (.guard ?_)
  cases owner with
  | message m =>
    exact (StepwiseInside.pure _).bind fun σ => .guard (stepwise_checkFields _ _ _ h _ σ)
  | enum e =>
    exact (stepwise_dispatch _ _ _ _).bind fun σ => .guard (stepwise_checkFields _ _ _ h _ σ)

mutual

/-- **Checking a value takes single steps.** -/
theorem stepwise_checkValue :
    ∀ (e : Expr) (expected : TypeExpr), StepwiseInside binds (checkValue e expected)
  | .type _ _ _, _ => .fail _ _
  | .binary span op l r, expected => by
    unfold checkValue
    refine .ite ?_ (.ite (.fail _ _) (.ite (.note _) ?_))
    · refine (stepwise_elementType _ _).bind fun element => ?_
      refine (StepwiseInside.getSome _ _ _).bind fun length => ?_
      refine (stepwise_lengthOf l element).bind fun left => ?_
      refine (stepwise_lengthOf r element).bind fun right => ?_
      exact stepwise_requireLength _ _ _
    · exact (stepwise_checkValue l expected).bind fun _ => stepwise_checkValue r expected
  | .unary _ _ x, expected => .ite (.fail _ _) (stepwise_checkValue x expected)
  | .access a, expected => (stepwise_accessType a).bind fun _ => stepwise_requireValue _ _ _
  | .scalar _ _, _ => .ite (.pure _) (.fail _ _)
  | .constructed span ctor inits, expected =>
    stepwise_checkConstructed span ctor inits expected (stepwise_checkField inits)
  | .collection span es, expected => by
    unfold checkValue
    refine .ite ?_ (.ite ?_ (.fail _ _))
    · exact (stepwise_elementType _ _).bind fun element => stepwise_checkElements es element
    · refine (stepwise_elementType _ _).bind fun element => ?_
      refine (StepwiseInside.getSome _ _ _).bind fun length => ?_
      exact (stepwise_checkElements es element).bind fun _ => stepwise_requireLength _ _ _
  | .call span f as, expected => by
    unfold checkValue
    have hcall := stepwise_callType span f as.length (stepwise_checkArguments as .empty)
    exact hcall.bind fun _ => stepwise_requireValue _ _ _

theorem stepwise_lengthOf :
    ∀ (e : Expr) (element : TypeExpr), StepwiseInside binds (lengthOf e element)
  | .collection span es, element => (stepwise_checkElements es element).bind fun _ => .pure _
  | .binary span op l r, element => by
    unfold lengthOf
    refine .ite ?_ (.fail _ _)
    refine (stepwise_lengthOf l element).bind fun _ => ?_
    exact (stepwise_lengthOf r element).bind fun _ => .pure _
  | .access a, element => (stepwise_accessType a).bind fun _ => stepwise_lengthOfBinding _ _ _
  | .call span f as, element => by
    unfold lengthOf
    have hcall := stepwise_callType span f as.length (stepwise_checkArguments as .empty)
    exact hcall.bind fun _ => stepwise_lengthOfBinding _ _ _
  | .unary _ _ _, _ => .fail _ _
  | .type _ _ _, _ => .fail _ _
  | .scalar _ _, _ => .fail _ _
  | .constructed _ _ _, _ => .fail _ _

theorem stepwise_functionOf : ∀ e : Expr, StepwiseInside binds (functionOf e)
  | .access a => .ite (stepwise_calleeType _) (.fail _ _)
  | .call span f as => by
    unfold functionOf
    have hcall := stepwise_callType span f as.length (stepwise_checkArguments as .empty)
    refine hcall.bind fun b => ?_
    cases b with
    | function ft => exact .pure _
    | value type => exact .fail _ _
  | .binary _ _ _ _ => .fail _ _
  | .unary _ _ _ => .fail _ _
  | .type _ _ _ => .fail _ _
  | .scalar _ _ => .fail _ _
  | .constructed _ _ _ => .fail _ _
  | .collection _ _ => .fail _ _

theorem stepwise_checkArguments : ∀ (args : List Expr) (σ : Substitution) (ps : List Parameter),
    StepwiseInside binds (checkArguments args σ ps)
  | [], _, _ => .pure _
  | arg :: args, _, [] => .pure _
  | arg :: args, σ, ⟨name, .value type⟩ :: ps => by
    unfold checkArguments
    refine (StepwiseInside.under _ _).bind fun type => ?_
    refine (stepwise_checkValue arg type).bind fun _ => ?_
    exact stepwise_checkArguments args _ ps
  | arg :: args, σ, ⟨name, .function qs result⟩ :: ps => by
    unfold checkArguments
    refine (stepwise_underFunction _ _).bind fun expected => ?_
    refine (stepwise_functionOf arg).bind fun got => ?_
    refine (stepwise_requireSameFunctionType _ _ _).bind fun _ => ?_
    exact stepwise_checkArguments args _ ps

theorem stepwise_checkElements : ∀ (es : List Expr) (element : TypeExpr),
    StepwiseInside binds (checkElements es element)
  | [], _ => .pure _
  | e :: es, element =>
    (stepwise_checkValue e element).bind fun _ => stepwise_checkElements es element

theorem stepwise_checkField : ∀ (fs : List (Named Expr)) (name : Symbol) (type : TypeExpr),
    StepwiseInside binds (checkField fs name type)
  | [], _, _ => .pure _
  | f :: fs, name, type => .ite (stepwise_checkValue f.val type) (stepwise_checkField fs name type)

end

/-! ## §6. Declarations. -/

theorem stepwise_requireParams (t : TypeExpr) (arity : Nat) :
    StepwiseInside binds (requireParams t arity) :=
  .ite (.pure _) (.fail _ _)

theorem stepwise_requireFormedLength (params : List Expr) :
    StepwiseInside binds (requireFormedLength params) := by
  unfold requireFormedLength
  split
  · exact stepwise_checkValue _ _
  · exact .pure _

theorem stepwise_checkParams (deps : List Variable) : ∀ (params : List Expr) (σ : Substitution),
    StepwiseInside binds (checkParams σ deps params) := by
  induction deps with
  | nil =>
    intro params σ
    exact .pure _
  | cons dep deps ih =>
    intro params σ
    cases params with
    | nil => exact .pure _
    | cons param params =>
      refine (StepwiseInside.under _ _).bind fun type => ?_
      refine (stepwise_checkValue param type).bind fun _ => ?_
      exact ih params _

mutual

theorem stepwise_requireFormedExpr : ∀ e : Expr, StepwiseInside binds (requireFormedExpr e)
  | .type span i ps => by
    unfold requireFormedExpr
    have helement := stepwise_requireFormedElement ⟨span, i, ps⟩ ps
    refine .ite (stepwise_requireParams _ 0) (.ite ?_ (.ite ?_ ?_))
    · refine (stepwise_requireParams _ 2).bind fun _ => helement.bind fun _ => ?_
      exact stepwise_requireFormedLength ps
    · exact (stepwise_requireParams _ 1).bind fun _ => helement
    · refine StepwiseInside.schema.bind fun s => (StepwiseInside.getSome _ _ _).bind fun deps => ?_
      exact (stepwise_requireParams _ _).bind fun _ => stepwise_checkParams _ _ _
  | .binary _ _ _ _ => .pure _
  | .unary _ _ _ => .pure _
  | .access _ => .pure _
  | .scalar _ _ => .pure _
  | .constructed _ _ _ => .pure _
  | .collection _ _ => .pure _
  | .call _ _ _ => .pure _

theorem stepwise_requireFormedElement (collection : TypeExpr) :
    ∀ ps : List Expr, StepwiseInside binds (requireFormedElement collection ps)
  | [] => .fail _ _
  | e :: ps => by
    unfold requireFormedElement
    split
    · exact stepwise_requireFormedExpr e
    · exact .fail _ _

end

/-- **Checking that a type is well-formed takes single steps.** -/
theorem stepwise_requireFormed (t : TypeExpr) : StepwiseInside binds (requireFormed t) :=
  stepwise_requireFormedExpr _

theorem stepwise_introduceVariables (vars : List Variable) :
    StepwiseInside true (introduceVariables vars) := by
  induction vars with
  | nil => exact .pure _
  | cons v vs ih =>
    refine (StepwiseInside.underCurrent _).bind fun type => ?_
    refine (stepwise_requireFormed _).bind fun _ => ?_
    exact (StepwiseInside.introduce _ _).bind fun _ => ih

theorem stepwise_checkInputs (inputs : List RuleInput) :
    ∀ deps : List Variable, StepwiseInside true (checkInputs inputs deps) := by
  induction inputs with
  | nil =>
    intro deps
    exact .pure _
  | cons input inputs ih =>
    intro deps
    cases deps with
    | nil => cases input <;> exact .pure _
    | cons dep deps =>
      cases input with
      | any span => exact ih deps
      | value p =>
        unfold checkInputs
        refine (StepwiseInside.underCurrent _).bind fun type => ?_
        have hrest : StepwiseInside true (replace dep.name.name p >>= fun _ =>
            checkInputs inputs deps) :=
          (StepwiseInside.replace _ _).bind fun _ => ih deps
        cases p.bareVar? with
        | some v => exact (StepwiseInside.introduce _ _).bind fun _ => hrest
        | none => exact (StepwiseInside.readInput (stepwise_checkValue p type)).bind fun _ => hrest

theorem stepwise_checkConstructors (cs : List Constructor) :
    StepwiseInside binds (checkConstructors cs) := by
  induction cs with
  | nil => exact .pure _
  | cons c cs ih =>
    exact (StepwiseInside.inScope (stepwise_introduceVariables c.fields)).bind fun _ => ih

theorem stepwise_checkRule (e : Enum) (rule : Rule) : StepwiseInside binds (checkRule e rule) := by
  have hscope : StepwiseInside true (checkInputs rule.inputs e.deps >>= fun _ =>
      checkConstructors rule.constructors) :=
    (stepwise_checkInputs _ _).bind fun _ => stepwise_checkConstructors _
  exact .guard (StepwiseInside.inScope hscope)

theorem stepwise_checkRules (e : Enum) (rules : List Rule) :
    StepwiseInside binds (checkRules e rules) := by
  induction rules with
  | nil => exact .pure _
  | cons rule rules ih => exact (stepwise_checkRule e rule).bind fun _ => ih

theorem stepwise_sortedFields (fields : List Variable) :
    StepwiseInside binds (sortedFields fields) := by
  induction fields with
  | nil => exact .pure _
  | cons v vs ih =>
    exact (StepwiseInside.getSome _ _ _).bind fun _ => ih.bind fun _ => .pure _

theorem stepwise_variants (cs : List Constructor) : StepwiseInside binds (variants cs) := by
  induction cs with
  | nil => exact .pure _
  | cons c cs ih => exact (stepwise_sortedFields _).bind fun _ => ih.bind fun _ => .pure _

/-- The part of the check of a type that comes before its declaration. -/
def typeBody (d : TypeDef) : Check Unit := do
  introduceVariables d.deps
  match d with
  | .message m => introduceVariables m.fields
  | .enum e => checkRules e e.rules

theorem stepwise_typeBody (d : TypeDef) : StepwiseInside true (typeBody d) := by
  refine (stepwise_introduceVariables _).bind fun _ => ?_
  cases d with
  | message m => exact stepwise_introduceVariables _
  | enum e => exact stepwise_checkRules _ _

theorem stepwise_checkTypeDef (d : TypeDef) : Stepwise binds (checkTypeDef d) :=
  (StepwiseInside.inScope (stepwise_typeBody d)).stepwise.bind fun _ =>
    (stepwise_variants _).stepwise.bind fun _ => .declareType _

mutual

theorem stepwise_checkParameter :
    ∀ {b : Bool} (t : ParameterType), StepwiseInside b (checkParameter t)
  | _, .value t => by
    refine (StepwiseInside.underCurrent t).bind fun type => ?_
    exact (stepwise_requireFormed type).bind fun _ => .pure _
  | _, .function ps result => by
    unfold checkParameter
    have hscope : StepwiseInside true (introduceParameters ps >>= fun _ =>
        underCurrent result >>= fun type => requireFormed type) := by
      refine (stepwise_introduceParameters ps).bind fun _ => ?_
      exact (StepwiseInside.underCurrent _).bind fun _ => stepwise_requireFormed _
    exact (StepwiseInside.inScope hscope).bind fun _ => .pure _

theorem stepwise_introduceParameters :
    ∀ ps : List (Named ParameterType), StepwiseInside true (introduceParameters ps)
  | [] => .pure _
  | p :: ps => by
    refine (stepwise_checkParameter p.val).bind fun b => ?_
    exact (StepwiseInside.introduce _ _).bind fun _ => stepwise_introduceParameters ps

end

/-- The part of the check of a function that has a scope of its own. -/
def functionBody (f : FunctionDef) : Check Unit := do
  introduceParameters f.params
  let result ← underCurrent f.result
  requireFormed result
  match f.body with
  | some body => checkValue body result
  | none => pure ()

theorem stepwise_functionBody (f : FunctionDef) : StepwiseInside true (functionBody f) := by
  refine (stepwise_introduceParameters _).bind fun _ => ?_
  refine (StepwiseInside.underCurrent _).bind fun result => ?_
  refine (stepwise_requireFormed _).bind fun _ => ?_
  cases f.body with
  | some body => exact stepwise_checkValue _ _
  | none => exact .pure _

/-- The whole check of a function is one inside a declaration, that of a type is not: it declares
the type at its end. -/
theorem stepwiseInside_checkFunctionDef (f : FunctionDef) :
    StepwiseInside binds (checkFunctionDef f) :=
  (StepwiseInside.note _).bind fun _ => .inScope (stepwise_functionBody f)

theorem stepwise_checkFunctionDef (f : FunctionDef) : Stepwise binds (checkFunctionDef f) :=
  (stepwiseInside_checkFunctionDef f).stepwise

theorem stepwise_declareIfSorted (f : FunctionDef) : Stepwise binds (declareIfSorted f) := by
  unfold declareIfSorted
  split
  · exact .note _
  · split
    · exact .declareFunction _
    · exact .pure _

/-! ## §7. Schemas. -/

theorem stepwise_checkTypes (names : List Symbol) : Stepwise binds (checkTypes names) := by
  induction names with
  | nil => exact .pure _
  | cons name names ih =>
    unfold checkTypes
    refine Stepwise.schema.bind fun s => ?_
    cases s.type? name with
    | none => exact (Stepwise.failUnlocated _).bind fun _ => ih
    | some d => exact (Stepwise.note _).bind fun _ => (stepwise_checkTypeDef d).bind fun _ => ih

/-- **Checking a schema takes single steps.** -/
theorem stepwise_checkSchema : Stepwise binds checkSchema := by
  unfold checkSchema
  refine Stepwise.schema.bind fun s => ?_
  refine .ite ((Stepwise.failUnlocated _).bind fun _ => ?_) ?_ <;>
  · refine (stepwise_checkTypes _).bind fun _ => ?_
    exact (Stepwise.forM stepwise_declareIfSorted _).bind fun _ => .forM stepwise_checkFunctionDef _

end Typing

end DepSchema
