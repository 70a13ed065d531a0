/-
DepSchema.Proofs.Typing.Knowing — checks that never report an undefined name.

A check reports an undefined name only where it looks one up: the head of a type, the constructor of
a value, a callee or a variable. All that works on types and expressions which are at hand already
compares, substitutes and matches, and fails for other reasons. Looking up a field of a message is
no exception, since a missing field has a cause of its own.

Main definition: `Check.Knowing`. Main results: `knowing_requireSameType`,
`knowing_requireSameFunctionType`, `knowing_fieldsType` and `knowing_dispatch`.
-/
import DepSchema.Proofs.Typing.Frame

namespace DepSchema

/-- The cause is that a name is not declared as what it is used for. -/
def Cause.isUndefined : Cause → Bool
  | undefinedType _ => true
  | undefinedVariable _ => true
  | undefinedFunction _ => true
  | undefinedConstructor _ => true
  | _ => false

namespace Check

variable {α β : Type}

/-- Whatever the setting and the state, the check fails for no undefined name. -/
def Knowing (x : Check α) : Prop :=
  ∀ c s d, (x c s).1 = .error d → d.cause.isUndefined = false

namespace Knowing

theorem of_ok {x : Check α} (h : ∀ c s, ∃ a, (x c s).1 = .ok a) : x.Knowing := by
  intro c s d hd
  obtain ⟨a, ha⟩ := h c s
  rw [ha] at hd
  cases hd

theorem pure (a : α) : Knowing (Pure.pure a) := of_ok fun _ _ => ⟨a, rfl⟩

theorem bind {x : Check α} {f : α → Check β} (hx : x.Knowing) (hf : ∀ a, (f a).Knowing) :
    (x >>= f).Knowing := by
  intro c s d hd
  rcases hrun : x c s with ⟨e | a, t⟩
  · rw [bind_error hrun] at hd
    exact hx c s d (by rw [hrun]; cases hd; rfl)
  · rw [bind_ok hrun] at hd
    exact hf a c t d hd

theorem fail {span : Span} {cause : Cause} (h : cause.isUndefined = false := by rfl) :
    Knowing (fail (α := α) span cause) := by
  intro c s d hd
  cases hd
  exact h

theorem ite {p : Prop} [Decidable p] {x y : Check α} (hx : x.Knowing) (hy : y.Knowing) :
    (if p then x else y).Knowing := by
  split
  · exact hx
  · exact hy

/-- A condition under which the check fails, and what comes after it. -/
theorem guard {p : Prop} [Decidable p] {span : Span} {cause : Cause} {f : α → Check β} {x : Check β}
    (hx : x.Knowing) (h : cause.isUndefined = false := by rfl) :
    (if p then Check.fail span cause >>= f else x).Knowing := by
  -- nothing is run after a failure
  have hstop : Check.fail span cause >>= f = Check.fail span cause := rfl
  rw [hstop]
  exact ite (fail h) hx

theorem getSome {span : Span} {cause : Cause} {o : Option α}
    (h : cause.isUndefined = false := by rfl) : Knowing (getSome span cause o) := by
  cases o with
  | none => exact fail h
  | some a => exact pure a

theorem schema : Knowing schema := of_ok fun c _ => ⟨c.schema, rfl⟩

theorem note (e : Event) : Knowing (note e) := of_ok fun _ _ => ⟨(), rfl⟩

theorem introduce (n : Symbol) (b : Binding) : Knowing (introduce n b) := of_ok fun _ _ => ⟨(), rfl⟩

theorem under (σ : Substitution) (t : TypeExpr) : Knowing (under σ t) := by
  intro c s d hd
  unfold Check.under ofSubstitution at hd
  cases happly : σ.applyType t with
  | error e =>
    rw [happly] at hd
    cases hd
    rfl
  | ok t' =>
    rw [happly] at hd
    cases hd

theorem underCurrent (t : TypeExpr) : Knowing (underCurrent t) :=
  fun c s d hd => under s.substitution t c s d hd

theorem ask (q : Query) : Knowing (ask q) := by
  intro c s d hd
  unfold Check.ask at hd
  dsimp only at hd
  cases horacle : c.oracle s.queries q with
  | error e =>
    rw [horacle] at hd
    cases hd
    rfl
  | ok a =>
    rw [horacle] at hd
    cases hd

theorem askEqual (expected got : Expr) : Knowing (askEqual expected got) :=
  fun c s d hd => ask (.equal expected got s.scopes) c s d hd

theorem inScope {x : Check α} (hx : x.Knowing) : (inScope x).Knowing :=
  fun c s d hd => hx c s.opened d hd

end Knowing

end Check

namespace Typing

open Check

/-! ## §1. Types. -/

theorem knowing_requireSameHead (expected got : TypeExpr) (span : Span) :
    (requireSameHead expected got span).Knowing := by
  unfold requireSameHead
  dsimp only
  exact .guard (.ite .fail (.pure _))

theorem knowing_elementType (t : TypeExpr) (index : Nat) : (elementType t index).Knowing := by
  unfold elementType
  exact (Knowing.getSome).bind fun _ => .getSome

mutual

theorem knowing_sameParam (span : Span) : ∀ e g : Expr, (sameParam span e g).Knowing
  | .type s i ps, g => by
    unfold sameParam
    split
    · next t _ =>
      refine (knowing_requireSameHead _ _ _).bind fun _ => ?_
      exact (knowing_requireSameParams span ps t.params 0).bind fun _ => .pure _
    · exact .pure _
  | .binary _ _ _ _, _ => .ite (.pure _) (.askEqual _ _)
  | .unary _ _ _, _ => .ite (.pure _) (.askEqual _ _)
  | .access _, _ => .ite (.pure _) (.askEqual _ _)
  | .scalar _ _, _ => .ite (.pure _) (.askEqual _ _)
  | .constructed _ _ _, _ => .ite (.pure _) (.askEqual _ _)
  | .collection _ _, _ => .ite (.pure _) (.askEqual _ _)
  | .call _ _ _, _ => .ite (.pure _) (.askEqual _ _)

theorem knowing_requireSameParams (span : Span) :
    ∀ (es gs : List Expr) (index : Nat), (requireSameParams span es gs index).Knowing
  | [], _, _ => .pure _
  | _ :: _, [], _ => .pure _
  | e :: es, g :: gs, index => by
    unfold requireSameParams
    refine (knowing_sameParam span e g).bind fun same => ?_
    dsimp only
    have hrest := knowing_requireSameParams span es gs (index + 1)
    split
    · exact hrest
    · exact (Knowing.fail).bind fun _ => hrest

end

theorem knowing_requireSameType (expected got : TypeExpr) (span : Span) :
    (requireSameType expected got span).Knowing := by
  unfold requireSameType
  exact (knowing_requireSameHead _ _ _).bind fun _ => knowing_requireSameParams _ _ _ _

theorem knowing_requireSameSignature (span : Span) (arity : Nat) (result : TypeExpr)
    (got : FunctionType) {parameters : Check Substitution} (h : parameters.Knowing) :
    (requireSameSignature span arity result got parameters).Knowing := by
  unfold requireSameSignature
  dsimp only
  refine .guard (.inScope (h.bind fun rename => ?_))
  exact (Knowing.under _ _).bind fun _ => knowing_requireSameType _ _ _

mutual

theorem knowing_requireSameParameter (span : Span) :
    ∀ (expected got : ParameterType) (index : Nat) (rename : Substitution),
      (requireSameParameter span expected got index rename).Knowing
  | .value expected, .value got, index, rename => by
    unfold requireSameParameter
    refine (Knowing.under _ _).bind fun _ => ?_
    exact (knowing_requireSameType _ _ _).bind fun _ => .pure _
  | .function ps result, .function qs got, index, rename => by
    unfold requireSameParameter
    have hparams := knowing_requireSameParameters span ps qs 0 .empty
    exact (knowing_requireSameSignature _ _ _ _ hparams).bind fun _ => .pure _
  | .value _, .function _ _, _, _ => .fail
  | .function _ _, .value _, _, _ => .fail

theorem knowing_requireSameParameters (span : Span) :
    ∀ (es gs : List (Named ParameterType)) (index : Nat) (rename : Substitution),
      (requireSameParameters span es gs index rename).Knowing
  | [], _, _, _ => .pure _
  | _ :: _, [], _, _ => .pure _
  | e :: es, g :: gs, index, rename => by
    unfold requireSameParameters
    refine (knowing_requireSameParameter span e.val g.val index rename).bind fun b => ?_
    exact (Knowing.introduce _ _).bind fun _ => knowing_requireSameParameters span es gs _ _

end

theorem knowing_requireSameFunctionType (expected got : FunctionType) (span : Span) :
    (requireSameFunctionType expected got span).Knowing :=
  knowing_requireSameSignature _ _ _ _ (knowing_requireSameParameters _ _ _ _ _)

mutual

theorem knowing_underParameter (σ : Substitution) :
    ∀ t : ParameterType, (underParameter σ t).Knowing
  | .value t => (Knowing.under _ _).bind fun _ => .pure _
  | .function ps result => by
    unfold underParameter
    refine (knowing_underParameters σ ps).bind fun _ => ?_
    exact (Knowing.under _ _).bind fun _ => .pure _

theorem knowing_underParameters (σ : Substitution) :
    ∀ ps : List (Named ParameterType), (underParameters σ ps).Knowing
  | [] => .pure _
  | p :: ps => by
    unfold underParameters
    refine (knowing_underParameter σ p.val).bind fun _ => ?_
    exact (knowing_underParameters σ ps).bind fun _ => .pure _

end

theorem knowing_underFunction (σ : Substitution) (ft : FunctionType) :
    (underFunction σ ft).Knowing := by
  unfold underFunction
  refine (knowing_underParameters σ _).bind fun _ => ?_
  exact (Knowing.under _ _).bind fun _ => .pure _

/-! ## §2. Fields and rules. -/

theorem knowing_fieldType (base : Access) (type : TypeExpr) (field : Ident) :
    (fieldType base type field).Knowing := by
  unfold fieldType
  refine Knowing.schema.bind fun s => ?_
  split
  · exact .fail
  · exact .fail
  · exact (Knowing.getSome).bind fun _ => .under _ _

theorem knowing_fieldsType (fields : List Ident) :
    ∀ (base : Access) (type : TypeExpr), (fieldsType base type fields).Knowing := by
  induction fields with
  | nil =>
    intro base type
    exact .pure _
  | cons f fs ih =>
    intro base type
    exact (knowing_fieldType base type f).bind fun _ => ih _ _

theorem knowing_matchByOracle (σ : Substitution) (pattern actual : Expr) :
    (matchByOracle σ pattern actual).Knowing := by
  unfold matchByOracle
  split
  · exact .pure _
  · exact (Knowing.askEqual _ _).bind fun _ => (Knowing.note _).bind fun _ => .pure _

mutual

theorem knowing_matchExpr : ∀ (pattern : Expr) (σ : Substitution) (actual : Expr),
    (matchExpr σ actual pattern).Knowing
  | .access _, _, _ => .ite (.pure _) (knowing_matchByOracle _ _ _)
  | .constructed _ ctor inits, σ, actual => by
    unfold matchExpr
    split
    · exact .ite (knowing_matchInits inits _ _) (.pure _)
    · refine Knowing.schema.bind fun s => ?_
      split
      · exact knowing_matchInits inits _ _
      · exact .pure _
    · exact .pure _
  | .binary _ _ _ _, _, _ => knowing_matchByOracle _ _ _
  | .unary _ _ _, _, _ => knowing_matchByOracle _ _ _
  | .type _ _ _, _, _ => knowing_matchByOracle _ _ _
  | .scalar _ _, _, _ => knowing_matchByOracle _ _ _
  | .collection _ _, _, _ => knowing_matchByOracle _ _ _
  | .call _ _ _, _, _ => knowing_matchByOracle _ _ _

theorem knowing_matchInits : ∀ (fs : List (Named Expr)) (σ : Substitution)
    (valueOf : Ident → Option Expr), (matchInits σ valueOf fs).Knowing
  | [], _, _ => .pure _
  | f :: fs, σ, valueOf => by
    unfold matchInits
    split
    · exact .pure _
    · refine (knowing_matchExpr f.val _ _).bind fun r => ?_
      cases r with
      | none => exact .pure _
      | some σ' => exact knowing_matchInits fs σ' valueOf

end

theorem knowing_matchInputs (inputs : List RuleInput) : ∀ (σ : Substitution)
    (params : List Expr), (matchInputs σ inputs params).Knowing := by
  induction inputs with
  | nil =>
    intro σ params
    exact .pure _
  | cons input inputs ih =>
    intro σ params
    cases params with
    | nil => cases input <;> exact .pure _
    | cons param params =>
      cases input with
      | any span => exact ih σ params
      | value p =>
        refine (knowing_matchExpr p σ param).bind fun r => ?_
        cases r with
        | none => exact .pure _
        | some σ' => exact ih σ' params

/-- A constructor that no rule offers is unavailable, which is not the same as undefined. -/
theorem knowing_dispatch (e : Enum) (ctor : Ident) (params : List Expr) (σ : Substitution) :
    (dispatch e ctor params σ).Knowing := by
  unfold dispatch
  generalize 0 = index
  induction e.rules generalizing index with
  | nil => exact .fail
  | cons rule rules ih =>
    have hrule : (matchRule σ rule params).Knowing := .ite (knowing_matchInputs _ _ _) (.pure _)
    refine hrule.bind fun r => ?_
    cases r with
    | none => exact (Knowing.note _).bind fun _ => ih _
    | some bound => exact (Knowing.note _).bind fun _ => .ite (.pure _) .fail

/-! ## §3. Lengths and sorts. -/

theorem knowing_requireValue (expected : TypeExpr) (actual : Binding) (span : Span) :
    (requireValue expected actual span).Knowing := by
  cases actual with
  | value type => exact knowing_requireSameType _ _ _
  | function ft => exact .fail

theorem knowing_requireLength (expected got : Expr) (span : Span) :
    (requireLength expected got span).Knowing := by
  unfold requireLength
  refine (Knowing.askEqual _ _).bind fun equal => ?_
  exact .ite (.pure _) .fail

theorem knowing_lengthOfBinding (element : TypeExpr) (actual : Binding) (span : Span) :
    (lengthOfBinding element actual span).Knowing := by
  unfold lengthOfBinding
  cases actual with
  | function ft => exact .fail
  | value type =>
    refine .ite .fail ?_
    refine (knowing_elementType _ _).bind fun _ => ?_
    exact (knowing_requireSameType _ _ _).bind fun _ => .getSome

theorem knowing_requireParams (t : TypeExpr) (arity : Nat) : (requireParams t arity).Knowing :=
  .ite (.pure _) .fail

end Typing

end DepSchema
