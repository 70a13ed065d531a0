/-
DepSchema.Proofs.Dispatch.Choice — the rule that decides, read off the rules.

The structural oracle never fails and remembers nothing. What matching finds is then a function of
the patterns and the actual values alone, and so is the rule that an enum chooses for parameters:
the first one whose inputs they all match. Dispatch succeeds exactly when there is such a rule and
it offers the constructor.

Main results: `gives_dispatchFrom` and `dispatch_ok_iff`.
-/
import DepSchema.Proofs.Typing.Frame
import DepSchema.Oracle.Structural

namespace DepSchema

/-! ## §1. What matching finds. -/

/-- The constructor is that of a message, so that its fields can be taken from any variable. -/
def Schema.ofMessage (s : Schema) (ctor : Symbol) : Bool :=
  match s.constructor? ctor with
  | some (.message _, _) => true
  | _ => false

namespace Expr

/-- The fields of an actual value where a pattern has the constructor `ctor`: those of the same
constructor, or those of a variable if `message` says that the constructor is a message's. -/
def parts? (message : Symbol → Bool) (ctor : Symbol) : Expr → Option (Ident → Option Expr)
  | constructed _ c values =>
    if c.name = ctor then some fun f => Named.find? values f.name else none
  | access a => if message ctor then some fun f => some (.access (a.field f)) else none
  | _ => none

/-- A pattern that binds nothing and is compared with the actual value. -/
def comparison? (σ : Substitution) (actual pattern : Expr) : Option Substitution :=
  match actual with
  | constructed _ _ _ => none
  | _ => if Structural.equal pattern actual then some σ else none

mutual

/-- The substitution with what a pattern binds, if the actual value matches it. -/
def bindings? (message : Symbol → Bool) (σ : Substitution) (actual : Expr) :
    Expr → Option Substitution
  | access a =>
    if a.isVar then some (σ.bind a.var.name actual) else comparison? σ actual (.access a)
  | constructed _ ctor inits =>
    (actual.parts? message ctor.name).bind fun valueOf => fieldBindings? message σ valueOf inits
  | pattern => comparison? σ actual pattern
termination_by structural pattern => pattern

/-- The same for the fields of a pattern, where `valueOf` gives the actual values. -/
def fieldBindings? (message : Symbol → Bool) (σ : Substitution) (valueOf : Ident → Option Expr) :
    List (Named Expr) → Option Substitution
  | [] => some σ
  | f :: fs =>
    (valueOf f.name).bind fun value =>
      (bindings? message σ value f.val).bind fun σ => fieldBindings? message σ valueOf fs
termination_by structural fs => fs

end

end Expr

/-- The substitution with what inputs bind, if the parameters match them in order. -/
def RuleInput.bindings? (message : Symbol → Bool) (σ : Substitution) :
    List RuleInput → List Expr → Option Substitution
  | .any _ :: inputs, _ :: params => bindings? message σ inputs params
  | .value p :: inputs, param :: params =>
    (param.bindings? message σ p).bind fun σ => bindings? message σ inputs params
  | _, _ => some σ

/-- The substitution with what a rule binds, if the parameters match it. -/
def Rule.bindings? (message : Symbol → Bool) (σ : Substitution) (rule : Rule)
    (params : List Expr) : Option Substitution :=
  if rule.inputs.length = params.length then RuleInput.bindings? message σ rule.inputs params
  else none

/-- The first rule that the parameters match, and what it binds. -/
def Rule.chosen? (message : Symbol → Bool) (σ : Substitution) (params : List Expr)
    (rules : List Rule) : Option (Rule × Substitution) :=
  rules.findSome? fun rule => (rule.bindings? message σ params).map fun bound => (rule, bound)

/-- What that rule binds, if it offers the constructor. -/
def Rule.offered? (message : Symbol → Bool) (σ : Substitution) (params : List Expr)
    (rules : List Rule) (ctor : Symbol) : Option Substitution :=
  (chosen? message σ params rules).bind fun (rule, bound) =>
    if (rule.constructor? ctor).isSome then some bound else none

theorem Rule.offered?_eq_some_iff {message : Symbol → Bool} {σ bound : Substitution}
    {params : List Expr} {rules : List Rule} {ctor : Symbol} :
    offered? message σ params rules ctor = some bound
      ↔ ∃ rule, chosen? message σ params rules = some (rule, bound)
        ∧ (rule.constructor? ctor).isSome = true := by
  simp [offered?, Option.bind_eq_some_iff]

/-- Without parameters nothing is bound. -/
theorem Rule.eq_of_offered?_nil {message : Symbol → Bool} {σ bound : Substitution}
    {rules : List Rule} {ctor : Symbol} (h : offered? message σ [] rules ctor = some bound) :
    bound = σ := by
  obtain ⟨rule, hchosen, -⟩ := offered?_eq_some_iff.mp h
  obtain ⟨other, -, hbound⟩ := List.exists_of_findSome?_eq_some hchosen
  obtain ⟨found, hfound, heq⟩ := Option.map_eq_some_iff.mp hbound
  cases heq
  unfold bindings? at hfound
  split at hfound
  · next hlength =>
    rw [List.length_eq_zero_iff.mp hlength] at hfound
    exact (Option.some.inj hfound).symm
  · cases hfound

/-! ## §2. Checks with one result. -/

namespace Check

variable {α β : Type} {c : Setting}

/-- From every state the check gives `a`. -/
def Gives (c : Setting) (x : Check α) (a : α) : Prop := ∀ s, (x c s).1 = .ok a

theorem Gives.pure (a : α) : Gives c (pure a) a := fun _ => rfl

theorem Gives.bind {x : Check α} {f : α → Check β} {a : α} {b : β} (hx : Gives c x a)
    (hf : Gives c (f a) b) : Gives c (x >>= f) b := by
  intro s
  have hrun : x c s = (.ok a, (x c s).2) := Prod.ext (hx s) rfl
  rw [bind_ok hrun]
  exact hf _

/-- One match after another. -/
theorem Gives.bindOption {x : Check (Option Substitution)} {found : Option Substitution}
    {f : Substitution → Check (Option Substitution)} {g : Substitution → Option Substitution}
    (hx : Gives c x found) (hf : ∀ σ, Gives c (f σ) (g σ)) :
    Gives c (x >>= fun | none => Pure.pure none | some σ => f σ) (found.bind g) := by
  refine hx.bind ?_
  cases found with
  | none => exact .pure _
  | some σ => exact hf σ

theorem Gives.schema : Gives c Check.schema c.schema := fun _ => rfl

theorem Gives.note (e : Event) : Gives c (Check.note e) () := fun _ => rfl

theorem Gives.askEqual (hc : c.oracle = Structural.oracle) (expected got : Expr) :
    Gives c (Check.askEqual expected got) (Structural.equal expected got) := by
  intro s
  have hanswer : c.oracle s.queries (.equal expected got s.scopes)
      = .ok (Structural.equal expected got) := by
    rw [hc]
    rfl
  unfold Check.askEqual
  rw [ask_ok hanswer]

end Check

/-! ## §3. Matching and dispatch. -/

namespace Typing

open Check

variable {c : Setting}

theorem gives_matchByOracle (hc : c.oracle = Structural.oracle) (σ : Substitution)
    (pattern actual : Expr) :
    Gives c (matchByOracle σ pattern actual) (actual.comparison? σ pattern) := by
  unfold matchByOracle
  cases actual with
  | constructed _ _ _ => exact .pure _
  | _ => exact (Gives.askEqual hc _ _).bind ((Gives.note _).bind (.pure _))

mutual

theorem gives_matchExpr (hc : c.oracle = Structural.oracle) :
    ∀ (pattern : Expr) (σ : Substitution) (actual : Expr),
      Gives c (matchExpr σ actual pattern) (actual.bindings? c.schema.ofMessage σ pattern)
  | .access a, σ, actual => by
    unfold matchExpr Expr.bindings?
    by_cases hvar : a.isVar = true
    · rw [if_pos hvar, if_pos hvar]
      exact .pure _
    · rw [if_neg hvar, if_neg hvar]
      exact gives_matchByOracle hc _ _ _
  | .constructed _ ctor inits, σ, actual => by
    unfold matchExpr
    show Gives c _ ((actual.parts? c.schema.ofMessage ctor.name).bind _)
    cases actual with
    | constructed span head values =>
      show Gives c (if head.name = ctor.name then _ else _)
        ((if head.name = ctor.name then _ else _ : Option _).bind _)
      by_cases hctor : head.name = ctor.name
      · rw [if_pos hctor, if_pos hctor]
        exact gives_matchInits hc inits _ _
      · rw [if_neg hctor, if_neg hctor]
        exact .pure _
    | access a =>
      refine Gives.schema.bind ?_
      show Gives c _ ((if c.schema.ofMessage ctor.name then _ else _ : Option _).bind _)
      cases hfound : c.schema.constructor? ctor.name with
      | none =>
        have hno : c.schema.ofMessage ctor.name = false := by simp [Schema.ofMessage, hfound]
        rw [hno]
        exact .pure _
      | some owned =>
        obtain ⟨owner, declared⟩ := owned
        cases owner with
        | message m =>
          have hyes : c.schema.ofMessage ctor.name = true := by simp [Schema.ofMessage, hfound]
          rw [hyes]
          exact gives_matchInits hc inits _ _
        | enum e =>
          have hno : c.schema.ofMessage ctor.name = false := by simp [Schema.ofMessage, hfound]
          rw [hno]
          exact .pure _
    | _ => exact .pure _
  | .scalar span v, σ, actual => gives_matchByOracle hc σ (.scalar span v) actual
  | .binary span op l r, σ, actual => gives_matchByOracle hc σ (.binary span op l r) actual
  | .unary span op x, σ, actual => gives_matchByOracle hc σ (.unary span op x) actual
  | .type span i ps, σ, actual => gives_matchByOracle hc σ (.type span i ps) actual
  | .collection span es, σ, actual => gives_matchByOracle hc σ (.collection span es) actual
  | .call span f as, σ, actual => gives_matchByOracle hc σ (.call span f as) actual

theorem gives_matchInits (hc : c.oracle = Structural.oracle) :
    ∀ (inits : List (Named Expr)) (σ : Substitution) (valueOf : Ident → Option Expr),
      Gives c (matchInits σ valueOf inits)
        (Expr.fieldBindings? c.schema.ofMessage σ valueOf inits)
  | [], _, _ => .pure _
  | f :: fs, σ, valueOf => by
    unfold matchInits Expr.fieldBindings?
    cases valueOf f.name with
    | none => exact .pure _
    | some value =>
      exact .bindOption (gives_matchExpr hc f.val σ value)
        fun σ => gives_matchInits hc fs σ valueOf

end

theorem gives_matchInputs (hc : c.oracle = Structural.oracle) :
    ∀ (inputs : List RuleInput) (params : List Expr) (σ : Substitution),
      Gives c (matchInputs σ inputs params)
        (RuleInput.bindings? c.schema.ofMessage σ inputs params)
  | .any _ :: inputs, _ :: params, σ => gives_matchInputs hc inputs params σ
  | .value p :: inputs, param :: params, σ =>
    .bindOption (gives_matchExpr hc p σ param) fun σ => gives_matchInputs hc inputs params σ
  | [], _, _ => .pure _
  | .any _ :: _, [], _ => .pure _
  | .value _ :: _, [], _ => .pure _

theorem gives_matchRule (hc : c.oracle = Structural.oracle) (σ : Substitution) (rule : Rule)
    (params : List Expr) :
    Gives c (matchRule σ rule params) (rule.bindings? c.schema.ofMessage σ params) := by
  unfold matchRule Rule.bindings?
  split
  · exact gives_matchInputs hc _ _ _
  · exact .pure _

/-- **What dispatch gives**, whatever it has asked and noted before: what the chosen rule binds, if
there is such a rule and it offers the constructor. -/
theorem gives_dispatchFrom (hc : c.oracle = Structural.oracle) {enum : Symbol} {ctor : Ident}
    {params : List Expr} {σ : Substitution} (rules : List Rule) :
    ∀ (index : Nat) (s : Checking), (dispatchFrom enum ctor params σ rules index c s).1
      = match Rule.offered? c.schema.ofMessage σ params rules ctor.name with
        | some bound => .ok bound
        | none => .error (.located ctor.span (.constructorUnavailable ctor.name)) := by
  induction rules with
  | nil => exact fun _ _ => rfl
  | cons rule rules ih =>
    intro index s
    have hmatch := gives_matchRule hc σ rule params s
    unfold dispatchFrom Rule.offered? Rule.chosen?
    rw [bind_ok (Prod.ext hmatch rfl), List.findSome?_cons]
    cases hrule : rule.bindings? c.schema.ofMessage σ params with
    | none => exact ih _ _
    | some bound =>
      -- the first rule that matches decides, whether or not it offers the constructor
      show ((do note _; if (rule.constructor? ctor.name).isSome then pure bound else _ : Check _)
        c _).1 = match if (rule.constructor? ctor.name).isSome then some bound else none with
          | some bound => .ok bound
          | none => _
      by_cases hoffers : (rule.constructor? ctor.name).isSome = true
      · rw [if_pos hoffers, if_pos hoffers]
        rfl
      · rw [if_neg hoffers, if_neg hoffers]
        rfl

/-- **Dispatch succeeds exactly when the first rule that the parameters match offers the
constructor.** -/
theorem dispatch_ok_iff (hc : c.oracle = Structural.oracle) {e : Enum} {ctor : Ident}
    {params : List Expr} {σ bound : Substitution} (s : Checking) :
    (dispatch e ctor params σ c s).1 = .ok bound ↔
      ∃ rule, Rule.chosen? c.schema.ofMessage σ params e.rules = some (rule, bound)
        ∧ (rule.constructor? ctor.name).isSome = true := by
  rw [dispatch, gives_dispatchFrom hc, ← Rule.offered?_eq_some_iff]
  cases Rule.offered? c.schema.ofMessage σ params e.rules ctor.name <;> simp

/-- Dispatch fails in one way only. -/
theorem dispatch_eq_error (hc : c.oracle = Structural.oracle) {e : Enum} {ctor : Ident}
    {params : List Expr} {σ : Substitution} (s : Checking) {d : Diagnostic}
    (h : (dispatch e ctor params σ c s).1 = .error d) :
    d = .located ctor.span (.constructorUnavailable ctor.name) := by
  rw [dispatch, gives_dispatchFrom hc] at h
  cases hoffered : Rule.offered? c.schema.ofMessage σ params e.rules ctor.name with
  | some bound =>
    rw [hoffered] at h
    cases h
  | none =>
    rw [hoffered] at h
    cases h
    rfl

end Typing

end DepSchema
