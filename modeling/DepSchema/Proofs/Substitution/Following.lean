/-
DepSchema.Proofs.Substitution.Following — checks that take no field that is not there.

In a state all that stands for a variable is known: names in scope are bound to types and functions
of the schema, and the substitution in force is one of expressions with known shapes. A check that
starts in such a state and goes on ends in one. If it fails, then for no field that cannot be taken,
unless from the result of a call. Such checks can be put together; the comparison of types comes
first, since it substitutes variables for variables only.

Main definition: `Check.Follows`. Main results: `Follows.bind`, `Follows.under` and
`follows_requireSameFunctionType`.
-/
import DepSchema.Proofs.Substitution.Shapes
import DepSchema.Proofs.Vocabulary.Asking

namespace DepSchema

/-! ## §1. States. -/

/-- Names in scope stand for types whose parameters have their shapes, and for functions of the
schema. -/
def Schema.Binds (s : Schema) : Binding → Prop
  | .value t => t.Supports s
  | .function ft => s.HasFunction ft

/-- Scopes are open, names in scope stand for what `B` allows, and what the substitution in force
puts for variables is known. -/
structure Checking.Supports (s : Schema) (B : Binding → Prop) (Γ : Heads) (t : Checking) :
    Prop where
  isOpen : t.scopes.frames ≠ []
  bindings : ∀ n b, t.scopes.find? n = some b → B b
  substitution : t.substitution.Supports s Γ

theorem Checking.Supports.of_eq {s : Schema} {B : Binding → Prop} {Γ : Heads} {t u : Checking}
    (ht : t.Supports s B Γ) (hscopes : u.scopes = t.scopes)
    (hsubstitution : u.substitution = t.substitution) : u.Supports s B Γ := by
  refine ⟨?_, ?_, ?_⟩
  · rw [hscopes]
    exact ht.isOpen
  · rw [hscopes]
    exact ht.bindings
  · rw [hsubstitution]
    exact ht.substitution

theorem Checking.supports_start (s : Schema) (B : Binding → Prop) (Γ : Heads) :
    Checking.start.Supports s B Γ :=
  ⟨by simp [start, Scopes.single], (fun n b h => by cases h), Substitution.supports_empty Γ⟩

/-! ## §2. Checks. -/

namespace Check

variable {α β : Type} {c : Setting} {B : Binding → Prop} {Γ Γ' : Heads}

/-- A failure is admitted, a result has `Q` and comes with a known state. -/
def Ends (s : Schema) (B : Binding → Prop) (Γ : Heads) (Q : α → Prop) :
    Except Diagnostic α × Checking → Prop
  | (.error d, _) => s.Admits d.cause
  | (.ok a, t) => t.Supports s B Γ ∧ Q a

/-- Where all that stands for variables is known, the check fails for no field that cannot be taken,
but from a call; or it goes on to results with `Q`, and all that stands for variables is known. -/
def Follows (c : Setting) (B : Binding → Prop) (Γ : Heads) (x : Check α) (Q : α → Prop) : Prop :=
  ∀ t : Checking, t.Supports c.schema B Γ → Ends c.schema B Γ Q (x c t)

namespace Follows

theorem mono {x : Check α} {P Q : α → Prop} (h : Follows c B Γ x P) (hPQ : ∀ a, P a → Q a) :
    Follows c B Γ x Q := by
  intro t ht
  have hx := h t ht
  rcases hrun : x c t with ⟨d | a, u⟩ <;> rw [hrun] at hx
  · exact hx
  · exact ⟨hx.1, hPQ a hx.2⟩

theorem pure {a : α} {Q : α → Prop} (h : Q a) : Follows c B Γ (Pure.pure a) Q :=
  fun _ ht => ⟨ht, h⟩

theorem fail {span : Span} {cause : Cause} {Q : α → Prop}
    (h : c.schema.Admits cause := by trivial) : Follows c B Γ (Check.fail span cause) Q :=
  fun _ _ => h

theorem failUnlocated {cause : Cause} {Q : α → Prop} (h : c.schema.Admits cause := by trivial) :
    Follows c B Γ (Check.failUnlocated cause) Q :=
  fun _ _ => h

/-- **One check after the other.** -/
theorem bind {x : Check α} {f : α → Check β} {P : α → Prop} {Q : β → Prop}
    (hx : Follows c B Γ x P) (hf : ∀ a, P a → Follows c B Γ (f a) Q) :
    Follows c B Γ (x >>= f) Q := by
  intro t ht
  have hfirst := hx t ht
  rcases hrun : x c t with ⟨d | a, u⟩ <;> rw [hrun] at hfirst
  · rw [bind_error hrun]
    exact hfirst
  · rw [bind_ok hrun]
    exact hf a hfirst.2 u hfirst.1

theorem ite {p : Prop} [Decidable p] {x y : Check α} {Q : α → Prop}
    (hx : p → Follows c B Γ x Q) (hy : ¬p → Follows c B Γ y Q) :
    Follows c B Γ (if p then x else y) Q := by
  by_cases hp : p
  · rw [if_pos hp]
    exact hx hp
  · rw [if_neg hp]
    exact hy hp

/-- A condition under which the check fails, and what comes after it. -/
theorem guard {p : Prop} [Decidable p] {span : Span} {cause : Cause} {f : α → Check β}
    {x : Check β} {Q : β → Prop} (hx : ¬p → Follows c B Γ x Q)
    (h : c.schema.Admits cause := by trivial) :
    Follows c B Γ (if p then Check.fail span cause >>= f else x) Q :=
  ite (fun _ => bind (P := fun _ => False) (fail h) fun _ hfalse => hfalse.elim) hx

theorem getSome {span : Span} {cause : Cause} {o : Option α}
    (h : c.schema.Admits cause := by trivial) :
    Follows c B Γ (Check.getSome span cause o) fun a => o = some a := by
  cases o with
  | none => exact fail h
  | some a => exact pure rfl

theorem schema : Follows c B Γ Check.schema fun s => s = c.schema := fun _ ht => ⟨ht, rfl⟩

theorem isReadingInput : Follows c B Γ Check.isReadingInput fun _ => True :=
  fun _ ht => ⟨ht, trivial⟩

theorem note (e : Event) : Follows c B Γ (Check.note e) fun _ => True :=
  fun _ ht => ⟨ht.of_eq rfl rfl, trivial⟩

/-- Whatever the oracle answers; if it fails, then not because of a field. -/
theorem ask (q : Query) : Follows c B Γ (Check.ask q) fun _ => True := by
  intro t ht
  unfold Check.ask
  dsimp only
  cases c.oracle t.queries q with
  | ok answer => exact ⟨ht.of_eq rfl rfl, trivial⟩
  | error e => trivial

theorem askEqual (expected got : Expr) :
    Follows c B Γ (Check.askEqual expected got) fun _ => True :=
  fun t ht => ask (.equal expected got t.scopes) t ht

theorem meaning? (n : Symbol) :
    Follows c B Γ (Check.meaning? n) fun o => ∀ b, o = some b → B b :=
  fun _ ht => ⟨ht, ht.bindings n⟩

theorem introduce (n : Symbol) {b : Binding} (hb : B b) :
    Follows c B Γ (Check.introduce n b) fun _ => True := by
  intro t ht
  refine ⟨⟨Scopes.bind_open ht.isOpen n b, ?_, ht.substitution⟩, trivial⟩
  exact Scopes.forall_find?_bind ht.isOpen hb ht.bindings

/-- **A type that fits is substituted**, or the substitution fails at a call. -/
theorem under {σ : Substitution} {type : TypeExpr} (hσ : σ.Supports c.schema Γ')
    (htype : type.Fits c.schema Γ') :
    Follows c B Γ (Check.under σ type) fun t => t.name = type.name ∧ t.Supports c.schema := by
  intro t ht
  unfold Check.under ofSubstitution
  cases happly : σ.applyType type with
  | error err => exact hσ.admits (Substitution.failsAt_of_applyType happly) htype.accesses
  | ok type' => exact ⟨ht, Typing.name_of_applyType happly, htype.shaped.apply hσ happly⟩

theorem underCurrent {type : TypeExpr} (htype : type.Fits c.schema Γ) :
    Follows c B Γ (Check.underCurrent type) fun t => t.name = type.name ∧ t.Supports c.schema :=
  fun t ht => under ht.substitution htype t ht

/-- A variable may be replaced by what fits the type that it has. -/
theorem replace {n T : Symbol} {e : Expr} (hn : (n, some T) ∈ Γ) (he : e.Fits c.schema Γ T) :
    Follows c B Γ (Check.replace n e) fun _ => True := by
  intro t ht
  unfold Check.replace Substitution.add
  cases happly : t.substitution.apply e with
  | error err => exact ht.substitution.admits (Substitution.failsAt_of_apply happly) he.accesses
  | ok e' =>
    refine ⟨⟨ht.isOpen, ht.bindings, ht.substitution.bind hn fun U hU => ?_⟩, trivial⟩
    cases hU
    exact he.shaped.apply ht.substitution happly

/-- **What holds in a scope of its own is not asked for outside**, neither of the names nor of the
substitution. -/
theorem inScope {A : Binding → Prop} {Δ : Heads} {x : Check α} {Q : α → Prop}
    (hframed : x.Framed) (hx : Follows c A Δ x Q) (hA : ∀ b, B b → A b) (hΔ : Γ ⊆ Δ) :
    Follows c B Γ (Check.inScope x) Q := by
  intro t ht
  have hopened : t.opened.Supports c.schema A Δ :=
    ⟨List.cons_ne_nil _ _, fun n b hb => hA b (ht.bindings n b hb),
      List.cons_ne_nil _ _, (ht.substitution.mono hΔ).range⟩
  have hinside := hx t.opened hopened
  -- what was bound inside goes with the scope
  obtain ⟨hscopes, hsubstitution, -⟩ := hframed.closed c ht.substitution.isOpen
  rw [inScope_eq]
  rcases hrun : x c t.opened with ⟨d | a, u⟩ <;> rw [hrun] at hinside hscopes hsubstitution
  · exact hinside
  · exact ⟨ht.of_eq hscopes hsubstitution, hinside.2⟩

theorem readInput {x : Check α} {Q : α → Prop} (hx : Follows c B Γ x Q) :
    Follows c B Γ (Check.readInput x) Q := by
  intro t ht
  have hinside := hx { t with readingInput := true } (ht.of_eq rfl rfl)
  unfold Check.readInput
  rcases hrun : x c { t with readingInput := true } with ⟨d | a, u⟩ <;> rw [hrun] at hinside
  · exact hinside
  · exact ⟨hinside.1.of_eq rfl rfl, hinside.2⟩

theorem forM {f : α → Check Unit} {as : List α}
    (h : ∀ a ∈ as, Follows c B Γ (f a) fun _ => True) :
    Follows c B Γ (as.forM f) fun _ => True := by
  induction as with
  | nil => exact pure trivial
  | cons a as ih =>
    rw [List.forall_mem_cons] at h
    exact h.1.bind fun _ _ => ih h.2

end Follows

end Check

/-! ## §3. Comparing types. -/

/-- Variables are replaced by variables. -/
structure Substitution.Renames (σ : Substitution) : Prop where
  isOpen : σ.scopes.frames ≠ []
  range : ∀ n e, σ.find? n = some e → ∃ a, e = .access a

namespace Substitution

theorem renames_empty : empty.Renames := ⟨empty_open, fun n e h => by cases h⟩

theorem Renames.bind {σ : Substitution} (hσ : σ.Renames) (n : Symbol) (v : Ident) :
    (σ.bind n (.ofVar v)).Renames := by
  refine ⟨bind_open hσ.isOpen n _, ?_⟩
  exact Scopes.forall_find?_bind hσ.isOpen ⟨.ofVar v, rfl⟩ hσ.range

/-- All fields can be taken from a variable. -/
theorem Renames.not_failsAt {σ : Substitution} (hσ : σ.Renames) {as : List Access}
    {err : AccessError} : ¬σ.FailsAt as err := by
  rintro ⟨a, -, bound, hfind, hfollow⟩
  obtain ⟨b, rfl⟩ := hσ.range _ _ hfind
  cases hfields : a.fields with
  | nil =>
    rw [hfields] at hfollow
    cases hfollow
  | cons f fs =>
    rw [hfields] at hfollow
    cases hfollow

end Substitution

namespace Typing

open Check

variable {c : Setting} {B : Binding → Prop} {Γ : Heads}

theorem follows_rename {σ : Substitution} (hσ : σ.Renames) (type : TypeExpr) :
    Follows c B Γ (under σ type) fun _ => True := by
  intro t ht
  unfold under ofSubstitution
  cases happly : σ.applyType type with
  | error err => exact absurd (Substitution.failsAt_of_applyType happly) hσ.not_failsAt
  | ok type' => exact ⟨ht, trivial⟩

theorem follows_elementType (t : TypeExpr) (index : Nat) : Follows c B Γ (elementType t index)
    fun u => ∃ e, t.params[index]? = some e ∧ e.type? = some u := by
  unfold elementType
  refine (Follows.getSome).bind fun e he => ?_
  exact (Follows.getSome).mono fun u hu => ⟨e, he, hu⟩

theorem follows_requireSameHead (expected got : TypeExpr) (span : Span) :
    Follows c B Γ (requireSameHead expected got span) fun _ => expected.name = got.name := by
  unfold requireSameHead
  dsimp only
  refine .guard fun hname => ?_
  exact .ite (fun _ => .fail) fun _ => .pure (not_not.mp hname)

mutual

theorem follows_sameParam (span : Span) :
    ∀ e g : Expr, Follows c B Γ (sameParam span e g) fun _ => True
  | .type s i ps, g => by
    unfold sameParam
    split
    · next t _ =>
      refine (follows_requireSameHead _ _ _).bind fun _ _ => ?_
      exact (follows_requireSameParams span ps t.params 0).bind fun _ _ => .pure trivial
    · exact .pure trivial
  | .binary _ _ _ _, _ => .ite (fun _ => .pure trivial) fun _ => .askEqual _ _
  | .unary _ _ _, _ => .ite (fun _ => .pure trivial) fun _ => .askEqual _ _
  | .access _, _ => .ite (fun _ => .pure trivial) fun _ => .askEqual _ _
  | .scalar _ _, _ => .ite (fun _ => .pure trivial) fun _ => .askEqual _ _
  | .constructed _ _ _, _ => .ite (fun _ => .pure trivial) fun _ => .askEqual _ _
  | .collection _ _, _ => .ite (fun _ => .pure trivial) fun _ => .askEqual _ _
  | .call _ _ _, _ => .ite (fun _ => .pure trivial) fun _ => .askEqual _ _

theorem follows_requireSameParams (span : Span) :
    ∀ (es gs : List Expr) (index : Nat),
      Follows c B Γ (requireSameParams span es gs index) fun _ => True
  | [], _, _ => .pure trivial
  | _ :: _, [], _ => .pure trivial
  | e :: es, g :: gs, index => by
    unfold requireSameParams
    refine (follows_sameParam span e g).bind fun same _ => ?_
    dsimp only
    have hrest := follows_requireSameParams span es gs (index + 1)
    split
    · exact hrest
    · exact Follows.bind (P := fun _ => True) .fail fun _ _ => hrest

end

/-- Types that are equal have the same name. -/
theorem follows_requireSameType (expected got : TypeExpr) (span : Span) :
    Follows c B Γ (requireSameType expected got span) fun _ => expected.name = got.name := by
  unfold requireSameType
  refine (follows_requireSameHead expected got span).bind fun _ hname => ?_
  exact (follows_requireSameParams span _ _ 0).mono fun _ _ => hname

/-- In the scope of the parameters names may stand for anything, no name is looked up there. -/
theorem follows_requireSameSignature (span : Span) (arity : Nat) (result : TypeExpr)
    (got : FunctionType) {parameters : Check Substitution}
    (hsteps : StepwiseInside true parameters)
    (h : Follows c (fun _ => True) Γ parameters Substitution.Renames) :
    Follows c B Γ (requireSameSignature span arity result got parameters) fun _ => True := by
  unfold requireSameSignature
  dsimp only
  have hframed : (parameters >>= fun rename => under rename got.result >>= fun type =>
      requireSameType result type span).Framed :=
    (hsteps.bind fun _ => (StepwiseInside.under _ _).bind fun _ =>
      stepwise_requireSameType _ _ _).framed
  refine .guard fun _ => .inScope hframed (A := fun _ => True) ?_ (fun _ _ => trivial)
    (List.Subset.refl Γ)
  refine h.bind fun rename hrename => (follows_rename hrename _).bind fun type _ => ?_
  exact (follows_requireSameType _ _ _).mono fun _ _ => trivial

mutual

theorem follows_requireSameParameter (span : Span) :
    ∀ (expected got : ParameterType) (index : Nat) (rename : Substitution), rename.Renames →
      Follows c (fun _ => True) Γ (requireSameParameter span expected got index rename)
        fun _ => True
  | .value expected, .value got, index, rename, hrename => by
    unfold requireSameParameter
    refine (follows_rename hrename got).bind fun type _ => ?_
    exact (follows_requireSameType expected type span).bind fun _ _ => .pure trivial
  | .function ps result, .function qs got, index, rename, _ => by
    unfold requireSameParameter
    exact (follows_requireSameSignature span _ result ⟨qs, got⟩
      (stepwise_requireSameParameters span ps qs 0 .empty)
      (follows_requireSameParameters span ps qs 0 .empty Substitution.renames_empty)).bind
        fun _ _ => .pure trivial
  | .value _, .function _ _, _, _, _ => .fail
  | .function _ _, .value _, _, _, _ => .fail

theorem follows_requireSameParameters (span : Span) :
    ∀ (es gs : List (Named ParameterType)) (index : Nat) (rename : Substitution), rename.Renames →
      Follows c (fun _ => True) Γ (requireSameParameters span es gs index rename)
        Substitution.Renames
  | [], _, _, _, hrename => .pure hrename
  | _ :: _, [], _, _, hrename => .pure hrename
  | e :: es, g :: gs, index, rename, hrename => by
    unfold requireSameParameters
    refine (follows_requireSameParameter span e.val g.val index rename hrename).bind fun b _ => ?_
    refine (Follows.introduce e.name.name trivial).bind fun _ _ => ?_
    exact follows_requireSameParameters span es gs (index + 1) _ (hrename.bind _ _)

end

/-- **Function types are compared without taking a field.** -/
theorem follows_requireSameFunctionType (expected got : FunctionType) (span : Span) :
    Follows c B Γ (requireSameFunctionType expected got span) fun _ => True :=
  follows_requireSameSignature span _ _ got (stepwise_requireSameParameters span _ _ 0 .empty)
    (follows_requireSameParameters span _ _ 0 .empty Substitution.renames_empty)

/-! ## §4. Function types under a substitution. -/

mutual

theorem follows_underParameter {σ : Substitution} {Γ' : Heads} (hσ : σ.Supports c.schema Γ') :
    ∀ t : ParameterType, t.Fits c.schema Γ' → Follows c B Γ (underParameter σ t) fun _ => True
  | .value t, ht => (Follows.under hσ ht).bind fun _ _ => .pure trivial
  | .function ps result, ht => by
    unfold underParameter
    refine (follows_underParameters hσ ps ht.1).bind fun _ _ => ?_
    exact (Follows.under hσ ht.2).bind fun _ _ => .pure trivial

theorem follows_underParameters {σ : Substitution} {Γ' : Heads} (hσ : σ.Supports c.schema Γ') :
    ∀ ps : List (Named ParameterType), ParameterType.AllFit c.schema Γ' ps →
      Follows c B Γ (underParameters σ ps) fun _ => True
  | [], _ => .pure trivial
  | p :: ps, hps => by
    unfold underParameters
    refine (follows_underParameter hσ p.val hps.1).bind fun _ _ => ?_
    exact (follows_underParameters hσ ps hps.2).bind fun _ _ => .pure trivial

end

theorem follows_underFunction {σ : Substitution} {Γ' : Heads} (hσ : σ.Supports c.schema Γ')
    {qs : List (Named ParameterType)} {result : TypeExpr}
    (h : (ParameterType.function qs result).Fits c.schema Γ') :
    Follows c B Γ (underFunction σ ⟨qs, result⟩) fun _ => True := by
  unfold underFunction
  refine (follows_underParameters hσ qs h.1).bind fun _ _ => ?_
  exact (Follows.under hσ h.2).bind fun _ _ => .pure trivial

end Typing

end DepSchema
