/-
DepSchema.Proofs.Typing.Discipline — names of one declaration are never used to check another one.

Scopes, the substitution in force and the flag of a rule input are kept in one state that all checks
share. What a check opens it closes again, whether or not it fails, so a run begins and ends in
the same state, and what a declaration is checked against is what it is checked against alone. The
oracle is the other thing that a run remembers: where its answers do not depend on what it was asked
before, a schema is accepted exactly when each of its declarations is accepted alone.

Main definitions: `Checking.Reachable` and `Oracle.Forgetful`. Main result:
`Schema.scope_discipline`.
-/
import DepSchema.Proofs.Order.TypeOrder
import DepSchema.Proofs.Typing.Passes
import DepSchema.Oracle.Structural

namespace DepSchema

/-! ## §1. States. -/

/-- A state that a check may be run in: the first one, one that other checks leave, one in which a
scope was just opened, or one in which the reading of a rule input begins. -/
inductive Checking.Reachable (c : Setting) : Checking → Prop where
  | start : Reachable c .start
  | after {s : Checking} {binds : Bool} {α : Type} {x : Check α} (hx : Check.Stepwise binds x)
      (hs : Reachable c s) : Reachable c (x c s).2
  | opened {s : Checking} (hs : Reachable c s) : Reachable c s.opened
  | reading {s : Checking} (hs : Reachable c s) : Reachable c { s with readingInput := true }

/-- The substitution always has a scope. -/
theorem Checking.Reachable.isOpen {c : Setting} {s : Checking} (h : Reachable c s) :
    s.substitution.scopes.frames ≠ [] := by
  induction h with
  | start => exact List.cons_ne_nil _ _
  | after hx _ ih => exact (hx.framed c _ ih).isOpen
  | opened => exact List.cons_ne_nil _ _
  | reading _ ih => exact ih

/-- Two states that differ in nothing but what was asked and noted. -/
structure Checking.Agrees (s t : Checking) : Prop where
  scopes : t.scopes = s.scopes
  substitution : t.substitution = s.substitution
  readingInput : t.readingInput = s.readingInput

/-! ## §2. Oracles that do not remember. -/

/-- The oracle accepts every declaration, and whether it finds two expressions equal does not depend
on what it was asked before. -/
structure Oracle.Forgetful (o : Oracle) : Prop where
  datatype : ∀ past d, ∃ a, o past (.datatype d) = .ok a
  function : ∀ past f, ∃ a, o past (.function f) = .ok a
  equal : ∀ past past' e g scope, o past (.equal e g scope) = o past' (.equal e g scope)

theorem Structural.forgetful : Structural.oracle.Forgetful :=
  ⟨fun _ _ => ⟨true, rfl⟩, fun _ _ => ⟨true, rfl⟩, fun _ _ _ _ _ => rfl⟩

namespace Check

variable {α β : Type} {c : Setting}

/-- What the check finds does not depend on what was asked and noted before. -/
def Forgets (c : Setting) (x : Check α) : Prop :=
  ∀ s t : Checking, s.Agrees t → (x c t).1 = (x c s).1 ∧ (x c s).2.Agrees (x c t).2

namespace Forgets

theorem bind {x : Check α} {f : α → Check β} (hx : Forgets c x) (hf : ∀ a, Forgets c (f a)) :
    Forgets c (x >>= f) := by
  intro s t hst
  obtain ⟨hresult, hagrees⟩ := hx s t hst
  rcases hs : x c s with ⟨d | a, s'⟩ <;> rcases ht : x c t with ⟨d' | a', t'⟩ <;>
    rw [hs, ht] at hresult hagrees
  · rw [bind_error hs, bind_error ht]
    exact ⟨by simpa using hresult, hagrees⟩
  · cases hresult
  · cases hresult
  · obtain rfl : a' = a := by simpa using hresult
    rw [bind_ok hs, bind_ok ht]
    exact hf a' s' t' hagrees

theorem introduce (n : Symbol) (b : Binding) : Forgets c (Check.introduce n b) :=
  fun _ _ hst =>
    ⟨rfl, congrArg (·.bind n b) hst.scopes, hst.substitution, hst.readingInput⟩

/-- A question whose answer does not depend on the questions before it. -/
theorem ask {q : Query} (hq : ∀ past past', c.oracle past q = c.oracle past' q) :
    Forgets c (ask q) := by
  intro s t hst
  unfold Check.ask
  dsimp only
  rw [hq t.queries s.queries]
  cases c.oracle s.queries q <;> exact ⟨rfl, hst.scopes, hst.substitution, hst.readingInput⟩

/-- A declaration that is accepted, whatever the answer is. -/
theorem declare {q : Query} (hq : ∀ past, ∃ a, c.oracle past q = .ok a) :
    Forgets c (Check.ask q >>= fun _ => Pure.pure ()) := by
  intro s t hst
  obtain ⟨a, ha⟩ := hq s.queries
  obtain ⟨b, hb⟩ := hq t.queries
  rw [bind_ok (ask_ok ha), bind_ok (ask_ok hb)]
  exact ⟨rfl, hst.scopes, hst.substitution, hst.readingInput⟩

end Forgets

/-- **With an oracle that does not remember, no check depends on what was asked before.** -/
theorem Stepwise.forgets (hc : c.oracle.Forgetful) {binds : Bool} {x : Check α}
    (h : Stepwise binds x) : Forgets c x := by
  induction h with
  | pure | fail | failUnlocated | schema | ofSubstitution => exact fun s t hst => ⟨rfl, hst⟩
  | bind _ _ hx hf => exact hx.bind hf
  | note e => exact fun s t hst => ⟨rfl, hst.scopes, hst.substitution, hst.readingInput⟩
  | meaning? n =>
    intro s t hst
    unfold Check.meaning?
    rw [hst.scopes]
    exact ⟨rfl, hst⟩
  | underCurrent e =>
    intro s t hst
    unfold Check.underCurrent
    rw [hst.substitution]
    exact ⟨rfl, hst⟩
  | introduce n b => exact .introduce n b
  | introduceIfReading o b _ _ hx hy =>
    intro s t hst
    -- both states read a rule input or neither does, so the same one of the two is run
    rw [introduceIfReading_eq, introduceIfReading_eq, hst.readingInput]
    cases o with
    | none => exact hx.bind hy s t hst
    | some v =>
      cases s.readingInput with
      | false => exact hx.bind hy s t hst
      | true => exact (Forgets.introduce v.name b).bind hy s t hst
  | replace n e =>
    intro s t hst
    unfold Check.replace
    rw [hst.substitution]
    cases s.substitution.add n e
    · exact ⟨rfl, hst⟩
    · exact ⟨rfl, hst.scopes, rfl, hst.readingInput⟩
  | askEqual e g =>
    intro s t hst
    unfold Check.askEqual
    rw [hst.scopes]
    exact Forgets.ask (fun past past' => hc.equal past past' e g s.scopes) s t hst
  | declareType d => exact .declare fun past => hc.datatype past d
  | declareFunction f => exact .declare fun past => hc.function past f
  | inScope _ hx =>
    intro s t hst
    have hopened : s.opened.Agrees t.opened :=
      ⟨congrArg Scopes.push hst.scopes, congrArg Substitution.push hst.substitution,
        hst.readingInput⟩
    obtain ⟨hresult, hagrees⟩ := hx _ _ hopened
    rw [inScope_eq, inScope_eq]
    exact ⟨hresult, congrArg Scopes.pop hagrees.scopes,
      congrArg Substitution.pop hagrees.substitution, hagrees.readingInput⟩
  | readInput _ hx =>
    intro s t hst
    obtain ⟨hresult, hagrees⟩ := hx { s with readingInput := true } { t with readingInput := true }
      ⟨hst.scopes, hst.substitution, rfl⟩
    exact ⟨hresult, hagrees.scopes, hagrees.substitution, hst.readingInput⟩

/-- A check decides whether it passes alone. -/
theorem Forgets.decides {x : Check α} (hx : Forgets c x) : Decides c x (Passes c x) := by
  intro s hs
  have hagrees : Checking.start.Agrees s := ⟨hs.scopes, hs.substitution, hs.readingInput⟩
  rw [(hx _ _ hagrees).1]
  rfl

end Check

/-! ## §3. Schemas. -/

namespace Schema

open Check Typing

/-- **Scope discipline.** In every state that a run may come to, the checks of values, of types, of
calls and of function types and the choice of a rule leave the scopes, the substitution and the flag
as they were; only while a rule input is read may they bind names in the innermost scope. A run
ends in the state of the scopes in which it began. So with an oracle that does not remember, a
schema is accepted exactly when each of its types and functions is accepted alone. -/
theorem scope_discipline (s : Schema) (oracle : Oracle) :
    (∀ state, Checking.Reachable ⟨s, oracle⟩ state →
        (∀ e type, state.Still (checkValue e type ⟨s, oracle⟩ state).2)
        ∧ (∀ type, state.Still (requireFormed type ⟨s, oracle⟩ state).2)
        ∧ (∀ span f as, state.Still
            (callType span f as.length (checkArguments as .empty) ⟨s, oracle⟩ state).2)
        ∧ (∀ expected got span, state.Still
            (requireSameFunctionType expected got span ⟨s, oracle⟩ state).2)
        ∧ ∀ e ctor params σ, state.Still (dispatch e ctor params σ ⟨s, oracle⟩ state).2)
      ∧ (s.typing oracle).2.Fresh
      ∧ (oracle.Forgetful → s.Keyed → s.Ordered →
        ((s.typing oracle).1 = .ok () ↔
          (∀ d ∈ s.types, Passes ⟨s, oracle⟩ (checkTypeDef d))
            ∧ ∀ f ∈ s.functions, Passes ⟨s, oracle⟩ (checkFunctionDef f))) := by
  refine ⟨fun state hstate => ?_, stepwise_checkSchema.quiet.fresh Checking.fresh_start,
    fun horacle hs horder => ?_⟩
  · -- none of these checks binds where it stands
    have hopen := hstate.isOpen
    refine ⟨fun e type => (stepwise_checkValue e type).quiet _ _ hopen,
      fun type => (stepwise_requireFormed type).quiet _ _ hopen, fun span f as => ?_,
      fun expected got span => (stepwise_requireSameFunctionType expected got span).quiet _ _ hopen,
      fun e ctor params σ => (stepwise_dispatch e ctor params σ).quiet _ _ hopen⟩
    exact (stepwise_callType span f as.length (stepwise_checkArguments as .empty)).quiet _ _ hopen
  · have htypes : ∀ d, Forgets ⟨s, oracle⟩ (checkTypeDef d) := fun d =>
      (stepwise_checkTypeDef d : Stepwise false _).forgets horacle
    have hfunctions : ∀ f, Forgets ⟨s, oracle⟩ (checkFunctionDef f) := fun f =>
      (stepwise_checkFunctionDef f : Stepwise false _).forgets horacle
    exact typing_iff_passes hs horder (fun d => (htypes d).decides)
      (fun f => (hfunctions f).decides) horacle.function

namespace Example

/-- The input `P{x: y}` of a rule. -/
def reading : Expr := .constructed ⟨0, 0⟩ (ident 7) [⟨ident 11, .ofVar (ident 13)⟩]

/-- A state in which the input of a rule is read. -/
def atInput : Checking := { Checking.start.opened with readingInput := true }

end Example

/-- A rule input of the album binds a variable and changes nothing else, and each type of the album
passes alone. -/
theorem scope_discipline_album :
    let s := (ofDeclarations Example.album).withOrder [⟨7⟩, ⟨8⟩, ⟨9⟩]
    let after := (checkValue Example.reading (.builtin ⟨7⟩ ⟨0, 0⟩) ⟨s, Structural.oracle⟩
      Example.atInput).2
    Checking.Reachable ⟨s, Structural.oracle⟩ Example.atInput ∧ Example.atInput.Still after
      ∧ after.scopes.contains ⟨13⟩ = true
      ∧ ∀ d ∈ s.types, Passes ⟨s, Structural.oracle⟩ (checkTypeDef d) := by
  intro s after
  have hkeyed : s.Keyed := (keyed_ofDeclarations _).withOrder _
  have hordered : s.Ordered := by
    unfold Ordered
    decide
  have hok : (s.typing Structural.oracle).1 = .ok () := by cbv
  have hbound : after.scopes.contains ⟨13⟩ = true := by cbv
  have hreached : Checking.Reachable ⟨s, Structural.oracle⟩ Example.atInput :=
    .reading (.opened .start)
  obtain ⟨hstill, -, hiff⟩ := scope_discipline s Structural.oracle
  exact ⟨hreached, (hstill _ hreached).1 _ _, hbound,
    ((hiff Structural.forgetful hkeyed hordered).mp hok).1⟩

end Schema

end DepSchema
