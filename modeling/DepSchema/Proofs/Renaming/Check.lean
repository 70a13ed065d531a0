/-
DepSchema.Proofs.Renaming.Check — two runs of a check under different names.

Two checks match under a renaming when they, run from states that differ by the renaming alone,
either both fail, the second at the place of the first renamed, or both give a result, the second
that of the first renamed, and leave states that differ by the renaming alone. What was asked and
noted before plays no part. Matching is kept by every way in which checks are put together, so it
goes through the type check function by function.

Main definition: `Matches`. Main rules: `Matches.bind`, `Matches.inScope`, `Matches.askEqual`.
-/
import DepSchema.Proofs.Renaming.Schema
import DepSchema.Proofs.Typing.Frame

namespace DepSchema

namespace Renaming

/-- What a name in scope stands for, renamed. -/
def binding (ρ : Renaming) : Binding → Binding
  | .value t => .value (ρ.type t)
  | .function ft => .function (ρ.functionType ft)

/-! ## §1. Settings, states and outcomes. -/

/-- The two schemas answer every look-up alike. Both oracles accept every declared type and
function and find the same expressions equal, whatever they were asked before. -/
structure Relates (ρ : Renaming) (c c' : Setting) : Prop where
  type? : ∀ n, c'.schema.type? (ρ.name n) = (c.schema.type? n).map ρ.typeDef
  function? : ∀ n, c'.schema.function? (ρ.name n) = (c.schema.function? n).map ρ.functionDef
  constructor? : ∀ n, c'.schema.constructor? (ρ.name n)
    = (c.schema.constructor? n).map fun p => (ρ.typeDef p.1, ρ.constructor p.2)
  datatype : ∀ past past' d d',
    (∃ a, c.oracle past (.datatype d) = .ok a) ∧ ∃ a, c'.oracle past' (.datatype d') = .ok a
  function : ∀ past past' f f',
    (∃ a, c.oracle past (.function f) = .ok a) ∧ ∃ a, c'.oracle past' (.function f') = .ok a
  equal : ∀ past past' e g scope, ∃ answer,
    c.oracle past (.equal e g scope) = .ok answer
      ∧ c'.oracle past' (.equal (ρ.expr e) (ρ.expr g) (ρ.scopes ρ.binding scope)) = .ok answer

/-- The structural oracle does not notice a renaming, so the look-ups decide. -/
theorem Relates.structural {ρ : Renaming} {s s' : Schema}
    (htype : ∀ n, s'.type? (ρ.name n) = (s.type? n).map ρ.typeDef)
    (hfunction : ∀ n, s'.function? (ρ.name n) = (s.function? n).map ρ.functionDef)
    (hctor : ∀ n, s'.constructor? (ρ.name n)
      = (s.constructor? n).map fun p => (ρ.typeDef p.1, ρ.constructor p.2)) :
    ρ.Relates ⟨s, Structural.oracle⟩ ⟨s', Structural.oracle⟩ where
  type? := htype
  function? := hfunction
  constructor? := hctor
  datatype _ _ _ _ := ⟨⟨true, rfl⟩, ⟨true, rfl⟩⟩
  function _ _ _ _ := ⟨⟨true, rfl⟩, ⟨true, rfl⟩⟩
  equal _ _ e g _ := ⟨Structural.equal e g, rfl, congrArg Except.ok (ρ.equal_expr e g)⟩

/-- The states differ by the renaming, apart from what was asked and noted. -/
structure Keeps (ρ : Renaming) (s s' : Checking) : Prop where
  scopes : s'.scopes = ρ.scopes ρ.binding s.scopes
  substitution : s'.substitution = ρ.substitution s.substitution
  readingInput : s'.readingInput = s.readingInput

/-- Both checks failed, the second at the place of the first renamed, or both gave a result, the
second that of the first under `h`. -/
inductive Alike {α β : Type} (ρ : Renaming) (h : α → β) :
    Except Diagnostic α × Checking → Except Diagnostic β × Checking → Prop
  | ok {a s s'} : ρ.Keeps s s' → Alike ρ h (.ok a, s) (.ok (h a), s')
  | error {d d' s s'} : d'.span = d.span.map ρ.place → Alike ρ h (.error d, s) (.error d', s')

/-- The second check does from a renamed state what the first one does, renamed. -/
def Matches {α β : Type} (ρ : Renaming) (c c' : Setting) (h : α → β) (x : Check α) (y : Check β) :
    Prop :=
  ∀ s s', ρ.Keeps s s' → Alike ρ h (x c s) (y c' s')

variable {ρ : Renaming} {c c' : Setting}

/-- Both checks pass or none does. -/
theorem Alike.passes {α β : Type} {h : α → β} {x : Except Diagnostic α × Checking}
    {y : Except Diagnostic β × Checking} (hxy : Alike ρ h x y) :
    (∃ a, x.1 = .ok a) ↔ ∃ b, y.1 = .ok b := by
  cases hxy with
  | ok _ => exact ⟨fun _ => ⟨_, rfl⟩, fun _ => ⟨_, rfl⟩⟩
  | error _ =>
    constructor
    · intro hgiven
      obtain ⟨a, ha⟩ := hgiven
      cases ha
    · intro hfound
      obtain ⟨b, hb⟩ := hfound
      cases hb

namespace Matches

variable {α β γ δ : Type} {h : α → β} {k : γ → δ}

/-! ## §2. Steps one after the other. -/

theorem pure (a : α) : Matches ρ c c' h (pure a) (pure (h a)) :=
  fun _ _ hs => .ok hs

/-- The second check may be given in any form that its result has. -/
theorem pure_of_eq {a : α} {b : β} (hab : b = h a) :
    Matches ρ c c' h (Pure.pure a) (Pure.pure b) :=
  hab ▸ pure a

/-- Checks that match, followed by checks that match on every result. -/
theorem bind {x : Check α} {y : Check β} {f : α → Check γ} {g : β → Check δ}
    (hx : Matches ρ c c' h x y) (hf : ∀ a, Matches ρ c c' k (f a) (g (h a))) :
    Matches ρ c c' k (x >>= f) (y >>= g) := by
  intro s s' hs
  have hrun := hx s s' hs
  generalize hr : x c s = r at hrun
  generalize hr' : y c' s' = r' at hrun
  cases hrun with
  | ok ht =>
    rw [Check.bind_ok hr, Check.bind_ok hr']
    exact hf _ _ _ ht
  | error hspan =>
    rw [Check.bind_error hr, Check.bind_error hr']
    exact .error hspan

/-- Checks that match where the result of the first step plays no part. -/
theorem seq {x : Check Unit} {y : Check Unit} {f : Unit → Check γ} {g : Unit → Check δ}
    (hx : Matches ρ c c' id x y) (hf : Matches ρ c c' k (f ()) (g ())) :
    Matches ρ c c' k (x >>= f) (y >>= g) :=
  hx.bind fun _ => hf

theorem ite {p q : Prop} [Decidable p] [Decidable q] {x x' : Check α} {y y' : Check β}
    (hpq : q ↔ p) (hx : Matches ρ c c' h x y) (hx' : Matches ρ c c' h x' y') :
    Matches ρ c c' h (if p then x else x') (if q then y else y') := by
  by_cases hp : p
  · rwa [if_pos hp, if_pos (hpq.mpr hp)]
  · rwa [if_neg hp, if_neg (mt hpq.mp hp)]

/-! ## §3. Failures. -/

theorem fail (span span' : Span) (cause cause' : Cause)
    (hspan : span' = ρ.place span := by first | rfl | simp) :
    Matches ρ c c' h (Check.fail span cause) (Check.fail span' cause') :=
  fun _ _ _ => .error (congrArg some hspan)

theorem failUnlocated (cause cause' : Cause) :
    Matches ρ c c' h (Check.failUnlocated cause) (Check.failUnlocated cause') :=
  fun _ _ _ => .error rfl

/-- A condition under which both checks fail, and what comes after it. -/
theorem guard {p q : Prop} [Decidable p] [Decidable q] {span span' : Span} {cause cause' : Cause}
    {f : α → Check γ} {g : β → Check δ} {x : Check γ} {y : Check δ} (hpq : q ↔ p)
    (hx : Matches ρ c c' k x y) (hspan : span' = ρ.place span := by first | rfl | simp) :
    Matches ρ c c' k (if p then Check.fail span cause >>= f else x)
      (if q then Check.fail span' cause' >>= g else y) := by
  refine ite hpq ?_ hx
  -- the check that fails never reaches what comes after it
  intro s s' _
  exact .error (congrArg some hspan)

/-- Nothing on either side, or the same on both. -/
theorem getSome {o : Option α} {o' : Option β} (ho : o' = o.map h) (span span' : Span)
    (cause cause' : Cause) (hspan : span' = ρ.place span := by first | rfl | simp) :
    Matches ρ c c' h (Check.getSome span cause o) (Check.getSome span' cause' o') := by
  subst ho
  cases o with
  | none => exact fail span span' cause cause' hspan
  | some a => exact pure a

theorem ofSubstitution {r : Except AccessError α} {r' : Except AccessError β}
    (hr : r' = ρ.substituted h r) :
    Matches ρ c c' h (Check.ofSubstitution r) (Check.ofSubstitution r') := by
  subst hr
  intro s s' hs
  cases r with
  | ok a => exact .ok hs
  | error e => exact .error rfl

/-! ## §4. The state. -/

theorem note (e e' : Event) : Matches ρ c c' id (Check.note e) (Check.note e') :=
  fun _ _ hs => .ok (a := ()) ⟨hs.scopes, hs.substitution, hs.readingInput⟩

theorem schema {f : Schema → Check γ} {g : Schema → Check δ}
    (hf : Matches ρ c c' k (f c.schema) (g c'.schema)) :
    Matches ρ c c' k (Check.schema >>= f) (Check.schema >>= g) :=
  hf

theorem isReadingInput : Matches ρ c c' id Check.isReadingInput Check.isReadingInput := by
  intro s s' hs
  show Alike ρ id (.ok s.readingInput, s) (.ok s'.readingInput, s')
  rw [hs.readingInput]
  exact .ok hs

theorem meaning? (n : Symbol) :
    Matches ρ c c' (Option.map ρ.binding) (Check.meaning? n) (Check.meaning? (ρ.name n)) := by
  intro s s' hs
  show Alike ρ _ (.ok (s.scopes.find? n), s) (.ok (s'.scopes.find? (ρ.name n)), s')
  rw [hs.scopes, find?_scopes]
  exact .ok hs

theorem introduce (n : Symbol) (b : Binding) :
    Matches ρ c c' id (Check.introduce n b) (Check.introduce (ρ.name n) (ρ.binding b)) := by
  intro s s' hs
  refine .ok (a := ()) ⟨?_, hs.substitution, hs.readingInput⟩
  show s'.scopes.bind (ρ.name n) (ρ.binding b) = ρ.scopes ρ.binding (s.scopes.bind n b)
  rw [hs.scopes, scopes_bind]

/-- Checks that match still do in scopes of their own. -/
theorem inScope {x : Check α} {y : Check β} (hx : Matches ρ c c' h x y) :
    Matches ρ c c' h (Check.inScope x) (Check.inScope y) := by
  intro s s' hs
  have hrun := hx
    ({ s with scopes := s.scopes.push, substitution := s.substitution.push }.note
      (.typeScopePushed s.scopes.push.depth))
    ({ s' with scopes := s'.scopes.push, substitution := s'.substitution.push }.note
      (.typeScopePushed s'.scopes.push.depth)) (by
      refine ⟨?_, ?_, hs.readingInput⟩
      · show s'.scopes.push = ρ.scopes ρ.binding s.scopes.push
        rw [hs.scopes, scopes_push]
      · show s'.substitution.push = ρ.substitution s.substitution.push
        rw [hs.substitution, substitution_push])
  -- the states that two failures leave need not correspond, so only results are followed
  unfold Check.inScope
  dsimp only
  revert hrun
  generalize x c _ = r
  generalize y c' _ = r'
  intro hrun
  cases hrun with
  | @ok a t t' ht =>
    refine .ok ⟨?_, ?_, ht.readingInput⟩
    · show t'.scopes.pop = ρ.scopes ρ.binding t.scopes.pop
      rw [ht.scopes, scopes_pop]
    · show t'.substitution.pop = ρ.substitution t.substitution.pop
      rw [ht.substitution, substitution_pop]
  | error hspan => exact .error hspan

theorem readInput {x : Check α} {y : Check β} (hx : Matches ρ c c' h x y) :
    Matches ρ c c' h (Check.readInput x) (Check.readInput y) := by
  intro s s' hs
  have hrun := hx { s with readingInput := true } { s' with readingInput := true }
    ⟨hs.scopes, hs.substitution, rfl⟩
  unfold Check.readInput
  dsimp only
  revert hrun
  generalize x c _ = r
  generalize y c' _ = r'
  intro hrun
  cases hrun with
  | ok ht => exact .ok ⟨ht.scopes, ht.substitution, hs.readingInput⟩
  | error hspan => exact .error hspan

/-! ## §5. Substitution. -/

theorem under (σ : Substitution) (t : TypeExpr) :
    Matches ρ c c' ρ.type (Check.under σ t) (Check.under (ρ.substitution σ) (ρ.type t)) :=
  ofSubstitution (ρ.applyType_type σ t)

theorem underCurrent (t : TypeExpr) :
    Matches ρ c c' ρ.type (Check.underCurrent t) (Check.underCurrent (ρ.type t)) := by
  intro s s' hs
  show Alike ρ ρ.type (Check.under s.substitution t c s)
    (Check.under s'.substitution (ρ.type t) c' s')
  rw [hs.substitution]
  exact under _ _ _ _ hs

theorem replace (n : Symbol) (e : Expr) :
    Matches ρ c c' id (Check.replace n e) (Check.replace (ρ.name n) (ρ.expr e)) := by
  intro s s' hs
  unfold Check.replace
  rw [hs.substitution, ρ.add_expr s.substitution n e]
  -- both substitutions go through or none does
  cases s.substitution.add n e with
  | ok σ => exact .ok (a := ()) ⟨hs.scopes, rfl, hs.readingInput⟩
  | error err => exact .error rfl

/-! ## §6. The oracle. -/

/-- The oracles find the same expressions equal. -/
theorem askEqual (hc : ρ.Relates c c') (e g : Expr) :
    Matches ρ c c' id (Check.askEqual e g) (Check.askEqual (ρ.expr e) (ρ.expr g)) := by
  intro s s' hs
  -- what was asked before differs between the two runs and plays no part
  obtain ⟨answer, hanswer, hanswer'⟩ := hc.equal s.queries s'.queries e g s.scopes
  rw [← hs.scopes] at hanswer'
  unfold Check.askEqual
  rw [Check.ask_ok hanswer, Check.ask_ok hanswer']
  exact .ok (a := answer) ⟨hs.scopes, hs.substitution, hs.readingInput⟩

/-- Queries that both oracles accept. -/
theorem ask {q q' : Query} {x : Check γ} {y : Check δ}
    (hq : ∀ past past', (∃ a, c.oracle past q = .ok a) ∧ ∃ a, c'.oracle past' q' = .ok a)
    (hx : Matches ρ c c' k x y) :
    Matches ρ c c' k (Check.ask q >>= fun _ => x) (Check.ask q' >>= fun _ => y) := by
  intro s s' hs
  obtain ⟨⟨a, ha⟩, a', ha'⟩ := hq s.queries s'.queries
  rw [Check.bind_ok (Check.ask_ok ha), Check.bind_ok (Check.ask_ok ha')]
  exact hx _ _ ⟨hs.scopes, hs.substitution, hs.readingInput⟩

end Matches

end Renaming

end DepSchema
