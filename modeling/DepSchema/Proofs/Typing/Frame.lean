/-
DepSchema.Proofs.Typing.Frame — what a check leaves as it was.

A check may bind names in the innermost scope and nowhere else; what it opens it closes again. The
checks of values and types do not even that, except inside a rule input, where a variable alone is
bound. This holds whether or not the check fails, so a check in a scope of its own leaves no trace
in the scopes, and neither does the check of a declaration.

Main definitions: `Check.Framed` and `Check.Quiet`. Main results: `Framed.inScope`,
`Stepwise.framed` and `Stepwise.quiet`.
-/
import Mathlib
import DepSchema.Proofs.Typing.Steps

namespace DepSchema

/-! ## §1. Two states. -/

namespace Scopes

variable {α : Type}

/-- Several names bound in the innermost frame, one after the other. -/
def bindAll (scopes : Scopes α) (added : List (Symbol × α)) : Scopes α :=
  added.foldl (fun scopes p => scopes.bind p.1 p.2) scopes

theorem bindAll_append (scopes : Scopes α) (added more : List (Symbol × α)) :
    scopes.bindAll (added ++ more) = (scopes.bindAll added).bindAll more :=
  List.foldl_append

theorem bindAll_open {scopes : Scopes α} (hopen : scopes.frames ≠ [])
    (added : List (Symbol × α)) : (scopes.bindAll added).frames ≠ [] := by
  induction added generalizing scopes with
  | nil => exact hopen
  | cons p added ih => exact ih (bind_open hopen p.1 p.2)

/-- A name that is bound several times stands for what it was bound to last. -/
theorem find?_bindAll {scopes : Scopes α} (hopen : scopes.frames ≠ []) (added : List (Symbol × α))
    (name : Symbol) :
    (scopes.bindAll added).find? name = (added.reverse.lookup name).or (scopes.find? name) := by
  induction added generalizing scopes with
  | nil => rfl
  | cons p added ih =>
    obtain ⟨key, a⟩ := p
    show ((scopes.bind key a).bindAll added).find? name = _
    rw [ih (bind_open hopen key a), find?_bind hopen, List.reverse_cons, List.lookup_append,
      Option.or_assoc]
    congr 1
    by_cases hname : name = key
    · simp [hname]
    · simp [List.lookup_cons, hname, beq_false_of_ne hname]

theorem tail_bind (scopes : Scopes α) (name : Symbol) (a : α) :
    (scopes.bind name a).frames.tail = scopes.frames.tail := by
  show (scopes.frames.modify 0 _).tail = scopes.frames.tail
  cases scopes.frames <;> rfl

theorem tail_bindAll (scopes : Scopes α) (added : List (Symbol × α)) :
    (scopes.bindAll added).frames.tail = scopes.frames.tail := by
  induction added generalizing scopes with
  | nil => rfl
  | cons p added ih => exact (ih _).trans (tail_bind scopes p.1 p.2)

end Scopes

/-- The state `t` is `s` but for the innermost scopes. -/
structure Checking.Outside (s t : Checking) : Prop where
  readingInput : t.readingInput = s.readingInput
  scopes : t.scopes.frames.tail = s.scopes.frames.tail
  substitution : t.substitution.scopes.frames.tail = s.substitution.scopes.frames.tail
  isOpen : t.substitution.scopes.frames ≠ []

/-- The state `t` is `s` but for names that a rule input binds in the innermost scope. -/
structure Checking.Still (s t : Checking) : Prop where
  readingInput : t.readingInput = s.readingInput
  substitution : t.substitution = s.substitution
  added : ∃ added, t.scopes = s.scopes.bindAll added
  scopes : s.readingInput = false → t.scopes = s.scopes

namespace Checking

variable {s t u : Checking}

/-- Nothing was bound. -/
theorem Still.of_eq (hreading : t.readingInput = s.readingInput)
    (hsubstitution : t.substitution = s.substitution) (hscopes : t.scopes = s.scopes) :
    s.Still t :=
  ⟨hreading, hsubstitution, ⟨[], hscopes⟩, fun _ => hscopes⟩

theorem Still.refl (s : Checking) : s.Still s := .of_eq rfl rfl rfl

theorem Still.trans (h : s.Still t) (h' : t.Still u) : s.Still u := by
  obtain ⟨added, hadded⟩ := h.added
  obtain ⟨more, hmore⟩ := h'.added
  refine ⟨h'.readingInput.trans h.readingInput, h'.substitution.trans h.substitution,
    ⟨added ++ more, ?_⟩, ?_⟩
  · rw [hmore, hadded, Scopes.bindAll_append]
  · intro hs
    exact (h'.scopes (h.readingInput.trans hs)).trans (h.scopes hs)

theorem Still.outside (h : s.Still t) (hs : s.substitution.scopes.frames ≠ []) : s.Outside t := by
  obtain ⟨added, hadded⟩ := h.added
  refine ⟨h.readingInput, ?_, ?_, ?_⟩
  · rw [hadded, Scopes.tail_bindAll]
  · rw [h.substitution]
  · rwa [h.substitution]

theorem Outside.trans (h : s.Outside t) (h' : t.Outside u) : s.Outside u :=
  ⟨h'.readingInput.trans h.readingInput, h'.scopes.trans h.scopes,
    h'.substitution.trans h.substitution, h'.isOpen⟩

end Checking

namespace Check

variable {α β : Type}

/-! ## §2. Framed and quiet checks. -/

/-- The check changes the innermost scopes at most. -/
def Framed (x : Check α) : Prop :=
  ∀ (c : Setting) (s : Checking), s.substitution.scopes.frames ≠ [] → s.Outside (x c s).2

/-- The check changes no scope, except that names are bound inside a rule input. -/
def Quiet (x : Check α) : Prop :=
  ∀ (c : Setting) (s : Checking), s.substitution.scopes.frames ≠ [] → s.Still (x c s).2

theorem bind_ok {x : Check α} {f : α → Check β} {c : Setting} {s t : Checking} {a : α}
    (h : x c s = (.ok a, t)) : (x >>= f) c s = f a c t := by
  simp only [bind]
  rw [h]

theorem bind_error {x : Check α} {f : α → Check β} {c : Setting} {s t : Checking} {d : Diagnostic}
    (h : x c s = (.error d, t)) : (x >>= f) c s = (.error d, t) := by
  simp only [bind]
  rw [h]

/-- A check of two steps that gives a result took both. -/
theorem bind_eq_ok {x : Check α} {f : α → Check β} {c : Setting} {s u : Checking} {b : β}
    (h : (x >>= f) c s = (.ok b, u)) :
    ∃ a t, x c s = (.ok a, t) ∧ f a c t = (.ok b, u) := by
  rcases hrun : x c s with ⟨d | a, t⟩
  · rw [bind_error hrun] at h
    cases h
  · rw [bind_ok hrun] at h
    exact ⟨a, t, rfl, h⟩

theorem getSome_eq_ok {span : Span} {cause : Cause} {o : Option α} {c : Setting} {s t : Checking}
    {a : α} (h : getSome span cause o c s = (.ok a, t)) : o = some a ∧ t = s := by
  cases o with
  | none => cases h
  | some b =>
    cases h
    exact ⟨rfl, rfl⟩

theorem under_eq_ok {σ : Substitution} {type type' : TypeExpr} {c : Setting} {s t : Checking}
    (h : under σ type c s = (.ok type', t)) : σ.applyType type = .ok type' ∧ t = s := by
  unfold under ofSubstitution at h
  cases hrun : σ.applyType type with
  | error e =>
    rw [hrun] at h
    cases h
  | ok type'' =>
    rw [hrun] at h
    cases h
    exact ⟨rfl, rfl⟩

theorem guard_eq_ok {p : Prop} [Decidable p] {span : Span} {cause : Cause} {f : α → Check β}
    {x : Check β} {c : Setting} {s t : Checking} {b : β}
    (h : (if p then fail span cause >>= f else x) c s = (.ok b, t)) : ¬ p ∧ x c s = (.ok b, t) := by
  split at h
  · cases h
  · next hp => exact ⟨hp, h⟩

theorem inScope_eq_ok {x : Check α} {c : Setting} {s u : Checking} {a : α}
    (h : inScope x c s = (.ok a, u)) : ∃ t, x c s.opened = (.ok a, t) ∧ u = t.closed := by
  rw [inScope_eq] at h
  obtain ⟨hresult, hstate⟩ := Prod.mk.inj h
  exact ⟨_, Prod.ext hresult rfl, hstate.symm⟩

theorem readInput_eq_ok {x : Check α} {c : Setting} {s u : Checking} {a : α}
    (h : readInput x c s = (.ok a, u)) : ∃ t, x c { s with readingInput := true } = (.ok a, t)
      ∧ u = { t with readingInput := s.readingInput } := by
  obtain ⟨hresult, hstate⟩ := Prod.mk.inj h
  exact ⟨_, Prod.ext hresult rfl, hstate.symm⟩

theorem Framed.outside_of_run {x : Check α} (hx : x.Framed) {c : Setting} {s t : Checking}
    {r : Except Diagnostic α} (hs : s.substitution.scopes.frames ≠ []) (h : x c s = (r, t)) :
    s.Outside t := by
  have houtside := hx c s hs
  rwa [h] at houtside

theorem Quiet.still_of_run {x : Check α} (hx : x.Quiet) {c : Setting} {s t : Checking}
    {r : Except Diagnostic α} (hs : s.substitution.scopes.frames ≠ []) (h : x c s = (r, t)) :
    s.Still t := by
  have hstill := hx c s hs
  rwa [h] at hstill

theorem ask_ok {q : Query} {c : Setting} {s : Checking} {a : Bool}
    (h : c.oracle s.queries q = .ok a) :
    ask q c s = (.ok a, { s with queries := s.queries ++ [q] }.note (.answered q a)) := by
  unfold ask
  dsimp only
  rw [h]

namespace Quiet

theorem framed {x : Check α} (hx : x.Quiet) : x.Framed :=
  fun c s hs => (hx c s hs).outside hs

theorem pure (a : α) : Quiet (pure a) := fun _ s _ => .refl s

/-- A check that is quiet from one state, followed by quiet checks. -/
theorem bind_from {x : Check α} {f : α → Check β} {c : Setting} {s : Checking}
    (hs : s.substitution.scopes.frames ≠ []) (hx : s.Still (x c s).2) (hf : ∀ a, (f a).Quiet) :
    s.Still ((x >>= f) c s).2 := by
  rcases hrun : x c s with ⟨_ | a, t⟩ <;> rw [hrun] at hx
  · rwa [bind_error hrun]
  · rw [bind_ok hrun]
    exact hx.trans (hf a c t (hx.outside hs).isOpen)

theorem bind {x : Check α} {f : α → Check β} (hx : x.Quiet) (hf : ∀ a, (f a).Quiet) :
    (x >>= f).Quiet :=
  fun c s hs => bind_from hs (hx c s hs) hf

theorem ask (q : Query) : Quiet (Check.ask q) := by
  intro c s _
  unfold Check.ask
  dsimp only
  cases c.oracle s.queries q <;> exact .of_eq rfl rfl rfl

end Quiet

namespace Framed

theorem bind {x : Check α} {f : α → Check β} (hx : x.Framed) (hf : ∀ a, (f a).Framed) :
    (x >>= f).Framed := by
  intro c s hs
  have hfirst := hx c s hs
  rcases hrun : x c s with ⟨_ | a, t⟩ <;> rw [hrun] at hfirst
  · rwa [bind_error hrun]
  · rw [bind_ok hrun]
    exact hfirst.trans (hf a c t hfirst.isOpen)

theorem introduce (n : Symbol) (b : Binding) : Framed (Check.introduce n b) :=
  fun _ s hs => ⟨rfl, s.scopes.tail_bind n b, rfl, hs⟩

theorem replace (n : Symbol) (e : Expr) : Framed (Check.replace n e) := by
  intro c s hs
  unfold Check.replace
  cases hadd : s.substitution.add n e with
  | error err => exact ⟨rfl, rfl, rfl, hs⟩
  | ok σ =>
    -- an addition that goes through binds the substituted expression
    obtain ⟨e', -, rfl⟩ : ∃ e', s.substitution.apply e = .ok e' ∧ σ = s.substitution.bind n e' := by
      unfold Substitution.add at hadd
      cases happly : s.substitution.apply e with
      | error err =>
        rw [happly] at hadd
        cases hadd
      | ok e' =>
        rw [happly] at hadd
        cases hadd
        exact ⟨e', rfl, rfl⟩
    exact ⟨rfl, rfl, s.substitution.scopes.tail_bind n e', Scopes.bind_open hs n e'⟩

/-- Inside a rule input names may be bound, in the innermost scope. -/
theorem readInput {x : Check α} (hx : x.Framed) : Framed (Check.readInput x) := by
  intro c s hs
  have hrun := hx c { s with readingInput := true } hs
  -- the flag of before is put back, whatever the check left
  exact ⟨rfl, hrun.scopes, hrun.substitution, hrun.isOpen⟩

/-- **A check in scopes of its own leaves no trace in the scopes**, whether or not it fails. -/
theorem inScope {x : Check α} (hx : x.Framed) : Quiet (Check.inScope x) := by
  intro c s hs
  have hrun := hx c s.opened (List.cons_ne_nil _ _)
  rw [inScope_eq]
  generalize (x c s.opened).2 = t at hrun
  have hscopes : t.scopes.pop = s.scopes := congrArg Scopes.mk hrun.scopes
  have hframes : t.substitution.scopes.frames.tail = s.substitution.scopes.frames :=
    hrun.substitution
  -- the last frame is never taken off, and the one opened here stands on top of another
  have hsubstitution : t.substitution.pop = s.substitution := by
    have hdepth : t.substitution.scopes.depth > 1 := by
      have hpos := List.length_pos_iff.mpr hs
      have hlen := congrArg List.length hframes
      rw [List.length_tail] at hlen
      unfold Scopes.depth
      omega
    unfold Substitution.pop
    rw [if_pos hdepth]
    exact congrArg (fun frames => Substitution.mk ⟨frames⟩) hframes
  exact .of_eq hrun.readingInput hsubstitution hscopes

end Framed

/-! ## §3. Every check. -/

namespace Stepwise

variable {binds : Bool} {x : Check α}

/-- **Every check changes the innermost scopes at most.** -/
theorem framed (h : Stepwise binds x) : x.Framed := by
  induction h with
  | pure | fail | failUnlocated | schema | meaning? | ofSubstitution | underCurrent =>
    exact fun c s hs => Checking.Still.outside (.refl s) hs
  | bind _ _ hx hf => exact hx.bind hf
  | note => exact fun c s hs => ⟨rfl, rfl, rfl, hs⟩
  | introduce n b => exact .introduce n b
  | introduceIfReading o b _ _ hx hy =>
    intro c s hs
    rcases introduceIfReading_or o b _ _ s with heq | ⟨-, v, -, heq⟩ <;> rw [heq]
    · exact hx.bind hy c s hs
    · exact (Framed.introduce v.name b).bind hy c s hs
  | replace n e => exact .replace n e
  | askEqual e g => exact fun c s hs => (Quiet.ask (.equal e g s.scopes)).framed c s hs
  | declareType d => exact ((Quiet.ask (.datatype d)).bind fun _ => .pure ()).framed
  | declareFunction f => exact ((Quiet.ask (.function f)).bind fun _ => .pure ()).framed
  | inScope _ hx => exact hx.inScope.framed
  | readInput _ hx => exact hx.readInput

/-- **A check that does not bind where it stands leaves no trace in the scopes**, except that a rule
input binds names. -/
theorem quiet (h : Stepwise false x) : x.Quiet := by
  generalize hbinds : false = b at h
  induction h with
  | pure | fail | failUnlocated | schema | meaning? | ofSubstitution | underCurrent =>
    exact fun c s _ => .refl s
  | bind _ _ hx hf => exact (hx hbinds).bind fun a => hf a hbinds
  | note => exact fun c s _ => .of_eq rfl rfl rfl
  | introduceIfReading o b _ _ hx hy =>
    intro c s hs
    rcases introduceIfReading_or o b _ _ s with heq | ⟨hreading, v, -, heq⟩ <;> rw [heq]
    · exact (hx hbinds).bind (fun u => hy u hbinds) c s hs
    · refine Quiet.bind_from hs ⟨rfl, rfl, ⟨[(v.name, b)], rfl⟩, ?_⟩ fun u => hy u hbinds
      intro hnot
      rw [hreading] at hnot
      cases hnot
  | askEqual e g => exact fun c s hs => Quiet.ask (.equal e g s.scopes) c s hs
  | declareType d => exact (Quiet.ask (.datatype d)).bind fun _ => .pure ()
  | declareFunction f => exact (Quiet.ask (.function f)).bind fun _ => .pure ()
  | inScope hx => exact hx.framed.inScope
  | introduce | replace | readInput => cases hbinds

end Stepwise

namespace StepwiseInside

variable {binds : Bool} {x : Check α}

theorem framed (h : StepwiseInside binds x) : x.Framed := h.stepwise.framed

theorem quiet (h : StepwiseInside false x) : x.Quiet := h.stepwise.quiet

end StepwiseInside

end Check

end DepSchema
