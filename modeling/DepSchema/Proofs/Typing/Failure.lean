/-
DepSchema.Proofs.Typing.Failure — a failure of the oracle ends the run.

The oracle is asked in many places: where a type is declared, where a rule input is matched and a
negative answer means to try the next rule, where fields, arguments, lengths and function types are
compared. None of them takes a failure for an answer. Two runs are compared, one with an oracle and
one in which the same oracle fails at a single query: up to that query they are the same, and there
the second one ends with the failure.

Main result: `Schema.failure_ends_run`.
-/
import DepSchema.Proofs.Typing.Frame
import DepSchema.Proofs.Dispatch.Selection

namespace DepSchema

/-- The same schema with an oracle that fails at the query with `k` queries before it. -/
def Setting.failingAt (c : Setting) (k : Nat) (e : OracleFailure) : Setting :=
  ⟨c.schema, c.oracle.failingAt k e⟩

namespace Check

variable {α β : Type} {binds : Bool}

/-! ## §1. Queries are only added. -/

/-- The check adds queries to those that were made before. -/
def OnlyAsks (x : Check α) : Prop :=
  ∀ (c : Setting) (s : Checking), s.queries <+: (x c s).2.queries

theorem OnlyAsks.bind {x : Check α} {f : α → Check β} (hx : x.OnlyAsks)
    (hf : ∀ a, (f a).OnlyAsks) : (x >>= f).OnlyAsks := by
  intro c s
  have hfirst := hx c s
  rcases hrun : x c s with ⟨d | a, t⟩ <;> rw [hrun] at hfirst
  · rwa [bind_error hrun]
  · rw [bind_ok hrun]
    exact hfirst.trans (hf a c t)

theorem onlyAsks_ask (q : Query) : OnlyAsks (ask q) := by
  intro c s
  unfold ask
  dsimp only
  cases c.oracle s.queries q <;> exact List.prefix_append _ _

theorem Stepwise.onlyAsks {x : Check α} (h : Stepwise binds x) : x.OnlyAsks := by
  induction h with
  | pure | fail | failUnlocated | schema | meaning? | note | ofSubstitution | underCurrent
  | introduce => exact fun c s => List.prefix_rfl
  | bind _ _ hx hf => exact hx.bind hf
  | introduceIfReading o b _ _ hx hy =>
    intro c s
    rcases introduceIfReading_or o b _ _ s with heq | ⟨-, v, -, heq⟩ <;> rw [heq]
    · exact hx.bind hy c s
    · exact hy () c { s with scopes := s.scopes.bind v.name b }
  | replace n e =>
    intro c s
    unfold Check.replace
    cases s.substitution.add n e <;> exact List.prefix_rfl
  | askEqual e g => exact fun c s => onlyAsks_ask _ c s
  | declareType d => exact (onlyAsks_ask _).bind fun _ c s => List.prefix_rfl
  | declareFunction f => exact (onlyAsks_ask _).bind fun _ c s => List.prefix_rfl
  | inScope _ hx => exact fun c s => hx c s.opened
  | readInput _ hx => exact fun c s => hx c { s with readingInput := true }

/-! ## §2. Two runs. -/

/-- What the failure of the oracle at the query with `k` before it makes of a check: nothing, if the
check does not come to that query; otherwise the check ends there, with the failure. -/
def Interrupted (k : Nat) (e : OracleFailure) (x : Check α) : Prop :=
  ∀ (c : Setting) (s : Checking), s.queries.length ≤ k →
    ((x c s).2.queries.length ≤ k ∧ x (c.failingAt k e) s = x c s)
      ∨ (k < (x c s).2.queries.length ∧ (x (c.failingAt k e) s).1 = .error (.ofOracle e)
        ∧ (x (c.failingAt k e) s).2.queries = (x c s).2.queries.take (k + 1))

namespace Interrupted

variable {k : Nat} {e : OracleFailure}

/-- A check that neither asks nor reads the oracle. -/
theorem of_silent {x : Check α} (hqueries : ∀ c s, (x c s).2.queries = s.queries)
    (hsame : ∀ c s, x (c.failingAt k e) s = x c s) : x.Interrupted k e := by
  intro c s hs
  left
  rw [hqueries]
  exact ⟨hs, hsame c s⟩

theorem bind {x : Check α} {f : α → Check β} (hx : x.Interrupted k e)
    (hf : ∀ a, (f a).Interrupted k e) (hasks : ∀ a, (f a).OnlyAsks) :
    (x >>= f).Interrupted k e := by
  intro c s hs
  rcases hx c s hs with ⟨hbefore, hsame⟩ | ⟨hafter, hfailed, htaken⟩
  · -- the first check does not come to the query, so the second one starts in the same state
    rcases hrun : x c s with ⟨d | a, t⟩ <;> rw [hrun] at hbefore hsame
    · left
      rw [bind_error hrun, bind_error hsame]
      exact ⟨hbefore, rfl⟩
    · rw [bind_ok hrun, bind_ok hsame]
      exact hf a c t hbefore
  · -- the first check ends at the query, and what the second one asks comes after it
    right
    rcases hstop : x (c.failingAt k e) s with ⟨d | a, t'⟩ <;> rw [hstop] at hfailed htaken
    · obtain rfl : d = .ofOracle e := by simpa using hfailed
      rw [bind_error hstop]
      rcases hrun : x c s with ⟨d' | a, t⟩ <;> rw [hrun] at hafter htaken
      · rw [bind_error hrun]
        exact ⟨hafter, rfl, htaken⟩
      · rw [bind_ok hrun]
        obtain ⟨more, hmore⟩ := hasks a c t
        rw [← hmore, List.length_append, List.take_append_of_le_length hafter]
        exact ⟨Nat.lt_add_right _ hafter, rfl, htaken⟩
    · cases hfailed

theorem ask (q : Query) : (ask q).Interrupted k e := by
  intro c s hs
  rcases Nat.lt_or_eq_of_le hs with hlt | heq
  · left
    have hsame : (c.failingAt k e).oracle s.queries q = c.oracle s.queries q := if_neg hlt.ne
    unfold Check.ask
    dsimp only
    rw [hsame]
    cases c.oracle s.queries q <;>
      exact ⟨by simpa [Checking.note] using hlt, rfl⟩
  · right
    have hfails : (c.failingAt k e).oracle s.queries q = .error e := if_pos heq
    have hasked : (Check.ask q c s).2.queries = s.queries ++ [q] := by
      unfold Check.ask
      dsimp only
      cases c.oracle s.queries q <;> rfl
    have hstop : Check.ask q (c.failingAt k e) s
        = (.error (.ofOracle e), { s with queries := s.queries ++ [q] }) := by
      unfold Check.ask
      dsimp only
      rw [hfails]
    rw [hasked, hstop, ← heq]
    refine ⟨by simp, rfl, ?_⟩
    rw [List.take_of_length_le (by simp)]

end Interrupted

/-- **No check takes a failure of the oracle for an answer.** -/
theorem Stepwise.interrupted {x : Check α} (h : Stepwise binds x) (k : Nat) (e : OracleFailure) :
    x.Interrupted k e := by
  induction h with
  | pure | fail | failUnlocated | schema | meaning? | note | ofSubstitution | underCurrent
  | introduce => exact .of_silent (fun _ _ => rfl) fun _ _ => rfl
  | bind _ hf ihx ihf => exact ihx.bind ihf fun a => (hf a).onlyAsks
  | introduceIfReading o b _ hy ihx ihy =>
    intro c s hs
    rcases introduceIfReading_or o b _ _ s with heq | ⟨-, v, -, heq⟩ <;> rw [heq, heq]
    · exact ihx.bind ihy (fun u => (hy u).onlyAsks) c s hs
    · exact ihy () c { s with scopes := s.scopes.bind v.name b } hs
  | replace n g =>
    refine .of_silent (fun c s => ?_) fun _ _ => rfl
    unfold Check.replace
    cases s.substitution.add n g <;> rfl
  | askEqual p g => exact fun c s hs => Interrupted.ask (.equal p g s.scopes) c s hs
  | declareType d =>
    exact (Interrupted.ask _).bind (fun _ => .of_silent (fun _ _ => rfl) fun _ _ => rfl)
      fun _ c s => List.prefix_rfl
  | declareFunction f =>
    exact (Interrupted.ask _).bind (fun _ => .of_silent (fun _ _ => rfl) fun _ _ => rfl)
      fun _ c s => List.prefix_rfl
  | inScope _ hx =>
    intro c s hs
    rcases hx c s.opened hs with ⟨hbefore, hsame⟩ | hafter
    · left
      rw [inScope_eq, inScope_eq, hsame]
      exact ⟨hbefore, rfl⟩
    · exact .inr hafter
  | readInput _ hx =>
    intro c s hs
    rcases hx c { s with readingInput := true } hs with ⟨hbefore, hsame⟩ | hafter
    · left
      unfold Check.readInput
      rw [hsame]
      exact ⟨hbefore, rfl⟩
    · exact .inr hafter

end Check

/-! ## §3. Runs. -/

namespace Schema

/-- **A failure of the oracle is never taken for an answer.** Let the oracle fail at any one of the
queries that a run makes: the run makes the queries before it, then that one and no other, and
ends with what the oracle says. -/
theorem failure_ends_run (t : SymbolTable) (s : Schema) (oracle : Oracle) (e : OracleFailure)
    (k : Nat) (hk : k < (s.typing oracle).2.queries.length) :
    (∃ d, (s.typing (oracle.failingAt k e)).1 = .error d
        ∧ d.message t = "solver error: " ++ e.message ∧ d.span = e.span)
      ∧ (s.typing (oracle.failingAt k e)).2.queries
        = (s.typing oracle).2.queries.take k ++ [(s.typing oracle).2.queries[k]] := by
  have hstepwise : Check.Stepwise false Typing.checkSchema := Typing.stepwise_checkSchema
  rcases hstepwise.interrupted k e ⟨s, oracle⟩ .start (Nat.zero_le k) with
    ⟨hbefore, -⟩ | ⟨-, hfailed, htaken⟩
  · exact absurd hk hbefore.not_gt
  · refine ⟨⟨.ofOracle e, hfailed, rfl, rfl⟩, htaken.trans ?_⟩
    exact List.take_succ_eq_append_getElem hk

namespace Example

/-- A function whose parameter decides which rule of an enum is taken. -/
def picked : Schema :=
  (ofDeclarations (picking [⟨ident 12, .value (.builtin .int ⟨0, 0⟩)⟩] twelve)).withOrder [⟨7⟩]

end Example

/-- The third query asks whether the first rule matches. A negative answer passes over that rule and
the schema is accepted, a failure ends the run. -/
theorem failure_ends_match : (Example.picked.typing Structural.oracle).1 = .ok ()
    ∧ ∃ d, (Example.picked.typing (Structural.oracle.failingAt 2 ⟨"timeout", some ⟨3, 4⟩⟩)).1
        = .error d
      ∧ d.message Example.names = "solver error: " ++ "timeout" ∧ d.span = some ⟨3, 4⟩ := by
  have hpasses : (Example.picked.typing Structural.oracle).1 = .ok () := by cbv
  have hthree : (Example.picked.typing Structural.oracle).2.queries.length = 3 := by cbv
  have hk : 2 < (Example.picked.typing Structural.oracle).2.queries.length := by
    rw [hthree]
    decide
  obtain ⟨hends, -⟩ := failure_ends_run Example.names Example.picked Structural.oracle
    ⟨"timeout", some ⟨3, 4⟩⟩ 2 hk
  exact ⟨hpasses, hends⟩

end Schema

end DepSchema
