/-
DepSchema.Proofs.Vocabulary.Asking — checks that ask within a vocabulary.

A state is within a vocabulary when what the names in scope stand for is within the vocabulary
together with the variables in scope. From such a state a check is to ask the oracle about
expressions within that vocabulary only, to look nothing else up in the schema, to fail for no
reason of encoding, and to leave such a state again, in which no name has left the scope. If
variables were replaced by values within the vocabulary, then they still are. `Check.Asks` says so,
with a condition on the result; it has a rule for each way in which checks are put together.

Main definition: `Check.Asks`. Main rules: `Asks.bind`, `Asks.askEqual` and `Asks.inScope`.
-/
import DepSchema.Proofs.Vocabulary.Substitution
import DepSchema.Proofs.Typing.Frame

namespace DepSchema

/-! ## §1. Queries, faults and states. -/

/-- What each name in scope stands for is within the vocabulary and the variables in scope. -/
def Scopes.Within (W : Vocabulary) (scope : Scopes Binding) : Prop :=
  ∀ n b, scope.find? n = some b → b.Within (W.inScope scope)

/-- The query asks whether two expressions are equal; both, and the scope in which they stand, are
within the vocabulary. -/
def Query.Fits (W : Vocabulary) : Query → Prop
  | .equal expected got scope =>
    expected.Within (W.inScope scope) ∧ got.Within (W.inScope scope) ∧ scope.Within W
  | _ => False

/-- The fault is that a field has no sort. -/
def Diagnostic.IsUnencodable (d : Diagnostic) : Prop :=
  ∃ field type, d.cause = .unencodableField field type

theorem Diagnostic.not_isUnencodable {d : Diagnostic}
    (h : ∀ field type, d.cause ≠ .unencodableField field type) : ¬d.IsUnencodable :=
  fun ⟨field, type, heq⟩ => h field type heq

/-- Under the words of the vocabulary both schemas declare the same, apart from what functions do.
-/
structure Schema.AgreesOn (W : Vocabulary) (s s' : Schema) : Prop where
  type : ∀ {n k}, W (.type n k) → s'.type? n = s.type? n
  ctor : ∀ {n}, W (.ctor n) → s'.constructor? n = s.constructor? n
  function : ∀ {n}, W (.callee n) ∨ W (.var n) →
    (s'.function? n).map FunctionDef.signature = (s.function? n).map FunctionDef.signature

/-- What may be referred to in a state: the vocabulary and the variables in scope. -/
abbrev Checking.reach (W : Vocabulary) (s : Checking) : Vocabulary := W.inScope s.scopes

/-- What names in scope stand for is within the vocabulary and the variables in scope. -/
structure Checking.Within (W : Vocabulary) (s : Checking) : Prop where
  scopes : s.scopes.Within W
  isOpen : s.scopes.frames ≠ []
  substitutionOpen : s.substitution.scopes.frames ≠ []

/-- Variables are replaced by values within the vocabulary and the variables in scope. -/
structure Checking.Replaces (W : Vocabulary) (s : Checking) : Prop where
  range : ∀ n e, s.substitution.find? n = some e → e.Within (s.reach W)
  values : ∀ n e, s.substitution.find? n = some e → e.IsValue

/-- From the state `s` a check went on to `t`: names came into scope and none left it. -/
structure Checking.Leads (W : Vocabulary) (s t : Checking) : Prop where
  within : t.Within W
  replaces : s.Replaces W → t.Replaces W
  grows : ∀ n, s.scopes.contains n = true → t.scopes.contains n = true
  readingInput : t.readingInput = s.readingInput

namespace Checking

variable {W : Vocabulary} {s t u : Checking}

theorem within_start (W : Vocabulary) : Checking.start.Within W := by
  refine ⟨?_, by simp [start, Scopes.single], Substitution.empty_open⟩
  intro n b hb
  cases hb

theorem replaces_start (W : Vocabulary) : Checking.start.Replaces W := by
  constructor
  · intro n e he
    cases he
  · intro n e he
    cases he

theorem Leads.refl (hs : s.Within W) : s.Leads W s := ⟨hs, fun h => h, fun _ h => h, rfl⟩

theorem Leads.trans (h : s.Leads W t) (h' : t.Leads W u) : s.Leads W u :=
  ⟨h'.within, fun hs => h'.replaces (h.replaces hs), fun n hn => h'.grows n (h.grows n hn),
    h'.readingInput.trans h.readingInput⟩

theorem Leads.le (h : s.Leads W t) : s.reach W ≤ t.reach W :=
  Vocabulary.inScope_mono h.grows

/-- The state differs at most in what was asked and noted. -/
theorem Within.of_eq (hs : s.Within W) (hscopes : t.scopes = s.scopes)
    (hsubstitution : t.substitution = s.substitution) : t.Within W := by
  obtain ⟨scopes, hopen, hsubst⟩ := hs
  constructor
  · rwa [hscopes]
  · rwa [hscopes]
  · rwa [hsubstitution]

theorem Replaces.of_eq (hs : s.Replaces W) (hscopes : t.scopes = s.scopes)
    (hsubstitution : t.substitution = s.substitution) : t.Replaces W := by
  obtain ⟨range, values⟩ := hs
  constructor
  · rwa [reach, hscopes, hsubstitution]
  · rwa [hsubstitution]

theorem Leads.of_eq (hs : s.Within W) (hscopes : t.scopes = s.scopes)
    (hsubstitution : t.substitution = s.substitution) (hreading : t.readingInput = s.readingInput) :
    s.Leads W t := by
  refine ⟨hs.of_eq hscopes hsubstitution, fun h => h.of_eq hscopes hsubstitution, ?_, hreading⟩
  rw [hscopes]
  exact fun _ hn => hn

/-- The substitution in force replaces what is within reach by what is within reach. -/
theorem Replaces.covers (hs : s.Replaces W) {V : Vocabulary} (hV : V ≤ s.reach W) :
    s.substitution.Covers V (s.reach W) :=
  ⟨fun r _ hr => hV r hr, fun _ hn _ => hV _ hn, hs.range⟩

end Checking

/-- A new scope hides nothing. -/
theorem Checking.Within.opened {W : Vocabulary} {s : Checking} (hs : s.Within W) :
    s.opened.Within W :=
  ⟨hs.scopes, List.cons_ne_nil _ _, List.cons_ne_nil _ _⟩

theorem Checking.Replaces.opened {W : Vocabulary} {s : Checking} (hs : s.Replaces W) :
    s.opened.Replaces W :=
  ⟨hs.range, hs.values⟩

/-- A check that keeps to the innermost scopes leaves no trace when they are closed. -/
theorem Check.Framed.closed {α : Type} {x : Check α} (hx : x.Framed) (c : Setting) {s : Checking}
    (hs : s.substitution.scopes.frames ≠ []) :
    (x c s.opened).2.closed.scopes = s.scopes
      ∧ (x c s.opened).2.closed.substitution = s.substitution
      ∧ (x c s.opened).2.closed.readingInput = s.readingInput := by
  have hstill := Framed.inScope hx c s hs
  have hout := hx c s.opened (List.cons_ne_nil _ _)
  exact ⟨congrArg Scopes.mk hout.scopes, hstill.substitution, hstill.readingInput⟩

/-- A name that is bound is in scope, and no name leaves the scope. -/
theorem Scopes.contains_bind_iff {scope : Scopes Binding} (hopen : scope.frames ≠ [])
    (name n : Symbol) (b : Binding) :
    (scope.bind name b).contains n = true ↔ n = name ∨ scope.contains n = true := by
  unfold Scopes.contains
  rw [Scopes.find?_bind hopen]
  by_cases h : n = name <;> simp [h]

/-! ## §2. Checks. -/

namespace Check

variable {α β : Type} {W : Vocabulary} {c : Setting} {s : Checking}

theorem ask_error {q : Query} {e : OracleFailure} (h : c.oracle s.queries q = .error e) :
    ask q c s = (.error (.ofOracle e), { s with queries := s.queries ++ [q] }) := by
  unfold ask
  dsimp only
  rw [h]

/-- From the state `s` the check asks within the vocabulary and runs in the same way with any schema
that declares the same under its words, fails for no reason of encoding, and leads to states and
results with `Q`. -/
structure Asks (W : Vocabulary) (c : Setting) (x : Check α) (s : Checking)
    (Q : α → Checking → Prop) : Prop where
  queries : ∃ asked, (x c s).2.queries = s.queries ++ asked ∧ ∀ q ∈ asked, q.Fits W
  agrees : ∀ s', c.schema.AgreesOn W s' → x ⟨s', c.oracle⟩ s = x c s
  faults : ∀ d, (x c s).1 = .error d → ¬d.IsUnencodable
  results : ∀ a, (x c s).1 = .ok a → s.Leads W (x c s).2 ∧ Q a (x c s).2

namespace Asks

/-- A check that asks nothing and gives a result. -/
theorem of_ok {x : Check α} {t : Checking} {a : α} {Q : α → Checking → Prop}
    (hrun : ∀ c, x c s = (.ok a, t)) (hqueries : t.queries = s.queries) (ht : s.Leads W t)
    (h : Q a t) : Asks W c x s Q := by
  refine ⟨⟨[], by simp [hrun, hqueries], by simp⟩, fun _ _ => by rw [hrun, hrun], ?_, ?_⟩
  · intro d hd
    rw [hrun] at hd
    cases hd
  · intro b hb
    rw [hrun] at hb ⊢
    cases hb
    exact ⟨ht, h⟩

/-- A check that asks nothing and fails. -/
theorem of_error {x : Check α} {t : Checking} {d : Diagnostic} {Q : α → Checking → Prop}
    (hrun : ∀ c, x c s = (.error d, t)) (hqueries : t.queries = s.queries)
    (hd : ¬d.IsUnencodable) : Asks W c x s Q := by
  refine ⟨⟨[], by simp [hrun, hqueries], by simp⟩, fun _ _ => by rw [hrun, hrun], ?_, ?_⟩
  · intro d' hd'
    rw [hrun] at hd'
    cases hd'
    exact hd
  · intro b hb
    rw [hrun] at hb
    cases hb

theorem mono {x : Check α} {P Q : α → Checking → Prop} (h : Asks W c x s P)
    (hPQ : ∀ a t, s.Leads W t → P a t → Q a t) : Asks W c x s Q := by
  refine ⟨h.queries, h.agrees, h.faults, ?_⟩
  intro a ha
  obtain ⟨hleads, hP⟩ := h.results a ha
  exact ⟨hleads, hPQ a _ hleads hP⟩

theorem pure {a : α} {Q : α → Checking → Prop} (hs : s.Within W) (h : Q a s) :
    Asks W c (Pure.pure a) s Q :=
  of_ok (fun _ => rfl) rfl (.refl hs) h

theorem fail {span : Span} {cause : Cause} {Q : α → Checking → Prop}
    (hcause : ∀ field type, cause ≠ .unencodableField field type := by nofun) :
    Asks W c (Check.fail span cause) s Q :=
  of_error (fun _ => rfl) rfl (Diagnostic.not_isUnencodable hcause)

/-- **One check after the other.** -/
theorem bind {x : Check α} {f : α → Check β} {P : α → Checking → Prop} {Q : β → Checking → Prop}
    (hx : Asks W c x s P) (hf : ∀ a t, s.Leads W t → P a t → Asks W c (f a) t Q) :
    Asks W c (x >>= f) s Q := by
  obtain ⟨⟨asked, hasked, hfits⟩, hagrees, hfaults, hresults⟩ := hx
  rcases hrun : x c s with ⟨d | a, t⟩ <;> rw [hrun] at hasked hagrees hfaults hresults
  · refine ⟨⟨asked, ?_, hfits⟩, fun s' hs' => ?_, ?_, ?_⟩
    · rw [bind_error hrun]
      exact hasked
    · rw [bind_error hrun, bind_error (hagrees s' hs')]
    · rw [bind_error hrun]
      exact fun d' hd' => hfaults d' (by cases hd'; rfl)
    · rw [bind_error hrun]
      exact fun b hb => by cases hb
  · obtain ⟨hleads, hP⟩ := hresults a rfl
    obtain ⟨⟨more, hmore, hfits'⟩, hagrees', hfaults', hresults'⟩ := hf a t hleads hP
    refine ⟨⟨asked ++ more, ?_, ?_⟩, fun s' hs' => ?_, ?_, ?_⟩
    · rw [bind_ok hrun, hmore, hasked, List.append_assoc]
    · intro q hq
      rcases List.mem_append.mp hq with hq | hq
      · exact hfits q hq
      · exact hfits' q hq
    · rw [bind_ok hrun, bind_ok (hagrees s' hs'), hagrees' s' hs']
    · rw [bind_ok hrun]
      exact hfaults'
    · rw [bind_ok hrun]
      intro b hb
      obtain ⟨hleads', hQ⟩ := hresults' b hb
      exact ⟨hleads.trans hleads', hQ⟩

/-- A step that only reads the state, and what comes after it. -/
theorem read {x : Check α} {f : α → Check β} {a : α} {Q : β → Checking → Prop}
    (hrun : ∀ c, x c s = (.ok a, s)) (hf : Asks W c (f a) s Q) : Asks W c (x >>= f) s Q := by
  obtain ⟨hqueries, hagrees, hfaults, hresults⟩ := hf
  constructor <;> simp only [bind_ok (hrun _)] <;> assumption

/-- A condition under which the check fails, and what comes after it. -/
theorem guard {p : Prop} [Decidable p] {span : Span} {cause : Cause} {f : α → Check β}
    {x : Check β} {Q : β → Checking → Prop} (hx : ¬p → Asks W c x s Q)
    (hcause : ∀ field type, cause ≠ .unencodableField field type := by nofun) :
    Asks W c (if p then Check.fail span cause >>= f else x) s Q := by
  split
  · exact bind (P := fun _ _ => False) (fail hcause) fun _ _ _ h => h.elim
  · next h => exact hx h

theorem getSome {span : Span} {cause : Cause} {o : Option α} {f : α → Check β}
    {Q : β → Checking → Prop} (hf : ∀ a, o = some a → Asks W c (f a) s Q)
    (hcause : ∀ field type, cause ≠ .unencodableField field type := by nofun) :
    Asks W c (Check.getSome span cause o >>= f) s Q := by
  cases o with
  | none => exact bind (P := fun _ _ => False) (fail hcause) fun _ _ _ h => h.elim
  | some a => exact read (fun _ => rfl) (hf a rfl)

/-- The schema may be read where another one that declares the same under the words of the
vocabulary would do as well. -/
theorem schema {f : Schema → Check β} {Q : β → Checking → Prop} (hf : Asks W c (f c.schema) s Q)
    (hsame : ∀ s', c.schema.AgreesOn W s' → f s' = f c.schema) :
    Asks W c (Check.schema >>= f) s Q := by
  have hrun : ∀ c, Check.schema c s = (.ok c.schema, s) := fun _ => rfl
  obtain ⟨hqueries, hagrees, hfaults, hresults⟩ := hf
  refine ⟨?_, fun s' hs' => ?_, ?_, ?_⟩
  · rwa [bind_ok (hrun c)]
  · rw [bind_ok (hrun c), bind_ok (hrun _), hsame s' hs', hagrees s' hs']
  · rwa [bind_ok (hrun c)]
  · rwa [bind_ok (hrun c)]

/-- The result of a substitution, as it is. -/
theorem underResult {σ : Substitution} {t : TypeExpr} (hs : s.Within W)
    {Q : TypeExpr → Checking → Prop} (h : ∀ t', σ.applyType t = .ok t' → Q t' s) :
    Asks W c (Check.under σ t) s Q := by
  cases happly : σ.applyType t with
  | error e =>
    have hrun : ∀ c, Check.under σ t c s = (.error (.ofSubstitution e), s) := by
      simp [Check.under, ofSubstitution, happly, Except.mapError]
    exact of_error hrun rfl (Diagnostic.not_isUnencodable nofun)
  | ok t' =>
    have hrun : ∀ c, Check.under σ t c s = (.ok t', s) := by
      simp [Check.under, ofSubstitution, happly, Except.mapError]
    exact of_ok hrun rfl (.refl hs) (h t' happly)

theorem under {σ : Substitution} {t : TypeExpr} {f : TypeExpr → Check β}
    {Q : β → Checking → Prop} (hs : s.Within W)
    (hf : ∀ t', σ.applyType t = .ok t' → Asks W c (f t') s Q) :
    Asks W c (Check.under σ t >>= f) s Q := by
  cases happly : σ.applyType t with
  | error e =>
    refine bind (underResult (Q := fun _ _ => False) hs fun t' ht' => ?_) fun _ _ _ h => h.elim
    rw [happly] at ht'
    cases ht'
  | ok t' =>
    have hrun : ∀ c, Check.under σ t c s = (.ok t', s) := by
      simp [Check.under, ofSubstitution, happly, Except.mapError]
    exact read hrun (hf t' happly)

theorem underCurrent {t : TypeExpr} {f : TypeExpr → Check β} {Q : β → Checking → Prop}
    (hs : s.Within W)
    (hf : ∀ t', s.substitution.applyType t = .ok t' → Asks W c (f t') s Q) :
    Asks W c (Check.underCurrent t >>= f) s Q := by
  obtain ⟨hqueries, hagrees, hfaults, hresults⟩ := under (σ := s.substitution) (t := t) hs hf
  exact ⟨hqueries, hagrees, hfaults, hresults⟩

theorem note (hs : s.Within W) (e : Event) :
    Asks W c (Check.note e) s fun _ t => t.scopes = s.scopes :=
  of_ok (fun _ => rfl) rfl (.of_eq hs rfl rfl rfl) rfl

/-- **A name may be bound to what is within reach.** -/
theorem introduce (hs : s.Within W) {n : Symbol} {b : Binding} (hb : b.Within (s.reach W)) :
    Asks W c (Check.introduce n b) s fun _ t => t.scopes.contains n = true := by
  have hcontains := fun m => Scopes.contains_bind_iff hs.isOpen n m b
  have hle : s.reach W ≤ W.inScope (s.scopes.bind n b) :=
    Vocabulary.inScope_mono fun m hm => (hcontains m).mpr (.inr hm)
  refine of_ok (fun _ => rfl) rfl ⟨⟨?_, ?_, hs.substitutionOpen⟩, ?_, ?_, rfl⟩ ?_
  · -- the new name stands for `b`, the others for what they did
    exact Scopes.forall_find?_bind hs.isOpen (hb.mono hle) fun m b' hb' =>
      (hs.scopes m b' hb').mono hle
  · exact Scopes.bind_open hs.isOpen n b
  · exact fun h => ⟨fun m e he => (h.range m e he).mono hle, h.values⟩
  · exact fun m hm => (hcontains m).mpr (.inr hm)
  · exact (hcontains n).mpr (.inl rfl)

/-- A variable may be replaced by a value within reach. -/
theorem replace (hs : s.Within W) (hreplaces : s.Replaces W) (n : Symbol) {e : Expr}
    (he : e.Within (s.reach W)) (hvalue : e.IsValue) :
    Asks W c (Check.replace n e) s fun _ t => t.scopes = s.scopes := by
  cases happly : s.substitution.apply e with
  | error err =>
    have hrun : ∀ c, Check.replace n e c s = (.error (.ofSubstitution err), s) := by
      simp [Check.replace, Substitution.add, happly, Bind.bind, Except.bind]
    exact of_error hrun rfl (Diagnostic.not_isUnencodable nofun)
  | ok e' =>
    have hrun : ∀ c, Check.replace n e c s
        = (.ok (), { s with substitution := s.substitution.bind n e' }.note
          (.substitutionAdded n e)) := by
      simp [Check.replace, Substitution.add, happly, Bind.bind, Except.bind, Pure.pure, Except.pure]
    have hwithin : e'.Within (s.reach W) := (hreplaces.covers le_rfl).apply he happly
    have hvalue' := hvalue.apply hreplaces.values happly
    refine of_ok hrun rfl ⟨⟨hs.scopes, hs.isOpen, ?_⟩, fun _ => ⟨?_, ?_⟩, fun _ hm => hm, rfl⟩ rfl
    · exact Substitution.bind_open hs.substitutionOpen n e'
    · exact Scopes.forall_find?_bind hs.substitutionOpen hwithin hreplaces.range
    · exact Scopes.forall_find?_bind hs.substitutionOpen hvalue' hreplaces.values

/-- **The oracle may be asked about expressions within reach.** -/
theorem askEqual (hs : s.Within W) {e g : Expr} (he : e.Within (s.reach W))
    (hg : g.Within (s.reach W)) :
    Asks W c (Check.askEqual e g) s fun _ t => t.scopes = s.scopes := by
  have hfits : (Query.equal e g s.scopes).Fits W := ⟨he, hg, hs.scopes⟩
  have hasked : ∀ q ∈ [Query.equal e g s.scopes], q.Fits W := by simpa using hfits
  cases horacle : c.oracle s.queries (.equal e g s.scopes) with
  | error err =>
    have hrun : Check.askEqual e g c s = _ := ask_error horacle
    refine ⟨⟨_, by rw [hrun], hasked⟩, fun _ _ => rfl, ?_, ?_⟩
    · rw [hrun]
      intro d hd
      cases hd
      exact Diagnostic.not_isUnencodable nofun
    · rw [hrun]
      intro a ha
      cases ha
  | ok answer =>
    have hrun : Check.askEqual e g c s = _ := ask_ok horacle
    refine ⟨⟨_, by rw [hrun]; rfl, hasked⟩, fun _ _ => rfl, ?_, ?_⟩
    · rw [hrun]
      intro d hd
      cases hd
    · rw [hrun]
      intro a _
      exact ⟨.of_eq hs rfl rfl rfl, rfl⟩

/-- **A scope of its own is left as if nothing had been bound**, for names and for the substitution.
-/
theorem inScope {x : Check α} (hframed : x.Framed) (hs : s.Within W) {Q : α → Prop}
    (hx : Asks W c x s.opened fun a _ => Q a) :
    Asks W c (Check.inScope x) s fun a t => Q a ∧ t.scopes = s.scopes := by
  obtain ⟨⟨asked, hasked, hfits⟩, hagrees, hfaults, hresults⟩ := hx
  have hrun : ∀ c, Check.inScope x c s = ((x c s.opened).1, (x c s.opened).2.closed) :=
    fun _ => rfl
  obtain ⟨hscopes, hsubstitution, hreading⟩ := hframed.closed c hs.substitutionOpen
  refine ⟨⟨asked, ?_, hfits⟩, fun s' hs' => ?_, ?_, ?_⟩
  · rw [hrun]
    exact hasked
  · rw [hrun, hrun, hagrees s' hs']
  · rw [hrun]
    exact hfaults
  · rw [hrun]
    intro a ha
    exact ⟨.of_eq hs hscopes hsubstitution hreading, (hresults a ha).2, hscopes⟩

/-- A check as part of a rule input. -/
theorem readInput {x : Check α} {Q : α → Checking → Prop}
    (hx : Asks W c x { s with readingInput := true } Q)
    (hQ : ∀ a t, Q a t → Q a { t with readingInput := s.readingInput }) :
    Asks W c (Check.readInput x) s Q := by
  obtain ⟨hqueries, hagrees, hfaults, hresults⟩ := hx
  have hrun : ∀ c, Check.readInput x c s = ((x c { s with readingInput := true }).1,
      { (x c { s with readingInput := true }).2 with readingInput := s.readingInput }) :=
    fun _ => rfl
  refine ⟨hqueries, fun s' hs' => ?_, hfaults, ?_⟩
  · rw [hrun, hrun, hagrees s' hs']
  intro a ha
  obtain ⟨hleads, hQ'⟩ := hresults a ha
  refine ⟨⟨hleads.within.of_eq rfl rfl, fun h => ?_, hleads.grows, rfl⟩, hQ a _ hQ'⟩
  exact (hleads.replaces (h.of_eq rfl rfl)).of_eq rfl rfl

end Asks

end Check

end DepSchema
