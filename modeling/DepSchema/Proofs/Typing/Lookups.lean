/-
DepSchema.Proofs.Typing.Lookups — what the check of a value looks up.

While a declaration is checked, a state allows a reference that the declaration makes and whose name
is declared everywhere, loose there or in scope. Where an expression uses nothing but what is
allowed, its check reports a name as undefined only if the name is not in scope, so that it is used
for something else than it is declared as. Names stay in scope, and what a rule input introduces is
in scope when its check has passed: the same argument then applies to what is checked behind it.

Main definitions: `Schema.Misuses` and `Check.Misses`. Main result: `misses_checkValue`.
-/
import DepSchema.Proofs.Names.Uses
import DepSchema.Proofs.Typing.Knowing

namespace DepSchema

/-! ## §1. Names that are used for something else. -/

/-- What the report of an undefined name says about a declaration: the name is used in that role
there and is declared somewhere, but not as that. A variable or a function is besides not in scope,
which leaves the names that are declared everywhere, as something else, and those that are loose in
that declaration. -/
def Schema.Misuses (s : Schema) (here : Declaration) : Cause → Prop
  | .undefinedType n =>
    (∃ k, .type n k ∈ here.refs) ∧ s.Declares here n ∧ s.type? n = none ∧ n ∉ Symbol.builtins
  | .undefinedConstructor n =>
    .ctor n ∈ here.refs ∧ s.Declares here n ∧ s.constructor? n = none
  | .undefinedFunction n =>
    (.callee n ∈ here.refs ∨ .var n ∈ here.refs) ∧ s.function? n = none
      ∧ (s.globals n = true ∨ n ∈ here.loose)
  | .undefinedVariable n => .var n ∈ here.refs ∧ (s.globals n = true ∨ n ∈ here.loose)
  | _ => True

theorem Schema.misuses_of_defined {s : Schema} {here : Declaration} {cause : Cause}
    (h : cause.isUndefined = false) : s.Misuses here cause := by
  cases cause with
  | undefinedType | undefinedVariable | undefinedFunction | undefinedConstructor => cases h
  | _ => trivial

/-! ## §2. States. -/

namespace Checking

/-- The references that may be looked up in a state. -/
def allows (s : Schema) (here : Declaration) (t : Checking) : Vocabulary := fun r =>
  r ∈ here.refs ∧ s.Declares here r.name
    ∧ (s.globals r.name = true ∨ r.name ∈ here.loose ∨ t.scopes.contains r.name = true)

/-- Scopes are open, and variables are replaced by what may be looked up. -/
structure Sound (s : Schema) (here : Declaration) (t : Checking) : Prop where
  isOpen : t.scopes.frames ≠ []
  substitutionOpen : t.substitution.scopes.frames ≠ []
  range : ∀ n e, t.substitution.find? n = some e → e.Uses false (t.allows s here)

/-- From the state `t` a check went on to `u`: names came into scope and none left it. -/
structure Grows (s : Schema) (here : Declaration) (t u : Checking) : Prop where
  sound : u.Sound s here
  grows : ∀ n, t.scopes.contains n = true → u.scopes.contains n = true
  readingInput : u.readingInput = t.readingInput

/-- The names are in scope, if they are those of a rule input. -/
def Introduces (t : Checking) (names : List Symbol) : Prop :=
  t.readingInput = true → ∀ n ∈ names, t.scopes.contains n = true

variable {s : Schema} {here : Declaration} {t u v : Checking} {names more : List Symbol}

theorem allows_mono (h : ∀ n, t.scopes.contains n = true → u.scopes.contains n = true) :
    t.allows s here ≤ u.allows s here :=
  fun _ hr => ⟨hr.1, hr.2.1, hr.2.2.imp_right fun hr => hr.imp_right (h _)⟩

theorem Grows.le (h : t.Grows s here u) : t.allows s here ≤ u.allows s here := allows_mono h.grows

theorem Grows.refl (ht : t.Sound s here) : t.Grows s here t := ⟨ht, fun _ h => h, rfl⟩

theorem Grows.trans (h : t.Grows s here u) (h' : u.Grows s here v) : t.Grows s here v :=
  ⟨h'.sound, fun n hn => h'.grows n (h.grows n hn), h'.readingInput.trans h.readingInput⟩

/-- What an expression uses stays allowed. -/
theorem Grows.uses (h : t.Grows s here u) {e : Expr}
    (he : e.Uses t.readingInput (t.allows s here)) : e.Uses u.readingInput (u.allows s here) := by
  rw [h.readingInput]
  exact he.mono h.le

theorem Introduces.grows (hn : t.Introduces names) (h : t.Grows s here u) : u.Introduces names :=
  fun hreading n hmem => h.grows n (hn (h.readingInput.symm.trans hreading) n hmem)

theorem Introduces.append (hn : t.Introduces names) (hm : t.Introduces more) :
    t.Introduces (names ++ more) := by
  intro hreading n hmem
  rcases List.mem_append.mp hmem with hmem | hmem
  · exact hn hreading n hmem
  · exact hm hreading n hmem

theorem introduces_nil : t.Introduces [] := fun _ n hn => by cases hn

/-- The state differs at most in what was asked and noted. -/
theorem Sound.of_eq (ht : t.Sound s here) (hscopes : u.scopes = t.scopes)
    (hsubstitution : u.substitution = t.substitution) : u.Sound s here := by
  refine ⟨by rw [hscopes]; exact ht.isOpen, by rw [hsubstitution]; exact ht.substitutionOpen, ?_⟩
  intro n e he
  rw [hsubstitution] at he
  refine (ht.range n e he).mono (allows_mono ?_)
  rw [hscopes]
  exact fun _ h => h

theorem Grows.of_eq (ht : t.Sound s here) (hscopes : u.scopes = t.scopes)
    (hsubstitution : u.substitution = t.substitution) (hreading : u.readingInput = t.readingInput) :
    t.Grows s here u := by
  refine ⟨ht.of_eq hscopes hsubstitution, ?_, hreading⟩
  rw [hscopes]
  exact fun _ h => h

/-- A new scope hides nothing. -/
theorem Sound.opened (ht : t.Sound s here) : t.opened.Sound s here :=
  ⟨List.cons_ne_nil _ _, List.cons_ne_nil _ _, ht.range⟩

end Checking

theorem Scopes.contains_bindAll {scopes : Scopes Binding} (hopen : scopes.frames ≠ [])
    (added : List (Symbol × Binding)) {n : Symbol} (h : scopes.contains n = true) :
    (scopes.bindAll added).contains n = true := by
  unfold contains at h ⊢
  rw [find?_bindAll hopen, Option.isSome_or, h, Bool.or_true]

/-! ## §3. Checks. -/

namespace Check

variable {α β : Type} {c : Setting} {here : Declaration} {t : Checking}

/-- From the state `t` the check reports no name as undefined that is not misused, and goes on to
states and results with `Q`. -/
structure Misses (c : Setting) (here : Declaration) (x : Check α) (t : Checking)
    (Q : α → Checking → Prop) : Prop where
  faults : ∀ d, (x c t).1 = .error d → c.schema.Misuses here d.cause
  results : ∀ a, (x c t).1 = .ok a → t.Grows c.schema here (x c t).2 ∧ Q a (x c t).2

namespace Misses

theorem of_ok {x : Check α} {a : α} {u : Checking} {Q : α → Checking → Prop}
    (hrun : x c t = (.ok a, u)) (hu : t.Grows c.schema here u) (h : Q a u) :
    Misses c here x t Q := by
  refine ⟨?_, ?_⟩
  · intro d hd
    rw [hrun] at hd
    cases hd
  · intro b hb
    rw [hrun] at hb ⊢
    cases hb
    exact ⟨hu, h⟩

theorem of_error {x : Check α} {d : Diagnostic} {u : Checking} {Q : α → Checking → Prop}
    (hrun : x c t = (.error d, u)) (h : c.schema.Misuses here d.cause) : Misses c here x t Q := by
  refine ⟨?_, ?_⟩
  · intro d' hd'
    rw [hrun] at hd'
    cases hd'
    exact h
  · intro b hb
    rw [hrun] at hb
    cases hb

theorem mono {x : Check α} {P Q : α → Checking → Prop} (h : Misses c here x t P)
    (hPQ : ∀ a u, t.Grows c.schema here u → P a u → Q a u) : Misses c here x t Q := by
  refine ⟨h.faults, fun a ha => ?_⟩
  obtain ⟨hu, hP⟩ := h.results a ha
  exact ⟨hu, hPQ a _ hu hP⟩

theorem pure {a : α} {Q : α → Checking → Prop} (ht : t.Sound c.schema here) (h : Q a t) :
    Misses c here (Pure.pure a) t Q :=
  of_ok (show (Pure.pure a : Check α) c t = (.ok a, t) from rfl) (.refl ht) h

theorem fail {span : Span} {cause : Cause} {Q : α → Checking → Prop}
    (h : cause.isUndefined = false := by rfl) : Misses c here (Check.fail span cause) t Q :=
  of_error (show Check.fail span cause c t = (.error (.located span cause), t) from rfl)
    (Schema.misuses_of_defined h)

/-- **One check after the other.** -/
theorem bind {x : Check α} {f : α → Check β} {P : α → Checking → Prop} {Q : β → Checking → Prop}
    (hx : Misses c here x t P)
    (hf : ∀ a u, t.Grows c.schema here u → P a u → Misses c here (f a) u Q) :
    Misses c here (x >>= f) t Q := by
  obtain ⟨hfaults, hresults⟩ := hx
  rcases hrun : x c t with ⟨d | a, u⟩ <;> rw [hrun] at hfaults hresults
  · exact of_error (bind_error hrun) (hfaults d rfl)
  · obtain ⟨hu, hP⟩ := hresults a rfl
    obtain ⟨hfaults', hresults'⟩ := hf a u hu hP
    refine ⟨?_, ?_⟩
    · rw [bind_ok hrun]
      exact hfaults'
    · rw [bind_ok hrun]
      intro b hb
      obtain ⟨hv, hQ⟩ := hresults' b hb
      exact ⟨hu.trans hv, hQ⟩

/-- A step that only reads the state, and what comes after it. -/
theorem read {x : Check α} {f : α → Check β} {a : α} {Q : β → Checking → Prop}
    (hrun : x c t = (.ok a, t)) (hf : Misses c here (f a) t Q) : Misses c here (x >>= f) t Q := by
  obtain ⟨hfaults, hresults⟩ := hf
  constructor <;> rwa [bind_ok hrun]

/-- A condition under which the check fails, and what comes after it. -/
theorem guard {p : Prop} [Decidable p] {span : Span} {cause : Cause} {f : α → Check β}
    {x : Check β} {Q : β → Checking → Prop} (hx : ¬p → Misses c here x t Q)
    (h : cause.isUndefined = false := by rfl) :
    Misses c here (if p then Check.fail span cause >>= f else x) t Q := by
  by_cases hp : p
  · rw [if_pos hp]
    exact bind (P := fun _ _ => False) (fail h) fun _ _ _ h => h.elim
  · rw [if_neg hp]
    exact hx hp

theorem getSome {span : Span} {cause : Cause} {o : Option α} {f : α → Check β}
    {Q : β → Checking → Prop} (hnone : o = none → c.schema.Misuses here cause)
    (hf : ∀ a, o = some a → Misses c here (f a) t Q) :
    Misses c here (Check.getSome span cause o >>= f) t Q := by
  cases o with
  | none =>
    refine bind (P := fun _ _ => False) ?_ fun _ _ _ h => h.elim
    exact of_error (show Check.getSome span cause (none : Option α) c t
      = (.error (.located span cause), t) from rfl) (hnone rfl)
  | some a => exact read rfl (hf a rfl)

/-- A check that looks up no name and binds none. -/
theorem of_knowing {x : Check α} (hx : x.Knowing) (hsteps : Stepwise false x)
    (ht : t.Sound c.schema here) : Misses c here x t fun _ _ => True := by
  refine ⟨fun d hd => Schema.misuses_of_defined (hx c t d hd), fun a _ => ⟨?_, trivial⟩⟩
  have hstill := hsteps.quiet c t ht.substitutionOpen
  obtain ⟨added, hadded⟩ := hstill.added
  have hopen := Scopes.bindAll_open ht.isOpen added
  have hgrows := fun n => Scopes.contains_bindAll (n := n) ht.isOpen added
  rw [← hadded] at hopen hgrows
  refine ⟨⟨hopen, ?_, ?_⟩, hgrows, hstill.readingInput⟩
  · rw [hstill.substitution]
    exact ht.substitutionOpen
  · rw [hstill.substitution]
    exact fun n e he => (ht.range n e he).mono (Checking.allows_mono hgrows)

theorem note (ht : t.Sound c.schema here) (e : Event) :
    Misses c here (Check.note e) t fun _ u => u.scopes = t.scopes :=
  of_ok (show Check.note e c t = (.ok (), t.note e) from rfl) (.of_eq ht rfl rfl rfl) rfl

/-- A type under some substitution. -/
theorem under (ht : t.Sound c.schema here) (σ : Substitution) (type : TypeExpr) :
    Misses c here (Check.under σ type) t fun _ _ => True :=
  of_knowing (.under σ type) (StepwiseInside.under σ type).stepwise ht

/-- A type under the substitution in force uses what is allowed. -/
theorem underCurrent (ht : t.Sound c.schema here) {type : TypeExpr}
    (htype : type.toExpr.Uses false (t.allows c.schema here)) :
    Misses c here (Check.underCurrent type) t fun type' u =>
      type'.toExpr.Uses false (u.allows c.schema here) := by
  cases happly : t.substitution.applyType type with
  | error e =>
    have hrun : Check.underCurrent type c t = (.error (.ofSubstitution e), t) := by
      simp [Check.underCurrent, Check.under, ofSubstitution, happly, Except.mapError]
    exact of_error hrun trivial
  | ok type' =>
    have hrun : Check.underCurrent type c t = (.ok type', t) := by
      simp [Check.underCurrent, Check.under, ofSubstitution, happly, Except.mapError]
    exact of_ok hrun (.refl ht) (Expr.Uses.applyType ht.range htype happly)

/-- A name that is bound is in scope afterwards. -/
theorem introduce (ht : t.Sound c.schema here) (n : Symbol) (b : Binding) :
    Misses c here (Check.introduce n b) t fun _ u => u.scopes.contains n = true := by
  have hcontains := fun m => Scopes.contains_bind_iff ht.isOpen n m b
  have hgrows : ∀ m, t.scopes.contains m = true → (t.scopes.bind n b).contains m = true :=
    fun m hm => (hcontains m).mpr (.inr hm)
  refine of_ok rfl ⟨⟨?_, ht.substitutionOpen, ?_⟩, hgrows, rfl⟩ ((hcontains n).mpr (.inl rfl))
  · exact Scopes.bind_open ht.isOpen n b
  · exact fun m e he => (ht.range m e he).mono (Checking.allows_mono hgrows)

/-- A variable may be replaced by what uses nothing but what is allowed. -/
theorem replace (ht : t.Sound c.schema here) (n : Symbol) {e : Expr}
    (he : e.Uses false (t.allows c.schema here)) :
    Misses c here (Check.replace n e) t fun _ _ => True := by
  cases happly : t.substitution.apply e with
  | error err =>
    have hrun : Check.replace n e c t = (.error (.ofSubstitution err), t) := by
      simp [Check.replace, Substitution.add, happly, Bind.bind, Except.bind]
    exact of_error hrun trivial
  | ok e' =>
    have hrun : Check.replace n e c t
        = (.ok (), { t with substitution := t.substitution.bind n e' }.note
          (.substitutionAdded n e)) := by
      simp [Check.replace, Substitution.add, happly, Bind.bind, Except.bind, Pure.pure, Except.pure]
    refine of_ok hrun ⟨⟨ht.isOpen, Substitution.bind_open ht.substitutionOpen n e', ?_⟩,
      fun _ hm => hm, rfl⟩ trivial
    exact Scopes.forall_find?_bind ht.substitutionOpen (Expr.Uses.apply ht.range he happly) ht.range

/-- **A scope of its own is left as if nothing had been bound.** -/
theorem inScope {x : Check α} (hframed : x.Framed) (ht : t.Sound c.schema here)
    {Q : α → Checking → Prop} (hx : Misses c here x t.opened Q) :
    Misses c here (Check.inScope x) t fun _ u => u.scopes = t.scopes := by
  obtain ⟨hscopes, hsubstitution, hreading⟩ := hframed.closed c ht.substitutionOpen
  exact ⟨hx.faults, fun a _ => ⟨.of_eq ht hscopes hsubstitution hreading, hscopes⟩⟩

/-- A check as part of a rule input: what it introduces is in scope afterwards. -/
theorem readInput {x : Check α} {names : List Symbol}
    (hx : Misses c here x { t with readingInput := true } fun _ u => u.Introduces names) :
    Misses c here (Check.readInput x) t fun _ u => ∀ n ∈ names, u.scopes.contains n = true := by
  refine ⟨hx.faults, fun a ha => ?_⟩
  obtain ⟨hu, hnames⟩ := hx.results a ha
  exact ⟨⟨hu.sound.of_eq rfl rfl, hu.grows, rfl⟩, hnames hu.readingInput⟩

end Misses

end Check

namespace Expr

/-- What the value of a field introduces. -/
def introducedValue (e : Expr) : List Symbol :=
  match e.bareVar? with
  | some i => [i.name]
  | none => e.introduced

theorem mem_introducedFields {n : Symbol} {fs : List (Named Expr)} :
    n ∈ introducedFields fs ↔ ∃ f ∈ fs, n ∈ f.val.introducedValue := by
  induction fs with
  | nil => simp [introducedFields]
  | cons f fs ih =>
    unfold introducedFields
    rw [List.mem_append, ih, List.exists_mem_cons_iff]
    rfl

end Expr

namespace Typing

open Check

variable {c : Setting} {here : Declaration} {t : Checking}

/-! ## §4. Variables, callees and fields. -/

/-- A variable that is allowed and not in scope is declared everywhere or loose. -/
theorem misused_variable {s : Schema} {n : Symbol} (h : t.allows s here (.var n))
    (hn : t.scopes.find? n = none) :
    .var n ∈ here.refs ∧ (s.globals n = true ∨ n ∈ here.loose) := by
  obtain ⟨hrefs, -, hglobal | hloose | hscope⟩ := h
  · exact ⟨hrefs, .inl hglobal⟩
  · exact ⟨hrefs, .inr hloose⟩
  · have hfound : (t.scopes.find? n).isSome = true := hscope
    rw [hn] at hfound
    cases hfound

/-! Checks that compare and substitute what is at hand. -/

theorem misses_elementType (ht : t.Sound c.schema here) (type : TypeExpr) (index : Nat) :
    Misses c here (elementType type index) t fun _ _ => True :=
  .of_knowing (knowing_elementType _ _) (stepwise_elementType _ _).stepwise ht

theorem misses_requireLength (ht : t.Sound c.schema here) (expected got : Expr) (span : Span) :
    Misses c here (requireLength expected got span) t fun _ _ => True :=
  .of_knowing (knowing_requireLength _ _ _) (stepwise_requireLength _ _ _).stepwise ht

theorem misses_requireValue (ht : t.Sound c.schema here) (expected : TypeExpr) (actual : Binding)
    (span : Span) : Misses c here (requireValue expected actual span) t fun _ _ => True :=
  .of_knowing (knowing_requireValue _ _ _) (stepwise_requireValue _ _ _).stepwise ht

theorem misses_lengthOfBinding (ht : t.Sound c.schema here) (element : TypeExpr)
    (actual : Binding) (span : Span) :
    Misses c here (lengthOfBinding element actual span) t fun _ _ => True :=
  .of_knowing (knowing_lengthOfBinding _ _ _) (stepwise_lengthOfBinding _ _ _).stepwise ht

theorem misses_underFunction (ht : t.Sound c.schema here) (σ : Substitution) (ft : FunctionType) :
    Misses c here (underFunction σ ft) t fun _ _ => True :=
  .of_knowing (knowing_underFunction _ _) (stepwise_underFunction _ _).stepwise ht

theorem misses_accessType (ht : t.Sound c.schema here) (a : Access)
    (ha : t.allows c.schema here (.var a.var.name)) :
    Misses c here (accessType a) t fun _ _ => True := by
  unfold accessType
  refine .read (show meaning? a.var.name c t = (.ok (t.scopes.find? a.var.name), t) from rfl) ?_
  refine .getSome (fun hnone => misused_variable ha hnone) fun b hb => ?_
  by_cases hvar : a.isVar
  · rw [if_pos hvar]
    exact .pure ht trivial
  · rw [if_neg hvar]
    cases b with
    | value type =>
      refine Misses.bind (P := fun _ _ => True) ?_ fun _ u hu _ => .pure hu.sound trivial
      exact .of_knowing (knowing_fieldsType _ _ _) (stepwise_fieldsType _ _ _).stepwise ht
    | function ft => exact .fail

theorem misses_calleeType (ht : t.Sound c.schema here) (callee : Ident)
    (hcallee : t.allows c.schema here (.callee callee.name)
      ∨ t.allows c.schema here (.var callee.name)) :
    Misses c here (calleeType callee) t fun _ _ => True := by
  unfold calleeType
  refine .read (show meaning? callee.name c t = (.ok (t.scopes.find? callee.name), t) from rfl) ?_
  cases hm : t.scopes.find? callee.name with
  | some b =>
    cases b with
    | value type => exact .fail
    | function ft => exact .pure ht trivial
  | none =>
    refine .read (show schema c t = (.ok c.schema, t) from rfl) ?_
    refine .getSome (fun hnone => ?_) fun f _ => .pure ht trivial
    -- it was looked for in scope and among the functions
    have hname : c.schema.globals callee.name = true ∨ callee.name ∈ here.loose := by
      rcases hcallee with h | h
      all_goals
        obtain ⟨-, -, hglobal | hloose | hscope⟩ := h
        · exact .inl hglobal
        · exact .inr hloose
        · have hfound : (t.scopes.find? callee.name).isSome = true := hscope
          rw [hm] at hfound
          cases hfound
    exact ⟨hcallee.imp (fun h => h.1) fun h => h.1, hnone, hname⟩

theorem misses_callType (ht : t.Sound c.schema here) (span : Span) {callee : Ident}
    (hcallee : t.allows c.schema here (.callee callee.name)) {count : Nat} (names : List Symbol)
    {arguments : List Parameter → Check (Substitution × List Parameter)}
    (harguments : ∀ ps u, t.Grows c.schema here u → count ≤ ps.length →
      Misses c here (arguments ps) u fun _ v => v.Introduces names) :
    Misses c here (callType span callee count arguments) t fun _ u => u.Introduces names := by
  unfold callType
  refine (misses_calleeType ht callee (.inl hcallee)).bind fun ft u hu _ => ?_
  refine .guard fun hcount => ?_
  refine (harguments ft.params u hu (by omega)).bind fun r v hv hnames => ?_
  obtain ⟨σ, remaining⟩ := r
  refine (Misses.under hv.sound σ ft.result).bind fun result w hw _ => ?_
  by_cases hempty : remaining.isEmpty
  · rw [if_pos hempty]
    exact .pure hw.sound (hnames.grows hw)
  · rw [if_neg hempty]
    refine (Misses.of_knowing (knowing_underParameters _ _) (stepwise_underParameters _ _).stepwise
      hw.sound).bind fun ps x hx _ => ?_
    exact .pure hx.sound (hnames.grows (hw.trans hx))

/-- The value of a field may be looked up in a state, or it is a variable that is to be bound. -/
def FieldAllowed (s : Schema) (here : Declaration) (t : Checking) (e : Expr) : Prop :=
  (t.readingInput && e.bareVar?.isSome) = false → e.Uses t.readingInput (t.allows s here)

theorem FieldAllowed.grows {s : Schema} {u : Checking} {e : Expr} (h : FieldAllowed s here t e)
    (hu : t.Grows s here u) : FieldAllowed s here u e := by
  intro hnot
  rw [hu.readingInput] at hnot
  exact hu.uses (h hnot)

theorem misses_checkFields (span : Span) (ctor : Ident) {inits : List (Named Expr)}
    {check : Symbol → TypeExpr → Check Unit}
    (hcheck : ∀ name value type u, u.Sound c.schema here → Named.find? inits name = some value →
      value.Uses u.readingInput (u.allows c.schema here) →
      Misses c here (check name type) u fun _ v => v.Introduces value.introduced)
    (fields : List Variable) :
    ∀ (σ : Substitution) (t : Checking), t.Sound c.schema here →
      (∀ f ∈ inits, FieldAllowed c.schema here t f.val) →
      Misses c here (checkFields span ctor inits check σ fields) t fun _ u =>
        ∀ v ∈ fields, ∃ value, Named.find? inits v.name.name = some value
          ∧ u.Introduces value.introducedValue := by
  induction fields with
  | nil =>
    intro σ t ht _
    exact .pure ht (by simp)
  | cons field fields ih =>
    intro σ t ht hinits
    unfold checkFields
    refine .getSome (fun _ => trivial) fun value hvalue => ?_
    refine (Misses.under ht σ field.type).bind fun type t' ht' _ => ?_
    refine .read (show isReadingInput c t' = (.ok t'.readingInput, t') from rfl) ?_
    obtain ⟨f, hf, hfval⟩ := Named.mem_of_find? hvalue
    -- the value stands for the field in the fields after it
    have hrest : ∀ u, t'.Grows c.schema here u → u.Introduces value.introducedValue →
        Misses c here (checkFields span ctor inits check (σ.bind field.name.name value) fields) u
          fun _ v => ∀ w ∈ field :: fields, ∃ value, Named.find? inits w.name.name = some value
            ∧ v.Introduces value.introducedValue := by
      intro u hu hintroduced
      have hall := ih (σ.bind field.name.name value) u hu.sound
        fun f hf => (hinits f hf).grows (ht'.trans hu)
      refine hall.mono fun _ v hv hothers => ?_
      rw [List.forall_mem_cons]
      exact ⟨⟨value, hvalue, hintroduced.grows hv⟩, hothers⟩
    split
    · next i hbare _ =>
      refine (Misses.introduce ht'.sound i.name (.value type)).bind fun _ u hu hcontains => ?_
      refine hrest u hu fun _ n hn => ?_
      unfold Expr.introducedValue at hn
      rw [hbare] at hn
      rw [List.mem_singleton.mp hn]
      exact hcontains
    · next hnot =>
      have hbare : (t'.readingInput && value.bareVar?.isSome) = false := by
        cases hreading : t'.readingInput with
        | false => rfl
        | true =>
          cases hvar : value.bareVar? with
          | none => rfl
          | some i => exact absurd hreading (hnot i hvar)
      have huses : value.Uses t'.readingInput (t'.allows c.schema here) :=
        (hfval ▸ hinits f hf).grows ht' hbare
      refine (hcheck _ value type t' ht'.sound hvalue huses).bind fun _ u hu hintroduced => ?_
      refine hrest u hu fun hreading => ?_
      -- a value that was looked up inside a rule input is no variable alone
      rw [hu.readingInput] at hreading
      have hnone : value.bareVar? = none := by simpa [hreading] using hbare
      unfold Expr.introducedValue
      rw [hnone]
      exact hintroduced (hu.readingInput.trans hreading)

/-- The fields of a constructor become available without a look-up. -/
theorem misses_boundFields {β : Type} (ht : t.Sound c.schema here) (owner : TypeDef) (ctor : Ident)
    (params : List Expr) {f : Substitution → Check β} {Q : β → Checking → Prop}
    (hf : ∀ σ u, t.Grows c.schema here u → Misses c here (f σ) u Q) :
    Misses c here (match owner with
      | .enum e => dispatch e ctor params (bindDeps owner.deps params) >>= f
      | .message _ => pure (bindDeps owner.deps params) >>= f) t Q := by
  cases owner with
  | message m => exact .read rfl (hf _ t (.refl ht))
  | enum e =>
    refine Misses.bind (P := fun _ _ => True) ?_ fun σ u hu _ => hf σ u hu
    exact .of_knowing (knowing_dispatch _ _ _ _) (stepwise_dispatch _ _ _ _).stepwise ht

theorem misses_checkConstructed (hc : c.schema.Tidy) (ht : t.Sound c.schema here) (span : Span)
    {ctor : Ident} {inits : List (Named Expr)}
    (huses : (Expr.constructed span ctor inits).Uses t.readingInput (t.allows c.schema here))
    (expected : TypeExpr) {check : Symbol → TypeExpr → Check Unit}
    (hcheck : ∀ name value type u, u.Sound c.schema here → Named.find? inits name = some value →
      value.Uses u.readingInput (u.allows c.schema here) →
      Misses c here (check name type) u fun _ v => v.Introduces value.introduced) :
    Misses c here (checkConstructed span ctor inits expected check) t fun _ u =>
      u.Introduces (Expr.introducedFields inits) := by
  obtain ⟨hctor, hinits⟩ := Expr.uses_constructed.mp huses
  unfold checkConstructed
  refine .read (show schema c t = (.ok c.schema, t) from rfl) ?_
  refine .getSome (fun hnone => ⟨hctor.1, hctor.2.1, hnone⟩) fun found hfound => ?_
  obtain ⟨owner, declared⟩ := found
  obtain ⟨hmem, hdeclared, -⟩ := Schema.of_constructor? hfound
  refine .guard fun _ => .guard fun _ => ?_
  refine misses_boundFields ht owner ctor expected.params fun σ u hu => .guard fun hcount => ?_
  refine (misses_checkFields span ctor hcheck declared.fields σ u hu.sound
    fun f hf => FieldAllowed.grows (hinits f hf) hu).mono fun _ v _ hall => ?_
  have hvalues := forall_of_fields (hc.fields owner hmem declared hdeclared) (not_not.mp hcount)
    hall
  intro hreading n hn
  obtain ⟨f, hf, hn⟩ := Expr.mem_introducedFields.mp hn
  exact hvalues f hf hreading n hn

/-! ## §5. Values. -/

mutual

/-- **The check of a value reports no name as undefined that is not misused**, and what a rule input
introduces is in scope when it has passed. -/
theorem misses_checkValue (hc : c.schema.Tidy) :
    ∀ (e : Expr) (expected : TypeExpr) (t : Checking), t.Sound c.schema here →
      e.Uses t.readingInput (t.allows c.schema here) →
      Misses c here (checkValue e expected) t fun _ u => u.Introduces e.introduced
  | .type _ _ _, _, _, _, _ => .fail
  | .binary span op l r, expected, t, ht, he => by
    unfold checkValue
    by_cases hop : op = .mem
    · -- the operands of `in` are not looked at
      subst hop
      rw [if_neg (by simp)]
      by_cases htype : ¬expected.name ∈ BinaryOp.mem.operandTypes
      · rw [if_pos htype]
        exact .fail
      · rw [if_neg htype, if_pos rfl]
        refine (Misses.note ht .membershipUnchecked).mono fun _ u _ _ => ?_
        exact Checking.introduces_nil
    · obtain ⟨hl, hr⟩ := (Expr.uses_binary hop).mp he
      have hintroduced : (Expr.binary span op l r).introduced = l.introduced ++ r.introduced := by
        simp [Expr.introduced, hop]
      rw [hintroduced]
      split
      · refine (misses_elementType ht expected 0).bind fun element u hu _ => ?_
        unfold expectedLength
        refine .getSome (fun _ => trivial) fun length _ => ?_
        refine (misses_lengthOf hc l element u hu.sound (hu.uses hl)).bind fun left v hv hleft => ?_
        refine (misses_lengthOf hc r element v hv.sound ((hu.trans hv).uses hr)).bind
          fun right w hw hright => ?_
        refine (misses_requireLength hw.sound _ _ _).mono fun _ x hx _ => ?_
        exact (hleft.grows (hw.trans hx)).append (hright.grows hx)
      · split
        · exact .fail
        · refine (misses_checkValue hc l expected t ht hl).bind fun _ u hu hleft => ?_
          refine (misses_checkValue hc r expected u hu.sound (hu.uses hr)).mono
            fun _ v hv hright => ?_
          exact (hleft.grows hv).append hright
  | .unary span op x, expected, t, ht, he => by
    unfold checkValue
    split
    · exact .fail
    · exact misses_checkValue hc x expected t ht he
  | .access a, expected, t, ht, he => by
    refine (misses_accessType ht a (Expr.uses_access.mp he)).bind fun b u hu _ => ?_
    refine (misses_requireValue hu.sound _ _ _).mono fun _ v _ _ => ?_
    exact Checking.introduces_nil
  | .scalar span v, expected, t, ht, _ => by
    unfold checkValue
    split
    · exact .pure ht Checking.introduces_nil
    · exact .fail
  | .constructed span ctor inits, expected, t, ht, he =>
    misses_checkConstructed hc ht span he expected (misses_checkField hc inits)
  | .collection span es, expected, t, ht, he => by
    have hes := Expr.uses_collection.mp he
    unfold checkValue
    split
    · refine (misses_elementType ht expected 0).bind fun element u hu _ => ?_
      exact misses_checkElements hc es element u hu.sound fun e he => hu.uses (hes e he)
    · split
      · refine (misses_elementType ht expected 0).bind fun element u hu _ => ?_
        unfold expectedLength
        refine .getSome (fun _ => trivial) fun length _ => ?_
        refine (misses_checkElements hc es element u hu.sound fun e he => hu.uses (hes e he)).bind
          fun _ v hv hnames => ?_
        refine (misses_requireLength hv.sound _ _ _).mono fun _ w hw _ => ?_
        exact hnames.grows hw
      · exact .fail
  | .call span f as, expected, t, ht, he => by
    obtain ⟨hf, has⟩ := Expr.uses_call.mp he
    unfold checkValue
    refine (misses_callType ht span hf (Expr.introducedAll as) fun ps u hu hcount =>
      misses_checkArguments hc as .empty ps u hu.sound hcount
        fun a ha => hu.uses (has a ha)).bind fun b u hu hnames => ?_
    refine (misses_requireValue hu.sound _ _ _).mono fun _ v hv _ => ?_
    exact hnames.grows hv

theorem misses_lengthOf (hc : c.schema.Tidy) :
    ∀ (e : Expr) (element : TypeExpr) (t : Checking), t.Sound c.schema here →
      e.Uses t.readingInput (t.allows c.schema here) →
      Misses c here (lengthOf e element) t fun _ u => u.Introduces e.introduced
  | .collection span es, element, t, ht, he => by
    refine (misses_checkElements hc es element t ht (Expr.uses_collection.mp he)).bind
      fun _ u hu hnames => ?_
    exact .pure hu.sound hnames
  | .binary span op l r, element, t, ht, he => by
    unfold lengthOf
    by_cases hop : op = .union
    · have hmem : op ≠ .mem := by simp [hop]
      obtain ⟨hl, hr⟩ := (Expr.uses_binary hmem).mp he
      rw [if_pos hop]
      refine (misses_lengthOf hc l element t ht hl).bind fun left u hu hleft => ?_
      refine (misses_lengthOf hc r element u hu.sound (hu.uses hr)).bind fun right v hv hright => ?_
      refine .pure hv.sound ?_
      rw [show (Expr.binary span op l r).introduced = l.introduced ++ r.introduced by
        simp [Expr.introduced, hmem]]
      exact (hleft.grows hv).append hright
    · rw [if_neg hop]
      exact .fail
  | .access a, element, t, ht, he => by
    refine (misses_accessType ht a (Expr.uses_access.mp he)).bind fun b u hu _ => ?_
    refine (misses_lengthOfBinding hu.sound _ _ _).mono fun _ v _ _ => ?_
    exact Checking.introduces_nil
  | .call span f as, element, t, ht, he => by
    obtain ⟨hf, has⟩ := Expr.uses_call.mp he
    unfold lengthOf
    refine (misses_callType ht span hf (Expr.introducedAll as) fun ps u hu hcount =>
      misses_checkArguments hc as .empty ps u hu.sound hcount
        fun a ha => hu.uses (has a ha)).bind fun b u hu hnames => ?_
    refine (misses_lengthOfBinding hu.sound _ _ _).mono fun _ v hv _ => ?_
    exact hnames.grows hv
  | .type _ _ _, _, _, _, _ => .fail
  | .unary _ _ _, _, _, _, _ => .fail
  | .scalar _ _, _, _, _, _ => .fail
  | .constructed _ _ _, _, _, _, _ => .fail

theorem misses_functionOf (hc : c.schema.Tidy) :
    ∀ (e : Expr) (t : Checking), t.Sound c.schema here →
      e.Uses t.readingInput (t.allows c.schema here) →
      Misses c here (functionOf e) t fun _ u => u.Introduces e.introduced
  | .access a, t, ht, he => by
    unfold functionOf
    split
    · refine (misses_calleeType ht a.var (.inr (Expr.uses_access.mp he))).mono fun _ _ _ _ => ?_
      exact Checking.introduces_nil
    · exact .fail
  | .call span f as, t, ht, he => by
    obtain ⟨hf, has⟩ := Expr.uses_call.mp he
    unfold functionOf
    refine (misses_callType ht span hf (Expr.introducedAll as) fun ps u hu hcount =>
      misses_checkArguments hc as .empty ps u hu.sound hcount
        fun a ha => hu.uses (has a ha)).bind fun b u hu hnames => ?_
    cases b with
    | function ft => exact .pure hu.sound hnames
    | value type => exact .fail
  | .type _ _ _, _, _, _ => .fail
  | .binary _ _ _ _, _, _, _ => .fail
  | .unary _ _ _, _, _, _ => .fail
  | .scalar _ _, _, _, _ => .fail
  | .constructed _ _ _, _, _, _ => .fail
  | .collection _ _, _, _, _ => .fail

theorem misses_checkArguments (hc : c.schema.Tidy) :
    ∀ (args : List Expr) (σ : Substitution) (ps : List Parameter) (t : Checking),
      t.Sound c.schema here → args.length ≤ ps.length →
      (∀ a ∈ args, a.Uses t.readingInput (t.allows c.schema here)) →
      Misses c here (checkArguments args σ ps) t fun _ u => u.Introduces (Expr.introducedAll args)
  | [], _, _, _, ht, _, _ => .pure ht Checking.introduces_nil
  | arg :: args, σ, [], t, ht, hcount, _ => by simp at hcount
  | arg :: args, σ, ⟨name, .value type⟩ :: ps, t, ht, hcount, hargs => by
    rw [List.forall_mem_cons] at hargs
    unfold checkArguments
    refine (Misses.under ht σ type).bind fun type' u hu _ => ?_
    refine (misses_checkValue hc arg type' u hu.sound (hu.uses hargs.1)).bind
      fun _ v hv hnames => ?_
    have huv := hu.trans hv
    refine (misses_checkArguments hc args _ ps v hv.sound (Nat.le_of_succ_le_succ hcount)
      fun a ha => huv.uses (hargs.2 a ha)).mono fun _ w hw hmore => ?_
    exact (hnames.grows hw).append hmore
  | arg :: args, σ, ⟨name, .function qs result⟩ :: ps, t, ht, hcount, hargs => by
    rw [List.forall_mem_cons] at hargs
    unfold checkArguments
    refine (misses_underFunction ht σ ⟨qs, result⟩).bind fun expected u hu _ => ?_
    refine (misses_functionOf hc arg u hu.sound (hu.uses hargs.1)).bind fun got v hv hnames => ?_
    refine (Misses.of_knowing (knowing_requireSameFunctionType _ _ _)
      (stepwise_requireSameFunctionType _ _ _).stepwise hv.sound).bind fun _ w hw _ => ?_
    have htw := (hu.trans hv).trans hw
    refine (misses_checkArguments hc args _ ps w hw.sound (Nat.le_of_succ_le_succ hcount)
      fun a ha => htw.uses (hargs.2 a ha)).mono fun _ x hx hmore => ?_
    exact (hnames.grows (hw.trans hx)).append hmore

theorem misses_checkElements (hc : c.schema.Tidy) :
    ∀ (es : List Expr) (element : TypeExpr) (t : Checking), t.Sound c.schema here →
      (∀ e ∈ es, e.Uses t.readingInput (t.allows c.schema here)) →
      Misses c here (checkElements es element) t fun _ u => u.Introduces (Expr.introducedAll es)
  | [], _, _, ht, _ => .pure ht Checking.introduces_nil
  | e :: es, element, t, ht, hes => by
    rw [List.forall_mem_cons] at hes
    refine (misses_checkValue hc e element t ht hes.1).bind fun _ u hu hnames => ?_
    refine (misses_checkElements hc es element u hu.sound fun e he => hu.uses (hes.2 e he)).mono
      fun _ v hv hmore => ?_
    exact (hnames.grows hv).append hmore

theorem misses_checkField (hc : c.schema.Tidy) :
    ∀ (fs : List (Named Expr)) (name : Symbol) (value : Expr) (type : TypeExpr) (t : Checking),
      t.Sound c.schema here → Named.find? fs name = some value →
      value.Uses t.readingInput (t.allows c.schema here) →
      Misses c here (checkField fs name type) t fun _ u => u.Introduces value.introduced
  | [], _, _, _, _, _, hfind, _ => by cases hfind
  | f :: fs, name, value, type, t, ht, hfind, hvalue => by
    unfold checkField
    rw [Named.find?_cons] at hfind
    by_cases hname : f.name.name = name
    · rw [if_pos hname] at hfind ⊢
      cases hfind
      exact misses_checkValue hc f.val type t ht hvalue
    · rw [if_neg hname] at hfind ⊢
      exact misses_checkField hc fs name value type t ht hfind hvalue

end

end Typing

end DepSchema
