/-
DepSchema.Proofs.Dispatch.FirstMatch — data is matched rule by rule.

When the parameters of an enum are data, literals and constructed values of such, and its patterns
hold variables, literals and constructed values only, matching needs no judgement: a variable takes
what stands at its place, a literal stands at the place of an equal one, and a constructed value at
the place of a value of its constructor that has all of its fields. A pattern either catches a value
at each of its variables or does not match at all. So which rule decides can be told from the rules
and the parameters alone, and what is bound by then is what that rule caught: an earlier rule that
matched half of the parameters leaves nothing behind.

Main definitions: `Expr.Catches` and `Rule.IsFirst`. Main result: `dispatch_firstMatch`.
-/
import DepSchema.Proofs.Dispatch.Choice
import DepSchema.Proofs.Oracle.Equivalence

namespace DepSchema

/-! ## §1. Data and patterns. -/

namespace Expr

mutual

/-- A literal, or a constructed value of such in which no field is named twice. -/
def isDatum : Expr → Bool
  | scalar _ _ => true
  | constructed _ _ fs => decide (fs.map fun f => f.name.name).Nodup && fieldsAreData fs
  | _ => false
termination_by structural e => e

/-- The values of the fields are data. -/
def fieldsAreData : List (Named Expr) → Bool
  | [] => true
  | f :: fs => isDatum f.val && fieldsAreData fs
termination_by structural fs => fs

end

mutual

/-- A variable alone, a literal, or a constructed value of such. -/
def isPattern : Expr → Bool
  | access a => a.isVar
  | scalar _ _ => true
  | constructed _ _ fs => fieldsArePatterns fs
  | _ => false
termination_by structural e => e

/-- The values of the fields are patterns. -/
def fieldsArePatterns : List (Named Expr) → Bool
  | [] => true
  | f :: fs => isPattern f.val && fieldsArePatterns fs
termination_by structural fs => fs

end

theorem fieldsAreData_iff {fs : List (Named Expr)} :
    fieldsAreData fs = true ↔ ∀ f ∈ fs, f.val.isDatum = true := by
  induction fs with
  | nil => simp [fieldsAreData]
  | cons f fs ih => simp [fieldsAreData, ih]

end Expr

/-- Any value, or a pattern. -/
def RuleInput.isPattern : RuleInput → Bool
  | .any _ => true
  | .value p => p.isPattern

/-! ## §2. What a rule catches. -/

namespace Expr

mutual

/-- The value matches the pattern, whose variables catch `caught`, place by place. -/
inductive Catches : Expr → Expr → List (Symbol × Expr) → Prop
  | var {a : Access} {value : Expr} (hvar : a.isVar = true) :
      Catches (.access a) value [(a.var.name, value)]
  | literal {s s' : Span} {v w : Scalar} (hsame : v.content = w.content) :
      Catches (.scalar s v) (.scalar s' w) []
  | constructed {s s' : Span} {c c' : Ident} {fs values : List (Named Expr)}
      {caught : List (Symbol × Expr)} (hname : c.name = c'.name)
      (hfields : FieldsCatch fs values caught) :
      Catches (.constructed s c fs) (.constructed s' c' values) caught

/-- Each field of a pattern is matched by the value that has its name. -/
inductive FieldsCatch : List (Named Expr) → List (Named Expr) → List (Symbol × Expr) → Prop
  | nil {values : List (Named Expr)} : FieldsCatch [] values []
  | cons {f g : Named Expr} {fs values : List (Named Expr)} {caught more : List (Symbol × Expr)}
      (hmem : g ∈ values) (hname : g.name.name = f.name.name) (hfirst : Catches f.val g.val caught)
      (hrest : FieldsCatch fs values more) : FieldsCatch (f :: fs) values (caught ++ more)

end

end Expr

/-- As many parameters as inputs match them one by one. -/
inductive RuleInput.Catch : List RuleInput → List Expr → List (Symbol × Expr) → Prop
  | nil : Catch [] [] []
  | any {span : Span} {param : Expr} {inputs : List RuleInput} {params : List Expr}
      {caught : List (Symbol × Expr)} (hrest : Catch inputs params caught) :
      Catch (.any span :: inputs) (param :: params) caught
  | value {p param : Expr} {inputs : List RuleInput} {params : List Expr}
      {caught more : List (Symbol × Expr)} (hfirst : p.Catches param caught)
      (hrest : Catch inputs params more) :
      Catch (.value p :: inputs) (param :: params) (caught ++ more)

/-- The rule is the first one that the parameters match, and it catches `caught`. -/
def Rule.IsFirst (rule : Rule) (rules : List Rule) (params : List Expr)
    (caught : List (Symbol × Expr)) : Prop :=
  ∃ before after, rules = before ++ rule :: after ∧ RuleInput.Catch rule.inputs params caught
    ∧ ∀ other ∈ before, ¬∃ caught, RuleInput.Catch other.inputs params caught

theorem RuleInput.Catch.length_eq {inputs : List RuleInput} {params : List Expr}
    {caught : List (Symbol × Expr)} (h : Catch inputs params caught) :
    inputs.length = params.length := by
  induction h with
  | nil => rfl
  | any _ ih => exact congrArg (· + 1) ih
  | value _ _ ih => exact congrArg (· + 1) ih

/-! ## §3. Matching binds what is caught. -/

namespace Substitution

/-- Several names bound in the innermost scope, one after the other. -/
def bindAll (σ : Substitution) (caught : List (Symbol × Expr)) : Substitution :=
  ⟨σ.scopes.bindAll caught⟩

theorem bindAll_append (σ : Substitution) (caught more : List (Symbol × Expr)) :
    σ.bindAll (caught ++ more) = (σ.bindAll caught).bindAll more :=
  congrArg mk (σ.scopes.bindAll_append caught more)

/-- **The last place of a name decides**, and other names stand for what they stood for. -/
theorem find?_bindAll {σ : Substitution} (hopen : σ.scopes.frames ≠ [])
    (caught : List (Symbol × Expr)) (name : Symbol) :
    (σ.bindAll caught).find? name = (caught.reverse.lookup name).or (σ.find? name) :=
  Scopes.find?_bindAll hopen caught name

end Substitution

namespace Expr

variable {message : Symbol → Bool}

mutual

/-- **A pattern is matched exactly by what it catches from**, and it binds what it catches. -/
theorem bindings?_eq_some_iff : ∀ {p value : Expr} {σ σ' : Substitution}, p.isPattern = true →
    value.isDatum = true → (value.bindings? message σ p = some σ'
      ↔ ∃ caught, p.Catches value caught ∧ σ' = σ.bindAll caught)
  | .access a, value, σ, σ', hp, _ => by
    have hvar : a.isVar = true := hp
    rw [bindings?, if_pos hvar, Option.some.injEq]
    constructor
    · rintro rfl
      exact ⟨_, .var hvar, rfl⟩
    · rintro ⟨caught, hcatches, rfl⟩
      cases hcatches
      rfl
  | .scalar _ v, value, σ, σ', _, hvalue => by
    constructor
    · intro h
      cases value with
      | scalar _ w =>
        obtain ⟨hsame, h⟩ := Option.ite_none_right_eq_some.mp h
        cases h
        exact ⟨[], .literal (Scalar.sameAs_iff_content.mp hsame), rfl⟩
      | constructed => cases h
      | _ => cases hvalue
    · rintro ⟨caught, hcatches, rfl⟩
      cases hcatches with
      | literal hsame => exact if_pos (Scalar.sameAs_iff_content.mpr hsame)
  | .constructed _ ctor fs, value, σ, σ', hp, hvalue => by
    show (value.parts? message ctor.name).bind _ = _ ↔ _
    rw [Option.bind_eq_some_iff]
    constructor
    · rintro ⟨valueOf, hparts, h⟩
      cases value with
      | constructed _ c values =>
        obtain ⟨hname, hparts⟩ := Option.ite_none_right_eq_some.mp hparts
        cases hparts
        obtain ⟨caught, hcaught, rfl⟩ := (fieldBindings?_eq_some_iff hp hvalue).mp h
        exact ⟨caught, .constructed hname.symm hcaught, rfl⟩
      | scalar => cases hparts
      | _ => cases hvalue
    · rintro ⟨caught, hcatches, rfl⟩
      cases hcatches with
      | constructed hname hfields =>
        exact ⟨_, if_pos hname.symm,
          (fieldBindings?_eq_some_iff hp hvalue).mpr ⟨caught, hfields, rfl⟩⟩
  | .binary _ _ _ _, _, _, _, hp, _ => by cases hp
  | .unary _ _ _, _, _, _, hp, _ => by cases hp
  | .type _ _ _, _, _, _, hp, _ => by cases hp
  | .collection _ _, _, _, _, hp, _ => by cases hp
  | .call _ _ _, _, _, _, hp, _ => by cases hp

theorem fieldBindings?_eq_some_iff : ∀ {fs values : List (Named Expr)} {σ σ' : Substitution}
    {s : Span} {c : Ident}, fieldsArePatterns fs = true → (constructed s c values).isDatum = true →
    (fieldBindings? message σ (fun f => Named.find? values f.name) fs = some σ'
      ↔ ∃ caught, FieldsCatch fs values caught ∧ σ' = σ.bindAll caught)
  | [], values, σ, σ', _, _, _, _ => by
    constructor
    · intro h
      cases h
      exact ⟨[], .nil, rfl⟩
    · rintro ⟨caught, hcatches, rfl⟩
      cases hcatches
      rfl
  | f :: fs, values, σ, σ', s, c, hfs, hvalues => by
    simp only [fieldsArePatterns, Bool.and_eq_true] at hfs
    have hdata := hvalues
    simp only [isDatum, Bool.and_eq_true, decide_eq_true_eq, fieldsAreData_iff] at hdata
    rw [fieldBindings?]
    simp only [Option.bind_eq_some_iff]
    constructor
    · rintro ⟨value, hfind, σ₁, hfirst, hrest⟩
      obtain ⟨g, hg, hname, rfl⟩ := Named.exists_of_find? hfind
      obtain ⟨caught, hcaught, rfl⟩ := (bindings?_eq_some_iff hfs.1 (hdata.2 g hg)).mp hfirst
      obtain ⟨more, hmore, rfl⟩ := (fieldBindings?_eq_some_iff hfs.2 hvalues).mp hrest
      exact ⟨caught ++ more, .cons hg hname hcaught hmore, (σ.bindAll_append caught more).symm⟩
    · rintro ⟨_, hcatches, rfl⟩
      cases hcatches with
      | @cons _ g _ _ caught more hg hname hfirst hrest =>
        -- the names differ, so the value of that name is the one that is found
        refine ⟨g.val, hname ▸ Named.find?_of_mem hdata.1 hg, σ.bindAll caught, ?_, ?_⟩
        · exact (bindings?_eq_some_iff hfs.1 (hdata.2 g hg)).mpr ⟨caught, hfirst, rfl⟩
        · exact (fieldBindings?_eq_some_iff hfs.2 hvalues).mpr
            ⟨more, hrest, σ.bindAll_append caught more⟩

end

end Expr

/-! ## §4. The first match. -/

variable {message : Symbol → Bool}

theorem RuleInput.bindings?_eq_some_iff : ∀ {inputs : List RuleInput} {params : List Expr}
    {σ σ' : Substitution}, inputs.length = params.length →
    (∀ i ∈ inputs, i.isPattern = true) → (∀ p ∈ params, p.isDatum = true) →
    (bindings? message σ inputs params = some σ'
      ↔ ∃ caught, Catch inputs params caught ∧ σ' = σ.bindAll caught)
  | [], [], σ, σ', _, _, _ => by
    constructor
    · intro h
      cases h
      exact ⟨[], .nil, rfl⟩
    · rintro ⟨caught, hcatch, rfl⟩
      cases hcatch
      rfl
  | .any _ :: inputs, param :: params, σ, σ', hlength, hinputs, hparams => by
    rw [List.forall_mem_cons] at hinputs hparams
    have ih : bindings? message σ inputs params = some σ' ↔ _ :=
      bindings?_eq_some_iff (Nat.succ.inj hlength) hinputs.2 hparams.2
    refine ih.trans (exists_congr fun caught => and_congr_left fun _ => ⟨.any, ?_⟩)
    rintro (_ | hrest)
    exact hrest
  | .value p :: inputs, param :: params, σ, σ', hlength, hinputs, hparams => by
    rw [List.forall_mem_cons] at hinputs hparams
    rw [bindings?, Option.bind_eq_some_iff]
    constructor
    · rintro ⟨σ₁, hfirst, hrest⟩
      obtain ⟨caught, hcaught, rfl⟩ :=
        (Expr.bindings?_eq_some_iff hinputs.1 hparams.1).mp hfirst
      obtain ⟨more, hmore, rfl⟩ :=
        (bindings?_eq_some_iff (Nat.succ.inj hlength) hinputs.2 hparams.2).mp hrest
      exact ⟨caught ++ more, .value hcaught hmore, (σ.bindAll_append caught more).symm⟩
    · rintro ⟨_, hcatch, rfl⟩
      cases hcatch with
      | @value _ _ _ _ caught more hfirst hrest =>
        refine ⟨σ.bindAll caught, ?_, ?_⟩
        · exact (Expr.bindings?_eq_some_iff hinputs.1 hparams.1).mpr ⟨caught, hfirst, rfl⟩
        · exact (bindings?_eq_some_iff (Nat.succ.inj hlength) hinputs.2 hparams.2).mpr
            ⟨more, hrest, σ.bindAll_append caught more⟩

/-- A rule binds what its inputs catch. -/
theorem Rule.bindings?_eq_some_iff {rule : Rule} {params : List Expr} {σ σ' : Substitution}
    (hrule : ∀ i ∈ rule.inputs, i.isPattern = true) (hparams : ∀ p ∈ params, p.isDatum = true) :
    rule.bindings? message σ params = some σ'
      ↔ ∃ caught, RuleInput.Catch rule.inputs params caught ∧ σ' = σ.bindAll caught := by
  rw [Rule.bindings?, Option.ite_none_right_eq_some]
  constructor
  · rintro ⟨hlength, h⟩
    exact (RuleInput.bindings?_eq_some_iff hlength hrule hparams).mp h
  · intro h
    obtain ⟨caught, hcatch, -⟩ := id h
    exact ⟨hcatch.length_eq, (RuleInput.bindings?_eq_some_iff hcatch.length_eq hrule hparams).mpr h⟩

theorem Rule.bindings?_eq_none_iff {rule : Rule} {params : List Expr} {σ : Substitution}
    (hrule : ∀ i ∈ rule.inputs, i.isPattern = true) (hparams : ∀ p ∈ params, p.isDatum = true) :
    rule.bindings? message σ params = none
      ↔ ¬∃ caught, RuleInput.Catch rule.inputs params caught := by
  rw [Option.eq_none_iff_forall_ne_some]
  constructor
  · rintro h ⟨caught, hcatch⟩
    exact h _ ((bindings?_eq_some_iff hrule hparams).mpr ⟨caught, hcatch, rfl⟩)
  · rintro h σ' hσ'
    obtain ⟨caught, hcatch, -⟩ := (bindings?_eq_some_iff hrule hparams).mp hσ'
    exact h ⟨caught, hcatch⟩

/-- **The rule that is chosen is the first one that the parameters match**, with what it catches. -/
theorem Rule.chosen?_eq_some_iff {rules : List Rule} {params : List Expr} {σ bound : Substitution}
    {rule : Rule} (hrules : ∀ rule ∈ rules, ∀ i ∈ rule.inputs, i.isPattern = true)
    (hparams : ∀ p ∈ params, p.isDatum = true) :
    Rule.chosen? message σ params rules = some (rule, bound)
      ↔ ∃ caught, rule.IsFirst rules params caught ∧ bound = σ.bindAll caught := by
  rw [Rule.chosen?, List.findSome?_eq_some_iff]
  constructor
  · rintro ⟨before, first, after, rfl, hfirst, hbefore⟩
    obtain ⟨b, hb, hpair⟩ := Option.map_eq_some_iff.mp hfirst
    cases hpair
    obtain ⟨caught, hcatch, rfl⟩ :=
      (bindings?_eq_some_iff (hrules rule (by simp)) hparams).mp hb
    refine ⟨caught, ⟨before, after, rfl, hcatch, fun other hother => ?_⟩, rfl⟩
    exact (bindings?_eq_none_iff (hrules other (by simp [hother])) hparams).mp
      (Option.map_eq_none_iff.mp (hbefore other hother))
  · rintro ⟨caught, ⟨before, after, rfl, hcatch, hbefore⟩, rfl⟩
    refine ⟨before, rule, after, rfl, ?_, fun other hother => ?_⟩
    · rw [(bindings?_eq_some_iff (hrules rule (by simp)) hparams).mpr ⟨caught, hcatch, rfl⟩]
      rfl
    · rw [(bindings?_eq_none_iff (hrules other (by simp [hother])) hparams).mpr
        (hbefore other hother)]
      rfl

/-- What is bound after a dispatch: what it gave, or else what was bound before. -/
def Substitution.after (σ : Substitution) : Except Diagnostic Substitution → Substitution
  | .ok bound => bound
  | .error _ => σ

namespace Typing

variable {c : Setting}

theorem dispatch_ok_iff_isFirst (hc : c.oracle = Structural.oracle) {e : Enum}
    {params : List Expr} (hrules : ∀ rule ∈ e.rules, ∀ i ∈ rule.inputs, i.isPattern = true)
    (hparams : ∀ p ∈ params, p.isDatum = true) {σ bound : Substitution} {ctor : Ident}
    (s : Checking) :
    (dispatch e ctor params σ c s).1 = .ok bound
      ↔ ∃ rule caught, Rule.IsFirst rule e.rules params caught
        ∧ (∃ k ∈ rule.constructors, k.name = ctor.name) ∧ bound = σ.bindAll caught := by
  simp only [dispatch_ok_iff hc, Rule.chosen?_eq_some_iff hrules hparams, Rule.isSome_constructor?]
  constructor
  · rintro ⟨rule, ⟨caught, hfirst, hbound⟩, hoffers⟩
    exact ⟨rule, caught, hfirst, hoffers, hbound⟩
  · rintro ⟨rule, caught, hfirst, hoffers, hbound⟩
    exact ⟨rule, ⟨caught, hfirst, hbound⟩, hoffers⟩

/-- **Data is dispatched by the first rule that it matches.** There is a result exactly when that
rule offers the constructor. Then each variable of the rule stands for what it caught, at its last
place if it has several, and all other names for what they stood for; otherwise the constructor is
unavailable and nothing is bound. -/
theorem dispatch_firstMatch (hc : c.oracle = Structural.oracle) {e : Enum} {params : List Expr}
    (hrules : ∀ rule ∈ e.rules, ∀ i ∈ rule.inputs, i.isPattern = true)
    (hparams : ∀ p ∈ params, p.isDatum = true) {σ : Substitution} (hopen : σ.scopes.frames ≠ [])
    (ctor : Ident) (s : Checking) :
    let result := (dispatch e ctor params σ c s).1
    ((∃ bound, result = .ok bound)
        ↔ ∃ rule caught, Rule.IsFirst rule e.rules params caught
          ∧ ∃ k ∈ rule.constructors, k.name = ctor.name)
      ∧ (∀ rule caught, Rule.IsFirst rule e.rules params caught →
        (∃ k ∈ rule.constructors, k.name = ctor.name) → σ.after result = σ.bindAll caught
          ∧ ∀ name, (σ.after result).find? name = (caught.reverse.lookup name).or (σ.find? name))
      ∧ ∀ d, result = .error d →
        d = .located ctor.span (.constructorUnavailable ctor.name) ∧ σ.after result = σ := by
  intro result
  have hok : ∀ bound, result = .ok bound ↔ _ :=
    fun bound => dispatch_ok_iff_isFirst hc hrules hparams s
  refine ⟨⟨?_, ?_⟩, fun rule caught hfirst hoffers => ?_, fun d hd => ?_⟩
  · rintro ⟨bound, hbound⟩
    obtain ⟨rule, caught, hfirst, hoffers, -⟩ := (hok bound).mp hbound
    exact ⟨rule, caught, hfirst, hoffers⟩
  · rintro ⟨rule, caught, hfirst, hoffers⟩
    exact ⟨_, (hok _).mpr ⟨rule, caught, hfirst, hoffers, rfl⟩⟩
  · have hresult : result = .ok (σ.bindAll caught) :=
      (hok _).mpr ⟨rule, caught, hfirst, hoffers, rfl⟩
    rw [hresult]
    exact ⟨rfl, Substitution.find?_bindAll hopen caught⟩
  · rw [hd]
    exact ⟨dispatch_eq_error hc s hd, rfl⟩

end Typing

/-! ## A value that half matches the first rule. -/

namespace Rule

namespace Example

/-- A name, with nowhere to stand. -/
def name (n : UInt32) : Ident := ⟨⟨n⟩, ⟨0, 0⟩⟩

/-- An integer literal. -/
def number (n : Int64) : Expr := .scalar ⟨0, 0⟩ (.int n)

/-- A value of the constructor 7 with the fields 8 and 9. -/
def point (x y : Expr) : Expr := .constructed ⟨0, 0⟩ (name 7) [⟨name 8, x⟩, ⟨name 9, y⟩]

/-- The constructor 12 for points with 5 at the field 9; the variable 10 catches the field 8. -/
def exact : Rule := ⟨[.value (point (.ofVar (name 10)) (number 5))], [⟨name 12, []⟩]⟩

/-- The constructor 13 for all points; the variable 11 catches both fields. -/
def loose : Rule :=
  ⟨[.value (point (.ofVar (name 11)) (.ofVar (name 11)))], [⟨name 13, []⟩]⟩

/-- An enum with the two rules, and the constructor 12 for everything else. -/
def points : Enum :=
  ⟨name 14, [], [exact, loose, ⟨[.any ⟨0, 0⟩], [⟨name 12, []⟩]⟩]⟩

/-- The variable 10 stands for 3. -/
def three : Substitution := Substitution.empty.bind ⟨10⟩ (number 3)

/-- What a dispatch of the point (1, 2) gives. -/
def dispatched (ctor : UInt32) : Except Diagnostic Substitution :=
  (Typing.dispatch points (name ctor) [point (number 1) (number 2)] three
    ⟨.empty, Structural.oracle⟩ .start).1

end Example

open Example

/-- The point (1, 2) is not matched by the first rule, after the variable 10 has caught 1. Of what
the second rule catches the last counts, and the variable 10 stands for 3 as before. As the second
rule decides, there is no constructor 12. -/
theorem dispatch_loose :
    loose.IsFirst points.rules [point (number 1) (number 2)]
        [(⟨11⟩, number 1), (⟨11⟩, number 2)]
      ∧ (∃ bound, dispatched 13 = .ok bound)
      ∧ (three.after (dispatched 13)).find? ⟨11⟩ = some (number 2)
      ∧ (three.after (dispatched 13)).find? ⟨10⟩ = some (number 3)
      ∧ three.after (dispatched 12) = three := by
  have hrules : ∀ rule ∈ points.rules, ∀ i ∈ rule.inputs, i.isPattern = true := by decide
  have hparams : ∀ p ∈ [point (number 1) (number 2)], p.isDatum = true := by decide
  have hopen : three.scopes.frames ≠ [] := Scopes.bind_open (List.cons_ne_nil _ _) _ _
  have hexact : ¬∃ caught, RuleInput.Catch exact.inputs [point (number 1) (number 2)] caught :=
    (bindings?_eq_none_iff (hrules exact (.head _)) hparams).mp
      (rfl : exact.bindings? (Schema.ofMessage .empty) three _ = none)
  have hloose : RuleInput.Catch loose.inputs [point (number 1) (number 2)]
      ([(⟨11⟩, number 1)] ++ ([(⟨11⟩, number 2)] ++ []) ++ []) := by
    refine .value (.constructed rfl (.cons (.head _) rfl (.var rfl) ?_)) .nil
    exact .cons (.tail _ (.head _)) rfl (.var rfl) .nil
  have hfirst : loose.IsFirst points.rules [point (number 1) (number 2)]
      [(⟨11⟩, number 1), (⟨11⟩, number 2)] :=
    ⟨[exact], [_], rfl, hloose, by simpa using hexact⟩
  have hthirteen := Typing.dispatch_firstMatch (c := ⟨.empty, Structural.oracle⟩) rfl hrules hparams
    hopen (name 13) .start
  have htwelve := Typing.dispatch_firstMatch (c := ⟨.empty, Structural.oracle⟩) rfl hrules hparams
    hopen (name 12) .start
  have hoffers : ∃ k ∈ loose.constructors, k.name = (name 13).name := ⟨_, .head _, rfl⟩
  obtain ⟨-, hfind⟩ := hthirteen.2.1 _ _ hfirst hoffers
  refine ⟨hfirst, hthirteen.1.mpr ⟨_, _, hfirst, hoffers⟩, ?_, ?_, (htwelve.2.2 _ rfl).2⟩
  · exact hfind ⟨11⟩
  · exact hfind ⟨10⟩

end Rule

end DepSchema
