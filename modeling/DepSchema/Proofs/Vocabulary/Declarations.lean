/-
DepSchema.Proofs.Vocabulary.Declarations — checks of declarations ask within a vocabulary.

The check of a type or a function that is within a closed vocabulary asks within it, from the first
dependency or parameter on: each name that comes into scope stands for something within reach. A
type that passes has a sort, in which only declared types occur; the sort of a field is read off
the field as it is declared, and the type that is checked is the one under the substitution, but
both have the same sort.

Main results: `asks_introduceVariables`, `asks_typeBody` and `asks_checkFunctionDef`.
-/
import DepSchema.Proofs.Vocabulary.Values
import DepSchema.Proofs.Registry

namespace DepSchema

/-! ## §1. Sorts of declared types. -/

/-- The type has a sort, and all types that occur in it are declared. -/
def Expr.Sorted (s : Schema) (e : Expr) : Prop :=
  ∃ sort, e.sort? = some sort ∧ ∀ n, sort.mentions n = true → n ∈ s.typeNames

/-- The variable has a type with a sort. -/
def Variable.Sorted (s : Schema) (v : Variable) : Prop := v.type.toExpr.Sorted s

/-- The parameter has a type with a sort, unless it is a function. -/
def ParameterType.Sorted (s : Schema) (t : ParameterType) : Prop :=
  ∀ type, t = .value type → type.toExpr.Sorted s

/-- The function has a sort for the result and for each parameter that is not a function. -/
structure FunctionDef.Sorted (s : Schema) (f : FunctionDef) : Prop where
  params : ∀ p ∈ f.params, p.val.Sorted s
  result : f.result.toExpr.Sorted s

theorem Symbol.isScalar_iff {n : Symbol} :
    n.isScalar = true
      ↔ n = .int ∨ n = .unsigned ∨ n = .float ∨ n = .bool ∨ n = .string := by
  obtain ⟨index⟩ := n
  simp only [Symbol.isScalar, Symbol.int, Symbol.unsigned, Symbol.float, Symbol.bool,
    Symbol.string, Symbol.mk.injEq, decide_eq_true_eq, UInt32.le_iff_toNat_le, ← UInt32.toNat_inj]
  have h : ∀ k : Nat, k ≤ 4 ↔ k = 0 ∨ k = 1 ∨ k = 2 ∨ k = 3 ∨ k = 4 := by omega
  exact h _

namespace Expr

variable {s : Schema} {span : Span} {i : Ident} {ps : List Expr}

theorem sorted_scalar (h : i.name.isScalar = true) : (Expr.type span i ps).Sorted s := by
  unfold Sorted sort?
  rcases Symbol.isScalar_iff.mp h with h | h | h | h | h <;>
    exact ⟨_, by rw [h]; rfl, by simp [ValueSort.mentions]⟩

theorem sort?_of_not_scalar (h : ¬i.name.isScalar = true) :
    (Expr.type span i ps).sort?
      = if i.name = .array then (elementSort? ps).map .array
        else if i.name = .set then (elementSort? ps).map .set
        else some (.named i.name) := by
  rw [Symbol.isScalar_iff] at h
  push Not at h
  obtain ⟨h₁, h₂, h₃, h₄, h₅⟩ := h
  unfold sort?
  rw [if_neg h₁, if_neg h₂, if_neg h₃, if_neg h₄, if_neg h₅]

/-- The first of several parameters has a sort, and all types that occur in it are declared. -/
def ElementSorted (s : Schema) (ps : List Expr) : Prop :=
  ∃ sort, elementSort? ps = some sort ∧ ∀ n, sort.mentions n = true → n ∈ s.typeNames

theorem sorted_array (h : i.name = .array) (hps : ElementSorted s ps) :
    (Expr.type span i ps).Sorted s := by
  obtain ⟨sort, hsort, hdeclared⟩ := hps
  refine ⟨.array sort, ?_, hdeclared⟩
  rw [sort?_of_not_scalar (by rw [h]; decide), if_pos h, hsort]
  rfl

theorem sorted_set (h : i.name = .set) (hps : ElementSorted s ps) :
    (Expr.type span i ps).Sorted s := by
  obtain ⟨sort, hsort, hdeclared⟩ := hps
  refine ⟨.set sort, ?_, hdeclared⟩
  rw [sort?_of_not_scalar (by rw [h]; decide), if_neg (by rw [h]; decide), if_pos h, hsort]
  rfl

theorem sorted_declared (hscalar : ¬i.name.isScalar = true) (harray : i.name ≠ .array)
    (hset : i.name ≠ .set) (h : i.name ∈ s.typeNames) : (Expr.type span i ps).Sorted s := by
  refine ⟨.named i.name, ?_, ?_⟩
  · rw [sort?_of_not_scalar hscalar, if_neg harray, if_neg hset]
  · intro n hn
    obtain rfl : i.name = n := by simpa [ValueSort.mentions] using hn
    exact h

end Expr

namespace Typing

open Check

variable {W : Vocabulary} {c : Setting}

/-! ## §2. Well-formed types. -/

theorem asks_requireParams {s : Checking} (hs : s.Within W) (t : TypeExpr) (arity : Nat) :
    Asks W c (requireParams t arity) s fun _ _ => t.params.length = arity := by
  unfold requireParams
  split
  · next h => exact .pure hs h
  · exact .fail

theorem asks_checkParams (hc : c.schema.Tidy) (hW : W.Closed c.schema) (deps : List Variable) :
    ∀ (params : List Expr) (σ : Substitution) (V : Vocabulary) (s : Checking), s.Within W →
      Variable.Within V deps → (∀ p ∈ params, p.Within (s.reach W)) → σ.Covers V (s.reach W) →
      σ.scopes.frames ≠ [] → Asks W c (checkParams σ deps params) s fun _ _ => True := by
  induction deps with
  | nil =>
    intro params σ V s hs _ _ _ _
    exact .pure hs trivial
  | cons dep deps ih =>
    intro params σ V s hs hdeps hparams hcovers hopen
    cases params with
    | nil => exact .pure hs trivial
    | cons param params =>
      rw [List.forall_mem_cons] at hparams
      unfold checkParams
      refine .under hs fun type htype => ?_
      refine (asks_checkValue hc hW param type s hs (.of_within hparams.1)
        (hcovers.applyType hdeps.1 htype)).bind fun _ t hst hparam => ?_
      exact ih params _ _ t hst.within hdeps.2 (fun p hp => (hparams.2 p hp).mono hst.le)
        ((hcovers.mono le_rfl hst.le).bind hopen hparam.1) (Substitution.bind_open hopen _ _)

theorem asks_requireFormedLength (hc : c.schema.Tidy) (hW : W.Closed c.schema) {s : Checking}
    (hs : s.Within W) {params : List Expr} (hparams : ∀ p ∈ params, p.Within (s.reach W)) :
    Asks W c (requireFormedLength params) s fun _ _ => True := by
  unfold requireFormedLength
  cases hlength : params[1]? with
  | none => exact .pure hs trivial
  | some length =>
    have hunsigned : (TypeExpr.builtin .unsigned length.span).Within (s.reach W) :=
      TypeExpr.within_iff.mpr ⟨.inl hW.unsigned, by simp [TypeExpr.builtin]⟩
    exact (asks_checkValue hc hW length _ s hs
      (.of_within (hparams length (List.mem_of_getElem? hlength))) hunsigned).mono
        fun _ _ _ _ => trivial

mutual

/-- **A type that passes has a sort.** -/
theorem asks_requireFormedExpr (hc : c.schema.Tidy) (hW : W.Closed c.schema) :
    ∀ (e : Expr) (s : Checking), s.Within W → e.Within (s.reach W) →
      Asks W c (requireFormedExpr e) s fun _ _ => e.type?.isSome → e.Sorted c.schema
  | .type span i ps, s, hs, he => by
    obtain ⟨hword, hps⟩ := Expr.within_type.mp he
    unfold requireFormedExpr
    dsimp only
    split
    · next hscalar =>
      exact (asks_requireParams hs _ 0).mono fun _ _ _ _ _ => Expr.sorted_scalar hscalar
    next hscalar =>
    split
    · next harray =>
      refine (asks_requireParams hs _ 2).bind fun _ t hst _ => ?_
      refine (asks_requireFormedElement hc hW ps _ t hst.within
        fun p hp => (hps p hp).mono hst.le).bind fun _ u htu hsorted => ?_
      refine (asks_requireFormedLength hc hW htu.within
        fun p hp => (hps p hp).mono (hst.trans htu).le).mono fun _ _ _ _ _ => ?_
      exact Expr.sorted_array harray hsorted
    next harray =>
    split
    · next hset =>
      refine (asks_requireParams hs _ 1).bind fun _ t hst _ => ?_
      refine (asks_requireFormedElement hc hW ps _ t hst.within
        fun p hp => (hps p hp).mono hst.le).mono fun _ _ _ hsorted _ => ?_
      exact Expr.sorted_set hset hsorted
    next hset =>
    have hword := Vocabulary.of_also hword (by simp)
    refine .schema (.getSome fun deps hdeps => ?_) fun s' hs' => by
      rw [Schema.deps?, Schema.deps?, hs'.type hword]
    obtain ⟨d, hd, rfl⟩ := Option.map_eq_some_iff.mp hdeps
    obtain ⟨hwithin, -⟩ := hW.type hword hd
    have hdeclared : i.name ∈ c.schema.typeNames := Schema.isSome_type?.mp (by rw [hd]; rfl)
    refine (asks_requireParams hs _ _).bind fun _ t hst _ => ?_
    refine (asks_checkParams hc hW d.deps ps .empty W t hst.within hwithin.1
      (fun p hp => (hps p hp).mono hst.le) (.empty (Vocabulary.le_inScope _))
      Substitution.empty_open).mono fun _ _ _ _ _ => ?_
    exact Expr.sorted_declared hscalar harray hset hdeclared
  | .binary _ _ _ _, _, hs, _ => .pure hs fun h => by cases h
  | .unary _ _ _, _, hs, _ => .pure hs fun h => by cases h
  | .access _, _, hs, _ => .pure hs fun h => by cases h
  | .scalar _ _, _, hs, _ => .pure hs fun h => by cases h
  | .constructed _ _ _, _, hs, _ => .pure hs fun h => by cases h
  | .collection _ _, _, hs, _ => .pure hs fun h => by cases h
  | .call _ _ _, _, hs, _ => .pure hs fun h => by cases h

theorem asks_requireFormedElement (hc : c.schema.Tidy) (hW : W.Closed c.schema) :
    ∀ (ps : List Expr) (collection : TypeExpr) (s : Checking), s.Within W →
      (∀ p ∈ ps, p.Within (s.reach W)) →
      Asks W c (requireFormedElement collection ps) s fun _ _ => Expr.ElementSorted c.schema ps
  | [], _, _, _, _ => .fail
  | e :: ps, collection, s, hs, hps => by
    rw [List.forall_mem_cons] at hps
    unfold requireFormedElement
    split
    · next t ht =>
      exact (asks_requireFormedExpr hc hW e s hs hps.1).mono fun _ _ _ h => h (by simp [ht])
    · exact .fail

end

theorem asks_requireFormed (hc : c.schema.Tidy) (hW : W.Closed c.schema) {s : Checking}
    (hs : s.Within W) {t : TypeExpr} (ht : t.Within (s.reach W)) :
    Asks W c (requireFormed t) s fun _ _ => t.toExpr.Sorted c.schema :=
  (asks_requireFormedExpr hc hW t.toExpr s hs ht).mono fun _ _ _ h => h rfl

/-- A type has the sort of what it becomes by the substitution in force. -/
theorem sorted_of_applyType {s : Schema} {σ : Substitution}
    (hσ : ∀ n e, σ.find? n = some e → e.IsValue) {t t' : TypeExpr}
    (happly : σ.applyType t = .ok t') (h : t'.toExpr.Sorted s) : t.toExpr.Sorted s := by
  obtain ⟨sort, hsort, hdeclared⟩ := h
  have hsame : t'.sort? = t.sort? := TypeExpr.sort?_applyType hσ happly
  exact ⟨sort, hsame.symm.trans hsort, hdeclared⟩

/-! ## §3. Types. -/

/-- **Dependencies and fields have sorts**, and are in scope once they have passed. -/
theorem asks_introduceVariables (hc : c.schema.Tidy) (hW : W.Closed c.schema)
    (vars : List Variable) :
    ∀ (V : Vocabulary) (s : Checking), s.Within W → s.Replaces W → Variable.Within V vars →
      V ≤ s.reach W → Asks W c (introduceVariables vars) s fun _ t =>
        (∀ v ∈ vars, v.Sorted c.schema) ∧ ∀ n ∈ Variable.names vars, t.reach W (.var n) := by
  induction vars with
  | nil =>
    intro V s hs _ _ _
    exact .pure hs ⟨by simp, by simp [Variable.names]⟩
  | cons v vars ih =>
    intro V s hs hσ hvars hV
    unfold introduceVariables
    refine .underCurrent hs fun type htype => ?_
    have hwithin := (hσ.covers hV).applyType hvars.1 htype
    refine (asks_requireFormed hc hW hs hwithin).bind fun _ t hst hformed => ?_
    refine (Asks.introduce hst.within (b := .value type)
      (TypeExpr.Within.mono hwithin hst.le)).bind fun _ u htu hcontains => ?_
    have hname : u.reach W (.var v.name.name) := .inr ⟨_, rfl, hcontains⟩
    have hsu := hst.trans htu
    refine (ih (V.adding [v.name.name]) u htu.within (hsu.replaces hσ) hvars.2
      (Vocabulary.adding_le (hV.trans hsu.le) (by simpa using hname))).mono fun _ w huw h => ?_
    obtain ⟨hsorted, hnames⟩ := h
    refine ⟨List.forall_mem_cons.mpr ⟨?_, hsorted⟩,
      List.forall_mem_cons.mpr ⟨huw.le _ hname, hnames⟩⟩
    exact sorted_of_applyType hσ.values htype hformed

/-- **The names that rule inputs bind are in scope once the inputs have passed.** -/
theorem asks_checkInputs (hc : c.schema.Tidy) (hW : W.Closed c.schema) (inputs : List RuleInput) :
    ∀ (deps : List Variable) (s : Checking), s.Within W → s.Replaces W →
      (∀ i ∈ inputs, i.Plain W) → (∀ d ∈ deps, d.type.Within (s.reach W)) →
      Asks W c (checkInputs inputs deps) s fun _ t =>
        inputs.length = deps.length →
          ∀ n ∈ inputs.flatMap RuleInput.caught, t.reach W (.var n) := by
  induction inputs with
  | nil =>
    intro deps s hs _ _ _
    exact .pure hs fun _ => by simp
  | cons input inputs ih =>
    intro deps s hs hσ hinputs hdeps
    rw [List.forall_mem_cons] at hinputs
    cases deps with
    | nil => cases input <;> exact .pure hs fun h => by cases h
    | cons dep deps =>
      rw [List.forall_mem_cons] at hdeps
      cases input with
      | any span =>
        refine (ih deps s hs hσ hinputs.2 hdeps.2).mono fun _ t _ h hlen => ?_
        simpa [RuleInput.caught] using h (Nat.succ.inj hlen)
      | value p =>
        unfold checkInputs
        refine .underCurrent hs fun type htype => ?_
        have hwithin := (hσ.covers le_rfl).applyType hdeps.1 htype
        -- an input that has passed takes the place of its dependency
        have hrest : ∀ t, s.Leads W t → t.Holds W p →
            Asks W c (replace dep.name.name p >>= fun _ => checkInputs inputs deps) t fun _ u =>
              (RuleInput.value p :: inputs).length = (dep :: deps).length →
                ∀ n ∈ (RuleInput.value p :: inputs).flatMap RuleInput.caught,
                  u.reach W (.var n) := by
          intro t hst hholds
          refine (Asks.replace hst.within (hst.replaces hσ) dep.name.name hholds.1 hholds.2).bind
            fun _ u htu _ => ?_
          have hsu := hst.trans htu
          refine (ih deps u htu.within (hsu.replaces hσ) hinputs.2 fun d hd =>
            TypeExpr.Within.mono (hdeps.2 d hd) hsu.le).mono fun _ v huv h hlen => ?_
          intro n hn
          rw [List.flatMap_cons] at hn
          rcases List.mem_append.mp hn with hn | hn
          · exact (htu.trans huv).le _ (hholds.1 _ (Expr.caught_subset_refs hn))
          · exact h (Nat.succ.inj hlen) n hn
        cases hbare : p.bareVar? with
        | some v =>
          refine (Asks.introduce hs (b := .value type) hwithin).bind fun _ t hst hcontains => ?_
          obtain ⟨a, rfl, -, rfl⟩ := Expr.access_of_bareVar? hbare
          exact hrest t hst ⟨Expr.within_access.mpr (.inr ⟨_, rfl, hcontains⟩), trivial⟩
        | none =>
          have hplain : p.Plain W := hinputs.1.resolve_left (by simp [hbare])
          refine (Asks.readInput (Q := fun _ t => t.Holds W p) ?_ fun _ _ h => h).bind
            fun _ t hst hholds => hrest t hst hholds
          exact asks_checkValue hc hW p type _ (hs.of_eq rfl rfl)
            ⟨hplain.mono (Vocabulary.le_inScope _), fun h => by cases h⟩ hwithin

theorem asks_checkConstructors (hc : c.schema.Tidy) (hW : W.Closed c.schema)
    (cs : List Constructor) :
    ∀ (V : Vocabulary) (s : Checking), s.Within W → s.Replaces W →
      (∀ ctor ∈ cs, Variable.Within V ctor.fields) → V ≤ s.reach W →
      Asks W c (checkConstructors cs) s fun _ _ =>
        ∀ ctor ∈ cs, ∀ v ∈ ctor.fields, v.Sorted c.schema := by
  induction cs with
  | nil =>
    intro V s hs _ _ _
    exact .pure hs (by simp)
  | cons ctor cs ih =>
    intro V s hs hσ hcs hV
    rw [List.forall_mem_cons] at hcs
    unfold checkConstructors
    refine (Asks.inScope (stepwise_introduceVariables ctor.fields).framed hs
      ((asks_introduceVariables hc hW ctor.fields V s.opened hs.opened hσ.opened hcs.1 hV).mono
        fun _ _ _ h => h.1)).bind fun _ t hst h => ?_
    refine (ih V t hst.within (hst.replaces hσ) hcs.2 (hV.trans hst.le)).mono
      fun _ _ _ hrest => ?_
    exact List.forall_mem_cons.mpr ⟨h.1, hrest⟩

theorem asks_checkRule (hc : c.schema.Tidy) (hW : W.Closed c.schema) {e : Enum} {rule : Rule}
    {s : Checking} (hs : s.Within W) (hσ : s.Replaces W)
    (hrule : rule.Within W (Variable.names e.deps))
    (hnames : ∀ n ∈ Variable.names e.deps, s.reach W (.var n))
    (hdeps : ∀ d ∈ e.deps, d.type.Within (s.reach W)) :
    Asks W c (checkRule e rule) s fun _ _ =>
      ∀ ctor ∈ rule.constructors, ∀ v ∈ ctor.fields, v.Sorted c.schema := by
  unfold checkRule
  refine .guard fun hlen => ?_
  have hsteps : StepwiseInside true (checkInputs rule.inputs e.deps >>= fun _ =>
      checkConstructors rule.constructors) :=
    (stepwise_checkInputs _ _).bind fun _ => stepwise_checkConstructors _
  refine (Asks.inScope hsteps.framed hs ?_).mono fun _ _ _ h => h.1
  refine (asks_checkInputs hc hW rule.inputs e.deps s.opened hs.opened hσ.opened hrule.inputs
    hdeps).bind fun _ t hst hbound => ?_
  refine asks_checkConstructors hc hW rule.constructors _ t hst.within (hst.replaces hσ.opened)
    hrule.fields ?_
  refine Vocabulary.adding_le (Vocabulary.adding_le (Vocabulary.le_inScope _) ?_)
    (hbound (not_not.mp hlen))
  exact fun n hn => hst.le _ (hnames n hn)

theorem asks_checkRules (hc : c.schema.Tidy) (hW : W.Closed c.schema) (e : Enum)
    (rules : List Rule) :
    ∀ s : Checking, s.Within W → s.Replaces W →
      (∀ r ∈ rules, r.Within W (Variable.names e.deps)) →
      (∀ n ∈ Variable.names e.deps, s.reach W (.var n)) →
      (∀ d ∈ e.deps, d.type.Within (s.reach W)) →
      Asks W c (checkRules e rules) s fun _ _ =>
        ∀ r ∈ rules, ∀ ctor ∈ r.constructors, ∀ v ∈ ctor.fields, v.Sorted c.schema := by
  induction rules with
  | nil =>
    intro s hs _ _ _ _
    exact .pure hs (by simp)
  | cons rule rules ih =>
    intro s hs hσ hrules hnames hdeps
    rw [List.forall_mem_cons] at hrules
    unfold checkRules
    refine (asks_checkRule hc hW hs hσ hrules.1 hnames hdeps).bind fun _ t hst hrule => ?_
    refine (ih t hst.within (hst.replaces hσ) hrules.2 (fun n hn => hst.le _ (hnames n hn))
      fun d hd => TypeExpr.Within.mono (hdeps d hd) hst.le).mono fun _ _ _ hrest => ?_
    exact List.forall_mem_cons.mpr ⟨hrule, hrest⟩

/-- **The fields of a type that passes have sorts**, in each of its constructors. -/
theorem asks_typeBody (hc : c.schema.Tidy) (hW : W.Closed c.schema) {d : TypeDef} {s : Checking}
    (hs : s.Within W) (hσ : s.Replaces W) (hd : d.Within W) :
    Asks W c (typeBody d) s fun _ _ =>
      ∀ ctor ∈ d.constructors, ∀ v ∈ ctor.fields, v.Sorted c.schema := by
  unfold typeBody
  refine (asks_introduceVariables hc hW d.deps W s hs hσ hd.1 (Vocabulary.le_inScope _)).bind
    fun _ t hst h => ?_
  obtain ⟨-, hnames⟩ := h
  have hσ := hst.replaces hσ
  have hreach : W.adding (Variable.names d.deps) ≤ t.reach W :=
    Vocabulary.adding_le (Vocabulary.le_inScope _) hnames
  cases d with
  | message m =>
    refine (asks_introduceVariables hc hW m.fields _ t hst.within hσ hd.2 hreach).mono
      fun _ _ _ h => ?_
    intro ctor hctor
    obtain rfl := List.mem_singleton.mp hctor
    exact h.1
  | enum e =>
    refine (asks_checkRules hc hW e e.rules t hst.within hσ hd.2 hnames
      fun v hv => (hd.1.mem v hv).mono hreach).mono fun _ _ _ h => ?_
    intro ctor hctor
    obtain ⟨r, hr, hctor⟩ := List.mem_flatMap.mp hctor
    exact h r hr ctor hctor

/-! ## §4. Functions. -/

mutual

theorem asks_checkParameter (hc : c.schema.Tidy) (hW : W.Closed c.schema) :
    ∀ (t : ParameterType) (s : Checking), s.Within W → s.Replaces W →
      t.Within (s.reach W) (s.reach W) →
      Asks W c (checkParameter t) s fun b u => b.Within (u.reach W) ∧ t.Sorted c.schema
  | .value t, s, hs, hσ, ht => by
    unfold checkParameter
    refine .underCurrent hs fun type htype => ?_
    have hwithin := (hσ.covers le_rfl).applyType ht htype
    refine (asks_requireFormed hc hW hs hwithin).bind fun _ u hsu hformed => ?_
    refine .pure hsu.within ⟨TypeExpr.Within.mono hwithin hsu.le, fun t' ht' => ?_⟩
    cases ht'
    exact sorted_of_applyType hσ.values htype hformed
  | .function ps result, s, hs, hσ, ht => by
    unfold checkParameter
    have hsteps : StepwiseInside true (introduceParameters ps >>= fun _ =>
        underCurrent result >>= fun type => requireFormed type) := by
      refine (stepwise_introduceParameters ps).bind fun _ => ?_
      exact (StepwiseInside.underCurrent _).bind fun _ => stepwise_requireFormed _
    refine (Asks.inScope (Q := fun _ => True) hsteps.framed hs ?_).bind fun _ u hsu _ => ?_
    · refine (asks_introduceParameters hc hW ps s.opened hs.opened hσ.opened ht.1).bind
        fun _ u hsu h => ?_
      refine .underCurrent hsu.within fun type htype => ?_
      have hwithin := ((hsu.replaces hσ.opened).covers
        (Vocabulary.adding_le hsu.le h.1)).applyType ht.2 htype
      exact (asks_requireFormed hc hW hsu.within hwithin).mono fun _ _ _ _ => trivial
    · exact .pure hsu.within ⟨Binding.Within.mono hsu.le (b := .function ⟨ps, result⟩)
        ⟨ht.1, ht.2⟩, fun _ h => by cases h⟩

theorem asks_introduceParameters (hc : c.schema.Tidy) (hW : W.Closed c.schema) :
    ∀ (ps : List (Named ParameterType)) (s : Checking), s.Within W → s.Replaces W →
      ParameterType.AllWithin (s.reach W) (s.reach W) ps →
      Asks W c (introduceParameters ps) s fun _ t =>
        (∀ n ∈ ps.map (fun p => p.name.name), t.reach W (.var n))
          ∧ ∀ p ∈ ps, p.val.Sorted c.schema
  | [], s, hs, _, _ => .pure hs (by simp)
  | p :: ps, s, hs, hσ, hps => by
    unfold introduceParameters
    refine (asks_checkParameter hc hW p.val s hs hσ hps.1).bind fun b t hst hb => ?_
    refine (Asks.introduce hst.within hb.1).bind fun _ u htu hcontains => ?_
    have hname : u.reach W (.var p.name.name) := .inr ⟨_, rfl, hcontains⟩
    have hsu := hst.trans htu
    have hle := hsu.le
    refine (asks_introduceParameters hc hW ps u htu.within (hsu.replaces hσ)
      (hps.2.mono hle (Vocabulary.adding_le hle (by simpa using hname)))).mono
        fun _ v huv h => ?_
    exact ⟨List.forall_mem_cons.mpr ⟨huv.le _ hname, h.1⟩, List.forall_mem_cons.mpr ⟨hb.2, h.2⟩⟩

end

/-- **The check of a function asks within the vocabulary that the function is within**, and one
that passes has sorts. -/
theorem asks_checkFunctionDef (hc : c.schema.Tidy) (hW : W.Closed c.schema) {f : FunctionDef}
    {s : Checking} (hs : s.Within W) (hσ : s.Replaces W) (hf : f.Within W) :
    Asks W c (checkFunctionDef f) s fun _ _ => f.Sorted c.schema := by
  unfold checkFunctionDef
  refine (Asks.note hs _).bind fun _ t hst _ => ?_
  refine (Asks.inScope (stepwise_functionBody f).framed hst.within ?_).mono fun _ _ _ h => h.1
  have hreach := Vocabulary.le_inScope (V := W) t.opened.scopes
  unfold functionBody
  refine (asks_introduceParameters hc hW f.params t.opened hst.within.opened
    (hst.replaces hσ).opened (hf.signature.params.mono hreach hreach)).bind fun _ u htu h => ?_
  obtain ⟨hnames, hparams⟩ := h
  have hσ := htu.replaces (hst.replaces hσ).opened
  have hle := Vocabulary.adding_le (Vocabulary.le_inScope (V := W) u.scopes) hnames
  refine .underCurrent htu.within fun result hresult => ?_
  have hwithin := (hσ.covers hle).applyType hf.signature.result hresult
  refine (asks_requireFormed hc hW htu.within hwithin).bind fun _ v huv hformed => ?_
  have hsorted : f.Sorted c.schema :=
    ⟨hparams, sorted_of_applyType hσ.values hresult hformed⟩
  cases hbody : f.body with
  | none => exact .pure huv.within hsorted
  | some body =>
    have hvalue := (hf.body body hbody).mono (hle.trans huv.le)
    exact (asks_checkValue hc hW body result v huv.within (.of_within hvalue)
      (TypeExpr.Within.mono hwithin huv.le)).mono fun _ _ _ _ => hsorted

end Typing

end DepSchema
