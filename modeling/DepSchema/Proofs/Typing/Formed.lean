/-
DepSchema.Proofs.Typing.Formed — the types of a schema that passes are well-formed.

What is checked is not what is written: inside an enum the types of the fields stand under what the
inputs of the rule put for the dependencies. A substitution takes no parameters away and adds none,
and makes of a type one of the same name; but it might put a type for a variable. A field has to
have a sort besides, which is read off the type as it is written, and elsewhere nothing is
substituted.

Main definitions: `Expr.FormedIn` and `Schema.Formed`. Main result: `Schema.formed_of_typing`.
-/
import DepSchema.Oracle.Structural
import DepSchema.Proofs.Order.TypeOrder
import DepSchema.Proofs.Typing.Passes
import DepSchema.Proofs.Vocabulary.Declarations

namespace DepSchema

/-! ## §1. Well-formed types. -/

/-- The expression is a type with the parameters that a type of its name has. -/
inductive Expr.FormedIn (s : Schema) : Expr → Prop where
  | scalar {span : Span} {i : Ident} (hname : i.name.isScalar = true) : FormedIn s (.type span i [])
  | array {span : Span} {i : Ident} {element length : Expr} (hname : i.name = .array)
      (helement : FormedIn s element) (hlength : length.type? = none) :
      FormedIn s (.type span i [element, length])
  | set {span : Span} {i : Ident} {element : Expr} (hname : i.name = .set)
      (helement : FormedIn s element) : FormedIn s (.type span i [element])
  | declared {span : Span} {i : Ident} {ps : List Expr} {deps : List Variable}
      (hname : i.name ∉ Symbol.builtins) (hdeps : s.deps? i.name = some deps)
      (hcount : ps.length = deps.length) (hvalues : ∀ p ∈ ps, p.type? = none) :
      FormedIn s (.type span i ps)

/-- Every type that a declaration of the schema gives is well-formed, and every rule has an input
for each dependency of its enum. -/
structure Schema.Formed (s : Schema) : Prop where
  deps : ∀ d ∈ s.types, ∀ v ∈ d.deps, v.type.toExpr.FormedIn s
  fields : ∀ d ∈ s.types, ∀ ctor ∈ d.constructors, ∀ v ∈ ctor.fields, v.type.toExpr.FormedIn s
  signatures : ∀ f ∈ s.functions, ∀ e ∈ f.signature.exprs, e.FormedIn s
  inputs : ∀ e, .enum e ∈ s.types → ∀ r ∈ e.rules, r.inputs.length = e.deps.length

theorem Symbol.not_mem_builtins {n : Symbol} (hscalar : ¬n.isScalar = true) (harray : n ≠ .array)
    (hset : n ≠ .set) : n ∉ builtins := by
  rw [isScalar_iff] at hscalar
  simp only [builtins, List.mem_cons, List.not_mem_nil, or_false]
  tauto

namespace Expr

variable {s : Schema} {σ : Substitution}

theorem FormedIn.sort?_isSome {e : Expr} (h : e.FormedIn s) : e.sort?.isSome := by
  induction h with
  | @scalar span i hname =>
    unfold sort?
    rcases Symbol.isScalar_iff.mp hname with h | h | h | h | h <;> (rw [h]; rfl)
  | array hname _ _ ih =>
    rw [sort?_of_not_scalar (by rw [hname]; decide), if_pos hname, elementSort?_cons]
    simpa using ih
  | set hname _ ih =>
    rw [sort?_of_not_scalar (by rw [hname]; decide), if_neg (by rw [hname]; decide), if_pos hname,
      elementSort?_cons]
    simpa using ih
  | @declared span i ps _ hname =>
    simp only [Symbol.builtins, List.mem_cons, not_or] at hname
    obtain ⟨hint, hunsigned, hfloat, hbool, hstring, harray, hset, -⟩ := hname
    unfold sort?
    rw [if_neg hint, if_neg hunsigned, if_neg hfloat, if_neg hbool, if_neg hstring, if_neg harray,
      if_neg hset]
    rfl

/-- An order adds nothing to what a schema declares. -/
theorem FormedIn.of_order {order : List Symbol} {e : Expr} (h : e.FormedIn (s.withOrder order)) :
    e.FormedIn s := by
  induction h with
  | scalar hname => exact .scalar hname
  | array hname _ hlength ih => exact .array hname ih hlength
  | set hname _ ih => exact .set hname ih
  | declared hname hdeps hcount hvalues => exact .declared hname hdeps hcount hvalues

/-- A value may be put for a variable in a value, but nothing makes a value of a type. -/
theorem type?_of_apply {e e' : Expr} (happly : σ.apply e = .ok e') (h : e'.type? = none) :
    e.type? = none := by
  cases e with
  | type span i ps =>
    obtain ⟨ps', -, happly⟩ := exists_of_bind_eq_ok happly
    cases happly
    cases h
  | _ => rfl

theorem type?_of_applyAll : ∀ {es es' : List Expr}, σ.applyAll es = .ok es' →
    (∀ e ∈ es', e.type? = none) → ∀ e ∈ es, e.type? = none
  | [], _, _, _ => by simp
  | e :: es, _, happly, h => by
    obtain ⟨e', he', happly⟩ := exists_of_bind_eq_ok happly
    obtain ⟨es', hes', happly⟩ := exists_of_bind_eq_ok happly
    cases happly
    rw [List.forall_mem_cons] at h ⊢
    exact ⟨type?_of_apply he' h.1, type?_of_applyAll hes' h.2⟩

/-- **A type that is well-formed under a substitution is well-formed as it is written**, if it has a
sort as it is written. -/
theorem FormedIn.of_apply : ∀ {e e' : Expr}, σ.apply e = .ok e' → e'.FormedIn s →
    e.sort?.isSome → e.FormedIn s
  | .type span i ps, _, happly, h, hsort => by
    obtain ⟨ps', hps, happly⟩ := exists_of_bind_eq_ok happly
    cases happly
    have hlength := Substitution.applyAll_length hps
    cases h with
    | scalar hname =>
      obtain rfl := List.length_eq_zero_iff.mp hlength.symm
      exact .scalar hname
    | array hname helement hlen =>
      obtain ⟨element, len, rfl⟩ := List.length_eq_two.mp hlength.symm
      obtain ⟨element', helement', hps⟩ := exists_of_bind_eq_ok hps
      obtain ⟨rest, hrest, hps⟩ := exists_of_bind_eq_ok hps
      cases hps
      rw [sort?_of_not_scalar (by rw [hname]; decide), if_pos hname, elementSort?_cons] at hsort
      refine .array hname (FormedIn.of_apply helement' helement (by simpa using hsort)) ?_
      exact type?_of_applyAll hrest (by simpa using hlen) len (List.mem_singleton_self len)
    | set hname helement =>
      obtain ⟨element, rfl⟩ := List.length_eq_one_iff.mp hlength.symm
      obtain ⟨element', helement', hps⟩ := exists_of_bind_eq_ok hps
      obtain ⟨rest, hrest, hps⟩ := exists_of_bind_eq_ok hps
      cases hps
      rw [sort?_of_not_scalar (by rw [hname]; decide), if_neg (by rw [hname]; decide),
        if_pos hname, elementSort?_cons] at hsort
      exact .set hname (FormedIn.of_apply helement' helement (by simpa using hsort))
    | declared hname hdeps hcount hvalues =>
      exact .declared hname hdeps (hlength.symm.trans hcount) (type?_of_applyAll hps hvalues)
termination_by e => sizeOf e

end Expr

namespace Typing

open Check

variable {c : Setting}

/-! ## §2. Types as they stand. -/

theorem type?_of_checkValue {e : Expr} {type : TypeExpr} {s t : Checking}
    (h : checkValue e type c s = (.ok (), t)) : e.type? = none := by
  cases e with
  | type => cases h
  | _ => rfl

theorem length_of_requireParams {type : TypeExpr} {arity : Nat} {s t : Checking}
    (h : requireParams type arity c s = (.ok (), t)) : type.params.length = arity := by
  unfold requireParams at h
  split at h
  · assumption
  · cases h

theorem type?_of_requireFormedLength {element length : Expr} {s t : Checking}
    (h : requireFormedLength [element, length] c s = (.ok (), t)) : length.type? = none :=
  type?_of_checkValue h

theorem type?_of_checkParams {deps : List Variable} :
    ∀ {params : List Expr} {σ : Substitution} {s t : Checking},
      checkParams σ deps params c s = (.ok (), t) → params.length = deps.length →
        ∀ p ∈ params, p.type? = none := by
  induction deps with
  | nil =>
    intro params σ s t _ hlength
    obtain rfl := List.length_eq_zero_iff.mp hlength
    simp
  | cons dep deps ih =>
    intro params σ s t h hlength
    cases params with
    | nil => simp
    | cons param params =>
      obtain ⟨_, _, -, h⟩ := bind_eq_ok h
      obtain ⟨_, _, hvalue, h⟩ := bind_eq_ok h
      exact List.forall_mem_cons.mpr ⟨type?_of_checkValue hvalue, ih h (by simpa using hlength)⟩

mutual

theorem formed_of_requireFormedExpr : ∀ {e : Expr} {s t : Checking},
    requireFormedExpr e c s = (.ok (), t) → e.type?.isSome → e.FormedIn c.schema
  | .type span i ps, s, t, h, _ => by
    unfold requireFormedExpr at h
    dsimp only at h
    split at h
    · next hscalar =>
      obtain rfl := List.length_eq_zero_iff.mp (length_of_requireParams h)
      exact .scalar hscalar
    · next hscalar =>
      split at h
      · next harray =>
        obtain ⟨_, _, hcount, h⟩ := bind_eq_ok h
        obtain ⟨_, _, helement, h⟩ := bind_eq_ok h
        obtain ⟨element, length, rfl⟩ := List.length_eq_two.mp (length_of_requireParams hcount)
        exact .array harray (formed_of_requireFormedElement helement element rfl)
          (type?_of_requireFormedLength h)
      · next harray =>
        split at h
        · next hset =>
          obtain ⟨_, _, hcount, helement⟩ := bind_eq_ok h
          obtain ⟨element, rfl⟩ := List.length_eq_one_iff.mp (length_of_requireParams hcount)
          exact .set hset (formed_of_requireFormedElement helement element rfl)
        · next hset =>
          rw [bind_ok (show schema c s = (.ok c.schema, s) from rfl)] at h
          obtain ⟨deps, _, hdeps, h⟩ := bind_eq_ok h
          obtain ⟨_, _, hcount, hparams⟩ := bind_eq_ok h
          have hlength := length_of_requireParams hcount
          exact .declared (Symbol.not_mem_builtins hscalar harray hset) (getSome_eq_ok hdeps).1
            hlength (type?_of_checkParams hparams hlength)
termination_by e => sizeOf e

theorem formed_of_requireFormedElement {collection : TypeExpr} : ∀ {ps : List Expr}
    {s t : Checking}, requireFormedElement collection ps c s = (.ok (), t) →
      ∀ e, ps.head? = some e → e.FormedIn c.schema
  | e :: _, s, t, h, _, rfl => by
    unfold requireFormedElement at h
    cases htype : e.type? with
    | none =>
      rw [htype] at h
      cases h
    | some type =>
      rw [htype] at h
      exact formed_of_requireFormedExpr h (by rw [htype]; rfl)
termination_by ps => sizeOf ps

end

theorem formed_of_requireFormed {type : TypeExpr} {s t : Checking}
    (h : requireFormed type c s = (.ok (), t)) : type.toExpr.FormedIn c.schema :=
  formed_of_requireFormedExpr h rfl

/-- A type that is well-formed under the substitution in force. -/
def FormedUnder (c : Setting) (σ : Substitution) (type : TypeExpr) : Prop :=
  ∃ type', σ.applyType type = .ok type' ∧ type'.toExpr.FormedIn c.schema

theorem FormedUnder.of_sort {σ : Substitution} {type : TypeExpr} (h : FormedUnder c σ type)
    (hsort : type.sort?.isSome) : type.toExpr.FormedIn c.schema := by
  obtain ⟨type', happly, hformed⟩ := h
  obtain ⟨ps', hps, happly⟩ := exists_of_bind_eq_ok happly
  cases happly
  have happly : σ.apply type.toExpr = .ok (.type type.span type.ident ps') := by
    show (σ.applyAll type.params >>= fun ps => pure (Expr.type type.span type.ident ps)) = _
    rw [hps]
    rfl
  exact hformed.of_apply happly hsort

/-- Where nothing is substituted, a type is well-formed as it is written. -/
theorem FormedUnder.of_unbound {σ : Substitution} (hσ : ∀ n, σ.find? n = none) {type : TypeExpr}
    (h : FormedUnder c σ type) : type.toExpr.FormedIn c.schema := by
  refine h.of_sort ?_
  obtain ⟨type', happly, hformed⟩ := h
  have hvalues : ∀ n b, σ.find? n = some b → b.IsValue := by simp [hσ]
  rw [← TypeExpr.sort?_applyType hvalues happly]
  exact hformed.sort?_isSome

theorem applyType_of_underCurrent {type type' : TypeExpr} {s t : Checking}
    (h : underCurrent type c s = (.ok type', t)) :
    s.substitution.applyType type = .ok type' ∧ t = s :=
  under_eq_ok h

/-! ## §3. Declared types. -/

theorem formedUnder_of_introduceVariables {vars : List Variable} :
    ∀ {s t : Checking}, s.substitution.scopes.frames ≠ [] →
      introduceVariables vars c s = (.ok (), t) →
        t.substitution = s.substitution ∧ ∀ v ∈ vars, FormedUnder c s.substitution v.type := by
  induction vars with
  | nil =>
    intro s t _ h
    cases h
    exact ⟨rfl, by simp⟩
  | cons v vars ih =>
    intro s t hs h
    obtain ⟨type, t₁, hunder, hrest⟩ := bind_eq_ok h
    obtain ⟨happly, ht₁⟩ := applyType_of_underCurrent hunder
    obtain ⟨_, t₂, hformed, hrest⟩ := bind_eq_ok hrest
    obtain ⟨_, t₃, hbound, hrest⟩ := bind_eq_ok hrest
    -- neither the check of the type nor the binding adds to the substitution
    have hsame : t₃.substitution = s.substitution := by
      have hstill := (stepwise_requireFormed type).quiet.still_of_run (by rwa [ht₁]) hformed
      cases hbound
      rw [← ht₁]
      exact hstill.substitution
    obtain ⟨hlast, hvars⟩ := ih (by rwa [hsame]) hrest
    rw [hsame] at hlast hvars
    exact ⟨hlast, List.forall_mem_cons.mpr ⟨⟨type, happly, formed_of_requireFormed hformed⟩, hvars⟩⟩

theorem formedUnder_of_checkConstructors {cs : List Constructor} :
    ∀ {s t : Checking}, s.substitution.scopes.frames ≠ [] →
      checkConstructors cs c s = (.ok (), t) →
        ∀ ctor ∈ cs, ∀ v ∈ ctor.fields, ∃ σ, FormedUnder c σ v.type := by
  induction cs with
  | nil => simp
  | cons ctor cs ih =>
    intro s t hs h
    obtain ⟨_, t₁, hfirst, h⟩ := bind_eq_ok h
    have ht₁ := ((stepwise_introduceVariables ctor.fields).framed.inScope).framed.outside_of_run hs
      hfirst
    obtain ⟨t₂, hfields, -⟩ := inScope_eq_ok hfirst
    obtain ⟨-, hformed⟩ := formedUnder_of_introduceVariables (List.cons_ne_nil _ _) hfields
    exact List.forall_mem_cons.mpr ⟨fun v hv => ⟨_, hformed v hv⟩, ih ht₁.isOpen h⟩

theorem formedUnder_of_checkRules {e : Enum} {rules : List Rule} :
    ∀ {s t : Checking}, s.substitution.scopes.frames ≠ [] →
      checkRules e rules c s = (.ok (), t) → ∀ r ∈ rules, r.inputs.length = e.deps.length
        ∧ ∀ ctor ∈ r.constructors, ∀ v ∈ ctor.fields, ∃ σ, FormedUnder c σ v.type := by
  induction rules with
  | nil => simp
  | cons rule rules ih =>
    intro s t hs h
    obtain ⟨_, t₁, hrule, h⟩ := bind_eq_ok h
    have ht₁ := (stepwise_checkRule e rule : StepwiseInside true _).framed.outside_of_run hs hrule
    refine List.forall_mem_cons.mpr ⟨?_, ih ht₁.isOpen h⟩
    unfold checkRule at hrule
    split at hrule
    · cases hrule
    · next hlength =>
      obtain ⟨t₂, hrun, -⟩ := inScope_eq_ok hrule
      obtain ⟨_, t₃, hinputs, hconstructors⟩ := bind_eq_ok hrun
      have ht₃ := (stepwise_checkInputs rule.inputs e.deps).framed.outside_of_run
        (List.cons_ne_nil _ _) hinputs
      exact ⟨not_not.mp hlength, formedUnder_of_checkConstructors ht₃.isOpen hconstructors⟩

theorem sort?_of_sortedFields {fields : List Variable} :
    ∀ {s t : Checking} {sorts : List (Symbol × ValueSort)},
      sortedFields fields c s = (.ok sorts, t) → ∀ v ∈ fields, v.type.sort?.isSome := by
  induction fields with
  | nil => simp
  | cons v fields ih =>
    intro s t sorts h
    obtain ⟨sort, t₁, hsort, h⟩ := bind_eq_ok h
    obtain ⟨_, _, hfields, -⟩ := bind_eq_ok h
    exact List.forall_mem_cons.mpr ⟨by rw [(getSome_eq_ok hsort).1]; rfl, ih hfields⟩

theorem sort?_of_variants {cs : List Constructor} :
    ∀ {s t : Checking} {decls : List Variant}, variants cs c s = (.ok decls, t) →
      ∀ ctor ∈ cs, ∀ v ∈ ctor.fields, v.type.sort?.isSome := by
  induction cs with
  | nil => simp
  | cons ctor cs ih =>
    intro s t decls h
    obtain ⟨_, _, hfields, h⟩ := bind_eq_ok h
    obtain ⟨_, _, hcs, -⟩ := bind_eq_ok h
    exact List.forall_mem_cons.mpr ⟨sort?_of_sortedFields hfields, ih hcs⟩

/-- Nothing is substituted. -/
def Unbound (s : Checking) : Prop :=
  s.substitution.scopes.frames ≠ [] ∧ ∀ n, s.substitution.find? n = none

theorem unbound_opened {s : Checking} (hs : s.Fresh) : Unbound s.opened := by
  refine ⟨List.cons_ne_nil _ _, fun n => ?_⟩
  show s.substitution.push.find? n = none
  rw [hs.substitution]
  rfl

/-- What the check of a type before its declaration finds. -/
theorem formedUnder_of_typeBody {d : TypeDef} {s t : Checking} (hs : Unbound s)
    (h : typeBody d c s = (.ok (), t)) :
    (∀ v ∈ d.deps, v.type.toExpr.FormedIn c.schema)
      ∧ (∀ ctor ∈ d.constructors, ∀ v ∈ ctor.fields, ∃ σ, FormedUnder c σ v.type)
      ∧ ∀ e, d = .enum e → ∀ r ∈ e.rules, r.inputs.length = e.deps.length := by
  obtain ⟨_, t₁, hdeps, h⟩ := bind_eq_ok h
  obtain ⟨hsame, hformed⟩ := formedUnder_of_introduceVariables hs.1 hdeps
  have ht₁ : t₁.substitution.scopes.frames ≠ [] := by
    rw [hsame]
    exact hs.1
  refine ⟨fun v hv => (hformed v hv).of_unbound hs.2, ?_⟩
  cases d with
  | message m =>
    obtain ⟨-, hfields⟩ := formedUnder_of_introduceVariables ht₁ h
    refine ⟨?_, fun e he => by cases he⟩
    intro ctor hctor v hv
    obtain rfl := List.mem_singleton.mp hctor
    exact ⟨_, hfields v hv⟩
  | enum e =>
    have hrules := formedUnder_of_checkRules ht₁ h
    refine ⟨?_, ?_⟩
    · intro ctor hctor
      obtain ⟨r, hr, hctor⟩ := List.mem_flatMap.mp hctor
      exact (hrules r hr).2 ctor hctor
    · rintro _ ⟨⟩ r hr
      exact (hrules r hr).1

/-- **The types in a declaration of a type that passed are well-formed.** -/
theorem formed_of_checkTypeDef {d : TypeDef} (h : Passed c (checkTypeDef d)) :
    (∀ v ∈ d.deps, v.type.toExpr.FormedIn c.schema)
      ∧ (∀ ctor ∈ d.constructors, ∀ v ∈ ctor.fields, v.type.toExpr.FormedIn c.schema)
      ∧ ∀ e, d = .enum e → ∀ r ∈ e.rules, r.inputs.length = e.deps.length := by
  obtain ⟨s, hs, _, _, hrun⟩ := h
  obtain ⟨_, _, hbody, hrun⟩ := bind_eq_ok hrun
  obtain ⟨_, _, hvariants, -⟩ := bind_eq_ok hrun
  obtain ⟨t, hbody, -⟩ := inScope_eq_ok hbody
  obtain ⟨hdeps, hfields, hinputs⟩ := formedUnder_of_typeBody (unbound_opened hs) hbody
  refine ⟨hdeps, ?_, hinputs⟩
  intro ctor hctor v hv
  obtain ⟨σ, hformed⟩ := hfields ctor hctor v hv
  exact hformed.of_sort (sort?_of_variants hvariants ctor hctor v hv)

/-! ## §4. Functions. -/

theorem formed_of_underCurrent {type type' : TypeExpr} {s t t' : Checking} (hs : Unbound s)
    (hunder : underCurrent type c s = (.ok type', t))
    (h : requireFormed type' c t = (.ok (), t')) : type.toExpr.FormedIn c.schema := by
  have hformed : FormedUnder c s.substitution type :=
    ⟨type', (applyType_of_underCurrent hunder).1, formed_of_requireFormed h⟩
  exact hformed.of_unbound hs.2

mutual

theorem formed_of_checkParameter : ∀ {p : ParameterType} {s t : Checking} {b : Binding},
    Unbound s → checkParameter p c s = (.ok b, t) → ∀ e ∈ p.exprs, e.FormedIn c.schema
  | .value type, s, t, b, hs, h => by
    obtain ⟨type', _, hunder, h⟩ := bind_eq_ok h
    obtain ⟨_, _, hformed, -⟩ := bind_eq_ok h
    intro e he
    obtain rfl := List.mem_singleton.mp he
    exact formed_of_underCurrent hs hunder hformed
  | .function ps result, s, t, b, hs, h => by
    obtain ⟨_, _, hscope, -⟩ := bind_eq_ok h
    obtain ⟨_, hbody, -⟩ := inScope_eq_ok hscope
    obtain ⟨_, t₁, hps, hbody⟩ := bind_eq_ok hbody
    obtain ⟨_, _, hunder, hformed⟩ := bind_eq_ok hbody
    have hopened : Unbound s.opened := ⟨List.cons_ne_nil _ _, hs.2⟩
    obtain ⟨ht₁, hparams⟩ := formed_of_introduceParameters hopened hps
    intro e he
    rcases List.mem_append.mp he with he | he
    · exact hparams e he
    · obtain rfl := List.mem_singleton.mp he
      exact formed_of_underCurrent ht₁ hunder hformed
termination_by structural p => p

theorem formed_of_introduceParameters : ∀ {ps : List (Named ParameterType)} {s t : Checking},
    Unbound s → introduceParameters ps c s = (.ok (), t) →
      Unbound t ∧ ∀ e ∈ ParameterType.exprsAll ps, e.FormedIn c.schema
  | [], s, t, hs, h => by
    cases h
    exact ⟨hs, by simp [ParameterType.exprsAll]⟩
  | p :: ps, s, t, hs, h => by
    obtain ⟨b, t₁, hp, h⟩ := bind_eq_ok h
    obtain ⟨_, t₂, hbound, h⟩ := bind_eq_ok h
    have hfirst := formed_of_checkParameter hs hp
    -- a parameter is bound, and nothing is substituted
    have ht₂ : Unbound t₂ := by
      have hstill := (stepwise_checkParameter p.val).quiet.still_of_run hs.1 hp
      cases hbound
      unfold Unbound
      rw [show t₁.substitution = s.substitution from hstill.substitution]
      exact hs
    obtain ⟨ht, hrest⟩ := formed_of_introduceParameters ht₂ h
    refine ⟨ht, ?_⟩
    intro e he
    rcases List.mem_append.mp he with he | he
    · exact hfirst e he
    · exact hrest e he
termination_by structural ps => ps

end

/-- **The types in the signature of a function that passed are well-formed.** -/
theorem formed_of_checkFunctionDef {f : FunctionDef} (h : Passed c (checkFunctionDef f)) :
    ∀ e ∈ f.signature.exprs, e.FormedIn c.schema := by
  obtain ⟨s, hs, _, _, hrun⟩ := h
  obtain ⟨_, s', hnote, hrun⟩ := bind_eq_ok hrun
  have hs' : s'.Fresh := by
    cases hnote
    exact ⟨hs.scopes, hs.substitution, hs.readingInput⟩
  obtain ⟨_, hbody, -⟩ := inScope_eq_ok hrun
  obtain ⟨_, t₁, hparams, hbody⟩ := bind_eq_ok hbody
  obtain ⟨ht₁, hformed⟩ := formed_of_introduceParameters (unbound_opened hs') hparams
  obtain ⟨_, _, hunder, hbody⟩ := bind_eq_ok hbody
  obtain ⟨_, _, hresult, -⟩ := bind_eq_ok hbody
  intro e he
  rcases List.mem_append.mp he with he | he
  · exact hformed e he
  · obtain rfl := List.mem_singleton.mp he
    exact formed_of_underCurrent ht₁ hunder hresult

end Typing

/-! ## §5. Schemas. -/

namespace Schema

/-- **A schema that passes has well-formed types only**, whatever the oracle answers: as the types
of dependencies, of fields, and of parameters and results at any depth. Its rules have an input for
each dependency. -/
theorem formed_of_typing {t : SymbolTable} {s : Schema} (hs : s.Keyed) {order : List Symbol}
    (horder : s.typeOrder t = .ok order) (oracle : Oracle)
    (hok : ((s.withOrder order).typing oracle).1 = .ok ()) : s.Formed := by
  obtain ⟨htypes, hfunctions⟩ := passed_of_typing hok
  have hordered := ordered_of_typeOrder hs.types horder
  have hall := (hordered.forall_iff (hs.withOrder order)).mp htypes
  refine ⟨?_, ?_, ?_, ?_⟩
  · intro d hd v hv
    exact ((Typing.formed_of_checkTypeDef (hall d hd)).1 v hv).of_order
  · intro d hd ctor hctor v hv
    exact ((Typing.formed_of_checkTypeDef (hall d hd)).2.1 ctor hctor v hv).of_order
  · intro f hf e he
    exact (Typing.formed_of_checkFunctionDef (hfunctions f hf) e he).of_order
  · intro e he
    exact (Typing.formed_of_checkTypeDef (hall _ he)).2.2 e rfl

/-- The album with its shapes passes, and so all its types are well-formed. -/
theorem formed_album : (ofDeclarations Example.album).Formed := by
  have horder : (ofDeclarations Example.album).typeOrder Example.names = .ok [⟨7⟩, ⟨8⟩, ⟨9⟩] := by
    cbv
  have hok : (((ofDeclarations Example.album).withOrder [⟨7⟩, ⟨8⟩, ⟨9⟩]).typing
      Structural.oracle).1 = .ok () := by cbv
  exact formed_of_typing (keyed_ofDeclarations _) horder Structural.oracle hok

end Schema

end DepSchema
