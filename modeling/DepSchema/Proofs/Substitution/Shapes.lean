/-
DepSchema.Proofs.Substitution.Shapes — expressions whose fields can be taken.

The name of a type says which fields its values have. An expression has the shape of the values of a
type if the fields that the type declares can be followed into it: a constructed value supplies
them, a variable with fields takes more of them behind those that are there. Only the result of a
call cannot be followed into, whatever type it has.

What stands for a variable is followed into when the variable is replaced. So a substitution is
known by the names of the types that its expressions have the shape of, and an expression fits if
the fields behind its variables lead somewhere from there. Fitting expressions keep their shape when
they are substituted, and substituting them fails nowhere but at a call.

Main definitions: `Expr.Shaped`, `Expr.Fits` and `Schema.Shapely`. Main results: `Supports.follow`,
`Shaped.apply` and `Supports.admits`.
-/
import DepSchema.Proofs.Dispatch.Instances
import DepSchema.Proofs.Dispatch.Patterns
import DepSchema.Proofs.Registration

namespace DepSchema

/-! ## §1. Builtin types, messages and functions. -/

theorem BinaryOp.operandTypes_subset (op : BinaryOp) : op.operandTypes ⊆ Symbol.builtins := by
  cases op <;> decide

theorem UnaryOp.operandTypes_subset (op : UnaryOp) : op.operandTypes ⊆ Symbol.builtins := by
  cases op <;> decide

theorem Scalar.type_mem_builtins (v : Scalar) : v.type ∈ Symbol.builtins := by
  cases v <;> simp [Scalar.type, Symbol.builtins]

namespace Schema

/-- The name of a declared message. -/
def IsMessage (s : Schema) (n : Symbol) : Prop := ∃ m, s.type? n = some (.message m)

/-- The type of a declared function, or of a parameter that is a function, at any depth. -/
inductive HasFunction (s : Schema) : FunctionType → Prop where
  | declared {f : FunctionDef} (hf : f ∈ s.functions) : HasFunction s f.signature
  | parameter {ft : FunctionType} {p : Parameter} {qs : List (Named ParameterType)}
      {result : TypeExpr} (hft : HasFunction s ft) (hp : p ∈ ft.params)
      (hval : p.val = .function qs result) : HasFunction s ⟨qs, result⟩

/-- The result of some function is a message. -/
def ReturnsMessage (s : Schema) : Prop := ∃ ft, s.HasFunction ft ∧ s.IsMessage ft.result.name

/-- A chain of fields of messages leads from the values of one type to those of another. -/
def Leads (s : Schema) : List Ident → Symbol → Symbol → Prop
  | [], T, U => T = U
  | f :: fs, T, U => ∃ m v, s.type? T = some (.message m) ∧ m.field? f.name = some v
      ∧ s.Leads fs v.type.name U

/-- The causes for which a check may fail. A field that cannot be taken is one only where the
expression is a call, and only if a call can give a message. -/
def Admits (s : Schema) : Cause → Prop
  | .substitution err => err.fault = .illFormed ∧ s.ReturnsMessage
  | _ => True

/-- A constructor belongs to a type that is found by its name. -/
theorem type?_of_constructor? {s : Schema} {n : Symbol} {d : TypeDef} {k : Constructor}
    (h : s.constructor? n = some (d, k)) : s.type? d.name = some d := by
  simp only [constructor?, Option.bind_eq_bind, Option.bind_eq_some_iff, Option.pure_def,
    Option.some.injEq, Prod.mk.injEq] at h
  obtain ⟨owner, -, d', hd, k', -, rfl, -⟩ := h
  rwa [type?_name hd]

end Schema

/-! ## §2. Shapes. -/

/-- The expression has the shape of the values of the type of that name, where a variable with its
fields does if `A` says so. Nothing is asked of a builtin type, whose values have no fields. -/
inductive Expr.Shaped (s : Schema) (A : Access → Symbol → Prop) : Expr → Symbol → Prop where
  | access {a : Access} {T : Symbol} (h : A a T) : Shaped s A (.access a) T
  | constructed {span : Span} {c : Ident} {inits : List (Named Expr)} {d : TypeDef}
      {k : Constructor} (hfound : s.constructor? c.name = some (d, k))
      (hsupplied : ∀ v ∈ k.fields, (Named.find? inits v.name.name).isSome = true)
      (hvalues : ∀ v ∈ k.fields, ∀ e, Named.find? inits v.name.name = some e →
        Shaped s A e v.type.name) :
      Shaped s A (.constructed span c inits) d.name
  | call {span : Span} {f : Ident} {as : List Expr} {T : Symbol}
      (h : s.IsMessage T → s.ReturnsMessage) : Shaped s A (.call span f as) T
  | builtin {e : Expr} {T : Symbol} (h : s.type? T = none) : Shaped s A e T

/-- Each parameter of the type has the shape of the values of its dependency; the first parameter of
a builtin type, if there is one, is such a type again. -/
inductive TypeExpr.Shaped (s : Schema) (A : Access → Symbol → Prop) : TypeExpr → Prop where
  | declared {t : TypeExpr} {d : TypeDef} (hd : s.type? t.name = some d)
      (hparams : ∀ p ∈ d.deps.zip t.params, p.2.Shaped s A p.1.type.name) : Shaped s A t
  | builtin {t : TypeExpr} (hd : s.type? t.name = none)
      (htype : ∀ e, t.params[0]? = some e → e.type?.isSome = true)
      (helement : ∀ e u, t.params[0]? = some e → e.type? = some u → Shaped s A u) : Shaped s A t

/-- Fields can be taken from the expression as from the values of the type of that name. -/
abbrev Expr.Supports (s : Schema) : Expr → Symbol → Prop := Expr.Shaped s fun _ _ => True

/-- Fields can be taken from each parameter of the type as from the values of its dependency. -/
abbrev TypeExpr.Supports (s : Schema) : TypeExpr → Prop := TypeExpr.Shaped s fun _ _ => True

section

variable {s : Schema} {A A' : Access → Symbol → Prop}

theorem Expr.Shaped.mono (hA : ∀ a T, A a T → A' a T) {e : Expr} {T : Symbol}
    (h : e.Shaped s A T) : e.Shaped s A' T := by
  induction h with
  | access h => exact .access (hA _ _ h)
  | constructed hfound hsupplied _ ih => exact .constructed hfound hsupplied ih
  | call h => exact .call h
  | builtin h => exact .builtin h

theorem TypeExpr.Shaped.mono (hA : ∀ a T, A a T → A' a T) {t : TypeExpr} (h : t.Shaped s A) :
    t.Shaped s A' := by
  induction h with
  | declared hd hparams => exact .declared hd fun p hp => (hparams p hp).mono hA
  | builtin hd htype _ ih => exact .builtin hd htype ih

/-- A builtin type without parameters. -/
theorem TypeExpr.supports_builtin {n : Symbol} (h : s.type? n = none) (span : Span) :
    (TypeExpr.builtin n span).Supports s :=
  .builtin h (fun _ he => by cases he) fun _ _ he => by cases he

/-- The fields of a constructed value of the right shape are supplied, with values of the right
shape. -/
theorem Expr.Shaped.values {T : Symbol} {d : TypeDef} {k : Constructor} {span : Span} {c : Ident}
    {inits : List (Named Expr)} (h : (Expr.constructed span c inits).Shaped s A T)
    (hT : s.type? T ≠ none) (hfound : s.constructor? c.name = some (d, k)) :
    T = d.name ∧ ∀ v ∈ k.fields, ∃ e, Named.find? inits v.name.name = some e
      ∧ e.Shaped s A v.type.name := by
  cases h with
  | constructed hfound' hsupplied hvalues =>
    rw [hfound] at hfound'
    cases hfound'
    refine ⟨rfl, fun v hv => ?_⟩
    obtain ⟨e, he⟩ := Option.isSome_iff_exists.mp (hsupplied v hv)
    exact ⟨e, he, hvalues v hv e he⟩
  | builtin hnone => exact absurd hnone hT

/-- **Fields that lead somewhere can be followed into an expression of the right shape**, but not
into a call. -/
theorem Expr.Shaped.follow (fields : List Ident) : ∀ {e : Expr} {T U : Symbol}, e.Supports s T →
    s.Leads fields T U → (∀ e', e.follow fields = .ok e' → e'.Supports s U)
      ∧ ∀ err, e.follow fields = .error err → s.Admits (.substitution err) := by
  induction fields with
  | nil =>
    intro e T U he hleads
    cases hleads
    rw [follow_nil]
    refine ⟨fun e' h => ?_, fun err h => by cases h⟩
    cases h
    exact he
  | cons f fs ih =>
    intro e T U he hleads
    obtain ⟨m, v, hm, hv, hleads⟩ := hleads
    cases he with
    | access =>
      refine ⟨fun e' h => ?_, fun err h => by cases h⟩
      cases h
      exact .access trivial
    | @constructed span c inits d k hfound hsupplied hvalues =>
      -- a message has one constructor, with the fields of the message
      rw [Schema.type?_of_constructor? hfound] at hm
      cases hm
      obtain rfl := List.mem_singleton.mp (Schema.of_constructor? hfound).2.1
      have hmem : v ∈ m.fields := List.mem_of_find?_eq_some hv
      have hname : v.name.name = f.name := by simpa using List.find?_some hv
      obtain ⟨value, hvalue⟩ := Option.isSome_iff_exists.mp (hsupplied v hmem)
      have hshaped := hvalues v hmem value hvalue
      rw [hname] at hvalue
      unfold Expr.follow
      rw [hvalue]
      exact ih hshaped hleads
    | call h =>
      refine ⟨(fun e' h => by cases h), fun err herr => ?_⟩
      cases herr
      exact ⟨rfl, h ⟨m, hm⟩⟩
    | builtin h =>
      rw [h] at hm
      cases hm

end

/-! ## §3. What is known about variables. -/

/-- With a name comes the name of the type whose values what it stands for has the shape of, if that
is known. A name may be there several times, and may then stand for any of those. -/
abbrev Heads := List (Symbol × Option Symbol)

/-- Dependencies or fields stand for values of their types. -/
def Variable.heads (vars : List Variable) : Heads :=
  vars.map fun v => (v.name.name, some v.type.name)

/-- The name of the type of a parameter that is a value. -/
def ParameterType.head? : ParameterType → Option Symbol
  | value t => some t.name
  | function _ _ => none

/-- Parameters stand for values of their types, or for functions. -/
def ParameterType.heads (ps : List Parameter) : Heads := ps.map fun p => (p.name.name, p.val.head?)

/-- From whatever the variable stands for, its fields lead to values of the type of that name. -/
def Schema.Allows (s : Schema) (Γ : Heads) (a : Access) (T : Symbol) : Prop :=
  ∀ o, (a.var.name, o) ∈ Γ → ∃ U, o = some U ∧ s.Leads a.fields U T

/-- Where fields are taken from variables, they lead somewhere. -/
def Schema.AllowsAll (s : Schema) (Γ : Heads) (as : List Access) : Prop :=
  ∀ a ∈ as, a.fields ≠ [] → ∃ T, s.Allows Γ a T

/-- The fields that the expression takes lead somewhere, and the expression itself has the shape of
the values of the type of that name. -/
structure Expr.Fits (s : Schema) (Γ : Heads) (e : Expr) (T : Symbol) : Prop where
  accesses : s.AllowsAll Γ e.accesses
  shaped : e.Shaped s (s.Allows Γ) T

/-- The fields that the type takes lead somewhere, and its parameters have their shapes. -/
structure TypeExpr.Fits (s : Schema) (Γ : Heads) (t : TypeExpr) : Prop where
  accesses : s.AllowsAll Γ t.toExpr.accesses
  shaped : t.Shaped s (s.Allows Γ)

namespace ParameterType

mutual

/-- All types that are written in the type of a parameter fit. -/
def Fits (s : Schema) (Γ : Heads) : ParameterType → Prop
  | value t => t.Fits s Γ
  | function ps result => AllFit s Γ ps ∧ result.Fits s Γ
termination_by structural t => t

/-- All types that are written in the types of parameters fit. -/
def AllFit (s : Schema) (Γ : Heads) : List (Named ParameterType) → Prop
  | [] => True
  | p :: ps => Fits s Γ p.val ∧ AllFit s Γ ps
termination_by structural ps => ps

end

end ParameterType

/-- What stands for a variable is known to have the shape that its name says. -/
structure Substitution.Supports (s : Schema) (Γ : Heads) (σ : Substitution) : Prop where
  isOpen : σ.scopes.frames ≠ []
  range : ∀ n e, σ.find? n = some e → ∃ o, (n, o) ∈ Γ ∧ ∀ T, o = some T → e.Supports s T

section

variable {s : Schema} {Γ Γ' : Heads} {σ : Substitution}

theorem Schema.Allows.mono (hΓ : Γ ⊆ Γ') {a : Access} {T : Symbol} (h : s.Allows Γ' a T) :
    s.Allows Γ a T :=
  fun o ho => h o (hΓ ho)

theorem Schema.AllowsAll.mono (hΓ : Γ ⊆ Γ') {as : List Access} (h : s.AllowsAll Γ' as) :
    s.AllowsAll Γ as := by
  intro a ha hfields
  obtain ⟨T, hT⟩ := h a ha hfields
  exact ⟨T, hT.mono hΓ⟩

/-- A type without parameters takes no fields. -/
theorem TypeExpr.fits_of_params {t : TypeExpr} (ht : t.params = []) : t.Fits s Γ := by
  obtain ⟨span, ident, params⟩ := t
  cases ht
  refine ⟨(fun a ha => by cases ha), ?_⟩
  cases htype : s.type? ident.name with
  | none => exact .builtin htype (fun _ he => by cases he) fun _ _ he => by cases he
  | some d => exact .declared htype (by simp)

/-- What fits with more variables known fits with fewer. -/
theorem TypeExpr.Fits.mono (hΓ : Γ ⊆ Γ') {t : TypeExpr} (h : t.Fits s Γ') : t.Fits s Γ :=
  ⟨h.accesses.mono hΓ, h.shaped.mono fun _ _ ha => ha.mono hΓ⟩

namespace Substitution

/-- **A substitution of expressions that fit fails only at a call.** -/
theorem Supports.admits (hσ : σ.Supports s Γ) {as : List Access} {err : AccessError}
    (hfails : σ.FailsAt as err) (has : s.AllowsAll Γ as) : s.Admits (.substitution err) := by
  obtain ⟨a, ha, bound, hfind, hfollow⟩ := hfails
  obtain ⟨o, ho, hbound⟩ := hσ.range _ _ hfind
  -- a variable alone is replaced as a whole
  have hfields : a.fields ≠ [] := by
    intro hnil
    rw [hnil, Expr.follow_nil] at hfollow
    cases hfollow
  obtain ⟨T, hT⟩ := has a ha hfields
  obtain ⟨U, rfl, hleads⟩ := hT o ho
  exact (Expr.Shaped.follow _ (hbound U rfl) hleads).2 err hfollow

theorem mem_zip_applyAll {α : Type} {xs : List α} : ∀ {es es' : List Expr},
    σ.applyAll es = .ok es' →
      ∀ p ∈ xs.zip es', ∃ e, (p.1, e) ∈ xs.zip es ∧ σ.apply e = .ok p.2 := by
  induction xs with
  | nil => simp
  | cons x xs ih =>
    intro es es' h p hp
    cases es with
    | nil =>
      cases h
      simp at hp
    | cons e es =>
      obtain ⟨e', es', he, hes, rfl⟩ := of_applyAll_cons h
      rw [List.zip_cons_cons, List.mem_cons] at hp
      rcases hp with rfl | hp
      · exact ⟨e, List.mem_cons_self, he⟩
      · obtain ⟨e₀, hmem, he₀⟩ := ih hes p hp
        exact ⟨e₀, List.mem_cons_of_mem _ hmem, he₀⟩

end Substitution

/-- **An expression that fits keeps its shape when it is substituted.** -/
theorem Expr.Shaped.apply (hσ : σ.Supports s Γ) {e : Expr} {T : Symbol}
    (h : e.Shaped s (s.Allows Γ) T) : ∀ {e' : Expr}, σ.apply e = .ok e' → e'.Supports s T := by
  induction h with
  | access h =>
    intro e' happly
    rcases Substitution.of_apply_access happly with ⟨-, rfl⟩ | ⟨bound, hfind, hfollow⟩
    · exact .access trivial
    · obtain ⟨o, ho, hbound⟩ := hσ.range _ _ hfind
      obtain ⟨U, rfl, hleads⟩ := h o ho
      exact (Expr.Shaped.follow _ (hbound U rfl) hleads).1 e' hfollow
  | constructed hfound hsupplied _ ih =>
    intro e' happly
    obtain ⟨fs', hfs, rfl⟩ := Substitution.of_apply_constructed happly
    refine .constructed hfound (fun v hv => ?_) fun v hv value hvalue => ?_
    · rcases Substitution.find?_applyFields hfs v.name.name with ⟨hnone, -⟩ | ⟨_, _, -, hsome, -⟩
      · have hsome := hsupplied v hv
        rw [hnone] at hsome
        cases hsome
      · rw [hsome]
        rfl
    · rcases Substitution.find?_applyFields hfs v.name.name with
        ⟨-, hnone⟩ | ⟨e, _, he, he', happly⟩
      · rw [hnone] at hvalue
        cases hvalue
      · rw [he'] at hvalue
        cases hvalue
        exact ih v hv e he happly
  | call h =>
    intro e' happly
    obtain ⟨as', -, rfl⟩ := Substitution.of_apply_call happly
    exact .call h
  | builtin h => exact fun _ => .builtin h

/-- **A type that fits keeps its shape when it is substituted.** -/
theorem TypeExpr.Shaped.apply (hσ : σ.Supports s Γ) {t : TypeExpr} (h : t.Shaped s (s.Allows Γ)) :
    ∀ {t' : TypeExpr}, σ.applyType t = .ok t' → t'.Supports s := by
  induction h with
  | declared hd hparams =>
    intro t' happly
    obtain ⟨ps', hps, rfl⟩ := Substitution.of_applyType happly
    refine .declared hd fun p hp => ?_
    obtain ⟨e, he, happly⟩ := Substitution.mem_zip_applyAll hps p hp
    exact (hparams (p.1, e) he).apply hσ happly
  | @builtin t hd htype _ ih =>
    intro t' happly
    obtain ⟨ps', hps, rfl⟩ := Substitution.of_applyType happly
    cases hparams : t.params with
    | nil =>
      rw [hparams] at hps
      cases hps
      exact .builtin hd (fun _ he => by cases he) fun _ _ he => by cases he
    | cons e es =>
      rw [hparams] at hps htype ih
      obtain ⟨u, hu⟩ := Option.isSome_iff_exists.mp (htype e rfl)
      obtain ⟨e', es', he, -, rfl⟩ := Substitution.of_applyAll_cons hps
      -- a type is a type again
      cases e with
      | type span i qs =>
        cases hu
        obtain ⟨qs', hqs, rfl⟩ := Substitution.of_apply_type he
        refine .builtin hd (fun _ h => ?_) fun _ _ h hu => ?_
        · cases h
          rfl
        · cases h
          cases hu
          refine ih _ _ rfl rfl ?_
          unfold Substitution.applyType
          rw [hqs]
          rfl
      | _ => cases hu

/-! ## §4. Building substitutions. -/

namespace Substitution

theorem supports_empty (Γ : Heads) : empty.Supports s Γ :=
  ⟨empty_open, fun n e h => by cases h⟩

/-- More may be known about more variables. -/
theorem Supports.mono (hΓ : Γ ⊆ Γ') (hσ : σ.Supports s Γ) : σ.Supports s Γ' := by
  refine ⟨hσ.isOpen, fun n e hfind => ?_⟩
  obtain ⟨o, ho, he⟩ := hσ.range n e hfind
  exact ⟨o, hΓ ho, he⟩

/-- One more variable is replaced, by what is known of it. -/
theorem Supports.bind (hσ : σ.Supports s Γ) {name : Symbol} {o : Option Symbol} {e : Expr}
    (ho : (name, o) ∈ Γ) (he : ∀ T, o = some T → e.Supports s T) :
    (σ.bind name e).Supports s Γ := by
  refine ⟨bind_open hσ.isOpen name e, ?_⟩
  exact Scopes.forall_find?_bind hσ.isOpen ⟨o, ho, he⟩ hσ.range

/-- Dependencies are replaced by parameters that have the shape of their values. -/
theorem Supports.bindZip {pairs : List (Variable × Expr)} :
    ∀ {σ : Substitution}, σ.Supports s Γ →
      (∀ p ∈ pairs, (p.1.name.name, some p.1.type.name) ∈ Γ ∧ p.2.Supports s p.1.type.name) →
      (pairs.foldl (fun σ (dep, param) => σ.bind dep.name.name param) σ).Supports s Γ := by
  induction pairs with
  | nil => exact fun hσ _ => hσ
  | cons p pairs ih =>
    intro σ hσ hpairs
    rw [List.forall_mem_cons] at hpairs
    refine ih (hσ.bind hpairs.1.1 fun T hT => ?_) hpairs.2
    cases hT
    exact hpairs.1.2

theorem supports_bindDeps {deps : List Variable} {params : List Expr}
    (h : ∀ p ∈ deps.zip params, p.2.Supports s p.1.type.name) :
    (Typing.bindDeps deps params).Supports s (Variable.heads deps) := by
  refine Supports.bindZip (supports_empty _) fun p hp => ⟨?_, h p hp⟩
  exact List.mem_map_of_mem (List.of_mem_zip hp).1

/-- Fields are replaced by accesses, from which all fields can be taken. -/
theorem Supports.bindFields (base : Access) (fields : List Variable) :
    ∀ {σ : Substitution}, σ.Supports s Γ →
      (∀ v ∈ fields, (v.name.name, some v.type.name) ∈ Γ) →
      (fields.foldl (fun σ v => σ.bind v.name.name (.access (base.field v.name))) σ).Supports s
        Γ := by
  induction fields with
  | nil => exact fun hσ _ => hσ
  | cons v fields ih =>
    intro σ hσ hfields
    rw [List.forall_mem_cons] at hfields
    exact ih (hσ.bind hfields.1 fun _ _ => .access trivial) hfields.2

end Substitution

end

/-! ## §5. Declarations. -/

/-- The name of the type of a field of a constructor, if values of the first type are built with the
constructor. -/
def Schema.fieldHead? (s : Schema) (type : Option Symbol) (ctor field : Symbol) :
    Option Symbol := do
  let (d, k) ← s.constructor? ctor
  if type = some d.name then (Variable.find? k.fields field).map fun v => v.type.name else none

namespace Expr

mutual

/-- What the names stand for that a rule input binds, where it is matched with a value of the type
of that name. -/
def caughtHeads (s : Schema) : Expr → Option Symbol → Heads
  | access a, o => if a.isVar then [(a.var.name, o)] else []
  | constructed _ c fs, o => caughtHeadsFields s fs (s.fieldHead? o c.name)
  | _, _ => []
termination_by structural e => e

/-- What the names stand for that the values of several fields bind. -/
def caughtHeadsFields (s : Schema) : List (Named Expr) → (Symbol → Option Symbol) → Heads
  | [], _ => []
  | f :: fs, head => caughtHeads s f.val (head f.name.name) ++ caughtHeadsFields s fs head
termination_by structural fs => fs

end

end Expr

/-- What the names stand for that rule inputs bind for the dependencies at their places. -/
def RuleInput.caughtHeads (s : Schema) : List RuleInput → List Variable → Heads
  | value p :: inputs, dep :: deps =>
    p.caughtHeads s (some dep.type.name) ++ caughtHeads s inputs deps
  | any _ :: inputs, _ :: deps => caughtHeads s inputs deps
  | _, _ => []

/-- The inputs of a rule fit the dependencies at their places. The types of fields fit whichever of
the dependencies, the names that the inputs bind and the fields a name stands for. -/
structure Rule.Shapely (s : Schema) (deps : List Variable) (r : Rule) : Prop where
  inputs : ∀ p e, (RuleInput.value e, p) ∈ r.inputs.zip deps →
    e.Fits s (Variable.heads deps) p.type.name
  fields : ∀ k ∈ r.constructors, ∀ v ∈ k.fields,
    v.type.Fits s (Variable.heads deps ++ RuleInput.caughtHeads s r.inputs deps
      ++ Variable.heads k.fields)

/-- All types and rule inputs that are written in the schema fit. Nothing is asked of the bodies of
functions. -/
structure Schema.Shapely (s : Schema) : Prop where
  deps : ∀ d ∈ s.types, ∀ v ∈ d.deps, v.type.Fits s (Variable.heads d.deps)
  fields : ∀ m, .message m ∈ s.types → ∀ v ∈ m.fields,
    v.type.Fits s (Variable.heads m.deps ++ Variable.heads m.fields)
  rules : ∀ e, .enum e ∈ s.types → ∀ r ∈ e.rules, r.Shapely s e.deps
  functions : ∀ ft, s.HasFunction ft →
    ParameterType.AllFit s (ParameterType.heads ft.params) ft.params
    ∧ ft.result.Fits s (ParameterType.heads ft.params)

/-- The schema is shapely, its constructors can be told apart, and builtin types are not declared
again. -/
structure Schema.WellShaped (s : Schema) : Prop extends s.Shapely where
  constructors : ∀ d ∈ s.types, ∀ k ∈ d.constructors, s.constructor? k.name = some (d, k)
  builtins : ∀ n ∈ Symbol.builtins, s.type? n = none

/-- Without name faults nothing but the shapes is asked for. -/
theorem Schema.Shapely.wellShaped {s : Schema} (h : s.Shapely) (hs : s.Keyed)
    (hregistered : s.Registered) (hnames : s.nameFaults = []) : s.WellShaped :=
  { h with
    constructors := fun _ hd _ hk => constructor?_of_mem hs hregistered hnames hd hk
    builtins := fun _ hn => type?_builtin hnames hn }

end DepSchema
