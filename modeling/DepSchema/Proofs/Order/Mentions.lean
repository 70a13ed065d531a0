/-
DepSchema.Proofs.Order.Mentions — where a definition mentions a type.

A type is mentioned by its own name or by a constructor that belongs to it, at any depth of an
expression. A definition *asks for* the types mentioned in its dependencies and rule inputs, and
*holds* those mentioned in the fields of its constructors. Only what it asks for may make a type
depend on itself.

Main statements: `Expr.mem_mentions` and `TypeDef.mem_mentions`, the lists of mentions hold exactly
the types that stand in those places.
-/
import Mathlib
import DepSchema.VisitOrder

namespace DepSchema

variable {owner : Symbol → Option Symbol} {u : Symbol}

/-! ## §1. Expressions. -/

/-- The type `u` is mentioned somewhere in an expression: by its name or by a constructor of it,
`owner` telling which type a constructor belongs to. -/
inductive Expr.Mentions (owner : Symbol → Option Symbol) (u : Symbol) : Expr → Prop where
  | name {span i ps} : i.name = u → Mentions owner u (.type span i ps)
  | constructor {span c fs} : owner c.name = some u → Mentions owner u (.constructed span c fs)
  | left {span op l r} : Mentions owner u l → Mentions owner u (.binary span op l r)
  | right {span op l r} : Mentions owner u r → Mentions owner u (.binary span op l r)
  | operand {span op x} : Mentions owner u x → Mentions owner u (.unary span op x)
  | parameter {span i ps p} : p ∈ ps → Mentions owner u p → Mentions owner u (.type span i ps)
  | field {span c fs f} :
    f ∈ fs → Mentions owner u f.val → Mentions owner u (.constructed span c fs)
  | element {span es e} : e ∈ es → Mentions owner u e → Mentions owner u (.collection span es)
  | argument {span f as a} : a ∈ as → Mentions owner u a → Mentions owner u (.call span f as)

namespace Expr

theorem mem_mentionsAll {es : List Expr} :
    u ∈ mentionsAll owner es ↔ ∃ e ∈ es, u ∈ e.mentions owner := by
  induction es with
  | nil => simp [mentionsAll]
  | cons e es ih => simp [mentionsAll, ih]

theorem mem_mentionsFields {fs : List (Named Expr)} :
    u ∈ mentionsFields owner fs ↔ ∃ f ∈ fs, u ∈ f.val.mentions owner := by
  induction fs with
  | nil => simp [mentionsFields]
  | cons f fs ih => simp [mentionsFields, ih]

mutual

theorem mentions_sound : ∀ {e : Expr}, u ∈ e.mentions owner → e.Mentions owner u
  | .binary _ _ _ _, h => by
    simp only [mentions, List.mem_append] at h
    exact h.elim (fun h => .left (mentions_sound h)) (fun h => .right (mentions_sound h))
  | .unary _ _ _, h => .operand (mentions_sound h)
  | .type _ _ _, h => by
    simp only [mentions, List.mem_cons] at h
    rcases h with h | h
    · exact .name h.symm
    · obtain ⟨p, hp, hu⟩ := mentionsAll_sound h
      exact .parameter hp hu
  | .access _, h => by simp [mentions] at h
  | .scalar _ _, h => by simp [mentions] at h
  | .constructed _ _ _, h => by
    simp only [mentions, List.mem_append, Option.mem_toList] at h
    rcases h with h | h
    · exact .constructor h
    · obtain ⟨f, hf, hu⟩ := mentionsFields_sound h
      exact .field hf hu
  | .collection _ _, h => by
    obtain ⟨e, he, hu⟩ := mentionsAll_sound h
    exact .element he hu
  | .call _ _ _, h => by
    obtain ⟨a, ha, hu⟩ := mentionsAll_sound h
    exact .argument ha hu

theorem mentionsAll_sound :
    ∀ {es : List Expr}, u ∈ mentionsAll owner es → ∃ e ∈ es, e.Mentions owner u
  | [], h => by simp [mentionsAll] at h
  | e :: es, h => by
    simp only [mentionsAll, List.mem_append] at h
    rcases h with h | h
    · exact ⟨e, List.mem_cons_self, mentions_sound h⟩
    · obtain ⟨e', he', hu⟩ := mentionsAll_sound h
      exact ⟨e', List.mem_cons_of_mem e he', hu⟩

theorem mentionsFields_sound :
    ∀ {fs : List (Named Expr)}, u ∈ mentionsFields owner fs → ∃ f ∈ fs, f.val.Mentions owner u
  | [], h => by simp [mentionsFields] at h
  | f :: fs, h => by
    simp only [mentionsFields, List.mem_append] at h
    rcases h with h | h
    · exact ⟨f, List.mem_cons_self, mentions_sound h⟩
    · obtain ⟨f', hf', hu⟩ := mentionsFields_sound h
      exact ⟨f', List.mem_cons_of_mem f hf', hu⟩

end

theorem Mentions.mem_mentions {e : Expr} (h : e.Mentions owner u) : u ∈ e.mentions owner := by
  induction h with
  | name h => simp [mentions, h]
  | constructor h => simp [mentions, h]
  | left _ ih => exact List.mem_append_left _ ih
  | right _ ih => exact List.mem_append_right _ ih
  | operand _ ih => exact ih
  | parameter hp _ ih => exact List.mem_cons_of_mem _ (mem_mentionsAll.mpr ⟨_, hp, ih⟩)
  | field hf _ ih => exact List.mem_append_right _ (mem_mentionsFields.mpr ⟨_, hf, ih⟩)
  | element he _ ih => exact mem_mentionsAll.mpr ⟨_, he, ih⟩
  | argument ha _ ih => exact mem_mentionsAll.mpr ⟨_, ha, ih⟩

/-- **The mentions of an expression are the types that stand somewhere in it.** -/
theorem mem_mentions {e : Expr} : u ∈ e.mentions owner ↔ e.Mentions owner u :=
  ⟨mentions_sound, Mentions.mem_mentions⟩

end Expr

/-! ## §2. Definitions. -/

/-- Some type among those of the variables mentions `u`. -/
def Variable.Mention (owner : Symbol → Option Symbol) (u : Symbol) (vars : List Variable) : Prop :=
  ∃ v ∈ vars, v.type.toExpr.Mentions owner u

namespace TypeDef

/-- The definition mentions `u` in the type of a dependency or in a rule input. -/
def AsksFor (owner : Symbol → Option Symbol) (u : Symbol) : TypeDef → Prop
  | message m => Variable.Mention owner u m.deps
  | enum e => Variable.Mention owner u e.deps
      ∨ ∃ r ∈ e.rules, ∃ p, RuleInput.value p ∈ r.inputs ∧ p.Mentions owner u

/-- The definition mentions `u` in the type of a field. -/
def Holds (owner : Symbol → Option Symbol) (u : Symbol) (d : TypeDef) : Prop :=
  ∃ c ∈ d.constructors, Variable.Mention owner u c.fields

end TypeDef

theorem Variable.mem_mentions {vars : List Variable} :
    u ∈ Variable.mentions owner vars ↔ Variable.Mention owner u vars := by
  simp [Variable.mentions, Variable.Mention, Expr.mem_mentions]

theorem RuleInput.mem_mentions {i : RuleInput} :
    u ∈ i.mentions owner ↔ ∃ p, i = .value p ∧ p.Mentions owner u := by
  cases i with
  | any span => simp [RuleInput.mentions]
  | value e => simp [RuleInput.mentions, Expr.mem_mentions]

theorem Variable.mem_mentionsBeside {self : Symbol} {fields : List Variable} :
    u ∈ Variable.mentionsBeside owner self fields
      ↔ Variable.Mention owner u fields ∧ u ≠ self := by
  simp [Variable.mentionsBeside, Variable.mem_mentions]

/-- **What counts as a mention in a definition**: all it asks for, and all it holds except itself.
-/
theorem TypeDef.mem_mentions {d : TypeDef} :
    u ∈ d.mentions owner ↔ d.AsksFor owner u ∨ d.Holds owner u ∧ u ≠ d.name := by
  cases d with
  | message m =>
    -- a message is its own only constructor
    simp [TypeDef.mentions, AsksFor, Holds, constructors, TypeDef.name, TypeDef.ident,
      Variable.mem_mentions, Variable.mem_mentionsBeside]
  | enum e =>
    -- rules mix inputs, which are asked for, and fields, which are held; both sides are regrouped
    simp only [TypeDef.mentions, AsksFor, Holds, constructors, Enum.constructors, TypeDef.name,
      TypeDef.ident, List.mem_append, List.mem_flatMap, Variable.mem_mentions,
      RuleInput.mem_mentions, Variable.mem_mentionsBeside]
    constructor
    · intro hor
      rcases hor with hdep | ⟨r, hr, ⟨i, hi, p, rfl, hp⟩ | ⟨c, hc, hfield, hne⟩⟩
      · exact .inl (.inl hdep)
      · exact .inl (.inr ⟨r, hr, p, hi, hp⟩)
      · exact .inr ⟨⟨c, ⟨r, hr, hc⟩, hfield⟩, hne⟩
    · intro heither
      rcases heither with (hdep | ⟨r, hr, p, hi, hp⟩) | ⟨⟨c, ⟨r, hr, hc⟩, hfield⟩, hne⟩
      · exact .inl hdep
      · exact .inr ⟨r, hr, .inl ⟨.value p, hi, p, rfl, hp⟩⟩
      · exact .inr ⟨r, hr, .inr ⟨c, hc, hfield, hne⟩⟩

end DepSchema
