/-
DepSchema.Span — places in the written schema.

Every node of a schema carries the span of text it stands for, and every name that is written
somewhere is an identifier: a name together with its span. Spans are only ever reported, never
compared by the checks.
-/
import DepSchema.Symbol

namespace DepSchema

/-- A stretch of text: where it starts and how long it is, in bytes. -/
structure Span where
  start : Nat
  length : Nat
  deriving Repr, DecidableEq

/-- A name and the place where it is written. -/
structure Ident where
  name : Symbol
  span : Span
  deriving Repr, DecidableEq

/-- Something under a name: the value of a field, the type of a parameter. -/
structure Named (α : Type) where
  name : Ident
  val : α
  deriving Repr, DecidableEq

/-- The value under a name, the first one where the name is repeated. -/
def Named.find? {α : Type} (items : List (Named α)) (name : Symbol) : Option α :=
  (items.find? fun item => item.name.name == name).map Named.val

theorem Named.find?_cons {α : Type} (item : Named α) (items : List (Named α)) (name : Symbol) :
    Named.find? (item :: items) name
      = if item.name.name = name then some item.val else Named.find? items name := by
  unfold Named.find?
  by_cases h : item.name.name = name <;> simp [h]

/-- What is found by a name has that name. -/
theorem Named.exists_of_find? {α : Type} {items : List (Named α)} {name : Symbol} {a : α}
    (h : Named.find? items name = some a) : ∃ f ∈ items, f.name.name = name ∧ f.val = a := by
  obtain ⟨f, hf, rfl⟩ := Option.map_eq_some_iff.mp h
  exact ⟨f, List.mem_of_find?_eq_some hf, by simpa using List.find?_some hf, rfl⟩

theorem Named.find?_isSome {α : Type} {items : List (Named α)} {name : Symbol} :
    (Named.find? items name).isSome ↔ name ∈ items.map fun item => item.name.name := by
  simp [Named.find?, List.find?_isSome]

/-- Among different names, every item is the first of its name. -/
theorem Named.find?_of_mem {α : Type} {items : List (Named α)} {f : Named α}
    (hn : (items.map fun item => item.name.name).Nodup) (hf : f ∈ items) :
    Named.find? items f.name.name = some f.val := by
  induction items with
  | nil => cases hf
  | cons item items ih =>
    rw [List.map_cons, List.nodup_cons] at hn
    unfold Named.find? at ih ⊢
    rcases List.mem_cons.mp hf with rfl | hf
    · simp
    · have hne : item.name.name ≠ f.name.name := by
        intro heq
        exact hn.1 (heq ▸ List.mem_map_of_mem (f := fun item => item.name.name) hf)
      rw [List.find?_cons_of_neg (by simpa using hne)]
      exact ih hn.2 hf

end DepSchema
