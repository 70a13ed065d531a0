/-
DepSchema.Scopes — nested scopes of names.

A stack of frames, each binding names to something. A name stands for its binding in the innermost
frame that has one; binding a name again in the same frame replaces what it stood for.

Main lemma: `find?_bind`, a binding changes what its own name stands for and nothing else.
-/
import DepSchema.Symbol

namespace DepSchema

/-- Frames of bindings, the innermost first. -/
structure Scopes (α : Type) where
  frames : List (List (Symbol × α))
  deriving Repr

namespace Scopes

variable {α : Type}

/-! ## §1. Frames and bindings. -/

/-- No frame at all. -/
def none : Scopes α := ⟨[]⟩

/-- One frame without bindings. -/
def single : Scopes α := ⟨[[]]⟩

/-- The number of open frames. -/
def depth (s : Scopes α) : Nat := s.frames.length

/-- Opens a frame. -/
def push (s : Scopes α) : Scopes α := ⟨[] :: s.frames⟩

/-- Closes the innermost frame, with all its bindings. -/
def pop (s : Scopes α) : Scopes α := ⟨s.frames.tail⟩

/-- What a name stands for. -/
def find? (s : Scopes α) (name : Symbol) : Option α := s.frames.findSome? (·.lookup name)

/-- Whether a name stands for anything. -/
def contains (s : Scopes α) (name : Symbol) : Bool := (s.find? name).isSome

/-- A frame in which the name stands for `a`. -/
def insertInto (name : Symbol) (a : α) (frame : List (Symbol × α)) : List (Symbol × α) :=
  (name, a) :: frame.filter fun p => p.1 != name

/-- Binds a name in the frame that is `k` frames further out than the innermost one. -/
def bindOut (s : Scopes α) (k : Nat) (name : Symbol) (a : α) : Scopes α :=
  ⟨s.frames.modify k (insertInto name a)⟩

/-- Binds a name in the innermost frame. -/
def bind (s : Scopes α) (name : Symbol) (a : α) : Scopes α := s.bindOut 0 name a

/-- All bindings, those of the outermost frame first. -/
def toList (s : Scopes α) : List (Symbol × α) := s.frames.reverse.flatten

/-! ## §2. What a name stands for afterwards. -/

@[simp] theorem depth_push (s : Scopes α) : s.push.depth = s.depth + 1 := rfl

@[simp] theorem pop_push (s : Scopes α) : s.push.pop = s := rfl

/-- A new frame hides nothing. -/
@[simp] theorem find?_push (s : Scopes α) (name : Symbol) : s.push.find? name = s.find? name := rfl

theorem lookup_filter_ne {name other : Symbol} (h : name ≠ other) (frame : List (Symbol × α)) :
    (frame.filter fun p => p.1 != other).lookup name = frame.lookup name := by
  induction frame with
  | nil => rfl
  | cons p frame ih =>
    obtain ⟨key, a⟩ := p
    by_cases hk : key = other
    · subst hk
      have hn : (name == key) = false := by simpa using h
      simp [List.lookup_cons, ih, hn]
    · simp [List.lookup_cons, ih, hk]

theorem lookup_insertInto (name other : Symbol) (a : α) (frame : List (Symbol × α)) :
    (insertInto other a frame).lookup name
      = if name = other then some a else frame.lookup name := by
  by_cases h : name = other
  · subst h
    simp [insertInto]
  · have hn : (name == other) = false := by simpa using h
    simp [insertInto, List.lookup_cons, hn, h, lookup_filter_ne h]

/-- **A binding changes what its own name stands for and nothing else**, as long as there is a
frame to take it. -/
theorem find?_bind {s : Scopes α} (h : s.frames ≠ []) (name other : Symbol) (a : α) :
    (s.bind other a).find? name = if name = other then some a else s.find? name := by
  obtain ⟨frames⟩ := s
  cases frames with
  | nil => exact absurd rfl h
  | cons frame frames =>
    by_cases hn : name = other <;>
      simp [bind, bindOut, find?, List.findSome?_cons, lookup_insertInto, hn]

/-- What holds of the new binding and of all those before holds of all bindings. -/
theorem forall_find?_bind {s : Scopes α} (h : s.frames ≠ []) {P : Symbol → α → Prop}
    {other : Symbol} {a : α} (ha : P other a) (hs : ∀ name b, s.find? name = some b → P name b) :
    ∀ name b, (s.bind other a).find? name = some b → P name b := by
  intro name b hb
  rw [find?_bind h] at hb
  by_cases hname : name = other
  · rw [if_pos hname] at hb
    cases hb
    exact hname ▸ ha
  · rw [if_neg hname] at hb
    exact hs name b hb

theorem bind_open {s : Scopes α} (h : s.frames ≠ []) (name : Symbol) (a : α) :
    (s.bind name a).frames ≠ [] := by
  simpa [bind, bindOut] using h

end Scopes

end DepSchema
