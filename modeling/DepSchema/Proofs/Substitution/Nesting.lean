/-
DepSchema.Proofs.Substitution.Nesting — what a variable stands for after a run of operations.

A run opens and closes scopes and binds variables. Its level rises with every scope that is opened
and falls with every one that is closed. A stretch is *contained* if on the way it never closes a
scope that it did not open, and *balanced* if it closes in addition all that it opened. A binding
*stands* at the end of a run if the stretch behind it is contained: its scope is still open. Among
all those of a variable, the latest one in the innermost scope is what the variable stands for.

A balanced stretch in a scope of its own leaves the substitution as it was. A scope that is closed
was opened somewhere, with a balanced stretch in between, so a run that ends with closing a scope
ends like the run up to where that scope was opened. This is the step of the induction that does
not only look at the last operation.

Main definitions: `Contained`, `Stands` and `IsLatest`. Main results: `run_block`,
`exists_block` and `find?_iff_isLatest`.
-/
import Mathlib
import DepSchema.Proofs.Substitution.Idempotence

namespace DepSchema.Substitution

/-! ## §1. Operations. -/

/-- What can be done with a substitution. -/
inductive Operation where
  | push
  | pop
  /-- Binds a variable to an expression under the bindings that are there. -/
  | add (name : Symbol) (e : Expr)
  /-- Binds a variable to an expression as it is. -/
  | bind (name : Symbol) (e : Expr)
  deriving Repr

/-- The substitution after an operation. An addition that fails leaves it as it was. -/
def perform (σ : Substitution) : Operation → Substitution
  | .push => σ.push
  | .pop => σ.pop
  | .add name e =>
    match σ.add name e with
    | .ok σ' => σ'
    | .error _ => σ
  | .bind name e => σ.bind name e

/-- The substitution after several operations. -/
def run (σ : Substitution) (ops : List Operation) : Substitution := ops.foldl perform σ

/-- The variable that an operation binds, and what it binds it to. -/
def bound? (σ : Substitution) : Operation → Option (Symbol × Expr)
  | .push => none
  | .pop => none
  | .add name e => (σ.apply e).toOption.map fun e' => (name, e')
  | .bind name e => some (name, e)

/-- How many more scopes are open after an operation. -/
def Operation.shift : Operation → Int
  | push => 1
  | pop => -1
  | add _ _ => 0
  | bind _ _ => 0

/-- How many more scopes are open after several operations. -/
def level (ops : List Operation) : Int := (ops.map Operation.shift).sum

/-- No scope is closed on the way that was not opened on the way. -/
def Contained (ops : List Operation) : Prop := ∀ before ∈ ops.inits, 0 ≤ level before

/-- Every scope that is opened on the way is closed again, and no other one is. -/
structure Balanced (ops : List Operation) : Prop where
  contained : Contained ops
  level : level ops = 0

instance (ops : List Operation) : Decidable (Contained ops) :=
  inferInstanceAs (Decidable (∀ before ∈ ops.inits, 0 ≤ level before))

variable {σ : Substitution} {ops before after inner : List Operation} {op : Operation}
  {name : Symbol} {e : Expr}

/-! ## §2. Levels. -/

@[simp] theorem level_nil : level [] = 0 := rfl

@[simp] theorem level_cons (op : Operation) (ops : List Operation) :
    level (op :: ops) = op.shift + level ops := by
  simp [level]

@[simp] theorem level_append (before after : List Operation) :
    level (before ++ after) = level before + level after := by
  simp [level]

theorem contained_iff : Contained ops ↔ ∀ before, before <+: ops → 0 ≤ level before := by
  simp [Contained]

theorem Contained.level_nonneg (h : Contained ops) : 0 ≤ level ops :=
  contained_iff.mp h ops List.prefix_rfl

theorem Contained.left (h : Contained (before ++ after)) : Contained before :=
  contained_iff.mpr fun p hp => contained_iff.mp h p (hp.trans (List.prefix_append before after))

theorem contained_nil : Contained [] := by decide

theorem contained_concat :
    Contained (ops ++ [op]) ↔ Contained ops ∧ 0 ≤ level (ops ++ [op]) := by
  constructor
  · exact fun h => ⟨h.left, h.level_nonneg⟩
  · rintro ⟨hops, hlevel⟩
    refine contained_iff.mpr fun p hp => ?_
    rcases List.prefix_concat_iff.mp hp with rfl | hp
    · exact hlevel
    · exact contained_iff.mp hops p hp

theorem Contained.append (h : Contained before) (h' : Contained after) :
    Contained (before ++ after) := by
  induction after using List.reverseRecOn with
  | nil => rwa [List.append_nil]
  | append_singleton after op ih =>
    have hlast := (contained_concat.mp h').2
    have hfirst := h.level_nonneg
    rw [← List.append_assoc, contained_concat]
    refine ⟨ih h'.left, ?_⟩
    rw [List.append_assoc, level_append]
    omega

/-- A scope of its own around a balanced stretch. -/
theorem Balanced.block (h : Balanced inner) : Balanced (.push :: inner ++ [.pop]) := by
  have hpush : Contained [.push] := by decide
  have hlevel := h.level
  refine ⟨contained_concat.mpr ⟨hpush.append h.contained, ?_⟩, ?_⟩ <;>
  · simp only [List.cons_append, level_cons, level_append, level_nil, Operation.shift]
    omega

theorem Balanced.append (h : Balanced before) (h' : Balanced after) :
    Balanced (before ++ after) := by
  refine ⟨h.contained.append h'.contained, ?_⟩
  rw [level_append, h.level, h'.level]
  rfl

/-- **A scope that is open was opened somewhere**, with a balanced stretch behind. -/
theorem exists_block (h : 1 ≤ level ops) :
    ∃ before block, ops = before ++ .push :: block ∧ Balanced block := by
  -- from the end: a scope that is closed there was opened before, with another one still open
  induction hn : ops.length using Nat.strong_induction_on generalizing ops with
  | _ n ih =>
    subst hn
    rcases List.eq_nil_or_concat ops with rfl | ⟨rest, op, rfl⟩
    · simp at h
    · rw [List.concat_eq_append] at h ih ⊢
      have hflat : op.shift = 0 →
          ∃ before block, rest ++ [op] = before ++ .push :: block ∧ Balanced block := by
        intro hshift
        rw [level_append, level_cons, hshift, level_nil] at h
        obtain ⟨before, block, rfl, hblock⟩ := ih rest.length (by simp) (by omega) rfl
        have hop : Balanced [op] := by
          refine ⟨contained_concat.mpr ⟨contained_nil, ?_⟩, ?_⟩ <;> simp [hshift]
        exact ⟨before, block ++ [op], by simp, hblock.append hop⟩
      cases op with
      | push => exact ⟨rest, [], rfl, contained_nil, rfl⟩
      | add name e => exact hflat rfl
      | bind name e => exact hflat rfl
      | pop =>
        rw [level_append, level_cons, level_nil] at h
        simp only [Operation.shift] at h
        obtain ⟨before, inner, rfl, hinner⟩ := ih rest.length (by simp) (by omega) rfl
        have hlevel := hinner.level
        rw [level_append, level_cons] at h
        simp only [Operation.shift] at h
        obtain ⟨outer, block, rfl, hblock⟩ := ih before.length (by simp) (by omega) rfl
        exact ⟨outer, block ++ (.push :: inner ++ [.pop]), by simp, hblock.append hinner.block⟩

/-! ## §3. Frames. -/

@[simp] theorem run_nil (σ : Substitution) : σ.run [] = σ := rfl

theorem run_append (σ : Substitution) (before after : List Operation) :
    σ.run (before ++ after) = (σ.run before).run after :=
  List.foldl_append

theorem run_concat (σ : Substitution) (ops : List Operation) (op : Operation) :
    σ.run (ops ++ [op]) = (σ.run ops).perform op :=
  run_append σ ops [op]

/-- An operation that binds a variable adds the binding, and another one that opens and closes
nothing does nothing. -/
theorem perform_of_shift (σ : Substitution) (h : op.shift = 0) :
    σ.perform op = match σ.bound? op with
      | some (name, e) => σ.bind name e
      | none => σ := by
  cases op with
  | push => cases h
  | pop => cases h
  | bind name e => rfl
  | add name e =>
    simp only [perform, bound?, Substitution.add]
    cases σ.apply e <;> rfl

theorem shift_of_bound? {p : Symbol × Expr} (h : σ.bound? op = some p) : op.shift = 0 := by
  cases op with
  | push => cases h
  | pop => cases h
  | add name e => rfl
  | bind name e => rfl

theorem frames_bind {top outer : List (List (Symbol × Expr))} (hσ : σ.scopes.frames = top ++ outer)
    (htop : top ≠ []) (name : Symbol) (e : Expr) :
    ∃ top', (σ.bind name e).scopes.frames = top' ++ outer ∧ top'.length = top.length := by
  obtain ⟨frame, frames, rfl⟩ := List.exists_cons_of_ne_nil htop
  refine ⟨Scopes.insertInto name e frame :: frames, ?_, rfl⟩
  show σ.scopes.frames.modify 0 (Scopes.insertInto name e) = _
  rw [hσ, List.cons_append, List.modify_zero_cons]
  rfl

/-- **A contained stretch leaves the scopes alone that were open before**, apart from the innermost
ones, of which at least one was open. -/
theorem frames_run {top outer : List (List (Symbol × Expr))} (hσ : σ.scopes.frames = top ++ outer)
    (htop : top ≠ []) (h : Contained ops) :
    ∃ top', (σ.run ops).scopes.frames = top' ++ outer
      ∧ (top'.length : Int) = top.length + level ops := by
  induction ops using List.reverseRecOn with
  | nil => exact ⟨top, hσ, by simp⟩
  | append_singleton ops op ih =>
    obtain ⟨hops, hlevel⟩ := contained_concat.mp h
    obtain ⟨mid, hmid, hlength⟩ := ih hops
    have hpos := List.length_pos_of_ne_nil htop
    have hmore := hops.level_nonneg
    have hopen : mid ≠ [] := by
      rintro rfl
      simp only [List.length_nil] at hlength
      omega
    rw [run_concat]
    simp only [level_append, level_cons, level_nil] at hlevel ⊢
    have hflat : op.shift = 0 → ∃ top', ((σ.run ops).perform op).scopes.frames = top' ++ outer
        ∧ (top'.length : Int) = top.length + (level ops + (op.shift + 0)) := by
      intro hshift
      rw [perform_of_shift _ hshift, hshift]
      cases (σ.run ops).bound? op with
      | none => exact ⟨mid, hmid, by omega⟩
      | some p =>
        obtain ⟨top', hframes, hsame⟩ := frames_bind hmid hopen p.1 p.2
        exact ⟨top', hframes, by omega⟩
    cases op with
    | add name e => exact hflat rfl
    | bind name e => exact hflat rfl
    | push =>
      refine ⟨[] :: mid, ?_, ?_⟩
      · show [] :: (σ.run ops).scopes.frames = _
        rw [hmid, List.cons_append]
      · simp only [List.length_cons, Operation.shift]
        omega
    | pop =>
      simp only [Operation.shift] at hlevel ⊢
      obtain ⟨frame, frames, rfl⟩ := List.exists_cons_of_ne_nil hopen
      simp only [List.length_cons] at hlength
      refine ⟨frames, ?_, by omega⟩
      -- the scope that is closed is not the outermost one, since one of the first is left
      have hdepth : (σ.run ops).scopes.depth > 1 := by
        unfold Scopes.depth
        rw [hmid]
        simp only [List.cons_append, List.length_cons, List.length_append]
        omega
      show (σ.run ops).pop.scopes.frames = _
      unfold pop
      rw [if_pos hdepth]
      show (σ.run ops).scopes.frames.tail = _
      rw [hmid]
      rfl

/-- Some scope is open after every run. -/
theorem run_open (hσ : σ.scopes.frames ≠ []) (h : Contained ops) :
    (σ.run ops).scopes.frames ≠ [] := by
  obtain ⟨top, hframes, hlength⟩ := frames_run (List.append_nil _).symm hσ h
  have hpos := List.length_pos_of_ne_nil hσ
  have hmore := h.level_nonneg
  intro hnil
  rw [hnil, List.append_nil] at hframes
  rw [← hframes, List.length_nil] at hlength
  omega

/-- **A balanced stretch in a scope of its own leaves the substitution as it was.** -/
theorem run_block (hσ : σ.scopes.frames ≠ []) (h : Balanced inner) :
    σ.run (.push :: inner ++ [.pop]) = σ := by
  have hpush : σ.push.scopes.frames = [[]] ++ σ.scopes.frames := rfl
  obtain ⟨top, hframes, hlength⟩ := frames_run hpush (by simp) h.contained
  rw [h.level, List.length_singleton] at hlength
  -- one frame more than before, which is closed
  obtain ⟨frame, rfl⟩ := List.length_eq_one_iff.mp (by omega : top.length = 1)
  have hpos := List.length_pos_of_ne_nil hσ
  have hdepth : (σ.push.run inner).scopes.depth > 1 := by
    unfold Scopes.depth
    rw [hframes, List.length_append, List.length_singleton]
    omega
  rw [run_concat]
  show (σ.push.run inner).pop = σ
  unfold pop
  rw [if_pos hdepth]
  obtain ⟨⟨frames⟩⟩ := σ
  show Substitution.mk ⟨_⟩ = _
  rw [hframes]
  rfl

/-! ## §4. Bindings whose scope is still open. -/

/-- In a run from no bindings at all, the variable is bound to `e` right after `before`, and the
scope that takes the binding is still open at the end. The level of `before` tells which scope it
is. -/
def Stands (ops : List Operation) (name : Symbol) (before : List Operation) (e : Expr) : Prop :=
  ∃ op after, ops = before ++ op :: after ∧ (empty.run before).bound? op = some (name, e)
    ∧ Contained after

/-- Among the bindings of the variable whose scope is still open, this is one in the innermost scope
that has any, and there the latest one. -/
structure IsLatest (ops : List Operation) (name : Symbol) (before : List Operation) (e : Expr) :
    Prop where
  stands : Stands ops name before e
  innermost : ∀ other e', Stands ops name other e' → level other ≤ level before
  latest : ∀ other e', Stands ops name other e' → level other = level before →
    other.length ≤ before.length

/-- What is found for a variable at the end of a run is bound there at last, or else no binding of
it stands. -/
def Shows (ops : List Operation) (name : Symbol) : Option Expr → Prop
  | some e => ∃ before, IsLatest ops name before e
  | none => ∀ before e, ¬ Stands ops name before e

/-- Where the same bindings stand, the same one is the latest. -/
theorem Shows.of_iff {ops' : List Operation} {o : Option Expr} (h : Shows ops name o)
    (hiff : ∀ before e, Stands ops' name before e ↔ Stands ops name before e) :
    Shows ops' name o := by
  cases o with
  | none => exact fun before e hstands => h before e ((hiff before e).mp hstands)
  | some e =>
    obtain ⟨before, hlatest⟩ := h
    refine ⟨before, (hiff before e).mpr hlatest.stands, fun other e' hother => ?_,
      fun other e' hother => ?_⟩
    · exact hlatest.innermost other e' ((hiff other e').mp hother)
    · exact hlatest.latest other e' ((hiff other e').mp hother)

/-- Closing no scope at the end, a run keeps the bindings that stand, and may add one. -/
theorem stands_concat (hshift : 0 ≤ op.shift) :
    Stands (ops ++ [op]) name before e
      ↔ Stands ops name before e ∨ before = ops ∧ (empty.run ops).bound? op = some (name, e) := by
  constructor
  · rintro ⟨op', after, hsplit, hbound, hafter⟩
    rcases List.eq_nil_or_concat after with rfl | ⟨rest, last, rfl⟩
    · -- the binding is the last operation
      obtain ⟨rfl, hlast⟩ := List.append_inj' hsplit rfl
      cases hlast
      exact .inr ⟨rfl, hbound⟩
    · rw [List.concat_eq_append, ← List.cons_append, ← List.append_assoc] at hsplit
      obtain ⟨rfl, hlast⟩ := List.append_inj' hsplit rfl
      rw [List.concat_eq_append] at hafter
      exact .inl ⟨op', rest, rfl, hbound, hafter.left⟩
  · rintro (⟨op', after, rfl, hbound, hafter⟩ | ⟨rfl, hbound⟩)
    · have hmore := hafter.level_nonneg
      refine ⟨op', after ++ [op], by simp, hbound, contained_concat.mpr ⟨hafter, ?_⟩⟩
      simp only [level_append, level_cons, level_nil]
      omega
    · exact ⟨op, [], rfl, hbound, contained_nil⟩

/-- Inside a balanced stretch in a scope of its own, that scope is open. -/
theorem level_inside (h : Balanced inner) {done : List Operation} (hshift : op.shift = 0)
    (hsplit : .push :: inner ++ [.pop] = done ++ op :: after) : 1 ≤ level done := by
  have hdone : done <+: .push :: inner ++ [.pop] := ⟨op :: after, hsplit.symm⟩
  rcases List.prefix_concat_iff.mp hdone with rfl | hdone
  · -- something comes behind `done`
    simp at hsplit
  · rcases List.prefix_cons_iff.mp hdone with rfl | ⟨rest, rfl, hrest⟩
    · -- the first operation opens the scope and binds nothing
      cases hsplit
      cases hshift
    · have hrest := contained_iff.mp h.contained rest hrest
      rw [level_cons]
      simp only [Operation.shift]
      omega

/-- **No binding inside a scope that is closed stands**, and all those before do. -/
theorem stands_block (h : Balanced inner) :
    Stands (ops ++ (.push :: inner ++ [.pop])) name before e ↔ Stands ops name before e := by
  have hblock := h.block
  constructor
  · rintro ⟨op, after, hsplit, hbound, hafter⟩
    have hshift := shift_of_bound? hbound
    rcases List.append_eq_append_iff.mp hsplit with ⟨done, rfl, hrest⟩ | ⟨rest, rfl, hrest⟩
    · -- behind a binding inside the scope the scope is closed
      have hinside := level_inside h hshift hrest
      have hlevel := hblock.level
      have hclosed := hafter.level_nonneg
      rw [hrest, level_append, level_cons, hshift] at hlevel
      omega
    · cases rest with
      | nil =>
        cases hrest
        cases hshift
      | cons first rest =>
        obtain ⟨rfl, rfl⟩ := List.cons.inj hrest
        exact ⟨op, rest, rfl, hbound, hafter.left⟩
  · rintro ⟨op, after, rfl, hbound, hafter⟩
    exact ⟨op, after ++ (.push :: inner ++ [.pop]), by simp, hbound, hafter.append hblock.contained⟩

/-! ## §5. Runs. -/

/-- A binding that stands was made at a level that is still open. -/
theorem Stands.level_le (h : Stands ops name before e) : level before ≤ level ops := by
  obtain ⟨op, after, rfl, hbound, hafter⟩ := h
  have hmore := hafter.level_nonneg
  rw [level_append, level_cons, shift_of_bound? hbound]
  omega

theorem Stands.length_lt (h : Stands ops name before e) : before.length < ops.length := by
  obtain ⟨op, after, rfl, -, -⟩ := h
  rw [List.length_append, List.length_cons]
  omega

/-- **What a variable stands for after a run is what it was bound to last in the innermost open
scope that binds it.** -/
theorem shows_run (h : Contained ops) : Shows ops name ((empty.run ops).find? name) := by
  -- on the length: a run that ends by closing a scope ends like the part before that scope
  induction hn : ops.length using Nat.strong_induction_on generalizing ops with
  | _ n ih =>
    subst hn
    rcases List.eq_nil_or_concat ops with rfl | ⟨rest, op, rfl⟩
    · rintro before e ⟨op, after, hsplit, -⟩
      simp at hsplit
    · rw [List.concat_eq_append] at h ih ⊢
      have hrest := ih rest.length (by simp) h.left rfl
      have hopen := run_open empty_open h.left
      have hflat : op.shift = 0 →
          Shows (rest ++ [op]) name ((empty.run (rest ++ [op])).find? name) := by
        intro hshift
        have hstands : ∀ before e, Stands (rest ++ [op]) name before e
            ↔ Stands rest name before e
              ∨ before = rest ∧ (empty.run rest).bound? op = some (name, e) :=
          fun before e => stands_concat (by omega)
        rw [run_concat, perform_of_shift _ hshift]
        cases hbound : (empty.run rest).bound? op with
        | none =>
          simp only [hbound, reduceCtorEq, and_false, or_false] at hstands
          exact hrest.of_iff hstands
        | some p =>
          obtain ⟨key, value⟩ := p
          show Shows _ _ (((empty.run rest).bind key value).find? name)
          rw [show ((empty.run rest).bind key value).find? name = _ from
            Scopes.find?_bind hopen name key value]
          by_cases hname : name = key
          · -- the binding at the end is made in the innermost scope, and after all others
            subst hname
            rw [if_pos rfl]
            refine ⟨rest, (hstands rest value).mpr (.inr ⟨rfl, hbound⟩), ?_, ?_⟩
            · intro other e' hother
              rcases (hstands other e').mp hother with hother | ⟨rfl, -⟩
              · exact hother.level_le
              · exact le_refl _
            · intro other e' hother _
              rcases (hstands other e').mp hother with hother | ⟨rfl, -⟩
              · exact hother.length_lt.le
              · exact le_refl _
          · rw [if_neg hname]
            refine hrest.of_iff fun before e => (hstands before e).trans (or_iff_left ?_)
            rintro ⟨-, heq⟩
            rw [hbound] at heq
            cases heq
            exact hname rfl
      cases op with
      | add key value => exact hflat rfl
      | bind key value => exact hflat rfl
      | push =>
        rw [run_concat]
        refine hrest.of_iff fun before e => (stands_concat (by decide)).trans (or_iff_left ?_)
        rintro ⟨-, heq⟩
        cases heq
      | pop =>
        have hlevel := h.level_nonneg
        simp only [level_append, level_cons, level_nil, Operation.shift] at hlevel
        obtain ⟨outer, inner, rfl, hinner⟩ := exists_block (by omega : 1 ≤ level rest)
        have hsplit : outer ++ .push :: inner ++ [.pop] = outer ++ (.push :: inner ++ [.pop]) := by
          simp
        have hcontained : Contained outer := h.left.left
        rw [hsplit, run_append, run_block (run_open empty_open hcontained) hinner]
        refine (ih outer.length (by simp) hcontained rfl).of_iff fun before e => ?_
        exact stands_block hinner

/-- Only one binding is the latest. -/
theorem IsLatest.unique {before' : List Operation} {e' : Expr} (h : IsLatest ops name before e)
    (h' : IsLatest ops name before' e') : before = before' ∧ e = e' := by
  have hlevel := le_antisymm (h'.innermost _ _ h.stands) (h.innermost _ _ h'.stands)
  have hlength := le_antisymm (h'.latest _ _ h.stands hlevel) (h.latest _ _ h'.stands hlevel.symm)
  obtain ⟨op, after, hsplit, hbound, -⟩ := h.stands
  obtain ⟨op', after', hsplit', hbound', -⟩ := h'.stands
  obtain ⟨rfl, hrest⟩ := List.append_inj (hsplit.symm.trans hsplit') hlength
  obtain ⟨rfl, -⟩ := List.cons.inj hrest
  rw [hbound] at hbound'
  cases hbound'
  exact ⟨rfl, rfl⟩

theorem find?_eq_none_iff_stands (h : Contained ops) :
    (empty.run ops).find? name = none ↔ ∀ before e, ¬ Stands ops name before e := by
  have hshows : Shows ops name ((empty.run ops).find? name) := shows_run h
  constructor
  · intro hfind
    rw [hfind] at hshows
    exact hshows
  · intro hstands
    cases hfind : (empty.run ops).find? name with
    | none => rfl
    | some e =>
      rw [hfind] at hshows
      obtain ⟨before, hlatest⟩ := hshows
      exact absurd hlatest.stands (hstands before e)

theorem find?_iff_isLatest (h : Contained ops) :
    (empty.run ops).find? name = some e ↔ ∃ before, IsLatest ops name before e := by
  have hshows : Shows ops name ((empty.run ops).find? name) := shows_run h
  constructor
  · intro hfind
    rw [hfind] at hshows
    exact hshows
  · rintro ⟨before, hlatest⟩
    cases hfind : (empty.run ops).find? name with
    | none =>
      rw [hfind] at hshows
      exact absurd hlatest.stands (hshows before e)
    | some e' =>
      rw [hfind] at hshows
      obtain ⟨before', hlatest'⟩ := hshows
      rw [(hlatest'.unique hlatest).2]

/-- Variables stand for the same, and expressions and types that they occur in become the same or
fail alike. -/
structure ReadsLike (σ τ : Substitution) : Prop where
  find? : ∀ name, σ.find? name = τ.find? name
  apply : ∀ e, σ.apply e = τ.apply e
  applyType : ∀ t, σ.applyType t = τ.applyType t

theorem ReadsLike.of_eq {τ : Substitution} (h : σ = τ) : σ.ReadsLike τ := by
  subst h
  exact ⟨fun _ => rfl, fun _ => rfl, fun _ => rfl⟩

/-- **Scopes nest.** A variable stands for what it was bound to last in the innermost open scope
that binds it, and for nothing if no open scope does. Whatever is bound in a scope of its own, once
that scope is closed all reads as before. So it does after an addition that fails. -/
theorem scopes_nest (h : Contained ops) :
    (∀ name e, (empty.run ops).find? name = some e ↔ ∃ before, IsLatest ops name before e)
      ∧ (∀ name, (empty.run ops).find? name = none ↔ ∀ before e, ¬ Stands ops name before e)
      ∧ (∀ inner, Balanced inner →
        (empty.run (ops ++ .push :: inner ++ [.pop])).ReadsLike (empty.run ops))
      ∧ ∀ name e err, (empty.run ops).add name e = .error err →
        (empty.run (ops ++ [.add name e])).ReadsLike (empty.run ops) := by
  refine ⟨fun _ _ => find?_iff_isLatest h, fun _ => find?_eq_none_iff_stands h, ?_, ?_⟩
  · intro inner hinner
    refine .of_eq ?_
    rw [List.append_assoc, run_append, run_block (run_open empty_open h) hinner]
  · intro name e err herror
    refine .of_eq ?_
    rw [run_concat, perform, herror]

namespace Example

/-- A whole number. -/
def number (n : Nat) : Expr := .scalar ⟨0, 0⟩ (.unsigned n.toUInt64)

/-- The variable 7 is bound in three scopes, one of which is closed again, and twice in the second
one. The variable 13 is bound to what 7 stood for, and then not to a field of a number. -/
def rebound : List Operation :=
  [.bind ⟨7⟩ (point (number 0)), .push, .add ⟨7⟩ (chain 7 [8]), .push, .bind ⟨7⟩ (number 1), .pop,
    .add ⟨13⟩ (chain 7 []), .bind ⟨7⟩ (number 2), .add ⟨13⟩ (chain 7 [8])]

/-- Both variables are bound anew, one of them in a further scope. -/
def inside : List Operation := [.bind ⟨13⟩ (number 3), .push, .bind ⟨7⟩ (number 4), .pop]

end Example

open Example

/-- The second number that 7 is bound to in the open scope counts; 13 keeps the first one. -/
theorem scopes_nest_rebound :
    Contained rebound
      ∧ (empty.run rebound).find? ⟨7⟩ = some (number 2)
      ∧ (∃ before, IsLatest rebound ⟨7⟩ before (number 2))
      ∧ (∃ before, IsLatest rebound ⟨13⟩ before (number 0))
      ∧ (∀ before e, ¬ Stands rebound ⟨8⟩ before e)
      ∧ Balanced inside
      ∧ (empty.run (rebound ++ .push :: inside ++ [.pop])).ReadsLike (empty.run rebound)
      ∧ (empty.run rebound).add ⟨13⟩ (chain 7 [8]) = .error ⟨.scalar, ⟨⟨8⟩, ⟨0, 0⟩⟩⟩
      ∧ (empty.run (rebound ++ [.add ⟨13⟩ (chain 7 [8])])).ReadsLike (empty.run rebound) := by
  have hcontained : Contained rebound := by decide
  have hinside : Balanced inside := ⟨by decide, by decide⟩
  have herror : (empty.run rebound).add ⟨13⟩ (chain 7 [8]) = .error ⟨.scalar, ⟨⟨8⟩, ⟨0, 0⟩⟩⟩ := rfl
  obtain ⟨hsome, hnone, hblock, hfailed⟩ := scopes_nest hcontained
  exact ⟨hcontained, rfl, (hsome _ _).mp rfl, (hsome _ _).mp rfl, (hnone _).mp rfl, hinside,
    hblock inside hinside, herror, hfailed _ _ _ herror⟩

end DepSchema.Substitution
