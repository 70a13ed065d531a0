/-
DepSchema.Proofs.Typing.Passes — a schema passes when each of its declarations does.

The check of a declaration leaves the scopes empty, as it found them. If what it finds depends on
nothing but the scopes, neither on what the oracle was asked before nor on the log, then each
declaration may as well be checked alone, and a whole schema passes exactly when its visit order is
complete and every type of it and every function passes.

Main results: `decides_checkSchema`, `Schema.typing_iff_passes` and `Schema.passed_of_typing`.
-/
import DepSchema.Proofs.Registry
import DepSchema.Proofs.Typing.Frame

namespace DepSchema

/-- Nothing is in scope, nothing is substituted, no rule input is being read. -/
structure Checking.Fresh (s : Checking) : Prop where
  scopes : s.scopes = .single
  substitution : s.substitution = .empty
  readingInput : s.readingInput = false

theorem Checking.fresh_start : Checking.start.Fresh := ⟨rfl, rfl, rfl⟩

namespace Check

variable {α β : Type} {c : Setting}

/-! ## §1. What a check decides. -/

/-- The check gives a result when it is run alone. -/
def Passes (c : Setting) (x : Check α) : Prop := ∃ a, (x c .start).1 = .ok a

/-- From every fresh state, the check gives a result exactly if `p`. -/
def Decides (c : Setting) (x : Check α) (p : Prop) : Prop :=
  ∀ s, s.Fresh → ((∃ a, (x c s).1 = .ok a) ↔ p)

/-- A quiet check keeps a state fresh. -/
theorem Quiet.fresh {x : Check α} (hx : x.Quiet) {s : Checking} (hs : s.Fresh) :
    (x c s).2.Fresh := by
  have hopen : s.substitution.scopes.frames ≠ [] := by
    rw [hs.substitution]
    simp [Substitution.empty, Scopes.single]
  -- no rule input is being read, so nothing at all was bound
  have hstill := hx c s hopen
  refine ⟨?_, ?_, ?_⟩
  · rw [hstill.scopes hs.readingInput, hs.scopes]
  · rw [hstill.substitution, hs.substitution]
  · rw [hstill.readingInput, hs.readingInput]

theorem Quiet.fresh_of_run {x : Check α} (hx : x.Quiet) {s t : Checking}
    {r : Except Diagnostic α} (hs : s.Fresh) (h : x c s = (r, t)) : t.Fresh := by
  have hfresh := hx.fresh (c := c) hs
  rwa [h] at hfresh

/-- The check gave a result in some fresh state. -/
def Passed (c : Setting) (x : Check α) : Prop := ∃ s, s.Fresh ∧ ∃ a t, x c s = (.ok a, t)

/-- Where one check after the other gave a result, the first one passed and the second one went on
from a fresh state. -/
theorem Passed.of_seq {x : Check Unit} {y : Check β} {s u : Checking} {b : β} (hquiet : x.Quiet)
    (hs : s.Fresh) (h : (x >>= fun _ => y) c s = (.ok b, u)) :
    Passed c x ∧ ∃ t, t.Fresh ∧ y c t = (.ok b, u) := by
  obtain ⟨a, t, hx, hy⟩ := bind_eq_ok h
  exact ⟨⟨s, hs, a, t, hx⟩, t, hquiet.fresh_of_run hs hx, hy⟩

theorem Passed.of_forM {f : α → Check Unit} (hquiet : ∀ a, Quiet (f a)) {as : List α} :
    ∀ {s u : Checking}, s.Fresh → as.forM f c s = (.ok (), u) → ∀ a ∈ as, Passed c (f a) := by
  induction as with
  | nil => simp
  | cons a as ih =>
    intro s u hs h
    obtain ⟨hfirst, t, ht, hrest⟩ := of_seq (hquiet a) hs h
    exact List.forall_mem_cons.mpr ⟨hfirst, ih ht hrest⟩

theorem Decides.pure (a : α) : Decides c (pure a) True :=
  fun _ _ => ⟨fun _ => trivial, fun _ => ⟨a, rfl⟩⟩

/-- **One check after the other passes when both do.** -/
theorem Decides.seq {x : Check Unit} {y : Check β} {p q : Prop} (hquiet : x.Quiet)
    (hx : Decides c x p) (hy : Decides c y q) : Decides c (x >>= fun _ => y) (p ∧ q) := by
  intro s hs
  have hfresh := hquiet.fresh (c := c) hs
  have hfirst := hx s hs
  rcases hrun : x c s with ⟨d | u, t⟩ <;> rw [hrun] at hfresh hfirst
  · -- the first check failed, and the second one is not run
    have hno : ¬p := by
      rw [← hfirst]
      intro h
      obtain ⟨a, ha⟩ := h
      cases ha
    rw [bind_error hrun]
    constructor
    · intro hgiven
      obtain ⟨a, ha⟩ := hgiven
      cases ha
    · exact fun hpq => absurd hpq.1 hno
  · have hyes : p := hfirst.mp ⟨u, rfl⟩
    rw [bind_ok hrun, hy t hfresh]
    exact ⟨fun hq => ⟨hyes, hq⟩, fun hpq => hpq.2⟩

theorem Decides.forM {f : α → Check Unit} {p : α → Prop} (hquiet : ∀ a, Quiet (f a))
    (hf : ∀ a, Decides c (f a) (p a)) (as : List α) :
    Decides c (as.forM f) (∀ a ∈ as, p a) := by
  induction as with
  | nil =>
    intro s _
    exact ⟨fun _ => by simp, fun _ => ⟨(), rfl⟩⟩
  | cons a as ih =>
    rw [List.forall_mem_cons]
    exact .seq (hquiet a) (hf a) ih

end Check

/-! ## §2. Schemas. -/

namespace Typing

open Check

variable {c : Setting}

theorem decides_checkTypes (h : ∀ d, Decides c (checkTypeDef d) (Passes c (checkTypeDef d)))
    (names : List Symbol) :
    Decides c (checkTypes names)
      (∀ n ∈ names, ∃ d, c.schema.type? n = some d ∧ Passes c (checkTypeDef d)) := by
  induction names with
  | nil =>
    intro s _
    exact ⟨fun _ => by simp, fun _ => ⟨(), rfl⟩⟩
  | cons name names ih =>
    rw [List.forall_mem_cons]
    intro s hs
    unfold checkTypes
    rw [bind_ok (show Check.schema c s = (.ok c.schema, s) from rfl)]
    cases htype : c.schema.type? name with
    -- a name of the visit order without a type stops the check
    | none =>
      constructor
      · intro hgiven
        obtain ⟨a, ha⟩ := hgiven
        cases ha
      · intro hfound
        obtain ⟨⟨d, hd, -⟩, -⟩ := hfound
        cases hd
    | some d =>
      have hnote : Decides c (note (.typeStarted name d.kind)) True :=
        fun _ _ => ⟨fun _ => trivial, fun _ => ⟨(), rfl⟩⟩
      have hall := Decides.seq (Stepwise.note _).quiet hnote
        (Decides.seq (stepwise_checkTypeDef d).quiet (h d) ih)
      rw [hall s hs]
      simp

theorem decides_declareIfSorted (h : ∀ past d, ∃ a, c.oracle past (.function d) = .ok a)
    (f : FunctionDef) : Decides c (declareIfSorted f) True := by
  unfold declareIfSorted
  split
  · exact fun _ _ => ⟨fun _ => trivial, fun _ => ⟨(), rfl⟩⟩
  · split
    · next decl _ =>
      intro s _
      obtain ⟨a, ha⟩ := h s.queries decl
      refine ⟨fun _ => trivial, fun _ => ⟨(), ?_⟩⟩
      rw [bind_ok (ask_ok ha)]
      rfl
    · exact .pure ()

/-- **A schema passes exactly when its order is complete and each of its types and functions
passes.** -/
theorem decides_checkSchema (htypes : ∀ d, Decides c (checkTypeDef d) (Passes c (checkTypeDef d)))
    (hfunctions : ∀ f, Decides c (checkFunctionDef f) (Passes c (checkFunctionDef f)))
    (haccepts : ∀ past d, ∃ a, c.oracle past (.function d) = .ok a) :
    Decides c checkSchema
      (c.schema.visitOrder.length = c.schema.types.length
        ∧ (∀ n ∈ c.schema.visitOrder, ∃ d, c.schema.type? n = some d ∧ Passes c (checkTypeDef d))
        ∧ ∀ f ∈ c.schema.functions, Passes c (checkFunctionDef f)) := by
  intro s hs
  have hdeclared := Decides.forM (fun f => (stepwise_declareIfSorted f).quiet)
    (decides_declareIfSorted haccepts) c.schema.functions
  have hchecked := Decides.forM (fun f => (stepwise_checkFunctionDef f).quiet) hfunctions
    c.schema.functions
  have hall := Decides.seq (stepwise_checkTypes _).quiet
    (decides_checkTypes htypes c.schema.visitOrder)
    (Decides.seq (Stepwise.forM stepwise_declareIfSorted _).quiet hdeclared hchecked)
  unfold checkSchema
  rw [bind_ok (show Check.schema c s = (.ok c.schema, s) from rfl)]
  -- an order that misses a type is refused before any declaration is read
  by_cases hlen : c.schema.visitOrder.length = c.schema.types.length
  · rw [if_neg (not_not.mpr hlen)]
    have hrest := hall s hs
    simp only [hlen, true_and, implies_true] at hrest ⊢
    exact hrest
  · rw [if_pos hlen]
    constructor
    · intro hgiven
      obtain ⟨a, ha⟩ := hgiven
      cases ha
    · intro hfound
      obtain ⟨h, -⟩ := hfound
      exact absurd h hlen

end Typing

/-- **A schema with an order of its types passes exactly when each type and each function passes
alone**, if the check of a declaration depends on nothing but the scopes. -/
theorem Schema.typing_iff_passes {s : Schema} {oracle : Oracle} (hs : s.Keyed) (horder : s.Ordered)
    (htypes : ∀ d, Check.Decides ⟨s, oracle⟩ (Typing.checkTypeDef d)
      (Check.Passes ⟨s, oracle⟩ (Typing.checkTypeDef d)))
    (hfunctions : ∀ f, Check.Decides ⟨s, oracle⟩ (Typing.checkFunctionDef f)
      (Check.Passes ⟨s, oracle⟩ (Typing.checkFunctionDef f)))
    (haccepts : ∀ past f, ∃ a, oracle past (.function f) = .ok a) :
    (s.typing oracle).1 = .ok () ↔
      (∀ d ∈ s.types, Check.Passes ⟨s, oracle⟩ (Typing.checkTypeDef d))
        ∧ ∀ f ∈ s.functions, Check.Passes ⟨s, oracle⟩ (Typing.checkFunctionDef f) := by
  have hdecided := Typing.decides_checkSchema htypes hfunctions haccepts .start
    Checking.fresh_start
  have hlength : s.visitOrder.length = s.types.length := by
    rw [horder.length_eq, typeNames, List.length_map]
  rw [← horder.forall_iff hs]
  constructor
  · exact fun hok => (hdecided.mp ⟨(), hok⟩).2
  · intro hpasses
    obtain ⟨_, hok⟩ := hdecided.mpr ⟨hlength, hpasses⟩
    exact hok

/-! ## §3. What passed. -/

namespace Typing

open Check

variable {c : Setting}

theorem passed_of_checkTypes {names : List Symbol} :
    ∀ {s u : Checking}, s.Fresh → checkTypes names c s = (.ok (), u) →
      ∀ n ∈ names, ∃ d, c.schema.type? n = some d ∧ Passed c (checkTypeDef d) := by
  induction names with
  | nil => simp
  | cons name names ih =>
    intro s u hs h
    unfold checkTypes at h
    rw [bind_ok (show Check.schema c s = (.ok c.schema, s) from rfl)] at h
    rw [List.forall_mem_cons]
    cases htype : c.schema.type? name with
    | none =>
      rw [htype] at h
      cases h
    | some d =>
      rw [htype] at h
      obtain ⟨-, t, ht, h⟩ := Passed.of_seq (Stepwise.note _).quiet hs h
      obtain ⟨hd, t', ht', h⟩ := Passed.of_seq (stepwise_checkTypeDef d).quiet ht h
      exact ⟨⟨d, rfl, hd⟩, ih ht' h⟩

end Typing

/-- **Where a schema passes, each of its types and functions passed** in some fresh state, whatever
the oracle remembers. -/
theorem Schema.passed_of_typing {s : Schema} {oracle : Oracle}
    (h : (s.typing oracle).1 = .ok ()) :
    (∀ n ∈ s.visitOrder, ∃ d, s.type? n = some d
        ∧ Check.Passed ⟨s, oracle⟩ (Typing.checkTypeDef d))
      ∧ ∀ f ∈ s.functions, Check.Passed ⟨s, oracle⟩ (Typing.checkFunctionDef f) := by
  have hrun : Typing.checkSchema ⟨s, oracle⟩ .start = (.ok (), (s.typing oracle).2) :=
    Prod.ext h rfl
  unfold Typing.checkSchema at hrun
  rw [Check.bind_ok (show Check.schema ⟨s, oracle⟩ .start = (.ok s, .start) from rfl)] at hrun
  split at hrun
  · cases hrun
  · obtain ⟨_, t, htypes, hrun⟩ := Check.bind_eq_ok hrun
    have ht := (Typing.stepwise_checkTypes s.visitOrder).quiet.fresh_of_run
      Checking.fresh_start htypes
    obtain ⟨-, t', ht', hrun⟩ := Check.Passed.of_seq
      (Check.Stepwise.forM Typing.stepwise_declareIfSorted _).quiet ht hrun
    exact ⟨Typing.passed_of_checkTypes Checking.fresh_start htypes,
      Check.Passed.of_forM (fun f => (Typing.stepwise_checkFunctionDef f).quiet) ht' hrun⟩

end DepSchema
