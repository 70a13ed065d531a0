/-
DepSchema.Proofs.Stages — what the outcome of a run says about its stages.

A run passes when all three stages do, and it keeps the order that the second stage found. The
last line of the log tells in which stage a run failed.

Main results: `check_ok_iff` and `failsInOrder_iff`.
-/
import DepSchema.Pipeline

namespace DepSchema

/-- The run fails because the types have no order, with a single fault that reads so. -/
def Run.FailsInOrder (run : Run) (t : SymbolTable) (message : String) : Prop :=
  run.events.getLast? = some (.orderFailed 1)
    ∧ ∃ d, run.result = .error [d] ∧ d.message t = message

namespace Schema

variable {t : SymbolTable} {p : Profile} {s : Schema}

/-! ## §1. The stage in which a run ends. -/

theorem getLast?_cons_concat (first last : Event) (events : List Event) :
    (first :: (events ++ [last])).getLast? = some last := by
  rw [← List.cons_append]
  exact List.getLast?_concat

/-- Name faults end the run. -/
theorem check_of_faults (h : s.nameFaults ≠ []) :
    (s.check t p).result = .error s.nameFaults
      ∧ (s.check t p).events.getLast? = some (.namesFailed s.nameFaults.length) := by
  obtain ⟨d, ds, hfaults⟩ := List.exists_cons_of_ne_nil h
  have hrun : s.checkWith t Structural.oracle
      = ⟨.error s.nameFaults, s, [], s.resolution ++ [.namesFailed s.nameFaults.length]⟩ := by
    unfold checkWith
    rw [hfaults]
  unfold check
  rw [hrun]
  exact ⟨rfl, getLast?_cons_concat _ _ _⟩

/-- Without name faults, a cycle ends the run. -/
theorem check_of_cycle (h : s.nameFaults = []) {d : Diagnostic} (ho : s.typeOrder t = .error d) :
    (s.check t p).result = .error [d]
      ∧ (s.check t p).events.getLast? = some (.orderFailed 1) := by
  have hrun : s.checkWith t Structural.oracle
      = ⟨.error [d], s, [], s.resolution ++ s.orderEvents t ++ [.orderFailed 1]⟩ := by
    unfold checkWith orderStage
    rw [h, ho]
  unfold check
  rw [hrun]
  exact ⟨rfl, getLast?_cons_concat _ _ _⟩

/-- With an order, the type check ends the run, and the order stays. -/
theorem check_of_order (h : s.nameFaults = []) {order : List Symbol}
    (ho : s.typeOrder t = .ok order) :
    ((s.check t p).result = .ok () ↔ ((s.withOrder order).typing Structural.oracle).1 = .ok ())
      ∧ (s.check t p).schema.visitOrder = order
      ∧ (s.check t p).events.getLast? ≠ some (.orderFailed 1) := by
  have hrun : s.checkWith t Structural.oracle
      = (s.withOrder order).typeStage Structural.oracle (s.resolution ++ s.orderEvents t) := by
    unfold checkWith orderStage
    rw [h, ho]
  unfold check
  rw [hrun]
  -- the type check notes its own end, and the order is not looked at again
  unfold typeStage
  rcases (s.withOrder order).typing Structural.oracle with ⟨d | u, state⟩
  · refine ⟨⟨fun hok => (by cases hok), fun hok => (by cases hok)⟩, rfl, ?_⟩
    show (_ :: (_ ++ [Event.typingFailed d])).getLast? ≠ _
    rw [getLast?_cons_concat]
    exact fun heq => by cases heq
  · refine ⟨⟨fun _ => rfl, fun _ => rfl⟩, rfl, ?_⟩
    show (_ :: (_ ++ [Event.schemaChecked _ _])).getLast? ≠ _
    rw [getLast?_cons_concat]
    exact fun heq => by cases heq

/-! ## §2. Outcomes. -/

/-- **A run passes when there are no name faults, the types have an order, and they are well typed
in it.** -/
theorem check_ok_iff :
    (s.check t p).result = .ok () ↔
      s.nameFaults = [] ∧ ∃ order, s.typeOrder t = .ok order
        ∧ ((s.withOrder order).typing Structural.oracle).1 = .ok () := by
  by_cases h : s.nameFaults = []
  · cases ho : s.typeOrder t with
    | error d =>
      rw [(check_of_cycle h ho).1]
      constructor
      · intro hok
        cases hok
      · intro hgiven
        obtain ⟨-, order, hok, -⟩ := hgiven
        cases hok
    | ok order =>
      rw [(check_of_order h ho).1]
      constructor
      · intro hok
        exact ⟨h, order, rfl, hok⟩
      · intro hfound
        obtain ⟨-, order', heq, hok⟩ := hfound
        cases heq
        exact hok
  · rw [(check_of_faults h).1]
    constructor
    · intro hok
      cases hok
    · intro hsome
      obtain ⟨hnone, -⟩ := hsome
      exact absurd hnone h

/-- **A run fails for the order of the types when there are no name faults but a cycle.** -/
theorem failsInOrder_iff {m : String} :
    (s.check t p).FailsInOrder t m ↔
      s.nameFaults = [] ∧ ∃ d, s.typeOrder t = .error d ∧ d.message t = m := by
  unfold Run.FailsInOrder
  by_cases h : s.nameFaults = []
  · cases ho : s.typeOrder t with
    | error d =>
      obtain ⟨hresult, hlast⟩ := check_of_cycle (p := p) h ho
      rw [hresult, hlast]
      constructor
      · intro hgiven
        obtain ⟨-, e, heq, hm⟩ := hgiven
        cases heq
        exact ⟨h, d, rfl, hm⟩
      · intro hfound
        obtain ⟨-, e, heq, hm⟩ := hfound
        cases heq
        exact ⟨rfl, d, rfl, hm⟩
    | ok order =>
      obtain ⟨-, -, hlast⟩ := check_of_order (p := p) h ho
      constructor
      · intro hsome
        obtain ⟨hfailed, -⟩ := hsome
        exact absurd hfailed hlast
      · intro hno
        obtain ⟨-, d, heq, -⟩ := hno
        cases heq
  · obtain ⟨-, hlast⟩ := check_of_faults (t := t) (p := p) h
    rw [hlast]
    constructor
    · intro hno
      obtain ⟨heq, -⟩ := hno
      cases heq
    · intro hno
      obtain ⟨hnone, -⟩ := hno
      exact absurd hnone h

end Schema

end DepSchema
