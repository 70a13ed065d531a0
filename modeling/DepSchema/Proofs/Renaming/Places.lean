/-
DepSchema.Proofs.Renaming.Places — faults are reported at places of the schema.

The checks only pass places on. So whatever leaves a schema as it is leaves the places of its faults
as they are. Were a fault reported at a place that the schema does not have, then moving that place
alone would leave the schema as it is and yet move the fault.

Main results: `place_typing`, `place_checkWith` and `Schema.checkWith_located`.
-/
import DepSchema.Proofs.Renaming.Fixed
import DepSchema.Proofs.Renaming.Names
import DepSchema.Proofs.Renaming.Typing
import DepSchema.Proofs.Runs

namespace DepSchema

namespace Renaming

variable {ρ : Renaming} {s : Schema} {d : Diagnostic}

/-! ## §1. A schema that stays as it is. -/

/-- A schema stays when all names and its places do. -/
theorem schema_fixed (hn : ∀ n, ρ.name n = n) (hp : ∀ p ∈ s.spans, ρ.place p = p) :
    ρ.schema s = s := by
  obtain ⟨types, functions, owners, visitOrder, refused⟩ := s
  obtain ⟨hdeclared, hothers⟩ := List.forall_mem_append.mp hp
  obtain ⟨htypes, hfunctions⟩ := List.forall_mem_append.mp hdeclared
  have htypes : types.map ρ.typeDef = types :=
    Fixes.map (fun _ hd => hd.typeDef) ⟨fun n _ => hn n, htypes⟩
  have hfunctions : functions.map ρ.functionDef = functions :=
    Fixes.map (fun _ hf => hf.functionDef) ⟨fun n _ => hn n, hfunctions⟩
  have howners : owners.map (fun p => (ρ.name p.1, ρ.name p.2)) = owners := by
    simp [hn]
  have horder : visitOrder.map ρ.name = visitOrder := by
    simp [funext hn]
  have hrefused : refused.map (fun p => (ρ.ident p.1, p.2)) = refused := by
    conv_rhs => rw [← List.map_id refused]
    refine List.map_congr_left fun p hmem => ?_
    have hplace := hothers _ (List.mem_map_of_mem (f := fun p => p.1.span) hmem)
    exact congrArg (·, p.2) (congrArg₂ Ident.mk (hn _) hplace)
  show Schema.mk _ _ _ _ _ = _
  rw [htypes, hfunctions, howners, horder, hrefused]

/-- **Name faults of a schema that stays are at places that stay.** -/
theorem place_nameFaults (h : ρ.schema s = s) (hd : d ∈ s.nameFaults) :
    d.span.map ρ.place = d.span := by
  have hsame : s.nameFaults.map Diagnostic.span = s.nameFaults.map fun d => d.span.map ρ.place := by
    have hfaults := faults_schema (ρ := ρ) s
    rwa [h] at hfaults
  exact (List.map_inj_left.mp hsame d hd).symm

/-- **What the type check of a schema that stays reports is at a place that stays.** -/
theorem place_typing (h : ρ.schema s = s) (hd : (s.typing Structural.oracle).1 = .error d) :
    d.span.map ρ.place = d.span := by
  have hc : ρ.Relates ⟨s, Structural.oracle⟩ ⟨ρ.schema s, Structural.oracle⟩ :=
    .structural (ρ.type?_schema s) (ρ.function?_schema s) (ρ.constructor?_schema s)
  have hmatches := matches_checkSchema hc (List.length_map _) rfl rfl
  -- both runs are the same one
  rw [h] at hmatches
  have hrun := hmatches .start .start ⟨rfl, rfl, rfl⟩
  change Alike ρ id (s.typing Structural.oracle) (s.typing Structural.oracle) at hrun
  revert hrun hd
  generalize s.typing Structural.oracle = run
  obtain ⟨result, state⟩ := run
  rintro (rfl : result = .error d) hrun
  cases hrun with
  | error hspan => exact hspan.symm

/-- **What a run reports is at a place that stays**, whenever all names and the places of the schema
do. -/
theorem place_checkWith (hn : ∀ n, ρ.name n = n) (hp : ∀ p ∈ s.spans, ρ.place p = p)
    (t : SymbolTable) {ds : List Diagnostic}
    (hds : (s.checkWith t Structural.oracle).result = .error ds) (hd : d ∈ ds) :
    d.span.map ρ.place = d.span := by
  by_cases h : s.nameFaults = []
  · cases ho : s.typeOrder t with
    | error e =>
      -- a cycle has no place
      obtain ⟨cycle, -, rfl⟩ := Schema.typeOrder_eq_error.mp ho
      rw [Schema.checkWith_of_cycle h ho] at hds
      cases hds
      rw [List.mem_singleton.mp hd]
      rfl
    | ok order =>
      rw [Schema.checkWith_of_order h ho, (Schema.typeStage_eq _ _ _).2.2] at hds
      cases htyping : ((s.withOrder order).typing Structural.oracle).1 with
      | ok u =>
        rw [htyping] at hds
        cases hds
      | error e =>
        rw [htyping] at hds
        cases hds
        rw [List.mem_singleton.mp hd]
        exact place_typing (schema_fixed (s := s.withOrder order) hn hp) htyping
  · rw [Schema.checkWith_of_faults h] at hds
    cases hds
    exact place_nameFaults (schema_fixed hn hp) hd

/-! ## §2. One place. -/

/-- The renaming that moves one place and leaves all names. -/
def moving (p : Span) : Renaming where
  name := fun x => x
  place := Function.update id p ⟨p.start + 1, p.length⟩
  injective := Function.injective_id
  builtin _ := rfl

theorem moving_place_self (p : Span) : (moving p).place p ≠ p := by
  intro h
  have hstart := congrArg Span.start h
  rw [show (moving p).place p = ⟨p.start + 1, p.length⟩ from Function.update_self _ _ _] at hstart
  exact Nat.succ_ne_self _ hstart

theorem moving_place_of_ne {p q : Span} (h : q ≠ p) : (moving p).place q = q :=
  Function.update_of_ne h _ _

end Renaming

namespace Schema

/-- **A fault has no place or a place in the schema**, that of a node or of a name. -/
theorem checkWith_located (t : SymbolTable) (s : Schema) :
    ∀ ds, (s.checkWith t Structural.oracle).result = .error ds →
      ∀ d ∈ ds, d.span = none ∨ ∃ p ∈ s.spans, d.span = some p := by
  intro ds hds d hd
  cases hspan : d.span with
  | none => exact .inl rfl
  | some p =>
    refine .inr ⟨p, ?_, rfl⟩
    -- else the schema would stay when the place is moved, and the fault would not
    by_contra hnew
    have hstays : ∀ q ∈ s.spans, (Renaming.moving p).place q = q :=
      fun q hq => Renaming.moving_place_of_ne (ne_of_mem_of_not_mem hq hnew)
    have hfault := Renaming.place_checkWith (fun _ => rfl) hstays t hds hd
    rw [hspan] at hfault
    exact Renaming.moving_place_self p (Option.some.inj hfault)

/-- `S` asks for an integer, and a field of `A` gives it a text. -/
def Example.mistyped : Schema := ofDeclarations
  [.type (.message ⟨⟨⟨8⟩, ⟨1, 1⟩⟩, [⟨⟨⟨12⟩, ⟨2, 1⟩⟩, ⟨⟨3, 1⟩, ⟨.int, ⟨3, 1⟩⟩, []⟩⟩], []⟩),
    .type (.message ⟨⟨⟨9⟩, ⟨4, 1⟩⟩, [],
      [⟨⟨⟨11⟩, ⟨5, 1⟩⟩, ⟨⟨6, 2⟩, ⟨⟨8⟩, ⟨6, 1⟩⟩, [.scalar ⟨7, 1⟩ (.string "five")]⟩⟩]⟩)]

/-- The fault is at the text, which is at a place of the schema. -/
theorem checkWith_located_mistyped :
    (Example.mistyped.checkWith Example.names Structural.oracle).result
        = .error [.located ⟨7, 1⟩ (.valueMismatch ⟨⟨3, 1⟩, ⟨.int, ⟨3, 1⟩⟩, []⟩ .string)]
      ∧ ∃ p ∈ Example.mistyped.spans, some (⟨7, 1⟩ : Span) = some p := by
  have hfault : (Example.mistyped.checkWith Example.names Structural.oracle).result
      = .error [.located ⟨7, 1⟩ (.valueMismatch ⟨⟨3, 1⟩, ⟨.int, ⟨3, 1⟩⟩, []⟩ .string)] := by cbv
  refine ⟨hfault, ?_⟩
  rcases checkWith_located Example.names Example.mistyped _ hfault _ (List.mem_singleton_self _)
    with hnone | hplace
  · cases hnone
  · exact hplace

end Schema

end DepSchema
