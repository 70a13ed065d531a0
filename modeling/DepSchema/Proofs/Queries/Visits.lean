/-
DepSchema.Proofs.Queries.Visits — which types are declared when a schema passes.

The visit order is given from outside. The check compares its length with the number of types and
looks every name of it up, and that is all. A run that passes has checked and declared the type of
each name of the order, in order and as often as the name stands there; inside a declaration nothing
is declared. So every type is declared exactly once if the order has no repetition, and only then:
where a name stands twice, another type is passed over.

Main definition: `Checking.declaredTypes`. Main results: `declaredTypes_checkTypes`,
`Schema.visits_of_typing` and the schema `Example.twice` with a type that nobody has checked.
-/
import DepSchema.Proofs.Order.TypeOrder
import DepSchema.Proofs.Typing.Passes
import DepSchema.Oracle.Structural

namespace DepSchema

/-! ## §1. Types that were declared. -/

/-- The type that a query declares, if it declares one. -/
def Query.declaredType? : Query → Option Symbol
  | .datatype d => some d.name
  | _ => none

/-- The types that the oracle was told about, in order. -/
def Checking.declaredTypes (s : Checking) : List Symbol := s.queries.filterMap Query.declaredType?

/-! ## §2. Inside a declaration. -/

namespace Check

variable {α β : Type} {c : Setting} {s t : Checking}

theorem declaredTypes_ask (q : Query) :
    (ask q c s).2.declaredTypes = s.declaredTypes ++ q.declaredType?.toList := by
  have hasked : (ask q c s).2.queries = s.queries ++ [q] := by
    unfold ask
    dsimp only
    cases c.oracle s.queries q <;> rfl
  unfold Checking.declaredTypes
  rw [hasked, List.filterMap_append]
  cases hq : q.declaredType? <;> simp [hq]

/-- No type is declared by the check. -/
def Undeclaring (x : Check α) : Prop :=
  ∀ (c : Setting) (s : Checking), (x c s).2.declaredTypes = s.declaredTypes

theorem Undeclaring.bind {x : Check α} {f : α → Check β} (hx : x.Undeclaring)
    (hf : ∀ a, (f a).Undeclaring) : (x >>= f).Undeclaring := by
  intro c s
  have hfirst := hx c s
  rcases hrun : x c s with ⟨d | a, t⟩ <;> rw [hrun] at hfirst
  · rwa [bind_error hrun]
  · rw [bind_ok hrun, hf a c t]
    exact hfirst

/-- **Inside a declaration no type is declared.** -/
theorem StepwiseInside.undeclaring {binds : Bool} {x : Check α} (h : StepwiseInside binds x) :
    x.Undeclaring := by
  induction h with
  | pure | fail | schema | meaning? | note | ofSubstitution | underCurrent | introduce =>
    exact fun c s => rfl
  | bind _ _ hx hf => exact hx.bind hf
  | introduceIfReading o b _ _ hx hy =>
    intro c s
    rcases introduceIfReading_or o b _ _ s with heq | ⟨-, v, -, heq⟩ <;> rw [heq]
    · exact hx.bind hy c s
    · exact hy () c { s with scopes := s.scopes.bind v.name b }
  | replace n e =>
    intro c s
    unfold Check.replace
    cases s.substitution.add n e <;> rfl
  | askEqual e g =>
    intro c s
    exact (declaredTypes_ask (.equal e g s.scopes)).trans (List.append_nil _)
  | inScope _ hx => exact fun c s => hx c s.opened
  | readInput _ hx => exact fun c s => hx c { s with readingInput := true }

theorem Undeclaring.of_run {x : Check α} (hx : x.Undeclaring) {r : Except Diagnostic α}
    (h : x c s = (r, t)) : t.declaredTypes = s.declaredTypes := by
  have hsame := hx c s
  rwa [h] at hsame

end Check

/-! ## §3. Runs. -/

namespace Typing

open Check

variable {c : Setting} {s t : Checking}

theorem undeclaring_declareFunction (decl : SortedFunction) :
    Undeclaring (ask (.function decl) >>= fun _ => pure ()) := by
  refine Undeclaring.bind ?_ fun _ _ _ => rfl
  exact fun c s => (declaredTypes_ask (.function decl)).trans (List.append_nil _)

theorem undeclaring_declareIfSorted (f : FunctionDef) : (declareIfSorted f).Undeclaring := by
  unfold declareIfSorted
  split
  · exact fun c s => rfl
  · split
    · exact undeclaring_declareFunction _
    · exact fun c s => rfl

theorem undeclaring_checkFunctionDef (f : FunctionDef) : (checkFunctionDef f).Undeclaring :=
  (stepwiseInside_checkFunctionDef f : StepwiseInside false _).undeclaring

theorem undeclaring_forM {f : FunctionDef → Check Unit} (h : ∀ a, (f a).Undeclaring)
    (fs : List FunctionDef) : (fs.forM f).Undeclaring := by
  induction fs with
  | nil => exact fun c s => rfl
  | cons a fs ih => exact (h a).bind fun _ => ih

/-- A type that passes was declared, and nothing else was. -/
theorem declaredTypes_checkTypeDef {d : TypeDef} (h : checkTypeDef d c s = (.ok (), t)) :
    t.declaredTypes = s.declaredTypes ++ [d.name] := by
  have hdef : checkTypeDef d = inScope (typeBody d) >>= fun _ => variants d.constructors >>=
    fun ctors => ask (.datatype ⟨d.name, ctors⟩) >>= fun _ => pure () := rfl
  rw [hdef] at h
  obtain ⟨_, u, hbody, h⟩ := bind_eq_ok h
  obtain ⟨ctors, v, hctors, h⟩ := bind_eq_ok h
  obtain ⟨a, w, hask, h⟩ := bind_eq_ok h
  obtain rfl : w = t := (Prod.mk.inj h).2
  -- the body and the variants ask about equalities only, the last query is the declaration
  have hinside : StepwiseInside false (inScope (typeBody d)) := .inScope (stepwise_typeBody d)
  have hu : u.declaredTypes = s.declaredTypes := hinside.undeclaring.of_run hbody
  have hv : v.declaredTypes = u.declaredTypes :=
    (stepwise_variants d.constructors : StepwiseInside false _).undeclaring.of_run hctors
  have hw := declaredTypes_ask (c := c) (s := v) (.datatype ⟨d.name, ctors⟩)
  rw [hask] at hw
  rw [hw, hv, hu]
  rfl

/-- **A visit order that passes has declared the type of each of its names**, in order. -/
theorem declaredTypes_checkTypes {names : List Symbol} : ∀ {s t : Checking},
    checkTypes names c s = (.ok (), t) → t.declaredTypes = s.declaredTypes ++ names := by
  induction names with
  | nil =>
    intro s t h
    cases h
    exact (List.append_nil _).symm
  | cons name names ih =>
    intro s t h
    unfold checkTypes at h
    rw [bind_ok (show Check.schema c s = (.ok c.schema, s) from rfl)] at h
    cases htype : c.schema.type? name with
    | none =>
      rw [htype] at h
      cases h
    | some d =>
      rw [htype] at h
      dsimp only at h
      rw [bind_ok (show note (.typeStarted name d.kind) c s = _ from rfl)] at h
      obtain ⟨_, u, hd, h⟩ := bind_eq_ok h
      -- the type is declared under the name that it was looked up by
      have hname : d.name = name := Schema.type?_name htype
      have hfirst : u.declaredTypes = s.declaredTypes ++ [name] :=
        hname ▸ declaredTypes_checkTypeDef (s := s.note (.typeStarted name d.kind)) hd
      rw [ih h, hfirst, List.append_assoc, List.singleton_append]

end Typing

/-! ## §4. Visit orders. -/

namespace Schema

theorem declaredTypes_typing {s : Schema} {oracle : Oracle} (h : (s.typing oracle).1 = .ok ()) :
    s.visitOrder.length = s.types.length
      ∧ (s.typing oracle).2.declaredTypes = s.visitOrder := by
  have hrun : Typing.checkSchema ⟨s, oracle⟩ .start = (.ok (), (s.typing oracle).2) :=
    Prod.ext h rfl
  unfold Typing.checkSchema at hrun
  rw [Check.bind_ok (show Check.schema ⟨s, oracle⟩ .start = (.ok s, .start) from rfl)] at hrun
  split at hrun
  · cases hrun
  · next hlen =>
    refine ⟨not_not.mp hlen, ?_⟩
    obtain ⟨_, t, htypes, hrun⟩ := Check.bind_eq_ok hrun
    obtain ⟨_, u, hdeclare, hchecks⟩ := Check.bind_eq_ok hrun
    have ht := Typing.declaredTypes_checkTypes htypes
    have hu := (Typing.undeclaring_forM Typing.undeclaring_declareIfSorted _).of_run hdeclare
    have hv := (Typing.undeclaring_forM Typing.undeclaring_checkFunctionDef _).of_run hchecks
    rw [hv, hu, ht]
    rfl

/-- An order as long as there are types, with declared names only, lists the types exactly if it
has no repetition. -/
theorem nodup_iff_ordered {s : Schema} (hs : s.Keyed)
    (hlen : s.visitOrder.length = s.types.length) (hsub : s.visitOrder ⊆ s.typeNames) :
    s.visitOrder.Nodup ↔ s.Ordered := by
  constructor
  · intro hnodup
    refine (hnodup.subperm hsub).perm_of_length_le ?_
    rw [typeNames, List.length_map, hlen]
  · intro hordered
    exact hordered.nodup_iff.mpr hs.types

/-- **What a run that passes has checked.** For any visit order and any oracle: the order is as long
as there are types, each name of it is that of a declared type that passed, and the types that were
declared to the oracle are those of the order, one after the other. So every declared type passed
and was declared exactly once exactly if no name stands twice in the order, and then the order lists
the declared types. -/
theorem visits_of_typing {s : Schema} (hs : s.Keyed) {oracle : Oracle}
    (h : (s.typing oracle).1 = .ok ()) :
    s.visitOrder.length = s.types.length
      ∧ (∀ n ∈ s.visitOrder, ∃ d ∈ s.types, d.name = n
          ∧ Check.Passed ⟨s, oracle⟩ (Typing.checkTypeDef d))
      ∧ (s.typing oracle).2.queries.filterMap Query.declaredType? = s.visitOrder
      ∧ (s.visitOrder.Nodup ↔ ∀ d ∈ s.types, Check.Passed ⟨s, oracle⟩ (Typing.checkTypeDef d)
          ∧ ((s.typing oracle).2.queries.filterMap Query.declaredType?).count d.name = 1)
      ∧ (s.visitOrder.Nodup → s.visitOrder.Perm s.typeNames) := by
  obtain ⟨hlen, hdeclared⟩ := declaredTypes_typing h
  replace hdeclared : (s.typing oracle).2.queries.filterMap Query.declaredType? = s.visitOrder :=
    hdeclared
  have hpassed : ∀ n ∈ s.visitOrder, ∃ d ∈ s.types, d.name = n
      ∧ Check.Passed ⟨s, oracle⟩ (Typing.checkTypeDef d) := by
    intro n hn
    obtain ⟨d, hd, hpass⟩ := (passed_of_typing h).1 n hn
    obtain ⟨hmem, hname⟩ := hs.type?_eq_some.mp hd
    exact ⟨d, hmem, hname, hpass⟩
  have hsub : s.visitOrder ⊆ s.typeNames := by
    intro n hn
    obtain ⟨d, hd, rfl, -⟩ := hpassed n hn
    exact List.mem_map_of_mem hd
  have hordered := nodup_iff_ordered hs hlen hsub
  refine ⟨hlen, hpassed, hdeclared, ?_, hordered.mp⟩
  rw [hdeclared]
  constructor
  · intro hnodup d hd
    have hmem : d.name ∈ s.visitOrder :=
      (hordered.mp hnodup).mem_iff.mpr (List.mem_map_of_mem hd)
    obtain ⟨d', hd', hname, hpass⟩ := hpassed _ hmem
    -- no other type has that name
    rw [List.inj_on_of_nodup_map hs.types hd' hd hname] at hpass
    exact ⟨hpass, List.count_eq_one_of_mem hnodup hmem⟩
  · -- every type stands in the order, so the order has no room for a repetition
    intro hall
    rw [hordered]
    have hsuper : s.typeNames ⊆ s.visitOrder := by
      intro n hn
      obtain ⟨d, hd, rfl⟩ := List.mem_map.mp hn
      exact List.count_pos_iff.mp (by rw [(hall d hd).2]; exact Nat.one_pos)
    refine ((hs.types.subperm hsuper).perm_of_length_le ?_).symm
    rw [typeNames, List.length_map, hlen]

/-- The types of the album are declared once each, in an order of its types. -/
theorem visits_album :
    let s := (ofDeclarations Example.album).withOrder [⟨7⟩, ⟨8⟩, ⟨9⟩]
    (s.typing Structural.oracle).1 = .ok ()
      ∧ ∀ d ∈ s.types, Check.Passed ⟨s, Structural.oracle⟩ (Typing.checkTypeDef d)
        ∧ ((s.typing Structural.oracle).2.queries.filterMap Query.declaredType?).count d.name
          = 1 := by
  intro s
  have hkeyed : s.Keyed := (keyed_ofDeclarations Example.album).withOrder _
  have hok : (s.typing Structural.oracle).1 = .ok () := by cbv
  have hnodup : s.visitOrder.Nodup := by decide
  obtain ⟨-, -, -, honce, -⟩ := visits_of_typing hkeyed hok
  exact ⟨hok, honce.mp hnodup⟩

namespace Example

/-- Two messages, of which the second one has a field of a type that is not declared, in an order
that has the first one twice. -/
def twice : Schema :=
  (ofDeclarations [.type (.message ⟨ident 7, [], []⟩),
    .type (.message ⟨ident 8, [], [field 11 12 []]⟩)]).withOrder [⟨7⟩, ⟨7⟩]

end Example

/-- **A type can be passed over.** An order with a repetition is as long as it has to be, and the
schema passes although one type is declared twice and the other one, which fails where it is
checked, never. -/
theorem visits_twice :
    Example.twice.Keyed ∧ (Example.twice.typing Structural.oracle).1 = .ok ()
      ∧ (Example.twice.typing Structural.oracle).2.queries.filterMap Query.declaredType?
        = [⟨7⟩, ⟨7⟩]
      ∧ Example.twice.typeNames = [⟨7⟩, ⟨8⟩]
      ∧ ((Example.twice.withOrder [⟨7⟩, ⟨8⟩]).typing Structural.oracle).1
        = .error (.located ⟨0, 0⟩ (.undefinedType ⟨12⟩)) := by
  refine ⟨(keyed_ofDeclarations _).withOrder _, ?_, ?_, ?_, ?_⟩ <;> cbv

end Schema

end DepSchema
