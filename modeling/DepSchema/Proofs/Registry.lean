/-
DepSchema.Proofs.Registry — what a schema holds after its declarations were added.

A schema is built by adding declarations one after the other. Whatever they are, no name is
declared twice as a type or twice as a function, and a constructor belongs to a type that offers
it. As long as nothing was refused, the types and functions are exactly those that were added, in
an order of their own.

Main results: `keyed_ofDeclarations`, `refused_ofDeclarations` (when nothing is refused),
`types_perm` and `functions_perm` (what is kept then), `Registered` (constructors and their owners).
-/
import Mathlib
import DepSchema.Schema

namespace DepSchema

/-! ## §1. Lists of declarations. -/

/-- What can be added to a schema. -/
inductive Declaration where
  | type (d : TypeDef)
  | function (f : FunctionDef)
  deriving Repr

namespace Declaration

/-- The type that is declared, if it is one. -/
def type? : Declaration → Option TypeDef
  | type d => some d
  | function _ => none

/-- The function that is declared, if it is one. -/
def function? : Declaration → Option FunctionDef
  | type _ => none
  | function f => some f

/-- The types among some declarations. -/
def types (ds : List Declaration) : List TypeDef := ds.filterMap type?

/-- The functions among some declarations. -/
def functions (ds : List Declaration) : List FunctionDef := ds.filterMap function?

theorem types_concat_type (ds : List Declaration) (d : TypeDef) :
    types (ds ++ [type d]) = types ds ++ [d] := by
  simp [types, type?]

theorem types_concat_function (ds : List Declaration) (f : FunctionDef) :
    types (ds ++ [function f]) = types ds := by
  simp [types, type?]

theorem functions_concat_type (ds : List Declaration) (d : TypeDef) :
    functions (ds ++ [type d]) = functions ds := by
  simp [functions, function?]

theorem functions_concat_function (ds : List Declaration) (f : FunctionDef) :
    functions (ds ++ [function f]) = functions ds ++ [f] := by
  simp [functions, function?]

end Declaration

/-- The names of the constructors of a type. -/
def TypeDef.constructorNames (d : TypeDef) : List Symbol := d.constructors.map Constructor.name

namespace Schema

/-- Adds a declaration, unless its name is taken by another one of its kind. -/
def declare (s : Schema) : Declaration → Schema
  | .type d => s.addType d
  | .function f => s.addFunction f

/-- The schema of some declarations, added in order. -/
def ofDeclarations (ds : List Declaration) : Schema := ds.foldl declare .empty

theorem ofDeclarations_concat (ds : List Declaration) (d : Declaration) :
    ofDeclarations (ds ++ [d]) = (ofDeclarations ds).declare d := by
  simp [ofDeclarations]

/-! ## §2. Single steps. -/

theorem insertByKey_perm {α : Type} (key : α → Symbol) (x : α) :
    ∀ l : List α, (insertByKey key x l).Perm (x :: l)
  | [] => .refl _
  | y :: ys => by
    unfold insertByKey
    split
    · exact .refl _
    · exact ((insertByKey_perm key x ys).cons y).trans (.swap x y ys)

/-- Claims concern owners alone. -/
theorem foldl_claim_eq (type : Symbol) (ctors : List Symbol) :
    ∀ s : Schema, ∃ owners, ctors.foldl (claim type) s = { s with owners } := by
  induction ctors with
  | nil =>
    intro s
    exact ⟨s.owners, rfl⟩
  | cons c ctors ih =>
    intro s
    obtain ⟨owners, h⟩ := ih (s.claim type c)
    refine ⟨owners, ?_⟩
    rw [List.foldl_cons, h]
    unfold claim
    split <;> rfl

theorem owner?_claim (s : Schema) (type ctor c : Symbol) :
    (s.claim type ctor).owner? c = (s.owner? c).or (if c = ctor then some type else none) := by
  unfold claim
  split
  · next h =>
    by_cases hc : c = ctor
    · subst hc
      rw [Option.or_of_isSome h]
    · simp [hc]
  · show (s.owners ++ [(ctor, type)]).lookup c = _
    rw [List.lookup_append, List.lookup_cons, List.lookup_nil]
    by_cases hc : c = ctor
    · simp [hc, owner?]
    · have hb : (c == ctor) = false := beq_eq_false_iff_ne.mpr hc
      simp [hc, hb, owner?]

/-- The first claim of a constructor counts, and an earlier owner keeps it. -/
theorem owner?_foldl_claim (type : Symbol) (ctors : List Symbol) :
    ∀ (s : Schema) (c : Symbol), (ctors.foldl (claim type) s).owner? c
      = (s.owner? c).or (if c ∈ ctors then some type else none) := by
  induction ctors with
  | nil => simp
  | cons k ctors ih =>
    intro s c
    rw [List.foldl_cons, ih, owner?_claim, Option.or_assoc]
    congr 1
    by_cases hk : c = k <;> by_cases hc : c ∈ ctors <;> simp [hk, hc]

/-- The names of the declared types. -/
def typeNames (s : Schema) : List Symbol := s.types.map TypeDef.name

/-- The names of the declared functions. -/
def functionNames (s : Schema) : List Symbol := s.functions.map FunctionDef.name

theorem isSome_type? {s : Schema} {name : Symbol} :
    (s.type? name).isSome ↔ name ∈ s.typeNames := by
  simp [type?, typeNames, List.find?_isSome]

theorem isSome_function? {s : Schema} {name : Symbol} :
    (s.function? name).isSome ↔ name ∈ s.functionNames := by
  simp [function?, functionNames, List.find?_isSome]

theorem addType_refused {s : Schema} {d : TypeDef} (h : d.name ∈ s.typeNames) :
    s.addType d = { s with refused := s.refused ++ [(d.ident, d.kind)] } := by
  rw [addType, if_pos (isSome_type?.mpr h)]

theorem addType_new {s : Schema} {d : TypeDef} (h : d.name ∉ s.typeNames) :
    ∃ owners, s.addType d = { s with owners, types := insertByKey TypeDef.name d s.types } ∧
      ∀ c, owners.lookup c
        = (s.owner? c).or (if c ∈ d.constructorNames then some d.name else none) := by
  obtain ⟨owners, heq⟩ := foldl_claim_eq d.name d.constructorNames s
  refine ⟨owners, ?_, ?_⟩
  · rw [addType, if_neg (mt isSome_type?.mp h)]
    show { d.constructorNames.foldl (claim d.name) s with
      types := insertByKey TypeDef.name d (d.constructorNames.foldl (claim d.name) s).types } = _
    rw [heq]
  · intro c
    rw [← owner?_foldl_claim, heq]
    rfl

theorem addFunction_refused {s : Schema} {f : FunctionDef} (h : f.name ∈ s.functionNames) :
    s.addFunction f = { s with refused := s.refused ++ [(f.ident, .function)] } := by
  rw [addFunction, if_pos (isSome_function?.mpr h)]

theorem addFunction_new {s : Schema} {f : FunctionDef} (h : f.name ∉ s.functionNames) :
    s.addFunction f
      = { s with functions := insertByKey FunctionDef.name f s.functions } := by
  rw [addFunction, if_neg (mt isSome_function?.mp h)]

/-! ## §3. No name is declared twice. -/

/-- No two types have the same name, and no two functions. -/
structure Keyed (s : Schema) : Prop where
  types : s.typeNames.Nodup
  functions : s.functionNames.Nodup

theorem keyed_empty : empty.Keyed := ⟨List.nodup_nil, List.nodup_nil⟩

theorem typeNames_insert_perm (s : Schema) (d : TypeDef) :
    ((insertByKey TypeDef.name d s.types).map TypeDef.name).Perm (d.name :: s.typeNames) :=
  (insertByKey_perm TypeDef.name d s.types).map TypeDef.name

theorem functionNames_insert_perm (s : Schema) (f : FunctionDef) :
    ((insertByKey FunctionDef.name f s.functions).map FunctionDef.name).Perm
      (f.name :: s.functionNames) :=
  (insertByKey_perm FunctionDef.name f s.functions).map FunctionDef.name

theorem Keyed.declare {s : Schema} (h : s.Keyed) (d : Declaration) : (s.declare d).Keyed := by
  cases d with
  | type d =>
    by_cases hd : d.name ∈ s.typeNames
    · show (s.addType d).Keyed
      rw [addType_refused hd]
      exact ⟨h.types, h.functions⟩
    · obtain ⟨owners, heq, -⟩ := addType_new hd
      show (s.addType d).Keyed
      rw [heq]
      refine ⟨?_, h.functions⟩
      exact (typeNames_insert_perm s d).nodup_iff.mpr (List.nodup_cons.mpr ⟨hd, h.types⟩)
  | function f =>
    by_cases hf : f.name ∈ s.functionNames
    · show (s.addFunction f).Keyed
      rw [addFunction_refused hf]
      exact ⟨h.types, h.functions⟩
    · show (s.addFunction f).Keyed
      rw [addFunction_new hf]
      refine ⟨h.types, ?_⟩
      exact (functionNames_insert_perm s f).nodup_iff.mpr (List.nodup_cons.mpr ⟨hf, h.functions⟩)

/-- **No name is declared twice**, whatever was added. -/
theorem keyed_ofDeclarations (ds : List Declaration) : (ofDeclarations ds).Keyed := by
  induction ds using List.reverseRecOn with
  | nil => exact keyed_empty
  | append_singleton ds d ih =>
    rw [ofDeclarations_concat]
    exact ih.declare d

theorem Keyed.type?_eq_some {s : Schema} (h : s.Keyed) {name : Symbol} {d : TypeDef} :
    s.type? name = some d ↔ d ∈ s.types ∧ d.name = name := by
  constructor
  · intro hd
    exact ⟨List.mem_of_find?_eq_some hd, by simpa using List.find?_some hd⟩
  · intro hgiven
    obtain ⟨hmem, rfl⟩ := hgiven
    have hsome : (s.type? d.name).isSome := isSome_type?.mpr (List.mem_map_of_mem hmem)
    obtain ⟨d', hd'⟩ := Option.isSome_iff_exists.mp hsome
    have hname : d'.name = d.name := by simpa using List.find?_some hd'
    rw [hd', List.inj_on_of_nodup_map h.types (List.mem_of_find?_eq_some hd') hmem hname]

theorem Keyed.function?_eq_some {s : Schema} (h : s.Keyed) {name : Symbol} {f : FunctionDef} :
    s.function? name = some f ↔ f ∈ s.functions ∧ f.name = name := by
  constructor
  · intro hf
    exact ⟨List.mem_of_find?_eq_some hf, by simpa using List.find?_some hf⟩
  · intro hgiven
    obtain ⟨hmem, rfl⟩ := hgiven
    have hsome : (s.function? f.name).isSome := isSome_function?.mpr (List.mem_map_of_mem hmem)
    obtain ⟨f', hf'⟩ := Option.isSome_iff_exists.mp hsome
    have hname : f'.name = f.name := by simpa using List.find?_some hf'
    rw [hf', List.inj_on_of_nodup_map h.functions (List.mem_of_find?_eq_some hf') hmem hname]

/-- The order that is noted lists the declared types, each once. -/
def Ordered (s : Schema) : Prop := s.visitOrder.Perm s.typeNames

/-- Going through the order is going through the types. -/
theorem Ordered.forall_iff {s : Schema} (h : s.Ordered) (hs : s.Keyed) {p : TypeDef → Prop} :
    (∀ n ∈ s.visitOrder, ∃ d, s.type? n = some d ∧ p d) ↔ ∀ d ∈ s.types, p d := by
  constructor
  · intro hall d hd
    obtain ⟨d', hd', hp⟩ := hall d.name (h.mem_iff.mpr (List.mem_map_of_mem hd))
    rw [hs.type?_eq_some.mpr ⟨hd, rfl⟩] at hd'
    cases hd'
    exact hp
  · intro hall n hn
    obtain ⟨d, hd, rfl⟩ := List.mem_map.mp (h.mem_iff.mp hn)
    exact ⟨d, hs.type?_eq_some.mpr ⟨hd, rfl⟩, hall d hd⟩

theorem mem_typeNames_declare {s : Schema} {d : Declaration} {a : Symbol} :
    a ∈ (s.declare d).typeNames ↔ a ∈ s.typeNames ∨ ∃ d', d = .type d' ∧ d'.name = a := by
  cases d with
  | type d =>
    show a ∈ (s.addType d).typeNames ↔ _
    by_cases hd : d.name ∈ s.typeNames
    · rw [addType_refused hd]
      constructor
      · exact .inl
      · intro hor
        rcases hor with ha | ⟨d', heq, rfl⟩
        · exact ha
        · injection heq with heq
          exact heq ▸ hd
    · obtain ⟨owners, heq, -⟩ := addType_new hd
      rw [heq]
      show a ∈ (insertByKey TypeDef.name d s.types).map TypeDef.name ↔ _
      rw [(typeNames_insert_perm s d).mem_iff, List.mem_cons]
      simp [eq_comm, or_comm]
  | function f =>
    show a ∈ (s.addFunction f).typeNames ↔ _
    by_cases hf : f.name ∈ s.functionNames
    · simp [addFunction_refused hf, typeNames]
    · simp [addFunction_new hf, typeNames]

/-- The declared types are those that some declaration names. -/
theorem mem_typeNames_ofDeclarations {ds : List Declaration} {a : Symbol} :
    a ∈ (ofDeclarations ds).typeNames ↔ ∃ d, Declaration.type d ∈ ds ∧ d.name = a := by
  induction ds using List.reverseRecOn with
  | nil => simp [ofDeclarations, empty, typeNames]
  | append_singleton ds d ih =>
    rw [ofDeclarations_concat, mem_typeNames_declare, ih]
    simp only [List.mem_append, List.mem_singleton]
    constructor
    · intro hor
      rcases hor with ⟨d', hmem, ha⟩ | ⟨d', heq, ha⟩
      · exact ⟨d', .inl hmem, ha⟩
      · exact ⟨d', .inr heq.symm, ha⟩
    · intro h
      rcases h with ⟨d', hmem | heq, ha⟩
      · exact .inl ⟨d', hmem, ha⟩
      · exact .inr ⟨d', heq.symm, ha⟩

/-! ## §4. What is kept when nothing is refused. -/

/-- Nothing was refused, and the schema holds these declarations. -/
structure Keeps (s : Schema) (ds : List Declaration) : Prop where
  refused : s.refused = []
  types : s.types.Perm (Declaration.types ds)
  functions : s.functions.Perm (Declaration.functions ds)

theorem Keeps.typeNames_perm {s : Schema} {ds : List Declaration} (h : s.Keeps ds) :
    s.typeNames.Perm ((Declaration.types ds).map TypeDef.name) :=
  h.types.map TypeDef.name

theorem Keeps.functionNames_perm {s : Schema} {ds : List Declaration} (h : s.Keeps ds) :
    s.functionNames.Perm ((Declaration.functions ds).map FunctionDef.name) :=
  h.functions.map FunctionDef.name

theorem Keeps.addType {s : Schema} {ds : List Declaration} {d : TypeDef} (h : s.Keeps ds)
    (hd : d.name ∉ s.typeNames) : (s.declare (.type d)).Keeps (ds ++ [.type d]) := by
  obtain ⟨owners, heq, -⟩ := addType_new hd
  show (s.addType d).Keeps (ds ++ [.type d])
  rw [heq]
  refine ⟨h.refused, ?_, ?_⟩
  · rw [Declaration.types_concat_type]
    exact (insertByKey_perm _ d s.types).trans
      ((h.types.cons d).trans (List.perm_append_singleton d _).symm)
  · rw [Declaration.functions_concat_type]
    exact h.functions

theorem Keeps.addFunction {s : Schema} {ds : List Declaration} {f : FunctionDef} (h : s.Keeps ds)
    (hf : f.name ∉ s.functionNames) : (s.declare (.function f)).Keeps (ds ++ [.function f]) := by
  show (s.addFunction f).Keeps (ds ++ [.function f])
  rw [addFunction_new hf]
  refine ⟨h.refused, ?_, ?_⟩
  · rw [Declaration.types_concat_function]
    exact h.types
  · rw [Declaration.functions_concat_function]
    exact (insertByKey_perm _ f s.functions).trans
      ((h.functions.cons f).trans (List.perm_append_singleton f _).symm)

theorem refused_declare_ne_nil {s : Schema} (h : s.refused ≠ []) (d : Declaration) :
    (s.declare d).refused ≠ [] := by
  cases d with
  | type d =>
    show (s.addType d).refused ≠ []
    by_cases hd : d.name ∈ s.typeNames
    · simp [addType_refused hd]
    · obtain ⟨owners, heq, -⟩ := addType_new hd
      simpa [heq] using h
  | function f =>
    show (s.addFunction f).refused ≠ []
    by_cases hf : f.name ∈ s.functionNames
    · simp [addFunction_refused hf]
    · simpa [addFunction_new hf] using h

/-- **A schema that refused nothing holds what was declared.** -/
theorem keeps_ofDeclarations {ds : List Declaration} (h : (ofDeclarations ds).refused = []) :
    (ofDeclarations ds).Keeps ds := by
  induction ds using List.reverseRecOn with
  | nil => exact ⟨rfl, .refl _, .refl _⟩
  | append_singleton ds d ih =>
    rw [ofDeclarations_concat] at h ⊢
    -- what was refused stays refused, so nothing was refused before `d` either
    have hbefore : (ofDeclarations ds).refused = [] := by
      by_contra hne
      exact refused_declare_ne_nil hne d h
    cases d with
    | type d =>
      by_cases hd : d.name ∈ (ofDeclarations ds).typeNames
      · have hnil : ((ofDeclarations ds).addType d).refused = [] := h
        simp [addType_refused hd] at hnil
      · exact (ih hbefore).addType hd
    | function f =>
      by_cases hf : f.name ∈ (ofDeclarations ds).functionNames
      · have hnil : ((ofDeclarations ds).addFunction f).refused = [] := h
        simp [addFunction_refused hf] at hnil
      · exact (ih hbefore).addFunction hf

/-- **Nothing is refused exactly when no name is declared twice among the types and none among the
functions.** -/
theorem refused_ofDeclarations {ds : List Declaration} :
    (ofDeclarations ds).refused = [] ↔
      ((Declaration.types ds).map TypeDef.name).Nodup
        ∧ ((Declaration.functions ds).map FunctionDef.name).Nodup := by
  constructor
  · intro h
    have hkeeps := keeps_ofDeclarations h
    have hkeyed := keyed_ofDeclarations ds
    -- the schema never holds a name twice, and it holds what was declared
    exact ⟨hkeeps.typeNames_perm.nodup_iff.mp hkeyed.types,
      hkeeps.functionNames_perm.nodup_iff.mp hkeyed.functions⟩
  · intro hgiven
    obtain ⟨htypes, hfunctions⟩ := hgiven
    induction ds using List.reverseRecOn with
    | nil => rfl
    | append_singleton ds d ih =>
      rw [ofDeclarations_concat]
      cases d with
      | type d =>
        rw [Declaration.types_concat_type, List.map_append, List.nodup_append] at htypes
        rw [Declaration.functions_concat_type] at hfunctions
        have hkeeps := keeps_ofDeclarations (ih htypes.1 hfunctions)
        have hnew : d.name ∉ (ofDeclarations ds).typeNames := by
          intro hmem
          exact htypes.2.2 _ (hkeeps.typeNames_perm.mem_iff.mp hmem) _ (by simp) rfl
        exact (hkeeps.addType hnew).refused
      | function f =>
        rw [Declaration.types_concat_function] at htypes
        rw [Declaration.functions_concat_function, List.map_append, List.nodup_append]
          at hfunctions
        have hkeeps := keeps_ofDeclarations (ih htypes hfunctions.1)
        have hnew : f.name ∉ (ofDeclarations ds).functionNames := by
          intro hmem
          exact hfunctions.2.2 _ (hkeeps.functionNames_perm.mem_iff.mp hmem) _ (by simp) rfl
        exact (hkeeps.addFunction hnew).refused

/-! ## §5. Constructors and their owners. -/

/-- Each constructor of a declared type has an owner, and an owner is a declared type that offers
the constructor. -/
structure Registered (s : Schema) : Prop where
  offers : ∀ {c type}, s.owner? c = some type →
    ∃ d ∈ s.types, d.name = type ∧ c ∈ d.constructorNames
  owned : ∀ d ∈ s.types, ∀ c ∈ d.constructorNames, (s.owner? c).isSome

theorem registered_empty : empty.Registered :=
  ⟨fun h => by simp [empty, owner?] at h, fun d hd => by simp [empty] at hd⟩

theorem Registered.addType {s : Schema} (h : s.Registered) (d : TypeDef) :
    (s.addType d).Registered := by
  by_cases hd : d.name ∈ s.typeNames
  · rw [addType_refused hd]
    exact ⟨h.offers, h.owned⟩
  · obtain ⟨owners, heq, howner⟩ := addType_new hd
    have hmem : ∀ d', d' ∈ insertByKey TypeDef.name d s.types ↔ d' = d ∨ d' ∈ s.types := by
      intro d'
      rw [(insertByKey_perm TypeDef.name d s.types).mem_iff, List.mem_cons]
    rw [heq]
    constructor
    · intro c type hc
      replace hc : owners.lookup c = some type := hc
      rw [howner, Option.or_eq_some_iff] at hc
      -- an owner was known before, or the new type has just claimed the constructor
      rcases hc with hc | ⟨-, hc⟩
      · obtain ⟨d', hd', hname, hoffers⟩ := h.offers hc
        exact ⟨d', (hmem d').mpr (.inr hd'), hname, hoffers⟩
      · split at hc
        · next hoffers => exact ⟨d, (hmem d).mpr (.inl rfl), by simpa using hc, hoffers⟩
        · cases hc
    · intro d' hd' c hc
      show (owners.lookup c).isSome
      rw [howner, Option.isSome_or]
      -- the new type claims what nobody owned, and no claim takes an owner away
      rcases (hmem d').mp hd' with rfl | hd'
      · simp [hc]
      · simp [h.owned d' hd' c hc]

theorem Registered.declare {s : Schema} (h : s.Registered) (d : Declaration) :
    (s.declare d).Registered := by
  cases d with
  | type d => exact h.addType d
  | function f =>
    show (s.addFunction f).Registered
    by_cases hf : f.name ∈ s.functionNames
    · rw [addFunction_refused hf]
      exact ⟨h.offers, h.owned⟩
    · rw [addFunction_new hf]
      exact ⟨h.offers, h.owned⟩

/-- **Constructors and owners fit together**, whatever was added. -/
theorem registered_ofDeclarations (ds : List Declaration) : (ofDeclarations ds).Registered := by
  induction ds using List.reverseRecOn with
  | nil => exact registered_empty
  | append_singleton ds d ih =>
    rw [ofDeclarations_concat]
    exact ih.declare d

/-- No two types offer constructors of the same name. -/
def Unshared (s : Schema) : Prop :=
  ∀ d ∈ s.types, ∀ d' ∈ s.types, ∀ c ∈ d.constructorNames, c ∈ d'.constructorNames →
    d.name = d'.name

/-- Where no two types share a constructor name, the owner of a constructor is the type that offers
it. -/
theorem Registered.owner?_eq_some {s : Schema} (h : s.Registered) (hfree : s.Unshared)
    {c type : Symbol} :
    s.owner? c = some type ↔ ∃ d ∈ s.types, d.name = type ∧ c ∈ d.constructorNames := by
  constructor
  · exact h.offers
  · intro hgiven
    obtain ⟨d, hd, rfl, hc⟩ := hgiven
    -- some type owns `c`; it offers `c` too, and so is `d`
    obtain ⟨type, htype⟩ := Option.isSome_iff_exists.mp (h.owned d hd c hc)
    obtain ⟨d', hd', rfl, hc'⟩ := h.offers htype
    rw [htype, hfree d hd d' hd' c hc hc']

end Schema

end DepSchema
