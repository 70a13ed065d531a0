/-
DepSchema.Proofs.Renaming.Parameter — another name for a parameter.

A parameter is renamed together with everything in its scope that refers to it. If the new name
occurs nowhere in the schema and the old one nowhere else around the function, then the verdict
stays. If the old name is also that of another parameter there it may not: substitution puts
arguments behind the parameters of function types as they are, so an argument that mentions the one
name is taken for the other.

Main results: `check_renameParameter` and `check_captured`.
-/
import DepSchema.Proofs.Queries.Locals
import DepSchema.Proofs.Renaming.Around

namespace DepSchema

/-! ## §1. Declarations with one function renamed. -/

namespace Schema

theorem sameTypes_addFunction (s : Schema) (f f' : FunctionDef) :
    (s.addFunction f).SameTypes (s.addFunction f') := by
  unfold addFunction
  constructor
  · split <;> split <;> rfl
  · split <;> split <;> rfl

theorem SameTypes.foldl_claim {type : Symbol} (ctors : List Symbol) :
    ∀ {s s' : Schema}, s.SameTypes s' →
      (ctors.foldl (claim type) s).SameTypes (ctors.foldl (claim type) s') := by
  induction ctors with
  | nil => exact fun h => h
  | cons c ctors ih =>
    intro s s' h
    refine ih ?_
    unfold claim owner?
    rw [h.owners]
    constructor
    · split
      · exact h.types
      · exact h.types
    · split
      · exact h.owners
      · rfl

theorem SameTypes.declare {s s' : Schema} (h : s.SameTypes s') (d : Declaration) :
    (s.declare d).SameTypes (s'.declare d) := by
  cases d with
  | type d =>
    have hclaims : ((d.constructors.map Constructor.name).foldl (claim d.name) s).SameTypes
        ((d.constructors.map Constructor.name).foldl (claim d.name) s') := h.foldl_claim _
    show (s.addType d).SameTypes (s'.addType d)
    have hknown : s.type? d.name = s'.type? d.name := by
      unfold type?
      rw [h.types]
    unfold addType
    rw [hknown]
    split
    · exact ⟨h.types, h.owners⟩
    · exact ⟨congrArg (insertByKey TypeDef.name d) hclaims.types, hclaims.owners⟩
  | function f =>
    show (s.addFunction f).SameTypes (s'.addFunction f)
    unfold addFunction
    constructor
    · split <;> split <;> exact h.types
    · split <;> split <;> exact h.owners

theorem SameTypes.foldl_declare (ds : List Declaration) : ∀ {s s' : Schema}, s.SameTypes s' →
    (ds.foldl Schema.declare s).SameTypes (ds.foldl Schema.declare s') := by
  induction ds with
  | nil => exact fun h => h
  | cons d ds ih => exact fun h => ih (SameTypes.declare h d)

/-- The order of the types depends on them alone. -/
theorem SameTypes.typeOrder_eq {s s' : Schema} (h : s.SameTypes s') (t : SymbolTable) :
    s.typeOrder t = s'.typeOrder t := by
  unfold typeOrder mentionGraph mentionsOf
  rw [h.types, h.owner?_eq, h.type?_eq]

end Schema

theorem FunctionDef.renameParameter_name (i : Nat) (y : Symbol) (f : FunctionDef) :
    (f.renameParameter i y).name = f.name := by
  unfold renameParameter
  split
  · rfl
  · rfl

theorem Declaration.mem_types {d : TypeDef} {ds : List Declaration} :
    d ∈ types ds ↔ .type d ∈ ds := by
  constructor
  · intro hd
    obtain ⟨e, he, heq⟩ := List.mem_filterMap.mp hd
    cases e <;> cases heq
    exact he
  · exact fun hd => List.mem_filterMap.mpr ⟨_, hd, rfl⟩

theorem Declaration.mem_functions {f : FunctionDef} {ds : List Declaration} :
    f ∈ functions ds ↔ .function f ∈ ds := by
  constructor
  · intro hf
    obtain ⟨e, he, heq⟩ := List.mem_filterMap.mp hf
    cases e <;> cases heq
    exact he
  · exact fun hf => List.mem_filterMap.mpr ⟨_, hf, rfl⟩

/-- The names that a type declares are among its names. -/
theorem TypeDef.declaredNames_subset (d : TypeDef) : d.declaredNames ⊆ d.symbols := by
  intro n hn
  cases d with
  | message m =>
    obtain rfl := List.mem_singleton.mp hn
    exact List.mem_cons_self
  | enum e =>
    rcases List.mem_cons.mp hn with rfl | hn
    · exact List.mem_cons_self
    · simp only [List.map_map, List.mem_map] at hn
      obtain ⟨ctor, hctor, rfl⟩ := hn
      obtain ⟨r, hr, hctor⟩ := List.mem_flatMap.mp hctor
      refine List.mem_append_right _ (List.mem_flatMap.mpr ⟨r, hr, ?_⟩)
      exact List.mem_append_right _ (List.mem_flatMap.mpr ⟨ctor, hctor, List.mem_cons_self⟩)

namespace Schema

variable {ds : List Declaration} {n : Symbol}

/-- What a schema that refused nothing declares is in its declarations. -/
theorem Keeps.not_mem_symbols {s : Schema} (h : s.Keeps ds) (hn : ∀ d ∈ ds, n ∉ d.symbols) :
    n ∉ s.declaredNames ∧ ∀ b, n ∉ s.symbolsOf b := by
  have htype : ∀ d ∈ s.types, n ∉ d.symbols := fun d hd =>
    hn _ (Declaration.mem_types.mp (h.types.mem_iff.mp hd))
  have hfunction : ∀ f ∈ s.functions, n ∉ f.symbols := fun f hf =>
    hn _ (Declaration.mem_functions.mp (h.functions.mem_iff.mp hf))
  constructor
  · rw [declaredNames_eq]
    intro hmem
    rcases List.mem_append.mp hmem with hmem | hmem
    · obtain ⟨d, hd, hmem⟩ := List.mem_flatMap.mp hmem
      exact htype d hd (d.declaredNames_subset hmem)
    · obtain ⟨f, hf, rfl⟩ := List.mem_map.mp hmem
      exact hfunction f hf (by simp [FunctionDef.symbols])
  · intro b hb
    rcases (exists_of_mem_symbolsOf hb).2 with ⟨d, hd, hmem⟩ | ⟨f, hf, hmem⟩
    · exact htype d hd hmem
    · exact hfunction f hf hmem

end Schema

/-! ## §2. The verdict. -/

/-- Some renaming leaves every name and every place. -/
theorem Renaming.exists_fixes :
    ∃ ρ : Renaming, ∀ names places, ρ.Fixes names places :=
  ⟨⟨id, id, Function.injective_id, fun _ => rfl⟩, fun _ _ => ⟨fun _ _ => rfl, fun _ _ => rfl⟩⟩

namespace Schema

/-- Where no name is at fault, the types and functions pass one by one or not at all. -/
theorem typing_iff_eachPasses {ds : List Declaration} (hclean : (ofDeclarations ds).nameFaults = [])
    {t : SymbolTable} {order : List Symbol} (horder : (ofDeclarations ds).typeOrder t = .ok order) :
    (((ofDeclarations ds).withOrder order).typing Structural.oracle).1 = .ok ()
      ↔ (ofDeclarations ds).EachPasses := by
  -- a schema is its own twin
  obtain ⟨ρ, hfixes⟩ := Renaming.exists_fixes
  have hself : ds.map ρ.declaration = ds := by
    conv_rhs => rw [← List.map_id ds]
    exact List.map_congr_left fun d _ => (hfixes d.symbols d.spans).declaration
  have htwin := Renaming.twin_ofDeclarations (List.Perm.of_eq hself) hclean
  obtain ⟨hnodup, hall, -⟩ := typeOrder_sorted htwin.keyed.types horder
  exact htwin.typing_iff hnodup hall

section

variable {ds₁ ds₂ : List Declaration} {f : FunctionDef} {i : Nat} {p : Parameter} {y : Symbol}
  {s s' : Schema} (hs : s = ofDeclarations (ds₁ ++ .function f :: ds₂))
  (hs' : s' = ofDeclarations (ds₁ ++ .function (f.renameParameter i y) :: ds₂))

include hs hs'

theorem refused_renameParameter : s'.refused = [] ↔ s.refused = [] := by
  rw [hs, hs', refused_ofDeclarations, refused_ofDeclarations]
  simp [Declaration.types, Declaration.functions, Declaration.type?, Declaration.function?,
    List.filterMap_cons, FunctionDef.renameParameter_name]

/-- **With another name for a parameter, the one schema is the other with two names exchanged** in
what is around the function. -/
theorem exchanged_renameParameter (hp : f.params[i]? = some p) (hx : p.name.name.isBuiltin = false)
    (hy : y.isBuiltin = false) (hfresh : ∀ d ∈ ds₁ ++ .function f :: ds₂, y ∉ d.symbols)
    (hglobal : p.name.name ∉ s.declaredNames)
    (hgone : ∀ b, s'.Around f.name b → p.name.name ∉ s'.symbolsOf b) (hr : s.refused = []) :
    Exchanged p.name.name y hx hy f (f.renameParameter i y) s s' := by
  have hkeeps : s.Keeps (ds₁ ++ .function f :: ds₂) := by
    subst hs
    exact keeps_ofDeclarations hr
  have hkeeps' : s'.Keeps (ds₁ ++ .function (f.renameParameter i y) :: ds₂) := by
    have hr' := (refused_renameParameter hs hs').mpr hr
    subst hs'
    exact keeps_ofDeclarations hr'
  have hkeyed : s.Keyed := hs ▸ keyed_ofDeclarations _
  have hkeyed' : s'.Keyed := hs' ▸ keyed_ofDeclarations _
  have hmem : ∀ {g}, g ∈ s.functions ↔ .function g ∈ ds₁ ++ .function f :: ds₂ := fun {g} => by
    rw [hkeeps.functions.mem_iff, Declaration.mem_functions]
  have hmem' : ∀ {g}, g ∈ s'.functions ↔
      .function g ∈ ds₁ ++ .function (f.renameParameter i y) :: ds₂ := fun {g} => by
    rw [hkeeps'.functions.mem_iff, Declaration.mem_functions]
  have hname := f.renameParameter_name i y
  have hfunction' : s'.function? f.name = some (f.renameParameter i y) :=
    hkeyed'.function?_eq_some.mpr ⟨hmem'.mpr (by simp), hname⟩
  obtain ⟨hundeclared, hunused⟩ := hkeeps.not_mem_symbols hfresh
  refine ⟨hkeyed, hkeyed', hs ▸ registered_ofDeclarations _, ?_,
    hkeyed.function?_eq_some.mpr ⟨hmem.mpr (by simp), rfl⟩, hfunction', ?_, ?_, ?_, hunused, hgone⟩
  · rw [hs, hs', ofDeclarations, ofDeclarations, List.foldl_append, List.foldl_append]
    exact (sameTypes_addFunction _ _ _).foldl_declare ds₂
  · -- the others are found in the one schema as they are in the other
    intro n hn
    ext g
    rw [hkeyed.function?_eq_some, hkeyed'.function?_eq_some, hmem, hmem']
    refine and_congr_left fun hg => ?_
    have hne : g ≠ f := fun heq => hn (by rw [← hg, heq])
    have hne' : g ≠ f.renameParameter i y := fun heq => hn (by rw [← hg, heq, hname])
    simp [hne, hne']
  · refine Exchange.functionDef_renameParameter hp rfl (hfresh (.function f) (by simp)) ?_
    have hbody := hgone (.body f.name) ⟨_, .inl rfl, .refl⟩
    rwa [symbolsOf_body hfunction'] at hbody
  · rintro n (rfl | rfl)
    · exact hglobal
    · exact hundeclared

end

/-- **The name of a parameter does not matter where nothing else around the function has it.** Let
the new name occur nowhere in the schema, and let the old one be that of no type, constructor or
function. Suppose that afterwards it occurs neither in the function nor in anything else that is
around it: what the function leads to, what leads to the function, and what that leads to. Then the
schema is accepted or refused as before. In the rest of the schema the old name may be that of
fields, dependencies and parameters. -/
theorem check_renameParameter {ds₁ ds₂ : List Declaration} {f : FunctionDef} {i : Nat}
    {p : Parameter} {y : Symbol} (t : SymbolTable) (profile : Profile) {s s' : Schema}
    (hs : s = ofDeclarations (ds₁ ++ .function f :: ds₂))
    (hs' : s' = ofDeclarations (ds₁ ++ .function (f.renameParameter i y) :: ds₂))
    (hp : f.params[i]? = some p) (hx : p.name.name.isBuiltin = false) (hy : y.isBuiltin = false)
    (hfresh : ∀ d ∈ ds₁ ++ .function f :: ds₂, y ∉ d.symbols)
    (hglobal : p.name.name ∉ s.declaredNames)
    (hgone : ∀ b, s'.Around f.name b → p.name.name ∉ s'.symbolsOf b) :
    (s.check t profile).result = .ok () ↔ (s'.check t profile).result = .ok () := by
  have hrefused := refused_renameParameter hs hs'
  rw [check_ok_iff, check_ok_iff]
  by_cases hr : s.refused = []
  · have hex := exchanged_renameParameter hs hs' hp hx hy hfresh hglobal hgone hr
    rw [hex.nameFaults_iff hr (hrefused.mpr hr), and_congr_right_iff]
    intro hclean
    have hclean' := (hex.nameFaults_iff hr (hrefused.mpr hr)).mpr hclean
    have heach := hex.eachPasses_iff hclean hclean'
    rw [hex.types.typeOrder_eq]
    refine exists_congr fun order => and_congr_right fun horder' => ?_
    have horder : s.typeOrder t = .ok order := (hex.types.typeOrder_eq t).trans horder'
    subst hs hs'
    rw [typing_iff_eachPasses hclean horder, typing_iff_eachPasses hclean' horder']
    exact heach
  · -- a declaration was refused on either side
    have hfaulty : s.nameFaults ≠ [] := fun hclean => hr (nameFaults_eq_nil.mp hclean).2.1
    have hfaulty' : s'.nameFaults ≠ [] := fun hclean =>
      hr (hrefused.mp (nameFaults_eq_nil.mp hclean).2.1)
    exact iff_of_false (fun h => hfaulty h.1) fun h => hfaulty' h.1

/-! ## Parameters with one name. -/

namespace Example

/-- For a number 11 the function 10 asks for a function from numbers, called 13, to pairs of the
number and 11. The function 14 gives pairs of a number, called 15, and itself. -/
def pairing : List Declaration :=
  [.type (.message ⟨ident 7, [field 8 0 [], field 9 0 []], []⟩),
    .function ⟨ident 10, [param 11 (type 0 []),
      ⟨ident 12, .function [param 13 (type 0 [])] (type 7 [var 13, var 11])⟩], type 0 [], none⟩]

/-- Pairs of a number and itself. -/
def double : FunctionDef :=
  ⟨ident 14, [param 15 (type 0 [])], type 7 [var 15, var 15], none⟩

/-- Hands its own parameter, called 13 as well, and the pairs of equal numbers to the function 10.
-/
def handing : FunctionDef :=
  ⟨ident 16, [param 13 (type 0 [])], type 0 [],
    some (.call ⟨0, 0⟩ (ident 10) [var 13, var 14])⟩

/-- A type with a field 15 and a function with a parameter 15. -/
def aside : List Declaration :=
  [.type (.message ⟨ident 18, [], [field 15 0 []]⟩),
    .function ⟨ident 19, [param 15 (type 18 [])], type 0 [], none⟩]

/-- What these two declare. -/
def ofAside : List Entity := [.type ⟨18⟩, .function ⟨19⟩, .body ⟨19⟩]

end Example

open Example

/-- The parameter 15 may be called 17, since what else has the name 15 stands aside. -/
theorem check_renamed :
    ((ofDeclarations (pairing ++ .function (double.renameParameter 0 ⟨17⟩) ::
        .function handing :: aside)).check names .fast).result = .ok () := by
  refine (check_renameParameter (p := param 15 (type 0 [])) names .fast rfl rfl rfl (by decide)
    (by decide) (by decide) (by decide) fun b hb => ?_).mp (by cbv)
  -- nothing else uses what stands aside, which leads to nothing but the type of its field
  have hpart : ∀ a, a ∉ ofAside ∨ a ∈ .type ⟨0⟩ :: ofAside :=
    fun a => or_iff_not_imp_left.mpr fun ha => List.mem_cons_of_mem _ (not_not.mp ha)
  have hb' : b ∉ ofAside := forall_around (closedUnderUses_of_entities (by decide))
    (closedUnderUses_of_entities (by decide)) hpart (by decide) (by decide) b hb
  exact not_mem_symbolsOf (P := (· ∉ ofAside)) (by decide) b hb'

/-- **The parameter 13 may not be called 17**, although 17 occurs nowhere: as 13 it is taken for the
parameter of the function type that it is put into, and the schema is accepted. -/
theorem check_captured :
    (∀ d ∈ pairing ++ .function double :: [.function handing], ⟨17⟩ ∉ d.symbols)
      ∧ ((ofDeclarations (pairing ++ .function double :: [.function handing])).check names
          .fast).result = .ok ()
      ∧ ((ofDeclarations (pairing ++ .function double ::
            [.function (handing.renameParameter 0 ⟨17⟩)])).check names
          .fast).result
        = .error [.located ⟨0, 0⟩ (.parameterMismatch 1 (var 17) (var 13))] := by
  refine ⟨by decide, ?_, ?_⟩
  · cbv
  · cbv

end Schema

end DepSchema
