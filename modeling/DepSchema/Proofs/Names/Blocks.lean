/-
DepSchema.Proofs.Names.Blocks — every declaration has a block of name faults to itself.

Between two declarations the walk stands where it stood before the first one: one frame is open, it
declares the global names, and no rule input is being read. From there a declaration reports what
can be read off it, whatever nests inside it, and leaves the walk at that point again. So no fault
and no name of a declaration shows in the block of another one.

Main results: `AtTop.declaration` (one declaration), `AtTop.declarations` (some of them) and
`nameFaults_blocks`.
-/
import DepSchema.Proofs.Names.Faults

namespace DepSchema

/-- The name faults of a declaration. -/
def Declaration.faults (known : Symbol → Symbol → Bool) (V : Declared) :
    Declaration → List Diagnostic
  | type d => d.faults known V
  | function f => f.faults known V

namespace NameWalk

variable {r r' : NameWalk} {V : Declared} {f : List Diagnostic}

/-! ## §1. Between two declarations. -/

/-- One frame is open, it declares the names `V`, and no rule input is being read. -/
structure AtTop (r : NameWalk) (V : Declared) : Prop where
  depth : r.scopes.depth = 1
  aliasFrame : r.aliasFrame = none
  declared : r.declared = V

theorem AtTop.isOpen (h : r.AtTop V) : r.Open := by
  refine ⟨by rw [h.depth]; exact Nat.one_pos, fun k hk => ?_⟩
  rw [h.aliasFrame] at hk
  cases hk

theorem AtTop.reading_eq (h : r.AtTop V) : r.reading = false := by
  rw [reading, h.aliasFrame]
  rfl

/-- A stretch that leaves no name behind ends where it began. -/
theorem AtTop.extends (h : r.AtTop V) (hr : r.Extends r' f [] []) : r'.AtTop V :=
  ⟨hr.depth.trans h.depth, hr.aliasFrame.trans h.aliasFrame,
    (hr.declared_same h.isOpen).trans h.declared⟩

/-- Walks a declaration. -/
def declaration (known : Symbol → Symbol → Bool) (r : NameWalk) : Declaration → NameWalk
  | .type d => r.typeDef known d
  | .function f => r.functionDef known f

theorem extends_declaration (known : Symbol → Symbol → Bool) (hr : r.Open)
    (hreading : r.reading = false) (d : Declaration) :
    r.Extends (r.declaration known d) (d.faults known r.declared) [] [] := by
  cases d with
  | type d => exact extends_typeDef known hr hreading d
  | function f => exact extends_functionDef known hr hreading f

/-- **A declaration reports its own faults and leaves the walk where it was.** -/
theorem AtTop.declaration (h : r.AtTop V) (known : Symbol → Symbol → Bool) (d : Declaration) :
    (r.declaration known d).faults = r.faults ++ d.faults known V
      ∧ (r.declaration known d).AtTop V := by
  have hd := extends_declaration known h.isOpen h.reading_eq d
  refine ⟨?_, h.extends hd⟩
  rw [hd.faults, h.declared]

/-- So do some declarations, one after the other. -/
theorem AtTop.declarations (h : r.AtTop V) (known : Symbol → Symbol → Bool)
    (ds : List Declaration) :
    (ds.foldl (NameWalk.declaration known) r).faults
        = r.faults ++ ds.flatMap (Declaration.faults known V)
      ∧ (ds.foldl (NameWalk.declaration known) r).AtTop V := by
  have hds := extends_foldl (Declaration.faults known)
    (fun r d hr hreading => extends_declaration known hr hreading d) ds r h.isOpen h.reading_eq
  refine ⟨?_, h.extends hds⟩
  rw [hds.faults, h.declared]

end NameWalk

open NameWalk

namespace Schema

/-! ## §2. Blocks. -/

/-- The name faults of the global names, and of the declarations that were refused. -/
def globalFaults (s : Schema) : List Diagnostic :=
  Declared.globalFaults Symbol.builtins.contains s.globalNames
    ++ s.refused.map fun (i, kind) => .located i.span (.redeclared kind i.name)

/-- The declarations of a schema, types first. -/
def declarations (s : Schema) : List Declaration := s.types.map .type ++ s.functions.map .function

/-- **Behind the global names the walk has found their faults**, and they are what is declared. -/
theorem atTop_globals (s : Schema) :
    (NameWalk.globals s start.push).faults = s.globalFaults
      ∧ (NameWalk.globals s start.push).AtTop s.globals := by
  have hall := (extends_globals s.globalNames builtin builtin_open rfl).trans
    (extends_refused s.refused _)
  rw [← globals_eq, List.append_nil, builtin_declared] at hall
  refine ⟨hall.faults, hall.depth.trans (by decide), hall.aliasFrame, ?_⟩
  rw [hall.declared_of_inner builtin_open rfl, builtin_declared]
  rfl

/-- The walk goes through the declarations behind the global names. -/
theorem nameWalk_eq (s : Schema) :
    s.nameWalk = (s.declarations.foldl (NameWalk.declaration s.hasField)
      (NameWalk.globals s start.push)).pop := by
  rw [declarations, List.foldl_append, List.foldl_map, List.foldl_map]
  rfl

theorem nameFaults_eq_flatMap (s : Schema) :
    s.nameFaults
      = s.globalFaults ++ s.declarations.flatMap (Declaration.faults s.hasField s.globals) := by
  rw [nameFaults_eq, globalFaults, declarations, List.flatMap_append, List.flatMap_map,
    List.flatMap_map, ← List.append_assoc]
  rfl

/-- **Name faults come in blocks**: those of the global names, then those of each declaration, types
first. Before and behind every declaration only the global names are declared, in the one frame that
is open, and no rule input is being read; from such a point the walk of a declaration adds its block
and comes back to such a point. Another declaration in its place, if the names declared everywhere
and the fields of constructors stay the same, changes its block and no other one. -/
theorem nameFaults_blocks (s : Schema) :
    s.nameFaults
        = s.globalFaults ++ s.declarations.flatMap (Declaration.faults s.hasField s.globals)
      ∧ (∀ before after, s.declarations = before ++ after →
          ∃ r : NameWalk, r.AtTop s.globals
            ∧ r = before.foldl (NameWalk.declaration s.hasField) (NameWalk.globals s start.push)
            ∧ s.nameWalk = (after.foldl (NameWalk.declaration s.hasField) r).pop
            ∧ r.faults = s.globalFaults
                ++ before.flatMap (Declaration.faults s.hasField s.globals))
      ∧ (∀ r : NameWalk, r.AtTop s.globals → ∀ d : Declaration,
          (r.declaration s.hasField d).faults = r.faults ++ d.faults s.hasField s.globals
            ∧ (r.declaration s.hasField d).AtTop s.globals)
      ∧ ∀ s' : Schema, s'.globals = s.globals → s'.hasField = s.hasField →
          ∀ before d d' after, s.declarations = before ++ d :: after →
            s'.declarations = before ++ d' :: after →
            ∃ pre post, s.nameFaults
                = s.globalFaults ++ (pre ++ d.faults s.hasField s.globals ++ post)
              ∧ s'.nameFaults
                = s'.globalFaults ++ (pre ++ d'.faults s.hasField s.globals ++ post) := by
  obtain ⟨hglobals, htop⟩ := s.atTop_globals
  refine ⟨s.nameFaults_eq_flatMap, ?_, fun r hr d => hr.declaration s.hasField d, ?_⟩
  · intro before after hsplit
    obtain ⟨hfaults, hat⟩ := htop.declarations s.hasField before
    refine ⟨_, hat, rfl, ?_, ?_⟩
    · rw [nameWalk_eq, hsplit, List.foldl_append]
    · rw [hfaults, hglobals]
  · intro s' hnames hfields before d d' after hd hd'
    refine ⟨before.flatMap (Declaration.faults s.hasField s.globals),
      after.flatMap (Declaration.faults s.hasField s.globals), ?_, ?_⟩
    · rw [nameFaults_eq_flatMap, hd]
      simp
    · rw [nameFaults_eq_flatMap, hnames, hfields, hd']
      simp

namespace Example

/-- A name at a place of its own. -/
def placed (slot : UInt32) (place : Nat) : Ident := ⟨⟨slot⟩, ⟨place, 1⟩⟩

/-- A variable whose type is named, both at places of their own. -/
def holding (name type : UInt32) (place : Nat) : Variable :=
  ⟨placed name place, ⟨⟨place + 1, 1⟩, placed type (place + 1), []⟩⟩

/-- A message that asks for a value of the type in slot `asked`. -/
def asking (asked : UInt32) : TypeDef :=
  .message ⟨placed 7 10, [holding 9 asked 11], [holding 10 0 13]⟩

/-- A message with the same field twice, and a function that uses a variable of the first message.
-/
def others : List Declaration :=
  [.type (.message ⟨placed 8 20, [], [holding 10 0 21, holding 10 0 23]⟩),
    .function ⟨placed 11 30, [], ⟨⟨31, 1⟩, placed 0 31, []⟩,
      some (.access ⟨⟨32, 1⟩, placed 9 32, []⟩)⟩]

/-- The schema with these and a message that asks for a value. -/
def shelf (asked : UInt32) : Schema := ofDeclarations (.type (asking asked) :: others)

end Example

/-- Where the first message asks for a type that is not declared, this is reported beside the faults
of the others; where it asks for a builtin type, only theirs are. -/
theorem nameFaults_blocks_shelf :
    (Example.shelf 0).globals = (Example.shelf 12).globals
      ∧ (Example.shelf 0).hasField = (Example.shelf 12).hasField
      ∧ (Example.shelf 12).nameFaults.length = 3 ∧ (Example.shelf 0).nameFaults.length = 2
      ∧ ∃ pre post, (Example.shelf 12).nameFaults
          = (Example.shelf 12).globalFaults
            ++ (pre ++ [.located ⟨12, 1⟩ (.undefinedType ⟨12⟩)] ++ post)
        ∧ (Example.shelf 0).nameFaults
          = (Example.shelf 0).globalFaults ++ (pre ++ [] ++ post) := by
  have hdeclared : (Example.shelf 0).declaredNames = (Example.shelf 12).declaredNames := by cbv
  have hnames : (Example.shelf 0).globals = (Example.shelf 12).globals := by
    rw [globals, globals, hdeclared]
  have htypes : ∀ asked ∈ [0, 12], (Example.shelf asked).types
      = Declaration.types (.type (Example.asking asked) :: Example.others) := by
    simp only [List.forall_mem_cons, List.not_mem_nil, false_implies, implies_true, and_true]
    exact ⟨by cbv, by cbv⟩
  have hfields : (Example.shelf 0).hasField = (Example.shelf 12).hasField := by
    unfold hasField
    rw [htypes 0 (by simp), htypes 12 (by simp)]
    rfl
  have hfaulty : (Declaration.type (Example.asking 12)).faults (Example.shelf 12).hasField
      (Example.shelf 12).globals = [.located ⟨12, 1⟩ (.undefinedType ⟨12⟩)] := by cbv
  have hclean : (Declaration.type (Example.asking 0)).faults (Example.shelf 12).hasField
      (Example.shelf 12).globals = [] := by cbv
  refine ⟨hnames, hfields, by cbv, by cbv, ?_⟩
  rw [← hfaulty, ← hclean]
  exact (nameFaults_blocks (Example.shelf 12)).2.2.2 (Example.shelf 0) hnames hfields []
    (.type (Example.asking 12)) (.type (Example.asking 0)) Example.others (by cbv) (by cbv)

end Schema

end DepSchema
