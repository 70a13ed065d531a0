/-
DepSchema.Proofs.Queries.Declared — what the oracle is told about the types and functions.

A schema without name faults whose types have an order is declared to the oracle in that order, one
type after the other, and each declaration mentions only its own type and those declared before. No
field is ever found without a sort. When the run gets to the end, all types were declared, and then
all functions between values.

Three things have to agree for that: the order, which is found on the types of fields as they are
declared; the check that a type is well-formed, which reads them under a substitution; and the
sorts, which are again read off the types as they are declared.

Main result: `declarations_in_order`.
-/
import DepSchema.Proofs.Queries.Trace
import DepSchema.Oracle.Structural

namespace DepSchema

/-! ## §1. Sorts and mentions. -/

/-- The declaration of a type says that some field has a sort in which a type occurs. -/
def Datatype.Mentions (n : Symbol) (decl : Datatype) : Prop :=
  ∃ v ∈ decl.ctors, ∃ p ∈ v.fields, p.2.mentions n = true

namespace Expr

variable {owner : Symbol → Option Symbol} {n : Symbol}

mutual

/-- A type that occurs in the sort of a type is mentioned by it. -/
theorem mentions_of_sort? : ∀ {e : Expr} {sort : ValueSort}, e.sort? = some sort →
    sort.mentions n = true → e.Mentions owner n
  | .type span i ps, sort, hsort, hn => by
    by_cases hscalar : i.name.isScalar = true
    · have hsorted : (Expr.type span i ps).Sorted .empty := Expr.sorted_scalar hscalar
      obtain ⟨sort', hsort', hnone⟩ := hsorted
      rw [hsort] at hsort'
      cases hsort'
      exact absurd (hnone n hn) (by simp [Schema.empty, Schema.typeNames])
    · rw [sort?_of_not_scalar hscalar] at hsort
      have helement : ∀ sort', elementSort? ps = some sort' → sort'.mentions n = true →
          (Expr.type span i ps).Mentions owner n := by
        intro sort' hsort' hn'
        obtain ⟨p, hp, hmention⟩ := mentions_of_elementSort? hsort' hn'
        exact .parameter hp hmention
      split at hsort
      · obtain ⟨sort', hsort', rfl⟩ := Option.map_eq_some_iff.mp hsort
        exact helement sort' hsort' hn
      · split at hsort
        · obtain ⟨sort', hsort', rfl⟩ := Option.map_eq_some_iff.mp hsort
          exact helement sort' hsort' hn
        · cases hsort
          exact .name (by simpa [ValueSort.mentions] using hn)
  | .binary _ _ _ _, _, hsort, _ => by cases hsort
  | .unary _ _ _, _, hsort, _ => by cases hsort
  | .access _, _, hsort, _ => by cases hsort
  | .scalar _ _, _, hsort, _ => by cases hsort
  | .constructed _ _ _, _, hsort, _ => by cases hsort
  | .collection _ _, _, hsort, _ => by cases hsort
  | .call _ _ _, _, hsort, _ => by cases hsort

theorem mentions_of_elementSort? : ∀ {ps : List Expr} {sort : ValueSort},
    elementSort? ps = some sort → sort.mentions n = true → ∃ p ∈ ps, p.Mentions owner n
  | [], _, hsort, _ => by cases hsort
  | p :: ps, _, hsort, hn => ⟨p, List.mem_cons_self, mentions_of_sort? (e := p) hsort hn⟩

end

end Expr

theorem forall₂_mem_left {α β : Type} {R : α → β → Prop} {as : List α} {bs : List β}
    (h : List.Forall₂ R as bs) {a : α} (ha : a ∈ as) : ∃ b ∈ bs, R a b := by
  induction h with
  | nil => cases ha
  | cons hab _ ih =>
    rcases List.mem_cons.mp ha with rfl | ha
    · exact ⟨_, List.mem_cons_self, hab⟩
    · obtain ⟨b, hb, hR⟩ := ih ha
      exact ⟨b, List.mem_cons_of_mem _ hb, hR⟩

/-- **A declared type that occurs in the declaration of a type is held by the type.** -/
theorem Datatype.Describes.holds {s : Schema} {decl : Datatype} {d : TypeDef}
    (h : decl.Describes d) (hsorted : d.Sorted s) (owner : Symbol → Option Symbol) {n : Symbol}
    (hn : decl.Mentions n) : n ∈ s.typeNames ∧ d.Holds owner n := by
  obtain ⟨v, hv, p, hp, hmention⟩ := hn
  obtain ⟨ctor, hctor, hdescribes⟩ := forall₂_mem_left h.ctors hv
  obtain ⟨w, hw, -, hsort⟩ := forall₂_mem_left hdescribes.fields hp
  refine ⟨?_, ctor, hctor, w, hw, Expr.mentions_of_sort? hsort hmention⟩
  obtain ⟨sort, hsort', hdeclared⟩ := hsorted ctor hctor w hw
  have hsame : some sort = some p.2 := hsort'.symm.trans hsort
  cases hsame
  exact hdeclared n hmention

/-! ## §2. The declarations of a run. -/

/-- The query tells the oracle about a type or a function. -/
def Query.isDeclaration : Query → Bool
  | .equal _ _ _ => false
  | _ => true

/-- Every parameter of the function is a value. -/
def FunctionDef.isFirstOrder (f : FunctionDef) : Bool :=
  f.params.all fun p => match p.val with
    | .value _ => true
    | .function _ _ => false

theorem Query.Fits.not_isDeclaration {W : Vocabulary} {q : Query} (h : q.Fits W) :
    q.isDeclaration = false := by
  cases q with
  | equal => rfl
  | _ => exact h.elim

theorem filter_isDeclaration_of_fits {qs : List Query}
    (h : ∀ q ∈ qs, ∃ W : Vocabulary, q.Fits W) : qs.filter Query.isDeclaration = [] := by
  rw [List.filter_eq_nil_iff]
  intro q hq
  obtain ⟨W, hW⟩ := h q hq
  simp [hW.not_isDeclaration]

/-- The declarations among the queries of the types, one for each type. -/
theorem Declares.datatypes {s : Schema} {W : Symbol → Vocabulary} {names : List Symbol}
    {queries : List Query} (h : Declares s W names queries) :
    ∃ types : List Datatype, queries.filter Query.isDeclaration = types.map Query.datatype
      ∧ types.map Datatype.name = names
      ∧ ∀ decl ∈ types, ∃ d, s.type? decl.name = some d ∧ decl.Describes d ∧ d.Sorted s := by
  induction h with
  | nil => exact ⟨[], rfl, rfl, by simp⟩
  | @cons name d decl asked names rest htype hfits hdescribes hsorted _ ih =>
    obtain ⟨types, hfilter, hnames, hall⟩ := ih
    have hname : decl.name = name := hdescribes.name.trans (Schema.type?_name htype)
    refine ⟨decl :: types, ?_, by rw [List.map_cons, hname, hnames], ?_⟩
    · rw [List.filter_append, filter_isDeclaration_of_fits fun q hq => ⟨_, hfits q hq⟩,
        List.nil_append, List.filter_cons_of_pos rfl, hfilter, List.map_cons]
    · refine List.forall_mem_cons.mpr ⟨⟨d, ?_, hdescribes, hsorted⟩, hall⟩
      rw [hname]
      exact htype

/-- The declarations of a run, types before functions. -/
theorem Schema.Trace.declarations {s : Schema} {W F : Symbol → Vocabulary}
    {queries : List Query} {done rest : List Symbol} {functions : List SortedFunction}
    (h : s.Trace W F queries done rest functions) :
    ∃ types : List Datatype,
      queries.filter Query.isDeclaration
          = types.map Query.datatype ++ functions.map Query.function
        ∧ types.map Datatype.name = done
        ∧ ∀ decl ∈ types, ∃ d, s.type? decl.name = some d ∧ decl.Describes d ∧ d.Sorted s := by
  obtain ⟨declared, asked, checks, rfl, hdeclares, hasked, -, hchecks⟩ := h.parts
  obtain ⟨types, hfilter, hnames, hall⟩ := hdeclares.datatypes
  refine ⟨types, ?_, hnames, hall⟩
  have hasked' : asked.filter Query.isDeclaration = [] := by
    refine filter_isDeclaration_of_fits fun q hq => ?_
    obtain ⟨n, -, hfits⟩ := hasked q hq
    exact ⟨_, hfits⟩
  have hfunctions : (functions.map Query.function).filter Query.isDeclaration
      = functions.map Query.function :=
    List.filter_eq_self.mpr fun q hq => by
      obtain ⟨f, -, rfl⟩ := List.mem_map.mp hq
      rfl
  have hchecks' : checks.filter Query.isDeclaration = [] := by
    refine filter_isDeclaration_of_fits fun q hq => ?_
    obtain ⟨⟨f, -, hfits⟩, -⟩ := hchecks q hq
    exact ⟨_, hfits⟩
  rw [List.filter_append, List.filter_append, List.filter_append, hfilter, hasked', hfunctions,
    hchecks', List.append_nil, List.append_nil]

/-- What stands before another name in a list without repetitions is in the part before it. -/
theorem mem_of_idxOf_lt {before after : List Symbol} {a n : Symbol}
    (hnodup : (before ++ a :: after).Nodup)
    (h : (before ++ a :: after).idxOf n < (before ++ a :: after).idxOf a) : n ∈ before := by
  have ha : a ∉ before := fun hmem =>
    (List.nodup_append.mp hnodup).2.2 a hmem a List.mem_cons_self rfl
  by_contra hn
  rw [List.idxOf_append_of_notMem ha, List.idxOf_append_of_notMem hn, List.idxOf_cons_self] at h
  omega

namespace Typing

/-- A function that passes is declared exactly if its parameters are values. -/
theorem sortedFunction?_isSome {s : Schema} {f : FunctionDef} (hf : f.Sorted s) :
    (sortedFunction? f).isSome = f.isFirstOrder := by
  obtain ⟨hparams, sort, hresult, -⟩ := hf
  by_cases hfirst : f.isFirstOrder = true
  · rw [hfirst]
    have hall : ∀ ps : List Parameter, (∀ p ∈ ps, p.val.Sorted s) →
        (ps.all fun p => match p.val with | .value _ => true | .function _ _ => false) = true →
        (ps.mapM parameterSort?).isSome = true := by
      intro ps hps hvalues
      induction ps with
      | nil => rfl
      | cons p ps ih =>
        rw [List.forall_mem_cons] at hps
        rw [List.all_cons, Bool.and_eq_true] at hvalues
        obtain ⟨sorts, hsorts⟩ := Option.isSome_iff_exists.mp (ih hps.2 hvalues.2)
        obtain ⟨name, t⟩ := p
        cases t with
        | function qs result => cases hvalues.1
        | value type =>
          obtain ⟨sort, hsort, -⟩ := hps.1 type rfl
          rw [List.mapM_cons, hsorts,
            show parameterSort? ⟨name, .value type⟩ = some sort from hsort]
          rfl
    obtain ⟨sorts, hsorts⟩ := Option.isSome_iff_exists.mp (hall f.params hparams hfirst)
    unfold sortedFunction?
    rw [hsorts, show f.result.sort? = some sort from hresult]
    rfl
  · rw [Bool.not_eq_true] at hfirst
    rw [hfirst]
    obtain ⟨p, hp, hnot⟩ := List.all_eq_false.mp hfirst
    rw [sortedFunction?_eq_none hp ?_]
    · rfl
    · obtain ⟨name, t⟩ := p
      cases t with
      | value type => exact absurd rfl hnot
      | function qs result => rfl

theorem sortedFunctions_describe {s : Schema} {fs : List FunctionDef} (h : ∀ f ∈ fs, f.Sorted s) :
    List.Forall₂ SortedFunction.Describes (fs.filterMap sortedFunction?)
      (fs.filter FunctionDef.isFirstOrder) := by
  induction fs with
  | nil => exact .nil
  | cons f fs ih =>
    rw [List.forall_mem_cons] at h
    have hsome := sortedFunction?_isSome h.1
    cases hdecl : sortedFunction? f with
    | none =>
      rw [hdecl] at hsome
      rw [List.filterMap_cons_none hdecl, List.filter_cons_of_neg (by simp [← hsome])]
      exact ih h.2
    | some decl =>
      rw [hdecl] at hsome
      rw [List.filterMap_cons_some hdecl, List.filter_cons_of_pos (by simp [← hsome])]
      exact .cons (describes_of_sortedFunction? hdecl) (ih h.2)

end Typing

namespace Schema

/-- **The oracle is told about the types in their order and then about the functions.** Whatever the
oracle answers, and wherever it fails: the types that are declared come first in the order, none
twice; each declaration lists the constructors of its type in order, with the sort of each field,
and only its own type and types declared before occur in those sorts; and no run fails because a
field has no sort. A run without failure declares all types and then, in their order, exactly the
functions whose parameters are all values. -/
theorem declarations_in_order (t : SymbolTable) (oracle : Oracle) {s : Schema} {order : List Symbol}
    (hnames : s.nameFaults = []) (horder : s.typeOrder t = .ok order) :
    let run := (s.withOrder order).typing oracle
    ∃ (types : List Datatype) (functions : List SortedFunction),
      run.2.queries.filter Query.isDeclaration
          = types.map Query.datatype ++ functions.map Query.function
        ∧ types.map Datatype.name <+: order
        ∧ (types.map Datatype.name).Nodup
        ∧ (∀ decl ∈ types, ∃ d ∈ s.types, decl.Describes d)
        ∧ (∀ before decl after, types = before ++ decl :: after → ∀ n, decl.Mentions n →
            n = decl.name ∨ n ∈ before.map Datatype.name)
        ∧ (∀ e, run.1 = .error e → ¬e.IsUnencodable)
        ∧ (run.1 = .ok () → types.map Datatype.name = order
            ∧ List.Forall₂ SortedFunction.Describes functions
                (s.functions.filter FunctionDef.isFirstOrder)) := by
  intro run
  obtain ⟨hnodup, -, hbefore⟩ := typeOrder_sorted (typeNames_nodup_of_nameFaults hnames) horder
  have htidy : (s.withOrder order).Tidy :=
    ⟨(tidy_of_nameFaults hnames).constructors, (tidy_of_nameFaults hnames).fields⟩
  -- for the declarations it does not matter what the queries about equalities refer to
  obtain ⟨hfaults, done, rest, functions, htrace, hok⟩ := trace_typing (F := fun _ => .all)
    oracle htidy (fun _ _ => Vocabulary.closed_all _) (fun _ _ d _ => d.within_all)
    (fun _ _ => Vocabulary.closed_all _) fun f _ => f.within_all
  obtain ⟨types, hfilter, hdone, hall⟩ := htrace.declarations
  have hsplit : order = types.map Datatype.name ++ rest := hdone ▸ htrace.types
  refine ⟨types, functions, hfilter, ⟨rest, hsplit.symm⟩, ?_, ?_, ?_, hfaults, ?_⟩
  · rw [hsplit] at hnodup
    exact (List.nodup_append.mp hnodup).1
  · intro decl hdecl
    obtain ⟨d, hd, hdescribes, -⟩ := hall decl hdecl
    exact ⟨d, List.mem_of_find?_eq_some hd, hdescribes⟩
  · intro before decl after heq n hn
    obtain ⟨d, hd, hdescribes, hsorted⟩ := hall decl (heq ▸ by simp)
    obtain ⟨hdeclared, hholds⟩ := hdescribes.holds hsorted s.owner? hn
    by_cases hself : n = decl.name
    · exact .inl hself
    · -- another type that is held stands before in the order
      have hdepends : s.DependsOn decl.name n := ⟨hdeclared, d, hd, .inr ⟨hholds, hself⟩⟩
      have hlt := hbefore _ _ hdepends
      rw [hsplit, heq, List.map_append, List.map_cons, List.append_assoc, List.cons_append]
        at hnodup hlt
      exact .inr (mem_of_idxOf_lt hnodup hlt)
  · intro hrun
    obtain ⟨hrest, hfunctions, hsorted⟩ := hok hrun
    rw [hrest, List.append_nil] at hsplit
    refine ⟨hsplit.symm, ?_⟩
    rw [hfunctions]
    exact Typing.sortedFunctions_describe hsorted

namespace Example

/-- The album, and a function from points to points of which only the type is known. -/
def mirrored : List Declaration :=
  album ++ [.function ⟨ident 14, [⟨ident 12, .value ⟨⟨0, 0⟩, ident 7, []⟩⟩],
    ⟨⟨0, 0⟩, ident 7, []⟩, none⟩]

/-- What the structural oracle is asked about them. -/
def mirroredQueries : List Query :=
  (((ofDeclarations mirrored).withOrder [⟨7⟩, ⟨8⟩, ⟨9⟩]).typing Structural.oracle).2.queries

end Example

/-- The points, the shapes and the album are declared in this order, and then the function. -/
theorem declarations_mirrored :
    ∃ (types : List Datatype) (functions : List SortedFunction),
      Example.mirroredQueries.filter Query.isDeclaration
          = types.map Query.datatype ++ functions.map Query.function
        ∧ types.map Datatype.name = [⟨7⟩, ⟨8⟩, ⟨9⟩]
        ∧ (∀ before decl after, types = before ++ decl :: after → ∀ n, decl.Mentions n →
            n = decl.name ∨ n ∈ before.map Datatype.name)
        ∧ List.Forall₂ SortedFunction.Describes functions
            ((ofDeclarations Example.mirrored).functions.filter FunctionDef.isFirstOrder) := by
  have hnames : (ofDeclarations Example.mirrored).nameFaults = [] := by cbv
  have horder : (ofDeclarations Example.mirrored).typeOrder Example.names
      = .ok [⟨7⟩, ⟨8⟩, ⟨9⟩] := by cbv
  have hrun : (((ofDeclarations Example.mirrored).withOrder [⟨7⟩, ⟨8⟩, ⟨9⟩]).typing
      Structural.oracle).1 = .ok () := by cbv
  obtain ⟨types, functions, hfilter, -, -, -, hmention, -, hok⟩ :=
    declarations_in_order Example.names Structural.oracle hnames horder
  exact ⟨types, functions, hfilter, (hok hrun).1, hmention, (hok hrun).2⟩

end Schema

end DepSchema
