/-
DepSchema.Proofs.Queries.Trace — what the check of a schema asks, in order.

The check of each type asks about equalities and then declares the type; after the last type come
the functions between sorts, and after those the equalities that the checks of functions ask about.
A failure, of the oracle or of a check, cuts this off at some point. What is asked during the check
of a type is within any closed vocabulary that the type is within.

Main result: `trace_typing`.
-/
import DepSchema.Proofs.Vocabulary.Declarations
import DepSchema.Proofs.Typing.Passes
import DepSchema.Proofs.Order.TypeOrder

namespace DepSchema

/-! ## §1. Declarations and what they declare. -/

/-- The variant has the name of the constructor and its fields, each with its sort, in order. -/
structure Variant.Describes (v : Variant) (ctor : Constructor) : Prop where
  name : v.name = ctor.name
  fields : List.Forall₂ (fun p w => p.1 = w.name.name ∧ w.type.sort? = some p.2) v.fields
    ctor.fields

/-- The declaration has the name of the type and its constructors, in order. -/
structure Datatype.Describes (decl : Datatype) (d : TypeDef) : Prop where
  name : decl.name = d.name
  ctors : List.Forall₂ Variant.Describes decl.ctors d.constructors

/-- The declaration has the name of the function and the sorts of its parameters, none of which is
a function, and of its result. -/
structure SortedFunction.Describes (decl : SortedFunction) (f : FunctionDef) : Prop where
  name : decl.name = f.name
  params : List.Forall₂ (fun sort p => ∃ type, p.val = .value type ∧ type.sort? = some sort)
    decl.params f.params
  result : f.result.sort? = some decl.result

/-- The fields of each constructor of the type have sorts in which only declared types occur. -/
def TypeDef.Sorted (s : Schema) (d : TypeDef) : Prop :=
  ∀ ctor ∈ d.constructors, ∀ v ∈ ctor.fields, v.Sorted s

/-- The functions of the schema that are declared, in order. -/
def Schema.sortedFunctions (s : Schema) : List SortedFunction :=
  s.functions.filterMap Typing.sortedFunction?

/-- Such queries are made while types are checked one after the other and declared: those about
equalities in each type fit its own vocabulary. -/
inductive Declares (s : Schema) (W : Symbol → Vocabulary) : List Symbol → List Query → Prop where
  | nil : Declares s W [] []
  | cons {name d decl asked names rest} : s.type? name = some d →
      (∀ q ∈ asked, q.Fits (W name)) → decl.Describes d → d.Sorted s →
      Declares s W names rest → Declares s W (name :: names) (asked ++ .datatype decl :: rest)

/-- Where nothing is in scope, everything in scope is within any vocabulary. -/
theorem Checking.Fresh.within {s : Checking} (hs : s.Fresh) (W : Vocabulary) : s.Within W :=
  (Checking.within_start W).of_eq hs.scopes hs.substitution

theorem Checking.Fresh.replaces {s : Checking} (hs : s.Fresh) (W : Vocabulary) : s.Replaces W :=
  (Checking.replaces_start W).of_eq hs.scopes hs.substitution

namespace Typing

open Check

variable {c : Setting} {s : Checking}

/-! ## §2. Encoding. -/

theorem sortedFields_ok {fields : List Variable} (h : ∀ v ∈ fields, v.Sorted c.schema) :
    ∃ sorts, sortedFields fields c s = (.ok sorts, s)
      ∧ List.Forall₂ (fun p w => p.1 = w.name.name ∧ w.type.sort? = some p.2) sorts fields := by
  induction fields with
  | nil => exact ⟨[], rfl, .nil⟩
  | cons v vs ih =>
    rw [List.forall_mem_cons] at h
    obtain ⟨⟨sort, hsort, -⟩, hvs⟩ := h
    obtain ⟨sorts, hrun, hall⟩ := ih hvs
    refine ⟨(v.name.name, sort) :: sorts, ?_, .cons ⟨rfl, hsort⟩ hall⟩
    unfold sortedFields
    rw [show v.type.sort? = some sort from hsort, bind_ok rfl, bind_ok hrun]
    rfl

/-- **Where all fields have sorts, the encoding does not fail.** -/
theorem variants_ok {cs : List Constructor}
    (h : ∀ ctor ∈ cs, ∀ v ∈ ctor.fields, v.Sorted c.schema) :
    ∃ decls, variants cs c s = (.ok decls, s) ∧ List.Forall₂ Variant.Describes decls cs := by
  induction cs with
  | nil => exact ⟨[], rfl, .nil⟩
  | cons ctor cs ih =>
    rw [List.forall_mem_cons] at h
    obtain ⟨sorts, hfields, hsorts⟩ := sortedFields_ok (c := c) (s := s) h.1
    obtain ⟨decls, hrun, hall⟩ := ih h.2
    refine ⟨⟨ctor.name, sorts⟩ :: decls, ?_, .cons ⟨rfl, hsorts⟩ hall⟩
    unfold variants
    rw [bind_ok hfields, bind_ok hrun]
    rfl

theorem mapM_parameterSort? (ps : List Parameter) :
    ∀ {sorts : List ValueSort}, ps.mapM parameterSort? = some sorts →
      List.Forall₂ (fun sort p => ∃ type, p.val = .value type ∧ type.sort? = some sort) sorts
        ps := by
  induction ps with
  | nil =>
    intro sorts h
    cases h
    exact .nil
  | cons p ps ih =>
    intro sorts h
    simp only [List.mapM_cons, Option.bind_eq_bind, Option.bind_eq_some_iff, Option.pure_def,
      Option.some.injEq] at h
    obtain ⟨sort, hsort, rest, hrest, rfl⟩ := h
    refine .cons ?_ (ih hrest)
    obtain ⟨name, t⟩ := p
    cases t with
    | value type => exact ⟨type, rfl, hsort⟩
    | function ps result => cases hsort

theorem describes_of_sortedFunction? {f : FunctionDef} {decl : SortedFunction}
    (h : sortedFunction? f = some decl) : decl.Describes f := by
  simp only [sortedFunction?, Option.bind_eq_bind, Option.bind_eq_some_iff, Option.pure_def,
    Option.some.injEq] at h
  obtain ⟨params, hparams, result, hresult, rfl⟩ := h
  exact ⟨rfl, mapM_parameterSort? f.params hparams, hresult⟩

/-- Where a parameter has no sort, neither has the function. -/
theorem sortedFunction?_eq_none {f : FunctionDef} {p : Parameter} (hp : p ∈ f.params)
    (hnone : parameterSort? p = none) : sortedFunction? f = none := by
  have hfail : ∀ ps : List Parameter, p ∈ ps → ps.mapM parameterSort? = none := by
    intro ps hp
    induction ps with
    | nil => cases hp
    | cons q ps ih =>
      rw [List.mapM_cons]
      rcases List.mem_cons.mp hp with rfl | hp
      · rw [hnone]
        rfl
      · rw [ih hp]
        cases parameterSort? q <;> rfl
  unfold sortedFunction?
  rw [hfail f.params hp]
  rfl

/-! ## §3. Types. -/

/-- What the check of a type leaves behind: queries that fit, and then its declaration, unless the
check failed before. -/
theorem trace_checkTypeDef {W : Vocabulary} (hc : c.schema.Tidy) (hW : W.Closed c.schema)
    {d : TypeDef} (hd : d.Within W) (hs : s.Fresh) :
    (∀ e, (checkTypeDef d c s).1 = .error e → ¬e.IsUnencodable)
      ∧ ∃ asked, (∀ q ∈ asked, q.Fits W)
        ∧ (((checkTypeDef d c s).2.queries = s.queries ++ asked
            ∧ ∃ e, (checkTypeDef d c s).1 = .error e)
          ∨ ∃ decl, decl.Describes d ∧ d.Sorted c.schema
            ∧ (checkTypeDef d c s).2.queries = s.queries ++ (asked ++ [.datatype decl])) := by
  have hbody := asks_typeBody hc hW (hs.within W).opened (hs.replaces W).opened hd
  obtain ⟨⟨asked, hasked, hfits⟩, -, hfaults, hresults⟩ :=
    Asks.inScope (stepwise_typeBody d).framed (hs.within W) hbody
  have hdef : checkTypeDef d = inScope (typeBody d) >>= fun _ => variants d.constructors >>=
    fun ctors => ask (.datatype ⟨d.name, ctors⟩) >>= fun _ => pure () := rfl
  rw [hdef]
  rcases hrun : inScope (typeBody d) c s with ⟨e | u, t⟩ <;> rw [hrun] at hasked hfaults hresults
  · rw [bind_error hrun]
    exact ⟨hfaults, asked, hfits, .inl ⟨hasked, e, rfl⟩⟩
  · obtain ⟨-, hsorted, -⟩ := hresults u rfl
    obtain ⟨decls, hvariants, hdescribes⟩ := variants_ok (s := t) hsorted
    rw [bind_ok hrun, bind_ok hvariants]
    have hdecl : (Datatype.mk d.name decls).Describes d := ⟨rfl, hdescribes⟩
    replace hasked : t.queries = s.queries ++ asked := hasked
    cases horacle : c.oracle t.queries (.datatype ⟨d.name, decls⟩) with
    | error e =>
      rw [bind_error (ask_error horacle)]
      refine ⟨?_, asked, hfits, .inr ⟨_, hdecl, hsorted, ?_⟩⟩
      · intro e' he'
        cases he'
        exact Diagnostic.not_isUnencodable nofun
      · rw [hasked, List.append_assoc]
    | ok answer =>
      rw [bind_ok (ask_ok horacle)]
      refine ⟨(fun e' he' => by cases he'), asked, hfits, .inr ⟨_, hdecl, hsorted, ?_⟩⟩
      show t.queries ++ _ = _
      rw [hasked, List.append_assoc]

/-- **Types are checked and declared one after the other**, up to a failure: what was asked since
the last declaration fits the vocabulary of the type whose turn it is. -/
theorem trace_checkTypes {W : Symbol → Vocabulary} (hc : c.schema.Tidy) (names : List Symbol) :
    ∀ s : Checking, s.Fresh → (∀ n ∈ names, (W n).Closed c.schema) →
      (∀ n ∈ names, ∀ d, c.schema.type? n = some d → d.Within (W n)) →
      (∀ e, (checkTypes names c s).1 = .error e → ¬e.IsUnencodable)
        ∧ ∃ done rest declared asked, names = done ++ rest
          ∧ (checkTypes names c s).2.queries = s.queries ++ (declared ++ asked)
          ∧ Declares c.schema W done declared
          ∧ (∀ q ∈ asked, ∃ n, rest.head? = some n ∧ q.Fits (W n))
          ∧ ((checkTypes names c s).1 = .ok () → rest = []) := by
  induction names with
  | nil =>
    intro s _ _ _
    refine ⟨(fun e he => by cases he), [], [], [], [], rfl, ?_, .nil, by simp, fun _ => rfl⟩
    exact (List.append_nil _).symm
  | cons name names ih =>
    intro s hs hclosed hwithin
    rw [List.forall_mem_cons] at hclosed hwithin
    unfold checkTypes
    rw [bind_ok (show Check.schema c s = (.ok c.schema, s) from rfl)]
    cases htype : c.schema.type? name with
    | none =>
      refine ⟨?_, [], name :: names, [], [], rfl, ?_, .nil, by simp, ?_⟩
      · intro e he
        cases he
        exact Diagnostic.not_isUnencodable fun _ _ h => by cases h
      · exact (List.append_nil _).symm
      · intro h
        cases h
    | some d =>
      dsimp only
      rw [bind_ok (show note (.typeStarted name d.kind) c s = _ from rfl)]
      have hnoted : (s.note (.typeStarted name d.kind)).Fresh := ⟨hs.1, hs.2, hs.3⟩
      obtain ⟨hfaults, asked, hfits, hleft⟩ :=
        trace_checkTypeDef hc hclosed.1 (hwithin.1 d htype) hnoted
      have hfresh := (stepwise_checkTypeDef d).quiet.fresh (c := c) hnoted
      rcases hrun : checkTypeDef d c (s.note (.typeStarted name d.kind)) with ⟨e | u, t⟩ <;>
        rw [hrun] at hfaults hleft hfresh
      · rw [bind_error hrun]
        refine ⟨hfaults, ?_⟩
        rcases hleft with ⟨hqueries, -⟩ | ⟨decl, hdecl, hsorted, hqueries⟩
        -- the check failed before the declaration, or the declaration itself failed
        · refine ⟨[], name :: names, [], asked, rfl, hqueries, .nil, ?_, fun h => by cases h⟩
          exact fun q hq => ⟨name, rfl, hfits q hq⟩
        · refine ⟨[name], names, _, [], rfl, ?_, .cons htype hfits hdecl hsorted .nil, by simp,
            fun h => by cases h⟩
          rw [List.append_nil]
          exact hqueries
      · rw [bind_ok hrun]
        obtain ⟨hfaults', done, rest, declared, asked', rfl, hqueries', hdeclares, hasked', hok⟩ :=
          ih t hfresh hclosed.2 hwithin.2
        refine ⟨hfaults', ?_⟩
        rcases hleft with ⟨-, e, he⟩ | ⟨decl, hdecl, hsorted, hqueries⟩
        · cases he
        · refine ⟨name :: done, rest, _, asked', rfl, ?_,
            .cons htype hfits hdecl hsorted hdeclares, hasked', hok⟩
          rw [hqueries', show t.queries = _ from hqueries]
          simp [Checking.note]

/-! ## §4. Functions. -/

theorem trace_declareIfSorted (f : FunctionDef) (s : Checking) :
    (∀ e, (declareIfSorted f c s).1 = .error e → ¬e.IsUnencodable)
      ∧ (declareIfSorted f c s).2.queries
        = s.queries ++ (sortedFunction? f).toList.map Query.function := by
  cases hsorted : sortedFunction? f with
  | none =>
    have hdef : declareIfSorted f = pure () ∨ ∃ e, declareIfSorted f = note e := by
      unfold declareIfSorted
      rw [hsorted]
      dsimp only
      split
      · exact .inr ⟨_, rfl⟩
      · exact .inl rfl
    rcases hdef with hdef | ⟨e, hdef⟩ <;>
    · rw [hdef]
      exact ⟨(fun e he => by cases he), (List.append_nil _).symm⟩
  | some decl =>
    have hdef : declareIfSorted f = ask (.function decl) >>= fun _ => pure () := by
      unfold declareIfSorted
      rw [hsorted]
      dsimp only
      split
      · next heq =>
        -- a parameter without a sort would leave the function without a declaration
        have hnone := sortedFunction?_eq_none (List.mem_of_find?_eq_some heq) rfl
        rw [hsorted] at hnone
        cases hnone
      · rfl
    rw [hdef]
    cases horacle : c.oracle s.queries (.function decl) with
    | error e =>
      rw [bind_error (ask_error horacle)]
      refine ⟨?_, rfl⟩
      intro e' he'
      cases he'
      exact Diagnostic.not_isUnencodable nofun
    | ok answer =>
      rw [bind_ok (ask_ok horacle)]
      exact ⟨(fun e' he' => by cases he'), rfl⟩

/-- **Functions between sorts are declared in order**, up to a failure. -/
theorem trace_declareFunctions (fs : List FunctionDef) :
    ∀ s : Checking,
      (∀ e, (fs.forM declareIfSorted c s).1 = .error e → ¬e.IsUnencodable)
        ∧ ∃ declared, declared <+: fs.filterMap sortedFunction?
          ∧ (fs.forM declareIfSorted c s).2.queries = s.queries ++ declared.map Query.function
          ∧ ((fs.forM declareIfSorted c s).1 = .ok () →
            declared = fs.filterMap sortedFunction?) := by
  induction fs with
  | nil =>
    intro s
    refine ⟨(fun e he => by cases he), [], List.nil_prefix, ?_, fun _ => rfl⟩
    exact (List.append_nil _).symm
  | cons f fs ih =>
    intro s
    obtain ⟨hfaults, hqueries⟩ := trace_declareIfSorted (c := c) f s
    have hall : (f :: fs).filterMap sortedFunction?
        = (sortedFunction? f).toList ++ fs.filterMap sortedFunction? := by
      cases hsorted : sortedFunction? f <;> simp [hsorted]
    rw [show (f :: fs).forM declareIfSorted = declareIfSorted f >>= fun _ => fs.forM declareIfSorted
      from rfl, hall]
    rcases hrun : declareIfSorted f c s with ⟨e | u, t⟩ <;> rw [hrun] at hfaults hqueries
    · rw [bind_error hrun]
      exact ⟨hfaults, _, List.prefix_append _ _, hqueries, fun h => by cases h⟩
    · rw [bind_ok hrun]
      obtain ⟨hfaults', declared, hprefix, hqueries', hok⟩ := ih t
      refine ⟨hfaults', (sortedFunction? f).toList ++ declared,
        (List.prefix_append_right_inj _).mpr hprefix, ?_, fun h => by rw [hok h]⟩
      rw [hqueries', show t.queries = _ from hqueries, List.map_append, List.append_assoc]

/-- **Functions are checked one after the other**: what is asked fits the vocabulary of one of them.
-/
theorem trace_checkFunctions {F : Symbol → Vocabulary} (hc : c.schema.Tidy)
    (fs : List FunctionDef) :
    ∀ s : Checking, s.Fresh → (∀ f ∈ fs, (F f.name).Closed c.schema) →
      (∀ f ∈ fs, f.Within (F f.name)) →
      (∀ e, (fs.forM checkFunctionDef c s).1 = .error e → ¬e.IsUnencodable)
        ∧ ∃ asked, (fs.forM checkFunctionDef c s).2.queries = s.queries ++ asked
          ∧ (∀ q ∈ asked, ∃ f ∈ fs, q.Fits (F f.name))
          ∧ ((fs.forM checkFunctionDef c s).1 = .ok () → ∀ f ∈ fs, f.Sorted c.schema) := by
  induction fs with
  | nil =>
    intro s _ _ _
    exact ⟨(fun e he => by cases he), [], (List.append_nil _).symm, by simp, by simp⟩
  | cons f fs ih =>
    intro s hs hclosed hwithin
    rw [List.forall_mem_cons] at hclosed hwithin
    obtain ⟨⟨asked, hasked, hfits⟩, -, hfaults, hresults⟩ :=
      asks_checkFunctionDef hc hclosed.1 (hs.within _) (hs.replaces _) hwithin.1
    have hfirst : ∀ q ∈ asked, ∃ g ∈ f :: fs, q.Fits (F g.name) :=
      fun q hq => ⟨f, List.mem_cons_self, hfits q hq⟩
    have hfresh := (stepwise_checkFunctionDef f).quiet.fresh (c := c) hs
    have hdef : (f :: fs).forM checkFunctionDef
        = checkFunctionDef f >>= fun _ => fs.forM checkFunctionDef := rfl
    rw [hdef]
    rcases hrun : checkFunctionDef f c s with ⟨e | u, t⟩ <;>
      rw [hrun] at hasked hfaults hresults hfresh
    · rw [bind_error hrun]
      exact ⟨hfaults, asked, hasked, hfirst, fun h => by cases h⟩
    · rw [bind_ok hrun]
      obtain ⟨hfaults', asked', hasked', hfits', hresults'⟩ := ih t hfresh hclosed.2 hwithin.2
      refine ⟨hfaults', asked ++ asked', ?_, List.forall_mem_append.mpr ⟨hfirst, fun q hq => ?_⟩,
        fun h => List.forall_mem_cons.mpr ⟨(hresults u rfl).2, hresults' h⟩⟩
      · rw [hasked', show t.queries = _ from hasked, List.append_assoc]
      · obtain ⟨g, hg, hq⟩ := hfits' q hq
        exact ⟨g, List.mem_cons_of_mem _ hg, hq⟩

end Typing

/-! ## §5. Schemas. -/

/-- The queries of a run. While types are left over, the last queries are about the first of them;
after that come the declarations of functions, and after all of those the checks of functions. -/
structure Schema.Trace (s : Schema) (W F : Symbol → Vocabulary)
    (queries : List Query) (done rest : List Symbol) (functions : List SortedFunction) : Prop where
  types : s.visitOrder = done ++ rest
  sortedFunctions : functions <+: s.sortedFunctions
  parts : ∃ declared asked checks,
    queries = declared ++ asked ++ functions.map Query.function ++ checks
      ∧ DepSchema.Declares s W done declared
      ∧ (∀ q ∈ asked, ∃ n, rest.head? = some n ∧ q.Fits (W n))
      ∧ (rest ≠ [] → functions = [] ∧ checks = [])
      ∧ (∀ q ∈ checks, (∃ f ∈ s.functions, q.Fits (F f.name)) ∧ functions = s.sortedFunctions)

open Check Typing in
/-- **The queries of a run**, for vocabularies that suit the types and the functions in turn. No run
fails because a field has no sort; one that gives a result got to the end. -/
theorem Schema.trace_typing {s : Schema} (oracle : Oracle) (hs : s.Tidy)
    {W F : Symbol → Vocabulary} (hW : ∀ n ∈ s.visitOrder, (W n).Closed s)
    (htypes : ∀ n ∈ s.visitOrder, ∀ d, s.type? n = some d → d.Within (W n))
    (hF : ∀ f ∈ s.functions, (F f.name).Closed s)
    (hfunctions : ∀ f ∈ s.functions, f.Within (F f.name)) :
    (∀ e, (s.typing oracle).1 = .error e → ¬e.IsUnencodable)
      ∧ ∃ done rest functions, s.Trace W F (s.typing oracle).2.queries done rest functions
        ∧ ((s.typing oracle).1 = .ok () → rest = [] ∧ functions = s.sortedFunctions
            ∧ ∀ f ∈ s.functions, f.Sorted s) := by
  have hfresh := Checking.fresh_start
  set c : Setting := ⟨s, oracle⟩ with hsetting
  have hdef : s.typing oracle = checkSchema c .start := rfl
  rw [hdef]
  unfold checkSchema
  rw [bind_ok (show Check.schema c .start = (.ok s, .start) from rfl)]
  -- an order that misses a type is refused before anything is asked
  by_cases hlen : s.visitOrder.length = s.types.length
  swap
  · rw [if_pos hlen]
    refine ⟨?_, [], s.visitOrder, [], ⟨rfl, List.nil_prefix, [], [], [], rfl, .nil, by simp,
      fun _ => ⟨rfl, rfl⟩, by simp⟩, fun h => by cases h⟩
    intro e he
    cases he
    exact Diagnostic.not_isUnencodable nofun
  rw [if_neg (not_not.mpr hlen)]
  dsimp only
  obtain ⟨hfaults, done, rest, declared, asked, horder, hqueries, hdeclares, hasked, hok⟩ :=
    trace_checkTypes (c := c) hs s.visitOrder .start hfresh hW htypes
  have hfresh' := (stepwise_checkTypes s.visitOrder).quiet.fresh (c := c) hfresh
  rcases hrun : checkTypes s.visitOrder c .start with ⟨e | u, t⟩ <;>
    rw [hrun] at hfaults hqueries hok hfresh'
  · rw [bind_error hrun]
    refine ⟨hfaults, done, rest, [], ⟨horder, List.nil_prefix, declared, asked, [], ?_, hdeclares,
      hasked, fun _ => ⟨rfl, rfl⟩, by simp⟩, fun h => by cases h⟩
    simpa [Checking.start] using hqueries
  rw [bind_ok hrun]
  obtain rfl : rest = [] := hok rfl
  obtain rfl : asked = [] := List.eq_nil_iff_forall_not_mem.mpr fun q hq => by
    obtain ⟨n, hn, -⟩ := hasked q hq
    cases hn
  obtain ⟨hfaults', functions, hprefix, hqueries', hok'⟩ :=
    trace_declareFunctions (c := c) s.functions t
  have hdeclare : Stepwise false (s.functions.forM declareIfSorted) :=
    .forM stepwise_declareIfSorted _
  have hfresh'' := hdeclare.quiet.fresh (c := c) hfresh'
  rcases hrun' : s.functions.forM declareIfSorted c t with ⟨e | u, t'⟩ <;>
    rw [hrun'] at hfaults' hqueries' hok' hfresh''
  · rw [bind_error hrun']
    refine ⟨hfaults', done, [], functions, ⟨horder, hprefix, declared, [], [], ?_, hdeclares,
      by simp, by simp, by simp⟩, fun h => by cases h⟩
    rw [hqueries', show t.queries = _ from hqueries]
    simp [Checking.start]
  rw [bind_ok hrun']
  obtain rfl : functions = s.sortedFunctions := hok' rfl
  obtain ⟨hfaults'', checks, hchecks, hfits, hresults⟩ :=
    trace_checkFunctions (c := c) hs s.functions t' hfresh'' hF hfunctions
  refine ⟨hfaults'', done, [], s.sortedFunctions, ⟨horder, List.prefix_rfl, declared, [], checks,
    ?_, hdeclares, by simp, by simp, fun q hq => ⟨hfits q hq, rfl⟩⟩,
    fun h => ⟨rfl, rfl, hresults h⟩⟩
  rw [hchecks, show t'.queries = _ from hqueries', show t.queries = _ from hqueries]
  simp [Checking.start]

/-! ## §6. Where an equality is asked about. -/

/-- The query declares the type of that name. -/
def Query.declares (n : Symbol) : Query → Bool
  | .datatype decl => decl.name == n
  | _ => false

theorem Datatype.Describes.declares {s : Schema} {n : Symbol} {d : TypeDef} {decl : Datatype}
    (h : decl.Describes d) (hd : s.type? n = some d) : (Query.datatype decl).declares n = true :=
  beq_iff_eq.mpr (h.name.trans (Schema.type?_name hd))

/-- Each type was declared. -/
theorem Declares.mem {s : Schema} {W : Symbol → Vocabulary} {names : List Symbol}
    {queries : List Query} (h : Declares s W names queries) :
    ∀ n ∈ names, ∃ q ∈ queries, q.declares n = true := by
  induction h with
  | nil => simp
  | @cons name d decl asked names rest htype _ hdecl _ _ ih =>
    rw [List.forall_mem_cons]
    refine ⟨⟨.datatype decl, by simp, hdecl.declares htype⟩, ?_⟩
    intro n hn
    obtain ⟨q, hq, hdeclares⟩ := ih n hn
    exact ⟨q, List.mem_append_right _ (List.mem_cons_of_mem _ hq), hdeclares⟩

end DepSchema
