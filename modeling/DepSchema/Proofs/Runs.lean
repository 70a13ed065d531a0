/-
DepSchema.Proofs.Runs — what a run leaves behind, stage by stage.

A run that fails before the type check has asked nothing and has changed nothing. Otherwise the
order that was noted before is replaced, whatever it was, and the rest is the type check in the new
order. The new order lists the declared types, so the type check, which guards itself against
other orders, never gets to report one: neither the faults of names nor those of the types nor
those inside a declaration are faults of the order.

Nothing of the first two stages depends on the order that was noted before. So a second run finds
what the first one found, and with an oracle that does not remember it goes the same way to its end.

Main results: `Schema.nameFaults_areOfNames`, `StepwiseInside.sparing`,
`Schema.not_isOfOrder_of_typing`, `Schema.run_stages`.
-/
import DepSchema.Proofs.Names.Faults
import DepSchema.Proofs.Typing.Passes
import DepSchema.Proofs.Order.TypeOrder
import DepSchema.Pipeline

namespace DepSchema

/-! ## §1. Faults of names. -/

/-- The fault is about a name that is not declared, declared twice or unknown as a field. -/
def Cause.isOfNames : Cause → Bool
  | .undefinedType _ | .undefinedVariable _ | .undefinedFunction _ | .undefinedConstructor _
  | .redeclared _ _ | .unknownField _ _ => true
  | _ => false

theorem Cause.not_isOfOrder {cause : Cause} (h : cause.isOfNames = true) :
    cause.isOfOrder = false := by
  cases cause <;> first | rfl | cases h

/-- All faults are about names. -/
def AreOfNames (faults : List Diagnostic) : Prop := ∀ d ∈ faults, d.cause.isOfNames = true

namespace AreOfNames

theorem nil : AreOfNames [] := fun _ h => by cases h

theorem append {ds es : List Diagnostic} (hd : AreOfNames ds) (he : AreOfNames es) :
    AreOfNames (ds ++ es) :=
  fun d h => (List.mem_append.mp h).elim (hd d) (he d)

theorem flatMap {α : Type} {f : α → List Diagnostic} (h : ∀ a, AreOfNames (f a)) (as : List α) :
    AreOfNames (as.flatMap f) := by
  intro d hd
  obtain ⟨a, -, ha⟩ := List.mem_flatMap.mp hd
  exact h a d ha

/-- At most one fault, under a condition. -/
theorem ite {p : Bool} {span : Span} {cause : Cause} (h : cause.isOfNames = true := by rfl) :
    AreOfNames (if p then [.located span cause] else []) := by
  cases p with
  | false => exact nil
  | true =>
    intro d hd
    obtain rfl := List.mem_singleton.mp hd
    exact h

theorem demand (V : Declared) (i : Ident) {cause : Symbol → Cause}
    (h : ∀ n, (cause n).isOfNames = true := by exact fun _ => rfl) :
    AreOfNames (V.demand i cause) := by
  unfold Declared.demand
  split
  · exact nil
  · intro d hd
    obtain rfl := List.mem_singleton.mp hd
    exact h i.name

theorem redeclared (V : Declared) (kind : NameKind) (i : Ident) :
    AreOfNames (V.redeclared kind i) :=
  ite

mutual

theorem expr (known : Symbol → Symbol → Bool) (reading : Bool) :
    ∀ (V : Declared) (e : Expr), AreOfNames (e.faults known reading V)
  | V, .binary _ _ l r => (expr known reading V l).append (expr known reading _ r)
  | V, .unary _ _ x => expr known reading V x
  | V, .type _ i ps => (demand V i).append (exprs known reading V ps)
  | V, .access a => demand V a.var
  | _, .scalar _ _ => nil
  | V, .constructed _ c fs => (demand V c).append (inits known reading c.name _ V fs)
  | V, .collection _ es => exprs known reading V es
  | V, .call _ f as => (demand V f).append (exprs known reading V as)

theorem exprs (known : Symbol → Symbol → Bool) (reading : Bool) :
    ∀ (V : Declared) (es : List Expr), AreOfNames (Expr.faultsAll known reading V es)
  | _, [] => nil
  | V, e :: es => (expr known reading V e).append (exprs known reading _ es)

theorem inits (known : Symbol → Symbol → Bool) (reading : Bool) (ctor : Symbol) (defined : Bool) :
    ∀ (V : Declared) (fs : List (Named Expr)),
      AreOfNames (Expr.faultsFields known reading ctor defined V fs)
  | _, [] => nil
  | V, f :: fs => by
    unfold Expr.faultsFields
    refine (append ite ?_).append (inits known reading ctor defined _ fs)
    split
    · exact nil
    · exact expr known reading V f.val

end

theorem deps (known : Symbol → Symbol → Bool) :
    ∀ (V : Declared) (vs : List Variable), AreOfNames (Variable.depFaults known V vs)
  | _, [] => nil
  | V, v :: vs => (expr known false V v.type.toExpr).append (deps known _ vs)

theorem fields (known : Symbol → Symbol → Bool) :
    ∀ (V : Declared) (vs : List Variable), AreOfNames (Variable.fieldFaults known V vs)
  | _, [] => nil
  | V, v :: vs =>
    ((expr known false V v.type.toExpr).append (redeclared V _ _)).append (fields known _ vs)

theorem input (known : Symbol → Symbol → Bool) (V : Declared) (i : RuleInput) :
    AreOfNames (i.faults known V) := by
  unfold RuleInput.faults
  split
  · exact nil
  · split
    · exact nil
    · exact expr known true V _

theorem inputs (known : Symbol → Symbol → Bool) :
    ∀ (V : Declared) (is : List RuleInput), AreOfNames (RuleInput.faultsAll known V is)
  | _, [] => nil
  | V, i :: is => (input known V i).append (inputs known _ is)

theorem rule (known : Symbol → Symbol → Bool) (V : Declared) (r : Rule) :
    AreOfNames (r.faults known V) :=
  (inputs known V r.inputs).append (flatMap (fun _ => fields known _ _) _)

theorem typeDef (known : Symbol → Symbol → Bool) (V : Declared) (d : TypeDef) :
    AreOfNames (d.faults known V) := by
  cases d with
  | message m => exact (deps known V m.deps).append (fields known _ m.fields)
  | enum e => exact (deps known V e.deps).append (flatMap (fun r => rule known _ r) _)

mutual

theorem parameter (known : Symbol → Symbol → Bool) :
    ∀ (V : Declared) (t : ParameterType), AreOfNames (t.faults known V)
  | V, .value t => expr known false V t.toExpr
  | V, .function ps result =>
    (parameters known V ps).append (expr known false _ result.toExpr)

theorem parameters (known : Symbol → Symbol → Bool) :
    ∀ (V : Declared) (ps : List (Named ParameterType)),
      AreOfNames (ParameterType.faultsAll known V ps)
  | _, [] => nil
  | V, p :: ps =>
    ((parameter known V p.val).append (redeclared V _ _)).append (parameters known _ ps)

end

theorem functionDef (known : Symbol → Symbol → Bool) (V : Declared) (f : FunctionDef) :
    AreOfNames (f.faults known V) := by
  unfold FunctionDef.faults
  refine ((parameters known V f.params).append (expr known false _ f.result.toExpr)).append ?_
  cases f.body with
  | none => exact nil
  | some body => exact expr known false _ body

theorem globals : ∀ (V : Declared) (names : List (NameKind × Ident)),
    AreOfNames (V.globalFaults names)
  | _, [] => nil
  | V, (kind, i) :: rest => (redeclared V kind i).append (globals _ rest)

end AreOfNames

/-- **Name faults are about names**, all of them. -/
theorem Schema.nameFaults_areOfNames (s : Schema) : AreOfNames s.nameFaults := by
  rw [nameFaults_eq]
  refine ((AreOfNames.globals _ _).append ?_ |>.append
    (.flatMap (fun d => .typeDef _ _ d) _)).append (.flatMap (fun f => .functionDef _ _ f) _)
  intro d hd
  obtain ⟨⟨i, kind⟩, -, rfl⟩ := List.mem_map.mp hd
  rfl

/-! ## §2. Faults of the order. -/

namespace Check

variable {α β : Type} {binds : Bool}

/-- The check fails for no reason of the order of the types. -/
def Sparing (x : Check α) : Prop :=
  ∀ c s d, (x c s).1 = .error d → d.cause.isOfOrder = false

theorem Sparing.bind {x : Check α} {f : α → Check β} (hx : x.Sparing) (hf : ∀ a, (f a).Sparing) :
    (x >>= f).Sparing := by
  intro c s d hd
  rcases hrun : x c s with ⟨e | a, t⟩
  · rw [bind_error hrun] at hd
    cases hd
    exact hx c s d (by rw [hrun])
  · rw [bind_ok hrun] at hd
    exact hf a c t d hd

theorem sparing_ask (q : Query) : (ask q).Sparing := by
  intro c s d hd
  unfold ask at hd
  dsimp only at hd
  cases horacle : c.oracle s.queries q with
  | ok a =>
    rw [horacle] at hd
    cases hd
  | error e =>
    -- what the oracle says is reported as it is
    rw [horacle] at hd
    cases hd
    rfl

theorem sparing_ofSubstitution (r : Except AccessError α) : (ofSubstitution r).Sparing := by
  intro c s d hd
  cases r with
  | ok a => cases hd
  | error e =>
    cases hd
    rfl

/-- **No fault inside a declaration is one of the order.** -/
theorem StepwiseInside.sparing {x : Check α} (h : StepwiseInside binds x) : x.Sparing := by
  induction h with
  | pure | schema | meaning? | note | introduce => exact fun c s d hd => by cases hd
  | bind _ _ hx hf => exact hx.bind hf
  | fail span cause h =>
    intro c s d hd
    cases hd
    exact h
  | ofSubstitution r => exact sparing_ofSubstitution r
  | underCurrent t => exact fun c s => sparing_ofSubstitution _ c s
  | introduceIfReading o b _ _ hx hy =>
    intro c s
    -- which of the two is run is decided by the state, and neither fails for the order
    rcases introduceIfReading_or o b _ _ s with heq | ⟨-, v, -, heq⟩ <;> rw [heq]
    · exact hx.bind hy c s
    · exact hy () c { s with scopes := s.scopes.bind v.name b }
  | replace n e =>
    intro c s d hd
    unfold Check.replace at hd
    cases hadd : s.substitution.add n e with
    | ok σ =>
      rw [hadd] at hd
      cases hd
    | error err =>
      rw [hadd] at hd
      cases hd
      rfl
  | askEqual e g => exact fun c s => sparing_ask (.equal e g s.scopes) c s
  | inScope _ hx => exact fun c s => hx c s.opened
  | readInput _ hx => exact fun c s => hx c { s with readingInput := true }

end Check

namespace Typing

open Check

variable {c : Setting}

theorem sparing_checkTypeDef (d : TypeDef) : (checkTypeDef d).Sparing := by
  have hbody : StepwiseInside false (inScope (typeBody d)) := .inScope (stepwise_typeBody d)
  have hvariants : StepwiseInside false (variants d.constructors) := stepwise_variants _
  refine hbody.sparing.bind fun _ => hvariants.sparing.bind fun _ => (sparing_ask _).bind ?_
  exact fun _ c s e he => by cases he

theorem sparing_declareIfSorted (f : FunctionDef) : (declareIfSorted f).Sparing := by
  unfold declareIfSorted
  split
  · exact fun c s e he => by cases he
  · split
    · exact (sparing_ask _).bind fun _ c s e he => by cases he
    · exact fun c s e he => by cases he

theorem sparing_checkFunctionDef (f : FunctionDef) : (checkFunctionDef f).Sparing :=
  (stepwiseInside_checkFunctionDef f : StepwiseInside false _).sparing

theorem sparing_forM {f : FunctionDef → Check Unit} (h : ∀ a, (f a).Sparing)
    (fs : List FunctionDef) : (fs.forM f).Sparing := by
  induction fs with
  | nil => exact fun c s e he => by cases he
  | cons a fs ih => exact (h a).bind fun _ => ih

/-- An order of declared names is never reported to have another one. -/
theorem not_isOfOrder_of_checkTypes {names : List Symbol}
    (h : ∀ n ∈ names, (c.schema.type? n).isSome) : ∀ (s : Checking) (d : Diagnostic),
      (checkTypes names c s).1 = .error d → d.cause.isOfOrder = false := by
  induction names with
  | nil =>
    intro s d hd
    cases hd
  | cons name names ih =>
    intro s d hd
    rw [List.forall_mem_cons] at h
    obtain ⟨type, htype⟩ := Option.isSome_iff_exists.mp h.1
    unfold checkTypes at hd
    rw [bind_ok (show Check.schema c s = (.ok c.schema, s) from rfl), htype] at hd
    dsimp only at hd
    rw [bind_ok (show note (.typeStarted name type.kind) c s = _ from rfl)] at hd
    rcases hrun : checkTypeDef type c (s.note (.typeStarted name type.kind)) with ⟨e | u, t⟩
    · rw [bind_error hrun] at hd
      exact sparing_checkTypeDef type c _ d (by rw [hrun]; exact hd)
    · rw [bind_ok hrun] at hd
      exact ih h.2 t d hd

end Typing

namespace Schema

variable {s : Schema} {oracle : Oracle}

/-- **In an order of its types, no schema is reported to have none.** -/
theorem not_isOfOrder_of_typing (hordered : s.Ordered) {d : Diagnostic}
    (h : (s.typing oracle).1 = .error d) : d.cause.isOfOrder = false := by
  -- the order passes both guards: it is as long as it has to be, with declared names only
  have hlen : s.visitOrder.length = s.types.length := by
    rw [hordered.length_eq, typeNames, List.length_map]
  have hdeclared : ∀ n ∈ s.visitOrder, (s.type? n).isSome :=
    fun n hn => isSome_type?.mpr (hordered.mem_iff.mp hn)
  unfold typing Typing.checkSchema at h
  rw [Check.bind_ok (show Check.schema ⟨s, oracle⟩ .start = (.ok s, .start) from rfl),
    if_neg (not_not.mpr hlen)] at h
  dsimp only at h
  rcases hrun : Typing.checkTypes s.visitOrder ⟨s, oracle⟩ .start with ⟨e | u, t⟩
  · rw [Check.bind_error hrun] at h
    exact Typing.not_isOfOrder_of_checkTypes hdeclared .start d (by rw [hrun]; exact h)
  · rw [Check.bind_ok hrun] at h
    -- after the types come checks that know nothing of the order
    have hrest := (Typing.sparing_forM Typing.sparing_declareIfSorted s.functions).bind fun _ =>
      Typing.sparing_forM Typing.sparing_checkFunctionDef s.functions
    exact hrest ⟨s, oracle⟩ t d h

/-! ## §3. Stages. -/

variable {t : SymbolTable} {order : List Symbol}

theorem nameFaults_withOrder (s : Schema) (order : List Symbol) :
    (s.withOrder order).nameFaults = s.nameFaults := rfl

theorem typeOrder_withOrder (t : SymbolTable) (s : Schema) (order : List Symbol) :
    (s.withOrder order).typeOrder t = s.typeOrder t := rfl

theorem checkWith_of_faults (h : s.nameFaults ≠ []) :
    s.checkWith t oracle = ⟨.error s.nameFaults, s, [],
      s.resolution ++ [.namesFailed s.nameFaults.length]⟩ := by
  obtain ⟨d, ds, hfaults⟩ := List.exists_cons_of_ne_nil h
  unfold checkWith
  rw [hfaults]

theorem checkWith_of_cycle (h : s.nameFaults = []) {d : Diagnostic}
    (ho : s.typeOrder t = .error d) :
    s.checkWith t oracle
      = ⟨.error [d], s, [], s.resolution ++ s.orderEvents t ++ [.orderFailed 1]⟩ := by
  unfold checkWith orderStage
  rw [h, ho]

theorem checkWith_of_order (h : s.nameFaults = []) (ho : s.typeOrder t = .ok order) :
    s.checkWith t oracle
      = (s.withOrder order).typeStage oracle (s.resolution ++ s.orderEvents t) := by
  unfold checkWith orderStage
  rw [h, ho]

/-- The type check leaves the schema as it is and reports at most one fault. -/
theorem typeStage_eq (s : Schema) (oracle : Oracle) (before : List Event) :
    (s.typeStage oracle before).schema = s
      ∧ (s.typeStage oracle before).queries = (s.typing oracle).2.queries
      ∧ (s.typeStage oracle before).result = (s.typing oracle).1.mapError fun d => [d] := by
  unfold typeStage
  rcases s.typing oracle with ⟨d | u, state⟩ <;> exact ⟨rfl, rfl, rfl⟩

/-- A run does not depend on the order that was noted before, if it gets as far as finding one. -/
theorem checkWith_withOrder (h : s.nameFaults = []) (ho : s.typeOrder t = .ok order)
    (oracle : Oracle) (prior : List Symbol) :
    (s.withOrder prior).checkWith t oracle = s.checkWith t oracle := by
  have hagain := (nameFaults_withOrder s prior).trans h
  have hsame := (typeOrder_withOrder t s prior).trans ho
  rw [checkWith_of_order h ho, checkWith_of_order hagain hsame]
  rfl

/-- **A second run on what a run leaves behind is the same run.** -/
theorem checkWith_again (t : SymbolTable) (oracle : Oracle) (s : Schema) :
    (s.checkWith t oracle).schema.checkWith t oracle = s.checkWith t oracle := by
  by_cases h : s.nameFaults = []
  · cases ho : s.typeOrder t with
    | error d => rw [checkWith_of_cycle h ho, checkWith_of_cycle h ho]
    | ok order =>
      have hleft : (s.checkWith t oracle).schema = s.withOrder order := by
        rw [checkWith_of_order h ho, (typeStage_eq _ _ _).1]
      rw [hleft, checkWith_withOrder h ho]
  · rw [checkWith_of_faults h, checkWith_of_faults h]

end Schema

/-- The answers of the oracle depend on the query alone. -/
def Oracle.Memoryless (o : Oracle) : Prop := ∀ past past' q, o past q = o past' q

/-- The oracle after it was asked some queries. -/
def Oracle.after (o : Oracle) (asked : List Query) : Oracle := fun past q => o (asked ++ past) q

theorem Oracle.Memoryless.after {o : Oracle} (h : o.Memoryless) (asked : List Query) :
    o.after asked = o := by
  funext past q
  exact h _ _ q

/-! ## §4. Runs. -/

namespace Schema

/-- **What a run leaves behind.** With name faults it reports these, and with a cycle of types it
reports the cycle; either way it has asked nothing, and the schema is what it was. Otherwise the
order of the types is noted in place of whatever was noted before, and the rest is the type check in
that order, the same for each order that could have been noted, with at most one fault. No run
reports that the order is incomplete or has an undeclared name. With an oracle that does not
remember, a second run, by the oracle as the first one leaves it and on the schema that it leaves,
ends in the same result and the same schema. -/
theorem run_stages (t : SymbolTable) {s : Schema} (hs : s.Keyed) (oracle : Oracle) :
    let run := s.checkWith t oracle
    (s.nameFaults ≠ [] → run.result = .error s.nameFaults ∧ run.queries = [] ∧ run.schema = s)
      ∧ (s.nameFaults = [] → ∀ d, s.typeOrder t = .error d →
          run.result = .error [d] ∧ run.queries = [] ∧ run.schema = s)
      ∧ (s.nameFaults = [] → ∀ order, s.typeOrder t = .ok order →
          run.schema = s.withOrder order ∧ run.schema.Ordered
            ∧ run.queries = ((s.withOrder order).typing oracle).2.queries
            ∧ run.result = ((s.withOrder order).typing oracle).1.mapError (fun d => [d])
            ∧ ∀ prior, (s.withOrder prior).checkWith t oracle = run)
      ∧ (∀ ds, run.result = .error ds → ds ≠ [] ∧ ∀ d ∈ ds, d.cause.isOfOrder = false)
      ∧ (oracle.Memoryless →
          let again := run.schema.checkWith t (oracle.after run.queries)
          again.result = run.result ∧ again.schema = run.schema) := by
  intro run
  refine ⟨fun h => ?_, fun h d ho => ?_, fun h order ho => ?_, fun ds hds => ?_, fun horacle => ?_⟩
  · rw [show run = _ from checkWith_of_faults h]
    exact ⟨rfl, rfl, rfl⟩
  · rw [show run = _ from checkWith_of_cycle h ho]
    exact ⟨rfl, rfl, rfl⟩
  · have hrun : run = _ := checkWith_of_order h ho
    obtain ⟨hschema, hqueries, hresult⟩ :=
      typeStage_eq (s.withOrder order) oracle (s.resolution ++ s.orderEvents t)
    refine ⟨?_, ?_, ?_, ?_, checkWith_withOrder h ho oracle⟩
    · rw [hrun, hschema]
    · rw [hrun, hschema]
      exact ordered_of_typeOrder hs.types ho
    · rw [hrun, hqueries]
    · rw [hrun, hresult]
  · by_cases h : s.nameFaults = []
    · cases ho : s.typeOrder t with
      | error d =>
        obtain ⟨cycle, -, rfl⟩ := typeOrder_eq_error.mp ho
        rw [show run = _ from checkWith_of_cycle h ho] at hds
        cases hds
        exact ⟨List.cons_ne_nil _ _, List.forall_mem_singleton.mpr rfl⟩
      | ok order =>
        -- the type check comes with an order of the types
        rw [show run = _ from checkWith_of_order h ho, (typeStage_eq _ _ _).2.2] at hds
        cases htyping : ((s.withOrder order).typing oracle).1 with
        | ok u =>
          rw [htyping] at hds
          cases hds
        | error d =>
          rw [htyping] at hds
          cases hds
          refine ⟨List.cons_ne_nil _ _, List.forall_mem_singleton.mpr ?_⟩
          exact not_isOfOrder_of_typing (ordered_of_typeOrder hs.types ho) htyping
    · rw [show run = _ from checkWith_of_faults h] at hds
      cases hds
      exact ⟨h, fun d hd => Cause.not_isOfOrder (s.nameFaults_areOfNames d hd)⟩
  · rw [horacle.after]
    have hagain : run.schema.checkWith t oracle = run := checkWith_again t oracle s
    rw [hagain]
    exact ⟨rfl, rfl⟩

/-- The album with a stale order, by an oracle that finds everything equal: the order is replaced,
and a second run leaves the same behind. -/
theorem run_album :
    let s := (ofDeclarations Example.album).withOrder [⟨9⟩, ⟨9⟩]
    let oracle : Oracle := fun _ _ => .ok true
    let run := s.checkWith Example.names oracle
    run.schema.visitOrder = [⟨7⟩, ⟨8⟩, ⟨9⟩]
      ∧ (run.schema.checkWith Example.names (oracle.after run.queries)).schema = run.schema := by
  intro s oracle run
  have hkeyed : s.Keyed := (keyed_ofDeclarations Example.album).withOrder _
  have hnames : s.nameFaults = [] := by cbv
  have horder : s.typeOrder Example.names = .ok [⟨7⟩, ⟨8⟩, ⟨9⟩] := by cbv
  have hmemoryless : oracle.Memoryless := fun _ _ _ => rfl
  have hstages := run_stages Example.names hkeyed oracle
  have hleft : run.schema = s.withOrder [⟨7⟩, ⟨8⟩, ⟨9⟩] :=
    (hstages.2.2.1 hnames _ horder).1
  refine ⟨?_, (hstages.2.2.2.2 hmemoryless).2⟩
  rw [hleft]
  rfl

end Schema

end DepSchema
