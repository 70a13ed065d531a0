/-
DepSchema.Proofs.Substitution.Failures — when a substitution fails.

A schema is checked by substituting everywhere: parameters for dependencies, values for fields,
arguments for parameters, rule inputs for dependencies. Where the types and rule inputs that are
written in the schema fit, none of this fails because of a field that is not there, whatever the
bodies of functions contain, whatever the oracle answers and in whatever order the types are
checked. What remains is the result of a call, which is followed into like a value and is none.

The check of names does not see to it that types and rule inputs fit. So there are schemas without
name faults whose check ends with a substitution that failed, for each of the three reasons.

Main results: `Schema.illFormed_of_typing` and `Schema.substitution_reported`.
-/
import DepSchema.Proofs.Substitution.Values
import DepSchema.Proofs.Typing.Undefined

namespace DepSchema

namespace Typing

open Check

variable {c : Setting} {B : Binding → Prop} {Γ Γ' : Heads}

/-! ## §1. Well-formed types. -/

theorem follows_requireParams (t : TypeExpr) (arity : Nat) :
    Follows c B Γ (requireParams t arity) fun _ => True :=
  .ite (fun _ => .pure trivial) fun _ => .fail

/-- Each parameter has passed its check before it stands for its dependency. -/
theorem follows_checkParams (hs : c.schema.WellShaped) (deps : List Variable) :
    ∀ (params : List Expr) {σ : Substitution}, σ.Supports c.schema Γ' →
      (∀ v ∈ deps, v.type.Fits c.schema Γ' ∧ (v.name.name, some v.type.name) ∈ Γ') →
      Follows c c.schema.Binds Γ (checkParams σ deps params) fun _ => True := by
  induction deps with
  | nil => exact fun _ _ _ _ => .pure trivial
  | cons dep deps ih =>
    intro params σ hσ hdeps
    rw [List.forall_mem_cons] at hdeps
    obtain ⟨⟨hfits, hmem⟩, hdeps⟩ := hdeps
    cases params with
    | nil => exact .pure trivial
    | cons param params =>
      refine (Follows.under hσ hfits).bind fun type htype => ?_
      refine (follows_checkValue hs param type htype.2).bind fun _ hparam => ?_
      refine ih params (hσ.bind hmem fun T hT => ?_) hdeps
      cases hT
      exact htype.1 ▸ hparam

theorem follows_requireFormedLength (hs : c.schema.WellShaped) (params : List Expr) :
    Follows c c.schema.Binds Γ (requireFormedLength params) fun _ => True := by
  unfold requireFormedLength
  split
  · next length _ =>
    have hunsigned : c.schema.type? .unsigned = none := hs.builtins _ (by decide)
    exact (follows_checkValue hs length _ (TypeExpr.supports_builtin hunsigned _)).mono
      fun _ _ => trivial
  · exact .pure trivial

mutual

theorem follows_requireFormedExpr (hs : c.schema.WellShaped) :
    ∀ e : Expr, Follows c c.schema.Binds Γ (requireFormedExpr e) fun _ => True
  | .type span i ps => by
    unfold requireFormedExpr
    refine .ite (fun _ => follows_requireParams _ _) fun _ => .ite (fun _ => ?_) fun _ =>
      .ite (fun _ => ?_) fun _ => ?_
    · refine (follows_requireParams _ _).bind fun _ _ => ?_
      refine (follows_requireFormedElement hs ⟨span, i, ps⟩ ps).bind fun _ _ => ?_
      exact follows_requireFormedLength hs ps
    · refine (follows_requireParams _ _).bind fun _ _ => ?_
      exact follows_requireFormedElement hs ⟨span, i, ps⟩ ps
    · refine Follows.schema.bind fun s hschema => ?_
      subst hschema
      refine (Follows.getSome).bind fun deps hdeps => ?_
      obtain ⟨d, hd, rfl⟩ := Option.map_eq_some_iff.mp hdeps
      refine (follows_requireParams _ _).bind fun _ _ => ?_
      exact follows_checkParams hs d.deps ps (Substitution.supports_empty (Variable.heads d.deps))
        fun v hv => ⟨hs.deps d (Schema.mem_of_type? hd) v hv, List.mem_map_of_mem hv⟩
  | .binary _ _ _ _ => .pure trivial
  | .unary _ _ _ => .pure trivial
  | .access _ => .pure trivial
  | .scalar _ _ => .pure trivial
  | .constructed _ _ _ => .pure trivial
  | .collection _ _ => .pure trivial
  | .call _ _ _ => .pure trivial

theorem follows_requireFormedElement (hs : c.schema.WellShaped) (collection : TypeExpr) :
    ∀ ps : List Expr,
      Follows c c.schema.Binds Γ (requireFormedElement collection ps) fun _ => True
  | [] => .fail
  | e :: _ => by
    unfold requireFormedElement
    split
    · exact follows_requireFormedExpr hs e
    · exact .fail

end

/-! ## §2. Types. -/

theorem follows_introduceVariables (hs : c.schema.WellShaped) (vars : List Variable)
    (h : ∀ v ∈ vars, v.type.Fits c.schema Γ) :
    Follows c c.schema.Binds Γ (introduceVariables vars) fun _ => True := by
  induction vars with
  | nil => exact .pure trivial
  | cons v vars ih =>
    rw [List.forall_mem_cons] at h
    unfold introduceVariables
    refine (Follows.underCurrent h.1).bind fun type htype => ?_
    refine (follows_requireFormedExpr hs type.toExpr).bind fun _ _ => ?_
    exact (Follows.introduce v.name.name (b := .value type) htype.2).bind fun _ _ => ih h.2

/-- Each input has the shape of its dependency, which it then stands for. -/
theorem follows_checkInputs (hs : c.schema.WellShaped) (inputs : List RuleInput) :
    ∀ deps : List Variable,
      (∀ v ∈ deps, v.type.Fits c.schema Γ ∧ (v.name.name, some v.type.name) ∈ Γ) →
      (∀ v e, (RuleInput.value e, v) ∈ inputs.zip deps → e.Fits c.schema Γ v.type.name) →
      Follows c c.schema.Binds Γ (checkInputs inputs deps) fun _ => True := by
  induction inputs with
  | nil =>
    intro deps _ _
    cases deps <;> exact .pure trivial
  | cons input inputs ih =>
    intro deps hdeps hinputs
    cases deps with
    | nil => cases input <;> exact .pure trivial
    | cons dep deps =>
      rw [List.forall_mem_cons] at hdeps
      obtain ⟨⟨hfits, hmem⟩, hdeps⟩ := hdeps
      have hrest := ih deps hdeps fun v e hv => hinputs v e (List.mem_cons_of_mem _ hv)
      cases input with
      | any span => exact hrest
      | value p =>
        have hp : p.Fits c.schema Γ dep.type.name := hinputs dep p List.mem_cons_self
        unfold checkInputs
        refine (Follows.underCurrent hfits).bind fun type htype => ?_
        have hreplace := (Follows.replace (B := c.schema.Binds) hmem hp).bind fun _ _ => hrest
        split
        · next v _ =>
          exact (Follows.introduce v.name (b := .value type) htype.2).bind fun _ _ => hreplace
        · refine (Follows.readInput (follows_checkValue hs p type htype.2)).bind fun _ _ => ?_
          exact hreplace

theorem follows_checkConstructors (hs : c.schema.WellShaped) (ks : List Constructor)
    (h : ∀ k ∈ ks, ∀ v ∈ k.fields, v.type.Fits c.schema Γ) :
    Follows c c.schema.Binds Γ (checkConstructors ks) fun _ => True := by
  induction ks with
  | nil => exact .pure trivial
  | cons k ks ih =>
    rw [List.forall_mem_cons] at h
    have hscope : Follows c c.schema.Binds Γ (inScope (introduceVariables k.fields))
        fun _ => True :=
      .inScope (stepwise_introduceVariables k.fields).framed
        (follows_introduceVariables hs k.fields h.1) (fun _ hb => hb) (List.Subset.refl Γ)
    exact hscope.bind fun _ _ => ih h.2

theorem follows_checkRule (hs : c.schema.WellShaped) {e : Enum} (he : .enum e ∈ c.schema.types)
    {rule : Rule} (hrule : rule ∈ e.rules) :
    Follows c c.schema.Binds (Variable.heads e.deps) (checkRule e rule) fun _ => True := by
  have hshapely := hs.rules e he rule hrule
  have hframed : (checkInputs rule.inputs e.deps >>= fun _ =>
      checkConstructors rule.constructors).Framed :=
    ((stepwise_checkInputs _ _).bind fun _ => stepwise_checkConstructors _).framed
  unfold checkRule
  refine .guard fun _ => .inScope hframed ?_ (fun _ hb => hb) (List.Subset.refl _)
  refine (follows_checkInputs hs rule.inputs e.deps (fun v hv => ⟨hs.deps _ he v hv, ?_⟩)
    hshapely.inputs).bind fun _ _ => ?_
  · exact List.mem_map_of_mem hv
  · refine follows_checkConstructors hs rule.constructors fun k hk v hv => ?_
    exact (hshapely.fields k hk v hv).mono fun _ h =>
      List.mem_append_left _ (List.mem_append_left _ h)

theorem follows_checkRules (hs : c.schema.WellShaped) {e : Enum} (he : .enum e ∈ c.schema.types)
    (rules : List Rule) (h : ∀ rule ∈ rules, rule ∈ e.rules) :
    Follows c c.schema.Binds (Variable.heads e.deps) (checkRules e rules) fun _ => True := by
  induction rules with
  | nil => exact .pure trivial
  | cons rule rules ih =>
    rw [List.forall_mem_cons] at h
    exact (follows_checkRule hs he h.1).bind fun _ _ => ih h.2

theorem follows_typeBody (hs : c.schema.WellShaped) {d : TypeDef} (hd : d ∈ c.schema.types) :
    Follows c c.schema.Binds (Variable.heads d.deps) (typeBody d) fun _ => True := by
  refine (follows_introduceVariables hs d.deps (hs.deps d hd)).bind fun _ _ => ?_
  cases d with
  | message m =>
    refine follows_introduceVariables hs m.fields fun v hv => ?_
    exact (hs.fields m hd v hv).mono (List.subset_append_left _ _)
  | enum e => exact follows_checkRules hs hd e.rules fun _ h => h

theorem follows_sortedFields (fields : List Variable) :
    Follows c B Γ (sortedFields fields) fun _ => True := by
  induction fields with
  | nil => exact .pure trivial
  | cons v vs ih =>
    unfold sortedFields
    exact (Follows.getSome).bind fun _ _ => ih.bind fun _ _ => .pure trivial

theorem follows_variants (ks : List Constructor) :
    Follows c B Γ (variants ks) fun _ => True := by
  induction ks with
  | nil => exact .pure trivial
  | cons k ks ih =>
    unfold variants
    exact (follows_sortedFields _).bind fun _ _ => ih.bind fun _ _ => .pure trivial

/-- **The check of a type takes no field that is not there.** -/
theorem follows_checkTypeDef (hs : c.schema.WellShaped) {d : TypeDef} (hd : d ∈ c.schema.types) :
    Follows c c.schema.Binds [] (checkTypeDef d) fun _ => True := by
  have hscope : Follows c c.schema.Binds [] (inScope (typeBody d)) fun _ => True :=
    .inScope (stepwise_typeBody d).framed (follows_typeBody hs hd) (fun _ hb => hb)
      (List.nil_subset _)
  refine hscope.bind fun _ _ => (follows_variants d.constructors).bind fun _ _ => ?_
  exact (Follows.ask _).bind fun _ _ => .pure trivial

/-! ## §3. Functions. -/

mutual

theorem follows_checkParameter (hs : c.schema.WellShaped) :
    ∀ type : ParameterType, type.Fits c.schema Γ →
      (∀ qs result, type = .function qs result → c.schema.HasFunction ⟨qs, result⟩) →
      Follows c c.schema.Binds Γ (checkParameter type) c.schema.Binds
  | .value t, ht, _ => by
    unfold checkParameter
    refine (Follows.underCurrent ht).bind fun type htype => ?_
    exact (follows_requireFormedExpr hs type.toExpr).bind fun _ _ => .pure htype.2
  | .function ps result, ht, hfunction => by
    have hft := hfunction ps result rfl
    have hframed : (introduceParameters ps >>= fun _ =>
        underCurrent result >>= fun type => requireFormed type).Framed := by
      refine ((stepwise_introduceParameters ps).bind fun _ => ?_).framed
      exact (StepwiseInside.underCurrent _).bind fun _ => stepwise_requireFormed _
    unfold checkParameter
    refine (Follows.inScope hframed (Q := fun _ => True) ?_ (fun _ hb => hb)
      (List.Subset.refl Γ)).bind fun _ _ => .pure hft
    refine (follows_introduceParameters hs ps ht.1 fun p hp qs r hval =>
      .parameter hft hp hval).bind fun _ _ => ?_
    refine (Follows.underCurrent ht.2).bind fun type _ => ?_
    exact follows_requireFormedExpr hs type.toExpr

theorem follows_introduceParameters (hs : c.schema.WellShaped) :
    ∀ ps : List (Named ParameterType), ParameterType.AllFit c.schema Γ ps →
      (∀ p ∈ ps, ∀ qs result, p.val = .function qs result → c.schema.HasFunction ⟨qs, result⟩) →
      Follows c c.schema.Binds Γ (introduceParameters ps) fun _ => True
  | [], _, _ => .pure trivial
  | p :: ps, hps, hfunctions => by
    rw [List.forall_mem_cons] at hfunctions
    unfold introduceParameters
    refine (follows_checkParameter hs p.val hps.1 hfunctions.1).bind fun b hb => ?_
    refine (Follows.introduce p.name.name hb).bind fun _ _ => ?_
    exact follows_introduceParameters hs ps hps.2 hfunctions.2

end

/-- **The check of a function takes no field that is not there**, whatever the function does. -/
theorem follows_checkFunctionDef (hs : c.schema.WellShaped) {f : FunctionDef}
    (hf : f ∈ c.schema.functions) :
    Follows c c.schema.Binds [] (checkFunctionDef f) fun _ => True := by
  have hft : c.schema.HasFunction f.signature := .declared hf
  obtain ⟨hparams, hresult⟩ := hs.functions f.signature hft
  refine (Follows.note _).bind fun _ _ => .inScope (stepwise_functionBody f).framed
    ?_ (fun _ hb => hb) (List.nil_subset (ParameterType.heads f.params))
  refine (follows_introduceParameters hs f.params hparams fun p hp qs result hval =>
    .parameter hft hp hval).bind fun _ _ => ?_
  refine (Follows.underCurrent hresult).bind fun type htype => ?_
  refine (follows_requireFormedExpr hs type.toExpr).bind fun _ _ => ?_
  cases f.body with
  | some body => exact (follows_checkValue hs body type htype.2).mono fun _ _ => trivial
  | none => exact .pure trivial

theorem follows_declareIfSorted (f : FunctionDef) :
    Follows c B Γ (declareIfSorted f) fun _ => True := by
  unfold declareIfSorted
  split
  · exact .note _
  · split
    · exact (Follows.ask _).bind fun _ _ => .pure trivial
    · exact .pure trivial

/-! ## §4. Schemas. -/

theorem follows_checkTypes (hs : c.schema.WellShaped) (names : List Symbol) :
    Follows c c.schema.Binds [] (checkTypes names) fun _ => True := by
  induction names with
  | nil => exact .pure trivial
  | cons name names ih =>
    unfold checkTypes
    refine Follows.schema.bind fun s hschema => ?_
    subst hschema
    cases htype : c.schema.type? name with
    | none => exact Follows.bind (P := fun _ => False) .failUnlocated fun _ h => h.elim
    | some d =>
      refine (Follows.note _).bind fun _ _ => ?_
      exact (follows_checkTypeDef hs (Schema.mem_of_type? htype)).bind fun _ _ => ih

theorem follows_checkSchema (hs : c.schema.WellShaped) :
    Follows c c.schema.Binds [] checkSchema fun _ => True := by
  unfold checkSchema
  refine Follows.schema.bind fun s hschema => ?_
  subst hschema
  refine .ite (fun _ => ?_) fun _ => ?_
  · exact Follows.bind (P := fun _ => False) .failUnlocated fun _ h => h.elim
  · refine (follows_checkTypes hs _).bind fun _ _ => ?_
    refine (Follows.forM fun f _ => follows_declareIfSorted f).bind fun _ _ => ?_
    exact .forM fun f hf => follows_checkFunctionDef hs hf

end Typing

namespace Schema

/-- **Where types and rule inputs fit, no substitution fails but at the result of a call**, and only
if some function gives a message. This holds for all oracles, all orders of the types and whatever
the bodies of functions contain. -/
theorem illFormed_of_typing {s : Schema} (hs : s.Keyed) (hregistered : s.Registered)
    (hnames : s.nameFaults = []) (hshapely : s.Shapely) {oracle : Oracle} {d : Diagnostic}
    (h : (s.typing oracle).1 = .error d) {err : AccessError} (hd : d.cause = .substitution err) :
    err.fault = .illFormed ∧ s.ReturnsMessage := by
  have hwell := hshapely.wellShaped hs hregistered hnames
  have hends := Typing.follows_checkSchema (c := ⟨s, oracle⟩) hwell .start
    (Checking.supports_start s s.Binds [])
  rcases hrun : s.typing oracle with ⟨d' | u, t⟩ <;> rw [hrun] at h
  · cases h
    replace hends : Check.Ends s s.Binds [] _ (s.typing oracle) := hends
    rw [hrun] at hends
    replace hends : s.Admits d.cause := hends
    rwa [hd] at hends
  · cases h

namespace Example

/-- The message 7 has a number as its field 8. -/
def sized : Declaration := .type (.message ⟨ident 7, [], [field 8 1 []]⟩)

/-- A value of that message. -/
def sizedTwo : Expr := .constructed ⟨0, 0⟩ (ident 7) [⟨ident 8, unsigned 2⟩]

/-- An array as the field 12, as long as a field of the variable 10 says. -/
def array (length : UInt32) : Variable :=
  ⟨ident 12, ints (.access ⟨⟨0, 0⟩, ident 10, [ident length]⟩)⟩

/-- A value of that field. -/
def twoInts : Named Expr :=
  ⟨ident 12, .collection ⟨0, 0⟩ [.scalar ⟨0, 0⟩ (.int 1), .scalar ⟨0, 0⟩ (.int 2)]⟩

/-- The rule of 9 binds the number of its dependency 10, and to the name 10. -/
def boundToDependency : List Declaration :=
  [sized, .type (.enum ⟨ident 9, [field 10 7 []],
      [⟨[.value (.constructed ⟨0, 0⟩ (ident 7) [⟨ident 8, var 10⟩])], [⟨ident 11, [array 8]⟩]⟩]⟩),
    .function ⟨ident 13, [], type 9 [sizedTwo],
      some (.constructed ⟨0, 0⟩ (ident 11) [twoInts])⟩]

/-- In the rule of 9 a field 14 is taken from the dependency 10, which has none. -/
def takenFromInput : List Declaration :=
  [sized, .type (.enum ⟨ident 9, [field 10 7 []],
    [⟨[.value sizedTwo], [⟨ident 11, [array 14]⟩]⟩]⟩)]

/-- The field 10 of 9 is the result of a call, and the number is taken from that. -/
def takenFromCall : List Declaration :=
  [sized, .type (.message ⟨ident 9, [], [field 10 7 [], array 8]⟩),
    .function ⟨ident 13, [], type 7 [], none⟩,
    .function ⟨ident 14, [], type 9 [],
      some (.constructed ⟨0, 0⟩ (ident 9) [⟨ident 10, .call ⟨0, 0⟩ (ident 13) []⟩, twoInts])⟩]

end Example

theorem shapely_takenFromCall :
    ((ofDeclarations Example.takenFromCall).withOrder [⟨7⟩, ⟨9⟩]).Shapely := by
  set s := (ofDeclarations Example.takenFromCall).withOrder [⟨7⟩, ⟨9⟩]
  have htypes : s.types = [.message ⟨Example.ident 7, [], [Example.field 8 1 []]⟩,
      .message ⟨Example.ident 9, [], [Example.field 10 7 [], Example.array 8]⟩] := rfl
  -- no function has a parameter, so none has one that is a function
  have hfunctions : ∀ ft, s.HasFunction ft → ft.params = [] ∧ ft.result.params = [] := by
    intro ft hft
    induction hft with
    | declared hf =>
      have hsignatures : ∀ f ∈ s.functions, f.params = [] ∧ f.result.params = [] := by
        decide
      exact hsignatures _ hf
    | parameter _ hp _ ih =>
      rw [ih.1] at hp
      cases hp
  refine ⟨?_, ?_, ?_, fun ft hft => ?_⟩
  · simp [htypes, TypeDef.deps]
  · intro m hm v hv
    simp only [htypes, List.mem_cons, TypeDef.message.injEq, List.not_mem_nil, or_false] at hm
    rcases hm with rfl | rfl
    · obtain rfl := List.mem_singleton.mp hv
      exact TypeExpr.fits_of_params rfl
    · simp only [List.mem_cons, List.not_mem_nil, or_false] at hv
      rcases hv with rfl | rfl
      · exact TypeExpr.fits_of_params rfl
      · -- the variable 10 is a field, and the message 7 has the field that is taken from it
        refine ⟨fun a ha _ => ⟨⟨1⟩, fun o ho => ?_⟩,
          .builtin rfl (fun e he => ?_) fun e u he hu => ?_⟩
        · obtain rfl := List.mem_singleton.mp ha
          obtain rfl : o = some ⟨7⟩ := by
            rcases List.mem_cons.mp ho with h | h
            · cases h
              rfl
            · cases List.mem_singleton.mp h
          exact ⟨⟨7⟩, rfl, _, _, rfl, rfl, rfl⟩
        · cases he
          rfl
        · cases he
          cases hu
          exact (TypeExpr.fits_of_params rfl).shaped
  · simp [htypes]
  · obtain ⟨hparams, hresult⟩ := hfunctions ft hft
    rw [hparams]
    exact ⟨trivial, TypeExpr.fits_of_params hresult⟩

/-- The types of a schema fit, and its check fails to take a field from the result of a call. One of
its functions gives a message. -/
theorem illFormed_takenFromCall :
    let s := (ofDeclarations Example.takenFromCall).withOrder [⟨7⟩, ⟨9⟩]
    let err : AccessError := ⟨.illFormed, Example.ident 8⟩
    s.nameFaults = [] ∧ s.Shapely
      ∧ (s.typing Structural.oracle).1 = .error (.located ⟨0, 0⟩ (.substitution err))
      ∧ err.fault = .illFormed ∧ s.ReturnsMessage := by
  intro s err
  have hnames : s.nameFaults = [] := by cbv
  have hrun : (s.typing Structural.oracle).1 = .error (.located ⟨0, 0⟩ (.substitution err)) := by
    cbv
  have hkeyed : s.Keyed := (keyed_ofDeclarations Example.takenFromCall).withOrder _
  have hregistered : s.Registered :=
    (registered_ofDeclarations Example.takenFromCall).withOrder _
  exact ⟨hnames, shapely_takenFromCall, hrun,
    illFormed_of_typing hkeyed hregistered hnames shapely_takenFromCall hrun rfl⟩

/-- **Substitutions fail in schemas without name faults**, for each of the three reasons. -/
theorem substitution_reported :
    Reports Example.boundToDependency (.substitution ⟨.scalar, Example.ident 8⟩)
      ∧ Reports Example.takenFromInput (.substitution ⟨.missing, Example.ident 14⟩)
      ∧ Reports Example.takenFromCall (.substitution ⟨.illFormed, Example.ident 8⟩) := by
  refine ⟨⟨?_, [⟨7⟩, ⟨9⟩], ?_, ?_⟩, ⟨?_, [⟨7⟩, ⟨9⟩], ?_, ?_⟩, ⟨?_, [⟨7⟩, ⟨9⟩], ?_, ?_⟩⟩ <;> cbv

end Schema

end DepSchema
