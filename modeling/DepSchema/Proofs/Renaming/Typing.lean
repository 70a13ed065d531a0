/-
DepSchema.Proofs.Renaming.Typing — the type check does not notice a renaming.

Function by function, the type check of renamed syntax matches the type check of the syntax as it
was. Names are compared with each other and with the builtin types, looked up in scopes and in the
schema, and nothing else is done with them; spans only go into faults. So a type or a function of
one schema passes exactly when its renaming passes in a schema that carries the first one over.

Main results: `matches_checkValue`, `matches_checkTypeDef`, `matches_checkFunctionDef` and
`matches_checkSchema`.
-/
import DepSchema.Proofs.Renaming.Check

namespace DepSchema.Renaming

open Check Typing

variable {ρ : Renaming} {c c' : Setting}

/-! ## §1. Types. -/

theorem matches_requireSameHead (expected got : TypeExpr) (span : Span) :
    Matches ρ c c' id (requireSameHead expected got span)
      (requireSameHead (ρ.type expected) (ρ.type got) (ρ.place span)) := by
  unfold requireSameHead
  dsimp only
  refine .guard (by simp) (.ite (by simp) (.fail _ _ _ _) (.pure ()))

theorem matches_elementType (t : TypeExpr) (index : Nat) :
    Matches ρ c c' ρ.type (elementType t index) (elementType (ρ.type t) index) := by
  unfold elementType
  refine .bind (.getSome (h := ρ.expr) (by simp) _ _ _ _) fun param => ?_
  exact .getSome (ρ.expr_type? param) _ _ _ _

/-- Two parameters of which the first one is a value. -/
theorem matches_askValue (hc : ρ.Relates c c') (e g : Expr) :
    Matches ρ c c' id (if g.type?.isSome then pure false else askEqual e g)
      (if (ρ.expr g).type?.isSome then pure false else askEqual (ρ.expr e) (ρ.expr g)) :=
  .ite (by simp) (.pure false) (.askEqual hc e g)

mutual

theorem matches_sameParam (hc : ρ.Relates c c') (span : Span) : ∀ e g : Expr,
    Matches ρ c c' id (sameParam span e g) (sameParam (ρ.place span) (ρ.expr e) (ρ.expr g))
  | .type s i ps, g => by
    rw [expr, exprs_eq_map]
    unfold sameParam
    rw [expr_type?]
    cases g.type? with
    | none => exact .pure false
    | some t =>
      have hparams := matches_requireSameParams hc span ps t.params 0
      exact .seq (matches_requireSameHead ⟨s, i, ps⟩ t _) (.seq hparams (.pure true))
  | .binary s op l r, g => matches_askValue hc (.binary s op l r) g
  | .unary s op x, g => matches_askValue hc (.unary s op x) g
  | .access a, g => matches_askValue hc (.access a) g
  | .scalar s v, g => matches_askValue hc (.scalar s v) g
  | .constructed s ctor fs, g => matches_askValue hc (.constructed s ctor fs) g
  | .collection s es, g => matches_askValue hc (.collection s es) g
  | .call s f as, g => matches_askValue hc (.call s f as) g

theorem matches_requireSameParams (hc : ρ.Relates c c') (span : Span) :
    ∀ (es gs : List Expr) (index : Nat),
      Matches ρ c c' id (requireSameParams span es gs index)
        (requireSameParams (ρ.place span) (es.map ρ.expr) (gs.map ρ.expr) index)
  | [], gs, _ => .pure ()
  | e :: es, [], _ => .pure ()
  | e :: es, g :: gs, index => by
    unfold requireSameParams
    refine .bind (matches_sameParam hc span e g) fun same => ?_
    have hrest := matches_requireSameParams hc span es gs (index + 1)
    exact .ite Iff.rfl hrest (.bind (.fail (h := id) _ _ _ _) fun _ => hrest)

end

theorem matches_requireSameType (hc : ρ.Relates c c') (expected got : TypeExpr)
    (span : Span) :
    Matches ρ c c' id (requireSameType expected got span)
      (requireSameType (ρ.type expected) (ρ.type got) (ρ.place span)) := by
  unfold requireSameType
  exact .seq (matches_requireSameHead _ _ _) (matches_requireSameParams hc _ _ _ _)

theorem matches_requireSameSignature (hc : ρ.Relates c c') (span : Span) (arity : Nat)
    (result : TypeExpr) (got : FunctionType) {parameters parameters' : Check Substitution}
    (h : Matches ρ c c' ρ.substitution parameters parameters') :
    Matches ρ c c' id (requireSameSignature span arity result got parameters)
      (requireSameSignature (ρ.place span) arity (ρ.type result) (ρ.functionType got)
        parameters') := by
  unfold requireSameSignature
  refine .guard (by simp [functionType]) (.inScope (.bind h fun rename => ?_))
  exact .bind (.under _ _) fun _ => matches_requireSameType hc _ _ _

mutual

theorem matches_requireSameParameter (hc : ρ.Relates c c') (span : Span) :
    ∀ (expected got : ParameterType) (index : Nat) (rename : Substitution),
      Matches ρ c c' ρ.binding (requireSameParameter span expected got index rename)
        (requireSameParameter (ρ.place span) (ρ.parameterType expected) (ρ.parameterType got) index
          (ρ.substitution rename))
  | .value expected, .value got, index, rename => by
    unfold parameterType requireSameParameter
    refine .bind (.under _ _) fun _ => ?_
    exact .seq (matches_requireSameType hc _ _ _) (.pure (h := ρ.binding) (.value expected))
  | .function ps result, .function qs got, index, rename => by
    unfold parameterType requireSameParameter
    have hparams := matches_requireSameParameters hc span ps qs 0 .empty
    have hsignature := matches_requireSameSignature hc span ps.length result ⟨qs, got⟩ hparams
    rw [show (ρ.parameters ps).length = ps.length by simp]
    exact .seq hsignature (.pure (h := ρ.binding) (.function ⟨ps, result⟩))
  | .value _, .function _ _, _, _ => .fail _ _ _ _
  | .function _ _, .value _, _, _ => .fail _ _ _ _

theorem matches_requireSameParameters (hc : ρ.Relates c c') (span : Span) :
    ∀ (es gs : List (Named ParameterType)) (index : Nat) (rename : Substitution),
      Matches ρ c c' ρ.substitution (requireSameParameters span es gs index rename)
        (requireSameParameters (ρ.place span) (ρ.parameters es) (ρ.parameters gs) index
          (ρ.substitution rename))
  | [], _, _, rename => .pure rename
  | _ :: _, [], _, rename => .pure rename
  | e :: es, g :: gs, index, rename => by
    unfold parameters requireSameParameters
    refine .bind (matches_requireSameParameter hc span e.val g.val index rename) fun b => ?_
    refine .seq (.introduce _ _) ?_
    -- the parameters that follow are compared under the names of the expected ones
    have hrest := matches_requireSameParameters hc span es gs (index + 1)
      (rename.bind g.name.name (.ofVar e.name))
    rw [substitution_bind, expr_ofVar] at hrest
    exact hrest

end

theorem matches_requireSameFunctionType (hc : ρ.Relates c c') (expected got : FunctionType)
    (span : Span) :
    Matches ρ c c' id (requireSameFunctionType expected got span)
      (requireSameFunctionType (ρ.functionType expected) (ρ.functionType got) (ρ.place span)) := by
  unfold requireSameFunctionType
  have hparams := matches_requireSameParameters hc span expected.params got.params 0 .empty
  have hlen : (ρ.functionType expected).params.length = expected.params.length := by
    simp [functionType]
  rw [hlen]
  exact matches_requireSameSignature hc _ _ _ _ hparams

mutual

theorem matches_underParameter (σ : Substitution) :
    ∀ t : ParameterType, Matches ρ c c' ρ.parameterType (underParameter σ t)
      (underParameter (ρ.substitution σ) (ρ.parameterType t))
  | .value t => .bind (.under σ t) fun t' => .pure (h := ρ.parameterType) (.value t')
  | .function ps result => by
    unfold parameterType underParameter
    refine .bind (matches_underParameters σ ps) fun ps' => ?_
    exact .bind (.under σ result) fun result' =>
      .pure (h := ρ.parameterType) (.function ps' result')

theorem matches_underParameters (σ : Substitution) :
    ∀ ps : List (Named ParameterType), Matches ρ c c' ρ.parameters (underParameters σ ps)
      (underParameters (ρ.substitution σ) (ρ.parameters ps))
  | [] => .pure []
  | p :: ps => by
    unfold parameters underParameters
    refine .bind (matches_underParameter σ p.val) fun type => ?_
    exact .bind (matches_underParameters σ ps) fun ps' =>
      .pure (h := ρ.parameters) (⟨p.name, type⟩ :: ps')

end

theorem matches_underFunction (σ : Substitution) (ft : FunctionType) :
    Matches ρ c c' ρ.functionType (underFunction σ ft)
      (underFunction (ρ.substitution σ) (ρ.functionType ft)) := by
  unfold underFunction
  refine .bind (matches_underParameters σ ft.params) fun ps => ?_
  exact .bind (.under σ ft.result) fun result => .pure (h := ρ.functionType) ⟨ps, result⟩

/-! ## §2. Variables and their fields. -/

theorem substitution_bindDeps (deps : List Variable) (params : List Expr) :
    ρ.substitution (bindDeps deps params)
      = bindDeps (deps.map ρ.variableOf) (params.map ρ.expr) := by
  -- the induction is on the pairs, over whatever is bound already
  have hfold : ∀ (pairs : List (Variable × Expr)) (σ : Substitution),
      ρ.substitution (pairs.foldl (fun σ p => σ.bind p.1.name.name p.2) σ)
        = (pairs.map (Prod.map ρ.variableOf ρ.expr)).foldl
          (fun σ p => σ.bind p.1.name.name p.2) (ρ.substitution σ) := by
    intro pairs
    induction pairs with
    | nil =>
      intro σ
      rfl
    | cons pair pairs ih =>
      intro σ
      rw [List.foldl_cons, ih, List.map_cons, List.foldl_cons, substitution_bind]
      rfl
  have hpairs := hfold (deps.zip params) .empty
  rw [← List.zip_map] at hpairs
  exact hpairs

/-- The fields before the one that is asked for, each standing for itself behind `base`. -/
theorem substitution_foldl_fields (base : Access) (fields : List Variable) (σ : Substitution) :
    ρ.substitution (fields.foldl (fun σ v => σ.bind v.name.name (.access (base.field v.name))) σ)
      = (fields.map ρ.variableOf).foldl
        (fun σ v => σ.bind v.name.name (.access ((ρ.access base).field v.name)))
        (ρ.substitution σ) := by
  induction fields generalizing σ with
  | nil => rfl
  | cons v vs ih =>
    rw [List.foldl_cons, ih, List.map_cons, List.foldl_cons, substitution_bind, expr, access_field]
    rfl

theorem takeWhile_fields (fields : List Variable) (n : Symbol) :
    (fields.map ρ.variableOf).takeWhile (fun v => v.name.name != ρ.name n)
      = (fields.takeWhile fun v => v.name.name != n).map ρ.variableOf := by
  rw [List.takeWhile_map]
  congr 2
  funext v
  simp [bne]

theorem matches_fieldType (hc : ρ.Relates c c') (base : Access) (type : TypeExpr) (field : Ident) :
    Matches ρ c c' ρ.type (fieldType base type field)
      (fieldType (ρ.access base) (ρ.type type) (ρ.ident field)) := by
  unfold fieldType
  refine .schema ?_
  rw [type_name, hc.type?]
  cases c.schema.type? type.name with
  | none => exact .fail _ _ _ _
  | some d =>
    cases d with
    | enum e => exact .fail _ _ _ _
    | message m =>
      refine .bind (.getSome (ρ.field?_message m field.name) _ _ _ _) fun declared => ?_
      -- the earlier fields of the message stand in the type for the fields of `base`
      have hunder : Matches ρ c c' ρ.type _ _ := Matches.under
        ((m.fields.takeWhile fun v => v.name.name != field.name).foldl
          (fun σ v => σ.bind v.name.name (.access (base.field v.name)))
          (bindDeps m.deps type.params))
        declared.type
      rw [substitution_foldl_fields, substitution_bindDeps, ← takeWhile_fields] at hunder
      exact hunder

theorem matches_fieldsType (hc : ρ.Relates c c') (fields : List Ident) :
    ∀ (base : Access) (type : TypeExpr), Matches ρ c c' ρ.type (fieldsType base type fields)
      (fieldsType (ρ.access base) (ρ.type type) (fields.map ρ.ident)) := by
  induction fields with
  | nil =>
    intro base type
    exact .pure type
  | cons f fs ih =>
    intro base type
    refine .bind (matches_fieldType hc base type f) fun type' => ?_
    rw [← access_field]
    exact ih _ _

theorem matches_accessType (hc : ρ.Relates c c') (a : Access) :
    Matches ρ c c' ρ.binding (accessType a) (accessType (ρ.access a)) := by
  unfold accessType
  refine .bind (.meaning? _) fun m => .bind (.getSome rfl _ _ _ _) fun b => ?_
  refine .ite (by simp) (.pure b) ?_
  cases b with
  -- the path to a field starts with the variable alone and is renamed with it
  | value type =>
    exact .bind (matches_fieldsType hc a.fields (.ofVar a.var) type) fun type' =>
      .pure (h := ρ.binding) (.value type')
  | function ft => exact .fail _ _ _ _

theorem matches_calleeType (hc : ρ.Relates c c') (callee : Ident) :
    Matches ρ c c' ρ.functionType (calleeType callee) (calleeType (ρ.ident callee)) := by
  unfold calleeType
  refine .bind (.meaning? _) fun m => ?_
  cases m with
  | some b =>
    cases b with
    | value type => exact .fail _ _ _ _
    | function ft => exact .pure ft
  -- a name that stands for nothing in scope may be a declared function
  | none =>
    refine .schema (.bind (.getSome (hc.function? callee.name) _ _ _ _) fun f => ?_)
    exact .pure_of_eq (ρ.functionDef_signature f)

/-! ## §3. Rules. -/

theorem matches_matchByOracle (hc : ρ.Relates c c') (σ : Substitution) (pattern actual : Expr) :
    Matches ρ c c' (Option.map ρ.substitution) (matchByOracle σ pattern actual)
      (matchByOracle (ρ.substitution σ) (ρ.expr pattern) (ρ.expr actual)) := by
  have hask : Matches ρ c c' (Option.map ρ.substitution)
      (askEqual pattern actual >>= fun equal => note (.patternCompared pattern actual equal) >>=
        fun _ => pure (if equal then some σ else none))
      (askEqual (ρ.expr pattern) (ρ.expr actual) >>= fun equal =>
        note (.patternCompared (ρ.expr pattern) (ρ.expr actual) equal) >>=
          fun _ => pure (if equal then some (ρ.substitution σ) else none)) := by
    refine .bind (.askEqual hc _ _) fun equal => .seq (.note _ _) ?_
    exact .pure_of_eq (by cases equal <;> rfl)
  cases actual with
  | constructed s ctor fs => exact .pure none
  | _ => exact hask

mutual

theorem matches_matchExpr (hc : ρ.Relates c c') :
    ∀ (pattern : Expr) (σ : Substitution) (actual : Expr),
      Matches ρ c c' (Option.map ρ.substitution) (matchExpr σ actual pattern)
        (matchExpr (ρ.substitution σ) (ρ.expr actual) (ρ.expr pattern))
  | .access a, σ, actual => by
    -- a variable alone matches anything and is bound to it
    refine .ite (by simp) ?_ (matches_matchByOracle hc σ (.access a) actual)
    exact .pure_of_eq (congrArg some (ρ.substitution_bind σ a.var.name actual).symm)
  | .constructed s ctor inits, σ, actual => by
    rw [expr, inits_eq_map]
    cases actual with
    | constructed s' ctor' values =>
      rw [expr, inits_eq_map]
      refine .ite (by simp) ?_ (.pure none)
      exact matches_matchInits hc inits σ _ _ fun f => ρ.find?_named ρ.expr values f.name
    | access a =>
      refine .schema ?_
      rw [ident_name, hc.constructor?]
      cases c.schema.constructor? ctor.name with
      | none => exact .pure none
      | some p =>
        obtain ⟨d, k⟩ := p
        cases d with
        | enum e => exact .pure none
        -- the fields of a variable of a message type are the variable with the field behind it
        | message m =>
          refine matches_matchInits hc inits σ _ _ fun f => ?_
          rw [← access_field]
          rfl
    | _ => exact .pure none
  | .binary s op l r, σ, actual => matches_matchByOracle hc σ (.binary s op l r) actual
  | .unary s op x, σ, actual => matches_matchByOracle hc σ (.unary s op x) actual
  | .type s i ps, σ, actual => matches_matchByOracle hc σ (.type s i ps) actual
  | .scalar s v, σ, actual => matches_matchByOracle hc σ (.scalar s v) actual
  | .collection s es, σ, actual => matches_matchByOracle hc σ (.collection s es) actual
  | .call s f as, σ, actual => matches_matchByOracle hc σ (.call s f as) actual

theorem matches_matchInits (hc : ρ.Relates c c') :
    ∀ (fs : List (Named Expr)) (σ : Substitution) (valueOf valueOf' : Ident → Option Expr),
      (∀ f, valueOf' (ρ.ident f) = (valueOf f).map ρ.expr) →
      Matches ρ c c' (Option.map ρ.substitution) (matchInits σ valueOf fs)
        (matchInits (ρ.substitution σ) valueOf' (fs.map (ρ.named ρ.expr)))
  | [], σ, _, _, _ => .pure (some σ)
  | f :: fs, σ, valueOf, valueOf', h => by
    rw [List.map_cons]
    unfold matchInits
    rw [named_name, h]
    cases valueOf f.name with
    | none => exact .pure none
    | some value =>
      refine .bind (matches_matchExpr hc f.val σ value) fun r => ?_
      cases r with
      | none => exact .pure none
      | some σ' => exact matches_matchInits hc fs σ' valueOf valueOf' h

end

theorem matches_matchInputs (hc : ρ.Relates c c') (inputs : List RuleInput) :
    ∀ (σ : Substitution) (params : List Expr),
      Matches ρ c c' (Option.map ρ.substitution) (matchInputs σ inputs params)
        (matchInputs (ρ.substitution σ) (inputs.map ρ.ruleInput) (params.map ρ.expr)) := by
  induction inputs with
  | nil =>
    intro σ params
    exact .pure (some σ)
  | cons input inputs ih =>
    intro σ params
    cases params with
    | nil => cases input <;> exact .pure (some σ)
    | cons param params =>
      cases input with
      | any span => exact ih σ params
      | value p =>
        refine .bind (matches_matchExpr hc p σ param) fun r => ?_
        cases r with
        | none => exact .pure none
        | some σ' => exact ih σ' params

theorem matches_matchRule (hc : ρ.Relates c c') (σ : Substitution) (rule : Rule)
    (params : List Expr) :
    Matches ρ c c' (Option.map ρ.substitution) (matchRule σ rule params)
      (matchRule (ρ.substitution σ) (ρ.rule rule) (params.map ρ.expr)) :=
  .ite (by simp [Renaming.rule]) (matches_matchInputs hc rule.inputs σ params) (.pure none)

theorem matches_dispatchFrom (hc : ρ.Relates c c') (enum : Symbol) (ctor : Ident)
    (params : List Expr) (σ : Substitution) (rules : List Rule) : ∀ index : Nat,
      Matches ρ c c' ρ.substitution (dispatchFrom enum ctor params σ rules index)
        (dispatchFrom (ρ.name enum) (ρ.ident ctor) (params.map ρ.expr) (ρ.substitution σ)
          (rules.map ρ.rule) index) := by
  induction rules with
  | nil =>
    intro index
    exact .fail _ _ _ _
  | cons rule rules ih =>
    intro index
    refine .bind (matches_matchRule hc σ rule params) fun r => ?_
    cases r with
    | none => exact .seq (.note _ _) (ih _)
    | some bound =>
      -- the first row that matches decides, whether or not it has the constructor
      refine .seq (.note _ _) (.ite ?_ (.pure bound) (.fail _ _ _ _))
      rw [ident_name, constructor?_rule, Option.isSome_map]

theorem matches_dispatch (hc : ρ.Relates c c') (e : Enum) (ctor : Ident) (params : List Expr)
    (σ : Substitution) :
    Matches ρ c c' ρ.substitution (dispatch e ctor params σ)
      (dispatch (ρ.enum e) (ρ.ident ctor) (params.map ρ.expr) (ρ.substitution σ)) :=
  matches_dispatchFrom hc e.ident.name ctor params σ e.rules 0

/-! ## §4. Values. -/

theorem matches_requireValue (hc : ρ.Relates c c') (expected : TypeExpr) (actual : Binding)
    (span : Span) :
    Matches ρ c c' id (requireValue expected actual span)
      (requireValue (ρ.type expected) (ρ.binding actual) (ρ.place span)) := by
  cases actual with
  | value type => exact matches_requireSameType hc _ _ _
  | function ft => exact .fail _ _ _ _

theorem matches_expectedLength (expected : TypeExpr) :
    Matches ρ c c' ρ.expr (expectedLength expected) (expectedLength (ρ.type expected)) :=
  .getSome (by simp) _ _ _ _

theorem matches_requireLength (hc : ρ.Relates c c') (expected got : Expr) (span : Span) :
    Matches ρ c c' id (requireLength expected got span)
      (requireLength (ρ.expr expected) (ρ.expr got) (ρ.place span)) := by
  unfold requireLength
  refine .bind (.askEqual hc _ _) fun equal => ?_
  exact .ite Iff.rfl (.pure ()) (.fail _ _ _ _)

theorem expr_literalLength (span : Span) (es : List Expr) :
    ρ.expr (literalLength span es) = literalLength (ρ.place span) (es.map ρ.expr) := by
  simp [literalLength, expr]

theorem matches_lengthOfBinding (hc : ρ.Relates c c') (element : TypeExpr) (actual : Binding)
    (span : Span) :
    Matches ρ c c' ρ.expr (lengthOfBinding element actual span)
      (lengthOfBinding (ρ.type element) (ρ.binding actual) (ρ.place span)) := by
  unfold lengthOfBinding
  cases actual with
  | function ft => exact .fail _ _ _ _
  | value type =>
    refine .ite (by simp) (.fail _ _ _ _) ?_
    refine .bind (matches_elementType type 0) fun got => ?_
    exact .seq (matches_requireSameType hc _ _ _) (.getSome (by simp) _ _ _ _)

/-- The arguments that are given and the parameters that remain, renamed. -/
theorem matches_callType (hc : ρ.Relates c c') (span : Span) (callee : Ident) (count : Nat)
    {arguments arguments' : List Parameter → Check (Substitution × List Parameter)}
    (h : ∀ ps, Matches ρ c c' (Prod.map ρ.substitution ρ.parameters) (arguments ps)
      (arguments' (ρ.parameters ps))) :
    Matches ρ c c' ρ.binding (callType span callee count arguments)
      (callType (ρ.place span) (ρ.ident callee) count arguments') := by
  unfold callType
  refine .bind (matches_calleeType hc callee) fun signature => ?_
  refine .guard (by simp [functionType]) (.bind (h signature.params) fun r => ?_)
  obtain ⟨σ, remaining⟩ := r
  refine .bind (.under σ signature.result) fun result => .ite (by simp) ?_ ?_
  · exact .pure (h := ρ.binding) (.value result)
  · exact .bind (matches_underParameters σ remaining) fun ps =>
      .pure (h := ρ.binding) (.function ⟨ps, result⟩)

theorem matches_checkFields (span : Span) (ctor : Ident) (inits : List (Named Expr))
    {check check' : Symbol → TypeExpr → Check Unit}
    (h : ∀ n t, Matches ρ c c' id (check n t) (check' (ρ.name n) (ρ.type t)))
    (fields : List Variable) : ∀ σ : Substitution,
      Matches ρ c c' id (checkFields span ctor inits check σ fields)
        (checkFields (ρ.place span) (ρ.ident ctor) (inits.map (ρ.named ρ.expr)) check'
          (ρ.substitution σ) (fields.map ρ.variableOf)) := by
  induction fields with
  | nil =>
    intro σ
    exact .pure ()
  | cons field fields ih =>
    intro σ
    rw [List.map_cons]
    unfold checkFields
    dsimp only
    refine .bind (.getSome (ρ.find?_named ρ.expr inits field.name.name) _ _ _ _) fun value => ?_
    refine .bind (.under σ field.type) fun type => .bind .isReadingInput fun reading => ?_
    -- later fields may mention the value of this one
    have hrest := ih (σ.bind field.name.name value)
    rw [substitution_bind] at hrest
    rw [expr_bareVar?]
    cases value.bareVar? with
    | none => exact .seq (h _ _) hrest
    | some v =>
      cases reading with
      | false => exact .seq (h _ _) hrest
      | true => exact .seq (.introduce v.name (.value type)) hrest

theorem matches_checkConstructed (hc : ρ.Relates c c') (span : Span) (ctor : Ident)
    (inits : List (Named Expr)) (expected : TypeExpr)
    {check check' : Symbol → TypeExpr → Check Unit}
    (h : ∀ n t, Matches ρ c c' id (check n t) (check' (ρ.name n) (ρ.type t))) :
    Matches ρ c c' id (checkConstructed span ctor inits expected check)
      (checkConstructed (ρ.place span) (ρ.ident ctor) (inits.map (ρ.named ρ.expr)) (ρ.type expected)
        check') := by
  unfold checkConstructed
  refine .schema (.bind (.getSome (hc.constructor? ctor.name) _ _ _ _) fun owned => ?_)
  obtain ⟨owner, declared⟩ := owned
  refine .guard (by simp) (.guard (by simp) ?_)
  have hfields : ∀ σ, Matches ρ c c' id (checkFields span ctor inits check σ declared.fields)
      (checkFields (ρ.place span) (ρ.ident ctor) (inits.map (ρ.named ρ.expr)) check'
        (ρ.substitution σ) (declared.fields.map ρ.variableOf)) :=
    matches_checkFields span ctor inits h declared.fields
  rw [type_params, typeDef_deps, ← substitution_bindDeps]
  cases owner with
  | message m => exact .bind (.pure _) fun σ => .guard (by simp) (hfields σ)
  | enum e =>
    exact .bind (matches_dispatch hc e ctor expected.params _) fun σ => .guard (by simp) (hfields σ)

/-- Operators work on builtin types only. -/
theorem name_mem_builtins {names : List Symbol} (h : ∀ n ∈ names, n.isBuiltin = true) (m : Symbol) :
    ρ.name m ∈ names ↔ m ∈ names := by
  constructor
  · intro hm
    -- a name renamed to a builtin one is that builtin one
    rwa [← (ρ.name_eq_builtin (h _ hm)).mp rfl] at hm
  · intro hm
    rwa [ρ.builtin (h m hm)]

theorem name_mem_operandTypes (op : BinaryOp) (n : Symbol) :
    ρ.name n ∈ op.operandTypes ↔ n ∈ op.operandTypes :=
  name_mem_builtins (by cases op <;> decide) n

theorem name_mem_operandTypes_unary (op : UnaryOp) (n : Symbol) :
    ρ.name n ∈ op.operandTypes ↔ n ∈ op.operandTypes :=
  name_mem_builtins (by cases op <;> decide) n

theorem scalarType_eq_name (v : Scalar) (n : Symbol) : v.type = ρ.name n ↔ v.type = n := by
  have hfixed : ρ.name v.type = v.type := ρ.name_scalarType v
  constructor
  · intro h
    exact ρ.injective (hfixed.trans h)
  · rintro rfl
    exact hfixed.symm

mutual

/-- **A renamed value is checked against a renamed type like the value against the type.** -/
theorem matches_checkValue (hc : ρ.Relates c c') : ∀ (e : Expr) (expected : TypeExpr),
    Matches ρ c c' id (checkValue e expected) (checkValue (ρ.expr e) (ρ.type expected))
  | .type _ _ _, _ => .fail _ _ _ _
  | .binary span op l r, expected => by
    rw [expr]
    unfold checkValue
    have htypes := not_congr (name_mem_operandTypes (ρ := ρ) op expected.name)
    refine .ite (by simp) ?_ (.ite htypes (.fail _ _ _ _) (.ite Iff.rfl (.note _ _) ?_))
    · refine .bind (matches_elementType expected 0) fun element => ?_
      refine .bind (matches_expectedLength expected) fun length => ?_
      refine .bind (matches_lengthOf hc l element) fun left => ?_
      refine .bind (matches_lengthOf hc r element) fun right => ?_
      exact matches_requireLength hc length (.binary span .add left right) span
    · exact .seq (matches_checkValue hc l expected) (matches_checkValue hc r expected)
  | .unary _ op x, expected =>
    .ite (not_congr (name_mem_operandTypes_unary op expected.name)) (.fail _ _ _ _)
      (matches_checkValue hc x expected)
  | .access a, expected =>
    .bind (matches_accessType hc a) fun b => matches_requireValue hc expected b _
  | .scalar _ v, expected =>
    .ite (by simp [scalarType_eq_name]) (.pure ()) (.fail _ _ _ _)
  | .constructed span ctor inits, expected => by
    rw [expr, inits_eq_map]
    exact matches_checkConstructed hc span ctor inits expected (matches_checkField hc inits)
  | .collection span es, expected => by
    rw [expr, exprs_eq_map]
    unfold checkValue
    refine .ite (by simp) ?_ (.ite (by simp) ?_ (.fail _ _ _ _))
    · exact .bind (matches_elementType expected 0) fun element =>
        matches_checkElements hc es element
    · refine .bind (matches_elementType expected 0) fun element => ?_
      refine .bind (matches_expectedLength expected) fun length => ?_
      refine .seq (matches_checkElements hc es element) ?_
      rw [← expr_literalLength]
      exact matches_requireLength hc _ _ _
  | .call span f as, expected => by
    rw [expr, exprs_eq_map]
    unfold checkValue
    rw [List.length_map]
    have hcall := matches_callType hc span f as.length
      (matches_checkArguments hc as .empty)
    exact .bind hcall fun b => matches_requireValue hc expected b _

theorem matches_lengthOf (hc : ρ.Relates c c') : ∀ (e : Expr) (element : TypeExpr),
    Matches ρ c c' ρ.expr (lengthOf e element) (lengthOf (ρ.expr e) (ρ.type element))
  | .collection span es, element => by
    rw [expr, exprs_eq_map]
    unfold lengthOf
    exact .seq (matches_checkElements hc es element) (.pure_of_eq (expr_literalLength _ _).symm)
  | .binary span op l r, element => by
    rw [expr]
    unfold lengthOf
    refine .ite Iff.rfl ?_ (.fail _ _ _ _)
    refine .bind (matches_lengthOf hc l element) fun left => ?_
    exact .bind (matches_lengthOf hc r element) fun right =>
      .pure (h := ρ.expr) (.binary span .add left right)
  | .access a, element =>
    .bind (matches_accessType hc a) fun b => matches_lengthOfBinding hc element b _
  | .call span f as, element => by
    rw [expr, exprs_eq_map]
    unfold lengthOf
    rw [List.length_map]
    have hcall := matches_callType hc span f as.length
      (matches_checkArguments hc as .empty)
    exact .bind hcall fun b => matches_lengthOfBinding hc element b _
  | .unary _ _ _, _ => .fail _ _ _ _
  | .type _ _ _, _ => .fail _ _ _ _
  | .scalar _ _, _ => .fail _ _ _ _
  | .constructed _ _ _, _ => .fail _ _ _ _

theorem matches_functionOf (hc : ρ.Relates c c') : ∀ e : Expr,
    Matches ρ c c' ρ.functionType (functionOf e) (functionOf (ρ.expr e))
  | .access a => .ite (by simp) (matches_calleeType hc a.var) (.fail _ _ _ _)
  | .call span f as => by
    rw [expr, exprs_eq_map]
    unfold functionOf
    rw [List.length_map]
    have hcall := matches_callType hc span f as.length
      (matches_checkArguments hc as .empty)
    refine .bind hcall fun b => ?_
    cases b with
    | function ft => exact .pure ft
    | value type => exact .fail _ _ _ _
  | .binary _ _ _ _ => .fail _ _ _ _
  | .unary _ _ _ => .fail _ _ _ _
  | .type _ _ _ => .fail _ _ _ _
  | .scalar _ _ => .fail _ _ _ _
  | .constructed _ _ _ => .fail _ _ _ _
  | .collection _ _ => .fail _ _ _ _

theorem matches_checkArguments (hc : ρ.Relates c c') :
    ∀ (args : List Expr) (σ : Substitution) (ps : List Parameter),
      Matches ρ c c' (Prod.map ρ.substitution ρ.parameters) (checkArguments args σ ps)
        (checkArguments (args.map ρ.expr) (ρ.substitution σ) (ρ.parameters ps))
  | [], σ, ps => .pure (h := Prod.map ρ.substitution ρ.parameters) (σ, ps)
  | _ :: _, σ, [] => .pure (h := Prod.map ρ.substitution ρ.parameters) (σ, [])
  | arg :: args, σ, ⟨name, .value type⟩ :: ps => by
    rw [List.map_cons, parameters, parameterType]
    unfold checkArguments
    have hrest := matches_checkArguments hc args (σ.bind name.name arg) ps
    rw [substitution_bind] at hrest
    refine .bind (.under σ type) fun type' => ?_
    exact .seq (matches_checkValue hc arg type') hrest
  | arg :: args, σ, ⟨name, .function qs result⟩ :: ps => by
    rw [List.map_cons, parameters, parameterType]
    unfold checkArguments
    rw [expr_span]
    have hrest := matches_checkArguments hc args (σ.bind name.name arg) ps
    rw [substitution_bind] at hrest
    refine .bind (matches_underFunction σ ⟨qs, result⟩) fun expected => ?_
    refine .bind (matches_functionOf hc arg) fun got => ?_
    exact .seq (matches_requireSameFunctionType hc expected got _) hrest

theorem matches_checkElements (hc : ρ.Relates c c') : ∀ (es : List Expr) (element : TypeExpr),
    Matches ρ c c' id (checkElements es element)
      (checkElements (es.map ρ.expr) (ρ.type element))
  | [], _ => .pure ()
  | e :: es, element =>
    .seq (matches_checkValue hc e element) (matches_checkElements hc es element)

theorem matches_checkField (hc : ρ.Relates c c') :
    ∀ (fs : List (Named Expr)) (n : Symbol) (t : TypeExpr),
      Matches ρ c c' id (checkField fs n t)
        (checkField (fs.map (ρ.named ρ.expr)) (ρ.name n) (ρ.type t))
  | [], _, _ => .pure ()
  | f :: fs, n, t =>
    .ite (by simp) (matches_checkValue hc f.val t) (matches_checkField hc fs n t)

end

/-! ## §5. Well-formed types. -/

theorem matches_requireParams (t : TypeExpr) (arity : Nat) :
    Matches ρ c c' id (requireParams t arity) (requireParams (ρ.type t) arity) :=
  .ite (by simp) (.pure ()) (.fail _ _ _ _)

theorem matches_requireFormedLength (hc : ρ.Relates c c') (params : List Expr) :
    Matches ρ c c' id (requireFormedLength params)
      (requireFormedLength (params.map ρ.expr)) := by
  have hbuiltin : ∀ span, ρ.type (.builtin .unsigned span) = .builtin .unsigned (ρ.place span) := by
    intro span
    simp only [type, ident, TypeExpr.builtin, List.map_nil, ρ.builtin (n := .unsigned) (by decide)]
  unfold requireFormedLength
  rw [List.getElem?_map]
  cases params[1]? with
  | none => exact .pure ()
  | some length =>
    have hvalue := matches_checkValue hc length (.builtin .unsigned length.span)
    rw [hbuiltin, ← expr_span] at hvalue
    exact hvalue

theorem matches_checkParams (hc : ρ.Relates c c') (deps : List Variable) :
    ∀ (params : List Expr) (σ : Substitution), Matches ρ c c' id (checkParams σ deps params)
      (checkParams (ρ.substitution σ) (deps.map ρ.variableOf) (params.map ρ.expr)) := by
  induction deps with
  | nil =>
    intro params σ
    exact .pure ()
  | cons dep deps ih =>
    intro params σ
    cases params with
    | nil => exact .pure ()
    | cons param params =>
      have hrest := ih params (σ.bind dep.name.name param)
      rw [substitution_bind] at hrest
      exact .bind (.under σ dep.type) fun type => .seq (matches_checkValue hc param type) hrest

theorem Relates.deps? (hc : ρ.Relates c c') (n : Symbol) :
    c'.schema.deps? (ρ.name n) = (c.schema.deps? n).map (List.map ρ.variableOf) := by
  unfold Schema.deps?
  rw [hc.type?]
  cases c.schema.type? n with
  | none => rfl
  | some d => exact congrArg some (ρ.typeDef_deps d)

mutual

theorem matches_requireFormedExpr (hc : ρ.Relates c c') : ∀ e : Expr,
    Matches ρ c c' id (requireFormedExpr e) (requireFormedExpr (ρ.expr e))
  | .type span i ps => by
    rw [expr, exprs_eq_map]
    unfold requireFormedExpr
    have hparams : ∀ arity, Matches ρ c c' id _ _ := matches_requireParams ⟨span, i, ps⟩
    have helement := matches_requireFormedElement hc ⟨span, i, ps⟩ ps
    have hlength := matches_requireFormedLength hc ps
    refine .ite (by simp) (hparams 0) (.ite (by simp) ?_ (.ite (by simp) ?_ ?_))
    · exact .seq (hparams 2) (.seq helement hlength)
    · exact .seq (hparams 1) helement
    · refine .schema (.bind (.getSome (hc.deps? i.name) _ _ _ _) fun deps => ?_)
      rw [List.length_map]
      exact .seq (hparams _) (matches_checkParams hc deps ps .empty)
  | .binary _ _ _ _ => .pure ()
  | .unary _ _ _ => .pure ()
  | .access _ => .pure ()
  | .scalar _ _ => .pure ()
  | .constructed _ _ _ => .pure ()
  | .collection _ _ => .pure ()
  | .call _ _ _ => .pure ()

theorem matches_requireFormedElement (hc : ρ.Relates c c') (collection : TypeExpr) :
    ∀ ps : List Expr, Matches ρ c c' id (requireFormedElement collection ps)
      (requireFormedElement (ρ.type collection) (ps.map ρ.expr))
  | [] => .fail _ _ _ _
  | e :: _ => by
    rw [List.map_cons]
    unfold requireFormedElement
    rw [expr_type?]
    cases e.type? with
    | none => exact .fail _ _ _ _
    | some t => exact matches_requireFormedExpr hc e

end

/-- **A renamed type is well-formed like the type.** -/
theorem matches_requireFormed (hc : ρ.Relates c c') (t : TypeExpr) :
    Matches ρ c c' id (requireFormed t) (requireFormed (ρ.type t)) := by
  have hexpr := matches_requireFormedExpr hc t.toExpr
  rw [expr_toExpr] at hexpr
  exact hexpr

/-! ## §6. Declared types. -/

theorem matches_introduceVariables (hc : ρ.Relates c c') (vars : List Variable) :
    Matches ρ c c' id (introduceVariables vars)
      (introduceVariables (vars.map ρ.variableOf)) := by
  induction vars with
  | nil => exact .pure ()
  | cons v vs ih =>
    refine .bind (.underCurrent v.type) fun type => ?_
    exact .seq (matches_requireFormed hc type) (.seq (.introduce v.name.name (.value type)) ih)

theorem matches_checkInputs (hc : ρ.Relates c c') (inputs : List RuleInput) :
    ∀ deps : List Variable, Matches ρ c c' id (checkInputs inputs deps)
      (checkInputs (inputs.map ρ.ruleInput) (deps.map ρ.variableOf)) := by
  induction inputs with
  | nil =>
    intro deps
    exact .pure ()
  | cons input inputs ih =>
    intro deps
    cases deps with
    | nil => cases input <;> exact .pure ()
    | cons dep deps =>
      cases input with
      | any span => exact ih deps
      | value p =>
        rw [List.map_cons, List.map_cons, ruleInput]
        unfold checkInputs
        refine .bind (.underCurrent dep.type) fun type => ?_
        -- whatever the input is, it replaces the dependency in the types of those after it
        have hrest : Matches ρ c c' id
            (replace dep.name.name p >>= fun _ => checkInputs inputs deps)
            (replace (ρ.name dep.name.name) (ρ.expr p) >>= fun _ =>
              checkInputs (inputs.map ρ.ruleInput) (deps.map ρ.variableOf)) :=
          .seq (.replace _ _) (ih deps)
        rw [expr_bareVar?]
        cases p.bareVar? with
        | some v => exact .seq (.introduce v.name (.value type)) hrest
        | none => exact .seq (.readInput (matches_checkValue hc p type)) hrest

theorem matches_checkConstructors (hc : ρ.Relates c c') (cs : List Constructor) :
    Matches ρ c c' id (checkConstructors cs) (checkConstructors (cs.map ρ.constructor)) := by
  induction cs with
  | nil => exact .pure ()
  | cons k cs ih => exact .seq (.inScope (matches_introduceVariables hc k.fields)) ih

theorem matches_checkRule (hc : ρ.Relates c c') (e : Enum) (rule : Rule) :
    Matches ρ c c' id (checkRule e rule) (checkRule (ρ.enum e) (ρ.rule rule)) := by
  unfold checkRule
  refine .guard (by simp [Renaming.rule, Renaming.enum]) (.inScope ?_)
  exact .seq (matches_checkInputs hc rule.inputs e.deps)
    (matches_checkConstructors hc rule.constructors)

theorem matches_checkRules (hc : ρ.Relates c c') (e : Enum) (rules : List Rule) :
    Matches ρ c c' id (checkRules e rules) (checkRules (ρ.enum e) (rules.map ρ.rule)) := by
  induction rules with
  | nil => exact .pure ()
  | cons rule rules ih => exact .seq (matches_checkRule hc e rule) ih

/-- The sort of a field, renamed with the field. -/
theorem matches_sortedFields (fields : List Variable) :
    Matches ρ c c' (List.map (Prod.map ρ.name ρ.sort)) (sortedFields fields)
      (sortedFields (fields.map ρ.variableOf)) := by
  induction fields with
  | nil => exact .pure []
  | cons v vs ih =>
    refine .bind (.getSome (ρ.sort?_type v.type) _ _ _ _) fun sort => .bind ih fun sorts => ?_
    exact .pure (h := List.map (Prod.map ρ.name ρ.sort)) ((v.name.name, sort) :: sorts)

theorem matches_variants (cs : List Constructor) :
    Matches ρ c c' (List.map fun v => ⟨ρ.name v.name, v.fields.map (Prod.map ρ.name ρ.sort)⟩)
      (variants cs) (variants (cs.map ρ.constructor)) := by
  induction cs with
  | nil => exact .pure []
  | cons k cs ih =>
    refine .bind (matches_sortedFields k.fields) fun fields => .bind ih fun decls => ?_
    exact .pure_of_eq rfl

/-- **A renamed type is checked like the type.** -/
theorem matches_checkTypeDef (hc : ρ.Relates c c') (d : TypeDef) :
    Matches ρ c c' id (checkTypeDef d) (checkTypeDef (ρ.typeDef d)) := by
  unfold checkTypeDef
  rw [typeDef_deps, typeDef_constructors]
  refine .seq (.inScope (.seq (matches_introduceVariables hc d.deps) ?_)) ?_
  · cases d with
    | message m => exact matches_introduceVariables hc m.fields
    | enum e => exact matches_checkRules hc e e.rules
  · -- the declared sorts are renamed too, and both oracles accept any
    refine .bind (matches_variants d.constructors) fun ctors => ?_
    exact .ask (fun past past' => hc.datatype past past' _ _) (.pure ())

/-! ## §7. Functions. -/

mutual

theorem matches_checkParameter (hc : ρ.Relates c c') : ∀ t : ParameterType,
    Matches ρ c c' ρ.binding (checkParameter t) (checkParameter (ρ.parameterType t))
  | .value t => by
    refine .bind (.underCurrent t) fun type => .seq (matches_requireFormed hc type) ?_
    exact .pure (h := ρ.binding) (.value type)
  | .function ps result => by
    unfold parameterType checkParameter
    refine .seq (.inScope (.seq (matches_introduceParameters hc ps) ?_)) ?_
    · exact .bind (.underCurrent result) fun type => matches_requireFormed hc type
    · exact .pure (h := ρ.binding) (.function ⟨ps, result⟩)

theorem matches_introduceParameters (hc : ρ.Relates c c') : ∀ ps : List (Named ParameterType),
    Matches ρ c c' id (introduceParameters ps) (introduceParameters (ρ.parameters ps))
  | [] => .pure ()
  | p :: ps => by
    refine .bind (matches_checkParameter hc p.val) fun b => ?_
    exact .seq (.introduce _ _) (matches_introduceParameters hc ps)

end

/-- **A renamed function is checked like the function.** -/
theorem matches_checkFunctionDef (hc : ρ.Relates c c') (f : FunctionDef) :
    Matches ρ c c' id (checkFunctionDef f) (checkFunctionDef (ρ.functionDef f)) := by
  unfold checkFunctionDef
  refine .seq (.note _ _) (.inScope (.seq (matches_introduceParameters hc f.params) ?_))
  refine .bind (.underCurrent f.result) fun result => .seq (matches_requireFormed hc result) ?_
  unfold functionDef
  cases f.body with
  | none => exact .pure ()
  | some body => exact matches_checkValue hc body result

/-- An oracle that accepts functions is told of one, and nothing else happens. -/
theorem declareIfSorted_ok (h : ∀ past d, ∃ a, c.oracle past (.function d) = .ok a)
    (f : FunctionDef) (s : Checking) :
    ∃ t, declareIfSorted f c s = (.ok (), t) ∧ t.scopes = s.scopes
      ∧ t.substitution = s.substitution ∧ t.readingInput = s.readingInput := by
  unfold declareIfSorted
  cases sortedFunction? f with
  | none =>
    rcases f.params.find? fun p => (parameterSort? p).isNone with _ | ⟨_, _ | _⟩ <;>
      exact ⟨_, rfl, rfl, rfl, rfl⟩
  | some decl =>
    obtain ⟨a, ha⟩ := h s.queries decl
    rcases f.params.find? fun p => (parameterSort? p).isNone with _ | ⟨_, _ | _⟩
    · exact ⟨_, Check.bind_ok (Check.ask_ok ha), rfl, rfl, rfl⟩
    · exact ⟨_, Check.bind_ok (Check.ask_ok ha), rfl, rfl, rfl⟩
    -- a function with a parameter that is itself a function is only noted
    · exact ⟨_, rfl, rfl, rfl, rfl⟩

/-- Functions may be declared to the oracle on one side and not on the other. -/
theorem matches_declareIfSorted (hc : ρ.Relates c c') (f f' : FunctionDef) :
    Matches ρ c c' id (declareIfSorted f) (declareIfSorted f') := by
  intro s s' hs
  obtain ⟨t, ht, hscopes, hsubstitution, hreading⟩ :=
    declareIfSorted_ok (fun past d => (hc.function past past d d).1) f s
  obtain ⟨t', ht', hscopes', hsubstitution', hreading'⟩ :=
    declareIfSorted_ok (fun past d => (hc.function past past d d).2) f' s'
  rw [ht, ht']
  refine .ok (a := ()) ⟨?_, ?_, ?_⟩
  · rw [hscopes, hscopes', hs.scopes]
  · rw [hsubstitution, hsubstitution', hs.substitution]
  · rw [hreading, hreading', hs.readingInput]

/-! ## §8. Schemas. -/

theorem matches_checkTypes (hc : ρ.Relates c c') (names : List Symbol) :
    Matches ρ c c' id (checkTypes names) (checkTypes (names.map ρ.name)) := by
  induction names with
  | nil => exact .pure ()
  | cons name names ih =>
    refine .schema ?_
    rw [hc.type?]
    cases c.schema.type? name with
    | none => exact .bind (.failUnlocated (h := id) _ _) fun _ => ih
    | some d => exact .seq (.note _ _) (.seq (matches_checkTypeDef hc d) ih)

theorem matches_forM {α : Type} {k : α → α} {f : α → Check Unit}
    (h : ∀ a, Matches ρ c c' id (f a) (f (k a))) (as : List α) :
    Matches ρ c c' id (as.forM f) ((as.map k).forM f) := by
  induction as with
  | nil => exact .pure ()
  | cons a as ih => exact .seq (h a) ih

/-- **A schema that declares renamed types and functions in the same order is checked alike.** -/
theorem matches_checkSchema (hc : ρ.Relates c c')
    (htypes : c'.schema.types.length = c.schema.types.length)
    (hfunctions : c'.schema.functions = c.schema.functions.map ρ.functionDef)
    (horder : c'.schema.visitOrder = c.schema.visitOrder.map ρ.name) :
    Matches ρ c c' id checkSchema checkSchema := by
  unfold checkSchema
  refine .schema ?_
  have hlength : c'.schema.visitOrder.length = c.schema.visitOrder.length := by simp [horder]
  rw [hfunctions, hlength, htypes]
  have hrest : Matches ρ c c' id
      (checkTypes c.schema.visitOrder >>= fun _ => c.schema.functions.forM declareIfSorted >>=
        fun _ => c.schema.functions.forM checkFunctionDef)
      (checkTypes c'.schema.visitOrder >>= fun _ =>
        (c.schema.functions.map ρ.functionDef).forM declareIfSorted >>= fun _ =>
          (c.schema.functions.map ρ.functionDef).forM checkFunctionDef) := by
    rw [horder]
    exact .seq (matches_checkTypes hc _)
      (.seq (matches_forM (fun f => matches_declareIfSorted hc f _) _)
        (matches_forM (matches_checkFunctionDef hc) _))
  exact .ite Iff.rfl (.bind (.failUnlocated (h := id) _ _) fun _ => hrest) hrest

end DepSchema.Renaming
