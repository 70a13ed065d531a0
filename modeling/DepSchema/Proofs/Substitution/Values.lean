/-
DepSchema.Proofs.Substitution.Values — the check of a value takes no field that is not there.

When a value has passed its check, fields can be taken from it as from the values of its type: this
is what allows it to stand for a dependency, a field or a parameter afterwards, whose own fields the
types behind may take. A constructor is dispatched by the rule that declares its fields, so what the
rule's inputs have bound is known too.

Main results: `follows_dispatchFrom` and `follows_checkValue`.
-/
import DepSchema.Proofs.Substitution.Following

namespace DepSchema

/-! ## §1. Elements and fields. -/

/-- The elements of a collection of the right shape have a type of the right shape. -/
theorem TypeExpr.Shaped.element {s : Schema} {A : Access → Symbol → Prop} {t u : TypeExpr}
    {e : Expr} (h : t.Shaped s A) (ht : s.type? t.name = none) (he : t.params[0]? = some e)
    (hu : e.type? = some u) : u.Shaped s A := by
  cases h with
  | declared hd =>
    rw [ht] at hd
    cases hd
  | builtin _ _ helement => exact helement e u he hu

/-- A field of a constructor, and the type that is built with it. -/
theorem Schema.fieldHead?_eq_some {s : Schema} {o : Option Symbol} {ctor field T : Symbol}
    (h : s.fieldHead? o ctor field = some T) :
    ∃ d k v, s.constructor? ctor = some (d, k) ∧ o = some d.name ∧ v ∈ k.fields
      ∧ v.name.name = field ∧ v.type.name = T := by
  obtain ⟨⟨d, k⟩, hfound, h⟩ := Option.bind_eq_some_iff.mp h
  dsimp only at h
  by_cases ho : o = some d.name
  · rw [if_pos ho] at h
    obtain ⟨v, hv, hT⟩ := Option.map_eq_some_iff.mp h
    exact ⟨d, k, v, hfound, ho, List.mem_of_find?_eq_some hv, by simpa using List.find?_some hv, hT⟩
  · rw [if_neg ho] at h
    cases h

namespace Typing

open Check

variable {c : Setting} {B : Binding → Prop} {Γ Γ' : Heads}

/-! ## §2. Variables, callees and fields. -/

theorem follows_fieldType (hs : c.schema.WellShaped) (base : Access) {type : TypeExpr}
    (htype : type.Supports c.schema) (field : Ident) :
    Follows c B Γ (fieldType base type field) fun t => t.Supports c.schema := by
  unfold fieldType
  refine Follows.schema.bind fun s hschema => ?_
  subst hschema
  split
  · exact .fail
  · exact .fail
  · next m hm =>
    refine (Follows.getSome).bind fun declared hdeclared => ?_
    have hdeps : (bindDeps m.deps type.params).Supports c.schema (Variable.heads m.deps) := by
      cases htype with
      | declared hd hparams =>
        rw [hm] at hd
        cases hd
        exact Substitution.supports_bindDeps hparams
      | builtin hnone =>
        rw [hm] at hnone
        cases hnone
    -- the fields before this one stand for fields of the same variable
    have hσ := (hdeps.mono (List.subset_append_left _ (Variable.heads m.fields))).bindFields base
      (m.fields.takeWhile fun v => v.name.name != field.name) fun v hv =>
        List.mem_append_right _ (List.mem_map_of_mem ((List.takeWhile_sublist _).subset hv))
    refine (Follows.under hσ ?_).mono fun _ h => h.2
    exact hs.fields m (Schema.mem_of_type? hm) declared (List.mem_of_find?_eq_some hdeclared)

theorem follows_fieldsType (hs : c.schema.WellShaped) (fields : List Ident) :
    ∀ (base : Access) {type : TypeExpr}, type.Supports c.schema →
      Follows c B Γ (fieldsType base type fields) fun _ => True := by
  induction fields with
  | nil =>
    intro base type _
    exact .pure trivial
  | cons f fs ih =>
    intro base type htype
    exact (follows_fieldType hs base htype f).bind fun type' htype' => ih _ htype'

theorem follows_accessType (hs : c.schema.WellShaped) (a : Access) :
    Follows c c.schema.Binds Γ (accessType a) fun _ => True := by
  unfold accessType
  refine (Follows.meaning? _).bind fun o ho => ?_
  refine (Follows.getSome).bind fun b hb => ?_
  refine .ite (fun _ => .pure trivial) fun _ => ?_
  have hbinds := ho b hb
  cases b with
  | value type => exact (follows_fieldsType hs a.fields _ hbinds).bind fun _ _ => .pure trivial
  | function ft => exact .fail

/-- What is called is a function of the schema. -/
theorem follows_calleeType (callee : Ident) :
    Follows c c.schema.Binds Γ (calleeType callee) c.schema.HasFunction := by
  unfold calleeType
  refine (Follows.meaning? _).bind fun o ho => ?_
  cases o with
  | some b =>
    have hbinds := ho b rfl
    cases b with
    | value type => exact .fail
    | function ft => exact .pure hbinds
  | none =>
    refine Follows.schema.bind fun s hschema => ?_
    subst hschema
    refine (Follows.getSome).bind fun f hf => .pure ?_
    exact .declared (List.mem_of_find?_eq_some hf)

theorem follows_requireValue (expected : TypeExpr) (actual : Binding) (span : Span) :
    Follows c B Γ (requireValue expected actual span) fun _ =>
      ∃ type, actual = .value type ∧ expected.name = type.name := by
  cases actual with
  | value type =>
    exact (follows_requireSameType expected type span).mono fun _ hname => ⟨type, rfl, hname⟩
  | function ft => exact .fail

theorem follows_requireLength (expected got : Expr) (span : Span) :
    Follows c B Γ (requireLength expected got span) fun _ => True := by
  unfold requireLength
  refine (Follows.askEqual _ _).bind fun equal _ => ?_
  exact .ite (fun _ => .pure trivial) fun _ => .fail

theorem follows_lengthOfBinding (element : TypeExpr) (actual : Binding) (span : Span) :
    Follows c B Γ (lengthOfBinding element actual span) fun _ => True := by
  unfold lengthOfBinding
  cases actual with
  | function ft => exact .fail
  | value type =>
    refine .ite (fun _ => .fail) fun _ => ?_
    refine (follows_elementType type 0).bind fun u _ => ?_
    refine (follows_requireSameType element u span).bind fun _ _ => ?_
    exact (Follows.getSome).mono fun _ _ => trivial

/-- **A call gives a message only if some function does.** -/
theorem follows_callType (hs : c.schema.WellShaped) (span : Span) (callee : Ident) (count : Nat)
    {arguments : List Parameter → Check (Substitution × List Parameter)}
    (h : ∀ ft, c.schema.HasFunction ft → Follows c c.schema.Binds Γ (arguments ft.params) fun r =>
      r.1.Supports c.schema (ParameterType.heads ft.params)
        ∧ ParameterType.AllFit c.schema (ParameterType.heads ft.params) r.2) :
    Follows c c.schema.Binds Γ (callType span callee count arguments) fun b =>
      ∀ type, b = .value type → c.schema.IsMessage type.name → c.schema.ReturnsMessage := by
  unfold callType
  refine (follows_calleeType callee).bind fun ft hft => .guard fun _ => ?_
  refine (h ft hft).bind fun r hr => ?_
  obtain ⟨σ, remaining⟩ := r
  refine (Follows.under hr.1 (hs.functions ft hft).2).bind fun result hresult => ?_
  refine .ite (fun _ => .pure fun type htype hmessage => ?_) fun _ => ?_
  · cases htype
    rw [hresult.1] at hmessage
    exact ⟨ft, hft, hmessage⟩
  · refine (follows_underParameters hr.1 remaining hr.2).bind fun ps _ => .pure ?_
    exact fun type htype => by cases htype

/-! ## §3. Rules. -/

theorem follows_matchByOracle {σ : Substitution} (hσ : σ.Supports c.schema Γ')
    (pattern actual : Expr) : Follows c B Γ (matchByOracle σ pattern actual) fun r =>
      ∀ bound, r = some bound → bound.Supports c.schema Γ' := by
  unfold matchByOracle
  split
  · exact .pure fun bound h => by cases h
  · refine (Follows.askEqual _ _).bind fun equal _ => (Follows.note _).bind fun _ _ => .pure ?_
    intro bound h
    cases equal with
    | false => cases h
    | true =>
      cases h
      exact hσ

mutual

/-- **What a pattern binds has the shape that its place says**, where the value that it is matched
with has the shape of its type. -/
theorem follows_matchExpr : ∀ (pattern : Expr) (o : Option Symbol) {σ : Substitution}
    {actual : Expr}, σ.Supports c.schema Γ' → pattern.caughtHeads c.schema o ⊆ Γ' →
    (∀ T, o = some T → actual.Supports c.schema T) →
    Follows c B Γ (matchExpr σ actual pattern) fun r =>
      ∀ bound, r = some bound → bound.Supports c.schema Γ'
  | .access a, o, σ, actual, hσ, hcaught, hactual => by
    unfold matchExpr
    refine .ite (fun hvar => .pure ?_) fun _ => follows_matchByOracle hσ _ _
    intro bound hbound
    cases hbound
    refine hσ.bind (hcaught ?_) hactual
    unfold Expr.caughtHeads
    rw [if_pos hvar]
    exact List.mem_singleton_self _
  | .constructed _ ctor inits, o, σ, actual, hσ, hcaught, hactual => by
    unfold matchExpr
    split
    · next values _ =>
      refine .ite (fun hname => ?_) fun _ => .pure fun bound h => by cases h
      refine follows_matchInits inits _ hσ hcaught fun f value hvalue T hT => ?_
      obtain ⟨d, k, v, hfound, rfl, hv, hfield, rfl⟩ := Schema.fieldHead?_eq_some hT
      -- the value supplies the field, and with a value of the right shape
      have htype : c.schema.type? d.name ≠ none := by
        rw [Schema.type?_of_constructor? hfound]
        exact Option.some_ne_none _
      obtain ⟨-, hvalues⟩ := (hactual _ rfl).values htype (hname ▸ hfound)
      obtain ⟨e, he, hshaped⟩ := hvalues v hv
      rw [hfield, hvalue] at he
      cases he
      exact hshaped
    · -- a variable is matched by its fields, if it is a message
      refine Follows.schema.bind fun s hschema => ?_
      split
      · refine follows_matchInits inits _ hσ hcaught fun f value hvalue T _ => ?_
        cases hvalue
        exact .access trivial
      · exact .pure fun bound h => by cases h
    · exact .pure fun bound h => by cases h
  | .binary _ _ _ _, _, _, _, hσ, _, _ => follows_matchByOracle hσ _ _
  | .unary _ _ _, _, _, _, hσ, _, _ => follows_matchByOracle hσ _ _
  | .type _ _ _, _, _, _, hσ, _, _ => follows_matchByOracle hσ _ _
  | .scalar _ _, _, _, _, hσ, _, _ => follows_matchByOracle hσ _ _
  | .collection _ _, _, _, _, hσ, _, _ => follows_matchByOracle hσ _ _
  | .call _ _ _, _, _, _, hσ, _, _ => follows_matchByOracle hσ _ _

theorem follows_matchInits : ∀ (fs : List (Named Expr)) (head : Symbol → Option Symbol)
    {σ : Substitution} {valueOf : Ident → Option Expr}, σ.Supports c.schema Γ' →
    Expr.caughtHeadsFields c.schema fs head ⊆ Γ' →
    (∀ f value, valueOf f = some value → ∀ T, head f.name = some T →
      value.Supports c.schema T) →
    Follows c B Γ (matchInits σ valueOf fs) fun r =>
      ∀ bound, r = some bound → bound.Supports c.schema Γ'
  | [], _, σ, _, hσ, _, _ => .pure fun bound h => by cases h; exact hσ
  | f :: fs, head, σ, valueOf, hσ, hcaught, hvalues => by
    unfold Expr.caughtHeadsFields at hcaught
    rw [List.append_subset] at hcaught
    unfold matchInits
    split
    · exact .pure fun bound h => by cases h
    · next value hvalue =>
      refine (follows_matchExpr f.val (head f.name.name) hσ hcaught.1
        (hvalues f.name value hvalue)).bind fun r hr => ?_
      cases r with
      | none => exact .pure fun bound h => by cases h
      | some σ' => exact follows_matchInits fs head (hr σ' rfl) hcaught.2 hvalues

end

theorem follows_matchInputs (inputs : List RuleInput) : ∀ {deps : List Variable}
    {params : List Expr} {σ : Substitution}, deps.length = params.length →
    σ.Supports c.schema Γ' → RuleInput.caughtHeads c.schema inputs deps ⊆ Γ' →
    (∀ p ∈ deps.zip params, p.2.Supports c.schema p.1.type.name) →
    Follows c B Γ (matchInputs σ inputs params) fun r =>
      ∀ bound, r = some bound → bound.Supports c.schema Γ' := by
  induction inputs with
  | nil =>
    intro deps params σ _ hσ _ _
    exact .pure fun bound h => by cases h; exact hσ
  | cons input inputs ih =>
    intro deps params σ hlen hσ hcaught hparams
    cases deps with
    | nil =>
      obtain rfl : params = [] := List.length_eq_zero_iff.mp hlen.symm
      cases input <;> exact .pure fun bound h => by cases h; exact hσ
    | cons dep deps =>
      cases params with
      | nil => simp at hlen
      | cons param params =>
        rw [List.zip_cons_cons, List.forall_mem_cons] at hparams
        have hlen' : deps.length = params.length := Nat.succ.inj hlen
        cases input with
        | any span => exact ih hlen' hσ hcaught hparams.2
        | value p =>
          replace hcaught : p.caughtHeads c.schema (some dep.type.name)
              ++ RuleInput.caughtHeads c.schema inputs deps ⊆ Γ' := hcaught
          rw [List.append_subset] at hcaught
          refine (follows_matchExpr p _ hσ hcaught.1 fun T hT => ?_).bind fun r hr => ?_
          · cases hT
            exact hparams.1
          · cases r with
            | none => exact .pure fun bound h => by cases h
            | some σ' => exact ih hlen' (hr σ' rfl) hcaught.2 hparams.2

/-- **Dispatch finds a rule that offers the constructor, and binds what the inputs of the rule
say.** -/
theorem follows_dispatchFrom {enum : Symbol} (ctor : Ident) {deps : List Variable}
    {params : List Expr} (hlen : deps.length = params.length)
    (hparams : ∀ p ∈ deps.zip params, p.2.Supports c.schema p.1.type.name) (rules : List Rule) :
    ∀ index, Follows c B Γ (dispatchFrom enum ctor params (bindDeps deps params) rules index)
      fun bound => ∃ r ∈ rules, (r.constructor? ctor.name).isSome = true ∧ bound.Supports c.schema
        (Variable.heads deps ++ RuleInput.caughtHeads c.schema r.inputs deps) := by
  induction rules with
  | nil => exact fun _ => .fail
  | cons rule rules ih =>
    intro index
    unfold dispatchFrom
    have hrule : Follows c B Γ (matchRule (bindDeps deps params) rule params) fun r =>
        ∀ bound, r = some bound → bound.Supports c.schema
          (Variable.heads deps ++ RuleInput.caughtHeads c.schema rule.inputs deps) := by
      refine .ite (fun _ => ?_) fun _ => .pure fun bound h => by cases h
      -- each rule starts from the dependencies, not from what the rules before it have bound
      refine follows_matchInputs rule.inputs hlen ?_ (List.subset_append_right _ _) hparams
      exact (Substitution.supports_bindDeps hparams).mono (List.subset_append_left _ _)
    refine hrule.bind fun r hr => ?_
    cases r with
    | none =>
      refine (Follows.note _).bind fun _ _ => (ih _).mono fun bound h => ?_
      obtain ⟨r, hmem, h⟩ := h
      exact ⟨r, List.mem_cons_of_mem _ hmem, h⟩
    | some bound =>
      refine (Follows.note _).bind fun _ _ => .ite (fun hoffers => .pure ?_) fun _ => .fail
      exact ⟨rule, List.mem_cons_self, hoffers, hr bound rfl⟩

/-! ## §4. Constructed values. -/

theorem follows_checkFields (span : Span) (ctor : Ident) {inits : List (Named Expr)}
    {check : Symbol → TypeExpr → Check Unit}
    (hcheck : ∀ name type, type.Supports c.schema → Follows c c.schema.Binds Γ (check name type)
      fun _ => ∀ value, Named.find? inits name = some value → value.Supports c.schema type.name)
    (fields : List Variable) : ∀ {σ : Substitution}, σ.Supports c.schema Γ' →
      (∀ v ∈ fields, v.type.Fits c.schema Γ' ∧ (v.name.name, some v.type.name) ∈ Γ') →
      Follows c c.schema.Binds Γ (checkFields span ctor inits check σ fields) fun _ =>
        ∀ v ∈ fields, ∃ value, Named.find? inits v.name.name = some value
          ∧ value.Supports c.schema v.type.name := by
  induction fields with
  | nil => exact fun _ _ => .pure (by simp)
  | cons field fields ih =>
    intro σ hσ hfields
    rw [List.forall_mem_cons] at hfields
    obtain ⟨⟨hfits, hmem⟩, hfields⟩ := hfields
    unfold checkFields
    refine (Follows.getSome).bind fun value hvalue => ?_
    refine (Follows.under hσ hfits).bind fun type htype => ?_
    obtain ⟨hname, htype⟩ := htype
    -- the value stands for the field in the types of the fields after it
    have hrest : value.Supports c.schema field.type.name →
        Follows c c.schema.Binds Γ
          (checkFields span ctor inits check (σ.bind field.name.name value) fields)
          fun _ => ∀ v ∈ field :: fields, ∃ value, Named.find? inits v.name.name = some value
            ∧ value.Supports c.schema v.type.name := by
      intro hsupports
      refine (ih (hσ.bind hmem fun T hT => ?_) hfields).mono fun _ hothers => ?_
      · cases hT
        exact hsupports
      · rw [List.forall_mem_cons]
        exact ⟨⟨value, hvalue, hsupports⟩, hothers⟩
    refine Follows.isReadingInput.bind fun reading _ => ?_
    split
    · next i hbare =>
      obtain ⟨a, rfl, -, -⟩ := Expr.access_of_bareVar? hbare
      refine (Follows.introduce i.name (b := .value type) htype).bind fun _ _ => ?_
      exact hrest (.access trivial)
    · refine (hcheck field.name.name type htype).bind fun _ hsupports => ?_
      exact hrest (hname ▸ hsupports value hvalue)

/-- **The fields of a constructor are checked where the types that they are declared with fit.** In
an enum, the rule that was dispatched declares them. -/
theorem follows_boundFields {β : Type} (hs : c.schema.WellShaped) {owner : TypeDef}
    {declared : Constructor} (ctor : Ident)
    (hfound : c.schema.constructor? ctor.name = some (owner, declared)) {params : List Expr}
    (hlen : owner.deps.length = params.length)
    (hparams : ∀ p ∈ owner.deps.zip params, p.2.Supports c.schema p.1.type.name)
    {f : Substitution → Check β} {Q : β → Prop}
    (hf : ∀ (σ : Substitution) (Γ' : Heads), σ.Supports c.schema Γ' → (∀ v ∈ declared.fields,
        v.type.Fits c.schema Γ' ∧ (v.name.name, some v.type.name) ∈ Γ') →
      Follows c B Γ (f σ) Q) :
    Follows c B Γ (match owner with
      | .enum e => dispatch e ctor params (bindDeps owner.deps params) >>= f
      | .message _ => pure (bindDeps owner.deps params) >>= f) Q := by
  obtain ⟨hmem, hdeclared, hname⟩ := Schema.of_constructor? hfound
  cases owner with
  | message m =>
    obtain rfl := List.mem_singleton.mp hdeclared
    refine hf _ (Variable.heads m.deps ++ Variable.heads m.fields) ?_ fun v hv => ⟨?_, ?_⟩
    · exact (Substitution.supports_bindDeps hparams).mono (List.subset_append_left _ _)
    · exact hs.fields m hmem v hv
    · exact List.mem_append_right _ (List.mem_map_of_mem hv)
  | enum e =>
    refine (follows_dispatchFrom ctor hlen hparams e.rules 0).bind fun bound hbound => ?_
    obtain ⟨r, hr, hoffers, hsupports⟩ := hbound
    -- no other constructor of the schema has the name of the one that the rule offers
    obtain ⟨k, hk⟩ := Option.isSome_iff_exists.mp hoffers
    have hkmem : k ∈ r.constructors := List.mem_of_find?_eq_some hk
    have hkname : k.name = ctor.name := by simpa using List.find?_some hk
    have hkfound := hs.constructors _ hmem k (List.mem_flatMap.mpr ⟨r, hr, hkmem⟩)
    rw [hkname, hfound] at hkfound
    cases hkfound
    refine hf bound _ (hsupports.mono (List.subset_append_left _ (Variable.heads declared.fields)))
      fun v hv => ⟨?_, ?_⟩
    · exact (hs.rules e hmem r hr).fields declared hkmem v hv
    · exact List.mem_append_right _ (List.mem_map_of_mem hv)

theorem follows_checkConstructed (hs : c.schema.WellShaped) (span : Span) (ctor : Ident)
    (inits : List (Named Expr)) {expected : TypeExpr} (hexpected : expected.Supports c.schema)
    {check : Symbol → TypeExpr → Check Unit}
    (hcheck : ∀ name type, type.Supports c.schema → Follows c c.schema.Binds Γ (check name type)
      fun _ => ∀ value, Named.find? inits name = some value → value.Supports c.schema type.name) :
    Follows c c.schema.Binds Γ (checkConstructed span ctor inits expected check) fun _ =>
      (Expr.constructed span ctor inits).Supports c.schema expected.name := by
  unfold checkConstructed
  refine Follows.schema.bind fun s hschema => ?_
  subst hschema
  refine (Follows.getSome).bind fun found hfound => ?_
  obtain ⟨owner, declared⟩ := found
  refine .guard fun hname => .guard fun hlen => ?_
  rw [not_not] at hname hlen
  have howner := Schema.type?_of_constructor? hfound
  rw [hname] at howner
  have hparams : ∀ p ∈ owner.deps.zip expected.params, p.2.Supports c.schema p.1.type.name := by
    cases hexpected with
    | declared hd hparams =>
      rw [howner] at hd
      cases hd
      exact hparams
    | builtin hnone =>
      rw [howner] at hnone
      cases hnone
  refine follows_boundFields hs ctor hfound hlen hparams fun σ Γ' hσ hfields => .guard fun _ => ?_
  refine (follows_checkFields span ctor hcheck declared.fields hσ hfields).mono fun _ hvalues => ?_
  rw [← hname]
  refine .constructed hfound (fun v hv => ?_) fun v hv value hvalue => ?_
  · obtain ⟨value, hvalue, -⟩ := hvalues v hv
    exact Option.isSome_iff_exists.mpr ⟨value, hvalue⟩
  · obtain ⟨value', hvalue', hsupports⟩ := hvalues v hv
    rw [hvalue] at hvalue'
    cases hvalue'
    exact hsupports

/-! ## §5. Values. -/

/-- The elements of a collection are checked against a type of the right shape. -/
theorem follows_elements (hs : c.schema.WellShaped) {t : TypeExpr} (ht : t.Supports c.schema)
    (hname : t.name ∈ Symbol.builtins) :
    Follows c B Γ (elementType t 0) fun u => u.Supports c.schema := by
  refine (follows_elementType t 0).mono fun u hu => ?_
  obtain ⟨e, he, hu⟩ := hu
  exact ht.element (hs.builtins _ hname) he hu

mutual

/-- **From a value that has passed its check fields can be taken as from all values of its type.**
-/
theorem follows_checkValue (hs : c.schema.WellShaped) :
    ∀ (e : Expr) (expected : TypeExpr), expected.Supports c.schema →
      Follows c c.schema.Binds Γ (checkValue e expected) fun _ =>
        e.Supports c.schema expected.name
  | .type _ _ _, _, _ => .fail
  | .binary span op l r, expected, hexpected => by
    unfold checkValue
    refine .ite (fun hunion => ?_) fun _ => .ite (fun _ => .fail) fun htype => ?_
    · have hname : expected.name ∈ Symbol.builtins := by
        rw [hunion.2]
        decide
      refine (follows_elements hs hexpected hname).bind fun element helement => ?_
      refine (Follows.getSome).bind fun length _ => ?_
      refine (follows_lengthOf hs l element helement).bind fun left _ => ?_
      refine (follows_lengthOf hs r element helement).bind fun right _ => ?_
      exact (follows_requireLength _ _ _).mono fun _ _ => .builtin (hs.builtins _ hname)
    · have hname := hs.builtins _ (op.operandTypes_subset (not_not.mp htype))
      refine .ite (fun _ => ?_) fun _ => ?_
      · exact (Follows.note _).mono fun _ _ => .builtin hname
      · refine (follows_checkValue hs l expected hexpected).bind fun _ _ => ?_
        exact (follows_checkValue hs r expected hexpected).mono fun _ _ => .builtin hname
  | .unary span op x, expected, hexpected => by
    unfold checkValue
    refine .ite (fun _ => .fail) fun htype => ?_
    have hname := hs.builtins _ (op.operandTypes_subset (not_not.mp htype))
    exact (follows_checkValue hs x expected hexpected).mono fun _ _ => .builtin hname
  | .access a, expected, _ => by
    unfold checkValue
    refine (follows_accessType hs a).bind fun b _ => ?_
    exact (follows_requireValue expected b a.span).mono fun _ _ => .access trivial
  | .scalar span v, expected, _ => by
    unfold checkValue
    refine .ite (fun htype => .pure (.builtin ?_)) fun _ => .fail
    rw [← htype.1]
    exact hs.builtins _ v.type_mem_builtins
  | .constructed span ctor inits, expected, hexpected =>
    follows_checkConstructed hs span ctor inits hexpected (follows_checkField hs inits)
  | .collection span es, expected, hexpected => by
    unfold checkValue
    refine .ite (fun hset => ?_) fun _ => .ite (fun harray => ?_) fun _ => .fail
    · have hname : expected.name ∈ Symbol.builtins := by
        rw [hset]
        decide
      refine (follows_elements hs hexpected hname).bind fun element helement => ?_
      refine (follows_checkElements hs es element helement).mono fun _ _ => ?_
      exact .builtin (hs.builtins _ hname)
    · have hname : expected.name ∈ Symbol.builtins := by
        rw [harray]
        decide
      refine (follows_elements hs hexpected hname).bind fun element helement => ?_
      refine (Follows.getSome).bind fun length _ => ?_
      refine (follows_checkElements hs es element helement).bind fun _ _ => ?_
      exact (follows_requireLength _ _ _).mono fun _ _ => .builtin (hs.builtins _ hname)
  | .call span f as, expected, _ => by
    unfold checkValue
    refine (follows_callType hs span f as.length fun ft hft =>
      follows_checkArguments hs as (Substitution.supports_empty _) (hs.functions ft hft).1
        fun p hp => List.mem_map_of_mem hp).bind fun b hb => ?_
    refine (follows_requireValue expected b span).mono fun _ htype => ?_
    obtain ⟨type, rfl, hname⟩ := htype
    rw [hname]
    exact .call (hb type rfl)

theorem follows_lengthOf (hs : c.schema.WellShaped) :
    ∀ (e : Expr) (element : TypeExpr), element.Supports c.schema →
      Follows c c.schema.Binds Γ (lengthOf e element) fun _ => True
  | .collection span es, element, helement => by
    unfold lengthOf
    exact (follows_checkElements hs es element helement).bind fun _ _ => .pure trivial
  | .binary span op l r, element, helement => by
    unfold lengthOf
    refine .ite (fun _ => ?_) fun _ => .fail
    refine (follows_lengthOf hs l element helement).bind fun left _ => ?_
    exact (follows_lengthOf hs r element helement).bind fun right _ => .pure trivial
  | .access a, element, _ => by
    unfold lengthOf
    exact (follows_accessType hs a).bind fun b _ => follows_lengthOfBinding _ _ _
  | .call span f as, element, _ => by
    unfold lengthOf
    refine (follows_callType hs span f as.length fun ft hft =>
      follows_checkArguments hs as (Substitution.supports_empty _) (hs.functions ft hft).1
        fun p hp => List.mem_map_of_mem hp).bind fun b _ => ?_
    exact follows_lengthOfBinding _ _ _
  | .type _ _ _, _, _ => .fail
  | .unary _ _ _, _, _ => .fail
  | .scalar _ _, _, _ => .fail
  | .constructed _ _ _, _, _ => .fail

theorem follows_functionOf (hs : c.schema.WellShaped) :
    ∀ e : Expr, Follows c c.schema.Binds Γ (functionOf e) fun _ => True
  | .access a => by
    unfold functionOf
    exact .ite (fun _ => (follows_calleeType a.var).mono fun _ _ => trivial) fun _ => .fail
  | .call span f as => by
    unfold functionOf
    refine (follows_callType hs span f as.length fun ft hft =>
      follows_checkArguments hs as (Substitution.supports_empty _) (hs.functions ft hft).1
        fun p hp => List.mem_map_of_mem hp).bind fun b _ => ?_
    cases b with
    | function ft => exact .pure trivial
    | value type => exact .fail
  | .type _ _ _ => .fail
  | .binary _ _ _ _ => .fail
  | .unary _ _ _ => .fail
  | .scalar _ _ => .fail
  | .constructed _ _ _ => .fail
  | .collection _ _ => .fail

/-- Each argument stands for its parameter in the types of those after it. -/
theorem follows_checkArguments {Γ' : Heads} (hs : c.schema.WellShaped) :
    ∀ (args : List Expr) {σ : Substitution} {ps : List Parameter}, σ.Supports c.schema Γ' →
      ParameterType.AllFit c.schema Γ' ps → (∀ p ∈ ps, (p.name.name, p.val.head?) ∈ Γ') →
      Follows c c.schema.Binds Γ (checkArguments args σ ps) fun r =>
        r.1.Supports c.schema Γ' ∧ ParameterType.AllFit c.schema Γ' r.2
  | [], _, _, hσ, hps, _ => .pure ⟨hσ, hps⟩
  | _ :: _, _, [], hσ, hps, _ => .pure ⟨hσ, hps⟩
  | arg :: args, σ, ⟨name, .value type⟩ :: ps, hσ, hps, hmem => by
    rw [List.forall_mem_cons] at hmem
    unfold checkArguments
    refine (Follows.under hσ hps.1).bind fun type' htype => ?_
    refine (follows_checkValue hs arg type' htype.2).bind fun _ harg => ?_
    refine follows_checkArguments hs args (hσ.bind hmem.1 fun T hT => ?_) hps.2 hmem.2
    cases hT
    exact htype.1 ▸ harg
  | arg :: args, σ, ⟨name, .function qs result⟩ :: ps, hσ, hps, hmem => by
    rw [List.forall_mem_cons] at hmem
    unfold checkArguments
    refine (follows_underFunction hσ hps.1).bind fun expected _ => ?_
    refine (follows_functionOf hs arg).bind fun got _ => ?_
    refine (follows_requireSameFunctionType expected got arg.span).bind fun _ _ => ?_
    -- nothing is known of an argument that is a function
    exact follows_checkArguments hs args (hσ.bind hmem.1 fun T hT => by cases hT) hps.2 hmem.2

theorem follows_checkElements (hs : c.schema.WellShaped) :
    ∀ (es : List Expr) (element : TypeExpr), element.Supports c.schema →
      Follows c c.schema.Binds Γ (checkElements es element) fun _ => True
  | [], _, _ => .pure trivial
  | e :: es, element, helement => by
    unfold checkElements
    refine (follows_checkValue hs e element helement).bind fun _ _ => ?_
    exact follows_checkElements hs es element helement

theorem follows_checkField (hs : c.schema.WellShaped) :
    ∀ (fs : List (Named Expr)) (name : Symbol) (type : TypeExpr), type.Supports c.schema →
      Follows c c.schema.Binds Γ (checkField fs name type) fun _ =>
        ∀ value, Named.find? fs name = some value → value.Supports c.schema type.name
  | [], _, _, _ => .pure fun value h => by cases h
  | f :: fs, name, type, htype => by
    unfold checkField
    refine .ite (fun hname => ?_) fun hname => ?_
    · refine (follows_checkValue hs f.val type htype).mono fun _ hsupports value hvalue => ?_
      rw [Named.find?_cons, if_pos hname] at hvalue
      cases hvalue
      exact hsupports
    · refine (follows_checkField hs fs name type htype).mono fun _ hsupports value hvalue => ?_
      rw [Named.find?_cons, if_neg hname] at hvalue
      exact hsupports value hvalue

end

end Typing

end DepSchema
