/-
DepSchema.Proofs.Vocabulary.Values — checks of values ask within a vocabulary.

The check of a value asks within a closed vocabulary when the value and the expected type are within
reach, and what it gives is within reach. The fields of a constructor and the parameters of a
function are replaced on the way. Inside a rule input a variable alone is not within reach before it
is bound, but it is afterwards.

Main result: `asks_checkValue`.
-/
import DepSchema.Proofs.Vocabulary.Rules
import DepSchema.Proofs.Oracle.Soundness

namespace DepSchema

namespace Typing

open Check

variable {W : Vocabulary} {c : Setting}

/-! ## §1. Lengths and calls. -/

theorem asks_lengthOfBinding {s : Checking} (hs : s.Within W) {element : TypeExpr}
    (helement : element.Within (s.reach W)) {actual : Binding} (hactual : actual.Within (s.reach W))
    (span : Span) :
    Asks W c (lengthOfBinding element actual span) s fun e u => e.Within (u.reach W) := by
  unfold lengthOfBinding
  cases actual with
  | function ft => exact .fail
  | value type =>
    dsimp only
    split
    · exact .fail
    · refine (asks_elementType hs hactual 0).bind fun t' t hst ht' => ?_
      refine (asks_requireSameType hst.within (helement.mono hst.le) ht' span).bind
        fun _ u htu _ => ?_
      cases hlength : type.params[1]? with
      | none => exact .fail
      | some length =>
        have hwithin := (TypeExpr.within_iff.mp hactual).2 length (List.mem_of_getElem? hlength)
        exact .pure htu.within (hwithin.mono (hst.le.trans htu.le))

theorem asks_requireValue {s : Checking} (hs : s.Within W) {expected : TypeExpr}
    (hexpected : expected.Within (s.reach W)) {actual : Binding}
    (hactual : actual.Within (s.reach W)) (span : Span) :
    Asks W c (requireValue expected actual span) s fun _ _ => True := by
  unfold requireValue
  cases actual with
  | value type => exact asks_requireSameType hs hexpected hactual span
  | function ft => exact .fail

theorem asks_expectedLength {s : Checking} (hs : s.Within W) {expected : TypeExpr}
    (hexpected : expected.Within (s.reach W)) :
    Asks W c (expectedLength expected) s fun e u => e.Within (u.reach W) := by
  unfold expectedLength
  cases hlength : expected.params[1]? with
  | none => exact .fail
  | some length =>
    exact .pure hs ((TypeExpr.within_iff.mp hexpected).2 length (List.mem_of_getElem? hlength))

theorem asks_requireLength {s : Checking} (hs : s.Within W) {expected got : Expr}
    (hexpected : expected.Within (s.reach W)) (hgot : got.Within (s.reach W)) (span : Span) :
    Asks W c (requireLength expected got span) s fun _ _ => True := by
  unfold requireLength
  refine (Asks.askEqual hs hexpected hgot).bind fun equal t hst _ => ?_
  split
  · exact .pure hst.within trivial
  · exact .fail

/-- What the check of arguments gives: the parameters fall into those that have an argument, which
are replaced, and those that remain. -/
def Applied (W V : Vocabulary) (ps : List Parameter) (r : Substitution × List Parameter)
    (t : Checking) : Prop :=
  ∃ given, ps = given ++ r.2 ∧ r.1.Covers (V.adding (given.map fun p => p.name.name)) (t.reach W)

theorem asks_callType (hW : W.Closed c.schema) {s : Checking} (hs : s.Within W) (span : Span)
    {callee : Ident} (hcallee : W (.callee callee.name)) (count : Nat)
    {arguments : List Parameter → Check (Substitution × List Parameter)}
    (harguments : ∀ (ps : List Parameter) (t : Checking), s.Leads W t →
      ParameterType.AllWithin (t.reach W) (t.reach W) ps →
      Asks W c (arguments ps) t (Applied W (t.reach W) ps)) :
    Asks W c (callType span callee count arguments) s fun b u => b.Within (u.reach W) := by
  unfold callType
  refine (asks_calleeType hW hs (.inl hcallee)).bind fun ft t hst hft => ?_
  refine .guard fun _ => ?_
  refine (harguments ft.params t hst hft.params).bind fun r u htu hr => ?_
  obtain ⟨σ, remaining⟩ := r
  obtain ⟨given, hsplit, hcovers⟩ := hr
  refine .under htu.within fun result hresult => ?_
  have hrest := hft.params
  have hwithin := hft.result
  rw [hsplit] at hrest hwithin
  rw [List.map_append, ← Vocabulary.adding_adding] at hwithin
  split
  · next hempty =>
    -- every parameter has an argument
    rw [List.isEmpty_iff] at hempty
    subst hempty
    rw [List.map_nil, Vocabulary.adding_nil] at hwithin
    exact .pure htu.within (hcovers.applyType hwithin hresult)
  · refine (asks_underParameters (hcovers.mono (Vocabulary.le_adding _) le_rfl) remaining _
      (u.reach W) u htu.within hrest.append hcovers).bind fun ps' v huv hps' => ?_
    refine .pure huv.within (Binding.Within.mono huv.le (b := .function ⟨ps', result⟩)
      ⟨hps'.1, ?_⟩)
    rw [show (FunctionType.mk ps' result).params = ps' from rfl, hps'.2]
    exact (hcovers.adding _).applyType hwithin hresult

end Typing

/-! ## §2. Constructed values. -/

/-- The expression may be read in the state: it is within reach, but inside a rule input variables
alone, as values of fields, are still to be bound. -/
structure Checking.Reads (W : Vocabulary) (s : Checking) (e : Expr) : Prop where
  plain : e.Plain (s.reach W)
  within : s.readingInput = false → e.Within (s.reach W)

namespace Checking

variable {W : Vocabulary} {s t : Checking}

theorem Reads.of_within {e : Expr} (h : e.Within (s.reach W)) : s.Reads W e :=
  ⟨h.plain, fun _ => h⟩

theorem Reads.mono {e : Expr} (h : s.Reads W e) (hst : s.Leads W t) : t.Reads W e := by
  refine ⟨h.plain.mono hst.le, fun hreading => ?_⟩
  exact (h.within (hst.readingInput.symm.trans hreading)).mono hst.le

/-- The value of a field may be read, or else it is a variable that a rule input binds. -/
def ReadsField (W : Vocabulary) (s : Checking) (e : Expr) : Prop :=
  s.Reads W e ∨ s.readingInput = true ∧ e.bareVar?.isSome

theorem ReadsField.mono {e : Expr} (h : s.ReadsField W e) (hst : s.Leads W t) :
    t.ReadsField W e := by
  refine h.imp (fun h => h.mono hst) fun h => ?_
  exact ⟨hst.readingInput.trans h.1, h.2⟩

theorem Reads.fields {span : Span} {ctor : Ident} {inits : List (Named Expr)}
    (h : s.Reads W (.constructed span ctor inits)) :
    s.reach W (.ctor ctor.name) ∧ ∀ f ∈ inits, s.ReadsField W f.val := by
  obtain ⟨hplain, hwithin⟩ := h
  rw [Expr.plain_constructed] at hplain
  refine ⟨hplain.1, fun f hf => ?_⟩
  cases hreading : s.readingInput with
  | false => exact .inl (.of_within ((Expr.within_constructed.mp (hwithin hreading)).2 f hf))
  | true =>
    rcases hplain.2 f hf with hbare | hf
    · exact .inr ⟨hreading, hbare⟩
    · exact .inl ⟨hf, fun h => by simp [hreading] at h⟩

end Checking

/-- The value of a field was checked. -/
def Checking.Holds (W : Vocabulary) (s : Checking) (e : Expr) : Prop :=
  e.Within (s.reach W) ∧ e.IsValue

theorem Checking.Holds.mono {W : Vocabulary} {s t : Checking} {e : Expr} (h : s.Holds W e)
    (hst : s.Leads W t) : t.Holds W e :=
  ⟨h.1.mono hst.le, h.2⟩

namespace Typing

open Check

variable {W : Vocabulary} {c : Setting}

theorem asks_checkFields (span : Span) (ctor : Ident) {inits : List (Named Expr)}
    {check : Symbol → TypeExpr → Check Unit}
    (hcheck : ∀ (name : Symbol) (value : Expr) (type : TypeExpr) (t : Checking), t.Within W →
      Named.find? inits name = some value → t.Reads W value → type.Within (t.reach W) →
      Asks W c (check name type) t fun _ u => u.Holds W value)
    (fields : List Variable) :
    ∀ (σ : Substitution) (V : Vocabulary) (s : Checking), s.Within W →
      (∀ f ∈ inits, s.ReadsField W f.val) → Variable.Within V fields → σ.Covers V (s.reach W) →
      σ.scopes.frames ≠ [] →
      Asks W c (checkFields span ctor inits check σ fields) s fun _ t =>
        ∀ v ∈ fields, ∃ value, Named.find? inits v.name.name = some value ∧ t.Holds W value := by
  induction fields with
  | nil =>
    intro σ V s hs _ _ _ _
    exact .pure hs (by simp)
  | cons field fields ih =>
    intro σ V s hs hinits hfields hcovers hopen
    unfold checkFields
    refine .getSome (fun value hvalue => ?_) fun _ _ h => by cases h
    refine .under hs fun type htype => ?_
    have htype := hcovers.applyType hfields.1 htype
    obtain ⟨f, hf, hfval⟩ := Named.mem_of_find? hvalue
    have hreads : s.ReadsField W value := hfval ▸ hinits f hf
    refine .read (a := s.readingInput) (fun _ => rfl) ?_
    -- the value of the field stands for it in the fields after it
    have hrest : ∀ t, s.Leads W t → t.Holds W value →
        Asks W c (checkFields span ctor inits check (σ.bind field.name.name value) fields) t
          fun _ u => ∀ v ∈ field :: fields,
            ∃ value, Named.find? inits v.name.name = some value ∧ u.Holds W value := by
      intro t hst hholds
      refine (ih _ _ t hst.within (fun f hf => (hinits f hf).mono hst) hfields.2
        ((hcovers.mono le_rfl hst.le).bind hopen hholds.1)
        (Substitution.bind_open hopen _ _)).mono fun _ u htu hall => ?_
      rw [List.forall_mem_cons]
      exact ⟨⟨value, hvalue, hholds.mono htu⟩, hall⟩
    split
    · next v hbare hreading =>
      refine (Asks.introduce hs (b := .value type) htype).bind fun _ t hst hcontains => ?_
      obtain ⟨a, rfl, -, rfl⟩ := Expr.access_of_bareVar? hbare
      exact hrest t hst ⟨Expr.within_access.mpr (.inr ⟨_, rfl, hcontains⟩), trivial⟩
    · next hnot =>
      have hread : s.Reads W value := by
        refine hreads.resolve_right fun h => ?_
        obtain ⟨v, hv⟩ := Option.isSome_iff_exists.mp h.2
        exact hnot v hv h.1
      exact (hcheck _ value type s hs hvalue hread htype).bind fun _ t hst hholds =>
        hrest t hst hholds

/-- Where each declared field has a value, and there are no more values than fields, no field has
two values. -/
theorem names_perm_of_supplied {inits : List (Named Expr)} {fields : List Variable}
    (hdistinct : (Variable.names fields).Nodup) (hlen : inits.length = fields.length)
    (hall : ∀ v ∈ fields, (Named.find? inits v.name.name).isSome = true) :
    (Variable.names fields).Perm (inits.map fun f => f.name.name) := by
  have hlen' : (Variable.names fields).length = (inits.map fun f => f.name.name).length := by
    rw [Variable.names, List.length_map, List.length_map, hlen]
  have hsub : Variable.names fields ⊆ inits.map fun f => f.name.name := by
    intro n hn
    obtain ⟨v, hv, rfl⟩ := List.mem_map.mp hn
    exact Named.find?_isSome.mp (hall v hv)
  exact (List.subperm_of_subset hdistinct hsub).perm_of_length_le hlen'.ge

/-- Every value is then that of a declared field. -/
theorem exists_field {inits : List (Named Expr)} {fields : List Variable}
    {P : Variable → Expr → Prop} (hdistinct : (Variable.names fields).Nodup)
    (hlen : inits.length = fields.length)
    (hall : ∀ v ∈ fields, ∃ value, Named.find? inits v.name.name = some value ∧ P v value) :
    ∀ f ∈ inits, ∃ v ∈ fields, v.name.name = f.name.name ∧ P v f.val := by
  have hperm := names_perm_of_supplied hdistinct hlen fun v hv => by
    obtain ⟨value, hvalue, -⟩ := hall v hv
    rw [hvalue]
    rfl
  -- no name is given twice, so that every value is the one that is found by its name
  have hnodup := hperm.nodup_iff.mp hdistinct
  intro f hf
  have hmem := hperm.mem_iff.mpr (List.mem_map_of_mem (f := fun f => f.name.name) hf)
  obtain ⟨v, hv, hname⟩ := List.mem_map.mp hmem
  obtain ⟨value, hvalue, hholds⟩ := hall v hv
  rw [hname, Named.find?_of_mem hnodup hf] at hvalue
  cases hvalue
  exact ⟨v, hv, hname, hholds⟩

/-- What holds of the values of all declared fields holds of every value. -/
theorem forall_of_fields {inits : List (Named Expr)} {fields : List Variable} {P : Expr → Prop}
    (hdistinct : (Variable.names fields).Nodup) (hlen : inits.length = fields.length)
    (hall : ∀ v ∈ fields, ∃ value, Named.find? inits v.name.name = some value ∧ P value) :
    ∀ f ∈ inits, P f.val := by
  intro f hf
  obtain ⟨_, _, _, hholds⟩ := exists_field hdistinct hlen hall f hf
  exact hholds

/-- Where each declared field has a value that was checked, and there are no more values than
fields, the constructed value was checked. -/
theorem holds_constructed {s : Checking} {span : Span} {ctor : Ident} {inits : List (Named Expr)}
    {fields : List Variable} (hctor : s.reach W (.ctor ctor.name))
    (hdistinct : (Variable.names fields).Nodup) (hlen : inits.length = fields.length)
    (hall : ∀ v ∈ fields, ∃ value, Named.find? inits v.name.name = some value ∧ s.Holds W value) :
    s.Holds W (.constructed span ctor inits) := by
  have hvalues := forall_of_fields hdistinct hlen hall
  refine ⟨Expr.within_constructed.mpr ⟨hctor, fun f hf => (hvalues f hf).1⟩, ?_⟩
  exact Expr.areValues_iff.mpr fun f hf => (hvalues f hf).2

/-- **The fields of a constructor become available for given parameters**, those of a message at
once, those of an enum by the rule that the parameters choose: all that they refer to is replaced.
-/
theorem asks_boundFields (hs : c.schema.Tidy) (hW : W.Closed c.schema) {s : Checking}
    (hwithin : s.Within W) {ctor : Ident} (hctor : W (.ctor ctor.name)) {owner : TypeDef}
    {declared : Constructor} (hfound : c.schema.constructor? ctor.name = some (owner, declared))
    {params : List Expr} (hparams : ∀ p ∈ params, p.Within (s.reach W))
    (hlen : owner.deps.length = params.length) {β : Type} {f : Substitution → Check β}
    {Q : β → Checking → Prop}
    (hf : ∀ (σ : Substitution) (t : Checking) (V : Vocabulary), s.Leads W t →
      Variable.Within V declared.fields → σ.Covers V (t.reach W) → σ.scopes.frames ≠ [] →
      Asks W c (f σ) t Q) :
    Asks W c (match owner with
      | .enum e => dispatch e ctor params (bindDeps owner.deps params) >>= f
      | .message _ => pure (bindDeps owner.deps params) >>= f) s Q := by
  obtain ⟨hmem, hdeclared, hname⟩ := Schema.of_constructor? hfound
  have howner := hW.ctor hctor hfound
  have hnone : owner.deps.drop params.length = [] := by rw [← hlen, List.drop_length]
  obtain ⟨hdeps, hopen⟩ := Substitution.covers_bindDeps (Vocabulary.le_inScope s.scopes)
    owner.deps hparams (by simp [hnone])
  cases owner with
  | message m =>
    obtain rfl := List.mem_singleton.mp hdeclared
    exact .read (fun _ => rfl) (hf _ s _ (.refl hwithin) howner.2 hdeps hopen)
  | enum e =>
    refine (asks_dispatchFrom e.ident.name ctor hopen e.rules 0 s hwithin
      (fun r hr => (howner.2 r hr).inputs) hparams hdeps).bind fun σ t hst h => ?_
    obtain ⟨r, hr, hoffered, hcovers, hopen'⟩ := h
    obtain ⟨found, hfound'⟩ := Option.isSome_iff_exists.mp hoffered
    have hfound_mem := List.mem_of_find?_eq_some hfound'
    have hsame : found = declared := by
      -- an enum has only one constructor of a name
      have hnodup := hs.constructors _ hmem
      refine List.inj_on_of_nodup_map hnodup ?_ hdeclared ?_
      · exact List.mem_flatMap.mpr ⟨r, hr, hfound_mem⟩
      · rw [hname]
        simpa using List.find?_some hfound'
    subst hsame
    exact hf σ t _ hst ((howner.2 r hr).fields found hfound_mem) hcovers hopen'

theorem asks_checkConstructed (hs : c.schema.Tidy) (hW : W.Closed c.schema) {s : Checking}
    (hwithin : s.Within W) (span : Span) {ctor : Ident} {inits : List (Named Expr)}
    (hreads : s.Reads W (.constructed span ctor inits)) {expected : TypeExpr}
    (hexpected : expected.Within (s.reach W)) {check : Symbol → TypeExpr → Check Unit}
    (hcheck : ∀ (name : Symbol) (value : Expr) (type : TypeExpr) (t : Checking), t.Within W →
      Named.find? inits name = some value → t.Reads W value → type.Within (t.reach W) →
      Asks W c (check name type) t fun _ u => u.Holds W value) :
    Asks W c (checkConstructed span ctor inits expected check) s fun _ t =>
      t.Holds W (.constructed span ctor inits) := by
  obtain ⟨hctor, hinits⟩ := hreads.fields
  unfold checkConstructed
  have hword := Vocabulary.of_also hctor (by simp)
  refine .schema (.getSome fun found hfound => ?_) fun s' hs' => by rw [hs'.ctor hword]
  obtain ⟨owner, declared⟩ := found
  obtain ⟨hmem, hdeclared, -⟩ := Schema.of_constructor? hfound
  dsimp only
  refine .guard fun _ => .guard fun hlen => ?_
  refine asks_boundFields hs hW hwithin hword hfound
    (TypeExpr.within_iff.mp hexpected).2 (not_not.mp hlen) fun σ t V hst hfields hcovers hopen => ?_
  refine .guard fun hcount => ?_
  refine (asks_checkFields span ctor hcheck declared.fields σ V t hst.within
    (fun f hf => (hinits f hf).mono hst) hfields hcovers hopen).mono fun _ u htu hall => ?_
  exact holds_constructed (htu.le _ (hst.le _ hctor)) (hs.fields owner hmem declared hdeclared)
    (not_not.mp hcount) hall

/-! ## §3. Values. -/

/-- A check that leads on from a value within reach keeps it so. -/
theorem asks_holds {α : Type} {x : Check α} {s : Checking} {e : Expr} (he : e.Within (s.reach W))
    (hvalue : e.IsValue) {P : α → Checking → Prop} (h : Asks W c x s P) :
    Asks W c x s fun _ t => t.Holds W e :=
  h.mono fun _ _ hst _ => ⟨he.mono hst.le, hvalue⟩

mutual

/-- **The check of a value asks within reach**, and a value that passes is within reach: what it
binds, if it is part of a rule input, is in scope then. -/
theorem asks_checkValue (hc : c.schema.Tidy) (hW : W.Closed c.schema) :
    ∀ (e : Expr) (expected : TypeExpr) (s : Checking), s.Within W → s.Reads W e →
      expected.Within (s.reach W) → Asks W c (checkValue e expected) s fun _ t => t.Holds W e
  | .type _ _ _, _, _, _, _, _ => .fail
  | .binary span op l r, expected, s, hs, hreads, hexpected => by
    have he : (Expr.binary span op l r).Within (s.reach W) := hreads.plain
    obtain ⟨hl, hr⟩ := Expr.within_binary.mp he
    refine asks_holds he trivial (P := fun _ _ => True) ?_
    unfold checkValue
    split
    · refine (asks_elementType hs hexpected 0).bind fun element t hst helement => ?_
      refine (asks_expectedLength hst.within (hexpected.mono hst.le)).bind
        fun length u htu hlength => ?_
      have hsu := hst.trans htu
      refine (asks_lengthOf hc hW l element u htu.within (hl.mono hsu.le)
        (helement.mono htu.le)).bind fun left v huv hleft => ?_
      have hsv := hsu.trans huv
      refine (asks_lengthOf hc hW r element v huv.within (hr.mono hsv.le)
        (helement.mono (htu.trans huv).le)).bind fun right w hvw hright => ?_
      exact asks_requireLength hvw.within (hlength.mono (huv.trans hvw).le)
        (Expr.within_binary.mpr ⟨hleft.mono hvw.le, hright⟩) span
    · split
      · exact .fail
      · split
        · exact (Asks.note hs _).mono fun _ _ _ _ => trivial
        · refine (asks_checkValue hc hW l expected s hs (.of_within hl) hexpected).bind
            fun _ t hst _ => ?_
          exact (asks_checkValue hc hW r expected t hst.within (.of_within (hr.mono hst.le))
            (hexpected.mono hst.le)).mono fun _ _ _ _ => trivial
  | .unary span op x, expected, s, hs, hreads, hexpected => by
    have he : (Expr.unary span op x).Within (s.reach W) := hreads.plain
    refine asks_holds he trivial (P := fun _ _ => True) ?_
    unfold checkValue
    split
    · exact .fail
    · exact (asks_checkValue hc hW x expected s hs (.of_within (Expr.within_unary.mp he))
        hexpected).mono fun _ _ _ _ => trivial
  | .access a, expected, s, hs, hreads, hexpected => by
    have he : (Expr.access a).Within (s.reach W) := hreads.plain
    refine asks_holds he trivial (P := fun _ _ => True) ?_
    refine (asks_accessType hW hs a).bind fun b t hst hb => ?_
    exact asks_requireValue hst.within (hexpected.mono hst.le) hb a.span
  | .scalar span v, expected, s, hs, hreads, _ => by
    refine asks_holds hreads.plain trivial (P := fun _ _ => True) ?_
    unfold checkValue
    split
    · exact .pure hs trivial
    · exact .fail
  | .constructed span ctor inits, expected, s, hs, hreads, hexpected =>
    asks_checkConstructed hc hW hs span hreads hexpected (asks_checkField hc hW inits)
  | .collection span es, expected, s, hs, hreads, hexpected => by
    have he : (Expr.collection span es).Within (s.reach W) := hreads.plain
    have hes := Expr.within_collection.mp he
    refine asks_holds he trivial (P := fun _ _ => True) ?_
    unfold checkValue
    split
    · refine (asks_elementType hs hexpected 0).bind fun element t hst helement => ?_
      exact asks_checkElements hc hW es element t hst.within (fun e he => (hes e he).mono hst.le)
        helement
    · split
      · refine (asks_elementType hs hexpected 0).bind fun element t hst helement => ?_
        refine (asks_expectedLength hst.within (hexpected.mono hst.le)).bind
          fun length u htu hlength => ?_
        refine (asks_checkElements hc hW es element u htu.within
          (fun e he => (hes e he).mono (hst.trans htu).le) (helement.mono htu.le)).bind
          fun _ v huv _ => ?_
        exact asks_requireLength huv.within (hlength.mono huv.le) Expr.within_scalar span
      · exact .fail
  | .call span f as, expected, s, hs, hreads, hexpected => by
    have he : (Expr.call span f as).Within (s.reach W) := hreads.plain
    obtain ⟨hf, has⟩ := Expr.within_call.mp he
    refine asks_holds he trivial (P := fun _ _ => True) ?_
    refine (asks_callType hW hs span (Vocabulary.of_also hf (by simp)) as.length
      fun ps t hst hps => ?_).bind fun b t hst hb => ?_
    · exact asks_checkArguments hc hW as .empty ps (t.reach W) (t.reach W) t hst.within
        (fun a ha => (has a ha).mono hst.le) hps le_rfl (.empty le_rfl) Substitution.empty_open
    · exact asks_requireValue hst.within (hexpected.mono hst.le) hb span

theorem asks_lengthOf (hc : c.schema.Tidy) (hW : W.Closed c.schema) :
    ∀ (e : Expr) (element : TypeExpr) (s : Checking), s.Within W → e.Within (s.reach W) →
      element.Within (s.reach W) →
      Asks W c (lengthOf e element) s fun length t => length.Within (t.reach W)
  | .collection span es, element, s, hs, he, helement => by
    refine (asks_checkElements hc hW es element s hs (Expr.within_collection.mp he) helement).bind
      fun _ t hst _ => ?_
    exact .pure hst.within Expr.within_scalar
  | .binary span op l r, element, s, hs, he, helement => by
    obtain ⟨hl, hr⟩ := Expr.within_binary.mp he
    unfold lengthOf
    split
    · refine (asks_lengthOf hc hW l element s hs hl helement).bind fun left t hst hleft => ?_
      refine (asks_lengthOf hc hW r element t hst.within (hr.mono hst.le)
        (helement.mono hst.le)).bind fun right u htu hright => ?_
      exact .pure htu.within (Expr.within_binary.mpr ⟨hleft.mono htu.le, hright⟩)
    · exact .fail
  | .access a, element, s, hs, _, helement => by
    refine (asks_accessType hW hs a).bind fun b t hst hb => ?_
    exact asks_lengthOfBinding hst.within (helement.mono hst.le) hb a.span
  | .call span f as, element, s, hs, he, helement => by
    obtain ⟨hf, has⟩ := Expr.within_call.mp he
    refine (asks_callType hW hs span (Vocabulary.of_also hf (by simp)) as.length
      fun ps t hst hps => ?_).bind fun b t hst hb => ?_
    · exact asks_checkArguments hc hW as .empty ps (t.reach W) (t.reach W) t hst.within
        (fun a ha => (has a ha).mono hst.le) hps le_rfl (.empty le_rfl) Substitution.empty_open
    · exact asks_lengthOfBinding hst.within (helement.mono hst.le) hb span
  | .type _ _ _, _, _, _, _, _ => .fail
  | .unary _ _ _, _, _, _, _, _ => .fail
  | .scalar _ _, _, _, _, _, _ => .fail
  | .constructed _ _ _, _, _, _, _, _ => .fail

theorem asks_functionOf (hc : c.schema.Tidy) (hW : W.Closed c.schema) :
    ∀ (e : Expr) (s : Checking), s.Within W → e.Within (s.reach W) →
      Asks W c (functionOf e) s fun ft t => ft.Within (t.reach W)
  | .access a, s, hs, he => by
    unfold functionOf
    split
    · exact asks_calleeType hW hs (.inr (Expr.within_access.mp he))
    · exact .fail
  | .call span f as, s, hs, he => by
    obtain ⟨hf, has⟩ := Expr.within_call.mp he
    refine (asks_callType hW hs span (Vocabulary.of_also hf (by simp)) as.length
      fun ps t hst hps => ?_).bind fun b t hst hb => ?_
    · exact asks_checkArguments hc hW as .empty ps (t.reach W) (t.reach W) t hst.within
        (fun a ha => (has a ha).mono hst.le) hps le_rfl (.empty le_rfl) Substitution.empty_open
    · cases b with
      | function ft => exact .pure hst.within hb
      | value type => exact .fail
  | .type _ _ _, _, _, _ => .fail
  | .binary _ _ _ _, _, _, _ => .fail
  | .unary _ _ _, _, _, _ => .fail
  | .scalar _ _, _, _, _ => .fail
  | .constructed _ _ _, _, _, _ => .fail
  | .collection _ _, _, _, _ => .fail

theorem asks_checkArguments (hc : c.schema.Tidy) (hW : W.Closed c.schema) :
    ∀ (args : List Expr) (σ : Substitution) (ps : List Parameter) (outer V : Vocabulary)
      (s : Checking), s.Within W → (∀ a ∈ args, a.Within (s.reach W)) →
      ParameterType.AllWithin outer V ps → outer ≤ V → σ.Covers V (s.reach W) →
      σ.scopes.frames ≠ [] → Asks W c (checkArguments args σ ps) s (Applied W V ps)
  | [], σ, ps, outer, V, s, hs, _, _, _, hcovers, _ =>
    .pure hs ⟨[], rfl, by simpa using hcovers⟩
  | _ :: _, σ, [], outer, V, s, hs, _, _, _, hcovers, _ =>
    .pure hs ⟨[], rfl, by simpa using hcovers⟩
  | arg :: args, σ, ⟨name, .value type⟩ :: ps, outer, V, s, hs, hargs, hps, houter, hcovers,
      hopen => by
    rw [List.forall_mem_cons] at hargs
    unfold checkArguments
    refine .under hs fun type' htype' => ?_
    refine (asks_checkValue hc hW arg type' s hs (.of_within hargs.1)
      (hcovers.applyType hps.1 htype')).bind fun _ t hst harg => ?_
    refine (asks_checkArguments hc hW args _ ps outer (V.adding [name.name]) t hst.within
      (fun a ha => (hargs.2 a ha).mono hst.le) hps.2 (houter.trans (Vocabulary.le_adding _))
      ((hcovers.mono le_rfl hst.le).bind hopen harg.1) (Substitution.bind_open hopen _ _)).mono
      fun r u _ hr => ?_
    obtain ⟨given, hsplit, hr⟩ := hr
    rw [Vocabulary.adding_adding] at hr
    exact ⟨⟨name, .value type⟩ :: given, by rw [hsplit]; rfl, hr⟩
  | arg :: args, σ, ⟨name, .function qs result⟩ :: ps, outer, V, s, hs, hargs, hps, houter, hcovers,
      hopen => by
    rw [List.forall_mem_cons] at hargs
    unfold checkArguments
    refine (asks_underFunction (hcovers.mono houter le_rfl) hs (f := ⟨qs, result⟩)
      ⟨hps.1.1, hps.1.2⟩).bind fun expected t hst hexpected => ?_
    refine (asks_functionOf hc hW arg t hst.within (hargs.1.mono hst.le)).bind
      fun got u htu hgot => ?_
    have hsu := hst.trans htu
    refine (asks_requireSameFunctionType htu.within (hexpected.mono hsu.le) hgot arg.span).bind
      fun _ v huv _ => ?_
    have hsv := hsu.trans huv
    refine (asks_checkArguments hc hW args _ ps outer (V.adding [name.name]) v huv.within
      (fun a ha => (hargs.2 a ha).mono hsv.le) hps.2 (houter.trans (Vocabulary.le_adding _))
      ((hcovers.mono le_rfl hsv.le).bind hopen (hargs.1.mono hsv.le))
      (Substitution.bind_open hopen _ _)).mono fun r w _ hr => ?_
    obtain ⟨given, hsplit, hr⟩ := hr
    rw [Vocabulary.adding_adding] at hr
    exact ⟨⟨name, .function qs result⟩ :: given, by rw [hsplit]; rfl, hr⟩

theorem asks_checkElements (hc : c.schema.Tidy) (hW : W.Closed c.schema) :
    ∀ (es : List Expr) (element : TypeExpr) (s : Checking), s.Within W →
      (∀ e ∈ es, e.Within (s.reach W)) → element.Within (s.reach W) →
      Asks W c (checkElements es element) s fun _ _ => True
  | [], _, _, hs, _, _ => .pure hs trivial
  | e :: es, element, s, hs, hes, helement => by
    rw [List.forall_mem_cons] at hes
    unfold checkElements
    refine (asks_checkValue hc hW e element s hs (.of_within hes.1) helement).bind
      fun _ t hst _ => ?_
    exact asks_checkElements hc hW es element t hst.within (fun e he => (hes.2 e he).mono hst.le)
      (helement.mono hst.le)

theorem asks_checkField (hc : c.schema.Tidy) (hW : W.Closed c.schema) :
    ∀ (fs : List (Named Expr)) (name : Symbol) (value : Expr) (type : TypeExpr) (s : Checking),
      s.Within W → Named.find? fs name = some value → s.Reads W value → type.Within (s.reach W) →
      Asks W c (checkField fs name type) s fun _ t => t.Holds W value
  | [], _, _, _, _, _, hfind, _, _ => by cases hfind
  | f :: fs, name, value, type, s, hs, hfind, hreads, htype => by
    unfold checkField
    rw [Named.find?_cons] at hfind
    by_cases hname : f.name.name = name
    · rw [if_pos hname] at hfind ⊢
      cases hfind
      exact asks_checkValue hc hW f.val type s hs hreads htype
    · rw [if_neg hname] at hfind ⊢
      exact asks_checkField hc hW fs name value type s hs hfind hreads htype

end

end Typing

end DepSchema
