/-
DepSchema.Proofs.Names.Binders — three readings of a rule bind the same names.

What the inputs of a rule bind is found out three times. The check of names walks the values that a
pattern supplies, in the order in which they are written, with a frame for the names of the rule.
The check of types walks the fields that are declared, in their order, and looks each of them up in
the pattern. Matching walks the pattern beside an actual value, which may be a variable whose fields
are taken, and gives up where the two differ. None of the walks calls another one.

Among patterns, that is stars, variables alone, literals and constructed values of such, they come
to the same names. For the second one this needs that a checked pattern supplies each declared field
once and no other, so that both orders go through the same values; the fields of a constructor have
different names wherever the check of names reports nothing.

Main definitions: `Scopes.Binds`, `Checking.Adds`, `NameWalk.insideRule` and `Typing.insideRule`.
Main results: `binds_of_matchRule`, `adds_checkInputs`, `NameWalk.mem_innermost_insideRule` and
`binders_agree`.
-/
import DepSchema.Proofs.Dispatch.FirstMatch
import DepSchema.Proofs.Dispatch.Patterns
import DepSchema.Proofs.Queries.Locals
import DepSchema.Proofs.Vocabulary.Types

namespace DepSchema

/-! ## §1. Names of a frame. -/

namespace Scopes

variable {α : Type}

/-- The names bound in the innermost frame. -/
def innermost (s : Scopes α) : List Symbol := (s.frames.headD []).map Prod.fst

/-- A binding adds its name. -/
theorem mem_innermost_bind {s : Scopes α} (hs : s.frames ≠ []) {name n : Symbol} {a : α} :
    n ∈ (s.bind name a).innermost ↔ n ∈ s.innermost ∨ n = name := by
  obtain ⟨frames⟩ := s
  cases frames with
  | nil => exact absurd rfl hs
  | cons frame frames =>
    show n ∈ (insertInto name a frame).map Prod.fst ↔ n ∈ frame.map Prod.fst ∨ n = name
    unfold insertInto
    rw [List.map_cons, List.mem_cons, or_comm]
    by_cases hn : n = name
    · simp [hn]
    · simp [hn, List.mem_filter]

theorem mem_innermost_bindAll {n : Symbol} (added : List (Symbol × α)) : ∀ {s : Scopes α},
    s.frames ≠ [] →
      (n ∈ (s.bindAll added).innermost ↔ n ∈ s.innermost ∨ n ∈ added.map Prod.fst) := by
  induction added with
  | nil => simp [bindAll]
  | cons p added ih =>
    intro s hs
    show n ∈ ((s.bind p.1 p.2).bindAll added).innermost ↔ _
    rw [ih (bind_open hs _ _), mem_innermost_bind hs, List.map_cons, List.mem_cons, or_assoc]

/-- From one state of the scopes to another, these names were bound in the innermost frame, in
whatever order, and nothing else happened. -/
def Binds (scopes scopes' : Scopes α) (names : List Symbol) : Prop :=
  ∃ added, scopes' = scopes.bindAll added ∧ ∀ n, n ∈ added.map Prod.fst ↔ n ∈ names

namespace Binds

variable {scopes scopes' scopes'' : Scopes α} {names more : List Symbol}

theorem refl (scopes : Scopes α) : scopes.Binds scopes [] := ⟨[], rfl, fun _ => Iff.rfl⟩

theorem bind (scopes : Scopes α) (name : Symbol) (a : α) :
    scopes.Binds (scopes.bind name a) [name] :=
  ⟨[(name, a)], rfl, fun _ => Iff.rfl⟩

theorem trans (h : scopes.Binds scopes' names) (h' : scopes'.Binds scopes'' more) :
    scopes.Binds scopes'' (names ++ more) := by
  obtain ⟨added, rfl, hadded⟩ := h
  obtain ⟨added', rfl, hadded'⟩ := h'
  refine ⟨added ++ added', (scopes.bindAll_append added added').symm, fun n => ?_⟩
  rw [List.map_append, List.mem_append, List.mem_append, hadded, hadded']

theorem congr (h : scopes.Binds scopes' names) (hnames : ∀ n, n ∈ names ↔ n ∈ more) :
    scopes.Binds scopes' more := by
  obtain ⟨added, hscopes, hadded⟩ := h
  exact ⟨added, hscopes, fun n => (hadded n).trans (hnames n)⟩

/-- What was bound in a frame of its own is all that the frame has. -/
theorem innermost_of_push (h : scopes.push.Binds scopes' names) {n : Symbol} :
    n ∈ scopes'.innermost ↔ n ∈ names := by
  obtain ⟨added, rfl, hadded⟩ := h
  have hopen : scopes.push.frames ≠ [] := List.cons_ne_nil _ _
  rw [mem_innermost_bindAll added hopen, hadded]
  exact or_iff_right List.not_mem_nil

end Binds

end Scopes

/-! ## §2. What a match binds. -/

namespace Typing

open Check

variable {c : Setting} {s t : Checking} {σ σ' : Substitution}

theorem of_matchByOracle {pattern actual : Expr}
    (h : matchByOracle σ pattern actual c s = (.ok (some σ'), t)) : σ' = σ := by
  unfold matchByOracle at h
  cases actual with
  | constructed _ _ _ => cases h
  | _ =>
    obtain ⟨equal, _, -, h⟩ := bind_eq_ok h
    obtain ⟨_, _, -, h⟩ := bind_eq_ok h
    cases equal <;> cases h
    rfl

mutual

/-- **A match binds what the pattern binds**, whatever the value is and whatever the oracle answers.
-/
theorem binds_of_matchExpr : ∀ {p : Expr}, p.isPattern = true → ∀ {actual : Expr}
    {σ σ' : Substitution} {s t : Checking}, matchExpr σ actual p c s = (.ok (some σ'), t) →
      σ.scopes.Binds σ'.scopes p.bindsValue
  | .access a, hp, actual, σ, σ', s, t, h => by
    have hvar : a.isVar = true := hp
    unfold matchExpr at h
    rw [if_pos hvar] at h
    cases h
    rw [Expr.bindsValue, Expr.bareVar?, if_pos hvar]
    exact .bind _ _ _
  | .scalar _ _, _, actual, σ, σ', s, t, h => by
    rw [of_matchByOracle h]
    exact .refl _
  | .constructed _ ctor inits, hp, actual, σ, σ', s, t, h => by
    have hinits : Expr.fieldsArePatterns inits = true := hp
    unfold matchExpr at h
    cases actual with
    | constructed span head values =>
      dsimp only at h
      by_cases hname : head.name = ctor.name
      · rw [if_pos hname] at h
        exact binds_of_matchInits hinits h
      · rw [if_neg hname] at h
        cases h
    | access a =>
      obtain ⟨schema, _, -, h⟩ := bind_eq_ok h
      -- fields are taken from a variable only if the constructor is that of a message
      rcases hfound : schema.constructor? ctor.name with _ | ⟨_ | _, _⟩ <;> rw [hfound] at h
      · cases h
      · exact binds_of_matchInits hinits h
      · cases h
    | _ => cases h

theorem binds_of_matchInits : ∀ {inits : List (Named Expr)},
    Expr.fieldsArePatterns inits = true → ∀ {valueOf : Ident → Option Expr}
    {σ σ' : Substitution} {s t : Checking}, matchInits σ valueOf inits c s = (.ok (some σ'), t) →
      σ.scopes.Binds σ'.scopes (Expr.bindsFields inits)
  | [], _, valueOf, σ, σ', s, t, h => by
    cases h
    exact .refl _
  | f :: fs, hfs, valueOf, σ, σ', s, t, h => by
    obtain ⟨hf, hfs⟩ := Bool.and_eq_true_iff.mp hfs
    unfold matchInits at h
    cases hvalue : valueOf f.name with
    | none =>
      rw [hvalue] at h
      cases h
    | some value =>
      rw [hvalue] at h
      obtain ⟨found, u, hfirst, h⟩ := bind_eq_ok h
      cases found with
      | none => cases h
      | some σ₁ => exact (binds_of_matchExpr hf hfirst).trans (binds_of_matchInits hfs h)

end

theorem binds_of_matchInputs : ∀ {inputs : List RuleInput} {params : List Expr},
    inputs.length = params.length → (∀ i ∈ inputs, i.isPattern = true) →
    ∀ {σ σ' : Substitution} {s t : Checking}, matchInputs σ inputs params c s = (.ok (some σ'), t) →
      σ.scopes.Binds σ'.scopes (RuleInput.bindsAll inputs)
  | [], [], _, _, σ, σ', s, t, h => by
    cases h
    exact .refl _
  | .any _ :: inputs, _ :: params, hlength, hinputs, σ, σ', s, t, h =>
    binds_of_matchInputs (Nat.succ.inj hlength) (List.forall_mem_cons.mp hinputs).2 h
  | .value p :: inputs, param :: params, hlength, hinputs, σ, σ', s, t, h => by
    rw [List.forall_mem_cons] at hinputs
    obtain ⟨found, u, hfirst, h⟩ := bind_eq_ok h
    cases found with
    | none => cases h
    | some σ₁ =>
      have hrest := binds_of_matchInputs (Nat.succ.inj hlength) hinputs.2 h
      exact (binds_of_matchExpr hinputs.1 hfirst).trans hrest

/-- **A rule that matches binds what its inputs bind.** -/
theorem binds_of_matchRule {rule : Rule} (hrule : ∀ i ∈ rule.inputs, i.isPattern = true)
    {params : List Expr} (h : matchRule σ rule params c s = (.ok (some σ'), t)) :
    σ.scopes.Binds σ'.scopes (RuleInput.bindsAll rule.inputs) := by
  unfold matchRule at h
  split at h
  · next hlength => exact binds_of_matchInputs hlength hrule h
  · cases h

end Typing

/-! ## §3. What a check adds to the scope. -/

/-- From the state `s` to `t`, the innermost scope took these names and nothing else, and a rule
input is being read in both or in neither. -/
structure Checking.Adds (s t : Checking) (names : List Symbol) : Prop where
  readingInput : t.readingInput = s.readingInput
  scopes : s.scopes.Binds t.scopes names

namespace Checking.Adds

variable {s t u : Checking} {names more : List Symbol}

theorem of_eq (hreading : t.readingInput = s.readingInput) (hscopes : t.scopes = s.scopes) :
    s.Adds t [] :=
  ⟨hreading, hscopes ▸ .refl _⟩

theorem trans (h : s.Adds t names) (h' : t.Adds u more) : s.Adds u (names ++ more) :=
  ⟨h'.readingInput.trans h.readingInput, h.scopes.trans h'.scopes⟩

end Checking.Adds

namespace Check

variable {α β : Type}

/-- The check leaves the names in scope and the flag of a rule input as they are, whether or not a
rule input is being read. -/
def Steady (x : Check α) : Prop := ∀ (c : Setting) (s : Checking), s.Adds (x c s).2 []

theorem Steady.bind {x : Check α} {f : α → Check β} (hx : x.Steady) (hf : ∀ a, (f a).Steady) :
    (x >>= f).Steady := by
  intro c s
  have hfirst := hx c s
  rcases hrun : x c s with ⟨_ | a, t⟩ <;> rw [hrun] at hfirst
  · rwa [bind_error hrun]
  · rw [bind_ok hrun]
    exact hfirst.trans (hf a c t)

theorem Steady.pure (a : α) : Steady (Pure.pure a) := fun _ _ => .of_eq rfl rfl

theorem Steady.ask (q : Query) : Steady (Check.ask q) := by
  intro c s
  unfold Check.ask
  dsimp only
  cases c.oracle s.queries q <;> exact .of_eq rfl rfl

theorem Steady.of_run {x : Check α} (hx : x.Steady) {c : Setting} {s t : Checking}
    {r : Except Diagnostic α} (h : x c s = (r, t)) : s.Adds t [] := by
  have hadds := hx c s
  rwa [h] at hadds

end Check

namespace Typing

open Check

variable {c : Setting}

theorem steady_matchByOracle (σ : Substitution) (pattern actual : Expr) :
    Steady (matchByOracle σ pattern actual) := by
  unfold matchByOracle
  cases actual with
  | constructed _ _ _ => exact .pure _
  | _ =>
    refine Steady.bind (fun c s => Steady.ask (.equal pattern _ s.scopes) c s) fun _ => ?_
    exact Steady.bind (fun _ _ => .of_eq rfl rfl) fun _ => .pure _

mutual

theorem steady_matchExpr : ∀ (p : Expr) (σ : Substitution) (actual : Expr),
    Steady (matchExpr σ actual p)
  | .access a, σ, actual => by
    unfold matchExpr
    split
    · exact .pure _
    · exact steady_matchByOracle _ _ _
  | .constructed _ ctor inits, σ, actual => by
    unfold matchExpr
    cases actual with
    | constructed _ head values =>
      show Steady (if head.name = ctor.name then _ else _)
      split
      · exact steady_matchInits _ _ _
      · exact .pure _
    | access a =>
      refine Steady.bind (fun _ _ => .of_eq rfl rfl) fun schema => ?_
      split
      · exact steady_matchInits _ _ _
      · exact .pure _
    | _ => exact .pure _
  | .scalar _ _, σ, actual => steady_matchByOracle _ _ _
  | .binary _ _ _ _, σ, actual => steady_matchByOracle _ _ _
  | .unary _ _ _, σ, actual => steady_matchByOracle _ _ _
  | .type _ _ _, σ, actual => steady_matchByOracle _ _ _
  | .collection _ _, σ, actual => steady_matchByOracle _ _ _
  | .call _ _ _, σ, actual => steady_matchByOracle _ _ _

theorem steady_matchInits : ∀ (inits : List (Named Expr)) (σ : Substitution)
    (valueOf : Ident → Option Expr), Steady (matchInits σ valueOf inits)
  | [], _, _ => .pure _
  | f :: fs, σ, valueOf => by
    unfold matchInits
    cases valueOf f.name with
    | none => exact .pure _
    | some value =>
      refine (steady_matchExpr f.val σ value).bind fun found => ?_
      cases found with
      | none => exact .pure _
      | some σ => exact steady_matchInits fs σ valueOf

end

theorem steady_matchInputs : ∀ (inputs : List RuleInput) (params : List Expr) (σ : Substitution),
    Steady (matchInputs σ inputs params)
  | .any _ :: inputs, _ :: params, σ => steady_matchInputs inputs params σ
  | .value p :: inputs, param :: params, σ => by
    refine (steady_matchExpr p σ param).bind fun found => ?_
    cases found with
    | none => exact .pure _
    | some σ => exact steady_matchInputs inputs params σ
  | [], _, _ => .pure _
  | .any _ :: _, [], _ => .pure _
  | .value _ :: _, [], _ => .pure _

/-- **The choice of a rule brings nothing into scope.** -/
theorem steady_dispatchFrom (enum : Symbol) (ctor : Ident) (params : List Expr) (σ : Substitution)
    (rules : List Rule) : ∀ index, Steady (dispatchFrom enum ctor params σ rules index) := by
  induction rules with
  | nil => exact fun _ _ _ => .of_eq rfl rfl
  | cons rule rules ih =>
    intro index
    have hmatch : Steady (matchRule σ rule params) := by
      unfold matchRule
      split
      · exact steady_matchInputs _ _ _
      · exact .pure _
    refine hmatch.bind fun found => ?_
    cases found with
    | none => exact Steady.bind (fun _ _ => .of_eq rfl rfl) fun _ => ih _
    | some bound =>
      refine Steady.bind (fun _ _ => .of_eq rfl rfl) fun _ => ?_
      split
      · exact .pure _
      · exact fun _ _ => .of_eq rfl rfl

/-! ## §4. What a checked input brings into scope. -/

section Fields

variable {inits : List (Named Expr)} {fields : List Variable} {n : Symbol}

/-- What the value that is supplied under a name binds. -/
def bindsUnder (inits : List (Named Expr)) (name : Symbol) : List Symbol :=
  (Named.find? inits name).elim [] Expr.bindsValue

theorem mem_bindsFields : n ∈ Expr.bindsFields inits ↔ ∃ f ∈ inits, n ∈ f.val.bindsValue := by
  induction inits with
  | nil => simp [Expr.bindsFields]
  | cons f fs ih =>
    show n ∈ f.val.bindsValue ++ Expr.bindsFields fs ↔ _
    simp [ih]

/-- **As written or as declared, the same values are walked**, if each declared field is supplied
and as many fields are supplied as declared. -/
theorem mem_bindsUnder_iff (hfields : (Variable.names fields).Nodup)
    (hcount : inits.length = fields.length)
    (hsupplied : ∀ v ∈ fields, ∃ value, Named.find? inits v.name.name = some value) :
    n ∈ fields.flatMap (fun v => bindsUnder inits v.name.name) ↔ n ∈ Expr.bindsFields inits := by
  have hsub : Variable.names fields ⊆ inits.map fun f => f.name.name := by
    intro name hname
    obtain ⟨v, hv, rfl⟩ := List.mem_map.mp hname
    obtain ⟨value, hvalue⟩ := hsupplied v hv
    exact Named.find?_isSome.mp (by rw [hvalue]; rfl)
  have hlength : (inits.map fun f => f.name.name).length = (Variable.names fields).length := by
    rw [Variable.names, List.length_map, List.length_map, hcount]
  have hperm : (Variable.names fields).Perm (inits.map fun f => f.name.name) :=
    (List.subperm_of_subset hfields hsub).perm_of_length_le hlength.le
  rw [List.mem_flatMap, mem_bindsFields]
  constructor
  · rintro ⟨v, hv, hn⟩
    obtain ⟨value, hvalue⟩ := hsupplied v hv
    obtain ⟨f, hf, rfl⟩ := Named.mem_of_find? hvalue
    refine ⟨f, hf, ?_⟩
    rwa [bindsUnder, hvalue] at hn
  · rintro ⟨f, hf, hn⟩
    obtain ⟨v, hv, hname⟩ := List.mem_map.mp (hperm.mem_iff.mpr (List.mem_map_of_mem hf))
    refine ⟨v, hv, ?_⟩
    rwa [bindsUnder, hname, Named.find?_of_mem (hperm.nodup_iff.mp hfields) hf]

end Fields

/-- The check of the value binds what the value binds, inside a rule input. -/
def BindsItself (c : Setting) (e : Expr) : Prop :=
  ∀ (type : TypeExpr) (s t : Checking), s.readingInput = true →
    s.substitution.scopes.frames ≠ [] → checkValue e type c s = (.ok (), t) → s.Adds t e.binds

/-- The check of the fields of a constructor binds what the values bind that are supplied for them.
-/
theorem adds_checkFields {span : Span} {ctor : Ident} {inits : List (Named Expr)}
    (hinits : ∀ f ∈ inits, f.val.bareVar? = none → BindsItself c f.val) (fields : List Variable) :
    ∀ {σ : Substitution} {s t : Checking}, s.readingInput = true →
      s.substitution.scopes.frames ≠ [] →
      checkFields span ctor inits (checkField inits) σ fields c s = (.ok (), t) →
      s.Adds t (fields.flatMap fun v => bindsUnder inits v.name.name) := by
  induction fields with
  | nil =>
    intro σ s t _ _ hrun
    cases hrun
    exact .of_eq rfl rfl
  | cons field fields ih =>
    intro σ s t hreading hopen hrun
    unfold checkFields at hrun
    obtain ⟨value, _, hvalue, htype⟩ := bind_eq_ok hrun
    obtain ⟨hfind, rfl⟩ := getSome_eq_ok hvalue
    obtain ⟨type, s, hunder, hsupply⟩ := bind_eq_ok htype
    obtain ⟨-, rfl⟩ := under_eq_ok hunder
    have hbinds : bindsUnder inits field.name.name = value.bindsValue := by
      rw [bindsUnder, hfind]
      rfl
    obtain ⟨f, hf, rfl⟩ := Named.mem_of_find? hfind
    rw [List.flatMap_cons, hbinds, Expr.bindsValue]
    replace hsupply := (introduceIfReading_eq f.val.bareVar? (.value type)
      (checkField inits field.name.name type) (fun _ =>
        checkFields span ctor inits (checkField inits) (σ.bind field.name.name f.val) fields)
      c s).symm.trans hsupply
    rw [hreading] at hsupply
    cases hbare : f.val.bareVar? with
    | some v =>
      rw [hbare] at hsupply
      obtain ⟨_, u, hbound, hrest⟩ := bind_eq_ok hsupply
      cases hbound
      have hfirst : s.Adds { s with scopes := s.scopes.bind v.name (.value type) } [v.name] :=
        ⟨rfl, .bind _ _ _⟩
      exact hfirst.trans (ih (s := { s with scopes := s.scopes.bind v.name (.value type) })
        hreading hopen hrest)
    | none =>
      rw [hbare] at hsupply
      obtain ⟨_, u, hchecked, hrest⟩ := bind_eq_ok hsupply
      rw [checkField_of_find? hfind] at hchecked
      have hstill := (stepwise_checkValue f.val type).quiet.still_of_run hopen hchecked
      have hfirst := hinits f hf hbare type s u hreading hopen hchecked
      exact hfirst.trans (ih (hfirst.readingInput.trans hreading) (hstill.substitution ▸ hopen)
        hrest)

/-- A checked constructed value supplies every field once, so it does not matter that its fields are
checked in the order of their declarations. -/
theorem bindsItself_constructed (hs : c.schema.Tidy) {span : Span} {ctor : Ident}
    {inits : List (Named Expr)}
    (hinits : ∀ f ∈ inits, f.val.bareVar? = none → BindsItself c f.val) :
    BindsItself c (.constructed span ctor inits) := by
  intro type s t hreading hopen hrun
  obtain ⟨owner, declared, hfound, hcount, hsupplied⟩ :=
    Typed.constructed ⟨type, s, t, rfl, hreading, hopen, hrun⟩
  obtain ⟨howner, hdeclared, -⟩ := Schema.of_constructor? hfound
  have hnames : ∀ n, n ∈ declared.fields.flatMap (fun v => bindsUnder inits v.name.name)
      ↔ n ∈ Expr.bindsFields inits := by
    intro n
    refine mem_bindsUnder_iff (hs.fields owner howner declared hdeclared) hcount fun v hv => ?_
    obtain ⟨value, hvalue, -⟩ := hsupplied v hv
    exact ⟨value, hvalue⟩
  have hfields : ∀ {σ : Substitution} {u : Checking}, u.readingInput = true →
      u.substitution.scopes.frames ≠ [] →
      (if inits.length ≠ declared.fields.length then
        fail span (.fieldCount ctor.name declared.fields.length inits.length) >>= fun _ : Unit =>
          checkFields span ctor inits (checkField inits) σ declared.fields
        else checkFields span ctor inits (checkField inits) σ declared.fields) c u = (.ok (), t) →
      u.Adds t (Expr.bindsFields inits) := by
    intro σ u hreading hopen hrun
    obtain ⟨-, hrun⟩ := guard_eq_ok hrun
    have hadds := adds_checkFields hinits declared.fields hreading hopen hrun
    exact ⟨hadds.readingInput, hadds.scopes.congr hnames⟩
  unfold checkValue checkConstructed at hrun
  rw [bind_ok (show schema c s = (.ok c.schema, s) from rfl), hfound] at hrun
  obtain ⟨-, hguarded⟩ := guard_eq_ok hrun
  obtain ⟨-, hguarded⟩ := guard_eq_ok hguarded
  dsimp only at hguarded
  cases owner with
  | message m => exact hfields hreading hopen hguarded
  | enum e =>
    obtain ⟨σ, u, hdispatch, hguarded⟩ := bind_eq_ok hguarded
    have hstill := (stepwise_dispatch e ctor type.params _).quiet.still_of_run hopen hdispatch
    have hchosen : s.Adds u [] := (steady_dispatchFrom _ _ _ _ _ _).of_run hdispatch
    exact hchosen.trans
      (hfields (hchosen.readingInput.trans hreading) (hstill.substitution ▸ hopen) hguarded)

mutual

/-- **A checked pattern binds the variables that it consists of.** -/
theorem bindsItself_pattern (hs : c.schema.Tidy) : ∀ {p : Expr}, p.isPattern = true →
    p.bareVar? = none → BindsItself c p
  | .access a, hp, hbare => by
    have hvar : a.isVar = true := hp
    rw [Expr.bareVar?, if_pos hvar] at hbare
    cases hbare
  | .scalar span v, _, _ => by
    intro type s t _ _ hrun
    unfold checkValue at hrun
    split at hrun
    · cases hrun
      exact .of_eq rfl rfl
    · cases hrun
  | .constructed span ctor inits, hp, _ => bindsItself_constructed hs (bindsItself_fields hs hp)

theorem bindsItself_fields (hs : c.schema.Tidy) : ∀ {inits : List (Named Expr)},
    Expr.fieldsArePatterns inits = true → ∀ f ∈ inits, f.val.bareVar? = none → BindsItself c f.val
  | [], _ => by simp
  | f :: fs, hfs => by
    obtain ⟨hf, hfs⟩ := Bool.and_eq_true_iff.mp hfs
    exact List.forall_mem_cons.mpr ⟨bindsItself_pattern hs hf, bindsItself_fields hs hfs⟩

end

/-- The substitution takes a binding; what is in scope stays. -/
theorem adds_replace {name : Symbol} {e : Expr} {s t : Checking} {r : Except Diagnostic Unit}
    (h : replace name e c s = (r, t)) : s.Adds t [] := by
  unfold replace at h
  cases hadd : s.substitution.add name e <;> rw [hadd] at h <;> cases h <;> exact .of_eq rfl rfl

/-- **The checked inputs of a rule bring into scope what they bind.** -/
theorem adds_checkInputs (hs : c.schema.Tidy) : ∀ {inputs : List RuleInput} {deps : List Variable},
    inputs.length = deps.length → (∀ i ∈ inputs, i.isPattern = true) → ∀ {s t : Checking},
    s.substitution.scopes.frames ≠ [] → checkInputs inputs deps c s = (.ok (), t) →
      s.Adds t (RuleInput.bindsAll inputs)
  | [], [], _, _, s, t, _, h => by
    cases h
    exact .of_eq rfl rfl
  | .any _ :: inputs, _ :: deps, hlength, hinputs, s, t, hopen, h =>
    adds_checkInputs hs (Nat.succ.inj hlength) (List.forall_mem_cons.mp hinputs).2 hopen h
  | .value p :: inputs, dep :: deps, hlength, hinputs, s, t, hopen, h => by
    rw [List.forall_mem_cons] at hinputs
    obtain ⟨type, s, hunder, hread⟩ := bind_eq_ok h
    obtain ⟨-, rfl⟩ := under_eq_ok hunder
    -- what remains after the input itself
    have hrest : ∀ {u : Checking} {names : List Symbol}, s.Adds u names →
        u.substitution.scopes.frames ≠ [] →
        (replace dep.name.name p >>= fun _ => checkInputs inputs deps) c u = (.ok (), t) →
        s.Adds t (names ++ RuleInput.bindsAll inputs) := by
      intro u names hadds hopen hrun
      obtain ⟨_, w, hreplace, hremaining⟩ := bind_eq_ok hrun
      have houtside := (Framed.replace dep.name.name p).outside_of_run hopen hreplace
      have hadds' := adds_checkInputs hs (Nat.succ.inj hlength) hinputs.2 houtside.isOpen hremaining
      exact hadds.trans ((adds_replace hreplace).trans hadds')
    show s.Adds t (p.bindsValue ++ RuleInput.bindsAll inputs)
    unfold Expr.bindsValue
    cases hbare : p.bareVar? with
    | some v =>
      rw [hbare] at hread
      obtain ⟨_, u, hbound, hrun⟩ := bind_eq_ok hread
      cases hbound
      exact hrest (u := { s with scopes := s.scopes.bind v.name (.value type) })
        ⟨rfl, .bind _ _ _⟩ hopen hrun
    | none =>
      rw [hbare] at hread
      obtain ⟨_, u, hchecked, hrun⟩ := bind_eq_ok hread
      obtain ⟨v, hvalue, rfl⟩ := readInput_eq_ok hchecked
      have hadds := bindsItself_pattern hs hinputs.1 hbare type { s with readingInput := true } v
        rfl hopen hvalue
      have hstill := (stepwise_checkValue p type).quiet.still_of_run
        (s := { s with readingInput := true }) hopen hvalue
      exact hrest (u := { v with readingInput := s.readingInput }) ⟨rfl, hadds.scopes⟩
        (hstill.substitution ▸ hopen) hrun

/-- The check of a rule in the scope of the rule. -/
def insideRule (e : Enum) (rule : Rule) : Check Unit := do
  checkInputs rule.inputs e.deps
  checkConstructors rule.constructors

/-- A rule that is accepted was checked in a scope of its own, to the end. -/
theorem insideRule_of_checkRule {e : Enum} {rule : Rule} {s t : Checking}
    (h : checkRule e rule c s = (.ok (), t)) : rule.inputs.length = e.deps.length ∧
      ∃ u, insideRule e rule c s.opened = (.ok (), u) ∧ t = u.closed := by
  obtain ⟨hcount, hrun⟩ := guard_eq_ok h
  exact ⟨not_not.mp hcount, inScope_eq_ok hrun⟩

/-- **The scope of a checked rule holds what the inputs bind**: the check of a constructor leaves it
as it was. -/
theorem adds_insideRule (hs : c.schema.Tidy) {e : Enum} {rule : Rule}
    (hcount : rule.inputs.length = e.deps.length) (hrule : ∀ i ∈ rule.inputs, i.isPattern = true)
    {s t : Checking} (hreading : s.readingInput = false)
    (hopen : s.substitution.scopes.frames ≠ []) (h : insideRule e rule c s = (.ok (), t)) :
    s.Adds t (RuleInput.bindsAll rule.inputs) := by
  obtain ⟨_, u, hinputs, hconstructors⟩ := bind_eq_ok h
  have hadds := adds_checkInputs hs hcount hrule hopen hinputs
  have houtside := (stepwise_checkInputs _ _).framed.outside_of_run hopen hinputs
  have hstill := (stepwise_checkConstructors _).quiet.still_of_run houtside.isOpen hconstructors
  have hscopes : t.scopes = u.scopes := hstill.scopes (hadds.readingInput.trans hreading)
  exact ⟨hstill.readingInput.trans hadds.readingInput, hscopes ▸ hadds.scopes⟩

end Typing

/-! ## §5. What the walk of the names puts into the frame of a rule. -/

namespace Scopes

theorem mem_innermost_iff {s : Scopes Unit} {n : Symbol} :
    n ∈ s.innermost ↔ s.Has (s.depth - 1) n := by
  obtain ⟨frames⟩ := s
  cases frames with
  | nil => simp [innermost, Has, Holds]
  | cons frame frames =>
    show n ∈ frame.map Prod.fst
      ↔ (frames.length = frames.length ∧ (frame.lookup n).isSome = true)
        ∨ Holds frames frames.length n
    -- the frames behind the innermost one have lower levels
    have hbehind : ¬ Holds frames frames.length n := fun h => absurd h.lt_length (lt_irrefl _)
    rw [List.lookup_isSome_iff]
    simp [hbehind]

end Scopes

namespace NameWalk

/-- **The frame of a rule holds what the inputs bind.** -/
theorem mem_innermost_insideRule (known : Symbol → Symbol → Bool) {r : NameWalk} (hr : r.Open)
    (hreading : r.reading = false) (rule : Rule) {n : Symbol} :
    n ∈ (r.push.insideRule known rule).scopes.innermost ↔ n ∈ RuleInput.bindsAll rule.inputs := by
  have hextends := extends_insideRule known hr.push hreading rule
  have hdepth : r.push.scopes.depth = r.scopes.depth + 1 := rfl
  have hempty : ¬ r.push.scopes.Has r.scopes.depth n := fun h =>
    absurd (Scopes.has_push.mp h).lt_length (lt_irrefl _)
  rw [Scopes.mem_innermost_iff, hextends.has, hextends.depth, hdepth]
  simp [hempty]

end NameWalk

/-! ## §6. The three readings. -/

namespace Typing

/-- **Three readings of the inputs bind the same names.** Let a rule of patterns be accepted. The
names that the walk of the names holds in the frame of the rule, wherever it meets the rule, those
that the check of the rule holds in its scope, and those that are bound by a match, whatever the
parameters are and whatever an oracle answers, are the variables of the inputs. -/
theorem binders_agree (c : Setting) (hschema : c.schema.nameFaults = []) (e : Enum) (rule : Rule)
    (hrule : ∀ i ∈ rule.inputs, i.isPattern = true) (s t : Checking)
    (hreading : s.readingInput = false) (haccepted : checkRule e rule c s = (.ok (), t)) :
    (∀ r : NameWalk, r.Open → r.reading = false → ∀ n,
        n ∈ (r.push.insideRule c.schema.hasField rule).scopes.innermost
          ↔ n ∈ RuleInput.bindsAll rule.inputs)
      ∧ (∃ u, insideRule e rule c s.opened = (.ok (), u) ∧ t = u.closed
        ∧ ∀ n, n ∈ u.scopes.innermost ↔ n ∈ RuleInput.bindsAll rule.inputs)
      ∧ ∀ (oracle : Oracle) (params : List Expr) (σ σ' : Substitution) (u v : Checking),
        matchRule σ rule params ⟨c.schema, oracle⟩ u = (.ok (some σ'), v) →
          σ.scopes.Binds σ'.scopes (RuleInput.bindsAll rule.inputs) := by
  refine ⟨fun r hr hnot n => NameWalk.mem_innermost_insideRule _ hr hnot rule, ?_,
    fun oracle params σ σ' u v h => binds_of_matchRule hrule h⟩
  obtain ⟨hcount, u, hrun, rfl⟩ := insideRule_of_checkRule haccepted
  have hadds := adds_insideRule (s := s.opened) (Schema.tidy_of_nameFaults hschema) hcount hrule
    hreading (List.cons_ne_nil _ _) hrun
  exact ⟨u, hrun, rfl, fun n => hadds.scopes.innermost_of_push⟩

end Typing

namespace Schema

namespace Example

/-- A message 7 with a number 8 and a truth value 9, and a message 10 with a field 11 of the first
type and a number 12. -/
def pairs : List Declaration :=
  [.type (.message ⟨ident 7, [], [field 8 0 [], field 9 3 []]⟩),
    .type (.message ⟨ident 10, [], [field 11 7 [], field 12 0 []]⟩)]

/-- The pattern `10{12: v14, 11: 7{9: v15, 8: 3}}`. No fields are in the order of their
declarations. -/
def swapped : Rule :=
  ⟨[.value (.constructed ⟨0, 0⟩ (ident 10) [⟨ident 12, var 14⟩,
    ⟨ident 11, .constructed ⟨0, 0⟩ (ident 7) [⟨ident 9, var 15⟩,
      ⟨ident 8, .scalar ⟨0, 0⟩ (.int 3)⟩]⟩])], [⟨ident 16, [field 17 0 []]⟩]⟩

/-- An enum with one dependency of the type 10 and that rule. -/
def views : Enum := ⟨ident 13, [field 18 10 []], [swapped]⟩

/-- The two messages, and an oracle. -/
def pairsWith (oracle : Oracle) : Setting := ⟨ofDeclarations pairs, oracle⟩

/-- Everything is equal to everything. -/
def agreeing : Oracle := fun _ _ => .ok true

/-- What a match of the variable 19 binds. -/
def caughtParts : Substitution :=
  (Substitution.empty.bind ⟨14⟩ (.access ⟨⟨0, 0⟩, ident 19, [ident 12]⟩)).bind ⟨15⟩
    (.access ⟨⟨0, 0⟩, ident 19, [ident 11, ident 9]⟩)

end Example

open Example

/-- All three find 14 and 15: the walk of the names, the check of the types, and the match of a
variable by an oracle to which everything is equal. -/
theorem binders_agree_swapped :
    RuleInput.bindsAll swapped.inputs = [⟨14⟩, ⟨15⟩]
      ∧ (∀ n, n ∈ (NameWalk.start.push.push.insideRule (ofDeclarations pairs).hasField
            swapped).scopes.innermost
          ↔ n ∈ RuleInput.bindsAll swapped.inputs)
      ∧ (∃ u, Typing.insideRule views swapped (pairsWith Structural.oracle)
            Checking.start.opened = (.ok (), u)
          ∧ ∀ n, n ∈ u.scopes.innermost ↔ n ∈ RuleInput.bindsAll swapped.inputs)
      ∧ (Typing.matchRule .empty swapped [var 19] (pairsWith agreeing) .start).1
          = .ok (some caughtParts)
      ∧ Substitution.empty.scopes.Binds caughtParts.scopes
          (RuleInput.bindsAll swapped.inputs) := by
  have hnames : (ofDeclarations pairs).nameFaults = [] := by cbv
  have hrule : ∀ i ∈ swapped.inputs, i.isPattern = true := by decide
  have hrun : (Typing.checkRule views swapped (pairsWith Structural.oracle) .start).1 = .ok () := by
    cbv
  have hopen : NameWalk.start.push.Open := ⟨Nat.one_pos, fun _ h => by cases h⟩
  have hmatched : (Typing.matchRule .empty swapped [var 19] (pairsWith agreeing) .start).1
      = .ok (some caughtParts) := by cbv
  obtain ⟨hwalk, ⟨u, hinside, -, hscope⟩, hmatch⟩ := Typing.binders_agree
    (pairsWith Structural.oracle) hnames views swapped hrule .start _ rfl (Prod.ext hrun rfl)
  have hbinds := hmatch agreeing [var 19] .empty caughtParts .start _ (Prod.ext hmatched rfl)
  exact ⟨rfl, hwalk _ hopen rfl, ⟨u, hinside, hscope⟩, hmatched, hbinds⟩

end Schema

end DepSchema
