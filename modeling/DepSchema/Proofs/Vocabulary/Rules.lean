/-
DepSchema.Proofs.Vocabulary.Rules — checks of fields and rules ask within a vocabulary.

The type of a field and the patterns of a rule were written in the declaration of another type.
Dependencies and earlier fields are replaced by what is within reach, and so is what a pattern
binds; what a pattern compares stays as it was written.

Main results: `asks_accessType` and `asks_dispatchFrom`.
-/
import DepSchema.Proofs.Vocabulary.Types

namespace DepSchema.Typing

open Check

variable {W : Vocabulary} {c : Setting}

/-! ## §1. Fields. -/

theorem asks_fieldType (hW : W.Closed c.schema) {s : Checking} (hs : s.Within W) {base : Access}
    (hbase : s.reach W (.var base.var.name)) {type : TypeExpr} (htype : type.Within (s.reach W))
    (field : Ident) :
    Asks W c (fieldType base type field) s fun t' u => t'.Within (u.reach W) := by
  unfold fieldType
  rw [TypeExpr.within_iff] at htype
  have hword := Vocabulary.of_also htype.1 (by simp)
  refine .schema ?_ fun s' hs' => by rw [hs'.type hword]
  cases hd : c.schema.type? type.name with
  | none => exact .fail
  | some d =>
    obtain ⟨hwithin, hrest⟩ := hW.type hword hd
    cases d with
    | enum e => exact .fail
    | message m =>
      refine .getSome fun declared hdeclared => ?_
      dsimp only
      -- dependencies stand for parameters, earlier fields for those of the same value
      obtain ⟨hdeps, hopen⟩ := Substitution.covers_bindDeps (Vocabulary.le_inScope s.scopes)
        m.deps htype.2
        fun v hv => Vocabulary.le_inScope _ _ (hrest v hv)
      have hcovers := Substitution.Covers.bindFields hbase
        (m.fields.takeWhile fun v => v.name.name != field.name) hdeps hopen
      have hfield := hwithin.2.find? hdeclared
      exact .underResult hs fun t' ht' => hcovers.applyType hfield ht'

theorem asks_fieldsType (hW : W.Closed c.schema) (fields : List Ident) :
    ∀ (base : Access) (type : TypeExpr) (s : Checking), s.Within W →
      s.reach W (.var base.var.name) → type.Within (s.reach W) →
      Asks W c (fieldsType base type fields) s fun t' u => t'.Within (u.reach W) := by
  induction fields with
  | nil =>
    intro base type s hs _ htype
    exact .pure hs htype
  | cons f fields ih =>
    intro base type s hs hbase htype
    refine (asks_fieldType hW hs hbase htype f).bind fun t' t hst ht' => ?_
    exact ih (base.field f) t' t hst.within (hst.le _ hbase) ht'

theorem asks_accessType (hW : W.Closed c.schema) {s : Checking} (hs : s.Within W) (a : Access) :
    Asks W c (accessType a) s fun b u => b.Within (u.reach W) := by
  unfold accessType
  refine .read (a := s.scopes.find? a.var.name) (fun _ => rfl) ?_
  refine .getSome fun b hb => ?_
  have hwithin := hs.scopes _ _ hb
  split
  · exact .pure hs hwithin
  · cases b with
    | function ft => exact .fail
    | value type =>
      have hbase : s.reach W (.var (Access.ofVar a.var).var.name) :=
        .inr ⟨_, rfl, by simp [Scopes.contains, Access.ofVar, hb]⟩
      refine (asks_fieldsType hW a.fields (.ofVar a.var) type s hs hbase hwithin).bind
        fun t' t hst ht' => ?_
      exact .pure hst.within ht'

theorem getSome_signature (span : Span) (cause : Cause) (o : Option FunctionDef) :
    (getSome span cause o >>= fun f => (pure f.signature : Check FunctionType))
      = getSome span cause (o.map FunctionDef.signature) := by
  cases o <;> rfl

/-- A function that is called or passed by its name: of one in scope, or else of the schema. -/
theorem asks_calleeType (hW : W.Closed c.schema) {s : Checking} (hs : s.Within W) {callee : Ident}
    (hcallee : W (.callee callee.name) ∨ s.reach W (.var callee.name)) :
    Asks W c (calleeType callee) s fun ft u => ft.Within (u.reach W) := by
  unfold calleeType
  refine .read (a := s.scopes.find? callee.name) (fun _ => rfl) ?_
  cases hfind : s.scopes.find? callee.name with
  | some b =>
    have hwithin := hs.scopes _ _ hfind
    cases b with
    | value type => exact .fail
    | function ft => exact .pure hs hwithin
  | none =>
    -- the name is not in scope, so it is a word of the vocabulary
    have hword : W (.callee callee.name) ∨ W (.var callee.name) := by
      refine hcallee.imp_right fun h => ?_
      rcases h with h | ⟨n, hn, hcontains⟩
      · exact h
      · cases hn
        simp [Scopes.contains, hfind] at hcontains
    refine .schema (.getSome fun f hf => .pure hs ?_) fun s' hs' => ?_
    · exact (hW.function hword hf).mono (Vocabulary.le_inScope _)
    · -- only the type of the function is looked at
      rw [getSome_signature, getSome_signature, hs'.function hword]

/-! ## §2. Rules. -/

/-- What a match gives, if it gives anything: a substitution that leads from some vocabulary to
what is within reach. -/
def Matched (W V : Vocabulary) (o : Option Substitution) (t : Checking) : Prop :=
  ∀ σ, o = some σ → σ.Covers V (t.reach W) ∧ σ.scopes.frames ≠ []

theorem asks_matchByOracle {σ : Substitution} {V : Vocabulary} {pattern actual : Expr}
    {s : Checking} (hs : s.Within W) (hpattern : pattern.Within W)
    (hactual : actual.Within (s.reach W)) (hcovers : σ.Covers V (s.reach W))
    (hopen : σ.scopes.frames ≠ []) :
    Asks W c (matchByOracle σ pattern actual) s (Matched W V) := by
  have hasked : Asks W c (askEqual pattern actual >>= fun equal =>
      note (.patternCompared pattern actual equal) >>= fun _ =>
        (pure (if equal then some σ else none) : Check (Option Substitution))) s (Matched W V) := by
    refine (Asks.askEqual hs (hpattern.mono (Vocabulary.le_inScope _)) hactual).bind
      fun equal t hst _ => ?_
    refine (Asks.note hst.within _).bind fun _ u htu _ => .pure htu.within ?_
    intro σ' hσ'
    have heq : σ' = σ := by
      cases equal <;> simp at hσ'
      exact hσ'.symm
    rw [heq]
    exact ⟨hcovers.mono le_rfl (hst.le.trans htu.le), hopen⟩
  unfold matchByOracle
  cases actual with
  | constructed span ctor fs => exact .pure hs fun _ h => by cases h
  | _ => exact hasked

/-- A pattern without names to bind is left to the oracle. -/
theorem asks_matchLeaf {σ : Substitution} {V : Vocabulary} {pattern actual : Expr} {s : Checking}
    (hs : s.Within W) (hpattern : pattern.bareVar?.isSome ∨ pattern.Within W)
    (hleaf : pattern.bareVar? = none) (hcaught : pattern.caught = [])
    (hactual : actual.Within (s.reach W)) (hcovers : σ.Covers V (s.reach W))
    (hopen : σ.scopes.frames ≠ []) :
    Asks W c (matchByOracle σ pattern actual) s (Matched W (V.adding pattern.caught)) := by
  rw [hcaught, Vocabulary.adding_nil]
  refine asks_matchByOracle hs (hpattern.resolve_left ?_) hactual hcovers hopen
  simp [hleaf]

mutual

theorem asks_matchExpr :
    ∀ (pattern actual : Expr) (σ : Substitution) (V : Vocabulary) (s : Checking), s.Within W →
      pattern.bareVar?.isSome ∨ pattern.Plain W → actual.Within (s.reach W) →
      σ.Covers V (s.reach W) → σ.scopes.frames ≠ [] →
      Asks W c (matchExpr σ actual pattern) s (Matched W (V.adding pattern.caught))
  | .access a, actual, σ, V, s, hs, hpattern, hactual, hcovers, hopen => by
    unfold matchExpr
    by_cases hvar : a.isVar = true
    · rw [if_pos hvar, Expr.caught, if_pos hvar]
      refine .pure hs fun σ' hσ' => ?_
      cases hσ'
      exact ⟨hcovers.bind hopen hactual, Substitution.bind_open hopen _ _⟩
    · rw [if_neg hvar]
      refine asks_matchLeaf hs hpattern ?_ ?_ hactual hcovers hopen
      · simp [Expr.bareVar?, hvar]
      · simp [Expr.caught, hvar]
  | .constructed _ ctor inits, actual, σ, V, s, hs, hpattern, hactual, hcovers, hopen => by
    have hinits := Expr.plain_constructed.mp (hpattern.resolve_left (by simp [Expr.bareVar?]))
    unfold matchExpr
    cases actual with
    | constructed _ c' values =>
      dsimp only
      split
      · refine asks_matchInits inits _ σ V s hs hinits.2 ?_ hcovers hopen
        intro f value hvalue
        obtain ⟨g, hg, rfl⟩ := Named.mem_of_find? hvalue
        exact (Expr.within_constructed.mp hactual).2 g hg
      · exact .pure hs fun _ h => by cases h
    | access a =>
      refine .schema ?_ fun s' hs' => by rw [hs'.ctor hinits.1]
      split
      · refine asks_matchInits inits _ σ V s hs hinits.2 ?_ hcovers hopen
        intro f value hvalue
        cases hvalue
        exact Expr.within_access.mpr (Expr.within_access.mp hactual)
      · exact .pure hs fun _ h => by cases h
    | _ => exact .pure hs fun _ h => by cases h
  | .binary _ _ _ _, _, _, _, _, hs, hpattern, hactual, hcovers, hopen =>
    asks_matchLeaf hs hpattern rfl rfl hactual hcovers hopen
  | .unary _ _ _, _, _, _, _, hs, hpattern, hactual, hcovers, hopen =>
    asks_matchLeaf hs hpattern rfl rfl hactual hcovers hopen
  | .type _ _ _, _, _, _, _, hs, hpattern, hactual, hcovers, hopen =>
    asks_matchLeaf hs hpattern rfl rfl hactual hcovers hopen
  | .scalar _ _, _, _, _, _, hs, hpattern, hactual, hcovers, hopen =>
    asks_matchLeaf hs hpattern rfl rfl hactual hcovers hopen
  | .collection _ _, _, _, _, _, hs, hpattern, hactual, hcovers, hopen =>
    asks_matchLeaf hs hpattern rfl rfl hactual hcovers hopen
  | .call _ _ _, _, _, _, _, hs, hpattern, hactual, hcovers, hopen =>
    asks_matchLeaf hs hpattern rfl rfl hactual hcovers hopen

theorem asks_matchInits :
    ∀ (fs : List (Named Expr)) (valueOf : Ident → Option Expr) (σ : Substitution) (V : Vocabulary)
      (s : Checking), s.Within W → (∀ f ∈ fs, f.val.bareVar?.isSome ∨ f.val.Plain W) →
      (∀ f value, valueOf f = some value → value.Within (s.reach W)) →
      σ.Covers V (s.reach W) → σ.scopes.frames ≠ [] →
      Asks W c (matchInits σ valueOf fs) s (Matched W (V.adding (Expr.caughtFields fs)))
  | [], _, σ, V, s, hs, _, _, hcovers, hopen => by
    refine .pure hs fun σ' hσ' => ?_
    cases hσ'
    rw [Expr.caughtFields, Vocabulary.adding_nil]
    exact ⟨hcovers, hopen⟩
  | f :: fs, valueOf, σ, V, s, hs, hfs, hvalues, hcovers, hopen => by
    rw [List.forall_mem_cons] at hfs
    unfold matchInits
    cases hvalue : valueOf f.name with
    | none => exact .pure hs fun _ h => by cases h
    | some value =>
      refine (asks_matchExpr f.val value σ V s hs hfs.1 (hvalues _ _ hvalue) hcovers hopen).bind
        fun o t hst ho => ?_
      cases o with
      | none => exact .pure hst.within fun _ h => by cases h
      | some σ' =>
        obtain ⟨hcovers', hopen'⟩ := ho σ' rfl
        rw [Expr.caughtFields, ← Vocabulary.adding_adding]
        exact asks_matchInits fs valueOf σ' _ t hst.within hfs.2
          (fun g v hv => (hvalues g v hv).mono hst.le) hcovers' hopen'

end

theorem asks_matchInputs (inputs : List RuleInput) :
    ∀ (params : List Expr) (σ : Substitution) (V : Vocabulary) (s : Checking), s.Within W →
      inputs.length = params.length → (∀ i ∈ inputs, i.Plain W) →
      (∀ p ∈ params, p.Within (s.reach W)) → σ.Covers V (s.reach W) → σ.scopes.frames ≠ [] →
      Asks W c (matchInputs σ inputs params) s
        (Matched W (V.adding (inputs.flatMap RuleInput.caught))) := by
  induction inputs with
  | nil =>
    intro params σ V s hs _ _ _ hcovers hopen
    refine .pure hs fun σ' hσ' => ?_
    cases hσ'
    rw [List.flatMap_nil, Vocabulary.adding_nil]
    exact ⟨hcovers, hopen⟩
  | cons input inputs ih =>
    intro params σ V s hs hlen hinputs hparams hcovers hopen
    cases params with
    | nil => cases hlen
    | cons param params =>
      rw [List.forall_mem_cons] at hinputs hparams
      rw [List.flatMap_cons, ← Vocabulary.adding_adding]
      cases input with
      | any span =>
        rw [RuleInput.caught, Vocabulary.adding_nil]
        exact ih params σ V s hs (Nat.succ.inj hlen) hinputs.2 hparams.2 hcovers hopen
      | value p =>
        unfold matchInputs
        refine (asks_matchExpr p param σ V s hs hinputs.1 hparams.1 hcovers hopen).bind
          fun o t hst ho => ?_
        cases o with
        | none => exact .pure hst.within fun _ h => by cases h
        | some σ' =>
          obtain ⟨hcovers', hopen'⟩ := ho σ' rfl
          exact ih params σ' _ t hst.within (Nat.succ.inj hlen) hinputs.2
            (fun p hp => (hparams.2 p hp).mono hst.le) hcovers' hopen'

/-- **The rule that a dispatch chooses offers the constructor**, and what its inputs bind is
replaced along with the rest. -/
theorem asks_dispatchFrom (enum : Symbol) (ctor : Ident) {params : List Expr} {σ : Substitution}
    {V : Vocabulary} (hopen : σ.scopes.frames ≠ []) (rules : List Rule) :
    ∀ (index : Nat) (s : Checking), s.Within W → (∀ r ∈ rules, ∀ i ∈ r.inputs, i.Plain W) →
      (∀ p ∈ params, p.Within (s.reach W)) → σ.Covers V (s.reach W) →
      Asks W c (dispatchFrom enum ctor params σ rules index) s fun σ' t =>
        ∃ r ∈ rules, (r.constructor? ctor.name).isSome
          ∧ σ'.Covers (V.adding (r.inputs.flatMap RuleInput.caught)) (t.reach W)
          ∧ σ'.scopes.frames ≠ [] := by
  induction rules with
  | nil =>
    intro index s hs _ _ _
    exact .fail
  | cons rule rules ih =>
    intro index s hs hrules hparams hcovers
    rw [List.forall_mem_cons] at hrules
    have hmatch : Asks W c (matchRule σ rule params) s
        (Matched W (V.adding (rule.inputs.flatMap RuleInput.caught))) := by
      unfold matchRule
      split
      · next hlen => exact asks_matchInputs _ _ σ V s hs hlen hrules.1 hparams hcovers hopen
      · exact .pure hs fun _ h => by cases h
    unfold dispatchFrom
    refine hmatch.bind fun o t hst ho => ?_
    cases o with
    | none =>
      refine (Asks.note hst.within _).bind fun _ u htu _ => ?_
      have hle := hst.le.trans htu.le
      refine (ih (index + 1) u htu.within hrules.2 (fun p hp => (hparams p hp).mono hle)
        (hcovers.mono le_rfl hle)).mono fun σ' v _ h => ?_
      obtain ⟨r, hr, hrest⟩ := h
      exact ⟨r, List.mem_cons_of_mem _ hr, hrest⟩
    | some bound =>
      obtain ⟨hbound, hopen'⟩ := ho bound rfl
      refine (Asks.note hst.within _).bind fun _ u htu _ => ?_
      split
      · next hoffered =>
        exact .pure htu.within
          ⟨rule, List.mem_cons_self, hoffered, hbound.mono le_rfl htu.le, hopen'⟩
      · exact .fail

end DepSchema.Typing
