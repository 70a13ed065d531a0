/-
DepSchema.Proofs.Vocabulary.Types — checks of types ask within a vocabulary.

A vocabulary is closed for a schema when the definitions behind its words are within it: whatever
a check looks up by an allowed name is then made of allowed names again. Types and function types
that are within reach are compared by queries within reach; the parameters of one function type are
renamed to those of the other on the way.

Main results: `asks_requireSameType`, `asks_requireSameFunctionType` and `asks_underFunction`.
-/
import DepSchema.Proofs.Vocabulary.Asking
import DepSchema.Proofs.Names.Tidy

namespace DepSchema

/-! ## §1. Closed vocabularies. -/

/-- What a schema declares under the words of the vocabulary is within the vocabulary. A type that
is given too few parameters leaves dependencies as they are; they have to be words, too. -/
structure Vocabulary.Closed (W : Vocabulary) (s : Schema) : Prop where
  unsigned : W (.type .unsigned 0)
  type : ∀ {n k d}, W (.type n k) → s.type? n = some d →
    d.Within W ∧ ∀ v ∈ d.deps.drop k, W (.var v.name.name)
  ctor : ∀ {n d c}, W (.ctor n) → s.constructor? n = some (d, c) → d.Within W
  function : ∀ {n f}, W (.callee n) ∨ W (.var n) → s.function? n = some f → f.signature.Within W

/-- The vocabulary of all words is closed. -/
theorem Vocabulary.closed_all (s : Schema) : Vocabulary.all.Closed s :=
  ⟨trivial, fun _ _ => ⟨TypeDef.within_all _, fun _ _ => trivial⟩, fun _ _ => TypeDef.within_all _,
    fun {_ f} _ _ => f.within_all.signature⟩

theorem Vocabulary.of_also {W : Vocabulary} {p : Symbol → Prop} {r : Reference} (h : W.also p r)
    (hr : ∀ n, r ≠ .var n) : W r := by
  rcases h with h | ⟨n, rfl, -⟩
  · exact h
  · exact absurd rfl (hr n)

/-- What is found as a constructor belongs to the type that is found with it. -/
theorem Schema.of_constructor? {s : Schema} {n : Symbol} {d : TypeDef} {c : Constructor}
    (h : s.constructor? n = some (d, c)) :
    d ∈ s.types ∧ c ∈ d.constructors ∧ c.name = n := by
  simp only [Schema.constructor?, Option.bind_eq_bind, Option.bind_eq_some_iff, Option.pure_def,
    Option.some.injEq, Prod.mk.injEq] at h
  obtain ⟨owner, -, d', hd, c', hc, rfl, rfl⟩ := h
  exact ⟨mem_of_type? hd, List.mem_of_find?_eq_some hc, by simpa using List.find?_some hc⟩

namespace Typing

open Check

variable {W : Vocabulary} {c : Setting}

/-! ## §2. Types. -/

theorem asks_elementType {s : Checking} (hs : s.Within W) {t : TypeExpr}
    (ht : t.Within (s.reach W)) (index : Nat) :
    Asks W c (elementType t index) s fun t' u => t'.Within (u.reach W) := by
  unfold elementType
  refine .getSome fun param hparam => ?_
  have hwithin := (TypeExpr.within_iff.mp ht).2 param (List.mem_of_getElem? hparam)
  cases htype : param.type? with
  | none => exact .fail
  | some t' =>
    refine .pure hs ?_
    cases param with
    | type span i ps =>
      cases htype
      exact hwithin
    | _ => cases htype

theorem asks_requireSameHead {s : Checking} (hs : s.Within W) (expected got : TypeExpr)
    (span : Span) : Asks W c (requireSameHead expected got span) s fun _ _ => True := by
  unfold requireSameHead
  dsimp only
  refine .guard fun _ => ?_
  split
  · exact .fail
  · exact .pure hs trivial

/-- Two parameters that are not types are compared by the oracle. -/
theorem asks_compare {s : Checking} (hs : s.Within W) {e g : Expr} (he : e.Within (s.reach W))
    (hg : g.Within (s.reach W)) :
    Asks W c (if g.type?.isSome then pure false else askEqual e g) s fun _ _ => True := by
  split
  · exact .pure hs trivial
  · exact (Asks.askEqual hs he hg).mono fun _ _ _ _ => trivial

mutual

theorem asks_sameParam (span : Span) : ∀ (e g : Expr) (s : Checking), s.Within W →
    e.Within (s.reach W) → g.Within (s.reach W) →
    Asks W c (sameParam span e g) s fun _ _ => True
  | .type span' i ps, g, s, hs, he, hg => by
    unfold sameParam
    cases g with
    | type gspan gi gs =>
      refine (asks_requireSameHead hs _ _ _).bind fun _ t hst _ => ?_
      have hps := fun p hp => ((Expr.within_type.mp he).2 p hp).mono hst.le
      have hgs := fun p hp => ((Expr.within_type.mp hg).2 p hp).mono hst.le
      refine (asks_requireSameParams span ps gs 0 t hst.within hps hgs).bind fun _ u htu _ => ?_
      exact .pure htu.within trivial
    | _ => exact .pure hs trivial
  | .binary _ _ _ _, _, _, hs, he, hg => asks_compare hs he hg
  | .unary _ _ _, _, _, hs, he, hg => asks_compare hs he hg
  | .access _, _, _, hs, he, hg => asks_compare hs he hg
  | .scalar _ _, _, _, hs, he, hg => asks_compare hs he hg
  | .constructed _ _ _, _, _, hs, he, hg => asks_compare hs he hg
  | .collection _ _, _, _, hs, he, hg => asks_compare hs he hg
  | .call _ _ _, _, _, hs, he, hg => asks_compare hs he hg

theorem asks_requireSameParams (span : Span) :
    ∀ (es gs : List Expr) (index : Nat) (s : Checking), s.Within W →
      (∀ e ∈ es, e.Within (s.reach W)) → (∀ g ∈ gs, g.Within (s.reach W)) →
      Asks W c (requireSameParams span es gs index) s fun _ _ => True
  | [], _, _, _, hs, _, _ => .pure hs trivial
  | _ :: _, [], _, _, hs, _, _ => .pure hs trivial
  | e :: es, g :: gs, index, s, hs, hes, hgs => by
    rw [List.forall_mem_cons] at hes hgs
    unfold requireSameParams
    refine (asks_sameParam span e g s hs hes.1 hgs.1).bind fun same t hst _ => ?_
    have hrest := asks_requireSameParams span es gs (index + 1) t hst.within
      (fun e he => (hes.2 e he).mono hst.le) (fun g hg => (hgs.2 g hg).mono hst.le)
    dsimp only
    split
    · exact hrest
    · exact Asks.bind (P := fun _ _ => False) .fail fun _ _ _ h => h.elim

end

theorem asks_requireSameType {s : Checking} (hs : s.Within W) {expected got : TypeExpr}
    (he : expected.Within (s.reach W)) (hg : got.Within (s.reach W)) (span : Span) :
    Asks W c (requireSameType expected got span) s fun _ _ => True := by
  unfold requireSameType
  refine (asks_requireSameHead hs _ _ _).bind fun _ t hst _ => ?_
  exact asks_requireSameParams span expected.params got.params 0 t hst.within
    (fun e hp => ((TypeExpr.within_iff.mp he).2 e hp).mono hst.le)
    (fun g hp => ((TypeExpr.within_iff.mp hg).2 g hp).mono hst.le)

/-! ## §3. Function types. -/

/-- What comparing parameters has to provide for the results to be compared. -/
theorem asks_requireSameSignature {s : Checking} (hs : s.Within W) (span : Span) {arity : Nat}
    {result : TypeExpr} {got : FunctionType} {parameters : Check Substitution}
    (hsteps : StepwiseInside true parameters)
    (hparameters : arity = got.params.length → Asks W c parameters s.opened fun rename t =>
      result.Within (t.reach W)
        ∧ ∀ got', rename.applyType got.result = .ok got' → got'.Within (t.reach W)) :
    Asks W c (requireSameSignature span arity result got parameters) s fun _ _ => True := by
  unfold requireSameSignature
  dsimp only
  refine .guard fun hlen => ?_
  have hbody : StepwiseInside true (parameters >>= fun rename =>
      under rename got.result >>= fun got' => requireSameType result got' span) := by
    refine hsteps.bind fun rename => ?_
    exact (StepwiseInside.under _ _).bind fun _ => stepwise_requireSameType _ _ _
  refine (Asks.inScope (Q := fun _ => True) hbody.framed hs ?_).mono fun _ _ _ _ => trivial
  refine (hparameters (not_not.mp hlen)).bind fun rename t hst h => ?_
  refine .under hst.within fun got' hgot' => ?_
  exact asks_requireSameType hst.within h.1 (h.2 got' hgot') span

mutual

theorem asks_requireSameParameter (span : Span) :
    ∀ (expected got : ParameterType) (index : Nat) (rename : Substitution) (V : Vocabulary)
      (s : Checking), s.Within W → expected.Within (s.reach W) (s.reach W) →
      got.Within (s.reach W) V → rename.Covers V (s.reach W) →
      Asks W c (requireSameParameter span expected got index rename) s
        fun b t => b.Within (t.reach W)
  | .value expected, .value got, index, rename, V, s, hs, he, hg, hcovers => by
    unfold requireSameParameter
    refine .under hs fun got' hgot' => ?_
    refine (asks_requireSameType hs he (hcovers.applyType hg hgot') span).bind fun _ t hst _ => ?_
    exact .pure hst.within (TypeExpr.Within.mono he hst.le)
  | .function ps result, .function qs got, index, rename, V, s, hs, he, hg, hcovers => by
    unfold requireSameParameter
    refine (asks_requireSameSignature hs span (stepwise_requireSameParameters span ps qs 0 .empty)
      fun hlen => ?_).bind fun _ t hst _ => ?_
    · -- a function type beside other parameters does not use them, so nothing has to be renamed
      refine (asks_requireSameParameters span ps qs 0 .empty (s.reach W) s.opened hs.opened he.1
        hg.1 (.empty le_rfl) Substitution.empty_open).mono fun rename t hst h => ?_
      obtain ⟨hrename, hnames⟩ := h hlen
      refine ⟨he.2.mono (Vocabulary.adding_le hst.le hnames), ?_⟩
      exact fun got' hgot' => hrename.applyType hg.2 hgot'
    · exact .pure hst.within (Binding.Within.mono hst.le (b := .function ⟨ps, result⟩) ⟨he.1, he.2⟩)
  | .value _, .function _ _, _, _, _, _, _, _, _, _ => .fail
  | .function _ _, .value _, _, _, _, _, _, _, _, _ => .fail

theorem asks_requireSameParameters (span : Span) :
    ∀ (es gs : List (Named ParameterType)) (index : Nat) (rename : Substitution) (V : Vocabulary)
      (s : Checking), s.Within W → ParameterType.AllWithin (s.reach W) (s.reach W) es →
      ParameterType.AllWithin (s.reach W) V gs → rename.Covers V (s.reach W) →
      rename.scopes.frames ≠ [] →
      Asks W c (requireSameParameters span es gs index rename) s fun rename' t =>
        es.length = gs.length →
          rename'.Covers (V.adding (gs.map fun g => g.name.name)) (t.reach W)
            ∧ ∀ n ∈ es.map (fun e => e.name.name), t.reach W (.var n)
  | [], [], _, rename, V, s, hs, _, _, hcovers, _ => by
    refine .pure hs fun _ => ?_
    simpa using hcovers
  | [], _ :: _, _, _, _, _, hs, _, _, _, _ => .pure hs fun h => by cases h
  | _ :: _, [], _, _, _, _, hs, _, _, _, _ => .pure hs fun h => by cases h
  | e :: es, g :: gs, index, rename, V, s, hs, hes, hgs, hcovers, hopen => by
    unfold requireSameParameters
    refine (asks_requireSameParameter span e.val g.val index rename V s hs hes.1 hgs.1
      hcovers).bind fun b t hst hb => ?_
    refine (Asks.introduce hst.within hb).bind fun _ u htu hcontains => ?_
    have hle : s.reach W ≤ u.reach W := hst.le.trans htu.le
    have hname : u.reach W (.var e.name.name) := .inr ⟨_, rfl, hcontains⟩
    -- both names now stand for the one of the expected parameter
    refine (asks_requireSameParameters span es gs (index + 1) _ (V.adding [g.name.name]) u
      htu.within (hes.2.mono hle (Vocabulary.adding_le hle (by simpa using hname)))
      (hgs.2.mono hle le_rfl)
      ((hcovers.mono le_rfl hle).bind hopen (Expr.within_access.mpr hname))
      (Substitution.bind_open hopen _ _)).mono fun rename' v huv h => ?_
    intro hlen
    obtain ⟨hrename, hnames⟩ := h (Nat.succ.inj hlen)
    rw [Vocabulary.adding_adding] at hrename
    refine ⟨hrename, ?_⟩
    rw [List.map_cons, List.forall_mem_cons]
    exact ⟨huv.le _ hname, hnames⟩

end

theorem asks_requireSameFunctionType {s : Checking} (hs : s.Within W) {expected got : FunctionType}
    (he : expected.Within (s.reach W)) (hg : got.Within (s.reach W)) (span : Span) :
    Asks W c (requireSameFunctionType expected got span) s fun _ _ => True := by
  refine asks_requireSameSignature hs span (stepwise_requireSameParameters _ _ _ _ _) fun hlen => ?_
  refine (asks_requireSameParameters span expected.params got.params 0 .empty (s.reach W) s.opened
    hs.opened he.params hg.params (.empty le_rfl) Substitution.empty_open).mono
    fun rename t hst h => ?_
  obtain ⟨hrename, hnames⟩ := h hlen
  refine ⟨he.result.mono (Vocabulary.adding_le hst.le hnames), ?_⟩
  exact fun got' hgot' => hrename.applyType hg.result hgot'

mutual

theorem asks_underParameter {σ : Substitution} {outer X : Vocabulary} (houter : σ.Covers outer X) :
    ∀ (t : ParameterType) (V Y : Vocabulary) (s : Checking), s.Within W → t.Within outer V →
      σ.Covers V Y → Asks W c (underParameter σ t) s fun t' _ => t'.Within X Y
  | .value t, V, Y, s, hs, ht, hcovers => by
    unfold underParameter
    refine .under hs fun t' ht' => .pure hs ?_
    exact hcovers.applyType ht ht'
  | .function ps result, V, Y, s, hs, ht, hcovers => by
    unfold underParameter
    refine (asks_underParameters houter ps outer X s hs ht.1 houter).bind fun ps' t hst hps' => ?_
    refine .under hst.within fun result' hresult' => .pure hst.within ⟨hps'.1, ?_⟩
    rw [hps'.2]
    exact (houter.adding _).applyType ht.2 hresult'

theorem asks_underParameters {σ : Substitution} {outer X : Vocabulary}
    (houter : σ.Covers outer X) :
    ∀ (ps : List (Named ParameterType)) (V Y : Vocabulary) (s : Checking), s.Within W →
      ParameterType.AllWithin outer V ps → σ.Covers V Y →
      Asks W c (underParameters σ ps) s fun ps' _ => ParameterType.AllWithin X Y ps'
        ∧ ps'.map (fun p => p.name.name) = ps.map fun p => p.name.name
  | [], _, _, _, hs, _, _ => .pure hs ⟨trivial, rfl⟩
  | p :: ps, V, Y, s, hs, hps, hcovers => by
    unfold underParameters
    refine (asks_underParameter houter p.val V Y s hs hps.1 hcovers).bind fun t' t hst ht' => ?_
    refine (asks_underParameters houter ps (V.adding [p.name.name]) (Y.adding [p.name.name]) t
      hst.within hps.2 (hcovers.adding _)).bind fun ps' u htu hps' => ?_
    refine .pure htu.within ⟨⟨ht', hps'.1⟩, ?_⟩
    rw [List.map_cons, List.map_cons, hps'.2]

end

theorem asks_underFunction {σ : Substitution} {V X : Vocabulary} (hcovers : σ.Covers V X)
    {s : Checking} (hs : s.Within W) {f : FunctionType} (hf : f.Within V) :
    Asks W c (underFunction σ f) s fun f' _ => f'.Within X := by
  unfold underFunction
  refine (asks_underParameters hcovers f.params V X s hs hf.params hcovers).bind
    fun ps' t hst hps' => ?_
  refine .under hst.within fun result' hresult' => .pure hst.within ⟨hps'.1, ?_⟩
  rw [show (FunctionType.mk ps' result').params = ps' from rfl, hps'.2]
  exact (hcovers.adding _).applyType hf.result hresult'

end Typing

end DepSchema
