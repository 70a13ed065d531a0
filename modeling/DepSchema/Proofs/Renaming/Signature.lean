/-
DepSchema.Proofs.Renaming.Signature — function types up to the names of their parameters.

Two function types are compared parameter by parameter. On the way each parameter of the second one
is replaced by that of the first one at its place, which takes back a renaming of the parameters, as
far as it goes: a function type that stands in the place of a parameter starts anew, with nothing
replaced, and what is called is never replaced. So a function type and a renaming of it are found to
be the same exactly where these two do not matter: no function type in it mentions a parameter of a
function type around it, and no parameter is called in a type.

Main definitions: `FunctionType.Renamed` and `FunctionType.isSelfContained`. Main result:
`sameFunctionType_renamed`.
-/
import DepSchema.Proofs.Names.Uses
import DepSchema.Proofs.Renaming.Parameter
import DepSchema.Proofs.Renaming.Variables

namespace DepSchema

/-! ## §1. Renamed parameters. -/

/-- The second type is the first with each variable and each function `n` called `ρ n`. -/
def TypeExpr.Renamed (ρ : Symbol → Symbol) (t t' : TypeExpr) : Prop :=
  t.toExpr.Renamed ρ ρ t'.toExpr

namespace ParameterType

/-- The renaming `ρ` with each parameter of the first list renamed to that at its place in the
second one. -/
def along (ρ : Symbol → Symbol) :
    List (Named ParameterType) → List (Named ParameterType) → Symbol → Symbol
  | p :: ps, p' :: ps' => along (Function.update ρ p.name.name p'.name.name) ps ps'
  | _, _ => ρ

mutual

/-- The second type of a parameter is the first, renamed by `ρ` and with other names for the
parameters of function types. -/
def Renamed (ρ : Symbol → Symbol) : ParameterType → ParameterType → Prop
  | value t, value t' => t.Renamed ρ t'
  | function ps result, function ps' result' =>
    AllRenamed ρ ps ps' ∧ result.Renamed (along ρ ps ps') result'
  | _, _ => False
termination_by structural t => t

/-- The same for parameters, each of which has another name in those after it. -/
def AllRenamed (ρ : Symbol → Symbol) :
    List (Named ParameterType) → List (Named ParameterType) → Prop
  | [], [] => True
  | p :: ps, p' :: ps' =>
    Renamed ρ p.val p'.val ∧ AllRenamed (Function.update ρ p.name.name p'.name.name) ps ps'
  | _, _ => False
termination_by structural ps => ps

end

mutual

/-- The names of the parameters in the type of a parameter, at any depth. -/
def binders : ParameterType → List Symbol
  | value _ => []
  | function ps _ => bindersAll ps
termination_by structural t => t

/-- The names of parameters, and of those in their types. -/
def bindersAll : List (Named ParameterType) → List Symbol
  | [] => []
  | p :: ps => p.name.name :: binders p.val ++ bindersAll ps
termination_by structural ps => ps

end

end ParameterType

namespace FunctionType

/-- The second function type is the first with other names for its parameters, at any depth. -/
def Renamed (ft ft' : FunctionType) : Prop :=
  ParameterType.AllRenamed id ft.params ft'.params
    ∧ ft.result.Renamed (ParameterType.along id ft.params ft'.params) ft'.result

/-- The names of the parameters of a function type, at any depth. -/
def binders (ft : FunctionType) : List Symbol := ParameterType.bindersAll ft.params

/-- All names in a function type. -/
def symbols (ft : FunctionType) : List Symbol :=
  ParameterType.symbolsAll ft.params ++ ft.result.symbols

end FunctionType

/-! ## §2. What the comparison can take back. -/

/-- Beside the parameters `own`, which may be mentioned, and inside function types with the
parameters `outer`, which may not. None of them may be called. -/
def Reference.isBeside (own outer : List Symbol) : Reference → Bool
  | .var n => own.contains n || !outer.contains n
  | .callee f => !own.contains f && !outer.contains f
  | _ => true

/-- The type mentions its own parameters only, and calls none. -/
def TypeExpr.isBeside (own outer : List Symbol) (t : TypeExpr) : Bool :=
  t.toExpr.refs.all (Reference.isBeside own outer)

namespace ParameterType

mutual

/-- No function type mentions a parameter of a function type around it, and no parameter is called;
the parameters beside are `own`, those around are `outer`. -/
def isSelfContained (own outer : List Symbol) : ParameterType → Bool
  | value t => t.isBeside own outer
  | function ps result =>
    areSelfContained [] (own ++ outer) ps
      && result.isBeside (ps.map fun p => p.name.name) (own ++ outer)
termination_by structural t => t

/-- The same for parameters, each of which is beside those after it. -/
def areSelfContained (own outer : List Symbol) : List (Named ParameterType) → Bool
  | [] => true
  | p :: ps => isSelfContained own outer p.val && areSelfContained (own ++ [p.name.name]) outer ps
termination_by structural ps => ps

end

end ParameterType

/-- No function type in it mentions a parameter of a function type around it, and no parameter is
called. -/
def FunctionType.isSelfContained (ft : FunctionType) : Bool :=
  ParameterType.areSelfContained [] [] ft.params
    && ft.result.isBeside (ft.params.map fun p => p.name.name) []

/-! ## §3. Taking a renaming back. -/

/-- The names that a renaming `ρ` of a text with the names `symbols` may still give. -/
structure Fresh (symbols : List Symbol) (ρ : Symbol → Symbol) (names : List Symbol) : Prop where
  nodup : names.Nodup
  unseen : ∀ n ∈ names, n ∉ symbols
  unused : ∀ m ∈ symbols, ρ m ∉ names

/-- In a text with the names `symbols`, `back` takes back what `ρ` does to the parameters `own`, and
nothing else; those of `outer` have got new names. -/
structure Undoes (symbols : List Symbol) (ρ back : Symbol → Symbol) (own outer : List Symbol) :
    Prop where
  undone : ∀ m ∈ symbols, m ∈ own → back (ρ m) = m
  left : ∀ m ∈ symbols, m ∉ own → back (ρ m) = ρ m
  moved : ∀ m ∈ symbols, m ∈ own ∨ m ∈ outer → ρ m ∉ symbols
  kept : ∀ m, m ∉ own → m ∉ outer → ρ m = m

section

variable {symbols names more own outer : List Symbol} {ρ back : Symbol → Symbol} {n n' : Symbol}

theorem Fresh.sublist (h : Fresh symbols ρ names) (hsub : more.Sublist names) :
    Fresh symbols ρ more :=
  ⟨h.nodup.sublist hsub, fun n hn => h.unseen n (hsub.subset hn),
    fun m hm hmem => h.unused m hm (hsub.subset hmem)⟩

/-- A name that was given is no longer fresh. -/
theorem Fresh.bind (h : Fresh symbols ρ (n' :: names)) (n : Symbol) :
    Fresh symbols (Function.update ρ n n') names := by
  obtain ⟨hn', hnodup⟩ := List.nodup_cons.mp h.nodup
  refine ⟨hnodup, fun m hm => h.unseen m (List.mem_cons_of_mem _ hm), fun m hm => ?_⟩
  by_cases hmn : m = n
  · rwa [hmn, Function.update_self]
  · rw [Function.update_of_ne hmn]
    exact fun hmem => h.unused m hm (List.mem_cons_of_mem _ hmem)

theorem undoes_id (symbols : List Symbol) : Undoes symbols id id [] [] :=
  ⟨fun _ _ h => absurd h List.not_mem_nil, fun _ _ _ => rfl,
    fun _ _ h => absurd h (by simp), fun _ _ _ => rfl⟩

/-- One more parameter gets a new name, which is taken back. -/
theorem Undoes.bind (h : Undoes symbols ρ back own outer) (hfresh : Fresh symbols ρ (n' :: names))
    (n : Symbol) :
    Undoes symbols (Function.update ρ n n') (Function.update back n' n) (own ++ [n]) outer := by
  have hne : ∀ m ∈ symbols, ρ m ≠ n' := fun m hm heq =>
    hfresh.unused m hm (heq ▸ List.mem_cons_self)
  have hmem : ∀ m, m ≠ n → (m ∈ own ++ [n] ↔ m ∈ own) := by simp +contextual
  refine ⟨fun m hm hown => ?_, fun m hm hown => ?_, fun m hm hin => ?_, fun m hown hout => ?_⟩
  all_goals by_cases hmn : m = n
  · rw [hmn, Function.update_self, Function.update_self]
  · rw [Function.update_of_ne hmn, Function.update_of_ne (hne m hm)]
    exact h.undone m hm ((hmem m hmn).mp hown)
  · exact absurd (by simp [hmn]) hown
  · rw [Function.update_of_ne hmn, Function.update_of_ne (hne m hm)]
    exact h.left m hm fun hmem' => hown ((hmem m hmn).mpr hmem')
  · rw [hmn, Function.update_self]
    exact hfresh.unseen n' List.mem_cons_self
  · rw [Function.update_of_ne hmn]
    exact h.moved m hm (hin.imp_left (hmem m hmn).mp)
  · exact absurd (by simp [hmn]) hown
  · rw [Function.update_of_ne hmn]
    exact h.kept m (fun hmem' => hown ((hmem m hmn).mpr hmem')) hout

/-- In a function type that stands in the place of a parameter nothing is taken back. -/
theorem Undoes.inside (h : Undoes symbols ρ back own outer) :
    Undoes symbols ρ id [] (own ++ outer) := by
  refine ⟨fun _ _ hm => absurd hm List.not_mem_nil, fun _ _ _ => rfl, fun m hm hin => ?_,
    fun m _ hout => ?_⟩
  · exact h.moved m hm (List.mem_append.mp (hin.resolve_left List.not_mem_nil))
  · rw [List.mem_append, not_or] at hout
    exact h.kept m hout.1 hout.2

/-- **What keeps its name when the renaming is taken back** is what mentions own parameters only and
calls none. -/
theorem Undoes.keeping_iff (h : Undoes symbols ρ back own outer) {r : Reference}
    (hr : r.name ∈ symbols) :
    Vocabulary.keeping (back ∘ ρ) ρ r ↔ r.isBeside own outer = true := by
  have hmoved : ∀ m ∈ symbols, m ∈ own ∨ m ∈ outer → ρ m ≠ m := fun m hm hin heq =>
    h.moved m hm hin (heq.symm ▸ hm)
  cases r with
  | var n =>
    show back (ρ n) = n ↔ (own.contains n || !outer.contains n) = true
    by_cases hown : n ∈ own
    · simp [hown, h.undone n hr hown]
    · by_cases hout : n ∈ outer
      · simp [hown, hout, h.left n hr hown, hmoved n hr (.inr hout)]
      · simp [hown, hout, (h.left n hr hown).trans (h.kept n hown hout)]
  | callee f =>
    show ρ f = f ↔ (!own.contains f && !outer.contains f) = true
    by_cases hin : f ∈ own ∨ f ∈ outer
    · have hne := hmoved f hr hin
      simp only [hne, false_iff]
      simpa [or_iff_not_imp_left] using hin
    · rw [not_or] at hin
      simp [hin.1, hin.2, h.kept f hin.1 hin.2]
  | type | ctor => exact iff_of_true trivial rfl

end

mutual

theorem Expr.name_mem_symbols : ∀ {e : Expr} {r : Reference}, r ∈ e.refs → r.name ∈ e.symbols
  | .binary _ _ _ _, _, h =>
    List.mem_append.mpr ((List.mem_append.mp h).imp name_mem_symbols name_mem_symbols)
  | .unary _ _ x, _, h => name_mem_symbols (e := x) h
  | .type _ _ _, _, h => by
    rcases List.mem_cons.mp h with rfl | h
    · exact List.mem_cons_self
    · exact List.mem_cons_of_mem _ (name_mem_symbolsAll h)
  | .access _, _, h => by
    obtain rfl := List.mem_singleton.mp h
    exact List.mem_cons_self
  | .scalar _ _, _, h => absurd h List.not_mem_nil
  | .constructed _ _ _, _, h => by
    rcases List.mem_cons.mp h with rfl | h
    · exact List.mem_cons_self
    · exact List.mem_cons_of_mem _ (name_mem_symbolsFields h)
  | .collection _ es, _, h => name_mem_symbolsAll (l := es) h
  | .call _ _ _, _, h => by
    rcases List.mem_cons.mp h with rfl | h
    · exact List.mem_cons_self
    · exact List.mem_cons_of_mem _ (name_mem_symbolsAll h)

theorem Expr.name_mem_symbolsAll : ∀ {l : List Expr} {r : Reference}, r ∈ refsAll l →
    r.name ∈ symbolsAll l
  | [], _, h => absurd h List.not_mem_nil
  | _ :: _, _, h =>
    List.mem_append.mpr ((List.mem_append.mp h).imp name_mem_symbols name_mem_symbolsAll)

theorem Expr.name_mem_symbolsFields : ∀ {l : List (Named Expr)} {r : Reference},
    r ∈ refsFields l → r.name ∈ symbolsFields l
  | [], _, h => absurd h List.not_mem_nil
  | _ :: _, _, h => List.mem_cons_of_mem _
    (List.mem_append.mpr ((List.mem_append.mp h).imp name_mem_symbols name_mem_symbolsFields))

end

/-- **A type of a parameter**, renamed and with the renaming taken back as far as it is, is equal to
what it was exactly if it mentions own parameters only and calls none. -/
theorem TypeExpr.exists_equal_iff {symbols own outer : List Symbol} {ρ back : Symbol → Symbol}
    {σ : Substitution} (hundoes : Undoes symbols ρ back own outer) (hσ : σ.RenamesBy back)
    {t t' : TypeExpr} (h : t.Renamed ρ t') (hsymbols : t.symbols ⊆ symbols)
    (hdistinct : t.toExpr.fieldsDistinct = true) :
    ∃ u, σ.applyType t' = .ok u
      ∧ (Structural.equal t.toExpr u.toExpr = true ↔ t.isBeside own outer = true) := by
  obtain ⟨hname, hparams⟩ : t.ident.name = t'.ident.name
      ∧ Expr.AllRenamed ρ ρ t.params t'.params := by
    cases h with
    | type hname hparams => exact ⟨hname, hparams⟩
  obtain ⟨ps, hps, hps'⟩ := Substitution.exists_applyAll_of_renamed hσ hparams
  refine ⟨⟨t'.span, t'.ident, ps⟩, by rw [Substitution.applyType, hps]; rfl, ?_⟩
  have hrenamed : t.toExpr.Renamed (back ∘ ρ) ρ (TypeExpr.mk t'.span t'.ident ps).toExpr :=
    .type hname hps'
  rw [Expr.equal_iff_of_renamed hrenamed hdistinct, isBeside, List.all_eq_true]
  exact forall₂_congr fun r hr => hundoes.keeping_iff (hsymbols (Expr.name_mem_symbols hr))

/-! ## §4. The comparison. -/

namespace Substitution

/-- The substitution with each parameter of the second list replaced by that at its place in the
first one. -/
def along (σ : Substitution) :
    List (Named ParameterType) → List (Named ParameterType) → Substitution
  | p :: ps, p' :: ps' => along (σ.bind p'.name.name (.ofVar p.name)) ps ps'
  | _, _ => σ

end Substitution

/-- **Behind the parameters**, they are taken back. -/
theorem Undoes.along {symbols outer : List Symbol} :
    ∀ {ps ps' : List (Named ParameterType)} {own : List Symbol} {ρ back : Symbol → Symbol}
      {σ : Substitution}, ParameterType.AllRenamed ρ ps ps' → Undoes symbols ρ back own outer →
      Fresh symbols ρ (ParameterType.bindersAll ps') → σ.RenamesBy back →
      ∃ back', Undoes symbols (ParameterType.along ρ ps ps') back'
          (own ++ ps.map fun p => p.name.name) outer
        ∧ (σ.along ps ps').RenamesBy back'
  | [], [], own, ρ, back, σ, _, h, _, hσ => ⟨back, by simpa [ParameterType.along] using h, hσ⟩
  | p :: ps, p' :: ps', own, ρ, back, σ, hrenamed, h, hfresh, hσ => by
    have hrest := (hfresh.bind p.name.name).sublist (List.sublist_append_right _ _)
    obtain ⟨back', hundoes, hback'⟩ := Undoes.along hrenamed.2 (h.bind hfresh p.name.name) hrest
      (hσ.bind p'.name.name p.name)
    rw [List.append_assoc] at hundoes
    exact ⟨back', hundoes, hback'⟩
  | [], _ :: _, _, _, _, _, h, _, _, _ => h.elim
  | _ :: _, [], _, _, _, _, h, _, _, _ => h.elim

theorem ParameterType.AllRenamed.length_eq : ∀ {ps ps' : List (Named ParameterType)}
    {ρ : Symbol → Symbol}, AllRenamed ρ ps ps' → ps.length = ps'.length
  | [], [], _, _ => rfl
  | _ :: _, _ :: _, _, h => congrArg Nat.succ h.2.length_eq
  | [], _ :: _, _, h => h.elim
  | _ :: _, [], _, h => h.elim

/-- What a parameter is bound to where the types of parameters are compared. -/
def ParameterType.binding : ParameterType → Binding
  | value t => .value t
  | function ps result => .function ⟨ps, result⟩

namespace Typing

open Check

variable {c : Setting} {symbols own outer : List Symbol} {ρ back : Symbol → Symbol}
  {σ : Substitution}

theorem givesIf_introduce (n : Symbol) (b : Binding) (s : Checking) :
    GivesIf c s (introduce n b) True () :=
  fun () => iff_of_true rfl ⟨trivial, rfl⟩

/-- **A type and its renaming**, of which is taken back what `σ` takes back. -/
theorem exists_givesIf_sameType (hc : c.oracle = Structural.oracle) (span : Span)
    (hundoes : Undoes symbols ρ back own outer) (hσ : σ.RenamesBy back) {t t' : TypeExpr}
    (h : t.Renamed ρ t') (hsymbols : t.symbols ⊆ symbols)
    (hdistinct : t.toExpr.fieldsDistinct = true) :
    ∃ u, (∀ s, GivesIf c s (under σ t') True u)
      ∧ ∀ s, GivesIf c s (requireSameType t u span) (t.isBeside own outer = true) () := by
  obtain ⟨u, hu, hiff⟩ := t.exists_equal_iff hundoes hσ h hsymbols hdistinct
  refine ⟨u, fun s u' => ?_,
    fun _ => ((settles_requireSameType hc t u span).congr hiff).givesIf⟩
  unfold under ofSubstitution
  rw [hu]
  simp [Except.mapError]

/-- Two function types with as many parameters are the same if the parameters are, in the scope of
the comparison, and then the results. -/
theorem givesIf_requireSameSignature (hc : c.oracle = Structural.oracle) (span : Span)
    {arity : Nat} {result : TypeExpr} (got : FunctionType) {parameters : Check Substitution}
    {p : Prop} (s : Checking) (harity : arity = got.params.length)
    (hparameters : GivesIf c s.opened parameters p σ)
    (hundoes : Undoes symbols ρ back own outer) (hσ : σ.RenamesBy back)
    (h : result.Renamed ρ got.result) (hsymbols : result.symbols ⊆ symbols)
    (hdistinct : result.toExpr.fieldsDistinct = true) :
    GivesIf c s (requireSameSignature span arity result got parameters)
      (p ∧ result.isBeside own outer = true) () := by
  obtain ⟨u, hunder, hsame⟩ := exists_givesIf_sameType hc span hundoes hσ h hsymbols hdistinct
  unfold requireSameSignature
  rw [if_neg (not_not.mpr harity)]
  intro b
  show (inScope _ c s).1 = .ok b ↔ _
  rw [inScope_eq]
  refine GivesIf.seq hparameters (fun t _ => ?_) b
  exact GivesIf.congr (GivesIf.seq (hunder t) fun v _ => hsame v) (iff_of_eq (true_and _))

mutual

/-- **The type of a parameter and its renaming** are found to be the same exactly if nothing that
counts is left of the renaming. -/
theorem givesIf_requireSameParameter (hc : c.oracle = Structural.oracle) (span : Span) :
    ∀ {t t' : ParameterType} {own outer : List Symbol} {ρ back : Symbol → Symbol}
      {σ : Substitution} (index : Nat) (s : Checking), t.Renamed ρ t' → t.symbols ⊆ symbols →
      (∀ e ∈ t.exprs, e.fieldsDistinct = true) → Undoes symbols ρ back own outer →
      σ.RenamesBy back → Fresh symbols ρ t'.binders →
      GivesIf c s (requireSameParameter span t t' index σ) (t.isSelfContained own outer = true)
        t.binding
  | .value t, .value t', own, outer, ρ, back, σ, index, s, h, hsymbols, hdistinct, hundoes, hσ,
      _ => by
    obtain ⟨u, hunder, hsame⟩ := exists_givesIf_sameType hc span hundoes hσ h hsymbols
      (hdistinct _ List.mem_cons_self)
    unfold requireSameParameter
    refine GivesIf.congr (GivesIf.seq (hunder s) fun s' _ => GivesIf.seq (hsame s') fun _ _ =>
      .pure _) ?_
    simp [ParameterType.isSelfContained]
  | .function ps result, .function qs got, own, outer, ρ, back, σ, index, s, h, hsymbols,
      hdistinct, hundoes, hσ, hfresh => by
    obtain ⟨hparams, hresult⟩ := h
    obtain ⟨hps, hr⟩ := List.append_subset.mp hsymbols
    obtain ⟨hdps, hdr⟩ := List.forall_mem_append.mp hdistinct
    have hparameters := givesIf_requireSameParameters hc span 0 s.opened hparams hps hdps
      hundoes.inside Substitution.renamesBy_empty hfresh
    obtain ⟨back', hundoes', hback'⟩ :=
      Undoes.along hparams hundoes.inside hfresh Substitution.renamesBy_empty
    have hsignature := givesIf_requireSameSignature hc span ⟨qs, got⟩ s
      hparams.length_eq hparameters hundoes' hback' hresult hr (hdr _ List.mem_cons_self)
    unfold requireSameParameter
    refine GivesIf.congr (GivesIf.seq hsignature fun _ _ => .pure _) ?_
    simp [ParameterType.isSelfContained]
  | .value _, .function _ _, _, _, _, _, _, _, _, h, _, _, _, _, _ => h.elim
  | .function _ _, .value _, _, _, _, _, _, _, _, h, _, _, _, _, _ => h.elim

/-- **Parameters and their renaming.** -/
theorem givesIf_requireSameParameters (hc : c.oracle = Structural.oracle) (span : Span) :
    ∀ {ps ps' : List (Named ParameterType)} {own outer : List Symbol} {ρ back : Symbol → Symbol}
      {σ : Substitution} (index : Nat) (s : Checking), ParameterType.AllRenamed ρ ps ps' →
      ParameterType.symbolsAll ps ⊆ symbols →
      (∀ e ∈ ParameterType.exprsAll ps, e.fieldsDistinct = true) →
      Undoes symbols ρ back own outer → σ.RenamesBy back →
      Fresh symbols ρ (ParameterType.bindersAll ps') →
      GivesIf c s (requireSameParameters span ps ps' index σ)
        (ParameterType.areSelfContained own outer ps = true) (σ.along ps ps')
  | [], [], own, outer, ρ, back, σ, index, s, _, _, _, _, _, _ =>
    (GivesIf.pure σ).congr (iff_of_true trivial rfl)
  | p :: ps, p' :: ps', own, outer, ρ, back, σ, index, s, h, hsymbols, hdistinct, hundoes, hσ,
      hfresh => by
    obtain ⟨hfirst, hrest⟩ := h
    obtain ⟨hname, hsymbols⟩ := List.cons_subset.mp hsymbols
    obtain ⟨hp, hps⟩ := List.append_subset.mp hsymbols
    obtain ⟨hdp, hdps⟩ := List.forall_mem_append.mp hdistinct
    have hvalue := givesIf_requireSameParameter hc span index s hfirst hp hdp hundoes hσ
      (hfresh.sublist (.cons _ (List.sublist_append_left _ _)))
    have hothers := fun u => givesIf_requireSameParameters hc span (index + 1) u hrest hps hdps
      (hundoes.bind hfresh p.name.name) (hσ.bind p'.name.name p.name)
      ((hfresh.bind p.name.name).sublist (List.sublist_append_right _ _))
    unfold requireSameParameters
    refine GivesIf.congr (GivesIf.seq hvalue fun t _ =>
      GivesIf.seq (givesIf_introduce p.name.name p.val.binding t) fun u _ => hothers u) ?_
    simp [ParameterType.areSelfContained]
  | [], _ :: _, _, _, _, _, _, _, _, h, _, _, _, _, _ => h.elim
  | _ :: _, [], _, _, _, _, _, _, _, h, _, _, _, _, _ => h.elim

end

/-- **Function types are compared up to the names of their parameters, as far as they are
self-contained.** Let a function type have other names for its parameters, at any depth, all of them
different and new. The two are found to be the same, from every state, exactly if no function type
in the first one mentions a parameter of a function type around it and no parameter is called. -/
theorem sameFunctionType_renamed (s : Schema) (state : Checking) (span : Span)
    (ft ft' : FunctionType) (hrenamed : ft.Renamed ft') (hnodup : ft'.binders.Nodup)
    (hnew : ∀ n ∈ ft'.binders, n ∉ ft.symbols)
    (hdistinct : ∀ e ∈ ft.exprs, e.fieldsDistinct = true) :
    (requireSameFunctionType ft ft' span ⟨s, Structural.oracle⟩ state).1 = .ok ()
      ↔ ft.isSelfContained = true := by
  obtain ⟨hparams, hresult⟩ := hrenamed
  obtain ⟨hdps, hdr⟩ := List.forall_mem_append.mp hdistinct
  have hfresh : Fresh ft.symbols id ft'.binders :=
    ⟨hnodup, hnew, fun m hm hmem => hnew m hmem hm⟩
  obtain ⟨back, hundoes, hback⟩ :=
    Undoes.along hparams (undoes_id _) hfresh Substitution.renamesBy_empty
  have hparameters := givesIf_requireSameParameters (c := ⟨s, Structural.oracle⟩) rfl span 0
    state.opened hparams (List.subset_append_left _ _) hdps (undoes_id _)
    Substitution.renamesBy_empty hfresh
  have hsignature := givesIf_requireSameSignature rfl span ft' state hparams.length_eq
    hparameters hundoes hback hresult (List.subset_append_right _ _) (hdr _ List.mem_cons_self)
  exact hsignature.passes_iff.trans (Bool.and_eq_true_iff ..).symm

end Typing

namespace Schema

namespace Example

/-- The type 7 with a number for a parameter. -/
def ofSize (n : UInt32) : TypeExpr := type 7 [var n]

/-- Functions of a number, of a function from another number and a value of that size, and of a
value of the first size. -/
def sizes (n h m x y : UInt32) : FunctionType :=
  ⟨[param n (type 0 []), ⟨ident h, .function [param m (type 0 []), param x (ofSize m)] (ofSize m)⟩,
    param y (ofSize n)], ofSize n⟩

/-- Functions of a number and of a function from values of that size. -/
def measures (n h x : UInt32) : FunctionType :=
  ⟨[param n (type 0 []), ⟨ident h, .function [param x (ofSize n)] (type 0 [])⟩], type 0 []⟩

/-- The type 7, the function 11 of the type `measures` and the function 15, which takes such a
function with other names for the parameters. -/
def measuring : List Declaration :=
  [.type (.message ⟨ident 7, [field 8 0 []], []⟩),
    .function ⟨ident 11, (measures 12 13 14).params, type 0 [], none⟩,
    .function ⟨ident 15, [⟨ident 16, .function (measures 17 18 19).params (type 0 [])⟩],
      type 0 [], none⟩]

/-- The function 15 is applied to the function 11. -/
def measured : Declaration :=
  .function ⟨ident 20, [], type 0 [], some (.call ⟨0, 0⟩ (ident 15) [var 11])⟩

end Example

open Example

/-- A size that is bound beside the function type, and one inside it: each is used where it is
bound, so the names do not matter. -/
theorem sameFunctionType_sizes :
    (sizes 8 9 10 11 12).Renamed (sizes 13 14 15 16 17)
      ∧ (Typing.requireSameFunctionType (sizes 8 9 10 11 12) (sizes 13 14 15 16 17) ⟨0, 0⟩
          ⟨.empty, Structural.oracle⟩ .start).1 = .ok () := by
  have hint : ∀ ρ, (type 0 []).Renamed ρ (type 0 []) := fun _ => .type rfl .nil
  have hofSize : ∀ {ρ : Symbol → Symbol} {n n' : UInt32}, ρ ⟨n⟩ = ⟨n'⟩ →
      (ofSize n).Renamed ρ (ofSize n') := fun h => .type rfl (.cons (.access h rfl) .nil)
  have hrenamed : (sizes 8 9 10 11 12).Renamed (sizes 13 14 15 16 17) :=
    ⟨⟨hint _, ⟨⟨hint _, hofSize rfl, trivial⟩, hofSize rfl⟩, hofSize rfl, trivial⟩, hofSize rfl⟩
  exact ⟨hrenamed, (Typing.sameFunctionType_renamed .empty .start ⟨0, 0⟩ _ _ hrenamed (by decide)
    (by decide) (by decide)).mpr rfl⟩

/-- **A number that is bound beside a function type may not be renamed where the function type uses
it**, although the types are all declared: the function 11 is refused for its parameters' names. -/
theorem measures_differ :
    (measures 17 18 19).Renamed (measures 12 13 14)
      ∧ (measures 12 13 14).binders.Nodup
      ∧ (∀ n ∈ (measures 12 13 14).binders, n ∉ (measures 17 18 19).symbols)
      ∧ ((ofDeclarations measuring).check names .fast).result = .ok ()
      ∧ (Typing.requireSameFunctionType (measures 17 18 19) (measures 12 13 14) ⟨0, 0⟩
          ⟨ofDeclarations measuring, Structural.oracle⟩ .start).1
        = .error (.located ⟨0, 0⟩ (.parameterMismatch 0 (var 17) (var 12)))
      ∧ ((ofDeclarations (measuring ++ [measured])).check names .fast).result
        = .error [.located ⟨0, 0⟩ (.parameterMismatch 0 (var 17) (var 12))] := by
  have hint : ∀ ρ, (type 0 []).Renamed ρ (type 0 []) := fun _ => .type rfl .nil
  refine ⟨⟨⟨hint _, ⟨⟨?_, trivial⟩, hint _⟩, trivial⟩, hint _⟩, by decide, by decide, ?_, ?_, ?_⟩
  · exact .type rfl (.cons (.access rfl rfl) .nil)
  · cbv
  · cbv
  · cbv

end Schema

end DepSchema
