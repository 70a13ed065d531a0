/-
DepSchema.Proofs.Oracle.Comparison — comparing types is comparing expressions.

Two types are compared in two places. The check takes them apart: names and numbers of parameters
first, then the parameters in pairs, where it goes into types and asks the oracle about values. The
structural oracle folds two whole trees and compares those. Folding makes no type out of anything
else and leaves a type its name and its number of parameters, so a type can be taken apart before
folding as well as after it, at any depth, and both come to the same answer.

Main results: `settles_requireSameType` and `sameType_iff_equal`.
-/
import DepSchema.Proofs.Dispatch.Choice
import DepSchema.Proofs.Oracle.Equivalence

namespace DepSchema

/-! ## §1. Checks that settle a question. -/

namespace Check

variable {α β : Type} {c : Setting} {s : Checking} {p q : Prop}

/-- From every state, the check gives `a` exactly if `p`. -/
def Settles (c : Setting) (x : Check α) (a : α) (p : Prop) : Prop := ∀ s, (x c s).1 = .ok a ↔ p

theorem Settles.gives {x : Check α} {a : α} (h : Settles c x a p) (hp : p) : Gives c x a :=
  fun s => (h s).mpr hp

theorem Gives.settles {x : Check α} {a : α} (h : Gives c x a) : Settles c x a True :=
  fun s => iff_true_intro (h s)

theorem Settles.require [Decidable p] (span : Span) (cause : Cause) :
    Settles c (if ¬p then Check.fail span cause else pure ()) () p := by
  intro s
  split
  · next hp => exact ⟨nofun, fun h => absurd h hp⟩
  · next hp => exact ⟨fun _ => not_not.mp hp, fun _ => rfl⟩

theorem Settles.guard [Decidable p] {span : Span} {cause : Cause} {f : α → Check β} {x : Check β}
    {b : β} (hx : p → Settles c x b q) :
    Settles c (if ¬p then Check.fail span cause >>= f else x) b (p ∧ q) := by
  intro s
  split
  · next hp => exact ⟨nofun, fun h => absurd h.1 hp⟩
  · next hp =>
    have hp := not_not.mp hp
    exact (hx hp s).trans (iff_and_self.mpr fun _ => hp)

theorem Settles.congr {x : Check α} {a : α} (h : Settles c x a p) (hpq : p ↔ q) :
    Settles c x a q :=
  fun s => (h s).trans hpq

/-- **Two steps settle both questions**, if only `a` lets the second one give its result. -/
theorem Settles.bind {x : Check α} {f : α → Check β} {a : α} {b : β} (hx : Settles c x a p)
    (hother : ∀ a', a' ≠ a → Settles c (f a') b False) (hf : p → Settles c (f a) b q) :
    Settles c (x >>= f) b (p ∧ q) := by
  intro s
  rcases hrun : x c s with ⟨d | a', t⟩
  · -- the first step failed, so that `p` is false
    rw [bind_error hrun]
    have hp : ¬p := fun hp => by
      have hgiven := (hx s).mpr hp
      rw [hrun] at hgiven
      cases hgiven
    exact ⟨nofun, fun hpq => absurd hpq.1 hp⟩
  · rw [bind_ok hrun]
    have hfirst := hx s
    rw [hrun, Except.ok.injEq] at hfirst
    by_cases ha : a' = a
    · have hp := hfirst.mp ha
      subst ha
      exact (hf hp t).trans (iff_and_self.mpr fun _ => hp)
    · have hp : ¬p := fun hp => ha (hfirst.mpr hp)
      exact ⟨fun hgiven => ((hother a' ha t).mp hgiven).elim, fun hpq => absurd hpq.1 hp⟩

theorem Settles.seq {x : Check Unit} {y : Check β} {b : β} (hx : Settles c x () p)
    (hy : p → Settles c y b q) : Settles c (x >>= fun _ => y) b (p ∧ q) :=
  hx.bind (fun _ hne => absurd rfl hne) hy

theorem Settles.askEqual (hc : c.oracle = Structural.oracle) (expected got : Expr) :
    Settles c (askEqual expected got) true (Structural.equal expected got = true) := by
  intro s
  rw [Gives.askEqual hc expected got s, Except.ok.injEq]

/-- From the state `s` the check gives `a` if `p`, and fails otherwise. -/
def GivesIf (c : Setting) (s : Checking) (x : Check α) (p : Prop) (a : α) : Prop :=
  ∀ a', (x c s).1 = .ok a' ↔ p ∧ a = a'

/-- A check without a result gives that if it passes. -/
theorem GivesIf.passing (x : Check Unit) : GivesIf c s x ((x c s).1 = .ok ()) () :=
  fun () => (and_iff_left rfl).symm

theorem GivesIf.pure (a : α) : GivesIf c s (pure a) True a :=
  fun a' => (Except.ok.injEq a a').to_iff.trans (iff_of_eq (true_and _)).symm

theorem Settles.givesIf {x : Check Unit} (h : Settles c x () p) : GivesIf c s x p () :=
  fun () => (h s).trans (and_iff_left rfl).symm

theorem GivesIf.passes_iff {x : Check Unit} (h : GivesIf c s x p ()) :
    (x c s).1 = .ok () ↔ p :=
  (h ()).trans (and_iff_left rfl)

theorem GivesIf.congr {x : Check α} {a : α} (h : GivesIf c s x p a) (hpq : p ↔ q) :
    GivesIf c s x q a :=
  fun a' => (h a').trans (and_congr_left' hpq)

/-- **Two steps give a result if both do**: the second one is asked in the state that the first one
leaves. -/
theorem GivesIf.seq {x : Check α} {f : α → Check β} {a : α} {b : β} (hx : GivesIf c s x p a)
    (hf : ∀ t, x c s = (.ok a, t) → GivesIf c t (f a) q b) : GivesIf c s (x >>= f) (p ∧ q) b := by
  intro b'
  rcases hrun : x c s with ⟨d | a', t⟩
  · rw [bind_error hrun]
    have hp : ¬p := fun hp => by
      have hgiven := (hx a).mpr ⟨hp, rfl⟩
      rw [hrun] at hgiven
      cases hgiven
    exact ⟨nofun, fun h => absurd h.1.1 hp⟩
  · obtain ⟨hp, rfl⟩ := (hx a').mp (congrArg Prod.fst hrun)
    rw [bind_ok hrun, hf t hrun b']
    simp [hp]

end Check

/-! ## §2. Types and what they are folded to. -/

namespace Expr

theorem type?_evalBinary (span : Span) (op : BinaryOp) (l r : Expr) :
    (evalBinary span op l r).type? = none := by
  unfold evalBinary
  split
  · split <;> rfl
  · rfl

theorem type?_evalUnary (span : Span) (op : UnaryOp) (x : Expr) :
    (evalUnary span op x).type? = none := by
  unfold evalUnary
  split <;> rfl

/-- Nothing is folded to a type but a type. -/
theorem type?_fold (e : Expr) :
    e.fold.type? = e.type?.map fun t => ⟨t.span, t.ident, foldAll t.params⟩ := by
  cases e with
  | binary span op l r => exact type?_evalBinary _ _ _ _
  | unary span op x => exact type?_evalUnary _ _ _
  | _ => rfl

theorem type?_isSome_of_sameAs {e e' : Expr} (h : e.sameAs e' = true) :
    e.type?.isSome = e'.type?.isSome := by
  cases e <;> cases e' <;> first | rfl | cases h

/-- A type is equal to nothing but a type. -/
theorem type?_isSome_of_equal {e e' : Expr} (h : Structural.equal e e' = true) :
    e.type?.isSome = e'.type?.isSome := by
  have hsome := type?_isSome_of_sameAs h
  rwa [type?_fold, type?_fold, Option.isSome_map, Option.isSome_map] at hsome

theorem length_of_allSameAs : ∀ {l l' : List Expr}, allSameAs (foldAll l) (foldAll l') = true →
    l.length = l'.length
  | [], [], _ => rfl
  | [], _ :: _, h => by cases h
  | _ :: _, [], h => by cases h
  | e :: es, e' :: es', h => by
    simp only [foldAll, allSameAs, Bool.and_eq_true] at h
    rw [List.length_cons, List.length_cons, length_of_allSameAs h.2]

/-- Types are equal when they have the same head and equal parameters. -/
theorem equal_type_iff {s s' : Span} {i i' : Ident} {ps ps' : List Expr} :
    Structural.equal (.type s i ps) (.type s' i' ps') = true ↔
      (i.name = i'.name ∧ ps.length = ps'.length)
        ∧ allSameAs (foldAll ps) (foldAll ps') = true := by
  simp only [Structural.equal, fold, sameAs, Bool.and_eq_true, beq_iff_eq]
  constructor
  · rintro ⟨hname, hparams⟩
    exact ⟨⟨hname, length_of_allSameAs hparams⟩, hparams⟩
  · rintro ⟨⟨hname, -⟩, hparams⟩
    exact ⟨hname, hparams⟩

end Expr

/-! ## §3. The comparison of types. -/

namespace Typing

open Check

variable {c : Setting}

theorem settles_requireSameHead (t t' : TypeExpr) (span : Span) :
    Settles c (requireSameHead t t' span) ()
      (t.name = t'.name ∧ t.params.length = t'.params.length) := by
  unfold requireSameHead
  exact .guard fun _ => .require _ _

/-- A value is compared by the oracle, and no type is equal to it. -/
theorem settles_askUnlessType (hc : c.oracle = Structural.oracle) {e g : Expr}
    (he : e.type? = none) :
    Settles c (if g.type?.isSome then pure false else askEqual e g) true
      (Structural.equal e g = true) := by
  split
  · next hg =>
    refine fun s => ⟨nofun, fun h => ?_⟩
    have hsome := Expr.type?_isSome_of_equal h
    rw [he, hg] at hsome
    cases hsome
  · exact .askEqual hc e g

mutual

/-- **Two parameters pass exactly if they are equal**, be they types or values. -/
theorem settles_sameParam (hc : c.oracle = Structural.oracle) (span : Span) : ∀ e g : Expr,
    Settles c (sameParam span e g) true (Structural.equal e g = true)
  | .type s i ps, g => by
    unfold sameParam
    cases g with
    | type s' i' ps' =>
      have hhead := settles_requireSameHead (c := c) ⟨s, i, ps⟩ ⟨s', i', ps'⟩ span
      refine Settles.congr (hhead.seq fun h => ?_) Expr.equal_type_iff.symm
      have hparams := settles_requireSameParams hc span ps ps' h.2 0
      exact (hparams.seq fun _ => (Gives.pure true).settles).congr (and_iff_left trivial)
    | _ =>
      refine fun s => ⟨nofun, fun h => ?_⟩
      cases Expr.type?_isSome_of_equal h
  | .scalar _ _, _ => settles_askUnlessType hc rfl
  | .access _, _ => settles_askUnlessType hc rfl
  | .binary _ _ _ _, _ => settles_askUnlessType hc rfl
  | .unary _ _ _, _ => settles_askUnlessType hc rfl
  | .constructed _ _ _, _ => settles_askUnlessType hc rfl
  | .collection _ _, _ => settles_askUnlessType hc rfl
  | .call _ _ _, _ => settles_askUnlessType hc rfl

/-- **As many parameters on both sides pass exactly if all of them are equal**, in pairs. -/
theorem settles_requireSameParams (hc : c.oracle = Structural.oracle) (span : Span) :
    ∀ l l' : List Expr, l.length = l'.length → ∀ index,
      Settles c (requireSameParams span l l' index) ()
        (Expr.allSameAs (Expr.foldAll l) (Expr.foldAll l') = true)
  | [], [], _, _ => (Gives.pure ()).settles.congr (iff_of_true trivial rfl)
  | [], _ :: _, hlength, _ => by cases hlength
  | _ :: _, [], hlength, _ => by cases hlength
  | e :: es, g :: gs, hlength, index => by
    unfold requireSameParams
    have hrest := settles_requireSameParams hc span es gs (Nat.succ.inj hlength) (index + 1)
    refine Settles.congr ((settles_sameParam hc span e g).bind ?_ fun _ => hrest) ?_
    · -- parameters that differ are reported
      rintro (_ | _) hsame
      · exact fun _ => iff_false_intro nofun
      · exact absurd rfl hsame
    · rw [Expr.foldAll, Expr.foldAll, Expr.allSameAs, Bool.and_eq_true]
      rfl

end

/-- **Two types pass exactly if the oracle calls them equal** as expressions. -/
theorem settles_requireSameType (hc : c.oracle = Structural.oracle) (t t' : TypeExpr)
    (span : Span) :
    Settles c (requireSameType t t' span) () (Structural.equal t.toExpr t'.toExpr = true) :=
  ((settles_requireSameHead t t' span).seq fun h =>
    settles_requireSameParams hc span t.params t'.params h.2 0).congr Expr.equal_type_iff.symm

theorem gives_requireSameType (hc : c.oracle = Structural.oracle) {t t' : TypeExpr}
    (hname : t.name = t'.name)
    (hparams : Expr.allSameAs (Expr.foldAll t.params) (Expr.foldAll t'.params) = true)
    (span : Span) : Gives c (requireSameType t t' span) () :=
  (settles_requireSameType hc t t' span).gives
    (Expr.equal_type_iff.mpr ⟨⟨hname, Expr.length_of_allSameAs hparams⟩, hparams⟩)

/-- **The check of types and the structural oracle decide the same relation**, from every state and
whatever the oracle was asked before; where no constructed value names a field twice, it is an
equivalence. -/
theorem sameType_iff_equal (s : Schema) (span : Span) (state : Checking) (past : List Query)
    (scopes : Scopes Binding) :
    let passes (t t' : TypeExpr) : Prop :=
      (requireSameType t t' span ⟨s, Structural.oracle⟩ state).1 = .ok ()
    (∀ t t' : TypeExpr, passes t t' ↔
        Structural.oracle past (.equal t.toExpr t'.toExpr scopes) = .ok true)
      ∧ Equivalence fun t t' : { t : TypeExpr // t.toExpr.fieldsDistinct = true } =>
          passes t.val t'.val := by
  intro passes
  have hiff : ∀ t t' : TypeExpr, passes t t' ↔ Structural.equal t.toExpr t'.toExpr = true :=
    fun t t' => settles_requireSameType rfl t t' span state
  refine ⟨fun t t' => ?_, ?_⟩
  · rw [hiff, Structural.oracle, Except.ok.injEq]
  · -- an equality of what is left of the folded types
    have hcontent : ∀ t t' : { t : TypeExpr // t.toExpr.fieldsDistinct = true },
        passes t.val t'.val ↔ t.val.toExpr.fold.content = t'.val.toExpr.fold.content := by
      intro t t'
      exact (hiff t.val t'.val).trans (Expr.sameAs_iff_content
        (Expr.fieldsDistinct_fold t.property) (Expr.fieldsDistinct_fold t'.property))
    refine ⟨fun t => (hcontent t t).mpr rfl, fun {t t'} h => ?_, fun {t t' t''} h h' => ?_⟩
    · exact (hcontent t' t).mpr ((hcontent t t').mp h).symm
    · exact (hcontent t t'').mpr (((hcontent t t').mp h).trans ((hcontent t' t'').mp h'))

end Typing

end DepSchema
