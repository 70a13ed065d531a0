/-
DepSchema.Proofs.Instantiation.Supplied — what is declared in one place is supplied in another.

Variables are declared one after the other where nothing else is in scope, and in another scope
values are supplied for them that pass one after the other. Then the substitution of the values for
the variables takes the scope of the declaration to the other scope. For a variable alone this is
what was checked of its value. For a field of it, the value is looked into: it is a variable with
fields, which has that field as well, or a constructed value, whose fields were checked in the same
way; in both cases the type of the field becomes the type against which its value passes.

The names of the variables must differ. The declaration reads a name that occurs twice as the later
variable only in what follows, and the substitution reads it so everywhere.

Main result: `carries_of_checkParams`.
-/
import DepSchema.Proofs.Instantiation.Values

namespace DepSchema

open Substitution (Becomes BecomeAll Tracks)

/-! ## §1. Declared variables. -/

namespace Sorts

variable {Γ : Sorts} {vars : List Variable} {n : Symbol}

/-- A sort that is known is that of a declared variable, or it was known before. -/
theorem of_declare {κ : ValueSort} : ∀ {Γ : Sorts}, Γ.declare vars n = some κ →
    (∃ v ∈ vars, v.name.name = n ∧ v.type.sort? = some κ) ∨ Γ n = some κ := by
  induction vars with
  | nil => exact fun h => .inr h
  | cons v vars ih =>
    intro Γ h
    rcases ih h with ⟨w, hw, hname, hκ⟩ | h
    · exact .inl ⟨w, List.mem_cons_of_mem _ hw, hname, hκ⟩
    · have h : (if n = v.name.name then v.type.sort? else Γ n) = some κ := h
      split at h
      · next heq => exact .inl ⟨v, List.mem_cons_self, heq.symm, h⟩
      · exact .inr h

theorem declare_of_notMem (h : n ∉ Variable.names vars) : ∀ {Γ : Sorts},
    Γ.declare vars n = Γ n := by
  induction vars with
  | nil => exact rfl
  | cons v vars ih =>
    intro Γ
    rw [Variable.names, List.map_cons, List.mem_cons, not_or] at h
    show declare (Γ.bind v.name.name v.type.sort?) vars n = _
    rw [ih h.2, Sorts.bind, if_neg h.1]

theorem declare_of_mem (hnodup : (Variable.names vars).Nodup) : ∀ {Γ : Sorts},
    ∀ v ∈ vars, Γ.declare vars v.name.name = v.type.sort? := by
  induction vars with
  | nil => exact fun v hv => absurd hv List.not_mem_nil
  | cons v vars ih =>
    intro Γ w hw
    obtain ⟨hnotMem, hnodup⟩ := List.nodup_cons.mp hnodup
    rcases List.mem_cons.mp hw with rfl | hw
    · show declare (Γ.bind w.name.name w.type.sort?) vars w.name.name = _
      rw [declare_of_notMem hnotMem, Sorts.bind, if_pos rfl]
    · exact ih hnodup w hw

/-- What is known behind the first of some variables with different names is known behind all. -/
theorem declare_mono {others : List Variable}
    (hnodup : (Variable.names (vars ++ others)).Nodup) {κ : ValueSort}
    (h : Sorts.none.declare vars n = some κ) :
    Sorts.none.declare (vars ++ others) n = some κ := by
  rcases of_declare h with ⟨v, hv, rfl, hκ⟩ | h
  · rw [declare_of_mem hnodup v (List.mem_append_left _ hv), hκ]
  · cases h

end Sorts

/-- What a name stands for is a declared variable, or it stood for that before. -/
theorem Checking.of_find?_declare {vars : List Variable} {n : Symbol} {b : Binding} :
    ∀ {s : Checking}, s.scopes.frames ≠ [] → (s.declare vars).scopes.find? n = some b →
      (∃ v ∈ vars, v.name.name = n ∧ b = .value v.type) ∨ s.scopes.find? n = some b := by
  induction vars with
  | nil => exact fun _ h => .inr h
  | cons v vars ih =>
    intro s hs h
    rw [declare_cons] at h
    rcases ih (Scopes.bind_open hs _ _) h with ⟨w, hw, hname, hb⟩ | h
    · exact .inl ⟨w, List.mem_cons_of_mem _ hw, hname, hb⟩
    · rw [find?_declare_one hs] at h
      split at h
      · next heq => exact .inl ⟨v, List.mem_cons_self, heq.symm, (Option.some.inj h).symm⟩
      · exact .inr h

namespace Substitution

variable {σ : Substitution} {vars : List Variable} {ps : List Expr}

theorem supply_append (others : List Variable) (qs : List Expr) : ∀ {σ : Substitution}
    {ps : List Expr}, ps.length = vars.length →
      supply σ (vars ++ others) (ps ++ qs) = supply (supply σ vars ps) others qs := by
  induction vars with
  | nil =>
    intro σ ps h
    rw [List.length_eq_zero_iff.mp h]
    rfl
  | cons v vars ih =>
    intro σ ps h
    cases ps with
    | nil => cases h
    | cons p ps => exact ih (by simpa using h)

theorem find?_supply_of_notMem {n : Symbol} (h : n ∉ Variable.names vars) :
    ∀ {σ : Substitution} {ps : List Expr}, σ.scopes.frames ≠ [] →
      (supply σ vars ps).find? n = σ.find? n := by
  induction vars with
  | nil => exact fun _ => rfl
  | cons v vars ih =>
    intro σ ps hσ
    rw [Variable.names, List.map_cons, List.mem_cons, not_or] at h
    cases ps with
    | nil => rfl
    | cons p ps =>
      show (supply (σ.bind v.name.name p) vars ps).find? n = _
      rw [ih h.2 (bind_open hσ _ _), find?_bind hσ, if_neg h.1]

/-- For each of some variables with different names stands what is supplied for it. -/
theorem forall₂_find?_supply (hnodup : (Variable.names vars).Nodup) :
    ∀ {σ : Substitution} {ps : List Expr}, σ.scopes.frames ≠ [] → ps.length = vars.length →
      List.Forall₂ (fun v p => (supply σ vars ps).find? v.name.name = some p) vars ps := by
  induction vars with
  | nil =>
    intro σ ps _ h
    rw [List.length_eq_zero_iff.mp h]
    exact .nil
  | cons v vars ih =>
    intro σ ps hσ h
    obtain ⟨hnotMem, hnodup⟩ := List.nodup_cons.mp hnodup
    cases ps with
    | nil => cases h
    | cons p ps =>
      refine .cons ?_ (ih hnodup (bind_open hσ _ _) (by simpa using h))
      show (supply (σ.bind v.name.name p) vars ps).find? v.name.name = _
      rw [find?_supply_of_notMem hnotMem (bind_open hσ _ _), find?_bind hσ, if_pos rfl]

end Substitution

/-! ## §2. What is supplied for one of the variables. -/

namespace Typing

variable {c : Setting} {t : Checking}

/-- What is supplied for one of some variables passes against its type, where the variables before
it stand for what is supplied for them. -/
theorem exists_of_checkParams (hc : c.oracle = Structural.oracle) (ht : t.Outer)
    {R : Variable → Expr → Prop} {v : Variable} {after : List Variable} (before : List Variable) :
    ∀ {σ : Substitution} {ps : List Expr}, List.Forall₂ R (before ++ v :: after) ps →
      (checkParams σ (before ++ v :: after) ps c t).1 = .ok () →
        ∃ qs p type, List.Forall₂ R before qs ∧ R v p
          ∧ (Substitution.supply σ before qs).applyType v.type = .ok type
          ∧ (checkValue p type c t).1 = .ok () := by
  induction before with
  | nil =>
    intro σ ps hR h
    cases hR with
    | @cons _ p _ ps hp hps =>
      obtain ⟨type, htype, hvalue, -⟩ := (checkParams_cons_iff hc ht).mp h
      exact ⟨[], p, type, .nil, hp, htype, hvalue⟩
  | cons w before ih =>
    intro σ ps hR h
    cases hR with
    | @cons _ q _ ps hq hps =>
      obtain ⟨_, -, -, hrest⟩ := (checkParams_cons_iff hc ht).mp h
      obtain ⟨qs, p, type, hqs, hp, htype, hvalue⟩ := ih hps hrest
      exact ⟨q :: qs, p, type, .cons hq hqs, hp, htype, hvalue⟩

end Typing

/-! ## §3. Fields of what is supplied. -/

namespace Substitution

open Typing

/-- What stands for a value of the type is steady, and it passes against whatever the type becomes.
-/
def Lands (c : Setting) (Γ : Sorts) (t : Checking) (σ : Substitution) (x : Access)
    (type : TypeExpr) : Prop :=
  ∃ e, σ.apply (.access x) = .ok e ∧ e.steady c.schema = true ∧ ∀ other : TypeExpr,
    Becomes c.schema Γ t.sorts σ .type type.toExpr other.toExpr →
      (checkValue e other c t).1 = .ok ()

variable {c : Setting} {σ : Substitution} {Γ : Sorts} {t : Checking} {x : Access} {κ : ValueSort}
  {type type' other : TypeExpr} {f : Ident}

/-- Fields of a variable are those fields of what stands for it. -/
theorem applyAll_earlier {m : Message} {field : Symbol} {e : Expr}
    (hx : σ.apply (.access x) = .ok e) {qs : List Expr}
    (h : List.Forall₂ (fun v q => e.follow [v.name] = .ok q) (m.before field) qs) :
    σ.applyAll (m.earlier x field) = .ok qs := by
  unfold Message.earlier
  generalize m.before field = vars at h ⊢
  induction h with
  | nil => rfl
  | @cons v q vars qs hq _ ih =>
    have hfirst : σ.apply (.access (x.field v.name)) = .ok q := (apply_longer hx v.name []).trans hq
    rw [List.map_cons, applyAll, hfirst, ih]
    rfl

section

variable (hc : c.oracle = Structural.oracle) (hp : c.schema.Proper) (hw : c.schema.WellSorted)
  (ht : t.WellSorted c) (hσ : σ.Respects c.schema Γ t.sorts)
  (hx : (Expr.access x).HasSort c.schema Γ (.value κ)) (hκ : type.sort? = some κ)
  (hfield : c.schema.HasField x type f type')
  (hother : Becomes c.schema Γ t.sorts σ .type type.toExpr other.toExpr)

include hp hw hσ hx hκ hfield hother

/-- If a variable with fields stands for the value, it has the field as well, and the one type of
the field becomes the other one. -/
theorem exists_accessType_field {y : Access} (hxy : σ.apply (.access x) = .ok (.access y))
    (hy : (accessType y c t).1 = .ok (.value other)) :
    ∃ other', (accessType (y.field f) c t).1 = .ok (.value other')
      ∧ Becomes c.schema Γ t.sorts σ .type type'.toExpr other'.toExpr := by
  obtain ⟨m, declared, hm, hdeclared, happly⟩ := id hfield
  have hname := TypeExpr.name_of_sort? hκ
  have hm' := hname ▸ hm
  obtain ⟨ks, hks, hbefore⟩ := Schema.exists_kinds_before hp hx hm' f.name
  -- the way to the field starts at the variable, whatever its place in the text is
  have hybase : (Expr.access ((Access.ofVar y.var).extend y.fields)).HasSort c.schema t.sorts
      (.value κ) := by
    have hysort := (hx.of_apply hp.builtin hσ hxy)
    cases hysort with
    | access hvar hfields => exact .access hvar hfields
  obtain ⟨ks', hks', hbefore'⟩ := Schema.exists_kinds_before hp hybase hm' f.name
  rw [hks] at hks'
  cases hks'
  have hall : σ.applyAll (m.earlier x f.name) = .ok (m.earlier y f.name) := by
    refine applyAll_earlier hxy ?_
    rw [Message.earlier, List.forall₂_map_right_iff, List.forall₂_same]
    exact fun _ _ => rfl
  have hequal : List.Forall₂ (fun u w => Structural.equal u w = true) (m.earlier y f.name)
      (m.earlier ((Access.ofVar y.var).extend y.fields) f.name) := by
    rw [Message.earlier, Message.earlier, List.forall₂_map_left_iff, List.forall₂_map_right_iff,
      List.forall₂_same]
    exact fun _ _ => Expr.Access.sameAs_iff.mpr ⟨rfl, rfl⟩
  obtain ⟨declared', other', hdeclared', happly', hbecomes⟩ := Schema.becomes_of_hasField hp hw hσ
    hfield hm hother hks (becomeAll_of_equal hp.builtin hσ hbefore hall hbefore' hequal)
  rw [(hother.params hp.builtin hσ).1] at hm
  refine ⟨other', (accessType_extend_ok_iff hy [f] (.value other')).mpr ⟨other', rfl,
    .field ⟨m, declared', hm, hdeclared', ?_⟩ .here⟩, hbecomes⟩
  rw [Message.bindAll_eq_supply]
  exact happly'

include hc ht in
/-- If a constructed value stands for the value, the field was checked with it. -/
theorem exists_value_field {span : Span} {ctor : Ident} {inits : List (Named Expr)}
    (hxy : σ.apply (.access x) = .ok (.constructed span ctor inits))
    (hy : (checkValue (.constructed span ctor inits) other c t).1 = .ok ()) :
    ∃ q other', Named.find? inits f.name = some q ∧ (checkValue q other' c t).1 = .ok ()
      ∧ Becomes c.schema Γ t.sorts σ .type type'.toExpr other'.toExpr := by
  obtain ⟨m, declared, hm, hdeclared, happly⟩ := id hfield
  have hm' := TypeExpr.name_of_sort? hκ ▸ hm
  obtain ⟨ks, hks, hbefore⟩ := Schema.exists_kinds_before hp hx hm' f.name
  obtain ⟨owner, ctor', τ, values, hfound, hname, -, hopening, -, hsupplied, hchecked⟩ :=
    (checkValue_constructed_iff hc ht.outer).mp hy
  -- the value is one of that message
  have howner := Schema.type?_of_constructor? hfound
  rw [hname, ← (hother.params hp.builtin hσ).1, hm] at howner
  cases howner
  obtain rfl := List.mem_singleton.mp (Schema.of_constructor? hfound).2.1
  obtain rfl := Option.some.inj hopening
  obtain ⟨after, hfields⟩ := Message.exists_fields_eq hdeclared
  have hsupplied : List.Forall₂ (fun v value => Named.find? inits v.name.name = some value)
      m.fields values := hsupplied
  rw [hfields] at hsupplied
  have hchecked : (checkParams (bindDeps m.deps other.params) m.fields values c t).1 = .ok () :=
    hchecked
  rw [hfields] at hchecked
  obtain ⟨qs, q, type'', hqs, hq, htype'', hvalue⟩ :=
    exists_of_checkParams hc ht.outer (m.before f.name) hsupplied hchecked
  have hall : σ.applyAll (m.earlier x f.name) = .ok qs := by
    refine applyAll_earlier hxy (hqs.imp fun v value hfind => ?_)
    rw [Expr.follow, hfind]
    exact Expr.follow_nil value
  obtain ⟨_, other', hdeclared', happly', hbecomes⟩ := Schema.becomes_of_hasField hp hw hσ hfield
    hm hother hks (becomeAll_of_apply hp.builtin hσ hbefore hall)
  rw [hdeclared] at hdeclared'
  cases hdeclared'
  rw [bindDeps_eq_supply, happly'] at htype''
  cases htype''
  have hdname : declared.name.name = f.name := by simpa using List.find?_some hdeclared
  exact ⟨q, _, hdname ▸ hq, hvalue, hbecomes⟩

end

section

variable (hc : c.oracle = Structural.oracle) (hp : c.schema.Proper) (hw : c.schema.WellSorted)
  (ht : t.WellSorted c)
  (hfree : ∀ n f, c.schema.function? n = some f → t.scopes.find? n = none)
  (hσ : σ.Respects c.schema Γ t.sorts)

include hc hp hw ht hfree hσ

/-- **If what stands for a value passes, what stands for its field passes.** -/
theorem Lands.field (h : Lands c Γ t σ x type)
    (hx : (Expr.access x).HasSort c.schema Γ (.value κ)) (hκ : type.sort? = some κ)
    (htype : type.toExpr.HasSort c.schema Γ .type) (hfield : c.schema.HasField x type f type') :
    Lands c Γ t σ (x.field f) type' := by
  obtain ⟨e, he, hsteady, hvalue⟩ := h
  obtain ⟨κ', hx', hκ', htype'⟩ := hfield.sorted hp hw hx hκ htype
  obtain ⟨q, hq, -⟩ := hx'.apply hp.builtin hσ
  have hfollow : e.follow [f] = .ok q := (apply_longer he f []).symm.trans hq
  obtain ⟨_, hother, -⟩ := htype.apply hp.builtin hσ
  obtain ⟨ps, -, rfl⟩ := of_apply_type hother
  have hbecomes : Becomes c.schema Γ t.sorts σ .type type.toExpr
      (TypeExpr.toExpr ⟨type.span, type.ident, ps⟩) := becomes_of_apply hp.builtin hσ htype hother
  have hpasses := hvalue _ hbecomes
  refine ⟨q, hq, ?_⟩
  cases e with
  | access y =>
    cases hfollow
    refine ⟨rfl, fun other hother' => ?_⟩
    obtain ⟨actual, hy, hequal⟩ := (checkValue_access_iff hc ht.outer).mp hpasses
    have hactual := hbecomes.trans_equal hp.builtin hσ (hasSort_type_of_accessType hp hw ht hy)
      hequal
    obtain ⟨other', hy', hbecomes'⟩ :=
      exists_accessType_field hp hw hσ hx hκ hfield hactual he hy
    exact (checkValue_access_iff hc ht.outer).mpr
      ⟨other', hy', hother'.unique hp.builtin hσ hbecomes'⟩
  | constructed span ctor inits =>
    obtain ⟨value, other', hfind, hvalue', hbecomes'⟩ :=
      exists_value_field hc hp hw ht hσ hx hκ hfield hbecomes he hpasses
    have hq' : q = value := by
      unfold Expr.follow at hfollow
      rw [hfind] at hfollow
      exact (Except.ok.inj (hfollow.symm.trans value.follow_nil))
    subst hq'
    simp only [Expr.steady, Bool.and_eq_true] at hsteady
    obtain ⟨init, hinit, -, rfl⟩ := Named.exists_of_find? hfind
    have hinit' := Expr.steadyFields_iff.mp hsteady.2 init hinit
    exact ⟨hinit', fun other hother' => checkValue_of_becomes hc hp hw ht hfree hinit'
      (becomes_of_equal hbecomes'.right hother'.right (hbecomes'.unique hp.builtin hσ hother'))
      hvalue'⟩
  | _ => cases hfollow

/-- What stands for a value passes, wherever its fields lead. -/
theorem Lands.along {fields : List Ident} (hpath : c.schema.Path x type fields other) :
    ∀ {κ : ValueSort}, Lands c Γ t σ x type →
      (Expr.access x).HasSort c.schema Γ (.value κ) → type.sort? = some κ →
      type.toExpr.HasSort c.schema Γ .type → Lands c Γ t σ (x.extend fields) other := by
  induction hpath with
  | here =>
    intro κ h _ _ _
    rwa [Access.extend_nil]
  | @field base _ _ _ f fs hfield _ ih =>
    intro κ h hx hκ htype
    obtain ⟨κ', hx', hκ', htype'⟩ := hfield.sorted hp hw hx hκ htype
    have hnext := ih (h.field hc hp hw ht hfree hσ hx hκ htype hfield) hx' hκ' htype'
    have hextend : (base.field f).extend fs = base.extend (f :: fs) := by
      simp [Access.extend, Access.field]
    rwa [hextend] at hnext

end

/-! ## §4. The scope of the declaration. -/

theorem apply_bound {a : Access} {e : Expr} (h : σ.find? a.var.name = some e) :
    σ.apply (.access a) = e.follow a.fields := by
  unfold apply
  rw [h]

theorem supply_open {vars : List Variable} : ∀ {σ : Substitution} {ps : List Expr},
    σ.scopes.frames ≠ [] → (supply σ vars ps).scopes.frames ≠ [] := by
  induction vars with
  | nil => exact fun h => h
  | cons v vars ih =>
    intro σ ps h
    cases ps with
    | nil => exact h
    | cons p ps => exact ih (bind_open h _ _)

section

variable {vars : List Variable} {ps : List Expr} (hc : c.oracle = Structural.oracle)
  (hp : c.schema.Proper) (hw : c.schema.WellSorted) (ht : t.WellSorted c)
  (hfree : ∀ n f, c.schema.function? n = some f → t.scopes.find? n = none)
  (hnodup : (Variable.names vars).Nodup)
  (hsorted : Variable.WellSorted c.schema .none vars)
  (hsort : ∀ v ∈ vars, v.type.sort?.isSome = true) (hlength : ps.length = vars.length)
  (hsteady : ∀ p ∈ ps, p.steady c.schema = true)
  (hchecked : (checkParams .empty vars ps c t).1 = .ok ())

include hc hp hw ht hfree hnodup hsorted hsort hlength hsteady hchecked

/-- What is supplied for a variable passes against whatever its type becomes. -/
theorem lands_of_checkParams {v : Variable} (hv : v ∈ vars) {x : Ident}
    (hx : x.name = v.name.name) :
    Lands c (Sorts.none.declare vars) t (supply .empty vars ps) (.ofVar x) v.type := by
  have hvalues := forall₂_of_checkParams hc ht.outer
    (fun p hp' => (sorts_of_steady hc hp ht.toSorted p (hsteady p hp')).1) hsort hlength hchecked
  obtain ⟨ks, hks, hall⟩ := exists_kinds hvalues
  have hσ := (tracks_empty.supply hks (becomeAll_self hp.builtin hall)).respects
  have hfind := forall₂_find?_supply hnodup empty_open hlength
  have hR := hfind.mp (fun _ _ hfind hboth => And.intro hfind hboth)
    ((List.forall₂_and_left ps vars).mpr ⟨hsteady, hvalues.flip⟩).flip
  obtain ⟨before, after, rfl⟩ := List.append_of_mem hv
  generalize hσ' : supply empty (before ++ v :: after) ps = σ at hR hσ ⊢
  obtain ⟨qs, p, type, hbefore, ⟨hvfind, hvsteady, -⟩, htype, hvalue⟩ :=
    exists_of_checkParams hc ht.outer before hR hchecked
  have hvtype := (Variable.wellSorted_append before).mp hsorted
  refine ⟨p, ?_, hvsteady, fun other hother => ?_⟩
  · rw [apply_bound (a := .ofVar x) (hx ▸ hvfind)]
    exact p.follow_nil
  -- the variables before are found alike among all and among themselves
  have hnodup' : (Variable.names before).Nodup := by
    rw [Variable.names, List.map_append] at hnodup
    exact (List.nodup_append.mp hnodup).1
  have htracks : Tracks c.schema (Sorts.none.declare before) t.sorts t.sorts empty
      (supply .empty before qs) σ := by
    refine ⟨supply_open empty_open, hσ' ▸ supply_open empty_open, fun n κ hn => ?_⟩
    rcases Sorts.of_declare hn with ⟨w, hw', rfl, hκ⟩ | hn
    · have hboth := hbefore.mp (fun _ _ hfound hall => And.intro hfound hall)
        (forall₂_find?_supply hnodup' empty_open hbefore.length_eq.symm)
      obtain ⟨q, -, ⟨hq, -, κ', hκ', hqsort⟩, hq'⟩ := forall₂_mem_left hboth hw'
      rw [hκ] at hκ'
      cases hκ'
      exact ⟨q, q, hq', hq, becomes_self hp.builtin hqsort⟩
    · cases hn
  have hempty : empty.Respects c.schema t.sorts t.sorts := respects_empty fun _ _ h => h
  obtain ⟨u, w, hu, hw', hbecomes⟩ := htracks.applyType hp.builtin hempty hvtype.2.1
  rw [htype] at hu
  cases hu
  have hvtype' : v.type.toExpr.HasSort c.schema (Sorts.none.declare (before ++ v :: after)) .type :=
    hvtype.2.1.mono hp.builtin fun n κ hn => Sorts.declare_mono hnodup hn
  have hequal := (becomes_of_apply hp.builtin hσ hvtype' (applyType_eq_ok_iff.mp hw')).unique
    hp.builtin hσ hother
  exact checkValue_of_becomes hc hp hw ht hfree hvsteady
    (hbecomes.trans_equal hp.builtin hempty hother.right hequal) hvalue

/-- **The instances of declared variables take their scope along**: the substitution of values that
pass, for variables of different names, takes the scope of the variables to that of the values. -/
theorem carries_of_checkParams {s : Checking} (hs : s.Blank) :
    Carries c (supply .empty vars ps) (s.declare vars) t := by
  have hsorts : (s.declare vars).sorts = Sorts.none.declare vars := by
    rw [Checking.sorts_declare vars hs.toReady, hs.sorts]
  obtain ⟨ks, hks, hall⟩ := exists_kinds (forall₂_of_checkParams hc ht.outer
    (fun p hp' => (sorts_of_steady hc hp ht.toSorted p (hsteady p hp')).1) hsort hlength hchecked)
  have hσ := (tracks_empty.supply hks (becomeAll_self hp.builtin hall)).respects
  have hdeclared : ∀ {n b}, (s.declare vars).scopes.find? n = some b →
      ∃ v ∈ vars, v.name.name = n ∧ b = .value v.type := by
    intro n b hfind
    rcases Checking.of_find?_declare hs.isOpen hfind with hv | hnone
    · exact hv
    · rw [hs.empty n] at hnone
      cases hnone
  have hvtype : ∀ v ∈ vars, v.type.toExpr.HasSort c.schema (Sorts.none.declare vars) .type := by
    intro v hv
    obtain ⟨before, after, rfl⟩ := List.append_of_mem hv
    exact ((Variable.wellSorted_append before).mp hsorted).2.1.mono hp.builtin
      fun n κ hn => Sorts.declare_mono hnodup hn
  have hsource : (s.declare vars).WellSorted c := by
    refine ⟨⟨(hs.toReady.declare vars).outer, fun n type hfind => ?_, fun n ft hfind => ?_⟩,
      fun n type hfind => ?_⟩ <;>
      obtain ⟨v, hv, -, hb⟩ := hdeclared hfind <;> cases hb
    · exact hsort v hv
    · rw [hsorts]
      exact hvtype v hv
  refine carries_of_access hc hp hw hsource ht hfree (hsorts ▸ hσ)
    fun {a type other e} haccess hbecomes happly => ?_
  rw [hsorts] at hbecomes
  obtain ⟨origin, hfind, hpath⟩ := exists_path_of_accessType haccess
  obtain ⟨v, hv, hname, hb⟩ := hdeclared hfind
  cases hb
  have hlands := lands_of_checkParams hc hp hw ht hfree hnodup hsorted hsort hlength hsteady
    hchecked hv (x := a.var) hname.symm
  obtain ⟨κ, hκ⟩ := Option.isSome_iff_exists.mp (hsort v hv)
  have hvar : (Expr.access (.ofVar a.var)).HasSort c.schema (Sorts.none.declare vars)
      (.value κ) := by
    refine .access ?_ rfl
    show Sorts.none.declare vars a.var.name = some κ
    rw [← hname, Sorts.declare_of_mem hnodup v hv, hκ]
  obtain ⟨e', he', hsteady', hvalue⟩ :=
    hlands.along hc hp hw ht hfree hσ hpath hvar hκ (hvtype v hv)
  -- the access is the same as the path from its variable, up to its place in the text
  obtain ⟨p, -, hp'⟩ := forall₂_mem_left (forall₂_find?_supply hnodup empty_open hlength) hv
  rw [hname] at hp'
  have hsame := (apply_bound (a := (Access.ofVar a.var).extend a.fields) hp').symm.trans he'
  rw [apply_bound hp'] at happly
  cases happly.symm.trans hsame
  exact ⟨hsteady', hvalue other hbecomes⟩

end

end Substitution

end DepSchema
