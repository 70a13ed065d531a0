/-
DepSchema.Proofs.Instantiation.Tracking — expressions that follow each other under a substitution.

Where the variables of a declaration are supplied in two places, and a substitution takes the one
place to the other, it takes what is supplied in the first place to what is the same as what is
supplied in the second. Whatever is declared after them is then taken along: its type in the first
place becomes its type in the second. The type of a field is such a type, since the parameters of
the message and its fields before are supplied to it.

Main definitions: `Substitution.Becomes` and `Substitution.Tracks`. Main results: `Tracks.apply`,
`Tracks.supply` and `becomes_of_hasField`.
-/
import DepSchema.Proofs.Instantiation.Sameness
import DepSchema.Proofs.Instantiation.Telescopes

namespace DepSchema

namespace Substitution

open DepSchema.Expr (Same)

/-! ## §1. One expression becomes another. -/

/-- Both expressions are of one kind, and what `σ` makes of the first is the same as the second. -/
structure Becomes (s : Schema) (Γ Δ : Sorts) (σ : Substitution) (k : Kind) (x y : Expr) : Prop where
  left : x.HasSort s Γ k
  right : y.HasSort s Δ k
  same : ∃ x', σ.apply x = .ok x' ∧ Same x' y

section

variable {s : Schema} {Γ Δ : Sorts} {σ : Substitution} {k : Kind} {x y x' y' : Expr}

theorem becomes_of_apply (hs : ∀ n ∈ Symbol.builtins, s.type? n = none) (hσ : σ.Respects s Γ Δ)
    (hx : x.HasSort s Γ k) (h : σ.apply x = .ok y) : Becomes s Γ Δ σ k x y :=
  have hy := hx.of_apply hs hσ h
  ⟨hx, hy, y, h, .refl hy.fieldsDistinct⟩

/-- Where nothing is replaced, every expression becomes itself. -/
theorem becomes_self (hs : ∀ n ∈ Symbol.builtins, s.type? n = none) (hx : x.HasSort s Γ k) :
    Becomes s Γ Γ empty k x x :=
  becomes_of_apply hs (respects_empty fun _ _ h => h) hx (apply_empty x)

/-- What is equal to the first expression becomes the second one, too. -/
theorem Becomes.of_equal (hs : ∀ n ∈ Symbol.builtins, s.type? n = none) (hσ : σ.Respects s Γ Δ)
    (h : Becomes s Γ Δ σ k x y) (hx' : x'.HasSort s Γ k) (hequal : Structural.equal x x' = true) :
    Becomes s Γ Δ σ k x' y := by
  obtain ⟨u, hu, hsame⟩ := h.same
  obtain ⟨v, hv, hvsort⟩ := hx'.apply hs hσ
  have husort := h.left.of_apply hs hσ hu
  have hboth : Same u v := (h.left.same hx' hequal).apply hs hσ h.left hx' hu hv
  have hback := hboth.symm husort.fieldsDistinct hvsort.fieldsDistinct
  exact ⟨hx', h.right, v, hv, hback.trans hvsort.fieldsDistinct husort.fieldsDistinct
    h.right.fieldsDistinct hsame⟩

/-- **Equal expressions become equal ones.** -/
theorem Becomes.equal (hs : ∀ n ∈ Symbol.builtins, s.type? n = none) (hσ : σ.Respects s Γ Δ)
    (h : Becomes s Γ Δ σ k x y) (h' : Becomes s Γ Δ σ k x' y')
    (hequal : Structural.equal x x' = true) : Structural.equal y y' = true := by
  obtain ⟨u, hu, hsame⟩ := (h.of_equal hs hσ h'.left hequal).same
  obtain ⟨v, hv, hsame'⟩ := h'.same
  rw [hu] at hv
  cases hv
  have husort := h'.left.of_apply hs hσ hu
  have hback := hsame.symm husort.fieldsDistinct h.right.fieldsDistinct
  exact (hback.trans h.right.fieldsDistinct husort.fieldsDistinct h'.right.fieldsDistinct
    hsame').equal

/-- What becomes one expression becomes every expression of its sort that is equal to it. -/
theorem Becomes.trans_equal (hs : ∀ n ∈ Symbol.builtins, s.type? n = none)
    (hσ : σ.Respects s Γ Δ) {z : Expr} (h : Becomes s Γ Δ σ k x y) (hz : z.HasSort s Δ k)
    (hequal : Structural.equal y z = true) : Becomes s Γ Δ σ k x z := by
  obtain ⟨u, hu, hsame⟩ := h.same
  have husort := h.left.of_apply hs hσ hu
  exact ⟨h.left, hz, u, hu, hsame.trans husort.fieldsDistinct h.right.fieldsDistinct
    hz.fieldsDistinct (h.right.same hz hequal)⟩

/-- All that one expression becomes is equal. -/
theorem Becomes.unique (hs : ∀ n ∈ Symbol.builtins, s.type? n = none) (hσ : σ.Respects s Γ Δ)
    (h : Becomes s Γ Δ σ k x y) (h' : Becomes s Γ Δ σ k x y') : Structural.equal y y' = true :=
  h.equal hs hσ h' (Same.refl h.left.fieldsDistinct).equal

/-- Where nothing is replaced, every expression becomes those of its sort that are equal to it. -/
theorem becomes_of_equal (hx : x.HasSort s Γ k) (hy : y.HasSort s Γ k)
    (hequal : Structural.equal x y = true) : Becomes s Γ Γ empty k x y :=
  ⟨hx, hy, x, apply_empty x, hx.same hy hequal⟩

theorem Becomes.binary {l r l' r' : Expr} {κ : ValueSort} {op : BinaryOp}
    (hkeeps : op.keepsSort = true) (hname : κ.name ∈ op.operandTypes)
    (hl : Becomes s Γ Δ σ (.value κ) l l') (hr : Becomes s Γ Δ σ (.value κ) r r')
    (span span' : Span) :
    Becomes s Γ Δ σ (.value κ) (.binary span op l r) (.binary span' op l' r') := by
  obtain ⟨u, hu, hsame⟩ := hl.same
  obtain ⟨v, hv, hsame'⟩ := hr.same
  refine ⟨.binary hkeeps hname hl.left hr.left, .binary hkeeps hname hl.right hr.right, _, ?_,
    .binary hsame hsame' span span' op⟩
  rw [apply, hu, hv]
  rfl

end

/-! ## §2. Parameters of types. -/

/-- Each expression of the first list becomes the one at its place in the second. -/
inductive BecomeAll (s : Schema) (Γ Δ : Sorts) (σ : Substitution) :
    List Kind → List Expr → List Expr → Prop where
  | nil : BecomeAll s Γ Δ σ [] [] []
  | cons {k : Kind} {x y : Expr} {ks : List Kind} {xs ys : List Expr}
      (h : Becomes s Γ Δ σ k x y) (hs : BecomeAll s Γ Δ σ ks xs ys) :
      BecomeAll s Γ Δ σ (k :: ks) (x :: xs) (y :: ys)

section

variable {s : Schema} {Γ Δ : Sorts} {σ : Substitution} {ks : List Kind} {xs ys : List Expr}

theorem BecomeAll.left (h : BecomeAll s Γ Δ σ ks xs ys) :
    List.Forall₂ (Expr.HasSort s Γ) xs ks := by
  induction h with
  | nil => exact .nil
  | cons h _ ih => exact .cons h.left ih

theorem BecomeAll.right (h : BecomeAll s Γ Δ σ ks xs ys) :
    List.Forall₂ (Expr.HasSort s Δ) ys ks := by
  induction h with
  | nil => exact .nil
  | cons h _ ih => exact .cons h.right ih

theorem BecomeAll.same (h : BecomeAll s Γ Δ σ ks xs ys) :
    ∃ xs', σ.applyAll xs = .ok xs' ∧ List.Forall₂ Same xs' ys := by
  induction h with
  | nil => exact ⟨[], rfl, .nil⟩
  | cons h _ ih =>
    obtain ⟨u, hu, hsame⟩ := h.same
    obtain ⟨us, hus, hsames⟩ := ih
    exact ⟨u :: us, by rw [applyAll, hu, hus]; rfl, .cons hsame hsames⟩

theorem becomeAll_of_equal (hs : ∀ n ∈ Symbol.builtins, s.type? n = none)
    (hσ : σ.Respects s Γ Δ) (hxs : List.Forall₂ (Expr.HasSort s Γ) xs ks) :
    ∀ {us ys : List Expr}, σ.applyAll xs = .ok us → List.Forall₂ (Expr.HasSort s Δ) ys ks →
      List.Forall₂ (fun u y => Structural.equal u y = true) us ys → BecomeAll s Γ Δ σ ks xs ys := by
  induction hxs with
  | nil =>
    intro us ys _ hys _
    cases hys
    exact .nil
  | @cons x k xs ks hx _ ih =>
    intro us ys h hys hequal
    obtain ⟨u, us, hu, hus, rfl⟩ := of_applyAll_cons h
    cases hys with
    | cons hy hys =>
      cases hequal with
      | cons hfirst hrest =>
        have hsame := (hx.of_apply hs hσ hu).same hy hfirst
        exact .cons ⟨hx, hy, u, hu, hsame⟩ (ih hus hys hrest)

theorem becomeAll_of_apply (hs : ∀ n ∈ Symbol.builtins, s.type? n = none)
    (hσ : σ.Respects s Γ Δ) (hxs : List.Forall₂ (Expr.HasSort s Γ) xs ks) :
    ∀ {ys : List Expr}, σ.applyAll xs = .ok ys → BecomeAll s Γ Δ σ ks xs ys := by
  induction hxs with
  | nil =>
    intro ys h
    cases h
    exact .nil
  | cons hx _ ih =>
    intro ys h
    obtain ⟨y, ys, hy, hys, rfl⟩ := of_applyAll_cons h
    exact .cons (becomes_of_apply hs hσ hx hy) (ih hys)

theorem becomeAll_self (hs : ∀ n ∈ Symbol.builtins, s.type? n = none)
    (hxs : List.Forall₂ (Expr.HasSort s Γ) xs ks) : BecomeAll s Γ Γ empty ks xs xs :=
  becomeAll_of_apply hs (respects_empty fun _ _ h => h) hxs
    (applyAll_of_unbound fun n _ => find?_empty n)

variable {span span' : Span} {i i' : Ident} {ps : List Expr} {y : Expr}

/-- **What a type becomes** is a type of the same name, and each of its parameters becomes the one
at the same place. -/
theorem Becomes.exists_type (hs : ∀ n ∈ Symbol.builtins, s.type? n = none)
    (hσ : σ.Respects s Γ Δ) (h : Becomes s Γ Δ σ .type (.type span i ps) y) :
    ∃ span' i' qs ks, y = .type span' i' qs ∧ i.name = i'.name
      ∧ s.paramKinds? i.name = some ks ∧ BecomeAll s Γ Δ σ ks ps qs := by
  obtain ⟨u, hu, hsame⟩ := h.same
  obtain ⟨us, hus, rfl⟩ := of_apply_type hu
  obtain ⟨span', i', qs, rfl, hname, hequal⟩ := Expr.exists_of_equal_type hsame.equal
  cases h.left with
  | type hkinds hps =>
    cases h.right with
    | type hkinds' hqs =>
      rw [← hname, hkinds] at hkinds'
      cases hkinds'
      exact ⟨span', i', qs, _, rfl, hname, hkinds, becomeAll_of_equal hs hσ hps hus hqs hequal⟩

theorem BecomeAll.type {qs : List Expr} (hname : i.name = i'.name)
    (hkinds : s.paramKinds? i.name = some ks) (h : BecomeAll s Γ Δ σ ks ps qs) :
    Becomes s Γ Δ σ .type (.type span i ps) (.type span' i' qs) := by
  obtain ⟨us, hus, hsames⟩ := h.same
  refine ⟨.type hkinds h.left, .type (hname ▸ hkinds) h.right, _, ?_,
    .type hsames span span' hname⟩
  rw [apply, hus]
  rfl

end

end Substitution

theorem Schema.paramKinds?_array (s : Schema) :
    s.paramKinds? .array = some [.type, .value .unsigned] := by
  rw [paramKinds?, if_neg (by decide), if_pos rfl]

theorem Schema.paramKinds?_set (s : Schema) : s.paramKinds? .set = some [.type] := by
  rw [paramKinds?, if_neg (by decide), if_neg (by decide), if_pos rfl]

theorem Schema.paramKinds?_declared {s : Schema} {n : Symbol} (h : n ∉ Symbol.builtins) :
    s.paramKinds? n = (s.deps? n).bind Variable.kinds? := by
  obtain ⟨hscalar, harray, hset⟩ := Symbol.of_not_mem_builtins h
  rw [paramKinds?, if_neg hscalar, if_neg harray, if_neg hset]

namespace Substitution

section

variable {s : Schema} {Γ Δ : Sorts} {σ : Substitution} {t u element : TypeExpr} {length : Expr}
  (hs : ∀ n ∈ Symbol.builtins, s.type? n = none) (hσ : σ.Respects s Γ Δ)
  (h : Becomes s Γ Δ σ .type t.toExpr u.toExpr)

include hs hσ h

theorem Becomes.params : t.name = u.name ∧ ∃ ks, s.paramKinds? t.name = some ks
    ∧ BecomeAll s Γ Δ σ ks t.params u.params := by
  obtain ⟨_, _, _, ks, hu, hname, hkinds, hparams⟩ := h.exists_type hs hσ
  cases hu
  exact ⟨hname, ks, hkinds, hparams⟩

/-- A type of arrays becomes one. -/
theorem Becomes.isArrayOf (harray : t.IsArrayOf element length) : ∃ element' length',
    u.IsArrayOf element' length' ∧ Becomes s Γ Δ σ .type element.toExpr element'.toExpr
      ∧ Becomes s Γ Δ σ (.value .unsigned) length length' := by
  obtain ⟨hname, ks, hkinds, hparams⟩ := h.params hs hσ
  obtain ⟨span, i, ps⟩ := t
  obtain ⟨span', i', qs⟩ := u
  obtain ⟨harray, helement, hlength⟩ := harray
  rw [harray, s.paramKinds?_array] at hkinds
  cases hkinds
  -- there are an element and a length on both sides
  cases hparams with
  | cons hfirst hrest =>
    cases hrest with
    | cons hsecond hrest =>
      cases helement
      cases hlength
      obtain ⟨span₁, i₁, ps₁, _, rfl, -⟩ := hfirst.exists_type hs hσ
      exact ⟨⟨span₁, i₁, ps₁⟩, _, ⟨hname ▸ harray, rfl, rfl⟩, hfirst, hsecond⟩

/-- A type of sets becomes one. -/
theorem Becomes.isSetOf (hset : t.IsSetOf element) : ∃ element',
    u.IsSetOf element' ∧ Becomes s Γ Δ σ .type element.toExpr element'.toExpr := by
  obtain ⟨hname, ks, hkinds, hparams⟩ := h.params hs hσ
  obtain ⟨span, i, ps⟩ := t
  obtain ⟨span', i', qs⟩ := u
  obtain ⟨hset, helement⟩ := hset
  rw [hset, s.paramKinds?_set] at hkinds
  cases hkinds
  cases hparams with
  | cons hfirst hrest =>
    cases helement
    obtain ⟨span₁, i₁, ps₁, _, rfl, -⟩ := hfirst.exists_type hs hσ
    exact ⟨⟨span₁, i₁, ps₁⟩, ⟨hname ▸ hset, rfl⟩, hfirst⟩

end

/-! ## §3. Bindings that follow each other. -/

/-- For each variable that has a sort, `τ` and `τ'` put expressions of that sort, of which `σ` takes
the one to the other. -/
structure Tracks (s : Schema) (Γ Δ Δ' : Sorts) (σ τ τ' : Substitution) : Prop where
  isOpen : τ.scopes.frames ≠ []
  isOpen' : τ'.scopes.frames ≠ []
  each : ∀ n κ, Γ n = some κ → ∃ p p', τ.find? n = some p ∧ τ'.find? n = some p'
    ∧ Becomes s Δ Δ' σ (.value κ) p p'

section

variable {s : Schema} {Γ Δ Δ' : Sorts} {σ τ τ' : Substitution}

theorem tracks_empty : Tracks s .none Δ Δ' σ empty empty :=
  ⟨empty_open, empty_open, fun _ _ h => by cases h⟩

namespace Tracks

theorem bind (h : Tracks s Γ Δ Δ' σ τ τ') {n : Symbol} {p p' : Expr} {κ : ValueSort}
    (hp : Becomes s Δ Δ' σ (.value κ) p p') :
    Tracks s (Γ.bind n (some κ)) Δ Δ' σ (τ.bind n p) (τ'.bind n p') := by
  refine ⟨bind_open h.isOpen _ _, bind_open h.isOpen' _ _, fun m κ' hm => ?_⟩
  rw [find?_bind h.isOpen, find?_bind h.isOpen']
  unfold Sorts.bind at hm
  split at hm
  · next heq =>
    cases hm
    rw [if_pos heq, if_pos heq]
    exact ⟨p, p', rfl, rfl, hp⟩
  · next hne =>
    rw [if_neg hne, if_neg hne]
    exact h.each m κ' hm

theorem respects (h : Tracks s Γ Δ Δ' σ τ τ') : τ.Respects s Γ Δ := by
  intro n κ hn
  obtain ⟨p, _, hp, -, hbecomes⟩ := h.each n κ hn
  exact .inr ⟨p, hp, hbecomes.left⟩

theorem respects' (h : Tracks s Γ Δ Δ' σ τ τ') : τ'.Respects s Γ Δ' := by
  intro n κ hn
  obtain ⟨_, p', -, hp', hbecomes⟩ := h.each n κ hn
  exact .inr ⟨p', hp', hbecomes.right⟩

theorem alike (hs : ∀ n ∈ Symbol.builtins, s.type? n = none) (hσ : σ.Respects s Δ Δ')
    (h : Tracks s Γ Δ Δ' σ τ τ') : Alike s Γ τ σ τ' := by
  intro a b κ hab ha u v w hu hv hw
  cases ha with
  | access hΓ hfields =>
    obtain ⟨p, p', hp, hp', hbecomes⟩ := h.each _ _ hΓ
    obtain ⟨hvar, hnames⟩ := Expr.Access.sameAs_iff.mp hab
    obtain ⟨q, hq, hsame⟩ := hbecomes.same
    have hqsort := hbecomes.left.of_apply hs hσ hq
    have hu' : p.follow a.fields = .ok u := by
      rw [← hu]
      unfold apply
      rw [hp]
    have hw' : p'.follow b.fields = .ok w := by
      rw [← hw]
      unfold apply
      rw [← hvar, hp']
    -- `v` is what the fields lead to in `q`, and `w` is the same as what they lead to in `p'`
    have hv' : q.follow a.fields = .ok v := (follow_apply a.fields hq hu').trans hv
    obtain ⟨w', hw'', hwsort⟩ := hbecomes.right.follow hs a.fields hfields
    obtain ⟨v', hv'', hvsort⟩ := hqsort.follow hs a.fields hfields
    rw [hv'] at hv''
    cases hv''
    have hagree := hsame.agrees hqsort hbecomes.right a.fields v w' hv' hw''
    have hspans := Expr.same_follow_of_names hnames hbecomes.right.fieldsDistinct hw'' hw'
    exact hagree.trans hvsort.fieldsDistinct hwsort.fieldsDistinct
      (Expr.fieldsDistinct_follow hbecomes.right.fieldsDistinct hw') hspans

/-- **An expression under the first bindings becomes the same expression under the second ones.** -/
theorem apply (hs : ∀ n ∈ Symbol.builtins, s.type? n = none) (hσ : σ.Respects s Δ Δ')
    (h : Tracks s Γ Δ Δ' σ τ τ') {e : Expr} {k : Kind} (he : e.HasSort s Γ k) :
    ∃ u w, τ.apply e = .ok u ∧ τ'.apply e = .ok w ∧ Becomes s Δ Δ' σ k u w := by
  obtain ⟨u, hu, husort⟩ := he.apply hs h.respects
  obtain ⟨v, hv, -⟩ := husort.apply hs hσ
  obtain ⟨w, hw, hwsort⟩ := he.apply hs h.respects'
  exact ⟨u, w, hu, hw, husort, hwsort, v, hv, (h.alike hs hσ).same he hu hv hw⟩

theorem applyType (hs : ∀ n ∈ Symbol.builtins, s.type? n = none) (hσ : σ.Respects s Δ Δ')
    (h : Tracks s Γ Δ Δ' σ τ τ') {type : TypeExpr} (htype : type.toExpr.HasSort s Γ .type) :
    ∃ u w : TypeExpr, τ.applyType type = .ok u ∧ τ'.applyType type = .ok w
      ∧ Becomes s Δ Δ' σ .type u.toExpr w.toExpr := by
  obtain ⟨u, w, hu, hw, hbecomes⟩ := h.apply hs hσ htype
  obtain ⟨ps, -, rfl⟩ := of_apply_type hu
  obtain ⟨qs, -, rfl⟩ := of_apply_type hw
  exact ⟨⟨type.span, type.ident, ps⟩, ⟨type.span, type.ident, qs⟩, applyType_eq_ok_iff.mpr hu,
    applyType_eq_ok_iff.mpr hw, hbecomes⟩

/-- **What is supplied for variables is tracked behind them.** -/
theorem supply {vars : List Variable} : ∀ {Γ : Sorts} {τ τ' : Substitution} {ks : List Kind}
    {ps qs : List Expr}, Tracks s Γ Δ Δ' σ τ τ' → Variable.kinds? vars = some ks →
      BecomeAll s Δ Δ' σ ks ps qs →
        Tracks s (Γ.declare vars) Δ Δ' σ (Substitution.supply τ vars ps)
          (Substitution.supply τ' vars qs) := by
  induction vars with
  | nil =>
    intro Γ τ τ' ks ps qs h hks hall
    cases hks
    cases hall
    exact h
  | cons v vars ih =>
    intro Γ τ τ' ks ps qs h hkinds hall
    obtain ⟨κ, ks, hκ, hks, rfl⟩ := Variable.kinds?_cons_eq_some.mp hkinds
    cases hall with
    | cons hp hrest =>
      have hnext := ih (h.bind (n := v.name.name) hp) hks hrest
      rwa [← hκ] at hnext

end Tracks

end

end Substitution

/-! ## §4. The types of fields. -/

/-- The fields of a message before the one of that name. -/
def Message.before (m : Message) (field : Symbol) : List Variable :=
  m.fields.takeWhile fun v => v.name.name != field

/-- These fields of the value that `base` leads to. -/
def Message.earlier (m : Message) (base : Access) (field : Symbol) : List Expr :=
  (m.before field).map fun v => .access (base.field v.name)

theorem Message.exists_fields_eq {m : Message} {field : Symbol} {v : Variable}
    (h : m.field? field = some v) : ∃ after, m.fields = m.before field ++ v :: after := by
  obtain ⟨hname, before, after, hfields, hother⟩ := List.find?_eq_some_iff_append.mp h
  refine ⟨after, ?_⟩
  have hbefore : m.before field = before := by
    have hall : ∀ w ∈ before, (w.name.name != field) = true := hother
    unfold Message.before
    rw [hfields, List.takeWhile_append_of_pos hall, List.takeWhile_cons_of_neg, List.append_nil]
    simpa using hname
  rw [hbefore, hfields]

theorem Substitution.supply_map (g : Variable → Expr) (vars : List Variable) : ∀ σ : Substitution,
    vars.foldl (fun σ v => σ.bind v.name.name (g v)) σ = supply σ vars (vars.map g) := by
  induction vars with
  | nil => exact fun _ => rfl
  | cons v vars ih => exact fun σ => ih _

/-- In the type of a field stand what is supplied for the dependencies and the fields before. -/
theorem Message.bindAll_eq_supply (m : Message) (base : Access) (params : List Expr)
    (field : Symbol) : Substitution.empty.bindAll (m.instances base params field)
      = Substitution.supply (.supply .empty m.deps params) (m.before field)
          (m.earlier base field) := by
  rw [← Typing.bindAll_instances, Typing.bindDeps_eq_supply, Substitution.supply_map]
  rfl

namespace Schema

variable {s : Schema} {Γ Δ : Sorts} {κ : ValueSort}

theorem paramKinds?_of_type? (hs : ∀ n ∈ Symbol.builtins, s.type? n = none) {n : Symbol}
    {d : TypeDef} (hd : s.type? n = some d) : s.paramKinds? n = Variable.kinds? d.deps := by
  have hdeclared : n ∉ Symbol.builtins := fun hmem => by
    rw [hs n hmem] at hd
    cases hd
  rw [paramKinds?_declared hdeclared, deps?, hd]
  rfl

/-- A field of a value of a message has the sort that is declared. -/
theorem hasSort_field {x : Access} (hx : (Expr.access x).HasSort s Γ (.value κ)) {m : Message}
    (hm : s.type? κ.name = some (.message m)) {f : Ident} {v : Variable}
    (hv : m.field? f.name = some v) {κ' : ValueSort} (hκ' : v.type.sort? = some κ') :
    (Expr.access (x.field f)).HasSort s Γ (.value κ') := by
  cases hx with
  | access hvar hfields =>
    refine .access hvar ?_
    show s.sortAlong? _ (x.fields ++ [f]) = _
    rw [sortAlong?_append, hfields]
    exact sortAlong?_cons_eq_some.mpr ⟨κ', fieldSort?_eq_some_iff.mpr ⟨m, v, hm, hv, hκ'⟩, rfl⟩

theorem Proper.sort?_of_messageField (hp : s.Proper) {n : Symbol} {m : Message}
    (hm : s.type? n = some (.message m)) {v : Variable} (hv : v ∈ m.fields) :
    v.type.sort?.isSome = true :=
  (hp.formed.fields _ (mem_of_type? hm) _ (List.mem_singleton_self _) v hv).sort?_isSome

/-- The fields before another one, taken from one value, have the sorts that are declared. -/
theorem exists_kinds_before (hp : s.Proper) {x : Access}
    (hx : (Expr.access x).HasSort s Γ (.value κ)) {m : Message}
    (hm : s.type? κ.name = some (.message m)) (field : Symbol) :
    ∃ ks, Variable.kinds? (m.before field) = some ks
      ∧ List.Forall₂ (Expr.HasSort s Γ) (m.earlier x field) ks := by
  have hdistinct := hp.tidy.fields _ (mem_of_type? hm) _ (List.mem_singleton_self _)
  refine Typing.exists_kinds (c := ⟨s, Structural.oracle⟩) ?_
  rw [Message.earlier, List.forall₂_map_right_iff, List.forall₂_same]
  intro v hv
  have hmem := (List.takeWhile_sublist _).subset hv
  obtain ⟨κ', hκ'⟩ := Option.isSome_iff_exists.mp (hp.sort?_of_messageField hm hmem)
  exact ⟨κ', hκ', hasSort_field hx hm
    (Variable.find?_of_mem hdistinct hmem) hκ'⟩

/-- Where the dependencies and the fields before are supplied in two places, the declared type of a
field stands for one type in each place, and the one becomes the other. -/
theorem exists_fieldTypes (hp : s.Proper) (hw : s.WellSorted) {σ : Substitution}
    (hσ : σ.Respects s Γ Δ) {type other : TypeExpr} {m : Message}
    (hm : s.type? type.name = some (.message m)) {f : Ident} {declared : Variable}
    (hdeclared : m.field? f.name = some declared)
    (htype : σ.Becomes s Γ Δ .type type.toExpr other.toExpr) {ks : List Kind} {xs ys : List Expr}
    (hks : Variable.kinds? (m.before f.name) = some ks) (hys : σ.BecomeAll s Γ Δ ks xs ys) :
    ∃ u w : TypeExpr,
      (Substitution.supply (.supply .empty m.deps type.params) (m.before f.name) xs).applyType
          declared.type = .ok u
      ∧ (Substitution.supply (.supply .empty m.deps other.params) (m.before f.name) ys).applyType
          declared.type = .ok w
      ∧ σ.Becomes s Γ Δ .type u.toExpr w.toExpr := by
  obtain ⟨-, ks', hks', hparams⟩ := htype.params hp.builtin hσ
  have hkinds := paramKinds?_of_type? hp.builtin hm
  rw [hks'] at hkinds
  have hkinds : Variable.kinds? m.deps = some ks' := hkinds.symm
  have htracks := (Substitution.tracks_empty.supply hkinds hparams).supply hks hys
  -- the declared type is well-sorted behind the dependencies and the fields before
  obtain ⟨after, hfields⟩ := Message.exists_fields_eq hdeclared
  have hsorted := hw.fields _ (mem_of_type? hm) rfl _ (List.mem_singleton_self _)
  rw [Variable.wellSorted_append] at hsorted
  have hsorted := hsorted.2
  rw [hfields, Variable.wellSorted_append] at hsorted
  exact htracks.applyType hp.builtin hσ hsorted.2.1

/-- **The type of a field becomes the declared type** with what is supplied in the other place. -/
theorem becomes_of_hasField (hp : s.Proper) (hw : s.WellSorted) {σ : Substitution}
    (hσ : σ.Respects s Γ Δ) {x : Access} {type type' other : TypeExpr} {f : Ident}
    (hfield : s.HasField x type f type') {m : Message}
    (hm : s.type? type.name = some (.message m))
    (htype : σ.Becomes s Γ Δ .type type.toExpr other.toExpr) {ks : List Kind} {ys : List Expr}
    (hks : Variable.kinds? (m.before f.name) = some ks)
    (hys : σ.BecomeAll s Γ Δ ks (m.earlier x f.name) ys) :
    ∃ declared other', m.field? f.name = some declared
      ∧ (Substitution.supply (.supply .empty m.deps other.params) (m.before f.name) ys).applyType
          declared.type = .ok other'
      ∧ σ.Becomes s Γ Δ .type type'.toExpr other'.toExpr := by
  obtain ⟨m', declared, hm', hdeclared, happly⟩ := hfield
  rw [hm] at hm'
  cases hm'
  obtain ⟨u, w, hu, hw, hbecomes⟩ := exists_fieldTypes hp hw hσ hm hdeclared htype hks hys
  rw [Message.bindAll_eq_supply, hu] at happly
  cases happly
  exact ⟨declared, w, hdeclared, hw, hbecomes⟩

/-- **Every declared field is there**, with a type, in each value of the message. -/
theorem exists_hasField (hp : s.Proper) (hw : s.WellSorted) {x : Access} {type : TypeExpr}
    {m : Message} (hm : s.type? type.name = some (.message m))
    (hx : (Expr.access x).HasSort s Γ (.value κ)) (hκ : type.sort? = some κ)
    (htype : type.toExpr.HasSort s Γ .type) {f : Ident} {declared : Variable}
    (hdeclared : m.field? f.name = some declared) : ∃ type', s.HasField x type f type' := by
  obtain ⟨ks, hks, hall⟩ := exists_kinds_before hp hx (TypeExpr.name_of_sort? hκ ▸ hm) f.name
  obtain ⟨u, _, hu, -⟩ := exists_fieldTypes hp hw (Substitution.respects_empty fun _ _ h => h) hm
    hdeclared (Substitution.becomes_self hp.builtin htype) hks
    (Substitution.becomeAll_self hp.builtin hall)
  refine ⟨u, m, declared, hm, hdeclared, ?_⟩
  rw [Message.bindAll_eq_supply]
  exact hu

/-- The type of a field is well-sorted, and the field has the sort of its type. -/
theorem HasField.sorted (hp : s.Proper) (hw : s.WellSorted) {base : Access} {type type' : TypeExpr}
    {f : Ident} (h : s.HasField base type f type')
    (hbase : (Expr.access base).HasSort s Γ (.value κ)) (hκ : type.sort? = some κ)
    (htype : type.toExpr.HasSort s Γ .type) :
    ∃ κ', (Expr.access (base.field f)).HasSort s Γ (.value κ') ∧ type'.sort? = some κ'
      ∧ type'.toExpr.HasSort s Γ .type := by
  obtain ⟨m, declared, hm, hdeclared, happly⟩ := id h
  have hm' := TypeExpr.name_of_sort? hκ ▸ hm
  obtain ⟨ks, hks, hall⟩ := exists_kinds_before hp hbase hm' f.name
  obtain ⟨_, _, -, -, hbecomes⟩ := becomes_of_hasField hp hw
    (Substitution.respects_empty fun _ _ h => h) h hm (Substitution.becomes_self hp.builtin htype)
    hks (Substitution.becomeAll_self hp.builtin hall)
  obtain ⟨κ', hκ'⟩ := Option.isSome_iff_exists.mp
    (hp.sort?_of_messageField hm (List.mem_of_find?_eq_some hdeclared))
  exact ⟨κ', hasSort_field hbase hm' hdeclared hκ', TypeExpr.sort?_of_applyType hκ' happly,
    hbecomes.left⟩

/-- **Fields lead to a well-sorted type** from a value of one. -/
theorem Path.hasSort (hp : s.Proper) (hw : s.WellSorted) {base : Access} {type t : TypeExpr}
    {fields : List Ident} (h : s.Path base type fields t) : ∀ {κ : ValueSort},
      (Expr.access base).HasSort s Γ (.value κ) → type.sort? = some κ →
        type.toExpr.HasSort s Γ .type → t.toExpr.HasSort s Γ .type := by
  induction h with
  | here => exact fun _ _ htype => htype
  | field hfield _ ih =>
    intro κ hbase hκ htype
    obtain ⟨κ', hbase', hκ', htype'⟩ := hfield.sorted hp hw hbase hκ htype
    exact ih hbase' hκ' htype'

end Schema

end DepSchema
