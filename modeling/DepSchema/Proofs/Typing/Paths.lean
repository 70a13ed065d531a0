/-
DepSchema.Proofs.Typing.Paths — the fields of a value, read in one go or in two.

The type of `x.f.g` is found field by field. Each step writes the way that was gone so far into the
type of the next field, where the dependencies of the message and its earlier fields stand. What is
found for `x.f.g` is therefore found for `y.g` as well, where `y` is a new name for `x.f`, once `y`
is replaced by `x.f`: at each step the parameters and the earlier fields that are put in for `y` are
those for `x.f` up to that replacement, and the declared type of a field does not mention `y`.

Main definitions: `Message.instances` and `Schema.Path`. Main results: `Path.append_iff`,
`Path.replace_iff` and `accessType_composes`.
-/
import DepSchema.Proofs.Substitution.Composition
import DepSchema.Proofs.Dispatch.FirstMatch
import DepSchema.Proofs.Names.Tidy
import DepSchema.Proofs.Queries.Locals
import DepSchema.Proofs.Vocabulary.Substitution

namespace DepSchema

/-! ## §1. Two substitutions side by side. -/

namespace Substitution

variable {τ σ σ' : Substitution}

mutual

/-- An expression is replaced alike by substitutions that agree on its variables. -/
theorem apply_congr : ∀ {e : Expr}, (∀ n ∈ e.vars, σ.find? n = σ'.find? n) → σ.apply e = σ'.apply e
  | .scalar _ _, _ => rfl
  | .access a, h => by
    unfold apply
    rw [h a.var.name (List.mem_singleton_self _)]
  | .binary _ _ _ _, h => by
    obtain ⟨hl, hr⟩ := List.forall_mem_append.mp h
    rw [apply, apply, apply_congr hl, apply_congr hr]
  | .unary _ _ x, h => by rw [apply, apply, apply_congr (e := x) h]
  | .type _ _ ps, h => by rw [apply, apply, applyAll_congr (l := ps) h]
  | .constructed _ _ fs, h => by rw [apply, apply, applyFields_congr (l := fs) h]
  | .collection _ es, h => by rw [apply, apply, applyAll_congr (l := es) h]
  | .call _ _ as, h => by rw [apply, apply, applyAll_congr (l := as) h]

theorem applyAll_congr : ∀ {l : List Expr}, (∀ n ∈ Expr.varsAll l, σ.find? n = σ'.find? n) →
    σ.applyAll l = σ'.applyAll l
  | [], _ => rfl
  | _ :: _, h => by
    obtain ⟨he, hes⟩ := List.forall_mem_append.mp h
    rw [applyAll, applyAll, apply_congr he, applyAll_congr hes]

theorem applyFields_congr : ∀ {l : List (Named Expr)},
    (∀ n ∈ Expr.varsFields l, σ.find? n = σ'.find? n) → σ.applyFields l = σ'.applyFields l
  | [], _ => rfl
  | _ :: _, h => by
    obtain ⟨hf, hfs⟩ := List.forall_mem_append.mp h
    rw [applyFields, applyFields, apply_congr hf, applyFields_congr hfs]

end

theorem bindAll_eq_foldl (added : List (Symbol × Expr)) : ∀ σ : Substitution,
    σ.bindAll added = added.foldl (fun σ p => σ.bind p.1 p.2) σ := by
  induction added with
  | nil => exact fun _ => rfl
  | cons p added ih => exact fun σ => ih (σ.bind p.1 p.2)

/-- What holds of what was bound and of what is added holds of all bindings. -/
theorem forall_find?_bindAll {P : Expr → Prop} {added : List (Symbol × Expr)} :
    ∀ {σ : Substitution}, σ.scopes.frames ≠ [] → (∀ p ∈ added, P p.2) →
      (∀ n e, σ.find? n = some e → P e) → ∀ n e, (σ.bindAll added).find? n = some e → P e := by
  induction added with
  | nil => exact fun _ _ hσ => hσ
  | cons p added ih =>
    intro σ hopen hadded hσ
    rw [List.forall_mem_cons] at hadded
    exact ih (bind_open hopen _ _) hadded.2
      (Scopes.forall_find?_bind (P := fun _ => P) hopen hadded.1 hσ)

/-- The same names are bound in both lists, in the same order, and in the second one to what `σ`
makes of the first. -/
def Follows (σ : Substitution) (added added' : List (Symbol × Expr)) : Prop :=
  List.Forall₂ (fun p p' => p'.1 = p.1 ∧ σ.apply p.2 = .ok p'.2) added added'

theorem Composes.bindAll {added added' : List (Symbol × Expr)} (hadded : σ.Follows added added') :
    ∀ {τ σ' : Substitution}, Composes τ σ σ' → τ.scopes.frames ≠ [] → σ'.scopes.frames ≠ [] →
      Composes (τ.bindAll added) σ (σ'.bindAll added') := by
  induction hadded with
  | nil => exact fun h _ _ => h
  | @cons p p' added added' hp _ ih =>
    intro τ σ' h hτ hσ'
    obtain ⟨name, e⟩ := p
    obtain ⟨name', e'⟩ := p'
    obtain ⟨rfl, he⟩ := hp
    exact ih (h.bind hτ hσ' he) (bind_open hτ _ _) (bind_open hσ' _ _)

/-- **Bindings whose right sides follow each other**: an expression that does not mention what `σ`
replaces is replaced under the second ones as under the first ones and then by `σ`. -/
theorem apply_bindAll_iff (hσ : σ.scopes.frames ≠ []) {added added' : List (Symbol × Expr)}
    (hadded : σ.Follows added added') {e : Expr} (he : ∀ n ∈ e.vars, σ.find? n = none) {u : Expr} :
    (empty.bindAll added').apply e = .ok u
      ↔ ∃ v, (empty.bindAll added).apply e = .ok v ∧ σ.apply v = .ok u := by
  -- the second ones may as well stand on top of `σ`
  have htop : (empty.bindAll added').apply e = (σ.bindAll added').apply e := by
    refine apply_congr fun n hn => ?_
    rw [find?_bindAll empty_open, find?_bindAll hσ, find?_empty, he n hn]
  rw [htop]
  exact ((composes_empty σ).bindAll hadded empty_open hσ).apply

/-- A type is replaced as an expression. -/
theorem applyType_eq_ok_iff {t u : TypeExpr} :
    σ.applyType t = .ok u ↔ σ.apply t.toExpr = .ok u.toExpr := by
  constructor
  · intro h
    obtain ⟨ps, hps, rfl⟩ := of_applyType h
    rw [TypeExpr.toExpr, apply, hps]
    rfl
  · intro h
    obtain ⟨span, i, us⟩ := u
    obtain ⟨ps, hps, hu⟩ := of_apply_type h
    cases hu
    rw [applyType, hps]
    rfl

theorem applyType_bindAll_iff (hσ : σ.scopes.frames ≠ []) {added added' : List (Symbol × Expr)}
    (hadded : σ.Follows added added') {t : TypeExpr}
    (ht : ∀ n ∈ t.toExpr.vars, σ.find? n = none) {u : TypeExpr} :
    (empty.bindAll added').applyType t = .ok u
      ↔ ∃ v, (empty.bindAll added).applyType t = .ok v ∧ σ.applyType v = .ok u := by
  rw [applyType_eq_ok_iff, apply_bindAll_iff hσ hadded ht]
  constructor
  · rintro ⟨e, he, hu⟩
    obtain ⟨ps, hps, rfl⟩ := of_apply_type he
    refine ⟨⟨t.span, t.ident, ps⟩, ?_, applyType_eq_ok_iff.mpr hu⟩
    rw [applyType, hps]
    rfl
  · rintro ⟨v, hv, hu⟩
    exact ⟨v.toExpr, applyType_eq_ok_iff.mp hv, applyType_eq_ok_iff.mp hu⟩

end Substitution

/-! ## §2. Paths. -/

/-- The access with more fields behind it. -/
def Access.extend (a : Access) (fields : List Ident) : Access :=
  { a with fields := a.fields ++ fields }

theorem Access.extend_nil (a : Access) : a.extend [] = a := by
  rw [extend, List.append_nil]

/-- What stands for the dependencies of a message and for its fields before `field`, in the value
that `base` leads to and whose type has the parameters `params`. -/
def Message.instances (m : Message) (base : Access) (params : List Expr) (field : Symbol) :
    List (Symbol × Expr) :=
  ((m.deps.zip params).map fun (dep, param) => (dep.name.name, param))
    ++ (m.fields.takeWhile fun v => v.name.name != field).map
        fun v => (v.name.name, .access (base.field v.name))

/-- The field `f` of the value that `base` leads to and that has the type `type` is declared, and
its type there is `t`. -/
def Schema.HasField (s : Schema) (base : Access) (type : TypeExpr) (f : Ident) (t : TypeExpr) :
    Prop :=
  ∃ m declared, s.type? type.name = some (.message m) ∧ m.field? f.name = some declared
    ∧ (Substitution.empty.bindAll (m.instances base type.params f.name)).applyType declared.type
      = .ok t

/-- From a value of the type `type`, which `base` leads to, fields lead to a value of the type
`t`. -/
inductive Schema.Path (s : Schema) : Access → TypeExpr → List Ident → TypeExpr → Prop where
  | here {base : Access} {type : TypeExpr} : Path s base type [] type
  | field {base : Access} {type type' t : TypeExpr} {f : Ident} {fs : List Ident}
      (hfield : s.HasField base type f type') (hrest : Path s (base.field f) type' fs t) :
      Path s base type (f :: fs) t

namespace Schema.Path

variable {s : Schema} {base : Access} {type t : TypeExpr}

theorem nil_iff : s.Path base type [] t ↔ t = type := by
  constructor
  · intro h
    cases h
    rfl
  · rintro rfl
    exact .here

theorem cons_iff {f : Ident} {fs : List Ident} : s.Path base type (f :: fs) t
    ↔ ∃ type', s.HasField base type f type' ∧ s.Path (base.field f) type' fs t := by
  constructor
  · intro h
    cases h with
    | field hfield hrest => exact ⟨_, hfield, hrest⟩
  · rintro ⟨_, hfield, hrest⟩
    exact .field hfield hrest

/-- Fields lead on from where other fields lead to. -/
theorem append_iff {fields more : List Ident} : s.Path base type (fields ++ more) t
    ↔ ∃ type', s.Path base type fields type' ∧ s.Path (base.extend fields) type' more t := by
  induction fields generalizing base type with
  | nil =>
    simp [nil_iff, Access.extend_nil]
  | cons f fields ih =>
    have hbase : (base.field f).extend fields = base.extend (f :: fields) := by
      simp [Access.extend, Access.field]
    rw [List.cons_append, cons_iff]
    constructor
    · rintro ⟨type', hfield, hrest⟩
      obtain ⟨type'', hfields, hmore⟩ := ih.mp hrest
      exact ⟨type'', .field hfield hfields, hbase ▸ hmore⟩
    · rintro ⟨type'', hfields, hmore⟩
      obtain ⟨type', hfield, hfields⟩ := cons_iff.mp hfields
      exact ⟨type', hfield, ih.mpr ⟨type'', hfields, hbase ▸ hmore⟩⟩

end Schema.Path

namespace Typing

open Check

variable {c : Setting} {s u : Checking}

/-- The substitution under which the check takes the type of a field. -/
theorem bindAll_instances (m : Message) (base : Access) (params : List Expr) (field : Symbol) :
    (m.fields.takeWhile fun v => v.name.name != field).foldl
        (fun σ v => σ.bind v.name.name (.access (base.field v.name))) (bindDeps m.deps params)
      = Substitution.empty.bindAll (m.instances base params field) := by
  rw [Substitution.bindAll_eq_foldl, Message.instances, List.foldl_append, List.foldl_map,
    List.foldl_map]
  rfl

theorem fieldType_eq_ok_iff {base : Access} {type t : TypeExpr} {f : Ident} :
    fieldType base type f c s = (.ok t, u) ↔ c.schema.HasField base type f t ∧ u = s := by
  unfold fieldType
  rw [bind_ok (show schema c s = (.ok c.schema, s) from rfl)]
  constructor
  · intro h
    cases hd : c.schema.type? type.name with
    | none =>
      rw [hd] at h
      cases h
    | some d =>
      rw [hd] at h
      cases d with
      | enum e => cases h
      | message m =>
        obtain ⟨declared, s', hget, hunder⟩ := bind_eq_ok h
        obtain ⟨hdeclared, rfl⟩ := getSome_eq_ok hget
        obtain ⟨ht, rfl⟩ := under_eq_ok hunder
        rw [bindAll_instances] at ht
        exact ⟨⟨m, declared, hd, hdeclared, ht⟩, rfl⟩
  · rintro ⟨⟨m, declared, hm, hdeclared, ht⟩, rfl⟩
    rw [hm]
    show (getSome _ _ (m.field? f.name) >>= fun declared => under _ declared.type) c u = _
    rw [hdeclared, bindAll_instances]
    show ofSubstitution _ c u = _
    rw [ofSubstitution, ht]
    rfl

/-- The check of a chain of fields goes along the path and changes nothing. -/
theorem fieldsType_eq_ok_iff {fields : List Ident} : ∀ {base : Access} {type t : TypeExpr},
    fieldsType base type fields c s = (.ok t, u) ↔ c.schema.Path base type fields t ∧ u = s := by
  induction fields with
  | nil =>
    intro base type t
    rw [Schema.Path.nil_iff]
    constructor
    · intro h
      cases h
      exact ⟨rfl, rfl⟩
    · rintro ⟨rfl, rfl⟩
      rfl
  | cons f fields ih =>
    intro base type t
    rw [Schema.Path.cons_iff]
    constructor
    · intro h
      obtain ⟨type', s', hrun, hrun'⟩ := bind_eq_ok h
      obtain ⟨hfield, rfl⟩ := fieldType_eq_ok_iff.mp hrun
      obtain ⟨hrest, rfl⟩ := ih.mp hrun'
      exact ⟨⟨type', hfield, hrest⟩, rfl⟩
    · rintro ⟨⟨type', hfield, hrest⟩, rfl⟩
      show (fieldType base type f >>= fun type' => fieldsType (base.field f) type' fields) c u = _
      rw [bind_ok (fieldType_eq_ok_iff.mpr ⟨hfield, rfl⟩)]
      exact ih.mpr ⟨hrest, rfl⟩

/-- A variable that stands for a value has a value behind it wherever its fields lead. -/
theorem accessType_ok_iff {a : Access} {type : TypeExpr}
    (ha : s.scopes.find? a.var.name = some (.value type)) {b : Binding} :
    (accessType a c s).1 = .ok b
      ↔ ∃ t, b = .value t ∧ c.schema.Path (.ofVar a.var) type a.fields t := by
  have hread : meaning? a.var.name c s = (.ok (some (.value type)), s) := by rw [← ha]; rfl
  unfold accessType
  rw [bind_ok hread]
  by_cases hvar : a.isVar = true
  · have hfields : a.fields = [] := List.isEmpty_iff.mp hvar
    show ((if a.isVar then pure (.value type) else _ : Check Binding) c s).1 = _ ↔ _
    rw [if_pos hvar, hfields]
    simp only [Schema.Path.nil_iff, exists_eq_right]
    exact ⟨fun h => by cases h; rfl, fun h => by rw [h]; rfl⟩
  · show ((if a.isVar then _ else fieldsType (.ofVar a.var) type a.fields >>= fun t =>
      pure (.value t) : Check Binding) c s).1 = _ ↔ _
    rw [if_neg hvar]
    constructor
    · intro h
      obtain ⟨t, s', hrun, hrun'⟩ := bind_eq_ok (Prod.ext h rfl)
      have hb : Except.ok (.value t) = Except.ok b := congrArg Prod.fst hrun'
      cases hb
      exact ⟨t, rfl, (fieldsType_eq_ok_iff.mp hrun).1⟩
    · rintro ⟨t, rfl, hleads⟩
      rw [bind_ok (fieldsType_eq_ok_iff.mpr ⟨hleads, rfl⟩)]
      rfl

/-- Fields lead to one type at most. -/
theorem path_unique {s : Schema} {base : Access} {type t t' : TypeExpr} {fields : List Ident}
    (h : s.Path base type fields t) (h' : s.Path base type fields t') : t = t' := by
  have hrun := (fieldsType_eq_ok_iff (c := ⟨s, Structural.oracle⟩) (s := .start)).mpr ⟨h, rfl⟩
  have hrun' := (fieldsType_eq_ok_iff (c := ⟨s, Structural.oracle⟩) (s := .start)).mpr ⟨h', rfl⟩
  exact Except.ok.inj (congrArg Prod.fst (hrun.symm.trans hrun'))

theorem exists_value_of_accessType {a : Access} {t : TypeExpr}
    (h : (accessType a c s).1 = .ok (.value t)) :
    ∃ type, s.scopes.find? a.var.name = some (.value type) := by
  obtain ⟨o, s₁, hread, h⟩ := bind_eq_ok (Prod.ext h rfl)
  cases hread
  obtain ⟨b, s₂, hget, h⟩ := bind_eq_ok h
  obtain ⟨hb, rfl⟩ := getSome_eq_ok hget
  cases b with
  | value type => exact ⟨type, hb⟩
  | function ft =>
    -- a function has no fields, and alone it is not a value
    by_cases hvar : a.isVar = true
    · rw [if_pos hvar] at h
      cases congrArg Prod.fst h
    · rw [if_neg hvar] at h
      cases h

/-- A value is found where the fields lead from the type of the variable. -/
theorem exists_path_of_accessType {a : Access} {t : TypeExpr}
    (h : (accessType a c s).1 = .ok (.value t)) :
    ∃ type, s.scopes.find? a.var.name = some (.value type)
      ∧ c.schema.Path (.ofVar a.var) type a.fields t := by
  obtain ⟨type, htype⟩ := exists_value_of_accessType h
  obtain ⟨t', ht', hleads⟩ := (accessType_ok_iff htype).mp h
  cases ht'
  exact ⟨type, htype, hleads⟩

/-- More fields lead on from the type that was found. -/
theorem accessType_extend_ok_iff {a : Access} {type : TypeExpr}
    (ha : (accessType a c s).1 = .ok (.value type)) (more : List Ident) (b : Binding) :
    (accessType (a.extend more) c s).1 = .ok b
      ↔ ∃ t, b = .value t
        ∧ c.schema.Path ((Access.ofVar a.var).extend a.fields) type more t := by
  obtain ⟨origin, horigin, hpath⟩ := exists_path_of_accessType ha
  rw [accessType_ok_iff (a := a.extend more) horigin]
  refine exists_congr fun t => and_congr_right fun _ => ?_
  rw [show (a.extend more).fields = a.fields ++ more from rfl, Schema.Path.append_iff]
  constructor
  · rintro ⟨type', hpath', hmore⟩
    rw [path_unique hpath hpath']
    exact hmore
  · exact fun hmore => ⟨type, hpath, hmore⟩

end Typing

/-! ## §3. A variable in place of an access. -/

/-- The variable `y` stands for an access, and nothing else is replaced. -/
def Access.inPlaceOf (x : Access) (y : Symbol) : Substitution := .bind .empty y (.access x)

namespace Access

open Substitution

variable {x : Access} {y : Symbol}

theorem inPlaceOf_open : (x.inPlaceOf y).scopes.frames ≠ [] := bind_open empty_open _ _

theorem find?_inPlaceOf {n : Symbol} (hn : n ≠ y) : (x.inPlaceOf y).find? n = none := by
  rw [inPlaceOf, find?_bind empty_open, if_neg hn, find?_empty]

/-- Fields of the variable are those fields of the access. -/
theorem apply_inPlaceOf {base : Access} (hbase : base.var.name = y) :
    (x.inPlaceOf y).apply (.access base) = .ok (.access (x.extend base.fields)) := by
  rw [inPlaceOf, apply_bind_self empty_open hbase]
  cases hfields : base.fields with
  | nil => rw [Expr.follow_nil, extend_nil]
  | cons f fs => rfl

/-- The variable can be replaced everywhere. -/
theorem exists_applyType_inPlaceOf (t : TypeExpr) :
    ∃ t', (x.inPlaceOf y).applyType t = .ok t' := by
  have hall : (x.inPlaceOf y).SucceedsAt t.toExpr.accesses := by
    intro a _
    by_cases ha : a.var.name = y
    · exact ⟨_, apply_inPlaceOf ha⟩
    · exact ⟨_, apply_bind_other empty_open ha⟩
  obtain ⟨e', he⟩ := exists_apply_iff.mpr hall
  obtain ⟨ps, hps, rfl⟩ := of_apply_type he
  exact ⟨⟨t.span, t.ident, ps⟩, by rw [applyType, hps]; rfl⟩

theorem applyType_inPlaceOf_of_notMem {t : TypeExpr} (ht : y ∉ t.toExpr.vars) :
    (x.inPlaceOf y).applyType t = .ok t := by
  have hparams : (x.inPlaceOf y).applyAll t.params = .ok t.params :=
    applyAll_of_unbound fun n hn => find?_inPlaceOf fun heq => ht (heq ▸ hn)
  rw [applyType, hparams]
  rfl

end Access

namespace Substitution

variable {σ : Substitution}

theorem follows_zip {ps ps' : List Expr} (h : σ.applyAll ps = .ok ps') (deps : List Variable) :
    σ.Follows ((deps.zip ps).map fun (dep, p) => (dep.name.name, p))
      ((deps.zip ps').map fun (dep, p) => (dep.name.name, p)) := by
  induction deps generalizing ps ps' with
  | nil => exact .nil
  | cons dep deps ih =>
    cases ps with
    | nil =>
      cases h
      exact .nil
    | cons p ps =>
      obtain ⟨p', ps', hp, hps, rfl⟩ := of_applyAll_cons h
      exact .cons ⟨rfl, hp⟩ (ih hps)

end Substitution

namespace Message

open Substitution

/-- **What is put in for `y` is what is put in for `x`**, once `y` is replaced by `x`: the
parameters and the fields before. -/
theorem follows_instances (m : Message) {x base : Access} {params params' : List Expr}
    (hparams : (x.inPlaceOf base.var.name).applyAll params = .ok params') (field : Symbol) :
    (x.inPlaceOf base.var.name).Follows (m.instances base params field)
      (m.instances (x.extend base.fields) params' field) := by
  have hearlier : ∀ vars : List Variable, (x.inPlaceOf base.var.name).Follows
      (vars.map fun v => (v.name.name, .access (base.field v.name)))
      (vars.map fun v => (v.name.name, .access ((x.extend base.fields).field v.name))) := by
    intro vars
    induction vars with
    | nil => exact .nil
    | cons v vars ih =>
      have hfield : (x.extend base.fields).field v.name = x.extend (base.field v.name).fields := by
        simp [Access.extend, Access.field]
      refine .cons ⟨rfl, ?_⟩ ih
      show _ = Except.ok (Expr.access ((x.extend base.fields).field v.name))
      rw [hfield]
      exact Access.apply_inPlaceOf rfl
  exact List.rel_append (follows_zip hparams m.deps) (hearlier _)

end Message

namespace Schema

open Substitution

variable {s : Schema} {x base : Access}

theorem field_mem_exprs {m : Message} {n field : Symbol} {declared : Variable}
    (hm : s.type? n = some (.message m)) (hdeclared : m.field? field = some declared) :
    declared.type.toExpr ∈ s.exprs :=
  exprs_of_type (mem_of_type? hm)
    (List.mem_append_right _ (List.mem_map_of_mem (List.mem_of_find?_eq_some hdeclared)))

/-- **One field.** What `x` has it for is what `y` has it for, once `y` is replaced. -/
theorem hasField_replace_iff (hs : ∀ e ∈ s.exprs, base.var.name ∉ e.vars) {type type' : TypeExpr}
    (htype : (x.inPlaceOf base.var.name).applyType type = .ok type') {f : Ident} {t' : TypeExpr} :
    s.HasField (x.extend base.fields) type' f t'
      ↔ ∃ t, s.HasField base type f t ∧ (x.inPlaceOf base.var.name).applyType t = .ok t' := by
  obtain ⟨params', hparams, rfl⟩ := of_applyType htype
  -- both look up the same field of the same message
  have hlaw : ∀ {m : Message} {declared : Variable}, s.type? type.name = some (.message m) →
      m.field? f.name = some declared →
      ((Substitution.empty.bindAll (m.instances (x.extend base.fields) params' f.name)).applyType
          declared.type = .ok t'
        ↔ ∃ t, (Substitution.empty.bindAll (m.instances base type.params f.name)).applyType
            declared.type = .ok t
          ∧ (x.inPlaceOf base.var.name).applyType t = .ok t') := by
    intro m declared hm hdeclared
    have hfree := hs _ (field_mem_exprs hm hdeclared)
    exact applyType_bindAll_iff Access.inPlaceOf_open (m.follows_instances hparams f.name)
      fun n hn => Access.find?_inPlaceOf fun heq => hfree (heq ▸ hn)
  constructor
  · rintro ⟨m, declared, hm, hdeclared, ht'⟩
    obtain ⟨t, ht, hreplace⟩ := (hlaw hm hdeclared).mp ht'
    exact ⟨t, ⟨m, declared, hm, hdeclared, ht⟩, hreplace⟩
  · rintro ⟨t, ⟨m, declared, hm, hdeclared, ht⟩, hreplace⟩
    exact ⟨m, declared, hm, hdeclared, (hlaw hm hdeclared).mpr ⟨t, ht, hreplace⟩⟩

/-- **All fields of a path.** -/
theorem Path.replace_iff (fields : List Ident) : ∀ (base : Access) {type type' : TypeExpr},
    (∀ e ∈ s.exprs, base.var.name ∉ e.vars) →
    (x.inPlaceOf base.var.name).applyType type = .ok type' → ∀ t' : TypeExpr,
      (s.Path (x.extend base.fields) type' fields t'
        ↔ ∃ t, s.Path base type fields t
          ∧ (x.inPlaceOf base.var.name).applyType t = .ok t') := by
  induction fields with
  | nil =>
    intro base type type' _ htype t'
    simp only [nil_iff, exists_eq_left, htype, Except.ok.injEq]
    exact eq_comm
  | cons f fields ih =>
    intro base type type' hs htype t'
    have hnext : (x.extend base.fields).field f = x.extend (base.field f).fields := by
      simp [Access.extend, Access.field]
    simp only [cons_iff, hnext]
    constructor
    · rintro ⟨u', hfield, hrest⟩
      obtain ⟨u, hfield, hu⟩ := (hasField_replace_iff hs htype).mp hfield
      obtain ⟨t, hrest, ht⟩ := (ih (base.field f) hs hu t').mp hrest
      exact ⟨t, ⟨u, hfield, hrest⟩, ht⟩
    · rintro ⟨t, ⟨u, hfield, hrest⟩, ht⟩
      obtain ⟨u', hu⟩ := Access.exists_applyType_inPlaceOf u
      exact ⟨u', (hasField_replace_iff hs htype).mpr ⟨u, hfield, hu⟩,
        (ih (base.field f) hs hu t').mpr ⟨t, hrest, ht⟩⟩

end Schema

/-! ## §4. Names that are not in use. -/

/-- The name `n` occurs neither in the schema nor in the scope: no expression of the schema has a
variable of that name, it stands for nothing, and no type of a value in scope has it for a
variable. -/
structure Checking.Unused (s : Checking) (schema : Schema) (n : Symbol) : Prop where
  schema : ∀ e ∈ schema.exprs, n ∉ e.vars
  scope : s.scopes.find? n = none
  types : ∀ m type, s.scopes.find? m = some (.value type) → n ∉ type.toExpr.vars

/-- Everything but the variable `y`. -/
def Vocabulary.without (y : Symbol) : Vocabulary := fun r => r ≠ .var y

theorem Expr.within_without_iff {e : Expr} {y : Symbol} : e.Within (.without y) ↔ y ∉ e.vars := by
  rw [Expr.mem_vars]
  exact ⟨fun h hy => h _ hy rfl, fun h r hr heq => h (heq ▸ hr)⟩

/-- What holds of the parameters and of the fields of the value holds of all that is put in. -/
theorem Message.forall_instances (m : Message) {base : Access} {params : List Expr}
    (field : Symbol) {P : Expr → Prop} (hparams : ∀ p ∈ params, P p)
    (hbase : ∀ f, P (.access (base.field f))) :
    ∀ p ∈ m.instances base params field, P p.2 := by
  intro p hp
  rcases List.mem_append.mp hp with hp | hp
  · obtain ⟨⟨dep, param⟩, hmem, rfl⟩ := List.mem_map.mp hp
    exact hparams param (List.of_mem_zip hmem).2
  · obtain ⟨v, -, rfl⟩ := List.mem_map.mp hp
    exact hbase v.name

namespace Schema

open Substitution

variable {s : Schema} {y : Symbol}

/-- **No path leads to a name that is not in use.** -/
theorem Path.within (hs : ∀ e ∈ s.exprs, y ∉ e.vars) {base : Access} {type t : TypeExpr}
    {fields : List Ident} (h : s.Path base type fields t) (hbase : base.var.name ≠ y)
    (htype : type.Within (.without y)) : t.Within (.without y) := by
  induction h with
  | here => exact htype
  | @field base type type' t f fs hfield _ ih =>
    refine ih hbase ?_
    obtain ⟨m, declared, hm, hdeclared, htype'⟩ := hfield
    have hfields : ∀ g, (Expr.access (base.field g)).Within (.without y) :=
      fun g => Expr.within_access.mpr fun heq => hbase (Reference.var.inj heq)
    have hinstances := m.forall_instances f.name (TypeExpr.within_iff.mp htype).2 hfields
    have hcovers : (Substitution.empty.bindAll (m.instances base type.params f.name)).Covers
        (.without y) (.without y) :=
      ⟨fun _ _ h => h, fun _ h _ => h,
        forall_find?_bindAll empty_open hinstances fun _ _ h => by cases h⟩
    have hfree := hs _ (field_mem_exprs hm hdeclared)
    exact hcovers.applyType (t := declared.type) (Expr.within_without_iff.mpr hfree) htype'

end Schema

namespace Typing

open Check

/-- **Paths compose.** Where `x` with some fields has the type `type`, more fields can be taken from
it exactly if they can be taken from a new variable `y` of that type. What is found there, with `x`
and its fields in place of `y`, is what is found for `x` with all fields. -/
theorem accessType_composes (c : Setting) (s : Checking) (hs : s.scopes.frames ≠ []) (x : Access)
    (type : TypeExpr) (hx : (accessType x c s).1 = .ok (.value type)) (more : List Ident)
    (y : Ident) (hy : s.Unused c.schema y.name) (place : Span) :
    let longer := (accessType (x.extend more) c s).1
    let shorter :=
      (accessType ⟨place, y, more⟩ c { s with scopes := s.scopes.bind y.name (.value type) }).1
    ((∃ b, longer = .ok b) ↔ ∃ b, shorter = .ok b)
      ∧ ∀ b b', longer = .ok b → shorter = .ok b' → ∃ t t', b = .value t ∧ b' = .value t'
        ∧ (Access.inPlaceOf { x with span := x.var.span } y.name).applyType t' = .ok t := by
  intro longer shorter
  obtain ⟨origin, horigin, hpath⟩ := exists_path_of_accessType hx
  -- the variable of the path is in scope, and `y` is not
  have hne : x.var.name ≠ y.name := by
    intro heq
    rw [heq, hy.scope] at horigin
    cases horigin
  have htype : y.name ∉ type.toExpr.vars := Expr.within_without_iff.mp
    (hpath.within hy.schema hne (Expr.within_without_iff.mpr (hy.types _ _ horigin)))
  have hlonger := accessType_extend_ok_iff hx more
  have hy' : (s.scopes.bind y.name (.value type)).find? y.name = some (.value type) := by
    rw [Scopes.find?_bind hs, if_pos rfl]
  have hshorter := fun b => accessType_ok_iff (c := c) (a := ⟨place, y, more⟩) (b := b)
    (s := { s with scopes := s.scopes.bind y.name (.value type) }) hy'
  have hreplace := Schema.Path.replace_iff (x := (Access.ofVar x.var).extend x.fields) more
    (.ofVar y) hy.schema (Access.applyType_inPlaceOf_of_notMem htype)
  have hnil : ((Access.ofVar x.var).extend x.fields).extend (Access.ofVar y).fields
      = (Access.ofVar x.var).extend x.fields := Access.extend_nil _
  rw [hnil] at hreplace
  refine ⟨⟨?_, ?_⟩, ?_⟩
  · rintro ⟨b, hb⟩
    obtain ⟨t, -, hleads⟩ := (hlonger b).mp hb
    obtain ⟨t', hleads', -⟩ := (hreplace t).mp hleads
    exact ⟨_, (hshorter _).mpr ⟨t', rfl, hleads'⟩⟩
  · rintro ⟨b, hb⟩
    obtain ⟨t', -, hleads'⟩ := (hshorter b).mp hb
    obtain ⟨t, ht⟩ := Access.exists_applyType_inPlaceOf t'
    exact ⟨_, (hlonger _).mpr ⟨t, rfl, (hreplace t).mpr ⟨t', hleads', ht⟩⟩⟩
  · intro b b' hb hb'
    obtain ⟨t, rfl, hleads⟩ := (hlonger b).mp hb
    obtain ⟨t', rfl, hleads'⟩ := (hshorter b').mp hb'
    obtain ⟨t'', hleads'', ht⟩ := (hreplace t).mp hleads
    rw [path_unique hleads'' hleads'] at ht
    exact ⟨t, t', rfl, rfl, ht⟩

end Typing

namespace Schema

namespace Example

/-- The message 8 depends on the number 10 and has a number 11 and a field 12 of the type
`7(11 + 10)`; the message 9 has a number 13 and a field 14 of the type `8(13)`. -/
def nested : List Declaration :=
  [.type (.message ⟨ident 7, [field 10 0 []], []⟩),
    .type (.message ⟨ident 8, [field 10 0 []],
      [field 11 0 [], field 12 7 [.binary ⟨0, 0⟩ .add (var 11) (var 10)]]⟩),
    .type (.message ⟨ident 9, [], [field 13 0 [], field 14 8 [var 13]]⟩)]

/-- A variable with fields. -/
def path (slot : UInt32) (fields : List UInt32) : Access := ⟨⟨0, 0⟩, ident slot, fields.map ident⟩

/-- The variable 15 stands for a value of the type 9. -/
def nestedScope : Checking :=
  ⟨Scopes.single.bind ⟨15⟩ (.value (type 9 [])), .empty, false, [], []⟩

/-- The type `7(a + 15.13)`. -/
def leafType (a : Access) : TypeExpr :=
  type 7 [.binary ⟨0, 0⟩ .add (.access a) (.access (path 15 [13]))]

end Example

open Example

/-- The type of `15.14` is `8(15.13)`, and `16.12` has the type `7(16.11 + 15.13)` where 16 is of
that type. So the type of `15.14.12` is `7(15.14.11 + 15.13)`. -/
theorem accessType_composes_nested :
    let c : Setting := ⟨ofDeclarations nested, Structural.oracle⟩
    let type' := type 8 [.access (path 15 [13])]
    let u := { nestedScope with scopes := nestedScope.scopes.bind ⟨16⟩ (.value type') }
    (Typing.accessType (path 15 [14]) c nestedScope).1 = .ok (.value type')
      ∧ nestedScope.Unused c.schema ⟨16⟩
      ∧ (Typing.accessType (path 16 [12]) c u).1 = .ok (.value (leafType (path 16 [11])))
      ∧ (Typing.accessType (path 15 [14, 12]) c nestedScope).1
        = .ok (.value (leafType (path 15 [14, 11]))) := by
  intro c type' u
  have hopen : nestedScope.scopes.frames ≠ [] := Scopes.bind_open (List.cons_ne_nil _ _) _ _
  have hx : (Typing.accessType (path 15 [14]) c nestedScope).1 = .ok (.value type') := by cbv
  have hunused : nestedScope.Unused c.schema ⟨16⟩ := by
    -- the type of 15, which is all that is in scope, has no variables
    have htypes : ∀ m b, nestedScope.scopes.find? m = some b → ∀ type, b = .value type →
        ⟨16⟩ ∉ type.toExpr.vars := by
      refine Scopes.forall_find?_bind (List.cons_ne_nil _ _) ?_ fun _ _ h => by cases h
      rintro _ ⟨⟩
      exact List.not_mem_nil
    exact ⟨by decide, by decide, fun m type hm => htypes m _ hm type rfl⟩
  have hshorter : (Typing.accessType (path 16 [12]) c u).1
      = .ok (.value (leafType (path 16 [11]))) := by cbv
  obtain ⟨hiff, hequal⟩ := Typing.accessType_composes c nestedScope hopen (path 15 [14]) type' hx
    [ident 12] (ident 16) hunused ⟨0, 0⟩
  obtain ⟨b, hb⟩ := hiff.mpr ⟨_, hshorter⟩
  obtain ⟨t, t', rfl, ht', happly⟩ := hequal b _ hb hshorter
  cases ht'
  have hreplaced := happly.symm.trans (show _ = Except.ok (leafType (path 15 [14, 11])) from rfl)
  rw [Except.ok.inj hreplaced] at hb
  exact ⟨hx, hunused, hshorter, hb⟩

end Schema

end DepSchema
