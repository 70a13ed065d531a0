/-
DepSchema.Proofs.Instantiation.Fields — the types of fields are well-formed where values are used.

The type of a field is checked once, where its message is declared and nothing else is in scope. At
a value of the message the parameters of its type stand for the dependencies, and the value with its
earlier fields for these fields. All of them pass there one after the other, as they were declared:
the parameters because the type of the value is well-formed, the earlier fields because each has the
type that it was given. So the type of the field is well-formed again.

This needs dependencies with different names. Where two share one, what is declared between them
means the first, and the parameters at a use stand for the second in all types.

It also needs steady types, whose parameters are checked part by part. Only the types and functions
that the scope leads to have to be so; the rest of the schema plays no part in the checks.

Main result: `fieldAccess_formed`.
-/
import DepSchema.Proofs.Instantiation.Kept
import DepSchema.Proofs.Instantiation.Supplied

namespace DepSchema

open Substitution (Becomes BecomeAll Carries)

namespace Typing

variable {c : Setting} {t : Checking}

/-! ## §1. What passes one after the other. -/

theorem checkParams_append_iff (hc : c.oracle = Structural.oracle) (ht : t.Outer)
    {vars others : List Variable} {qs : List Expr} : ∀ {σ : Substitution} {ps : List Expr},
      ps.length = vars.length → ((checkParams σ (vars ++ others) (ps ++ qs) c t).1 = .ok ()
        ↔ (checkParams σ vars ps c t).1 = .ok ()
          ∧ (checkParams (Substitution.supply σ vars ps) others qs c t).1 = .ok ()) := by
  induction vars with
  | nil =>
    intro σ ps h
    rw [List.length_eq_zero_iff.mp h]
    exact (and_iff_right rfl).symm
  | cons v vars ih =>
    intro σ ps h
    cases ps with
    | nil => cases h
    | cons p ps =>
      rw [List.cons_append, List.cons_append, checkParams_cons_iff hc ht,
        checkParams_cons_iff hc ht, ih (by simpa using h)]
      constructor
      · rintro ⟨type, htype, hvalue, hrest, hothers⟩
        exact ⟨⟨type, htype, hvalue, hrest⟩, hothers⟩
      · rintro ⟨⟨type, htype, hvalue, hrest⟩, hothers⟩
        exact ⟨type, htype, hvalue, hrest, hothers⟩

/-- Variables pass if each passes behind those before it. -/
theorem checkParams_of_forall (hc : c.oracle = Structural.oracle) (ht : t.Outer)
    {g : Variable → Expr} {vars : List Variable} : ∀ {σ : Substitution},
      (∀ before v after, vars = before ++ v :: after → ∃ type,
        (Substitution.supply σ before (before.map g)).applyType v.type = .ok type
          ∧ (checkValue (g v) type c t).1 = .ok ()) →
      (checkParams σ vars (vars.map g) c t).1 = .ok () := by
  induction vars with
  | nil => exact fun _ => rfl
  | cons v vars ih =>
    intro σ h
    obtain ⟨type, htype, hvalue⟩ := h [] v vars rfl
    refine (checkParams_cons_iff hc ht).mpr ⟨type, htype, hvalue, ih fun before w after heq => ?_⟩
    exact h (v :: before) w after (congrArg (v :: ·) heq)

end Typing

/-! ## §2. Fields of a variable. -/

theorem Message.before_of_eq {m : Message} (hnodup : (Variable.names m.fields).Nodup)
    {before after : List Variable} {v : Variable} (h : m.fields = before ++ v :: after) :
    m.field? v.name.name = some v ∧ m.before v.name.name = before := by
  have hmem : v ∈ m.fields := by
    rw [h]
    exact List.mem_append_right _ List.mem_cons_self
  have hother : ∀ w ∈ before, (w.name.name != v.name.name) = true := by
    intro w hw
    rw [Variable.names, h, List.map_append] at hnodup
    have hne := (List.nodup_append.mp hnodup).2.2 w.name.name (List.mem_map_of_mem hw) v.name.name
      (List.mem_map_of_mem List.mem_cons_self)
    simpa using hne
  refine ⟨Variable.find?_of_mem hnodup hmem, ?_⟩
  rw [Message.before, h, List.takeWhile_append_of_pos hother, List.takeWhile_cons_of_neg (by simp),
    List.append_nil]

namespace Typing

variable {c : Setting} {t : Checking}

section

variable (hp : c.schema.Proper) (hw : c.schema.WellSorted) (ht : t.WellSorted c) {v : Ident}
  {type : TypeExpr} (hv : t.scopes.find? v.name = some (.value type)) {m : Message}
  (hm : c.schema.type? type.name = some (.message m))

include hp hw ht hv hm

/-- Every declared field of a variable is there. -/
theorem exists_accessType {f : Ident} {declared : Variable}
    (hdeclared : m.field? f.name = some declared) : ∃ type',
      (accessType ((Access.ofVar v).field f) c t).1 = .ok (.value type')
        ∧ (Substitution.supply (.supply .empty m.deps type.params) (m.before f.name)
            (m.earlier (.ofVar v) f.name)).applyType declared.type = .ok type'
        ∧ type'.toExpr.HasSort c.schema t.sorts .type := by
  obtain ⟨κ, hκ⟩ := Option.isSome_iff_exists.mp (ht.values _ _ hv)
  have hx : (Expr.access (.ofVar v)).HasSort c.schema t.sorts (.value κ) :=
    .access (Checking.sorts_eq_some.mpr ⟨type, hv, hκ⟩) rfl
  have htype := ht.types _ _ hv
  obtain ⟨type', hfield⟩ := Schema.exists_hasField hp hw hm hx hκ htype hdeclared
  obtain ⟨_, -, -, htype'⟩ := hfield.sorted hp hw hx hκ htype
  refine ⟨type', (accessType_ok_iff (a := (Access.ofVar v).field f) hv).mpr
    ⟨type', rfl, .field hfield .here⟩, ?_, htype'⟩
  obtain ⟨m', declared', hm', hdeclared', happly⟩ := hfield
  rw [hm] at hm'
  cases hm'
  rw [hdeclared] at hdeclared'
  cases hdeclared'
  rwa [Message.bindAll_eq_supply] at happly

/-- The fields before another one pass, each against its declared type. -/
theorem checkParams_earlier (hc : c.oracle = Structural.oracle) {f : Ident} {declared : Variable}
    (hdeclared : m.field? f.name = some declared) :
    (checkParams (.supply .empty m.deps type.params) (m.before f.name)
      (m.earlier (.ofVar v) f.name) c t).1 = .ok () := by
  have hdistinct := hp.tidy.fields _ (Schema.mem_of_type? hm) _ (List.mem_singleton_self _)
  refine checkParams_of_forall hc ht.outer fun before w after hbefore => ?_
  obtain ⟨rest, hfields⟩ := Message.exists_fields_eq hdeclared
  rw [hbefore, List.append_assoc, List.cons_append] at hfields
  obtain ⟨hw', hbefore'⟩ := Message.before_of_eq hdistinct hfields
  obtain ⟨type', haccess, happly, hsort⟩ := exists_accessType hp hw ht hv hm (f := w.name) hw'
  rw [Message.earlier, hbefore'] at happly
  exact ⟨type', happly, (checkValue_access_iff hc ht.outer).mpr
    ⟨type', haccess, (Expr.Same.refl hsort.fieldsDistinct).equal⟩⟩

end

end Typing

/-! ## §3. Schemas that are accepted. -/

namespace Schema

open Typing

variable {s : Schema}

/-- The dependencies and the fields of a message have different names if the dependencies have. -/
theorem Accepted.names_nodup (h : s.Accepted) {n : Symbol} {m : Message}
    (hm : s.type? n = some (.message m)) (hdeps : (Variable.names m.deps).Nodup) (field : Symbol) :
    (Variable.names (m.deps ++ m.before field)).Nodup := by
  have hmem := mem_of_type? hm
  have hsub : (Variable.names (m.before field)).Sublist (Variable.names m.fields) :=
    (List.takeWhile_sublist _).map _
  have hfields := h.tidy.fields _ hmem _ (List.mem_singleton_self _)
  have hapart := h.apart _ hmem _ (List.mem_singleton_self _)
  rw [Variable.names, List.map_append]
  refine List.nodup_append.mpr ⟨hdeps, hfields.sublist hsub, fun a ha b hb heq => ?_⟩
  exact hapart b (hsub.subset hb) (heq ▸ ha)

/-- A declared field has a well-formed type in the scope of the dependencies and the fields before.
-/
theorem Accepted.exists_declared (h : s.Accepted) {n : Symbol} {m : Message}
    (hm : s.type? n = some (.message m)) {field : Symbol} {declared : Variable}
    (hdeclared : m.field? field = some declared) : ∃ blank : Checking, blank.Blank ∧
      (requireFormed declared.type ⟨s, Structural.oracle⟩
        (blank.declare (m.deps ++ m.before field))).1 = .ok () := by
  obtain ⟨blank, hblank, hok⟩ := h.fields _ (mem_of_type? hm) rfl _ (List.mem_singleton_self _)
  obtain ⟨after, hfields⟩ := Message.exists_fields_eq hdeclared
  have hok : (introduceVariables (m.deps ++ m.fields) ⟨s, Structural.oracle⟩ blank).1 = .ok () :=
    hok
  rw [hfields, ← List.append_assoc, introduceVariables_append_iff rfl _ hblank.toReady,
    introduceVariables_cons_iff rfl (hblank.toReady.declare _)] at hok
  exact ⟨blank, hblank, hok.2.1⟩

/-- The values of a scope whose types are well-formed and steady have well-sorted types. -/
theorem Proper.wellSorted_scope {c : Setting} (hc : c.oracle = Structural.oracle)
    (hp : c.schema.Proper) {u : Checking} (hu : u.Outer)
    (hfree : ∀ n f, c.schema.function? n = some f → u.scopes.find? n = none)
    (htypes : ∀ n type, u.scopes.find? n = some (.value type) →
      type.toExpr.steady c.schema = true ∧ (requireFormed type c u).1 = .ok ()) :
    u.WellSorted c := by
  have hsorted : u.Sorted c := by
    refine ⟨hu, fun n type hn => ?_, fun n ft hn => ?_⟩
    · exact (formed_of_requireFormed (Prod.ext (htypes n type hn).2 rfl)).sort?_isSome
    · rw [Option.eq_none_iff_forall_ne_some]
      intro f hf
      rw [hfree n f hf] at hn
      cases hn
  exact ⟨hsorted, fun n type hn =>
    hasSort_of_requireFormed hc hp hsorted _ rfl (htypes n type hn).1 (htypes n type hn).2⟩

/-- **Fields have well-formed types**, in every scope with well-formed types. -/
theorem Accepted.formed_of_field (h : s.Accepted) (hsteady : s.Steady) {c : Setting}
    (hs : c.schema = s) (hc : c.oracle = Structural.oracle) {u : Checking} (hu : u.Outer)
    (hfree : ∀ n f, s.function? n = some f → u.scopes.find? n = none)
    (htypes : ∀ n type, u.scopes.find? n = some (.value type) →
      type.toExpr.steady s = true ∧ (requireFormed type c u).1 = .ok ())
    {v : Ident} {type : TypeExpr} (hv : u.scopes.find? v.name = some (.value type)) {m : Message}
    (hm : s.type? type.name = some (.message m)) (hdeps : (Variable.names m.deps).Nodup)
    {f : Ident} {declared : Variable} (hdeclared : m.field? f.name = some declared) :
    ∃ type', (accessType ((Access.ofVar v).field f) c u).1 = .ok (.value type')
      ∧ (requireFormed type' c u).1 = .ok () := by
  obtain rfl : c = ⟨s, Structural.oracle⟩ := by
    obtain ⟨_, _⟩ := c
    cases hs
    cases hc
    rfl
  have hw := h.wellSorted hsteady
  have ht := Proper.wellSorted_scope (c := ⟨s, Structural.oracle⟩) rfl h.toProper hu hfree htypes
  have hmem := mem_of_type? hm
  obtain ⟨type', haccess, happly, -⟩ := exists_accessType h.toProper hw ht hv hm hdeclared
  refine ⟨type', haccess, ?_⟩
  -- the parameters, and after them the fields before, are what is supplied
  obtain ⟨hvsteady, hvformed⟩ := htypes _ _ hv
  have hname : type.name ∉ Symbol.builtins := fun hbuiltin => by
    rw [h.builtin _ hbuiltin] at hm
    cases hm
  obtain ⟨deps, hdeps', hlength, hparams⟩ := (requireFormed_declared_iff rfl hu hname).mp hvformed
  obtain rfl : m.deps = deps := by
    rw [Schema.deps?, hm] at hdeps'
    exact Option.some.inj hdeps'
  have hvalues : (checkParams .empty (m.deps ++ m.before f.name)
      (type.params ++ m.earlier (.ofVar v) f.name) ⟨s, Structural.oracle⟩ u).1 = .ok () :=
    (checkParams_append_iff rfl hu hlength).mpr
      ⟨hparams, checkParams_earlier h.toProper hw ht hv hm rfl hdeclared⟩
  have hlength' : (type.params ++ m.earlier (.ofVar v) f.name).length
      = (m.deps ++ m.before f.name).length := by
    rw [List.length_append, List.length_append, hlength, Message.earlier, List.length_map]
  have hsteady' : ∀ p ∈ type.params ++ m.earlier (.ofVar v) f.name, p.steady s = true :=
    List.forall_mem_append.mpr
      ⟨Expr.steadyAll_iff.mp hvsteady, List.forall_mem_map.mpr fun _ _ => rfl⟩
  have hsorts : ∀ w ∈ m.deps ++ m.before f.name, w.type.sort?.isSome = true :=
    List.forall_mem_append.mpr ⟨fun w hw' => (h.formed.deps _ hmem w hw').sort?_isSome,
      fun w hw' => h.sort?_of_messageField hm ((List.takeWhile_sublist _).subset hw')⟩
  have hsorted : Variable.WellSorted s .none (m.deps ++ m.fields) :=
    hw.fields _ hmem rfl _ (List.mem_singleton_self _)
  obtain ⟨after, hfields⟩ := Message.exists_fields_eq hdeclared
  rw [hfields, ← List.append_assoc, Variable.wellSorted_append] at hsorted
  obtain ⟨blank, hblank, hformed⟩ := h.exists_declared hm hdeclared
  have hcarries := Substitution.carries_of_checkParams rfl h.toProper hw ht hfree
    (h.names_nodup hm hdeps f.name) hsorted.1 hsorts hlength' hsteady' hvalues hblank
  refine hcarries.requireFormed rfl h.toProper hw _ rfl ?_ hformed ?_
  · exact hsteady.fields _ hmem rfl _ (List.mem_singleton_self _) declared
      (List.mem_of_find?_eq_some hdeclared)
  · rw [Substitution.supply_append _ _ hlength]
    exact happly

/-- The same where no more is known of the schema than what the scope leads to. -/
theorem Accepted.formed_of_field_leading {c : Setting} (h : c.schema.Accepted)
    (hnames : c.schema.nameFaults = []) (hc : c.oracle = Structural.oracle) {P : Entity → Prop}
    (hP : c.schema.ClosedUnderUses P) (hsteady : c.schema.SteadyOn P) {u : Checking} (hu : u.Outer)
    (hscope : u.scopes.Within (c.schema.leading P))
    (hfree : ∀ n f, P (.function n) → c.schema.function? n = some f → u.scopes.find? n = none)
    (htypes : ∀ n type, u.scopes.find? n = some (.value type) →
      type.toExpr.steady c.schema = true ∧ (requireFormed type c u).1 = .ok ())
    {v : Ident} {type : TypeExpr} (hv : u.scopes.find? v.name = some (.value type)) {m : Message}
    (hm : c.schema.type? type.name = some (.message m)) (hdeps : (Variable.names m.deps).Nodup)
    {f : Ident} {declared : Variable} (hdeclared : m.field? f.name = some declared) :
    ∃ type', (accessType ((Access.ofVar v).field f) c u).1 = .ok (.value type')
      ∧ (requireFormed type' c u).1 = .ok () := by
  classical
  have hW := closed_leading hnames hP
  have hagrees := agreesOn_keeping (P := P) hnames
  have hopen : u.scopes.frames ≠ [] := fun hclosed => by
    rw [Scopes.find?, hclosed] at hv
    cases hv
  have hwithin : u.Within (c.schema.leading P) := ⟨hscope, hopen, hu.isOpen⟩
  -- in this scope both checks run with what is kept as they do with the whole schema
  have hformed : ∀ {t : TypeExpr}, t.Within (u.reach (c.schema.leading P)) →
      requireFormed t ⟨c.schema.keeping P, c.oracle⟩ u = requireFormed t c u := fun {t} ht =>
    (asks_requireFormed h.tidy hW hwithin ht).agrees _ hagrees
  have haccess := asks_accessType hW hwithin ((Access.ofVar v).field f)
  have hfree' : ∀ n g, (c.schema.keeping P).function? n = some g → u.scopes.find? n = none := by
    intro n g hg
    rw [function?_keeping] at hg
    split at hg
    · next hkept =>
      obtain ⟨f, hf, -⟩ := Option.map_eq_some_iff.mp hg
      exact hfree n f hkept hf
    · cases hg
  have htypes' : ∀ n w, u.scopes.find? n = some (.value w) →
      w.toExpr.steady (c.schema.keeping P) = true
        ∧ (requireFormed w ⟨c.schema.keeping P, c.oracle⟩ u).1 = .ok () := by
    intro n w hn
    have hw : w.Within (u.reach (c.schema.leading P)) := hscope n _ hn
    rw [Expr.steady_of_agreesOn hW hagrees _ hw, hformed hw]
    exact htypes n w hn
  have hword := Vocabulary.of_also (TypeExpr.within_iff.mp (hscope _ _ hv)).1 (by simp)
  obtain ⟨type', htype', hpasses⟩ := (h.keeping hnames hP).formed_of_field
    (hsteady.keeping hnames hP) (c := ⟨c.schema.keeping P, c.oracle⟩) rfl hc hu hfree' htypes' hv
    ((hagrees.type hword).trans hm) hdeps hdeclared
  rw [haccess.agrees _ hagrees] at htype'
  refine ⟨type', htype', ?_⟩
  have hsteps : Check.StepwiseInside false (accessType ((Access.ofVar v).field f)) :=
    stepwise_accessType _
  have hstill := hsteps.quiet.still_of_run (c := c) hu.isOpen rfl
  have hreach : type'.Within (u.reach (c.schema.leading P)) := by
    rw [Checking.reach, ← hstill.scopes hu.notReading]
    exact (haccess.results _ htype').2
  rwa [hformed hreach] at hpasses

/-- **Fields have well-formed types** where a schema that is accepted is used. In a scope outside a
rule input whose values have well-formed types, each declared field of a variable of a message has a
type, which is well-formed, if no two dependencies of the message have one name.

This is known for steady types only, of what the scope leads to: nothing in it subtracts or asks
`in`, calls a function with functions or for a message, or is built with a constructor of an enum
that has dependencies. No function that the scope leads to is hidden by a name in scope. The rest of
the schema may be as it is. -/
theorem fieldAccess_formed {t : SymbolTable}
    (hok : (s.checkWith t Structural.oracle).result = .ok ()) {c : Setting}
    (hschema : c.schema = (s.checkWith t Structural.oracle).schema)
    (horacle : c.oracle = Structural.oracle) {P : Entity → Prop} (hP : c.schema.ClosedUnderUses P)
    (hsteady : c.schema.SteadyOn P) {u : Checking} (hu : u.Outer)
    (hscope : u.scopes.Within (c.schema.leading P))
    (hfree : ∀ n f, P (.function n) → c.schema.function? n = some f → u.scopes.find? n = none)
    (htypes : ∀ n type, u.scopes.find? n = some (.value type) →
      type.toExpr.steady c.schema = true ∧ (requireFormed type c u).1 = .ok ())
    {v : Ident} {type : TypeExpr} (hv : u.scopes.find? v.name = some (.value type)) {m : Message}
    (hm : c.schema.type? type.name = some (.message m)) (hdeps : (Variable.names m.deps).Nodup)
    {f : Ident} {declared : Variable} (hdeclared : m.field? f.name = some declared) :
    ∃ type', (accessType ((Access.ofVar v).field f) c u).1 = .ok (.value type')
      ∧ (requireFormed type' c u).1 = .ok () := by
  obtain ⟨hnames, order, horder, htyping⟩ := typing_of_checkWith hok
  have haccepted : c.schema.Accepted ∧ c.schema.nameFaults = [] := by
    rw [hschema, checkWith_of_order hnames horder, (typeStage_eq _ _ _).1]
    exact ⟨accepted_of_typing hnames horder htyping, hnames⟩
  exact haccepted.1.formed_of_field_leading haccepted.2 horacle hP hsteady hu hscope hfree htypes hv
    hm hdeps hdeclared

namespace Example

/-- The message 7 depends on a number, 8 on a number 10 and a value of the type `7(10)`, and 9 on a
number 12, a value 13 of the type `7(12)` and more; its field 14 has the type `8(12, 13)`. -/
def paired (more : List Variable) : List Declaration :=
  [.type (.message ⟨ident 7, [field 10 0 []], []⟩),
    .type (.message ⟨ident 8, [field 10 0 [], field 11 7 [var 10]], []⟩),
    .type (.message ⟨ident 9, [field 12 0 [], field 13 7 [var 12]] ++ more,
      [field 14 8 [var 12, var 13]]⟩)]

/-- The schema with these messages, in the order in which they are checked. -/
def pairedSetting (more : List Variable) : Setting :=
  ⟨(ofDeclarations (paired more)).withOrder [⟨7⟩, ⟨8⟩, ⟨9⟩], Structural.oracle⟩

/-- The variable 15 of the type `7(1)` and the variable 16 of the type `9(1, 15)`, with more
parameters if need be. -/
def pairedVariables (more : List Expr) : List Variable :=
  [⟨ident 15, type 7 [int 1]⟩, ⟨ident 16, type 9 ([int 1, var 15] ++ more)⟩]

/-- What holds of the types of both variables holds of all that is in scope where only these are. -/
theorem forall_pairedVariables {P : Binding → Prop} {more : List Expr}
    (hfirst : P (.value (type 7 [int 1])))
    (hsecond : P (.value (type 9 ([int 1, var 15] ++ more)))) (n : Symbol) (b : Binding)
    (h : (Checking.start.declare (pairedVariables more)).scopes.find? n = some b) : P b := by
  rcases Checking.of_find?_declare (s := .start) (List.cons_ne_nil _ _) h with
    ⟨w, hw, -, rfl⟩ | hstart
  · rcases List.mem_pair.mp hw with rfl | rfl
    · exact hfirst
    · exact hsecond
  · cases hstart

/-- What holds of the types of both variables holds of all types in scope there. -/
theorem forall_pairedTypes {P : TypeExpr → Prop} {more : List Expr}
    (hfirst : P (type 7 [int 1])) (hsecond : P (type 9 ([int 1, var 15] ++ more))) (n : Symbol)
    (t : TypeExpr)
    (h : (Checking.start.declare (pairedVariables more)).scopes.find? n = some (.value t)) :
    P t := by
  refine forall_pairedVariables (P := fun b => ∀ t, b = .value t → P t) ?_ ?_ n _ h t rfl
  · rintro _ ⟨⟩
    exact hfirst
  · rintro _ ⟨⟩
    exact hsecond

/-- The message 17 has a field of the type `7(3 - 2)`, and there is a function that is called 15. -/
def unpaired : List Declaration :=
  [.type (.message ⟨ident 17, [], [field 18 7 [.binary ⟨0, 0⟩ .sub (int 3) (int 2)]]⟩),
    .function ⟨ident 15, [], type 0 [], none⟩]

/-- The schema with the three messages and these declarations. -/
def unpairedSetting : Setting :=
  ⟨(ofDeclarations (paired [] ++ unpaired)).withOrder [⟨7⟩, ⟨17⟩, ⟨8⟩, ⟨9⟩], Structural.oracle⟩

/-- What both variables lead to: the three messages and the type of the numbers. The names of their
dependencies are those of no functions. -/
def ofPaired : List Entity :=
  [.type ⟨7⟩, .type ⟨8⟩, .type ⟨9⟩, .type ⟨0⟩, .function ⟨10⟩, .function ⟨11⟩, .function ⟨12⟩,
    .function ⟨13⟩]

end Example

open Example

/-- The field 14 of the variable 16 has the type `8(1, 15)`, whatever else the schema declares. -/
theorem fieldAccess_formed_pair :
    let c := unpairedSetting
    let u := Checking.start.declare (pairedVariables [])
    let run := (ofDeclarations (paired [] ++ unpaired)).checkWith names Structural.oracle
    run.result = .ok () ∧ c.schema = run.schema
      ∧ c.schema.ClosedUnderUses (· ∈ ofPaired) ∧ c.schema.SteadyOn (· ∈ ofPaired)
      ∧ u.scopes.Within (c.schema.leading (· ∈ ofPaired))
      ∧ (∀ n t, u.scopes.find? n = some (.value t) →
        t.toExpr.steady c.schema = true ∧ (requireFormed t c u).1 = .ok ())
      ∧ (accessType ((Access.ofVar (ident 16)).field (ident 14)) c u).1
        = .ok (.value (type 8 [int 1, var 15]))
      ∧ (requireFormed (type 8 [int 1, var 15]) c u).1 = .ok () := by
  intro c u run
  have hnames : (ofDeclarations (paired [] ++ unpaired)).nameFaults = [] := by cbv
  have horder : (ofDeclarations (paired [] ++ unpaired)).typeOrder names
      = .ok [⟨7⟩, ⟨17⟩, ⟨8⟩, ⟨9⟩] := by cbv
  have htyping : (c.schema.typing Structural.oracle).1 = .ok () := by cbv
  obtain ⟨hok, hschema⟩ := checkWith_of_typing hnames horder htyping
  have hP : c.schema.ClosedUnderUses (· ∈ ofPaired) := closedUnderUses_of_entities (by decide)
  have hsteady : c.schema.SteadyOn (· ∈ ofPaired) := by
    refine ⟨by decide, by decide, fun f hf hkept => ?_⟩
    obtain rfl := List.mem_singleton.mp hf
    exact absurd hkept (by decide)
  have hscope : u.scopes.Within (c.schema.leading (· ∈ ofPaired)) := by
    refine forall_pairedVariables ?_ ?_
    · exact List.forall_mem_singleton.mpr (.inl (leading_of_entity? rfl (by decide)))
    · refine List.forall_mem_cons.mpr ⟨.inl (leading_of_entity? rfl (by decide)), ?_⟩
      exact List.forall_mem_singleton.mpr (.inr ⟨⟨15⟩, rfl, by cbv⟩)
  have htypes : ∀ n t, u.scopes.find? n = some (.value t) →
      t.toExpr.steady c.schema = true ∧ (requireFormed t c u).1 = .ok () :=
    forall_pairedTypes ⟨by cbv, by cbv⟩ ⟨by cbv, by cbv⟩
  have haccess : (accessType ((Access.ofVar (ident 16)).field (ident 14)) c u).1
      = .ok (.value (type 8 [int 1, var 15])) := by cbv
  have hfree : ∀ n f, .function n ∈ ofPaired → c.schema.function? n = some f →
      u.scopes.find? n = none := by
    intro n f hn hf
    have hkeyed : c.schema.Keyed := keyed_of_nameFaults hnames
    obtain ⟨hmem, rfl⟩ := hkeyed.function?_eq_some.mp hf
    obtain rfl := List.mem_singleton.mp hmem
    exact absurd hn (by decide)
  obtain ⟨type', htype, hformed⟩ := fieldAccess_formed hok hschema.symm rfl hP hsteady
    ⟨rfl, List.cons_ne_nil _ _⟩ hscope hfree htypes (v := ident 16) (by cbv) (by cbv) (by decide)
    (f := ident 14) (by cbv)
  rw [haccess] at htype
  cases htype
  exact ⟨hok, hschema.symm, hP, hsteady, hscope, htypes, haccess, hformed⟩

/-- **Where two dependencies share a name, the type of a field may be ill-formed.** With a third
dependency, a number that is called 12 like the first one, the schema passes; in the scope of 15 and
of 16 with the type `9(1, 15, 2)` the field 14 has the type `8(2, 15)`, in which 15 should have the
type `7(2)`. -/
theorem fieldAccess_shadowed :
    let c := pairedSetting [field 12 0 []]
    let u := Checking.start.declare (pairedVariables [int 2])
    let run := (ofDeclarations (paired [field 12 0 []])).checkWith names Structural.oracle
    run.result = .ok () ∧ c.schema = run.schema
      ∧ (∀ n t, u.scopes.find? n = some (.value t) → (requireFormed t c u).1 = .ok ())
      ∧ (accessType ((Access.ofVar (ident 16)).field (ident 14)) c u).1
        = .ok (.value (type 8 [int 2, var 15]))
      ∧ (requireFormed (type 8 [int 2, var 15]) c u).1
        = .error (.located ⟨0, 0⟩ (.parameterMismatch 0 (int 2) (int 1))) := by
  intro c u run
  have hnames : (ofDeclarations (paired [field 12 0 []])).nameFaults = [] := by cbv
  have horder : (ofDeclarations (paired [field 12 0 []])).typeOrder names
      = .ok [⟨7⟩, ⟨8⟩, ⟨9⟩] := by cbv
  have htyping : (c.schema.typing Structural.oracle).1 = .ok () := by cbv
  obtain ⟨hok, hschema⟩ := checkWith_of_typing hnames horder htyping
  refine ⟨hok, hschema.symm, forall_pairedTypes (by cbv) (by cbv), by cbv, by cbv⟩

end Schema

end DepSchema
