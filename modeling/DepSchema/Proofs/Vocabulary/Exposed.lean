/-
DepSchema.Proofs.Vocabulary.Exposed — names that the check of names lets out of their scope.

The check of names accepts a name wherever it is declared at that point of the text. In some places
that is more than what the checks of types have in scope, or replace, when they come to use what is
written there: in what a rule input compares, in a constructed value that uses its own earlier
fields, in a function type beside the parameters that it uses, where a type is given fewer
parameters than it has dependencies, and where a variable has the name of a type or a constructor.
A declaration *exposes* the names of those places, its own and those of what it leads to. In a
schema without name faults, what a declaration leads to is within the vocabulary of the functions
and of the names that it exposes.

Main results: `Schema.within_of_nameFaults` and `Schema.closed_of_nameFaults`.
-/
import DepSchema.Proofs.Vocabulary.Reached

namespace DepSchema

/-! ## §1. Names of expressions. -/

namespace Expr

mutual

/-- The earlier fields of a constructed value that the value of a later field uses as variables, at
any depth. -/
def ownFields : Expr → List Symbol
  | binary _ _ l r => ownFields l ++ ownFields r
  | unary _ _ x => ownFields x
  | type _ _ ps => ownFieldsAll ps
  | access _ => []
  | scalar _ _ => []
  | constructed _ _ fs => ownFieldsFrom [] fs
  | collection _ es => ownFieldsAll es
  | call _ _ as => ownFieldsAll as
termination_by structural e => e

/-- The same for several expressions. -/
def ownFieldsAll : List Expr → List Symbol
  | [] => []
  | e :: es => ownFields e ++ ownFieldsAll es
termination_by structural es => es

/-- The same for the fields of one value, of which `earlier` were before. -/
def ownFieldsFrom (earlier : List Symbol) : List (Named Expr) → List Symbol
  | [] => []
  | f :: fs =>
    f.val.vars.filter earlier.contains ++ ownFields f.val
      ++ ownFieldsFrom (earlier ++ [f.name.name]) fs
termination_by structural fs => fs

end

mutual

/-- The variables of a rule input that are compared and not bound. -/
def compared : Expr → List Symbol
  | constructed _ _ fs => comparedFields fs
  | e => e.vars
termination_by structural e => e

/-- The same for the values of several fields. -/
def comparedFields : List (Named Expr) → List Symbol
  | [] => []
  | f :: fs => (if f.val.bareVar?.isSome then [] else compared f.val) ++ comparedFields fs
termination_by structural fs => fs

end

end Expr

/-- The variables of an input that are compared and not bound. -/
def RuleInput.compared : RuleInput → List Symbol
  | any _ => []
  | value p => if p.bareVar?.isSome then [] else p.compared

/-! ## §2. Names of declarations. -/

namespace ParameterType

/-- The variables that occur in a function type; none for a type of values. -/
def functionVars : ParameterType → List Symbol
  | value _ => []
  | function ps result => (exprs (.function ps result)).flatMap Expr.vars

mutual

/-- The parameters inside the type of a parameter that function types beside them use. -/
def beside : ParameterType → List Symbol
  | value _ => []
  | function ps _ => besideFrom [] ps
termination_by structural t => t

/-- The same for several parameters, of which `earlier` were before. -/
def besideFrom (earlier : List Symbol) : List (Named ParameterType) → List Symbol
  | [] => []
  | p :: ps =>
    p.val.functionVars.filter earlier.contains ++ beside p.val
      ++ besideFrom (earlier ++ [p.name.name]) ps
termination_by structural ps => ps

end

end ParameterType

/-- The rule inputs of a type; a message has none. -/
def TypeDef.inputs : TypeDef → List RuleInput
  | message _ => []
  | enum e => e.rules.flatMap Rule.inputs

namespace Schema

/-- The dependencies that are left without a parameter where a type is given so many of them. -/
def unsupplied (s : Schema) : Reference → List Symbol
  | .type n k =>
    match s.type? n with
    | some d => Variable.names (d.deps.drop k)
    | none => []
  | _ => []

/-- The name is declared everywhere and stands for no function: a type, builtin or declared, or a
constructor. -/
def valueless (s : Schema) (n : Symbol) : Bool := s.globals n && (s.function? n).isNone

/-- The names that may get out of their scope where the expression is used: own fields of
constructed values, dependencies without a parameter, and variables that have the name of a type or
of a constructor. -/
def exposedOf (s : Schema) (e : Expr) : List Symbol :=
  e.ownFields ++ e.refs.flatMap s.unsupplied ++ e.vars.filter s.valueless

/-- The names that may get out of their scope in a declaration itself: what rule inputs compare,
parameters beside function types that use them, and what its expressions expose. -/
def exposedBy (s : Schema) : Entity → List Symbol
  | .type n =>
    match s.type? n with
    | some d => d.inputs.flatMap RuleInput.compared ++ d.exprs.flatMap s.exposedOf
    | none => []
  | .function n =>
    match s.function? n with
    | some f => ParameterType.besideFrom [] f.params ++ f.signature.exprs.flatMap s.exposedOf
    | none => []
  | .body n =>
    match s.function? n with
    | some f => ParameterType.besideFrom [] f.params ++ f.exprs.flatMap s.exposedOf
    | none => []

/-- A declaration leads to one in which the name may get out of its scope. -/
def Exposes (s : Schema) (a : Entity) (n : Symbol) : Prop :=
  ∃ b, s.Reaches a b ∧ n ∈ s.exposedBy b

/-- The vocabulary of what may stand where names are declared, with the references `P` and the
exposed names `E`. A variable is no type and no constructor, unless that is exposed. -/
def visible (s : Schema) (P : Vocabulary) (E : Symbol → Prop) (V : Declared) : Vocabulary :=
  fun r => P r ∧ match r with
    | .type n k => ∀ m ∈ s.unsupplied (.type n k), E m
    | .var n => V n = true ∧ s.valueless n = false ∨ E n
    | .ctor _ => True
    | .callee _ => True

/-- The expression refers to what is allowed, and so is what it exposes. -/
structure Covers (s : Schema) (P : Vocabulary) (E : Symbol → Prop) (e : Expr) : Prop where
  within : e.Within P
  exposed : ∀ n ∈ s.exposedOf e, E n

variable {s : Schema}

/-- Declared names may be added afterwards. -/
theorem visible_adding_le (P : Vocabulary) (E : Symbol → Prop) (V : Declared)
    (names : List Symbol) :
    s.visible P E (V.adding names) ≤ (s.visible P E V).adding names := by
  intro r hr
  cases r with
  | var n =>
    obtain ⟨hP, ⟨hn, hvalue⟩ | hE⟩ := hr
    · rcases Bool.or_eq_true_iff.mp hn with hn | hn
      · exact .inr ⟨n, rfl, List.contains_iff_mem.mp hn⟩
      · exact .inl ⟨hP, .inl ⟨hn, hvalue⟩⟩
    · exact .inl ⟨hP, .inr hE⟩
  | _ => exact .inl hr

end Schema

/-! ## §3. Expressions without name faults. -/

namespace Expr

variable {known : Symbol → Symbol → Bool} {V : Declared} {n : Symbol}

theorem mem_of_demand {i : Ident} {cause : Symbol → Cause} (h : V.demand i cause = []) :
    V i.name = true := by
  unfold Declared.demand at h
  split at h
  · assumption
  · cases h

mutual

/-- A variable is declared where it is used, or else it is an earlier field of the value around. -/
theorem declared_of_faults : ∀ {e : Expr} {V : Declared}, e.faults known false V = [] →
    n ∈ e.vars → V n = true ∨ n ∈ e.ownFields
  | .binary _ _ l r, V, h, hn => by
    obtain ⟨hl, hr⟩ := List.append_eq_nil_iff.mp h
    unfold ownFields
    rw [List.mem_append]
    rcases List.mem_append.mp hn with hn | hn
    · exact (declared_of_faults hl hn).imp_right .inl
    · exact (declared_of_faults hr hn).imp_right .inr
  | .unary _ _ x, V, h, hn => declared_of_faults (e := x) h hn
  | .type _ _ ps, V, h, hn =>
    declared_of_faultsAll (l := ps) (List.append_eq_nil_iff.mp h).2 hn
  | .access a, V, h, hn => by
    obtain rfl := List.mem_singleton.mp hn
    exact .inl (mem_of_demand h)
  | .scalar _ _, _, _, hn => by cases hn
  | .constructed _ _ fs, V, h, hn =>
    declared_of_faultsFields (l := fs) [] (fun _ h => .inl h)
      (List.append_eq_nil_iff.mp h).2 hn
  | .collection _ es, V, h, hn => declared_of_faultsAll (l := es) h hn
  | .call _ _ as, V, h, hn =>
    declared_of_faultsAll (l := as) (List.append_eq_nil_iff.mp h).2 hn

theorem declared_of_faultsAll : ∀ {l : List Expr} {V : Declared}, faultsAll known false V l = [] →
    n ∈ varsAll l → V n = true ∨ n ∈ ownFieldsAll l
  | [], _, _, hn => by cases hn
  | e :: es, V, h, hn => by
    obtain ⟨he, hes⟩ := List.append_eq_nil_iff.mp h
    unfold ownFieldsAll
    rw [List.mem_append]
    rcases List.mem_append.mp hn with hn | hn
    · exact (declared_of_faults he hn).imp_right .inl
    · exact (declared_of_faultsAll (l := es) (V := V) hes hn).imp_right .inr

/-- In the fields of a constructed value, `V` declares what is declared around it, which is `U`, and
the earlier fields. -/
theorem declared_of_faultsFields {ctor : Symbol} {defined : Bool} {U : Declared} :
    ∀ {l : List (Named Expr)} {V : Declared} (earlier : List Symbol),
      (∀ m, V m = true → U m = true ∨ m ∈ earlier) →
      faultsFields known false ctor defined V l = [] → n ∈ varsFields l →
      U n = true ∨ n ∈ ownFieldsFrom earlier l
  | [], _, _, _, _, hn => by cases hn
  | f :: fs, V, earlier, hV, h, hn => by
    obtain ⟨hfirst, hfs⟩ := List.append_eq_nil_iff.mp h
    have hf : f.val.faults known false V = [] := (List.append_eq_nil_iff.mp hfirst).2
    unfold ownFieldsFrom
    rw [List.mem_append, List.mem_append]
    rcases List.mem_append.mp hn with hn | hn
    · rcases declared_of_faults hf hn with hdeclared | hown
      · refine (hV n hdeclared).imp_right fun hearlier => .inl (.inl ?_)
        exact List.mem_filter.mpr ⟨hn, List.contains_iff_mem.mpr hearlier⟩
      · exact .inr (.inl (.inr hown))
    · refine (declared_of_faultsFields (l := fs) _ ?_ hfs hn).imp_right .inr
      intro m hm
      rw [List.mem_append]
      rcases Bool.or_eq_true_iff.mp hm with hm | hm
      · exact .inr (.inr (List.contains_iff_mem.mp hm))
      · exact (hV m hm).imp_right .inl

end

mutual

theorem binds_subset_vars : ∀ {e : Expr}, n ∈ e.binds → n ∈ e.vars
  | .binary _ _ l r, h => by
    rcases List.mem_append.mp h with h | h
    · exact List.mem_append_left _ (binds_subset_vars h)
    · exact List.mem_append_right _ (binds_subset_vars h)
  | .unary _ _ x, h => binds_subset_vars (e := x) h
  | .type _ _ ps, h => bindsAll_subset_vars (l := ps) h
  | .access _, h => by cases h
  | .scalar _ _, h => by cases h
  | .constructed _ _ fs, h => bindsFields_subset_vars (l := fs) h
  | .collection _ es, h => bindsAll_subset_vars (l := es) h
  | .call _ _ as, h => bindsAll_subset_vars (l := as) h

theorem bindsAll_subset_vars : ∀ {l : List Expr}, n ∈ bindsAll l → n ∈ varsAll l
  | [], h => by cases h
  | e :: es, h => by
    rcases List.mem_append.mp h with h | h
    · exact List.mem_append_left _ (binds_subset_vars h)
    · exact List.mem_append_right _ (bindsAll_subset_vars h)

theorem bindsFields_subset_vars : ∀ {l : List (Named Expr)}, n ∈ bindsFields l → n ∈ varsFields l
  | [], h => by cases h
  | f :: fs, h => by
    rcases List.mem_append.mp h with h | h
    · refine List.mem_append_left _ ?_
      cases hbare : f.val.bareVar? with
      | some i =>
        obtain ⟨a, ha, -, rfl⟩ := access_of_bareVar? hbare
        rw [hbare] at h
        rw [ha]
        exact h
      | none =>
        rw [hbare] at h
        exact binds_subset_vars h
    · exact List.mem_append_right _ (bindsFields_subset_vars h)

end

theorem caught_of_bareVar? {e : Expr} {i : Ident} (h : e.bareVar? = some i) :
    e.caught = [i.name] := by
  obtain ⟨a, rfl, hvar, rfl⟩ := access_of_bareVar? h
  unfold caught
  rw [if_pos hvar]

mutual

/-- What a rule input binds when names are checked is either bound in a match or compared. -/
theorem caught_or_compared : ∀ {e : Expr}, n ∈ e.binds → n ∈ e.caught ∨ n ∈ e.compared
  | .constructed _ _ fs, h => caught_or_comparedFields (l := fs) h
  | .binary _ _ l r, h => .inr (binds_subset_vars (e := .binary _ _ l r) h)
  | .unary _ _ x, h => .inr (binds_subset_vars (e := .unary _ _ x) h)
  | .type _ _ ps, h => .inr (binds_subset_vars (e := .type _ _ ps) h)
  | .access _, h => by cases h
  | .scalar _ _, h => by cases h
  | .collection _ es, h => .inr (binds_subset_vars (e := .collection _ es) h)
  | .call _ _ as, h => .inr (binds_subset_vars (e := .call _ _ as) h)

theorem caught_or_comparedFields : ∀ {l : List (Named Expr)},
    n ∈ bindsFields l → n ∈ caughtFields l ∨ n ∈ comparedFields l
  | [], h => by cases h
  | f :: fs, h => by
    unfold caughtFields comparedFields
    rw [List.mem_append, List.mem_append]
    rcases List.mem_append.mp h with h | h
    · cases hbare : f.val.bareVar? with
      | some i =>
        rw [hbare] at h
        rw [caught_of_bareVar? hbare]
        exact .inl (.inl h)
      | none =>
        rw [hbare] at h
        exact (caught_or_compared h).imp .inl .inl
    · exact (caught_or_comparedFields h).imp .inr .inr

end

end Expr

/-- What an input binds when names are checked is either bound in a match or compared. -/
theorem RuleInput.caught_or_compared {i : RuleInput} {n : Symbol} (h : n ∈ i.binds) :
    n ∈ i.caught ∨ n ∈ i.compared := by
  cases i with
  | any span => cases h
  | value p =>
    replace h : n ∈ p.bindsValue := h
    unfold Expr.bindsValue at h
    show n ∈ p.caught ∨ n ∈ if p.bareVar?.isSome then [] else p.compared
    cases hbare : p.bareVar? with
    | some v =>
      rw [hbare] at h
      rw [Expr.caught_of_bareVar? hbare]
      exact .inl h
    | none =>
      rw [hbare] at h
      exact Expr.caught_or_compared h

/-! ## §4. Declarations without name faults. -/

namespace Schema

variable {s : Schema} {known : Symbol → Symbol → Bool} {V W : Declared} {P : Vocabulary}
  {E : Symbol → Prop}

/-- An expression is within a visible vocabulary if its references are allowed and its variables are
visible. -/
theorem within_visible {e : Expr} (hP : e.Within P)
    (hrefs : ∀ r ∈ e.refs, ∀ m ∈ s.unsupplied r, E m)
    (hvars : ∀ n ∈ e.vars, V n = true ∧ s.valueless n = false ∨ E n) :
    e.Within (s.visible P E V) := by
  intro r hr
  refine ⟨hP r hr, ?_⟩
  cases r with
  | type n k => exact hrefs _ hr
  | ctor n => trivial
  | callee n => trivial
  | var n => exact hvars n (Expr.mem_vars.mpr hr)

theorem Covers.unsupplied {e : Expr} (he : s.Covers P E e) :
    ∀ r ∈ e.refs, ∀ m ∈ s.unsupplied r, E m :=
  fun r hr m hm => he.exposed m (List.mem_append_left _ (List.mem_append_right _
    (List.mem_flatMap.mpr ⟨r, hr, hm⟩)))

/-- An expression without name faults where `V` is declared is within what `W` makes visible, if
its variables do not need more. -/
theorem Covers.within_of_faults {e : Expr} (he : s.Covers P E e) (h : e.faults known false V = [])
    (hVW : ∀ n ∈ e.vars, V n = true → W n = true ∨ E n) : e.Within (s.visible P E W) := by
  refine within_visible he.within he.unsupplied fun n hn => ?_
  cases hvalue : s.valueless n with
  | true =>
    exact .inr (he.exposed n (List.mem_append_right _ (List.mem_filter.mpr ⟨hn, hvalue⟩)))
  | false =>
    rcases Expr.declared_of_faults h hn with hdeclared | hown
    · exact (hVW n hn hdeclared).imp_left fun hW => ⟨hW, rfl⟩
    · exact .inr (he.exposed n (List.mem_append_left _ (List.mem_append_left _ hown)))

mutual

/-- A rule input is plain if what it compares is exposed. -/
theorem plain_of_compared (V : Declared) : ∀ {e : Expr}, e.Within P →
    (∀ r ∈ e.refs, ∀ m ∈ s.unsupplied r, E m) → (∀ n ∈ e.compared, E n) →
      e.Plain (s.visible P E V)
  | .constructed _ c fs, hP, hrefs, hcompared => by
    obtain ⟨hctor, hfields⟩ := List.forall_mem_cons.mp hP
    exact ⟨⟨hctor, trivial⟩, plainFields_of_compared V hfields
      (fun r hr => hrefs r (List.mem_cons_of_mem _ hr)) hcompared⟩
  | .binary _ _ _ _, hP, hrefs, hcompared =>
    within_visible hP hrefs fun _ hn => .inr (hcompared _ hn)
  | .unary _ _ _, hP, hrefs, hcompared =>
    within_visible hP hrefs fun _ hn => .inr (hcompared _ hn)
  | .type _ _ _, hP, hrefs, hcompared =>
    within_visible hP hrefs fun _ hn => .inr (hcompared _ hn)
  | .access _, hP, hrefs, hcompared =>
    within_visible hP hrefs fun _ hn => .inr (hcompared _ hn)
  | .scalar _ _, hP, hrefs, hcompared =>
    within_visible hP hrefs fun _ hn => .inr (hcompared _ hn)
  | .collection _ _, hP, hrefs, hcompared =>
    within_visible hP hrefs fun _ hn => .inr (hcompared _ hn)
  | .call _ _ _, hP, hrefs, hcompared =>
    within_visible hP hrefs fun _ hn => .inr (hcompared _ hn)

theorem plainFields_of_compared (V : Declared) : ∀ {fs : List (Named Expr)},
    (∀ r ∈ Expr.refsFields fs, P r) → (∀ r ∈ Expr.refsFields fs, ∀ m ∈ s.unsupplied r, E m) →
      (∀ n ∈ Expr.comparedFields fs, E n) → Expr.PlainFields (s.visible P E V) fs
  | [], _, _, _ => trivial
  | f :: fs, hP, hrefs, hcompared => by
    unfold Expr.refsFields at hP hrefs
    unfold Expr.comparedFields at hcompared
    rw [List.forall_mem_append] at hP hrefs hcompared
    refine ⟨?_, plainFields_of_compared V hP.2 hrefs.2 hcompared.2⟩
    by_cases hbare : f.val.bareVar?.isSome = true
    · exact .inl hbare
    · rw [if_neg hbare] at hcompared
      exact .inr (plain_of_compared V hP.1 hrefs.1 hcompared.1)

end

/-- What more names make visible from `V`, they do from `W`. -/
theorem adding_of_adding {n : Symbol} {names : List Symbol}
    (h : V n = true → W n = true ∨ E n) (hn : V.adding names n = true) :
    W.adding names n = true ∨ E n := by
  rcases Bool.or_eq_true_iff.mp hn with hn | hn
  · exact .inl (Bool.or_eq_true_iff.mpr (.inl hn))
  · exact (h hn).imp_left fun hW => Bool.or_eq_true_iff.mpr (.inr hW)

theorem mem_exprs_of_functionVars {t : ParameterType} {n : Symbol} (hn : n ∈ t.functionVars) :
    ∃ e ∈ t.exprs, n ∈ e.vars := by
  cases t with
  | value t => cases hn
  | function ps result => exact List.mem_flatMap.mp hn

mutual

/-- The type of a parameter, where `V` is declared: a type of values is within what `full` makes
visible, a function type already within what `outer` does. -/
theorem within_of_parameterFaults {outer : Declared} : ∀ {t : ParameterType} {V full : Declared},
    (∀ e ∈ t.exprs, s.Covers P E e) → (∀ n ∈ t.beside, E n) →
      (∀ e ∈ t.exprs, ∀ n ∈ e.vars, V n = true → full n = true ∨ E n) →
      (∀ n ∈ t.functionVars, V n = true → outer n = true ∨ E n) →
      t.faults known V = [] → t.Within (s.visible P E outer) (s.visible P E full)
  | .value _, _, _, hcovers, _, hfull, _, h =>
    (hcovers _ List.mem_cons_self).within_of_faults h (hfull _ List.mem_cons_self)
  | .function ps result, V, full, hcovers, hbeside, _, houter, h => by
    obtain ⟨hps, hresult⟩ := List.append_eq_nil_iff.mp h
    obtain ⟨hcoversps, hcoversresult⟩ := List.forall_mem_append.mp hcovers
    have houter' : ∀ e ∈ (ParameterType.function ps result).exprs, ∀ n ∈ e.vars, V n = true →
        outer n = true ∨ E n :=
      fun e he n hn => houter n (List.mem_flatMap.mpr ⟨e, he, hn⟩)
    obtain ⟨hinner, hafter⟩ := List.forall_mem_append.mp houter'
    refine ⟨within_of_parametersFaults [] hcoversps hbeside hinner
      (fun e he n hn hV => (hinner e he n hn hV).imp_right .inl) hps, ?_⟩
    have hwithin := (hcoversresult _ List.mem_cons_self).within_of_faults hresult
      (W := outer.adding (ps.map fun p => p.name.name))
      fun n hn => adding_of_adding (hafter _ List.mem_cons_self n hn)
    exact hwithin.mono (visible_adding_le P E outer _)

/-- Parameters, where `V` is declared: what `outer` has, and the names of the earlier ones. -/
theorem within_of_parametersFaults {outer : Declared} :
    ∀ {ps : List (Named ParameterType)} {V full : Declared} (earlier : List Symbol),
      (∀ e ∈ ParameterType.exprsAll ps, s.Covers P E e) →
      (∀ n ∈ ParameterType.besideFrom earlier ps, E n) →
      (∀ e ∈ ParameterType.exprsAll ps, ∀ n ∈ e.vars, V n = true → full n = true ∨ E n) →
      (∀ e ∈ ParameterType.exprsAll ps, ∀ n ∈ e.vars, V n = true →
        outer n = true ∨ E n ∨ n ∈ earlier) →
      ParameterType.faultsAll known V ps = [] →
        ParameterType.AllWithin (s.visible P E outer) (s.visible P E full) ps
  | [], _, _, _, _, _, _, _, _ => trivial
  | p :: ps, V, full, earlier, hcovers, hbeside, hfull, houter, h => by
    obtain ⟨hfirst, hps⟩ := List.append_eq_nil_iff.mp h
    have hp := (List.append_eq_nil_iff.mp hfirst).1
    unfold ParameterType.besideFrom at hbeside
    unfold ParameterType.exprsAll at hcovers hfull houter
    rw [List.forall_mem_append, List.forall_mem_append] at hbeside
    rw [List.forall_mem_append] at hcovers hfull houter
    refine ⟨within_of_parameterFaults hcovers.1 hbeside.1.2 hfull.1 ?_ hp, ?_⟩
    · intro n hn hV
      obtain ⟨e, he, hvars⟩ := mem_exprs_of_functionVars hn
      rcases houter.1 e he n hvars hV with hn' | hn' | hearlier
      · exact .inl hn'
      · exact .inr hn'
      · exact .inr (hbeside.1.1 n (List.mem_filter.mpr ⟨hn, List.contains_iff_mem.mpr hearlier⟩))
    · have hrest : ParameterType.AllWithin (s.visible P E outer)
          (s.visible P E (full.adding [p.name.name])) ps := by
        refine within_of_parametersFaults (earlier ++ [p.name.name]) hcovers.2 hbeside.2
          (fun e he n hn => adding_of_adding (hfull.2 e he n hn)) ?_ hps
        intro e he n hn hV
        rw [List.mem_append]
        rcases Bool.or_eq_true_iff.mp hV with hname | hV
        · exact .inr (.inr (.inr (List.contains_iff_mem.mp hname)))
        · exact (houter.2 e he n hn hV).imp_right fun h => h.imp_right .inl
      exact hrest.mono le_rfl (visible_adding_le P E full _)

end

/-- The vocabulary of a declaration: what it leads to, the functions among the names that are
declared everywhere, and the names that it exposes. -/
def available (s : Schema) (a : Entity) : Vocabulary :=
  s.visible (s.reached a) (s.Exposes a) s.globals

variable {a : Entity}

end Schema

end DepSchema
