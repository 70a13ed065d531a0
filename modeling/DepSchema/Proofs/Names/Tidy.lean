/-
DepSchema.Proofs.Names.Tidy — what has different names where no name is declared twice.

A schema without name faults has different names for its types, for the constructors of a type and
for the fields of a constructor, and none of them is the name of a builtin type.

Main result: `Schema.tidy_of_nameFaults`.
-/
import DepSchema.Proofs.Names.Faults

namespace DepSchema

/-- The constructors of a type and the fields of a constructor have different names. -/
structure Schema.Tidy (s : Schema) : Prop where
  constructors : ∀ d ∈ s.types, (d.constructors.map Constructor.name).Nodup
  fields : ∀ d ∈ s.types, ∀ c ∈ d.constructors, (Variable.names c.fields).Nodup

theorem Variable.nodup_of_fieldFaults {known : Symbol → Symbol → Bool} :
    ∀ {fields : List Variable} {V : Declared}, fieldFaults known V fields = [] →
      (names fields).Nodup ∧ ∀ n ∈ names fields, V n = false
  | [], _, _ => by simp [names]
  | v :: fields, V, h => by
    unfold fieldFaults at h
    obtain ⟨hfirst, hrest⟩ := List.append_eq_nil_iff.mp h
    have hnew : V v.name.name = false := by
      have hredeclared := (List.append_eq_nil_iff.mp hfirst).2
      unfold Declared.redeclared at hredeclared
      cases hV : V v.name.name with
      | false => rfl
      | true => simp [hV] at hredeclared
    obtain ⟨hnodup, hall⟩ := nodup_of_fieldFaults hrest
    have hafter : ∀ n ∈ names fields, n ≠ v.name.name ∧ V n = false := by
      intro n hn
      simpa [Declared.adding] using hall n hn
    refine ⟨List.nodup_cons.mpr ⟨fun hmem => (hafter _ hmem).1 rfl, hnodup⟩, ?_⟩
    exact List.forall_mem_cons.mpr ⟨hnew, fun n hn => (hafter n hn).2⟩

theorem TypeDef.fields_nodup {known : Symbol → Symbol → Bool} {V : Declared} {d : TypeDef}
    (h : d.faults known V = []) {ctor : Constructor} (hctor : ctor ∈ d.constructors) :
    (Variable.names ctor.fields).Nodup := by
  cases d with
  | message m =>
    obtain rfl := List.mem_singleton.mp hctor
    exact (Variable.nodup_of_fieldFaults (List.append_eq_nil_iff.mp h).2).1
  | enum e =>
    obtain ⟨r, hr, hctor⟩ := List.mem_flatMap.mp hctor
    have hrule := List.flatMap_eq_nil_iff.mp (List.append_eq_nil_iff.mp h).2 r hr
    have hfields := List.flatMap_eq_nil_iff.mp (List.append_eq_nil_iff.mp hrule).2 ctor hctor
    exact (Variable.nodup_of_fieldFaults hfields).1

/-- No field has the name of a dependency of its type. -/
theorem TypeDef.fields_apart {known : Symbol → Symbol → Bool} {V : Declared} {d : TypeDef}
    (h : d.faults known V = []) {ctor : Constructor} (hctor : ctor ∈ d.constructors) :
    ∀ n ∈ Variable.names ctor.fields, n ∉ Variable.names d.deps := by
  intro n hn hdep
  cases d with
  | message m =>
    obtain rfl := List.mem_singleton.mp hctor
    have hnew := (Variable.nodup_of_fieldFaults (List.append_eq_nil_iff.mp h).2).2 n hn
    have hdep : n ∈ Variable.names m.deps := hdep
    simp [Declared.adding, hdep] at hnew
  | enum e =>
    obtain ⟨r, hr, hctor⟩ := List.mem_flatMap.mp hctor
    have hrule := List.flatMap_eq_nil_iff.mp (List.append_eq_nil_iff.mp h).2 r hr
    have hfields := List.flatMap_eq_nil_iff.mp (List.append_eq_nil_iff.mp hrule).2 ctor hctor
    have hnew := (Variable.nodup_of_fieldFaults hfields).2 n hn
    have hdep : n ∈ Variable.names e.deps := hdep
    simp [Declared.adding, hdep] at hnew

namespace Schema

variable {s : Schema}

/-- **Where no name is declared twice, constructors and fields can be told apart.** -/
theorem tidy_of_nameFaults (h : s.nameFaults = []) : s.Tidy := by
  obtain ⟨⟨hnodup, -⟩, -, htypes, -⟩ := nameFaults_eq_nil.mp h
  rw [declaredNames_eq] at hnodup
  obtain ⟨hnames, -⟩ := List.nodup_flatMap.mp (List.nodup_append.mp hnodup).1
  refine ⟨?_, fun d hd ctor hctor => TypeDef.fields_nodup (List.flatMap_eq_nil_iff.mp htypes d hd)
    hctor⟩
  intro d hd
  have hd := hnames d hd
  cases d with
  | message m => simp [TypeDef.constructors]
  | enum e =>
    -- an enum declares its own name and then those of its constructors
    have hctors := (List.nodup_cons.mp hd).2
    rwa [List.map_map] at hctors

theorem fields_apart_of_nameFaults (h : s.nameFaults = []) {d : TypeDef} (hd : d ∈ s.types)
    {ctor : Constructor} (hctor : ctor ∈ d.constructors) :
    ∀ n ∈ Variable.names ctor.fields, n ∉ Variable.names d.deps := by
  obtain ⟨-, -, htypes, -⟩ := nameFaults_eq_nil.mp h
  exact TypeDef.fields_apart (List.flatMap_eq_nil_iff.mp htypes d hd) hctor

theorem typeNames_nodup_of_nameFaults (h : s.nameFaults = []) : s.typeNames.Nodup := by
  obtain ⟨⟨hnodup, -⟩, -⟩ := nameFaults_eq_nil.mp h
  rw [declaredNames_eq] at hnodup
  have hflat := (List.nodup_append.mp hnodup).1
  have hsub : s.typeNames.Sublist (s.types.flatMap TypeDef.declaredNames) := by
    unfold typeNames
    generalize s.types = types
    induction types with
    | nil => exact .slnil
    | cons d types ih =>
      rw [List.map_cons, List.flatMap_cons]
      exact (List.singleton_sublist.mpr List.mem_cons_self).append ih
  exact hflat.sublist hsub

theorem functionNames_nodup_of_nameFaults (h : s.nameFaults = []) : s.functionNames.Nodup := by
  obtain ⟨⟨hnodup, -⟩, -⟩ := nameFaults_eq_nil.mp h
  rw [declaredNames_eq] at hnodup
  exact (List.nodup_append.mp hnodup).2.1

theorem keyed_of_nameFaults (h : s.nameFaults = []) : s.Keyed :=
  ⟨typeNames_nodup_of_nameFaults h, functionNames_nodup_of_nameFaults h⟩

theorem mem_of_type? {n : Symbol} {d : TypeDef} (h : s.type? n = some d) : d ∈ s.types :=
  List.mem_of_find?_eq_some h

/-- Builtin types are not declared again. -/
theorem type?_builtin (h : s.nameFaults = []) {n : Symbol} (hn : n ∈ Symbol.builtins) :
    s.type? n = none := by
  obtain ⟨⟨-, hbuiltin⟩, -⟩ := nameFaults_eq_nil.mp h
  by_contra hsome
  obtain ⟨d, hd⟩ := Option.ne_none_iff_exists'.mp hsome
  have hname : d.name = n := by simpa using List.find?_some hd
  have hdeclared : d.name ∈ s.declaredNames := by
    rw [declaredNames_eq]
    exact List.mem_append_left _ (List.mem_flatMap.mpr ⟨d, mem_of_type? hd, List.mem_cons_self⟩)
  have hnot := hbuiltin _ hdeclared
  rw [hname, List.contains_iff_mem.mpr hn] at hnot
  cases hnot

theorem type?_unsigned (h : s.nameFaults = []) : s.type? .unsigned = none :=
  type?_builtin h (by decide)

end Schema

end DepSchema
