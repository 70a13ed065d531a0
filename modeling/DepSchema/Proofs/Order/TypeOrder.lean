/-
DepSchema.Proofs.Order.TypeOrder — the order of the types of a schema.

The mention graph of a schema has an edge from a declared type to a declared type that its
definition mentions, itself only where it asks for itself. The order that is found puts every type
behind all those; where there is none, a cycle of such mentions is reported.

Main results: `typeOrder_topological` and `typeOrder_error_iff_cycle`.
-/
import DepSchema.Proofs.Order.Mentions
import DepSchema.Proofs.Order.Walk
import DepSchema.Proofs.Registry

namespace DepSchema.Schema

open Relation

/-! ## §1. Dependence between types. -/

/-- The definition of the declared type `a` mentions the declared type `b`: it asks for it, or it
holds it and `b` is another type. -/
def DependsOn (s : Schema) (a b : Symbol) : Prop :=
  b ∈ s.typeNames ∧
    ∃ d, s.type? a = some d ∧ (d.AsksFor s.owner? b ∨ d.Holds s.owner? b ∧ b ≠ a)

theorem type?_name {s : Schema} {a : Symbol} {d : TypeDef} (h : s.type? a = some d) :
    d.name = a := by
  simpa using List.find?_some h

theorem mem_sortNames {t : SymbolTable} {names : List Symbol} {a : Symbol} :
    a ∈ sortNames t names ↔ a ∈ names := by
  simp [sortNames]

theorem mentionGraph_nodes_perm (t : SymbolTable) (s : Schema) :
    (s.mentionGraph t).nodes.Perm s.typeNames :=
  List.mergeSort_perm _ _

theorem mem_mentionGraph_targets {t : SymbolTable} {s : Schema} {a b : Symbol} :
    b ∈ (s.mentionGraph t).targets a ↔ ∃ d, s.type? a = some d ∧ b ∈ d.mentions s.owner? := by
  cases h : s.type? a with
  | none => simp [mentionGraph, h]
  | some d => simp [mentionGraph, h, mem_sortNames, mentionsOf, List.mem_eraseDups]

/-- **The edges of the mention graph are the dependences between declared types.** -/
theorem edge_iff_dependsOn {t : SymbolTable} {s : Schema} {a b : Symbol} :
    (s.mentionGraph t).Edge a b ↔ s.DependsOn a b := by
  simp only [MentionGraph.Edge, (mentionGraph_nodes_perm t s).mem_iff, mem_mentionGraph_targets,
    DependsOn, TypeDef.mem_mentions]
  constructor
  · intro h
    obtain ⟨-, hb, d, hd, hmention⟩ := h
    rw [type?_name hd] at hmention
    exact ⟨hb, d, hd, hmention⟩
  · intro hgiven
    obtain ⟨hb, d, hd, hmention⟩ := hgiven
    -- a type that has a definition is a declared one
    have ha : a ∈ s.typeNames := isSome_type?.mp (by rw [hd]; rfl)
    rw [← type?_name hd] at hmention
    exact ⟨ha, hb, d, hd, hmention⟩

theorem edge_eq_dependsOn (t : SymbolTable) (s : Schema) :
    (s.mentionGraph t).Edge = s.DependsOn := by
  funext a b
  exact propext edge_iff_dependsOn

theorem nodup_nodes {s : Schema} (h : s.typeNames.Nodup) (t : SymbolTable) :
    (s.mentionGraph t).nodes.Nodup :=
  (mentionGraph_nodes_perm t s).nodup_iff.mpr h

theorem order_of_typeOrder {t : SymbolTable} {s : Schema} {order : List Symbol}
    (h : s.typeOrder t = .ok order) : (s.mentionGraph t).order = .ok order := by
  unfold typeOrder at h
  cases hwalk : (s.mentionGraph t).order with
  | ok order' =>
    rw [hwalk] at h
    injection h with h
    rw [h]
  | error cycle =>
    rw [hwalk] at h
    cases h

theorem typeOrder_eq_error {t : SymbolTable} {s : Schema} {e : Diagnostic} :
    s.typeOrder t = .error e ↔ ∃ cycle, (s.mentionGraph t).order = .error cycle
      ∧ e = .unlocated (.dependencyCycle cycle) := by
  unfold typeOrder
  cases (s.mentionGraph t).order with
  | ok order => simp [Except.mapError]
  | error cycle => simp [Except.mapError, eq_comm]

/-! ## §2. Two schemas. -/

namespace Example

/-- A name that stands nowhere in particular. -/
def ident (slot : UInt32) : Ident := ⟨⟨slot⟩, ⟨0, 0⟩⟩

/-- A dependency or a field, by the slots of its name and of the name of its type. -/
def field (name type : UInt32) (params : List Expr) : Variable :=
  ⟨ident name, ⟨⟨0, 0⟩, ident type, params⟩⟩

/-- The slots 7, 8 and 9 are types, the others constructors and fields. -/
def names : SymbolTable := ⟨SymbolTable.builtinNames ++ ["P", "S", "A", "Dot", "x", "p", "rest"]⟩

/-- The value `P{x: 1}`. -/
def point : Expr := .constructed ⟨0, 0⟩ (ident 7) [⟨ident 11, .scalar ⟨0, 0⟩ (.int 1)⟩]

/-- `A` holds a shape of a point, and a shape of that point holds another one. `A` is declared first
and comes first by its text; it mentions `P` only inside the parameter of a field. -/
def album : List Declaration :=
  [.type (.message ⟨ident 9, [], [field 11 8 [point]]⟩),
    .type (.enum ⟨ident 8, [field 12 7 []],
      [⟨[.value point], [⟨ident 10, [field 13 8 [point]]⟩]⟩]⟩),
    .type (.message ⟨ident 7, [], [field 11 0 []]⟩)]

/-- `P` and `S` depend on each other. -/
def loop : List Declaration :=
  [.type (.message ⟨ident 7, [field 11 8 []], []⟩),
    .type (.message ⟨ident 8, [field 12 7 []], []⟩)]

end Example

/-! ## §3. The order. -/

/-- In an order that is found, a type stands behind what it depends on. -/
theorem typeOrder_sorted {t : SymbolTable} {s : Schema} (hs : s.typeNames.Nodup)
    {order : List Symbol} (h : s.typeOrder t = .ok order) :
    order.Nodup ∧ (∀ a, a ∈ order ↔ a ∈ s.typeNames)
      ∧ ∀ a b, s.DependsOn a b → order.idxOf b < order.idxOf a := by
  obtain ⟨hord, hall⟩ := MentionGraph.order_ordered (nodup_nodes hs t) (order_of_typeOrder h)
  refine ⟨hord.nodup, ?_, ?_⟩
  · intro a
    rw [hall, (mentionGraph_nodes_perm t s).mem_iff]
  · intro a b hab
    have hedge : (s.mentionGraph t).Edge a b := edge_iff_dependsOn.mpr hab
    exact hord.idxOf_lt ((hall a).mpr hedge.1) hedge

/-- An order adds no declarations. -/
theorem Keyed.withOrder {s : Schema} (h : s.Keyed) (order : List Symbol) :
    (s.withOrder order).Keyed :=
  ⟨h.types, h.functions⟩

theorem Registered.withOrder {s : Schema} (h : s.Registered) (order : List Symbol) :
    (s.withOrder order).Registered :=
  ⟨h.offers, h.owned⟩

theorem ordered_of_typeOrder {t : SymbolTable} {s : Schema} (hs : s.typeNames.Nodup)
    {order : List Symbol} (h : s.typeOrder t = .ok order) : (s.withOrder order).Ordered := by
  obtain ⟨hnodup, hall, -⟩ := typeOrder_sorted hs h
  exact (List.perm_ext_iff_of_nodup hnodup hs).mpr hall

/-- **The order holds every declared type once and nothing else, and each type stands behind every
other declared type that its definition mentions**, whether it asks for it or holds it. -/
theorem typeOrder_topological (t : SymbolTable) (ds : List Declaration) {order : List Symbol}
    (h : (ofDeclarations ds).typeOrder t = .ok order) :
    order.Nodup
      ∧ (∀ a, a ∈ order ↔ ∃ d, Declaration.type d ∈ ds ∧ d.name = a)
      ∧ ∀ d ∈ (ofDeclarations ds).types, ∀ u ∈ (ofDeclarations ds).typeNames, u ≠ d.name →
          d.AsksFor (ofDeclarations ds).owner? u ∨ d.Holds (ofDeclarations ds).owner? u →
          order.idxOf u < order.idxOf d.name := by
  have hkeyed := keyed_ofDeclarations ds
  obtain ⟨hnodup, hall, hbefore⟩ := typeOrder_sorted hkeyed.types h
  refine ⟨hnodup, ?_, ?_⟩
  · intro a
    rw [hall, mem_typeNames_ofDeclarations]
  · intro d hd u hu hne hmention
    have hstored : (ofDeclarations ds).type? d.name = some d :=
      hkeyed.type?_eq_some.mpr ⟨hd, rfl⟩
    exact hbefore d.name u ⟨hu, d, hstored, hmention.imp_right fun hholds => ⟨hholds, hne⟩⟩

/-- The album comes last, behind the shapes that only a parameter of its field mentions. -/
theorem typeOrder_album :
    (ofDeclarations Example.album).typeOrder Example.names = .ok [⟨7⟩, ⟨8⟩, ⟨9⟩]
      ∧ ∀ d ∈ (ofDeclarations Example.album).types,
          ∀ u ∈ (ofDeclarations Example.album).typeNames, u ≠ d.name →
          d.AsksFor (ofDeclarations Example.album).owner? u
            ∨ d.Holds (ofDeclarations Example.album).owner? u →
          [(⟨7⟩ : Symbol), ⟨8⟩, ⟨9⟩].idxOf u < [(⟨7⟩ : Symbol), ⟨8⟩, ⟨9⟩].idxOf d.name := by
  have h : (ofDeclarations Example.album).typeOrder Example.names
      = .ok [⟨7⟩, ⟨8⟩, ⟨9⟩] := by cbv
  exact ⟨h, (typeOrder_topological Example.names Example.album h).2.2⟩

/-! ## §4. The cycle. -/

/-- **There is no order exactly when some type depends on itself**, along however many mentions;
then one fault without a place is reported, and it names such a cycle: a path of mentions from a
type back to it that meets no type twice in between. -/
theorem typeOrder_error_iff_cycle (t : SymbolTable) {s : Schema} (hs : s.typeNames.Nodup) :
    ((∃ e, s.typeOrder t = .error e) ↔ ∃ a, TransGen s.DependsOn a a)
      ∧ ∀ e, s.typeOrder t = .error e →
          ∃ a inner, e = .unlocated (.dependencyCycle (a :: inner ++ [a]))
            ∧ e.message t
              = "Found dependency cycle: " ++ " -> ".intercalate ((a :: inner ++ [a]).map t.text)
            ∧ (a :: inner ++ [a]).IsChain s.DependsOn
            ∧ (a :: inner).Nodup := by
  have hnodes := nodup_nodes hs t
  constructor
  · have hiff := MentionGraph.order_error_iff hnodes
    rw [MentionGraph.Cyclic, edge_eq_dependsOn] at hiff
    rw [← hiff]
    constructor
    · intro h
      obtain ⟨e, he⟩ := h
      obtain ⟨cycle, hcycle, -⟩ := typeOrder_eq_error.mp he
      exact ⟨cycle, hcycle⟩
    · intro hgiven
      obtain ⟨cycle, hcycle⟩ := hgiven
      exact ⟨_, typeOrder_eq_error.mpr ⟨cycle, hcycle, rfl⟩⟩
  · intro e he
    obtain ⟨cycle, hcycle, rfl⟩ := typeOrder_eq_error.mp he
    have hreal := MentionGraph.order_cycle hnodes hcycle
    obtain ⟨a, inner, rfl⟩ := hreal.returns
    refine ⟨a, inner, rfl, rfl, ?_, ?_⟩
    · rw [← edge_eq_dependsOn t s]
      exact hreal.chain
    · -- the path without its end is the type and what is in between
      have hsimple := hreal.simple
      rw [List.dropLast_concat] at hsimple
      exact hsimple

/-- Two messages that depend on each other have no order. -/
theorem typeOrder_loop :
    (ofDeclarations Example.loop).typeNames.Nodup
      ∧ (∃ a, TransGen (ofDeclarations Example.loop).DependsOn a a)
      ∧ ∀ e, (ofDeclarations Example.loop).typeOrder Example.names = .error e →
          ∃ a inner, e = .unlocated (.dependencyCycle (a :: inner ++ [a]))
            ∧ (a :: inner ++ [a]).IsChain (ofDeclarations Example.loop).DependsOn
            ∧ (a :: inner).Nodup := by
  have hkeyed : (ofDeclarations Example.loop).typeNames.Nodup := by decide
  have hcycle : (ofDeclarations Example.loop).typeOrder Example.names
      = .error (.unlocated (.dependencyCycle [⟨7⟩, ⟨8⟩, ⟨7⟩])) := by cbv
  have hmain := typeOrder_error_iff_cycle Example.names hkeyed
  refine ⟨hkeyed, hmain.1.mp ⟨_, hcycle⟩, ?_⟩
  intro e he
  obtain ⟨a, inner, hpath, -, hchain, hsimple⟩ := hmain.2 e he
  exact ⟨a, inner, hpath, hchain, hsimple⟩

end DepSchema.Schema
