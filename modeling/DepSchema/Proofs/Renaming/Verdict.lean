/-
DepSchema.Proofs.Renaming.Verdict — every stage gives the same verdict under other names.

Suppose that one schema carries another one over, that no name is declared twice in either of them
and that no two types share a constructor. Then the order of the types is the same up to the
renaming, a cycle reads the same, and the first schema is well typed exactly when every
declaration of the second one passes on its own.

Main results: `check_ok_iff`, `visitOrder_texts` and `failsInOrder_iff`.
-/
import DepSchema.Proofs.Order.TypeOrder
import DepSchema.Proofs.Renaming.Names
import DepSchema.Proofs.Renaming.Order
import DepSchema.Proofs.Renaming.Typing
import DepSchema.Proofs.Stages
import DepSchema.Proofs.Typing.Passes

namespace DepSchema

/-- Each type and each function passes the type check on its own. -/
def Schema.EachPasses (s : Schema) : Prop :=
  (∀ d ∈ s.types, Check.Passes ⟨s, Structural.oracle⟩ (Typing.checkTypeDef d))
    ∧ ∀ f ∈ s.functions, Check.Passes ⟨s, Structural.oracle⟩ (Typing.checkFunctionDef f)

namespace Renaming

/-! ## §1. Checks that match decide the same. -/

section Matches

variable {ρ : Renaming} {c c' : Setting}

theorem keeps_of_fresh {s s' : Checking} (hs : s.Fresh) (hs' : s'.Fresh) : ρ.Keeps s s' := by
  refine ⟨?_, ?_, ?_⟩
  · rw [hs.scopes, hs'.scopes]
    rfl
  · rw [hs.substitution, hs'.substitution]
    rfl
  · rw [hs.readingInput, hs'.readingInput]

variable {α β : Type} {h : α → β} {x : Check α} {y : Check β}

/-- A check decides whether one that matches it passes. -/
theorem Matches.decides (hxy : Matches ρ c c' h x y) : Check.Decides c x (Check.Passes c' y) :=
  fun s hs => (hxy s .start (keeps_of_fresh hs Checking.fresh_start)).passes

theorem Matches.passes (hxy : Matches ρ c c' h x y) : Check.Passes c x ↔ Check.Passes c' y :=
  hxy.decides .start Checking.fresh_start

/-- A check that has a match depends on nothing but the scopes. -/
theorem Matches.decides_self (hxy : Matches ρ c c' h x y) :
    Check.Decides c x (Check.Passes c x) :=
  fun s hs => (hxy.decides s hs).trans hxy.passes.symm

end Matches

/-! ## §2. Schemas that declare the same. -/

/-- The schema `s'` declares what `s` declares, renamed. In both, each name is declared once and
each constructor belongs to a type that offers it; in `s`, and so in both, to no other type. -/
structure Twin (ρ : Renaming) (s s' : Schema) : Prop extends ρ.Carries s s' where
  keyed : s.Keyed
  keyed' : s'.Keyed
  registered : s.Registered
  registered' : s'.Registered
  unshared : s.Unshared

namespace Twin

variable {ρ : Renaming} {s s' : Schema} (h : ρ.Twin s s')

include h

theorem owner? (k : Symbol) : s'.owner? (ρ.name k) = (s.owner? k).map ρ.name :=
  h.toCarries.owner? h.registered h.registered' h.unshared k

/-- The order that was found before plays no part in what the two schemas answer. -/
theorem relates (order : List Symbol) :
    ρ.Relates ⟨s.withOrder order, Structural.oracle⟩ ⟨s', Structural.oracle⟩ :=
  .structural (h.toCarries.type? h.keyed') (h.toCarries.function? h.keyed')
    (h.toCarries.constructor? h.registered h.registered' h.keyed' h.unshared)

/-! ## §3. Types. -/

/-- **One schema is well typed when each declaration of its twin passes on its own.** -/
theorem typing_iff {order : List Symbol} (hnodup : order.Nodup)
    (hall : ∀ a, a ∈ order ↔ a ∈ s.typeNames) :
    ((s.withOrder order).typing Structural.oracle).1 = .ok () ↔ s'.EachPasses := by
  have hrelates := h.relates order
  have hordered : (s.withOrder order).Ordered :=
    (List.perm_ext_iff_of_nodup hnodup h.keyed.types).mpr hall
  have heach := Schema.typing_iff_passes (h.keyed.withOrder order) hordered
    (fun d => (matches_checkTypeDef hrelates d).decides_self)
    (fun f => (matches_checkFunctionDef hrelates f).decides_self) (fun _ _ => ⟨true, rfl⟩)
  have htypes : (∀ d ∈ s.types,
        Check.Passes ⟨s.withOrder order, Structural.oracle⟩ (Typing.checkTypeDef d)) ↔
      ∀ d ∈ s'.types, Check.Passes ⟨s', Structural.oracle⟩ (Typing.checkTypeDef d) := by
    constructor
    · intro hpass d' hd'
      obtain ⟨d, hd, rfl⟩ := List.mem_map.mp (h.types.mem_iff.mpr hd')
      exact (matches_checkTypeDef hrelates d).passes.mp (hpass d hd)
    · intro hpass d hd
      rw [(matches_checkTypeDef hrelates d).passes]
      exact hpass _ (h.types.mem_iff.mp (List.mem_map_of_mem hd))
  -- functions are checked in the order in which they were declared, which may differ
  have hfunctions : (∀ f ∈ s.functions,
        Check.Passes ⟨s.withOrder order, Structural.oracle⟩ (Typing.checkFunctionDef f)) ↔
      ∀ f ∈ s'.functions, Check.Passes ⟨s', Structural.oracle⟩ (Typing.checkFunctionDef f) := by
    constructor
    · intro hpass f' hf'
      obtain ⟨f, hf, rfl⟩ := List.mem_map.mp (h.functions.mem_iff.mpr hf')
      exact (matches_checkFunctionDef hrelates f).passes.mp (hpass f hf)
    · intro hpass f hf
      rw [(matches_checkFunctionDef hrelates f).passes]
      exact hpass _ (h.functions.mem_iff.mp (List.mem_map_of_mem hf))
  unfold Schema.EachPasses
  rw [← htypes, ← hfunctions]
  exact heach

/-! ## §4. The order of the types. -/

variable {t t' : SymbolTable}

theorem order_eq (ht : ρ.SameTexts t t' s.typeNames) :
    (s'.mentionGraph t').order = ρ.outcome (s.mentionGraph t).order :=
  order_mentionGraph h.toCarries h.keyed' h.owner? ht

/-- **The twin has the renamed order.** -/
theorem typeOrder_ok (ht : ρ.SameTexts t t' s.typeNames) {order : List Symbol}
    (hok : s.typeOrder t = .ok order) : s'.typeOrder t' = .ok (order.map ρ.name) := by
  unfold Schema.typeOrder
  rw [h.order_eq ht, Schema.order_of_typeOrder hok]
  rfl

/-- An order is made of the declared types, so its names read the same. -/
theorem order_texts (ht : ρ.SameTexts t t' s.typeNames) {order : List Symbol}
    (hok : s.typeOrder t = .ok order) : (order.map ρ.name).map t'.text = order.map t.text := by
  obtain ⟨-, hall, -⟩ := Schema.typeOrder_sorted h.keyed.types hok
  rw [List.map_map]
  exact List.map_congr_left fun n hn => ht.text n ((hall n).mp hn)

/-- **Where there is no order, the twin has none, and the cycle reads the same.** -/
theorem cycle_message (ht : ρ.SameTexts t t' s.typeNames) {d : Diagnostic}
    (herror : s.typeOrder t = .error d) :
    ∃ d', s'.typeOrder t' = .error d' ∧ d'.message t' = d.message t := by
  obtain ⟨cycle, hcycle, rfl⟩ := Schema.typeOrder_eq_error.mp herror
  refine ⟨.unlocated (.dependencyCycle (cycle.map ρ.name)), ?_, ?_⟩
  · rw [Schema.typeOrder_eq_error]
    refine ⟨_, ?_, rfl⟩
    rw [h.order_eq ht, hcycle]
    rfl
  · -- only declared types are on a cycle, and their texts are the same on both sides
    have hreal := MentionGraph.order_cycle (Schema.nodup_nodes h.keyed.types t) hcycle
    have htext : (cycle.map ρ.name).map t'.text = cycle.map t.text := by
      rw [List.map_map]
      refine List.map_congr_left fun n hn => ht.text n ?_
      exact (Schema.mentionGraph_nodes_perm t s).mem_iff.mp (hreal.declared n hn)
    show "Found dependency cycle: " ++ " -> ".intercalate ((cycle.map ρ.name).map t'.text)
      = "Found dependency cycle: " ++ " -> ".intercalate (cycle.map t.text)
    rw [htext]

end Twin

/-! ## §5. Runs. -/

section Runs

variable {ρ : Renaming} {t t' : SymbolTable} {p : Profile} {ds es : List Declaration}
  (h : (ds.map ρ.declaration).Perm es)

include h

theorem nameFaults_iff :
    (Schema.ofDeclarations es).nameFaults = [] ↔ (Schema.ofDeclarations ds).nameFaults = [] := by
  by_cases hr : (Schema.ofDeclarations ds).refused = []
  · exact (carries_ofDeclarations h hr).nameFaults_eq_nil (refused_iff h)
  · -- a refused declaration is a name fault on either side
    have hr' : (Schema.ofDeclarations es).refused ≠ [] := mt (refused_iff h).mp hr
    constructor
    · intro hclean
      exact absurd (Schema.nameFaults_eq_nil.mp hclean).2.1 hr'
    · intro hclean
      exact absurd (Schema.nameFaults_eq_nil.mp hclean).2.1 hr

/-- Where no name is at fault, the schemas are twins. -/
theorem twin_ofDeclarations (hclean : (Schema.ofDeclarations ds).nameFaults = []) :
    ρ.Twin (Schema.ofDeclarations ds) (Schema.ofDeclarations es) := by
  obtain ⟨⟨hnodup, -⟩, hr, -⟩ := Schema.nameFaults_eq_nil.mp hclean
  exact ⟨carries_ofDeclarations h hr, Schema.keyed_ofDeclarations ds,
    Schema.keyed_ofDeclarations es, Schema.registered_ofDeclarations ds,
    Schema.registered_ofDeclarations es, Schema.unshared_of_nodup hnodup⟩

variable (ht : ρ.SameTexts t t' (Schema.ofDeclarations ds).typeNames)

include ht

/-- **Whether a run passes can be told from the renamed declarations.** -/
theorem check_ok_iff : ((Schema.ofDeclarations ds).check t p).result = .ok () ↔
    (Schema.ofDeclarations es).nameFaults = []
      ∧ (∃ order, (Schema.ofDeclarations es).typeOrder t' = .ok order)
      ∧ (Schema.ofDeclarations es).EachPasses := by
  rw [Schema.check_ok_iff, nameFaults_iff h, and_congr_right_iff]
  intro hclean
  have htwin := twin_ofDeclarations h hclean
  constructor
  · intro hgiven
    obtain ⟨order, horder, htyped⟩ := hgiven
    obtain ⟨hnodup, hall, -⟩ := Schema.typeOrder_sorted htwin.keyed.types horder
    exact ⟨⟨_, htwin.typeOrder_ok ht horder⟩, (htwin.typing_iff hnodup hall).mp htyped⟩
  · intro hfound
    obtain ⟨⟨order', horder'⟩, hpass⟩ := hfound
    -- a cycle here would be one of the twin, which has an order
    cases horder : (Schema.ofDeclarations ds).typeOrder t with
    | ok order =>
      obtain ⟨hnodup, hall, -⟩ := Schema.typeOrder_sorted htwin.keyed.types horder
      exact ⟨order, rfl, (htwin.typing_iff hnodup hall).mpr hpass⟩
    | error d =>
      obtain ⟨d', hd', -⟩ := htwin.cycle_message ht horder
      rw [horder'] at hd'
      cases hd'

/-- **The order that a passing run keeps reads as that of the renamed declarations.** -/
theorem visitOrder_texts (hok : ((Schema.ofDeclarations ds).check t p).result = .ok ()) :
    ∃ order, (Schema.ofDeclarations es).typeOrder t' = .ok order
      ∧ ((Schema.ofDeclarations ds).check t p).schema.visitOrder.map t.text
        = order.map t'.text := by
  obtain ⟨hclean, order, horder, -⟩ := Schema.check_ok_iff.mp hok
  have htwin := twin_ofDeclarations h hclean
  refine ⟨order.map ρ.name, htwin.typeOrder_ok ht horder, ?_⟩
  rw [(Schema.check_of_order hclean horder).2.1, htwin.order_texts ht horder]

/-- **Whether a run fails for a cycle, and how the cycle reads, can be told from the renamed
declarations.** -/
theorem failsInOrder_iff {m : String} :
    ((Schema.ofDeclarations ds).check t p).FailsInOrder t m ↔
      (Schema.ofDeclarations es).nameFaults = []
        ∧ ∃ d, (Schema.ofDeclarations es).typeOrder t' = .error d ∧ d.message t' = m := by
  rw [Schema.failsInOrder_iff, nameFaults_iff h, and_congr_right_iff]
  intro hclean
  have htwin := twin_ofDeclarations h hclean
  constructor
  · intro hgiven
    obtain ⟨d, hd, hm⟩ := hgiven
    obtain ⟨d', hd', hm'⟩ := htwin.cycle_message ht hd
    exact ⟨d', hd', hm'.trans hm⟩
  · intro hfound
    obtain ⟨d', hd', hm'⟩ := hfound
    cases horder : (Schema.ofDeclarations ds).typeOrder t with
    | ok order =>
      rw [htwin.typeOrder_ok ht horder] at hd'
      cases hd'
    | error d =>
      obtain ⟨e, he, hm⟩ := htwin.cycle_message ht horder
      rw [hd'] at he
      cases he
      exact ⟨d, rfl, hm.symm.trans hm'⟩

end Runs

end Renaming

end DepSchema
