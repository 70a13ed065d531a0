/-
DepSchema.Proofs.Order.Roots — which walk down a type is put into the order by.

The walk goes through the declared types by their texts and walks down from each that is not done.
When it has gone through some of them, exactly what they reach is done: what is done is closed under
mentions, and nothing is put behind it but what was reached. So a type is done with the first of
those that reach it, and the texts of these say which of two types comes first, wherever mentions
leave that open. Nothing else about the schema plays a part.

Main results: `walk_reached`, `order_split` and `typeOrder_lexicographic`.
-/
import DepSchema.Proofs.Order.TypeOrder

namespace DepSchema

open Relation

namespace MentionGraph

variable {g : MentionGraph} {opened path done order : List Symbol}

/-! ## §1. What a walk reaches. -/

/-- **A walk puts behind what is done only what it reaches from the names it was given.** -/
theorem walk_reached {names : List Symbol} (h : g.walk opened path done names = .ok order) :
    ∃ added, order = done ++ added
      ∧ ∀ a ∈ added, ∃ n ∈ names, n ∈ g.nodes ∧ ReflTransGen g.Edge n a := by
  -- on the recursion of the walk; what is reached from a target is reached from the type above it
  induction opened, path, done, names using MentionGraph.walk.induct g generalizing order with
  | case1 opened path done =>
    rw [walk] at h
    cases h
    exact ⟨[], by simp, by simp⟩
  | case2 opened path done name rest hskip ih =>
    rw [walk, if_pos hskip] at h
    obtain ⟨added, rfl, hadded⟩ := ih h
    refine ⟨added, rfl, fun a ha => ?_⟩
    obtain ⟨n, hn, hreach⟩ := hadded a ha
    exact ⟨n, List.mem_cons_of_mem name hn, hreach⟩
  | case3 opened path done name rest hskip hopened below hdown ihdown ihrest =>
    rw [walk, if_neg hskip, if_pos hopened, hdown] at h
    obtain ⟨hnode, -⟩ := visit_iff.mp hskip
    obtain ⟨deeper, rfl, hdeeper⟩ := ihdown hdown
    obtain ⟨later, rfl, hlater⟩ := ihrest h
    refine ⟨deeper ++ name :: later, by simp, fun a ha => ?_⟩
    rcases List.mem_append.mp ha with ha | ha
    · obtain ⟨n, hn, hn', hreach⟩ := hdeeper a ha
      exact ⟨name, List.mem_cons_self, hnode, hreach.head ⟨hnode, hn', hn⟩⟩
    · rcases List.mem_cons.mp ha with rfl | ha
      · exact ⟨a, List.mem_cons_self, hnode, .refl⟩
      · obtain ⟨n, hn, hreach⟩ := hlater a ha
        exact ⟨n, List.mem_cons_of_mem name hn, hreach⟩
  | case4 opened path done name rest hskip hopened cycle hdown ihdown =>
    rw [walk, if_neg hskip, if_pos hopened, hdown] at h
    cases h
  | case5 opened path done name rest hskip hopened =>
    rw [walk, if_neg hskip, if_neg hopened] at h
    cases h

/-- A walk through names in two parts. -/
theorem walk_append {first second : List Symbol}
    (h : g.walk opened path done (first ++ second) = .ok order) :
    ∃ mid, g.walk opened path done first = .ok mid ∧ g.walk opened path mid second = .ok order := by
  induction first generalizing done with
  | nil =>
    refine ⟨done, ?_, h⟩
    rw [walk]
  | cons name rest ih =>
    rw [List.cons_append, walk] at h
    rw [walk]
    by_cases hskip : (!g.nodes.contains name || done.contains name) = true
    · rw [if_pos hskip] at h ⊢
      exact ih h
    · rw [if_neg hskip] at h ⊢
      by_cases hopened : name ∈ opened
      · rw [if_pos hopened] at h ⊢
        cases hdown : g.walk (opened.erase name) (path ++ [name]) done (g.targets name) with
        | ok below =>
          rw [hdown] at h
          exact ih h
        | error cycle =>
          rw [hdown] at h
          cases h
      · rw [if_neg hopened] at h
        cases h

/-- What is done is closed under mentions. -/
theorem Ordered.reaches {a b : Symbol} (h : g.Ordered done) (ha : a ∈ done)
    (hab : ReflTransGen g.Edge a b) : b ∈ done := by
  induction hab with
  | refl => exact ha
  | tail _ hedge ih =>
    obtain ⟨before, after, hsplit⟩ := List.append_of_mem ih
    rw [hsplit]
    exact List.mem_append_left _ (h.after _ _ _ hsplit _ hedge)

/-- **What the first of the declared types reach comes first in the order**, and nothing else. -/
theorem order_split (hn : g.nodes.Nodup) (h : g.order = .ok order) {before after : List Symbol}
    (hsplit : g.nodes = before ++ after) :
    ∃ first last, order = first ++ last
      ∧ ∀ a, a ∈ first ↔ ∃ n ∈ before, ReflTransGen g.Edge n a := by
  have hwalk : g.walk g.nodes [] [] (before ++ after) = .ok order := by
    rw [← hsplit]
    exact h
  obtain ⟨first, hfirst, hlast⟩ := walk_append hwalk
  obtain ⟨last, rfl, -⟩ := walk_reached hlast
  refine ⟨first, last, rfl, fun a => ?_⟩
  constructor
  · intro ha
    obtain ⟨added, rfl, hadded⟩ := walk_reached hfirst
    obtain ⟨n, hmem, -, hreach⟩ := hadded a ha
    exact ⟨n, hmem, hreach⟩
  · rintro ⟨n, hmem, hreach⟩
    obtain ⟨hordered, -, -, hall⟩ :=
      walk_ok hn Trail.root (Below.root _) Ordered.nil (by simp) hfirst
    have hnode : n ∈ g.nodes := by
      rw [hsplit]
      exact List.mem_append_left after hmem
    exact hordered.reaches (hall n hmem hnode) hreach

end MentionGraph

namespace Schema

/-! ## §2. Types that reach a type. -/

/-- The definition of the declared type `a` mentions the declared type `b`. -/
def Mentions (s : Schema) (a b : Symbol) : Prop :=
  b ∈ s.typeNames ∧ ∃ d, s.type? a = some d ∧ (d.AsksFor s.owner? b ∨ d.Holds s.owner? b)

/-- The texts of a type and of all that reach it through mentions. -/
def reacherTexts (t : SymbolTable) (s : Schema) (a : Symbol) : Set String :=
  {text | ∃ n ∈ s.typeNames, ReflTransGen s.Mentions n a ∧ t.text n = text}

variable {t : SymbolTable} {s : Schema} {a b : Symbol}

/-- What a type mentions beside itself is what it depends on. -/
theorem mentions_iff : s.Mentions a b ∧ a ≠ b ↔ s.DependsOn a b ∧ a ≠ b := by
  unfold Mentions DependsOn
  constructor
  · rintro ⟨⟨hb, d, hd, hmention⟩, hne⟩
    exact ⟨⟨hb, d, hd, hmention.imp_right fun hholds => ⟨hholds, hne.symm⟩⟩, hne⟩
  · rintro ⟨⟨hb, d, hd, hmention⟩, hne⟩
    exact ⟨⟨hb, d, hd, hmention.imp_right And.left⟩, hne⟩

/-- A type that mentions itself in a field reaches no more by that. -/
theorem reaches_iff : ReflTransGen s.Mentions a b ↔ ReflTransGen s.DependsOn a b := by
  have hto : ∀ r q : Symbol → Symbol → Prop, (∀ x y, r x y ∧ x ≠ y ↔ q x y ∧ x ≠ y) →
      ReflTransGen r a b → ReflTransGen q a b := by
    intro r q hiff hab
    induction hab with
    | refl => exact .refl
    | @tail x y _ hxy ih =>
      by_cases heq : x = y
      · exact heq ▸ ih
      · exact ih.tail ((hiff x y).mp ⟨hxy, heq⟩).1
  exact ⟨hto _ _ fun _ _ => mentions_iff, hto _ _ fun _ _ => mentions_iff.symm⟩

theorem edge_reaches_iff :
    ReflTransGen (s.mentionGraph t).Edge a b ↔ ReflTransGen s.Mentions a b := by
  rw [edge_eq_dependsOn, reaches_iff]

/-- A declared type has a least one among the texts of those that reach it. -/
theorem exists_isLeast_reacherTexts (ha : a ∈ s.typeNames) :
    ∃ r, IsLeast (s.reacherTexts t a) r := by
  have hfinite : (s.reacherTexts t a).Finite := by
    refine (s.typeNames.map t.text).toFinset.finite_toSet.subset ?_
    rintro text ⟨n, hn, -, rfl⟩
    simpa using ⟨n, hn, rfl⟩
  have hself : t.text a ∈ s.reacherTexts t a := ⟨a, ha, .refl, rfl⟩
  obtain ⟨r, hr, hleast⟩ := Set.exists_min_image _ id hfinite ⟨_, hself⟩
  exact ⟨r, hr, hleast⟩

/-- The declared types are gone through by their texts. -/
theorem nodes_pairwise (t : SymbolTable) (s : Schema) :
    (s.mentionGraph t).nodes.Pairwise fun a b => t.text a ≤ t.text b := by
  have hsorted : (s.mentionGraph t).nodes.Pairwise fun a b =>
      decide (t.text a ≤ t.text b) = true :=
    List.pairwise_mergeSort (by simpa using fun a b c hab hbc => le_trans hab hbc)
      (by simpa using fun a b => le_total (t.text a) (t.text b)) (s.types.map TypeDef.name)
  exact hsorted.imp fun h => of_decide_eq_true h

/-! ## §3. The order. -/

/-- **Where mentions leave the order free it is lexicographic**: of two declared types the one comes
first that is reached from a type with a smaller text. -/
theorem typeOrder_lexicographic (hs : s.typeNames.Nodup) {order : List Symbol}
    (h : s.typeOrder t = .ok order) :
    (∀ a ∈ s.typeNames, ∃ r, IsLeast (s.reacherTexts t a) r)
      ∧ ∀ a ∈ s.typeNames, ∀ b ∈ s.typeNames, ∀ p q, IsLeast (s.reacherTexts t a) p →
          IsLeast (s.reacherTexts t b) q → p < q →
          order.idxOf a < order.idxOf b ∧ order.idxOf b < order.length := by
  refine ⟨fun a => exists_isLeast_reacherTexts, fun a ha b hb p q hp hq hlt => ?_⟩
  obtain ⟨-, hall, -⟩ := typeOrder_sorted hs h
  have hlength : order.idxOf b < order.length := List.idxOf_lt_length_iff.mpr ((hall b).mpr hb)
  refine ⟨?_, hlength⟩
  -- the type with the text `p` that reaches `a`, and all that are gone through before
  obtain ⟨⟨n, hn, hreach, rfl⟩, -⟩ := hp
  obtain ⟨before, after, hsplit⟩ :=
    List.append_of_mem ((mentionGraph_nodes_perm t s).mem_iff.mpr hn)
  have hsmall : ∀ m ∈ before ++ [n], t.text m ≤ t.text n := by
    have hsorted := nodes_pairwise t s
    rw [hsplit, List.pairwise_append] at hsorted
    intro m hm
    rcases List.mem_append.mp hm with hm | hm
    · exact hsorted.2.2 m hm n List.mem_cons_self
    · rw [List.mem_singleton.mp hm]
  have hsplit' : (s.mentionGraph t).nodes = (before ++ [n]) ++ after := by
    rw [hsplit, List.append_assoc, List.singleton_append]
  obtain ⟨first, last, rfl, hfirst⟩ :=
    MentionGraph.order_split (nodup_nodes hs t) (order_of_typeOrder h) hsplit'
  have hmem : a ∈ first :=
    (hfirst a).mpr ⟨n, List.mem_append_right before (by simp), edge_reaches_iff.mpr hreach⟩
  -- what reaches `b` has greater texts and is gone through later
  have hnot : b ∉ first := by
    intro hmem
    obtain ⟨m, hm, hmb⟩ := (hfirst b).mp hmem
    have hnode : m ∈ s.typeNames := by
      refine (mentionGraph_nodes_perm t s).mem_iff.mp ?_
      rw [hsplit']
      exact List.mem_append_left after hm
    have hge := hq.2 ⟨m, hnode, edge_reaches_iff.mp hmb, rfl⟩
    exact absurd (hge.trans (hsmall m hm)) (not_le_of_gt hlt)
  rw [List.idxOf_append_of_mem hmem, List.idxOf_append_of_notMem hnot]
  have hposition : first.idxOf a < first.length := List.idxOf_lt_length_iff.mpr hmem
  omega

namespace Example

/-- The slots 7, 8 and 9 are the types. -/
def pinNames : SymbolTable := ⟨SymbolTable.builtinNames ++ ["C", "Z", "B", "z"]⟩

/-- `B` holds a `Z`, and nothing mentions `B` or `C`. -/
def pins : List Declaration :=
  [.type (.message ⟨ident 7, [], []⟩), .type (.message ⟨ident 8, [], []⟩),
    .type (.message ⟨ident 9, [], [field 10 8 []]⟩)]

/-- Nothing reaches `C`. -/
theorem not_mentions_pins {a : Symbol} : ¬ (ofDeclarations pins).DependsOn a ⟨7⟩ := by
  rintro ⟨-, d, hd, hmention⟩
  have hmem : (⟨7⟩ : Symbol) ∈ d.mentions (ofDeclarations pins).owner? := by
    rw [TypeDef.mem_mentions, type?_name hd]
    exact hmention
  have hall : ∀ d ∈ (ofDeclarations pins).types,
      (⟨7⟩ : Symbol) ∉ d.mentions (ofDeclarations pins).owner? := by decide
  exact hall d (List.mem_of_find?_eq_some hd) hmem

end Example

/-- `Z` comes before `C`, as it is reached from `B`. -/
theorem typeOrder_pins :
    (ofDeclarations Example.pins).typeNames.Nodup
      ∧ (ofDeclarations Example.pins).typeOrder Example.pinNames = .ok [⟨8⟩, ⟨9⟩, ⟨7⟩]
      ∧ IsLeast ((ofDeclarations Example.pins).reacherTexts Example.pinNames ⟨8⟩) "B"
      ∧ IsLeast ((ofDeclarations Example.pins).reacherTexts Example.pinNames ⟨7⟩) "C"
      ∧ [(⟨8⟩ : Symbol), ⟨9⟩, ⟨7⟩].idxOf ⟨8⟩ < [(⟨8⟩ : Symbol), ⟨9⟩, ⟨7⟩].idxOf ⟨7⟩ := by
  have hs : (ofDeclarations Example.pins).typeNames.Nodup := by decide
  have h : (ofDeclarations Example.pins).typeOrder Example.pinNames
      = .ok [⟨8⟩, ⟨9⟩, ⟨7⟩] := by cbv
  have hz : IsLeast ((ofDeclarations Example.pins).reacherTexts Example.pinNames ⟨8⟩) "B" := by
    have hedge : (ofDeclarations Example.pins).Mentions ⟨9⟩ ⟨8⟩ :=
      ⟨by decide, _, rfl, .inr ⟨_, List.mem_singleton_self _, _, List.mem_singleton_self _,
        .name rfl⟩⟩
    refine ⟨⟨⟨9⟩, by decide, .single hedge, by decide⟩, ?_⟩
    rintro text ⟨n, hn, -, rfl⟩
    have hall : ∀ n ∈ (ofDeclarations Example.pins).typeNames,
        "B" ≤ Example.pinNames.text n := by decide
    exact hall n hn
  have hc : IsLeast ((ofDeclarations Example.pins).reacherTexts Example.pinNames ⟨7⟩) "C" := by
    refine ⟨⟨⟨7⟩, by decide, .refl, by decide⟩, ?_⟩
    rintro text ⟨n, -, hreach, rfl⟩
    rcases (reaches_iff.mp hreach).cases_tail with rfl | ⟨m, -, hm⟩
    · decide
    · exact absurd hm Example.not_mentions_pins
  exact ⟨hs, h, hz, hc,
    ((typeOrder_lexicographic hs h).2 ⟨8⟩ (by decide) ⟨7⟩ (by decide) "B" "C" hz hc
      (by decide)).1⟩

end Schema

end DepSchema
