/-
DepSchema.Proofs.Order.Walk — what the depth-first walk of a mention graph gives.

A walk either puts types into an order or meets a cycle. The list `done` is kept ordered: each type
once, after everything it mentions. The path from a root to the current type follows mentions, and
together with the opened types it makes up all declared types, so a type that is neither done nor
opened is on the path and closes a cycle there.

Main results: `order_ordered` (a complete order), `order_cycle` (a real, simple cycle), and
`order_error_iff`, the walk fails exactly on graphs with a cycle.
-/
import Mathlib
import DepSchema.VisitOrder

namespace DepSchema.MentionGraph

open Relation

/-! ## §1. Orders and cycles of a graph. -/

/-- A declared type mentions a declared type. -/
def Edge (g : MentionGraph) (a b : Symbol) : Prop :=
  a ∈ g.nodes ∧ b ∈ g.nodes ∧ b ∈ g.targets a

/-- Some declared type reaches itself. -/
def Cyclic (g : MentionGraph) : Prop := ∃ a, TransGen g.Edge a a

/-- Declared types, each once and after every declared type that it mentions. -/
structure Ordered (g : MentionGraph) (done : List Symbol) : Prop where
  nodup : done.Nodup
  declared : ∀ a ∈ done, a ∈ g.nodes
  after : ∀ pre a post, done = pre ++ a :: post → ∀ b, g.Edge a b → b ∈ pre

/-- A path of mentions from a type back to it, which visits no type twice before it returns. -/
structure IsCycle (g : MentionGraph) (path : List Symbol) : Prop where
  returns : ∃ a inner, path = a :: inner ++ [a]
  chain : path.IsChain g.Edge
  simple : path.dropLast.Nodup

variable {g : MentionGraph}

theorem Ordered.nil : g.Ordered [] :=
  ⟨List.nodup_nil, by simp, by simp⟩

/-- A type whose mentions are all done can be put behind them. -/
theorem Ordered.snoc {done : List Symbol} {name : Symbol} (h : g.Ordered done)
    (hname : name ∈ g.nodes) (hnew : name ∉ done)
    (htargets : ∀ b, g.Edge name b → b ∈ done) : g.Ordered (done ++ [name]) := by
  refine ⟨?_, ?_, ?_⟩
  · rw [List.nodup_append]
    refine ⟨h.nodup, List.nodup_singleton name, ?_⟩
    intro a ha b hb
    rw [List.mem_singleton] at hb
    subst hb
    intro hab
    exact hnew (hab ▸ ha)
  · intro a ha
    rcases List.mem_append.mp ha with ha | ha
    · exact h.declared a ha
    · rw [List.mem_singleton.mp ha]
      exact hname
  · intro pre a post heq b hb
    -- either `a` is the new last type or it stands inside `done`
    rcases List.eq_nil_or_concat post with rfl | ⟨post, last, rfl⟩
    · obtain ⟨hpre, ha⟩ := List.append_inj' heq rfl
      subst hpre
      have haname : name = a := by simpa using ha
      subst haname
      exact htargets b hb
    · have heq' : done ++ [name] = (pre ++ a :: post) ++ [last] := by simpa using heq
      obtain ⟨hdone, -⟩ := List.append_inj' heq' rfl
      exact h.after pre a post hdone b hb

/-- In an order, what is mentioned has a smaller position. -/
theorem Ordered.idxOf_lt {done : List Symbol} {a b : Symbol} (h : g.Ordered done) (ha : a ∈ done)
    (hab : g.Edge a b) : done.idxOf b < done.idxOf a := by
  -- what stands before `a` holds `b` and not `a`
  obtain ⟨pre, post, hsplit⟩ := List.append_of_mem ha
  have hb : b ∈ pre := h.after pre a post hsplit b hab
  have hpre : a ∉ pre := by
    intro hmem
    have hnd := h.nodup
    rw [hsplit, List.nodup_append] at hnd
    exact hnd.2.2 a hmem a List.mem_cons_self rfl
  rw [hsplit, List.idxOf_append_of_mem hb, List.idxOf_append_of_notMem hpre]
  have hlt : pre.idxOf b < pre.length := List.idxOf_lt_length_iff.mpr hb
  omega

/-- A graph whose types are all in an order has no cycle: along mentions the position falls. -/
theorem Ordered.not_cyclic {done : List Symbol} (h : g.Ordered done)
    (hall : ∀ a ∈ g.nodes, a ∈ done) : ¬ g.Cyclic := by
  intro hgiven
  obtain ⟨a, ha⟩ := hgiven
  -- a cycle would lead from a position to a smaller one and back
  have hfall : ∀ {x y : Symbol}, TransGen g.Edge x y → done.idxOf y < done.idxOf x := by
    intro x y hxy
    induction hxy with
    | single hxy => exact h.idxOf_lt (hall _ hxy.1) hxy
    | tail _ hyz ih => exact (h.idxOf_lt (hall _ hyz.1) hyz).trans ih
  exact lt_irrefl _ (hfall ha)

/-- The first type of a chain reaches the last. -/
theorem transGen_of_isChain {r : Symbol → Symbol → Prop} :
    ∀ (inner : List Symbol) (a b : Symbol), (a :: inner ++ [b]).IsChain r → TransGen r a b
  | [], a, b, h => by
    simp only [List.cons_append, List.nil_append, List.isChain_cons_cons] at h
    exact .single h.1
  | c :: inner, a, b, h => by
    simp only [List.cons_append, List.isChain_cons_cons] at h
    have hrest : TransGen r c b := transGen_of_isChain inner c b h.2
    exact hrest.head h.1

theorem declared_of_chain {path : List Symbol} : ∀ {a : Symbol}, (a :: path).IsChain g.Edge →
    ∀ b ∈ path, b ∈ g.nodes := by
  induction path with
  | nil => simp
  | cons c path ih =>
    intro a hchain b hb
    obtain ⟨hedge, hrest⟩ := List.isChain_cons_cons.mp hchain
    rcases List.mem_cons.mp hb with rfl | hb
    · exact hedge.2.1
    · exact ih hrest b hb

/-- A cycle is made of declared types. -/
theorem IsCycle.declared {path : List Symbol} (h : g.IsCycle path) : ∀ a ∈ path, a ∈ g.nodes := by
  obtain ⟨a, inner, rfl⟩ := h.returns
  -- every type behind the first one is mentioned, and the first one is also the last
  have htail := declared_of_chain h.chain
  intro b hb
  rcases List.mem_cons.mp hb with rfl | hb
  · exact htail b (List.mem_append_right inner (List.mem_singleton_self b))
  · exact htail b hb

theorem IsCycle.cyclic {path : List Symbol} (h : g.IsCycle path) : g.Cyclic := by
  obtain ⟨a, inner, rfl⟩ := h.returns
  exact ⟨a, transGen_of_isChain inner a a h.chain⟩

/-! ## §2. The path of a walk. -/

/-- The path and the opened types are the declared types, and the path follows mentions. -/
structure Trail (g : MentionGraph) (opened path : List Symbol) : Prop where
  perm : (opened ++ path).Perm g.nodes
  chain : path.IsChain g.Edge

/-- The names are mentioned by the last type of the path. -/
def Below (g : MentionGraph) (path names : List Symbol) : Prop :=
  ∀ last ∈ path.getLast?, ∀ name ∈ names, name ∈ g.targets last

theorem Trail.root : g.Trail g.nodes [] :=
  ⟨by simp, List.isChain_nil⟩

theorem Below.root (names : List Symbol) : g.Below [] names := by
  simp [Below]

theorem Below.rest {path rest : List Symbol} {name : Symbol} (h : g.Below path (name :: rest)) :
    g.Below path rest :=
  fun last hlast n hn => h last hlast n (List.mem_cons_of_mem name hn)

theorem Below.down (path : List Symbol) (name : Symbol) :
    g.Below (path ++ [name]) (g.targets name) := by
  intro last hlast n hn
  have heq : last = name := by simpa using hlast.symm
  subst heq
  exact hn

theorem Trail.mem_nodes {opened path : List Symbol} {a : Symbol} (h : g.Trail opened path)
    (ha : a ∈ path) : a ∈ g.nodes :=
  h.perm.mem_iff.mp (List.mem_append_right opened ha)

theorem Trail.mem_path {opened path : List Symbol} {a : Symbol} (h : g.Trail opened path)
    (ha : a ∈ g.nodes) (hopened : a ∉ opened) : a ∈ path :=
  (List.mem_append.mp (h.perm.mem_iff.mpr ha)).resolve_left hopened

theorem Trail.nodup {opened path : List Symbol} (h : g.Trail opened path) (hn : g.nodes.Nodup) :
    path.Nodup :=
  (h.perm.nodup_iff.mpr hn).of_append_right

theorem Trail.notMem_path {opened path : List Symbol} {a : Symbol} (h : g.Trail opened path)
    (hn : g.nodes.Nodup) (hopened : a ∈ opened) : a ∉ path := by
  have hall := h.perm.nodup_iff.mpr hn
  rw [List.nodup_append] at hall
  intro hmem
  exact hall.2.2 a hopened a hmem rfl

/-- The last type of the path mentions the declared names below it. -/
theorem Trail.edge {opened path names : List Symbol} {last name : Symbol}
    (h : g.Trail opened path) (hbelow : g.Below path names) (hlast : last ∈ path.getLast?)
    (hname : name ∈ names) (hnode : name ∈ g.nodes) : g.Edge last name :=
  ⟨h.mem_nodes (List.mem_of_getLast? hlast), hnode, hbelow last hlast name hname⟩

/-- One step down moves a type from the opened ones to the end of the path. -/
theorem Trail.down {opened path rest : List Symbol} {name : Symbol} (h : g.Trail opened path)
    (hbelow : g.Below path (name :: rest)) (hnode : name ∈ g.nodes) (hopened : name ∈ opened) :
    g.Trail (opened.erase name) (path ++ [name]) := by
  constructor
  · calc (opened.erase name ++ (path ++ [name])).Perm (name :: (opened.erase name ++ path)) := by
          rw [← List.append_assoc]
          exact List.perm_append_singleton name _
      _ = name :: opened.erase name ++ path := rfl
      _ |>.Perm (opened ++ path) := (List.perm_cons_erase hopened).symm.append_right path
      _ |>.Perm g.nodes := h.perm
  · rw [List.isChain_append]
    refine ⟨h.chain, List.isChain_singleton name, ?_⟩
    intro last hlast b hb
    have hb' : b = name := by simpa using hb.symm
    subst hb'
    exact h.edge hbelow hlast List.mem_cons_self hnode

/-- A mentioned type that is on the path closes a cycle: the path from that type on, and the type
again. -/
theorem Trail.isCycle {opened path rest : List Symbol} {name : Symbol} (h : g.Trail opened path)
    (hn : g.nodes.Nodup) (hbelow : g.Below path (name :: rest)) (hnode : name ∈ g.nodes)
    (hpath : name ∈ path) : g.IsCycle (path.dropWhile (· != name) ++ [name]) := by
  -- the path is cut where `name` stands on it for the first time
  obtain ⟨pre, post, hsplit, hpre⟩ := List.eq_append_cons_of_mem hpath
  have hdrop : path.dropWhile (· != name) = name :: post := by
    rw [hsplit, List.dropWhile_append_of_pos, List.dropWhile_cons_of_neg (by simp)]
    intro a ha
    have hne : a ≠ name := fun heq => hpre (heq ▸ ha)
    simpa using hne
  have hnodup : (name :: post).Nodup := by
    have hall := h.nodup hn
    rw [hsplit] at hall
    exact hall.of_append_right
  have hchain : (name :: post).IsChain g.Edge := by
    have hall := h.chain
    rw [hsplit, List.isChain_append] at hall
    exact hall.2.1
  rw [hdrop]
  refine ⟨⟨name, post, rfl⟩, ?_, by rw [List.dropLast_concat]; exact hnodup⟩
  rw [List.isChain_append]
  -- the last type of the path mentions `name` and so closes the cycle
  refine ⟨hchain, List.isChain_singleton name, ?_⟩
  intro last hlast b hb
  have hb' : b = name := by simpa using hb.symm
  subst hb'
  have hlast' : last ∈ path.getLast? := by
    rw [hsplit, List.getLast?_append, hlast]
    simp
  exact h.edge hbelow hlast' List.mem_cons_self hnode

/-! ## §3. The walk. -/

theorem skip_iff {done : List Symbol} {name : Symbol} :
    (!g.nodes.contains name || done.contains name) = true ↔ name ∉ g.nodes ∨ name ∈ done := by
  simp

theorem visit_iff {done : List Symbol} {name : Symbol} :
    ¬ (!g.nodes.contains name || done.contains name) = true ↔ name ∈ g.nodes ∧ name ∉ done := by
  simp

/-- **A walk that passes extends the order by everything it was asked for.** -/
theorem walk_ok (hn : g.nodes.Nodup) {opened path done names order : List Symbol}
    (htrail : g.Trail opened path) (hbelow : g.Below path names) (hd : g.Ordered done)
    (hpath : ∀ a ∈ done, a ∉ path) (h : g.walk opened path done names = .ok order) :
    g.Ordered order ∧ done ⊆ order ∧ (∀ a ∈ order, a ∉ path)
      ∧ ∀ name ∈ names, name ∈ g.nodes → name ∈ order := by
  -- on the recursion of the walk; that nothing done is on the path is what keeps the order free of
  -- repetitions when the walk comes back up
  induction opened, path, done, names using MentionGraph.walk.induct g generalizing order with
  | case1 opened path done =>
    simp only [walk, Except.ok.injEq] at h
    subst h
    exact ⟨hd, fun _ ha => ha, hpath, by simp⟩
  | case2 opened path done name rest hskip ih =>
    rw [walk, if_pos hskip] at h
    obtain ⟨hord, hsub, hfree, hall⟩ := ih htrail hbelow.rest hd hpath h
    refine ⟨hord, hsub, hfree, ?_⟩
    intro n hmem hnode
    rcases List.mem_cons.mp hmem with rfl | hmem
    · -- a declared name is skipped only if it is done
      exact hsub ((skip_iff.mp hskip).resolve_left (fun hno => hno hnode))
    · exact hall n hmem hnode
  | case3 opened path done name rest hskip hopened below hdown ihdown ihrest =>
    rw [walk, if_neg hskip, if_pos hopened, hdown] at h
    obtain ⟨hnode, hnew⟩ := visit_iff.mp hskip
    have hoff : name ∉ path := htrail.notMem_path hn hopened
    -- down: `name` joins the path, and nothing that is done stands on it
    have hpathname : ∀ a ∈ done, a ∉ path ++ [name] := by
      intro a ha hmem
      rcases List.mem_append.mp hmem with hmem | hmem
      · exact hpath a ha hmem
      · exact hnew (List.mem_singleton.mp hmem ▸ ha)
    obtain ⟨hord, hsub, hfree, hall⟩ :=
      ihdown (htrail.down hbelow hnode hopened) (Below.down path name) hd hpathname hdown
    -- back up: all that `name` mentions is done, so it goes behind
    have hnewbelow : name ∉ below := fun hmem => hfree name hmem (by simp)
    have hord' : g.Ordered (below ++ [name]) :=
      hord.snoc hnode hnewbelow (fun b hb => hall b hb.2.2 hb.2.1)
    have hfree' : ∀ a ∈ below ++ [name], a ∉ path := by
      intro a ha hmem
      rcases List.mem_append.mp ha with ha | ha
      · exact hfree a ha (List.mem_append_left [name] hmem)
      · exact hoff (List.mem_singleton.mp ha ▸ hmem)
    -- on: the rest of the names extends what is done by now
    obtain ⟨hord2, hsub2, hfree2, hall2⟩ := ihrest htrail hbelow.rest hord' hfree' h
    refine ⟨hord2, ?_, hfree2, ?_⟩
    · intro a ha
      exact hsub2 (List.mem_append_left [name] (hsub ha))
    · intro n hmem hn'
      rcases List.mem_cons.mp hmem with rfl | hmem
      · exact hsub2 (by simp)
      · exact hall2 n hmem hn'
  | case4 opened path done name rest hskip hopened cycle hdown ihdown =>
    rw [walk, if_neg hskip, if_pos hopened, hdown] at h
    cases h
  | case5 opened path done name rest hskip hopened =>
    rw [walk, if_neg hskip, if_neg hopened] at h
    cases h

/-- **A walk that fails has met a cycle.** -/
theorem walk_error (hn : g.nodes.Nodup) {opened path done names cycle : List Symbol}
    (htrail : g.Trail opened path) (hbelow : g.Below path names)
    (h : g.walk opened path done names = .error cycle) : g.IsCycle cycle := by
  -- on the recursion of the walk; the trail is what turns a type met again into a cycle
  induction opened, path, done, names using MentionGraph.walk.induct g with
  | case1 opened path done =>
    rw [walk] at h
    cases h
  | case2 opened path done name rest hskip ih =>
    rw [walk, if_pos hskip] at h
    exact ih htrail hbelow.rest h
  | case3 opened path done name rest hskip hopened below hdown ihdown ihrest =>
    rw [walk, if_neg hskip, if_pos hopened, hdown] at h
    exact ihrest htrail hbelow.rest h
  | case4 opened path done name rest hskip hopened cycle' hdown ihdown =>
    rw [walk, if_neg hskip, if_pos hopened, hdown] at h
    injection h with h
    subst h
    obtain ⟨hnode, -⟩ := visit_iff.mp hskip
    exact ihdown (htrail.down hbelow hnode hopened) (Below.down path name) hdown
  | case5 opened path done name rest hskip hopened =>
    rw [walk, if_neg hskip, if_neg hopened] at h
    injection h with h
    subst h
    obtain ⟨hnode, -⟩ := visit_iff.mp hskip
    -- a declared type that is neither done nor open is on the path
    exact htrail.isCycle hn hbelow hnode (htrail.mem_path hnode hopened)

/-! ## §4. The order of all types. -/

/-- **An order that is found holds every declared type, each after those it mentions.** -/
theorem order_ordered (hn : g.nodes.Nodup) {order : List Symbol} (h : g.order = .ok order) :
    g.Ordered order ∧ ∀ a, a ∈ order ↔ a ∈ g.nodes := by
  obtain ⟨hord, -, -, hall⟩ := walk_ok hn Trail.root (Below.root _) Ordered.nil (by simp) h
  exact ⟨hord, fun a => ⟨hord.declared a, fun ha => hall a ha ha⟩⟩

/-- **A cycle that is reported is one.** -/
theorem order_cycle (hn : g.nodes.Nodup) {cycle : List Symbol} (h : g.order = .error cycle) :
    g.IsCycle cycle :=
  walk_error hn Trail.root (Below.root _) h

/-- **The walk fails exactly on the graphs with a cycle.** -/
theorem order_error_iff (hn : g.nodes.Nodup) : (∃ cycle, g.order = .error cycle) ↔ g.Cyclic := by
  constructor
  · intro hgiven
    obtain ⟨cycle, h⟩ := hgiven
    exact (order_cycle hn h).cyclic
  · intro hcyclic
    cases h : g.order with
    | error cycle => exact ⟨cycle, rfl⟩
    | ok order =>
      -- an order of all types leaves no room for a cycle
      obtain ⟨hord, hall⟩ := order_ordered hn h
      exact absurd hcyclic (hord.not_cyclic fun a ha => (hall a).mpr ha)

end DepSchema.MentionGraph
