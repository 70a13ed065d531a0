/-
DepSchema.Proofs.Renaming.Order — the order of the types does not notice a renaming.

The walk takes types in the order of their texts and looks at nothing but which of them are
declared. So two graphs whose declared types and mentions correspond are walked step by step in the
same way: what is mentioned without being declared is passed over, and among declared types, whose
texts differ, sorting by text leaves one order only, however the types came.

Main results: `walk_renamed` and `order_mentionGraph`.
-/
import DepSchema.Proofs.Order.TypeOrder
import DepSchema.Proofs.Renaming.Schema

namespace DepSchema

namespace Renaming

variable {ρ : Renaming}

/-! ## §1. The walk. -/

/-- The declared types among some names. -/
def declared (g : MentionGraph) (names : List Symbol) : List Symbol :=
  names.filter g.nodes.contains

/-- The walk passes over what is not declared. -/
theorem walk_declared (g : MentionGraph) (opened path names : List Symbol) :
    ∀ done : List Symbol,
      g.walk opened path done (declared g names) = g.walk opened path done names := by
  induction names with
  | nil =>
    intro done
    rfl
  | cons name names ih =>
    intro done
    unfold declared at ih ⊢
    rw [List.filter_cons]
    split
    -- a declared type is met by both walks, which go on in the same way
    · rw [MentionGraph.walk, MentionGraph.walk, ih]
      split
      · rfl
      · split
        · split
          · exact ih _
          · rfl
        · rfl
    · next hnode =>
      rw [ih, MentionGraph.walk, if_pos]
      simpa using Or.inl hnode

/-- The declared types of `g'` are those of `g` renamed, and so are the declared ones among the
mentions of each. -/
structure SameGraph (ρ : Renaming) (g g' : MentionGraph) : Prop where
  nodes : g'.nodes = g.nodes.map ρ.name
  targets : ∀ n ∈ g.nodes,
    declared g' (g'.targets (ρ.name n)) = (declared g (g.targets n)).map ρ.name

variable {g g' : MentionGraph}

theorem mem_map_name {names : List Symbol} {n : Symbol} :
    ρ.name n ∈ names.map ρ.name ↔ n ∈ names := by
  simp

theorem contains_map_name (names : List Symbol) (n : Symbol) :
    (names.map ρ.name).contains (ρ.name n) = names.contains n := by
  rw [Bool.eq_iff_iff, List.contains_iff_mem, List.contains_iff_mem, mem_map_name]

theorem SameGraph.declared_map (h : ρ.SameGraph g g') (names : List Symbol) :
    declared g' (names.map ρ.name) = (declared g names).map ρ.name := by
  unfold declared
  rw [List.filter_map, h.nodes]
  congr 2
  funext n
  exact contains_map_name g.nodes n

theorem dropWhile_map_name (path : List Symbol) (n : Symbol) :
    (path.map ρ.name).dropWhile (· != ρ.name n) = (path.dropWhile (· != n)).map ρ.name := by
  rw [List.dropWhile_map]
  congr 2
  funext m
  simp [bne]

/-- A result or a cycle, renamed. -/
def outcome (ρ : Renaming) : Except (List Symbol) (List Symbol) → Except (List Symbol) (List Symbol)
  | .ok order => .ok (order.map ρ.name)
  | .error cycle => .error (cycle.map ρ.name)

/-- Below a declared type, the mentions in `g'` are walked as the renamed mentions in `g` are: the
two differ at most in what is not declared. -/
theorem SameGraph.walk_below (h : ρ.SameGraph g g') {opened path done : List Symbol}
    {name : Symbol} (hnode : name ∈ g.nodes) {r : Except (List Symbol) (List Symbol)}
    (hwalk : g'.walk ((opened.erase name).map ρ.name) ((path ++ [name]).map ρ.name)
      (done.map ρ.name) ((g.targets name).map ρ.name) = r) :
    g'.walk ((opened.map ρ.name).erase (ρ.name name)) (path.map ρ.name ++ [ρ.name name])
      (done.map ρ.name) (g'.targets (ρ.name name)) = r := by
  rw [← walk_declared g', h.declared_map, ← h.targets name hnode, walk_declared,
    List.map_erase ρ.injective, List.map_append] at hwalk
  exact hwalk

/-- **Graphs that correspond are walked in the same way.** -/
theorem walk_renamed (h : ρ.SameGraph g g') (opened path done names : List Symbol) :
    g'.walk (opened.map ρ.name) (path.map ρ.name) (done.map ρ.name) (names.map ρ.name)
      = ρ.outcome (g.walk opened path done names) := by
  have hskip' : ∀ (done : List Symbol) (n : Symbol),
      (!g'.nodes.contains (ρ.name n) || (done.map ρ.name).contains (ρ.name n))
        = (!g.nodes.contains n || done.contains n) := by
    intro done n
    rw [h.nodes, contains_map_name, contains_map_name]
  induction opened, path, done, names using MentionGraph.walk.induct g with
  | case1 opened path done => simp [MentionGraph.walk, outcome]
  | case2 opened path done name rest hskip ih =>
    rw [List.map_cons, MentionGraph.walk, hskip', if_pos hskip, ih]
    conv_rhs => rw [MentionGraph.walk, if_pos hskip]
  | case3 opened path done name rest hskip hopened below hdown ihdown ihrest =>
    obtain ⟨hnode, -⟩ := MentionGraph.visit_iff.mp hskip
    have hbelow := h.walk_below hnode ihdown
    rw [hdown] at hbelow
    -- what is below comes first, then the type, and the rest goes on from there
    rw [List.map_append] at ihrest
    rw [List.map_cons, MentionGraph.walk, hskip', if_neg hskip, if_pos (mem_map_name.mpr hopened),
      hbelow]
    conv_rhs => rw [MentionGraph.walk, if_neg hskip, if_pos hopened, hdown]
    exact ihrest
  | case4 opened path done name rest hskip hopened cycle hdown ihdown =>
    obtain ⟨hnode, -⟩ := MentionGraph.visit_iff.mp hskip
    have hbelow := h.walk_below hnode ihdown
    rw [hdown] at hbelow
    rw [List.map_cons, MentionGraph.walk, hskip', if_neg hskip, if_pos (mem_map_name.mpr hopened),
      hbelow]
    conv_rhs => rw [MentionGraph.walk, if_neg hskip, if_pos hopened, hdown]
    rfl
  | case5 opened path done name rest hskip hopened =>
    -- the type is on the path already, and the cycle is the path from it on
    rw [List.map_cons, MentionGraph.walk, hskip', if_neg hskip,
      if_neg (mt mem_map_name.mp hopened)]
    conv_rhs => rw [MentionGraph.walk, if_neg hskip, if_neg hopened]
    rw [outcome, List.map_append, dropWhile_map_name]
    rfl

theorem order_renamed (h : ρ.SameGraph g g') : g'.order = ρ.outcome g.order := by
  unfold MentionGraph.order
  have hwalk := walk_renamed h g.nodes [] [] g.nodes
  rw [← h.nodes] at hwalk
  exact hwalk

/-! ## §2. Sorting by text. -/

/-- Names with different texts have one order only. -/
theorem eq_of_perm_of_sorted {t : SymbolTable} {names others : List Symbol}
    (hperm : names.Perm others) (hinj : ∀ m ∈ others, ∀ n ∈ others, t.text m = t.text n → m = n)
    (hnames : names.Pairwise fun m n => t.text m ≤ t.text n)
    (hothers : others.Pairwise fun m n => t.text m ≤ t.text n) : names = others := by
  refine hperm.eq_of_pairwise ?_ hnames hothers
  intro m n hm hn hle hge
  exact hinj m (hperm.mem_iff.mp hm) n hn (le_antisymm hle hge)

theorem pairwise_sortNames (t : SymbolTable) (names : List Symbol) :
    (Schema.sortNames t names).Pairwise fun m n => t.text m ≤ t.text n := by
  have htrans : ∀ a b c : Symbol, decide (t.text a ≤ t.text b) = true →
      decide (t.text b ≤ t.text c) = true → decide (t.text a ≤ t.text c) = true := by
    intro a b c hab hbc
    simp only [decide_eq_true_eq] at hab hbc ⊢
    exact hab.trans hbc
  have htotal : ∀ a b : Symbol,
      (decide (t.text a ≤ t.text b) || decide (t.text b ≤ t.text a)) = true := by
    intro a b
    simpa using le_total (t.text a) (t.text b)
  simpa [Schema.sortNames] using List.pairwise_mergeSort htrans htotal names

/-- The texts of some names under `t` and of their renamings under `t'` are the same, and no two
names have the same text. -/
structure SameTexts (ρ : Renaming) (t t' : SymbolTable) (names : List Symbol) : Prop where
  text : ∀ n ∈ names, t'.text (ρ.name n) = t.text n
  injective : ∀ m ∈ names, ∀ n ∈ names, t.text m = t.text n → m = n

variable {t t' : SymbolTable}

/-- Sorting what corresponds, and keeping of it what corresponds, gives lists that correspond. -/
theorem filter_sortNames {nodes names names' : List Symbol} (ht : ρ.SameTexts t t' nodes)
    {p p' : Symbol → Bool} (hp : ∀ n, p n = true → n ∈ nodes)
    (hperm : (names'.filter p').Perm ((names.filter p).map ρ.name)) :
    (Schema.sortNames t' names').filter p' = ((Schema.sortNames t names).filter p).map ρ.name := by
  have hkept : ∀ n ∈ (Schema.sortNames t names).filter p, n ∈ nodes :=
    fun n hn => hp n (List.mem_filter.mp hn).2
  refine eq_of_perm_of_sorted (t := t') ?_ ?_ ?_ ?_
  · calc ((Schema.sortNames t' names').filter p').Perm (names'.filter p') :=
          (List.mergeSort_perm _ _).filter p'
      _ |>.Perm ((names.filter p).map ρ.name) := hperm
      _ |>.Perm (((Schema.sortNames t names).filter p).map ρ.name) :=
          (((List.mergeSort_perm _ _).filter p).map ρ.name).symm
  · intro m' hm' n' hn' heq
    obtain ⟨m, hm, rfl⟩ := List.mem_map.mp hm'
    obtain ⟨n, hn, rfl⟩ := List.mem_map.mp hn'
    rw [ht.text m (hkept m hm), ht.text n (hkept n hn)] at heq
    rw [ht.injective m (hkept m hm) n (hkept n hn) heq]
  · exact (pairwise_sortNames t' names').filter _
  · rw [List.pairwise_map]
    refine ((pairwise_sortNames t names).filter p).imp_of_mem ?_
    intro m n hm hn hle
    rwa [ht.text m (hkept m hm), ht.text n (hkept n hn)]

/-! ## §3. Mentions. -/

variable {owner owner' : Symbol → Option Symbol}

mutual

theorem mentions_expr (ho : ∀ k, owner' (ρ.name k) = (owner k).map ρ.name) :
    ∀ e : Expr, (ρ.expr e).mentions owner' = (e.mentions owner).map ρ.name
  | .binary _ _ l r => by
    rw [expr, Expr.mentions, mentions_expr ho l, mentions_expr ho r, ← List.map_append,
      Expr.mentions]
  | .unary _ _ x => by rw [expr, Expr.mentions, mentions_expr ho x, Expr.mentions]
  | .type _ i ps => by
    rw [expr, Expr.mentions, mentionsAll_exprs ho ps, ident_name, ← List.map_cons, Expr.mentions]
  | .access _ => rfl
  | .scalar _ _ => rfl
  | .constructed _ k fs => by
    have howner : (owner' (ρ.ident k).name).toList = (owner k.name).toList.map ρ.name := by
      rw [ident_name, ho]
      cases owner k.name <;> rfl
    rw [expr, Expr.mentions, mentionsFields_inits ho fs, howner, ← List.map_append, Expr.mentions]
  | .collection _ es => by rw [expr, Expr.mentions, mentionsAll_exprs ho es, Expr.mentions]
  | .call _ _ as => by rw [expr, Expr.mentions, mentionsAll_exprs ho as, Expr.mentions]

theorem mentionsAll_exprs (ho : ∀ k, owner' (ρ.name k) = (owner k).map ρ.name) :
    ∀ es : List Expr, Expr.mentionsAll owner' (ρ.exprs es) = (Expr.mentionsAll owner es).map ρ.name
  | [] => rfl
  | e :: es => by
    rw [exprs, Expr.mentionsAll, mentions_expr ho e, mentionsAll_exprs ho es, ← List.map_append,
      Expr.mentionsAll]

theorem mentionsFields_inits (ho : ∀ k, owner' (ρ.name k) = (owner k).map ρ.name) :
    ∀ fs : List (Named Expr), Expr.mentionsFields owner' (ρ.inits fs)
      = (Expr.mentionsFields owner fs).map ρ.name
  | [] => rfl
  | f :: fs => by
    rw [inits, Expr.mentionsFields, mentions_expr ho f.val, mentionsFields_inits ho fs,
      ← List.map_append, Expr.mentionsFields]

end

theorem mentions_variables (ho : ∀ k, owner' (ρ.name k) = (owner k).map ρ.name)
    (vars : List Variable) :
    Variable.mentions owner' (vars.map ρ.variableOf)
      = (Variable.mentions owner vars).map ρ.name := by
  unfold Variable.mentions
  rw [List.flatMap_map, List.map_flatMap]
  congr 1
  funext v
  rw [variable_type, ← expr_toExpr]
  exact mentions_expr ho _

theorem mentionsBeside_variables (ho : ∀ k, owner' (ρ.name k) = (owner k).map ρ.name)
    (self : Symbol) (fields : List Variable) :
    Variable.mentionsBeside owner' (ρ.name self) (fields.map ρ.variableOf)
      = (Variable.mentionsBeside owner self fields).map ρ.name := by
  unfold Variable.mentionsBeside
  rw [mentions_variables ho, List.filter_map]
  congr 2
  funext n
  simp [bne]

theorem mentions_ruleInput (ho : ∀ k, owner' (ρ.name k) = (owner k).map ρ.name)
    (i : RuleInput) :
    (ρ.ruleInput i).mentions owner' = (i.mentions owner).map ρ.name := by
  cases i with
  | any span => rfl
  | value e => exact mentions_expr ho e

/-- **A renamed definition mentions the renamings of what the definition mentions.** -/
theorem mentions_typeDef (ho : ∀ k, owner' (ρ.name k) = (owner k).map ρ.name)
    (d : TypeDef) :
    (ρ.typeDef d).mentions owner' = (d.mentions owner).map ρ.name := by
  cases d with
  | message m =>
    show Variable.mentions owner' (m.deps.map ρ.variableOf)
        ++ Variable.mentionsBeside owner' (ρ.name m.ident.name) (m.fields.map ρ.variableOf) = _
    rw [mentions_variables ho, mentionsBeside_variables ho, ← List.map_append]
    rfl
  | enum e =>
    have hrule : ∀ r : Rule,
        ((ρ.rule r).inputs.flatMap (RuleInput.mentions owner')
          ++ (ρ.rule r).constructors.flatMap fun k =>
            Variable.mentionsBeside owner' (ρ.name e.ident.name) k.fields)
        = (r.inputs.flatMap (RuleInput.mentions owner)
          ++ r.constructors.flatMap fun k =>
            Variable.mentionsBeside owner e.ident.name k.fields).map ρ.name := by
      intro r
      rw [List.map_append, List.map_flatMap, List.map_flatMap, Renaming.rule, List.flatMap_map,
        List.flatMap_map]
      congr 2
      · funext i
        exact mentions_ruleInput ho i
      · funext k
        exact mentionsBeside_variables ho _ _
    show Variable.mentions owner' (e.deps.map ρ.variableOf)
        ++ (e.rules.map ρ.rule).flatMap (fun r =>
          r.inputs.flatMap (RuleInput.mentions owner')
            ++ r.constructors.flatMap fun k =>
              Variable.mentionsBeside owner' (ρ.name e.ident.name) k.fields) = _
    rw [mentions_variables ho, List.flatMap_map, List.flatMap_congr fun r _ => hrule r,
      ← List.map_flatMap, ← List.map_append]
    rfl

/-! ## §4. Schemas. -/

theorem nodup_eraseDups (l : List Symbol) : l.eraseDups.Nodup := by
  -- the induction is on the length, since a name goes with all its later occurrences
  induction h : l.length using Nat.strong_induction_on generalizing l with
  | _ n ih =>
    cases l with
    | nil => exact List.nodup_nil
    | cons a l =>
      rw [List.eraseDups_cons, List.nodup_cons]
      constructor
      · rw [List.mem_eraseDups, List.mem_filter]
        simp
      · refine ih _ ?_ _ rfl
        have hle := List.length_filter_le (fun b => !b == a) l
        rw [List.length_cons] at h
        omega

variable {s s' : Schema}

theorem perm_mentionsOf (ho : ∀ k, s'.owner? (ρ.name k) = (s.owner? k).map ρ.name) (d : TypeDef) :
    (s'.mentionsOf (ρ.typeDef d)).Perm ((s.mentionsOf d).map ρ.name) := by
  unfold Schema.mentionsOf
  rw [List.perm_ext_iff_of_nodup (nodup_eraseDups _) ((nodup_eraseDups _).map ρ.injective)]
  intro a
  rw [List.mem_eraseDups, mentions_typeDef ho, List.mem_map, List.mem_map]
  simp only [List.mem_eraseDups]

/-- **The mention graphs of two schemas that declare the same correspond.** -/
theorem sameGraph_mentionGraph (hs : ρ.Carries s s') (hkeyed : s'.Keyed)
    (ho : ∀ k, s'.owner? (ρ.name k) = (s.owner? k).map ρ.name)
    (ht : ρ.SameTexts t t' s.typeNames) :
    ρ.SameGraph (s.mentionGraph t) (s'.mentionGraph t') := by
  have hnode : ∀ n, (s.mentionGraph t).nodes.contains n = true → n ∈ s.typeNames := by
    intro n hn
    exact (Schema.mentionGraph_nodes_perm t s).mem_iff.mp (List.contains_iff_mem.mp hn)
  -- every name is kept here, which makes the sorting of the nodes a case of `filter_sortNames`
  have hnodes : (s'.mentionGraph t').nodes = (s.mentionGraph t).nodes.map ρ.name := by
    have hperm : (s'.typeNames.filter fun n => s'.typeNames.contains n).Perm
        ((s.typeNames.filter fun n => s.typeNames.contains n).map ρ.name) := by
      rw [List.filter_eq_self.mpr fun n hn => List.contains_iff_mem.mpr hn,
        List.filter_eq_self.mpr fun n hn => List.contains_iff_mem.mpr hn]
      exact hs.typeNames.symm
    have hall := filter_sortNames ht (fun n hn => List.contains_iff_mem.mp hn) hperm
    rw [List.filter_eq_self.mpr fun n hn => List.contains_iff_mem.mpr (Schema.mem_sortNames.mp hn),
      List.filter_eq_self.mpr fun n hn => List.contains_iff_mem.mpr (Schema.mem_sortNames.mp hn)]
      at hall
    exact hall
  refine ⟨hnodes, ?_⟩
  intro n hn
  obtain ⟨d, hd⟩ := Option.isSome_iff_exists.mp
    (Schema.isSome_type?.mpr (hnode n (List.contains_iff_mem.mpr hn)))
  have hd' : s'.type? (ρ.name n) = some (ρ.typeDef d) := by
    rw [hs.type? hkeyed, hd]
    rfl
  have htargets : (s.mentionGraph t).targets n = Schema.sortNames t (s.mentionsOf d) := by
    show ((s.type? n).map fun d => Schema.sortNames t (s.mentionsOf d)).getD [] = _
    rw [hd]
    rfl
  have htargets' : (s'.mentionGraph t').targets (ρ.name n)
      = Schema.sortNames t' (s'.mentionsOf (ρ.typeDef d)) := by
    show ((s'.type? (ρ.name n)).map fun d => Schema.sortNames t' (s'.mentionsOf d)).getD [] = _
    rw [hd']
    rfl
  -- the texts of mentions that are not declared may clash, so only the declared ones are compared
  unfold declared
  rw [htargets, htargets', hnodes]
  refine filter_sortNames ht hnode ?_
  have hperm := (perm_mentionsOf (ρ := ρ) ho d).filter
    fun m => ((s.mentionGraph t).nodes.map ρ.name).contains m
  rw [List.filter_map] at hperm
  have hsame : ((fun m => ((s.mentionGraph t).nodes.map ρ.name).contains m) ∘ ρ.name)
      = fun m => (s.mentionGraph t).nodes.contains m := by
    funext m
    exact contains_map_name _ m
  rw [hsame] at hperm
  exact hperm

/-- **Two schemas that declare the same have the same order of types, or the same cycle.** -/
theorem order_mentionGraph (hs : ρ.Carries s s') (hkeyed : s'.Keyed)
    (ho : ∀ k, s'.owner? (ρ.name k) = (s.owner? k).map ρ.name)
    (ht : ρ.SameTexts t t' s.typeNames) :
    (s'.mentionGraph t').order = ρ.outcome (s.mentionGraph t).order :=
  order_renamed (sameGraph_mentionGraph hs hkeyed ho ht)

end Renaming

end DepSchema
