/-
DepSchema.Proofs.Names.Uses — which names an expression uses, and in which role.

The check of names keeps one space of names: a name that is declared as anything may be used as a
type, a constructor, a function or a variable. It also declares more than the checks of types put in
scope: the fields of a constructed value for the fields after them, what a rule input binds inside
the operands of `in`, and what an input binds for all that it writes behind. The names of those
three places are *loose*. What is used and not loose is declared where the checks of types look.

Main definitions: `Expr.uses`, `Expr.introduced`, `Expr.ownUses` and `Declaration.loose`. Main
result: `Expr.declared_of_uses`.
-/
import DepSchema.Proofs.Names.Blocks
import DepSchema.Proofs.Vocabulary.Exposed

namespace DepSchema

/-- The name by which something is referred to. -/
def Reference.name : Reference → Symbol
  | type n _ => n
  | ctor n => n
  | callee n => n
  | var n => n

namespace Expr

/-! ## §1. Uses. -/

mutual

/-- What the check of an expression may look up: its references without those in the operands of
`in`. Inside a rule input a variable alone, as the value of a field, is bound and not looked up. -/
def uses (reading : Bool) : Expr → List Reference
  | binary _ op l r => if op = .mem then [] else uses reading l ++ uses reading r
  | unary _ _ x => uses reading x
  | type _ i ps => .type i.name ps.length :: usesAll reading ps
  | access a => [.var a.var.name]
  | scalar _ _ => []
  | constructed _ c fs => .ctor c.name :: usesFields reading fs
  | collection _ es => usesAll reading es
  | call _ f as => .callee f.name :: usesAll reading as
termination_by structural e => e

/-- The same for several expressions. -/
def usesAll (reading : Bool) : List Expr → List Reference
  | [] => []
  | e :: es => uses reading e ++ usesAll reading es
termination_by structural es => es

/-- The same for the values of several fields. -/
def usesFields (reading : Bool) : List (Named Expr) → List Reference
  | [] => []
  | f :: fs =>
    (if reading && f.val.bareVar?.isSome then [] else uses reading f.val) ++ usesFields reading fs
termination_by structural fs => fs

end

mutual

/-- The names that the check of a rule input brings into scope: those that the input binds, without
the operands of `in`. -/
def introduced : Expr → List Symbol
  | binary _ op l r => if op = .mem then [] else introduced l ++ introduced r
  | unary _ _ x => introduced x
  | type _ _ ps => introducedAll ps
  | access _ => []
  | scalar _ _ => []
  | constructed _ _ fs => introducedFields fs
  | collection _ es => introducedAll es
  | call _ _ as => introducedAll as
termination_by structural e => e

/-- The same for several expressions. -/
def introducedAll : List Expr → List Symbol
  | [] => []
  | e :: es => introduced e ++ introducedAll es
termination_by structural es => es

/-- The same for the values of several fields. -/
def introducedFields : List (Named Expr) → List Symbol
  | [] => []
  | f :: fs =>
    (match f.val.bareVar? with
      | some i => [i.name]
      | none => introduced f.val) ++ introducedFields fs
termination_by structural fs => fs

end

mutual

/-- The earlier fields of a constructed value that the value of a later field uses, at any depth and
in whatever role. -/
def ownUses (reading : Bool) : Expr → List Symbol
  | binary _ op l r => if op = .mem then [] else ownUses reading l ++ ownUses reading r
  | unary _ _ x => ownUses reading x
  | type _ _ ps => ownUsesAll reading ps
  | access _ => []
  | scalar _ _ => []
  | constructed _ _ fs => ownUsesFrom reading [] fs
  | collection _ es => ownUsesAll reading es
  | call _ _ as => ownUsesAll reading as
termination_by structural e => e

/-- The same for several expressions. -/
def ownUsesAll (reading : Bool) : List Expr → List Symbol
  | [] => []
  | e :: es => ownUses reading e ++ ownUsesAll reading es
termination_by structural es => es

/-- The same for the fields of one value, of which `earlier` were before. -/
def ownUsesFrom (reading : Bool) (earlier : List Symbol) : List (Named Expr) → List Symbol
  | [] => []
  | f :: fs =>
    (if reading && f.val.bareVar?.isSome then []
      else ((uses reading f.val).map Reference.name).filter earlier.contains
        ++ ownUses reading f.val)
      ++ ownUsesFrom reading (earlier ++ [f.name.name]) fs
termination_by structural fs => fs

end

/-! ## §2. Expressions that use what is allowed. -/

/-- The check of the expression looks up nothing but what is allowed. -/
def Uses (reading : Bool) (V : Vocabulary) (e : Expr) : Prop := ∀ r ∈ e.uses reading, V r

section

variable {reading : Bool} {V W : Vocabulary} {span : Span}

theorem mem_usesAll {r : Reference} {es : List Expr} :
    r ∈ usesAll reading es ↔ ∃ e ∈ es, r ∈ e.uses reading := by
  induction es with
  | nil => simp [usesAll]
  | cons e es ih => simp [usesAll, ih]

theorem mem_usesFields {r : Reference} {fs : List (Named Expr)} :
    r ∈ usesFields reading fs
      ↔ ∃ f ∈ fs, (reading && f.val.bareVar?.isSome) = false ∧ r ∈ f.val.uses reading := by
  induction fs with
  | nil => simp [usesFields]
  | cons f fs ih =>
    unfold usesFields
    rw [List.mem_append, ih, List.exists_mem_cons_iff]
    cases reading && f.val.bareVar?.isSome <;> simp

theorem Uses.mono {e : Expr} (h : e.Uses reading V) (hVW : V ≤ W) : e.Uses reading W :=
  fun r hr => hVW r (h r hr)

theorem uses_binary {op : BinaryOp} {l r : Expr} (hop : op ≠ .mem) :
    (binary span op l r).Uses reading V ↔ l.Uses reading V ∧ r.Uses reading V := by
  simp [Uses, uses, hop, or_imp, forall_and]

theorem uses_mem {l r : Expr} : (binary span .mem l r).Uses reading V := by
  simp [Uses, uses]

@[simp] theorem uses_unary {op : UnaryOp} {x : Expr} :
    (unary span op x).Uses reading V ↔ x.Uses reading V := Iff.rfl

@[simp] theorem uses_type {i : Ident} {ps : List Expr} :
    (type span i ps).Uses reading V
      ↔ V (.type i.name ps.length) ∧ ∀ p ∈ ps, p.Uses reading V := by
  simp only [Uses, uses, List.forall_mem_cons, mem_usesAll]
  grind

@[simp] theorem uses_access {a : Access} :
    (access a).Uses reading V ↔ V (.var a.var.name) := by
  simp [Uses, uses]

@[simp] theorem uses_scalar {v : Scalar} : (scalar span v).Uses reading V := by
  simp [Uses, uses]

@[simp] theorem uses_constructed {c : Ident} {fs : List (Named Expr)} :
    (constructed span c fs).Uses reading V
      ↔ V (.ctor c.name)
        ∧ ∀ f ∈ fs, (reading && f.val.bareVar?.isSome) = false → f.val.Uses reading V := by
  simp only [Uses, uses, List.forall_mem_cons, mem_usesFields]
  grind

@[simp] theorem uses_collection {es : List Expr} :
    (collection span es).Uses reading V ↔ ∀ e ∈ es, e.Uses reading V := by
  simp only [Uses, uses, mem_usesAll]
  grind

@[simp] theorem uses_call {f : Ident} {as : List Expr} :
    (call span f as).Uses reading V
      ↔ V (.callee f.name) ∧ ∀ a ∈ as, a.Uses reading V := by
  simp only [Uses, uses, List.forall_mem_cons, mem_usesAll]
  grind

end

/-! ## §3. Uses, references and bindings. -/

variable {reading : Bool} {r : Reference} {n : Symbol}

mutual

theorem uses_subset_refs : ∀ {e : Expr}, r ∈ e.uses reading → r ∈ e.refs
  | .binary _ op l r', h => by
    unfold uses at h
    split at h
    · cases h
    · rcases List.mem_append.mp h with h | h
      · exact List.mem_append_left _ (uses_subset_refs h)
      · exact List.mem_append_right _ (uses_subset_refs h)
  | .unary _ _ x, h => uses_subset_refs (e := x) h
  | .type _ _ ps, h => by
    rcases List.mem_cons.mp h with rfl | h
    · exact List.mem_cons_self
    · exact List.mem_cons_of_mem _ (usesAll_subset_refs h)
  | .access _, h => h
  | .scalar _ _, h => h
  | .constructed _ _ fs, h => by
    rcases List.mem_cons.mp h with rfl | h
    · exact List.mem_cons_self
    · exact List.mem_cons_of_mem _ (usesFields_subset_refs h)
  | .collection _ es, h => usesAll_subset_refs (l := es) h
  | .call _ _ as, h => by
    rcases List.mem_cons.mp h with rfl | h
    · exact List.mem_cons_self
    · exact List.mem_cons_of_mem _ (usesAll_subset_refs h)

theorem usesAll_subset_refs : ∀ {l : List Expr}, r ∈ usesAll reading l → r ∈ refsAll l
  | [], h => h
  | e :: es, h => by
    rcases List.mem_append.mp h with h | h
    · exact List.mem_append_left _ (uses_subset_refs h)
    · exact List.mem_append_right _ (usesAll_subset_refs h)

theorem usesFields_subset_refs :
    ∀ {l : List (Named Expr)}, r ∈ usesFields reading l → r ∈ refsFields l
  | [], h => h
  | f :: fs, h => by
    rcases List.mem_append.mp h with h | h
    · split at h
      · cases h
      · exact List.mem_append_left _ (uses_subset_refs h)
    · exact List.mem_append_right _ (usesFields_subset_refs h)

end

mutual

/-- What a rule input uses once it has been read, it used before or it introduced it. -/
theorem uses_or_introduced : ∀ {e : Expr}, r ∈ e.uses false →
    r ∈ e.uses true ∨ ∃ n ∈ e.introduced, r = .var n
  | .binary _ op l r', h => by
    unfold uses at h
    unfold uses introduced
    by_cases hop : op = .mem
    · rw [if_pos hop] at h
      cases h
    · rw [if_neg hop] at h ⊢
      rw [if_neg hop]
      rcases List.mem_append.mp h with h | h
      · exact (uses_or_introduced h).imp (List.mem_append_left _)
          fun ⟨n, hn, hr⟩ => ⟨n, List.mem_append_left _ hn, hr⟩
      · exact (uses_or_introduced h).imp (List.mem_append_right _)
          fun ⟨n, hn, hr⟩ => ⟨n, List.mem_append_right _ hn, hr⟩
  | .unary _ _ x, h => uses_or_introduced (e := x) h
  | .type _ _ ps, h => by
    rcases List.mem_cons.mp h with rfl | h
    · exact .inl List.mem_cons_self
    · exact (usesAll_or_introduced (l := ps) h).imp_left (List.mem_cons_of_mem _)
  | .access _, h => .inl h
  | .scalar _ _, h => .inl h
  | .constructed _ _ fs, h => by
    rcases List.mem_cons.mp h with rfl | h
    · exact .inl List.mem_cons_self
    · exact (usesFields_or_introduced (l := fs) h).imp_left (List.mem_cons_of_mem _)
  | .collection _ es, h => usesAll_or_introduced (l := es) h
  | .call _ _ as, h => by
    rcases List.mem_cons.mp h with rfl | h
    · exact .inl List.mem_cons_self
    · exact (usesAll_or_introduced (l := as) h).imp_left (List.mem_cons_of_mem _)

theorem usesAll_or_introduced : ∀ {l : List Expr}, r ∈ usesAll false l →
    r ∈ usesAll true l ∨ ∃ n ∈ introducedAll l, r = .var n
  | [], h => .inl h
  | e :: es, h => by
    rcases List.mem_append.mp h with h | h
    · exact (uses_or_introduced h).imp (List.mem_append_left _)
        fun ⟨n, hn, hr⟩ => ⟨n, List.mem_append_left _ hn, hr⟩
    · exact (usesAll_or_introduced h).imp (List.mem_append_right _)
        fun ⟨n, hn, hr⟩ => ⟨n, List.mem_append_right _ hn, hr⟩

theorem usesFields_or_introduced : ∀ {l : List (Named Expr)}, r ∈ usesFields false l →
    r ∈ usesFields true l ∨ ∃ n ∈ introducedFields l, r = .var n
  | [], h => .inl h
  | f :: fs, h => by
    unfold usesFields introducedFields
    rcases List.mem_append.mp h with h | h
    · replace h : r ∈ f.val.uses false := by simpa using h
      cases hbare : f.val.bareVar? with
      | some i =>
        -- a variable alone is bound: it is its own only use
        obtain ⟨a, ha, -, rfl⟩ := access_of_bareVar? hbare
        rw [ha] at h
        exact .inr ⟨_, List.mem_append_left _ List.mem_cons_self, List.mem_singleton.mp h⟩
      | none =>
        exact (uses_or_introduced h).imp (fun h => List.mem_append_left _ (by simpa using h))
          fun ⟨n, hn, hr⟩ => ⟨n, List.mem_append_left _ hn, hr⟩
    · exact (usesFields_or_introduced h).imp (List.mem_append_right _)
        fun ⟨n, hn, hr⟩ => ⟨n, List.mem_append_right _ hn, hr⟩

end

mutual

theorem introduced_subset_binds : ∀ {e : Expr}, n ∈ e.introduced → n ∈ e.binds
  | .binary _ op l r, h => by
    unfold introduced at h
    by_cases hop : op = .mem
    · rw [if_pos hop] at h
      cases h
    · rw [if_neg hop] at h
      rcases List.mem_append.mp h with h | h
      · exact List.mem_append_left _ (introduced_subset_binds h)
      · exact List.mem_append_right _ (introduced_subset_binds h)
  | .unary _ _ x, h => introduced_subset_binds (e := x) h
  | .type _ _ ps, h => introducedAll_subset_bindsAll (l := ps) h
  | .access _, h => h
  | .scalar _ _, h => h
  | .constructed _ _ fs, h => introducedFields_subset_bindsFields (l := fs) h
  | .collection _ es, h => introducedAll_subset_bindsAll (l := es) h
  | .call _ _ as, h => introducedAll_subset_bindsAll (l := as) h

theorem introducedAll_subset_bindsAll : ∀ {l : List Expr}, n ∈ introducedAll l → n ∈ bindsAll l
  | [], h => h
  | e :: es, h => by
    rcases List.mem_append.mp h with h | h
    · exact List.mem_append_left _ (introduced_subset_binds h)
    · exact List.mem_append_right _ (introducedAll_subset_bindsAll h)

theorem introducedFields_subset_bindsFields :
    ∀ {l : List (Named Expr)}, n ∈ introducedFields l → n ∈ bindsFields l
  | [], h => h
  | f :: fs, h => by
    rcases List.mem_append.mp h with h | h
    · refine List.mem_append_left _ ?_
      cases hbare : f.val.bareVar? with
      | some i =>
        rw [hbare] at h
        exact h
      | none =>
        rw [hbare] at h
        exact introduced_subset_binds h
    · exact List.mem_append_right _ (introducedFields_subset_bindsFields h)

end

/-! ## §4. What is used is declared. -/

section

variable {known : Symbol → Symbol → Bool}

theorem mem_bound {V : Declared} {names : List Symbol} (h : V.bound reading names n = true) :
    V n = true ∨ reading = true ∧ n ∈ names := by
  unfold Declared.bound at h
  cases reading with
  | false => exact .inl h
  | true =>
    refine (Bool.or_eq_true_iff.mp h).symm.imp_right fun hn => ⟨rfl, ?_⟩
    exact List.contains_iff_mem.mp hn

mutual

/-- **A name is declared where it is used**, or else it is an earlier field of the value around or
something that the same rule input binds. -/
theorem declared_of_uses : ∀ {e : Expr} {V : Declared}, e.faults known reading V = [] →
    r ∈ e.uses reading →
      V r.name = true ∨ r.name ∈ e.ownUses reading ∨ reading = true ∧ r.name ∈ e.binds
  | .binary _ op l r', V, h, hr => by
    obtain ⟨hl, hr'⟩ := List.append_eq_nil_iff.mp h
    unfold uses at hr
    unfold ownUses binds
    by_cases hop : op = .mem
    · rw [if_pos hop] at hr
      cases hr
    · rw [if_neg hop] at hr ⊢
      simp only [List.mem_append]
      rcases List.mem_append.mp hr with hr | hr
      · have hdeclared := declared_of_uses hl hr
        tauto
      · rcases declared_of_uses hr' hr with hV | hrest
        · have hbound := mem_bound hV
          tauto
        · tauto
  | .unary _ _ x, V, h, hr => declared_of_uses (e := x) h hr
  | .type _ i ps, V, h, hr => by
    obtain ⟨hname, hps⟩ := List.append_eq_nil_iff.mp h
    rcases List.mem_cons.mp hr with rfl | hr
    · exact .inl (mem_of_demand hname)
    · exact declared_of_usesAll (l := ps) hps hr
  | .access a, V, h, hr => by
    obtain rfl := List.mem_singleton.mp hr
    exact .inl (mem_of_demand h)
  | .scalar _ _, _, _, hr => by cases hr
  | .constructed _ c fs, V, h, hr => by
    obtain ⟨hname, hfs⟩ := List.append_eq_nil_iff.mp h
    rcases List.mem_cons.mp hr with rfl | hr
    · exact .inl (mem_of_demand hname)
    · have hdeclared := declared_of_usesFields (l := fs) [] [] (fun _ h => .inl h) hfs hr
      simpa [ownUses, binds] using hdeclared
  | .collection _ es, V, h, hr => declared_of_usesAll (l := es) h hr
  | .call _ f as, V, h, hr => by
    obtain ⟨hname, has⟩ := List.append_eq_nil_iff.mp h
    rcases List.mem_cons.mp hr with rfl | hr
    · exact .inl (mem_of_demand hname)
    · exact declared_of_usesAll (l := as) has hr

theorem declared_of_usesAll : ∀ {l : List Expr} {V : Declared}, faultsAll known reading V l = [] →
    r ∈ usesAll reading l →
      V r.name = true ∨ r.name ∈ ownUsesAll reading l ∨ reading = true ∧ r.name ∈ bindsAll l
  | [], _, _, hr => by cases hr
  | e :: es, V, h, hr => by
    obtain ⟨he, hes⟩ := List.append_eq_nil_iff.mp h
    unfold ownUsesAll bindsAll
    simp only [List.mem_append]
    rcases List.mem_append.mp hr with hr | hr
    · have hdeclared := declared_of_uses he hr
      tauto
    · rcases declared_of_usesAll hes hr with hV | hrest
      · have hbound := mem_bound hV
        tauto
      · tauto

/-- In the fields of a constructed value, `V` declares what is declared around it, which is `U`, the
earlier fields and, inside a rule input, what is bound before. -/
theorem declared_of_usesFields {ctor : Symbol} {defined : Bool} {U : Declared} :
    ∀ {l : List (Named Expr)} {V : Declared} (earlier bound : List Symbol),
      (∀ m, V m = true → U m = true ∨ m ∈ earlier ∨ reading = true ∧ m ∈ bound) →
      faultsFields known reading ctor defined V l = [] → r ∈ usesFields reading l →
      U r.name = true ∨ r.name ∈ ownUsesFrom reading earlier l
        ∨ reading = true ∧ (r.name ∈ bound ∨ r.name ∈ bindsFields l)
  | [], _, _, _, _, _, hr => by cases hr
  | f :: fs, V, earlier, bound, hV, h, hr => by
    obtain ⟨hfirst, hfs⟩ := List.append_eq_nil_iff.mp h
    have hf := (List.append_eq_nil_iff.mp hfirst).2
    unfold ownUsesFrom bindsFields
    simp only [List.mem_append]
    rcases List.mem_append.mp hr with hr | hr
    · -- the value of the first field is looked up, it is not a variable that is bound
      split at hr
      · cases hr
      · next hnot =>
        rw [if_neg hnot] at hf ⊢
        have hnone : reading = true → f.val.bareVar? = none := by
          intro hreading
          simpa [hreading] using hnot
        rcases declared_of_uses hf hr with hdeclared | hown | ⟨hreading, hbinds⟩
        · rcases hV _ hdeclared with hU | hearlier | hbound
          · exact .inl hU
          · refine .inr (.inl (.inl (List.mem_append_left _ (List.mem_filter.mpr ⟨?_, ?_⟩))))
            · exact List.mem_map_of_mem hr
            · exact List.contains_iff_mem.mpr hearlier
          · exact .inr (.inr ⟨hbound.1, .inl hbound.2⟩)
        · exact .inr (.inl (.inl (List.mem_append_right _ hown)))
        · rw [hnone hreading]
          exact .inr (.inr ⟨hreading, .inr (.inl hbinds)⟩)
    · have hafter : ∀ m, ((V.bound reading f.val.bindsValue).adding [f.name.name]) m = true →
          U m = true ∨ m ∈ earlier ++ [f.name.name]
            ∨ reading = true ∧ m ∈ bound ++ f.val.bindsValue := by
        intro m hm
        rw [List.mem_append, List.mem_append]
        rcases Bool.or_eq_true_iff.mp hm with hm | hm
        · exact .inr (.inl (.inr (List.contains_iff_mem.mp hm)))
        · rcases mem_bound hm with hm | ⟨hreading, hm⟩
          · have hdeclared := hV m hm
            tauto
          · exact .inr (.inr ⟨hreading, .inr hm⟩)
      have hrest := declared_of_usesFields (l := fs) _ _ hafter hfs hr
      unfold bindsValue at hrest
      rw [List.mem_append] at hrest
      tauto

end

end

/-! ## §5. Substitution. -/

variable {V : Vocabulary} {σ : Substitution}

/-- What is followed into uses nothing but what was used there. -/
theorem Uses.follow (fields : List Ident) :
    ∀ {e e' : Expr}, e.Uses false V → e.follow fields = .ok e' → e'.Uses false V := by
  induction fields with
  | nil =>
    intro e e' he h
    rw [show e' = e from (by cases e <;> cases h <;> rfl)]
    exact he
  | cons f fields ih =>
    intro e e' he h
    cases e with
    | access a =>
      cases h
      exact he
    | constructed span c inits =>
      unfold Expr.follow at h
      cases hfind : Named.find? inits f.name with
      | none => simp [hfind] at h
      | some value =>
        obtain ⟨g, hg, rfl⟩ := Named.mem_of_find? hfind
        rw [hfind] at h
        exact ih ((uses_constructed.mp he).2 g hg rfl) h
    | _ => cases h

mutual

/-- **Where variables stand for expressions that use what is allowed, substitution keeps it so.** -/
theorem Uses.apply (hσ : ∀ n b, σ.find? n = some b → b.Uses false V) :
    ∀ {e e' : Expr}, e.Uses false V → σ.apply e = .ok e' → e'.Uses false V
  | .scalar _ _, _, _, happly => by
    cases happly
    exact uses_scalar
  | .access a, e', he, happly => by
    unfold Substitution.apply at happly
    cases hfind : σ.find? a.var.name with
    | none =>
      rw [hfind] at happly
      cases happly
      exact he
    | some bound =>
      rw [hfind] at happly
      exact Uses.follow _ (hσ _ _ hfind) happly
  | .binary _ op l r, _, he, happly => by
    obtain ⟨l', hl, happly⟩ := exists_of_bind_eq_ok happly
    obtain ⟨r', hr, happly⟩ := exists_of_bind_eq_ok happly
    cases happly
    by_cases hop : op = .mem
    · subst hop
      exact uses_mem
    · rw [uses_binary hop] at he ⊢
      exact ⟨Uses.apply hσ he.1 hl, Uses.apply hσ he.2 hr⟩
  | .unary _ _ x, _, he, happly => by
    obtain ⟨x', hx, happly⟩ := exists_of_bind_eq_ok happly
    cases happly
    rw [uses_unary] at he ⊢
    exact Uses.apply hσ he hx
  | .type _ i ps, _, he, happly => by
    obtain ⟨ps', hps, happly⟩ := exists_of_bind_eq_ok happly
    cases happly
    rw [uses_type] at he ⊢
    rw [Substitution.applyAll_length hps]
    exact ⟨he.1, Uses.applyAll hσ he.2 hps⟩
  | .constructed _ c fs, _, he, happly => by
    obtain ⟨fs', hfs, happly⟩ := exists_of_bind_eq_ok happly
    cases happly
    rw [uses_constructed] at he ⊢
    exact ⟨he.1, fun f hf _ => Uses.applyFields hσ (fun f hf => he.2 f hf rfl) hfs f hf⟩
  | .collection _ es, _, he, happly => by
    obtain ⟨es', hes, happly⟩ := exists_of_bind_eq_ok happly
    cases happly
    rw [uses_collection] at he ⊢
    exact Uses.applyAll hσ he hes
  | .call _ f as, _, he, happly => by
    obtain ⟨as', has, happly⟩ := exists_of_bind_eq_ok happly
    cases happly
    rw [uses_call] at he ⊢
    exact ⟨he.1, Uses.applyAll hσ he.2 has⟩

theorem Uses.applyAll (hσ : ∀ n b, σ.find? n = some b → b.Uses false V) :
    ∀ {es es' : List Expr}, (∀ e ∈ es, e.Uses false V) → σ.applyAll es = .ok es' →
      ∀ e ∈ es', e.Uses false V
  | [], _, _, happly => by
    cases happly
    simp
  | e :: es, _, he, happly => by
    obtain ⟨e', he', happly⟩ := exists_of_bind_eq_ok happly
    obtain ⟨es', hes', happly⟩ := exists_of_bind_eq_ok happly
    cases happly
    rw [List.forall_mem_cons] at he ⊢
    exact ⟨Uses.apply hσ he.1 he', Uses.applyAll hσ he.2 hes'⟩

theorem Uses.applyFields (hσ : ∀ n b, σ.find? n = some b → b.Uses false V) :
    ∀ {fs fs' : List (Named Expr)}, (∀ f ∈ fs, f.val.Uses false V) → σ.applyFields fs = .ok fs' →
      ∀ f ∈ fs', f.val.Uses false V
  | [], _, _, happly => by
    cases happly
    simp
  | f :: fs, _, hf, happly => by
    obtain ⟨e', he', happly⟩ := exists_of_bind_eq_ok happly
    obtain ⟨fs', hfs', happly⟩ := exists_of_bind_eq_ok happly
    cases happly
    rw [List.forall_mem_cons] at hf ⊢
    exact ⟨Uses.apply hσ hf.1 he', Uses.applyFields hσ hf.2 hfs'⟩

end

theorem Uses.applyType (hσ : ∀ n b, σ.find? n = some b → b.Uses false V) {t t' : TypeExpr}
    (ht : t.toExpr.Uses false V) (happly : σ.applyType t = .ok t') : t'.toExpr.Uses false V := by
  obtain ⟨ps', hps, happly⟩ := exists_of_bind_eq_ok happly
  cases happly
  obtain ⟨hname, hparams⟩ := uses_type.mp ht
  refine uses_type.mpr ⟨?_, Uses.applyAll hσ hparams hps⟩
  rwa [Substitution.applyAll_length hps]

end Expr

/-! ## §6. Local and loose names. -/

/-- The names that are declared inside of a type: dependencies, fields, and what rule inputs bind.
-/
def TypeDef.localNames (d : TypeDef) : List Symbol :=
  Variable.names d.deps ++ d.constructors.flatMap (fun c => Variable.names c.fields)
    ++ RuleInput.bindsAll d.inputs

namespace ParameterType

mutual

/-- The names of the parameters inside the type of a parameter. -/
def localNames : ParameterType → List Symbol
  | value _ => []
  | function ps _ => localNamesAll ps
termination_by structural t => t

/-- The names of parameters and of those inside their types. -/
def localNamesAll : List (Named ParameterType) → List Symbol
  | [] => []
  | p :: ps => p.name.name :: localNames p.val ++ localNamesAll ps
termination_by structural ps => ps

end

end ParameterType

/-- The types that stand in a type: those of its dependencies and those of its fields. -/
def TypeDef.written (d : TypeDef) : List Expr :=
  Variable.exprs d.deps ++ d.constructors.flatMap fun c => Variable.exprs c.fields

/-- The names that an input declares where nothing is in scope: those that it binds inside the
operands of `in` only, those that it both binds and uses, and own fields of its values. -/
def RuleInput.loose : RuleInput → List Symbol
  | any _ => []
  | value p =>
    p.binds.filter (fun n => !p.introduced.contains n
      || ((p.uses true).map Reference.name).contains n) ++ p.ownUses true

namespace Declaration

/-- The names that are declared inside of a declaration. -/
def localNames : Declaration → List Symbol
  | type d => d.localNames
  | function f => ParameterType.localNamesAll f.params

/-- The names that the check of names declares in more places of a declaration than they are in
scope there. -/
def loose : Declaration → List Symbol
  | type d => d.written.flatMap (Expr.ownUses false) ++ d.inputs.flatMap RuleInput.loose
  | function f => f.exprs.flatMap (Expr.ownUses false)

/-- The expressions of a declaration. -/
def exprs : Declaration → List Expr
  | type d => d.exprs
  | function f => f.exprs

/-- All references of a declaration. -/
def refs (d : Declaration) : List Reference := d.exprs.flatMap Expr.refs

end Declaration

/-- The name is declared somewhere in the declaration, as whatever, or everywhere: as a type,
builtin or declared, a constructor or a function. -/
def Schema.Declares (s : Schema) (here : Declaration) (n : Symbol) : Prop :=
  s.globals n = true ∨ n ∈ here.localNames ∨ n ∈ here.loose

end DepSchema
