/-
DepSchema.Proofs.Instantiation.Sameness — what is the same stays the same under a substitution.

Expressions that the structural oracle finds equal may cease to be so when variables are replaced,
because literals of two types are compared as numbers and then computed differently. Between
expressions of one sort this cannot happen. There equality is an equivalence, it is inherited by the
fields of equal values, and it is kept by a substitution: by one for both sides, by two that put
equal expressions for each variable, and by one after another if a third comes to the same at each
variable.

Main definition: `Substitution.Alike`. Main results: `Alike.same` and `Same.apply`.
-/
import DepSchema.Proofs.Instantiation.Sorts

namespace DepSchema

/-! ## §1. Equality of expressions of one sort. -/

namespace Expr

variable {s : Schema} {Γ Δ : Sorts} {x y z : Expr} {k : Kind} {κ : ValueSort}

theorem equal_iff_content (hx : x.fieldsDistinct = true) (hy : y.fieldsDistinct = true) :
    Structural.equal x y = true ↔ x.fold.content = y.fold.content :=
  sameAs_iff_content (fieldsDistinct_fold hx) (fieldsDistinct_fold hy)

theorem Same.symm (hx : x.fieldsDistinct = true) (hy : y.fieldsDistinct = true) (h : Same x y) :
    Same y x :=
  ⟨(equal_iff_content hy hx).mpr ((equal_iff_content hx hy).mp h.equal).symm, h.literal.symm⟩

theorem Same.trans (hx : x.fieldsDistinct = true) (hy : y.fieldsDistinct = true)
    (hz : z.fieldsDistinct = true) (h : Same x y) (h' : Same y z) : Same x z := by
  refine ⟨(equal_iff_content hx hz).mpr ?_, h.literal.trans h'.literal⟩
  exact ((equal_iff_content hx hy).mp h.equal).trans ((equal_iff_content hy hz).mp h'.equal)

/-- **Equal expressions of one sort are the same**, down to the types of their literals. -/
theorem HasSort.same (hx : x.HasSort s Γ k) (hy : y.HasSort s Δ k)
    (h : Structural.equal x y = true) : Same x y := by
  refine .of_equal h fun v w hv hw => ?_
  cases k with
  | value κ => exact (hx.type_of_fold hv).trans (hy.type_of_fold hw).symm
  | type =>
    -- a type is not computed to a literal
    cases hx
    cases hv

theorem same_access {a b : Access} (h : a.sameAs b = true) : Same (.access a) (.access b) :=
  ⟨h, rfl⟩

theorem allSameAs_iff_forall₂ {es qs : List Expr} :
    allSameAs es qs = true ↔ List.Forall₂ (fun e q => e.sameAs q = true) es qs := by
  induction es generalizing qs with
  | nil => cases qs <;> simp [allSameAs]
  | cons e es ih => cases qs <;> simp [allSameAs, ih]

/-! ## §2. Fields of equal values. -/

theorem evalBinary_eq (span : Span) (op : BinaryOp) (l r : Expr) :
    (∃ v, evalBinary span op l r = .scalar span v)
      ∨ evalBinary span op l r = .binary span op l r := by
  unfold evalBinary
  split
  · split
    · exact .inl ⟨_, rfl⟩
    · exact .inr rfl
  · exact .inr rfl

theorem evalUnary_eq (span : Span) (op : UnaryOp) (x : Expr) :
    (∃ v, evalUnary span op x = .scalar span v) ∨ evalUnary span op x = .unary span op x := by
  unfold evalUnary
  split
  · exact .inl ⟨_, rfl⟩
  · exact .inr rfl

/-- Only a variable with fields is equal to one. -/
theorem exists_of_equal_access {a : Access} (h : Structural.equal (.access a) y = true) :
    ∃ b, y = .access b ∧ a.sameAs b = true := by
  cases y with
  | access b => exact ⟨b, rfl, h⟩
  | binary span op l r =>
    unfold Structural.equal at h
    rcases evalBinary_eq span op l.fold r.fold with ⟨v, hv⟩ | hv <;> rw [fold, fold, hv] at h <;>
      cases h
  | unary span op x =>
    unfold Structural.equal at h
    rcases evalUnary_eq span op x.fold with ⟨v, hv⟩ | hv <;> rw [fold, fold, hv] at h <;> cases h
  | _ => cases h

theorem exists_of_fieldsSameAs {fs others : List (Named Expr)}
    (h : fieldsSameAs fs others = true) : ∀ f ∈ fs, ∃ value,
      Named.find? others f.name.name = some value ∧ f.val.sameAs value = true := by
  induction fs with
  | nil => exact List.forall_mem_nil _
  | cons f fs ih =>
    rw [fieldsSameAs, Bool.and_eq_true] at h
    refine List.forall_mem_cons.mpr ⟨?_, ih h.2⟩
    cases hfind : Named.find? others f.name.name with
    | none =>
      rw [hfind] at h
      cases h.1
    | some value =>
      rw [hfind] at h
      exact ⟨value, rfl, h.1⟩

/-- Only a constructed value is equal to one, and then their fields are equal. -/
theorem exists_of_equal_constructed {span : Span} {c : Ident} {fs : List (Named Expr)}
    (h : Structural.equal (.constructed span c fs) y = true) :
    ∃ span' c' fs', y = .constructed span' c' fs' ∧ c.name = c'.name ∧ ∀ f ∈ fs, ∃ value,
      Named.find? fs' f.name.name = some value ∧ Structural.equal f.val value = true := by
  unfold Structural.equal at h
  cases y with
  | constructed span' c' fs' =>
    simp only [fold, sameAs, Bool.and_eq_true, beq_iff_eq] at h
    refine ⟨span', c', fs', rfl, h.1.1, fun f hf => ?_⟩
    have hmem : (⟨f.name, f.val.fold⟩ : Named Expr) ∈ foldFields fs := by
      rw [foldFields_eq_map]
      exact List.mem_map_of_mem (f := fun f : Named Expr => (⟨f.name, f.val.fold⟩ : Named Expr)) hf
    obtain ⟨value, hfind, hsame⟩ := exists_of_fieldsSameAs h.2 _ hmem
    rw [find?_foldFields] at hfind
    obtain ⟨value', hvalue, rfl⟩ := Option.map_eq_some_iff.mp hfind
    exact ⟨value', hvalue, hsame⟩
  | binary span op l r =>
    rcases evalBinary_eq span op l.fold r.fold with ⟨v, hv⟩ | hv <;> rw [fold, fold, hv] at h <;>
      cases h
  | unary span op x =>
    rcases evalUnary_eq span op x.fold with ⟨v, hv⟩ | hv <;> rw [fold, fold, hv] at h <;> cases h
  | _ => cases h

theorem HasSort.field {span : Span} {c : Ident} {fs : List (Named Expr)}
    (h : (Expr.constructed span c fs).HasSort s Γ k) {owner : TypeDef} {ctor : Constructor}
    (hfound : s.constructor? c.name = some (owner, ctor)) {n : Symbol} {value : Expr}
    (hvalue : Named.find? fs n = some value) :
    ∃ κ, ctor.fieldSort? n = some κ ∧ value.HasSort s Γ (.value κ) := by
  cases h with
  | constructed hfound' _ _ hdeclared hvalues =>
    rw [hfound] at hfound'
    cases hfound'
    obtain ⟨f, hf, rfl, rfl⟩ := Named.exists_of_find? hvalue
    obtain ⟨κ, hκ⟩ := Option.isSome_iff_exists.mp (hdeclared f hf)
    exact ⟨κ, hκ, hvalues f hf κ hκ⟩

/-- Fields of the same names lead to the same. -/
theorem same_follow_of_names {fields : List Ident} : ∀ {fields' : List Ident} {e p q : Expr},
    fields.map Ident.name = fields'.map Ident.name → e.fieldsDistinct = true →
    e.follow fields = .ok p → e.follow fields' = .ok q → Same p q := by
  induction fields with
  | nil =>
    intro fields' e p q hnames he hp hq
    obtain rfl : fields' = [] := by simpa using hnames.symm
    rw [hp] at hq
    cases hq
    exact .refl (fieldsDistinct_follow he hp)
  | cons f fields ih =>
    intro fields' e p q hnames he hp hq
    cases fields' with
    | nil => cases hnames
    | cons f' fields' =>
      obtain ⟨hname, hnames⟩ := List.cons.inj hnames
      cases e with
      | access a =>
        cases hp
        cases hq
        exact same_access (Access.sameAs_iff.mpr ⟨rfl, by simp [hname, hnames]⟩)
      | constructed span c inits =>
        unfold follow at hp hq
        rw [← hname] at hq
        cases hfind : Named.find? inits f.name with
        | none => simp [hfind] at hp
        | some value =>
          rw [hfind] at hp hq
          obtain ⟨g, hg, rfl⟩ := Named.mem_of_find? hfind
          exact ih hnames (fieldsDistinct_part he g hg) hp hq
      | _ => cases hp

/-- **Equal expressions of one sort agree on their fields.** -/
theorem Same.agrees (h : Same x y) (hx : x.HasSort s Γ k) (hy : y.HasSort s Δ k) :
    Agrees x y := by
  intro fields
  induction fields generalizing x y k with
  | nil =>
    intro x' y' hx' hy'
    rw [follow_nil] at hx' hy'
    cases hx'
    cases hy'
    exact h
  | cons f fields ih =>
    intro x' y' hx' hy'
    cases x with
    | access a =>
      obtain ⟨b, rfl, hab⟩ := exists_of_equal_access h.equal
      cases hx'
      cases hy'
      obtain ⟨hvar, hfields⟩ := Access.sameAs_iff.mp hab
      exact same_access (Access.sameAs_iff.mpr ⟨hvar, by simp [hfields]⟩)
    | constructed span c fs =>
      obtain ⟨span', c', fs', rfl, hname, hequal⟩ := exists_of_equal_constructed h.equal
      unfold follow at hx' hy'
      cases hfind : Named.find? fs f.name with
      | none => simp [hfind] at hx'
      | some value =>
        obtain ⟨g, hg, hgname, rfl⟩ := Named.exists_of_find? hfind
        obtain ⟨value', hfind', hvalues⟩ := hequal g hg
        rw [hgname] at hfind'
        rw [hfind] at hx'
        rw [hfind'] at hy'
        -- both are values of one field of one constructor
        have hfound : ∃ p, s.constructor? c.name = some p := by
          cases hx with
          | constructed hfound => exact ⟨_, hfound⟩
        obtain ⟨⟨owner, ctor⟩, hfound⟩ := hfound
        obtain ⟨κ, hκ, hgsort⟩ := hx.field hfound hfind
        obtain ⟨κ', hκ', hsort'⟩ := hy.field (hname ▸ hfound) hfind'
        rw [hκ] at hκ'
        cases hκ'
        exact ih (hgsort.same hsort' hvalues) hgsort hsort' x' y' hx' hy'
    | _ => cases hx'

end Expr

/-! ## §3. Substitutions that come to the same. -/

theorem Variable.toParameter_injective : Function.Injective Variable.toParameter := by
  rintro ⟨name, type⟩ ⟨name', type'⟩ h
  cases h
  rfl

namespace Substitution

open DepSchema.Expr (Same)

variable {s : Schema} {Γ Δ Δ' : Sorts} {τ σ σ' : Substitution}

/-- At a variable with its fields, `τ` and then `σ` come to the same as `σ'`. -/
def Alike (s : Schema) (Γ : Sorts) (τ σ σ' : Substitution) : Prop :=
  ∀ a b κ, Access.sameAs a b = true → (Expr.access a).HasSort s Γ (.value κ) → ∀ p p' q,
    τ.apply (.access a) = .ok p → σ.apply p = .ok p' → σ'.apply (.access b) = .ok q → Same p' q

namespace Alike

/-- From what is the same as `u`, they lead to the same. -/
def Keeps (s : Schema) (Γ : Sorts) (τ σ σ' : Substitution) (u : Expr) : Prop :=
  ∀ v k u₁ u₂ v', u.sameAs v = true → u.HasSort s Γ k → v.HasSort s Γ k → τ.apply u = .ok u₁ →
    σ.apply u₁ = .ok u₂ → σ'.apply v = .ok v' → Same u₂ v'

theorem forall₂_same {l : List Expr} (h : ∀ u ∈ l, Keeps s Γ τ σ σ' u) :
    ∀ {l' l₁ l₂ l₃ : List Expr} {ks : List Kind}, Expr.allSameAs l l' = true →
      List.Forall₂ (Expr.HasSort s Γ) l ks → List.Forall₂ (Expr.HasSort s Γ) l' ks →
      τ.applyAll l = .ok l₁ → σ.applyAll l₁ = .ok l₂ → σ'.applyAll l' = .ok l₃ →
        List.Forall₂ Same l₂ l₃ := by
  induction l with
  | nil =>
    intro l' l₁ l₂ l₃ ks hsame _ _ h₁ h₂ h₃
    cases l' with
    | cons => cases hsame
    | nil =>
      cases h₁
      cases h₂
      cases h₃
      exact .nil
  | cons u l ih =>
    intro l' l₁ l₂ l₃ ks hsame hl hl' h₁ h₂ h₃
    rw [List.forall_mem_cons] at h
    cases l' with
    | nil => cases hsame
    | cons v l' =>
      simp only [Expr.allSameAs, Bool.and_eq_true] at hsame
      cases hl with
      | cons hu hl =>
        cases hl' with
        | cons hv hl' =>
          obtain ⟨u₁, l₁, hu₁, hl₁, rfl⟩ := of_applyAll_cons h₁
          obtain ⟨u₂, l₂, hu₂, hl₂, rfl⟩ := of_applyAll_cons h₂
          obtain ⟨v', l₃, hv', hl₃, rfl⟩ := of_applyAll_cons h₃
          exact .cons (h.1 v _ u₁ u₂ v' hsame.1 hu hv hu₁ hu₂ hv')
            (ih h.2 hsame.2 hl hl' hl₁ hl₂ hl₃)

/-- Where all items have one sort, there are kinds for them. -/
theorem forall₂_replicate {l : List Expr} {k : Kind} (h : ∀ u ∈ l, u.HasSort s Γ k) :
    List.Forall₂ (Expr.HasSort s Γ) l (List.replicate l.length k) := by
  induction l with
  | nil => exact .nil
  | cons u l ih =>
    rw [List.forall_mem_cons] at h
    exact .cons h.1 (ih h.2)

/-- **Substitutions that come to the same at variables come to the same at all expressions** of one
sort that are the same. -/
theorem keeps (h : Alike s Γ τ σ σ') (u : Expr) : Keeps s Γ τ σ σ' u := by
  induction u using Expr.induct with
  | scalar span v =>
    intro w k u₁ u₂ v' hsame hu hw h₁ h₂ h₃
    cases w with
    | scalar span' w =>
      cases h₁
      cases h₂
      cases h₃
      exact hu.same hw hsame
    | _ => cases hsame
  | access a =>
    intro w k u₁ u₂ v' hsame hu _ h₁ h₂ h₃
    cases w with
    | access b =>
      cases hu with
      | access hvar hfields => exact h a b _ hsame (.access hvar hfields) u₁ u₂ v' h₁ h₂ h₃
    | _ => cases hsame
  | binary span op l r ihl ihr =>
    intro w k u₁ u₂ v' hsame hu hw h₁ h₂ h₃
    cases w with
    | binary span' op' l' r' =>
      simp only [Expr.sameAs, Bool.and_eq_true, beq_iff_eq] at hsame
      obtain ⟨⟨rfl, hl⟩, hr⟩ := hsame
      obtain ⟨l₁, r₁, hl₁, hr₁, rfl⟩ := of_apply_binary h₁
      obtain ⟨l₂, r₂, hl₂, hr₂, rfl⟩ := of_apply_binary h₂
      obtain ⟨l₃, r₃, hl₃, hr₃, rfl⟩ := of_apply_binary h₃
      cases hu with
      | binary _ _ hul hur =>
        cases hw with
        | binary _ _ hwl hwr =>
          exact .binary (ihl l' _ l₁ l₂ l₃ hl hul hwl hl₁ hl₂ hl₃)
            (ihr r' _ r₁ r₂ r₃ hr hur hwr hr₁ hr₂ hr₃) _ _ _
    | _ => cases hsame
  | unary span op x ih =>
    intro w k u₁ u₂ v' hsame hu hw h₁ h₂ h₃
    cases w with
    | unary span' op' y =>
      simp only [Expr.sameAs, Bool.and_eq_true, beq_iff_eq] at hsame
      obtain ⟨rfl, hxy⟩ := hsame
      obtain ⟨x₁, hx₁, rfl⟩ := of_apply_unary h₁
      obtain ⟨x₂, hx₂, rfl⟩ := of_apply_unary h₂
      obtain ⟨y', hy', rfl⟩ := of_apply_unary h₃
      cases hu with
      | unary _ hux =>
        cases hw with
        | unary _ hwy => exact .unary (ih y _ x₁ x₂ y' hxy hux hwy hx₁ hx₂ hy') _ _ _
    | _ => cases hsame
  | type span i ps ih =>
    intro w k u₁ u₂ v' hsame hu hw h₁ h₂ h₃
    cases w with
    | type span' i' qs =>
      simp only [Expr.sameAs, Bool.and_eq_true, beq_iff_eq] at hsame
      obtain ⟨ps₁, hps₁, rfl⟩ := of_apply_type h₁
      obtain ⟨ps₂, hps₂, rfl⟩ := of_apply_type h₂
      obtain ⟨qs', hqs', rfl⟩ := of_apply_type h₃
      cases hu with
      | type hkinds hps =>
        cases hw with
        | type hkinds' hqs =>
          rw [← hsame.1, hkinds] at hkinds'
          cases hkinds'
          exact .type (forall₂_same ih hsame.2 hps hqs hps₁ hps₂ hqs') _ _ hsame.1
    | _ => cases hsame
  | constructed span c fs ih =>
    intro w k u₁ u₂ v' hsame hu hw h₁ h₂ h₃
    cases w with
    | constructed span' c' gs =>
      simp only [Expr.sameAs, Bool.and_eq_true, beq_iff_eq] at hsame
      obtain ⟨⟨hname, hlength⟩, hfields⟩ := hsame
      obtain ⟨fs₁, hfs₁, rfl⟩ := of_apply_constructed h₁
      obtain ⟨fs₂, hfs₂, rfl⟩ := of_apply_constructed h₂
      obtain ⟨gs', hgs', rfl⟩ := of_apply_constructed h₃
      have hrel₁ := forall₂_of_applyFields hfs₁
      have hrel₂ := forall₂_of_applyFields hfs₂
      have hrel₃ := forall₂_of_applyFields hgs'
      have hnames : (fs₂.map fun f => f.name.name) = fs.map fun f => f.name.name :=
        (Named.names_of_rel hrel₂).trans (Named.names_of_rel hrel₁)
      have hfound : ∃ p, s.constructor? c.name = some p ∧ (fs.map fun f => f.name.name).Nodup := by
        cases hu with
        | constructed hfound hdistinct => exact ⟨_, hfound, hdistinct⟩
      obtain ⟨⟨owner, ctor⟩, hfound, hdistinct⟩ := hfound
      refine .constructed ?_ (fun f hf => ?_) _ _ hname
      · rw [← hrel₂.length_eq, ← hrel₁.length_eq, ← hrel₃.length_eq, hlength]
      -- follow the value of one field through all three
      have hfind₂ := Named.find?_of_mem (hnames ▸ hdistinct) hf
      rcases find?_applyFields hfs₂ f.name.name with ⟨-, hnone⟩ | ⟨e₁, e₂, he₁, he₂, happly₂⟩
      · rw [hfind₂] at hnone
        cases hnone
      rw [hfind₂] at he₂
      cases he₂
      rcases find?_applyFields hfs₁ f.name.name with ⟨-, hnone⟩ | ⟨e, _, he, he₁', happly₁⟩
      · rw [he₁] at hnone
        cases hnone
      rw [he₁] at he₁'
      cases he₁'
      obtain ⟨g, hg, hgname, rfl⟩ := Named.exists_of_find? he
      obtain ⟨value, hvalue, hsame⟩ := Expr.exists_of_fieldsSameAs hfields g hg
      rw [hgname] at hvalue
      rcases find?_applyFields hgs' f.name.name with ⟨hnone, -⟩ | ⟨_, e₃, he₃, hfind₃, happly₃⟩
      · rw [hvalue] at hnone
        cases hnone
      rw [hvalue] at he₃
      cases he₃
      obtain ⟨κ, hκ, hgsort⟩ := hu.field hfound he
      obtain ⟨κ', hκ', hvsort⟩ := hw.field (hname ▸ hfound) hvalue
      rw [hκ] at hκ'
      cases hκ'
      exact ⟨e₃, hfind₃, ih g hg value _ e₁ f.val e₃ hsame hgsort hvsort happly₁ happly₂ happly₃⟩
    | _ => cases hsame
  | collection span es ih =>
    intro w k u₁ u₂ v' hsame hu hw h₁ h₂ h₃
    cases w with
    | collection span' qs =>
      obtain ⟨es₁, hes₁, rfl⟩ := of_apply_collection h₁
      obtain ⟨es₂, hes₂, rfl⟩ := of_apply_collection h₂
      obtain ⟨qs', hqs', rfl⟩ := of_apply_collection h₃
      have hall : ∀ κ, (∀ e ∈ es, e.HasSort s Γ (.value κ)) → (∀ q ∈ qs, q.HasSort s Γ (.value κ)) →
          Same (.collection span es₂) (.collection span' qs') := by
        intro κ hes hqs
        have hqs := forall₂_replicate hqs
        rw [← (Expr.allSameAs_iff_forall₂.mp hsame).length_eq] at hqs
        exact .collection (forall₂_same ih hsame (forall₂_replicate hes) hqs hes₁ hes₂ hqs') _ _
      cases hu with
      | array hes =>
        cases hw with
        | array hqs => exact hall _ hes hqs
      | set hes =>
        cases hw with
        | set hqs => exact hall _ hes hqs
    | _ => cases hsame
  | call span i as ih =>
    intro w k u₁ u₂ v' hsame hu hw h₁ h₂ h₃
    cases w with
    | call span' i' bs =>
      simp only [Expr.sameAs, Bool.and_eq_true, beq_iff_eq] at hsame
      obtain ⟨as₁, has₁, rfl⟩ := of_apply_call h₁
      obtain ⟨as₂, has₂, rfl⟩ := of_apply_call h₂
      obtain ⟨bs', hbs', rfl⟩ := of_apply_call h₃
      cases hu with
      | call hf hparams hkinds _ _ has =>
        cases hw with
        | call hf' hparams' hkinds' _ _ hbs =>
          rw [← hsame.1, hf] at hf'
          cases hf'
          have hvars := Variable.toParameter_injective.list_map (hparams.symm.trans hparams')
          rw [← hvars, hkinds] at hkinds'
          cases hkinds'
          exact .call (forall₂_same ih hsame.2 has hbs has₁ has₂ hbs') _ _ hsame.1
    | _ => cases hsame

/-- **One expression is taken to the same by both**: by `τ` and then `σ`, and by `σ'`. -/
theorem same (h : Alike s Γ τ σ σ') {e e₁ e₂ e' : Expr} {k : Kind} (he : e.HasSort s Γ k)
    (h₁ : τ.apply e = .ok e₁) (h₂ : σ.apply e₁ = .ok e₂) (h₃ : σ'.apply e = .ok e') :
    Same e₂ e' := by
  have hdistinct := he.fieldsDistinct
  have hself : e.sameAs e = true := (Expr.sameAs_iff_content hdistinct hdistinct).mpr rfl
  exact h.keeps e e k e₁ e₂ e' hself he he h₁ h₂ h₃

end Alike

/-- A substitution comes to the same wherever the variable is written. -/
theorem Respects.alike (hσ : σ.Respects s Γ Δ) : Alike s Γ empty σ σ := by
  intro a b κ hab ha p p' q hp hp' hq
  cases hp
  obtain ⟨hvar, hfields⟩ := Expr.Access.sameAs_iff.mp hab
  rcases of_apply_access hp' with ⟨hnone, rfl⟩ | ⟨bound, hbound, hfollow⟩
  · rcases of_apply_access hq with ⟨-, rfl⟩ | ⟨_, hsome, -⟩
    · exact Expr.same_access hab
    · rw [← hvar, hnone] at hsome
      cases hsome
  · rcases of_apply_access hq with ⟨hnone, -⟩ | ⟨_, hsome, hfollow'⟩
    · rw [← hvar, hbound] at hnone
      cases hnone
    · rw [← hvar, hbound] at hsome
      cases hsome
      have hdistinct : bound.fieldsDistinct = true := by
        cases ha with
        | access hΓ =>
          rcases hσ _ _ hΓ with ⟨hnone, -⟩ | ⟨_, hsome, hsort⟩
          · rw [hbound] at hnone
            cases hnone
          · rw [hbound] at hsome
            cases hsome
            exact hsort.fieldsDistinct
      exact Expr.same_follow_of_names hfields hdistinct hfollow hfollow'

theorem fold_eq_of_apply_fold {x x' y' : Expr} (h : σ.apply x = .ok x')
    (h' : σ.apply x.fold = .ok y') : y'.fold = x'.fold := by
  have hfold := σ.map_fold_apply x
  rw [h, h'] at hfold
  exact Except.ok.inj hfold

end Substitution

namespace Expr

variable {s : Schema} {Γ Δ : Sorts} {σ : Substitution}

/-- **What is the same stays the same** when one substitution is applied to both. -/
theorem Same.apply (hs : ∀ n ∈ Symbol.builtins, s.type? n = none) (hσ : σ.Respects s Γ Δ)
    {x y x' y' : Expr} {k : Kind} (hx : x.HasSort s Γ k) (hy : y.HasSort s Γ k)
    (h : Same x y) (hx' : σ.apply x = .ok x') (hy' : σ.apply y = .ok y') : Same x' y' := by
  -- it makes no difference whether the two are folded before
  obtain ⟨u, hu, -⟩ := hx.fold.apply hs hσ
  obtain ⟨v, hv, -⟩ := hy.fold.apply hs hσ
  have hfolded : Same u v := hσ.alike.keeps x.fold y.fold k x.fold u v h.equal hx.fold hy.fold
    (Substitution.apply_empty _) hu hv
  have hxfold := Substitution.fold_eq_of_apply_fold hx' hu
  have hyfold := Substitution.fold_eq_of_apply_fold hy' hv
  refine ⟨?_, ?_⟩
  · have hequal := hfolded.equal
    unfold Structural.equal at hequal ⊢
    rwa [hxfold, hyfold] at hequal
  · rw [← hxfold, ← hyfold]
    exact hfolded.literal

end Expr

end DepSchema
