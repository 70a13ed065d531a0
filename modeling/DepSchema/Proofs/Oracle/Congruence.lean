/-
DepSchema.Proofs.Oracle.Congruence — sameness under operators.

The structural oracle compares folded expressions and does not tell `5` and `5u` apart, but an
operator may: `5u + 2^63` is computed and `5 + 2^63` is not. Sameness is therefore kept by what is
built around two expressions only if they are the same literal where they are literals at all. The
literals that a well-typed value folds to are of its own type, as long as nothing is subtracted:
`1u - 3u` is computed to the signed `-2`.

Main definition: `Expr.Same`. Main results: `Same.binary`, `Same.refl` and `type_of_eval?`.
-/
import DepSchema.Proofs.Dispatch.Instances
import DepSchema.Proofs.Oracle.Equivalence

namespace DepSchema

namespace Expr

/-! ## §1. Sameness that operators keep. -/

/-- The same after folding, and then the same literal or no literals. -/
structure Same (x y : Expr) : Prop where
  equal : Structural.equal x y = true
  literal : x.fold.scalar? = y.fold.scalar?

variable {x y l l' r r' : Expr}

theorem Same.refl (h : x.fieldsDistinct = true) : Same x x :=
  ⟨(sameAs_iff_content (fieldsDistinct_fold h) (fieldsDistinct_fold h)).mpr rfl, rfl⟩

theorem Same.binary (hl : Same l l') (hr : Same r r') (span span' : Span) (op : BinaryOp) :
    Same (.binary span op l r) (.binary span' op l' r') := by
  have hliteral : (evalBinary span op l.fold r.fold).scalar?
      = (evalBinary span' op l'.fold r'.fold).scalar? := by
    rw [scalar?_evalBinary, scalar?_evalBinary, hl.literal, hr.literal]
  refine ⟨?_, hliteral⟩
  show (evalBinary span op l.fold r.fold).sameAs (evalBinary span' op l'.fold r'.fold) = true
  cases hv : (evalBinary span op l.fold r.fold).scalar? with
  | some v =>
    -- both sides are computed, to the same literal
    have hv' := hliteral ▸ hv
    refine sameAs_of_scalar? ?_ hv hv'
    cases he : evalBinary span op l.fold r.fold <;> rw [he] at hv <;> cases hv
    exact Scalar.sameAs_iff_content.mpr rfl
  | none =>
    rw [evalBinary_of_scalar? hv, evalBinary_of_scalar? (hliteral ▸ hv)]
    simp only [sameAs, Bool.and_eq_true, beq_self_eq_true, true_and]
    exact ⟨hl.equal, hr.equal⟩

theorem Same.unary (hx : Same x y) (span span' : Span) (op : UnaryOp) :
    Same (.unary span op x) (.unary span' op y) := by
  have hliteral : (evalUnary span op x.fold).scalar? = (evalUnary span' op y.fold).scalar? := by
    rw [scalar?_evalUnary, scalar?_evalUnary, hx.literal]
  refine ⟨?_, hliteral⟩
  show (evalUnary span op x.fold).sameAs (evalUnary span' op y.fold) = true
  cases hv : (evalUnary span op x.fold).scalar? with
  | some v =>
    have hv' := hliteral ▸ hv
    refine sameAs_of_scalar? ?_ hv hv'
    cases he : evalUnary span op x.fold <;> rw [he] at hv <;> cases hv
    exact Scalar.sameAs_iff_content.mpr rfl
  | none =>
    rw [evalUnary_of_scalar? hv, evalUnary_of_scalar? (hliteral ▸ hv)]
    simp only [sameAs, Bool.and_eq_true, beq_self_eq_true, true_and]
    exact hx.equal

theorem allSameAs_of_same {es es' : List Expr} (h : List.Forall₂ Same es es') :
    allSameAs (foldAll es) (foldAll es') = true := by
  induction h with
  | nil => rfl
  | cons he _ ih =>
    simp only [foldAll, allSameAs, Bool.and_eq_true]
    exact ⟨he.equal, ih⟩

theorem Same.type {ps ps' : List Expr} (h : List.Forall₂ Same ps ps') (span span' : Span)
    {i i' : Ident} (hname : i.name = i'.name) : Same (.type span i ps) (.type span' i' ps') := by
  refine ⟨?_, rfl⟩
  show (_ && _) = true
  rw [hname, beq_self_eq_true, Bool.true_and]
  exact allSameAs_of_same h

theorem Same.collection {es es' : List Expr} (h : List.Forall₂ Same es es') (span span' : Span) :
    Same (.collection span es) (.collection span' es') :=
  ⟨allSameAs_of_same h, rfl⟩

theorem Same.call {as as' : List Expr} (h : List.Forall₂ Same as as') (span span' : Span)
    {f f' : Ident} (hname : f.name = f'.name) : Same (.call span f as) (.call span' f' as') := by
  refine ⟨?_, rfl⟩
  show (_ && _) = true
  rw [hname, beq_self_eq_true, Bool.true_and]
  exact allSameAs_of_same h

theorem find?_foldFields (fs : List (Named Expr)) (name : Symbol) :
    Named.find? (foldFields fs) name = (Named.find? fs name).map fold := by
  induction fs with
  | nil => rfl
  | cons f fs ih =>
    rw [foldFields, Named.find?_cons, Named.find?_cons, ih]
    split <;> rfl

theorem length_foldFields (fs : List (Named Expr)) : (foldFields fs).length = fs.length := by
  induction fs with
  | nil => rfl
  | cons f fs ih => rw [foldFields, List.length_cons, List.length_cons, ih]

/-- Constructed values are the same when each field of the one has its like among as many. -/
theorem Same.constructed {fs fs' : List (Named Expr)} (hlength : fs.length = fs'.length)
    (h : ∀ f ∈ fs, ∃ value, Named.find? fs' f.name.name = some value ∧ Same f.val value)
    (span span' : Span) {c c' : Ident} (hname : c.name = c'.name) :
    Same (.constructed span c fs) (.constructed span' c' fs') := by
  have hfields : ∀ gs : List (Named Expr), (∀ f ∈ gs, ∃ value,
      Named.find? fs' f.name.name = some value ∧ Same f.val value) →
        fieldsSameAs (foldFields gs) (foldFields fs') = true := by
    intro gs
    induction gs with
    | nil => exact fun _ => rfl
    | cons f gs ih =>
      intro hgs
      rw [List.forall_mem_cons] at hgs
      obtain ⟨⟨value, hfind, hsame⟩, hrest⟩ := hgs
      rw [foldFields, fieldsSameAs, find?_foldFields, hfind, Bool.and_eq_true]
      exact ⟨hsame.equal, ih hrest⟩
  refine ⟨?_, rfl⟩
  show (_ && _ && _) = true
  rw [hname, beq_self_eq_true, Bool.true_and, length_foldFields, length_foldFields, hlength,
    beq_self_eq_true, Bool.true_and]
  exact hfields fs h

end Expr

/-! ## §2. The literals that operators give. -/

namespace Scalar

/-- Literals of one type that are the same are equal. -/
theorem eq_of_sameAs {v w : Scalar} (h : v.sameAs w = true) (htype : v.type = w.type) : v = w := by
  cases v with
  | int m =>
    cases w with
    | int n =>
      have hints : m.toInt = n.toInt := by simpa [sameAs, integer?] using h
      rw [Int64.toInt_inj.mp hints]
    | _ => cases htype
  | unsigned m =>
    cases w with
    | unsigned n =>
      have hnats : m.toNat = n.toNat := by simpa [sameAs, integer?] using h
      rw [UInt64.toNat_inj.mp hnats]
    | _ => cases htype
  | bool p =>
    cases w with
    | bool q => simpa [sameAs, integer?] using h
    | _ => cases htype
  | float p =>
    cases w with
    | float q => simpa [sameAs, integer?] using h
    | _ => cases htype
  | string p =>
    cases w with
    | string q => simpa [sameAs, integer?] using h
    | _ => cases htype

theorem type_of_signedOf? {n : Int} {v : Scalar} (h : signedOf? n = some v) : v.type = .int := by
  obtain ⟨-, h⟩ := Option.ite_none_right_eq_some.mp h
  cases h
  rfl

theorem type_of_unsignedOf? {n : Int} {v : Scalar} (h : unsignedOf? n = some v) :
    v.type = .unsigned := by
  obtain ⟨-, h⟩ := Option.ite_none_right_eq_some.mp h
  cases h
  rfl

/-- A number that is not negative has an unsigned literal if it has one at all. -/
theorem type_of_orElse {n : Int} (hn : 0 ≤ n) {v : Scalar}
    (h : (unsignedOf? n <|> signedOf? n) = some v) : v.type = .unsigned := by
  rw [Option.orElse_eq_orElse, Option.orElse_eq_or, Option.or_eq_some_iff] at h
  rcases h with h | ⟨hnone, h⟩
  · exact type_of_unsignedOf? h
  · obtain ⟨hbound, -⟩ := Option.ite_none_right_eq_some.mp h
    unfold unsignedOf? at hnone
    rw [if_pos ⟨hn, by omega⟩] at hnone
    cases hnone

end Scalar

/-- Expressions that are equal are the same if their literals are of one type. -/
theorem Expr.Same.of_equal {x y : Expr} (h : Structural.equal x y = true)
    (htype : ∀ v w, x.fold.scalar? = some v → y.fold.scalar? = some w → v.type = w.type) :
    Same x y := by
  refine ⟨h, ?_⟩
  have hsome := scalar?_of_sameAs h
  cases hx : x.fold.scalar? with
  | none =>
    rw [hx] at hsome
    exact (Option.isSome_eq_false_iff.mp hsome.symm |> Option.isNone_iff_eq_none.mp).symm
  | some v =>
    rw [hx] at hsome
    obtain ⟨w, hy⟩ := Option.isSome_iff_exists.mp hsome.symm
    have hsame : v.sameAs w = true := by
      unfold Structural.equal at h
      cases hfold : x.fold <;> rw [hfold] at hx h <;> cases hx
      cases hfold' : y.fold <;> rw [hfold'] at hy h <;> cases hy
      exact h
    rw [hy, Scalar.eq_of_sameAs hsame (htype v w hx hy)]

/-- **An operator other than subtraction gives a literal of the type of its operands.** -/
theorem BinaryOp.type_of_eval? {op : BinaryOp} (hop : op ≠ .sub) {a b v : Scalar}
    (htype : b.type = a.type) (h : op.eval? a b = some v) : v.type = a.type := by
  unfold eval? at h
  split at h
  · next m n hm hn =>
    obtain ⟨f, hf, h⟩ := Option.bind_eq_some_iff.mp h
    cases a with
    | int i => exact Scalar.type_of_signedOf? h
    | unsigned i =>
      cases b with
      | unsigned j =>
        cases hm
        cases hn
        -- sums and products of numbers that are not negative are not negative
        have hnonneg : 0 ≤ f i.toNat j.toNat := by
          cases op <;> cases hf
          · exact Int.add_nonneg (Int.natCast_nonneg _) (Int.natCast_nonneg _)
          · exact absurd rfl hop
          · exact Int.mul_nonneg (Int.natCast_nonneg _) (Int.natCast_nonneg _)
        exact Scalar.type_of_orElse hnonneg h
      | _ => cases htype
    | _ => cases hm
  · split at h <;> cases h <;> rfl

/-- An operator before a literal of its own types gives a literal of that type. -/
theorem UnaryOp.type_of_eval? {op : UnaryOp} {a v : Scalar} (hunsigned : a.type ≠ .unsigned)
    (h : op.eval? a = some v) : v.type = a.type := by
  unfold eval? at h
  split at h
  · exact Scalar.type_of_signedOf? h
  · exact absurd rfl hunsigned
  · cases h
    rfl
  · cases h
    rfl
  · cases h

end DepSchema
