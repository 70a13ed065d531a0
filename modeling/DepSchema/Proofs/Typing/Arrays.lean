/-
DepSchema.Proofs.Typing.Arrays — the lengths of joined arrays add up.

The length of an array is not a number while it is checked. Each literal gives the number of its
elements, each join the sum of its two sides, and what comes out is an expression of the same shape
as the array, which the structural oracle folds and compares with the length asked for. Below 2^64
folding computes all these sums, so of the shape nothing is left but the number of the elements.
The elements are checked on the way, one after the other, and outside a rule input none of them
changes what the next one is checked against.

Main definition: `JoinedArray`. Main results: `GivesIf.bind`, `fold_length` and
`checkValue_joinedArray`.
-/
import DepSchema.Proofs.Oracle.Comparison
import DepSchema.Proofs.Oracle.Meaning
import DepSchema.Proofs.Dispatch.Instances
import DepSchema.Proofs.Typing.Discipline

namespace DepSchema

/-! ## §1. Checks one after the other. -/

/-- No rule input is read, and the substitution has a scope, as it always does in a run
(`Checking.Reachable.isOpen`). -/
structure Checking.Outer (s : Checking) : Prop where
  notReading : s.readingInput = false
  isOpen : s.substitution.scopes.frames ≠ []

namespace Check

variable {α β : Type} {c : Setting} {s : Checking}

/-- **Two steps outside a rule input find what each of them finds alone**, with an oracle that does
not remember. -/
theorem GivesIf.bind (hc : c.oracle.Forgetful) (hs : s.Outer) {x : Check α} {f : α → Check β}
    {p q : Prop} {a : α} {b : β} (hx : GivesIf c s x p a) (hf : GivesIf c s (f a) q b)
    (hfirst : StepwiseInside false x) (hsecond : StepwiseInside false (f a)) :
    GivesIf c s (x >>= f) (p ∧ q) b := by
  refine hx.seq fun u hrun => ?_
  have hstill := hfirst.quiet.still_of_run hs.isOpen hrun
  have hagrees : s.Agrees u :=
    ⟨hstill.scopes hs.notReading, hstill.substitution, hstill.readingInput⟩
  intro b'
  rw [(hsecond.stepwise.forgets hc s u hagrees).1]
  exact hf b'

end Check

/-! ## §2. Arrays joined from literals. -/

/-- Between unsigned literals an operator gives an unsigned one if it can. -/
theorem BinaryOp.eval?_of_isUnsigned {op : BinaryOp} {f : Int → Int → Int} {a b v : Scalar}
    {m n : Int} (hop : op.onIntegers? = some f) (ha : a.integer? = some m)
    (hb : b.integer? = some n) (hua : a.isUnsigned = true) (hub : b.isUnsigned = true)
    (hv : Scalar.unsignedOf? (f m n) = some v) : op.eval? a b = some v := by
  simp [eval?, ha, hb, hop, hua, hub, hv]

/-- Two unsigned literals have an unsigned sum as long as it is below 2^64. -/
theorem BinaryOp.eval?_add_unsigned {m n : UInt64} (h : m.toNat + n.toNat < 2 ^ 64) :
    ∃ v : UInt64, BinaryOp.add.eval? (.unsigned m) (.unsigned n) = some (.unsigned v)
      ∧ v.toNat = m.toNat + n.toNat := by
  have hfits : (0 : Int) ≤ m.toNat + n.toNat ∧ (m.toNat + n.toNat : Int) < 0x10000000000000000 := by
    omega
  obtain ⟨v, hv⟩ : ∃ v : UInt64, Scalar.unsignedOf? (m.toNat + n.toNat) = some (.unsigned v) :=
    ⟨_, if_pos hfits⟩
  have hvalue := Option.some.inj (Scalar.integer?_of_unsignedOf? hv)
  exact ⟨v, eval?_of_isUnsigned rfl rfl rfl rfl rfl hv, by omega⟩

/-- An array that is written as a literal, or joined from two such arrays. -/
inductive JoinedArray where
  | literal (span : Span) (elements : List Expr)
  | union (span : Span) (left right : JoinedArray)

namespace JoinedArray

/-- The array as an expression. -/
def toExpr : JoinedArray → Expr
  | literal span es => .collection span es
  | union span l r => .binary span .union l.toExpr r.toExpr

/-- The elements of all literals, from left to right. -/
def elements : JoinedArray → List Expr
  | literal _ es => es
  | union _ l r => l.elements ++ r.elements

/-- The length as the check builds it: a sum of the same shape as the array. -/
def length : JoinedArray → Expr
  | literal span es => Typing.literalLength span es
  | union span l r => .binary span .add l.length r.length

/-- **The length is folded to the number of the elements**, whatever the shape of the array. -/
theorem fold_length (t : JoinedArray) (h : t.elements.length < 2 ^ 64) :
    ∃ v : UInt64, t.length.fold.scalar? = some (.unsigned v) ∧ v.toNat = t.elements.length := by
  induction t with
  | literal span es =>
    have hlt : (literal span es).elements.length < UInt64.size := by
      simp only [UInt64.size]
      omega
    exact ⟨_, rfl, UInt64.toNat_ofNat_of_lt' hlt⟩
  | union span l r ihl ihr =>
    have hsum : (union span l r).elements.length = l.elements.length + r.elements.length :=
      List.length_append
    rw [hsum] at h ⊢
    obtain ⟨m, hl, hm⟩ := ihl (by omega)
    obtain ⟨n, hr, hn⟩ := ihr (by omega)
    obtain ⟨v, hadd, hv⟩ := BinaryOp.eval?_add_unsigned (m := m) (n := n) (by omega)
    refine ⟨v, ?_, by omega⟩
    show (Expr.evalBinary span .add l.length.fold r.length.fold).scalar? = _
    rw [Expr.scalar?_evalBinary, hl, hr, Option.bind_some, Option.bind_some, hadd]

/-- The structural oracle compares the length with a literal as numbers. -/
theorem equal_length_iff (t : JoinedArray) (h : t.elements.length < 2 ^ 64) (span : Span)
    (length : UInt64) :
    Structural.equal (.scalar span (.unsigned length)) t.length = true
      ↔ t.elements.length = length.toNat := by
  obtain ⟨v, hfold, hv⟩ := t.fold_length h
  show (Expr.scalar span (.unsigned length)).sameAs t.length.fold = true ↔ _
  cases hlength : t.length.fold with
  | scalar span' w =>
    rw [hlength] at hfold
    cases hfold
    show ((length.toNat : Int) == v.toNat) = true ↔ _
    rw [beq_iff_eq, Nat.cast_inj, hv, eq_comm]
  | _ =>
    rw [hlength] at hfold
    cases hfold

end JoinedArray

/-! ## §3. The check. -/

namespace Typing

open Check

variable {c : Setting} {s : Checking}

/-- The elements of a collection pass together exactly if each of them passes alone. -/
theorem givesIf_checkElements (hc : c.oracle.Forgetful) (hs : s.Outer) (element : TypeExpr)
    (es : List Expr) :
    GivesIf c s (checkElements es element)
      (∀ e ∈ es, (checkValue e element c s).1 = .ok ()) () := by
  induction es with
  | nil => exact (GivesIf.pure ()).congr (iff_of_true trivial (List.forall_mem_nil _))
  | cons e es ih =>
    show GivesIf c s (checkValue e element >>= fun _ => checkElements es element) _ ()
    rw [List.forall_mem_cons]
    exact GivesIf.bind hc hs (.passing _) ih (stepwise_checkValue _ _) (stepwise_checkElements _ _)

/-- The two sides of a joined array have their lengths before anything else is done. -/
theorem givesIf_sides (hc : c.oracle.Forgetful) (hs : s.Outer) {l r left right : Expr}
    {element : TypeExpr} {p q u : Prop} {α : Type} {f : Expr → Expr → Check α} {a : α}
    (hl : GivesIf c s (lengthOf l element) p left) (hr : GivesIf c s (lengthOf r element) q right)
    (hlast : GivesIf c s (f left right) u a)
    (hf : ∀ left right, StepwiseInside false (f left right)) :
    GivesIf c s (do let left ← lengthOf l element; let right ← lengthOf r element; f left right)
      ((p ∧ q) ∧ u) a := by
  rw [and_assoc]
  refine hl.bind hc hs (hr.bind hc hs hlast ?_ ?_) ?_ ?_
  · exact stepwise_lengthOf r element
  · exact hf _ _
  · exact stepwise_lengthOf l element
  · exact (stepwise_lengthOf r element).bind fun _ => hf _ _

/-- A joined array has a length if all its elements pass, and that is the sum of its shape. -/
theorem givesIf_lengthOf (hc : c.oracle.Forgetful) (hs : s.Outer) (element : TypeExpr)
    (t : JoinedArray) :
    GivesIf c s (lengthOf t.toExpr element)
      (∀ e ∈ t.elements, (checkValue e element c s).1 = .ok ()) t.length := by
  induction t with
  | literal span es =>
    have hlength := (givesIf_checkElements hc hs element es).bind hc hs
      (f := fun _ => pure (literalLength span es)) (.pure _) (stepwise_checkElements _ _) (.pure _)
    exact hlength.congr (and_iff_left trivial)
  | union span l r ihl ihr =>
    have hlength := givesIf_sides hc hs
      (f := fun left right => pure (Expr.binary span .add left right)) ihl ihr (.pure _)
      fun _ _ => .pure _
    exact hlength.congr ((and_iff_left trivial).trans List.forall_mem_append.symm)

theorem settles_requireLength (hc : c.oracle = Structural.oracle) (expected got : Expr)
    (span : Span) :
    Settles c (requireLength expected got span) () (Structural.equal expected got = true) := by
  unfold requireLength
  refine (Settles.bind (q := True) (.askEqual hc expected got) ?_ ?_).congr (and_iff_left trivial)
  · intro answer hanswer
    rw [Bool.eq_false_of_not_eq_true hanswer]
    exact fun _ => ⟨nofun, False.elim⟩
  · exact fun _ => (Gives.pure ()).settles

/-- **The lengths of joined arrays add up.** An array that is joined from literals with fewer than
2^64 elements altogether, in whatever shape, passes against the type of arrays of a given length
exactly if every element passes against the type of the elements and there are as many of them as
asked for. This holds wherever no rule input is read. -/
theorem checkValue_joinedArray (schema : Schema) (s : Checking) (hs : s.Outer) (t : JoinedArray)
    (ht : t.elements.length < 2 ^ 64) (element : TypeExpr) (length : UInt64)
    (place nameSpan lengthSpan : Span) :
    (checkValue t.toExpr
        ⟨place, ⟨.array, nameSpan⟩, [element.toExpr, .scalar lengthSpan (.unsigned length)]⟩
        ⟨schema, Structural.oracle⟩ s).1 = .ok ()
      ↔ (∀ e ∈ t.elements, (checkValue e element ⟨schema, Structural.oracle⟩ s).1 = .ok ())
        ∧ t.elements.length = length.toNat := by
  have hc : (Setting.mk schema Structural.oracle).oracle.Forgetful := Structural.forgetful
  have hrequire := fun span => (settles_requireLength (c := ⟨schema, Structural.oracle⟩) rfl
    (.scalar lengthSpan (.unsigned length)) t.length span).givesIf (s := s)
  rw [← t.equal_length_iff ht lengthSpan length]
  cases t with
  | literal span es =>
    have helements := givesIf_checkElements hc hs element es
    exact (helements.bind hc hs (hrequire span) (stepwise_checkElements _ _)
      (stepwise_requireLength _ _ _)).passes_iff
  | union span l r =>
    have hsides := givesIf_sides hc hs (givesIf_lengthOf hc hs element l)
      (givesIf_lengthOf hc hs element r) (hrequire span) fun _ _ => stepwise_requireLength _ _ _
    exact (hsides.congr (and_congr_left' List.forall_mem_append.symm)).passes_iff

namespace Example

/-- The number 1, as an expression. -/
def one : Expr := .scalar ⟨0, 0⟩ (.int 1)

/-- The array `[1] \/ ([1, 1] \/ [])`. -/
def joined : JoinedArray :=
  .union ⟨0, 0⟩ (.literal ⟨0, 0⟩ [one])
    (.union ⟨0, 0⟩ (.literal ⟨0, 0⟩ [one, one]) (.literal ⟨0, 0⟩ []))

/-- The type of arrays of three numbers. -/
def threeNumbers : TypeExpr :=
  ⟨⟨0, 0⟩, ⟨.array, ⟨0, 0⟩⟩,
    [(TypeExpr.builtin .int ⟨0, 0⟩).toExpr, .scalar ⟨0, 0⟩ (.unsigned 3)]⟩

end Example

/-- Three numbers in three literals pass as an array of three numbers. -/
theorem checkValue_joinedArray_three :
    Checking.start.Outer ∧ Example.joined.elements.length < 2 ^ 64
      ∧ (checkValue Example.joined.toExpr Example.threeNumbers ⟨.empty, Structural.oracle⟩
        .start).1 = .ok () := by
  have hstart : Checking.start.Outer := ⟨rfl, List.cons_ne_nil _ _⟩
  have hlength : Example.joined.elements.length < 2 ^ 64 := by decide
  refine ⟨hstart, hlength, ?_⟩
  refine (checkValue_joinedArray .empty .start hstart Example.joined hlength
    (.builtin .int ⟨0, 0⟩) 3 ⟨0, 0⟩ ⟨0, 0⟩ ⟨0, 0⟩).mpr ⟨?_, rfl⟩
  intro e he
  have hone : e = Example.one := by simpa [Example.joined, JoinedArray.elements] using he
  rw [hone]
  rfl

end Typing

end DepSchema
