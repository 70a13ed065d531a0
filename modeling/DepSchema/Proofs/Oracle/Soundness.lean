/-
DepSchema.Proofs.Oracle.Soundness — a positive answer of the structural oracle is right.

Folding keeps the value of an expression, so it is enough that expressions which are the same but
for places have the same value. For constructed values this is a matter of counting: each field of
the first has an equal among those of the second, and there are as many, so the second has no
others. That needs the fields of the first to have different names; the second may be anything.

Main result: `oracle_sound`, for all interpretations and all values of the variables.
-/
import DepSchema.Proofs.Oracle.Meaning

namespace DepSchema

/-! ## §1. Expressions that name no field twice. -/

namespace Expr

mutual

/-- No constructed value inside the expression names a field twice. -/
def fieldsDistinct : Expr → Bool
  | binary _ _ l r => fieldsDistinct l && fieldsDistinct r
  | unary _ _ x => fieldsDistinct x
  | type _ _ ps => allFieldsDistinct ps
  | access _ => true
  | scalar _ _ => true
  | constructed _ _ fs => decide (fs.map fun f => f.name.name).Nodup && valuesFieldsDistinct fs
  | collection _ es => allFieldsDistinct es
  | call _ _ as => allFieldsDistinct as
termination_by structural e => e

/-- No constructed value inside the expressions names a field twice. -/
def allFieldsDistinct : List Expr → Bool
  | [] => true
  | e :: es => fieldsDistinct e && allFieldsDistinct es
termination_by structural es => es

/-- No constructed value inside the values of the fields names a field twice. -/
def valuesFieldsDistinct : List (Named Expr) → Bool
  | [] => true
  | f :: fs => fieldsDistinct f.val && valuesFieldsDistinct fs
termination_by structural fs => fs

end

theorem valuesFieldsDistinct_iff {fs : List (Named Expr)} :
    valuesFieldsDistinct fs = true ↔ ∀ f ∈ fs, f.val.fieldsDistinct = true := by
  induction fs with
  | nil => simp [valuesFieldsDistinct]
  | cons f fs ih => simp [valuesFieldsDistinct, ih]

theorem fieldsDistinct_evalBinary {span : Span} {op : BinaryOp} {l r : Expr}
    (hl : l.fieldsDistinct = true) (hr : r.fieldsDistinct = true) :
    (evalBinary span op l r).fieldsDistinct = true := by
  unfold evalBinary
  split
  · split
    · rfl
    · simp [fieldsDistinct, hl, hr]
  · simp [fieldsDistinct, hl, hr]

theorem fieldsDistinct_evalUnary {span : Span} {op : UnaryOp} {x : Expr}
    (hx : x.fieldsDistinct = true) : (evalUnary span op x).fieldsDistinct = true := by
  unfold evalUnary
  split
  · rfl
  · simpa [fieldsDistinct] using hx

theorem names_foldFields (fs : List (Named Expr)) :
    (foldFields fs).map (fun f => f.name.name) = fs.map fun f => f.name.name := by
  induction fs with
  | nil => rfl
  | cons f fs ih => rw [foldFields, List.map_cons, List.map_cons, ih]

mutual

/-- Folding keeps the names of fields. -/
theorem fieldsDistinct_fold :
    ∀ {e : Expr}, e.fieldsDistinct = true → e.fold.fieldsDistinct = true
  | .binary _ _ _ _, h => by
    simp only [fieldsDistinct, Bool.and_eq_true] at h
    exact fieldsDistinct_evalBinary (fieldsDistinct_fold h.1) (fieldsDistinct_fold h.2)
  | .unary _ _ _, h => fieldsDistinct_evalUnary (fieldsDistinct_fold h)
  | .type _ _ _, h => allFieldsDistinct_foldAll h
  | .access _, _ => rfl
  | .scalar _ _, _ => rfl
  | .constructed _ _ fs, h => by
    simp only [fieldsDistinct, Bool.and_eq_true, fold] at h ⊢
    rw [names_foldFields fs]
    exact ⟨h.1, valuesFieldsDistinct_foldFields h.2⟩
  | .collection _ _, h => allFieldsDistinct_foldAll h
  | .call _ _ _, h => allFieldsDistinct_foldAll h

theorem allFieldsDistinct_foldAll :
    ∀ {es : List Expr}, allFieldsDistinct es = true → allFieldsDistinct (foldAll es) = true
  | [], _ => rfl
  | _ :: _, h => by
    simp only [allFieldsDistinct, Bool.and_eq_true, foldAll] at h ⊢
    exact ⟨fieldsDistinct_fold h.1, allFieldsDistinct_foldAll h.2⟩

theorem valuesFieldsDistinct_foldFields :
    ∀ {fs : List (Named Expr)},
      valuesFieldsDistinct fs = true → valuesFieldsDistinct (foldFields fs) = true
  | [], _ => rfl
  | _ :: _, h => by
    simp only [valuesFieldsDistinct, Bool.and_eq_true, foldFields] at h ⊢
    exact ⟨fieldsDistinct_fold h.1, valuesFieldsDistinct_foldFields h.2⟩

end

end Expr

/-! ## §2. Fields in any order. -/

/-- A list of different names that is contained in another one of the same length leaves out no
name of it. -/
theorem mem_of_subset_of_length {names others : List Symbol} (hn : names.Nodup)
    (hsub : names ⊆ others) (hlen : names.length = others.length) {n : Symbol} (h : n ∈ others) :
    n ∈ names := by
  have hperm : names.Perm others :=
    (List.subperm_of_subset hn hsub).perm_of_length_le hlen.ge
  exact hperm.mem_iff.mpr h

/-! ## §3. Sameness. -/

namespace Interpretation

variable {D : Type*} (I : Interpretation D) (ρ : Symbol → D)

theorem scalar_eq_of_sameAs {a b : Scalar} (h : a.sameAs b = true) : I.scalar a = I.scalar b := by
  unfold Scalar.sameAs at h
  split at h
  · next m n hm hn =>
    rw [I.scalar_of_integer? hm, I.scalar_of_integer? hn, eq_of_beq h]
  · split at h
    · rw [eq_of_beq h]
    · rw [eq_of_beq h]
    · rw [eq_of_beq h]
    · cases h

theorem access_eq_of_sameAs {a b : Access} (h : a.sameAs b = true) :
    I.access ρ a = I.access ρ b := by
  simp only [Access.sameAs, Bool.and_eq_true, beq_iff_eq] at h
  rw [access, access, h.1, h.2]

theorem evalFields_eq_find? (fs : List (Named Expr)) (name : Symbol) :
    I.evalFields ρ fs name = (Named.find? fs name).map (I.eval ρ) := by
  induction fs with
  | nil => rfl
  | cons f fs ih =>
    rw [evalFields, ih]
    unfold Named.find?
    by_cases h : f.name.name = name <;> simp [h]

/-- Fields with equal values under the same names have the same values by name, if they are as
many. -/
theorem evalFields_eq_of_forall {fs others : List (Named Expr)}
    (hn : (fs.map fun f => f.name.name).Nodup) (hlen : fs.length = others.length)
    (h : ∀ f ∈ fs, ∃ value, Named.find? others f.name.name = some value
      ∧ I.eval ρ f.val = I.eval ρ value) :
    I.evalFields ρ fs = I.evalFields ρ others := by
  -- as many different names on the left as fields on the right: the names are the same
  have hsub : fs.map (fun f => f.name.name) ⊆ others.map fun f => f.name.name := by
    intro name hname
    obtain ⟨f, hf, rfl⟩ := List.mem_map.mp hname
    obtain ⟨value, hvalue, -⟩ := h f hf
    exact Named.find?_isSome.mp (by rw [hvalue]; rfl)
  funext name
  rw [evalFields_eq_find?, evalFields_eq_find?]
  -- a name that is there has equal values, and one that is not is on neither side
  by_cases hname : name ∈ fs.map fun f => f.name.name
  · obtain ⟨f, hf, rfl⟩ := List.mem_map.mp hname
    obtain ⟨value, hvalue, heq⟩ := h f hf
    rw [Named.find?_of_mem hn hf, hvalue, Option.map_some, Option.map_some, heq]
  · have hother : name ∉ others.map fun f => f.name.name :=
      fun hmem => hname (mem_of_subset_of_length hn hsub (by simpa using hlen) hmem)
    rw [← Named.find?_isSome, Option.not_isSome_iff_eq_none] at hname hother
    rw [hname, hother]

mutual

/-- **Expressions that are the same but for places have the same value.** -/
theorem eval_eq_of_sameAs :
    ∀ {e e' : Expr}, e.fieldsDistinct = true → e.sameAs e' = true → I.eval ρ e = I.eval ρ e'
  | .binary _ _ _ _, e', hd, h => by
    cases e' with
    | binary =>
      simp only [Expr.sameAs, Expr.fieldsDistinct, Bool.and_eq_true, beq_iff_eq] at h hd
      rw [eval, eval, h.1.1, eval_eq_of_sameAs hd.1 h.1.2, eval_eq_of_sameAs hd.2 h.2]
    | _ => cases h
  | .unary _ _ x, e', hd, h => by
    cases e' with
    | unary =>
      simp only [Expr.sameAs, Bool.and_eq_true, beq_iff_eq] at h
      have hx : x.fieldsDistinct = true := hd
      rw [eval, eval, h.1, eval_eq_of_sameAs hx h.2]
    | _ => cases h
  | .type _ _ ps, e', hd, h => by
    cases e' with
    | type =>
      simp only [Expr.sameAs, Bool.and_eq_true, beq_iff_eq] at h
      have hps : Expr.allFieldsDistinct ps = true := hd
      rw [eval, eval, h.1, evalAll_eq_of_sameAs hps h.2]
    | _ => cases h
  | .access _, e', _, h => by
    cases e' with
    | access => exact I.access_eq_of_sameAs ρ h
    | _ => cases h
  | .scalar _ _, e', _, h => by
    cases e' with
    | scalar => exact I.scalar_eq_of_sameAs h
    | _ => cases h
  | .constructed _ _ _, e', hd, h => by
    cases e' with
    | constructed =>
      simp only [Expr.sameAs, Expr.fieldsDistinct, Bool.and_eq_true, beq_iff_eq,
        decide_eq_true_eq] at h hd
      -- fields are matched by name, so their order plays no part
      have hfields := evalFields_eq_of_forall I ρ hd.1 h.1.2 (forall_of_fieldsSameAs hd.2 h.2)
      rw [eval, eval, h.1.1, hfields]
    | _ => cases h
  | .collection _ es, e', hd, h => by
    cases e' with
    | collection =>
      have hes : Expr.allFieldsDistinct es = true := hd
      rw [eval, eval, evalAll_eq_of_sameAs hes h]
    | _ => cases h
  | .call _ _ as, e', hd, h => by
    cases e' with
    | call =>
      simp only [Expr.sameAs, Bool.and_eq_true, beq_iff_eq] at h
      have has : Expr.allFieldsDistinct as = true := hd
      rw [eval, eval, h.1, evalAll_eq_of_sameAs has h.2]
    | _ => cases h

theorem evalAll_eq_of_sameAs :
    ∀ {es es' : List Expr}, Expr.allFieldsDistinct es = true → Expr.allSameAs es es' = true →
      I.evalAll ρ es = I.evalAll ρ es'
  | [], es', _, h => by
    cases es' with
    | nil => rfl
    | cons => cases h
  | _ :: _, es', hd, h => by
    cases es' with
    | nil => cases h
    | cons =>
      simp only [Expr.allSameAs, Expr.allFieldsDistinct, Bool.and_eq_true] at h hd
      rw [evalAll, evalAll, eval_eq_of_sameAs hd.1 h.1, evalAll_eq_of_sameAs hd.2 h.2]

theorem forall_of_fieldsSameAs :
    ∀ {fs others : List (Named Expr)}, Expr.valuesFieldsDistinct fs = true →
      Expr.fieldsSameAs fs others = true → ∀ f ∈ fs, ∃ value,
        Named.find? others f.name.name = some value ∧ I.eval ρ f.val = I.eval ρ value
  | [], _, _, _ => by simp
  | f :: fs, others, hd, h => by
    simp only [Expr.fieldsSameAs, Expr.valuesFieldsDistinct, Bool.and_eq_true] at h hd
    refine List.forall_mem_cons.mpr ⟨?_, forall_of_fieldsSameAs hd.2 h.2⟩
    cases hfind : Named.find? others f.name.name with
    | none =>
      rw [hfind] at h
      cases h.1
    | some value =>
      rw [hfind] at h
      exact ⟨value, rfl, eval_eq_of_sameAs hd.1 h.1⟩

end

end Interpretation

/-! ## §4. The oracle. -/

theorem Structural.oracle_equal {past : List Query} {a b : Expr} {scope : Scopes Binding} :
    Structural.oracle past (.equal a b scope) = .ok (Structural.equal a b) := rfl

/-- **Where the structural oracle calls two expressions equal, they have the same value**, under
every interpretation and whatever their variables stand for. -/
theorem Structural.oracle_sound {D : Type*} (I : Interpretation D) (ρ : Symbol → D)
    {past : List Query} {a b : Expr} {scope : Scopes Binding} (ha : a.fieldsDistinct = true)
    (h : Structural.oracle past (.equal a b scope) = .ok true) : I.eval ρ a = I.eval ρ b := by
  rw [Structural.oracle_equal, Except.ok.injEq] at h
  -- folding keeps both values, and what is compared is folded
  calc I.eval ρ a = I.eval ρ a.fold := (I.eval_fold ρ a).symm
    _ = I.eval ρ b.fold := I.eval_eq_of_sameAs ρ (Expr.fieldsDistinct_fold ha) h
    _ = I.eval ρ b := I.eval_fold ρ b

/-! ## §5. The terms as an interpretation. -/

/-- Values, and terms for what has no value of its own. -/
inductive Term where
  | variable (name : Symbol)
  | integer (n : Int)
  | float (x : Binary64)
  | bool (b : Bool)
  | string (s : String)
  | constructed (ctor : Symbol) (fields : Symbol → Option Term)
  | collection (elements : List Term)
  | type (name : Symbol) (params : List Term)
  | call (function : Symbol) (args : List Term)
  | field (name : Symbol) (owner : Term)
  | binary (op : BinaryOp) (left right : Term)
  | unary (op : UnaryOp) (operand : Term)

namespace Term

/-- An operator computes between values and stands between terms. -/
def applyBinary : BinaryOp → Term → Term → Term
  | .add, integer m, integer n => integer (m + n)
  | .sub, integer m, integer n => integer (m - n)
  | .mul, integer m, integer n => integer (m * n)
  | .add, float x, float y => float (x.add y)
  | .sub, float x, float y => float (x.sub y)
  | .mul, float x, float y => float (x.mul y)
  | .div, float x, float y => float (x.div y)
  | .add, string s, string t => string (s ++ t)
  | .and, bool p, bool q => bool (p && q)
  | .or, bool p, bool q => bool (p || q)
  | op, l, r => binary op l r

/-- An operator computes on a value and stands before a term. -/
def applyUnary : UnaryOp → Term → Term
  | .neg, integer m => integer (-m)
  | .neg, float x => float x.neg
  | .not, bool p => bool !p
  | op, x => unary op x

/-- The interpretation that computes as little as it may. -/
def interpretation : Interpretation Term where
  integer := integer
  float := float
  bool := bool
  string := string
  constructed := constructed
  collection := collection
  type := type
  call := call
  field := field
  binary := applyBinary
  unary := applyUnary
  add_integer _ _ := rfl
  sub_integer _ _ := rfl
  mul_integer _ _ := rfl
  neg_integer _ := rfl
  add_float _ _ := rfl
  sub_float _ _ := rfl
  mul_float _ _ := rfl
  div_float _ _ := rfl
  neg_float _ := rfl
  add_string _ _ := rfl
  and_bool _ _ := rfl
  or_bool _ _ := rfl
  not_bool _ := rfl

end Term

namespace Structural

/-- An identifier of an example, with nowhere to stand. -/
def exampleIdent (n : UInt32) : Ident := ⟨⟨n⟩, ⟨0, 0⟩⟩

/-- The expression `P{x: 1u - 2u, y: n.f}`. -/
def examplePoint : Expr :=
  .constructed ⟨0, 0⟩ (exampleIdent 7)
    [⟨exampleIdent 8, .binary ⟨0, 0⟩ .sub (.scalar ⟨0, 0⟩ (.unsigned 1))
        (.scalar ⟨0, 0⟩ (.unsigned 2))⟩,
      ⟨exampleIdent 9, .access ⟨⟨0, 0⟩, exampleIdent 10, [exampleIdent 11]⟩⟩]

/-- The expression `P{y: n.f, x: -1}`. -/
def exampleOther : Expr :=
  .constructed ⟨0, 0⟩ (exampleIdent 7)
    [⟨exampleIdent 9, .access ⟨⟨0, 0⟩, exampleIdent 10, [exampleIdent 11]⟩⟩,
      ⟨exampleIdent 8, .scalar ⟨0, 0⟩ (.int (-1))⟩]

/-- The two points are called equal, so they have the same value among the terms. -/
theorem oracle_sound_points :
    examplePoint.fieldsDistinct = true
      ∧ oracle [] (.equal examplePoint exampleOther Scopes.none) = .ok true
      ∧ Term.interpretation.eval Term.variable examplePoint
        = Term.interpretation.eval Term.variable exampleOther := by
  have hdistinct : examplePoint.fieldsDistinct = true := by decide
  have hequal : oracle [] (.equal examplePoint exampleOther Scopes.none) = .ok true := by
    rw [oracle_equal]
    exact congrArg Except.ok (by decide)
  exact ⟨hdistinct, hequal, oracle_sound Term.interpretation Term.variable hdistinct hequal⟩

end Structural

end DepSchema
