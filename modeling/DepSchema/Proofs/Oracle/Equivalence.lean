/-
DepSchema.Proofs.Oracle.Equivalence — being the same is having the same content.

Two expressions are compared field by field, where each field of the first is looked up in the
second. That looks one-sided; but among different names it is an equality: of what is left of an
expression when its places are forgotten, its integers are numbers and its fields are found by
name. As many different names on both sides, and each of the first among those of the second, are
the same names. An equality is an equivalence, and what the content does not hold cannot matter:
places, and the order of fields at any depth.

Main definitions: `Expr.content` and `Expr.Rearranged`. Main results: `sameAs_iff_content`,
`Rearranged.content_eq` and `sameAs_equivalence`.
-/
import DepSchema.Proofs.Oracle.Soundness

namespace DepSchema

/-! ## §1. Contents. -/

/-- A literal, where an integer is a number. -/
def Scalar.content (v : Scalar) : Int ⊕ Scalar :=
  match v.integer? with
  | some n => .inl n
  | none => .inr v

theorem Scalar.sameAs_iff_content {v w : Scalar} : v.sameAs w = true ↔ v.content = w.content := by
  cases v <;> cases w <;> simp [sameAs, content, integer?]

/-- What is left of an expression when its places are forgotten. The fields of a constructed value
are known by their names. -/
inductive Content where
  | binary (op : BinaryOp) (left right : Content)
  | unary (op : UnaryOp) (operand : Content)
  | type (name : Symbol) (params : List Content)
  | access (var : Symbol) (fields : List Symbol)
  | scalar (value : Int ⊕ Scalar)
  | constructed (ctor : Symbol) (fields : Symbol → Option Content)
  | collection (elements : List Content)
  | call (function : Symbol) (args : List Content)

namespace Expr

mutual

/-- The content of an expression. -/
def content : Expr → Content
  | binary _ op l r => .binary op (content l) (content r)
  | unary _ op x => .unary op (content x)
  | type _ i ps => .type i.name (contents ps)
  | access a => .access a.var.name (a.fields.map Ident.name)
  | scalar _ v => .scalar v.content
  | constructed _ c fs => .constructed c.name (fieldContents fs)
  | collection _ es => .collection (contents es)
  | call _ f as => .call f.name (contents as)
termination_by structural e => e

/-- The contents of several expressions. -/
def contents : List Expr → List Content
  | [] => []
  | e :: es => content e :: contents es
termination_by structural es => es

/-- The contents of the values of several fields, by name. -/
def fieldContents : List (Named Expr) → Symbol → Option Content
  | [] => fun _ => none
  | f :: fs => fun name =>
    if f.name.name = name then some (content f.val) else fieldContents fs name
termination_by structural fs => fs

end

theorem fieldContents_eq_find? (fs : List (Named Expr)) (name : Symbol) :
    fieldContents fs name = (Named.find? fs name).map content := by
  induction fs with
  | nil => rfl
  | cons f fs ih =>
    rw [fieldContents, Named.find?_cons]
    dsimp only
    rw [ih]
    split <;> rfl

theorem isSome_fieldContents {fs : List (Named Expr)} {name : Symbol} :
    (fieldContents fs name).isSome ↔ name ∈ fs.map fun f => f.name.name := by
  rw [fieldContents_eq_find?, Option.isSome_map, Named.find?_isSome]

theorem fieldContents_of_mem {fs : List (Named Expr)} {f : Named Expr}
    (hn : (fs.map fun f => f.name.name).Nodup) (hf : f ∈ fs) :
    fieldContents fs f.name.name = some f.val.content := by
  rw [fieldContents_eq_find?, Named.find?_of_mem hn hf, Option.map_some]

/-- **Fields that are each found on the other side are the same fields by name**, if there are as
many of them and no name is repeated. -/
theorem fieldContents_eq_iff {fs gs : List (Named Expr)}
    (hfs : (fs.map fun f => f.name.name).Nodup) (hgs : (gs.map fun g => g.name.name).Nodup) :
    fieldContents fs = fieldContents gs ↔ fs.length = gs.length
      ∧ ∀ f ∈ fs, fieldContents gs f.name.name = some f.val.content := by
  constructor
  · intro heq
    have hnames : ∀ name, name ∈ fs.map (fun f => f.name.name)
        ↔ name ∈ gs.map fun g => g.name.name := by
      intro name
      rw [← isSome_fieldContents, heq, isSome_fieldContents]
    have hperm := (List.perm_ext_iff_of_nodup hfs hgs).mpr hnames
    refine ⟨by simpa using hperm.length_eq, fun f hf => ?_⟩
    rw [← heq, fieldContents_of_mem hfs hf]
  · rintro ⟨hlength, hall⟩
    have hsub : fs.map (fun f => f.name.name) ⊆ gs.map fun g => g.name.name := by
      intro name hname
      obtain ⟨f, hf, rfl⟩ := List.mem_map.mp hname
      exact isSome_fieldContents.mp (by rw [hall f hf]; rfl)
    funext name
    by_cases hname : name ∈ fs.map fun f => f.name.name
    · obtain ⟨f, hf, rfl⟩ := List.mem_map.mp hname
      rw [fieldContents_of_mem hfs hf, hall f hf]
    · -- as many names on both sides: none of the second is left over
      have hother : name ∉ gs.map fun g => g.name.name :=
        fun hmem => hname (mem_of_subset_of_length hfs hsub (by simpa using hlength) hmem)
      rw [← isSome_fieldContents, Option.not_isSome_iff_eq_none] at hname hother
      rw [hname, hother]

/-- The order of fields does not show in their contents. -/
theorem fieldContents_perm {fs gs : List (Named Expr)} (h : fs.Perm gs)
    (hfs : (fs.map fun f => f.name.name).Nodup) : fieldContents fs = fieldContents gs := by
  have hgs : (gs.map fun g => g.name.name).Nodup := (h.map _).nodup_iff.mp hfs
  exact (fieldContents_eq_iff hfs hgs).mpr
    ⟨h.length_eq, fun f hf => fieldContents_of_mem hgs (h.mem_iff.mp hf)⟩

/-! ## §2. Being the same. -/

theorem Access.sameAs_iff {a b : Access} : a.sameAs b = true
    ↔ a.var.name = b.var.name ∧ a.fields.map Ident.name = b.fields.map Ident.name := by
  simp [Access.sameAs]

mutual

/-- **Expressions are the same exactly when they have the same content.** -/
theorem sameAs_iff_content : ∀ {a b : Expr}, a.fieldsDistinct = true → b.fieldsDistinct = true →
    (a.sameAs b = true ↔ a.content = b.content)
  | .binary _ _ l r, b, ha, hb => by
    cases b with
    | binary _ _ l' r' =>
      simp only [fieldsDistinct, Bool.and_eq_true] at ha hb
      simp [sameAs, content, sameAs_iff_content ha.1 hb.1, sameAs_iff_content ha.2 hb.2, and_assoc]
    | _ => simp [sameAs, content]
  | .unary _ _ x, b, ha, hb => by
    cases b with
    | unary _ _ y =>
      have hx : x.sameAs y = true ↔ _ := sameAs_iff_content ha hb
      simp [sameAs, content, hx]
    | _ => simp [sameAs, content]
  | .type _ _ ps, b, ha, hb => by
    cases b with
    | type _ _ qs =>
      have hps : allSameAs ps qs = true ↔ _ := allSameAs_iff_contents ha hb
      simp [sameAs, content, hps]
    | _ => simp [sameAs, content]
  | .access _, b, _, _ => by
    cases b with
    | access => simp [sameAs, content, Access.sameAs_iff]
    | _ => simp [sameAs, content]
  | .scalar _ _, b, _, _ => by
    cases b with
    | scalar => simp [sameAs, content, Scalar.sameAs_iff_content]
    | _ => simp [sameAs, content]
  | .constructed _ _ fs, b, ha, hb => by
    cases b with
    | constructed _ _ gs =>
      simp only [fieldsDistinct, Bool.and_eq_true, decide_eq_true_eq] at ha hb
      simp [sameAs, content, fieldContents_eq_iff ha.1 hb.1, fieldsSameAs_iff_contents ha.2 hb.2,
        and_assoc]
    | _ => simp [sameAs, content]
  | .collection _ es, b, ha, hb => by
    cases b with
    | collection _ qs =>
      have hes : allSameAs es qs = true ↔ _ := allSameAs_iff_contents ha hb
      simp [sameAs, content, hes]
    | _ => simp [sameAs, content]
  | .call _ _ as, b, ha, hb => by
    cases b with
    | call _ _ qs =>
      have has : allSameAs as qs = true ↔ _ := allSameAs_iff_contents ha hb
      simp [sameAs, content, has]
    | _ => simp [sameAs, content]

theorem allSameAs_iff_contents : ∀ {es qs : List Expr}, allFieldsDistinct es = true →
    allFieldsDistinct qs = true → (allSameAs es qs = true ↔ contents es = contents qs)
  | [], qs, _, _ => by cases qs <;> simp [allSameAs, contents]
  | e :: es, qs, hes, hqs => by
    cases qs with
    | nil => simp [allSameAs, contents]
    | cons q qs =>
      simp only [allFieldsDistinct, Bool.and_eq_true] at hes hqs
      simp [allSameAs, contents, sameAs_iff_content hes.1 hqs.1, allSameAs_iff_contents hes.2 hqs.2]

theorem fieldsSameAs_iff_contents : ∀ {fs gs : List (Named Expr)}, valuesFieldsDistinct fs = true →
    valuesFieldsDistinct gs = true → (fieldsSameAs fs gs = true
      ↔ ∀ f ∈ fs, fieldContents gs f.name.name = some f.val.content)
  | [], _, _, _ => by simp [fieldsSameAs]
  | f :: fs, gs, hfs, hgs => by
    simp only [valuesFieldsDistinct, Bool.and_eq_true] at hfs
    rw [fieldsSameAs, Bool.and_eq_true, List.forall_mem_cons,
      fieldsSameAs_iff_contents hfs.2 hgs, fieldContents_eq_find?]
    refine and_congr_left fun _ => ?_
    cases hfind : Named.find? gs f.name.name with
    | none => simp
    | some value =>
      obtain ⟨g, hg, -, rfl⟩ := Named.exists_of_find? hfind
      simp [sameAs_iff_content hfs.1 (valuesFieldsDistinct_iff.mp hgs g hg), eq_comm]

end

/-! ## §3. Other places, another order. -/

mutual

/-- The second expression is the first at other places and with the fields of constructed values in
another order, at any depth. -/
inductive Rearranged : Expr → Expr → Prop
  | binary {s s' : Span} {op : BinaryOp} {l l' r r' : Expr} (hl : Rearranged l l')
      (hr : Rearranged r r') : Rearranged (.binary s op l r) (.binary s' op l' r')
  | unary {s s' : Span} {op : UnaryOp} {x x' : Expr} (hx : Rearranged x x') :
      Rearranged (.unary s op x) (.unary s' op x')
  | type {s s' : Span} {i i' : Ident} {ps ps' : List Expr} (hname : i.name = i'.name)
      (hparams : AllRearranged ps ps') : Rearranged (.type s i ps) (.type s' i' ps')
  | access {a a' : Access} (hvar : a.var.name = a'.var.name)
      (hfields : a.fields.map Ident.name = a'.fields.map Ident.name) :
      Rearranged (.access a) (.access a')
  | scalar {s s' : Span} {v : Scalar} : Rearranged (.scalar s v) (.scalar s' v)
  | constructed {s s' : Span} {c c' : Ident} {fs gs fs' : List (Named Expr)}
      (hname : c.name = c'.name) (hvalues : ValuesRearranged fs gs) (horder : gs.Perm fs') :
      Rearranged (.constructed s c fs) (.constructed s' c' fs')
  | collection {s s' : Span} {es es' : List Expr} (helements : AllRearranged es es') :
      Rearranged (.collection s es) (.collection s' es')
  | call {s s' : Span} {f f' : Ident} {as as' : List Expr} (hname : f.name = f'.name)
      (hargs : AllRearranged as as') : Rearranged (.call s f as) (.call s' f' as')

/-- The same for several expressions, one by one. -/
inductive AllRearranged : List Expr → List Expr → Prop
  | nil : AllRearranged [] []
  | cons {e e' : Expr} {es es' : List Expr} (hfirst : Rearranged e e')
      (hrest : AllRearranged es es') : AllRearranged (e :: es) (e' :: es')

/-- The same for the values of fields of the same names. -/
inductive ValuesRearranged : List (Named Expr) → List (Named Expr) → Prop
  | nil : ValuesRearranged [] []
  | cons {f f' : Named Expr} {fs fs' : List (Named Expr)} (hname : f.name.name = f'.name.name)
      (hvalue : Rearranged f.val f'.val) (hrest : ValuesRearranged fs fs') :
      ValuesRearranged (f :: fs) (f' :: fs')

end

theorem ValuesRearranged.names {fs gs : List (Named Expr)} (h : ValuesRearranged fs gs) :
    fs.map (fun f => f.name.name) = gs.map fun g => g.name.name := by
  induction fs generalizing gs with
  | nil =>
    cases h
    rfl
  | cons f fs ih =>
    cases h with
    | cons hname _ hrest => rw [List.map_cons, List.map_cons, hname, ih hrest]

mutual

/-- No name of a field comes to stand twice. -/
theorem Rearranged.fieldsDistinct : ∀ {a a' : Expr}, Rearranged a a' → a.fieldsDistinct = true →
    a'.fieldsDistinct = true
  | _, _, .binary hl hr, h => by
    simp only [Expr.fieldsDistinct, Bool.and_eq_true] at h ⊢
    exact ⟨hl.fieldsDistinct h.1, hr.fieldsDistinct h.2⟩
  | _, _, .unary hx, h => hx.fieldsDistinct (a := _) h
  | _, _, .type _ hparams, h => hparams.fieldsDistinct h
  | _, _, .access _ _, _ => rfl
  | _, _, .scalar, _ => rfl
  | _, _, .constructed _ hvalues horder, h => by
    simp only [Expr.fieldsDistinct, Bool.and_eq_true, decide_eq_true_eq] at h ⊢
    refine ⟨(horder.map _).nodup_iff.mp (hvalues.names ▸ h.1), ?_⟩
    have hgs := valuesFieldsDistinct_iff.mp (hvalues.fieldsDistinct h.2)
    exact valuesFieldsDistinct_iff.mpr fun f hf => hgs f (horder.mem_iff.mpr hf)
  | _, _, .collection helements, h => helements.fieldsDistinct h
  | _, _, .call _ hargs, h => hargs.fieldsDistinct h

theorem AllRearranged.fieldsDistinct : ∀ {es es' : List Expr}, AllRearranged es es' →
    allFieldsDistinct es = true → allFieldsDistinct es' = true
  | _, _, .nil, _ => rfl
  | _, _, .cons hfirst hrest, h => by
    simp only [allFieldsDistinct, Bool.and_eq_true] at h ⊢
    exact ⟨hfirst.fieldsDistinct h.1, hrest.fieldsDistinct h.2⟩

theorem ValuesRearranged.fieldsDistinct : ∀ {fs fs' : List (Named Expr)}, ValuesRearranged fs fs' →
    valuesFieldsDistinct fs = true → valuesFieldsDistinct fs' = true
  | _, _, .nil, _ => rfl
  | _, _, .cons _ hvalue hrest, h => by
    simp only [valuesFieldsDistinct, Bool.and_eq_true] at h ⊢
    exact ⟨hvalue.fieldsDistinct h.1, hrest.fieldsDistinct h.2⟩

end

mutual

/-- **An expression at other places and with its fields in another order has the same content.** -/
theorem Rearranged.content_eq : ∀ {a a' : Expr}, Rearranged a a' → a.fieldsDistinct = true →
    a.content = a'.content
  | _, _, .binary hl hr, h => by
    simp only [Expr.fieldsDistinct, Bool.and_eq_true] at h
    rw [content, content, hl.content_eq h.1, hr.content_eq h.2]
  | _, _, .unary hx, h => by
    rw [content, content, hx.content_eq h]
  | _, _, .type hname hparams, h => by
    rw [content, content, hname, hparams.contents_eq h]
  | _, _, .access hvar hfields, _ => by
    rw [content, content, hvar, hfields]
  | _, _, .scalar, _ => rfl
  | _, _, .constructed hname hvalues horder, h => by
    simp only [Expr.fieldsDistinct, Bool.and_eq_true, decide_eq_true_eq] at h
    rw [content, content, hname, hvalues.fieldContents_eq h.2,
      fieldContents_perm horder (hvalues.names ▸ h.1)]
  | _, _, .collection helements, h => by
    rw [content, content, helements.contents_eq h]
  | _, _, .call hname hargs, h => by
    rw [content, content, hname, hargs.contents_eq h]

theorem AllRearranged.contents_eq : ∀ {es es' : List Expr}, AllRearranged es es' →
    allFieldsDistinct es = true → contents es = contents es'
  | _, _, .nil, _ => rfl
  | _, _, .cons hfirst hrest, h => by
    simp only [allFieldsDistinct, Bool.and_eq_true] at h
    rw [contents, contents, hfirst.content_eq h.1, hrest.contents_eq h.2]

theorem ValuesRearranged.fieldContents_eq : ∀ {fs fs' : List (Named Expr)},
    ValuesRearranged fs fs' → valuesFieldsDistinct fs = true → fieldContents fs = fieldContents fs'
  | _, _, .nil, _ => rfl
  | _, _, .cons hname hvalue hrest, h => by
    simp only [valuesFieldsDistinct, Bool.and_eq_true] at h
    rw [fieldContents, fieldContents, hname, hvalue.content_eq h.1, hrest.fieldContents_eq h.2]

end

/-! ## §4. An equivalence. -/

/-- What is rearranged is compared as before. -/
theorem sameAs_congr {a a' b b' : Expr} (ha : a.fieldsDistinct = true)
    (ha' : a'.fieldsDistinct = true) (hb : b.fieldsDistinct = true)
    (hb' : b'.fieldsDistinct = true) (haa : a.content = a'.content) (hbb : b.content = b'.content) :
    a.sameAs b = a'.sameAs b' := by
  rw [Bool.eq_iff_iff, sameAs_iff_content ha hb, sameAs_iff_content ha' hb', haa, hbb]

/-- **Being the same is an equivalence of the expressions that name no field twice**, and places and
the order of fields do not matter to it: an expression that is rearranged, at any depth, is the same
as it was and as everything that it was the same as, on either side. -/
theorem sameAs_equivalence :
    Equivalence (fun a b : { e : Expr // e.fieldsDistinct = true } => a.val.sameAs b.val = true)
      ∧ ∀ a a' : Expr, a.fieldsDistinct = true → a.Rearranged a' → a.sameAs a' = true
        ∧ ∀ b : Expr, b.fieldsDistinct = true →
          a'.sameAs b = a.sameAs b ∧ b.sameAs a' = b.sameAs a := by
  constructor
  · -- the equality of contents, read off both sides
    have hiff : ∀ a b : { e : Expr // e.fieldsDistinct = true },
        a.val.sameAs b.val = true ↔ a.val.content = b.val.content :=
      fun a b => sameAs_iff_content a.property b.property
    refine ⟨fun a => (hiff a a).mpr rfl, fun {a b} hab => ?_, fun {a b c} hab hbc => ?_⟩
    · exact (hiff b a).mpr ((hiff a b).mp hab).symm
    · exact (hiff a c).mpr (((hiff a b).mp hab).trans ((hiff b c).mp hbc))
  · intro a a' ha hrearranged
    have ha' := hrearranged.fieldsDistinct ha
    have hcontent := hrearranged.content_eq ha
    refine ⟨(sameAs_iff_content ha ha').mpr hcontent, fun b hb => ⟨?_, ?_⟩⟩
    · exact sameAs_congr ha' ha hb hb hcontent.symm rfl
    · exact sameAs_congr hb hb ha' ha rfl hcontent.symm

/-! ## A value inside a value. -/

namespace Example

/-- The field of that name, at a place. -/
def given (span : Span) (name : UInt32) (value : Expr) : Named Expr := ⟨⟨⟨name⟩, span⟩, value⟩

/-- A value with two fields, at a place. -/
def pair (span : Span) (first second : Named Expr) : Expr :=
  .constructed span ⟨⟨7⟩, span⟩ [first, second]

theorem rearranged_pair {s s' : Span} {f f' g g' : Named Expr} (hf : f.name.name = f'.name.name)
    (hg : g.name.name = g'.name.name) (hfirst : Rearranged f.val f'.val)
    (hsecond : Rearranged g.val g'.val) : Rearranged (pair s f g) (pair s' g' f') :=
  .constructed rfl (.cons hf hfirst (.cons hg hsecond .nil)) (.swap _ _ _)

/-- The value `7{8: 7{8: 1, 9: n}, 9: 2}`, where `n` is the variable 10. -/
def nested (s : Span) : Expr :=
  pair s (given s 8 (pair s (given s 8 (.scalar s (.int 1))) (given s 9 (.ofVar ⟨⟨10⟩, s⟩))))
    (given s 9 (.scalar s (.int 2)))

/-- The same value with the field 9 first, inside and outside. -/
def turned (s : Span) : Expr :=
  pair s (given s 9 (.scalar s (.int 2)))
    (given s 8 (pair s (given s 9 (.ofVar ⟨⟨10⟩, s⟩)) (given s 8 (.scalar s (.int 1)))))

end Example

open Example

/-- A value that is turned around somewhere else is the same, also the other way around. -/
theorem sameAs_turned : (nested ⟨0, 1⟩).fieldsDistinct = true
    ∧ (turned ⟨2, 5⟩).fieldsDistinct = true ∧ (nested ⟨0, 1⟩).Rearranged (turned ⟨2, 5⟩)
    ∧ (nested ⟨0, 1⟩).sameAs (turned ⟨2, 5⟩) = true
    ∧ (turned ⟨2, 5⟩).sameAs (nested ⟨0, 1⟩) = true := by
  have hnested : (nested ⟨0, 1⟩).fieldsDistinct = true := by decide
  have hturned : (turned ⟨2, 5⟩).fieldsDistinct = true := by decide
  have hvar : Rearranged (.ofVar ⟨⟨10⟩, ⟨0, 1⟩⟩) (.ofVar ⟨⟨10⟩, ⟨2, 5⟩⟩) := .access rfl rfl
  have hturn : (nested ⟨0, 1⟩).Rearranged (turned ⟨2, 5⟩) :=
    rearranged_pair rfl rfl (rearranged_pair rfl rfl .scalar hvar) .scalar
  obtain ⟨hequivalence, hrearranged⟩ := sameAs_equivalence
  have hsame := (hrearranged _ _ hnested hturn).1
  exact ⟨hnested, hturned, hturn, hsame,
    hequivalence.symm (x := ⟨_, hnested⟩) (y := ⟨_, hturned⟩) hsame⟩

end Expr

end DepSchema
