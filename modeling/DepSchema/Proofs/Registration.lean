/-
DepSchema.Proofs.Registration — the registry of types, functions and constructors.

Declarations are added one after the other, and the first of a name stays. What the schema holds is
therefore told by the list of declarations: a name stands for its first declaration, and what comes
later under the same name is refused, in the order in which it came. A constructor belongs to the
first type that offers it, so the type that it is registered under is always one in which it can be
found.

Where no name is declared twice, nothing is left to the order in which declarations came: each
constructor leads back to its own type and its own fields, and an enum offers it in one rule only.
The fields that are found for it are then those of the rule that dispatch has chosen.

Main results: `type?_ofDeclarations`, `refused_eq_repeated`, `constructor?_of_mem`,
`dispatchFrom_eq_ok` and `registry_ofDeclarations`.
-/
import DepSchema.Proofs.Names.Tidy
import DepSchema.Proofs.Typing.Frame
import DepSchema.Proofs.Order.TypeOrder

namespace DepSchema

/-! ## §1. Repeated declarations. -/

namespace Declaration

/-- The name that is declared, where it is declared. -/
def ident : Declaration → Ident
  | type d => d.ident
  | function f => f.ident

/-- What the name is declared as. -/
def kind : Declaration → NameKind
  | type d => d.kind
  | function _ => .function

/-- The second one declares the same name, both as types or both as functions. -/
def clashes : Declaration → Declaration → Bool
  | type d, type d' => d'.name == d.name
  | function f, function f' => f'.name == f.name
  | _, _ => false

/-- The declarations that clash with an earlier one, in order. -/
def repeated (ds : List Declaration) : List Declaration :=
  (ds.zipIdx.filter fun p => (ds.take p.2).any p.1.clashes).map Prod.fst

theorem repeated_concat (ds : List Declaration) (d : Declaration) :
    repeated (ds ++ [d]) = repeated ds ++ if ds.any d.clashes then [d] else [] := by
  unfold repeated
  -- what comes before an earlier declaration is the same in both lists
  have hbefore : ds.zipIdx.filter (fun p => ((ds ++ [d]).take p.2).any p.1.clashes)
      = ds.zipIdx.filter fun p => (ds.take p.2).any p.1.clashes := by
    refine List.filter_congr fun p hp => ?_
    rw [List.take_append_of_le_length (List.snd_lt_of_mem_zipIdx hp).le]
  rw [List.zipIdx_append, List.filter_append, List.map_append, hbefore]
  congr 1
  by_cases h : ds.any d.clashes = true <;> simp [h]

theorem any_clashes_type (ds : List Declaration) (d : TypeDef) :
    ds.any (type d).clashes = ((types ds).find? fun d' => d'.name == d.name).isSome := by
  induction ds with
  | nil => rfl
  | cons e ds ih =>
    cases e with
    | type d' =>
      rw [List.any_cons, ih, show types (type d' :: ds) = d' :: types ds from rfl,
        List.find?_cons]
      show (d'.name == d.name || _) = _
      cases d'.name == d.name <;> rfl
    | function f => simpa [clashes, types, type?] using ih

theorem any_clashes_function (ds : List Declaration) (f : FunctionDef) :
    ds.any (function f).clashes = ((functions ds).find? fun f' => f'.name == f.name).isSome := by
  induction ds with
  | nil => rfl
  | cons e ds ih =>
    cases e with
    | type d => simpa [clashes, functions, function?] using ih
    | function f' =>
      rw [List.any_cons, ih, show functions (function f' :: ds) = f' :: functions ds from rfl,
        List.find?_cons]
      show (f'.name == f.name || _) = _
      cases f'.name == f.name <;> rfl

end Declaration

/-! ## §2. Lists ordered by key. -/

section Keys

variable {α : Type} {key : α → Symbol}

/-- An item with a new key is found under it, and everything else is found as before. -/
theorem find?_insertByKey {x : α} : ∀ {l : List α}, key x ∉ l.map key → ∀ k : Symbol,
    (insertByKey key x l).find? (fun y => key y == k)
      = (l.find? fun y => key y == k).or (if key x = k then some x else none)
  | [], _, k => by
    by_cases h : key x = k <;> simp [insertByKey, h]
  | y :: ys, hx, k => by
    rw [List.map_cons, List.mem_cons, not_or] at hx
    have hrest := find?_insertByKey hx.2 k
    unfold insertByKey
    split
    · by_cases h : key x = k
      · -- no other item has that key
        have hnone : (y :: ys).find? (fun y => key y == k) = none := by
          rw [List.find?_eq_none]
          intro z hz hzk
          have hkey : key z = key x := (beq_iff_eq.mp hzk).trans h.symm
          rcases List.mem_cons.mp hz with rfl | hz
          · exact hx.1 hkey.symm
          · exact hx.2 (hkey ▸ List.mem_map_of_mem hz)
        rw [hnone]
        simp [h]
      · simp [List.find?_cons, h]
    · rw [List.find?_cons, List.find?_cons, hrest]
      split <;> rfl

/-- An item with a new key keeps the order. -/
theorem pairwise_insertByKey {x : α} : ∀ {l : List α}, key x ∉ l.map key →
    l.Pairwise (fun a b => (key a).slot < (key b).slot) →
    (insertByKey key x l).Pairwise fun a b => (key a).slot < (key b).slot
  | [], _, _ => List.pairwise_singleton _ _
  | y :: ys, hx, h => by
    rw [List.map_cons, List.mem_cons, not_or] at hx
    have ⟨hy, hys⟩ := List.pairwise_cons.mp h
    unfold insertByKey
    split
    · next hlt =>
      refine List.pairwise_cons.mpr ⟨List.forall_mem_cons.mpr ⟨hlt, ?_⟩, h⟩
      exact fun z hz => hlt.trans (hy z hz)
    · next hle =>
      -- different names have different slots
      have hne : (key x).slot ≠ (key y).slot := fun heq =>
        hx.1 (congrArg Symbol.mk (UInt32.toNat_inj.mp heq))
      have hlt : (key y).slot < (key x).slot := lt_of_le_of_ne (not_lt.mp hle) hne.symm
      refine List.pairwise_cons.mpr ⟨fun z hz => ?_, pairwise_insertByKey hx.2 hys⟩
      rcases List.mem_cons.mp ((Schema.insertByKey_perm key x ys).mem_iff.mp hz) with rfl | hz
      · exact hlt
      · exact hy z hz

/-- Where keys are different, an item is what is found under its key. -/
theorem find?_of_nodup {l : List α} (h : (l.map key).Nodup) {a : α} (ha : a ∈ l) :
    l.find? (fun b => key b == key a) = some a := by
  have hsome : (l.find? fun b => key b == key a).isSome := by
    rw [List.find?_isSome]
    exact ⟨a, ha, beq_self_eq_true _⟩
  obtain ⟨b, hb⟩ := Option.isSome_iff_exists.mp hsome
  have hkey : key b = key a := by simpa using List.find?_some hb
  rw [hb, List.inj_on_of_nodup_map h (List.mem_of_find?_eq_some hb) ha hkey]

end Keys

namespace Schema

/-! ## §3. What a name stands for. -/

/-- A type is found under its name, unless the name was taken. -/
theorem type?_addType (s : Schema) (d : TypeDef) (n : Symbol) :
    (s.addType d).type? n = (s.type? n).or (if d.name = n then some d else none) := by
  by_cases hd : d.name ∈ s.typeNames
  · rw [addType_refused hd]
    show s.type? n = _
    by_cases h : d.name = n
    · rw [Option.or_of_isSome (isSome_type?.mpr (h ▸ hd))]
    · simp [h]
  · obtain ⟨owners, heq, -⟩ := addType_new hd
    rw [heq]
    exact find?_insertByKey hd n

/-- A function is found under its name, unless the name was taken. -/
theorem function?_addFunction (s : Schema) (f : FunctionDef) (n : Symbol) :
    (s.addFunction f).function? n = (s.function? n).or (if f.name = n then some f else none) := by
  by_cases hf : f.name ∈ s.functionNames
  · rw [addFunction_refused hf]
    show s.function? n = _
    by_cases h : f.name = n
    · rw [Option.or_of_isSome (isSome_function?.mpr (h ▸ hf))]
    · simp [h]
  · rw [addFunction_new hf]
    exact find?_insertByKey hf n

theorem type?_addFunction (s : Schema) (f : FunctionDef) (n : Symbol) :
    (s.addFunction f).type? n = s.type? n := by
  unfold addFunction
  split <;> rfl

theorem function?_addType (s : Schema) (d : TypeDef) (n : Symbol) :
    (s.addType d).function? n = s.function? n := by
  by_cases hd : d.name ∈ s.typeNames
  · rw [addType_refused hd]
    rfl
  · obtain ⟨owners, heq, -⟩ := addType_new hd
    rw [heq]
    rfl

/-- **A type name stands for the first type that was declared under it.** -/
theorem type?_ofDeclarations (ds : List Declaration) (n : Symbol) :
    (ofDeclarations ds).type? n = (Declaration.types ds).find? fun d => d.name == n := by
  induction ds using List.reverseRecOn with
  | nil => rfl
  | append_singleton ds d ih =>
    rw [ofDeclarations_concat]
    cases d with
    | type d =>
      show ((ofDeclarations ds).addType d).type? n = _
      rw [type?_addType, ih, Declaration.types_concat_type, List.find?_append]
      by_cases h : d.name = n <;> simp [h]
    | function f =>
      show ((ofDeclarations ds).addFunction f).type? n = _
      rw [type?_addFunction, ih, Declaration.types_concat_function]

/-- **A function name stands for the first function that was declared under it.** -/
theorem function?_ofDeclarations (ds : List Declaration) (n : Symbol) :
    (ofDeclarations ds).function? n = (Declaration.functions ds).find? fun f => f.name == n := by
  induction ds using List.reverseRecOn with
  | nil => rfl
  | append_singleton ds d ih =>
    rw [ofDeclarations_concat]
    cases d with
    | type d =>
      show ((ofDeclarations ds).addType d).function? n = _
      rw [function?_addType, ih, Declaration.functions_concat_type]
    | function f =>
      show ((ofDeclarations ds).addFunction f).function? n = _
      rw [function?_addFunction, ih, Declaration.functions_concat_function, List.find?_append]
      by_cases h : f.name = n <;> simp [h]

/-- Types and functions stand in the order of their names, each name once. -/
structure Sorted (s : Schema) : Prop where
  types : s.types.Pairwise fun d d' => d.name.slot < d'.name.slot
  functions : s.functions.Pairwise fun f f' => f.name.slot < f'.name.slot

/-- **Types and functions are kept in the order of their names**, whatever was added. -/
theorem sorted_ofDeclarations (ds : List Declaration) : (ofDeclarations ds).Sorted := by
  induction ds using List.reverseRecOn with
  | nil => exact ⟨.nil, .nil⟩
  | append_singleton ds d ih =>
    rw [ofDeclarations_concat]
    cases d with
    | type d =>
      show ((ofDeclarations ds).addType d).Sorted
      by_cases hd : d.name ∈ (ofDeclarations ds).typeNames
      · rw [addType_refused hd]
        exact ⟨ih.types, ih.functions⟩
      · obtain ⟨owners, heq, -⟩ := addType_new hd
        rw [heq]
        exact ⟨pairwise_insertByKey hd ih.types, ih.functions⟩
    | function f =>
      show ((ofDeclarations ds).addFunction f).Sorted
      by_cases hf : f.name ∈ (ofDeclarations ds).functionNames
      · rw [addFunction_refused hf]
        exact ⟨ih.types, ih.functions⟩
      · rw [addFunction_new hf]
        exact ⟨ih.types, pairwise_insertByKey hf ih.functions⟩

/-- **What is refused are the repeated declarations**, each with its place and what it declares, in
the order in which they came. -/
theorem refused_eq_repeated (ds : List Declaration) :
    (ofDeclarations ds).refused
      = (Declaration.repeated ds).map fun d => (d.ident, d.kind) := by
  induction ds using List.reverseRecOn with
  | nil => rfl
  | append_singleton ds d ih =>
    rw [ofDeclarations_concat, Declaration.repeated_concat, List.map_append, ← ih]
    cases d with
    | type d =>
      have htaken : ds.any (Declaration.type d).clashes = true
          ↔ d.name ∈ (ofDeclarations ds).typeNames := by
        rw [Declaration.any_clashes_type, ← type?_ofDeclarations, isSome_type?]
      show ((ofDeclarations ds).addType d).refused = _
      by_cases hd : d.name ∈ (ofDeclarations ds).typeNames
      · rw [addType_refused hd, if_pos (htaken.mpr hd)]
        rfl
      · obtain ⟨owners, heq, -⟩ := addType_new hd
        rw [heq, if_neg (mt htaken.mp hd), List.map_nil, List.append_nil]
    | function f =>
      have htaken : ds.any (Declaration.function f).clashes = true
          ↔ f.name ∈ (ofDeclarations ds).functionNames := by
        rw [Declaration.any_clashes_function, ← function?_ofDeclarations, isSome_function?]
      show ((ofDeclarations ds).addFunction f).refused = _
      by_cases hf : f.name ∈ (ofDeclarations ds).functionNames
      · rw [addFunction_refused hf, if_pos (htaken.mpr hf)]
        rfl
      · rw [addFunction_new hf, if_neg (mt htaken.mp hf), List.map_nil, List.append_nil]

namespace Example

/-- The album, then another `S` and another `P` with a function of that name in between. -/
def again : List Declaration :=
  album ++ [.type (.message ⟨ident 8, [], []⟩),
    .function ⟨ident 7, [], ⟨⟨0, 0⟩, ident 0, []⟩, none⟩, .type (.enum ⟨ident 7, [], []⟩)]

end Example

example : (ofDeclarations Example.again).refused
    = [(Example.ident 8, .message), (Example.ident 7, .enum)] := by cbv

/-! ## §4. Owners. -/

/-- Each constructor has one owner. -/
def Owned (s : Schema) : Prop := (s.owners.map Prod.fst).Nodup

theorem owner?_eq_none {s : Schema} {c : Symbol} :
    s.owner? c = none ↔ c ∉ s.owners.map Prod.fst := by
  unfold owner?
  rw [List.lookup_eq_none_iff, List.mem_map]
  constructor
  · rintro h ⟨p, hp, rfl⟩
    simpa using h p hp
  · intro h p hp
    simpa using fun heq => h ⟨p, hp, heq.symm⟩

theorem Owned.claim {s : Schema} (h : s.Owned) (type ctor : Symbol) :
    (s.claim type ctor).Owned := by
  unfold Schema.claim
  split
  · exact h
  · next hnone =>
    rw [Bool.not_eq_true, Option.isSome_eq_false_iff, Option.isNone_iff_eq_none] at hnone
    show ((s.owners ++ [(ctor, type)]).map Prod.fst).Nodup
    rw [List.map_append, List.nodup_append]
    refine ⟨h, List.nodup_singleton _, fun a ha b hb heq => ?_⟩
    obtain rfl := List.mem_singleton.mp hb
    exact owner?_eq_none.mp hnone (heq ▸ ha)

theorem Owned.foldl_claim (type : Symbol) (ctors : List Symbol) :
    ∀ {s : Schema}, s.Owned → (ctors.foldl (Schema.claim type) s).Owned := by
  induction ctors with
  | nil => exact id
  | cons c ctors ih => exact fun h => ih (h.claim type c)

/-- **A constructor never has two owners**, whatever was added. -/
theorem owned_ofDeclarations (ds : List Declaration) : (ofDeclarations ds).Owned := by
  induction ds using List.reverseRecOn with
  | nil => exact List.nodup_nil
  | append_singleton ds d ih =>
    rw [ofDeclarations_concat]
    cases d with
    | type d =>
      show ((ofDeclarations ds).addType d).Owned
      unfold addType
      split
      · exact ih
      · exact Owned.foldl_claim d.name _ ih
    | function f =>
      show ((ofDeclarations ds).addFunction f).Owned
      unfold addFunction
      split <;> exact ih

theorem Owned.owner?_of_mem {s : Schema} (h : s.Owned) {c n : Symbol} (hmem : (c, n) ∈ s.owners) :
    s.owner? c = some n := by
  unfold Owned at h
  unfold owner?
  generalize s.owners = owners at h hmem
  induction owners with
  | nil => cases hmem
  | cons p owners ih =>
    rw [List.map_cons, List.nodup_cons] at h
    rw [List.lookup_cons]
    rcases List.mem_cons.mp hmem with rfl | hmem
    · simp
    · -- the other entries are for other constructors
      have hne : (c == p.1) = false := by
        rw [beq_eq_false_iff_ne]
        intro heq
        exact h.1 (List.mem_map.mpr ⟨(c, n), hmem, heq⟩)
      rw [hne]
      exact ih h.2 hmem

/-! ## §5. Constructors. -/

theorem constructor?_eq {s : Schema} {c n : Symbol} {d : TypeDef} {ctor : Constructor}
    (howner : s.owner? c = some n) (htype : s.type? n = some d)
    (hctor : d.constructor? c = some ctor) : s.constructor? c = some (d, ctor) := by
  unfold constructor?
  rw [howner, Option.bind_eq_bind, Option.bind_some, htype, Option.bind_eq_bind,
    Option.bind_some, hctor]
  rfl

/-- **A registered constructor is found in the type that it is registered under.** -/
theorem Registered.constructor?_of_owner? {s : Schema} (h : s.Registered) (hs : s.Keyed)
    {c n : Symbol} (howner : s.owner? c = some n) :
    ∃ d ctor, s.type? n = some d ∧ ctor ∈ d.constructors ∧ ctor.name = c
      ∧ s.constructor? c = some (d, ctor) := by
  obtain ⟨d, hd, rfl, hoffers⟩ := h.offers howner
  have htype : s.type? d.name = some d := hs.type?_eq_some.mpr ⟨hd, rfl⟩
  obtain ⟨k, hk, rfl⟩ := List.mem_map.mp hoffers
  have hsome : (d.constructor? k.name).isSome := by
    unfold TypeDef.constructor?
    rw [List.find?_isSome]
    exact ⟨k, hk, beq_self_eq_true _⟩
  obtain ⟨ctor, hctor⟩ := Option.isSome_iff_exists.mp hsome
  have hname : ctor.name = k.name := by simpa using List.find?_some hctor
  exact ⟨d, ctor, htype, List.mem_of_find?_eq_some hctor, hname, constructor?_eq howner htype hctor⟩

/-- **Where no name is declared twice, a constructor leads back to its type and its fields.** -/
theorem constructor?_of_mem {s : Schema} (hs : s.Keyed) (hregistered : s.Registered)
    (h : s.nameFaults = []) {d : TypeDef} (hd : d ∈ s.types) {ctor : Constructor}
    (hctor : ctor ∈ d.constructors) : s.constructor? ctor.name = some (d, ctor) := by
  have hunshared : s.Unshared := unshared_of_nodup (nameFaults_eq_nil.mp h).1.1
  have howner : s.owner? ctor.name = some d.name :=
    (hregistered.owner?_eq_some hunshared).mpr ⟨d, hd, rfl, List.mem_map_of_mem hctor⟩
  exact constructor?_eq howner (hs.type?_eq_some.mpr ⟨hd, rfl⟩)
    (find?_of_nodup ((tidy_of_nameFaults h).constructors d hd) hctor)

end Schema

/-! ## §6. Rules. -/

/-- **Where the constructors of an enum have different names, one rule offers each.** -/
theorem Enum.existsUnique_rule {e : Enum} (h : (e.constructors.map Constructor.name).Nodup)
    {ctor : Constructor} (hctor : ctor ∈ e.constructors) :
    ∃! i : Nat, ∃ rule, e.rules[i]? = some rule ∧ (rule.constructor? ctor.name).isSome := by
  obtain ⟨rule, hrule, hoffers⟩ := List.mem_flatMap.mp hctor
  obtain ⟨i, hi⟩ := List.getElem?_of_mem hrule
  have hflat : (e.rules.flatMap fun r => r.constructors.map Constructor.name).Nodup := by
    rwa [← List.map_flatMap]
  have hapart := (List.nodup_flatMap.mp hflat).2
  refine ⟨i, ⟨rule, hi, Rule.isSome_constructor?.mpr ⟨ctor, hoffers, rfl⟩⟩, ?_⟩
  intro j hj
  obtain ⟨other, hother, hsome⟩ := hj
  obtain ⟨k, hk, hname⟩ := Rule.isSome_constructor?.mp hsome
  -- two rules at different places have no name in common
  have hmem : ctor.name ∈ rule.constructors.map Constructor.name := List.mem_map_of_mem hoffers
  have hmem' : ctor.name ∈ other.constructors.map Constructor.name :=
    hname ▸ List.mem_map_of_mem hk
  obtain ⟨hilt, rfl⟩ := List.getElem?_eq_some_iff.mp hi
  obtain ⟨hjlt, rfl⟩ := List.getElem?_eq_some_iff.mp hother
  rw [List.pairwise_iff_getElem] at hapart
  rcases lt_trichotomy j i with hlt | heq | hlt
  · exact absurd hmem (hapart j i hjlt hilt hlt hmem')
  · exact heq
  · exact absurd hmem' (hapart i j hilt hjlt hlt hmem)

namespace Typing

open Check

variable {c : Setting} {ctor : Ident} {params : List Expr} {σ bound : Substitution}

/-- **Dispatch gives a result at one rule**: what the rule binds when it matches, noted under its
number, and the rule offers the constructor. -/
theorem dispatchFrom_eq_ok {enum : Symbol} : ∀ {rules : List Rule} {index : Nat} {s t : Checking},
    dispatchFrom enum ctor params σ rules index c s = (.ok bound, t) →
      ∃ i rule u v, rules[i]? = some rule ∧ matchRule σ rule params c u = (.ok (some bound), v)
        ∧ t = v.note (.ruleMatched enum (index + i) ctor.name)
        ∧ (rule.constructor? ctor.name).isSome
  | [], _, _, _, h => by cases h
  | rule :: rules, index, s, t, h => by
    unfold dispatchFrom at h
    obtain ⟨found, u, hmatch, h⟩ := bind_eq_ok h
    cases found with
    | none =>
      dsimp only at h
      rw [bind_ok (show note (.ruleSkipped enum index) c u = _ from rfl)] at h
      obtain ⟨i, r, u', v, hi, hmatch', ht, hsome⟩ := dispatchFrom_eq_ok h
      exact ⟨i + 1, r, u', v, hi, hmatch', by rw [ht, Nat.add_assoc, Nat.add_comm 1 i], hsome⟩
    | some σ' =>
      dsimp only at h
      rw [bind_ok (show note (.ruleMatched enum index ctor.name) c u = _ from rfl)] at h
      by_cases hoffers : (rule.constructor? ctor.name).isSome = true
      · rw [if_pos hoffers] at h
        cases h
        exact ⟨0, rule, s, u, rfl, hmatch, rfl, hoffers⟩
      · rw [if_neg hoffers] at h
        cases h

end Typing

/-! ## §7. The registry. -/

namespace Schema

/-- **The registry of constructors.** Whatever is declared in whatever order: each name stands for
its first declaration, types and functions apart; what is refused are the declarations that repeat
a name, as they came; and each entry for a constructor leads to a type that offers it.

Without name faults, every constructor of every declared type leads back to that type and to its own
fields, and an enum offers it in one rule. So when dispatch has chosen a rule, the fields that are
found for the constructor are those that this rule declares. -/
theorem registry_ofDeclarations (ds : List Declaration) :
    let s := ofDeclarations ds
    (∀ n, s.type? n = (Declaration.types ds).find? fun d => d.name == n)
      ∧ (∀ n, s.function? n = (Declaration.functions ds).find? fun f => f.name == n)
      ∧ s.Sorted
      ∧ s.refused = (Declaration.repeated ds).map (fun d => (d.ident, d.kind))
      ∧ s.Owned
      ∧ (∀ c n, (c, n) ∈ s.owners → ∃ d ctor, s.type? n = some d ∧ ctor ∈ d.constructors
          ∧ ctor.name = c ∧ s.constructor? c = some (d, ctor))
      ∧ (s.nameFaults = [] →
          (∀ d ∈ s.types, ∀ ctor ∈ d.constructors, s.constructor? ctor.name = some (d, ctor))
          ∧ ∀ e, .enum e ∈ s.types →
            (∀ ctor ∈ e.constructors,
              ∃! i : Nat, ∃ rule, e.rules[i]? = some rule ∧ (rule.constructor? ctor.name).isSome)
            ∧ ∀ (c : Setting) (t u : Checking) (ctor : Ident) (params : List Expr)
                (σ bound : Substitution), Typing.dispatch e ctor params σ c t = (.ok bound, u) →
              ∃ i rule declared, u.events.head? = some (.ruleMatched e.ident.name i ctor.name)
                ∧ e.rules[i]? = some rule ∧ rule.constructor? ctor.name = some declared
                ∧ s.constructor? ctor.name = some (.enum e, declared)) := by
  intro s
  have hkeyed : s.Keyed := keyed_ofDeclarations ds
  have hregistered : s.Registered := registered_ofDeclarations ds
  refine ⟨type?_ofDeclarations ds, function?_ofDeclarations ds, sorted_ofDeclarations ds,
    refused_eq_repeated ds, owned_ofDeclarations ds, ?_, ?_⟩
  · intro c n hmem
    exact hregistered.constructor?_of_owner? hkeyed ((owned_ofDeclarations ds).owner?_of_mem hmem)
  · intro hnames
    refine ⟨fun d hd ctor hctor => constructor?_of_mem hkeyed hregistered hnames hd hctor, ?_⟩
    intro e he
    refine ⟨fun ctor hctor =>
      Enum.existsUnique_rule ((tidy_of_nameFaults hnames).constructors _ he) hctor, ?_⟩
    intro c t u ctor params σ bound hrun
    obtain ⟨i, rule, -, v, hi, -, rfl, hsome⟩ := Typing.dispatchFrom_eq_ok hrun
    obtain ⟨declared, hdeclared⟩ := Option.isSome_iff_exists.mp hsome
    -- what the rule declares is a constructor of the enum, and that is what is found
    have hname : declared.name = ctor.name := by simpa using List.find?_some hdeclared
    have hmem : declared ∈ (TypeDef.enum e).constructors :=
      List.mem_flatMap.mpr ⟨rule, List.mem_of_getElem? hi, List.mem_of_find?_eq_some hdeclared⟩
    refine ⟨i, rule, declared, ?_, hi, hdeclared, ?_⟩
    · rw [Nat.zero_add]
      rfl
    · rw [← hname]
      exact constructor?_of_mem hkeyed hregistered hnames he hmem

namespace Example

/-- The shapes of the album. -/
def shape : Enum :=
  ⟨ident 8, [field 12 7 []], [⟨[.value point], [⟨ident 10, [field 13 8 [point]]⟩]⟩]⟩

/-- Dispatch for the shapes of the point, with an oracle that finds everything equal. -/
def dispatched : Except Diagnostic Substitution × Checking :=
  Typing.dispatch shape (ident 10) [point] .empty ⟨ofDeclarations album, fun _ _ => .ok true⟩
    .start

end Example

/-- Each constructor of the album leads back to its type, and dispatch for the shapes of the point
notes a rule whose fields are those that are found for the constructor. -/
theorem registry_album :
    let s := ofDeclarations Example.album
    s.nameFaults = []
      ∧ (∀ d ∈ s.types, ∀ ctor ∈ d.constructors, s.constructor? ctor.name = some (d, ctor))
      ∧ ∃ i rule declared,
        Example.dispatched.2.events.head? = some (.ruleMatched ⟨8⟩ i ⟨10⟩)
          ∧ Example.shape.rules[i]? = some rule ∧ rule.constructor? ⟨10⟩ = some declared
          ∧ s.constructor? ⟨10⟩ = some (.enum Example.shape, declared) := by
  intro s
  have hnames : s.nameFaults = [] := by cbv
  have hshape : s.type? ⟨8⟩ = some (.enum Example.shape) := by cbv
  have hrun : Example.dispatched = (.ok .empty, Example.dispatched.2) := by cbv
  obtain ⟨-, -, -, -, -, -, hclean⟩ := registry_ofDeclarations Example.album
  obtain ⟨hlead, hrules⟩ := hclean hnames
  exact ⟨hnames, hlead, (hrules Example.shape (mem_of_type? hshape)).2 _ _ _ _ _ _ _ hrun⟩

end Schema

end DepSchema
