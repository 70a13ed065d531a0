/-
DepSchema.Proofs.Vocabulary.Kept — schemas with some of the declarations.

A check of a declaration looks up what the declaration reaches, and nothing else. So it runs in the
same way where only declarations are kept that are closed under uses and among which it is. What
holds of a whole schema can be used in this way where it is known of a part.

Main definition: `Schema.keeping`. Main results: `Schema.agreesOn_keeping`,
`passes_checkTypeDef_iff` and `passes_checkFunctionDef_iff`.
-/
import DepSchema.Proofs.Typing.Passes
import DepSchema.Proofs.Vocabulary.Declarations
import DepSchema.Proofs.Vocabulary.Reached

namespace DepSchema

/-- A name is found among the items with names that are kept if it is one of those names. -/
theorem find?_filter_key {α : Type} {key : α → Symbol} (keep : Symbol → Prop) [DecidablePred keep]
    (l : List α) (n : Symbol) : (l.filter fun a => keep (key a)).find? (fun a => key a == n)
      = if keep n then l.find? (fun a => key a == n) else none := by
  rw [List.find?_filter]
  split
  · next h =>
    congr 1
    funext a
    by_cases ha : key a = n <;> simp [ha, h]
  · next h =>
    refine List.find?_eq_none.mpr fun a _ => ?_
    by_cases ha : key a = n <;> simp [ha, h]

/-- The function as others see it. -/
def FunctionDef.bodiless (f : FunctionDef) : FunctionDef := { f with body := none }

@[simp] theorem FunctionDef.bodiless_name (f : FunctionDef) : f.bodiless.name = f.name := rfl

@[simp] theorem FunctionDef.bodiless_signature (f : FunctionDef) :
    f.bodiless.signature = f.signature := rfl

/-! ## §1. Schemas. -/

namespace Schema

/-- The schema with these declarations and no others, and with no bodies of functions. A constructor
still belongs to its type. -/
def keeping (s : Schema) (P : Entity → Prop) [DecidablePred P] : Schema :=
  { s with
    types := s.types.filter fun d => P (.type d.name)
    functions := (s.functions.filter fun f => P (.function f.name)).map FunctionDef.bodiless
    visitOrder := s.visitOrder.filter fun n => P (.type n) }

variable {s : Schema} {P : Entity → Prop} [DecidablePred P]

theorem mem_types_keeping {d : TypeDef} :
    d ∈ (s.keeping P).types ↔ d ∈ s.types ∧ P (.type d.name) := by
  simp [keeping]

theorem mem_functions_keeping {f : FunctionDef} :
    f ∈ (s.keeping P).functions ↔ ∃ g ∈ s.functions, P (.function g.name) ∧ g.bodiless = f := by
  simp [keeping, and_assoc]

theorem type?_keeping (n : Symbol) :
    (s.keeping P).type? n = if P (.type n) then s.type? n else none :=
  find?_filter_key (fun n => P (.type n)) s.types n

theorem function?_keeping (n : Symbol) : (s.keeping P).function? n
    = if P (.function n) then (s.function? n).map FunctionDef.bodiless else none := by
  have hkey : (fun f : FunctionDef => f.name == n) ∘ FunctionDef.bodiless
      = fun f => f.name == n := rfl
  show (List.map FunctionDef.bodiless _).find? _ = _
  rw [List.find?_map, hkey, find?_filter_key (fun n => P (.function n)) s.functions n]
  split
  · rfl
  · rfl

/-- **Under the words that lead to what is kept nothing changes.** -/
theorem agreesOn_keeping (h : s.nameFaults = []) : s.AgreesOn (s.leading P) (s.keeping P) := by
  have htype : ∀ n, (.type n = Entity.type .unsigned ∨ P (.type n)) →
      (s.keeping P).type? n = s.type? n := by
    intro n hn
    rw [type?_keeping]
    split
    · rfl
    · next hgone =>
      obtain rfl : n = .unsigned := by simpa [hgone] using hn
      exact (type?_unsigned h).symm
  constructor
  · exact fun {n _} hn => htype n (hn _ rfl)
  · intro n hn
    show ((s.owner? n).bind fun owner => ((s.keeping P).type? owner).bind fun d =>
        (d.constructor? n).bind fun c => some (d, c)) = s.constructor? n
    cases howner : s.owner? n with
    | none => simp [constructor?, howner]
    | some owner =>
      have hentity : (Reference.ctor n).entity? s.owner? = some (.type owner) := by
        simp [Reference.entity?, howner]
      rw [Option.bind_some, htype owner (hn _ hentity)]
      simp [constructor?, howner]
  · intro n hn
    rw [function?_keeping, if_pos (of_leading_function hn), Option.map_map]
    rfl

end Schema

/-! ## §2. Checks of declarations. -/

/-- One check after the other runs in the same way in two settings if each of them does. -/
theorem Check.bind_congr {α β : Type} {c c' : Setting} {s : Checking} {x : Check α}
    {f : α → Check β} (hx : x c' s = x c s) (hf : ∀ a t, f a c' t = f a c t) :
    (x >>= f) c' s = (x >>= f) c s := by
  rcases hrun : x c s with ⟨d | a, t⟩
  · rw [bind_error hrun, bind_error (hx.trans hrun)]
  · rw [bind_ok hrun, bind_ok (hx.trans hrun), hf]

namespace Typing

open Check

variable {c c' : Setting} {s : Checking} {W : Vocabulary}

theorem sortedFields_setting (fields : List Variable) :
    ∀ s, sortedFields fields c' s = sortedFields fields c s := by
  induction fields with
  | nil => exact fun _ => rfl
  | cons v vs ih =>
    intro s
    unfold sortedFields
    cases v.type.sort? with
    | none => rfl
    | some sort => exact bind_congr rfl fun _ t => bind_congr (ih t) fun _ _ => rfl

theorem variants_setting (ctors : List Constructor) :
    ∀ s, variants ctors c' s = variants ctors c s := by
  induction ctors with
  | nil => exact fun _ => rfl
  | cons ctor ctors ih =>
    intro s
    unfold variants
    exact bind_congr (sortedFields_setting _ s) fun _ t => bind_congr (ih t) fun _ _ => rfl

/-- **The check of a type runs in the same way** where the words of a closed vocabulary that it is
within mean the same. -/
theorem checkTypeDef_agrees (hc : c.schema.Tidy) (hW : W.Closed c.schema) {d : TypeDef}
    (hd : d.Within W) (hs : s.Within W) (hσ : s.Replaces W) {r : Schema}
    (hr : c.schema.AgreesOn W r) :
    checkTypeDef d ⟨r, c.oracle⟩ s = checkTypeDef d c s := by
  have hbody := Asks.inScope (stepwise_typeBody d).framed hs
    (asks_typeBody hc hW hs.opened hσ.opened hd)
  have hdef : checkTypeDef d = inScope (typeBody d) >>= fun _ => variants d.constructors >>=
    fun ctors => ask (.datatype ⟨d.name, ctors⟩) >>= fun _ => pure () := rfl
  rw [hdef]
  refine bind_congr (hbody.agrees r hr) fun _ t => ?_
  exact bind_congr (variants_setting _ t) fun _ _ => rfl

/-- **So does the check of a function.** -/
theorem checkFunctionDef_agrees (hc : c.schema.Tidy) (hW : W.Closed c.schema) {f : FunctionDef}
    (hf : f.Within W) (hs : s.Within W) (hσ : s.Replaces W) {r : Schema}
    (hr : c.schema.AgreesOn W r) :
    checkFunctionDef f ⟨r, c.oracle⟩ s = checkFunctionDef f c s :=
  (asks_checkFunctionDef hc hW hs hσ hf).agrees r hr

end Typing

namespace Schema

variable {s r : Schema} {P : Entity → Prop} (oracle : Oracle)

/-- **A type passes as well with any schema that declares the same** under the words that lead to
declarations closed under uses, among which it is. -/
theorem passes_checkTypeDef_iff (h : s.nameFaults = []) (hP : s.ClosedUnderUses P) {n : Symbol}
    {d : TypeDef} (hd : s.type? n = some d) (hn : P (.type n)) (hr : s.AgreesOn (s.leading P) r) :
    Check.Passes ⟨r, oracle⟩ (Typing.checkTypeDef d)
      ↔ Check.Passes ⟨s, oracle⟩ (Typing.checkTypeDef d) := by
  have hrun := Typing.checkTypeDef_agrees (c := ⟨s, oracle⟩) (tidy_of_nameFaults h)
    (closed_leading h hP) (within_leading_of_type hP hn hd).1
    (Checking.within_start _) (Checking.replaces_start _) hr
  unfold Check.Passes
  rw [hrun]

/-- **So does a function.** -/
theorem passes_checkFunctionDef_iff (h : s.nameFaults = []) (hP : s.ClosedUnderUses P) {n : Symbol}
    {f : FunctionDef} (hf : s.function? n = some f) (hn : P (.body n))
    (hr : s.AgreesOn (s.leading P) r) :
    Check.Passes ⟨r, oracle⟩ (Typing.checkFunctionDef f)
      ↔ Check.Passes ⟨s, oracle⟩ (Typing.checkFunctionDef f) := by
  have hrun := Typing.checkFunctionDef_agrees (c := ⟨s, oracle⟩) (tidy_of_nameFaults h)
    (closed_leading h hP) (FunctionDef.within_of_exprs (exprs_leading_of_body hP hn hf))
    (Checking.within_start _) (Checking.replaces_start _) hr
  unfold Check.Passes
  rw [hrun]

end Schema

end DepSchema
