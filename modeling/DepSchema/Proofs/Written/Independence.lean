/-
DepSchema.Proofs.Written.Independence — the verdict does not depend on the layout.

The same declarations may be laid out over different tables, at different places and in different
orders. The handles then differ, and with them the order in which declarations are kept and
checked, the order of the faults and the owner of a constructor that two types claim. None of this
shows: a run passes on both layouts or on none, passing runs list the types in the same order, and
a cycle is found on both layouts or on none and reads the same.

Main result: `check_independent`.
-/
import DepSchema.Proofs.Renaming.Verdict
import DepSchema.Proofs.Written.Handles

namespace DepSchema

namespace Written

open Renaming (erase)

/-! ## §1. The names of declarations. -/

/-- The name that a declaration gives. -/
def Declaration.name : Declaration → String
  | message name _ _ => name
  | enum name _ _ => name
  | function name _ _ _ => name

theorem Declaration.Laid.exists_spelled {t : SymbolTable} {w : Declaration}
    {d : DepSchema.Declaration} (h : w.Laid t d) : ∃ n, t.find? w.name = some n := by
  cases h with
  | message ident _ _ => exact ⟨_, ident⟩
  | enum ident _ _ => exact ⟨_, ident⟩
  | function ident _ _ _ => exact ⟨_, ident⟩

theorem Declaration.Laid.spells {t : SymbolTable} {w : Declaration} {d : TypeDef}
    (h : w.Laid t (.type d)) : t.find? w.name = some d.name := by
  cases h with
  | message ident _ _ => exact ident
  | enum ident _ _ => exact ident

theorem exists_mem_left {α β : Type} {R : α → β → Prop} {as : List α} {bs : List β}
    (h : List.Forall₂ R as bs) : ∀ b ∈ bs, ∃ a ∈ as, R a b := by
  induction h with
  | nil => simp
  | @cons a b as bs hab _ ih =>
    intro c hc
    rcases List.mem_cons.mp hc with rfl | hc
    · exact ⟨a, List.mem_cons_self, hab⟩
    · obtain ⟨d, hd, hdc⟩ := ih c hc
      exact ⟨d, List.mem_cons_of_mem a hd, hdc⟩

section Layouts

variable {ws : List Declaration} {t t' : SymbolTable} {ds ds' : List DepSchema.Declaration}

/-- The name of a declared type is that of a written declaration. -/
theorem LaidOut.spelled (h : LaidOut ws t ds) {n : Symbol}
    (hn : n ∈ (Schema.ofDeclarations ds).typeNames) : ∃ w ∈ ws, t.find? w.name = some n := by
  obtain ⟨us, hus, hlaid⟩ := h.laid
  obtain ⟨d, hd, rfl⟩ := Schema.mem_typeNames_ofDeclarations.mp hn
  obtain ⟨w, hw, hwd⟩ := exists_mem_left hlaid _ hd
  exact ⟨w, hus.mem_iff.mp hw, hwd.spells⟩

/-- The table knows the names of all written declarations. -/
theorem LaidOut.known (h : LaidOut ws t ds) {w : Declaration} (hw : w ∈ ws) :
    ∃ n, t.find? w.name = some n := by
  obtain ⟨us, hus, hlaid⟩ := h.laid
  have hflip : List.Forall₂ (fun d w => Declaration.Laid t w d) ds us := hlaid.flip
  obtain ⟨d, -, hwd⟩ := exists_mem_left hflip w (hus.mem_iff.mpr hw)
  exact hwd.exists_spelled

/-- Renaming handles from one table to another one keeps the texts of the declared types. -/
theorem LaidOut.sameTexts (h : LaidOut ws t ds) (h' : LaidOut ws t' ds') {ρ : Renaming}
    (hρ : ρ.Agree erase t t') : ρ.SameTexts t t' (Schema.ofDeclarations ds).typeNames := by
  have hback : ∀ n ∈ (Schema.ofDeclarations ds).typeNames, t.find? (t.text n) = some n := by
    intro n hn
    obtain ⟨w, -, hwn⟩ := h.spelled hn
    rw [h.table.text_of_find? hwn, hwn]
  constructor
  · intro n hn
    obtain ⟨w, hw, hwn⟩ := h.spelled hn
    obtain ⟨n', hwn'⟩ := h'.known hw
    have hname : ρ.name n = n' := hρ.name hwn hwn'
    rw [hname, h'.table.text_of_find? hwn', h.table.text_of_find? hwn]
  · intro m hm n hn htext
    have hsame := hback m hm
    rw [htext, hback n hn] at hsame
    exact (Option.some.inj hsame).symm

/-! ## §2. The verdict. -/

/-- **The layout of some declarations does not reach the verdict.** Over whatever tables, at
whatever places and in whatever order they are laid out: the run passes on both layouts or on none,
runs that pass keep the same order of the same type names, and a run that fails for a cycle does
so on both, with the same message. -/
theorem check_independent (h : LaidOut ws t ds) (h' : LaidOut ws t' ds') (p p' : Profile) :
    let run := (Schema.ofDeclarations ds).check t p
    let run' := (Schema.ofDeclarations ds').check t' p'
    (run.result = .ok () ↔ run'.result = .ok ())
      ∧ (run.result = .ok () →
          run.schema.visitOrder.map t.text = run'.schema.visitOrder.map t'.text)
      ∧ ∀ m, run.FailsInOrder t m ↔ run'.FailsInOrder t' m := by
  intro run run'
  -- both layouts are compared with the second one after its places are forgotten
  obtain ⟨ρ, hρ⟩ := Renaming.exists_agree h.table h'.table
  have herase : erase.Agree erase t' t' :=
    ⟨fun hn hn' => Option.some.inj (hn.symm.trans hn'), fun _ _ => rfl⟩
  have hperm := hρ.declarations h h'
  have hperm' := List.Perm.refl (ds'.map erase.declaration)
  have htexts := h.sameTexts h' hρ
  have htexts' := h'.sameTexts h' herase
  have hverdict : run.result = .ok () ↔ run'.result = .ok () :=
    (Renaming.check_ok_iff hperm htexts).trans (Renaming.check_ok_iff hperm' htexts').symm
  refine ⟨hverdict, ?_, ?_⟩
  · intro hok
    obtain ⟨order, horder, hnames⟩ := Renaming.visitOrder_texts hperm htexts hok
    obtain ⟨order', horder', hnames'⟩ :=
      Renaming.visitOrder_texts hperm' htexts' (hverdict.mp hok)
    rw [horder] at horder'
    cases horder'
    exact hnames.trans hnames'.symm
  · intro m
    exact (Renaming.failsInOrder_iff hperm htexts).trans
      (Renaming.failsInOrder_iff hperm' htexts').symm

end Layouts

/-! ## §3. Two layouts of one schema. -/

namespace Example

/-- A field of a type without parameters. -/
def field (name type : String) : Variable := ⟨name, ⟨type, []⟩⟩

/-- `Line` needs `Point`, and has a dependency. -/
def written : List Declaration :=
  [.message "Point" [] [field "x" "Int"], .message "Line" [field "n" "Int"] [field "a" "Point"]]

/-- A field at some place. -/
def fieldAt (start : Nat) (name type : Symbol) : DepSchema.Variable :=
  ⟨⟨name, ⟨start, 1⟩⟩, ⟨⟨start + 2, 5⟩, ⟨type, ⟨start + 2, 5⟩⟩, []⟩⟩

/-- The names in the order in which they are written. -/
def table : SymbolTable := ⟨SymbolTable.builtinNames ++ ["Point", "x", "Line", "n", "a"]⟩

/-- The declarations in the order in which they are written. -/
def declared : List DepSchema.Declaration :=
  [.type (.message ⟨⟨⟨7⟩, ⟨0, 5⟩⟩, [], [fieldAt 6 ⟨8⟩ .int]⟩),
    .type (.message ⟨⟨⟨9⟩, ⟨20, 4⟩⟩, [fieldAt 25 ⟨10⟩ .int], [fieldAt 35 ⟨11⟩ ⟨7⟩]⟩)]

/-- The names in another order, with one more. -/
def shuffled : SymbolTable := ⟨SymbolTable.builtinNames ++ ["a", "Line", "y", "n", "x", "Point"]⟩

/-- The declarations the other way round, all of them at one place. -/
def reversed : List DepSchema.Declaration :=
  [.type (.message ⟨⟨⟨8⟩, ⟨0, 0⟩⟩, [fieldAt 0 ⟨10⟩ .int], [fieldAt 0 ⟨7⟩ ⟨12⟩]⟩),
    .type (.message ⟨⟨⟨12⟩, ⟨0, 0⟩⟩, [], [fieldAt 0 ⟨11⟩ .int]⟩)]

theorem laid_field {t : SymbolTable} {name type : String} {n k : Symbol} {start : Nat}
    (hname : t.find? name = some n) (htype : t.find? type = some k) :
    (field name type).Laid t (fieldAt start n k) :=
  ⟨hname, ⟨htype, .nil⟩⟩

theorem laidOut_declared : LaidOut written table declared := by
  have hpoint : Declaration.Laid table (.message "Point" [] [field "x" "Int"]) _ :=
    .message (m := ⟨⟨⟨7⟩, ⟨0, 5⟩⟩, [], [fieldAt 6 ⟨8⟩ .int]⟩) (by decide) .nil
      (.cons (laid_field (by decide) (by decide)) .nil)
  have hline : Declaration.Laid table
      (.message "Line" [field "n" "Int"] [field "a" "Point"]) _ :=
    .message (m := ⟨⟨⟨9⟩, ⟨20, 4⟩⟩, [fieldAt 25 ⟨10⟩ .int], [fieldAt 35 ⟨11⟩ ⟨7⟩]⟩) (by decide)
      (.cons (laid_field (by decide) (by decide)) .nil)
      (.cons (laid_field (by decide) (by decide)) .nil)
  exact ⟨⟨⟨_, rfl⟩, by decide, by decide⟩, written, .refl _, .cons hpoint (.cons hline .nil)⟩

theorem laidOut_reversed : LaidOut written shuffled reversed := by
  have hpoint : Declaration.Laid shuffled (.message "Point" [] [field "x" "Int"]) _ :=
    .message (m := ⟨⟨⟨12⟩, ⟨0, 0⟩⟩, [], [fieldAt 0 ⟨11⟩ .int]⟩) (by decide) .nil
      (.cons (laid_field (by decide) (by decide)) .nil)
  have hline : Declaration.Laid shuffled
      (.message "Line" [field "n" "Int"] [field "a" "Point"]) _ :=
    .message (m := ⟨⟨⟨8⟩, ⟨0, 0⟩⟩, [fieldAt 0 ⟨10⟩ .int], [fieldAt 0 ⟨7⟩ ⟨12⟩]⟩) (by decide)
      (.cons (laid_field (by decide) (by decide)) .nil)
      (.cons (laid_field (by decide) (by decide)) .nil)
  exact ⟨⟨⟨_, rfl⟩, by decide, by decide⟩, written.reverse, List.reverse_perm _,
    .cons hline (.cons hpoint .nil)⟩

end Example

/-- The run on the reversed declarations passes because the other one does, and it lists the same
names. -/
theorem check_reversed :
    LaidOut Example.written Example.table Example.declared
      ∧ LaidOut Example.written Example.shuffled Example.reversed
      ∧ ((Schema.ofDeclarations Example.reversed).check Example.shuffled .ci).result = .ok ()
      ∧ ((Schema.ofDeclarations Example.reversed).check Example.shuffled
          .ci).schema.visitOrder.map Example.shuffled.text = ["Point", "Line"] := by
  have hpass : ((Schema.ofDeclarations Example.declared).check Example.table .ci).result
      = .ok () := by cbv
  have horder : ((Schema.ofDeclarations Example.declared).check Example.table
      .ci).schema.visitOrder.map Example.table.text = ["Point", "Line"] := by cbv
  have hmain := check_independent Example.laidOut_declared Example.laidOut_reversed .ci
    .ci
  exact ⟨Example.laidOut_declared, Example.laidOut_reversed, hmain.1.mp hpass,
    (hmain.2.1 hpass).symm.trans horder⟩

end Written

end DepSchema
