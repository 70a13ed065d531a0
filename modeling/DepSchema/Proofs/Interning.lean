/-
DepSchema.Proofs.Interning — one handle for each name, and one name for each handle.

A table is asked two things: which handle a name has, and which name is behind a handle. Interning a
name that was met changes neither answer. Interning a new one gives it the slot behind all others
and leaves those before it alone, so a name keeps its handle and a handle its name in all that
follows. No name takes two slots; as long as no two slots share a handle, the two questions are
inverse to each other.

A table that goes through its names for every question is slow. An `IndexedTable` keeps a map from
names to handles beside the names, and interning extends both. Its two parts say the same after
every run, because both it and the plain table answer the next question alike.

Main definition: `IndexedTable`. Main results: `find?_intern`, `Sound.find?_eq_some_iff`,
`IndexedTable.Represents.internAll` and `interning_faithful`.
-/
import Mathlib
import DepSchema.Symbol.Table

namespace DepSchema

namespace SymbolTable

variable {t t' : SymbolTable} {text : String} {n : Symbol}

/-! ## §1. Slots. -/

theorem slot_ofSlot {i : Nat} (h : i < 2 ^ 32) : (Symbol.ofSlot i).slot = i := by
  show i.toUInt32.toNat = i
  rw [Nat.toUInt32, UInt32.toNat_ofNat']
  omega

theorem ofSlot_slot (n : Symbol) : Symbol.ofSlot n.slot = n := by
  show Symbol.mk (UInt32.ofNat n.index.toNat) = n
  rw [UInt32.ofNat_toNat]

/-! ## §2. Interning one name. -/

theorem find?_eq_none_iff : t.find? text = none ↔ text ∉ t.names := by
  unfold find?
  rw [Option.map_eq_none_iff, List.idxOf?_eq_none_iff]

theorem intern_of_find? (h : t.find? text = some n) : t.intern text = (n, t) := by
  unfold intern
  rw [h]

theorem intern_of_new (h : text ∉ t.names) :
    t.intern text = (.ofSlot t.size, ⟨t.names ++ [text]⟩) := by
  unfold intern
  rw [find?_eq_none_iff.mpr h]
  rfl

/-- What a slot holds is what its handle reads as. -/
theorem getElem?_names_iff : t.names[n.slot]? = some text ↔ n.slot < t.size ∧ t.text n = text := by
  constructor
  · intro htext
    refine ⟨(List.getElem?_eq_some_iff.mp htext).1, ?_⟩
    unfold SymbolTable.text
    rw [htext, Option.getD_some]
  · rintro ⟨hlt, rfl⟩
    unfold SymbolTable.text
    rw [List.getElem?_eq_getElem hlt, Option.getD_some]

/-- A name that was met has the handle that it had when fewer names were met. -/
theorem find?_of_prefix (h : t.names <+: t'.names) (hn : t.find? text = some n) :
    t'.find? text = some n := by
  obtain ⟨rest, hrest⟩ := h
  obtain ⟨i, hi, rfl⟩ := Option.map_eq_some_iff.mp hn
  have happend : (t.names ++ rest).idxOf? text = some i := by
    unfold List.idxOf? at hi ⊢
    rw [List.findIdx?_append, hi, Option.some_or]
  unfold find?
  rw [← hrest, happend, Option.map_some]

/-- A slot that is taken holds the name that it held when fewer names were met. -/
theorem text_of_prefix (h : t.names <+: t'.names) (hn : n.slot < t.size) :
    t'.text n = t.text n := by
  obtain ⟨rest, hrest⟩ := h
  unfold SymbolTable.text
  rw [← hrest, List.getElem?_append_left hn]

/-- **Interning a name** settles its handle and no other one. -/
theorem find?_intern (t : SymbolTable) (text other : String) :
    (t.intern text).2.find? other
      = if text = other then some (t.intern text).1 else t.find? other := by
  by_cases hmem : text ∈ t.names
  · obtain ⟨n, hn⟩ := Option.ne_none_iff_exists'.mp fun h => find?_eq_none_iff.mp h hmem
    rw [intern_of_find? hn]
    split
    · next heq => rw [← heq, hn]
    · rfl
  · -- the name stands in no slot before, so it is found in the new one and the others as before
    rw [intern_of_new hmem]
    have hnone : t.names.findIdx? (· == text) = none := List.idxOf?_eq_none_iff.mpr hmem
    unfold find? List.idxOf?
    rw [List.findIdx?_append]
    split
    · next heq =>
      subst heq
      rw [hnone, Option.none_or]
      simp [size]
    · next hne => simp [hne]

theorem prefix_intern (t : SymbolTable) (text : String) : t.names <+: (t.intern text).2.names := by
  unfold intern
  split
  · exact List.prefix_rfl
  · exact List.prefix_append _ _

theorem nodup_intern (h : t.names.Nodup) (text : String) : (t.intern text).2.names.Nodup := by
  unfold intern
  split
  · exact h
  · next hnone =>
    rw [← List.concat_eq_append, List.nodup_concat]
    exact ⟨find?_eq_none_iff.mp hnone, h⟩

theorem mem_intern {other : String} :
    other ∈ (t.intern text).2.names ↔ other ∈ t.names ∨ other = text := by
  rw [← not_iff_not, ← find?_eq_none_iff, find?_intern, not_or, ← find?_eq_none_iff]
  split
  · next heq => simp [heq]
  · next hne => simp [Ne.symm hne]

/-! ## §3. Sound tables. -/

/-- A table that interning gives: the builtin types stand first, no name stands twice, and there is
a handle for each. -/
structure Sound (t : SymbolTable) : Prop where
  builtin : SymbolTable.builtinNames <+: t.names
  nodup : t.names.Nodup
  small : t.names.length ≤ 2 ^ 32

theorem sound_initial : initial.Sound := ⟨List.prefix_rfl, by decide, by decide⟩

/-- **The handle of a name leads back to the name, and from no other one to the handle.** -/
theorem Sound.find?_eq_some_iff (h : t.Sound) :
    t.find? text = some n ↔ n.slot < t.size ∧ t.text n = text := by
  rw [← getElem?_names_iff]
  constructor
  · intro hn
    obtain ⟨i, hi, rfl⟩ := Option.map_eq_some_iff.mp hn
    obtain ⟨hlt, htext, -⟩ := List.idxOf?_eq_some_iff.mp hi
    rw [slot_ofSlot (hlt.trans_le h.small)]
    exact List.getElem?_eq_some_iff.mpr ⟨hlt, htext⟩
  · intro hn
    obtain ⟨hlt, htext⟩ := List.getElem?_eq_some_iff.mp hn
    -- no slot before holds the same name
    have hfirst (j : Nat) (hj : j < n.slot) : ¬ t.names[j] = text := fun heq =>
      hj.ne (h.nodup.getElem_inj_iff.mp (heq.trans htext.symm))
    unfold find?
    rw [List.idxOf?_eq_some_iff.mpr ⟨hlt, htext, hfirst⟩, Option.map_some, ofSlot_slot]

/-- The handle that a table gives to a text leads back to the text. -/
theorem Sound.text_of_find? (h : t.Sound) (hn : t.find? text = some n) : t.text n = text :=
  (h.find?_eq_some_iff.mp hn).2

/-- Every table gives the same handles to the builtin types. -/
theorem Sound.find?_builtin (h : t.Sound) (hn : n.isBuiltin = true) :
    t.find? (initial.text n) = some n := by
  have hslot : n.slot < initial.size := by
    have hle : n.index.toNat ≤ 6 := of_decide_eq_true hn
    show n.index.toNat < 7
    omega
  exact h.find?_eq_some_iff.mpr
    ⟨hslot.trans_le h.builtin.length_le, text_of_prefix (t := initial) h.builtin hslot⟩

/-! ## §4. Interning several names. -/

/-- The table after meeting several names in turn. -/
def internAll (t : SymbolTable) (texts : List String) : SymbolTable :=
  texts.foldl (fun t text => (t.intern text).2) t

theorem internAll_append (t : SymbolTable) (before after : List String) :
    t.internAll (before ++ after) = (t.internAll before).internAll after :=
  List.foldl_append

theorem prefix_internAll (t : SymbolTable) (texts : List String) :
    t.names <+: (t.internAll texts).names := by
  induction texts generalizing t with
  | nil => exact List.prefix_rfl
  | cons text texts ih => exact (prefix_intern t text).trans (ih (t.intern text).2)

theorem nodup_internAll (h : t.names.Nodup) (texts : List String) :
    (t.internAll texts).names.Nodup := by
  induction texts generalizing t with
  | nil => exact h
  | cons text texts ih => exact ih (nodup_intern h text)

theorem mem_internAll {texts : List String} :
    text ∈ (t.internAll texts).names ↔ text ∈ t.names ∨ text ∈ texts := by
  induction texts generalizing t with
  | nil => simp [internAll]
  | cons first texts ih =>
    rw [List.mem_cons, ← or_assoc, ← mem_intern]
    exact ih

theorem mem_internAll_initial {texts : List String} :
    text ∈ (initial.internAll texts).names ↔ text ∈ builtinNames ++ texts := by
  rw [mem_internAll, List.mem_append]
  rfl

theorem size_internAll_initial (texts : List String) :
    (initial.internAll texts).size = (builtinNames ++ texts).toFinset.card := by
  have hmet : (initial.internAll texts).names.toFinset = (builtinNames ++ texts).toFinset := by
    ext text
    rw [List.mem_toFinset, List.mem_toFinset, mem_internAll_initial]
  rw [← hmet, List.toFinset_card_of_nodup (nodup_internAll sound_initial.nodup texts)]
  rfl

/-- **A table stays sound whatever names are interned in whatever order**, as long as there are
handles for all of them. -/
theorem Sound.internAll (h : t.Sound) {texts : List String}
    (hsmall : (t.internAll texts).size ≤ 2 ^ 32) : (t.internAll texts).Sound :=
  ⟨h.builtin.trans (prefix_internAll t texts), nodup_internAll h.nodup texts, hsmall⟩

/-- What interning a name has answered is what the name is found under at any later time. -/
theorem find?_internAll (t : SymbolTable) (before after : List String) (text : String) :
    (t.internAll (before ++ text :: after)).find? text
      = some ((t.internAll before).intern text).1 := by
  rw [internAll_append]
  refine find?_of_prefix (prefix_internAll ((t.internAll before).intern text).2 after) ?_
  rw [find?_intern, if_pos rfl]

/-- A new name makes the table larger for all later times. -/
theorem size_lt_internAll {before : List String} (hnew : text ∉ (t.internAll before).names)
    (after : List String) :
    (t.internAll before).size < (t.internAll (before ++ text :: after)).size := by
  calc (t.internAll before).size
      < ((t.internAll before).intern text).2.size := by
        rw [intern_of_new hnew]
        simp [size]
    _ ≤ (((t.internAll before).intern text).2.internAll after).size :=
        (prefix_internAll _ after).length_le
    _ = (t.internAll (before ++ text :: after)).size := by
        rw [internAll_append]
        rfl

/-- A new name gets the slot behind all others. -/
theorem slot_intern (hnew : text ∉ t.names) (hsmall : t.size < 2 ^ 32) :
    (t.intern text).1.slot = t.size := by
  rw [intern_of_new hnew]
  exact slot_ofSlot hsmall

end SymbolTable

/-! ## §5. Tables with an index. -/

/-- The names met so far, each in its slot, and the handle of each of them. -/
structure IndexedTable where
  names : Array String
  handles : Std.HashMap String Symbol

namespace IndexedTable

/-- The table that has met nothing. -/
def empty : IndexedTable := ⟨#[], ∅⟩

/-- The handle of a name that the table has met. -/
def find? (i : IndexedTable) (text : String) : Option Symbol := i.handles[text]?

/-- The handle of a name, and the table after meeting it. -/
def intern (i : IndexedTable) (text : String) : Symbol × IndexedTable :=
  match i.find? text with
  | some n => (n, i)
  | none =>
    let n := Symbol.ofSlot i.names.size
    (n, ⟨i.names.push text, i.handles.insert text n⟩)

/-- The table after meeting several names in turn. -/
def internAll (i : IndexedTable) (texts : List String) : IndexedTable :=
  texts.foldl (fun i text => (i.intern text).2) i

/-- The table that has met nothing but the builtin types. -/
def initial : IndexedTable := empty.internAll SymbolTable.builtinNames

/-- The name behind a handle. -/
def text (i : IndexedTable) (n : Symbol) : String := i.names[n.slot]?.getD SymbolTable.unknown

/-- The number of names met so far. -/
def size (i : IndexedTable) : Nat := i.names.size

variable {i : IndexedTable} {t : SymbolTable}

theorem find?_intern (i : IndexedTable) (text other : String) :
    (i.intern text).2.find? other
      = if text = other then some (i.intern text).1 else i.find? other := by
  unfold intern
  split
  · next n hn =>
    split
    · next heq => rw [← heq, hn]
    · rfl
  · show (i.handles.insert text (.ofSlot i.names.size))[other]? = _
    rw [Std.HashMap.getElem?_insert]
    simp only [beq_iff_eq]
    rfl

/-- Both parts say what the plain table says. -/
structure Represents (i : IndexedTable) (t : SymbolTable) : Prop where
  names : i.names.toList = t.names
  find? : ∀ text, i.find? text = t.find? text

theorem Represents.size_eq (h : i.Represents t) : i.size = t.size := by
  unfold size SymbolTable.size
  rw [← h.names, Array.length_toList]

theorem Represents.text_eq (h : i.Represents t) (n : Symbol) : i.text n = t.text n := by
  unfold text SymbolTable.text
  rw [← h.names, Array.getElem?_toList]

/-- **Interning a name in both tables** gives the same handle, and leaves the parts in step. -/
theorem Represents.intern (h : i.Represents t) (text : String) :
    (i.intern text).1 = (t.intern text).1 ∧ (i.intern text).2.Represents (t.intern text).2 := by
  have hsize : i.names.size = t.names.length := h.size_eq
  have hparts : (i.intern text).1 = (t.intern text).1
      ∧ (i.intern text).2.names.toList = (t.intern text).2.names := by
    unfold IndexedTable.intern SymbolTable.intern
    rw [h.find? text]
    cases t.find? text with
    | some n => exact ⟨rfl, h.names⟩
    | none => exact ⟨by rw [hsize], by rw [Array.toList_push, h.names]⟩
  refine ⟨hparts.1, hparts.2, fun other => ?_⟩
  rw [IndexedTable.find?_intern, SymbolTable.find?_intern, hparts.1, h.find? other]

theorem Represents.internAll (h : i.Represents t) (texts : List String) :
    (i.internAll texts).Represents (t.internAll texts) := by
  induction texts generalizing i t with
  | nil => exact h
  | cons text texts ih => exact ih (h.intern text).2

theorem represents_initial : initial.Represents .initial := by
  -- the builtin types are the first names that both tables meet
  have hempty : empty.Represents ⟨[]⟩ := ⟨rfl, fun _ => Std.HashMap.getElem?_empty⟩
  have hbuiltin : (⟨[]⟩ : SymbolTable).internAll SymbolTable.builtinNames = .initial := by decide
  exact hbuiltin ▸ hempty.internAll SymbolTable.builtinNames

theorem represents_internAll (texts : List String) :
    (initial.internAll texts).Represents (SymbolTable.initial.internAll texts) :=
  represents_initial.internAll texts

/-- **The two parts are inverse to each other.** -/
theorem Represents.handles_eq_some_iff (h : i.Represents t) (ht : t.Sound) {text : String}
    {n : Symbol} : i.handles[text]? = some n ↔ i.names[n.slot]? = some text := by
  rw [← Array.getElem?_toList, h.names, SymbolTable.getElem?_names_iff, ← ht.find?_eq_some_iff,
    ← h.find? text]
  rfl

end IndexedTable

/-! ## §6. Runs. -/

namespace SymbolTable

/-- **Interning is faithful.** Whatever names are interned in whatever order, as long as there are
handles for all that are different: what a name is found under is what interning it answered, and
leads back to it; a name that is new gets the slot behind all others, after those of the builtin
types; no other name is found, and no two names under one handle; the size is the number of
different names; and names that are met later change none of this. A table with an index answers
all of it alike, and its two parts are inverse to each other. -/
theorem interning_faithful (texts : List String)
    (hfew : (builtinNames ++ texts).toFinset.card ≤ 2 ^ 32) :
    let t := initial.internAll texts
    let i := IndexedTable.initial.internAll texts
    (∀ before text after, texts = before ++ text :: after →
      let n := ((initial.internAll before).intern text).1
      t.text n = text ∧ t.find? text = some n
        ∧ (text ∉ builtinNames ++ before → n.slot = (builtinNames ++ before).toFinset.card)
        ∧ ((IndexedTable.initial.internAll before).intern text).1 = n)
      ∧ builtinNames.map t.find? = Symbol.builtins.map some
      ∧ (∀ text, t.find? text = none ↔ text ∉ builtinNames ++ texts)
      ∧ (∀ text n, t.find? text = some n ↔ n.slot < t.size ∧ t.text n = text)
      ∧ (∀ text other, text ∈ builtinNames ++ texts → t.find? text = t.find? other → text = other)
      ∧ t.size = (builtinNames ++ texts).toFinset.card
      ∧ (∀ more (n : Symbol), n.slot < t.size → (t.internAll more).text n = t.text n)
      ∧ i.find? = t.find? ∧ i.text = t.text ∧ i.size = t.size
      ∧ ∀ text (n : Symbol), i.handles[text]? = some n ↔ i.names[n.slot]? = some text := by
  intro t i
  have hsize : t.size = (builtinNames ++ texts).toFinset.card := size_internAll_initial texts
  have hsound : t.Sound := sound_initial.internAll (hsize.trans_le hfew)
  have hunknown (text : String) : t.find? text = none ↔ text ∉ builtinNames ++ texts := by
    rw [find?_eq_none_iff, mem_internAll_initial]
  have hindex : i.Represents t := IndexedTable.represents_internAll texts
  refine ⟨?_, ?_, hunknown, fun _ _ => hsound.find?_eq_some_iff, ?_, hsize,
    fun more _ => text_of_prefix (prefix_internAll t more), funext hindex.find?,
    funext hindex.text_eq, hindex.size_eq, fun _ _ => hindex.handles_eq_some_iff hsound⟩
  · rintro before text after rfl n
    have hfind : t.find? text = some n := find?_internAll initial before after text
    refine ⟨hsound.text_of_find? hfind, hfind, fun hnew => ?_,
      ((IndexedTable.represents_internAll before).intern text).1⟩
    rw [← mem_internAll_initial] at hnew
    -- its slot is one of those at the end of the run, so it has a handle of its own
    have hless : (initial.internAll before).size < 2 ^ 32 :=
      (size_lt_internAll hnew after).trans_le hsound.small
    rw [← size_internAll_initial]
    exact slot_intern hnew hless
  · have htexts : builtinNames = Symbol.builtins.map initial.text := by decide
    have hall : ∀ n ∈ Symbol.builtins, n.isBuiltin = true := by decide
    rw [htexts, List.map_map]
    exact List.map_congr_left fun n hn => hsound.find?_builtin (hall n hn)
  · intro text other hmem hsame
    obtain ⟨n, hn⟩ := Option.ne_none_iff_exists'.mp fun h => (hunknown text).mp h hmem
    rw [← hsound.text_of_find? hn, ← hsound.text_of_find? (hsame.symm.trans hn)]

namespace Example

/-- Names of a schema of lists, two of them more than once and one of them builtin. -/
def listNames : List String := ["List", "Nil", "List", "Int", "head", "Nil"]

end Example

open Example

/-- The fifth call answers with the tenth slot, since nine names were met before it, and later names
leave that alone. A name that was never met has no handle. -/
theorem interning_faithful_lists :
    let t := initial.internAll listNames
    (builtinNames ++ listNames).toFinset.card ≤ 2 ^ 32
      ∧ "head" ∉ builtinNames ++ ["List", "Nil", "List", "Int"]
      ∧ ((initial.internAll ["List", "Nil", "List", "Int"]).intern "head").1.slot = 9
      ∧ (∀ more, (t.internAll more).text ⟨9⟩ = "head")
      ∧ t.find? "Int" = some .int ∧ t.find? "Cons" = none ∧ t.size = 10
      ∧ (IndexedTable.initial.internAll listNames).handles["Nil"]? = some ⟨8⟩
      ∧ (IndexedTable.initial.internAll listNames).text ⟨8⟩ = "Nil" := by
  intro t
  have hfew : (builtinNames ++ listNames).toFinset.card ≤ 2 ^ 32 := by decide
  have hnew : "head" ∉ builtinNames ++ ["List", "Nil", "List", "Int"] := by decide
  obtain ⟨hcalls, -, hnone, -, -, hsize, hlater, hfind, htext, -, -⟩ :=
    interning_faithful listNames hfew
  obtain ⟨hhead, -, hslot, -⟩ := hcalls ["List", "Nil", "List", "Int"] "head" ["Nil"] rfl
  obtain ⟨-, hint, -, -⟩ := hcalls ["List", "Nil", "List"] "Int" ["head", "Nil"] rfl
  obtain ⟨hnil, hnil', -, -⟩ := hcalls ["List"] "Nil" ["List", "Int", "head", "Nil"] rfl
  have hten : t.size = 10 := hsize.trans (by decide)
  exact ⟨hfew, hnew, (hslot hnew).trans (by decide),
    fun more => (hlater more ⟨9⟩ (hten ▸ by decide)).trans hhead, hint,
    (hnone "Cons").mpr (by decide), hten, (congrFun hfind "Nil").trans hnil',
    (congrFun htext ⟨8⟩).trans hnil⟩

end SymbolTable

end DepSchema
