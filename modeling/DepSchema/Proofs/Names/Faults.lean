/-
DepSchema.Proofs.Names.Faults — the walk finds the faults of each part, and no others.

A walk adds events, opens and closes frames and declares names. From one point of it to another it
`Extends` what was there: faults are put behind those before, the open frames stay, the innermost
one takes the names declared on the way, and the frame of a rule takes what its inputs bind. Opening
a frame before such a stretch and closing it afterwards drops the names of that frame and keeps the
rest. Hence what a declaration reports is what can be read off it, and nothing is left behind.

Main results: `extends_expr`, `extends_typeDef`, `extends_functionDef` and `nameFaults_eq`.
-/
import Mathlib
import DepSchema.Proofs.Names.Reading
import DepSchema.Proofs.Registry

namespace DepSchema

/-! ## §1. Frames by their level. -/

namespace Scopes

/-- Among frames, the innermost first, the one at a level counted from the outermost one binds a
name. -/
def Holds : List (List (Symbol × Unit)) → Nat → Symbol → Prop
  | [], _, _ => False
  | frame :: frames, level, n =>
    (level = frames.length ∧ (frame.lookup n).isSome = true) ∨ Holds frames level n

/-- The frame at a level binds a name. -/
def Has (s : Scopes Unit) (level : Nat) (n : Symbol) : Prop := Holds s.frames level n

theorem Holds.lt_length {frames : List (List (Symbol × Unit))} {level : Nat} {n : Symbol}
    (h : Holds frames level n) : level < frames.length := by
  induction frames with
  | nil => exact h.elim
  | cons frame frames ih =>
    rw [List.length_cons]
    rcases h with ⟨hlevel, -⟩ | h
    · omega
    · have hlt := ih h
      omega

theorem contains_iff {s : Scopes Unit} {n : Symbol} :
    s.contains n = true ↔ ∃ level, s.Has level n := by
  obtain ⟨frames⟩ := s
  unfold contains find? Has
  dsimp only
  induction frames with
  | nil => simp [Holds]
  | cons frame frames ih =>
    rw [List.findSome?_cons]
    -- a look-up stops at the innermost frame that has the name; its level is the number of frames
    -- outside it
    cases hframe : frame.lookup n with
    | some u =>
      refine ⟨fun _ => ⟨frames.length, .inl ⟨rfl, ?_⟩⟩, fun _ => rfl⟩
      rw [hframe]
      rfl
    | none =>
      rw [ih]
      constructor
      · intro hgiven
        obtain ⟨level, h⟩ := hgiven
        exact ⟨level, .inr h⟩
      · intro hfound
        rcases hfound with ⟨level, ⟨-, h⟩ | h⟩
        · rw [hframe] at h
          cases h
        · exact ⟨level, h⟩

/-- A new frame binds nothing. -/
theorem has_push {s : Scopes Unit} {level : Nat} {n : Symbol} :
    s.push.Has level n ↔ s.Has level n := by
  simp [push, Has, Holds]

/-- Closing a frame drops what it binds. -/
theorem has_pop {s : Scopes Unit} {level : Nat} {n : Symbol} :
    s.pop.Has level n ↔ s.Has level n ∧ level + 1 < s.depth := by
  obtain ⟨frames⟩ := s
  cases frames with
  | nil => simp [pop, Has, Holds]
  | cons frame frames =>
    -- the frame that is closed has the highest level, and no other frame reaches that level
    show Holds frames level n ↔ Holds (frame :: frames) level n ∧ level + 1 < frames.length + 1
    constructor
    · intro h
      have hlt := h.lt_length
      exact ⟨.inr h, by omega⟩
    · intro hgiven
      rcases hgiven with ⟨⟨hlevel, -⟩ | h, hlt⟩
      · omega
      · exact h

theorem holds_modify {frames : List (List (Symbol × Unit))} {level : Nat} {n name : Symbol} :
    ∀ i, Holds (frames.modify i (insertInto name ())) level n
      ↔ Holds frames level n ∨ (level + i + 1 = frames.length ∧ n = name) := by
  -- on the frames, and not on `i`: levels are counted from the other end than positions
  induction frames with
  | nil =>
    intro i
    simp [Holds]
  | cons frame frames ih =>
    intro i
    cases i with
    | zero =>
      simp only [List.modify_zero_cons, Holds, lookup_insertInto, List.length_cons]
      -- the frame at hand is the one that changes
      by_cases hn : n = name
      · simp only [hn, if_true, Option.isSome_some, and_true]
        constructor
        · intro hor
          rcases hor with h | h
          · exact .inr (by omega)
          · exact .inl (.inr h)
        · intro heither
          rcases heither with (⟨h, -⟩ | h) | h
          · exact .inl h
          · exact .inr h
          · exact .inl (by omega)
      · simp [hn]
    | succ i =>
      simp only [List.modify_succ_cons, Holds, ih i, List.length_modify, List.length_cons]
      constructor
      · intro hcase
        rcases hcase with h | h | ⟨h, hn⟩
        · exact .inl (.inl h)
        · exact .inl (.inr h)
        · exact .inr ⟨by omega, hn⟩
      · intro hone
        rcases hone with (h | h) | ⟨h, hn⟩
        · exact .inl h
        · exact .inr (.inl h)
        · exact .inr (.inr ⟨by omega, hn⟩)

/-- A binding at a level adds its name there. -/
theorem has_bindOut {s : Scopes Unit} {level k : Nat} {n name : Symbol} (hk : k < s.depth) :
    (s.bindOut (s.depth - 1 - k) name ()).Has level n
      ↔ s.Has level n ∨ (level = k ∧ n = name) := by
  unfold depth at hk
  unfold bindOut Has
  rw [holds_modify]
  constructor
  · intro hor
    rcases hor with h | ⟨h, hn⟩
    · exact .inl h
    · refine .inr ⟨?_, hn⟩
      unfold depth at h
      omega
  · intro heither
    rcases heither with h | ⟨h, hn⟩
    · exact .inl h
    · refine .inr ⟨?_, hn⟩
      unfold depth
      omega

theorem has_bind {s : Scopes Unit} {level : Nat} {n name : Symbol} :
    (s.bind name ()).Has level n ↔ s.Has level n ∨ (level + 1 = s.depth ∧ n = name) := by
  unfold bind bindOut Has
  exact holds_modify 0

theorem depth_bindOut (s : Scopes Unit) (k : Nat) (name : Symbol) :
    (s.bindOut k name ()).depth = s.depth := by
  simp [depth, bindOut]

theorem contains_bind {s : Scopes Unit} {n name : Symbol} (hs : 0 < s.depth) :
    (s.bind name ()).contains n = true ↔ s.contains n = true ∨ n = name := by
  rw [contains_iff, contains_iff]
  constructor
  · intro hgiven
    obtain ⟨level, h⟩ := hgiven
    rcases has_bind.mp h with h | ⟨-, h⟩
    · exact .inl ⟨level, h⟩
    · exact .inr h
  · intro hor
    rcases hor with ⟨level, h⟩ | h
    · exact ⟨level, has_bind.mpr (.inl h)⟩
    · exact ⟨s.depth - 1, has_bind.mpr (.inr ⟨by omega, h⟩)⟩

theorem contains_foldl_bind {n : Symbol} (names : List Symbol) :
    ∀ s : Scopes Unit, 0 < s.depth →
      ((names.foldl (fun s name => s.bind name ()) s).contains n = true
        ↔ s.contains n = true ∨ n ∈ names) := by
  induction names with
  | nil => simp
  | cons name names ih =>
    intro s hs
    have hdepth : 0 < (s.bind name ()).depth := by
      rw [show (s.bind name ()).depth = s.depth from depth_bindOut _ _ _]
      exact hs
    rw [List.foldl_cons, ih _ hdepth, contains_bind hs, List.mem_cons, or_assoc]

end Scopes

/-! ## §2. From one point of a walk to another. -/

/-- The fault that an event notes. -/
def Event.fault? : Event → Option Diagnostic
  | nameFault d => some d
  | _ => none

namespace NameWalk

/-- The faults that were noted, in order. -/
def faults (r : NameWalk) : List Diagnostic := r.events.reverse.filterMap Event.fault?

/-- Some frame is open, and the one that takes what rule inputs bind is among the open ones. -/
structure Open (r : NameWalk) : Prop where
  depth : 0 < r.scopes.depth
  aliasFrame : ∀ k, r.aliasFrame = some k → k < r.scopes.depth

/-- From `r` to `r'` these faults were found, the names `inner` declared in the innermost frame and
the names `bound` bound in the frame of a rule. -/
structure Extends (r r' : NameWalk) (faults : List Diagnostic) (inner bound : List Symbol) :
    Prop where
  aliasFrame : r'.aliasFrame = r.aliasFrame
  depth : r'.scopes.depth = r.scopes.depth
  faults : r'.faults = r.faults ++ faults
  has : ∀ level n, r'.scopes.Has level n ↔ r.scopes.Has level n
    ∨ (level + 1 = r.scopes.depth ∧ n ∈ inner) ∨ (r.aliasFrame = some level ∧ n ∈ bound)

/-- What is declared at a point of a walk. -/
def declared (r : NameWalk) : Declared := r.inScope

/-- Whether a rule input is being read. -/
def reading (r : NameWalk) : Bool := r.aliasFrame.isSome

variable {r r' r'' : NameWalk} {f f' : List Diagnostic} {i i' b b' : List Symbol}

theorem Extends.refl (r : NameWalk) : r.Extends r [] [] [] :=
  ⟨rfl, rfl, by simp, by simp⟩

theorem Extends.trans (h : r.Extends r' f i b) (h' : r'.Extends r'' f' i' b') :
    r.Extends r'' (f ++ f') (i ++ i') (b ++ b') := by
  refine ⟨h'.aliasFrame.trans h.aliasFrame, h'.depth.trans h.depth, ?_, ?_⟩
  · rw [h'.faults, h.faults, List.append_assoc]
  · intro level n
    -- both stretches speak of the same levels, since neither opens or closes a frame for good
    rw [h'.has, h.has, h.depth, h.aliasFrame, List.mem_append, List.mem_append]
    tauto

theorem Extends.isOpen (h : r.Extends r' f i b) (hr : r.Open) : r'.Open := by
  refine ⟨?_, ?_⟩
  · rw [h.depth]
    exact hr.depth
  · intro k hk
    rw [h.depth]
    exact hr.aliasFrame k (h.aliasFrame.symm.trans hk)

theorem Extends.reading_eq (h : r.Extends r' f i b) : r'.reading = r.reading := by
  unfold reading
  rw [h.aliasFrame]

/-- The names that are declared afterwards. -/
theorem Extends.declared_eq (h : r.Extends r' f i b) (hr : r.Open) :
    r'.declared = (r.declared.bound r.reading b).adding i := by
  funext n
  rw [Bool.eq_iff_iff]
  show r'.scopes.contains n = true ↔ _
  rw [Scopes.contains_iff]
  -- what a rule input binds is declared only where the frame for it is open
  have hbound : r.declared.bound r.reading b n = true
      ↔ (∃ level, r.scopes.Has level n) ∨ (r.reading = true ∧ n ∈ b) := by
    rw [← Scopes.contains_iff]
    unfold Declared.bound Declared.adding
    cases r.reading with
    | false =>
      show r.scopes.contains n = true ↔ _
      simp
    | true =>
      show (b.contains n || r.scopes.contains n) = true ↔ _
      simp [or_comm]
  unfold Declared.adding
  rw [Bool.or_eq_true, hbound, List.contains_iff_mem]
  constructor
  · intro hgiven
    obtain ⟨level, hlevel⟩ := hgiven
    -- a frame that binds `n` now had it before, or took it on the way
    rcases (h.has level n).mp hlevel with hlevel | ⟨-, hn⟩ | ⟨hk, hn⟩
    · exact .inr (.inl ⟨level, hlevel⟩)
    · exact .inl hn
    · exact .inr (.inr ⟨by rw [reading, hk]; rfl, hn⟩)
  · intro hor
    rcases hor with hn | ⟨level, hlevel⟩ | ⟨hreading, hn⟩
    · have hdepth := hr.depth
      exact ⟨r.scopes.depth - 1, (h.has _ n).mpr (.inr (.inl ⟨by omega, hn⟩))⟩
    · exact ⟨level, (h.has level n).mpr (.inl hlevel)⟩
    · obtain ⟨k, hk⟩ := Option.isSome_iff_exists.mp hreading
      exact ⟨k, (h.has k n).mpr (.inr (.inr ⟨hk, hn⟩))⟩

/-- The names that are declared afterwards, where no rule input is being read. -/
theorem Extends.declared_of_inner (h : r.Extends r' f i b) (hr : r.Open)
    (hreading : r.reading = false) : r'.declared = r.declared.adding i := by
  rw [h.declared_eq hr, hreading]
  rfl

/-! ## §3. Single steps. -/

theorem faults_note (r : NameWalk) (e : Event) :
    (r.note e).faults = r.faults ++ e.fault?.toList := by
  unfold faults note
  rw [List.reverse_cons, List.filterMap_append]
  cases he : e.fault? <;> simp [he]

/-- Events that are no faults change nothing. -/
theorem extends_note (r : NameWalk) {e : Event} (he : e.fault? = none) :
    r.Extends (r.note e) [] [] [] := by
  refine ⟨rfl, rfl, ?_, by simp [note]⟩
  rw [faults_note, he]
  rfl

theorem extends_fault (r : NameWalk) (span : Span) (cause : Cause) :
    r.Extends (r.fault span cause) [.located span cause] [] [] :=
  ⟨rfl, rfl, faults_note _ _, by simp [fault, note]⟩

theorem extends_demand (r : NameWalk) (i : Ident) (cause : Symbol → Cause) :
    r.Extends (r.demand i cause) (r.declared.demand i cause) [] [] := by
  unfold demand Declared.demand declared
  cases r.inScope i.name with
  | true => exact .refl r
  | false => exact extends_fault r i.span (cause i.name)

theorem extends_add (r : NameWalk) (i : Ident) (kind : NameKind) :
    r.Extends (r.add i kind) [] [i.name] [] := by
  refine ⟨rfl, Scopes.depth_bindOut _ _ _, ?_, ?_⟩
  · show (r.note (.nameAdded i.name kind)).faults = r.faults ++ []
    rw [faults_note]
    rfl
  · intro level n
    show (r.scopes.bind i.name ()).Has level n ↔ _
    rw [Scopes.has_bind]
    simp

theorem extends_declare (kind : NameKind) (r : NameWalk) (i : Ident) :
    r.Extends (r.declare kind i) (r.declared.redeclared kind i) [i.name] [] := by
  unfold declare Declared.redeclared declared
  cases r.inScope i.name with
  | true =>
    -- a name that is declared again is a fault, and is declared all the same
    have hfault := (extends_fault r i.span (.redeclared kind i.name)).trans (extends_add _ i kind)
    exact hfault
  | false => exact extends_add r i kind

theorem extends_bindAlias (hr : r.Open) (i : Ident) : r.Extends (r.bindAlias i) [] [] [i.name] := by
  unfold bindAlias
  have hnote := extends_note r (e := .aliasAdded i.name) rfl
  dsimp only
  cases halias : (r.note (.aliasAdded i.name)).aliasFrame with
  | none =>
    refine ⟨rfl, rfl, hnote.faults, ?_⟩
    intro level n
    have hnone : r.aliasFrame = none := halias
    simp [note, hnone]
  | some k =>
    have hk : r.aliasFrame = some k := halias
    refine ⟨hk.symm, Scopes.depth_bindOut _ _ _, hnote.faults, ?_⟩
    intro level n
    show (r.scopes.bindOut (r.scopes.depth - 1 - k) i.name ()).Has level n ↔ _
    rw [Scopes.has_bindOut (hr.aliasFrame k hk), hk]
    simp [eq_comm]

/-- A new frame declares nothing, and frames are open in it. -/
theorem declared_push (r : NameWalk) : r.push.declared = r.declared := rfl

theorem Open.push (hr : r.Open) : r.push.Open := by
  refine ⟨Nat.succ_pos _, ?_⟩
  intro k hk
  have hlt := hr.aliasFrame k hk
  show k < r.scopes.depth + 1
  omega

/-- **A frame that is opened and closed again drops its own names and keeps all else.** -/
theorem Extends.bracket (hr : r.Open) (h : r.push.Extends r' f i b) :
    r.Extends r'.pop f [] b := by
  have hdepth : r'.scopes.depth = r.scopes.depth + 1 := h.depth
  refine ⟨h.aliasFrame, ?_, ?_, ?_⟩
  · show r'.scopes.frames.tail.length = r.scopes.depth
    rw [List.length_tail]
    show r'.scopes.depth - 1 = r.scopes.depth
    omega
  · -- opening and closing are noted, but are no faults
    show ({ r' with scopes := r'.scopes.pop }.note _).faults = r.faults ++ f
    rw [faults_note]
    show r'.faults ++ [] = r.faults ++ f
    rw [List.append_nil, h.faults]
    show ({ r with scopes := r.scopes.push }.note _).faults ++ f = r.faults ++ f
    rw [faults_note]
    show (r.faults ++ []) ++ f = r.faults ++ f
    rw [List.append_nil]
  · intro level n
    show r'.scopes.pop.Has level n ↔ _
    -- the frame that is closed is the only one at its level, and a rule's frame is further out
    rw [Scopes.has_pop, h.has, hdepth]
    show (r.scopes.push.Has level n ∨ (level + 1 = r.scopes.depth + 1 ∧ n ∈ i)
      ∨ (r.aliasFrame = some level ∧ n ∈ b)) ∧ level + 1 < r.scopes.depth + 1 ↔ _
    rw [Scopes.has_push]
    constructor
    · intro hgiven
      rcases hgiven with ⟨hn | ⟨hlevel, -⟩ | hn, hlt⟩
      · exact .inl hn
      · omega
      · exact .inr (.inr hn)
    · intro hor
      rcases hor with hn | ⟨-, hn⟩ | hn
      · have hlt := Scopes.Holds.lt_length hn
        refine ⟨.inl hn, ?_⟩
        show level + 1 < r.scopes.frames.length + 1
        omega
      · cases hn
      · have hlt := hr.aliasFrame level hn.1
        exact ⟨.inr (.inr hn), by omega⟩

/-! ## §4. Expressions and types. -/

theorem aliasFrame_of_not_reading (hreading : r.reading = false) : r.aliasFrame = none := by
  rw [← Option.not_isSome_iff_eq_none, show r.aliasFrame.isSome = false from hreading]
  exact Bool.false_ne_true

/-- Where no rule input is being read, it does not matter what would be bound. -/
theorem Extends.of_not_reading (h : r.Extends r' f i b) (hreading : r.reading = false)
    (b' : List Symbol) : r.Extends r' f i b' := by
  have hnone := aliasFrame_of_not_reading hreading
  refine ⟨h.aliasFrame, h.depth, h.faults, ?_⟩
  intro level n
  rw [h.has, hnone]
  simp

theorem Extends.declared_same (h : r.Extends r' f [] []) (hr : r.Open) :
    r'.declared = r.declared := by
  rw [h.declared_eq hr]
  cases r.reading <;> rfl

theorem Extends.declared_bound (h : r.Extends r' f [] b) (hr : r.Open) :
    r'.declared = r.declared.bound r.reading b := h.declared_eq hr

theorem extends_unknownField (known : Symbol → Symbol → Bool) (ctor : Symbol) (defined : Bool)
    (r : NameWalk) (i : Ident) :
    r.Extends
      (if defined && !known ctor i.name then r.fault i.span (.unknownField i.name ctor) else r)
      (Expr.unknownField known ctor defined i) [] [] := by
  unfold Expr.unknownField
  cases defined && !known ctor i.name with
  | true => exact extends_fault r i.span (.unknownField i.name ctor)
  | false => exact .refl r

/-- What the walk does with the value of a field, and with a rule input. -/
theorem extends_value {known : Symbol → Symbol → Bool} {e : Expr} (hr : r.Open)
    (h : r.Extends (r.expr known e) (e.faults known r.reading r.declared) [] e.binds) :
    r.Extends
      (match r.bound? e with
        | some i => r.bindAlias i
        | none => r.expr known e)
      (if r.reading && e.bareVar?.isSome then [] else e.faults known r.reading r.declared) []
      e.bindsValue := by
  unfold bound? Expr.bindsValue
  -- a variable alone is bound inside a rule input and looked up everywhere else
  cases hreading : r.aliasFrame.isSome with
  | false =>
    have hnot : r.reading = false := hreading
    rw [hnot] at h ⊢
    exact h.of_not_reading hnot _
  | true =>
    have hyes : r.reading = true := hreading
    rw [hyes] at h ⊢
    cases e.bareVar? with
    | some i => exact extends_bindAlias hr i
    | none => exact h

mutual

/-- **The walk of an expression finds its faults**, and inside a rule input it binds its variables
alone. -/
theorem extends_expr (known : Symbol → Symbol → Bool) : ∀ (e : Expr) (r : NameWalk), r.Open →
    r.Extends (r.expr known e) (e.faults known r.reading r.declared) [] e.binds
  | .binary _ _ left right, r, hr => by
    have hl := extends_expr known left r hr
    -- the right operand sees what the left one binds
    have hrest := extends_expr known right _ (hl.isOpen hr)
    rw [hl.reading_eq, hl.declared_bound hr] at hrest
    exact hl.trans hrest
  | .unary _ _ x, r, hr => extends_expr known x r hr
  | .type _ i ps, r, hr => by
    have hname := extends_demand r i .undefinedType
    have hrest := extends_exprs known ps _ (hname.isOpen hr)
    rw [hname.reading_eq, hname.declared_same hr] at hrest
    exact hname.trans hrest
  | .access a, r, hr => extends_demand r a.var .undefinedVariable
  | .scalar _ _, r, hr => .refl r
  | .constructed _ c fs, r, hr => by
    have hname := extends_demand r c .undefinedConstructor
    -- the names of the fields are declared in a frame of their own, which is closed behind them
    have hfields := extends_inits known c.name (r.inScope c.name) fs _ (hname.isOpen hr).push
    have hbracket := hfields.bracket (hname.isOpen hr)
    have hreading : (r.demand c .undefinedConstructor).push.reading = r.reading := hname.reading_eq
    rw [hreading, declared_push, hname.declared_same hr] at hbracket
    exact hname.trans hbracket
  | .collection _ es, r, hr => extends_exprs known es r hr
  | .call _ f as, r, hr => by
    have hname := extends_demand r f .undefinedFunction
    have hrest := extends_exprs known as _ (hname.isOpen hr)
    rw [hname.reading_eq, hname.declared_same hr] at hrest
    exact hname.trans hrest

theorem extends_exprs (known : Symbol → Symbol → Bool) :
    ∀ (es : List Expr) (r : NameWalk), r.Open →
      r.Extends (r.exprs known es) (Expr.faultsAll known r.reading r.declared es) []
        (Expr.bindsAll es)
  | [], r, hr => .refl r
  | e :: es, r, hr => by
    have he := extends_expr known e r hr
    have hrest := extends_exprs known es _ (he.isOpen hr)
    rw [he.reading_eq, he.declared_bound hr] at hrest
    exact he.trans hrest

theorem extends_inits (known : Symbol → Symbol → Bool) (ctor : Symbol) (defined : Bool) :
    ∀ (fs : List (Named Expr)) (r : NameWalk), r.Open →
      r.Extends (r.inits known ctor defined fs)
        (Expr.faultsFields known r.reading ctor defined r.declared fs)
        (fs.map fun f => f.name.name) (Expr.bindsFields fs)
  | [], r, hr => .refl r
  | f :: fs, r, hr => by
    -- the field is looked up, then its value is walked or bound, then its name is declared
    have hfield := extends_unknownField known ctor defined r f.name
    have hopen := hfield.isOpen hr
    have hvalue := extends_value hopen (extends_expr known f.val _ hopen)
    rw [hfield.reading_eq, hfield.declared_same hr] at hvalue
    have hone := (hfield.trans hvalue).trans (extends_add _ f.name .field)
    have hrest := extends_inits known ctor defined fs _ (hone.isOpen hr)
    rw [hone.reading_eq, hone.declared_eq hr] at hrest
    have hall := hone.trans hrest
    simp only [List.append_nil, List.nil_append] at hall
    exact hall

end

theorem extends_type (known : Symbol → Symbol → Bool) (hr : r.Open) (hreading : r.reading = false)
    (t : TypeExpr) : r.Extends (r.type known t) (t.faults known r.declared) [] [] := by
  have hexpr := extends_expr known t.toExpr r hr
  rw [hreading] at hexpr
  exact hexpr.of_not_reading hreading []

/-! ## §5. Declared types. -/

theorem extends_dependency (known : Symbol → Symbol → Bool) (hr : r.Open)
    (hreading : r.reading = false) (v : Variable) :
    r.Extends (r.dependency known v) (v.type.faults known r.declared) [v.name.name] [] := by
  have hall := (extends_type known hr hreading v.type).trans (extends_add _ v.name .dependency)
  rw [List.append_nil] at hall
  exact hall

theorem extends_dependencies (known : Symbol → Symbol → Bool) (deps : List Variable) :
    ∀ r : NameWalk, r.Open → r.reading = false →
      r.Extends (deps.foldl (dependency known) r) (Variable.depFaults known r.declared deps)
        (Variable.names deps) [] := by
  induction deps with
  | nil =>
    intro r _ _
    exact .refl r
  | cons v vs ih =>
    intro r hr hreading
    have hone := extends_dependency known hr hreading v
    have hrest := ih _ (hone.isOpen hr) (hone.reading_eq.trans hreading)
    rw [hone.declared_of_inner hr hreading] at hrest
    exact hone.trans hrest

theorem extends_field (known : Symbol → Symbol → Bool) (hr : r.Open) (hreading : r.reading = false)
    (v : Variable) :
    r.Extends (r.field known v)
      (v.type.faults known r.declared ++ r.declared.redeclared .field v.name) [v.name.name] [] := by
  have htype := extends_type known hr hreading v.type
  have hname := extends_declare .field (r.type known v.type) v.name
  rw [htype.declared_same hr] at hname
  exact htype.trans hname

theorem extends_fields (known : Symbol → Symbol → Bool) (fields : List Variable) :
    ∀ r : NameWalk, r.Open → r.reading = false →
      r.Extends (fields.foldl (field known) r) (Variable.fieldFaults known r.declared fields)
        (Variable.names fields) [] := by
  induction fields with
  | nil =>
    intro r _ _
    exact .refl r
  | cons v vs ih =>
    intro r hr hreading
    have hone := extends_field known hr hreading v
    have hrest := ih _ (hone.isOpen hr) (hone.reading_eq.trans hreading)
    rw [hone.declared_of_inner hr hreading] at hrest
    exact hone.trans hrest

theorem extends_constructor (known : Symbol → Symbol → Bool) (hr : r.Open)
    (hreading : r.reading = false) (c : Constructor) :
    r.Extends (r.constructor known c) (Variable.fieldFaults known r.declared c.fields) [] [] :=
  (extends_fields known c.fields r.push hr.push hreading).bracket hr

/-- Parts that declare nothing, one after the other. -/
theorem extends_foldl {α : Type} {step : NameWalk → α → NameWalk}
    (part : Declared → α → List Diagnostic)
    (h : ∀ (r : NameWalk) (a : α), r.Open → r.reading = false →
      r.Extends (step r a) (part r.declared a) [] []) (as : List α) :
    ∀ r : NameWalk, r.Open → r.reading = false →
      r.Extends (as.foldl step r) (as.flatMap (part r.declared)) [] [] := by
  induction as with
  | nil =>
    intro r _ _
    exact .refl r
  | cons a as ih =>
    intro r hr hreading
    have hone := h r a hr hreading
    have hrest := ih _ (hone.isOpen hr) (hone.reading_eq.trans hreading)
    rw [hone.declared_same hr] at hrest
    exact hone.trans hrest

theorem extends_input (known : Symbol → Symbol → Bool) (hr : r.Open) (hreading : r.reading = true)
    (input : RuleInput) :
    r.Extends (r.input known input) (input.faults known r.declared) [] input.binds := by
  cases input with
  | any span => exact .refl r
  | value e =>
    have hvalue := extends_value hr (extends_expr known e r hr)
    rw [hreading] at hvalue
    exact hvalue

theorem extends_inputs (known : Symbol → Symbol → Bool) (inputs : List RuleInput) :
    ∀ r : NameWalk, r.Open → r.reading = true →
      r.Extends (inputs.foldl (input known) r) (RuleInput.faultsAll known r.declared inputs) []
        (RuleInput.bindsAll inputs) := by
  induction inputs with
  | nil =>
    intro r _ _
    exact .refl r
  | cons i is ih =>
    intro r hr hreading
    have hone := extends_input known hr hreading i
    have hrest := ih _ (hone.isOpen hr) (hone.reading_eq.trans hreading)
    rw [hone.declared_bound hr, hreading] at hrest
    exact hone.trans hrest

/-- A stretch that reads rule inputs in the innermost frame. -/
theorem Extends.ofReading (hreading : r.aliasFrame = none)
    (h : Extends { r with aliasFrame := some (r.scopes.depth - 1) } r' f [] b) (hr : r.Open) :
    r.Extends { r' with aliasFrame := none } f b [] := by
  have hdepth := hr.depth
  refine ⟨hreading.symm, h.depth, h.faults, ?_⟩
  intro level n
  show r'.scopes.Has level n ↔ _
  rw [h.has]
  show r.scopes.Has level n ∨ (level + 1 = r.scopes.depth ∧ n ∈ [])
    ∨ (some (r.scopes.depth - 1) = some level ∧ n ∈ b) ↔ _
  -- the frame that takes the variables is the innermost one, so they are names declared there
  rw [Option.some.injEq]
  constructor
  · intro hor
    rcases hor with hn | ⟨-, hn⟩ | ⟨hlevel, hn⟩
    · exact .inl hn
    · cases hn
    · exact .inr (.inl ⟨by omega, hn⟩)
  · intro heither
    rcases heither with hn | ⟨hlevel, hn⟩ | ⟨-, hn⟩
    · exact .inl hn
    · exact .inr (.inr ⟨by omega, hn⟩)
    · cases hn

/-- The walk of a rule inside its frame: the inputs, whose variables the frame takes, then the
constructors. -/
def insideRule (known : Symbol → Symbol → Bool) (r : NameWalk) (rule : Rule) : NameWalk :=
  let r := rule.inputs.foldl (input known) { r with aliasFrame := some (r.scopes.depth - 1) }
  rule.constructors.foldl (constructor known) { r with aliasFrame := none }

theorem extends_insideRule (known : Symbol → Symbol → Bool) (hr : r.Open)
    (hreading : r.reading = false) (rule : Rule) :
    r.Extends (r.insideRule known rule) (rule.faults known r.declared)
      (RuleInput.bindsAll rule.inputs) [] := by
  have hnone : r.aliasFrame = none := aliasFrame_of_not_reading hreading
  -- inputs are read with the frame of the rule open for what they bind
  have hopen : Open { r with aliasFrame := some (r.scopes.depth - 1) } := by
    have hdepth := hr.depth
    refine ⟨hdepth, ?_⟩
    intro k h
    obtain ⟨rfl⟩ := h
    show r.scopes.depth - 1 < r.scopes.depth
    omega
  have hinputs := (extends_inputs known rule.inputs _ hopen rfl).ofReading hnone hr
  -- each constructor sees what the inputs bind, and nothing of the others
  have hconstructors := extends_foldl (fun V c => Variable.fieldFaults known V c.fields)
    (fun r c hr hreading => extends_constructor known hr hreading c) rule.constructors _
    (hinputs.isOpen hr) rfl
  rw [hinputs.declared_of_inner hr hreading] at hconstructors
  have hboth := hinputs.trans hconstructors
  rw [List.append_nil] at hboth
  exact hboth

theorem extends_rule (known : Symbol → Symbol → Bool) (hr : r.Open) (hreading : r.reading = false)
    (rule : Rule) : r.Extends (r.rule known rule) (rule.faults known r.declared) [] [] :=
  (extends_insideRule known hr.push hreading rule).bracket hr

/-- **The walk of a declared type finds its faults and leaves no name behind.** -/
theorem extends_typeDef (known : Symbol → Symbol → Bool) (hr : r.Open)
    (hreading : r.reading = false) (d : TypeDef) :
    r.Extends (r.typeDef known d) (d.faults known r.declared) [] [] := by
  cases d with
  | message m =>
    have hdeps := extends_dependencies known m.deps r.push hr.push hreading
    have hfields := extends_fields known m.fields _ (hdeps.isOpen hr.push)
      (hdeps.reading_eq.trans hreading)
    rw [hdeps.declared_of_inner hr.push hreading] at hfields
    exact (hdeps.trans hfields).bracket hr
  | enum e =>
    have hdeps := extends_dependencies known e.deps r.push hr.push hreading
    have hrules := extends_foldl (fun V rule => rule.faults known V)
      (fun r rule hr hreading => extends_rule known hr hreading rule) e.rules _
      (hdeps.isOpen hr.push) (hdeps.reading_eq.trans hreading)
    rw [hdeps.declared_of_inner hr.push hreading] at hrules
    exact (hdeps.trans hrules).bracket hr

/-! ## §6. Functions. -/

mutual

theorem extends_parameterType (known : Symbol → Symbol → Bool) :
    ∀ (t : ParameterType) (r : NameWalk), r.Open → r.reading = false →
      r.Extends (r.parameterType known t) (t.faults known r.declared) [] []
  | .value t, r, hr, hreading => extends_type known hr hreading t
  | .function ps result, r, hr, hreading => by
    have hparams := extends_params known ps r.push hr.push hreading
    have hresult := extends_type known (hparams.isOpen hr.push)
      (hparams.reading_eq.trans hreading) result
    rw [hparams.declared_of_inner hr.push hreading] at hresult
    exact (hparams.trans hresult).bracket hr

theorem extends_params (known : Symbol → Symbol → Bool) :
    ∀ (ps : List (Named ParameterType)) (r : NameWalk), r.Open → r.reading = false →
      r.Extends (r.params known ps) (ParameterType.faultsAll known r.declared ps)
        (ps.map fun p => p.name.name) []
  | [], r, hr, hreading => .refl r
  | p :: ps, r, hr, hreading => by
    have htype := extends_parameterType known p.val r hr hreading
    -- a parameter is declared behind its own type
    have hname := extends_declare .parameter (r.parameterType known p.val) p.name
    rw [htype.declared_same hr] at hname
    have hone := htype.trans hname
    have hrest := extends_params known ps _ (hone.isOpen hr) (hone.reading_eq.trans hreading)
    rw [hone.declared_of_inner hr hreading] at hrest
    exact hone.trans hrest

end

/-- **The walk of a function finds its faults and leaves no name behind.** -/
theorem extends_functionDef (known : Symbol → Symbol → Bool) (hr : r.Open)
    (hreading : r.reading = false) (f : FunctionDef) :
    r.Extends (r.functionDef known f) (f.faults known r.declared) [] [] := by
  have hparams := extends_params known f.params r.push hr.push hreading
  have hafter := hparams.reading_eq.trans hreading
  have hresult := extends_type known (hparams.isOpen hr.push) hafter f.result
  rw [hparams.declared_of_inner hr.push hreading] at hresult
  have hhead := hparams.trans hresult
  have hheadreading := hhead.reading_eq.trans hreading
  -- the body is walked in the frame of the parameters, if there is one
  obtain ⟨i, ps, result, body⟩ := f
  cases body with
  | none => exact (hhead.trans (.refl _)).bracket hr
  | some body =>
    have hbody := extends_expr known body _ (hhead.isOpen hr.push)
    rw [hheadreading, hhead.declared_of_inner hr.push hreading, List.append_nil] at hbody
    exact (hhead.trans (hbody.of_not_reading hheadreading [])).bracket hr

/-! ## §7. Global names. -/

/-- Declares a name of some kind. -/
def declareGlobal (r : NameWalk) (p : NameKind × Ident) : NameWalk := r.declare p.1 p.2

theorem extends_globals (names : List (NameKind × Ident)) :
    ∀ r : NameWalk, r.Open → r.reading = false →
      r.Extends (names.foldl declareGlobal r) (r.declared.globalFaults names)
        (names.map fun p => p.2.name) [] := by
  induction names with
  | nil =>
    intro r _ _
    exact .refl r
  | cons p names ih =>
    intro r hr hreading
    obtain ⟨kind, i⟩ := p
    have hone := extends_declare kind r i
    have hrest := ih _ (hone.isOpen hr) (hone.reading_eq.trans hreading)
    rw [hone.declared_of_inner hr hreading] at hrest
    exact hone.trans hrest

theorem extends_refused (refused : List (Ident × NameKind)) :
    ∀ r : NameWalk, r.Extends
      (refused.foldl (fun r (i, kind) => r.fault i.span (.redeclared kind i.name)) r)
      (refused.map fun (i, kind) => .located i.span (.redeclared kind i.name)) [] [] := by
  induction refused with
  | nil =>
    intro r
    exact .refl r
  | cons p refused ih =>
    intro r
    exact (extends_fault r p.1.span (.redeclared p.2 p.1.name)).trans (ih _)

/-- The walk after the builtin types were declared. -/
def builtin : NameWalk :=
  { start.push with scopes := Symbol.builtins.foldl (fun sc n => sc.bind n ()) start.push.scopes }

theorem builtin_open : builtin.Open := by
  refine ⟨by decide, ?_⟩
  intro k hk
  cases hk

theorem builtin_declared : builtin.declared = Symbol.builtins.contains := by
  funext n
  rw [Bool.eq_iff_iff]
  show (Symbol.builtins.foldl (fun s name => s.bind name ()) start.push.scopes).contains n = true
    ↔ _
  rw [Scopes.contains_foldl_bind Symbol.builtins start.push.scopes (by decide),
    List.contains_iff_mem]
  constructor
  · intro hor
    rcases hor with h | h
    · -- the walk starts with nothing declared
      cases h
    · exact h
  · exact .inr

theorem declareGlobal_map (kind : NameKind) (names : List Ident) (r : NameWalk) :
    (names.map fun i => (kind, i)).foldl declareGlobal r = names.foldl (declare kind) r :=
  List.foldl_map

theorem declareGlobal_typeDef (d : TypeDef) (r : NameWalk) :
    d.globalNames.foldl declareGlobal r = match d with
      | .message _ => r.declare d.kind d.ident
      | .enum e => (e.constructors.map Constructor.ident).foldl (declare .constructor)
          (r.declare d.kind d.ident) := by
  cases d with
  | message m => rfl
  | enum e =>
    show (e.constructors.map ((fun i => (NameKind.constructor, i)) ∘ Constructor.ident)).foldl
      declareGlobal _ = _
    rw [← List.map_map]
    exact declareGlobal_map .constructor _ _

/-- The walk of the global names: those of types with their constructors, then those of functions,
then the refused ones. -/
theorem globals_eq (s : Schema) : globals s start.push
    = s.refused.foldl (fun r (i, kind) => r.fault i.span (.redeclared kind i.name))
      (s.globalNames.foldl declareGlobal builtin) := by
  -- a type declares its name and then its constructors, one type after the other
  have htypes : ∀ (types : List TypeDef) (r : NameWalk),
      types.foldl (fun r d => match d with
        | .message _ => r.declare d.kind d.ident
        | .enum e => (e.constructors.map Constructor.ident).foldl (declare .constructor)
            (r.declare d.kind d.ident)) r
        = (types.flatMap TypeDef.globalNames).foldl declareGlobal r := by
    intro types
    induction types with
    | nil =>
      intro r
      rfl
    | cons d types ih =>
      intro r
      rw [List.foldl_cons, ih, List.flatMap_cons, List.foldl_append, declareGlobal_typeDef]
  have hfunctions : (s.functions.map fun f => (NameKind.function, f.ident))
      = (s.functions.map FunctionDef.ident).map fun i => (NameKind.function, i) := by
    rw [List.map_map]
    rfl
  have hnames : s.globalNames.foldl declareGlobal builtin
      = (s.functions.map FunctionDef.ident).foldl (declare .function)
        ((s.types.flatMap TypeDef.globalNames).foldl declareGlobal builtin) := by
    rw [Schema.globalNames, List.foldl_append, hfunctions, declareGlobal_map]
  rw [hnames, ← htypes]
  rfl

end NameWalk

/-! ## §8. Schemas. -/

open NameWalk

/-- **The name faults of a schema are those of its global names, then those of each type, then those
of each function**, and those of a type or a function can be read off it, once it is known which
names are declared everywhere and which constructor has which field. -/
theorem Schema.nameFaults_eq (s : Schema) :
    s.nameFaults
      = Declared.globalFaults Symbol.builtins.contains s.globalNames
        ++ (s.refused.map fun (i, kind) => .located i.span (.redeclared kind i.name))
        ++ s.types.flatMap (TypeDef.faults s.hasField s.globals)
        ++ s.functions.flatMap (FunctionDef.faults s.hasField s.globals) := by
  have hnames := extends_globals s.globalNames builtin builtin_open rfl
  have hglobals := hnames.trans (extends_refused s.refused _)
  rw [← globals_eq, List.append_nil, builtin_declared] at hglobals
  have hdeclared : (NameWalk.globals s start.push).declared = s.globals := by
    rw [hglobals.declared_of_inner builtin_open rfl, builtin_declared]
    rfl
  -- types and functions declare nothing that lasts, so each of them sees the global names only
  have htypes := extends_foldl (TypeDef.faults s.hasField)
    (fun r d hr hreading => extends_typeDef s.hasField hr hreading d) s.types _
    (hglobals.isOpen builtin_open) (hglobals.reading_eq.trans rfl)
  have hboth := hglobals.trans htypes
  have hfunctions :=
    extends_foldl (FunctionDef.faults s.hasField)
      (fun r f hr hreading => extends_functionDef s.hasField hr hreading f) s.functions _
      (hboth.isOpen builtin_open) (hboth.reading_eq.trans rfl)
  rw [htypes.declared_same (hglobals.isOpen builtin_open)] at hfunctions
  have hall := (hboth.trans hfunctions).faults
  rw [hdeclared] at hall
  -- the last frame is closed at the end, which is noted but is no fault
  have hpop : s.nameFaults = NameWalk.faults
      (s.functions.foldl (NameWalk.functionDef s.hasField)
        (s.types.foldl (NameWalk.typeDef s.hasField) (NameWalk.globals s start.push))) := by
    show NameWalk.faults (NameWalk.pop _) = _
    unfold pop
    rw [faults_note]
    exact List.append_nil _
  rw [hpop, hall]
  rfl

/-! ## §9. Clean schemas. -/

theorem Declared.globalFaults_eq_nil (names : List (NameKind × Ident)) : ∀ V : Declared,
    V.globalFaults names = [] ↔
      (names.map fun p => p.2.name).Nodup ∧ ∀ n ∈ names.map fun p => p.2.name, V n = false := by
  -- on the names; `V` grows by the name at hand, which is then a fault for those after it
  induction names with
  | nil => simp [Declared.globalFaults]
  | cons p names ih =>
    intro V
    obtain ⟨kind, i⟩ := p
    have hfirst : V.redeclared kind i = [] ↔ V i.name = false := by
      unfold Declared.redeclared
      cases V i.name <;> simp
    have hrest : ∀ n, V.adding [i.name] n = false ↔ n ≠ i.name ∧ V n = false := by
      intro n
      simp [Declared.adding]
    unfold Declared.globalFaults
    rw [List.append_eq_nil_iff, hfirst, ih, List.map_cons, List.nodup_cons, List.forall_mem_cons]
    constructor
    · intro h
      obtain ⟨hi, hnodup, hall⟩ := h
      refine ⟨⟨fun hmem => ((hrest _).mp (hall _ hmem)).1 rfl, hnodup⟩, hi, ?_⟩
      exact fun n hn => ((hrest n).mp (hall n hn)).2
    · intro hgiven
      obtain ⟨⟨hnew, hnodup⟩, hi, hall⟩ := hgiven
      refine ⟨hi, hnodup, fun n hn => (hrest n).mpr ⟨?_, hall n hn⟩⟩
      rintro rfl
      exact hnew hn

namespace Schema

theorem declaredNames_eq (s : Schema) :
    s.declaredNames = s.types.flatMap TypeDef.declaredNames ++ s.functionNames := by
  unfold declaredNames globalNames functionNames
  rw [List.map_append, List.map_flatMap, List.map_map]
  rfl

/-- **A schema has no name fault exactly when the names that it declares everywhere are different
and not builtin, nothing was refused, and each type and each function is clean.** -/
theorem nameFaults_eq_nil {s : Schema} :
    s.nameFaults = [] ↔
      (s.declaredNames.Nodup ∧ ∀ n ∈ s.declaredNames, Symbol.builtins.contains n = false)
        ∧ s.refused = []
        ∧ s.types.flatMap (TypeDef.faults s.hasField s.globals) = []
        ∧ s.functions.flatMap (FunctionDef.faults s.hasField s.globals) = [] := by
  rw [nameFaults_eq, List.append_eq_nil_iff, List.append_eq_nil_iff, List.append_eq_nil_iff,
    Declared.globalFaults_eq_nil, List.map_eq_nil_iff, and_assoc, and_assoc]
  rfl

theorem constructorNames_subset (d : TypeDef) : d.constructorNames ⊆ d.declaredNames := by
  intro c hc
  cases d with
  | message m =>
    obtain rfl : c = m.ident.name := List.mem_singleton.mp hc
    exact List.mem_cons_self
  | enum e =>
    obtain ⟨k, hk, rfl⟩ := List.mem_map.mp hc
    exact List.mem_cons_of_mem _ (List.mem_map.mpr ⟨_, List.mem_map_of_mem hk, rfl⟩)

/-- Where no name is declared twice, no two types share a constructor. -/
theorem unshared_of_nodup {s : Schema} (h : s.declaredNames.Nodup) : s.Unshared := by
  rw [declaredNames_eq] at h
  obtain ⟨-, hapart⟩ := List.nodup_flatMap.mp (List.nodup_append.mp h).1
  intro d hd d' hd' c hc hc'
  by_contra hne
  have hdiff : d ≠ d' := fun heq => hne (congrArg TypeDef.name heq)
  have hsymm : Std.Symm (Function.onFun List.Disjoint TypeDef.declaredNames) :=
    ⟨fun _ _ hab => hab.symm⟩
  -- two types with a common constructor would declare its name twice
  have hdisjoint := hapart.forall hd hd' hdiff
  exact hdisjoint (constructorNames_subset d hc) (constructorNames_subset d' hc')

end Schema

end DepSchema
