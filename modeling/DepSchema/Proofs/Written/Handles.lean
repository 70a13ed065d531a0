/-
DepSchema.Proofs.Written.Handles — the handles of one table for those of another one.

Two sound tables that know the same text give it two handles. The pairs that arise are one to one,
and handles are finitely many, so some renaming takes the handles of the first table to those of
the second. It carries every layout over the first table to the layout over the second, once the
places are forgotten.

Main results: `exists_agree` and `Agree.declaration`.
-/
import DepSchema.Proofs.Renaming.Schema
import DepSchema.Proofs.Written.Syntax

namespace DepSchema

namespace Renaming

/-! ## §1. A renaming from one table to another one. -/

/-- What the two tables call a text gets the same handle, and every node the same place. -/
structure Agree (ρ ρ' : Renaming) (t t' : SymbolTable) : Prop where
  name : ∀ {text n n'}, t.find? text = some n → t'.find? text = some n' → ρ.name n = ρ'.name n'
  place : ∀ p p', ρ.place p = ρ'.place p'

/-- Forgets the places and keeps the handles. -/
def erase : Renaming := ⟨id, fun _ => ⟨0, 0⟩, Function.injective_id, fun _ => rfl⟩

instance : Finite Symbol :=
  Finite.of_injective (fun n : Symbol => n.index.toFin) fun m n h => by
    cases m
    cases n
    exact congrArg Symbol.mk (UInt32.toFin_inj.mp h)

/-- **Some renaming takes the handles of one table to those of another one.** -/
theorem exists_agree {t t' : SymbolTable} (h : t.Sound) (h' : t'.Sound) :
    ∃ ρ : Renaming, ρ.Agree erase t t' := by
  classical
  let shared : Set Symbol := fun n => ∃ text n', t.find? text = some n ∧ t'.find? text = some n'
  let other (n : Symbol) : Symbol := (t'.find? (t.text n)).getD n
  have hother : ∀ {text n n'}, t.find? text = some n → t'.find? text = some n' → other n = n' := by
    intro text n n' hn hn'
    show (t'.find? (t.text n)).getD n = n'
    rw [h.text_of_find? hn, hn', Option.getD_some]
  -- two texts with one handle in the second table are the same text
  have hinj : Set.InjOn other shared := by
    rintro m ⟨a, m', hm, hm'⟩ n ⟨b, n', hn, hn'⟩ heq
    rw [hother hm hm', hother hn hn'] at heq
    have htext : a = b := by rw [← h'.text_of_find? hm', ← h'.text_of_find? hn', heq]
    rw [htext, hn] at hm
    exact (Option.some.inj hm).symm
  -- handles are finitely many, so what is one to one on some of them extends to all
  have hfinite : Fintype Symbol := Fintype.ofFinite Symbol
  obtain ⟨g, hg⟩ := Set.MapsTo.exists_equiv_extend_of_card_eq (t := Finset.univ)
    Finset.card_univ.symm (fun n _ => Finset.mem_univ (other n)) hinj
  have hname : ∀ {text n n'}, t.find? text = some n → t'.find? text = some n' →
      (g n : Symbol) = n' := by
    intro text n n' hn hn'
    rw [hg n ⟨text, n', hn, hn'⟩, hother hn hn']
  have hbuiltin : ∀ {n : Symbol}, n.isBuiltin = true → (g n : Symbol) = n :=
    fun hn => hname (h.find?_builtin hn) (h'.find?_builtin hn)
  exact ⟨⟨fun n => g n, fun _ => ⟨0, 0⟩, Subtype.val_injective.comp g.injective, hbuiltin⟩,
    hname, fun _ _ => rfl⟩

/-! ## §2. Layouts of the same expression. -/

namespace Agree

variable {ρ ρ' : Renaming} {t t' : SymbolTable}

theorem ident (h : ρ.Agree ρ' t t') {text : String} {i i' : Ident}
    (hi : Written.Spells t text i) (hi' : Written.Spells t' text i') : ρ.ident i = ρ'.ident i' :=
  congrArg₂ Ident.mk (h.name hi hi') (h.place _ _)

/-- Lists that are laid out one by one. -/
theorem map_eq {α β γ : Type} {R R' : α → β → Prop} {f f' : β → γ} {ws : List α} {bs bs' : List β}
    (hbs : List.Forall₂ R ws bs) (hbs' : List.Forall₂ R' ws bs')
    (hone : ∀ w b b', R w b → R' w b' → f b = f' b') : bs.map f = bs'.map f' := by
  induction hbs generalizing bs' with
  | nil =>
    cases hbs'
    rfl
  | cons hb _ ih =>
    cases hbs' with
    | cons hb' htail => exact congrArg₂ List.cons (hone _ _ _ hb hb') (ih htail)

theorem access (h : ρ.Agree ρ' t t') {var : String} {fields : List String} {a a' : Access}
    (ha : Written.Spells t var a.var) (hfields : List.Forall₂ (Written.Spells t) fields a.fields)
    (ha' : Written.Spells t' var a'.var)
    (hfields' : List.Forall₂ (Written.Spells t') fields a'.fields) : ρ.access a = ρ'.access a' := by
  have hpath : a.fields.map ρ.ident = a'.fields.map ρ'.ident :=
    map_eq hfields hfields' fun _ _ _ => h.ident
  unfold Renaming.access
  rw [h.place a.span a'.span, h.ident ha ha', hpath]

mutual

theorem expr (h : ρ.Agree ρ' t t') : ∀ (w : Written.Expr) {e e' : Expr},
    w.Laid t e → w.Laid t' e' → ρ.expr e = ρ'.expr e'
  | .binary _ l r, _, _, .binary s hl hr, .binary s' hl' hr' => by
    rw [Renaming.expr, Renaming.expr, h.place s s', expr h l hl hl', expr h r hr hr']
  | .unary _ x, _, _, .unary s hx, .unary s' hx' => by
    rw [Renaming.expr, Renaming.expr, h.place s s', expr h x hx hx']
  | .type _ ps, _, _, .type s hi hps, .type s' hi' hps' => by
    rw [Renaming.expr, Renaming.expr, h.place s s', h.ident hi hi', exprs h ps hps hps']
  | .access _ _, _, _, .access ha hfs, .access ha' hfs' =>
    congrArg Expr.access (h.access ha hfs ha' hfs')
  | .scalar _, _, _, .scalar s _, .scalar s' _ => by
    rw [Renaming.expr, Renaming.expr, h.place s s']
  | .constructed _ fs, _, _, .constructed s hc hfs, .constructed s' hc' hfs' => by
    rw [Renaming.expr, Renaming.expr, h.place s s', h.ident hc hc', inits h fs hfs hfs']
  | .collection es, _, _, .collection s hes, .collection s' hes' => by
    rw [Renaming.expr, Renaming.expr, h.place s s', exprs h es hes hes']
  | .call _ as, _, _, .call s hf has, .call s' hf' has' => by
    rw [Renaming.expr, Renaming.expr, h.place s s', h.ident hf hf', exprs h as has has']

theorem exprs (h : ρ.Agree ρ' t t') : ∀ (ws : List Written.Expr) {es es' : List Expr},
    Written.Expr.LaidAll t ws es → Written.Expr.LaidAll t' ws es' → ρ.exprs es = ρ'.exprs es'
  | [], _, _, .nil, .nil => rfl
  | w :: ws, _, _, .cons he hes, .cons he' hes' => by
    rw [Renaming.exprs, Renaming.exprs, expr h w he he', exprs h ws hes hes']

theorem inits (h : ρ.Agree ρ' t t') :
    ∀ (ws : List (String × Written.Expr)) {fs fs' : List (Named Expr)},
      Written.Expr.LaidFields t ws fs → Written.Expr.LaidFields t' ws fs' →
        ρ.inits fs = ρ'.inits fs'
  | [], _, _, .nil, .nil => rfl
  | (_, w) :: ws, _, _, .cons hi he hfs, .cons hi' he' hfs' => by
    rw [Renaming.inits, Renaming.inits, h.ident hi hi', expr h w he he', inits h ws hfs hfs']

end

/-! ## §3. Layouts of the same declaration. -/

theorem type (h : ρ.Agree ρ' t t') {w : Written.TypeExpr} {e e' : TypeExpr} (he : w.Laid t e)
    (he' : w.Laid t' e') : ρ.type e = ρ'.type e' := by
  have hparams := h.exprs w.params he.params he'.params
  rw [exprs_eq_map, exprs_eq_map] at hparams
  unfold Renaming.type
  rw [h.place e.span e'.span, h.ident he.ident he'.ident, hparams]

theorem variableOf (h : ρ.Agree ρ' t t') {w : Written.Variable} {v v' : Variable}
    (hv : w.Laid t v) (hv' : w.Laid t' v') : ρ.variableOf v = ρ'.variableOf v' := by
  unfold Renaming.variableOf
  rw [h.ident hv.ident hv'.ident, h.type hv.type hv'.type]

theorem variablesOf (h : ρ.Agree ρ' t t') {ws : List Written.Variable} {vs vs' : List Variable}
    (hvs : List.Forall₂ (Written.Variable.Laid t) ws vs)
    (hvs' : List.Forall₂ (Written.Variable.Laid t') ws vs') :
    vs.map ρ.variableOf = vs'.map ρ'.variableOf :=
  map_eq hvs hvs' fun _ _ _ => h.variableOf

theorem constructor (h : ρ.Agree ρ' t t') {w : Written.Constructor} {c c' : Constructor}
    (hc : w.Laid t c) (hc' : w.Laid t' c') : ρ.constructor c = ρ'.constructor c' := by
  unfold Renaming.constructor
  rw [h.ident hc.ident hc'.ident, h.variablesOf hc.fields hc'.fields]

theorem ruleInput (h : ρ.Agree ρ' t t') {w : Written.RuleInput} {i i' : RuleInput}
    (hi : w.Laid t i) (hi' : w.Laid t' i') : ρ.ruleInput i = ρ'.ruleInput i' := by
  cases hi with
  | any span =>
    cases hi' with
    | any span' => exact congrArg RuleInput.any (h.place span span')
  | value he =>
    cases hi' with
    | value he' => exact congrArg RuleInput.value (h.expr _ he he')

theorem rule (h : ρ.Agree ρ' t t') {w : Written.Rule} {r r' : Rule} (hr : w.Laid t r)
    (hr' : w.Laid t' r') : ρ.rule r = ρ'.rule r' :=
  congrArg₂ Rule.mk (map_eq hr.inputs hr'.inputs fun _ _ _ => h.ruleInput)
    (map_eq hr.constructors hr'.constructors fun _ _ _ => h.constructor)

mutual

theorem parameterType (h : ρ.Agree ρ' t t') : ∀ (w : Written.ParameterType) {p p' : ParameterType},
    w.Laid t p → w.Laid t' p' → ρ.parameterType p = ρ'.parameterType p'
  | .value _, _, _, .value he, .value he' => congrArg ParameterType.value (h.type he he')
  | .function ws _, _, _, .function hps he, .function hps' he' =>
    congrArg₂ ParameterType.function (parameters h ws hps hps') (h.type he he')

theorem parameters (h : ρ.Agree ρ' t t') :
    ∀ (ws : List (String × Written.ParameterType)) {ps ps' : List (Named ParameterType)},
      Written.ParameterType.LaidAll t ws ps → Written.ParameterType.LaidAll t' ws ps' →
      ρ.parameters ps = ρ'.parameters ps'
  | [], _, _, .nil, .nil => rfl
  | (_, w) :: ws, _, _, .cons hi hp hps, .cons hi' hp' hps' => by
    rw [Renaming.parameters, Renaming.parameters, h.ident hi hi', parameterType h w hp hp',
      parameters h ws hps hps']

end

theorem body (h : ρ.Agree ρ' t t') {w : Option Written.Expr} {e e' : Option Expr}
    (he : Option.Rel (Written.Expr.Laid t) w e) (he' : Option.Rel (Written.Expr.Laid t') w e') :
    e.map ρ.expr = e'.map ρ'.expr := by
  cases he with
  | none =>
    cases he'
    rfl
  | some he =>
    cases he' with
    | some he' => exact congrArg some (h.expr _ he he')

/-- **Two layouts of a declaration are the same up to the renaming.** -/
theorem declaration (h : ρ.Agree ρ' t t') {w : Written.Declaration} {d d' : Declaration}
    (hd : w.Laid t d) (hd' : w.Laid t' d') : ρ.declaration d = ρ'.declaration d' := by
  cases hd with
  | @message _ _ _ m hname hdeps hfields =>
    cases hd' with
    | @message _ _ _ m' hname' hdeps' hfields' =>
      show Declaration.type (.message (ρ.message m)) = .type (.message (ρ'.message m'))
      unfold Renaming.message
      rw [h.ident hname hname', h.variablesOf hdeps hdeps', h.variablesOf hfields hfields']
  | @enum _ _ _ e hname hdeps hrules =>
    cases hd' with
    | @enum _ _ _ e' hname' hdeps' hrules' =>
      have hrows : e.rules.map ρ.rule = e'.rules.map ρ'.rule :=
        map_eq hrules hrules' fun _ _ _ => h.rule
      show Declaration.type (.enum (ρ.enum e)) = .type (.enum (ρ'.enum e'))
      unfold Renaming.enum
      rw [h.ident hname hname', h.variablesOf hdeps hdeps', hrows]
  | @function _ _ _ _ f hname hparams hresult hbody =>
    cases hd' with
    | @function _ _ _ _ f' hname' hparams' hresult' hbody' =>
      show Declaration.function (ρ.functionDef f) = .function (ρ'.functionDef f')
      unfold Renaming.functionDef
      rw [h.ident hname hname', h.parameters _ hparams hparams', h.type hresult hresult',
        h.body hbody hbody']

/-- **Two layouts of some declarations are the same up to the renaming and the order.** -/
theorem declarations (h : ρ.Agree ρ' t t') {ws : List Written.Declaration}
    {ds ds' : List Declaration} (hds : Written.LaidOut ws t ds) (hds' : Written.LaidOut ws t' ds') :
    (ds.map ρ.declaration).Perm (ds'.map ρ'.declaration) := by
  obtain ⟨us, hus, hlaid⟩ := hds.laid
  obtain ⟨us', hus', hlaid'⟩ := hds'.laid
  -- the first layout is put in the order in which the second one was written
  obtain ⟨vs, hvs, hperm⟩ := List.perm_comp_forall₂ (hus'.trans hus.symm) hlaid
  have hsame : vs.map ρ.declaration = ds'.map ρ'.declaration :=
    map_eq hvs hlaid' fun _ _ _ => h.declaration
  rw [← hsame]
  exact (hperm.map ρ.declaration).symm

end Agree

end Renaming

end DepSchema
