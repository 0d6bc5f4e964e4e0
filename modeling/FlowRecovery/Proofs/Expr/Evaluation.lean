import FlowRecovery.Proofs.Expr.Reduction
import FlowRecovery.Proofs.Masks

/-!
# Evaluation keeps meaning

A context `Suits` a vocabulary if it tells nothing but numbers of their width about variables, and
nothing about memory. Then every expression of the vocabulary is evaluated without a fault, to an
expression of the same width that is no heavier (`evaluate_spec`). On every machine that has the
contents that the context tells (`Machine.Agrees`), the result has the same value as the expression,
provided that no step of the evaluation was flawed (`Flawless`).

The depth to which an evaluation goes is bounded by the weight of the expression, which is at most
twice its size.
-/

namespace FlowRecovery

open Word List

/-- About the expressions of a vocabulary, the context tells no more than the numbers of variables.
-/
structure Context.Suits (Γ : Vocabulary) (c : Context) : Prop where
  valueOf {x : Var} (hx : Γ.declared x) : c.valueOf x = .var x ∨ ∃ v, c.valueOf x = Expr.number v x.width
  assignment (hmemory : Γ.memory) (w : Int) (a : Expr) (s : Option Expr) (n : Int) :
    c.assignment (.mem w a s n) = .mem w a s n

def Machine.Agrees (Γ : Vocabulary) (c : Context) (σ : Machine) : Prop :=
  ∀ x, Γ.declared x → Γ.width x.width → (c.valueOf x).value σ = (Expr.var x).value σ

namespace Expr

def Flawless (c : Context) : Nat → Expr → Prop
  | 0, _ => True
  | d + 1, e =>
    match e with
    | .op o old =>
      (∀ a ∈ old, Flawless c d a) ∧ ∀ as, old.mapM (evaluateTo c d) = .ok as →
        ¬IsFlawed o (widthOf (.op o old)) old as ∧
        ∀ r, reduce o (widthOf (.op o old)) (widthOf (.op o old)) old as = .ok (.again r) → Flawless c d r
    | .bits x _ _ => Flawless c d x
    | .cond b t f => Flawless c d b ∧ Flawless c d t ∧ Flawless c d f
    | .mem _ a _ _ => Flawless c d a
    | .special _ as => ∀ a ∈ as, Flawless c d a
    | _ => True

def Reduction.finish (c : Context) (d : Nat) : Reduction → Except Fault Expr
  | .done r => .ok r
  | .again r => evaluateTo c d r

/-- The second expression can stand for the first one as an operand. -/
structure Replaces (Γ : Vocabulary) (e r : Expr) : Prop where
  eq_of_isNumber (h : e.isNumber = true) : r = e
  hasWidth {w : Int} (h : HasWidth Γ e w) : HasWidth Γ r w

/-- What evaluation makes of an expression. -/
structure Outcome (Γ : Vocabulary) (c : Context) (d : Nat) (e r : Expr) : Prop extends Replaces Γ e r where
  ok : evaluateTo c d e = .ok r
  lighter : Lighter e r
  keeps {σ : Machine} (hσ : σ.Agrees Γ c) (hflawless : Flawless c d e) : value σ r = value σ e

variable {Γ : Vocabulary} {c : Context} {d : Nat} {o : Operator} {old as : List Expr} {b e f t : Expr} {w : Int} {σ : Machine}
  {ws : List Int}

@[simp] theorem flawless_num (c : Context) (d : Nat) (v : Int64) (w : Int) : Flawless c d (.num v w) := by
  cases d <;> trivial

@[simp] theorem flawless_var (c : Context) (d : Nat) (x : Var) : Flawless c d (.var x) := by
  cases d <;> trivial

theorem flawless_op (as : List Expr) (red : Reduction) (hoperands : ∀ a ∈ old, Flawless c d a)
    (has : old.mapM (evaluateTo c d) = .ok as) (hflawed : ¬IsFlawed o (widthOf (.op o old)) old as)
    (hred : reduce o (widthOf (.op o old)) (widthOf (.op o old)) old as = .ok red)
    (hagain : ∀ r, red = .again r → Flawless c d r) : Flawless c (d + 1) (.op o old) := by
  refine ⟨hoperands, fun as' has' => ?_⟩
  cases has.symm.trans has'
  exact ⟨hflawed, fun r hr => hagain r (Except.ok.inj (hred.symm.trans hr))⟩

/-! ### Operands -/

variable {α β : Type} {R : α → β → Prop} {l : List α}

theorem exists_forall₂ (h : ∀ a ∈ l, ∃ b, R a b) : ∃ l', Forall₂ R l l' := by
  induction l with
  | nil => exact ⟨[], .nil⟩
  | cons a l ih =>
    obtain ⟨⟨b, hb⟩, hl⟩ := forall_mem_cons.mp h
    obtain ⟨l', hl'⟩ := ih hl
    exact ⟨b :: l', .cons hb hl'⟩

theorem mapM_of_forall {f : α → Faulty β}
    (h : ∀ a ∈ l, ∃ b, f a = .ok b ∧ R a b) : ∃ bs, l.mapM f = .ok bs ∧ Forall₂ R l bs := by
  induction l with
  | nil => exact ⟨[], rfl, .nil⟩
  | cons a l ih =>
    obtain ⟨ha, hl⟩ := forall_mem_cons.mp h
    obtain ⟨b, hb, hR⟩ := ha
    obtain ⟨bs, hbs, hRs⟩ := ih hl
    refine ⟨b :: bs, ?_, .cons hR hRs⟩
    rw [mapM_cons, hb, hbs]
    rfl

theorem map_eq_of_forall₂ {γ : Type} {f : α → γ} {g : β → γ} {l' : List β}
    (h : Forall₂ R l l') (hfg : ∀ a ∈ l, ∀ b, R a b → g b = f a) : l'.map g = l.map f := by
  induction h with
  | nil => rfl
  | cons hR _ ih =>
    obtain ⟨ha, hl⟩ := forall_mem_cons.mp hfg
    rw [map_cons, map_cons, ha _ hR, ih hl]

theorem forall_of_forall₂ {P : β → Prop} {l' : List β}
    (h : Forall₂ R l l') (hP : ∀ a ∈ l, ∀ b, R a b → P b) : ∀ b ∈ l', P b := by
  induction h with
  | nil => simp
  | cons hR _ ih =>
    obtain ⟨ha, hl⟩ := forall_mem_cons.mp hP
    exact forall_mem_cons.mpr ⟨ha _ hR, ih hl⟩

theorem forall₂_one_left {a : α} {l : List β} (h : Forall₂ R [a] l) : ∃ b, l = [b] ∧ R a b := by
  simp only [forall₂_cons_left_iff, forall₂_nil_left_iff] at h
  obtain ⟨b, _, hb, rfl, rfl⟩ := h
  exact ⟨b, rfl, hb⟩

theorem forall₂_two_left {a a' : α} {l : List β} (h : Forall₂ R [a, a'] l) : ∃ b b', l = [b, b'] ∧ R a b ∧ R a' b' := by
  obtain ⟨b, _, hb, hl, rfl⟩ := forall₂_cons_left_iff.mp h
  obtain ⟨b', rfl, hb'⟩ := forall₂_one_left hl
  exact ⟨b, b', rfl, hb, hb'⟩

theorem forall₂_three_left {a a' a'' : α} {l : List β}
    (h : Forall₂ R [a, a', a''] l) : ∃ b b' b'', l = [b, b', b''] ∧ R a b ∧ R a' b' ∧ R a'' b'' := by
  obtain ⟨b, _, hb, hl, rfl⟩ := forall₂_cons_left_iff.mp h
  obtain ⟨b', b'', rfl, hb', hb''⟩ := forall₂_two_left hl
  exact ⟨b, b', b'', rfl, hb, hb', hb''⟩

theorem HasWidth.operand (h : HasWidth Γ (.op o as) w) : ∀ a ∈ as, a.isNumber ∨ ∃ u, HasWidth Γ a u := by
  cases h with
  | regroup _ _ _ _ has => exact fun a ha => .inr ⟨w, has a ha⟩
  | not _ ha | neg _ _ ha => simpa using .inr ⟨_, ha⟩
  | xor _ ha hb | compare _ ha hb | arith _ _ _ _ _ ha hb => simpa using ⟨.inr ⟨_, ha⟩, .inr ⟨_, hb⟩⟩
  | functional _ _ _ _ _ ha | cast _ _ ha => simpa [isNumber, value?] using .inr ⟨_, ha⟩
  | unknown _ _ hlen _ _ _ has =>
    intro a ha
    obtain ⟨u, hp⟩ := exists_mem_zip hlen ha
    exact .inr ⟨u, has (a, u) hp⟩

theorem hasWidth_zip (hold : ∀ p ∈ old.zip ws, HasWidth Γ p.1 p.2)
    (h : Forall₂ (Replaces Γ) old as) : ∀ p ∈ as.zip ws, HasWidth Γ p.1 p.2 := by
  induction h generalizing ws with
  | nil => simp
  | cons ha _ ih =>
    cases ws with
    | nil => simp
    | cons u ws =>
      rw [zip_cons_cons] at hold ⊢
      obtain ⟨hhead, htail⟩ := forall_mem_cons.mp hold
      exact forall_mem_cons.mpr ⟨ha.hasWidth hhead, ih htail⟩

theorem forall₂_replaces (h : Forall₂ (Outcome Γ c d) old as) : Forall₂ (Replaces Γ) old as :=
  h.imp fun _ _ h => h.toReplaces

theorem hasWidth_replaced (hold : HasWidth Γ (.op o old) w) (h : Forall₂ (Replaces Γ) old as) :
    HasWidth Γ (.op o as) w := by
  cases hold with
  | regroup ho hsum hlen hadm has =>
    exact .regroup ho hsum (h.length_eq ▸ hlen) hadm (forall_of_forall₂ h fun a ha b hb => hb.hasWidth (has a ha))
  | not hadm ha =>
    obtain ⟨a', rfl, ha'⟩ := forall₂_one_left h
    exact .not hadm (ha'.hasWidth ha)
  | neg hsum hadm ha =>
    obtain ⟨a', rfl, ha'⟩ := forall₂_one_left h
    exact .neg hsum hadm (ha'.hasWidth ha)
  | xor hadm ha hb =>
    obtain ⟨a', b', rfl, ha', hb'⟩ := forall₂_two_left h
    exact .xor hadm (ha'.hasWidth ha) (hb'.hasWidth hb)
  | compare ho ha hb =>
    obtain ⟨a', b', rfl, ha', hb'⟩ := forall₂_two_left h
    exact .compare ho (ha'.hasWidth ha) (hb'.hasWidth hb)
  | arith hrich ho hone hadm hu ha hb =>
    obtain ⟨a', b', rfl, ha', hb'⟩ := forall₂_two_left h
    exact .arith hrich ho hone hadm hu (ha'.hasWidth ha) (hb'.hasWidth hb)
  | functional hrich ho hu hadm hwidth ha =>
    obtain ⟨f', l', a', rfl, hf', hl', ha'⟩ := forall₂_three_left h
    obtain rfl := hf'.eq_of_isNumber rfl
    obtain rfl := hl'.eq_of_isNumber rfl
    refine .functional hrich ho ?_ hadm hwidth (ha'.hasWidth ha)
    rw [← hu]
    cases o <;> rfl
  | cast hrich hn ha =>
    obtain ⟨a', n', rfl, ha', hn'⟩ := forall₂_two_left h
    obtain rfl := hn'.eq_of_isNumber rfl
    exact .cast hrich hn (ha'.hasWidth ha)
  | unknown hrich ho hlen hw hadm hwidth has =>
    refine .unknown hrich ho (hlen.trans h.length_eq) ?_ hadm hwidth (hasWidth_zip has h)
    rw [← hw]
    cases o <;> first | rfl | cases ho

theorem loads_evaluated (h : Forall₂ (Outcome Γ c d) old as) : loads o as ≤ loads o old := by
  induction h with
  | nil => exact Nat.le_refl _
  | cons ha _ ih =>
    have := ha.lighter o
    rw [loads, loads]
    unfold load at this
    omega

theorem lighter_evaluated (h : Forall₂ (Outcome Γ c d) old as) : Lighter (.op o old) (.op o as) := by
  intro p
  have hloads : loads o as ≤ loads o old := loads_evaluated h
  have hburden : burden p (.op o as) = burden p (.op o old) := by
    unfold burden
    cases o <;> rfl
  unfold load
  rw [hburden, weight, weight]
  omega

theorem value_replaced (hold : HasWidth Γ (.op o old) w) (h : Forall₂ (Replaces Γ) old as)
    (hvalues : as.map (value σ) = old.map (value σ)) : value σ (.op o as) = value σ (.op o old) := by
  have hwidths : as.map widthOf = old.map widthOf := by
    refine map_eq_of_forall₂ h fun a ha b hb => ?_
    rcases hold.operand a ha with hnumber | ⟨u, hu⟩
    · rw [hb.eq_of_isNumber hnumber]
    · rw [hu.widthOf_eq, (hb.hasWidth hu).widthOf_eq]
  rw [value, value, hold.widthOf_eq, (hasWidth_replaced hold h).widthOf_eq, hwidths, values_eq_map,
    values_eq_map, hvalues]

/-! ### One step -/

/-- Every expression that is not too heavy is evaluated up to the depth. -/
def Evaluates (Γ : Vocabulary) (c : Context) (d : Nat) : Prop :=
  ∀ {e : Expr} {w : Int}, HasWidth Γ e w → e.weight ≤ d → ∃ r, Outcome Γ c d e r

theorem outcome_number (hd : 0 < d) (hnumber : e.isNumber) : Outcome Γ c d e e := by
  obtain ⟨v, w, rfl⟩ := exists_num_of_isNumber hnumber
  obtain ⟨d, rfl⟩ := Nat.exists_eq_add_one.mpr hd
  exact ⟨⟨fun _ => rfl, id⟩, rfl, .refl _, fun _ _ => rfl⟩

theorem outcome_of_hasWidth {r : Expr} (hok : evaluateTo c d e = .ok r) (hnumber : e.isNumber = false)
    (h : HasWidth Γ e w) (hr : HasWidth Γ r w) (hlighter : Lighter e r)
    (hkeeps : ∀ σ : Machine, σ.Agrees Γ c → Flawless c d e → value σ r = value σ e) : Outcome Γ c d e r where
  ok := hok
  eq_of_isNumber hn := by rw [hnumber] at hn; cases hn
  hasWidth h' := h.unique h' ▸ hr
  lighter := hlighter
  keeps := hkeeps _

theorem mapM_evaluateTo (ih : Evaluates Γ c d) (hd : 0 < d)
    (h : ∀ a ∈ old, (a.isNumber ∨ ∃ u, HasWidth Γ a u) ∧ a.weight ≤ d) :
    ∃ as, old.mapM (evaluateTo c d) = .ok as ∧ Forall₂ (Outcome Γ c d) old as := by
  refine mapM_of_forall fun a ha => ?_
  obtain ⟨hnumber | ⟨u, hu⟩, hweight⟩ := h a ha
  · have hself : Outcome Γ c d a a := outcome_number hd hnumber
    exact ⟨a, hself.ok, hself⟩
  · obtain ⟨r, hr⟩ := ih hu hweight
    exact ⟨r, hr.ok, hr⟩

theorem weight_le_of_mem {a : Expr} (ha : a ∈ as) : a.weight ≤ loads o as := by
  induction as with
  | nil => cases ha
  | cons b as ih =>
    rw [loads]
    rcases mem_cons.mp ha with rfl | ha
    · omega
    · have := ih ha
      omega

theorem HasWidth.ne_nil (h : HasWidth Γ (.op o as) w) : as ≠ [] := by
  cases h with
  | regroup _ _ hlen =>
    rintro rfl
    cases hlen
  | unknown _ ho hlen hw =>
    rintro rfl
    obtain rfl := eq_nil_of_length_eq_zero hlen
    cases o <;> cases ho <;> cases hw
  | not | neg | xor | compare | arith | functional | cast => simp

theorem evaluateTo_op {red : Reduction} (hne : old ≠ []) (has : old.mapM (evaluateTo c d) = .ok as)
    (hold : HasWidth Γ (.op o old) w) (h : HasWidth Γ (.op o as) w) (hred : reduce o w w old as = .ok red) :
    evaluateTo c (d + 1) (.op o old) = red.finish c d := by
  have hw : operationWidth o old (widths old) = .ok w := hold.width_eq.1
  have hw' : operationWidth o as (widths as) = .ok w := h.width_eq.1
  have hpos := h.width_pos
  have hempty : old.isEmpty = false := by simpa using hne
  have hzero : (w == 0) = false := by
    rw [beq_eq_false_iff_ne]
    omega
  simp only [evaluateTo, hempty, has, hw, hw', hred, hzero, ok_bind, Bool.false_eq_true, if_false]
  cases red <;> rfl

/-- An operation is evaluated: its operands become `as`, and it is reduced to `red`. -/
structure Step (Γ : Vocabulary) (c : Context) (d : Nat) (o : Operator) (old : List Expr) (w : Int) (as : List Expr)
    (red : Reduction) : Prop where
  mapM_eq : old.mapM (evaluateTo c d) = .ok as
  operands : List.Forall₂ (Outcome Γ c d) old as
  hasWidth : HasWidth Γ (.op o as) w
  reduce_eq : reduce o w w old as = .ok red
  evaluateTo_eq : evaluateTo c (d + 1) (.op o old) = red.finish c d
  shrinks : red.Shrinks Γ w (.op o as)
  keeps (hflawed : ¬IsFlawed o w old as) : red.Keeps (.op o as)

theorem exists_step (ih : Evaluates Γ c d) (hold : HasWidth Γ (.op o old) w)
    (hweight : (Expr.op o old).weight ≤ d + 1) : ∃ as red, Step Γ c d o old w as red := by
  rw [weight] at hweight
  have hd : 0 < d := by
    obtain ⟨a, ha⟩ := exists_mem_of_ne_nil old hold.ne_nil
    have := weight_le_of_mem (o := o) ha
    have := weight_pos a
    omega
  obtain ⟨as, has, hall⟩ := mapM_evaluateTo ih hd fun a ha =>
    ⟨hold.operand a ha, by have := weight_le_of_mem (o := o) ha; omega⟩
  have h := hasWidth_replaced hold (forall₂_replaces hall)
  obtain ⟨red, hred, hshrinks, hkeeps⟩ := reduce_spec hold.width_eq.1 h
  exact ⟨as, red, has, hall, h, hred, evaluateTo_op hold.ne_nil has hold h hred, hshrinks, hkeeps⟩

namespace Step

variable {red : Reduction}

theorem lighter (h : Step Γ c d o old w as red) : Lighter (.op o old) red.result :=
  (lighter_evaluated h.operands).trans h.shrinks.lighter

theorem weight_le_of_again {r : Expr} (h : Step Γ c d o old w as (.again r))
    (hweight : (Expr.op o old).weight ≤ d + 1) : r.weight ≤ d := by
  have := h.shrinks.lt_of_again rfl
  have := (lighter_evaluated (o := o) h.operands).weight_le
  omega

variable (h : Step Γ c d o old w as red) (hold : HasWidth Γ (.op o old) w) (hσ : σ.Agrees Γ c)
  (hoperands : ∀ a ∈ old, Flawless c d a)

include h hold hσ hoperands

theorem value_operands : value σ (.op o as) = value σ (.op o old) :=
  value_replaced hold (forall₂_replaces h.operands)
    (map_eq_of_forall₂ h.operands fun a ha _ hb => hb.keeps hσ (hoperands a ha))

theorem value_eq (hflawed : ¬IsFlawed o w old as) : value σ red.result = value σ (.op o old) :=
  (h.keeps hflawed σ).trans (h.value_operands hold hσ hoperands)

end Step

theorem evaluateTo_op_spec (ih : Evaluates Γ c d) (hold : HasWidth Γ (.op o old) w)
    (hweight : (Expr.op o old).weight ≤ d + 1) : ∃ r, Outcome Γ c (d + 1) (.op o old) r := by
  obtain ⟨as, red, hstep⟩ := exists_step ih hold hweight
  have hvalue {σ : Machine} (hσ : σ.Agrees Γ c) (hflawless : Flawless c (d + 1) (.op o old)) :
      value σ red.result = value σ (.op o old) := by
    have hroot := (hflawless.2 as hstep.mapM_eq).1
    rw [hold.widthOf_eq] at hroot
    exact hstep.value_eq hold hσ hflawless.1 hroot
  cases red with
  | done r =>
    exact ⟨r, outcome_of_hasWidth hstep.evaluateTo_eq rfl hold hstep.shrinks.hasWidth hstep.lighter fun _ => hvalue⟩
  | again r =>
    obtain ⟨r', hr'⟩ := ih hstep.shrinks.hasWidth (hstep.weight_le_of_again hweight)
    refine ⟨r', outcome_of_hasWidth (hstep.evaluateTo_eq.trans hr'.ok) rfl hold (hr'.hasWidth hstep.shrinks.hasWidth)
      (hstep.lighter.trans hr'.lighter) fun σ hσ hflawless => ?_⟩
    refine (hr'.keeps hσ ?_).trans (hvalue hσ hflawless)
    refine (hflawless.2 as hstep.mapM_eq).2 r ?_
    rw [hold.widthOf_eq]
    exact hstep.reduce_eq

theorem foldBits_spec {x : Expr} {f l : Int64} {u : Int} (wf wl : Int) (hrich : Γ.rich) (hfirst : 0 ≤ low32 f)
    (hle : low32 f ≤ low32 l) (hu : u = low32 l - low32 f + 1) (hlt : u < 64) (hwidth : Γ.width u)
    (hx : HasWidth Γ x w) : HasWidth Γ (foldBits x (.num f wf) (.num l wl)) u ∧
      Lighter (.bits x (.num f wf) (.num l wl)) (foldBits x (.num f wf) (.num l wl)) ∧
      ∀ σ, value σ (foldBits x (.num f wf) (.num l wl)) = value σ (.bits x (.num f wf) (.num l wl)) := by
  have hbits : HasWidth Γ (.bits x (.num f wf) (.num l wl)) u := .bits hrich hfirst hle hu hlt hwidth hx
  have hwrap : wrap32 (low32 l - low32 f + 1) = u := by
    rw [wrap32_of_lt (by omega) (by omega), hu]
  have hweight : x.weight < (bits x (.num f wf) (.num l wl)).weight := by
    rw [weight]
    omega
  cases x with
  | num v wv =>
    refine ⟨?_, lighter_of_lt ?_, fun σ => ?_⟩
    · change HasWidth Γ (extract (low32 f) (low32 l) v) u
      rw [extract, hwrap]
      exact hasWidth_number hwidth _
    · exact Nat.lt_of_le_of_lt (Nat.le_of_eq (weight_number _ _)) hweight
    · change value σ (extract (low32 f) (low32 l) v) = _
      simp only [value, extract, value_number, value?_number, Option.getD_some]
  | var y =>
    have hfold : foldBits (.var y) (.num f wf) (.num l wl) =
        if low32 f == 0 && y.width == wrap32 (low32 l + 1) then .var y else .bits (.var y) (.num f wf) (.num l wl) := rfl
    rw [hfold]
    split
    · next hwhole =>
      simp only [Bool.and_eq_true, beq_iff_eq] at hwhole
      obtain ⟨hzero, hall⟩ := hwhole
      rw [wrap32_of_lt (by omega) (by omega)] at hall
      obtain rfl : w = u := by
        rw [← hx.widthOf_eq]
        change y.width = u
        omega
      refine ⟨hx, lighter_of_lt hweight, fun σ => ?_⟩
      have hextract := settle_extract (Int.le_refl 0) (show 0 ≤ low32 l by omega) (by omega) (by omega)
        (value σ (.var y))
      have hlen : low32 l - 0 + 1 = w := by omega
      have hbits : value σ (.bits (.var y) (.num f wf) (.num l wl)) =
          settle w (shiftRight (bitMask 0 (low32 l) &&& value σ (.var y)) 0) := by
        rw [← hwrap]
        simp only [value, extract, value?_number, Option.getD_some, hzero]
      have hlow : (value σ (.var y)).toBitVec.extractLsb' 0 w.toNat = low w.toNat (value σ (.var y)) := by
        rw [low, BitVec.setWidth_eq_extractLsb' (by omega)]
      rw [hlen] at hextract
      rw [hbits, hextract]
      exact (fits_value σ hx).symm.trans (congrArg ofBits hlow.symm)
    · exact ⟨hbits, .refl _, fun σ => rfl⟩
  | _ => exact ⟨hbits, .refl _, fun σ => rfl⟩

theorem hasWidth_truth {v : Int64} (hv : v = 0 ∨ v = -1) : HasWidth Γ (.num v 1) 1 :=
  .num Γ.width_one (fits_one_iff.mpr hv)

section

variable (hrich : Γ.rich) (hb : HasWidth Γ b 1) (ht : HasWidth Γ t w) (hf : HasWidth Γ f w)

include hrich hb ht hf

theorem conditional_spec : HasWidth Γ (conditional b t f) w ∧ (conditional b t f).weight ≤ (Expr.cond b t f).weight ∧
      ∀ σ, value σ (conditional b t f) = value σ (.cond b t f) := by
  by_cases hnot : ∃ bs, b = .op .not bs
  · obtain ⟨bs, rfl⟩ := hnot
    obtain ⟨b, rfl, hb'⟩ := hb.not_inv
    refine ⟨.cond hrich hb' hf ht, ?_, fun σ => ?_⟩
    · rw [conditional, weight, weight, weight_unary (by decide)]
      omega
    · obtain ⟨s, hs⟩ := exists_truthWord σ hb'
      rw [conditional, value, value, value_not σ hb' (.inl rfl), hs]
      cases s <;> rfl
  · have hself : conditional b t f = .cond b t f := by
      cases b with
      | op o bs =>
        cases o with
        | not => exact absurd ⟨bs, rfl⟩ hnot
        | _ => rfl
      | _ => rfl
    rw [hself]
    exact ⟨.cond hrich hb ht hf, Nat.le_refl _, fun σ => rfl⟩

theorem foldConditional_spec : ∃ r, foldConditional b t f = .ok r ∧ HasWidth Γ r w ∧ r.weight ≤ (Expr.cond b t f).weight ∧
      ∀ σ, value σ r = value σ (.cond b t f) := by
  have hweight : (cond b t f).weight = 1 + b.weight + t.weight + f.weight := by rw [weight]
  have hone {v : Int64} (hv : v = 0 ∨ v = -1) {x : Expr} (hx : HasWidth Γ x w) (h : x.equals (.num v 1)) :
      x = .num v 1 ∧ w = 1 := by
    obtain rfl := hx.eq_of_equals (hasWidth_truth hv) h
    exact ⟨rfl, hx.unique (hasWidth_truth hv)⟩
  unfold foldConditional
  split
  · next h =>
    rw [Bool.and_eq_true] at h
    obtain ⟨rfl, rfl⟩ := hone (.inr rfl) ht h.1
    obtain ⟨rfl, -⟩ := hone (.inl rfl) hf h.2
    refine ⟨b, rfl, hb, by omega, fun σ => ?_⟩
    obtain ⟨s, hs⟩ := exists_truthWord σ hb
    simp only [value, hs]
    cases s <;> rfl
  · split
    · next h =>
      rw [Bool.and_eq_true] at h
      obtain ⟨rfl, rfl⟩ := hone (.inl rfl) ht h.1
      obtain ⟨rfl, -⟩ := hone (.inr rfl) hf h.2
      obtain ⟨r, hr, htyped, hle, hvalue⟩ := operation_not hb (.inl rfl)
      refine ⟨r, hr, htyped, ?_, fun σ => ?_⟩
      · have := weight_pos (.num 0 1)
        omega
      · obtain ⟨s, hs⟩ := exists_truthWord σ hb
        rw [hvalue]
        simp only [value, hs]
        cases s <;> rfl
    · exact ⟨_, rfl, conditional_spec hrich hb ht hf⟩

theorem evaluateTo_cond_spec (ih : Evaluates Γ c d) (hweight : (Expr.cond b t f).weight ≤ d + 1) :
    ∃ r, Outcome Γ c (d + 1) (.cond b t f) r := by
  have hcond : HasWidth Γ (.cond b t f) w := .cond hrich hb ht hf
  have hparts : (cond b t f).weight = 1 + b.weight + t.weight + f.weight := by rw [weight]
  obtain ⟨b', hb'⟩ := ih hb (by omega)
  obtain ⟨t', ht'⟩ := ih ht (by omega)
  obtain ⟨f', hf'⟩ := ih hf (by omega)
  have htyped := hb'.hasWidth hb
  have hposb := weight_pos b
  have hpost := weight_pos t
  have hposf := weight_pos f
  by_cases hff : b'.equals ff
  · obtain rfl : b' = .num 0 1 := htyped.eq_of_equals (hasWidth_truth (.inl rfl)) hff
    refine ⟨f', outcome_of_hasWidth ?_ rfl hcond (hf'.hasWidth hf) ?_ fun σ hσ hflawless => ?_⟩
    · simp only [evaluateTo, hb'.ok, hf'.ok, ok_bind, hff, if_true]
    · exact (lighter_of_lt (by omega)).trans hf'.lighter
    · have hvalue := hb'.keeps hσ hflawless.1
      rw [value] at hvalue
      rw [hf'.keeps hσ hflawless.2.2, value, ← hvalue, if_pos rfl]
  · by_cases htt : b'.equals tt
    · obtain rfl : b' = .num (-1) 1 := htyped.eq_of_equals (hasWidth_truth (.inr rfl)) htt
      refine ⟨t', outcome_of_hasWidth ?_ rfl hcond (ht'.hasWidth ht) ?_ fun σ hσ hflawless => ?_⟩
      · simp only [evaluateTo, hb'.ok, ht'.ok, ok_bind, hff, htt, Bool.false_eq_true, if_true, if_false]
      · exact (lighter_of_lt (by omega)).trans ht'.lighter
      · have hvalue := hb'.keeps hσ hflawless.1
        rw [value] at hvalue
        rw [ht'.keeps hσ hflawless.2.1, value, ← hvalue, if_neg (by decide)]
    · -- a condition of one bit that is a number is one of the two
      have hnumber : b'.isNumber = false := by
        cases b' with
        | num v u =>
          cases htyped with
          | num _ hv =>
            rcases fits_one_iff.mp hv with rfl | rfl
            · exact absurd rfl hff
            · exact absurd rfl htt
        | _ => rfl
      obtain ⟨r, hr, hrtyped, hrweight, hrvalue⟩ :=
        foldConditional_spec hrich htyped (ht'.hasWidth ht) (hf'.hasWidth hf)
      refine ⟨r, outcome_of_hasWidth ?_ rfl hcond hrtyped (lighter_of_le rfl ?_) fun σ hσ hflawless => ?_⟩
      · simp only [evaluateTo, hb'.ok, ht'.ok, hf'.ok, ok_bind, hff, htt, hnumber, Bool.false_eq_true,
          if_false]
        exact hr
      · have := hb'.lighter.weight_le
        have := ht'.lighter.weight_le
        have := hf'.lighter.weight_le
        rw [weight] at hrweight
        omega
      · rw [hrvalue, value, value, hb'.keeps hσ hflawless.1, ht'.keeps hσ hflawless.2.1, hf'.keeps hσ hflawless.2.2]

end

theorem evaluateTo_mem_spec {a : Expr} {s : Option Expr} {wa ws n : Int} (hc : c.Suits Γ) (ih : Evaluates Γ c d)
    (hmemory : Γ.memory) (hw : Γ.width w) (ha : HasWidth Γ a wa) (hs : ∀ t ∈ s, HasWidth Γ t ws)
    (hweight : (Expr.mem w a s n).weight ≤ d + 1) : ∃ r, Outcome Γ c (d + 1) (.mem w a s n) r := by
  have hmem : HasWidth Γ (.mem w a s n) w := .mem hmemory hw ha hs
  have hpos := Γ.width_pos hw
  rw [weight] at hweight
  obtain ⟨a', ha'⟩ := ih ha (by omega)
  by_cases hkeep : c.keeps a
  · refine ⟨.mem w a s n, outcome_of_hasWidth ?_ rfl hmem hmem (.refl _) fun σ _ _ => rfl⟩
    simp only [evaluateTo, hc.assignment hmemory, hkeep, if_true]
    change Except.ok (c.assignment (.mem w a s n)) = _
    rw [hc.assignment hmemory]
  · refine ⟨.mem w a' s 0, outcome_of_hasWidth ?_ rfl hmem (.mem hmemory hw (ha'.hasWidth ha) hs) (lighter_of_le rfl ?_)
      fun σ hσ hflawless => ?_⟩
    · simp only [evaluateTo, hc.assignment hmemory, hkeep, memory, ha'.ok, ok_bind, hpos,
        Bool.false_eq_true, if_true, if_false]
      rfl
    · rw [weight, weight]
      have := ha'.lighter.weight_le
      omega
    · rw [value, value, ha'.keeps hσ hflawless]

theorem evaluateTo_special_spec {name : String} (ih : Evaluates Γ c d) (hrich : Γ.rich)
    (hname : name ≠ "addr" ∧ name ≠ "nondet") (hlen : ws.length = old.length) (hw : Γ.width (specialWidth name))
    (hold : ∀ p ∈ old.zip ws, HasWidth Γ p.1 p.2) (hweight : (Expr.special name old).weight ≤ d + 1) :
    ∃ r, Outcome Γ c (d + 1) (.special name old) r := by
  obtain ⟨as, has, hall⟩ := mapM_of_forall (f := evaluateTo c d) (R := Outcome Γ c d) (l := old) fun a ha => by
    obtain ⟨u, hp⟩ := exists_mem_zip hlen ha
    have := weight_le_of_mem (o := .unknown) ha
    rw [weight] at hweight
    obtain ⟨r, hr⟩ := ih (hold (a, u) hp) (by change a.weight ≤ d; omega)
    exact ⟨r, hr.ok, hr⟩
  refine ⟨.special name as, outcome_of_hasWidth ?_ rfl (.special hrich hname hlen hw hold)
    (.special hrich hname (hlen.trans hall.length_eq) hw (hasWidth_zip hold (forall₂_replaces hall)))
    (lighter_of_le rfl ?_)
    fun σ hσ hflawless => ?_⟩
  · have hnamed : named name as = .ok (.special name as) := by
      unfold named
      rw [if_neg (by simpa using hname.1), if_neg (by simpa using hname.2)]
    simp only [evaluateTo, has, ok_bind, hnamed]
  · have := loads_evaluated (o := .unknown) hall
    rw [weight, weight]
    omega
  · have hvalues : as.map (value σ) = old.map (value σ) :=
      map_eq_of_forall₂ hall fun a ha b hb => hb.keeps hσ (hflawless a ha)
    rw [value, value, values_eq_map, values_eq_map, hvalues]

/-! ### Every evaluation -/

theorem evaluates_succ (hc : c.Suits Γ) (ih : Evaluates Γ c d) : Evaluates Γ c (d + 1) := by
  intro e w h hweight
  have hop := h
  cases h with
  | num => exact ⟨_, outcome_number (Nat.succ_pos d) rfl⟩
  | nondet hrich hw =>
    exact ⟨_, outcome_of_hasWidth rfl rfl (.nondet hrich hw) (.nondet hrich hw) (.refl _) fun _ _ _ => rfl⟩
  | @var x hx hw =>
    have hvar : HasWidth Γ (.var x) x.width := .var hx hw
    refine ⟨c.valueOf x, outcome_of_hasWidth rfl rfl hvar ?_ ?_ fun σ hσ _ => hσ x hx hw⟩
    · rcases hc.valueOf hx with hself | ⟨v, hv⟩
      · rwa [hself]
      · rw [hv]
        exact hasWidth_number hw v
    · rcases hc.valueOf hx with hself | ⟨v, hv⟩
      · rw [hself]
        exact .refl _
      · rw [hv]
        exact lighter_of_le rfl (Nat.le_of_eq (weight_number _ _))
  | @bits f l x wf wl wx u hrich hfirst hle hu hlt hwidth hx =>
    have hparts := hweight
    rw [weight] at hparts
    have hd : 0 < d := by
      have := weight_pos x
      have := weight_pos (.num f wf)
      omega
    obtain ⟨x', hx'⟩ := ih hx (by omega)
    have hf' : Outcome Γ c d (.num f wf) (.num f wf) := outcome_number hd rfl
    have hl' : Outcome Γ c d (.num l wl) (.num l wl) := outcome_number hd rfl
    obtain ⟨hr, hlighter, hvalue⟩ := foldBits_spec wf wl hrich hfirst hle hu hlt hwidth (hx'.hasWidth hx)
    refine ⟨foldBits x' (.num f wf) (.num l wl), outcome_of_hasWidth ?_ rfl
      (.bits hrich hfirst hle hu hlt hwidth hx) hr (Lighter.trans (lighter_of_le rfl ?_) hlighter)
      fun σ hσ hflawless => ?_⟩
    · simp only [evaluateTo, hx'.ok, hf'.ok, hl'.ok, ok_bind]
      rfl
    · have := hx'.lighter.weight_le
      rw [weight, weight]
      omega
    · rw [hvalue]
      simp only [value, hx'.keeps hσ hflawless]
  | cond hrich hb ht hf => exact evaluateTo_cond_spec hrich hb ht hf ih hweight
  | mem hmemory hw ha hs => exact evaluateTo_mem_spec hc ih hmemory hw ha hs hweight
  | special hrich hname hlen hw has => exact evaluateTo_special_spec ih hrich hname hlen hw has hweight
  | _ => exact evaluateTo_op_spec ih hop hweight

theorem evaluates (hc : c.Suits Γ) (d : Nat) : Evaluates Γ c d := by
  induction d with
  | zero =>
    intro e w _ hweight
    exact absurd (weight_pos e) (Nat.not_lt.mpr hweight)
  | succ d ih => exact evaluates_succ hc ih

mutual

theorem weight_lt_size : ∀ e : Expr, e.weight < 2 * e.size
  | .num .. | .var _ | .nondet _ => Nat.one_lt_two
  | .op o as => by
    have := loads_le_sizes o as
    rw [weight, size]
    omega
  | .special _ as => by
    have := loads_le_sizes .unknown as
    rw [weight, size]
    omega
  | .bits x y z | .cond x y z => by
    have := weight_lt_size x
    have := weight_lt_size y
    have := weight_lt_size z
    rw [weight, size]
    omega
  | .mem _ a s _ => by
    have := weight_lt_size a
    rw [weight, size]
    omega

theorem loads_le_sizes (o : Operator) : ∀ as : List Expr, loads o as ≤ 2 * sizes as
  | [] => Nat.zero_le _
  | a :: as => by
    have := weight_lt_size a
    have := loads_le_sizes o as
    have := burden_le_one o a
    rw [loads, sizes]
    omega

end

theorem weight_le_depth (e : Expr) : e.weight ≤ e.depth := by
  have := weight_lt_size e
  unfold depth
  omega

/-- **Evaluation.** In a context that suits the vocabulary, an expression is evaluated without a
fault to an expression of the same width. The value is kept unless a step is flawed. -/
theorem evaluate_spec (hc : c.Suits Γ) (h : HasWidth Γ e w) : ∃ r, evaluate c e = .ok r ∧ HasWidth Γ r w ∧
      ∀ σ : Machine, σ.Agrees Γ c → Flawless c e.depth e → value σ r = value σ e := by
  obtain ⟨r, hr⟩ := evaluates hc e.depth h (weight_le_depth e)
  exact ⟨r, hr.ok, hr.hasWidth h, fun σ hσ hflawless => hr.keeps hσ hflawless⟩

end Expr

end FlowRecovery
