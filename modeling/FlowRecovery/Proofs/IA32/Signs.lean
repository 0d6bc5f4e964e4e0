import FlowRecovery.Proofs.IA32.Operands

/-!
# Flags of sums and differences

The flags of an operation are conditions on the signs of its operands and of its result. They are
formulas over tests of signs (`SignTest`), so whatever evaluation makes of them has the same value
(`exists_assigned`). If the operands are in registers, it is made of registers and numbers again
(`OfRegisters`).

`Operates.exists_run` says what an operation does that saves its first operand, writes its result
there and sets the flags: it is the common part of all templates for sums and differences.
-/

namespace FlowRecovery.IA32

open FlowRecovery.Expr Word List Registers State

variable {c : Context} {s : Size} {e e' p x y : Expr} {n : Nat} {u w : Int} {r : Registers}
    {v : Int64} {m : Prop}

/-! ### Tests of signs -/

/-- The words of up to 64 bits in registers. -/
def registerWords : Vocabulary where
  declared x := x ∈ operandVars
  width w := 0 < w ∧ w ≤ 64
  sum _ := True
  rich := False
  memory := False
  declared_inj hx hy h := operandVars_inj _ hx _ hy h
  width_one := Vocabulary.bounded_one
  width_pos := @Vocabulary.bounded_pos
  width_lt := @Vocabulary.bounded_lt

theorem Size.width_registerWords (s : Size) : registerWords.width s.bits :=
  ⟨s.bits_pos, by cases s <;> decide⟩

/-- If `m`, the expression is made of registers and numbers, and has `w` bits. -/
def OfRegisters (m : Prop) (w : Int) (e : Expr) : Prop := m → Expr.Standard registerWords e w

/-- What holds a number of the size: a cell, which is a register if `m`, or the scratch register. -/
inductive Held (m : Prop) (s : Size) : Expr → Prop where
  | cell {e : Expr} (h : Cell s e) (hm : OfRegisters m s.bits e) : Held m s e
  | scratch : Held m s (.var s.scratch)

namespace Held

theorem ofRegisters (h : Held m s e) : OfRegisters m s.bits e := by
  cases h with
  | cell h hm => exact hm
  | scratch =>
    intro _
    have hwidth := s.width_scratch
    rw [← hwidth]
    exact .var s.scratch_mem (hwidth ▸ s.width_registerWords)

theorem fixed (hc : Open c) (h : Held m s e) : Fixed c s.bits e := by
  cases h with
  | cell h => exact h.fixed hc
  | scratch => exact s.width_scratch ▸ fixed_var hc s.scratch_mem

theorem isNumber_eq (h : Held m s e) : e.isNumber = false := by
  cases h with
  | cell h => exact h.isNumber_eq
  | scratch => rfl

theorem equals_num (h : Held m s e) (v : Int64) (w : Int) : e.equals (.num v w) = false := by
  cases h with
  | cell h => cases h <;> rfl
  | scratch => rfl

end Held

/-- A test whether a number is negative, or positive. Zero has `u` bits. -/
inductive SignTest (m : Prop) (s : Size) (u : Int) : Expr → Prop where
  | negative {e : Expr} (h : Held m s e) : SignTest m s u (negative (.num 0 u) e)
  | positive {e : Expr} (h : Held m s e) : SignTest m s u (positive (.num 0 u) e)

theorem tests_signTest (hc : Open c) (m : Prop) (s : Size) (u : Int) :
    Tests vocabulary c 7 (SignTest m s u) where
  compares h := by cases h <;> exact ⟨_, _, rfl⟩
  declared h := by
    cases h with
    | negative h => exact ⟨(h.fixed hc).declared, trivial, trivial⟩
    | positive h => exact ⟨trivial, (h.fixed hc).declared, trivial⟩
  kept h := by
    have hzero : Becomes c 6 (.num 0 u) (.num 0 u) := (Becomes.num 0 u).mono (by decide)
    cases h with
    | negative h => exact .less (.inl rfl) (h.fixed hc).becomes hzero (.inl h.isNumber_eq)
    | positive h => exact .less (.inl rfl) hzero (h.fixed hc).becomes (.inr h.isNumber_eq)

theorem firstKnown_known (hw : 0 < w) (hx : x.width = .ok w) (es : List Expr) :
    firstKnown unknownWidth (widths (x :: es)) = .ok w := by
  rw [widths_eq_map, map_cons, hx]
  exact if_pos hw

theorem firstKnown_unknown (hw : 0 < w) (hu : u ≤ 0) (hx : x.width = .ok u) (hy : y.width = .ok w)
    (es : List Expr) : firstKnown unknownWidth (widths (x :: y :: es)) = .ok w := by
  rw [widths_eq_map, map_cons, map_cons, hx, hy]
  change (if u > 0 then _ else if w > 0 then _ else _) = _
  rw [if_neg (by omega), if_pos hw]
  rfl

namespace SignTest

theorem weight_le (h : SignTest m s u e) : e.weight ≤ 34 := by
  have hcompare (a b : Expr) : (op .less [a, b]).weight = 1 + a.weight + b.weight := by
    rw [weight, loads, loads, loads, burden_of_ne (by decide), burden_of_ne (by decide)]
    omega
  have hnumber : (num 0 u).weight = 1 := rfl
  cases h with
  | negative h =>
    have hweight := (h.fixed open_empty).weight_le
    rw [IA32.negative, hcompare]
    omega
  | positive h =>
    have hweight := (h.fixed open_empty).weight_le
    rw [IA32.positive, hcompare]
    omega

theorem exists_inferWidth (h : SignTest m s unknownWidth e) :
    ∃ e', e.inferWidth 1 = .ok e' ∧ SignTest m s s.bits e' ∧ ∀ μ, value μ e' = value μ e := by
  have hzero : (num 0 unknownWidth).inferWidth s.bits = .ok (.num 0 s.bits) :=
    inferWidth_zero s.bits_pos
  cases h with
  | negative h =>
    have hfixed := h.fixed open_empty
    refine ⟨_, ?_, .negative h, fun μ => ?_⟩
    · exact inferWidth_compare rfl (firstKnown_known s.bits_pos hfixed.width_eq _) s.bits_pos
        (.cons hfixed.inferWidth_eq (.cons hzero .nil))
    · rw [IA32.negative, IA32.negative, value_less, value_less, value_num, value_num]
  | positive h =>
    have hfixed := h.fixed open_empty
    refine ⟨_, ?_, .positive h, fun μ => ?_⟩
    · exact inferWidth_compare rfl (firstKnown_unknown s.bits_pos (by decide) rfl hfixed.width_eq _)
        s.bits_pos
        (.cons hzero (.cons hfixed.inferWidth_eq .nil))
    · rw [IA32.positive, IA32.positive, value_less, value_less, value_num, value_num]

theorem plain (h : SignTest m s u e) : Plain e := by
  cases h with
  | negative h => exact plain_compare (.inl rfl) (h.fixed open_empty).plain (plain_num _ _)
  | positive h => exact plain_compare (.inl rfl) (plain_num _ _) (h.fixed open_empty).plain

theorem ofRegisters (h : SignTest m s s.bits e) : OfRegisters m 1 e := by
  intro hm
  have hzero : Expr.Standard registerWords (.num 0 s.bits) s.bits :=
    .num s.width_registerWords (wrap_zero _)
  cases h with
  | negative h => exact .compare rfl (h.ofRegisters hm) hzero
  | positive h => exact .compare rfl hzero (h.ofRegisters hm)

end SignTest

theorem Formula.ofRegisters (h : Formula (SignTest m s s.bits) e) : OfRegisters m 1 e := by
  intro hm
  induction h with
  | known t => cases t <;> exact .num registerWords.width_one (by decide)
  | test h => exact h.ofRegisters hm
  | opposite h => exact .not (.inl rfl) (h.ofRegisters hm)
  | connective ho hlen _ ih =>
    refine .regroup ?_ (fun _ => trivial) hlen (.inl rfl) ih
    rcases ho with rfl | rfl <;> rfl

theorem Formula.differs {A : Expr → Prop} (hA : Tests vocabulary c n A) (h : Formula A e)
    (x : Var) : (Expr.var x).equals e = false := by
  cases h with
  | known t => cases t <;> rfl
  | test h =>
    obtain ⟨a, b, rfl⟩ := hA.compares h
    rfl
  | opposite h => rfl
  | connective ho hlen has => rfl

theorem exists_assigned {p : Machine → Bool} (hc : Open c)
    (h : Forms (SignTest m s unknownWidth) c 7 n e p) (hn : n ≤ 2000) (x : Var) :
    ∃ r, Assigned c (.var x) 1 e r ∧ OfRegisters m 1 r ∧ ∀ μ, value μ r = truthWord (p μ) := by
  have htests := tests_signTest hc m s unknownWidth
  have htests' := tests_signTest open_empty m s s.bits
  obtain ⟨e₁, he₁, hformula₁, -, hvalue₁⟩ := h.exists_formula
  obtain ⟨e₂, he₂, hformula₂, hvalue₂⟩ := hformula₁.exists_inferWidth htests htests' fun a ha =>
    ha.exists_inferWidth
  obtain ⟨e₃, he₃, hrestates₃⟩ := hformula₂.exists_evaluate htests' (by decide) (by decide)
  obtain ⟨e₄, he₄, hrestates₄⟩ := hrestates₃.formula.exists_evaluate htests' (by decide) (by decide)
  have hplain : Plain e₄ := hrestates₄.formula.plain htests' fun a ha => ha.plain
  refine ⟨e₄, ⟨e₁, e₂, e₃, e₄, he₁.evaluate hn, Formula.differs htests hformula₁ x, he₂, he₃,
    Formula.differs htests' hrestates₃.formula x, he₄, hplain.simplify,
    Formula.differs htests' hrestates₄.formula x⟩,
    Formula.ofRegisters hrestates₄.formula, fun μ => ?_⟩
  rw [hrestates₄.value_eq, hrestates₃.value_eq, hvalue₂, hvalue₁]

/-! ### Conditions on signs -/

/-- What is compared with zero: it holds a number, or it is one. -/
inductive Term (m : Prop) (s : Size) : Expr → Prop where
  | held {e : Expr} (h : Held m s e) : Term m s e
  | number (v : Int64) (w : Int) : Term m s (.num v w)

section

variable {a : Expr} {p : Machine → Bool} {t : Bool} (hwidth : x.width = .ok 1)

include hwidth

theorem forms_known (h : Becomes c 8 x (ofBool t)) (hp : ∀ μ, p μ = t) :
    Forms (SignTest m s unknownWidth) c 7 50 x p := by
  refine ⟨hwidth, ofBool t, h.mono (by decide), .known t, ?_, fun μ => ?_⟩
  · cases t <;> decide
  · rw [value_ofBool, hp]

variable (ha : SignTest m s unknownWidth a) (hp : ∀ μ, value μ a = truthWord (p μ))

include ha hp

theorem forms_test (h : Becomes c 8 x a) : Forms (SignTest m s unknownWidth) c 7 50 x p := by
  have hweight := ha.weight_le
  exact ⟨hwidth, a, h.mono (by decide), .test ha, by omega, hp⟩

theorem forms_opposite (h : Becomes c 8 x (.op .not [a])) :
    Forms (SignTest m s unknownWidth) c 7 50 x fun μ => !p μ := by
  have hweight := ha.weight_le
  have hnot : (op .not [a]).weight = 1 + a.weight := by
    rw [weight, loads, loads, burden_of_ne (by decide)]
    omega
  refine ⟨hwidth, _, h.mono (by decide), .opposite ha, by omega, fun μ => ?_⟩
  have htests := tests_signTest open_empty m s unknownWidth
  rw [value_opposite μ (htests.width ha) ((Formula.test ha).fits htests μ), hp]
  cases p μ <;> rfl

end

theorem value_negative (μ : Machine) (e : Expr) :
    value μ (negative zero e) = truthWord (value μ e < 0) := by
  rw [negative, value_less, zero, value_num]

theorem value_positive (μ : Machine) (e : Expr) :
    value μ (positive zero e) = truthWord (0 < value μ e) := by
  rw [positive, value_less, zero, value_num]

section

theorem becomes_zero : Becomes c 6 zero zero := (Becomes.num 0 unknownWidth).mono (by decide)

variable (hx : Becomes c 6 x e) (he : Term m s e)

include hx

theorem becomes_negative (h : Held m s e) : Becomes c 7 (negative zero x) (negative zero e) :=
  .less (.inl rfl) hx becomes_zero (.inl h.isNumber_eq)

include he

theorem forms_negative :
    Forms (SignTest m s unknownWidth) c 7 50 (negative zero x) fun μ => decide (value μ e < 0) := by
  cases he with
  | held h =>
    have hless := becomes_negative hx h
    exact forms_test rfl (.negative h) (fun μ => value_negative μ e) (hless.mono (by decide))
  | number =>
    refine forms_known rfl ((hx.less_numbers becomes_zero).mono (by decide)) fun μ => ?_
    rw [value_num]

theorem forms_not_negative :
    Forms (SignTest m s unknownWidth) c 7 50 (.op .not [negative zero x]) fun μ =>
    !decide (value μ e < 0) := by
  cases he with
  | held h =>
    have hless := becomes_negative hx h
    exact forms_opposite rfl (.negative h) (fun μ => value_negative μ e) (hless.not rfl rfl rfl rfl)
  | number =>
    refine forms_known rfl ((hx.less_numbers becomes_zero).not_ofBool rfl) fun μ => ?_
    rw [value_num]

theorem forms_positive :
    Forms (SignTest m s unknownWidth) c 7 50 (positive zero x) fun μ => decide (0 < value μ e) := by
  cases he with
  | held h =>
    have hless : Becomes c 7 (positive zero x) (positive zero e) :=
      .less (.inl rfl) becomes_zero hx (.inr h.isNumber_eq)
    exact forms_test rfl (.positive h) (fun μ => value_positive μ e) (hless.mono (by decide))
  | number =>
    refine forms_known rfl ((becomes_zero.less_numbers hx).mono (by decide)) fun μ => ?_
    rw [value_num]

end

/-! ### Comparisons of operands -/

/-- What is added to a cell or subtracted from it, before and after numbers have their widths. -/
inductive Addend (s : Size) : Expr → Expr → Prop where
  | cell {e : Expr} (h : Cell s e) : Addend s e e
  | number {v : Int64} {w : Int} (hone : w ≠ 1)
      (h : (Expr.num v w).inferWidth s.bits = .ok (.num v s.bits)) :
      Addend s (.num v w) (.num v s.bits)

namespace Addend

variable {a : Expr} (h : Addend s e e')

include h

theorem value_eq (μ : Machine) : value μ e' = value μ e := by
  cases h with
  | cell h => rfl
  | number => rw [value_num, value_num]

theorem inferWidth_eq : e.inferWidth s.bits = .ok e' := by
  cases h with
  | cell h => exact (h.fixed open_empty).inferWidth_eq
  | number hone h => exact h

theorem last : Addend s e' e' := by
  cases h with
  | cell h => exact .cell h
  | number => exact .number s.one_lt_bits.ne' (inferWidth_num _ _)

theorem becomes (hc : Open c) : Becomes c 6 e e := by
  cases h with
  | cell h => exact (h.fixed hc).becomes
  | number => exact (Becomes.num _ _).mono (by decide)

theorem plain : Plain e := by
  cases h with
  | cell h => exact (h.fixed open_empty).plain
  | number => exact plain_num _ _

theorem equals_truth (t : Bool) : (ofBool t).equals e = false := by
  cases h with
  | cell h => cases h <;> cases t <;> rfl
  | number hone => cases t <;> simp [ofBool, tt, ff, equals, hone.symm]

theorem equals_last (ha : Held m s a) (hne : a.equals e = false) : a.equals e' = false := by
  cases h with
  | cell h => exact hne
  | number =>
    exact ha.equals_num _ _

theorem term (hm : OfRegisters m s.bits e') : Term m s e := by
  cases h with
  | cell h => exact .held (.cell h hm)
  | number => exact .number _ _

end Addend

section

variable {a : Expr} {o : Operator} (ho : o = .unsignedLess ∨ o = .equal)

include ho

theorem becomes_compare (hx : Becomes c 6 x a) (hy : Becomes c 6 y e) (ha : Held m s a)
    (he : Addend s e e')
    (hne : o = .equal → a.equals e = false) : Becomes c 7 (.op o [x, y]) (.op o [a, e]) := by
  rcases ho with rfl | rfl
  · exact .less (.inr rfl) hx hy (.inl ha.isNumber_eq)
  · exact .equal hx hy ha.isNumber_eq (hne rfl) (he.equals_truth true) (he.equals_truth false)

theorem plain_comparison (ha : Held m s a) (he : Addend s e e') : Plain (.op o [a, e]) := by
  have hplain := (ha.fixed open_empty).plain
  rcases ho with rfl | rfl
  · exact plain_compare (.inr rfl) hplain he.plain
  · refine plain_op (applyRules_inequalities nofun nofun fun _ bs heq => ?_)
      (by simp [hplain, he.plain])
    cases ha with
    | cell ha => cases ha <;> cases heq
    | scratch => cases heq

theorem assigned_compare (hx : Becomes c 6 x a) (hy : Becomes c 6 y e) (ha : Held m s a)
    (he : Addend s e e')
    (hne : o = .equal → a.equals e = false) (z : Var) :
    Assigned c (.var z) 1 (.op o [x, y]) (.op o [a, e']) := by
  have hfixed := ha.fixed open_empty
  have hfirst := (becomes_compare ho hx hy ha he hne).evaluate (by decide)
  have hwidth : (op o [a, e]).inferWidth 1 = .ok (.op o [a, e']) := by
    refine inferWidth_compare ?_ (firstKnown_known s.bits_pos hfixed.width_eq _) s.bits_pos
      (.cons hfixed.inferWidth_eq (.cons he.inferWidth_eq .nil))
    rcases ho with rfl | rfl <;> rfl
  have hagain : (op o [a, e']).evaluate .empty = .ok (.op o [a, e']) :=
    (becomes_compare ho hfixed.becomes (he.last.becomes open_empty) ha he.last
      fun heq => he.equals_last ha (hne heq)).evaluate (by decide)
  exact ⟨_, _, _, _, hfirst, rfl, hwidth, hagain, rfl, hagain,
    (plain_comparison ho ha he.last).simplify, rfl⟩

theorem ofRegisters_compare (ha : Held m s a) (he : OfRegisters m s.bits e) :
    OfRegisters m 1 (.op o [a, e]) := by
  intro hm
  refine .compare ?_ (ha.ofRegisters hm) (he hm)
  rcases ho with rfl | rfl <;> rfl

end

theorem value_unsignedLess (μ : Machine) (x y : Expr) :
    value μ (.op .unsignedLess [x, y]) =
    truthWord ((value μ x).toUInt64 < (value μ y).toUInt64) := by
  rw [value_op μ (show (op .unsignedLess [x, y]).width = .ok 1 from rfl)]
  exact truthWord_fits _

theorem value_equal (μ : Machine) (x y : Expr) :
    value μ (.op .equal [x, y]) = truthWord (value μ x == value μ y) := by
  rw [value_op μ (show (op .equal [x, y]).width = .ok 1 from rfl)]
  exact truthWord_fits _

/-! ### Flags -/

/-- A flag, the condition that a template sets it to, and when this is true of the words of the
first operand, of the second, and of the result. -/
structure Flag where
  var : Var
  condition : Expr
  holds : Int64 → Int64 → Int64 → Bool

def Flag.effect (f : Flag) : Effect := .template 1 (.var f.var) f.condition

def sumCarry (z t x y : Expr) : Expr :=
  .op .or [.op .and [negative z x, negative z y],
    .op .and [.op .not [negative z t], .op .or [negative z x, negative z y]]]

def sumOverflow (z t x y : Expr) : Expr :=
  .op .or [.op .and [.op .not [negative z t], negative z x, negative z y],
    .op .and [negative z t, .op .not [negative z x], .op .not [negative z y]]]

/-- The flags of a sum of `x` and `y` with the result `z`. -/
def sumFlags (z x y : Expr) : List Flag := [
  ⟨CF, sumCarry zero z x y, fun a b t => (a < 0 && b < 0) || (!decide (t < 0) && (a < 0 || b < 0))⟩,
  ⟨OF, sumOverflow zero z x y,
    fun a b t => (!decide (t < 0) && (a < 0 && b < 0)) ||
    (t < 0 && (!decide (a < 0) && !decide (b < 0)))⟩,
  ⟨SF, negative zero z, fun _ _ t => t < 0⟩,
  ⟨ZF, .op .equal [z, zero], fun _ _ t => t == 0⟩]

/-- The flags of a difference of `x` and `y` with the result `z`. -/
def differenceFlags (z x y : Expr) : List Flag := [
  ⟨CF, .op .unsignedLess [x, y], fun a b _ => a.toUInt64 < b.toUInt64⟩,
  ⟨OF, overflow zero z x y,
    fun a b t => (0 < t && (a < 0 && !decide (b < 0))) || (t < 0 && (!decide (a < 0) && b < 0))⟩,
  ⟨SF, negative zero z, fun _ _ t => t < 0⟩,
  ⟨ZF, .op .equal [x, y], fun a b _ => a == b⟩]

/-- In the context `c`, the flag becomes what it is to tell about the operands `a` and `e` and the
result `t`. -/
structure Flag.Lifts (m : Prop) (c : Context) (a e t : Expr) (f : Flag) : Prop where
  mem : f.var ∈ flagVars
  exists_assigned : ∃ r, Assigned c (.var f.var) 1 f.condition r ∧ OfRegisters m 1 r ∧
    ∀ μ, value μ r = truthWord (f.holds (value μ a) (value μ e) (value μ t))

/-- In the context `c`, the operands `x` and `y` and the result `z`, from which flags are computed,
are `a`, `e` and `t`, and `e` becomes `e'` when it gets its width. -/
structure Compares (m : Prop) (c : Context) (s : Size) (x y z a e e' t : Expr) : Prop where
  cleared : Open c
  first : Becomes c 6 x a
  second : Becomes c 6 y e
  result : Becomes c 6 z t
  held : Held m s a
  held_result : Held m s t
  addend : Addend s e e'
  ofRegisters : OfRegisters m s.bits e'

theorem Cell.scratch_equals (h : Cell s e) : (Expr.var s.scratch).equals e = false := by
  cases h with
  | register n =>
    have := (s.has_var n).ne_scratch
    simp [equals, this.symm]
  | memory => rfl

theorem Addend.scratch_equals (h : Addend s e e') : (Expr.var s.scratch).equals e = false := by
  cases h with
  | cell h => exact h.scratch_equals
  | number => rfl

namespace Compares

variable {a t z : Expr} (h : Compares m c s x y z a e e' t)

include h

theorem term : Term m s e := h.addend.term h.ofRegisters

theorem forms_sumCarry : Forms (SignTest m s unknownWidth) c 7 500 (sumCarry zero z x y) fun μ =>
    (value μ a < 0 && value μ e < 0) ||
    (!decide (value μ t < 0) && (value μ a < 0 || value μ e < 0)) := by
  have htests := tests_signTest h.cleared m s unknownWidth
  have ha := forms_negative h.first (.held h.held)
  have hb := forms_negative h.second h.term
  have ht := forms_not_negative h.result (.held h.held_result)
  have hboth := Forms.and htests (by decide) ha hb
  have hlate := Forms.and htests (by decide) (ht.mono (by decide))
    (Forms.or htests (by decide) ha hb)
  exact (Forms.or htests (by decide) (hboth.mono (by decide)) hlate).mono (by decide)

theorem forms_sumOverflow : Forms (SignTest m s unknownWidth) c 7 500 (sumOverflow zero z x y)
    fun μ =>
    (!decide (value μ t < 0) && (value μ a < 0 && value μ e < 0)) ||
      (value μ t < 0 && (!decide (value μ a < 0) && !decide (value μ e < 0))) := by
  have htests := tests_signTest h.cleared m s unknownWidth
  have ht : Term m s t := .held h.held_result
  have ha : Term m s a := .held h.held
  have hdown := Forms.and₃ htests (by decide) (forms_not_negative h.result ht)
    (forms_negative h.first ha)
    (forms_negative h.second h.term)
  have hup := Forms.and₃ htests (by decide) (forms_negative h.result ht)
    (forms_not_negative h.first ha)
    (forms_not_negative h.second h.term)
  exact (Forms.or htests (by decide) hdown hup).mono (by decide)

theorem forms_overflow : Forms (SignTest m s unknownWidth) c 7 500 (overflow zero z x y) fun μ =>
    (0 < value μ t && (value μ a < 0 && !decide (value μ e < 0))) ||
      (value μ t < 0 && (!decide (value μ a < 0) && value μ e < 0)) := by
  have htests := tests_signTest h.cleared m s unknownWidth
  have ht : Term m s t := .held h.held_result
  have ha : Term m s a := .held h.held
  have hdown := Forms.and₃ htests (by decide) (forms_positive h.result ht)
    (forms_negative h.first ha)
    (forms_not_negative h.second h.term)
  have hup := Forms.and₃ htests (by decide) (forms_negative h.result ht)
    (forms_not_negative h.first ha)
    (forms_negative h.second h.term)
  exact (Forms.or htests (by decide) hdown hup).mono (by decide)

theorem lifts_sumFlags : ∀ f ∈ sumFlags z x y, f.Lifts m c a e t := by
  have hzero : Addend s zero (.num 0 s.bits) := .number (by decide) (inferWidth_zero s.bits_pos)
  have hdiffers : t.equals zero = false := h.held_result.equals_num _ _
  simp only [sumFlags, forall_mem_cons, not_mem_nil, false_implies, implies_true, and_true]
  refine ⟨⟨(by decide : CF ∈ flagVars), ?_⟩, ⟨(by decide : OF ∈ flagVars), ?_⟩,
    ⟨(by decide : SF ∈ flagVars), ?_⟩, ⟨(by decide : ZF ∈ flagVars), ?_⟩⟩
  · exact exists_assigned h.cleared h.forms_sumCarry (by decide) CF
  · exact exists_assigned h.cleared h.forms_sumOverflow (by decide) OF
  · exact exists_assigned h.cleared (forms_negative h.result (.held h.held_result)) (by decide) SF
  · refine ⟨_, assigned_compare (.inr rfl) h.result (hzero.becomes h.cleared) h.held_result hzero
      (fun _ => hdiffers) ZF, ofRegisters_compare (.inr rfl) h.held_result ?_, fun μ => ?_⟩
    · exact fun _ => .num s.width_registerWords (wrap_zero _)
    · rw [value_equal, value_num]

theorem assigned_self (heq : a = e) (z : Var) : Assigned c (.var z) 1 (.op .equal [x, y]) tt := by
  subst heq
  have hself : Becomes c 7 (.op .equal [x, y]) tt :=
    .equal_self h.first h.second (h.held.fixed h.cleared).equals_self
  exact ⟨_, _, _, _, hself.evaluate (by decide), rfl, rfl, rfl, rfl, rfl, (plain_num _ _).simplify,
    rfl⟩

theorem lifts_differenceFlags (hne : a = e ∨ a.equals e = false) :
    ∀ f ∈ differenceFlags z x y, f.Lifts m c a e t := by
  simp only [differenceFlags, forall_mem_cons, not_mem_nil, false_implies, implies_true, and_true]
  refine ⟨⟨(by decide : CF ∈ flagVars), ?_⟩, ⟨(by decide : OF ∈ flagVars), ?_⟩,
    ⟨(by decide : SF ∈ flagVars), ?_⟩, ⟨(by decide : ZF ∈ flagVars), ?_⟩⟩
  · refine ⟨_, assigned_compare (.inl rfl) h.first h.second h.held h.addend nofun CF,
      ofRegisters_compare (.inl rfl) h.held h.ofRegisters, fun μ => ?_⟩
    rw [value_unsignedLess, h.addend.value_eq]
  · exact exists_assigned h.cleared h.forms_overflow (by decide) OF
  · exact exists_assigned h.cleared (forms_negative h.result (.held h.held_result)) (by decide) SF
  · rcases hne with heq | hne
    · refine ⟨_, h.assigned_self heq ZF, fun _ => .num registerWords.width_one (by decide),
        fun μ => ?_⟩
      change value μ tt = truthWord (value μ a == value μ e)
      rw [heq, beq_self_eq_true]
      exact value_num μ _ _
    · refine ⟨_, assigned_compare (.inr rfl) h.first h.second h.held h.addend (fun _ => hne) ZF,
        ofRegisters_compare (.inr rfl) h.held h.ofRegisters, fun μ => ?_⟩
      rw [value_equal, h.addend.value_eq]

end Compares

def Loose (s : Size) (e : Expr) : Prop := e.width = .ok unknownWidth ∨ e.width = .ok s.bits

theorem Loose.exists_width (h : Loose s e) : ∃ w, e.width = .ok w := by
  rcases h with h | h <;> exact ⟨_, h⟩

/-- In the context `c`, the operands `x` and `y` of a template are the cell `p` and the expression
`e`, which becomes `e'` when it gets its width. -/
structure Operates (c : Context) (s : Size) (x y p e e' : Expr) : Prop where
  cleared : Open c
  cell : Cell s p
  addend : Addend s e e'
  first : Becomes c 6 x p
  second : Becomes c 6 y e
  loose_first : Loose s x
  loose_second : Loose s y

theorem Operates.compares (h : Operates c s x y p e e') :
    Compares False c s (.var s.scratch) y x (.var s.scratch) e e' p where
  cleared := h.cleared
  first := ((Held.scratch (m := False)).fixed h.cleared).becomes
  second := h.second
  result := h.first
  held := .scratch
  held_result := .cell h.cell nofun
  addend := h.addend
  ofRegisters := nofun

/-! ### Setting flags -/

def State.flag (r : Registers) (σ : State) (x : Var) : Bool := (r.read σ.file x).getLsbD 0

section

variable {z : Var}

theorem index_of_mem_flagVars (hz : z ∈ flagVars) : 0 < z.index ∧ z.index < 37 := by
  revert z
  decide

theorem width_of_mem_flagVars (hz : z ∈ flagVars) : z.width = 1 := by
  revert z
  decide

theorem Complete.whole_flag (hr : Complete r) (hz : z ∈ flagVars) : r.parent? z = none :=
  hr.wholes z (by simp only [flagVars, mem_cons, not_mem_nil, or_false] at hz ⊢; tauto)

theorem Complete.whole_scratch (hr : Complete r) (s : Size) : r.parent? s.scratch = none :=
  hr.wholes _ (by cases s <;> simp)

theorem ne_scratch_of_mem_flagVars (hz : z ∈ flagVars) (s : Size) : s.scratch.index ≠ z.index := by
  revert z
  cases s <;> decide

namespace State

variable {σ : State}

theorem flag_put (hz : z ∈ flagVars) (σ : State) (t : Bool) :
    (σ.put r (.var z) (truthWord t)).flag r z = t := by
  have hread : r.read (σ.put r (.var z) (truthWord t)).file z = low z.width.toNat (truthWord t) :=
    read_write_self _
  rw [flag, hread, width_of_mem_flagVars hz]
  cases t <;> rfl

theorem flag_put_of_ne {x : Var} (hz : r.parent? z = none) (hx : r.parent? x = none)
    (hne : x.index ≠ z.index)
    (σ : State) (v : Int64) : (σ.put r (.var z) v).flag r x = σ.flag r x := by
  rw [flag, flag, read_put_var]
  rwa [place_whole hx, place_whole hz]

end State

end

theorem Addend.keeps {σ σ' : State} (hr : Complete r) (h : Addend s e e')
    (halike : State.Alike σ σ') : State.Keeps r σ σ' e := by
  cases h with
  | cell h => exact h.keeps_of_alike hr halike
  | number => exact keeps_num ..

/-- The value of the expression does not depend on flags. -/
def Lasting (r : Registers) (e : Expr) : Prop :=
  ∀ z ∈ flagVars, ∀ (σ : State) (v : Int64), State.Keeps r σ (σ.put r (.var z) v) e

theorem alike_put_flag (hr : Complete r) {z : Var} (hz : z ∈ flagVars) (σ : State) (v : Int64) :
    State.Alike σ (σ.put r (.var z) v) :=
  .put_low (hr.whole_flag hz) (index_of_mem_flagVars hz).2 σ v

theorem Addend.lasting (hr : Complete r) (h : Addend s e e') : Lasting r e :=
  fun _ hz σ v => h.keeps hr (alike_put_flag hr hz σ v)

theorem Held.lasting (hr : Complete r) (h : Held m s e) : Lasting r e := by
  cases h with
  | cell h => exact Addend.lasting hr (.cell h)
  | scratch =>
    intro z hz σ v
    refine keeps_put_var ?_
    rw [place_whole (hr.whole_scratch s), place_whole (hr.whole_flag hz)]
    exact ne_scratch_of_mem_flagVars hz s

/-- The statement assigns to a register something that is made of registers and numbers. -/
def Effect.OfRegisters : Effect → Prop
  | .assign x q => Expr.Standard registerWords q x.width
  | _ => False

/-- **Flags are set.** Statements that set flags leave statements that set each of them to what it
is to tell, and change nothing else. -/
theorem exists_flags {a t : Expr} {fs : List Flag} (hr : Complete r) (hc : Open c)
    (ha : Lasting r a) (he : Lasting r e)
    (ht : Lasting r t) (h : ∀ f ∈ fs, f.Lifts m c a e t) (hd : fs.Pairwise fun f g =>
    f.var.index ≠ g.var.index) :
    ∃ es, Effect.Leaves c (fs.map Flag.effect) es ∧ (m → ∀ f ∈ es, Effect.OfRegisters f) ∧
      ∀ τ : State, ∃ σ, es.foldlM (State.step r) τ = some σ ∧ State.Alike τ σ ∧
      (∀ f ∈ fs, σ.flag r f.var =
          f.holds (value (τ.machine r) a) (value (τ.machine r) e) (value (τ.machine r) t)) ∧
        ∀ z ∈ flagVars, (∀ f ∈ fs, f.var.index ≠ z.index) → σ.flag r z = τ.flag r z := by
  induction fs with
  | nil => exact ⟨[], .nil, nofun, fun τ => ⟨τ, rfl, .refl τ, nofun, fun _ _ _ => rfl⟩⟩
  | cons f fs ih =>
    obtain ⟨hf, hfs⟩ := forall_mem_cons.mp h
    obtain ⟨hne, hd⟩ := pairwise_cons.mp hd
    obtain ⟨es, hes, hregisters, hrun⟩ := ih hfs hd
    obtain ⟨q, hq, hmade, hvalue⟩ := hf.exists_assigned
    have hwidth := width_of_mem_flagVars hf.mem
    have htarget : Target c 1 (.var f.var) (.var f.var) := by
      have htarget := (hc.free _ (mem_operandVars_of_flag hf.mem)).target
      rwa [hwidth] at htarget
    refine ⟨.write (.var f.var) q :: es, .keep (hq.passes htarget) hes, fun hm => ?_, fun τ => ?_⟩
    · exact forall_mem_cons.mpr ⟨show Expr.Standard _ q f.var.width from hwidth ▸ hmade hm,
        hregisters hm⟩
    -- the first flag is set, and the others are set in a state that is alike
    have halike := alike_put_flag hr hf.mem τ (value (τ.machine r) q)
    obtain ⟨σ, hσ, halike', hflags, hothers⟩ := hrun (τ.put r (.var f.var) (value (τ.machine r) q))
    have hfirst := ha _ hf.mem τ (value (τ.machine r) q)
    have hsecond := he _ hf.mem τ (value (τ.machine r) q)
    have hresult := ht _ hf.mem τ (value (τ.machine r) q)
    unfold State.Keeps at hfirst hsecond hresult
    refine ⟨σ, ?_, halike.trans halike', forall_mem_cons.mpr ⟨?_, fun g hg => ?_⟩,
      fun z hz hzs => ?_⟩
    · rw [foldlM_cons, step_write _ _ (.inl ⟨_, rfl⟩)]
      exact hσ
    · rw [hothers f.var hf.mem fun g hg => (hne g hg).symm, hvalue]
      exact flag_put hf.mem τ _
    · rw [hflags g hg, hfirst, hsecond, hresult]
    · obtain ⟨hzf, hzs⟩ := forall_mem_cons.mp hzs
      rw [hothers z hz hzs]
      exact flag_put_of_ne (hr.whole_flag hf.mem) (hr.whole_flag hz) hzf.symm τ _

/-! ### Operations that set flags -/

/-- What `z` is assigned is the number `f` of the state, in the states `K`. The assignment to a cell
may disappear, if this is what it has. -/
inductive Computes (r : Registers) (m : Prop) (c : Context) (s : Size) (K : State → Prop)
    (z v : Expr) (f : State → BitVec s.bits) : Prop where
  | assigns {q : Expr} (h : Assigned c z s.bits v q) (hq : OfRegisters m s.bits q)
      (hvalue : ∀ σ, K σ → value (σ.machine r) q = ofBits (f σ))
  | vanishes (hz : Cell s z) (h : v.evaluate c = .ok z)
      (hvalue : ∀ σ : State, value (σ.machine r) z = ofBits (f σ))

theorem Computes.congr {z v : Expr} {f g : State → BitVec s.bits} {K : State → Prop}
    (h : Computes r m c s K z v f) (heq : ∀ σ, f σ = g σ) : Computes r m c s K z v g :=
  (funext heq : f = g) ▸ h

variable {f : State → BitVec s.bits}

theorem Computes.exists_leaves {v : Expr} {body es : List Effect} {K : State → Prop}
    (h : Computes r m c s K p v f) (hp : Cell s p) (hx : Target c s.bits x p)
    (hes : Effect.Leaves c body es) :
    ∃ es', Effect.Leaves c (.template s.bits x v :: body) es' ∧ ∀ σ : State, K σ →
        es'.foldlM (State.step r) σ = es.foldlM (State.step r) (σ.put r p (ofBits (f σ))) := by
  cases h with
  | @assigns q h _ hvalue =>
    refine ⟨.write p q :: es, .keep (h.passes hx) hes, fun σ hσ => ?_⟩
    rw [foldlM_cons, step_write p q hp.shape, hvalue σ hσ]
    rfl
  | vanishes _ h hvalue =>
    refine ⟨es, .drop (hx.vanishes h (hp.fixed open_empty).equals_self) hes, fun σ _ => ?_⟩
    rw [← hvalue, hp.put_value]

/-- The scratch register has what the cell has. -/
def Saved (r : Registers) (s : Size) (p : Expr) (σ : State) : Prop :=
  value (σ.machine r) (.var s.scratch) = value (σ.machine r) p

theorem Operates.passes_save (h : Operates c s x y p e e') :
    Effect.Passes c (.template s.bits (.var s.scratch) x) (.write (.var s.scratch) p) := by
  have htarget := (h.cleared.free _ s.scratch_mem).target
  rw [s.width_scratch] at htarget
  have hfixed := h.cell.fixed open_empty
  have hagain := hfixed.becomes.evaluate (by decide)
  have hdiffers := h.cell.scratch_equals
  exact Assigned.passes ⟨p, p, p, p, h.first.evaluate (by decide), hdiffers, hfixed.inferWidth_eq,
    hagain, hdiffers, hagain, hfixed.plain.simplify, hdiffers⟩ htarget

theorem Size.scratch_lt (s : Size) : s.scratch.index < 37 := by
  cases s <;> decide

theorem Cell.keeps_scratch (hr : Complete r) (hp : Cell s p) (σ : State) (v : Int64) :
    State.Keeps r σ (σ.put r p v) (.var s.scratch) := by
  cases hp with
  | register n =>
    refine keeps_put_var ?_
    have hlow := s.scratch_lt
    have hplace := hr.le_place s n
    rw [place_whole (hr.whole_scratch s)]
    omega
  | memory => exact keeps_put_mem

/-- The statements of an operation: the first operand is saved, gets its new value, and the flags
are set. -/
def operationBody (s : Size) (x v : Expr) (fs : List Flag) : List Effect :=
  .template s.bits (.var s.scratch) x :: .template s.bits x v :: fs.map Flag.effect

/-- **Operations that set flags.** The statements that are left of an operation write its result to
the first operand, and set the flags to what they are to tell about the first operand before, the
second operand after, and the result. -/
theorem Operates.exists_run {v : Expr} {fs : List Flag} (hr : Complete r)
    (h : Operates c s x y p e e') (hx : Target c s.bits x p)
    (hv : Computes r False c s (Saved r s p) p v f)
    (hf : ∀ σ v, f (σ.put r (.var s.scratch) v) = f σ)
    (hfs : ∀ g ∈ fs, g.Lifts False c (.var s.scratch) e p)
    (hd : fs.Pairwise fun f g => f.var.index ≠ g.var.index) :
    ∃ es, Effect.Leaves c (operationBody s x v fs) es ∧ es ≠ [] ∧ ∀ σ : State, ∃ σ',
    es.foldlM (State.step r) σ = some σ' ∧
      State.Alike (σ.put r p (ofBits (f σ))) σ' ∧ ∀ g ∈ fs, σ'.flag r g.var =
        g.holds (value (σ.machine r) p) (value (σ'.machine r) e) (ofBits (f σ)) := by
  obtain ⟨es, hes, -, hrun⟩ := exists_flags hr h.cleared (h.compares.held.lasting hr)
    (h.addend.lasting hr)
    (h.compares.held_result.lasting hr) hfs hd
  obtain ⟨es', hes', hrun'⟩ := hv.exists_leaves h.cell hx hes
  refine ⟨_, .keep h.passes_save hes', by simp, fun σ => ?_⟩
  -- `σ₁` has the first operand saved, and `τ` has the result
  have hsaved : State.Alike σ (σ.put r (.var s.scratch) (value (σ.machine r) p)) :=
    .put_low (hr.whole_scratch s) s.scratch_lt σ _
  have hscratch : value ((σ.put r (.var s.scratch) (value (σ.machine r) p)).machine r)
    (.var s.scratch) =
      value (σ.machine r) p := by
    have hwidth := s.width_scratch
    have hbits := s.bits_le
    exact value_put_var (by omega) (by omega) (hwidth ▸ h.cell.fits σ)
  have hkept : value ((σ.put r (.var s.scratch) (value (σ.machine r) p)).machine r) p =
    value (σ.machine r) p :=
    h.cell.keeps_of_alike hr hsaved
  have hstep : σ.step r (.write (.var s.scratch) p) =
    some (σ.put r (.var s.scratch) (value (σ.machine r) p)) := rfl
  have hnumber := hf σ (value (σ.machine r) p)
  generalize σ.put r (.var s.scratch) (value (σ.machine r) p) = σ₁ at *
  obtain ⟨σ', hσ', halike, hflags, -⟩ := hrun (σ₁.put r p (ofBits (f σ)))
  refine ⟨σ', ?_, (h.cell.alike_put hr hsaved _).trans halike, fun g hg => ?_⟩
  · rw [foldlM_cons, hstep]
    change es'.foldlM (step r) σ₁ = _
    rw [hrun' σ₁ (hscratch.trans hkept.symm), hnumber, hσ']
  · have hscratch' := h.cell.keeps_scratch hr σ₁ (ofBits (f σ))
    have hsecond := h.addend.keeps hr halike
    unfold State.Keeps at hscratch' hsecond
    rw [hflags g hg, hscratch', hscratch, ← hsecond, h.cell.value_put (fits_ofBits s.bits_le _)]

end FlowRecovery.IA32
