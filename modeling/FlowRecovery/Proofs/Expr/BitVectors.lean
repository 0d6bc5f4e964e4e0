import FlowRecovery.Proofs.Expr.Evaluation

/-!
# Expressions as bit vectors

`Expr.denote` reads an expression as a bit vector, by the operations on bit vectors that its
operators are named after. It knows nothing of words: sums and products are those modulo a power of
two, a comparison gives one bit, a product has twice the width of its operands, which are taken for
signed numbers.

`Standard Γ e w` says that `e` is built from operations of this kind. On the machine that holds
given bit vectors, the word of such an expression is the one that its bit vector is kept as
(`value_eq_ofBits_denote`).
-/

namespace FlowRecovery

open Word BitVec List

abbrev Contents := (x : Var) → BitVec x.width.toNat

/-- A value for every number of bits. What counts is the one for the width of the expression that is
read. -/
abbrev Reading := (n : Nat) → BitVec n

namespace Operator

def mixBits {n : Nat} : Operator → BitVec n → BitVec n → BitVec n
  | and => fun a b => a &&& b
  | or => fun a b => a ||| b
  | _ => fun a b => a + b

def unitBits {n : Nat} : Operator → BitVec n
  | and => BitVec.allOnes n
  | _ => 0

def compareBits {n : Nat} : Operator → BitVec n → BitVec n → Bool
  | less => BitVec.slt
  | lessOrEqual => BitVec.sle
  | unsignedLess => BitVec.ult
  | unsignedLessOrEqual => BitVec.ule
  | _ => fun a b => a == b

/-- What an operation of `n` bits gives for operands of the widths `ws`. -/
def denote (o : Operator) (n : Nat) (ws : List Nat) (bs : List Reading) : BitVec n :=
  let operand (i : Nat) : Reading := bs.getD i fun _ => 0
  let width (i : Nat) : Nat := ws.getD i 0
  match o with
  | plus | and | or => (bs.map (· n)).foldr o.mixBits o.unitBits
  | not => ~~~operand 0 n
  | neg => -operand 0 n
  | xor => operand 0 n ^^^ operand 1 n
  | equal | less | lessOrEqual | unsignedLess | unsignedLessOrEqual =>
    (BitVec.ofBool (o.compareBits (operand 0 (width 0)) (operand 1 (width 0)))).setWidth n
  | mul => (operand 0 (width 0)).signExtend n * (operand 1 (width 1)).signExtend n
  | shl => operand 0 n <<< (operand 1 (width 1)).toNat
  | sar => (operand 0 n).sshiftRight (operand 1 (width 1)).toNat
  | signExtend => (operand 2 (width 2)).signExtend n
  | zeroFill => (operand 2 (width 2)).setWidth n
  | _ => 0

end Operator

namespace Expr

mutual

def denote (ρ : Contents) : Expr → (n : Nat) → BitVec n
  | .num v _, n => BitVec.ofInt n v.toInt
  | .var x, n => (ρ x).setWidth n
  | .op o as, n => o.denote n (as.map (fun a => a.widthOf.toNat)) (denoteAll ρ as)
  | .bits x (.num f _) _, n => (denote ρ x x.widthOf.toNat).extractLsb' f.toInt.toNat n
  | .cond c t f, n => if denote ρ c 1 = 0 then denote ρ f n else denote ρ t n
  | _, _ => 0

def denoteAll (ρ : Contents) : List Expr → List Reading
  | [] => []
  | a :: as => denote ρ a :: denoteAll ρ as

end

/-- The expression has `w` bits and is built from numbers and variables by operations with a meaning
on bit vectors, whose operands have the widths that they should have. Operations have one bit or
whole bytes, as they are never built with other widths. -/
inductive Standard (Γ : Vocabulary) : Expr → Int → Prop where
  | num {v : Int64} {w : Int} (hw : Γ.width w) (hv : Fits w v) : Standard Γ (.num v w) w
  | var {x : Var} (hx : Γ.declared x) (hw : Γ.width x.width) : Standard Γ (.var x) x.width
  | regroup {o : Operator} {as : List Expr} {w : Int} (ho : o.isAssociative = true) (hsum : o = .plus → Γ.sum w)
      (hlen : 2 ≤ as.length) (hadm : Admissible w) (has : ∀ a ∈ as, Standard Γ a w) : Standard Γ (.op o as) w
  | not {a : Expr} {w : Int} (hadm : Admissible w) (ha : Standard Γ a w) : Standard Γ (.op .not [a]) w
  | neg {a : Expr} {w : Int} (hsum : Γ.sum w) (hadm : Admissible w) (ha : Standard Γ a w) :
      Standard Γ (.op .neg [a]) w
  | xor {a b : Expr} {w : Int} (hadm : Admissible w) (ha : Standard Γ a w) (hb : Standard Γ b w) :
      Standard Γ (.op .xor [a, b]) w
  | compare {o : Operator} {a b : Expr} {w : Int} (ho : o.isComparison = true) (ha : Standard Γ a w)
      (hb : Standard Γ b w) : Standard Γ (.op o [a, b]) 1
  | mul {a b : Expr} {w : Int} (hrich : Γ.rich) (hadm : Admissible (2 * w)) (hwidth : Γ.width (2 * w))
      (ha : Standard Γ a w) (hb : Standard Γ b w) : Standard Γ (.op .mul [a, b]) (2 * w)
  | shift {o : Operator} {a : Expr} {k : Int64} {w wk : Int} (hrich : Γ.rich) (ho : o = .shl ∨ o = .sar) (hone : 1 < w)
      (hadm : Admissible w) (ha : Standard Γ a w) (hk : Γ.width wk) (hfits : Fits wk k) (hpos : 0 ≤ k.toInt)
      (hlt : k.toInt < 64) : Standard Γ (.op o [a, .num k wk]) w
  | extend {o : Operator} {f l : Int64} {a : Expr} {wf wl w u : Int} (hrich : Γ.rich)
      (ho : o = .signExtend ∨ o = .zeroFill) (hfirst : f.toInt = w) (hlast : l.toInt = u - 1) (hw : w ≤ 32)
      (hlt : w < u) (hadm : Admissible u) (hwidth : Γ.width u) (ha : Standard Γ a w) :
      Standard Γ (.op o [.num f wf, .num l wl, a]) u
  | bits {f l : Int64} {x : Expr} {wf wl w u : Int} (hrich : Γ.rich) (hfirst : 0 ≤ f.toInt) (hle : f.toInt ≤ l.toInt)
      (hlast : l.toInt < w) (hw : w ≤ 32) (hu : u = l.toInt - f.toInt + 1) (hwidth : Γ.width u) (hx : Standard Γ x w) :
      Standard Γ (.bits x (.num f wf) (.num l wl)) u
  | cond {c t f : Expr} {w : Int} (hrich : Γ.rich) (hc : Standard Γ c 1) (ht : Standard Γ t w) (hf : Standard Γ f w) :
      Standard Γ (.cond c t f) w

/-- The machine on which variables have the given contents. Nothing else counts for standard
expressions. -/
def machine (ρ : Contents) : Machine where
  register x := ofBits (ρ x)
  memory _ _ _ := 0
  named _ _ := 0
  unspecified _ := 0
  other _ _ _ := 0

variable {Γ : Vocabulary} {e : Expr} {w : Int} {v : Int64}

theorem value_var_machine {ρ : Contents} {x : Var} (hx : x.width ≤ 64) (hv : Fits x.width v)
    (h : ρ x = .ofInt _ v.toInt) : value (machine ρ) (.var x) = v := by
  rw [value]
  change wrap x.width (ofBits (ρ x)) = v
  rw [h, ofInt_toInt (by omega)]
  exact (wrap_wrap _ _).trans hv

theorem denoteAll_eq_map (ρ : Contents) (as : List Expr) : denoteAll ρ as = as.map (denote ρ) := by
  induction as with
  | nil => rfl
  | cons a as ih => rw [denoteAll, ih, map_cons]

theorem low32_of_lt (hpos : 0 ≤ v.toInt) (hlt : v.toInt < 2147483648) : low32 v = v.toInt :=
  wrap32_of_lt hpos hlt

theorem Standard.hasWidth (hΓ : ∀ u, Γ.width u → u ≤ 64) (h : Standard Γ e w) : HasWidth Γ e w := by
  induction h with
  | num hw hv => exact .num hw hv
  | var hx hw => exact .var hx hw
  | regroup ho hsum hlen hadm _ ih => exact .regroup ho hsum hlen hadm ih
  | not hadm _ ih => exact .not hadm ih
  | neg hsum hadm _ ih => exact .neg hsum hadm ih
  | xor hadm _ _ iha ihb => exact .xor hadm iha ihb
  | compare ho _ _ iha ihb => exact .compare ho iha ihb
  | mul hrich hadm hwidth _ _ iha ihb =>
    have hpos := iha.width_pos
    exact .arith hrich ⟨rfl, rfl⟩ (by omega) hadm hwidth iha ihb
  | shift hrich ho hone hadm _ hk hfits _ _ ih =>
    refine .arith hrich ?_ hone hadm ih.width_eq.2 ih (.num hk hfits)
    rcases ho with rfl | rfl <;> rfl
  | @extend o f l _ wf wl w u hrich ho hfirst hlast hw hlt hadm hwidth _ ih =>
    have hle := hΓ _ hwidth
    have hpos := ih.width_pos
    refine .functional hrich (by rcases ho with rfl | rfl <;> rfl) ?_ hadm hwidth ih
    have hu : max (wrap32 (low32 l + 1)) w = u := by
      rw [low32_of_lt (by omega) (by omega), wrap32_of_lt (by omega) (by omega)]
      omega
    rcases ho with rfl | rfl <;> exact congrArg Except.ok hu
  | bits hrich hfirst hle hlast hw hu hwidth _ ih =>
    have hf := low32_of_lt hfirst (by omega)
    have hl := low32_of_lt (Int.le_trans hfirst hle) (by omega)
    exact .bits hrich (by rw [hf]; exact hfirst) (by rw [hf, hl]; exact hle) (by rw [hf, hl]; exact hu) (by omega)
      hwidth ih
  | cond hrich _ _ _ ihc iht ihf => exact .cond hrich ihc iht ihf

theorem standard_of_hasWidth {Γ' : Vocabulary} (hrich : ¬Γ'.rich) (hmemory : ¬Γ'.memory)
    (hdeclared : ∀ x, Γ'.declared x → Γ.declared x) (hwidth : ∀ u, Γ'.width u → Γ.width u)
    (hsum : ∀ u, Γ'.sum u → Γ.sum u) (h : HasWidth Γ' e w) : Standard Γ e w := by
  induction h with
  | num hw hv => exact .num (hwidth _ hw) hv
  | var hx hw => exact .var (hdeclared _ hx) (hwidth _ hw)
  | regroup ho hs hlen hadm _ ih => exact .regroup ho (fun h => hsum _ (hs h)) hlen hadm ih
  | not hadm _ ih => exact .not hadm ih
  | neg hs hadm _ ih => exact .neg (hsum _ hs) hadm ih
  | xor hadm _ _ iha ihb => exact .xor hadm iha ihb
  | compare ho _ _ iha ihb => exact .compare ho iha ihb
  | arith h | functional h | cast h | unknown h | bits h | cond h | special h | nondet h => exact absurd h hrich
  | mem h => exact absurd h hmemory

/-! ### The operations -/

variable {ρ : Contents} {n : Nat}

theorem low_total (o : Operator) (hn : n ≤ 64) (vs : List Int64) :
    low n (o.total vs) = (vs.map (low n)).foldr o.mixBits o.unitBits := by
  induction vs with
  | nil =>
    have hzero : low n 0 = 0#n := setWidth_zero n 64
    cases o with
    | and =>
      change low n (~~~0) = allOnes n
      rw [low_not hn, hzero, not_zero]
    | _ => exact hzero
  | cons v vs ih =>
    rw [Operator.total_cons, map_cons, foldr_cons, ← ih]
    cases o with
    | and => exact low_and n _ _
    | or => exact low_or n _ _
    | _ => exact low_add hn _ _

theorem ofBits_inj {a b : BitVec n} (hn : n ≤ 64) : ofBits a = ofBits b ↔ a = b := by
  constructor
  · intro h
    rw [← low_ofBits hn a, h, low_ofBits hn]
  · rintro rfl
    rfl

theorem truthWord_eq_ofBits (t : Bool) : truthWord t = ofBits ((BitVec.ofBool t).setWidth 1) := by
  cases t <;> rfl

theorem toNat_toUInt64_ofBits (hn : n ≤ 64) (a : BitVec n) :
    (ofBits a).toUInt64.toNat = a.toNat + if a.msb then 2 ^ 64 - 2 ^ n else 0 := by
  change (a.signExtend 64).toNat = _
  rw [toNat_signExtend, toNat_setWidth_of_le hn]

theorem ofBits_lt_iff (hn : n ≤ 64) (a b : BitVec n) :
    (ofBits a).toUInt64 < (ofBits b).toUInt64 ↔ a.toNat < b.toNat := by
  have ha := a.isLt
  have hb := b.isLt
  rw [UInt64.lt_iff_toNat_lt, toNat_toUInt64_ofBits hn, toNat_toUInt64_ofBits hn, msb_eq_decide,
    msb_eq_decide]
  simp only [decide_eq_true_eq]
  split <;> split <;> omega

theorem meaning_ofBits {o : Operator} (ho : o.isComparison) (hn : n ≤ 64) (a b : BitVec n) :
    o.meaning (ofBits a) (ofBits b) = some (truthWord (o.compareBits a b)) := by
  have hcongr {s t : Bool} (h : s = t) : some (truthWord s) = some (truthWord t) := by rw [h]
  cases o with
  | equal => exact hcongr (Bool.eq_iff_iff.mpr (by simp [Operator.compareBits, ofBits_inj hn]))
  | less =>
    refine hcongr (decide_eq_decide.mpr ?_)
    rw [Int64.lt_iff_toInt_lt, toInt_ofBits hn, toInt_ofBits hn]
  | lessOrEqual =>
    refine hcongr (decide_eq_decide.mpr ?_)
    rw [Int64.le_iff_toInt_le, toInt_ofBits hn, toInt_ofBits hn]
  | unsignedLess => exact hcongr (decide_eq_decide.mpr (ofBits_lt_iff hn a b))
  | unsignedLessOrEqual =>
    refine hcongr (decide_eq_decide.mpr ?_)
    rw [← UInt64.not_lt, ofBits_lt_iff hn]
    exact Nat.not_lt
  | _ => cases ho

theorem toNat_low_of_fits {k : Int64} (hw : w ≤ 64) (hfits : Fits w k) (hpos : 0 ≤ k.toInt) :
    (low w.toNat k).toNat = k.toInt.toNat := by
  have hint : (low w.toNat k).toInt = k.toInt := by
    rw [← toInt_ofBits (by omega)]
    exact congrArg Int64.toInt hfits
  have hcond := toInt_eq_toNat_cond (low w.toNat k)
  have hlt := (low w.toNat k).isLt
  split at hcond <;> omega

theorem extend_ofBits (signed : Bool) {u : Int} (hpos : 0 < w) (hw : w ≤ 32) (hlt : w < u) (hu : u ≤ 64)
    (b : BitVec w.toNat) : ((extend signed w (u - 1) (ofBits b) w).value?).getD 0 =
      ofBits (if signed then b.signExtend u.toNat else b.setWidth u.toNat) := by
  have hfits : Fits w (ofBits b) := congrArg ofBits (low_ofBits (by omega) b)
  have htarget : max w (wrap32 (u - 1 + 1)) = u := by
    rw [wrap32_of_lt (by omega) (by omega)]
    omega
  cases signed with
  | true =>
    -- the word repeats the highest bit already
    have hsame : extend true w (u - 1) (ofBits b) w = number (ofBits b) u := by
      unfold extend
      rw [htarget]
      change (if ofBits b &&& bitMask (w - 1) (w - 1) > 0 then _ else _) = _
      split
      · next hsign =>
        rw [or_bitMask_of_fits hpos hlt hu hfits ((and_bitMask_pos hpos (by omega) _).mp hsign)]
      · rfl
    rw [hsame, value?_number, Option.getD_some, settle_of_fits (by omega) (fits_of_le hpos (by omega) hfits)]
    apply Int64.toInt_inj.mp
    rw [if_pos rfl, toInt_ofBits (by omega), toInt_ofBits (by omega),
      toInt_signExtend_of_le (by omega)]
  | false =>
    unfold extend
    rw [htarget]
    change ((number (ofBits b &&& (bitMask 0 (w - 1) ||| bitMask (u - 1 + 1) (u - 1))) u).value?).getD 0
      = _
    rw [value?_number, Option.getD_some, settle_eq_wrap (by omega), wrap_and_bitMask hpos (by omega),
      low_ofBits (by omega)]
    rfl

theorem extractLsb'_signExtend {b : BitVec n} {i m : Nat} (hn : n ≤ 64) (him : i + m ≤ n) :
    (b.signExtend 64).extractLsb' i m = b.extractLsb' i m := by
  apply eq_of_getLsbD_eq
  intro j hj
  simp only [getLsbD_extractLsb', getLsbD_signExtend, show i + j < 64 by omega, show i + j < n by omega,
    decide_true, Bool.true_and, if_true]

/-! ### Every expression -/

/-- **Words and bit vectors.** On the machine that holds the given bit vectors, the word of a
standard expression is the one that its bit vector is kept as. -/
theorem value_eq_ofBits_denote (hΓ : ∀ u, Γ.width u → u ≤ 64) (ρ : Contents) (h : Standard Γ e w) :
    value (machine ρ) e = ofBits (denote ρ e w.toNat) := by
  have hle {a : Expr} {u : Int} (ha : Standard Γ a u) : u.toNat ≤ 64 := by
    have := hΓ u (ha.hasWidth hΓ).width_eq.2
    omega
  have hwidthOf {a : Expr} {u : Int} (ha : Standard Γ a u) : a.widthOf = u := (ha.hasWidth hΓ).widthOf_eq
  have hlow {a : Expr} {u : Int} (ha : Standard Γ a u) (ih : value (machine ρ) a = ofBits (denote ρ a u.toNat)) :
      low u.toNat (value (machine ρ) a) = denote ρ a u.toNat := by
    rw [ih, low_ofBits (hle ha)]
  induction h with
  | @num v w hw hv =>
    have : w ≤ 64 := hΓ w hw
    rw [value, denote, ofInt_toInt (by omega)]
    exact hv.symm
  | @var x hx hw =>
    have := hle (.var hx hw)
    rw [value, denote, BitVec.setWidth_eq]
    exact congrArg ofBits (low_ofBits this (ρ x))
  | @regroup o as w ho hsum hlen hadm has ih =>
    have h : Standard Γ (.op o as) w := .regroup ho hsum hlen hadm has
    have hoperands : (as.map (value (machine ρ))).map (low w.toNat) = (denoteAll ρ as).map (· w.toNat) := by
      rw [denoteAll_eq_map, map_map, map_map]
      exact map_congr_left fun a ha => hlow (has a ha) (ih a ha)
    rw [value_regroup _ (h.hasWidth hΓ) ho, denote]
    change ofBits (low w.toNat _) = _
    rw [low_total o (hle h), hoperands]
    cases o <;> first | rfl | cases ho
  | @not a w hadm ha ih =>
    rw [value, hwidthOf (.not hadm ha)]
    change ofBits (low w.toNat (~~~value (machine ρ) a)) = ofBits (~~~denote ρ a w.toNat)
    rw [low_not (hle ha), hlow ha ih]
  | @neg a w hsum hadm ha ih =>
    rw [value, hwidthOf (.neg hsum hadm ha)]
    change ofBits (low w.toNat (-value (machine ρ) a)) = ofBits (-denote ρ a w.toNat)
    rw [low_neg (hle ha), hlow ha ih]
  | @xor a b w hadm ha hb iha ihb =>
    rw [value_binary _ ((Standard.xor hadm ha hb).hasWidth hΓ) rfl]
    change ofBits (low w.toNat (value (machine ρ) a ^^^ value (machine ρ) b)) =
      ofBits (denote ρ a w.toNat ^^^ denote ρ b w.toNat)
    rw [low_xor, hlow ha iha, hlow hb ihb]
  | @compare o a b w ho ha hb iha ihb =>
    have hmeaning := meaning_ofBits ho (hle ha) (denote ρ a w.toNat) (denote ρ b w.toNat)
    rw [← iha, ← ihb] at hmeaning
    rw [value_compare _ ho (ha.hasWidth hΓ) (hb.hasWidth hΓ) hmeaning, truthWord_eq_ofBits, denote, map,
      hwidthOf ha]
    cases o <;> first | rfl | cases ho
  | @mul a b w hrich hadm hwidth ha hb iha ihb =>
    have h : Standard Γ (.op .mul [a, b]) (2 * w) := .mul hrich hadm hwidth ha hb
    rw [value_binary _ (h.hasWidth hΓ) rfl, denote, map, map, hwidthOf ha,
      hwidthOf hb]
    change ofBits (low (2 * w).toNat (value (machine ρ) a * value (machine ρ) b)) =
      ofBits ((denote ρ a w.toNat).signExtend _ * (denote ρ b w.toNat).signExtend _)
    rw [low_mul (hle h), iha, ihb, low_ofBits_eq_signExtend (hle h), low_ofBits_eq_signExtend (hle h)]
  | @shift o a k w wk hrich ho hone hadm ha hk hfits hpos hlt ih =>
    have h : Standard Γ (.op o [a, .num k wk]) w := .shift hrich ho hone hadm ha hk hfits hpos hlt
    have hwk := hΓ wk hk
    have hdistance : (BitVec.ofInt wk.toNat k.toInt).toNat = k.toInt.toNat := by
      rw [ofInt_toInt (by omega), toNat_low_of_fits hwk hfits hpos]
    rcases ho with rfl | rfl
    · rw [value_binary _ (h.hasWidth hΓ) rfl]
      change ofBits (low w.toNat (shiftLeft (value (machine ρ) a) k.toInt)) =
        ofBits (denote ρ a w.toNat <<< (BitVec.ofInt wk.toNat k.toInt).toNat)
      rw [low_shiftLeft hpos hlt (hle h), hlow ha ih, hdistance]
    · rw [value_binary _ (h.hasWidth hΓ) rfl]
      change ofBits (low w.toNat (shiftRight (value (machine ρ) a) k.toInt)) =
        ofBits ((denote ρ a w.toNat).sshiftRight (BitVec.ofInt wk.toNat k.toInt).toNat)
      rw [ih, low_shiftRight_ofBits hpos hlt (hle h), hdistance]
  | @extend o f l a wf wl w u hrich ho hfirst hlast hw hlt hadm hwidth ha ih =>
    have h : Standard Γ (.op o [.num f wf, .num l wl, a]) u := .extend hrich ho hfirst hlast hw hlt hadm hwidth ha
    have hpos := (ha.hasWidth hΓ).width_pos
    have hu := hΓ u hwidth
    have hf : low32 f = w := by rw [low32_of_lt (by omega) (by omega), hfirst]
    have hl : low32 l = u - 1 := by rw [low32_of_lt (by omega) (by omega), hlast]
    have hextend := extend_ofBits (o == .signExtend) hpos hw hlt hu (denote ρ a w.toNat)
    rw [← ih] at hextend
    have hvalue : value (machine ρ) (.op o [.num f wf, .num l wl, a]) =
        ((extend (o == .signExtend) w (u - 1) (value (machine ρ) a) w).value?).getD 0 := by
      rw [value, map, map, map, hwidthOf ha, ← hf, ← hl]
      rcases ho with rfl | rfl <;> rfl
    rw [hvalue, hextend, denote, map, map, map, hwidthOf ha]
    rcases ho with rfl | rfl <;> rfl
  | @bits f l x wf wl w u hrich hfirst hle' hlast hw hu hwidth hx ih =>
    have hf := low32_of_lt hfirst (by omega)
    have hl := low32_of_lt (Int.le_trans hfirst hle') (by omega)
    have hwrap : wrap32 (l.toInt - f.toInt + 1) = u := by
      rw [wrap32_of_lt (by omega) (by omega), hu]
    have hextract := settle_extract hfirst hle' (by omega) (by omega) (value (machine ρ) x)
    rw [← hu, ih, toBitVec_ofBits, extractLsb'_signExtend (by omega) (by omega)] at hextract
    have hvalue : value (machine ρ) (.bits x (.num f wf) (.num l wl)) =
        settle u (shiftRight (bitMask f.toInt l.toInt &&& value (machine ρ) x) f.toInt) := by
      simp only [value, extract, hf, hl, hwrap, value?_number, Option.getD_some]
    rw [hvalue, ih, hextract, denote, hwidthOf hx]
  | @cond c t f w hrich hc ht hf ihc iht ihf =>
    have hzero : value (machine ρ) c = 0 ↔ denote ρ c 1 = 0 := by
      rw [ihc]
      exact ofBits_inj (b := 0#1) (by decide)
    rw [value, denote]
    by_cases h : value (machine ρ) c = 0
    · rw [if_pos h, if_pos (hzero.mp h), ihf]
    · rw [if_neg h, if_neg (fun h' => h (hzero.mpr h')), iht]

end Expr

end FlowRecovery
