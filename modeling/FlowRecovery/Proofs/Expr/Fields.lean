import FlowRecovery.Proofs.Expr.Conditions
import FlowRecovery.Proofs.Expr.Concrete

/-!
# Shifts to the right and fields of bits

Shifts to the right and assignments to fields of bits are computed with numbers of 64 bits. A
shorter number is extended by its sign, of which a shift keeps the lowest 32 bits. So copies of the
sign come in from above where a number is shorter than that, and the upper half of a longer one is
lost (`evaluate_shr_eq_div_iff`).

The bits outside of a field are kept by a mask, and the number that is assigned is filled with zeros
and moved to its place. The masks are those of `bitMask`, which has no bits for the range of all 64.
`inserted` says what is computed from them, and `evaluate_insertBits` where this is the word with
the field replaced.
-/

namespace FlowRecovery

open BitVec

namespace Word

variable {w n : Nat}

theorem toBitVec_shiftRightZero {n : Int} (hpos : 0 ≤ n) (hlt : n < 64) (v : Int64) :
    (shiftRightZero v n).toBitVec = v.toBitVec >>> n.toNat := by
  obtain ⟨k, rfl⟩ := Int.eq_ofNat_of_zero_le hpos
  have hk : k < 64 := by omega
  rw [shiftRightZero, Int.emod_eq_of_lt hpos hlt]
  change v.toBitVec >>> (UInt64.ofNat (Int.ofNat k).toNat % 64).toBitVec = _
  rw [ushiftRight_eq']
  congr 1
  exact (by decide : ∀ k < 64, (UInt64.ofNat k % 64).toBitVec.toNat = k) k hk

theorem toBitVec_unsigned32 (v : Int64) : (unsigned32 v).toBitVec = (low 32 v).setWidth 64 := by
  rw [unsigned32, Int64.toBitVec_and]
  apply eq_of_getLsbD_eq
  intro i hi
  have hmask : ∀ i < 64, (0xFFFFFFFF : Int64).toBitVec.getLsbD i = decide (i < 32) := by decide
  rw [getLsbD_and, hmask i hi, low, getLsbD_setWidth, getLsbD_setWidth, decide_eq_true hi,
    Bool.true_and, Bool.and_comm]

theorem getLsbD_low_shiftRightZero (b : BitVec w) (hn : n < 64) {i : Nat} (hi : i < w) :
    (low w (shiftRightZero (unsigned32 (ofBits b)) n)).getLsbD i =
      (decide (n + i < 32) && if n + i < w then b.getLsbD (n + i) else b.msb) := by
  rw [low, getLsbD_setWidth, toBitVec_shiftRightZero (by omega) (by omega), getLsbD_ushiftRight,
    toBitVec_unsigned32, getLsbD_setWidth, low_ofBits_eq_signExtend (by decide), getLsbD_signExtend,
    Int.toNat_natCast, decide_eq_true hi, Bool.true_and]
  by_cases h : n + i < 32
  · simp [h, show n + i < 64 by omega]
  · simp [h]

theorem low_shiftRightZero_eq_iff (hw : w ≤ 16 ∨ w = 32 ∨ w = 64) (b : BitVec w) (hn : n < w) :
    (low w (shiftRightZero (unsigned32 (ofBits b)) n)).toNat = b.toNat / 2 ^ n ↔
      (w < 32 → n = 0 ∨ b.msb = false) ∧ (w = 64 → b.toNat < 2 ^ max 32 n) := by
  have hbit {i : Nat} (hi : i < w) := getLsbD_low_shiftRightZero b (show n < 64 by omega) hi
  rw [← Nat.shiftRight_eq_div_pow, ← toNat_ushiftRight, toNat_inj]
  constructor
  · intro h
    have hsame {i : Nat} (hi : i < w) := (hbit hi).symm.trans (congrArg (·.getLsbD i) h)
    simp only [getLsbD_ushiftRight] at hsame
    refine ⟨fun hsmall => or_iff_not_imp_left.mpr fun hpos => ?_,
      fun hwide => Nat.lt_pow_two_of_testBit _ fun j hj => ?_⟩
    · -- the highest bit moves down, and a copy of it comes in
      have := hsame (i := w - 1) (by omega)
      rwa [decide_eq_true (by omega), Bool.true_and, if_neg (by omega), getLsbD_of_ge _ _ (by omega)] at this
    · by_cases hin : j < w
      · have := hsame (i := j - n) (by omega)
        rwa [decide_eq_false (by omega), Bool.false_and, Nat.add_sub_cancel' (by omega), eq_comm] at this
      · exact getLsbD_of_ge _ _ (by omega)
  · rintro ⟨hsmall, hwide⟩
    apply eq_of_getLsbD_eq
    intro i hi
    rw [hbit hi, getLsbD_ushiftRight]
    by_cases hin : n + i < w
    · rw [if_pos hin]
      by_cases hlow : n + i < 32
      · rw [decide_eq_true hlow, Bool.true_and]
      · rw [decide_eq_false hlow, Bool.false_and]
        exact (Nat.testBit_lt_two_pow (Nat.lt_of_lt_of_le (hwide (by omega))
          (Nat.pow_le_pow_right (by decide) (by omega)))).symm
    · rw [if_neg hin, getLsbD_of_ge _ _ (by omega)]
      by_cases hlow : n + i < 32
      · rw [(hsmall (by omega)).resolve_left (by omega), Bool.and_false]
      · rw [decide_eq_false hlow, Bool.false_and]

end Word

namespace Expr

open Word

variable {c : Context} {n : Nat} {a b : Expr} {o : Operator} {u v t : Int64} {k w' : Int}

/-! ### Operations on numbers -/

theorem Becomes.shift {w : Int} (ho : o = .shl ∨ o = .shr) (ha : Becomes c n a (.num u w))
    (hb : Becomes c n b (.num v k)) (hold : a.width = .ok w') (hpos : w ≠ 0) (h : computeMany o u v [u, v] = some t) :
    Becomes c (n + 1) (.op o [a, b]) (number t w) := by
  have hwidth (x y : Expr) : operationWidth o [x, y] (widths [x, y]) = x.width := by rcases ho with rfl | rfl <;> rfl
  refine .done (by simp) (.cons ha (.cons hb .nil)) (hwidth _ _) hpos ((hwidth a b).trans hold) ?_
  refine reduce_of_fold ?_ (mergeComparisons_of_isNumber (by simp [isNumber, value?]))
    (foldConstants_of_isNumber (by simp [isNumber, value?]) h)
  rcases ho with rfl | rfl <;> rfl

/-- **Logical shifts to the right.** The shift by `n` bits is the quotient by `2 ^ n`, unless copies
of the highest bit come in, of which there are up to 32 bits, or bits above the lowest 32 would be
left. -/
theorem evaluate_shr_eq_div_iff (c : Context) {w n : Nat} (hw : w ∈ [8, 16, 32, 64]) (b : BitVec w) (hn : n < w)
    (k : Int) :
    ∃ r : BitVec w, (Expr.op .shr [.num (ofBits b) w, .num (.ofNat n) k]).evaluate c = .ok (.num (ofBits r) w) ∧
      (r.toNat = b.toNat / 2 ^ n ↔ (w < 32 → n = 0 ∨ b.msb = false) ∧ (w = 64 → b.toNat < 2 ^ max 32 n)) := by
  have hwidth : w ≤ 16 ∨ w = 32 ∨ w = 64 := by fin_cases hw <;> decide
  have hone : 1 < w := by fin_cases hw <;> decide
  refine ⟨_, ?_, low_shiftRightZero_eq_iff hwidth b hn⟩
  have hnumber : number (shiftRightZero (unsigned32 (ofBits b)) (Int64.ofNat n).toInt) w =
      .num (ofBits (low w (shiftRightZero (unsigned32 (ofBits b)) n))) w := by
    rw [Int64.toInt_ofNat_of_lt (by omega), number_eq, settle_eq_wrap (by omega)]
    rfl
  rw [← hnumber]
  exact (Becomes.shift (.inr rfl) (.num _ _) (.num _ _) rfl (by omega) rfl).evaluate (by decide)

/-- The highest bit is clear, so the shift divides. -/
theorem evaluate_shr_word : ∃ r : BitVec 16, (Expr.op .shr [.num (ofBits 0x7123#16) 16, .num 5 8]).evaluate .empty =
    .ok (.num (ofBits r) 16) ∧ r.toNat = 0x7123 / 2 ^ 5 := by
  obtain ⟨r, hr, hiff⟩ := evaluate_shr_eq_div_iff .empty (by decide) 0x7123#16 (n := 5) (by decide) 8
  exact ⟨r, hr, hiff.mpr (by decide)⟩

/-- Of the byte 128, half is 192, and of the highest number of 64 bits only the lower half is left
without any shift. -/
theorem evaluate_shr_extended :
    (Expr.op .shr [.num (ofBits 128#8) 8, .num 1 8]).evaluate .empty = .ok (.num (ofBits 192#8) 8) ∧
      (Expr.op .shr [.num (-1) 64, .num 0 8]).evaluate .empty = .ok (.num 0xFFFFFFFF 64) := by
  exact ⟨rfl, rfl⟩

section

variable {w : Int} (ho : o = .and ∨ o = .or) (hone : 1 < w) (hadm : Admissible w) (hu : Fits w u) (hv : Fits w v)

include ho hone hadm hu hv

/-- Where a rule applies to two numbers, it leads to the number of their bits. -/
theorem answers_numbers (old : List Expr) :
    Answers (fun red => red.result = .num (o.mix u v) w) (identityRule o w w old [.num u w, .num v w]) := by
  have habsorbing {x y : Int64} (h : x = ~~~o.unit) : o.mix x y = ~~~o.unit := by
    rw [← o.total_singleton y]
    exact total_of_absorbing ho (show ~~~o.unit ∈ [x, y] by simp [h])
  have hdecided (h : o.mix u v = ~~~o.unit) : number (~~~o.unit) w = .num (o.mix u v) w := by
    rw [h, number_of_fits hone (wrap_absorbing ho (by omega))]
  have hnot : not (.num u w) = .ok (.op .not [.num u w]) := by
    change (if w == 1 || w % 8 == 0 then _ else _) = _
    exact if_pos (by simpa [Admissible] using hadm)
  rw [identityRule_connective ho]
  refine scan_spec fun pre a later hsplit => ?_
  obtain ⟨rfl, rfl, rfl⟩ | ⟨rfl, rfl, rfl⟩ : pre = [] ∧ a = .num u w ∧ later = [.num v w] ∨
      pre = [.num u w] ∧ a = .num v w ∧ later = [] := by
    rcases pre with _ | ⟨x, _ | ⟨y, pre⟩⟩ <;> simp_all
  · refine connectiveRule_answers ho (fun h => hdecided (habsorbing (Option.some.inj h)))
      ⟨false, by rw [negationIn, hnot]; rfl, by simp⟩ fun h => ⟨.num v w, rfl, ?_⟩
    rcases h with h | h
    · have huv : v = u := by simpa [equals] using h
      have := mix_total_of_mem ho (List.mem_singleton_self u)
      rw [o.total_singleton] at this
      rw [huv, this]
      rfl
    · obtain rfl : u = o.unit := Option.some.inj h
      rw [o.unit_mix]
      rfl
  · refine connectiveRule_answers ho (fun h => hdecided (o.mix_comm u v ▸ habsorbing (Option.some.inj h)))
      ⟨false, rfl, by simp⟩ fun h => ⟨.num u w, rfl, ?_⟩
    obtain rfl : v = o.unit := Option.some.inj (h.resolve_left (by simp))
    rw [o.mix_comm, o.unit_mix]
    rfl

theorem Becomes.connective (ha : Becomes c n a (.num u w)) (hb : Becomes c n b (.num v w)) (hn : 0 < n)
    (hold : a.width = .ok w) (hold' : b.width = .ok w) : Becomes c (n + 1) (.op o [a, b]) (.num (o.mix u v) w) := by
  have hwidth {x y : Expr} := operationWidth_pair (o := o) (a := x) (b := y) (by rcases ho with rfl | rfl <;> rfl)
    (show 0 < w by omega)
  have hoperands : List.Forall₂ (Becomes c n) [a, b] [.num u w, .num v w] := .cons ha (.cons hb .nil)
  have hpos : w ≠ 0 := by omega
  obtain ⟨res, hres, hresult⟩ := answers_numbers ho hone hadm hu hv [a, b]
  cases res with
  | some red =>
    have hred := reduce_of_some hres
    have := hresult red rfl
    cases red with
    | done r =>
      obtain rfl : r = _ := this
      exact .done (by simp) hoperands (hwidth rfl rfl) hpos (hwidth hold hold') hred
    | again q =>
      obtain rfl : q = _ := this
      exact .again (by simp) hoperands (hwidth rfl rfl) hpos (hwidth hold hold') hred ((Becomes.num _ _).mono hn)
  | none =>
    have hfits : Fits w (o.mix u v) := by
      rcases ho with rfl | rfl
      · exact (wrap_and w u v).trans (congrArg₂ (· &&& ·) hu hv)
      · exact (wrap_or w u v).trans (congrArg₂ (· ||| ·) hu hv)
    rw [← number_of_fits hone hfits]
    refine .done (by simp) hoperands (hwidth rfl rfl) hpos (hwidth hold hold')
      (reduce_of_none (by simp [isNumber, value?]) hres ?_)
    rcases ho with rfl | rfl
    · exact congrArg some (congrArg (· &&& v) Int64.neg_one_and)
    · exact congrArg some (congrArg (· ||| v) Int64.zero_or)

end

/-! ### Fields of bits -/

theorem low32_ofNat (hn : n < 2147483648) : low32 (.ofNat n) = n := by
  have h := Int64.toInt_ofNat_of_lt (n := n) (by omega)
  rw [low32_of_lt (by omega) (by omega), h]

theorem number_ofNat (hn : n < 128) : number (.ofNat n) 8 = .num (.ofNat n) 8 :=
  number_of_fits (by decide) ((by decide : ∀ n < 128, Fits 8 (.ofNat n)) n hn)

variable {w m f l : Nat} {kf kl : Int} {x r : BitVec w} {y : BitVec m}

/-- The number that is assigned to a field, extended to the width of the word. -/
def filled (w : Nat) (y : BitVec m) : Expr :=
  .op .zeroFill [.num (.ofNat m) 8, .num (.ofNat (w - 1)) 8, .num (ofBits y) m]

/-- The number that is assigned to a field, moved to the bits of the field. -/
def placed (w f : Nat) (kf : Int) (y : BitVec m) : Expr :=
  if f = 0 then filled w y else .op .shl [filled w y, .num (.ofNat f) kf]

/-- The mask for the bits outside of a field. -/
def outside (w f m : Nat) : Int64 := bitMask 0 (f - 1) ||| bitMask (f + m) w

def kept (w f m : Nat) (a : Expr) : Expr := .op .and [a, .num (ofBits (low w (outside w f m))) w]

/-- What is computed for `x` with the bits from `f` on replaced by `y`. -/
def inserted (f : Nat) (x : BitVec w) (y : BitVec m) : BitVec w :=
  x &&& low w (outside w f m) ||| (if m = 64 then 0 else y.setWidth w) <<< f

theorem width_pair (ho : o = .and ∨ o = .or) (hpos : 0 < w) (ha : a.width = .ok w) (hb : b.width = .ok w) :
    (Expr.op o [a, b]).width = .ok w := by
  rw [width]
  exact operationWidth_pair (by rcases ho with rfl | rfl <;> rfl) (by omega) ha hb

section

variable (hw : w ≤ 64) (hbytes : w % 8 = 0) (hm : 0 < m) (hle : f + m ≤ w)

include hw hm hle

theorem width_filled (y : BitVec m) : (filled w y).width = .ok w := by
  have hlast : max (wrap32 (low32 (.ofNat (w - 1)) + 1)) (m : Int) = w := by
    rw [low32_ofNat (by omega), wrap32_of_lt (by omega) (by omega)]
    omega
  exact congrArg Except.ok hlast

theorem width_placed : (placed w f kf y).width = .ok w := by
  unfold placed
  split <;> exact width_filled hw hm hle y

include hbytes

theorem insertBits_eq (hlast : l + 1 = f + m) (ha : a.width = .ok w) (hflat : operandsOf .and a = none) :
    insertBits a (.num (.ofNat f) kf) (.num (.ofNat l) kl) (.num (ofBits y) m) =
      .ok (.op .or [kept w f m a, placed w f kf y]) := by
  have happly {o : Operator} {as : List Expr} (h : (op o as).width = .ok w) : apply o as = .ok (.op o as) := by
    rw [width] at h
    rw [apply, h]
    exact if_pos (by simp [show (w : Int) % 8 = 0 by omega])
  have hkept : (kept w f m a).width = .ok w := width_pair (.inl rfl) (by omega) ha rfl
  have hfill : zeroFill (number (.ofInt m) 8) (number (.ofInt (wrap32 (w - 1))) 8) (.num (ofBits y) m) =
      .ok (filled w y) := by
    rw [wrap32_of_lt (by omega) (by omega), show (w : Int) - 1 = (w - 1 : Nat) by omega]
    change zeroFill (number (.ofNat m) 8) (number (.ofNat (w - 1)) 8) _ = _
    rw [number_ofNat (by omega), number_ofNat (by omega)]
    exact happly (width_filled hw hm hle y)
  have hmask : number (bitMask 0 (f - 1) ||| bitMask (l + 1) w) w =
      .num (ofBits (low w (outside w f m))) w := by
    rw [show (l : Int) + 1 = f + m by omega, number_eq, settle_eq_wrap (by omega)]
    rfl
  -- none of the operands is an operation of the kind that is built, so they stay as they are
  have hand : and a (.num (ofBits (low w (outside w f m))) w) = .ok (kept w f m a) := by
    refine Eq.trans (congrArg (apply .and) ?_) (happly hkept)
    rw [flatten_cons_of_none hflat, flatten_cons_of_none rfl]
    rfl
  have hor : or (kept w f m a) (placed w f kf y) = .ok (.op .or [kept w f m a, placed w f kf y]) := by
    refine Eq.trans (congrArg (apply .or) ?_) (happly (width_pair (.inr rfl) (by omega) hkept (width_placed hw hm hle)))
    unfold placed
    split <;> rfl
  have hjoin : (and a (number (bitMask 0 (f - 1) ||| bitMask (l + 1) w) w) >>= fun e => or e (placed w f kf y)) =
      .ok (.op .or [kept w f m a, placed w f kf y]) := by
    rw [hmask, hand]
    exact hor
  have hliteral {n : Nat} (k : Int) (hn : n < 64) : literal (.num (.ofNat n) k) = .ok (n : Int) :=
    congrArg Except.ok (low32_ofNat (by omega))
  unfold insertBits
  rw [hliteral kf (by omega), hliteral kl (by omega), ha]
  change (zeroFill (number (.ofInt m) 8) _ _ >>= _) = _
  rw [hfill]
  change (if ((f : Int) == 0) then _ else apply .shl [filled w y, .num (.ofNat f) kf] >>= _) = _
  by_cases hf : f = 0
  · have hplaced : placed w f kf y = filled w y := if_pos hf
    rw [if_pos (by simpa using hf)]
    rw [hplaced] at hjoin ⊢
    exact hjoin
  · have hplaced : placed w f kf y = .op .shl [filled w y, .num (.ofNat f) kf] := if_neg hf
    have hshl : apply .shl [filled w y, .num (.ofNat f) kf] = .ok _ := happly (width_filled hw hm hle y)
    rw [if_neg (by simpa using hf), hshl]
    rw [hplaced] at hjoin ⊢
    exact hjoin

theorem becomes_filled : Becomes c 2 (filled w y) (.num (ofBits (if m = 64 then 0 else y.setWidth w)) w) := by
  have hwidth : operationWidth .zeroFill _ _ = _ := width_filled hw hm hle y
  have hextend : extend false (low32 (.ofNat m)) (low32 (.ofNat (w - 1))) (ofBits y) m =
      .num (ofBits (if m = 64 then 0 else y.setWidth w)) w := by
    have htarget : max (m : Int) (wrap32 ((w : Int) - 1 + 1)) = w := by
      rw [wrap32_of_lt (by omega) (by omega)]
      omega
    rw [low32_ofNat (by omega), low32_ofNat (by omega), show ((w - 1 : Nat) : Int) = w - 1 by omega, extend, htarget]
    change number (ofBits y &&& (bitMask 0 (m - 1) ||| bitMask ((w : Int) - 1 + 1) (w - 1))) w = _
    split
    · next hwhole =>
      -- both masks are empty
      obtain rfl : w = 64 := by omega
      subst hwhole
      rw [show bitMask 0 ((64 : Nat) - 1) ||| bitMask ((64 : Nat) - 1 + 1) ((64 : Nat) - 1) = 0 by decide, Int64.and_zero]
      rfl
    · rw [number_eq, settle_eq_wrap (by omega), wrap_and_bitMask (by omega) (by omega)]
      change num (ofBits ((low m (ofBits y)).setWidth w)) w = _
      rw [low_ofBits (by omega)]
  rw [← hextend]
  exact .done (by simp) (.cons (.num _ _) (.cons (.num _ _) (.cons (.num _ _) .nil))) hwidth (by omega) hwidth rfl

theorem becomes_placed :
    Becomes c 3 (placed w f kf y) (.num (ofBits ((if m = 64 then 0 else y.setWidth w) <<< f)) w) := by
  have hfilled : Becomes c 2 (filled w y) _ := becomes_filled hw hbytes hm hle
  unfold placed
  split
  · next hf =>
    subst hf
    rw [shiftLeft_zero]
    exact hfilled.mono (by decide)
  · have hnumber (z : BitVec w) : number (shiftLeft (ofBits z) (Int64.ofNat f).toInt) w = .num (ofBits (z <<< f)) w := by
      rw [Int64.toInt_ofNat_of_lt (by omega), number_eq, settle_eq_wrap (by omega)]
      change num (ofBits (low w _)) w = _
      rw [low_shiftLeft (by omega) (by omega) hw, low_ofBits hw, Int.toNat_natCast]
    rw [← hnumber]
    exact .shift (.inl rfl) hfilled ((Becomes.num _ _).mono (by decide)) (width_filled hw hm hle y) (by omega) rfl

/-- An assignment to a field, as it is written out for a word that is known. -/
theorem exists_insertBits (hlast : l + 1 = f + m) (ha : Becomes c 1 a (.num (ofBits x) w)) (hwa : a.width = .ok w)
    (hflat : operandsOf .and a = none) :
    ∃ e, insertBits a (.num (.ofNat f) kf) (.num (.ofNat l) kl) (.num (ofBits y) m) = .ok e ∧
      e.evaluate c = .ok (.num (ofBits (inserted f x y)) w) := by
  have hpair {o : Operator} {n : Nat} {a b : Expr} {p q : BitVec w} (ho : o = .and ∨ o = .or) (hn : 0 < n)
      (ha : Becomes c n a (.num (ofBits p) w)) (hb : Becomes c n b (.num (ofBits q) w)) (hwa : a.width = .ok w)
      (hwb : b.width = .ok w) : Becomes c (n + 1) (.op o [a, b]) (.num (ofBits (o.mixBits p q)) w) := by
    have hmix : o.mix (ofBits p) (ofBits q) = ofBits (o.mixBits p q) := by
      apply Int64.toBitVec.inj
      rcases ho with rfl | rfl
      · exact signExtend_and.symm
      · exact signExtend_or.symm
    rw [← hmix]
    exact .connective ho (by omega) (.inr (by omega)) (fits_ofBits hw p) (fits_ofBits hw q) ha hb hn hwa hwb
  have hkept : Becomes c 3 (kept w f m a) _ :=
    (hpair (.inl rfl) (by decide) ha (.num (ofBits (low w (outside w f m))) w) hwa rfl).mono (by decide)
  refine ⟨_, insertBits_eq hw hbytes hm hle hlast hwa hflat, ?_⟩
  exact (hpair (.inr rfl) (by decide) hkept (becomes_placed hw hbytes hm hle) (width_pair (.inl rfl) (by omega) hwa rfl)
    (width_placed hw hm hle)).evaluate (by decide)

omit hbytes

theorem evaluate_bits (hlast : l + 1 = f + m) (ha : Becomes c 1 a (.num (ofBits r) w)) :
    (Expr.bits a (.num (.ofNat f) kf) (.num (.ofNat l) kl)).evaluate c =
      .ok (.num (ofBits (if m = 64 then 0 else r.extractLsb' f m)) m) := by
  have hbits : Becomes c 2 (.bits a (.num (.ofNat f) kf) (.num (.ofNat l) kl))
      (extract (low32 (.ofNat f)) (low32 (.ofNat l)) (ofBits r)) := fun d => by
    change (evaluateTo c (d + 1) a >>= _) = _
    rw [ha d]
    rfl
  have hlen : (l : Int) - f + 1 = m := by omega
  rw [hbits.evaluate (by decide), low32_ofNat (by omega), low32_ofNat (by omega), extract, hlen,
    wrap32_of_lt (by omega) (by omega), number_eq]
  split
  · next hwhole =>
    -- no bit is left under a mask of all 64 bits
    obtain rfl : f = 0 := by omega
    obtain rfl : l = 63 := by omega
    subst hwhole
    rw [show bitMask (0 : Nat) (63 : Nat) = 0 by decide, Int64.zero_and]
    rfl
  · have hextract :=
      settle_extract (show (0 : Int) ≤ f by omega) (show (f : Int) ≤ l by omega) (by omega) (by omega) (ofBits r)
    rw [hlen] at hextract
    rw [hextract, toBitVec_ofBits, Int.toNat_natCast, Int.toNat_natCast, extractLsb'_signExtend hw hle]

theorem getLsbD_outside (hne : ¬(w = 64 ∧ f = 0 ∧ (m = 1 ∨ m = 64))) {i : Nat} (hi : i < w) :
    (low w (outside w f m)).getLsbD i = decide (i < f ∨ f + m ≤ i) := by
  rw [low, getLsbD_setWidth, outside, Int64.toBitVec_or, getLsbD_or, decide_eq_true hi, Bool.true_and,
    getLsbD_bitMask_of_lt (by omega) (by omega) (by omega) (by omega) (by omega)]
  by_cases hlast : f + m = 64
  · -- the mask above the highest bit has the lowest bit instead, which is kept anyway
    obtain rfl : w = 64 := by omega
    have hone : ∀ i < 64, (bitMask 64 (64 : Nat)).toBitVec.getLsbD i = decide (i = 0) := by decide
    rw [show (f : Int) + m = 64 by omega, hone i hi, ← Bool.decide_or]
    exact decide_eq_decide.mpr (by omega)
  · rw [getLsbD_bitMask_of_lt (by omega) (by omega) (by omega) (by omega) (by omega), ← Bool.decide_or]
    exact decide_eq_decide.mpr (by omega)

theorem inserted_eq_replaceAt (hne : ¬(w = 64 ∧ f = 0 ∧ (m = 1 ∨ m = 64))) : inserted f x y = replaceAt x f y := by
  apply eq_of_getLsbD_eq
  intro i hi
  rw [getLsbD_replaceAt _ _ _ hi, inserted, if_neg (by omega), getLsbD_or, getLsbD_and,
    getLsbD_outside hw hm hle hne hi, getLsbD_shiftLeft, getLsbD_setWidth, decide_eq_true hi,
    decide_eq_true (show i - f < w by omega), Bool.true_and, Bool.true_and]
  by_cases hlow : i < f
  · simp [hlow, show ¬f ≤ i by omega]
  · by_cases hin : i < f + m
    · simp [hlow, hin, show f ≤ i by omega]
    · rw [getLsbD_of_ge y _ (by omega)]
      simp [hlow, hin, show f + m ≤ i by omega]

end

theorem extract_replaceAt (hle : f + m ≤ w) : (replaceAt x f y).extractLsb' f m = y := by
  apply eq_of_getLsbD_eq
  intro i hi
  rw [getLsbD_extractLsb', decide_eq_true hi, Bool.true_and, getLsbD_replaceAt _ _ _ (by omega), if_pos (by omega),
    Nat.add_sub_cancel_left]

/-- **Assignments to fields of bits.** The bits from `f` to `l` of the word `x` are replaced by `y`,
and reading the field gives `y` back. Words of 64 bits are different in two places. At the lowest
bit the mask is empty, so all other bits are cleared, and of the whole word the lowest bit is kept,
as nothing is assigned. -/
theorem evaluate_insertBits (c : Context) (hw : w ∈ [8, 16, 32, 64]) (hfl : f ≤ l) (hl : l < w) (kf kl : Int)
    (x : BitVec w) (y : BitVec (l - f + 1)) :
    ∃ (e : Expr) (r : BitVec w) (z : BitVec (l - f + 1)),
      insertBits (.num (ofBits x) w) (.num (.ofNat f) kf) (.num (.ofNat l) kl) (.num (ofBits y) (l - f + 1 : Nat)) =
        .ok e ∧
      e.evaluate c = .ok (.num (ofBits r) w) ∧
      (Expr.bits (.num (ofBits r) w) (.num (.ofNat f) kf) (.num (.ofNat l) kl)).evaluate c =
        .ok (.num (ofBits z) (l - f + 1 : Nat)) ∧
      if w = 64 ∧ f = 0 ∧ l = 0 then r = y.setWidth w ∧ z = y
      else if w = 64 ∧ f = 0 ∧ l = 63 then r = x &&& 1 ∧ z = 0
      else r = replaceAt x f y ∧ z = y := by
  obtain ⟨hwidth, hbytes⟩ : w ≤ 64 ∧ w % 8 = 0 := by fin_cases hw <;> decide
  have hle : f + (l - f + 1) ≤ w := by omega
  obtain ⟨e, he, hr⟩ := exists_insertBits (c := c) (x := x) (y := y) hwidth hbytes (by omega) hle
    (show l + 1 = f + (l - f + 1) by omega) (.num _ _) rfl rfl
  refine ⟨e, inserted f x y, _, he, hr, evaluate_bits hwidth (by omega) hle (by omega) (.num _ _), ?_⟩
  split
  · next h =>
    obtain ⟨rfl, rfl, rfl⟩ := h
    have hr : inserted 0 x y = y.setWidth 64 := by
      rw [inserted, show low 64 (outside 64 0 (0 - 0 + 1)) = 0 by decide]
      simp
    refine ⟨hr, ?_⟩
    rw [hr, if_neg (by decide)]
    apply eq_of_getLsbD_eq
    intro i hi
    rw [getLsbD_extractLsb', getLsbD_setWidth, Nat.zero_add i, decide_eq_true hi,
      decide_eq_true (by omega : i < 64), Bool.true_and, Bool.true_and]
  split
  · next h =>
    obtain ⟨rfl, rfl, rfl⟩ := h
    rw [inserted, show low 64 (outside 64 0 (63 - 0 + 1)) = 1 by decide]
    simp
  · rw [inserted_eq_replaceAt hwidth (by omega) hle (by omega), if_neg (by omega), extract_replaceAt hle]
    exact ⟨rfl, rfl⟩

/-- The two middle digits of four are replaced. -/
theorem evaluate_insertBits_middle : ∃ e, insertBits (.num (ofBits 0xABCD#16) 16) (.num 4 8) (.num 11 8)
    (.num (ofBits 0x5E#8) 8) = .ok e ∧ e.evaluate .empty = .ok (.num (ofBits 0xA5ED#16) 16) := by
  obtain ⟨e, r, z, he, hr, -, hfield⟩ :=
    evaluate_insertBits .empty (w := 16) (f := 4) (l := 11) (by decide) (by decide) (by decide) 8 8 0xABCD#16 0x5E#8
  rw [if_neg (by decide), if_neg (by decide)] at hfield
  rw [hfield.1, show replaceAt 0xABCD#16 4 0x5E#8 = 0xA5ED#16 by decide] at hr
  exact ⟨e, he, hr⟩

/-- The lowest of 64 bits is cleared, and all others with it. The whole word is assigned, and what
is left is the lowest bit of the old one. -/
theorem evaluate_insertBits_long :
    (insertBits (.num (-1) 64) (.num 0 8) (.num 0 8) (.num 0 1) >>= fun e => e.evaluate .empty) = .ok (.num 0 64) ∧
      (insertBits (.num 5 64) (.num 0 8) (.num 63 8) (.num 2 64) >>= fun e => e.evaluate .empty) = .ok (.num 1 64) := by
  exact ⟨rfl, rfl⟩

end Expr

end FlowRecovery
