import Mathlib
import FlowRecovery.Word

/-!
# Words of a width

A number of `w` bits is kept as a word that repeats its highest bit: it *fits* into `w` bits
(`Word.Fits`). `Word.wrap w` brings any word into this form, and it is what sums and bitwise
operations commute with, so that it does not matter when an intermediate result is cut to its width:

* `wrap_add`, `wrap_neg`: sums and negatives modulo a power of two;
* `wrap_and`, `wrap_or`, `wrap_xor`, `wrap_not`: bit by bit.

`Word.settle` is how the numbers of the library are made: as `wrap` does, except that every word but
zero becomes the truth value *true* where there is one bit (`settle_eq_wrap`).
-/

namespace FlowRecovery

open BitVec

theorem wrap32_of_lt {n : Int} (hpos : 0 ≤ n) (hlt : n < 2147483648) : wrap32 n = n :=
  Int.bmod_eq_of_le (by omega) (by omega)

namespace Word

/-! ### Words and bit vectors -/

def low (n : Nat) (v : Int64) : BitVec n := v.toBitVec.setWidth n

def ofBits {n : Nat} (b : BitVec n) : Int64 := .ofBitVec (b.signExtend 64)

/-- The word with the same low `w` bits that repeats the highest of them. -/
def wrap (w : Int) (v : Int64) : Int64 := ofBits (low w.toNat v)

def Fits (w : Int) (v : Int64) : Prop := wrap w v = v

instance (w : Int) (v : Int64) : Decidable (Fits w v) := inferInstanceAs (Decidable (wrap w v = v))

variable {n : Nat}

@[simp] theorem toBitVec_ofBits (b : BitVec n) : (ofBits b).toBitVec = b.signExtend 64 := rfl

theorem low_ofBits_eq_signExtend {m : Nat} (hm : m ≤ 64) (b : BitVec n) : low m (ofBits b) = b.signExtend m := by
  unfold low
  rw [toBitVec_ofBits]
  apply eq_of_getLsbD_eq
  intro i hi
  -- both sides have bit `i` of `b`, or its highest bit above the width; the word itself stops at 64
  simp only [getLsbD_setWidth, getLsbD_signExtend, hi, decide_true, Bool.true_and]
  simp [Nat.lt_of_lt_of_le hi hm]

theorem low_ofBits (hn : n ≤ 64) (b : BitVec n) : low n (ofBits b) = b := by
  rw [low_ofBits_eq_signExtend hn, signExtend_eq]

theorem toInt_ofBits (hn : n ≤ 64) (b : BitVec n) : (ofBits b).toInt = b.toInt := by
  rw [← Int64.toInt_toBitVec, toBitVec_ofBits, toInt_signExtend_of_le hn]

theorem ofInt_toInt (hn : n ≤ 64) (v : Int64) : .ofInt n v.toInt = low n v :=
  signExtend_eq_setWidth_of_le v.toBitVec hn

theorem low_ofInt (hn : n ≤ 64) (v : Int) : low n (.ofInt v) = .ofInt n v := by
  rw [← ofInt_toInt hn]
  apply eq_of_toInt_eq
  rw [toInt_ofInt, toInt_ofInt, Int64.toInt_ofInt]
  exact Int.bmod_bmod_of_dvd (Nat.pow_dvd_pow 2 hn)

variable {w : Int} {v : Int64}

theorem wrap_of_le (hw : 64 ≤ w) (v : Int64) : wrap w v = v := by
  have hn : 64 ≤ w.toNat := by omega
  apply Int64.toBitVec.inj
  rw [wrap, toBitVec_ofBits, low, signExtend_eq_setWidth_of_le _ hn, setWidth_setWidth_of_le _ hn]
  exact setWidth_eq _

theorem low_wrap (hw : w ≤ 64) (v : Int64) : low w.toNat (wrap w v) = low w.toNat v :=
  low_ofBits (by omega) _

theorem wrap_congr {a b : Int64} (h : w ≤ 64 → low w.toNat a = low w.toNat b)
    (h' : 64 < w → a = b) : wrap w a = wrap w b := by
  by_cases hw : w ≤ 64
  · rw [wrap, wrap, h hw]
  · rw [h' (by omega)]

@[simp] theorem wrap_wrap (w : Int) (v : Int64) : wrap w (wrap w v) = wrap w v :=
  wrap_congr (fun hw => low_wrap hw v) (fun hw => wrap_of_le (by omega) v)

theorem fits_wrap (w : Int) (v : Int64) : Fits w (wrap w v) := wrap_wrap w v

theorem fits_ofBits (hn : n ≤ 64) (b : BitVec n) : Fits n (ofBits b) := by
  change ofBits (low n (ofBits b)) = ofBits b
  rw [low_ofBits hn]

/-! ### Sums and products -/

theorem low_add (hn : n ≤ 64) (a b : Int64) : low n (a + b) = low n a + low n b := by
  rw [low, Int64.toBitVec_add]
  exact setWidth_add _ _ hn

theorem low_neg (hn : n ≤ 64) (a : Int64) : low n (-a) = -low n a := by
  rw [low, Int64.toBitVec_neg]
  exact setWidth_neg_of_le hn

theorem low_mul (hn : n ≤ 64) (a b : Int64) : low n (a * b) = low n a * low n b := by
  rw [low, Int64.toBitVec_mul]
  exact setWidth_mul _ _ hn

theorem wrap_add (w : Int) (a b : Int64) : wrap w (wrap w a + wrap w b) = wrap w (a + b) := by
  refine wrap_congr (fun hw => ?_) (fun hw => by rw [wrap_of_le (by omega), wrap_of_le (by omega)])
  have hn : w.toNat ≤ 64 := by omega
  rw [low_add hn, low_add hn, low_wrap hw, low_wrap hw]

theorem wrap_neg (w : Int) (a : Int64) : wrap w (-wrap w a) = wrap w (-a) := by
  refine wrap_congr (fun hw => ?_) (fun hw => by rw [wrap_of_le (by omega)])
  have hn : w.toNat ≤ 64 := by omega
  rw [low_neg hn, low_neg hn, low_wrap hw]

/-! ### Bit by bit -/

theorem low_and (n : Nat) (a b : Int64) : low n (a &&& b) = low n a &&& low n b := by
  rw [low, Int64.toBitVec_and, setWidth_and, low, low]

theorem low_or (n : Nat) (a b : Int64) : low n (a ||| b) = low n a ||| low n b := by
  rw [low, Int64.toBitVec_or, setWidth_or, low, low]

theorem low_xor (n : Nat) (a b : Int64) : low n (a ^^^ b) = low n a ^^^ low n b := by
  rw [low, Int64.toBitVec_xor, setWidth_xor, low, low]

theorem low_not (hn : n ≤ 64) (a : Int64) : low n (~~~a) = ~~~low n a := by
  rw [low, Int64.toBitVec_not, setWidth_not hn, low]

theorem wrap_and (w : Int) (a b : Int64) : wrap w (a &&& b) = wrap w a &&& wrap w b := by
  apply Int64.toBitVec.inj
  simp only [wrap, low_and, toBitVec_ofBits, Int64.toBitVec_and, signExtend_and]

theorem wrap_or (w : Int) (a b : Int64) : wrap w (a ||| b) = wrap w a ||| wrap w b := by
  apply Int64.toBitVec.inj
  simp only [wrap, low_or, toBitVec_ofBits, Int64.toBitVec_or, signExtend_or]

theorem wrap_xor (w : Int) (a b : Int64) : wrap w (a ^^^ b) = wrap w a ^^^ wrap w b := by
  apply Int64.toBitVec.inj
  simp only [wrap, low_xor, toBitVec_ofBits, Int64.toBitVec_xor, signExtend_xor]

theorem wrap_not (hw : 0 < w) (a : Int64) : wrap w (~~~a) = ~~~wrap w a := by
  by_cases h : w ≤ 64
  · apply Int64.toBitVec.inj
    rw [wrap, low_not (by omega), toBitVec_ofBits, signExtend_not (by omega), wrap, Int64.toBitVec_not,
      toBitVec_ofBits]
  · rw [wrap_of_le (by omega), wrap_of_le (by omega)]

theorem not_and (a b : Int64) : ~~~(a &&& b) = ~~~a ||| ~~~b := by
  apply Int64.toBitVec.inj
  rw [Int64.toBitVec_not, Int64.toBitVec_and, Int64.toBitVec_or, Int64.toBitVec_not, Int64.toBitVec_not]
  ext i hi
  simp

theorem not_or (a b : Int64) : ~~~(a ||| b) = ~~~a &&& ~~~b := by
  rw [← Int64.not_inj, not_and, Int64.not_not, Int64.not_not, Int64.not_not]

@[simp] theorem wrap_zero (w : Int) : wrap w 0 = 0 := by
  apply Int64.toBitVec.inj
  apply eq_of_getLsbD_eq
  simp [wrap, low, getLsbD_signExtend]

@[simp] theorem wrap_neg_one (hw : 0 < w) : wrap w (-1) = -1 := by
  have h := wrap_not hw 0
  rwa [wrap_zero] at h

/-! ### How numbers are made -/

theorem truncate_eq_wrap (hw : 1 < w) (v : Int64) : truncate v w = wrap w v := by
  unfold truncate
  split
  · next h =>
    -- `wrap` is the balanced remainder of the word modulo a power of two, which is how `truncate` computes it
    have hdvd : 2 ^ w.toNat ∣ 2 ^ 64 := Nat.pow_dvd_pow 2 (by omega)
    have hle : 2 ^ w.toNat ≤ 2 ^ 63 := Nat.pow_le_pow_right (by decide) (by omega)
    have hpos : 0 < 2 ^ w.toNat := Nat.two_pow_pos _
    have hlow := Int.le_bmod (x := v.toInt) hpos
    have hhigh := Int.bmod_lt (x := v.toInt) hpos
    apply Int64.toInt_inj.mp
    rw [wrap, ← Int64.toInt_toBitVec (ofBits _), toBitVec_ofBits, toInt_signExtend_of_le (by omega), low,
      toInt_setWidth, ← Int.bmod_bmod_of_dvd hdvd, ← toInt_eq_toNat_bmod, Int64.toInt_toBitVec]
    exact Int64.toInt_ofInt_of_le (by change _ ≤ v.toInt.bmod (2 ^ w.toNat); omega)
      (by change v.toInt.bmod (2 ^ w.toNat) < _; omega)
  · rw [wrap_of_le (by omega)]

/-- The word of the number that is made from a word: with one bit, every word but zero is *true*. -/
def settle (w : Int) (v : Int64) : Int64 := if w = 1 then (if v = 0 then 0 else -1) else truncate v w

theorem settle_eq_wrap (hw : 1 < w) (v : Int64) : settle w v = wrap w v := by
  rw [settle, if_neg (by omega), truncate_eq_wrap hw]

theorem fits_one_iff : Fits 1 v ↔ v = 0 ∨ v = -1 := by
  constructor
  · intro h
    -- the low bit decides, and both of its values can be computed with
    have hbit : low 1 v = 0 ∨ low 1 v = 1 := by
      have := (low 1 v).isLt
      rcases Nat.lt_or_ge (low 1 v).toNat 1 with h0 | h1
      · exact .inl (eq_of_toNat_eq (by simpa using h0))
      · exact .inr (eq_of_toNat_eq (by simp; omega))
    rw [← h]
    rcases hbit with h | h
    · exact .inl (by rw [wrap]; change ofBits (low 1 v) = 0; rw [h]; rfl)
    · exact .inr (by rw [wrap]; change ofBits (low 1 v) = -1; rw [h]; rfl)
  · rintro (rfl | rfl)
    · exact wrap_zero 1
    · exact wrap_neg_one (by decide)

theorem fits_settle (hw : 0 < w) (v : Int64) : Fits w (settle w v) := by
  by_cases h : w = 1
  · subst h
    rw [fits_one_iff, settle, if_pos rfl]
    split
    · exact .inl rfl
    · exact .inr rfl
  · rw [settle_eq_wrap (by omega)]
    exact fits_wrap w v

theorem settle_of_fits (hw : 0 < w) (h : Fits w v) : settle w v = v := by
  by_cases hone : w = 1
  · subst hone
    rcases fits_one_iff.mp h with rfl | rfl <;> decide
  · rw [settle_eq_wrap (by omega)]
    exact h

/-- With one bit, only the even words other than zero are told apart. -/
theorem settle_one_eq_wrap (h : v = 0 ∨ wrap 1 v ≠ 0) : settle 1 v = wrap 1 v := by
  rcases h with rfl | h
  · rw [wrap_zero]
    rfl
  · -- an odd word: both sides are *true*
    rw [(fits_one_iff.mp (fits_wrap 1 v)).resolve_left h, settle, if_pos rfl, if_neg]
    rintro rfl
    exact h (wrap_zero 1)

end Word

end FlowRecovery
