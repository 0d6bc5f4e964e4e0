import FlowRecovery.Proofs.Word

/-!
# Shifts and masks

What shifts and masks do to the bits of a word, and what the library builds from them:

* `settle_extract`: the number of a bit range is the range of bits;
* `or_bitMask_of_fits`, `wrap_and_bitMask`: a number that is extended with copies of its highest
  bit, and one that is extended with zeros.
-/

namespace FlowRecovery.Word

open BitVec

/-! ### Shifts -/

variable {n k : Int}

theorem toNat_distance (hpos : 0 ≤ n) (hlt : n < 64) : ((Int64.ofInt (n % 64)).toBitVec.smod 64).toNat = n.toNat := by
  obtain ⟨k, rfl⟩ := Int.eq_ofNat_of_zero_le hpos
  have hk : k < 64 := by omega
  rw [Int.emod_eq_of_lt hpos hlt]
  -- of the 64 distances, each is checked
  exact (by decide : ∀ k < 64, ((Int64.ofInt (k : Nat)).toBitVec.smod 64).toNat = k) k hk

theorem toBitVec_shiftLeft (hpos : 0 ≤ n) (hlt : n < 64) (v : Int64) :
    (shiftLeft v n).toBitVec = v.toBitVec <<< n.toNat := by
  rw [shiftLeft, Int64.toBitVec_shiftLeft, shiftLeft_eq', toNat_distance hpos hlt]

theorem toBitVec_shiftRight (hpos : 0 ≤ n) (hlt : n < 64) (v : Int64) :
    (shiftRight v n).toBitVec = v.toBitVec.sshiftRight n.toNat := by
  rw [shiftRight, Int64.toBitVec_shiftRight, sshiftRight_eq', toNat_distance hpos hlt]

theorem low_shiftLeft (hpos : 0 ≤ k) (hlt : k < 64) {n : Nat} (hn : n ≤ 64) (v : Int64) :
    low n (shiftLeft v k) = low n v <<< k.toNat := by
  rw [low, toBitVec_shiftLeft hpos hlt, low]
  apply eq_of_getLsbD_eq
  intro i hi
  simp only [getLsbD_setWidth, getLsbD_shiftLeft, hi, decide_true, Bool.true_and,
    show i < 64 by omega, show i - k.toNat < n by omega]

theorem low_shiftRight_ofBits (hpos : 0 ≤ k) (hlt : k < 64) {n : Nat} (hn : n ≤ 64) (b : BitVec n) :
    low n (shiftRight (ofBits b) k) = b.sshiftRight k.toNat := by
  rw [low, toBitVec_shiftRight hpos hlt, toBitVec_ofBits]
  apply eq_of_getLsbD_eq
  intro i hi
  have hmsb : (b.signExtend 64).msb = b.msb := by
    rw [msb_eq_toInt, toInt_signExtend_of_le hn, msb_eq_toInt]
  simp only [getLsbD_setWidth, getLsbD_sshiftRight, getLsbD_signExtend, hi, hmsb, decide_true,
    Bool.true_and, show ¬64 ≤ i by omega, show ¬n ≤ i by omega, decide_false, Bool.not_false]
  -- the bits that come in from above are copies of the highest bit, in the word as in the bit vector
  by_cases hin : k.toNat + i < n
  · simp [hin, show k.toNat + i < 64 by omega]
  · by_cases hin' : k.toNat + i < 64 <;> simp [hin, hin']

/-! ### Masks -/

variable {first last w : Int} {v : Int64}

/-- The bits of a mask. It can be empty, and of one that reaches past the highest bit the rest is
lost. -/
theorem getLsbD_bitMask_of_lt (hfirst : 0 ≤ first) (hlt : first < 64) (hle : first ≤ last + 1)
    (hlen : last - first + 1 < 64) {i : Nat} (hi : i < 64) :
    (bitMask first last).toBitVec.getLsbD i = decide (first ≤ i ∧ i ≤ last) := by
  -- a mask is a run of ones, which is a power of two less one, moved to its place
  have hones (k : Nat) (hk : k < 64) (j : Nat) : ((1#64 <<< k) - 1#64).getLsbD j = decide (j < k) := by
    have hnat : ((1#64 <<< k) - 1#64).toNat = 2 ^ k - 1 := by
      have hpow : 2 ^ k < 2 ^ 64 := Nat.pow_lt_pow_right (by decide) hk
      have hpos : 0 < 2 ^ k := Nat.two_pow_pos k
      have hshift : (1#64 <<< k).toNat = 2 ^ k := by
        rw [toNat_shiftLeft, Nat.shiftLeft_eq, toNat_ofNat, Nat.one_mul, Nat.mod_eq_of_lt hpow]
      rw [toNat_sub_of_le (le_def.mpr (by rw [hshift]; exact hpos)), hshift]
      rfl
    rw [← testBit_toNat, hnat, Nat.testBit_two_pow_sub_one]
  have hmask : (bitMask first last).toBitVec = ((1#64 <<< (last - first + 1).toNat) - 1#64) <<< first.toNat := by
    rw [bitMask, toBitVec_shiftLeft hfirst hlt, Int64.toBitVec_sub, toBitVec_shiftLeft (by omega) hlen]
    rfl
  rw [hmask, getLsbD_shiftLeft, hones _ (by omega), Bool.eq_iff_iff]
  simp only [Bool.and_eq_true, Bool.not_eq_true', decide_eq_true_eq, decide_eq_false_iff_not]
  omega

theorem getLsbD_bitMask (hfirst : 0 ≤ first) (hle : first ≤ last) (hlast : last < 64)
    (hlen : last - first + 1 < 64) (i : Nat) :
    (bitMask first last).toBitVec.getLsbD i = decide (first ≤ i ∧ i ≤ last) := by
  by_cases hi : i < 64
  · exact getLsbD_bitMask_of_lt hfirst (by omega) (by omega) hlen hi
  · rw [getLsbD_of_ge _ _ (by omega), decide_eq_false (by omega)]

theorem bitMask_and_eq_zero (hpos : 0 ≤ k) (hlt : k < 64) (v : Int64) :
    bitMask k k &&& v = 0 ↔ v.toBitVec.getLsbD k.toNat = false := by
  have hbit (i : Nat) : (bitMask k k &&& v).toBitVec.getLsbD i = (decide (i = k.toNat) && v.toBitVec.getLsbD i) := by
    rw [Int64.toBitVec_and, getLsbD_and, getLsbD_bitMask hpos (Int.le_refl k) hlt (by omega),
      decide_eq_decide.mpr (show (k ≤ (i : Int) ∧ (i : Int) ≤ k) ↔ i = k.toNat by omega)]
  constructor
  · intro h
    have := hbit k.toNat
    rwa [h, decide_eq_true rfl, Bool.true_and, Int64.toBitVec_zero, getLsbD_zero, eq_comm] at this
  · intro h
    apply Int64.toBitVec.inj
    apply eq_of_getLsbD_eq
    intro i _
    rw [hbit, Int64.toBitVec_zero, getLsbD_zero]
    by_cases hi : i = k.toNat
    · rw [hi, h, Bool.and_false]
    · rw [decide_eq_false hi, Bool.false_and]

section

variable (hfirst : 0 ≤ first) (hle : first ≤ last) (hlast : last < 64) (hlen : last - first + 1 < 64)

include hfirst hle hlast hlen

theorem low_extract (v : Int64) : low (last - first + 1).toNat (shiftRight (bitMask first last &&& v) first) =
      v.toBitVec.extractLsb' first.toNat (last - first + 1).toNat := by
  apply eq_of_getLsbD_eq
  intro i hi
  have hinside : first.toNat + i < 64 := by omega
  -- the bits that are looked at lie under the mask
  have hmask : decide (first ≤ ((first.toNat + i : Nat) : Int) ∧ ((first.toNat + i : Nat) : Int) ≤ last) := by
    rw [decide_eq_true_iff]
    omega
  rw [low, getLsbD_setWidth, toBitVec_shiftRight hfirst (by omega), getLsbD_sshiftRight, if_pos hinside,
    Int64.toBitVec_and, getLsbD_and, getLsbD_bitMask hfirst hle hlast hlen, hmask, getLsbD_extractLsb']
  simp only [Bool.true_and, show ¬64 ≤ i by omega, decide_false, Bool.not_false]

theorem settle_extract (v : Int64) : settle (last - first + 1) (shiftRight (bitMask first last &&& v) first) =
      ofBits (v.toBitVec.extractLsb' first.toNat (last - first + 1).toNat) := by
  have hlow := low_extract hfirst hle hlast hlen v
  rw [← hlow]
  by_cases hone : last = first
  · -- of a single bit, either the masked word is zero or the bit is set
    subst hone
    have hwidth : last - last + 1 = 1 := by omega
    rw [hwidth] at hlow ⊢
    refine settle_one_eq_wrap ?_
    cases hbit : v.toBitVec.getLsbD last.toNat with
    | false =>
      refine .inl ?_
      apply Int64.toBitVec.inj
      rw [(bitMask_and_eq_zero hfirst hlast v).mpr hbit, toBitVec_shiftRight hfirst (by omega)]
      exact zero_sshiftRight
    -- the extracted word has its lowest bit set, so it is not cut to zero
    | true =>
      refine .inr fun h => ?_
      have hclear : low (1 : Int).toNat (shiftRight (bitMask last last &&& v) last) = low (1 : Int).toNat 0 := by
        rw [← low_wrap (by decide), h]
      have hbit' := congrArg (fun b => b.getLsbD 0) (hlow.symm.trans hclear)
      simp [hbit, low] at hbit'
  · exact settle_eq_wrap (by omega) _

end

/-! ### Numbers that are replaced in part -/

/-- The bits of `v` from `first` on replaced by those of `b`. -/
def replaceAt {n m : Nat} (v : BitVec n) (first : Nat) (b : BitVec m) : BitVec n :=
  BitVec.ofFnLE fun k => if first ≤ k.val ∧ k.val < first + m then b.getLsbD (k - first) else v.getLsbD k

theorem getLsbD_replaceAt {n m k : Nat} (v : BitVec n) (first : Nat) (b : BitVec m) (hk : k < n) :
    (replaceAt v first b).getLsbD k =
      if first ≤ k ∧ k < first + m then b.getLsbD (k - first) else v.getLsbD k := by
  rw [replaceAt, getLsbD_ofFnLE, dif_pos hk]

/-! ### Numbers that are extended -/

theorem getLsbD_of_fits (hpos : 0 < w) (h : Fits w v) {i : Nat} (hi : w.toNat - 1 ≤ i)
    (hlt : i < 64) : v.toBitVec.getLsbD i = v.toBitVec.getLsbD (w.toNat - 1) := by
  rw [← h, wrap, toBitVec_ofBits, getLsbD_signExtend, getLsbD_signExtend, msb_eq_getLsbD_last]
  by_cases hi' : i < w.toNat
  · obtain rfl : i = w.toNat - 1 := by omega
    rfl
  · simp [hlt, hi', show w.toNat - 1 < 64 by omega, show w.toNat - 1 < w.toNat by omega]

theorem fits_of_le {u : Int} (hpos : 0 < w) (hle : w ≤ u) (h : Fits w v) : Fits u v := by
  by_cases hu : 64 ≤ u
  · exact wrap_of_le hu v
  · apply Int64.toBitVec.inj
    rw [wrap, toBitVec_ofBits]
    apply eq_of_getLsbD_eq
    intro i hi
    rw [getLsbD_signExtend, low, msb_eq_getLsbD_last, getLsbD_setWidth, getLsbD_setWidth]
    by_cases hi' : i < u.toNat
    · simp [hi, hi']
    · -- both bits are above the smaller width, so both repeat its highest bit
      rw [getLsbD_of_fits hpos h (i := i) (by omega) hi,
        getLsbD_of_fits hpos h (i := u.toNat - 1) (by omega) (by omega)]
      simp [hi, hi', show u.toNat - 1 < u.toNat by omega]

/-- **Sign extension.** The bits above a number whose highest bit is set are set already. -/
theorem or_bitMask_of_fits {u : Int} (hpos : 0 < w) (hlt : w < u) (hu : u ≤ 64) (h : Fits w v)
    (hsign : v.toBitVec.getLsbD (w.toNat - 1)) : v ||| bitMask w (u - 1) = v := by
  apply Int64.toBitVec.inj
  apply eq_of_getLsbD_eq
  intro i hi
  rw [Int64.toBitVec_or, getLsbD_or, getLsbD_bitMask (by omega) (by omega) (by omega) (by omega)]
  by_cases hw : w.toNat ≤ i
  · rw [getLsbD_of_fits hpos h (by omega) hi, hsign, Bool.true_or]
  · rw [decide_eq_false (by omega), Bool.or_false]

theorem and_bitMask_pos (hpos : 0 < w) (hw : w < 64) (v : Int64) :
    v &&& bitMask (w - 1) (w - 1) > 0 ↔ v.toBitVec.getLsbD (w.toNat - 1) := by
  have hzero := bitMask_and_eq_zero (k := w - 1) (by omega) (by omega) v
  rw [Int64.and_comm, show (w - 1).toNat = w.toNat - 1 by omega] at hzero
  -- the mask leaves no sign
  have hsign : (v &&& bitMask (w - 1) (w - 1)).toBitVec.msb = false := by
    rw [msb_eq_getLsbD_last, Int64.toBitVec_and, getLsbD_and,
      getLsbD_bitMask (by omega) (by omega) (by omega) (by omega), decide_eq_false (by omega), Bool.and_false]
  have hnonneg : ¬(v &&& bitMask (w - 1) (w - 1)).toInt < 0 := by
    rwa [msb_eq_toInt, decide_eq_false_iff_not] at hsign
  have hne : v &&& bitMask (w - 1) (w - 1) = 0 ↔ (v &&& bitMask (w - 1) (w - 1)).toInt = 0 := Int64.toInt_inj.symm
  rw [← Bool.not_eq_false, ← hzero, hne, gt_iff_lt, Int64.lt_iff_toInt_lt]
  change 0 < _ ↔ _
  omega

theorem wrap_and_bitMask (hpos : 0 < w) (hw : w < 64) (u : Int) (v : Int64) :
    wrap u (v &&& (bitMask 0 (w - 1) ||| bitMask (u - 1 + 1) (u - 1))) = ofBits ((low w.toNat v).setWidth u.toNat) := by
  -- the second mask ends before it starts, so it is empty
  have hempty : bitMask (u - 1 + 1) (u - 1) = 0 := by
    have hlen : u - 1 - (u - 1 + 1) + 1 = 0 := by omega
    rw [bitMask, hlen, shiftLeft]
    exact Int64.zero_shiftLeft
  rw [hempty, Int64.or_zero, wrap]
  congr 1
  apply eq_of_getLsbD_eq
  intro i hi
  rw [low, getLsbD_setWidth, Int64.toBitVec_and, getLsbD_and,
    getLsbD_bitMask (by omega) (by omega) (by omega) (by omega), getLsbD_setWidth, low, getLsbD_setWidth,
    decide_eq_decide.mpr (show (0 ≤ (i : Int) ∧ (i : Int) ≤ w - 1) ↔ i < w.toNat by omega),
    Bool.and_comm (v.toBitVec.getLsbD i)]

end FlowRecovery.Word
