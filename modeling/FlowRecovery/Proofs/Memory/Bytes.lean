import FlowRecovery.Domain.Region
import FlowRecovery.Proofs.Masks

/-!
# Bytes

Concrete memory has a byte at every offset of every region (`Bytes`). A word is kept there with its
lowest byte first, and offsets are counted modulo 2⁶⁴, as words are. What memory holds and what a
word consists of is compared byte by byte:

* `Word.eq_of_byte_eq`: a number of some bytes is determined by them;
* `Bytes.word_eq_iff`: memory holds a number exactly if it holds its bytes;
* `Bytes.store_of_mem`, `Bytes.store_of_not_mem`: a write changes the bytes that it names and no
  other.
-/

namespace FlowRecovery

open Word BitVec

variable {i k : Nat} {v : Int64}

namespace Word

def byte (v : Int64) (i : Nat) : BitVec 8 := v.toBitVec.extractLsb' (8 * i) 8

theorem getLsbD_byte (v : Int64) (i j : Nat) :
    (byte v i).getLsbD j = (decide (j < 8) && v.toBitVec.getLsbD (8 * i + j)) := by
  rw [byte, getLsbD_extractLsb']

theorem byte_or (a b : Int64) (i : Nat) : byte (a ||| b) i = byte a i ||| byte b i := by
  apply eq_of_getLsbD_eq
  intro j _
  simp only [getLsbD_or, getLsbD_byte, Int64.toBitVec_or, Bool.and_or_distrib_left]

theorem byte_and (a b : Int64) (i : Nat) : byte (a &&& b) i = byte a i &&& byte b i := by
  apply eq_of_getLsbD_eq
  intro j hj
  simp only [getLsbD_and, getLsbD_byte, Int64.toBitVec_and, hj, decide_true, Bool.true_and]

@[simp] theorem byte_zero (i : Nat) : byte 0 i = 0 := by
  apply eq_of_getLsbD_eq
  intro j hj
  simp [getLsbD_byte]

theorem getLsbD_wrap {w : Int} (hw : w ≤ 64) (hi : (i : Int) < w) :
    (wrap w v).toBitVec.getLsbD i = v.toBitVec.getLsbD i := by
  rw [wrap, toBitVec_ofBits, getLsbD_signExtend, low, getLsbD_setWidth]
  simp [show i < 64 by omega, show i < w.toNat by omega]

theorem byte_wrap (hk : k ≤ 8) (hi : i < k) (v : Int64) : byte (wrap (8 * k) v) i = byte v i := by
  apply eq_of_getLsbD_eq
  intro j hj
  rw [getLsbD_byte, getLsbD_byte, getLsbD_wrap (by omega) (by omega)]

theorem eq_of_byte_eq (hk : k ≤ 8) {a b : Int64} (ha : Fits (8 * k) a) (hb : Fits (8 * k) b)
    (h : ∀ i < k, byte a i = byte b i) : a = b := by
  rw [← ha, ← hb]
  refine wrap_congr (fun _ => ?_) (fun _ => by omega)
  apply eq_of_getLsbD_eq
  intro i hi
  -- bit `i` lies in byte `i / 8`
  have hbyte := congrArg (fun c => c.getLsbD (i % 8)) (h (i / 8) (by omega))
  simp only [getLsbD_byte, show i % 8 < 8 by omega, decide_true, Bool.true_and, Nat.div_add_mod] at hbyte
  rw [low, low, getLsbD_setWidth, getLsbD_setWidth, hbyte]

def signFill (b : BitVec 8) : BitVec 8 := if b.msb then 255 else 0

theorem byte_of_fits {k i : Nat} (hk : 0 < k) (hi : k ≤ i) (hlt : i < 8) {v : Int64} (hv : Fits (8 * k) v) :
    byte v i = signFill (byte v (k - 1)) := by
  unfold signFill
  have hsign : (byte v (k - 1)).msb = v.toBitVec.getLsbD (8 * k - 1) := by
    rw [msb_eq_getLsbD_last, getLsbD_byte]
    simp only [show 8 * (k - 1) + (8 - 1) = 8 * k - 1 by omega]
    simp
  apply eq_of_getLsbD_eq
  intro j hj
  rw [getLsbD_byte, getLsbD_of_fits (w := 8 * k) (by omega) hv (by omega) (by omega), hsign]
  simp only [show ((8 * (k : Int)).toNat) = 8 * k by omega, hj, decide_true, Bool.true_and]
  cases v.toBitVec.getLsbD (8 * k - 1) with
  | true => exact ((by decide : ∀ j < 8, (255 : BitVec 8).getLsbD j) j hj).symm
  | false => simp

theorem byte_shiftLeft {j : Nat} (hi : i < 8) (hj : j < 8) (v : Int64) :
    byte (shiftLeft v (i * 8)) j = if j < i then 0 else byte v (j - i) := by
  apply eq_of_getLsbD_eq
  intro n hn
  rw [getLsbD_byte, toBitVec_shiftLeft (by omega) (by omega), getLsbD_shiftLeft]
  simp only [show ((i : Int) * 8).toNat = 8 * i by omega, hn, show 8 * j + n < 64 by omega, decide_true, Bool.true_and]
  by_cases hji : j < i
  · simp [hji, show 8 * j + n < 8 * i by omega]
  · rw [if_neg hji, getLsbD_byte, show 8 * (j - i) + n = 8 * j + n - 8 * i by omega]
    simp [hn, show ¬8 * j + n < 8 * i by omega]

end Word

/-! ### Offsets -/

def distance (o o' : Int64) : Nat := (o' - o).toBitVec.toNat

theorem add_distance (o o' : Int64) : o + .ofNat (distance o o') = o' := by
  have h : .ofNat (distance o o') = o' - o := by
    apply Int64.toBitVec.inj
    rw [distance, Int64.toBitVec_ofNat', ofNat_toNat, setWidth_eq]
  rw [h]
  grind

theorem distance_add (hi : i < 2 ^ 64) (o : Int64) : distance o (o + .ofNat i) = i := by
  have h : o + .ofNat i - o = .ofNat i := by grind
  rw [distance, h, Int64.toBitVec_ofNat', toNat_ofNat, Nat.mod_eq_of_lt hi]

/-! ### Memory -/

abbrev Bytes := Region → Int64 → BitVec 8

namespace Bytes

variable (σ : Bytes) (r : Region) (o : Int64) {size : Nat}

/-- The memory after the low bytes of a word were written, `size` of them. -/
def store (size : Nat) (v : Int64) : Bytes := fun r' o' =>
  if r' = r ∧ distance o o' < size then byte v (distance o o') else σ r' o'

/-- The bits of `size` bytes, of which the first is the lowest. -/
def load (σ : Bytes) (r : Region) (o : Int64) : (size : Nat) → BitVec (8 * size)
  | 0 => 0
  | size + 1 => load σ r (o + 1) size ++ σ r o

def word (size : Nat) : Int64 := ofBits (σ.load r o size)

theorem store_of_mem (v : Int64) (hi : i < size)
    (hlt : i < 2 ^ 64) : σ.store r o size v r (o + .ofNat i) = byte v i := by
  rw [store, distance_add hlt, if_pos ⟨rfl, hi⟩]

theorem store_of_not_mem {r r' : Region} {o o' : Int64} (v : Int64)
    (h : r' = r → ¬distance o o' < size) : σ.store r o size v r' o' = σ r' o' := by
  rw [store, if_neg (fun ⟨hr, hlt⟩ => h hr hlt)]

theorem getLsbD_load {j : Nat} (hi : i < size) (hj : j < 8) :
    (σ.load r o size).getLsbD (8 * i + j) = (σ r (o + .ofNat i)).getLsbD j := by
  induction size generalizing o i with
  | zero => omega
  | succ size ih =>
    rw [load, getLsbD_append]
    cases i with
    | zero => simp [hj]
    | succ i =>
      have hoffset : o + .ofNat (i + 1) = o + 1 + .ofNat i := by
        rw [Int64.ofNat_add]
        grind
      rw [if_neg (by omega), show 8 * (i + 1) + j - 8 = 8 * i + j by omega, ih (o + 1) (by omega), hoffset]

theorem byte_word (hsize : size ≤ 8) (hi : i < size) : byte (σ.word r o size) i = σ r (o + .ofNat i) := by
  apply eq_of_getLsbD_eq
  intro j hj
  rw [getLsbD_byte, word, toBitVec_ofBits, getLsbD_signExtend, getLsbD_load σ r o hi hj]
  simp [hj, show 8 * i + j < 64 by omega, show 8 * i + j < 8 * size by omega]

theorem fits_word (hsize : size ≤ 8) : Fits (8 * size) (σ.word r o size) := by
  have h := fits_ofBits (by omega) (σ.load r o size)
  rwa [Nat.cast_mul] at h

theorem word_eq_iff (hsize : size ≤ 8)
    (hv : Fits (8 * size) v) : σ.word r o size = v ↔ ∀ i < size, σ r (o + .ofNat i) = byte v i := by
  constructor
  · rintro rfl i hi
    exact (byte_word σ r o hsize hi).symm
  · intro h
    refine eq_of_byte_eq hsize (fits_word σ r o hsize) hv fun i hi => ?_
    rw [byte_word σ r o hsize hi, h i hi]

end Bytes

end FlowRecovery
