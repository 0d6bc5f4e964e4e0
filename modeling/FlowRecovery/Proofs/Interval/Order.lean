import Mathlib
import FlowRecovery.Domain.Interval

/-!
# Strided intervals as sets of offsets

An interval stands for the set of its offsets (`Interval.points`). The operations look at bounds and
strides only; for *reduced* intervals (`Interval.Reduced`), whose bounds are numbers of the width
and whose right bound is reached in whole strides, this describes the set exactly: its members are
the numbers between the bounds that differ from the left one by a multiple of the stride
(`Reduced.mem_points`). Hence

* `lessOrEqual` decides inclusion (`Reduced.points_subset_iff`);
* `hull` is the least reduced interval around both (`hull_eq`, `subset_hull`, `hull_subset`): a
  stride that fits an upper bound divides both strides and the distance of the left bounds, and
  `joinStride` is the greatest number that does.

The computations are with words of 64 bits, which the numbers of at most 32 bits leave room for.
-/

namespace FlowRecovery

open Int64

namespace Interval

/-- The offsets `left + k * stride`, where `k` goes up to the number of strides between the bounds.
-/
def points (a : Interval) : Set Int :=
  {x | ∃ k : Nat, (k : Int) ≤ (a.right.toInt - a.left.toInt) / a.stride.toInt ∧
    x = a.left.toInt + k * a.stride.toInt}

/-- The bounds are signed numbers of `w` bits in order, the stride is zero for a single offset only,
and the right bound is the last of the offsets that start at the left one. -/
structure Reduced (w : Nat) (a : Interval) : Prop where
  width_eq : a.width = w
  left_ge : -2 ^ (w - 1) ≤ a.left.toInt
  right_lt : a.right.toInt < 2 ^ (w - 1)
  left_le : a.left.toInt ≤ a.right.toInt
  stride_eq_zero : a.stride = 0 ↔ a.left = a.right
  reaches : ∃ n : Nat, a.right.toInt = a.left.toInt + n * a.stride.toInt

/-! ### Words that do not overflow -/

theorem toInt_sub_of_small {u v : Int64} (hu : -2 ^ 63 ≤ u.toInt - v.toInt) (hv : u.toInt - v.toInt < 2 ^ 63) :
    (u - v).toInt = u.toInt - v.toInt := by
  rw [toInt_sub]
  exact Int.bmod_eq_of_le (by omega) (by omega)

theorem toInt_abs {v : Int64} (hv : -2 ^ 63 < v.toInt) : (abs v).toInt = |v.toInt| := by
  unfold abs
  split
  · next hneg =>
    have hlt : v.toInt < 0 := lt_iff_toInt_lt.1 hneg
    rw [toInt_neg, abs_of_neg hlt]
    exact Int.bmod_eq_of_le (by omega) (by omega)
  · next hpos =>
    have hge : 0 ≤ v.toInt := Int64.le_iff_toInt_le.1 (Int64.not_lt.1 hpos)
    rw [abs_of_nonneg hge]

theorem toInt_min (u v : Int64) : (min u v).toInt = min u.toInt v.toInt := by
  change (if u ≤ v then u else v).toInt = _
  rw [min_def]
  split <;> simp_all [le_iff_toInt_le]

theorem toInt_max (u v : Int64) : (max u v).toInt = max u.toInt v.toInt := by
  change (if u ≤ v then v else u).toInt = _
  rw [max_def]
  split <;> simp_all [le_iff_toInt_le]

theorem toInt_eq_zero {v : Int64} : v.toInt = 0 ↔ v = 0 := toInt_inj (y := 0)

/-! ### Strides -/

theorem gcd_eq {m n : Int} (hm : 0 ≤ m) (hn : 0 ≤ n) : gcd m n = Int.gcd m n := by
  fun_induction gcd m n with
  | case1 m => simp [abs_of_nonneg hm]
  | case2 m n hne hpos ih =>
    rw [ih hn hpos.le, Int.tmod_eq_emod_of_nonneg hm, Int.gcd_comm, Int.gcd_emod]
  | case3 m n hne hpos =>
    have hzero : m.tmod n = 0 := by
      have := Int.tmod_nonneg n hm
      omega
    rw [Int.gcd_eq_right_iff_dvd hn |>.2 (Int.dvd_of_tmod_eq_zero hzero)]

theorem toInt_gcdStride {s t : Int64} (hs : 0 ≤ s.toInt) (ht : 0 ≤ t.toInt) :
    (gcdStride s t).toInt = Int.gcd s.toInt t.toInt := by
  unfold gcdStride
  split
  · next h => simp [h, abs_of_nonneg ht]
  split
  · next h => simp [h, abs_of_nonneg hs]
  · next hs0 ht0 =>
    have hpos : 0 < t.toInt := lt_of_le_of_ne ht (Ne.symm (toInt_eq_zero.not.2 ht0))
    have hle : (Int.gcd s.toInt t.toInt : Int) ≤ t.toInt := Int.le_of_dvd hpos (Int.gcd_dvd_right _ _)
    have hlt := t.toInt_lt
    rw [gcd_eq hs ht]
    exact toInt_ofInt_of_le (by omega) (by omega)

/-! ### Reduced intervals -/

section Reduced

variable {w : Nat} {a b c : Interval} {x : Int}

theorem Reduced.stride_nonneg (ha : a.Reduced w) : 0 ≤ a.stride.toInt := by
  obtain ⟨n, hn⟩ := ha.reaches
  by_contra! hneg
  -- a negative stride would lead below the left bound, unless there is none to take
  have hle := ha.left_le
  have hzero : (n : Int) = 0 := by
    by_contra hne
    have : (n : Int) * a.stride.toInt < 0 := mul_neg_of_pos_of_neg (by omega) hneg
    omega
  have heq : a.left = a.right := toInt_inj.1 (by rw [hn, hzero]; omega)
  rw [ha.stride_eq_zero.2 heq] at hneg
  exact absurd hneg (by decide)

theorem bounds_of_mem (hs : 0 ≤ a.stride.toInt) (hle : a.left.toInt ≤ a.right.toInt) (hx : x ∈ a.points) :
    a.left.toInt ≤ x ∧ x ≤ a.right.toInt := by
  obtain ⟨k, hk, rfl⟩ := hx
  have hk' : (k : Int) * a.stride.toInt ≤ a.right.toInt - a.left.toInt := by
    rcases hs.eq_or_lt with h0 | hpos
    · simp [← h0, hle]
    · exact (Int.le_ediv_iff_mul_le hpos).1 hk
  have hk0 : 0 ≤ (k : Int) * a.stride.toInt := by positivity
  omega

section

variable (ha : a.Reduced w)

include ha

theorem Reduced.mem_points :
    x ∈ a.points ↔ a.left.toInt ≤ x ∧ x ≤ a.right.toInt ∧ a.stride.toInt ∣ x - a.left.toInt := by
  have hs := ha.stride_nonneg
  constructor
  · intro hx
    obtain ⟨hl, hr⟩ := bounds_of_mem hs ha.left_le hx
    obtain ⟨k, -, rfl⟩ := hx
    exact ⟨hl, hr, k, by ring⟩
  · rintro ⟨hl, hr, k, hk⟩
    rcases hs.eq_or_lt with h0 | hpos
    · exact ⟨0, by simp [← h0], by simp [← h0] at hk; simp; omega⟩
    · have hk0 : 0 ≤ k := by
        by_contra! hneg
        have := mul_neg_of_pos_of_neg hpos hneg
        omega
      lift k to Nat using hk0
      refine ⟨k, (Int.le_ediv_iff_mul_le hpos).2 ?_, ?_⟩
      · linarith [mul_comm a.stride.toInt k]
      · linarith [mul_comm a.stride.toInt k]

theorem Reduced.left_mem : a.left.toInt ∈ a.points :=
  ha.mem_points.2 ⟨le_rfl, ha.left_le, by simp⟩

theorem Reduced.stride_dvd : a.stride.toInt ∣ a.right.toInt - a.left.toInt := by
  obtain ⟨n, hn⟩ := ha.reaches
  exact ⟨n, by rw [hn]; ring⟩

theorem Reduced.right_mem : a.right.toInt ∈ a.points :=
  ha.mem_points.2 ⟨ha.left_le, le_rfl, ha.stride_dvd⟩

theorem Reduced.next_mem (hs : a.stride ≠ 0) : a.left.toInt + a.stride.toInt ∈ a.points := by
  have hne : a.left.toInt ≠ a.right.toInt := fun h => hs (ha.stride_eq_zero.2 (toInt_inj.1 h))
  have hle := ha.left_le
  have hstride : a.stride.toInt ≤ a.right.toInt - a.left.toInt := Int.le_of_dvd (by omega) ha.stride_dvd
  have := ha.stride_nonneg
  exact ha.mem_points.2 ⟨by omega, by omega, by simp⟩

theorem Reduced.points_subset_iff (hb : b.Reduced w) :
    a.points ⊆ b.points ↔ b.left.toInt ≤ a.left.toInt ∧ a.right.toInt ≤ b.right.toInt ∧
      b.stride.toInt ∣ a.left.toInt - b.left.toInt ∧ b.stride.toInt ∣ a.stride.toInt := by
  constructor
  · intro h
    obtain ⟨hl, -, hdvd⟩ := hb.mem_points.1 (h ha.left_mem)
    obtain ⟨-, hr, -⟩ := hb.mem_points.1 (h ha.right_mem)
    refine ⟨hl, hr, hdvd, ?_⟩
    by_cases hs : a.stride = 0
    · simp [hs]
    · obtain ⟨-, -, hnext⟩ := hb.mem_points.1 (h (ha.next_mem hs))
      have hdiff := dvd_sub hnext hdvd
      rwa [show a.left.toInt + a.stride.toInt - b.left.toInt - (a.left.toInt - b.left.toInt) = a.stride.toInt by ring]
        at hdiff
  · rintro ⟨hl, hr, hdvd, hs⟩ x hx
    obtain ⟨hxl, hxr, hx⟩ := ha.mem_points.1 hx
    refine hb.mem_points.2 ⟨hl.trans hxl, hxr.trans hr, ?_⟩
    rw [← sub_add_sub_cancel x a.left.toInt b.left.toInt]
    exact dvd_add (hs.trans hx) hdvd

theorem Reduced.eq_of_points_eq (hb : b.Reduced w) (hregion : a.region = b.region)
    (h : a.points = b.points) : a = b := by
  obtain ⟨hl, hr, -, hs⟩ := (ha.points_subset_iff hb).1 h.subset
  obtain ⟨hl', hr', -, hs'⟩ := (hb.points_subset_iff ha).1 h.symm.subset
  have hleft : a.left = b.left := toInt_inj.1 (le_antisymm hl' hl)
  have hright : a.right = b.right := toInt_inj.1 (le_antisymm hr hr')
  have hstride : a.stride = b.stride :=
    toInt_inj.1 (Int.dvd_antisymm ha.stride_nonneg hb.stride_nonneg hs' hs)
  have hwidth : a.width = b.width := ha.width_eq.trans hb.width_eq.symm
  cases a
  cases b
  simp_all

end

theorem reduced_of_dvd (hwidth : a.width = w) (hl : -2 ^ (w - 1) ≤ a.left.toInt) (hr : a.right.toInt < 2 ^ (w - 1))
    (hlr : a.left.toInt ≤ a.right.toInt) (hzero : a.stride = 0 ↔ a.left = a.right) (hs : 0 ≤ a.stride.toInt)
    (hdvd : a.stride.toInt ∣ a.right.toInt - a.left.toInt) : a.Reduced w := by
  refine ⟨hwidth, hl, hr, hlr, hzero, ?_⟩
  obtain ⟨k, hk⟩ := hdvd
  by_cases hk0 : 0 ≤ k
  · lift k to Nat using hk0
    exact ⟨k, by linarith [mul_comm a.stride.toInt k]⟩
  · have := mul_nonpos_of_nonneg_of_nonpos hs (not_le.1 hk0).le
    exact ⟨0, by simp; omega⟩

theorem make_eq (region : Region) (width : Int) {l r s : Int64} (hlr : l.toInt ≤ r.toInt)
    (hsmall : r.toInt - l.toInt < 2 ^ 63) (hdvd : s.toInt ∣ r.toInt - l.toInt) :
    make region l r s width = .ok ⟨region, l, r, if l = r then 0 else s, width⟩ := by
  have hsub : (r - l).toInt = r.toInt - l.toInt := toInt_sub_of_small (by omega) hsmall
  have hempty : r - l = 0 ↔ l = r := by
    rw [← toInt_eq_zero, hsub, ← toInt_inj]
    omega
  have hstride : s = 0 → r = l := by
    rintro rfl
    have h0 : r.toInt - l.toInt = 0 := zero_dvd_iff.1 hdvd
    exact toInt_inj.1 (by omega)
  have hfits : (r - l) % s = 0 := by
    rw [← toInt_eq_zero, toInt_mod, hsub]
    exact Int.tmod_eq_zero_of_dvd hdvd
  rw [make, if_neg (fun h => h.2 (hstride h.1)), if_neg (fun h => h.2 hfits)]
  simp only [hempty]

theorem make_spec (region : Region) {l r s : Int64} (hl : -2 ^ (w - 1) ≤ l.toInt) (hr : r.toInt < 2 ^ (w - 1))
    (hlr : l.toInt ≤ r.toInt) (hsmall : r.toInt - l.toInt < 2 ^ 63) (hs : 0 ≤ s.toInt)
    (hdvd : s.toInt ∣ r.toInt - l.toInt) : ∃ c, make region l r s w = .ok c ∧ c.region = region ∧ c.Reduced w ∧
      ∀ x, x ∈ c.points ↔ l.toInt ≤ x ∧ x ≤ r.toInt ∧ s.toInt ∣ x - l.toInt := by
  refine ⟨_, make_eq region w hlr hsmall hdvd, rfl, ?_⟩
  by_cases h : l = r
  · rw [if_pos h]
    have hreduced : Reduced w ⟨region, l, r, 0, w⟩ := reduced_of_dvd rfl hl hr hlr (by simp [h]) le_rfl (by simp [h])
    refine ⟨hreduced, fun x => hreduced.mem_points.trans ?_⟩
    -- both sides say that `x` is the only offset
    refine and_congr_right fun hx => and_congr_right fun hx' => ?_
    have : x = l.toInt := le_antisymm (h ▸ hx') hx
    simp [this]
  · rw [if_neg h]
    have hstride : s ≠ 0 := by
      rintro rfl
      have h0 : r.toInt - l.toInt = 0 := zero_dvd_iff.1 hdvd
      exact h (toInt_inj.1 (by omega))
    have hreduced : Reduced w ⟨region, l, r, s, w⟩ :=
      reduced_of_dvd rfl hl hr hlr ⟨fun h' => absurd h' hstride, fun h' => absurd h' h⟩ hs hdvd
    exact ⟨hreduced, fun x => hreduced.mem_points⟩

/-! ### Widths -/

theorem pow_le_of_width (hw : w = 8 ∨ w = 16 ∨ w = 32) : (2 : Int) ^ (w - 1) ≤ 2 ^ 31 :=
  pow_le_pow_right₀ (by norm_num) (by omega)

theorem top_spec (hw : w = 8 ∨ w = 16 ∨ w = 32) :
    ∃ t, top w = .ok t ∧ t.Reduced w ∧ t.left.toInt = -2 ^ (w - 1) ∧ t.right.toInt = 2 ^ (w - 1) - 1 ∧
      ∀ x, x ∈ t.points ↔ -2 ^ (w - 1) ≤ x ∧ x < 2 ^ (w - 1) := by
  obtain ⟨t, htop, hleft, hright, hstride, hwidth⟩ : ∃ t, top w = .ok t ∧ t.left.toInt = -2 ^ (w - 1) ∧
      t.right.toInt = 2 ^ (w - 1) - 1 ∧ t.stride = 1 ∧ t.width = w := by
    rcases hw with rfl | rfl | rfl <;> exact ⟨_, rfl, rfl, rfl, rfl, rfl⟩
  have hpos : (0 : Int) < 2 ^ (w - 1) := by positivity
  have hreduced : t.Reduced w := by
    have hne : t.left ≠ t.right := fun h => by
      have := congrArg toInt h
      omega
    exact reduced_of_dvd hwidth hleft.ge (by omega) (by omega) (by simp [hstride, hne]) (by simp [hstride])
      (by simp [hstride])
  refine ⟨t, htop, hreduced, hleft, hright, fun x => ?_⟩
  rw [hreduced.mem_points, hleft, hright, hstride]
  simp

/-! ### The order -/

theorem Reduced.dvd_sub_min (ha : a.Reduced w) {g : Int} (b : Interval) (hstride : g ∣ a.stride.toInt)
    (hleft : g ∣ a.left.toInt - b.left.toInt) (hx : x ∈ a.points) : g ∣ x - min a.left.toInt b.left.toInt := by
  have hxa : g ∣ x - a.left.toInt := hstride.trans (ha.mem_points.1 hx).2.2
  rcases min_choice a.left.toInt b.left.toInt with h | h
  · rwa [h]
  · rw [h, ← sub_add_sub_cancel x a.left.toInt b.left.toInt]
    exact dvd_add hxa hleft

theorem Reduced.subset_top (hw : w = 8 ∨ w = 16 ∨ w = 32) (ha : a.Reduced w) {t : Interval} (ht : top w = .ok t) :
    a.points ⊆ t.points := by
  obtain ⟨t', ht', -, -, -, hmem⟩ := top_spec hw
  obtain rfl : t' = t := Except.ok.inj (ht'.symm.trans ht)
  intro x hx
  obtain ⟨hl, hr, -⟩ := ha.mem_points.1 hx
  exact (hmem x).2 ⟨ha.left_ge.trans hl, hr.trans_lt ha.right_lt⟩

section

variable (hw : w = 8 ∨ w = 16 ∨ w = 32) (ha : a.Reduced w) (hb : b.Reduced w)

include hw ha hb

theorem lessOrEqual_spec : ∃ answer, a.lessOrEqual b = .ok answer ∧ (answer ↔ a.points ⊆ b.points) := by
  have hwidth : ¬a.width ≠ b.width := not_not.2 (ha.width_eq.trans hb.width_eq.symm)
  have hpow := pow_le_of_width hw
  have ⟨_, hal, har, hale, _, _⟩ := ha
  have ⟨_, hbl, hbr, hble, _, _⟩ := hb
  rw [lessOrEqual, if_neg hwidth, ha.points_subset_iff hb]
  split
  · next h0 =>
    have heq : b.left = b.right := hb.stride_eq_zero.1 h0
    refine ⟨_, rfl, ?_⟩
    simp only [Bool.and_eq_true, beq_iff_eq, h0, ← toInt_inj, toInt_zero, zero_dvd_iff]
    constructor
    · rintro ⟨hl, hr⟩
      have hs : a.stride = 0 := ha.stride_eq_zero.2 (toInt_inj.1 (hl.trans hr.symm))
      rw [← heq, hs]
      exact ⟨hl.ge, hr.le, by omega, rfl⟩
    · rintro ⟨hl, hr, -, -⟩
      rw [← heq] at hr
      omega
  · next h0 =>
    refine ⟨_, rfl, ?_⟩
    have hsub : (a.left - b.left).toInt = a.left.toInt - b.left.toInt := toInt_sub_of_small (by omega) (by omega)
    simp only [Bool.and_eq_true, decide_eq_true_eq, beq_iff_eq, le_iff_toInt_le, ← toInt_eq_zero, toInt_mod,
      hsub, Int.dvd_iff_tmod_eq_zero, and_assoc]

theorem toInt_joinStride :
    (joinStride a b).toInt = Int.gcd (Int.gcd a.stride.toInt b.stride.toInt) (a.left.toInt - b.left.toInt) := by
  have hpow := pow_le_of_width hw
  have ⟨_, hal, har, hale, _, _⟩ := ha
  have ⟨_, hbl, hbr, hble, _, _⟩ := hb
  have hsub : (a.left - b.left).toInt = a.left.toInt - b.left.toInt := toInt_sub_of_small (by omega) (by omega)
  have hsub' : (b.left - a.left).toInt = b.left.toInt - a.left.toInt := toInt_sub_of_small (by omega) (by omega)
  unfold joinStride
  split
  · next h =>
    rw [toInt_abs (by omega), hsub', h.1, h.2, abs_sub_comm]
    simp
  · have habs : (abs (a.left - b.left)).toInt = |a.left.toInt - b.left.toInt| := by rw [toInt_abs (by omega), hsub]
    have hgcd := toInt_gcdStride ha.stride_nonneg hb.stride_nonneg
    rw [toInt_gcdStride (by omega) (by rw [habs]; exact abs_nonneg _), hgcd, habs]
    simp [Int.gcd, Int.natAbs_abs]

/-- `hull` returns the least reduced interval that contains both. -/
theorem hull_spec :
    ∃ c, a.hull b = .ok c ∧ c.region = a.region ∧ c.Reduced w ∧ a.points ⊆ c.points ∧ b.points ⊆ c.points ∧
      ∀ d : Interval, d.Reduced w → a.points ⊆ d.points → b.points ⊆ d.points → c.points ⊆ d.points := by
  have hpow := pow_le_of_width hw
  have ⟨_, hal, har, hale, _, _⟩ := ha
  have ⟨_, hbl, hbr, _, _, _⟩ := hb
  have hmin := toInt_min a.left b.left
  have hmax := toInt_max a.right b.right
  have hg := toInt_joinStride hw ha hb
  set g : Int := ↑(Int.gcd (Int.gcd a.stride.toInt b.stride.toInt) (a.left.toInt - b.left.toInt))
  have hg0 : 0 ≤ g := Int.natCast_nonneg _
  have hleft : g ∣ a.left.toInt - b.left.toInt := Int.gcd_dvd_right _ _
  have hstride : g ∣ Int.gcd a.stride.toInt b.stride.toInt := Int.gcd_dvd_left _ _
  have hina : ∀ x ∈ a.points, g ∣ x - min a.left.toInt b.left.toInt := fun x =>
    ha.dvd_sub_min b (hstride.trans (Int.gcd_dvd_left _ _)) hleft
  have hinb : ∀ x ∈ b.points, g ∣ x - min a.left.toInt b.left.toInt := fun x => by
    rw [min_comm]
    exact hb.dvd_sub_min a (hstride.trans (Int.gcd_dvd_right _ _)) ((dvd_sub_comm).1 hleft)
  have hdvd : g ∣ max a.right.toInt b.right.toInt - min a.left.toInt b.left.toInt := by
    rcases max_choice a.right.toInt b.right.toInt with h | h
    · rw [h]
      exact hina _ ha.right_mem
    · rw [h]
      exact hinb _ hb.right_mem
  obtain ⟨c, hc, hregion, hreduced, hmem⟩ := make_spec (w := w) a.region (l := min a.left b.left)
    (r := max a.right b.right) (s := joinStride a b) (by omega) (by omega) (by omega) (by omega) (by omega)
    (by rwa [hg, hmin, hmax])
  rw [hmin, hmax, hg] at hmem
  rw [← ha.width_eq] at hc
  refine ⟨c, hc, hregion, hreduced, fun x hx => ?_, fun x hx => ?_, fun d hd had hbd x hx => ?_⟩
  · obtain ⟨hl, hr, -⟩ := ha.mem_points.1 hx
    exact (hmem x).2 ⟨by omega, by omega, hina x hx⟩
  · obtain ⟨hl, hr, -⟩ := hb.mem_points.1 hx
    exact (hmem x).2 ⟨by omega, by omega, hinb x hx⟩
  · obtain ⟨hl, hr, hx⟩ := (hmem x).1 hx
    obtain ⟨hdl, hdr, hda, hdsa⟩ := (ha.points_subset_iff hd).1 had
    obtain ⟨hdl', hdr', hdb, hdsb⟩ := (hb.points_subset_iff hd).1 hbd
    have hdg : d.stride.toInt ∣ g := by
      refine Int.dvd_coe_gcd (Int.dvd_coe_gcd hdsa hdsb) ?_
      rw [← sub_sub_sub_cancel_right a.left.toInt b.left.toInt d.left.toInt]
      exact dvd_sub hda hdb
    have hdmin : d.stride.toInt ∣ min a.left.toInt b.left.toInt - d.left.toInt := by
      rcases min_choice a.left.toInt b.left.toInt with h | h
      · rwa [h]
      · rwa [h]
    refine hd.mem_points.2 ⟨by omega, by omega, ?_⟩
    rw [← sub_add_sub_cancel x (min a.left.toInt b.left.toInt) d.left.toInt]
    exact dvd_add (hdg.trans hx) hdmin

theorem widen_eq_hull (hregion : a.region = b.region) : a.widen b = a.hull b := by
  obtain ⟨t, htop, -⟩ := top_spec hw
  have hwidth : b.width = a.width := hb.width_eq.trans ha.width_eq.symm
  rw [← ha.width_eq] at htop
  simp [widen, hwidth, hregion, htop, bind, Except.bind]

theorem join_spec (hregion : a.region = b.region) : a.join b = a.hull b ∨ a.join b = top w := by
  obtain ⟨t, htop, -⟩ := top_spec hw
  have hwidth : a.width = w := ha.width_eq
  have hwidth' : b.width = w := hb.width_eq
  simp only [join, isTop, leftOpen, rightOpen, hwidth, hwidth', htop, hregion, ne_eq, not_true_eq_false, if_false, bind,
    Except.bind, pure, Except.pure]
  split
  · next h => exact .inr (by rw [beq_iff_eq.1 h])
  split
  · next h => exact .inr (by rw [beq_iff_eq.1 h])
  split
  · exact .inr rfl
  split
  · exact .inr rfl
  · exact .inl rfl

end

/-- **The order of the intervals of a region.** On reduced intervals of 8, 16 or 32 bits,
`lessOrEqual` is inclusion of the sets, and equal sets make equal intervals. `widen` never fails and
returns the least interval around both; `join` never fails either, and returns an interval around
both: of their region, or the largest one. -/
theorem order_of_points (hw : w = 8 ∨ w = 16 ∨ w = 32) (ha : a.Reduced w) (hb : b.Reduced w)
    (hregion : a.region = b.region) :
    (∃ answer, a.lessOrEqual b = .ok answer ∧ (answer = true ↔ a.points ⊆ b.points)) ∧
    (a.points = b.points → a = b) ∧
    (∃ c, a.widen b = .ok c ∧ c.region = a.region ∧ c.Reduced w ∧ a.points ⊆ c.points ∧ b.points ⊆ c.points ∧
      ∀ d : Interval, d.Reduced w → a.points ⊆ d.points → b.points ⊆ d.points →
        c.points ⊆ d.points ∧ c.lessOrEqual d = .ok true) ∧
    (∃ c, a.join b = .ok c ∧ (c.region = a.region ∨ top w = .ok c) ∧ c.Reduced w ∧ a.points ⊆ c.points ∧
      b.points ⊆ c.points) := by
  obtain ⟨c, hc, hcregion, hcred, hac, hbc, hleast⟩ := hull_spec hw ha hb
  refine ⟨lessOrEqual_spec hw ha hb, ha.eq_of_points_eq hb hregion, ?_, ?_⟩
  · refine ⟨c, (widen_eq_hull hw ha hb hregion).trans hc, hcregion, hcred, hac, hbc, fun d hd had hbd => ?_⟩
    have hcd := hleast d hd had hbd
    obtain ⟨answer, hanswer, htrue⟩ := lessOrEqual_spec hw hcred hd
    exact ⟨hcd, by rw [hanswer, htrue.2 hcd]⟩
  · rcases join_spec hw ha hb hregion with hjoin | hjoin
    · exact ⟨c, hjoin.trans hc, .inl hcregion, hcred, hac, hbc⟩
    · obtain ⟨t, ht, htred, -⟩ := top_spec hw
      exact ⟨t, hjoin.trans ht, .inr ht, htred, ha.subset_top hw ht, hb.subset_top hw ht⟩

/-- The offsets `3, 7, 11` and the offset `5`, both on the stack: the stride of their hull is two.
-/
theorem order_of_stack_offsets :
    let a : Interval := ⟨.stack, 3, 11, 4, 32⟩
    let b : Interval := ⟨.stack, 5, 5, 0, 32⟩
    a.widen b = .ok ⟨.stack, 3, 11, 2, 32⟩ ∧
    (∃ answer, a.lessOrEqual b = .ok answer ∧ (answer = true ↔ a.points ⊆ b.points)) ∧
    ∃ c, a.join b = .ok c ∧ a.points ⊆ c.points ∧ b.points ⊆ c.points := by
  intro a b
  have ha : a.Reduced 32 := ⟨rfl, by decide, by decide, by decide, by decide, 2, by decide⟩
  have hb : b.Reduced 32 := ⟨rfl, by decide, by decide, by decide, by decide, 0, by decide⟩
  obtain ⟨hle, -, -, c, hc, -, -, hac, hbc⟩ := order_of_points (by decide) ha hb rfl
  exact ⟨by decide +kernel, hle, c, hc, hac, hbc⟩

end Reduced

end Interval

end FlowRecovery
