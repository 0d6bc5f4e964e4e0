import FlowRecovery.Proofs.Interval.Order

/-!
# Sums and products of strided intervals

The sum of two intervals adds their bounds, in words that have room for it, and returns the largest
interval if a mask of the bounds' bits shows that they do not overflow alike (`mask_iff`). The
bounds are never cut to the width. So the sum is right exactly if some number between the summed
bounds is one of the width (`plus_sound_iff`): if both bounds leave the width on the same side, it
stands for no number of the width at all.

The product takes the least and the greatest product of bounds, which are numbers of twice the
width, and multiplies the strides. The result has the products of all members exactly if one factor
is a single number or both intervals consist of multiples of their strides (`times_sound_iff`): in
all other cases the products are not whole strides apart.
-/

namespace FlowRecovery

namespace Interval

open Int64

variable {w n : Nat} {a b c : Interval} {x y : Int} {v : BitVec 64}

/-! ### The overflow mask -/

/-- The mask of `plus`, on the bits of the left and right bounds and of their sums: at the highest
bit of the width it tells whether one of the sums overflows in a way that the other does not. -/
def mask (left left' right right' l r : BitVec 64) : BitVec 64 :=
  (left &&& left' &&& ~~~l &&& ~~~(right &&& right' &&& ~~~r)) |||
    (((left ^^^ left') ||| ~~~(left ^^^ l)) &&& (~~~right &&& ~~~right' &&& r))

theorem sshiftRight_mask (n : Nat) (left left' right right' l r : BitVec 64) :
    (mask left left' right right' l r).sshiftRight n =
    mask (left.sshiftRight n) (left'.sshiftRight n)
      (right.sshiftRight n) (right'.sshiftRight n) (l.sshiftRight n) (r.sshiftRight n) := by
  simp only [mask, BitVec.sshiftRight_or_distrib, BitVec.sshiftRight_and_distrib,
    BitVec.sshiftRight_xor_distrib, ← BitVec.not_sshiftRight]

theorem sshiftRight_eq (q : Int) (hl : q * 2 ^ n ≤ v.toInt) (hr : v.toInt < (q + 1) * 2 ^ n) :
    v.sshiftRight n = .ofInt 64 q := by
  have hpos : (0 : Int) < 2 ^ n := by positivity
  have hquot : v.toInt / 2 ^ n = q :=
    le_antisymm (Int.lt_add_one_iff.1 (Int.ediv_lt_of_lt_mul hpos hr))
    (Int.le_ediv_of_mul_le hpos hl)
  rw [← BitVec.ofInt_toInt (x := v.sshiftRight n), BitVec.toInt_sshiftRight,
    Int.shiftRight_eq_div_pow]
  push_cast
  rw [hquot]

theorem sshiftRight_eq_zero_iff : v.sshiftRight n = 0#64 ↔ 0 ≤ v.toInt ∧ v.toInt < 2 ^ n := by
  constructor
  · intro h
    have hpos : (0 : Int) < 2 ^ n := by positivity
    have hzero : v.toInt / 2 ^ n = 0 := by
      have := congrArg BitVec.toInt h
      rwa [BitVec.toInt_sshiftRight, Int.shiftRight_eq_div_pow, Nat.cast_pow] at this
    have hdiv := Int.mul_ediv_add_emod v.toInt (2 ^ n)
    have hnonneg := Int.emod_nonneg v.toInt hpos.ne'
    have hlt := Int.emod_lt_of_pos v.toInt hpos
    rw [hzero] at hdiv
    omega
  · rintro ⟨hl, hr⟩
    exact sshiftRight_eq 0 (by simpa using hl) (by simpa using hr)

/-- The bits of two numbers and of their sum from the highest bit of the width on, if the sum does
not overflow. -/
def carries : List (BitVec 64 × BitVec 64 × BitVec 64) :=
  [(-1, -1, -1), (-1, 0, -1), (-1, 0, 0), (0, -1, -1), (0, -1, 0), (0, 0, 0)]

theorem sum_cases {u s : BitVec 64} (hu : -2 ^ n ≤ u.toInt ∧ u.toInt < 2 ^ n)
    (hv : -2 ^ n ≤ v.toInt ∧ v.toInt < 2 ^ n) (hs : s.toInt = u.toInt + v.toInt) :
    (s.toInt < -2 ^ n ∧ u.sshiftRight n = -1 ∧ v.sshiftRight n = -1 ∧ s.sshiftRight n = -2) ∨
    (2 ^ n ≤ s.toInt ∧ u.sshiftRight n = 0 ∧ v.sshiftRight n = 0 ∧ s.sshiftRight n = 1) ∨
    (-2 ^ n ≤ s.toInt ∧ s.toInt < 2 ^ n ∧ (u.sshiftRight n, v.sshiftRight n, s.sshiftRight n) ∈
    carries) := by
  have hsign : ∀ x : BitVec 64, -2 ^ n ≤ x.toInt → x.toInt < 2 ^ n →
      (x.toInt < 0 ∧ x.sshiftRight n = -1) ∨ (0 ≤ x.toInt ∧ x.sshiftRight n = 0) :=
      fun x hl hr => by
    rcases lt_or_ge x.toInt 0 with h | h
    · exact .inl ⟨h, sshiftRight_eq (-1) (by omega) (by omega)⟩
    · exact .inr ⟨h, sshiftRight_eq 0 (by omega) (by omega)⟩
  rcases lt_or_ge s.toInt (-2 ^ n) with hlow | hlow
  · have hs' : s.sshiftRight n = -2 := sshiftRight_eq (-2) (by omega) (by omega)
    have hu' : u.sshiftRight n = -1 := sshiftRight_eq (-1) (by omega) (by omega)
    have hv' : v.sshiftRight n = -1 := sshiftRight_eq (-1) (by omega) (by omega)
    exact .inl ⟨hlow, hu', hv', hs'⟩
  rcases lt_or_ge s.toInt (2 ^ n) with hhigh | hhigh
  · refine .inr (.inr ⟨hlow, hhigh, ?_⟩)
    -- the sum has the sign of the summands, or any sign if they differ
    rcases hsign u hu.1 hu.2 with ⟨h1, h1'⟩ | ⟨h1, h1'⟩ <;>
      rcases hsign v hv.1 hv.2 with ⟨h2, h2'⟩ | ⟨h2, h2'⟩ <;>
      rcases hsign s hlow hhigh with ⟨h3, h3'⟩ | ⟨h3, h3'⟩ <;>
        first | omega | (rw [h1', h2', h3']; decide)
  · have hs' : s.sshiftRight n = 1 := sshiftRight_eq 1 (by omega) (by omega)
    have hu' : u.sshiftRight n = 0 := sshiftRight_eq 0 (by omega) (by omega)
    have hv' : v.sshiftRight n = 0 := sshiftRight_eq 0 (by omega) (by omega)
    exact .inr (.inl ⟨hhigh, hu', hv', hs'⟩)

/-- The mask is a number below the highest bit unless exactly one of the sums leaves the width on
some side. -/
theorem mask_iff (n : Nat) (left left' right right' l r : BitVec 64)
    (hleft : -2 ^ n ≤ left.toInt ∧ left.toInt < 2 ^ n)
    (hleft' : -2 ^ n ≤ left'.toInt ∧ left'.toInt < 2 ^ n)
    (hright : -2 ^ n ≤ right.toInt ∧ right.toInt < 2 ^ n)
    (hright' : -2 ^ n ≤ right'.toInt ∧ right'.toInt < 2 ^ n)
    (hl : l.toInt = left.toInt + left'.toInt) (hr : r.toInt = right.toInt + right'.toInt)
    (hlr : l.toInt ≤ r.toInt) :
    (0 ≤ (mask left left' right right' l r).toInt ∧ (mask left left' right right' l r).toInt <
    2 ^ n) ↔
      (l.toInt < -2 ^ n ↔ r.toInt < -2 ^ n) ∧ (2 ^ n ≤ l.toInt ↔ 2 ^ n ≤ r.toInt) := by
  rw [← sshiftRight_eq_zero_iff, sshiftRight_mask]
  have hpos : (0 : Int) < 2 ^ n := by positivity
  have hnone : ∀ p ∈ carries, ∀ q ∈ carries, mask p.1 p.2.1 q.1 q.2.1 p.2.2 q.2.2 = 0#64 := by
    simp [carries, mask]
  have hunder : ∀ q ∈ carries, mask (-1) (-1) q.1 q.2.1 (-2) q.2.2 ≠ 0#64 := by simp [carries, mask]
  have hover : ∀ p ∈ carries, mask p.1 p.2.1 0 0 p.2.2 1 ≠ 0#64 := by simp [carries, mask]
  rcases sum_cases hleft hleft' hl with ⟨hsl, hp⟩ | ⟨hsl, hp⟩ | ⟨hsl, hsl', hp⟩
  · -- the left sum is too low
    rw [hp.1, hp.2.1, hp.2.2]
    rcases sum_cases hright hright' hr with ⟨hsr, hq⟩ | ⟨hsr, hq⟩ | ⟨hsr, hsr', hq⟩
    · rw [hq.1, hq.2.1, hq.2.2]
      exact iff_of_true (by simp [mask]) (by omega)
    · rw [hq.1, hq.2.1, hq.2.2]
      exact iff_of_false (by simp [mask]) (by omega)
    · have hne := hunder _ hq
      exact iff_of_false hne (by omega)
  · -- the left sum is too high, and the right one with it
    rcases sum_cases hright hright' hr with ⟨hsr, hq⟩ | ⟨hsr, hq⟩ | ⟨hsr, hsr', hq⟩
    · omega
    · rw [hp.1, hp.2.1, hp.2.2, hq.1, hq.2.1, hq.2.2]
      exact iff_of_true (by simp [mask]) (by omega)
    · omega
  · rcases sum_cases hright hright' hr with ⟨hsr, hq⟩ | ⟨hsr, hq⟩ | ⟨hsr, hsr', hq⟩
    · omega
    · rw [hq.1, hq.2.1, hq.2.2]
      have hne := hover _ hp
      exact iff_of_false hne (by omega)
    · have hzero := hnone _ hp _ hq
      exact iff_of_true hzero (by omega)

/-! ### Sums -/

/-- Both bounds of the sum lie below the numbers of `w` bits, or both above them. -/
def OverflowAlike (w : Nat) (a b : Interval) : Prop :=
  a.right.toInt + b.right.toInt < -2 ^ (w - 1) ∨ 2 ^ (w - 1) ≤ a.left.toInt + b.left.toInt

theorem Reduced.add_mem (ha : a.Reduced w) (hb : b.Reduced w) (hx : x ∈ a.points)
    (hy : y ∈ b.points) :
    a.left.toInt + b.left.toInt ≤ x + y ∧ x + y ≤ a.right.toInt + b.right.toInt ∧
      (Int.gcd a.stride.toInt b.stride.toInt : Int) ∣ x + y - (a.left.toInt + b.left.toInt) := by
  obtain ⟨hxl, hxr, hxs⟩ := ha.mem_points.1 hx
  obtain ⟨hyl, hyr, hys⟩ := hb.mem_points.1 hy
  refine ⟨by omega, by omega, ?_⟩
  rw [add_sub_add_comm]
  exact dvd_add ((Int.gcd_dvd_left _ _).trans hxs) ((Int.gcd_dvd_right _ _).trans hys)

section

variable (hw : w = 8 ∨ w = 16 ∨ w = 32)

include hw

theorem bmod_mem (z : Int) : -2 ^ (w - 1) ≤ z.bmod (2 ^ w) ∧ z.bmod (2 ^ w) < 2 ^ (w - 1) := by
  have hpos : 0 < 2 ^ w := by positivity
  have hle := Int.le_bmod (x := z) hpos
  have hlt := Int.bmod_lt (x := z) hpos
  rcases hw with rfl | rfl | rfl <;> norm_num at hle hlt ⊢ <;> omega

theorem bmod_eq_self {z : Int} (hl : -2 ^ (w - 1) ≤ z) (hr : z < 2 ^ (w - 1)) :
    z.bmod (2 ^ w) = z := by
  apply Int.bmod_eq_of_le <;> rcases hw with rfl | rfl | rfl <;> norm_num at hl hr ⊢ <;> omega

variable (ha : a.Reduced w) (hb : b.Reduced w) (hga : a.region = .global) (hgb : b.region = .global)

include ha hb hga hgb

theorem plus_eq : ∃ l r s : Int64, l.toInt = a.left.toInt + b.left.toInt ∧
    r.toInt = a.right.toInt + b.right.toInt ∧
      s.toInt = Int.gcd a.stride.toInt b.stride.toInt ∧
      a.plus b = if (l.toInt < -2 ^ (w - 1) ↔ r.toInt < -2 ^ (w - 1)) ∧
      (2 ^ (w - 1) ≤ l.toInt ↔ 2 ^ (w - 1) ≤ r.toInt)
        then make .global l r s w else top w := by
  have hpow := pow_le_of_width hw
  have ⟨_, hal, har, hale, _, _⟩ := ha
  have ⟨_, hbl, hbr, hble, _, _⟩ := hb
  have hl : (a.left + b.left).toInt = a.left.toInt + b.left.toInt := by
    rw [toInt_add]
    exact Int.bmod_eq_of_le (by omega) (by omega)
  have hr : (a.right + b.right).toInt = a.right.toInt + b.right.toInt := by
    rw [toInt_add]
    exact Int.bmod_eq_of_le (by omega) (by omega)
  refine ⟨_, _, _, hl, hr, toInt_gcdStride ha.stride_nonneg hb.stride_nonneg, ?_⟩
  obtain ⟨t, htop, -, -, htr, -⟩ := top_spec hw
  have hmask := mask_iff (w - 1) a.left.toBitVec b.left.toBitVec a.right.toBitVec b.right.toBitVec
    (a.left + b.left).toBitVec (a.right + b.right).toBitVec (by simp; omega) (by simp; omega)
    (by simp; omega)
    (by simp; omega)
    (by simpa only [toInt_toBitVec] using hl) (by simpa only [toInt_toBitVec] using hr)
    (by simp only [toInt_toBitVec]; omega)
  simp only [toInt_toBitVec] at hmask
  set m := mask a.left.toBitVec b.left.toBitVec a.right.toBitVec b.right.toBitVec
    (a.left + b.left).toBitVec
    (a.right + b.right).toBitVec
  have hplus : a.plus b = if ofBitVec m < 0 ∨ ofBitVec m > t.right then .ok t
      else make .global (a.left + b.left) (a.right + b.right) (gcdStride a.stride b.stride) w := by
    have hjoin : Region.global.join .global = .global := rfl
    simp only [plus, ha.width_eq, hb.width_eq, hga, hgb, htop, hjoin, ne_eq, not_true_eq_false,
      reduceCtorEq, if_false, bind, Except.bind]
    rfl
  have hin : ¬(ofBitVec m < 0 ∨ ofBitVec m > t.right) ↔ 0 ≤ m.toInt ∧ m.toInt < 2 ^ (w - 1) := by
    rw [lt_iff_toInt_lt, gt_iff_lt, lt_iff_toInt_lt, htr, toInt_ofBitVec, toInt_zero]
    omega
  rw [hplus, htop, ← ite_not]
  simp only [hin, hmask]

theorem plus_of_alike (halike : OverflowAlike w a b) :
    ∃ c, a.plus b = .ok c ∧ c.left.toInt = a.left.toInt + b.left.toInt ∧
      c.right.toInt = a.right.toInt + b.right.toInt ∧ 0 ≤ c.stride.toInt := by
  obtain ⟨l, r, s, hl, hr, hs, hplus⟩ := plus_eq hw ha hb hga hgb
  obtain ⟨-, hle, hdvd⟩ := ha.add_mem hb ha.right_mem hb.right_mem
  have hpow := pow_le_of_width hw
  have ⟨_, hal, har, hale, _, _⟩ := ha
  have ⟨_, hbl, hbr, hble, _, _⟩ := hb
  have hcond : (l.toInt < -2 ^ (w - 1) ↔ r.toInt < -2 ^ (w - 1)) ∧
    (2 ^ (w - 1) ≤ l.toInt ↔ 2 ^ (w - 1) ≤ r.toInt) := by
    rcases halike with h | h
    · omega
    · omega
  rw [if_pos hcond, make_eq .global w (by omega) (by omega) (by rwa [hs, hl, hr])] at hplus
  refine ⟨_, hplus, hl, hr, ?_⟩
  dsimp only
  split
  · exact le_rfl
  · exact hs ▸ Int.natCast_nonneg _

theorem plus_of_not_alike (halike : ¬OverflowAlike w a b) :
    ∃ c, a.plus b = .ok c ∧ c.Reduced w ∧ ∀ x ∈ a.points, ∀ y ∈ b.points,
    (x + y).bmod (2 ^ w) ∈ c.points := by
  obtain ⟨l, r, s, hl, hr, hs, hplus⟩ := plus_eq hw ha hb hga hgb
  obtain ⟨-, hle, hdvd⟩ := ha.add_mem hb ha.right_mem hb.right_mem
  have hpow := pow_le_of_width hw
  have hale := ha.left_le
  have hble := hb.left_le
  rw [OverflowAlike, not_or, not_lt, not_le] at halike
  split at hplus
  · -- neither bound overflows, so no sum does
    obtain ⟨c, hc, -, hreduced, hmem⟩ := make_spec (w := w) .global (l := l) (r := r) (s := s)
      (by omega) (by omega)
      (by omega) (by omega) (by omega) (by rwa [hs, hl, hr])
    refine ⟨c, hplus.trans hc, hreduced, fun x hx y hy => ?_⟩
    obtain ⟨hxyl, hxyr, hxys⟩ := ha.add_mem hb hx hy
    rw [bmod_eq_self hw (by omega) (by omega), hmem, hl, hr, hs]
    exact ⟨hxyl, hxyr, hxys⟩
  · obtain ⟨t, htop, hreduced, -, -, hmem⟩ := top_spec hw
    exact ⟨t, hplus.trans htop, hreduced, fun x _ y _ => (hmem _).2 (bmod_mem hw _)⟩

end

/-- **Sums of intervals.** On numbers of 8, 16 or 32 bits the sum never fails. Its bounds are
numbers of the width in order, and it has the sum modulo `2 ^ w` of every two members, exactly if
the bounds do not overflow alike; if they do, it has the sum of no two members. -/
theorem plus_sound_iff (hw : w = 8 ∨ w = 16 ∨ w = 32) (ha : a.Reduced w) (hb : b.Reduced w)
    (hga : a.region = .global) (hgb : b.region = .global) :
    ∃ c, a.plus b = .ok c ∧
      ((c.Reduced w ∧ ∀ x ∈ a.points, ∀ y ∈ b.points, (x + y).bmod (2 ^ w) ∈ c.points) ↔
      ¬OverflowAlike w a b) ∧
      (OverflowAlike w a b → ∀ x ∈ a.points, ∀ y ∈ b.points, (x + y).bmod (2 ^ w) ∉ c.points) := by
  by_cases halike : OverflowAlike w a b
  · obtain ⟨c, hc, hl, hr, hs⟩ := plus_of_alike hw ha hb hga hgb halike
    have hale := ha.left_le
    have hble := hb.left_le
    refine ⟨c, hc, iff_of_false (fun h => ?_) (not_not.2 halike), fun _ x _ y _ hmem => ?_⟩
    · have hge := h.1.left_ge
      have hlt := h.1.right_lt
      unfold OverflowAlike at halike
      omega
    · -- all offsets lie between the bounds, on one side of all numbers of the width
      obtain ⟨hl', hr'⟩ := bounds_of_mem hs (by omega) hmem
      obtain ⟨hge, hlt⟩ := bmod_mem hw (x + y)
      unfold OverflowAlike at halike
      omega
  · obtain ⟨c, hc, hreduced, hsound⟩ := plus_of_not_alike hw ha hb hga hgb halike
    exact ⟨c, hc, iff_of_true ⟨hreduced, hsound⟩ halike, fun h => absurd h halike⟩

/-- The offsets `-8, -4, 0, 4` and `100, 102`: no bound overflows, and the common stride is two. -/
theorem plus_of_strides :
    let a : Interval := ⟨.global, -8, 4, 4, 8⟩
    let b : Interval := ⟨.global, 100, 102, 2, 8⟩
    a.plus b = .ok ⟨.global, 92, 106, 2, 8⟩ ∧
      ∃ c, a.plus b = .ok c ∧ ∀ x ∈ a.points, ∀ y ∈ b.points, (x + y).bmod (2 ^ 8) ∈ c.points := by
  intro a b
  have ha : a.Reduced 8 := ⟨rfl, by decide, by decide, by decide, by decide, 3, by decide⟩
  have hb : b.Reduced 8 := ⟨rfl, by decide, by decide, by decide, by decide, 1, by decide⟩
  obtain ⟨c, hc, hiff, -⟩ := plus_sound_iff (by decide) ha hb rfl rfl
  exact ⟨by decide +kernel, c, hc, (hiff.2 (by unfold OverflowAlike; decide)).2⟩

/-- The number `-100` twice: the sum is kept as `-200`, but modulo `256` it is `56`. -/
theorem plus_kept_below :
    let a : Interval := ⟨.global, -100, -100, 0, 8⟩
    a.Reduced 8 ∧ a.plus a = .ok ⟨.global, -200, -200, 0, 8⟩ ∧ (-100 : Int) ∈ a.points ∧
      (-100 + -100 : Int).bmod (2 ^ 8) = 56 ∧
      (56 : Int) ∉ (⟨.global, -200, -200, 0, 8⟩ : Interval).points := by
  intro a
  have ha : a.Reduced 8 := ⟨rfl, by decide, by decide, by decide, by decide, 0, by decide⟩
  refine ⟨ha, by decide +kernel, ha.left_mem, by decide, fun h => ?_⟩
  exact absurd (bounds_of_mem (by decide) (by decide) h) (by decide)

/-! ### Products -/

theorem mul_mem_corners {l r l' r' : Int} (hx : l ≤ x ∧ x ≤ r) (hy : l' ≤ y ∧ y ≤ r') :
    min (min (l * l') (l * r')) (min (r * l') (r * r')) ≤ x * y ∧
      x * y ≤ max (max (l * l') (l * r')) (max (r * l') (r * r')) := by
  -- first `x` goes to one of its bounds, then `y`
  have hone : ∀ {l r x : Int} (y : Int), l ≤ x ∧ x ≤ r → min (l * y) (r * y) ≤ x * y ∧
    x * y ≤ max (l * y) (r * y) := by
    intro l r x y hx
    rcases le_total 0 y with h | h
    · exact ⟨min_le_of_left_le (mul_le_mul_of_nonneg_right hx.1 h),
        le_max_of_le_right (mul_le_mul_of_nonneg_right hx.2 h)⟩
    · exact ⟨min_le_of_right_le (mul_le_mul_of_nonpos_right hx.2 h),
        le_max_of_le_left (mul_le_mul_of_nonpos_right hx.1 h)⟩
  have hx' := hone y hx
  have hl := hone l hy
  have hr := hone r hy
  rw [mul_comm l', mul_comm r', mul_comm y] at hl hr
  omega

theorem mul_bounds {h : Int} (hx : -h ≤ x ∧ x < h) (hy : -h ≤ y ∧ y < h) :
    -(h * h) + h ≤ x * y ∧ x * y ≤ h * h := by
  have hx' : -h ≤ x ∧ x ≤ h - 1 := by omega
  have hy' : -h ≤ y ∧ y ≤ h - 1 := by omega
  have hcorners := mul_mem_corners hx' hy'
  rw [show -h * -h = h * h by ring, show -h * (h - 1) = -(h * h) + h by ring, show (h - 1) * -h =
    -(h * h) + h by ring, show (h - 1) * (h - 1) = h * h - 2 * h + 1 by ring] at hcorners
  have hsq : h ≤ h * h := le_mul_of_one_le_left (by omega) (by omega)
  have hlast : -(h * h) + h ≤ h * h - 2 * h + 1 := by nlinarith
  exact ⟨(le_min (le_min (by omega) le_rfl) (le_min le_rfl hlast)).trans hcorners.1,
    hcorners.2.trans (max_le (max_le le_rfl (by omega)) (max_le (by omega) (by omega)))⟩

theorem toInt_mul_of_small {u v : Int64} (hl : -2 ^ 63 ≤ u.toInt * v.toInt)
    (hr : u.toInt * v.toInt < 2 ^ 63) : (u * v).toInt = u.toInt * v.toInt := by
  rw [toInt_mul]
  exact Int.bmod_eq_of_le (by omega) (by omega)

theorem pow_mul_pow_of_width (hw : w = 8 ∨ w = 16 ∨ w = 32) :
    (2 : Int) ^ (w - 1) * 2 ^ (w - 1) * 2 = 2 ^ (2 * w - 1) ∧ (2 : Int) ^ (w - 1) * 2 ^ (w - 1) ≤
    2 ^ 62 ∧
      (128 : Int) ≤ 2 ^ (w - 1) := by
  rcases hw with rfl | rfl | rfl <;> norm_num

def products (a b : Interval) : Set Int := Set.image2 (· * ·) a.points b.points

theorem Reduced.mem_bounds (ha : a.Reduced w) (hx : x ∈ a.points) :
    -2 ^ (w - 1) ≤ x ∧ x < 2 ^ (w - 1) := by
  obtain ⟨hl, hr, -⟩ := ha.mem_points.1 hx
  exact ⟨ha.left_ge.trans hl, hr.trans_lt ha.right_lt⟩

/-- Two products of members of a factor that is a single number, or of multiples of the strides, are
whole strides of the product apart. -/
def Aligned (a b : Interval) : Prop :=
  a.stride = 0 ∨ b.stride = 0 ∨ (a.stride.toInt ∣ a.left.toInt ∧ b.stride.toInt ∣ b.left.toInt)

theorem eq_left_of_mem (hs : a.stride = 0) (hx : x ∈ a.points) : x = a.left.toInt := by
  obtain ⟨k, -, rfl⟩ := hx
  simp [hs]

theorem Reduced.stride_dvd_sub (ha : a.Reduced w) (hx : x ∈ a.points) (hy : y ∈ a.points) :
    a.stride.toInt ∣ x - y := by
  rw [← sub_sub_sub_cancel_right x y a.left.toInt]
  exact dvd_sub (ha.mem_points.1 hx).2.2 (ha.mem_points.1 hy).2.2

theorem Reduced.stride_lt (ha : a.Reduced w) : a.stride.toInt < 2 * 2 ^ (w - 1) := by
  have ⟨_, hge, hlt, hle, _, _⟩ := ha
  have hpos : (0 : Int) < 2 ^ (w - 1) := by positivity
  rcases hle.eq_or_lt with h | h
  · simp [ha.stride_eq_zero.2 (toInt_inj.1 h)]
  · have := Int.le_of_dvd (by omega) ha.stride_dvd
    omega

theorem Reduced.stride_le (ha : a.Reduced w) (hdvd : a.stride.toInt ∣ a.left.toInt) :
    a.stride.toInt ≤ 2 ^ (w - 1) := by
  have ⟨_, hge, hlt, hle, _, _⟩ := ha
  by_contra! hgt
  have hright : a.stride.toInt ∣ a.right.toInt := by
    rw [← sub_add_cancel a.right.toInt a.left.toInt]
    exact dvd_add ha.stride_dvd hdvd
  have hl0 : a.left.toInt = 0 := Int.eq_zero_of_abs_lt_dvd hdvd (abs_lt.2 ⟨by omega, by omega⟩)
  have hr0 : a.right.toInt = 0 := Int.eq_zero_of_abs_lt_dvd hright (abs_lt.2 ⟨by omega, by omega⟩)
  have hs : a.stride = 0 := ha.stride_eq_zero.2 (toInt_inj.1 (hl0.trans hr0.symm))
  rw [hs] at hgt
  exact absurd hgt (not_lt.2 (by positivity))

theorem dvd_of_single (hb : b.Reduced w) (h : a.stride = 0) :
    ∀ z ∈ products a b, ∀ z' ∈ products a b, |a.left.toInt| * b.stride.toInt ∣ z - z' := by
  rintro _ ⟨x, hx, y, hy, rfl⟩ _ ⟨x', hx', y', hy', rfl⟩
  dsimp only
  rw [eq_left_of_mem h hx, eq_left_of_mem h hx', ← mul_sub]
  exact mul_dvd_mul (abs_dvd_self _) (hb.stride_dvd_sub hy hy')

theorem dvd_sub_of_mem {g : Int} (hg : a.stride.toInt ≤ 0 ∨ g ∣ a.stride.toInt)
    (hle : a.left.toInt ≤ a.right.toInt) (hx : x ∈ a.points) (hy : y ∈ a.points) : g ∣ x - y := by
  obtain ⟨k, hk, rfl⟩ := hx
  obtain ⟨j, hj, rfl⟩ := hy
  rcases hg with h | h
  · have hquot : (a.right.toInt - a.left.toInt) / a.stride.toInt ≤ 0 :=
      Int.ediv_nonpos_of_nonneg_of_nonpos (by omega) h
    obtain rfl : k = 0 := by omega
    obtain rfl : j = 0 := by omega
    simp
  · have : a.left.toInt + k * a.stride.toInt - (a.left.toInt + j * a.stride.toInt) =
      (k - j) * a.stride.toInt := by ring
    rw [this]
    exact dvd_mul_of_dvd_right h _

theorem eq_of_make {region : Region} {l r s : Int64} {width : Int}
    (h : make region l r s width = .ok c) :
    c = ⟨region, l, r, if r - l = 0 then 0 else s, width⟩ := by
  unfold make at h
  split at h
  · cases h
  split at h
  · cases h
  · exact (Except.ok.inj h).symm

section

variable (hw : w = 8 ∨ w = 16 ∨ w = 32)

include hw

theorem toInt_mul_of_lt {u v : Int64} (hu : 0 ≤ u.toInt ∧ u.toInt ≤ 2 ^ (w - 1))
    (hv : 0 ≤ v.toInt ∧ v.toInt < 2 * 2 ^ (w - 1)) : (u * v).toInt = u.toInt * v.toInt := by
  obtain ⟨-, hsq, hlarge⟩ := pow_mul_pow_of_width hw
  have hpos : 0 ≤ u.toInt * v.toInt := mul_nonneg hu.1 hv.1
  have hlt : u.toInt * v.toInt < 2 ^ (w - 1) * (2 * 2 ^ (w - 1)) :=
    calc u.toInt * v.toInt ≤ 2 ^ (w - 1) * v.toInt := mul_le_mul_of_nonneg_right hu.2 hv.1
      _ < 2 ^ (w - 1) * (2 * 2 ^ (w - 1)) := mul_lt_mul_of_pos_left hv.2 (by positivity)
  exact toInt_mul_of_small (by omega) (by linarith)

theorem Reduced.toInt_abs_left (ha : a.Reduced w) :
    (abs a.left).toInt = |a.left.toInt| ∧ |a.left.toInt| ≤ 2 ^ (w - 1) := by
  have hpow := pow_le_of_width hw
  have hge := ha.left_ge
  have hlt := ha.left_le.trans_lt ha.right_lt
  exact ⟨toInt_abs (by omega), abs_le.2 ⟨by omega, by omega⟩⟩

variable (ha : a.Reduced w) (hb : b.Reduced w)

include ha hb

theorem toInt_abs_mul_stride : (abs a.left * b.stride).toInt = |a.left.toInt| * b.stride.toInt := by
  obtain ⟨habs, hle⟩ := ha.toInt_abs_left hw
  rw [toInt_mul_of_lt hw ⟨by rw [habs]; exact abs_nonneg _, by rwa [habs]⟩
    ⟨hb.stride_nonneg, hb.stride_lt⟩, habs]

theorem timesStride_of_aligned (hab : Aligned a b) : ∃ s, timesStride a b = .ok s ∧ 0 ≤ s.toInt ∧
      ∀ z ∈ products a b, ∀ z' ∈ products a b, s.toInt ∣ z - z' := by
  have hsa := ha.stride_nonneg
  have hsb := hb.stride_nonneg
  by_cases h0 : a.stride = 0
  · have hdvd := dvd_of_single hb h0
    by_cases h0' : b.stride = 0
    · refine ⟨0, by rw [timesStride, if_pos h0, if_pos h0'], le_rfl, ?_⟩
      simpa [h0'] using hdvd
    · have hs := toInt_abs_mul_stride hw ha hb
      rw [Int64.mul_comm] at hs
      refine ⟨_, by rw [timesStride, if_pos h0, if_neg h0', if_pos (ha.stride_eq_zero.1 h0)],
        ?_, ?_⟩
      · rw [hs]
        positivity
      · rwa [hs]
  · by_cases h0' : b.stride = 0
    · have hs := toInt_abs_mul_stride hw hb ha
      have hdvd := dvd_of_single ha h0'
      refine ⟨_, by rw [timesStride, if_neg h0, if_pos h0', if_pos (hb.stride_eq_zero.1 h0')],
        ?_, ?_⟩
      · rw [hs]
        positivity
      · rwa [hs, products, Set.image2_comm mul_comm]
    · obtain ⟨hla, hlb⟩ := (hab.resolve_left h0).resolve_left h0'
      have hs : (a.stride * b.stride).toInt = a.stride.toInt * b.stride.toInt :=
        toInt_mul_of_lt hw ⟨hsa, ha.stride_le hla⟩ ⟨hsb, hb.stride_lt⟩
      -- all members are multiples of the strides
      have hmul {c : Interval} (hc : c.Reduced w) (hl : c.stride.toInt ∣ c.left.toInt) {x : Int}
        (hx : x ∈ c.points) :
          c.stride.toInt ∣ x := by
        rw [← sub_add_cancel x c.left.toInt]
        exact dvd_add (hc.mem_points.1 hx).2.2 hl
      refine ⟨_, by rw [timesStride, if_neg h0, if_neg h0'], ?_, ?_⟩
      · rw [hs]
        positivity
      · rintro _ ⟨x, hx, y, hy, rfl⟩ _ ⟨x', hx', y', hy', rfl⟩
        rw [hs]
        exact dvd_sub (mul_dvd_mul (hmul ha hla hx) (hmul hb hlb hy))
          (mul_dvd_mul (hmul ha hla hx') (hmul hb hlb hy'))

theorem toInt_mul_stride :
    (a.stride * b.stride).toInt ≤ 0 ∨ (a.stride * b.stride).toInt =
    a.stride.toInt * b.stride.toInt := by
  obtain ⟨-, hsq, -⟩ := pow_mul_pow_of_width hw
  have hpos : 0 ≤ a.stride.toInt * b.stride.toInt := mul_nonneg ha.stride_nonneg hb.stride_nonneg
  have hlt : a.stride.toInt * b.stride.toInt ≤ 2 * 2 ^ (w - 1) * (2 * 2 ^ (w - 1)) :=
    mul_le_mul ha.stride_lt.le hb.stride_lt.le hb.stride_nonneg (by positivity)
  have hle : a.stride.toInt * b.stride.toInt ≤ 2 ^ 64 := by linarith
  rw [toInt_mul]
  generalize a.stride.toInt * b.stride.toInt = p at hpos hle
  rcases lt_or_ge p (2 ^ 63) with h | h
  · exact .inr (Int.bmod_eq_of_le (by omega) (by omega))
  · left
    rw [← Int.sub_mul_bmod_self_right p 1, Int.bmod_eq_of_le (by omega) (by omega)]
    omega

variable (hga : a.region = .global) (hgb : b.region = .global)

include hga hgb

/-- `times` on numbers: the bounds are the least and the greatest product of members, and the
largest interval is never needed. -/
theorem times_eq : ∃ l r : Int64, l.toInt ∈ products a b ∧ r.toInt ∈ products a b ∧
      (∀ z ∈ products a b, l.toInt ≤ z ∧ z ≤ r.toInt) ∧
      -2 ^ (2 * w - 1) ≤ l.toInt ∧ r.toInt < 2 ^ (2 * w - 1) ∧ r.toInt - l.toInt < 2 ^ 63 ∧
      a.times b = (timesStride a b).bind fun s => make .global l r s (2 * w : Nat) := by
  obtain ⟨hpow, hsq, hlarge⟩ := pow_mul_pow_of_width hw
  have hbounds : ∀ z ∈ products a b, -(2 ^ (w - 1) * 2 ^ (w - 1)) + 2 ^ (w - 1) ≤ z ∧
    z ≤ 2 ^ (w - 1) * 2 ^ (w - 1) := by
    rintro _ ⟨x, hx, y, hy, rfl⟩
    exact mul_bounds (ha.mem_bounds hx) (hb.mem_bounds hy)
  have hcorner {u v : Int64} (hu : u.toInt ∈ a.points) (hv : v.toInt ∈ b.points) :
      (u * v).toInt = u.toInt * v.toInt ∧ (u * v).toInt ∈ products a b := by
    have hmem : u.toInt * v.toInt ∈ products a b := ⟨_, hu, _, hv, rfl⟩
    have hsmall := hbounds _ hmem
    have hmul : (u * v).toInt = u.toInt * v.toInt := toInt_mul_of_small (by omega) (by omega)
    exact ⟨hmul, hmul ▸ hmem⟩
  obtain ⟨hll, hll'⟩ := hcorner ha.left_mem hb.left_mem
  obtain ⟨hlr, hlr'⟩ := hcorner ha.left_mem hb.right_mem
  obtain ⟨hrl, hrl'⟩ := hcorner ha.right_mem hb.left_mem
  obtain ⟨hrr, hrr'⟩ := hcorner ha.right_mem hb.right_mem
  set l := min (min (a.left * b.left) (a.left * b.right))
    (min (a.right * b.left) (a.right * b.right)) with hldef
  set r := max (max (a.left * b.left) (a.left * b.right))
    (max (a.right * b.left) (a.right * b.right)) with hrdef
  have hmin : l.toInt ∈ products a b := by
    rw [hldef, toInt_min, toInt_min, toInt_min]
    exact min_rec' _ (min_rec' _ hll' hlr') (min_rec' _ hrl' hrr')
  have hmax : r.toInt ∈ products a b := by
    rw [hrdef, toInt_max, toInt_max, toInt_max]
    exact max_rec' _ (max_rec' _ hll' hlr') (max_rec' _ hrl' hrr')
  have hbetween : ∀ z ∈ products a b, l.toInt ≤ z ∧ z ≤ r.toInt := by
    rintro _ ⟨x, hx, y, hy, rfl⟩
    obtain ⟨hxl, hxr, -⟩ := ha.mem_points.1 hx
    obtain ⟨hyl, hyr, -⟩ := hb.mem_points.1 hy
    rw [hldef, hrdef, toInt_min, toInt_min, toInt_min, toInt_max, toInt_max, toInt_max, hll, hlr,
      hrl, hrr]
    exact mul_mem_corners ⟨hxl, hxr⟩ ⟨hyl, hyr⟩
  obtain ⟨t, htop, htl, htr⟩ : ∃ t, top (2 * w : Nat) = .ok t ∧ t.left.toInt = -2 ^ (2 * w - 1) ∧
      t.right.toInt = 2 ^ (2 * w - 1) - 1 := by
    rcases hw with rfl | rfl | rfl <;> exact ⟨_, rfl, rfl, rfl⟩
  have hlow := hbounds _ hmin
  have hhigh := hbounds _ hmax
  refine ⟨l, r, hmin, hmax, hbetween, by omega, by omega, by omega, ?_⟩
  have hwidth : wrap32 (a.width * 2) = (2 * w : Nat) := by
    rw [ha.width_eq]
    rcases hw with rfl | rfl | rfl <;> rfl
  have hjoin : Region.global.join .global = .global := rfl
  simp only [times, hwidth, htop, hga, hgb, hjoin, ne_eq, not_true_eq_false, if_false, bind,
    Except.bind]
  rw [if_neg]
  rw [le_iff_toInt_le, ge_iff_le, le_iff_toInt_le, htl, htr]
  change ¬(l.toInt ≤ _ ∨ _ ≤ r.toInt)
  omega

theorem times_of_aligned (hab : Aligned a b) :
    ∃ c, a.times b = .ok c ∧ c.width = 2 * w ∧ ∀ x ∈ a.points, ∀ y ∈ b.points,
    x * y ∈ c.points := by
  obtain ⟨l, r, hl, hr, hbetween, hlow, hhigh, hsmall, htimes⟩ := times_eq hw ha hb hga hgb
  obtain ⟨s, hs, hs0, hdvd⟩ := timesStride_of_aligned hw ha hb hab
  obtain ⟨c, hc, -, hreduced, hmem⟩ := make_spec (w := 2 * w) .global hlow hhigh (hbetween _ hr).1
    hsmall hs0
    (hdvd _ hr _ hl)
  refine ⟨c, by rw [htimes, hs]; exact hc, by rw [hreduced.width_eq]; push_cast; rfl,
    fun x hx y hy => ?_⟩
  have hxy : x * y ∈ products a b := ⟨x, hx, y, hy, rfl⟩
  obtain ⟨hge, hle⟩ := hbetween _ hxy
  exact (hmem _).2 ⟨hge, hle, hdvd _ hxy _ hl⟩

theorem aligned_of_times (hc : a.times b = .ok c)
    (hsound : ∀ x ∈ a.points, ∀ y ∈ b.points, x * y ∈ c.points) : Aligned a b := by
  by_cases h0 : a.stride = 0
  · exact .inl h0
  by_cases h0' : b.stride = 0
  · exact .inr (.inl h0')
  obtain ⟨l, r, -, hr, hbetween, -, -, -, htimes⟩ := times_eq hw ha hb hga hgb
  have hstride : timesStride a b = .ok (a.stride * b.stride) := by
    rw [timesStride, if_neg h0, if_neg h0']
  rw [htimes, hstride] at hc
  obtain rfl := eq_of_make hc
  -- products of members are multiples of the product of the strides apart
  have hdvd : ∀ x ∈ a.points, ∀ y ∈ b.points, ∀ x' ∈ a.points, ∀ y' ∈ b.points,
      a.stride.toInt * b.stride.toInt ∣ x * y - x' * y' := by
    intro x hx y hy x' hx' y' hy'
    refine dvd_sub_of_mem ?_ (hbetween _ hr).1 (hsound x hx y hy) (hsound x' hx' y' hy')
    dsimp only
    split
    · exact .inl le_rfl
    · exact (toInt_mul_stride hw ha hb).imp_right fun h => by rw [h]
  refine .inr (.inr ⟨?_, ?_⟩)
  · have hnext := hdvd _ ha.left_mem _ (hb.next_mem h0') _ ha.left_mem _ hb.left_mem
    rw [← mul_sub, add_sub_cancel_left] at hnext
    exact Int.dvd_of_mul_dvd_mul_right (toInt_eq_zero.not.2 h0') hnext
  · have hnext := hdvd _ (ha.next_mem h0) _ hb.left_mem _ ha.left_mem _ hb.left_mem
    rw [← sub_mul, add_sub_cancel_left] at hnext
    exact Int.dvd_of_mul_dvd_mul_left (toInt_eq_zero.not.2 h0) hnext

end

/-- **Products of intervals.** On numbers of 8, 16 or 32 bits the product ends without a fault, in
an interval of twice the width that has the products of all members, exactly if the factors are
aligned. -/
theorem times_sound_iff (hw : w = 8 ∨ w = 16 ∨ w = 32) (ha : a.Reduced w) (hb : b.Reduced w)
    (hga : a.region = .global) (hgb : b.region = .global) :
    (∃ c, a.times b = .ok c ∧ c.width = 2 * w ∧ ∀ x ∈ a.points, ∀ y ∈ b.points, x * y ∈ c.points) ↔
    Aligned a b := by
  constructor
  · rintro ⟨c, hc, -, hsound⟩
    exact aligned_of_times hw ha hb hga hgb hc hsound
  · exact times_of_aligned hw ha hb hga hgb

/-- The multiples `-4, 0, 4` of four and `6, 9` of three: products are multiples of twelve. -/
theorem times_of_multiples :
    let a : Interval := ⟨.global, -4, 4, 4, 16⟩
    let b : Interval := ⟨.global, 6, 9, 3, 16⟩
    a.times b = .ok ⟨.global, -36, 36, 12, 32⟩ ∧
      ∃ c, a.times b = .ok c ∧ ∀ x ∈ a.points, ∀ y ∈ b.points, x * y ∈ c.points := by
  intro a b
  have ha : a.Reduced 16 := ⟨rfl, by decide, by decide, by decide, by decide, 2, by decide⟩
  have hb : b.Reduced 16 := ⟨rfl, by decide, by decide, by decide, by decide, 1, by decide⟩
  obtain ⟨c, hc, -, hsound⟩ :=
    (times_sound_iff (by decide) ha hb rfl rfl).2 (.inr (.inr (by decide)))
  exact ⟨by decide +kernel, c, hc, hsound⟩

/-- The offsets `1, 3` twice: the product has stride four, and `3` is not in it. The offsets `1, 4`
and `1, 3`: six strides do not fit the bounds `1` and `12`, and the product fails. -/
theorem times_of_odd_offsets :
    let a : Interval := ⟨.global, 1, 3, 2, 8⟩
    let b : Interval := ⟨.global, 1, 4, 3, 8⟩
    a.Reduced 8 ∧ b.Reduced 8 ∧ (1 : Int) ∈ a.points ∧ (3 : Int) ∈ a.points ∧
      a.times a = .ok ⟨.global, 1, 9, 4, 16⟩ ∧
      (1 * 3 : Int) ∉ (⟨.global, 1, 9, 4, 16⟩ : Interval).points ∧
      b.times a = .error (.violated
      (some "Stride 6 does not fit with interval bounds: 1;12!")) := by
  intro a b
  have ha : a.Reduced 8 := ⟨rfl, by decide, by decide, by decide, by decide, 1, by decide⟩
  have hb : b.Reduced 8 := ⟨rfl, by decide, by decide, by decide, by decide, 1, by decide⟩
  refine ⟨ha, hb, ha.left_mem, ha.right_mem, by decide +kernel, ?_, by decide +kernel⟩
  rintro ⟨k, hk, h⟩
  simp at h
  omega

end Interval

end FlowRecovery
