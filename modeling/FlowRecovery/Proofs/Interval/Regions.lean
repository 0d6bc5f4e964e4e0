import FlowRecovery.Domain.State
import FlowRecovery.Proofs.Interval.Order
import FlowRecovery.Proofs.Memory.Reading

/-!
# Intervals in different regions

An offset says nothing without the region that it is counted from. Two operations on intervals
forget this:

* `lessOrEqual` compares offsets only, so it may put an interval of one region below one of another
  (`represents_of_lessOrEqual`);
* the test for equality takes every two single offsets outside global memory for the same number,
  and a single offset there for another number than any in global memory
  (`eval_equal_misjudges_iff`). Where regions lie decides whether this is so; for all other values
  the test is sound.
-/

namespace FlowRecovery

open Word

def Num.truth (p : Prop) [Decidable p] : Num := if p then .tt else .ff

namespace Interval

variable {w : Nat} {a b : Interval} {β : Region → BitVec 32} {u v : BitVec 32}

/-! ### The order -/

/-- The interval is the largest one, or of the region and contains the offset. -/
def Represents (a : Interval) (r : Region) (n : Int) : Prop := a.isTop = .ok true ∨ a.region = r ∧ n ∈ a.points

/-- **The order and regions.** `lessOrEqual` is inclusion of the sets of offsets, whatever the
regions are. So what lies below an interval is represented by it exactly if this is of the same
region, or the largest of all. -/
theorem represents_of_lessOrEqual (hw : w = 8 ∨ w = 16 ∨ w = 32) (ha : a.Reduced w) (hb : b.Reduced w) :
    ∃ answer, a.lessOrEqual b = .ok answer ∧ (answer = true ↔ a.points ⊆ b.points) ∧
      (answer = true →
        ((∀ n ∈ a.points, b.Represents a.region n) ↔ b.isTop = .ok true ∨ b.region = a.region)) := by
  obtain ⟨answer, hanswer, hiff⟩ := lessOrEqual_spec hw ha hb
  refine ⟨answer, hanswer, hiff, fun htrue => ⟨fun h => ?_, ?_⟩⟩
  · exact (h _ ha.left_mem).imp_right And.left
  · rintro (htop | hregion) n hn
    · exact .inl htop
    · exact .inr ⟨hregion, hiff.mp htrue hn⟩

/-- A multiple of four on the stack is a multiple of two on the stack. -/
theorem represents_below_on_stack :
    let a : Interval := ⟨.stack, 4, 12, 4, 32⟩
    let b : Interval := ⟨.stack, 0, 16, 2, 32⟩
    a.lessOrEqual b = .ok true ∧ ∀ n ∈ a.points, b.Represents .stack n := by
  intro a b
  have ha : a.Reduced 32 := ⟨rfl, by decide, by decide, by decide, by decide, 2, by decide⟩
  have hb : b.Reduced 32 := ⟨rfl, by decide, by decide, by decide, by decide, 8, by decide⟩
  obtain ⟨answer, hanswer, -, h⟩ := represents_of_lessOrEqual (by decide) ha hb
  have htrue : a.lessOrEqual b = .ok true := by decide +kernel
  exact ⟨htrue, (h (Except.ok.inj (hanswer.symm.trans htrue))).mpr (.inr rfl)⟩

/-- The start of the stack is put below the number zero. -/
theorem lessOrEqual_other_region :
    let a : Interval := ⟨.stack, 0, 0, 0, 32⟩
    let b : Interval := ⟨.global, 0, 0, 0, 32⟩
    a.Reduced 32 ∧ b.Reduced 32 ∧ a.lessOrEqual b = .ok true ∧ 0 ∈ a.points ∧ ¬b.Represents a.region 0 := by
  intro a b
  have ha : a.Reduced 32 := ⟨rfl, by decide, by decide, by decide, by decide, 0, by decide⟩
  have hb : b.Reduced 32 := ⟨rfl, by decide, by decide, by decide, by decide, 0, by decide⟩
  refine ⟨ha, hb, by decide +kernel, ha.left_mem, ?_⟩
  rintro (htop | ⟨hregion, -⟩)
  · exact absurd htop (by decide +kernel)
  · exact absurd hregion (by decide)

/-! ### Single offsets -/

theorem eq_zero_of_div_mod {x s : Int64} (hdiv : x / s = 0) (hmod : x % s = 0) : x = 0 := by
  have hdvd : ((2 ^ 64 : Nat) : Int) ∣ x.toInt.tdiv s.toInt := by
    rw [Int.dvd_iff_bmod_eq_zero, ← Int64.toInt_div, hdiv]
    rfl
  have hle : (x.toInt.tdiv s.toInt).natAbs ≤ x.toInt.natAbs := by
    rw [Int.natAbs_tdiv]
    exact Nat.div_le_self _ _
  have hzero : x.toInt.tdiv s.toInt = 0 := by
    have := x.le_toInt
    have := x.toInt_lt
    omega
  have h := Int.mul_tdiv_add_tmod x.toInt s.toInt
  rw [hzero, ← Int64.toInt_mod, hmod] at h
  exact Int64.toInt_inj.mp (by simpa using h.symm)

/-- The interval is as `make` leaves it. -/
def Made (a : Interval) : Prop := make a.region a.left a.right a.stride a.width = .ok a

instance (a : Interval) : Decidable a.Made := inferInstanceAs (Decidable (_ = _))

theorem Made.stride_eq_zero (h : a.Made) (hsize : a.size = 1) : a.stride = 0 := by
  by_contra hs
  unfold Made make at h
  split at h
  · cases h
  split at h
  · cases h
  · next hfits =>
    have hmod : (a.right - a.left) % a.stride = 0 := not_not.mp fun hne => hfits ⟨hs, hne⟩
    have hdiv : (a.right - a.left) / a.stride = 0 := by
      rw [size, if_neg hs] at hsize
      grind
    have hstride := congrArg stride (Except.ok.inj h)
    rw [if_pos (eq_zero_of_div_mod hdiv hmod)] at hstride
    exact hs hstride.symm

/-- The number is one that the interval stands for, where `β` says at which addresses the regions
lie. -/
def Covers (β : Region → BitVec 32) (a : Interval) (u : BitVec 32) : Prop :=
  a.region = .top ∨ ∃ n ∈ a.points, u = β a.region + BitVec.ofInt 32 n

/-- The value is one of 32 bits that stands for the number. -/
structure Describes (β : Region → BitVec 32) (a : Interval) (u : BitVec 32) : Prop where
  made : a.Made
  width_eq : a.width = 32
  covers : a.Covers β u

theorem Describes.eq_of_size (h : a.Describes β u) (hsize : a.size = 1) (hregion : a.region ≠ .top) :
    u = β a.region + low 32 a.left := by
  obtain ⟨n, ⟨k, -, rfl⟩, rfl⟩ := h.covers.resolve_left hregion
  rw [h.made.stride_eq_zero hsize, ← ofInt_toInt (by decide)]
  simp

theorem Describes.concretize_eq (h : a.Describes β u) (hsize : a.size = 1) :
    a.concretize = if a.region = .global then .listed [⟨wrap 32 a.left, 32⟩] else .all := by
  unfold concretize
  by_cases hregion : a.region = .global
  · rw [if_neg (by rw [hsize]; exact fun h => h.elim (· hregion) (by decide)), if_pos (h.made.stride_eq_zero hsize),
      if_pos hregion, h.width_eq, Num.of_eq_wrap (by decide)]
  · rw [if_pos (.inl hregion), if_neg hregion]

/-! ### The test for equality -/

/-- Two single offsets, not both in global memory: two others are taken for equal, and one in global
memory is taken for different from one that is not. -/
def Misjudged (a b : Interval) (u v : BitVec 32) : Prop :=
  a.size = 1 ∧ b.size = 1 ∧
    (a.region ≠ .global ∧ b.region ≠ .global ∧ u ≠ v ∨ ¬(a.region = .global ↔ b.region = .global) ∧ u = v)

def verdict (a b : Interval) : Interval :=
  if a.size = 1 ∧ b.size = 1 then if a.concretize = b.concretize then ofNum .tt else ofNum .ff else ⟨.global, -1, 0, 1, 1⟩

theorem concretize_truth_eq_iff {p q : Prop} [Decidable p] [Decidable q] :
    (if q then ofNum .tt else ofNum .ff).concretize = .listed [.truth p] ↔ (q ↔ p) := by
  by_cases hq : q <;> by_cases hp : p <;> simp only [hq, hp, Num.truth, if_true, if_false] <;> decide +kernel

theorem concretize_verdict_eq_iff (hβ : β .global = 0) (ha : a.Describes β u) (hb : b.Describes β v) :
    (verdict a b).concretize = .listed [.truth (u ≠ v)] ↔ Misjudged a b u v := by
  unfold verdict Misjudged
  by_cases hsize : a.size = 1 ∧ b.size = 1
  · obtain ⟨hasize, hbsize⟩ := hsize
    rw [if_pos ⟨hasize, hbsize⟩, concretize_truth_eq_iff, ha.concretize_eq hasize, hb.concretize_eq hbsize]
    by_cases har : a.region = .global <;> by_cases hbr : b.region = .global
    · -- two numbers are compared as they should be
      have hu := ha.eq_of_size hasize (by rw [har]; decide)
      have hv := hb.eq_of_size hbsize (by rw [hbr]; decide)
      rw [har, hβ, zero_add] at hu
      rw [hbr, hβ, zero_add] at hv
      have heq : wrap 32 a.left = wrap 32 b.left ↔ u = v := by
        rw [hu, hv]
        refine ⟨fun h => ?_, fun h => congrArg ofBits h⟩
        have hlow (l : Int64) : low 32 (wrap 32 l) = low 32 l :=
          low_wrap (w := 32) (by decide) l
        rw [← hlow, h, hlow]
      simp [har, hbr, heq]
    iterate 3 simp [har, hbr, hasize, hbsize]
  · have htop : (⟨.global, -1, 0, 1, 1⟩ : Interval).concretize = .listed [.tt, .ff] := by decide +kernel
    rw [if_neg hsize, htop]
    exact iff_of_false (by simp) fun h => hsize ⟨h.1, h.2.1⟩

end Interval

namespace MachineState

variable {s : Setting Interval} {m : MachineState Interval} {β : Region → BitVec 32} {ρ : Var → BitVec 32} {x y : Var}

/-- The state knows the contents `ρ` of the variables of 32 bits, with `β` saying where regions lie.
-/
def Describes (s : Setting Interval) (m : MachineState Interval) (β : Region → BitVec 32) (ρ : Var → BitVec 32) : Prop :=
  ∀ x : Var, x.width = 32 → ∃ a, m.vars.get s x = .ok a ∧ a.Describes β (ρ x)

theorem eval_equal_eq {a b : Interval} (hs : s.factory = Interval.factory) (ha : m.vars.get s x = .ok a)
    (hb : m.vars.get s y = .ok b) : m.eval s (.op .equal [.var x, .var y]) = .ok (Interval.verdict a b) := by
  have hop : operate s .equal 1 [.var x, .var y] [a, b] = .ok (Interval.verdict a b) := by
    change (if (a.size == 1) && (b.size == 1) then
      Except.ok (if a.concretize = b.concretize then s.factory.tt else s.factory.ff) else s.factory.top 1) = _
    rw [hs, Interval.verdict]
    by_cases hsize : a.size = 1 ∧ b.size = 1
    · rw [if_pos (by simpa using hsize), if_pos hsize]
      rfl
    · rw [if_neg (by simpa using hsize), if_neg hsize]
      rfl
  have hwidth : (Expr.op .equal [.var x, .var y]).width = .ok 1 := rfl
  rw [eval, evalAll, evalEach, evalEach, evalEach, evalAll, evalAll, ha, hb, hwidth]
  simp [ok_bind, pure, Except.pure, crossProduct, hop, AbstractValue.insert, AbstractValue.joinAll]

/-- **Comparing pointers.** The comparison of two variables for equality always has a result. The
wrong truth value is the only one that it stands for exactly if two single offsets are misjudged. -/
theorem eval_equal_misjudges_iff (hs : s.factory = Interval.factory) (hβ : β .global = 0) (h : m.Describes s β ρ)
    (hx : x.width = 32) (hy : y.width = 32) :
    ∃ a b r, m.vars.get s x = .ok a ∧ m.vars.get s y = .ok b ∧ m.eval s (.op .equal [.var x, .var y]) = .ok r ∧
      (r.concretize = .listed [.truth (ρ x ≠ ρ y)] ↔ Interval.Misjudged a b (ρ x) (ρ y)) := by
  obtain ⟨a, hget, ha⟩ := h x hx
  obtain ⟨b, hget', hb⟩ := h y hy
  exact ⟨a, b, _, hget, hget', eval_equal_eq hs hget hget', Interval.concretize_verdict_eq_iff hβ ha hb⟩

/-! ### Two registers -/

def eax : Var := ⟨0, "eax", 32⟩

def ebx : Var := ⟨1, "ebx", 32⟩

def plain : Setting Interval := { registers := {}, factory := Interval.factory }

def holding (a b : Interval) : MachineState Interval where
  vars := ⟨((∅ : Std.TreeMap Nat (Var × Interval)).insert 0 (eax, a)).insert 1 (ebx, b)⟩

theorem describes_holding {a b : Interval} {u v : BitVec 32} (ha : a.Describes β u) (hb : b.Describes β v) :
    (holding a b).Describes plain β (fun x => if x.index = 0 then u else v) := by
  intro x hx
  have hfind : (holding a b).vars.find? x = if x.index = 0 then some a else if x.index = 1 then some b else none := by
    change Option.map Prod.snd (((∅ : Std.TreeMap Nat (Var × Interval)).insert 0 (eax, a)).insert 1 (ebx, b))[x.index]? = _
    rw [Std.TreeMap.getElem?_insert, Std.TreeMap.getElem?_insert]
    grind
  have hget : (holding a b).vars.get plain x = match (holding a b).vars.find? x with
      | some a => .ok a
      | none => Interval.top x.width := by
    change Valuation.getTo _ _ (127 + 1) x = _
    rw [Valuation.getTo]
    cases (holding a b).vars.find? x <;> rfl
  rw [hget, hfind, hx]
  by_cases hzero : x.index = 0
  · simp only [hzero, if_true]
    exact ⟨a, rfl, ha⟩
  simp only [hzero, if_false]
  by_cases hone : x.index = 1
  · simp only [hone, if_true]
    exact ⟨b, rfl, hb⟩
  · simp only [hone, if_false]
    exact ⟨_, rfl, by decide +kernel, rfl, .inl rfl⟩

def base : Region → BitVec 32
  | .stack => 4096
  | _ => 0

theorem describes_single {r : Region} {v : Int64} (hmade : (Interval.mk r v v 0 32).Made) :
    (Interval.mk r v v 0 32).Describes base (base r + .ofInt 32 v.toInt) :=
  ⟨hmade, rfl, .inr ⟨v.toInt, ⟨0, by simp, by simp⟩, rfl⟩⟩

/-- A pointer is equal to itself. -/
theorem eval_equal_pointer_to_itself :
    let a : Interval := ⟨.stack, 8, 8, 0, 32⟩
    ∃ r, (holding a a).eval plain (.op .equal [.var eax, .var ebx]) = .ok r ∧ r.concretize ≠ .listed [.ff] := by
  intro a
  have ha : a.Describes base 4104 := describes_single (by decide +kernel)
  obtain ⟨b, c, r, hb, hc, hr, hiff⟩ :=
    eval_equal_misjudges_iff (x := eax) (y := ebx) rfl rfl (describes_holding ha ha) rfl rfl
  obtain rfl : a = b := Except.ok.inj hb
  obtain rfl : a = c := Except.ok.inj hc
  refine ⟨r, hr, fun hff => ?_⟩
  rcases (hiff.mp hff).2.2 with ⟨-, -, hne⟩ | ⟨hne, -⟩
  · exact hne rfl
  · exact hne Iff.rfl

/-- The starts of the stack and of a block elsewhere are taken for the same, and the start of the
stack for another number than the address at which it lies. -/
theorem eval_equal_pointers :
    let a : Interval := ⟨.stack, 0, 0, 0, 32⟩
    let b : Interval := ⟨.named "heap", 0, 0, 0, 32⟩
    let c : Interval := ⟨.global, 4096, 4096, 0, 32⟩
    (∃ ρ, (holding a b).Describes plain base ρ ∧ ρ eax ≠ ρ ebx) ∧
      (holding a b).eval plain (.op .equal [.var eax, .var ebx]) = .ok (Interval.ofNum .tt) ∧
      (∃ ρ, (holding a c).Describes plain base ρ ∧ ρ eax = ρ ebx) ∧
      (holding a c).eval plain (.op .equal [.var eax, .var ebx]) = .ok (Interval.ofNum .ff) := by
  intro a b c
  have ha : a.Describes base 4096 := describes_single (by decide +kernel)
  have hb : b.Describes base 0 := describes_single (by decide +kernel)
  have hc : c.Describes base 4096 := describes_single (by decide +kernel)
  exact ⟨⟨_, describes_holding ha hb, by decide⟩, rfl, ⟨_, describes_holding ha hc, rfl⟩, rfl⟩

end MachineState

end FlowRecovery
