import FlowRecovery.Domain.Based
import FlowRecovery.Proofs.Memory.Reading

/-!
# The laws of constants and based numbers

The unknown constant of `w` bits is kept as the number `w - 1`, and that number, when it is asked,
takes itself for the unknown one (`Constant.Mistakes`). This is all in which `equals` differs from
equality (`Constant.equals_iff`). `Based.lawful_iff` says for each law of a lattice which pairs of
values break it.
-/

namespace FlowRecovery

namespace AbstractValue

variable {A : Type} [AbstractValue A]

def Represents (a : A) (n : Num) : Prop := ∃ s, concretize a = .ok s ∧ s.Mem n

/-- If the values are equal then they stand for the same numbers. -/
def Conforms (a b : A) : Prop := equals a b = true → ∀ n, Represents a n ↔ Represents b n

/-- The values can be joined in both orders, which makes no difference. -/
def Commutes (a b : A) : Prop := ∃ j k, join a b = .ok j ∧ join b a = .ok k ∧ equals j k = true

/-- The join stands for all numbers of both values. -/
def Bounds (a b : A) : Prop := ∃ j, join a b = .ok j ∧ ∀ n, Represents a n ∨ Represents b n → Represents j n

theorem equals_comm_iff {a b : A} {Mistakes : A → A → Prop} (hab : equals a b ↔ a = b ∨ Mistakes a b)
    (hba : equals b a ↔ b = a ∨ Mistakes b a) (hasymm : ∀ {a b}, Mistakes a b → ¬(a = b ∨ Mistakes b a)) :
    equals a b = equals b a ↔ ¬(Mistakes a b ∨ Mistakes b a) := by
  have hleft := @hasymm a b
  have hright := @hasymm b a
  rw [eq_comm] at hright
  rw [Bool.eq_iff_iff, hab, hba, eq_comm (a := b)]
  tauto

end AbstractValue

open AbstractValue

variable {w : Int} {n : Num}

namespace Constant

/-- The first value is the number that the second one, which is unknown, is kept as. -/
def Mistakes (w : Int) (a b : Constant) : Prop := a = .known ⟨Int64.ofInt (w - 1), w⟩ ∧ b = .unknown w

instance (w : Int) (a b : Constant) : Decidable (Mistakes w a b) := inferInstanceAs (Decidable (_ ∧ _))

variable {a b : Constant}

@[simp] theorem represents_iff : Represents a n ↔ a.concretize.Mem n :=
  ⟨fun ⟨_, h, hn⟩ => Except.ok.inj h ▸ hn, fun h => ⟨_, rfl, h⟩⟩

@[simp] theorem mem_concretize_known {m : Num} : (known m).concretize.Mem n ↔ n = m := List.mem_singleton

@[simp] theorem mem_concretize_unknown : (unknown w).concretize.Mem n ↔ (w = 1 → n = .tt ∨ n = .ff) := by
  by_cases hw : w = 1 <;> simp [concretize, hw, Numbers.Mem, Numbers.truthValues]

theorem representative_unknown (hpos : 1 ≤ w) (hle : w ≤ 64) :
    (unknown w).representative = ⟨.ofInt (w - 1), w⟩ := by
  have hfits : Word.Fits w (.ofInt (w - 1)) := by
    interval_cases w <;> decide
  have hsettle : (Num.of (.ofInt (w - 1)) w).value = Word.settle w (.ofInt (w - 1)) := by
    simp [Num.of, Word.settle]
  rw [Word.settle_of_fits (by omega) hfits] at hsettle
  exact congrArg (Num.mk · w) hsettle

theorem equals_iff (hpos : 1 ≤ w) (hle : w ≤ 64) (hb : b.Fits w) : a.equals b ↔ a = b ∨ Mistakes w a b := by
  cases a with
  | known n =>
    cases b with
    | known m => simp [equals, representative, Mistakes, eq_comm (a := n)]
    | unknown u =>
      obtain rfl : u = w := hb
      rw [equals, representative_unknown hpos hle]
      simp [Mistakes, eq_comm (a := n)]
  | unknown u => cases b <;> simp [equals, Mistakes]

theorem Fits.mem_unknown (ha : a.Fits w) (hn : a.concretize.Mem n) : (unknown w).concretize.Mem n := by
  cases a with
  | known m =>
    obtain rfl := mem_concretize_known.mp hn
    rw [mem_concretize_unknown]
    rintro rfl
    obtain ⟨v, u⟩ := n
    obtain ⟨rfl, hfits⟩ := ha
    exact (Word.fits_one_iff.mp hfits).symm.imp (congrArg (Num.mk · 1)) (congrArg (Num.mk · 1))
  | unknown u => exact (show u = w from ha) ▸ hn

theorem Mistakes.not_subset (hw : 1 ≤ w) (h : Mistakes w a b) : ¬∀ n, b.concretize.Mem n → a.concretize.Mem n := by
  obtain ⟨rfl, rfl⟩ := h
  intro h
  have htrue := mem_concretize_known.mp (h .tt (by simp))
  obtain ⟨hvalue, rfl⟩ := Num.mk.inj htrue
  exact absurd hvalue (by decide)

theorem Mistakes.asymm (h : Mistakes w a b) : ¬(a = b ∨ Mistakes w b a) := by
  rcases h with ⟨rfl, rfl⟩
  rintro (h | ⟨h, -⟩) <;> cases h

theorem join_of_fits (ha : a.Fits w) (hb : b.Fits w) : a.join b = if a = b then a else unknown w := by
  have hwidth : ¬b.width > a.width ∧ ¬a.width > b.width := by
    rw [ha.width_eq, hb.width_eq]
    omega
  unfold join
  rw [if_neg hwidth.1, if_neg hwidth.2, ha.width_eq]
  cases a with
  | known n => cases b <;> simp
  | unknown u =>
    obtain rfl : u = w := ha
    cases b <;> simp

section

variable (hpos : 1 ≤ w) (hle : w ≤ 64) (hb : b.Fits w)

include hpos hle hb

theorem conforms_iff : Conforms a b ↔ ¬Mistakes w a b := by
  have hequals := equals_iff (a := a) hpos hle hb
  refine ⟨fun h hm => hm.not_subset hpos fun n => ?_, fun h he n => ?_⟩
  · simpa using (h (hequals.mpr (.inr hm)) n).mpr
  · rw [(hequals.mp he).resolve_right h]

theorem commutes_of_fits (ha : a.Fits w) : Commutes a b := by
  have hcomm : a.join b = b.join a := by
    rw [join_of_fits ha hb, join_of_fits hb ha]
    grind
  have hfits : (a.join b).Fits w := by
    rw [join_of_fits ha hb]
    split
    · exact ha
    · rfl
  exact ⟨_, _, rfl, rfl, hcomm ▸ (equals_iff hpos hle hfits).mpr (.inl rfl)⟩

end

theorem bounds_of_fits (ha : a.Fits w) (hb : b.Fits w) : Bounds a b := by
  refine ⟨_, rfl, fun n hn => ?_⟩
  simp only [represents_iff] at hn ⊢
  rw [join_of_fits ha hb]
  split
  next heq => exact hn.elim id (heq ▸ id)
  next => exact hn.elim ha.mem_unknown hb.mem_unknown

end Constant

namespace Based

def Mistakes (w : Int) (a b : Based) : Prop := a.region = b.region ∧ Constant.Mistakes w a.offset b.offset

instance (w : Int) (a b : Based) : Decidable (a.Mistakes w b) := inferInstanceAs (Decidable (_ ∧ _))

variable {a b : Based}

@[simp] theorem represents_iff : Represents a n ↔ a.concretize.Mem n :=
  ⟨fun ⟨_, h, hn⟩ => Except.ok.inj h ▸ hn, fun h => ⟨_, rfl, h⟩⟩

theorem equals_iff (hpos : 1 ≤ w) (hle : w ≤ 64) (hb : b.offset.Fits w) : a.equals b ↔ a = b ∨ Mistakes w a b := by
  obtain ⟨r, x⟩ := a
  obtain ⟨r', y⟩ := b
  rw [equals, Bool.and_eq_true, beq_iff_eq, Constant.equals_iff hpos hle hb, Mistakes, mk.injEq, ← and_or_left]

theorem Mistakes.asymm (h : Mistakes w a b) : ¬(a = b ∨ Mistakes w b a) := fun hba =>
  h.2.asymm (hba.imp (congrArg offset) (·.2))

/-- What the join of values of `w` bits is. -/
def joined (w : Int) (a b : Based) : Based :=
  if a = b ∨ Mistakes w a b ∧ a.region ≠ .top then a
  else ⟨if a.region = b.region then a.region else .top, .unknown w⟩

section

variable (ha : a.offset.Fits w)

include ha

theorem isTop_iff : a.isTop ↔ a = ⟨.top, .unknown w⟩ := by
  obtain ⟨r, _ | u⟩ := a
  · simp [isTop, Constant.isTop]
  · simp [isTop, Constant.isTop, show u = w from ha]

theorem mem_concretize : a.concretize.Mem n ↔
    if a.region = .global then a.offset.concretize.Mem n else (Constant.unknown w).concretize.Mem n := by
  obtain ⟨r, x⟩ := a
  have hwidth : x.width = w := ha.width_eq
  cases x with
  | known m => by_cases hr : r = .global <;> simp [concretize, isUnbased, isTop, Constant.isTop, width, hwidth, hr]
  | unknown u =>
    obtain rfl : u = w := ha
    unfold concretize
    split <;> simp [width, Constant.width]

theorem mem_unknown (hn : a.concretize.Mem n) : (Constant.unknown w).concretize.Mem n := by
  rw [mem_concretize ha] at hn
  split at hn
  · exact ha.mem_unknown hn
  · exact hn

variable (hpos : 1 ≤ w) (hle : w ≤ 64) (hb : b.offset.Fits w)

include hpos hle hb

theorem join_of_fits : a.join b = .ok (joined w a b) := by
  have hwidth : (b.width != a.width) = false := by simp [width, ha.width_eq, hb.width_eq]
  have htop : top a.width = .ok ⟨.top, .unknown w⟩ := by
    rw [top, width, ha.width_eq, Constant.top, if_pos (by omega)]
    rfl
  simp only [join, hwidth, htop, Constant.join_of_fits ha hb, isTop_iff ha, isTop_iff hb, equals_iff hpos hle hb,
    bne_iff_ne, Bool.false_eq_true, if_false]
  obtain ⟨r, x⟩ := a
  obtain ⟨r', y⟩ := b
  grind [joined, Mistakes, Constant.Mistakes]

-- A pointer stands for every number whatever its offset is, so that only numbers themselves can be too few.
theorem conforms_iff : Conforms a b ↔ ¬(Mistakes w a b ∧ a.region = .global) := by
  have hequals := equals_iff (a := a) hpos hle hb
  simp only [Conforms, represents_iff, mem_concretize ha, mem_concretize hb]
  refine ⟨fun h ⟨hm, hr⟩ => hm.2.not_subset hpos fun n => ?_, fun h he n => ?_⟩
  · simpa [hr, ← hm.1] using (h (hequals.mpr (.inr hm)) n).mpr
  · rcases hequals.mp he with rfl | hm
    · rfl
    · have hr : a.region ≠ .global := fun hr => h ⟨hm, hr⟩
      rw [← hm.1, if_neg hr, if_neg hr]

theorem commutes_iff : Commutes a b ↔ ¬(Mistakes w b a ∧ a.region ≠ .top) := by
  have hfits : (joined w b a).offset.Fits w := by
    unfold joined
    split
    · exact hb
    · rfl
  have hjoins : Commutes a b ↔ (joined w a b).equals (joined w b a) := by
    change (∃ j k, a.join b = .ok j ∧ b.join a = .ok k ∧ j.equals k) ↔ _
    simp [join_of_fits ha hpos hle hb, join_of_fits hb hpos hle ha]
  rw [hjoins, equals_iff hpos hle hfits]
  clear hjoins hfits
  obtain ⟨r, x⟩ := a
  obtain ⟨r', y⟩ := b
  grind [joined, Mistakes, Constant.Mistakes]

theorem bounds_iff : Bounds a b ↔ ¬(Mistakes w a b ∧ a.region = .global) := by
  have hjoins : Bounds a b ↔ ∀ n, a.concretize.Mem n ∨ b.concretize.Mem n → (joined w a b).concretize.Mem n := by
    change (∃ j, a.join b = .ok j ∧ _) ↔ _
    simp [join_of_fits ha hpos hle hb]
  rw [hjoins]
  by_cases hm : Mistakes w a b ∧ a.region = .global
  · have hjoined : joined w a b = a := if_pos (.inr ⟨hm.1, by simp [hm.2]⟩)
    refine iff_of_false (fun h => hm.1.2.not_subset hpos fun n hn => ?_) (not_not_intro hm)
    have hmem := h n (.inr ((mem_concretize hb).mpr (by rwa [← hm.1.1, if_pos hm.2])))
    rwa [hjoined, mem_concretize ha, if_pos hm.2] at hmem
  · refine iff_of_true (fun n hn => ?_) hm
    have hunknown : (Constant.unknown w).concretize.Mem n := hn.elim (mem_unknown ha) (mem_unknown hb)
    unfold joined
    split
    next heq =>
      rcases heq with rfl | ⟨hm', -⟩
      · exact hn.elim id id
      · exact (mem_concretize ha).mpr (by rwa [if_neg fun hr => hm ⟨hm', hr⟩])
    next =>
      have hfits : (Constant.unknown w).Fits w := rfl
      rw [mem_concretize hfits, ite_self]
      exact hunknown

end

/-- Which constants and based numbers of one width obey the laws of a lattice, law by law. -/
theorem lawful_iff (hpos : 1 ≤ w) (hle : w ≤ 64) :
    (∀ a b : Constant, a.Fits w → b.Fits w →
      (a.equals b = b.equals a ↔ ¬(a.Mistakes w b ∨ b.Mistakes w a)) ∧ (Conforms a b ↔ ¬a.Mistakes w b) ∧
        Commutes a b ∧ Bounds a b) ∧
      ∀ a b : Based, a.offset.Fits w → b.offset.Fits w →
        (a.equals b = b.equals a ↔ ¬(a.Mistakes w b ∨ b.Mistakes w a)) ∧
          (Conforms a b ↔ ¬(a.Mistakes w b ∧ a.region = .global)) ∧
          (Commutes a b ↔ ¬(b.Mistakes w a ∧ a.region ≠ .top)) ∧
          (Bounds a b ↔ ¬(a.Mistakes w b ∧ a.region = .global)) := by
  refine ⟨fun a b ha hb => ⟨?_, ?_, ?_, ?_⟩, fun a b ha hb => ⟨?_, ?_, ?_, ?_⟩⟩
  · exact equals_comm_iff (Constant.equals_iff hpos hle hb) (Constant.equals_iff hpos hle ha) Constant.Mistakes.asymm
  · exact Constant.conforms_iff hpos hle hb
  · exact Constant.commutes_of_fits hpos hle hb ha
  · exact Constant.bounds_of_fits ha hb
  · exact equals_comm_iff (equals_iff hpos hle hb) (equals_iff hpos hle ha) Mistakes.asymm
  · exact conforms_iff ha hpos hle hb
  · exact commutes_iff ha hpos hle hb
  · exact bounds_iff ha hpos hle hb

/-- The laws hold in one order, and not in the other. -/
theorem lawful_stack_offsets :
    let a : Based := ⟨.stack, .known ⟨31, 32⟩⟩
    let b : Based := ⟨.stack, .unknown 32⟩
    Conforms a b ∧ Bounds a b ∧ Commutes a b ∧ ¬Commutes b a := by
  intro a b
  have hlaws := (lawful_iff (w := 32) (by decide) (by decide)).2
  obtain ⟨-, hconforms, hcommutes, hbounds⟩ := hlaws a b (by decide) (by decide)
  obtain ⟨-, -, hreverse, -⟩ := hlaws b a (by decide) (by decide)
  exact ⟨hconforms.mpr (by decide), hbounds.mpr (by decide), hcommutes.mpr (by decide),
    fun h => hreverse.mp h (by decide)⟩

/-- The number 31 takes itself for the unknown constant of 32 bits, but not the other way round. The
joins of pointers with these offsets depend on the order, and the join of these numbers leaves
numbers out. -/
theorem equals_unknown_offset :
    let a (r : Region) : Based := ⟨r, .known ⟨31, 32⟩⟩
    let b (r : Region) : Based := ⟨r, .unknown 32⟩
    (a .stack).equals (b .stack) = true ∧ (b .stack).equals (a .stack) = false ∧
      (b .stack).join (a .stack) = .ok (b .stack) ∧ (a .stack).join (b .stack) = .ok (a .stack) ∧
      (a .global).join (b .global) = .ok (a .global) ∧ (a .global).concretize = .listed [⟨31, 32⟩] ∧
      (b .global).concretize = .all :=
  ⟨rfl, rfl, rfl, rfl, rfl, rfl, rfl⟩

end Based

end FlowRecovery
