import FlowRecovery.Domain.Constant
import FlowRecovery.Proofs.Memory.Cells

/-!
# Strong updates

A value that is written is found again, and all else stays as it was, but for cells of which a byte
was overwritten. What is read depends on the cells of the bytes that are read alone
(`Memory.read_congr`), so this follows from what a write does to cells (`Memory.Written`), for
memory that writes have built from nothing (`Memory.Built`).
-/

namespace FlowRecovery.Memory

open FaultyM

variable {A : Type} [AbstractValue A] {s : Setting A} {t : A} {r : Region} {o : Int64} {w : Int} {m m' : Memory A}

/-- Memory that writes have built, each over what was there or joined with it. -/
inductive Built (s : Setting A) : Memory A → Prop
  | empty : Built s {}
  | write {m m' : Memory A} {r : Region} {o : Int64} {w : Int} {v : A} (hm : Built s m)
    (h : Ends (write s r o w v) m () m') : Built s m'
  | weakWrite {m m' : Memory A} {r : Region} {o : Int64} {w : Int} {v : A} (hm : Built s m)
    (h : Ends (weakWrite s r o w v) m () m') : Built s m'

/-! ### Wholeness -/

theorem eq_overwrite_of_ends (ht : s.factory.top 8 = .ok t) {v : A} (h : Ends (write s r o w v) m () m') :
    r ≠ .top ∧ (∀ u ∈ AbstractValue.width? v, u = w) ∧ ∃ b, AbstractValue.isTop v = .ok b ∧
      m' = overwrite s t r ⟨o, w.tdiv 8, v⟩ (!b || r == .global) m := by
  have hr : r ≠ .top := by
    rintro rfl
    simp [write, requireKnown] at h
  have hw : ∀ u ∈ AbstractValue.width? v, u = w := by
    intro u hu
    by_contra hne
    simp [write, requireKnown, if_neg hr, Option.mem_def.mp hu, hne] at h
  cases hv : AbstractValue.isTop v with
  | error f =>
    rw [write_eq hr hw, ends_bind] at h
    obtain ⟨-, v', -, h⟩ := h
    simp [hv] at h
  | ok b =>
    obtain ⟨-, heq⟩ := (ends_write_overwrite ht hr hw hv m).unique h
    exact ⟨hr, hw, b, rfl, heq.symm⟩

theorem ends_write_of_weakWrite {v : A} (h : Ends (weakWrite s r o w v) m () m') :
    ∃ v', Ends (write s r o w v') m () m' := by
  rw [weakWrite, ends_bind] at h
  obtain ⟨⟨⟩, m₁, hknown, h⟩ := h
  obtain rfl : m₁ = m := by
    unfold requireKnown at hknown
    split at hknown
    · simp at hknown
    · exact (ends_pure.mp hknown).2
  rw [ends_get_bind, ends_bind] at h
  obtain ⟨old, m₂, hold, h⟩ := h
  obtain ⟨-, rfl⟩ := ends_lift.mp hold
  rw [ends_bind] at h
  obtain ⟨isTop, m₃, hisTop, h⟩ := h
  obtain ⟨-, rfl⟩ := ends_lift.mp hisTop
  split at h
  · exact ⟨v, h⟩
  · rw [ends_bind] at h
    obtain ⟨v', m₄, hjoin, h⟩ := h
    obtain ⟨-, rfl⟩ := ends_lift.mp hjoin
    exact ⟨v', h⟩

theorem Built.whole (ht : s.factory.top 8 = .ok t) (h : Built s m) : m.Whole := by
  induction h with
  | empty => exact whole_empty
  | write _ h ih =>
    obtain ⟨-, -, _, -, rfl⟩ := eq_overwrite_of_ends ht h
    exact (written_overwrite s _ _ _).whole ih
  | weakWrite _ h ih =>
    obtain ⟨_, h⟩ := ends_write_of_weakWrite h
    obtain ⟨-, -, _, -, rfl⟩ := eq_overwrite_of_ends ht h
    exact (written_overwrite s _ _ _).whole ih

/-! ### What is read -/

theorem mem_bytes_self (h : 8 ≤ w) : o ∈ bytes o (w.tdiv 8) := by
  rw [mem_bytes]
  refine ⟨0, ?_, by simp⟩
  rw [Int.tdiv_eq_ediv_of_nonneg (by omega)]
  omega

theorem readByte_congr (hflag : m'.dataIsTop = m.dataIsTop) (ho : m'.cells.find? r o = m.cells.find? r o) :
    readByte s m' r o = readByte s m r o := by
  simp only [readByte, readWith, ho, readInitial, hflag]

theorem readBytes_congr (hflag : m'.dataIsTop = m.dataIsTop) {i : Nat} {lower : List Num} {os : List Int64}
    (hos : ∀ x ∈ os, m'.cells.find? r x = m.cells.find? r x) :
    readBytes s m' r i lower os = readBytes s m r i lower os := by
  induction os generalizing i lower with
  | nil => rfl
  | cons o os ih =>
    have hrest (x : Int64) (hx : x ∈ os) := hos x (List.mem_cons_of_mem o hx)
    simp only [readBytes, readByte_congr hflag (hos o List.mem_cons_self), ih hrest]

theorem read_congr (hw : 8 ≤ w) (hflag : m'.dataIsTop = m.dataIsTop)
    (hbytes : ∀ x ∈ bytes o (w.tdiv 8), m'.cells.find? r x = m.cells.find? r x) : m'.read s r o w = m.read s r o w := by
  simp only [read, readWith, readBytes_congr hflag hbytes, hbytes o (mem_bytes_self hw), readInitial, hflag]

/-- The bytes that are read are not written, and share no cell with one that is. -/
def Apart (m : Memory A) (r : Region) (o : Int64) (w : Int) (o' : Int64) (w' : Int) : Prop :=
  ∀ x ∈ bytes o' (w'.tdiv 8), x ∉ bytes o (w.tdiv 8) ∧
    ∀ y ∈ bytes o (w.tdiv 8), ∀ c ∈ m.cells.find? r y, x ∉ bytes c.offset c.size

/-- **Strong updates.** Cells are whole in memory that was built. A further value that is not
unknown is written and read again, and whatever is read elsewhere or apart from it is read as
before. -/
theorem Built.strong_update (ht : s.factory.top 8 = .ok t) (h : Built s m) :
    m.Whole ∧ ∀ (r : Region) (o : Int64) (w : Int) (v : A), r ≠ .top → 8 ≤ w →
      (∀ u ∈ AbstractValue.width? v, u = w) → AbstractValue.isTop v = .ok false →
      ∃ m', Ends (Memory.write s r o w v) m () m' ∧ m'.read s r o w = .ok v ∧
        ∀ (r' : Region) (o' : Int64) (w' : Int), 8 ≤ w' → r' ≠ r ∨ Apart m r o w o' w' →
          m'.read s r' o' w' = m.read s r' o' w' := by
  refine ⟨h.whole ht, fun r o w v hr hw hwidth hv => ?_⟩
  obtain ⟨m', hends, hwritten⟩ := ends_write ht hr hwidth hv m
  refine ⟨m', hends, ?_, fun r' o' w' hw' hapart => read_congr hw' hwritten.dataIsTop_eq fun x hx => ?_⟩
  · rw [read, requireKnown, if_neg hr]
    exact readWith_cell (hwritten.inside rfl (mem_bytes_self hw)) rfl rfl
  · by_cases hsame : r' = r
    · subst hsame
      obtain ⟨hout, hcells⟩ := hapart.resolve_left (not_not.mpr rfl) x hx
      exact hwritten.apart hout hcells
    · exact hwritten.elsewhere hsame x

/-- The upper half of a number is overwritten. -/
theorem strong_update_upper_half :
    let s : Setting Constant := { registers := default, factory := Constant.factory }
    let whole : Constant := .known ⟨0x12345678, 32⟩
    let half : Constant := .known ⟨7, 16⟩
    ∃ m m', Ends (write s .global 0 32 whole) {} () m ∧ Ends (write s .global 2 16 half) m () m' ∧
      m'.read s .global 2 16 = .ok half ∧ m'.read s .global 4 32 = m.read s .global 4 32 ∧
      m'.read s .stack 0 32 = m.read s .stack 0 32 := by
  intro s whole half
  obtain ⟨m, hm, hwritten⟩ := ends_write (s := s) (t := .unknown 8) (r := .global) (o := 0) (w := 32) (v := whole)
    rfl (by decide) (by decide) rfl {}
  obtain ⟨-, h⟩ := (Built.empty.write hm).strong_update (t := .unknown 8) rfl
  obtain ⟨m', hends, hread, hframe⟩ := h .global 2 16 half (by decide) (by decide) (by decide) rfl
  have hapart : Apart m .global 2 16 4 32 := by
    have hbytes : ∀ x ∈ bytes 4 4, x ∉ bytes 2 2 ∧ x ∉ bytes 0 4 := by simp [bytes, List.range_succ]
    intro x hx
    refine ⟨(hbytes x hx).1, fun y hy c hc => ?_⟩
    rcases hwritten.origin hc with hold | rfl | ⟨-, rfl⟩
    · cases hold
    · rw [bytes_one, List.mem_singleton]
      rintro rfl
      exact (hbytes x hx).1 hy
    · exact (hbytes x hx).2
  exact ⟨m, m', hm, hends, hread, hframe .global 4 32 (by decide) (.inr hapart),
    hframe .stack 0 32 (by decide) (.inl (by decide))⟩

end FlowRecovery.Memory
