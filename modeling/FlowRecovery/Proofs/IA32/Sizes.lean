import FlowRecovery.Proofs.IA32.Lifting
import FlowRecovery.Proofs.IA32.Templates
import FlowRecovery.Proofs.Registers.Assignments

/-!
# General registers and numbers by size

In the table of variables, the general registers come after all flags and scratch registers, and so
do the registers around them (`Standard.le_place`). A number that is written in an instruction
becomes a number of its width (`toExpr_number`), and one of 8 bits can be extended
(`becomes_extended`).
-/

namespace FlowRecovery.IA32

open FlowRecovery.Expr Word

variable {s : Size} {arch : Architecture} {b : BitVec 8}

/-! ### Sizes -/

/-- The variable is a general register of the size. -/
structure Size.Has (s : Size) (a : Var) : Prop where
  width_eq : a.width = s.bits
  le_index : 37 ≤ a.index

namespace Size

theorem bits_pos (s : Size) : 0 < (s.bits : Int) := by cases s <;> decide

theorem one_lt_bits (s : Size) : 1 < (s.bits : Int) := by cases s <;> decide

theorem bits_le (s : Size) : s.bits ≤ 64 := by cases s <;> decide

theorem width_scratch (s : Size) : s.scratch.width = s.bits := by cases s <;> rfl

theorem le_index (s : Size) (n : Fin 8) : 37 ≤ (s.var n).index := by
  cases s <;> simp only [var] <;> omega

theorem has_var (s : Size) (n : Fin 8) : s.Has (s.var n) := ⟨by cases s <;> rfl, s.le_index n⟩

theorem Has.ne_scratch {a : Var} (h : s.Has a) : a.index ≠ s.scratch.index := by
  have := h.le_index
  cases s <;> simp only [scratch] <;> omega

def shown (s : Size) (r : Registers) (ρ : Registers.File) (n : Fin 8) : BitVec s.bits :=
  (r.read ρ (s.var n)).setWidth s.bits

end Size

/-! ### Registers of the machine -/

theorem place_around {r : Registers} {x p : Var} {f l : Expr} (h : r.parent? x = some (.bits (.var p) f l)) :
    (r.place x).1 = x.index ∨ (r.place x).1 = (r.place p).1 := by
  rw [Registers.place, h]
  split
  · next heq =>
    cases heq
    split
    · exact .inr rfl
    · exact .inl rfl
  · exact .inl rfl

theorem Standard.le_place (h : Standard arch) (s : Size) (n : Fin 8) : 37 ≤ (arch.vars.place (s.var n)).1 := by
  have hparent (s : Size) (n : Fin 8) := (h.general s (by cases s <;> decide) n).2
  have hdword (n : Fin 8) : 37 ≤ (arch.vars.place (Size.dword.var n)).1 := by
    rw [Registers.place_whole (hparent .dword n)]
    exact Size.le_index .dword n
  have hword (n : Fin 8) : 37 ≤ (arch.vars.place (Size.word.var n)).1 := by
    rcases place_around (hparent .word n) with heq | heq <;> rw [heq]
    · exact Size.le_index .word n
    · exact hdword n
  cases s with
  | dword => exact hdword n
  | word => exact hword n
  | byte =>
    rcases place_around (hparent .byte n) with heq | heq <;> rw [heq]
    · exact Size.le_index .byte n
    · exact hword _

theorem Standard.withGroups (h : Standard arch) (groups : List (String × List Template)) :
    Standard { arch with groups := groups } :=
  ⟨h.counter, h.general, h.wholes⟩

theorem standard_architecture : Standard architecture := standard_machine.withGroups _

/-! ### Numbers -/

theorem toExpr_number {v : Int} {t : DataType} {n : Nat} (ht : t.bits = n) (hone : 1 < n) (hn : n ≤ 64)
    (regs : Registers) : (Operand.immediate v t).toExpr regs = .ok (.num (ofBits (.ofInt n v)) n) := by
  change Except.ok (number (.ofInt v) t.bits) = _
  rw [ht, number_eq, settle_eq_wrap (by omega), ← low_ofInt hn]
  rfl

theorem extend_short (hs : s ≠ .byte) :
    extend true 8 (s.bits - 1) (ofBits b) 8 = .num (ofBits (b.signExtend s.bits)) s.bits := by
  have hbits : 8 < s.bits ∧ s.bits ≤ 64 := by
    cases s
    · exact absurd rfl hs
    all_goals decide
  have hwidth : max (wrap32 ((s.bits : Int) - 1 + 1)) 8 = s.bits := by
    rw [wrap32_of_lt (by omega) (by omega)]
    omega
  have hvalue := extend_ofBits true (w := 8) (u := s.bits) (by decide) (by decide) (by omega) (by omega) b
  obtain ⟨k, hk⟩ := extend_eq_number true 8 (s.bits - 1) (ofBits b) 8
  rw [hwidth, number_eq] at hk
  rw [hk] at hvalue ⊢
  exact congrArg (num · _) hvalue

theorem becomes_extended {c : Context} (hs : s ≠ .byte) (hb : Becomes c 1 (.var i8) (.num (ofBits b) 8)) :
    Becomes c 2 (s.extended (.var i8)) (.num (ofBits (b.signExtend s.bits)) s.bits) := by
  have hbits := s.one_lt_bits
  refine .done (by simp) (.cons (.num _ _) (.cons (.num _ _) (.cons hb .nil)))
    (show _ = Except.ok (s.bits : Int) from ?_) ?_ (show _ = Except.ok (s.bits : Int) from ?_) ?_
  · cases s <;> rfl
  · omega
  · cases s
    · exact absurd rfl hs
    all_goals rfl
  · change Except.ok (Reduction.done (extend true (low32 8) (low32 (Int64.ofNat (s.bits - 1)))
      (ofBits b) 8)) = _
    have hlast : low32 (.ofNat (s.bits - 1)) = s.bits - 1 := by cases s <;> decide
    have hfirst : low32 8 = 8 := by decide
    rw [hlast, hfirst, extend_short hs]

end FlowRecovery.IA32
