import FlowRecovery.Proofs.Expr.BitVectors
import FlowRecovery.Proofs.Registers.Nesting
import FlowRecovery.Stmt.Basic

/-!
# Assignments to registers

An assignment writes the bit vector of an expression into a register, and thereby into all registers
that share bits with it.
-/

namespace FlowRecovery.Registers

variable (r : Registers)

def assign (ρ : File) (v : Var) (e : Expr) : File := r.write ρ v (e.denote (r.read ρ) v.width.toNat)

/-- What a statement does to the registers, as far as it assigns one. -/
def step (ρ : File) : Effect → File
  | .assign v e => r.assign ρ v e
  | _ => ρ

/-- The registers of the table and words of up to 64 bits. Sums have more than one bit. -/
def words : Vocabulary where
  declared := r.Declares
  width w := 0 < w ∧ w ≤ 64
  sum w := 1 < w
  rich := True
  memory := False
  declared_inj {x y} hx hy h := by
    unfold Declares at hx hy
    rw [h, hy] at hx
    exact (Option.some.inj hx).symm
  width_one := Vocabulary.bounded_one
  width_pos := @Vocabulary.bounded_pos
  width_lt := @Vocabulary.bounded_lt

theorem words_le (u : Int) (hu : r.words.width u) : u ≤ 64 := hu.2

/-- Nothing that is written to the one register can be read from the other. -/
def Disjoint (x y : Var) : Prop := ∀ i j, r.Bit x i j → ¬r.Bit y i j

end FlowRecovery.Registers
