import FlowRecovery.Spec.Architecture

/-!
# Deciding equality of statements

`Expr.same` compares expressions node by node. It is finer than `Expr.equals`: two variables are the
same only if all that is known about them agrees, and an unspecified value is the same as itself.
With it, equality of expressions, of statements and of templates can be decided by evaluation.
-/

namespace FlowRecovery

namespace Expr

mutual

def same : Expr → Expr → Bool
  | .num v w, .num v' w' => v == v' && w == w'
  | .var x, .var y => x == y
  | .op o as, .op o' bs => o == o' && sameAll as bs
  | .bits x f l, .bits x' f' l' => same x x' && same f f' && same l l'
  | .cond c t f, .cond c' t' f' => same c c' && same t t' && same f f'
  | .mem w a s n, .mem w' a' s' n' => w == w' && same a a' && sameSegment s s' && n == n'
  | .special n as, .special n' bs => n == n' && sameAll as bs
  | .nondet w, .nondet w' => w == w'
  | _, _ => false

def sameAll : List Expr → List Expr → Bool
  | [], [] => true
  | a :: as, b :: bs => same a b && sameAll as bs
  | _, _ => false

def sameSegment : Option Expr → Option Expr → Bool
  | none, none => true
  | some a, some b => same a b
  | _, _ => false

end

mutual

theorem same_iff (a b : Expr) : same a b ↔ a = b := by
  match a with
  | .num .. | .var _ | .nondet _ => cases b <;> simp [same]
  | .op _ as | .special _ as => cases b <;> simp [same, sameAll_iff as]
  | .bits x y z | .cond x y z => cases b <;> simp [same, same_iff x, same_iff y, same_iff z, and_assoc]
  | .mem _ a s _ => cases b <;> simp [same, same_iff a, sameSegment_iff s, and_assoc]

theorem sameAll_iff (as bs : List Expr) : sameAll as bs ↔ as = bs := by
  match as with
  | [] => cases bs <;> simp [sameAll]
  | a :: as => cases bs <;> simp [sameAll, same_iff a, sameAll_iff as]

theorem sameSegment_iff (s s' : Option Expr) : sameSegment s s' ↔ s = s' := by
  match s with
  | none => cases s' <;> simp [sameSegment]
  | some a => cases s' <;> simp [sameSegment, same_iff a]

end

instance : DecidableEq Expr := fun a b => decidable_of_iff (same a b = true) (same_iff a b)

end Expr

deriving instance DecidableEq for Jump
deriving instance DecidableEq for PlacedJump
deriving instance DecidableEq for Effect
deriving instance DecidableEq for Stmt
deriving instance DecidableEq for Template

end FlowRecovery
