import FlowRecovery.Expr.Evaluation
import FlowRecovery.Proofs.Word

/-!
# What expressions mean

A `Machine` gives a word to everything that an expression can speak of: variables, memory,
unspecified values, named operations, and operators about which the library knows nothing.
`Expr.value` is the word of an expression on a machine.

Sums and bitwise operations are those of bit vectors of the operation's width (`Word.wrap`); a truth
value is kept as a word of one bit. On a number the value is the number, and it always fits into its
width once the expression has one (`HasWidth` in the module on widths).
-/

namespace FlowRecovery

open Word

namespace Operator

def mix : Operator → Int64 → Int64 → Int64
  | and => fun a b => a &&& b
  | or => fun a b => a ||| b
  | _ => fun a b => a + b

def unit : Operator → Int64
  | and => -1
  | _ => 0

def total (o : Operator) (vs : List Int64) : Int64 := vs.foldr o.mix o.unit

/-- What an operator makes of two words, before the result is cut to its width; nothing if there is
no such meaning. -/
def meaning (o : Operator) (a b : Int64) : Option Int64 :=
  match o with
  | xor => some (a ^^^ b)
  | equal => some (Expr.truthWord (a == b))
  | less => some (Expr.truthWord (a < b))
  | lessOrEqual => some (Expr.truthWord (a ≤ b))
  | unsignedLess => some (Expr.truthWord (a.toUInt64 < b.toUInt64))
  | unsignedLessOrEqual => some (Expr.truthWord (a.toUInt64 ≤ b.toUInt64))
  | mul => some (a * b)
  | shl => some (shiftLeft a b.toInt)
  | shr => some (shiftRightZero (unsigned32 a) b.toInt)
  | sar => some (shiftRight a b.toInt)
  | div => if b = 0 then none else some (a / b)
  | mod => if b = 0 then none else some (a % b)
  | _ => none

end Operator

/-- What an expression can speak of. -/
structure Machine where
  /-- The contents of variables. -/
  register : Var → Int64
  /-- The contents of memory, by width, segment and address. -/
  memory : Int → Option Int64 → Int64 → Int64
  /-- The results of named operations. -/
  named : String → List Int64 → Int64
  /-- The unspecified value of a width. -/
  unspecified : Int → Int64
  /-- The results of operators without a meaning, by the widths and values of their operands. -/
  other : Operator → List Int → List Int64 → Int64

/-- What an operation of width `w` gives for operands of widths `ws` with values `vs`. -/
def Machine.apply (σ : Machine) (o : Operator) (w : Int) (ws : List Int) (vs : List Int64) : Int64 :=
  match o with
  | .plus | .and | .or => wrap w (o.total vs)
  | .not => wrap w (~~~vs.headD 0)
  | .neg => wrap w (-vs.headD 0)
  | .cast => wrap w (vs.headD 0)
  | .signExtend | .zeroFill =>
    match ws, vs with
    | [_, _, w'], [first, last, v] =>
      ((Expr.extend (o == .signExtend) (low32 first) (low32 last) v w').value?).getD 0
    | _, _ => wrap w (σ.other o ws vs)
  | _ =>
    match vs with
    | [a, b] => wrap w ((o.meaning a b).getD (σ.other o ws vs))
    | _ => wrap w (σ.other o ws vs)

namespace Expr

def widthOf (e : Expr) : Int :=
  match e.width with
  | .ok w => w
  | .error _ => 0

mutual

def value (σ : Machine) : Expr → Int64
  | .num v _ => v
  | .var x => wrap x.width (σ.register x)
  | .op o as => σ.apply o (widthOf (.op o as)) (as.map widthOf) (values σ as)
  | .bits x f l => ((extract (low32 (value σ f)) (low32 (value σ l)) (value σ x)).value?).getD 0
  | .cond c t f => if value σ c = 0 then value σ f else value σ t
  | .mem w a s _ => wrap w (σ.memory w (segmentValue σ s) (value σ a))
  | .special name as => wrap (specialWidth name) (σ.named name (values σ as))
  | .nondet w => wrap w (σ.unspecified w)

def values (σ : Machine) : List Expr → List Int64
  | [] => []
  | a :: as => value σ a :: values σ as

def segmentValue (σ : Machine) : Option Expr → Option Int64
  | none => none
  | some s => some (value σ s)

end

theorem values_eq_map (σ : Machine) (as : List Expr) : values σ as = as.map (value σ) := by
  induction as with
  | nil => rfl
  | cons a as ih => rw [values, ih, List.map_cons]

theorem widths_eq_map (as : List Expr) : widths as = as.map width := by
  induction as with
  | nil => rfl
  | cons a as ih => rw [widths, ih, List.map_cons]

theorem number_eq (v : Int64) (w : Int) : number v w = .num (settle w v) w := by
  unfold number settle
  by_cases hw : w = 1
  · subst hw
    by_cases hv : v = 0
    · subst hv
      rfl
    · simp [ofBool, tt, hv]
  · simp [hw]

end Expr

end FlowRecovery
