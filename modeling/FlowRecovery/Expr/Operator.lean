/-!
# Operators

The operators of bit-vector expressions, with the sign that each has in printed expressions and the
name by which specifications and reports call it.
-/

namespace FlowRecovery

/-- An operator of bit-vector expressions. -/
inductive Operator where
  | unknown | cast | signExtend | zeroFill | floatResize
  | equal | less | lessOrEqual | unsignedLess | unsignedLessOrEqual
  | not | neg | and | or | xor | plus | mul
  | floatMul | floatDiv | div | mod | powerOf
  | shr | sar | shl | rol | ror | rolc | rorc
  deriving DecidableEq

namespace Operator

def name : Operator → String
  | unknown => "UNKNOWN" | cast => "CAST" | signExtend => "SIGN_EXTEND" | zeroFill => "ZERO_FILL"
  | floatResize => "FSIZE" | equal => "EQUAL" | less => "LESS" | lessOrEqual => "LESS_OR_EQUAL"
  | unsignedLess => "UNSIGNED_LESS" | unsignedLessOrEqual => "UNSIGNED_LESS_OR_EQUAL"
  | not => "NOT" | neg => "NEG" | and => "AND" | or => "OR" | xor => "XOR" | plus => "PLUS" | mul => "MUL"
  | floatMul => "FMUL" | floatDiv => "FDIV" | div => "DIV" | mod => "MOD" | powerOf => "POWER_OF"
  | shr => "SHR" | sar => "SAR" | shl => "SHL" | rol => "ROL" | ror => "ROR" | rolc => "ROLC" | rorc => "RORC"

def all : List Operator :=
  [unknown, cast, signExtend, zeroFill, floatResize, equal, less, lessOrEqual, unsignedLess,
    unsignedLessOrEqual, not, neg, and, or, xor, plus, mul, floatMul, floatDiv, div, mod, powerOf,
    shr, sar, shl, rol, ror, rolc, rorc]

def ofName? (s : String) : Option Operator := all.find? (·.name == s)

/-- The sign that stands for the operator in a printed expression; its name if it has none. -/
def sign : Operator → String
  | signExtend => "sign_extend" | zeroFill => "zero_fill"
  | equal => "==" | less => "<" | lessOrEqual => "<=" | unsignedLess => "u<" | unsignedLessOrEqual => "u<="
  | not => "!" | neg => "-" | and => "&" | or => "|" | xor => "^" | plus => "+" | mul => "*"
  | shr => ">>>" | sar => ">>" | shl => "<<"
  | o => o.name

def isAssociative : Operator → Bool
  | plus | and | or => true
  | _ => false

def isComparison : Operator → Bool
  | equal | less | lessOrEqual | unsignedLess | unsignedLessOrEqual => true
  | _ => false

def isFunctional : Operator → Bool
  | signExtend | zeroFill | floatResize => true
  | _ => false

end Operator

end FlowRecovery
