import FlowRecovery.Fault
import FlowRecovery.Word

/-!
# Numerals

Texts of numbers, as users and other programs write them: digits with an optional sign, in a given
base or in the base that a leading mark tells.
-/

namespace FlowRecovery.Numeral

def digitValue (base : Nat) (c : Char) : Option Nat :=
  let v := if c.isDigit then some (c.toNat - 48)
    else if 'a' ≤ c ∧ c ≤ 'z' then some (c.toNat - 87)
    else if 'A' ≤ c ∧ c ≤ 'Z' then some (c.toNat - 55)
    else none
  v.filter (· < base)

def digitsValue (base : Nat) (cs : List Char) : Option Nat :=
  if cs.isEmpty then none
  else cs.foldlM (fun acc c => do return acc * base + (← digitValue base c)) 0

def fitting (bits : Nat) (n : Int) : Option Int :=
  if -(twoTo (bits - 1) : Int) ≤ n ∧ n < (twoTo (bits - 1) : Int) then some n else none

/-- The number of a text of digits with an optional sign, if it fits into `bits` bits. -/
def parse (base bits : Nat) (s : String) : Option Int := do
  let n : Int ← match s.toList with
    | '-' :: cs => (digitsValue base cs).map (fun n => -(n : Int))
    | '+' :: cs => (digitsValue base cs).map (fun n => (n : Int))
    | cs => (digitsValue base cs).map (fun n => (n : Int))
  fitting bits n

/-- The base of a text, told by a mark before its digits, and the digits: `0x`, `0X` and `#` mark
base 16, a leading zero marks base 8, and other digits have base 10. -/
def marked : List Char → Nat × List Char
  | '0' :: 'x' :: cs | '0' :: 'X' :: cs | '#' :: cs => (16, cs)
  | '0' :: c :: cs => (8, c :: cs)
  | cs => (10, cs)

def signed : List Char → Bool × List Char
  | '-' :: cs => (true, cs)
  | '+' :: cs => (false, cs)
  | cs => (false, cs)

def decode (s : String) : Faulty Int64 := do
  if s.isEmpty then throw (.malformedNumeral .empty)
  let (isNegative, rest) := signed s.toList
  let (base, digits) := marked rest
  if digits.head? = some '-' ∨ digits.head? = some '+' then throw (.malformedNumeral .misplacedSign)
  let n := (digitsValue base digits).map (fun n => if isNegative then -(n : Int) else (n : Int))
  match n.bind (fitting 64) with
  | some n => return Int64.ofInt n
  | none => throw (.malformedNumeral (.digits (String.ofList (if isNegative then '-' :: digits else digits)) base))

end FlowRecovery.Numeral
