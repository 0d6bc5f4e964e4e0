import FlowRecovery.Numeral
import FlowRecovery.Text.Blank
import FlowRecovery.Text.DecimalDigit

/-!
# Numbers in requests

Requests hold numbers of any size, with an optional sign. Digits may be grouped by underscores, and
may come from any script; blanks around a number do not count.
-/

namespace FlowRecovery.Integer

/-- The character that stands for a character of a number: blanks and digits of all scripts stand
for those of one script, and what is neither stands for nothing in a number. -/
def plain (c : Char) : Char :=
  if c.toNat < 127 then c
  else if Text.isBlank c then ' '
  else match Text.decimalValue? c with
    | some d => Char.ofNat (48 + d)
    | none => '?'

def isPlainBlank (c : Char) : Bool := c == ' ' || (9 ≤ c.toNat && c.toNat ≤ 13)

def unmarked : List Char → List Char
  | '0' :: 'x' :: '_' :: cs | '0' :: 'X' :: '_' :: cs => cs
  | '0' :: 'x' :: cs | '0' :: 'X' :: cs => cs
  | cs => cs

def ungrouped : List Char → Option (List Char)
  | [] => some []
  | '_' :: _ => none
  | [c] => some [c]
  | [_, '_'] => none
  | c :: '_' :: d :: rest => (ungrouped (d :: rest)).map (c :: ·)
  | c :: d :: rest => (ungrouped (d :: rest)).map (c :: ·)

def decimalLimit : Nat := 4300

def read? (base : Nat) (s : String) : Option Int := do
  let (isNegative, cs) := Numeral.signed (Text.trimmed isPlainBlank (s.toList.map plain))
  let digits ← ungrouped (if base = 16 then unmarked cs else cs)
  if base = 10 && digits.length > decimalLimit then none
  let n ← Numeral.digitsValue base digits
  return if isNegative then -(n : Int) else (n : Int)

def read (base : Nat) (s : String) : Faulty Int :=
  match read? base s with
  | some n => .ok n
  | none => .error .malformedNumber

def hex (n : Int) : String := (if n < 0 then "-0x" else "0x") ++ Text.hex n.natAbs

end FlowRecovery.Integer
