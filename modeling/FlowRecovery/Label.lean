import FlowRecovery.Word

/-!
# Program locations

A location of the program under analysis is an address together with the number of a statement,
because one instruction becomes several statements.
-/

namespace FlowRecovery

/-- The text of an address: eight hexadecimal digits, or more if needed. -/
def addressText (a : Int64) : String := "0x" ++ Text.padLeft 8 '0' (Text.hex64 a)

/-- A program location: a statement of the instruction at an address. -/
structure Label where
  address : Int64
  index : Int
  deriving DecidableEq, Inhabited, Hashable

def addressOfNumber (v : Int64) (width : Int) : Int64 :=
  if width = 16 then v &&& 0xFFFF else if width = 32 then v &&& 0xFFFFFFFF else v

def addressHash (a : Int64) : Int := wrap32 (31 + Word.low32 (a ^^^ Word.shiftRightZero a 32))

namespace Label

def hash (l : Label) : Int := wrap32 (31 * (31 + addressHash l.address) + l.index)

def text (l : Label) : String := addressText l.address ++ "_" ++ toString l.index

def lt (a b : Label) : Bool := a.address < b.address || (a.address == b.address && a.index < b.index)

def ofAddress (a : Int64) : Label := ⟨a, 0⟩

end Label

end FlowRecovery
