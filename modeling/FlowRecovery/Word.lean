/-!
# Machine words

Numbers of the analysed programs are 64-bit words in two's complement (`Int64`), bit widths and bit
positions are 32-bit integers. This module holds the few operations on them that the core library
does not name: truncation to a width, masks, and hexadecimal texts.
-/

namespace FlowRecovery

def unknownWidth : Int := -2147483648

def wrap32 (n : Int) : Int := n.bmod 4294967296

def twoTo (n : Nat) : Nat := Nat.pow 2 n

variable (v : Int64)

namespace Word

def low32 : Int := wrap32 v.toInt

/-- `v` shifted left; of the distance, only the low six bits count. -/
def shiftLeft (n : Int) : Int64 := v <<< Int64.ofInt (n % 64)

/-- `v` shifted right with copies of its sign bit; of the distance, only the low six bits count. -/
def shiftRight (n : Int) : Int64 := v >>> Int64.ofInt (n % 64)

/-- `v` shifted right with zeros; of the distance, only the low six bits count. -/
def shiftRightZero (n : Int) : Int64 :=
  (v.toUInt64 >>> UInt64.ofNat (n % 64).toNat).toInt64

/-- The word with ones exactly at the positions from `first` to `last`. -/
def bitMask (first last : Int) : Int64 :=
  shiftLeft (shiftLeft 1 (last - first + 1) - 1) first

/-- The word that agrees with `v` on the low `w` bits and repeats bit `w - 1` above them. Words of
one bit or of at least 64 are left alone, as are those of unknown width. -/
def truncate (w : Int) : Int64 :=
  if 1 < w ∧ w < 64 then Int64.ofInt (v.toInt.bmod (twoTo w.toNat)) else v

def unsigned32 : Int64 := v &&& 0xFFFFFFFF

end Word

namespace Text

def hex (n : Nat) : String := String.ofList (Nat.toDigits 16 n)

/-- `s` filled up on the left with `c` to at least `n` characters. -/
def padLeft (n : Nat) (c : Char) (s : String) : String :=
  String.ofList (List.replicate (n - s.length) c) ++ s

/-- The 32-bit two's complement of `n` in hexadecimal digits. -/
def hex32 (n : Int) : String := hex (n % 4294967296).toNat

/-- The 64-bit two's complement of `v` in hexadecimal digits. -/
def hex64 : String := hex v.toUInt64.toNat

def takeRight (n : Nat) (s : String) : String :=
  String.ofList (s.toList.drop (s.length - n))

end Text

end FlowRecovery
