import FlowRecovery.Word

/-!
# Data types of operands

The kinds of data that machine instructions work on.
-/

namespace FlowRecovery

/-- What kind of data an operand is. -/
inductive DataType where
  | int8 | uint8 | int16 | uint16 | int32 | uint32 | int64 | uint64 | int128 | uint128
  | floatSingle | floatDouble | floatExtended | floatQuad
  | string | unknown
  deriving DecidableEq, Inhabited

namespace DataType

def name : DataType → String
  | int8 => "INT8" | uint8 => "UINT8" | int16 => "INT16" | uint16 => "UINT16" | int32 => "INT32"
  | uint32 => "UINT32" | int64 => "INT64" | uint64 => "UINT64" | int128 => "INT128" | uint128 => "UINT128"
  | floatSingle => "FL_SINGLE" | floatDouble => "FL_DOUBLE" | floatExtended => "FL_EXT_DOUBLE"
  | floatQuad => "FL_QUAD" | string => "STRING" | unknown => "UNKNOWN"

def bits : DataType → Int
  | int8 | uint8 => 8
  | int16 | uint16 => 16
  | int32 | uint32 | floatSingle => 32
  | int64 | uint64 | floatDouble => 64
  | floatExtended => 80
  | int128 | uint128 | floatQuad => 128
  | string | unknown => unknownWidth

def signed? (bits : Int) : Option DataType :=
  [int8, int16, int32, int64, int128].find? (·.bits == bits)

def unsigned? (bits : Int) : Option DataType :=
  [uint8, uint16, uint32, uint64, uint128].find? (·.bits == bits)

end DataType

end FlowRecovery
