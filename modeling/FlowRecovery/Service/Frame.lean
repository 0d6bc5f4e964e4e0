import FlowRecovery.Fault

/-!
# Frames of messages

A message stands between two marks. It comes in pieces, whose borders mean nothing: `gather` adds
pieces until all that has come starts with the first mark and ends with the second one. Whether a
body holds the second mark itself is not looked at, so that such a message may end too early.
-/

namespace FlowRecovery.Frame

def opening : List UInt8 := [0x53, 0x54, 0x41, 0x52, 0x54]

def closing : List UInt8 := [0x45, 0x4E, 0x44]

def wrap (body : List UInt8) : List UInt8 := opening ++ body ++ closing

def isComplete (bytes : List UInt8) : Bool := opening.isPrefixOf bytes && closing.isSuffixOf bytes

def body (bytes : List UInt8) : Faulty (List UInt8) :=
  if isComplete bytes then .ok ((bytes.drop opening.length).take (bytes.length - (opening.length + closing.length)))
  else .error .unframed

/-- What has come when a message is complete, or nothing if no more comes before; and the pieces
that come after it. An empty piece says that no more comes. -/
structure Gathered where
  bytes : Option (List UInt8)
  rest : List (List UInt8)

def gather (before : List UInt8) : List (List UInt8) → Gathered
  | [] => ⟨none, []⟩
  | [] :: rest => ⟨none, rest⟩
  | (b :: bs) :: rest =>
    let bytes := before ++ (b :: bs)
    if isComplete bytes then ⟨some bytes, rest⟩ else gather bytes rest

end FlowRecovery.Frame
