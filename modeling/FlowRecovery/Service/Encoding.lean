import FlowRecovery.Word
import FlowRecovery.Fault

/-!
# Texts as bytes

Messages are texts in the encoding of characters by one to four bytes. `Encoding.decode` reads them;
bytes that are no text get a `Fault` that tells the first place where they are none.
-/

namespace FlowRecovery.Encoding

def isContinuation (b : UInt8) : Bool := 0x80 ≤ b && b < 0xC0

/-- Can the second byte follow the first byte of a character? Some first bytes leave out a part of
the continuations, because each character has only one form, and there are no characters beyond the
last or for the halves of pairs. -/
def canFollow (first second : UInt8) : Bool :=
  isContinuation second &&
    (first != 0xE0 || second ≥ 0xA0) && (first != 0xED || second < 0xA0) &&
    (first != 0xF0 || second ≥ 0x90) && (first != 0xF4 || second < 0x90)

/-- How many bytes a character has that starts with this one; nothing if no character does. -/
def width? (first : UInt8) : Option Nat :=
  if first < 0x80 then some 1
  else if first < 0xC2 then none
  else if first < 0xE0 then some 2
  else if first < 0xF0 then some 3
  else if first < 0xF5 then some 4
  else none

def continued (first : UInt8) (n : Nat) : List UInt8 → Nat
  | [] => 0
  | b :: rest => if n = 0 || !canFollow first b then 0 else 1 + ((rest.take (n - 1)).takeWhile isContinuation).length

def problem? (position : Nat) : List UInt8 → Option EncodingProblem
  | [] => none
  | b :: rest =>
    match width? b with
    | none => some (.badStart position b)
    | some w =>
      let n := continued b (w - 1) rest
      if n + 1 = w then problem? (position + w) (rest.drop n)
      else if n = rest.length then some (.cutOff position (n + 1) b)
      else some (.badContinuation position (n + 1) b)
termination_by bytes => bytes.length
decreasing_by simp only [List.length_cons, List.length_drop]; omega

def decode (bytes : List UInt8) : Faulty String :=
  match String.fromUTF8? ⟨bytes.toArray⟩ with
  | some s => .ok s
  | none => .error (.misencoded ((problem? 0 bytes).getD default))

def encode (s : String) : List UInt8 := s.toUTF8.data.toList

def place (position count : Nat) (byte : UInt8) : String :=
  if count = 1 then "byte 0x" ++ Text.padLeft 2 '0' (Text.hex byte.toNat) ++ " in position " ++ toString position
  else "bytes in position " ++ toString position ++ "-" ++ toString (position + count - 1)

def problemText (p : EncodingProblem) : String :=
  "'utf-8' codec can't decode " ++ match p with
    | .badStart position b => place position 1 b ++ ": invalid start byte"
    | .badContinuation position count b => place position count b ++ ": invalid continuation byte"
    | .cutOff position count b => place position count b ++ ": unexpected end of data"

end FlowRecovery.Encoding
