import FlowRecovery.Fault
import FlowRecovery.Word

/-!
# Reading little-endian files

`FileReader` reads the numbers and texts of a file one after the other from a position that moves
on. Numbers that would reach beyond the end of the file cannot be read; a single byte beyond it is
outside of the file's bytes.
-/

namespace FlowRecovery

abbrev FileReader := ReaderT ByteArray (StateT Int Faulty)

namespace FileReader

def byteAt (file : ByteArray) (i : Int) : Faulty UInt8 :=
  if h : 0 ≤ i ∧ i.toNat < file.size then .ok (file.get i.toNat h.2) else .error .outsideArray

def byte : FileReader Int := do
  let i ← get
  let b ← byteAt (← read) i
  set (i + 1)
  return b.toNat

def seek (pos : Int) : FileReader Unit := do
  if pos < 0 ∨ pos ≥ (← read).size then throw .unreadable
  set pos

def require (n : Int) : FileReader Unit := do
  if (← get) + n > (← read).size then throw .unreadable

def bytes (n : Nat) : FileReader (List Int) := do
  require n
  (List.range n).mapM (fun _ => byte)

def assemble : List Int → Int
  | [] => 0
  | b :: bs => b + 256 * assemble bs

def unsigned (n : Nat) : FileReader Int := do return assemble (← bytes n)

def word : FileReader Int := unsigned 2

def dword : FileReader Int := unsigned 4

def int32 : FileReader Int := do return wrap32 (← dword)

def int16 : FileReader Int := do return (← word).bmod 65536

def int64 : FileReader Int64 := do return Int64.ofInt (← unsigned 8)

def charsTo : Nat → FileReader (List Char)
  | 0 => return []
  | limit + 1 => do
    let b ← byte
    if b = 0 then return []
    return Char.ofNat b.toNat :: (← charsTo limit)

def text : FileReader String := do return String.ofList (← charsTo ((← read).size + 1))

def times {α : Type} (n : Nat) (r : FileReader α) : FileReader (List α) :=
  match n with
  | 0 => return []
  | n + 1 => do
    let a ← r
    return a :: (← times n r)

def expect (expected : List Int) : FileReader Bool := do
  if (← get) + expected.length > (← read).size then return false
  go expected
where
  go : List Int → FileReader Bool
    | [] => return true
    | b :: bs => do if (← byte) = b then go bs else return false

end FileReader

def readNumber (file : ByteArray) (pos : Int) (width : Int) : Faulty Int64 := do
  let count := width.tdiv 8
  let low (i : Nat) : Faulty Int64 := do
    let b ← FileReader.byteAt file (pos + i)
    return Word.shiftLeft (Int64.ofNat b.toNat) (i * 8)
  if pos < 0 ∨ pos ≥ file.size then throw .unreadable
  let lows ← (List.range (count - 1).toNat).mapM low
  let last := pos + (count - 1).toNat
  if last ≥ file.size then throw .unreadable
  let high ← FileReader.byteAt file last
  return lows.foldl (· ||| ·) (Word.shiftLeft high.toInt8.toInt64 (wrap32 ((count - 1) * 8)))

end FlowRecovery
