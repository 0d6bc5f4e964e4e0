import FlowRecovery.Label

/-!
# Memory regions

Memory is divided into regions whose distance is unknown: global memory, the stack, and blocks that
the program allocates. The regions form a flat order with global memory at its bottom, because a
number is an offset into global memory and can be added to every pointer.
-/

namespace FlowRecovery

/-- A region of memory. -/
inductive Region where
  | top
  | global
  | stack
  | site (l : Label)
  | block (l : Label) (n : Int)
  | named (name : String)
  deriving DecidableEq, Inhabited, Hashable

namespace Region

def text : Region → String
  | top => "TOP_Invalid"
  | global => "Global"
  | stack => "Stack"
  | site l => "alloc" ++ l.text
  | block l n => "alloc" ++ l.text ++ "#" ++ toString n
  | named n => n

def ofName (name : String) : Region :=
  if name == "TOP_Invalid" then top
  else if name == "Global" then global
  else if name == "Stack" then stack
  else named name

def isSite : Region → Bool
  | site _ => true
  | _ => false

def join (a b : Region) : Region :=
  if a = top ∨ b = top then top
  else if a = global then b
  else if b = global then a
  else if a = b then a
  else top

end Region

end FlowRecovery
