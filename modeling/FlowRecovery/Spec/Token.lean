import FlowRecovery.Fault

/-!
# Tokens of instruction specifications

The semantics of an instruction set is written in a small language: constants, tables of names,
functions, and for every instruction a list of register transfers. `Kind` lists the kinds of tokens,
followed by the kinds of tree nodes that have no token of their own.
-/

namespace FlowRecovery.Spec

/-- The kinds of tokens and of tree nodes. -/
inductive Kind where
  | eof | semi | num | name | equate | plus | minus | integer | float | comma | register | index
  | lsquare | rsquare | covers | upTo | shares | atSign | operand | lcurly | rcurly | assignType
  | endianness | big | little | lparen | rparen | quote | decor
  | mod | mul | div | smul | sdiv | smod
  | rlc | rrc | rl | rr | rshift | lshift | rshiftA | or | orNot | and | andNot | xor | xorNot
  | mulF | mulFD | mulFQ | mulFSD | mulFDQ | divF | divFD | divFQ
  | plusF | plusFD | plusFQ | minusF | minusFD | minusFQ | pow
  | eq | ne | lt | gt | le | ge | ltu | gtu | leu | geu
  | prime | dollar | halt | underscore | memset | memcpy | registerIndex | memoryIndex | colon | floatNum
  | quest | bang | not | fneg | lnot | land | lor | fast | assign | implies | dot
  | constant | table | crossProduct | function | instr | instrName | lookupOp | transfers | builtin | cast
  | registers
  deriving DecidableEq

abbrev Chars := List Char

/-- A token with its text. -/
structure Token where
  kind : Kind
  text : Chars

/-- A tree of a specification. -/
inductive Tree where
  | node (kind : Kind) (text : Chars) (children : List Tree)

namespace Tree

def kind : Tree → Kind
  | .node k _ _ => k

def text : Tree → Chars
  | .node _ t _ => t

def children : Tree → List Tree
  | .node _ _ ts => ts

def leaf (t : Token) : Tree := .node t.kind t.text []

end Tree

namespace Kind

def label : Kind → String
  | semi => "SEMI" | num => "NUM" | name => "NAME" | comma => "COMMA" | register => "REG_ID" | index => "INDEX"
  | lsquare => "LSQUARE" | rsquare => "RSQUARE" | upTo => "TO" | atSign => "AT" | floatNum => "FLOATNUM"
  | transfers => "RTL" | instrName => "INSTR_NAME"
  | _ => ""

def ofWord? : Chars → Option Kind
  | ['m'] => some memoryIndex
  | ['r'] => some registerIndex
  | ['L', 'I', 'T', 'T', 'L', 'E'] => some little
  | ['B', 'I', 'G'] => some big
  | ['E', 'N', 'D', 'I', 'A', 'N', 'N', 'E', 'S', 'S'] => some endianness
  | ['a', 'n', 'd'] => some land
  | ['o', 'r'] => some lor
  | ['I', 'N', 'T', 'E', 'G', 'E', 'R'] => some integer
  | ['F', 'L', 'O', 'A', 'T'] => some float
  | ['F', 'A', 'S', 'T'] => some fast
  | ['S', 'H', 'A', 'R', 'E', 'S'] => some shares
  | ['C', 'O', 'V', 'E', 'R', 'S'] => some covers
  | ['O', 'P', 'E', 'R', 'A', 'N', 'D'] => some operand
  | ['p', 'o', 'w'] => some pow
  | ['r', 'l'] => some rl
  | ['r', 'r'] => some rr
  | ['r', 'l', 'c'] => some rlc
  | ['r', 'r', 'c'] => some rrc
  | ['M', 'E', 'M', 'S', 'E', 'T'] => some memset
  | ['M', 'E', 'M', 'C', 'P', 'Y'] => some memcpy
  | ['h', 'a', 'l', 't'] => some halt
  | _ => none

end Kind

end FlowRecovery.Spec
