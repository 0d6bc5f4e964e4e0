import FlowRecovery.Spec.Token

/-!
# The grammar of specifications

`Tree.ofTokens` reads the parts of a specification. Each rule of the grammar has a set of kinds that
may follow it. When a rule does not fit, it leaves out what it was reading: it drops one token,
skips to the next one that may follow, and gives no tree. Whether an alternative fits is decided by
the kinds of the next three tokens, and where these do not decide, by reading ahead without
recovery.

The tree of a rule grows in a `Growth`: a forest, or a root with the forest below it. A rule is a
sequence of steps (`Step`), each of which adds what it reads to that tree, and is such a step itself
for the rules around it.
-/

namespace FlowRecovery.Spec

abbrev Forest := List Tree

/-- Reads from a list of tokens. The flag says that nothing is recovered, since this is only a look
ahead; a failure carries what the failing rule leaves in its place. -/
abbrev Reading := ReaderT Bool (EStateM Forest (List Token))

/-- A tree under construction. -/
structure Growth where
  root : Option Token := none
  items : Forest := []

namespace Growth

def forest (g : Growth) : Forest :=
  match g.root with
  | none => g.items
  | some t => [.node t.kind t.text g.items]

def under (g : Growth) (t : Token) : Growth := ⟨some t, g.forest⟩

def add (g : Growth) (ts : Forest) : Growth := { g with items := g.items ++ ts }

def leaf (g : Growth) (t : Token) : Growth := g.add [Tree.leaf t]

end Growth

namespace Grammar

/-! ### Sets of kinds -/

def transferStart : List Kind := [.name, .assignType, .halt, .underscore, .memset, .memcpy]

def expressionStart : List Kind :=
  [.num, .name, .register, .lsquare, .lparen, .registerIndex, .memoryIndex, .floatNum, .not, .fneg, .lnot]

def partStart : List Kind := [.name, .integer, .float, .operand, .endianness, .quote, .prime, .dollar, .fast]

def nameStart : List Kind := [.name, .quote, .prime, .dollar]

def floatOperators : List Kind :=
  [.mulF, .mulFD, .mulFQ, .mulFSD, .mulFDQ, .divF, .divFD, .divFQ, .plusF, .plusFD, .plusFQ, .minusF, .minusFD,
    .minusFQ, .pow]

def arithmeticOperators : List Kind := [.mod, .mul, .div, .smul, .sdiv, .smod, .plus, .minus]

def bitOperators : List Kind :=
  [.rlc, .rrc, .rl, .rr, .rshift, .lshift, .rshiftA, .or, .orNot, .and, .andNot, .xor, .xorNot]

def comparisons : List Kind := [.eq, .ne, .lt, .gt, .le, .ge, .ltu, .gtu, .leu, .geu]

def binaryOperators : List Kind := arithmeticOperators ++ bitOperators ++ floatOperators ++ comparisons

def afterExpression : List Kind :=
  transferStart ++ [.semi, .equate, .comma, .rsquare, .rcurly, .rparen, .quote, .colon, .quest]

def afterComparison : List Kind := afterExpression ++ [.land, .lor]

def afterBits : List Kind := afterComparison ++ comparisons

def afterArithmetic : List Kind := afterBits ++ bitOperators

def afterFloat : List Kind := afterArithmetic ++ arithmeticOperators

def afterOperand : List Kind := afterFloat ++ floatOperators

def afterPrimary : List Kind := afterOperand ++ [.atSign, .lcurly, .bang]

def afterParameters : List Kind := transferStart ++ [.lsquare, .rsquare, .rcurly, .rparen]

def secondAfterParameters : List Kind := expressionStart ++ transferStart ++ [.semi, .comma, .rsquare, .lcurly]

def afterElement : List Kind := transferStart ++ [.quote, .decor, .prime, .dollar]

def secondAfterElement : List Kind := expressionStart ++ transferStart ++ [.semi, .comma, .decor]

def rare : List Kind := [.index, .covers, .upTo, .shares, .assign, .implies, .dot]

/-! ### Steps -/

def look (n : Nat) : Reading Kind := do
  return (((← get).drop n).head?.map Token.kind).getD .eof

def ahead (n : Nat) (ks : List Kind) : Reading Bool := do
  return ks.contains (← look n)

def fail {α : Type} : Reading α := throw []

def take (ks : List Kind) : Reading Token := do
  match ← get with
  | t :: rest => if ks.contains t.kind then set rest; return t else fail
  | [] => if ks.contains .eof then return ⟨.eof, []⟩ else fail

/-- Adds what it reads to a tree. -/
abbrev Step := Growth → Reading Growth

def leafOf (ks : List Kind) : Step := fun g => do return g.leaf (← take ks)

def leaf (k : Kind) : Step := leafOf [k]

def leaves (ks : List Kind) : Step := fun g => ks.foldlM (fun g k => leaf k g) g

def rootOf (ks : List Kind) : Step := fun g => do return g.under (← take ks)

def root (k : Kind) : Step := rootOf [k]

/-- Leaves out a token. -/
def past (k : Kind) : Step := fun g => do let _ ← take [k]; return g

def wrap (k : Kind) (text : String) : Step := fun g => return ⟨none, [.node k text.toList g.forest]⟩

/-- Adds the tree that grows by a step, and recovers where the step does not fit. -/
def rule (follow : List Kind) (body : Step) : Step := fun g guessing tokens =>
  match body {} guessing tokens with
  | .ok g' rest => .ok (g.add g'.forest) rest
  | .error left rest =>
    if guessing then .error left rest
    else .ok (g.add left) ((rest.drop 1).dropWhile (fun t => !follow.contains t.kind))

def fits (body : Step) : Reading Bool := fun _ tokens =>
  match body {} true tokens with
  | .ok _ _ => .ok true tokens
  | .error _ _ => .ok false tokens

def bound : Nat := 4294967296

def repeatTo : Nat → List Kind → Step → Step
  | 0, _, _, g => return g
  | n + 1, ks, step, g => do
    if ← ahead 0 ks then repeatTo n ks step (← step g) else return g

def repeatWhile (ks : List Kind) (step : Step) : Step := repeatTo bound ks step

def commas (item : Step) : Step := item >=> repeatWhile [.comma] (past .comma >=> item)

/-! ### Expressions -/

def number : Step := rule [.semi, .comma, .rsquare, .covers, .upTo, .shares, .rcurly] (leaf .num)

def arguments (expr : Step) : Step :=
  rule [.rparen] fun g => do
    if ← ahead 0 expressionStart then commas expr g
    else if (← look 0) == .rparen then return g
    else fail

def call (k : Kind) (text : String) (expr : Step) : Step :=
  leaf .name >=> past .lparen >=> arguments expr >=> past .rparen >=> wrap k text

def primary (expr : Step) : Step :=
  rule afterPrimary fun g => do
    match ← look 0 with
    | .num => root .num g
    | .floatNum => root .floatNum g
    | .register => root .register g
    | .registerIndex => (root .registerIndex >=> past .lsquare >=> expr >=> past .rsquare) g
    | .memoryIndex => (root .memoryIndex >=> past .lsquare >=> expr >=> past .rsquare) g
    | .lparen => (past .lparen >=> expr >=> past .rparen) g
    | .lsquare =>
      (past .lsquare >=> expr >=> root .quest >=> expr >=> past .colon >=> expr >=> past .rsquare) g
    | .name =>
      if ← ahead 1 afterPrimary then root .name g
      else if (← look 1) == .lsquare then
        (leaf .name >=> root .lsquare >=> leafOf [.name, .num] >=> past .rsquare) g
      else if (← look 1) == .lparen then call .builtin "BUILTIN" expr g
      else fail
    | _ => fail

def leaving (left : Forest) (body : Step) : Step := fun g guessing tokens =>
  match body g guessing tokens with
  | .ok g rest => .ok g rest
  | .error _ rest => .error left rest

/-- Ranges of bits and widths after an operand. A width that has been read stays even if the rest
does not fit. -/
def suffixesTo (expr : Step) : Nat → Forest → Step
  | 0, _, g => return g
  | n + 1, left, g => do
    match ← look 0 with
    | .atSign =>
      let range := root .atSign >=> past .lsquare >=> expr >=> past .colon >=> expr >=> past .rsquare
      suffixesTo expr n left (← leaving left range g)
    | .bang => suffixesTo expr n left (← root .bang g)
    | .lcurly =>
      let width ← leaving left (past .lcurly >=> number >=> past .rcurly) {}
      let g ← wrap .cast "CAST" (width.add g.forest)
      suffixesTo expr n g.forest g
    | _ => return g

def suffixed (expr : Step) : Step := rule afterOperand (primary expr >=> suffixesTo expr bound [])

def tableOperator : Step := leaf .name >=> past .lsquare >=> leaf .name >=> past .rsquare

def lookupTo (expr : Step) : Nat → Step
  | 0 => fun _ => fail
  | n + 1 =>
    rule afterOperand (suffixed expr >=> fun g => do
      let named := (← look 0) == .name && (← look 1) == .lsquare && (← look 2) == .name
      if ← (if named then fits tableOperator else pure false) then
        (tableOperator >=> lookupTo expr n >=> wrap .lookupOp "LOOKUP_OP") g
      else if (← ahead 0 afterOperand) && !(← ahead 1 (rare ++ [.big, .little, .decor])) && !(← ahead 2 rare) then
        return g
      else fail)

def negated (expr : Step) : Step :=
  rule afterOperand (repeatWhile [.not, .fneg, .lnot] (rootOf [.not, .fneg, .lnot]) >=> lookupTo expr bound)

def joined (follow operators : List Kind) (operand : Step) : Step :=
  rule follow (operand >=> repeatWhile operators (rootOf operators >=> operand))

def expressionTo : Nat → Step
  | 0 => fun _ => fail
  | n + 1 =>
    let float := joined afterFloat floatOperators (negated (expressionTo n))
    let arithmetic := joined afterArithmetic arithmeticOperators float
    let bits := joined afterBits bitOperators arithmetic
    let compared := joined afterComparison comparisons bits
    rule afterExpression (joined afterExpression [.land, .lor] compared)

def expression : Step := expressionTo bound

/-! ### Register transfers -/

def threeOperands : Step := expression >=> past .comma >=> expression >=> past .comma >=> expression

def afterTransfer : List Kind := transferStart ++ [.semi, .rcurly]

def assignment : Step :=
  rule afterTransfer fun g => do
    match ← look 0 with
    | .assignType => (root .assignType >=> expression >=> past .equate >=> expression) g
    | .memset => (root .memset >=> threeOperands) g
    | .memcpy => (root .memcpy >=> threeOperands) g
    | _ => fail

def transfer : Step :=
  rule afterTransfer fun g => do
    match ← look 0 with
    | .assignType | .memset | .memcpy => assignment g
    | .name => call .function "FUNCTION" expression g
    | .halt => root .halt g
    | .underscore => past .underscore g
    | _ => fail

def transfers : Step :=
  rule [.semi, .rcurly] fun g => do
    if ← ahead 0 transferStart then (repeatWhile transferStart transfer >=> wrap .transfers "RTL") g else fail

def parameters : Step :=
  rule afterParameters fun g => do
    if (← look 0) == .name && (← ahead 1 (afterParameters ++ [.comma])) && (← ahead 2 secondAfterParameters) then
      (commas (leaf .name) >=> wrap .comma ",") g
    else if (← ahead 0 afterParameters) && (← ahead 1 secondAfterParameters) &&
        !(← ahead 2 (rare ++ [.rcurly, .big, .little, .decor, .colon, .quest])) then
      wrap .comma "," g
    else fail

/-! ### Names of instructions -/

def tableIndex : Step := fun g => do
  match ← look 0 with
  | .num => number g
  | .name => leaf .name g
  | _ => fail

def tableEntry : Step := leaf .name >=> root .lsquare >=> tableIndex >=> past .rsquare

def element : Step :=
  rule afterElement fun g => do
    match ← look 0 with
    | .prime => (root .prime >=> leaf .name >=> past .prime) g
    | .quote => (past .quote >=> root .name >=> past .quote) g
    | .name => tableEntry g
    | .dollar => (past .dollar >=> tableEntry) g
    | _ => fail

def elementAhead : Reading Bool := do
  if (← ahead 0 nameStart) && (← ahead 1 [.name, .lsquare]) &&
      (← ahead 2 [.num, .name, .lsquare, .quote, .prime]) then
    fits element
  else return false

def elementsTo : Nat → Step
  | 0 => fun _ => fail
  | n + 1 =>
    rule afterElement fun g => do
      if ← elementAhead then (element >=> elementsTo n) g
      else if (← ahead 0 afterElement) && (← ahead 1 secondAfterElement) &&
          !(← ahead 2 (rare ++ [.rsquare, .rcurly, .big, .little, .colon, .quest])) then
        return g
      else fail

def elements : Step := elementsTo bound

def nameHead : Step :=
  rule afterElement fun g => do
    if ← elementAhead then (element >=> elements) g
    else if (← look 0) == .name && (← ahead 1 afterElement) && (← ahead 2 secondAfterElement) then root .name g
    else fail

def decoration : Step := rule (transferStart ++ [.decor]) (root .decor)

def instructionName : Step :=
  rule transferStart (nameHead >=> elements >=> repeatWhile [.decor] decoration >=> wrap .instrName "INSTR_NAME")

/-! ### Tables -/

def stringEntry : Step :=
  rule [.comma, .rcurly] fun g => do
    if (← look 0) == .name then leaf .name g
    else if (← look 0) == .quote && (← look 1) == .quote then
      return (← (root .quote >=> past .quote) g).add [.node .name [] []]
    else if (← look 0) == .quote && (← ahead 1 [.name, .decor]) then
      (root .quote >=> leafOf [.name, .decor] >=> past .quote) g
    else fail

def quoted (inner : Step) : Step := rule [.comma, .rcurly] (root .quote >=> inner >=> past .quote)

def braced (entry : Step) : Step := root .lcurly >=> commas entry >=> past .rcurly

def stringTable : Step :=
  rule [.semi, .name, .lcurly] fun g => do
    match ← look 0 with
    | .name => leaf .name g
    | .lcurly => braced stringEntry g
    | _ => fail

def stringTables : Step :=
  rule [.semi] (stringTable >=> repeatWhile [.name, .lcurly] (stringTable >=> wrap .crossProduct "CROSSP"))

def thirdInTable : List Kind := partStart ++ [.eof, .semi, .comma, .lcurly, .rcurly, .decor]

def tableExpression : Step :=
  rule [.semi] fun g => do
    let names := (← ahead 0 [.name, .lcurly]) && (← ahead 1 [.semi, .name, .lcurly, .quote]) &&
      (← ahead 2 thirdInTable)
    if ← (if names then fits stringTables else pure false) then stringTables g
    else if (← look 0) == .lcurly && (← look 1) == .quote && (← ahead 2 binaryOperators) then
      rule [.semi] (braced (quoted (rule [.quote] (leafOf binaryOperators)))) g
    else if (← look 0) == .lcurly && (← look 1) == .quote && (← ahead 2 expressionStart) then
      rule [.semi] (braced (quoted expression)) g
    else fail

/-! ### Parts of a specification -/

def constantExpression : Step :=
  rule [.semi] (leaf .num >=> repeatWhile [.plus, .minus] (rootOf [.plus, .minus] >=> leaf .num))

def constant : Step :=
  rule [.semi] (leaf .name >=> past .equate >=> constantExpression >=> wrap .constant "CONSTANT")

def table : Step := rule [.semi] (leaf .name >=> past .equate >=> tableExpression >=> wrap .table "TABLE")

def function : Step :=
  rule [.semi] (leaf .name >=> past .lparen >=> parameters >=> past .rparen >=> past .lcurly >=> transfers >=>
    past .rcurly >=> wrap .function "FUNCTION")

def instruction : Step := rule [.semi] (instructionName >=> parameters >=> transfers >=> wrap .instr "INSTR")

def registerNames : Step := rule [.rsquare] (commas (leaf .register))

def registerPlace : Step := fun g => do
  match ← look 0 with
  | .covers => leaves [.covers, .register, .upTo, .register] g
  | .shares =>
    (leaves [.shares, .register, .atSign, .lsquare] >=> number >=> leaf .upTo >=> number >=> leaf .rsquare) g
  | .semi | .comma => return g
  | _ => fail

def registerRange : Step := fun g => do
  match ← look 0 with
  | .upTo => (leaf .upTo >=> number) g
  | .semi | .comma => return g
  | _ => fail

def registerDeclaration : Step :=
  rule [.semi, .comma] fun g => do
    let width := leaf .lsquare >=> number >=> leaves [.rsquare, .index] >=> number
    if (← look 0) == .register && (← look 1) == .index then (root .register >=> leaf .index >=> number) g
    else if (← look 0) == .register && (← look 1) == .lsquare then (leaf .register >=> width >=> registerPlace) g
    else if (← look 0) == .lsquare then
      (leaf .lsquare >=> registerNames >=> leaf .rsquare >=> width >=> registerRange) g
    else fail

def registers : Step :=
  rule [.semi] (leafOf [.integer, .float] >=> commas registerDeclaration >=> wrap .registers "REGDECL")

def operandIndex : Step := fun g => do
  match ← look 0 with
  | .lsquare => (leaf .lsquare >=> parameters >=> leaf .rsquare) g
  | .assignType => return g
  | _ => fail

def operandDeclaration : Step :=
  rule [.semi, .comma] fun g => do
    if (← look 0) == .name && (← look 1) == .equate then
      (root .name >=> leaf .equate >=> past .lcurly >=> parameters >=> past .rcurly) g
    else if (← look 0) == .name && (← ahead 1 [.name, .lsquare, .assignType]) then
      (root .name >=> parameters >=> operandIndex >=> leaf .assignType >=> expression) g
    else fail

def operands : Step := rule [.semi] (root .operand >=> commas operandDeclaration)

def endianness : Step := rule [.semi] (root .endianness >=> leafOf [.big, .little])

def fastEntry : Step := rule [.semi, .comma] (leaf .name >=> root .index >=> leaf .name)

def fastNames : Step := rule [.semi] (root .fast >=> commas fastEntry)

def part : Step :=
  rule [.semi] fun g => do
    match ← look 0 with
    | .integer | .float => registers g
    | .operand => operands g
    | .endianness => endianness g
    | .fast => fastNames g
    | k =>
      let second ← look 1
      let third ← look 2
      if k == .name && second == .equate && third == .num then constant g
      else if k == .name && second == .lparen then function g
      else if k == .name && second == .equate && (third == .name || third == .lcurly) then table g
      else if nameStart.contains k && (Kind.lsquare :: afterElement).contains second then instruction g
      else fail

def specification : Step := rule [.eof] (repeatWhile partStart (part >=> past .semi) >=> wrap .semi "SEMI")

def start : Step := rule [.eof] (specification >=> past .eof)

end Grammar

def Tree.ofTokens (tokens : List Token) : Option Tree :=
  match Grammar.start {} false tokens with
  | .ok g _ => g.forest.head?
  | .error _ _ => none

end FlowRecovery.Spec
