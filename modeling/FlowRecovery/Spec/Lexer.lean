import FlowRecovery.Spec.Token
import FlowRecovery.Word

/-!
# Reading tokens

`Token.scan` cuts the characters of a specification into tokens. Blanks, line ends and comments
(from `#` to the end of the line) stand between tokens. Of the tokens that fit, the longest is
taken; a sign directly before digits belongs to the number.
-/

namespace FlowRecovery.Spec

namespace Token

variable (c : Char)

def isLetter : Bool := ('A' ≤ c && c ≤ 'Z') || ('a' ≤ c && c ≤ 'z')

def isDigit : Bool := '0' ≤ c && c ≤ '9'

def isHexDigit : Bool := isDigit c || ('A' ≤ c && c ≤ 'F') || ('a' ≤ c && c ≤ 'f')

def digitValue : Nat :=
  if isDigit c then c.toNat - '0'.toNat
  else if 'a' ≤ c then c.toNat - 'a'.toNat + 10
  else c.toNat - 'A'.toNat + 10

def digitsValue (base : Nat) (ds : List Char) : Nat := ds.foldl (fun n d => n * base + digitValue d) 0

def span (p : Char → Bool) (cs : List Char) : List Char × List Char := (cs.takeWhile p, cs.dropWhile p)

/-- A whole number without sign: decimal, hexadecimal after `0x`, or a power of two after `2**`. -/
def natural : List Char → Option (Faulty Nat × List Char)
  | '0' :: 'x' :: cs =>
    match span isHexDigit cs with
    | ([], _) => none
    | (ds, rest) => some (.ok (digitsValue 16 ds), rest)
  | '2' :: '*' :: cs =>
    match cs with
    | '*' :: cs =>
      match span isDigit cs with
      | ([], _) => none
      | (ds, rest) =>
        let n := digitsValue 10 ds
        some (if n < 2147483648 then .ok (twoTo n) else .error .malformedNumber, rest)
    | _ => none
  | cs =>
    match span isDigit cs with
    | ([], _) => none
    | (ds, rest) => some (.ok (digitsValue 10 ds), rest)

def whole : List Char → Option (Faulty Chars × List Char)
  | '-' :: cs => (natural cs).map (fun (n, rest) => (n.map (fun n => '-' :: Nat.toDigits 10 n), rest))
  | cs => (natural cs).map (fun (n, rest) => (n.map (Nat.toDigits 10), rest))

variable (cs : List Char)

def fraction : Option (Faulty Chars × List Char) :=
  let (sign, body) := match cs with
    | '-' :: rest => (['-'], rest)
    | _ => ([], cs)
  match span isDigit body with
  | ([], _) => none
  | (ds, '.' :: rest) =>
    match span isDigit rest with
    | ([], _) => none
    | (fs, rest) =>
      let text := sign ++ ds ++ '.' :: fs
      match rest with
      | 'e' :: rest | 'E' :: rest => whole rest
      | _ => some (.ok text, rest)
  | _ => none

def fractionAhead : List Char → Bool
  | _ :: a :: b :: _ => (isDigit a || a == '.') && (isDigit b || b == '.')
  | _ => false

def assignWidth : List Char → Option (Chars × List Char)
  | '*' :: cs =>
    let (mark, body) := match cs with
      | c :: rest => if 'a' ≤ c && c ≤ 'z' then ([c], rest) else ([], cs)
      | [] => ([], cs)
    match span isDigit body with
    | ([], _) => none
    | (ds, '*' :: rest) => some ('*' :: mark ++ ds ++ ['*'], rest)
    | _ => none
  | _ => none

def shown : String :=
  if ' ' ≤ c && c ≤ '~' then "'" ++ String.singleton c ++ "'"
  else
    let digit (n : Nat) : Char := Char.ofNat (if n < 10 then n + 48 else n + 55)
    "0x" ++ String.ofList [digit (c.toNat / 16), digit (c.toNat % 16)]

def found : List Char → String
  | [] => "EOF"
  | '\n' :: _ => "'\\n'"
  | '\r' :: _ => "'\\r'"
  | '\t' :: _ => "'\\t'"
  | c :: _ => "'" ++ String.singleton c ++ "'"

def unexpected (c : Char) : Fault := .lexical ("unexpected char: " ++ shown c)

def expecting (c : Char) (cs : List Char) : Fault :=
  .lexical ("expecting '" ++ String.singleton c ++ "', found " ++ found cs)

/-- Signs of several characters, by the first of them. Of signs with a common start, the longest
comes first. -/
def signs : Char → List (Chars × Kind)
  | '<' => [("<=u".toList, .leu), ("<=".toList, .le), ("<u".toList, .ltu), ("<<".toList, .lshift)]
  | '>' => [(">=u".toList, .geu), (">>A".toList, .rshiftA), (">=".toList, .ge), (">u".toList, .gtu),
      (">>".toList, .rshift)]
  | '/' => [("/fd".toList, .divFD), ("/fq".toList, .divFQ), ("/!".toList, .sdiv), ("/f".toList, .divF)]
  | '+' => [("+fd".toList, .plusFD), ("+fq".toList, .plusFQ), ("+f".toList, .plusF)]
  | '-' => [("-fd".toList, .minusFD), ("-fq".toList, .minusFQ), ("->".toList, .index), ("-f".toList, .minusF)]
  | '~' => [("~=".toList, .ne), ("~f".toList, .fneg), ("~L".toList, .lnot)]
  | ':' => [(":=".toList, .equate)]
  | '=' => [("=>".toList, .implies)]
  | '.' => [("..".toList, .upTo)]
  | '|' => [("|~".toList, .orNot)]
  | '&' => [("&~".toList, .andNot)]
  | '^' => [("^~".toList, .xorNot)]
  | '%' => [("%!".toList, .smod)]
  | _ => []

def characters : List (Char × Kind) := [
  (';', .semi), (',', .comma), ('(', .lparen), (')', .rparen), ('[', .lsquare), (']', .rsquare),
  ('\x7b', .lcurly), ('\x7d', .rcurly), ('@', .atSign), ('\'', .prime), ('?', .quest), ('!', .bang), ('"', .quote),
  ('$', .dollar), ('_', .underscore), (':', .colon), ('~', .not), ('|', .or), ('&', .and), ('+', .plus),
  ('/', .div), ('%', .mod), ('=', .eq), ('<', .lt), ('>', .gt), ('.', .dot)]

def after? : List Char → List Char → Option (List Char)
  | [], cs => some cs
  | p :: ps, c :: cs => if p == c then after? ps cs else none
  | _, [] => none

def star : Faulty (Token × List Char) :=
  match cs with
  | '*' :: 'f' :: 'd' :: 'q' :: rest => .ok (⟨.mulFDQ, "*fdq".toList⟩, rest)
  | _ =>
    match assignWidth cs with
    | some (t, rest) => .ok (⟨.assignType, t⟩, rest)
    | none =>
      match cs with
      | '*' :: 'f' :: 'd' :: rest => .ok (⟨.mulFD, "*fd".toList⟩, rest)
      | '*' :: 'f' :: 'q' :: rest => .ok (⟨.mulFQ, "*fq".toList⟩, rest)
      | '*' :: 'f' :: 's' :: 'd' :: rest => .ok (⟨.mulFSD, "*fsd".toList⟩, rest)
      | '*' :: 'f' :: 's' :: rest => .error (expecting 'd' rest)
      | '*' :: '!' :: rest => .ok (⟨.smul, "*!".toList⟩, rest)
      | '*' :: 'f' :: rest => .ok (⟨.mulF, "*f".toList⟩, rest)
      | _ => .ok (⟨.mul, ['*']⟩, cs.drop 1)

def numeric (c : Char) (cs : List Char) : Faulty (Token × List Char) := do
  match (if fractionAhead cs then fraction cs else none) with
  | some (t, rest) => return (⟨.floatNum, ← t⟩, rest)
  | none =>
    match whole cs with
    | some (t, rest) => return (⟨.num, ← t⟩, rest)
    | none => if c == '-' then return (⟨.minus, ['-']⟩, cs.drop 1) else throw (unexpected c)

def caret (rest : List Char) : Token × List Char :=
  match rest with
  | '"' :: cs =>
    match span isLetter cs with
    | ([], _) => (⟨.xor, ['^']⟩, rest)
    | (ws, '"' :: rest') => (⟨.decor, '^' :: ws⟩, rest')
    | _ => (⟨.xor, ['^']⟩, rest)
  | _ => (⟨.xor, ['^']⟩, rest)

def word : Token × List Char :=
  let (w, rest) := span (fun c => isLetter c || isDigit c || c == '_') cs
  (⟨(Kind.ofWord? w).getD .name, w⟩, rest)

def next : Faulty (Token × List Char) :=
  match cs with
  | [] => .ok (⟨.eof, []⟩, [])
  | c :: rest =>
    if isLetter c then .ok (word cs)
    else if isDigit c then numeric c cs
    else if c == '*' then star cs
    else
      match (signs c).findSome? (fun (s, k) => (after? s cs).map (fun r => (Token.mk k s, r))) with
      | some r => .ok r
      | none =>
        match c, rest with
        | '%', d :: _ =>
          if isLetter d then
            let (w, rest) := span (fun c => isLetter c || isDigit c) rest
            .ok (⟨.register, '%' :: w⟩, rest)
          else single c rest
        | '.', d :: _ =>
          if isLetter d then
            let (w, rest) := span (fun c => isLetter c || isDigit c || c == '.') rest
            .ok (⟨.decor, '.' :: w⟩, rest)
          else single c rest
        | ':', ':' :: more =>
          match more with
          | '=' :: more => .ok (⟨.assign, "::=".toList⟩, more)
          | _ => .error (expecting '=' more)
        | '^', _ => .ok (caret rest)
        | '-', _ => numeric c cs
        | _, _ => single c rest
where
  single (c : Char) (rest : List Char) : Faulty (Token × List Char) :=
    match characters.lookup c with
    | some k => .ok (⟨k, [c]⟩, rest)
    | none => .error (unexpected c)

def inComment : Bool := c.toNat < 128 && c != '\n' && c != '\r'

def skip : List Char → Bool → List Char
  | [], _ => []
  | c :: cs, comment =>
    if comment && inComment c then skip cs true
    else if c == ' ' || c == '\t' || c == '\x0c' || c == '\n' || c == '\r' then skip cs false
    else if c == '#' then skip cs true
    else c :: cs

def scanTo : Nat → List Char → Faulty (List Token)
  | 0, _ => .ok []
  | fuel + 1, cs =>
    match skip cs false with
    | [] => .ok []
    | cs => do
      let (t, rest) ← next cs
      return t :: (← scanTo fuel rest)

def scan : Faulty (List Token) := scanTo (cs.length + 1) cs

end Token

end FlowRecovery.Spec
