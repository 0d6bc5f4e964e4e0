import FlowRecovery.Domain.Based

/-!
# Bounded sets

A bounded set lists up to `bound` based numbers; a set that would grow larger becomes the full set.
The full set remembers the bound that it broke.
-/

namespace FlowRecovery

/-- At most `bound` based numbers, or all of them. -/
structure KSet where
  bound : Int
  /-- The members, oldest first; nothing for the full set. -/
  members : Option (List Based)
  deriving DecidableEq, Inhabited

namespace KSet

def top : KSet := ⟨-1, none⟩

def isTop (s : KSet) : Bool := s.members.isNone

def isBot (s : KSet) : Bool := s.members == some []

/-- The set with one more member; the full set once there are too many. -/
def add (s : KSet) (a : Based) : KSet :=
  match s.members with
  | none => s
  | some as =>
    let as := AbstractValue.insert as a
    if (as.length : Int) > s.bound then ⟨s.bound, none⟩ else ⟨s.bound, some as⟩

def single (bound : Int) (a : Based) : KSet := ⟨bound, some [a]⟩

def equals (s t : KSet) : Bool :=
  s.bound == t.bound &&
    (match s.members, t.members with
    | none, none => true
    | some as, some bs => as.length == bs.length && AbstractValue.containsAll as bs
    | _, _ => false)

def concretize (s : KSet) : Numbers :=
  match s.members with
  | none => .all
  | some as => as.foldl (fun acc a =>
      match acc, a.concretize with
      | .listed ns, .listed ms => .listed (ms.foldl Numbers.insert ns)
      | _, _ => .all) (.listed [])

def isUnique (s : KSet) : Bool :=
  match s.members with
  | some [a] => a.isUnique
  | _ => false

def join (s t : KSet) : KSet :=
  match s.members, t.members with
  | _, none => t
  | some [], _ => t
  | none, _ => s
  | _, some [] => s
  | some as, some bs => (as ++ bs).foldl add ⟨max s.bound t.bound, some []⟩

def lessOrEqual (s t : KSet) : Bool :=
  match t.members, s.members with
  | none, _ => true
  | _, some [] => true
  | some [], _ => false
  | _, none => false
  | some bs, some as => AbstractValue.containsAll bs as

def mapMembers (f : Based → Faulty Based) (s : KSet) : Faulty KSet :=
  match s.members with
  | none | some [] => .ok s
  | some as => as.foldlM (fun r a => do return r.add (← f a)) ⟨s.bound, some []⟩

def mapPairs (f : Based → Based → Faulty Based) (s t : KSet) : Faulty KSet :=
  match s.members, t.members with
  | none, _ | some [], _ => .ok s
  | _, none | _, some [] => .ok t
  | some as, some bs =>
    (as.flatMap (fun a => bs.map (fun b => (a, b)))).foldlM (fun (r : KSet) (a, b) => do
      if r.isTop then return r else return r.add (← f a b)) ⟨max s.bound t.bound, some []⟩

def bits (first last : Int) : KSet → Faulty KSet := mapMembers (Based.bits first last)

def neg : KSet → Faulty KSet := mapMembers Based.neg

def signExtend (first last : Int) : KSet → Faulty KSet := mapMembers (Based.signExtend first last)

def zeroFill (first last : Int) : KSet → Faulty KSet := mapMembers (Based.zeroFill first last)

def plus : KSet → KSet → Faulty KSet := mapPairs Based.plus

def times : KSet → KSet → Faulty KSet := mapPairs Based.times

def text (s : KSet) : String :=
  match s.members with
  | none => "[null]"
  | some as => "[" ++ ", ".intercalate (as.map Based.text) ++ "]"

def factory (k : Int) : Factory KSet where
  single n := do return single k (← Based.ofNum n)
  several ns := do
    if (ns.length : Int) > k then
      match ns with
      | [] => throw .noElement
      | _ => return top
    return ⟨k, some ((← ns.mapM Based.ofNum).foldl AbstractValue.insert [])⟩
  top _ := .ok top
  tt := single k .tt
  ff := single k .ff

end KSet

instance : AbstractValue KSet where
  equals := KSet.equals
  width? _ := none
  isTop s := .ok s.isTop
  isBot := KSet.isBot
  join s t := .ok (s.join t)
  lessOrEqual s t := .ok (s.lessOrEqual t)
  concretize s := .ok s.concretize
  isUnique s := .ok s.isUnique
  text s := .ok s.text

end FlowRecovery
