import FlowRecovery.Domain.Value

/-!
# Strided intervals

The interval `stride[left; right]` in a region stands for the offsets `left`, `left + stride`, …,
`right`. The stride is zero exactly for a single offset. There is a largest interval for each of the
widths 1, 8, 16, 32, 64 and 80 only; of other widths, most questions fail.
-/

namespace FlowRecovery

/-- The offsets `left`, `left + stride`, …, `right` in a region. -/
structure Interval where
  region : Region
  left : Int64
  right : Int64
  stride : Int64
  width : Int
  deriving DecidableEq, Inhabited

namespace Interval

def make (region : Region) (left right stride : Int64) (width : Int) : Faulty Interval :=
  if stride = 0 ∧ right ≠ left then .error (.violated (some "Stride 0 for interval of size > 1!"))
  else if stride ≠ 0 ∧ (right - left) % stride ≠ 0 then .error (.violated (some
    ("Stride " ++ toString stride.toInt ++ " does not fit with interval bounds: " ++ toString left.toInt ++ ";" ++
      toString right.toInt ++ "!")))
  else .ok ⟨region, left, right, if right - left = 0 then 0 else stride, width⟩

def point (region : Region) (n : Num) : Interval := ⟨region, n.value, n.value, 0, n.width⟩

def ofNum (n : Num) : Interval := point .global n

def top (width : Int) : Faulty Interval :=
  if width = 1 then .ok ⟨.global, -1, 0, 1, 1⟩
  else if width = 8 then .ok ⟨.global, -128, 127, 1, 8⟩
  else if width = 16 then .ok ⟨.global, -32768, 32767, 1, 16⟩
  else if width = 32 then .ok ⟨.top, -2147483648, 2147483647, 1, 32⟩
  else if width = 64 ∨ width = 80 then .ok ⟨.top, Int64.minValue, Int64.maxValue, 1, width⟩
  else .error (.failure (some ("No top interval element with bitwidth " ++ toString width)))

def isTop (a : Interval) : Faulty Bool := do return (← top a.width) == a

def size (a : Interval) : Int64 := if a.stride = 0 then 1 else (a.right - a.left) / a.stride + 1

def leftOpen (a : Interval) : Faulty Bool := do return a.left == (← top a.width).left

def rightOpen (a : Interval) : Faulty Bool := do return a.right == (← top a.width).right

def offsets (a : Interval) (n : Nat) : List Int64 :=
  go n a.left
where
  go : Nat → Int64 → List Int64
    | 0, _ => []
    | n + 1, cursor => if cursor ≤ a.right then cursor :: go n (cursor + (if a.stride = 0 then 1 else a.stride)) else []

def listLimit : Nat := 100

def concretize (a : Interval) : Numbers :=
  if a.region ≠ .global ∨ a.size > Int64.ofNat listLimit then .all
  else if a.stride = 0 then .listed [.of a.left a.width]
  else .ofList ((a.offsets (listLimit + 1)).map (fun v => Num.of v a.width))

/-! ### Strides -/

def gcd (a b : Int) : Int :=
  if _hb : b = 0 then a
  else if 0 < a.tmod b then gcd b (a.tmod b) else b
  termination_by b.natAbs
  decreasing_by
    have h := Int.natAbs_tmod a b
    have h2 : a.natAbs % b.natAbs < b.natAbs := Nat.mod_lt _ (Int.natAbs_pos.2 _hb)
    omega

def gcdStride (s t : Int64) : Int64 :=
  if s = 0 then t else if t = 0 then s else Int64.ofInt (gcd s.toInt t.toInt)

def abs (v : Int64) : Int64 := if v < 0 then -v else v

variable (a b : Interval)

def joinStride : Int64 :=
  if a.stride = 0 ∧ b.stride = 0 then abs (b.left - a.left)
  else gcdStride (gcdStride a.stride b.stride) (abs (a.left - b.left))

/-! ### Order -/

def hull : Faulty Interval :=
  make a.region (min a.left b.left) (max a.right b.right) (joinStride a b) a.width

def widen (a towards : Interval) : Faulty Interval := do
  if towards.width ≠ a.width then throw (.violated none)
  let t ← top a.width
  if a.region ≠ towards.region then return t
  hull a towards

/-- An upper bound of both. Intervals that reach opposite ends give the largest one. -/
def join : Faulty Interval := do
  if a.width ≠ b.width then throw (.violated none)
  if ← a.isTop then return a
  if ← b.isTop then return b
  if a.region ≠ b.region then return ← top a.width
  if (← a.leftOpen) && (← b.rightOpen) then return ← top a.width
  if (← b.leftOpen) && (← a.rightOpen) then return ← top a.width
  hull a b

def lessOrEqual : Faulty Bool :=
  if a.width ≠ b.width then .error (.violated none)
  else if b.stride = 0 then .ok (a.left == b.left && a.right == b.left)
  else .ok (b.left ≤ a.left && a.right ≤ b.right && (a.left - b.left) % b.stride == 0 && a.stride % b.stride == 0)

/-! ### Arithmetic -/

/-- The sum; the largest interval if both ends do not overflow alike. -/
def plus : Faulty Interval := do
  if a.width ≠ b.width then throw (.violated none)
  let region := a.region.join b.region
  if region = .top then return ← top a.width
  let l := a.left + b.left
  let r := a.right + b.right
  let u := a.left &&& b.left &&& ~~~l &&& ~~~(a.right &&& b.right &&& ~~~r)
  let v := ((a.left ^^^ b.left) ||| ~~~(a.left ^^^ l)) &&& (~~~a.right &&& ~~~b.right &&& r)
  let t ← top a.width
  if (u ||| v) < 0 ∨ (u ||| v) > t.right then return t
  make region l r (gcdStride a.stride b.stride) a.width

def neg (a : Interval) : Faulty Interval := do
  let t ← top a.width
  if a.left = t.left then return if a.left = a.right then a else t
  make a.region (-a.right) (-a.left) a.stride a.width

def timesStride : Faulty Int64 :=
  if a.stride = 0 then
    if b.stride = 0 then .ok 0
    else if a.left = a.right then .ok (b.stride * abs a.left) else .error (.violated none)
  else if b.stride = 0 then
    if b.left = b.right then .ok (abs b.left * a.stride) else .error (.violated none)
  else .ok (a.stride * b.stride)

def times : Faulty Interval := do
  let width := wrap32 (a.width * 2)
  let t ← top width
  if a.region.join b.region ≠ .global then return t
  let ll := a.left * b.left
  let lr := a.left * b.right
  let rl := a.right * b.left
  let rr := a.right * b.right
  let least := min (min ll lr) (min rl rr)
  let greatest := max (max ll lr) (max rl rr)
  if least ≤ t.left ∨ greatest ≥ t.right then return t
  make a.region least greatest (← timesStride a b) width

/-- The bits from `first` to `last`: low bits of numbers that fit are the numbers, all others are
unknown. -/
def bits (first last : Int) (a : Interval) : Faulty Interval := do
  let width := wrap32 (last - first + 1)
  let t ← top width
  if a.region = .global ∧ first = 0 ∧ a.left ≥ t.left ∧ a.right ≤ t.right then
    make .global a.left a.right a.stride width
  else return t

def extendedWidth (last : Int) (a : Interval) : Int := max a.width (wrap32 (last + 1))

/-- Copies of the highest bit: numbers stay what they are. -/
def signExtend (_first last : Int) (a : Interval) : Faulty Interval :=
  if a.region = .global then make a.region a.left a.right a.stride (a.extendedWidth last)
  else top (a.extendedWidth last)

/-- Zeros from `first` on: numbers that fit below stay what they are. The bound wraps at 32 bits. -/
def zeroFill (first last : Int) (a : Interval) : Faulty Interval :=
  let bound := wrap32 (twoTo (first % 32).toNat)
  if a.region = .global ∧ a.left ≥ 0 ∧ a.right.toInt < bound then
    make a.region a.left a.right a.stride (a.extendedWidth last)
  else top (a.extendedWidth last)

def text (a : Interval) : Faulty String := do
  if ← a.isTop then return "TOP"
  let left := if ← a.leftOpen then "TOP" else toString a.left.toInt
  let right ← if a.size = 1 then pure "" else do
    pure (";" ++ (if ← a.rightOpen then "TOP" else toString a.right.toInt))
  return (if a.region = .global then "" else a.region.text ++ ":") ++ toString a.stride.toInt ++ "[" ++ left ++
    right ++ "]"

end Interval

instance : AbstractValue Interval where
  equals a b := a == b
  width? a := some a.width
  isTop := Interval.isTop
  isBot _ := false
  join := Interval.join
  lessOrEqual := Interval.lessOrEqual
  concretize a := .ok a.concretize
  isUnique a := .ok (a.size == 1)
  text := Interval.text

namespace Interval

def factory : Factory Interval where
  single n := .ok (ofNum n)
  several ns := AbstractValue.joinAll (ns.map ofNum)
  top := top
  tt := ofNum .tt
  ff := ofNum .ff

end Interval

end FlowRecovery
