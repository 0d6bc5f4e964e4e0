import FlowRecovery.Program.Initial
import FlowRecovery.Domain.Constant
import FlowRecovery.Proofs.Memory.Bytes
import FlowRecovery.Proofs.Memory.Cells

/-!
# Reading memory of constants

Memory is accessed by one, two or four bytes (`IsAccess`). A read gives a cell, a part of a larger
cell (`readWith_part`), or a number put together from bytes (`readBytes_cases`).

A number that is put together grows from its lowest byte on, and is kept as a signed number all the
while. A byte with its highest bit set therefore sets all bits of the bytes above it: the bytes `u`
become `smear u`. They come out as they were exactly if each byte with its highest bit set is
followed by bytes of ones (`smear_eq_iff`).
-/

namespace FlowRecovery

open Constant Word List BitVec

def IsAccess (size : Nat) : Prop := size = 1 ∨ size = 2 ∨ size = 4

instance (size : Nat) : Decidable (IsAccess size) := inferInstanceAs (Decidable (_ ∨ _))

variable {d size i : Nat} {n : Num} {c : Cell Constant}

theorem IsAccess.le (h : IsAccess size) : 1 ≤ size ∧ size ≤ 4 := by
  unfold IsAccess at h
  omega

/-! ### Numbers -/

theorem Num.of_eq_wrap {w : Int} (hw : 1 < w) (v : Int64) : Num.of v w = ⟨Word.wrap w v, w⟩ := by
  have hone : (w == 1) = false := by simp; omega
  rw [Num.of, hone, if_neg Bool.false_ne_true, truncate_eq_wrap hw]

/-- A value of `w` bits, whose number is one of `w` bits if it is known. -/
def Constant.Fits (w : Int) : Constant → Prop
  | .known n => n.width = w ∧ Word.Fits w n.value
  | .unknown u => u = w

instance (w : Int) : (a : Constant) → Decidable (a.Fits w)
  | .known _ => inferInstanceAs (Decidable (_ ∧ _))
  | .unknown _ => inferInstanceAs (Decidable (_ = _))

theorem Constant.Fits.width_eq {w : Int} {a : Constant} (h : a.Fits w) : a.width = w := by
  cases a with
  | known n => exact h.1
  | unknown u => exact h

@[simp] theorem Constant.top_width (h : IsAccess size) : Constant.top (8 * size) = .ok (.unknown (8 * size)) := by
  have := h.le
  rw [top, if_pos (by omega)]

theorem Constant.ofNum_eq (hpos : 0 < n.width) (hle : n.width ≤ 128) : ofNum n = .ok (.known n) := by
  rw [ofNum, if_neg (by omega), if_neg (by omega)]

theorem Constant.several_singleton (hpos : 0 < n.width) (hle : n.width ≤ 128) :
    Constant.factory.several [n] = .ok (.known n) := by
  simp only [factory, mapM_cons, mapM_nil, ofNum_eq hpos hle]
  rfl

theorem Constant.concretize_unknown_of_ne {u : Int} (hu : u ≠ 1) :
    AbstractValue.concretize (Constant.unknown u) = .ok .all := by
  change Except.ok (concretize (.unknown u)) = _
  rw [concretize, beq_false_of_ne hu]
  rfl

theorem Constant.concretize_unknown {u : Int} (hsize : IsAccess size)
    (hu : (Constant.unknown u).Fits (8 * size)) : AbstractValue.concretize (Constant.unknown u) = .ok .all := by
  have hle := hsize.le
  have hu : u = 8 * size := hu
  exact concretize_unknown_of_ne (by omega)

namespace Word

theorem byte_ofBits_extract {k : Nat} (hk : d + k ≤ 8) (hi : i < k) (v : Int64) :
    byte (ofBits (v.toBitVec.extractLsb' (8 * d) (8 * k))) i = byte v (d + i) := by
  apply eq_of_getLsbD_eq
  intro j hj
  rw [getLsbD_byte, getLsbD_byte, toBitVec_ofBits, getLsbD_signExtend]
  rw [getLsbD_extractLsb']
  simp only [hj, show 8 * i + j < 64 by omega, show 8 * i + j < 8 * k by omega, decide_true, Bool.true_and, if_true]
  congr 1
  omega

end Word

/-! ### Cells -/

/-- The cell has one of the sizes of accesses, and contents of its width. -/
def Cell.Typed (c : Cell Constant) : Prop := ∃ size : Nat, IsAccess size ∧ c.size = size ∧ c.contents.Fits (8 * size)

theorem Cell.Typed.width_eq (h : c.Typed) : c.width = 8 * c.size.toNat := by
  obtain ⟨k, hk, hsize, -⟩ := h
  have hle := hk.le
  rw [Cell.width, wrap32_of_lt (by omega) (by omega)]
  omega

namespace Memory

def Typed (m : Memory Constant) : Prop := ∀ r o c, m.cells.find? r o = some c → c.Typed

end Memory

def Cell.extract (c : Cell Constant) (o : Int64) (size : Nat) : Constant :=
  match c.contents with
  | .known n => .known ⟨Word.ofBits (n.value.toBitVec.extractLsb' (8 * distance c.offset o) (8 * size)), 8 * size⟩
  | .unknown _ => .unknown (8 * size)

theorem Cell.extract_self (hsize : IsAccess size)
    (hfits : c.contents.Fits (8 * size)) : c.extract c.offset size = c.contents := by
  have hzero : distance c.offset c.offset = 0 := by
    rw [distance, show c.offset - c.offset = 0 by grind]
    rfl
  unfold extract
  cases hcontents : c.contents with
  | known n =>
    rw [hcontents] at hfits
    obtain ⟨v, w⟩ := n
    obtain ⟨rfl, hvalue⟩ := hfits
    have hlow : ofBits (v.toBitVec.extractLsb' 0 (8 * size)) = v := by
      rw [Word.Fits, wrap, show (8 * (size : Int)).toNat = 8 * size by omega] at hvalue
      have hle := hsize.le
      rw [← setWidth_eq_extractLsb' (by omega), ← low, hvalue]
    simp only [hzero, Nat.mul_zero, hlow]
  | unknown u =>
    rw [hcontents] at hfits
    rw [show u = 8 * size from hfits]

theorem Cell.extract_known {o : Int64} (hcontents : c.contents = .known n) (hle : distance c.offset o + size ≤ 8) :
    ∃ v, c.extract o size = .known ⟨v, 8 * size⟩ ∧ Word.Fits (8 * size) v ∧
      ∀ i < size, Word.byte v i = Word.byte n.value (distance c.offset o + i) := by
  refine ⟨ofBits (n.value.toBitVec.extractLsb' (8 * distance c.offset o) (8 * size)), ?_, ?_, fun i hi => ?_⟩
  · rw [Cell.extract, hcontents]
  · have hfits := fits_ofBits (by omega) (n.value.toBitVec.extractLsb' (8 * distance c.offset o) (8 * size))
    rwa [Nat.cast_mul] at hfits
  · exact byte_ofBits_extract hle hi n.value

def Program.constantSetting (p : Program) : Setting Constant := { p.surroundings with factory := Constant.factory }

namespace Memory

variable {p : Program} {m : Memory Constant} {r : Region} {o : Int64}
  {compose : Except Fault (Option (List Num))}

theorem part_known (n : Num) (hd : d ≤ 3) (hsize : IsAccess size) :
    part p.constantSetting (.known n) (8 * d) (wrap32 (8 * d + 8 * size - 1)) =
      .ok (some (.known ⟨Word.ofBits (n.value.toBitVec.extractLsb' (8 * d) (8 * size)), 8 * size⟩)) := by
  have hle := hsize.le
  have hlen : (8 * d + 8 * size - 1 - 8 * d + 1 : Int) = 8 * size := by omega
  have hbits : Num.bits (8 * d) (8 * d + 8 * size - 1) n =
      ⟨ofBits (n.value.toBitVec.extractLsb' (8 * d) (8 * size)), 8 * size⟩ := by
    have hsettle : settle (8 * d + 8 * size - 1 - 8 * d + 1) _ = _ :=
      settle_extract (by omega) (by omega) (by omega) (by omega) n.value
    rw [hlen, show (8 * (d : Int)).toNat = 8 * d by omega, show (8 * (size : Int)).toNat = 8 * size by omega,
      settle_eq_wrap (by omega)] at hsettle
    rw [Num.bits, hlen, wrap32_of_lt (by omega) (by omega), Num.of_eq_wrap (by omega), hsettle]
  rw [wrap32_of_lt (by omega) (by omega)]
  change (do return some (← factory.several [Num.bits (8 * d) (8 * d + 8 * size - 1) n])) = _
  rw [hbits, several_singleton (by dsimp only; omega) (by dsimp only; omega)]
  rfl

theorem first_bit (hd : d ≤ 3) (o : Int64) : wrap32 ((o + .ofNat d - o) * 8).toInt = 8 * d := by
  have h : o + .ofNat d - o = .ofNat d := by grind
  rw [h]
  interval_cases d <;> decide

theorem tdiv_eight (size : Nat) : (8 * size : Int).tdiv 8 = size := Int.mul_tdiv_cancel_left _ (by decide)

/-- **A part of a larger cell.** Nothing is known of it if the ends do not compare as they should,
because offsets overflow. -/
theorem readWith_part (hc : m.cells.find? r o = some c) (htyped : c.Typed) (ho : o ∈ bytes c.offset c.size)
    (hsize : IsAccess size) (hlt : size < c.size) : readWith p.constantSetting m compose r o (8 * size) = .ok
      (if c.offset + .ofInt c.size ≥ o + .ofInt size then c.extract o size else .unknown (8 * size)) := by
  obtain ⟨k, hk, hcsize, hfits⟩ := htyped
  obtain ⟨d, hd, rfl⟩ := mem_bytes.mp ho
  have hle := hk.le
  rw [readWith, hc, tdiv_eight]
  dsimp only
  rw [if_neg (by omega)]
  by_cases hends : c.offset + .ofInt c.size ≥ c.offset + Int64.ofNat d + Int64.ofInt size
  · rw [if_pos ⟨hlt, hends⟩, if_pos hends, first_bit (by omega), if_neg (by omega), Cell.extract,
      distance_add (by omega)]
    cases hcontents : c.contents with
    | known n =>
      rw [part_known n (by omega) hsize]
      rfl
    | unknown u =>
      rw [part, concretize_unknown hk (hcontents ▸ hfits)]
      exact top_width hsize
  · rw [if_neg (fun h => hends h.2), if_neg hends, if_neg (by omega)]
    exact top_width hsize

theorem readByte_cell (htyped : m.Typed) (hplaced : m.Placed) (hc : m.cells.find? r o = some c) :
    readByte p.constantSetting m r o = .ok (.unknown 8) ∨ readByte p.constantSetting m r o = .ok (c.extract o 1) := by
  have ho := hplaced r o c hc
  obtain ⟨k, hk, hsize, hfits⟩ := htyped r o c hc
  by_cases hone : k = 1
  · subst hone
    rw [hsize, Nat.cast_one, bytes_one, mem_singleton] at ho
    subst ho
    rw [readByte, readWith_cell hc rfl (hsize.trans rfl), Cell.extract_self hk hfits]
    exact .inr rfl
  · have hle := hk.le
    have hread : readByte p.constantSetting m r o = .ok _ :=
      readWith_part hc ⟨k, hk, hsize, hfits⟩ ho (.inl rfl) (show ((1 : Nat) : Int) < c.size by omega)
    rw [hread]
    split
    · exact .inr rfl
    · exact .inl rfl

/-- Bytes as they come out when they are put together: a byte with its highest bit set fills all
above it. -/
def smear (u : Nat → BitVec 8) : Nat → BitVec 8
  | 0 => u 0
  | i + 1 => u (i + 1) ||| Word.signFill (smear u i)

theorem smear_eq_iff (u : Nat → BitVec 8) (k : Nat) :
    (∀ i < k, smear u i = u i) ↔ ∀ i, i + 1 < k → (u i).msb → u (i + 1) = 255 := by
  have hor : ∀ b : BitVec 8, b ||| 255 = b ↔ b = 255 := by decide
  constructor
  · intro h i hi hmsb
    have hnext := h (i + 1) hi
    rw [smear, h i (by omega), signFill, if_pos hmsb] at hnext
    exact (hor _).mp hnext
  · intro h i hi
    induction i with
    | zero => rfl
    | succ i ih =>
      rw [smear, ih (by omega), signFill]
      split
      · next hmsb => exact (hor _).mpr (h i hi hmsb)
      · exact or_zero

/-- The number holds the first `i` bytes, smeared. -/
structure Assembled (u : Nat → BitVec 8) (i : Nat) (l : Num) : Prop where
  width_eq : 0 < i → l.width = 8 * i
  fits : Word.Fits (8 * i) l.value
  byte_eq : ∀ j < i, Word.byte l.value j = smear u j

theorem assembled_zero (u : Nat → BitVec 8) : Assembled u 0 (Num.of 0 8) where
  width_eq h := absurd h (Nat.lt_irrefl 0)
  fits := by decide
  byte_eq j hj := absurd hj (Nat.not_lt_zero j)

/-- **One more byte.** Whether it is cut out of its word makes no difference, since the result is
cut to its width. -/
theorem Assembled.prependByte {u : Nat → BitVec 8} {l : Num} (h : Assembled u i l) (hi : i < 8)
    (isLast : Bool) {b : Num} (hb : Word.byte b.value 0 = u i) :
    ∃ l', Memory.prependByte i isLast [l] [b] = [l'] ∧ Assembled u (i + 1) l' := by
  obtain ⟨v, hv, hbyte⟩ : ∃ v, v = (if isLast then b.value else b.value &&& 0xFF) ∧ byte v 0 = u i := by
    refine ⟨_, rfl, ?_⟩
    split
    · exact hb
    · rw [byte_and, hb, show byte 0xFF 0 = allOnes 8 by decide, and_allOnes]
  have hbytes (j : Nat) (hj : j < i + 1) :
      byte (wrap (8 * (i + 1 : Nat)) (l.value ||| shiftLeft v (i * 8))) j = smear u j := by
    rw [byte_wrap (by omega) hj, byte_or, byte_shiftLeft hi (by omega)]
    by_cases hlt : j < i
    · rw [if_pos hlt, h.byte_eq j hlt]
      exact or_zero
    · obtain rfl : j = i := by omega
      rw [if_neg hlt, Nat.sub_self, hbyte, BitVec.or_comm]
      cases j with
      | zero =>
        have hzero : l.value = 0 := eq_of_byte_eq (by omega) h.fits (wrap_zero _) (fun j hj => by omega)
        rw [hzero, byte_zero, smear]
        exact or_zero
      | succ j =>
        rw [byte_of_fits (by omega) (Nat.le_refl _) hi h.fits, Nat.add_sub_cancel, h.byte_eq j (by omega), smear]
  refine ⟨⟨wrap (8 * (i + 1 : Nat)) (l.value ||| shiftLeft v (i * 8)), 8 * (i + 1 : Nat)⟩, ?_,
    ⟨fun _ => rfl, fits_wrap _ _, hbytes⟩⟩
  rw [Memory.prependByte, flatMap_singleton, map_singleton, ← hv, Num.of_eq_wrap (by omega)]
  rw [show ((i : Int) + 1) * 8 = 8 * (i + 1 : Nat) by omega]

section Bytes

variable {os : List Int64} {ls : List Num}

theorem readBytes_cons_unknown (h : readByte p.constantSetting m r o = .ok (.unknown 8)) :
    readBytes p.constantSetting m r i ls (o :: os) = .ok none := by
  have hall := concretize_unknown (u := 8) (.inl rfl) rfl
  simp only [readBytes, h, ok_bind, hall]
  rfl

theorem readBytes_cons_known (h : readByte p.constantSetting m r o = .ok (.known n)) :
    readBytes p.constantSetting m r i ls (o :: os) =
      readBytes p.constantSetting m r (i + 1) (prependByte i os.isEmpty ls [n]) os := by
  rw [readBytes, h]
  rfl

variable (u : Int64 → BitVec 8)

def ReadsByte (p : Program) (m : Memory Constant) (r : Region) (o : Int64) : Prop :=
  readByte p.constantSetting m r o = .ok (.unknown 8) ∨
    ∃ v, Word.byte v 0 = u o ∧ readByte p.constantSetting m r o = .ok (.known ⟨v, 8⟩)

variable {u}

/-- **Putting bytes together.** Either one of them is unknown, or the result has all of them,
smeared. -/
theorem readBytes_cases (hbytes : ∀ o, ReadsByte u p m r o) (o : Int64) {k : Nat} (hk : i + k ≤ 8) {l : Num}
    (h : Assembled (fun j => u (o + .ofNat j)) i l) :
    readBytes p.constantSetting m r i [l] ((range' i k).map (fun j => o + .ofNat j)) = .ok none ∨
      ∃ l', Assembled (fun j => u (o + .ofNat j)) (i + k) l' ∧
        readBytes p.constantSetting m r i [l] ((range' i k).map (fun j => o + .ofNat j)) = .ok (some [l']) := by
  induction k generalizing i l with
  | zero => exact .inr ⟨l, h, rfl⟩
  | succ k ih =>
    rw [range'_succ, map_cons]
    rcases hbytes (o + .ofNat i) with hunknown | ⟨v, hv, hknown⟩
    · exact .inl (readBytes_cons_unknown hunknown)
    · obtain ⟨l', hl', hnext⟩ := h.prependByte (by omega)
        ((range' (i + 1) k).map (fun j => o + .ofNat j)).isEmpty (b := ⟨v, 8⟩) hv
      rw [readBytes_cons_known hknown, hl', show i + (k + 1) = i + 1 + k by omega]
      exact ih (by omega) hnext

theorem readWith_compose (hc : m.cells.find? r o = some c) (ho : c.offset = o) (hsize : IsAccess size)
    (hlt : c.size < size) : readWith p.constantSetting m compose r o (8 * size) = (do
      match ← compose with
      | some ns => Constant.factory.several ns
      | none => .ok (.unknown (8 * size))) := by
  rw [readWith, hc, tdiv_eight]
  dsimp only
  rw [if_neg (by omega), if_neg (by omega), if_pos ⟨ho, hlt⟩, ← top_width hsize]
  rfl

/-- **Reading.** Where the value of a read comes from: nowhere, a cell, several cells, or the
initial data. -/
theorem read_cases (htyped : m.Typed) (hplaced : m.Placed) (hr : r ≠ .top) (hbytes : ∀ o, ReadsByte u p m r o)
    (o : Int64) (hsize : IsAccess size) : m.read p.constantSetting r o (8 * size) = .ok (.unknown (8 * size)) ∨
      (∃ c, m.cells.find? r o = some c ∧ (size < c.size ∨ c.offset = o ∧ c.size = size) ∧
        m.read p.constantSetting r o (8 * size) = .ok (c.extract o size)) ∨
      (∃ c n, m.cells.find? r o = some c ∧ c.offset = o ∧ c.size < size ∧
        m.read p.constantSetting r o (8 * size) = .ok (.known n) ∧ Assembled (fun j => u (o + .ofNat j)) size n) ∨
      (m.cells.find? r o = none ∧ r = .global ∧
        m.read p.constantSetting r o (8 * size) = readInitial p.constantSetting m o (8 * size)) := by
  have hle := hsize.le
  have hread : m.read p.constantSetting r o (8 * size) = readWith p.constantSetting m
      (readBytes p.constantSetting m r 0 [Num.of 0 8] (bytes o size)) r o (8 * size) := by
    rw [read, requireKnown, if_neg hr, tdiv_eight]
    rfl
  rw [hread]
  cases hc : m.cells.find? r o with
  | none =>
    rw [readWith, hc]
    dsimp only
    split
    · next hglobal => exact .inr (.inr (.inr ⟨rfl, hglobal, rfl⟩))
    · exact .inl (top_width hsize)
  | some c =>
    obtain ⟨k, hk, hcsize, hfits⟩ := htyped r o c hc
    rcases lt_or_ge (size : Int) c.size with hgt | hge
    · rw [readWith_part hc ⟨k, hk, hcsize, hfits⟩ (hplaced r o c hc) hsize hgt]
      split
      · exact .inr (.inl ⟨c, rfl, .inl hgt, rfl⟩)
      · exact .inl rfl
    by_cases ho : c.offset = o
    · rcases hge.lt_or_eq with hlt | heq
      · have hrange : bytes o size = (range' 0 size).map (fun j => o + .ofNat j) := by
          rw [bytes, Int.toNat_natCast, range_eq_range']
        rw [readWith_compose hc ho hsize hlt, hrange]
        rcases readBytes_cases hbytes o (i := 0) (k := size) (by omega) (assembled_zero _) with hnone | ⟨n, hn, hsome⟩
        · rw [hnone]
          exact .inl rfl
        · rw [Nat.zero_add] at hn
          have hwidth := hn.width_eq (by omega)
          refine .inr (.inr (.inl ⟨c, n, rfl, ho, hlt, ?_, hn⟩))
          rw [hsome]
          exact several_singleton (by omega) (by omega)
      · obtain rfl : k = size := by omega
        refine .inr (.inl ⟨c, rfl, .inr ⟨ho, heq⟩, ?_⟩)
        rw [readWith_cell hc ho (heq.trans (tdiv_eight _).symm), ← ho, Cell.extract_self hk hfits]
    · left
      rw [readWith, hc, tdiv_eight]
      dsimp only
      rw [if_neg (fun h => ho h.1), if_neg (fun h => absurd h.1 (by omega)), if_neg (fun h => ho h.1)]
      exact top_width hsize

end Bytes

end Memory

end FlowRecovery
