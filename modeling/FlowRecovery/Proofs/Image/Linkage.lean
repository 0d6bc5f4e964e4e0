import FlowRecovery.Image.Elf.Linkage
import FlowRecovery.Proofs.Word

/-!
# Positions and relocations

An address that ends one section and begins another has two positions; the earlier one in the table
counts (`positionOf_eq`). The bytes of a relocation are taken as signed ones. Its kind is read as it
is written, but each of the two lower bytes of the number of its symbol takes one from the byte
above if it is 128 or more (`read_slot`).
-/

namespace FlowRecovery.Elf

namespace Section

variable (s t : Section) (a : Int64)

def Holds : Prop := s.address.toInt ≤ a.toInt ∧ a.toInt < s.address.toInt + s.size.toInt

/-- No address lies in both sections. -/
def Apart : Prop :=
  s.address.toInt + s.size.toInt ≤ t.address.toInt ∨ t.address.toInt + t.size.toInt ≤ s.address.toInt

/-- Where the section alone puts the address. -/
def place : Int64 := if s.isEmpty then -1 else a - s.address + s.position

end Section

/-- **Positions of addresses.** Let an address lie in a section that those before it do not overlap.
It is put by the first of those before that ends at the address; only if there is none, by the
section itself. -/
theorem positionOf_eq {before after : List Section} {s : Section} {a : Int64}
    (hfits : ∀ t ∈ s :: before, 0 ≤ t.size.toInt ∧ t.address.toInt + t.size.toInt < 2 ^ 63)
    (hapart : ∀ t ∈ before, t.Apart s) (ha : s.Holds a) : positionOf (before ++ s :: after) a =
      ((before.find? fun t => t.address + t.size == a).getD s).place a := by
  have hend (t : Section) (ht : t ∈ s :: before) : (t.address + t.size).toInt = t.address.toInt + t.size.toInt := by
    have := t.address.le_toInt
    have := hfits t ht
    rw [Int64.toInt_add]
    exact Int.bmod_eq_of_le (by omega) (by omega)
  have hfound : before.find? (fun t => a ≥ t.address && a ≤ t.address + t.size) =
      before.find? fun t => t.address + t.size == a := by
    refine List.find?_congr fun t ht => ?_
    obtain ⟨hsize, -⟩ := hfits t (List.mem_cons_of_mem s ht)
    have := hapart t ht
    unfold Section.Apart Section.Holds at *
    rw [Bool.eq_iff_iff, Bool.and_eq_true, decide_eq_true_eq, decide_eq_true_eq, beq_iff_eq, ge_iff_le, Int64.le_iff_toInt_le,
      Int64.le_iff_toInt_le, ← Int64.toInt_inj, hend t (List.mem_cons_of_mem s ht)]
    omega
  have hself : (a ≥ s.address && a ≤ s.address + s.size) = true := by
    have := hend s List.mem_cons_self
    obtain ⟨hle, hlt⟩ := ha
    simp only [Bool.and_eq_true, decide_eq_true_eq, ge_iff_le, Int64.le_iff_toInt_le]
    omega
  rw [positionOf, sectionAt, List.find?_append, hfound, List.find?_cons, hself]
  cases before.find? _ <;> rfl

/-- The second section has the address at position 0x60. -/
theorem positionOf_adjacent : positionOf [⟨0, 1, 0x8048080, 0x54, 4, 0, 0, 0⟩, ⟨0, 1, 0x8048084, 0x60, 4, 0, 0, 0⟩]
    0x8048084 = 0x58 :=
  @positionOf_eq [_] [] _ _ (by decide) (by unfold Section.Apart; decide) (by unfold Section.Holds; decide)

namespace RelocationInfo

variable {table : List UInt8} {place : Nat} {b₀ b₁ b₂ b₃ : UInt8}

theorem read_eq (hplace : place + 8 ≤ 2 ^ 31) (hbytes : (table.drop (place + 4)).take 4 = [b₀, b₁, b₂, b₃]) :
    read table place = .ok (.ofBytes b₀.toInt8 b₁.toInt8 b₂.toInt8 b₃.toInt8) := by
  have hbyte (i : Nat) (hi : i < 4) : table[place + 4 + i]? = [b₀, b₁, b₂, b₃][i]? := by
    rw [← hbytes, List.getElem?_take_of_lt hi, List.getElem?_drop]
  have hstart : wrap32 (place + 4) = (place + 4 : Nat) := wrap32_of_lt (by omega) (by omega)
  have hnext (n : Nat) (hn : n < 4) : wrap32 ((place + 4 : Nat) + n) = (place + 4 + n : Nat) :=
    wrap32_of_lt (by omega) (by omega)
  have h₁ := hnext 1 (by omega)
  have h₂ := hnext 2 (by omega)
  have h₃ := hnext 3 (by omega)
  have h₀ := hbyte 0 (by omega)
  simp only [Nat.cast_one, Nat.cast_ofNat, add_zero] at h₀ h₁ h₂ h₃
  simp only [read, hstart, h₁, h₂, h₃, Int.toNat_natCast, h₀, hbyte 1, hbyte 2, hbyte 3, Nat.reduceLT, Int.natCast_nonneg,
    not_lt.mpr, if_false]
  rfl

theorem toInt_toInt8 (b : UInt8) : b.toInt8.toInt = b.toNat - 256 * (b.toNat / 128) := by
  have hbits : b.toInt8.toInt = (b.toNat : Int).bmod 256 := BitVec.toInt_eq_toNat_bmod b.toBitVec
  have := b.toNat_lt
  rw [hbits, Int.bmod_def]
  split <;> omega

/-- **Symbols of relocations.** A relocation of kind 7 whose symbol has a number below 2 ^ 23 is
read as one of kind 7. The number that is read is the one that is written exactly if its two lower
bytes are below 128. -/
theorem read_slot (hplace : place + 8 ≤ 2 ^ 31) (hbytes : (table.drop (place + 4)).take 4 = [7, b₁, b₂, b₃])
    (hhigh : b₃ < 128) : ∃ info, read table place = .ok info ∧ info.kind = 7 ∧
      info.symbol = (b₁.toNat + 256 * b₂.toNat + 65536 * b₃.toNat) - 256 * (b₁.toNat / 128) - 65536 * (b₂.toNat / 128) := by
  refine ⟨_, read_eq hplace hbytes, ?_⟩
  have h₁ := b₁.toNat_lt
  have h₂ := b₂.toNat_lt
  have h₃ : b₃.toNat < 128 := hhigh
  have hseven : (7 : UInt8).toInt8.toInt = 7 := rfl
  have hwrap (n : Int) (h : -2147483648 ≤ n ∧ n < 2147483648) : wrap32 n = n :=
    Int.bmod_eq_of_le (by omega) (by omega)
  simp only [ofBytes, toInt_toInt8 b₁, toInt_toInt8 b₂, toInt_toInt8 b₃, hseven]
  rw [hwrap _ (by omega), Int.bmod_def]
  constructor
  · split <;> omega
  · omega

/-- The number 128 is read as -128. -/
theorem read_slot_128 : ∃ info, read [0, 0, 0, 0, 7, 128, 0, 0] (0 : Nat) = .ok info ∧ info.kind = 7 ∧ info.symbol = -128 :=
  @read_slot [0, 0, 0, 0, 7, 128, 0, 0] 0 128 0 0 (by decide) rfl (by decide)

end RelocationInfo

end FlowRecovery.Elf
