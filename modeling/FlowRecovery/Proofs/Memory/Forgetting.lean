import FlowRecovery.Proofs.Memory.Update
import FlowRecovery.Proofs.Word

/-!
# Forgetting the dead part of the stack

`Memory.forgetStackBelow` drops the bytes of the stack below an offset one by one. A cell with bytes
on both sides of the offset (`Memory.CutAt`) is left in fragments; apart from that, memory stays
whole (`whole_forgetStackBelow`).

What is left can be compared with memory that is built anew from the cells that are left
(`Memory.restore`). Writing them in any order gives back each of them, because no two of them share
a byte (`exists_restored`). So the two are equal. Their digests differ if no byte of the stack is
left: the row of the stack stays behind without entries, and its region counts.
-/

namespace FlowRecovery.Memory

open FaultyM (Ends)

variable {A : Type} [AbstractValue A] {s : Setting A} {t : A} {r : Region} {o d : Int64} {c : Cell A} {m n n' : Memory A}

/-- A cell of the stack has bytes on both sides of the offset. -/
def CutAt (m : Memory A) (d : Int64) : Prop :=
  ∃ o c, m.cells.find? .stack o = some c ∧ ¬o < d ∧ ∃ o' ∈ bytes c.offset c.size, o' < d

omit [AbstractValue A] in
theorem whole_forgetStackBelow (hm : m.Whole) : (m.forgetStackBelow d).Whole ↔ ¬m.CutAt d := by
  constructor
  · rintro h ⟨o, c, hc, ho, o', ho', hlt⟩
    -- the cell is still found above the offset, but not under its byte below it
    have hkept : (m.forgetStackBelow d).cells.find? .stack o = some c := by
      rw [find?_forgetStackBelow, if_neg fun h => ho h.2, hc]
    have hlost := (h .stack o c hkept).2 o' ho'
    rw [find?_forgetStackBelow, if_pos ⟨rfl, hlt⟩] at hlost
    cases hlost
  · intro h r o c hc
    rw [find?_forgetStackBelow] at hc
    split at hc
    · cases hc
    next hkept =>
    obtain ⟨hmem, hrange⟩ := hm r o c hc
    refine ⟨hmem, fun o' ho' => ?_⟩
    rw [find?_forgetStackBelow, if_neg, hrange o' ho']
    rintro ⟨rfl, hlt⟩
    exact h ⟨o, c, hc, fun ho => hkept ⟨rfl, ho⟩, o', ho', hlt⟩

/-! ### Memory built of whole bytes -/

/-- Memory that writes of whole bytes have built. -/
inductive Stored (s : Setting A) : Memory A → Prop
  | empty : Stored s {}
  | write {m m' : Memory A} {r : Region} {o : Int64} {k : Nat} {v : A} (hm : Stored s m) (hk : k < 2 ^ 28)
    (h : Ends (write s r o (8 * k) v) m () m') : Stored s m'

theorem Stored.built (h : Stored s m) : Built s m := by
  induction h with
  | empty => exact .empty
  | write _ _ h ih => exact ih.write h

theorem Stored.tidy (ht : UnknownByte s t) (h : Stored s m) : m.cells.Tidy ∧ m.dataIsTop = false := by
  induction h with
  | empty => exact ⟨PairMap.tidy_empty, rfl⟩
  | write _ _ h ih =>
    obtain ⟨-, -, _, -, rfl⟩ := eq_overwrite_of_ends ht.top_eq h
    exact ⟨(written_overwrite s _ _ _).tidy ih.1, (written_overwrite s _ _ _).dataIsTop_eq.trans ih.2⟩

/-- A cell that is found again in a region after it was written there. -/
structure Restorable (r : Region) (c : Cell A) : Prop where
  region_ne : r ≠ .top
  size_eq : ∃ k : Nat, k < 2 ^ 28 ∧ c.size = k
  width_eq : ∀ u ∈ AbstractValue.width? c.contents, u = 8 * c.size
  isTop_eq : ∃ b, AbstractValue.isTop c.contents = .ok b ∧ (!b || r == .global) = true

theorem Restorable.cell_width (h : Restorable r c) : c.width = 8 * c.size := by
  obtain ⟨k, hk, hsize⟩ := h.size_eq
  rw [Cell.width, wrap32_of_lt (by omega) (by omega), mul_comm]

theorem Stored.restorable (ht : UnknownByte s t) (hheap : s.options.emptyHeap = false) (h : Stored s m)
    (hc : m.cells.find? r o = some c) : Restorable r c := by
  induction h generalizing r o c with
  | empty => cases hc
  | @write m _ r' o' k v _ hk h ih =>
    obtain ⟨hr, hw, b, hb, rfl⟩ := eq_overwrite_of_ends ht.top_eq h
    have hsize : ((8 * (k : Int)).tdiv 8) = k := Int.mul_tdiv_cancel_left _ (by decide)
    rcases find?_overwrite (t := t) (r := r') s ⟨o', (8 * (k : Int)).tdiv 8, v⟩ (!b || r' == .global) m r o with
      hold | ⟨rfl, hvacant⟩ | ⟨rfl, hstored, -, hnew⟩
    · exact ih (hold ▸ hc)
    · rw [hvacant] at hc
      obtain rfl := vacant_eq_some hc
      -- outside of global memory no byte would be there
      have hglobal : r = .global := by
        by_contra hne
        simp [vacant, keepsVacant, hheap, hne] at hc
      obtain ⟨b', hb'⟩ := ht.isTop_eq
      exact ⟨hr, ⟨1, by decide, rfl⟩, ht.width_eq, b', hb', by simp [hglobal]⟩
    · rw [hnew] at hc
      cases hc
      exact ⟨hr, ⟨k, hk, hsize⟩, by rwa [hsize], b, hb, hstored⟩

/-! ### Writing cells anew -/

/-- Writes cells as they are. -/
def restore (s : Setting A) (cells : List (Region × Cell A)) : Update A Unit :=
  cells.forM (fun (r, c) => write s r c.offset c.width c.contents)

omit [AbstractValue A] in
theorem Within.written (hm : m.Whole) (hn : Within n m) (hc : m.cells.find? r c.offset = some c)
    (h : Written t r c true n n') :
    Within n n' ∧ Within n' m ∧ ∀ o ∈ bytes c.offset c.size, n'.cells.find? r o = some c := by
  have hrange := (hm r c.offset c hc).2
  have hapart {o : Int64} (ho : o ∉ bytes c.offset c.size) : n'.cells.find? r o = n.cells.find? r o := by
    refine h.apart ho fun y hy c' hc' => ?_
    obtain rfl : c = c' := Option.some.inj ((hrange y hy).symm.trans (hn r y c' hc'))
    exact ho
  refine ⟨fun r' o c' hc' => ?_, fun r' o c' hc' => ?_, fun o ho => h.inside rfl ho⟩
  · by_cases hr : r' = r
    · subst hr
      by_cases ho : o ∈ bytes c.offset c.size
      · rw [h.inside rfl ho, ← hrange o ho, hn r' o c' hc']
      · rw [hapart ho, hc']
    · rw [h.elsewhere hr, hc']
  · by_cases hr : r' = r
    · subst hr
      by_cases ho : o ∈ bytes c.offset c.size
      · rw [hrange o ho, ← h.inside rfl ho, hc']
      · exact hn r' o c' (hapart ho ▸ hc')
    · exact hn r' o c' (h.elsewhere hr o ▸ hc')

theorem ends_restore (ht : UnknownByte s t) (hm : m.Whole) {cells : List (Region × Cell A)}
    (hcells : ∀ p ∈ cells, m.cells.find? p.1 p.2.offset = some p.2 ∧ Restorable p.1 p.2) (hn : Within n m)
    (htidy : n.cells.Tidy) :
    ∃ n', Ends (restore s cells) n () n' ∧ n'.dataIsTop = n.dataIsTop ∧ n'.cells.Tidy ∧ Within n n' ∧ Within n' m ∧
      ∀ p ∈ cells, ∀ o ∈ bytes p.2.offset p.2.size, n'.cells.find? p.1 o = some p.2 := by
  induction cells generalizing n with
  | nil => exact ⟨n, FaultyM.ends_forM_nil.mpr rfl, rfl, htidy, fun _ _ _ h => h, hn, nofun⟩
  | cons p rest ih =>
    obtain ⟨r, c⟩ := p
    obtain ⟨hc, hres⟩ := hcells (r, c) List.mem_cons_self
    obtain ⟨b, hb, hstored⟩ := hres.isTop_eq
    have hwidth : ∀ u ∈ AbstractValue.width? c.contents, u = c.width := hres.cell_width ▸ hres.width_eq
    obtain ⟨n₁, hends, hwritten⟩ := ends_write (o := c.offset) ht.top_eq hres.region_ne hwidth hb n
    rw [hstored, hres.cell_width, Int.mul_tdiv_cancel_left _ (by decide)] at hwritten
    obtain ⟨hkept, hn₁, hfound⟩ := hn.written hm hc hwritten
    obtain ⟨n', hrest, hflag, htidy', hgrown, hn', hothers⟩ :=
      ih (fun p hp => hcells p (List.mem_cons_of_mem _ hp)) hn₁ (hwritten.tidy htidy)
    refine ⟨n', FaultyM.ends_forM_cons.mpr ⟨n₁, hends, hrest⟩, hflag.trans hwritten.dataIsTop_eq, htidy',
      fun r o c h => hgrown r o c (hkept r o c h), hn', fun p hp o ho => ?_⟩
    rcases List.mem_cons.mp hp with rfl | hp
    · exact hgrown _ o _ (hfound o ho)
    · exact hothers p hp o ho

/-- **Building memory anew.** Cells that are written in any order are found as they were. -/
theorem exists_restored (ht : UnknownByte s t) (hm : m.Whole) (hkeyed : m.cells.Keyed)
    (hcells : ∀ r o c, m.cells.find? r o = some c → Restorable r c) :
    ∃ n, Ends (restore s m.allHeads) {} () n ∧ n.dataIsTop = false ∧ n.cells.Tidy ∧
      ∀ r o, n.cells.find? r o = m.cells.find? r o := by
  have hheads (p : Region × Cell A) (hp : p ∈ m.allHeads) :
      m.cells.find? p.1 p.2.offset = some p.2 ∧ Restorable p.1 p.2 := by
    have hfind := find?_of_mem_allHeads hkeyed hp
    exact ⟨hfind, hcells p.1 _ p.2 hfind⟩
  obtain ⟨n, hends, hflag, htidy, -, hwithin, hfound⟩ :=
    ends_restore (n := {}) ht hm hheads (nofun) PairMap.tidy_empty
  refine ⟨n, hends, hflag, htidy, fun r o => ?_⟩
  cases hc : m.cells.find? r o with
  | none =>
    cases hn : n.cells.find? r o with
    | none => rfl
    | some c => exact absurd (hc.symm.trans (hwithin r o c hn)) (by simp)
  | some c =>
    -- the cell is not empty, so that it has a first byte and is one of the cells that are written
    obtain ⟨ho, hrange⟩ := hm r o c hc
    obtain ⟨i, hi, -⟩ := mem_bytes.mp ho
    have hfirst : c.offset ∈ bytes c.offset c.size := mem_bytes.mpr ⟨0, by omega, by simp⟩
    exact hfound (r, c) (mem_allHeads (hrange _ hfirst)) o ho

/-! ### The dead part of the stack -/

/-- **Forgetting the stack below an offset.** No byte below the offset is left. Cells stay whole
exactly if none is cut, and what is read at or above the offset stays the same. If no cell is cut,
memory equals the one that is built of the cells that are left, and has its digest, to which the
region of the stack is added if no byte of the stack is left. -/
theorem Stored.wellFormed_forgetStackBelow (ht : UnknownByte s t) (h : Stored s m) (d : Int64) :
    let m' := m.forgetStackBelow d
    (∀ o c, m'.cells.find? .stack o = some c → d ≤ o) ∧ (m'.Whole ↔ ¬m.CutAt d) ∧
      (∀ (r : Region) (o : Int64) (w : Int), 8 ≤ w → (r = .stack → ∀ x ∈ bytes o (w.tdiv 8), d ≤ x) →
        m'.read s r o w = m.read s r o w) ∧
      (s.options.emptyHeap = false → ¬m.CutAt d → ∃ n, Ends (restore s m'.allHeads) {} () n ∧
        ((∀ a : A, AbstractValue.equals a a = true) → m'.equals n = true) ∧
        ∀ (region : Region → UInt32) (contents : A → UInt32), m'.digest region contents =
          n.digest region contents + if (m'.cells.row? .stack).any Std.TreeMap.isEmpty then region .stack else 0) := by
  intro m'
  have hm := h.built.whole ht.top_eq
  refine ⟨fun o c hc => ?_, whole_forgetStackBelow hm, fun r o w hw hrange => ?_, fun hheap hcut => ?_⟩
  · rw [find?_forgetStackBelow] at hc
    split at hc
    · cases hc
    · next hkept => exact Int64.not_lt.mp fun hlt => hkept ⟨rfl, hlt⟩
  · refine read_congr hw rfl fun x hx => ?_
    rw [find?_forgetStackBelow, if_neg]
    rintro ⟨rfl, hlt⟩
    exact Int64.not_lt.mpr (hrange rfl x hx) hlt
  · have hcells (r : Region) (o : Int64) (c : Cell A) (hc : m'.cells.find? r o = some c) : Restorable r c :=
      h.restorable ht hheap (within_forgetStackBelow m d r o c hc)
    obtain ⟨htidy, hdata⟩ := h.tidy ht
    have hkeyed : m'.cells.Keyed := by
      rcases htidy.filterRow .stack fun o => !(o < d) with ⟨h, -⟩ | ⟨h, -⟩
      · exact h.keyed
      · exact h
    obtain ⟨n, hends, hflag, hn, hfind⟩ := exists_restored ht ((whole_forgetStackBelow hm).mpr hcut) hkeyed hcells
    obtain ⟨hequals, hdigest⟩ := htidy.filterRow_eq hn fun r o => (hfind r o).symm
    have hsame : m'.dataIsTop = n.dataIsTop := hdata.trans hflag.symm
    refine ⟨n, hends, fun hrefl => ?_, fun region contents => ?_⟩
    · rw [equals, hsame, beq_self_eq_true, Bool.true_and]
      exact hequals _ fun c => by simp [cellEquals, hrefl]
    · rw [digest, digest, hsame, show m'.cells = m.cells.filterRow .stack fun o => !(o < d) from rfl, hdigest]
      exact add_right_comm _ _ _

section Example

def plainSetting : Setting Constant := { registers := default, factory := Constant.factory }

theorem unknownByte_plainSetting : UnknownByte plainSetting (.unknown 8) := ⟨⟨by decide, true, rfl⟩, rfl⟩

/-- Memory after a number of some bytes was written on the stack. -/
def onStack (m : Memory Constant) (o : Int64) (size : Nat) (v : Int64) : Memory Constant :=
  overwrite plainSetting (.unknown 8) .stack ⟨o, size, .known ⟨v, 8 * size⟩⟩ true m

theorem ends_write_stack (m : Memory Constant) (o : Int64) (size : Nat) (v : Int64) :
    Ends (write plainSetting .stack o (8 * size) (.known ⟨v, 8 * size⟩)) m () (onStack m o size v) := by
  have hends := ends_write_overwrite (s := plainSetting) (t := .unknown 8) (r := .stack) (o := o) (w := 8 * size)
    (v := .known ⟨v, 8 * size⟩) rfl (by decide) (by simp [AbstractValue.width?, Constant.width]) rfl m
  rwa [Int.mul_tdiv_cancel_left _ (by decide)] at hends

/-- The lower of two numbers on the stack is forgotten, and the upper one is left. -/
theorem forgetStackBelow_lower_number :
    let m := (onStack (onStack {} (-8) 4 7) (-4) 4 7).forgetStackBelow (-4)
    m.Whole ∧ ∃ n, Ends (restore plainSetting m.allHeads) {} () n ∧ m.equals n = true := by
  have hstored : Stored plainSetting (onStack (onStack {} (-8) 4 7) (-4) 4 7) :=
    (Stored.empty.write (by norm_num) (ends_write_stack {} (-8) 4 7)).write (by norm_num) (ends_write_stack _ (-4) 4 7)
  have hbelow : ∀ x ∈ bytes (-8) (4 : Nat), x < -4 := by simp [bytes, List.range_succ]
  have habove : ∀ x ∈ bytes (-4) (4 : Nat), ¬x < -4 := by simp [bytes, List.range_succ]
  have hcut : ¬(onStack (onStack {} (-8) 4 7) (-4) 4 7).CutAt (-4) := by
    rintro ⟨o, c, hc, ho, o', ho', hlt⟩
    have hbyte : c ≠ ⟨o, 1, .unknown 8⟩ := by
      rintro rfl
      obtain rfl : o' = o := by simpa using ho'
      exact ho hlt
    rcases (written_overwrite plainSetting _ _ _).origin hc with hc | hc | ⟨-, rfl⟩
    · rcases (written_overwrite plainSetting _ _ _).origin hc with hc | hc | ⟨hin, -⟩
      · cases hc
      · exact hbyte hc
      · exact ho (hbelow o hin)
    · exact hbyte hc
    · exact habove o' ho' hlt
  obtain ⟨-, hwhole, -, hrest⟩ := hstored.wellFormed_forgetStackBelow unknownByte_plainSetting (-4)
  obtain ⟨n, hn, hequals, -⟩ := hrest rfl hcut
  refine ⟨hwhole.mpr hcut, n, hn, hequals fun a => ?_⟩
  cases a <;> simp [AbstractValue.equals, Constant.equals, Constant.representative]

/-- A number of which the lower half is forgotten is left in a fragment. When all of it is
forgotten, memory equals the one that was never written, but its digest is that of the region of the
stack. -/
theorem forgetStackBelow_half :
    let m := onStack {} (-4) 4 0x12345678
    ¬(m.forgetStackBelow (-2)).Whole ∧ (m.forgetStackBelow 0).equals {} = true ∧
      ∀ (region : Region → UInt32) (contents : Constant → UInt32),
        (m.forgetStackBelow 0).digest region contents = region .stack ∧
          ({} : Memory Constant).digest region contents = 0 := by
  intro m
  refine ⟨fun h => ?_, by decide +kernel, fun region contents => ⟨?_, rfl⟩⟩
  · have hfind := (h .stack (-2) ⟨-4, 4, .known ⟨0x12345678, 32⟩⟩ (by decide +kernel)).2 (-4) (by decide +kernel)
    exact absurd hfind (by decide +kernel)
  · have hlisting : (m.forgetStackBelow 0).cells.listing = [(.stack, [])] := by decide +kernel
    have hflag : (m.forgetStackBelow 0).dataIsTop = false := by decide +kernel
    rw [digest, PairMap.digest_eq_listing, hlisting, hflag]
    simp

end Example

end FlowRecovery.Memory
