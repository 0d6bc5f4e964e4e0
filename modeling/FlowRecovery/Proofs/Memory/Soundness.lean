import FlowRecovery.Proofs.Memory.Reading

/-!
# What abstract memory says about concrete memory

Writes of constants are performed on abstract memory (`Memory.perform`) and on concrete memory
(`Bytes.perform`), where an unknown value stands for any word. Afterwards abstract memory
*describes* concrete memory (`Memory.Described`): cells are whole, and each known cell holds the
bytes that are there.

A read then gives an unknown value or a number, and the number is the one in concrete memory unless
the read is one of two kinds (`Memory.Misreads`):

* it starts with a smaller cell, and some byte has its highest bit set while the next one is not
  made of ones;
* it runs past the end of a larger cell that ends at the last offset of all, so that the ends of
  both seem to be in order.
-/

namespace FlowRecovery

namespace Memory

open FaultyM (Ends)

/-- A write of a constant. -/
structure Write where
  region : Region
  offset : Int64
  size : Nat
  value : Constant
  region_ne_top : region ≠ .top
  isAccess : IsAccess size
  fits : value.Fits (8 * size)

/-- A write of a constant, and the word that is written to concrete memory. -/
structure Store extends Write where
  word : Int64
  word_eq : ∀ n, value = .known n → word = n.value

variable {p : Program} {m m' : Memory Constant} {σ : Bytes} {r : Region} {o : Int64} {size : Nat}

def Write.run (p : Program) (x : Write) : Update Constant Unit :=
  write p.constantSetting x.region x.offset (8 * x.size) x.value

def perform (p : Program) (xs : List Store) : Update Constant Unit := xs.forM (fun x => x.run p)

end Memory

def Bytes.put (σ : Bytes) (x : Memory.Store) : Bytes := σ.store x.region x.offset x.size x.word

def Bytes.perform (σ : Bytes) (xs : List Memory.Store) : Bytes := xs.foldl Bytes.put σ

namespace Memory

open FaultyM (Ends)

variable {p : Program} {m m' : Memory Constant} {σ : Bytes} {r : Region} {o : Int64} {size : Nat}

/-- Concrete memory has the bytes of all known cells. -/
structure Described (m : Memory Constant) (σ : Bytes) : Prop where
  whole : m.Whole
  typed : m.Typed
  holds {r : Region} {o : Int64} {c : Cell Constant} {n : Num} (hc : m.cells.find? r o = some c)
    (hn : c.contents = .known n) {i : Nat} (hi : i < c.size.toNat) : σ r (c.offset + Int64.ofNat i) = Word.byte n.value i

theorem described_empty (σ : Bytes) : Described {} σ where
  whole := whole_empty
  typed _ _ _ hc := by cases hc
  holds hc := by cases hc

/-! ### Writes -/

def Write.cell (x : Write) : Cell Constant := ⟨x.offset, x.size, x.value⟩

theorem Write.ends_run (x : Write) (m : Memory Constant) :
    ∃ m', Ends (x.run p) m () m' ∧ Written (.unknown 8) x.region x.cell (!x.value.isTop || x.region == .global) m m' := by
  have hwidth : ∀ u ∈ AbstractValue.width? x.value, u = 8 * x.size := by
    intro u hu
    rw [← x.fits.width_eq]
    exact (Option.some.inj hu).symm
  have hwrite := ends_write (s := p.constantSetting) (o := x.offset) (show Constant.top 8 = .ok (.unknown 8) from rfl)
    x.region_ne_top hwidth (b := x.value.isTop) rfl m
  rwa [tdiv_eight] at hwrite

theorem Written.typed {x : Write} {b : Bool} (h : Written (.unknown 8) x.region x.cell b m m') (hm : m.Typed) :
    m'.Typed := by
  intro r o c hc
  by_cases hr : r = x.region
  · subst hr
    rcases h.origin hc with hold | rfl | ⟨-, rfl⟩
    · exact hm _ o c hold
    · exact ⟨1, .inl rfl, rfl, rfl⟩
    · exact ⟨x.size, x.isAccess, rfl, x.fits⟩
  · rw [h.elsewhere hr] at hc
    exact hm r o c hc

theorem Described.put {x : Store} {b : Bool} (h : Described m σ) (hx : Written (.unknown 8) x.region x.cell b m m') :
    Described m' (σ.put x) where
  whole := hx.whole h.whole
  typed := hx.typed h.typed
  holds := by
    intro r o c n hc hn i hi
    have hwhole := hx.whole h.whole
    have hin : ∀ j < c.size.toNat, m'.cells.find? r (c.offset + .ofNat j) = some c := fun j hj =>
      (hwhole r o c hc).2 _ (mem_bytes.mpr ⟨j, hj, rfl⟩)
    by_cases hoverlap : r = x.region ∧ ∃ j < c.size.toNat, c.offset + .ofNat j ∈ bytes x.offset x.size
    · obtain ⟨rfl, j, hj, hmem⟩ := hoverlap
      have hnew : c = x.cell := by
        cases b with
        | true => exact Option.some.inj ((hin j hj).symm.trans (hx.inside rfl hmem))
        | false =>
          have hvacant := hx.isVacant rfl h.whole.placed hmem c (hin j hj)
          rw [hvacant] at hn
          cases hn
      subst hnew
      have hi' : i < x.size := hi
      have hle := x.isAccess.le
      rw [Bytes.put, Write.cell, Bytes.store_of_mem σ x.region x.offset x.word hi' (by omega), x.word_eq n hn]
    · have hold : m.cells.find? r o = some c := by
        by_cases hr : r = x.region
        · subst hr
          rcases hx.origin hc with hold | rfl | ⟨hmem, -⟩
          · exact hold
          · cases hn
          · obtain ⟨j, hj, rfl⟩ := mem_bytes.mp (hwhole _ o c hc).1
            exact absurd ⟨rfl, j, hj, hmem⟩ hoverlap
        · rwa [hx.elsewhere hr] at hc
      rw [Bytes.put, Bytes.store_of_not_mem σ x.word, h.holds hold hn hi]
      intro hr hlt
      exact hoverlap ⟨hr, i, hi, mem_bytes.mpr ⟨_, hlt, (add_distance _ _).symm⟩⟩

/-- **All stores.** They end, and what was described before is described afterwards; the cell of the
last one is there, if its value is known. -/
theorem ends_perform (p : Program) (xs : List Store) (m : Memory Constant) :
    ∃ m', Ends (perform p xs) m () m' ∧ (∀ σ, Described m σ → Described m' (σ.perform xs)) ∧
      ∀ x ∈ xs.getLast?, ∀ n, x.value = .known n → m'.cells.find? x.region x.offset = some x.cell := by
  induction xs generalizing m with
  | nil => exact ⟨m, FaultyM.ends_forM_nil.mpr rfl, fun σ h => h, nofun⟩
  | cons x xs ih =>
    obtain ⟨v, hv, hwritten⟩ := x.ends_run (p := p) m
    obtain ⟨m', hm', hdescribed, hlast⟩ := ih v
    refine ⟨m', FaultyM.ends_forM_cons.mpr ⟨v, hv, hm'⟩, fun σ h => hdescribed _ (h.put hwritten), ?_⟩
    cases xs with
    | cons y ys => exact hlast
    | nil =>
      intro y hy n hn
      obtain rfl : x = y := by simpa using hy
      obtain rfl : m' = v := FaultyM.ends_forM_nil.mp hm'
      have hle := x.isAccess.le
      refine hwritten.inside (by rw [hn]; rfl) (mem_bytes.mpr ⟨0, ?_, ?_⟩)
      · change 0 < x.size
        omega
      · exact (Int64.add_zero _).symm

/-! ### Reads -/

theorem readInitial_of_images (himages : p.images = #[]) (m : Memory Constant) (o : Int64) (hsize : IsAccess size) :
    readInitial p.constantSetting m o (8 * size) = .ok (.unknown (8 * size)) := by
  have hnone : p.constantSetting.initial m.dataIsTop o (8 * size) = .ok none := by
    change p.initialNumber m.dataIsTop o (8 * size) = _
    simp [Program.initialNumber, Program.imageAt?, himages]
  rw [readInitial, hnone]
  exact Constant.top_width hsize

theorem Described.readsByte (himages : p.images = #[]) (h : Described m σ) (r : Region) (o : Int64) :
    ReadsByte (σ r) p m r o := by
  cases hc : m.cells.find? r o with
  | some c =>
    rcases readByte_cell (p := p) h.typed h.whole.placed hc with hread | hread
    · exact .inl hread
    · cases hn : c.contents with
      | unknown u =>
        rw [Cell.extract, hn] at hread
        exact .inl hread
      | known n =>
        obtain ⟨d, hd, rfl⟩ := mem_bytes.mp (h.whole r o c hc).1
        obtain ⟨k, hk, hsize, -⟩ := h.typed r _ c hc
        have hle := hk.le
        have hdistance := distance_add (i := d) (by omega) c.offset
        obtain ⟨v, hv, -, hbyte⟩ := Cell.extract_known (o := c.offset + Int64.ofNat d) hn
          (show distance c.offset (c.offset + Int64.ofNat d) + 1 ≤ 8 by omega)
        refine .inr ⟨v, ?_, hv ▸ hread⟩
        rw [hbyte 0 Nat.one_pos, hdistance, Nat.add_zero, h.holds hc hn hd]
  | none =>
    left
    rw [readByte, readWith, hc]
    dsimp only
    split
    · exact readInitial_of_images himages m o (.inl rfl)
    · rfl

/-- The reads that may give a wrong number. -/
inductive Misreads (m : Memory Constant) (σ : Bytes) (r : Region) (o : Int64) (size : Nat) : Prop
  /-- A number is put together from the bytes of several cells, and one with its highest bit set
  changes the next. -/
  | smeared {c : Cell Constant} (hc : m.cells.find? r o = some c) (ho : c.offset = o) (hlt : c.size < size) {i : Nat}
      (hi : i + 1 < size) (hmsb : (σ r (o + Int64.ofNat i)).msb = true) (hnext : σ r (o + Int64.ofNat (i + 1)) ≠ 255)
  /-- The read runs past the end of a larger cell, and the byte there does not repeat the sign of
  the last one. -/
  | overrun {c : Cell Constant} (hc : m.cells.find? r o = some c) (hlt : size < c.size)
      (hend : c.size < distance c.offset o + size) (hnext : σ r (o + 1) ≠ Word.signFill (σ r o))

theorem misreads_iff_of_lt {c : Cell Constant} (hc : m.cells.find? r o = some c) (ho : c.offset = o)
    (hlt : c.size < size) (hsize : IsAccess size) {n : Num} (hn : Assembled (fun j => σ r (o + .ofNat j)) size n) :
    n.value = σ.word r o size ↔ ¬Misreads m σ r o size := by
  have hle := hsize.le
  have hsmear : n.value = σ.word r o size ↔
      ∀ i < size, smear (fun j => σ r (o + .ofNat j)) i = σ r (o + .ofNat i) := by
    rw [eq_comm, Bytes.word_eq_iff σ r o (by omega) hn.fits]
    refine forall₂_congr fun i hi => ?_
    rw [hn.byte_eq i hi, eq_comm]
  rw [hsmear, smear_eq_iff]
  constructor
  · rintro h (⟨-, -, -, hi, hmsb, hnext⟩ | ⟨hc', hlt', -, -⟩)
    · exact hnext (h _ hi hmsb)
    · cases hc.symm.trans hc'
      omega
  · intro h i hi hmsb
    by_contra hnext
    exact h (.smeared hc ho hlt hi hmsb hnext)

theorem Described.misreads_iff_of_le (h : Described m σ) {c : Cell Constant} {n : Num}
    (hc : m.cells.find? r o = some c) (hn : c.contents = .known n) (hsize : IsAccess size)
    (hle : size < c.size ∨ c.offset = o ∧ c.size = size) :
    ∃ v, c.extract o size = .known ⟨v, 8 * size⟩ ∧ (v = σ.word r o size ↔ ¬Misreads m σ r o size) := by
  obtain ⟨k, hk, hcsize, hfits⟩ := h.typed r o c hc
  obtain ⟨d, hd, rfl⟩ := mem_bytes.mp (h.whole r o c hc).1
  have hk' := hk.le
  have hsize' := hsize.le
  have hdistance := distance_add (i := d) (by omega) c.offset
  have hoffset (i : Nat) : c.offset + .ofNat d + .ofNat i = c.offset + .ofNat (d + i) := by
    rw [Int64.ofNat_add, Int64.add_assoc]
  obtain ⟨v, hv, hvfits, hbyte⟩ := Cell.extract_known (o := c.offset + Int64.ofNat d) hn
    (show distance c.offset (c.offset + Int64.ofNat d) + size ≤ 8 by omega)
  refine ⟨v, hv, ?_⟩
  rw [eq_comm, Bytes.word_eq_iff σ r _ (by omega) hvfits]
  by_cases hend : d + size ≤ c.size.toNat
  · refine iff_of_true (fun i hi => ?_) ?_
    · rw [hbyte i hi, hdistance, hoffset, h.holds hc hn (by omega)]
    · rintro (⟨hc', -, hlt, -, -, -⟩ | ⟨hc', -, hend', -⟩)
      · cases hc.symm.trans hc'
        omega
      · cases hc.symm.trans hc'
        omega
  · -- the last byte of four is read together with the one after it
    have hlt : size < c.size := hle.resolve_right fun hexact => by
      rw [← hexact.1] at hdistance
      have hself := distance_add (i := 0) (by omega) c.offset
      rw [show c.offset + Int64.ofNat 0 = c.offset from Int64.add_zero _] at hself
      omega
    obtain ⟨rfl, rfl, rfl⟩ : d = 3 ∧ size = 2 ∧ k = 4 := by
      unfold IsAccess at hk hsize
      omega
    have hlast : σ r (c.offset + Int64.ofNat 3) = Word.byte n.value 3 := h.holds hc hn (by omega)
    have hfill : Word.byte v 1 = Word.signFill (σ r (c.offset + Int64.ofNat 3)) := by
      rw [hn] at hfits
      rw [hbyte 1 (by omega), hdistance, hlast]
      exact Word.byte_of_fits (by omega) (Nat.le_refl 4) (by omega) hfits.2
    constructor
    · rintro hbytes (⟨hc', -, hlt', -, -, -⟩ | ⟨-, -, -, hnext⟩)
      · cases hc.symm.trans hc'
        omega
      · exact hnext ((hbytes 1 (by omega)).trans hfill)
    · intro hright i hi
      by_cases hzero : i = 0
      · subst hzero
        rw [hbyte 0 hi, hdistance, Nat.add_zero, ← hlast]
        exact congrArg (σ r) (Int64.add_zero _)
      · obtain rfl : i = 1 := by omega
        rw [hfill]
        by_contra hnext
        exact hright (.overrun hc hlt (by omega) hnext)

theorem Described.read_cases (himages : p.images = #[]) (h : Described m σ) (hr : r ≠ .top) (o : Int64)
    (hsize : IsAccess size) : ∃ a, m.read p.constantSetting r o (8 * size) = .ok a ∧ (a = .unknown (8 * size) ∨
        ∃ v, a = .known ⟨v, 8 * size⟩ ∧ (v = σ.word r o size ↔ ¬Misreads m σ r o size)) := by
  rcases Memory.read_cases h.typed h.whole.placed hr (h.readsByte himages r) o hsize with
    hread | ⟨c, hc, hle, hread⟩ | ⟨c, n, hc, ho, hlt, hread, hn⟩ | ⟨-, -, hread⟩
  · exact ⟨_, hread, .inl rfl⟩
  · cases hcontents : c.contents with
    | unknown u =>
      rw [Cell.extract, hcontents] at hread
      exact ⟨_, hread, .inl rfl⟩
    | known n =>
      obtain ⟨v, hv, hright⟩ := h.misreads_iff_of_le hc hcontents hsize hle
      exact ⟨_, hread, .inr ⟨v, hv, hright⟩⟩
  · have hle := hsize.le
    obtain ⟨v, w⟩ := n
    obtain rfl : w = 8 * size := hn.width_eq (by omega)
    exact ⟨_, hread, .inr ⟨v, rfl, misreads_iff_of_lt hc ho hlt hsize hn⟩⟩
  · exact ⟨_, hread.trans (readInitial_of_images himages m o hsize), .inl rfl⟩

/-- **Reads after writes.** Writes end. A read at a known region gives an unknown value, or a
number; the number is the one that concrete memory holds there after the same writes, exactly if the
read is none of those that may go wrong. What was written last is read as it was written. -/
theorem read_after_perform (p : Program) (himages : p.images = #[]) (xs : List Store) :
    ∃ m, Ends (perform p xs) {} () m ∧
      (∀ (σ : Bytes) (r : Region) (o : Int64) (size : Nat), IsAccess size →
        if r = .top then m.read p.constantSetting r o (8 * size) = .error (.violated none)
        else ∃ a, m.read p.constantSetting r o (8 * size) = .ok a ∧
          (a = .unknown (8 * size) ∨
            ∃ v, a = .known ⟨v, 8 * size⟩ ∧
              (v = (σ.perform xs).word r o size ↔ ¬Misreads m (σ.perform xs) r o size))) ∧
      ∀ x ∈ xs.getLast?, ∀ n, x.value = .known n →
        m.read p.constantSetting x.region x.offset (8 * x.size) = .ok (.known n) := by
  obtain ⟨m, hends, hdescribed, hlast⟩ := ends_perform p xs {}
  refine ⟨m, hends, fun σ r o size hsize => ?_, fun x hx n hn => ?_⟩
  · split
    · next hr => rw [hr]; rfl
    · next hr => exact (hdescribed σ (described_empty σ)).read_cases himages hr o hsize
  · have hdiv : (8 * x.size : Int).tdiv 8 = x.size := Int.mul_tdiv_cancel_left _ (by decide)
    rw [read, requireKnown, if_neg x.region_ne_top, hdiv]
    exact hn ▸ readWith_cell (hlast x hx n hn) rfl hdiv.symm

def Store.stack (o : Int64) (size : Nat) (v : Int64) (hsize : IsAccess size)
    (hv : (Constant.known ⟨v, 8 * size⟩).Fits (8 * size)) : Store where
  region := .stack
  offset := o
  size := size
  value := .known ⟨v, 8 * size⟩
  word := v
  region_ne_top := by decide
  isAccess := hsize
  fits := hv
  word_eq := by rintro _ ⟨⟩; rfl

/-- Two bytes that are read as one number. -/
theorem read_positive_bytes :
    let p : Program := { arch := default, options := {} }
    let xs := [Store.stack 0 1 0x34 (by decide) (by decide), Store.stack 1 1 0x12 (by decide) (by decide)]
    p.images = #[] ∧ IsAccess 2 ∧ ∃ m, Ends (perform p xs) {} () m ∧
      m.read p.constantSetting .stack 0 (8 * (2 : Nat)) = .ok (.known ⟨0x1234, 16⟩) ∧
        ∀ σ : Bytes, (0x1234 : Int64) = (σ.perform xs).word .stack 0 2 := by
  intro p xs
  obtain ⟨m, hends, hread, -⟩ := read_after_perform p rfl xs
  obtain ⟨m₀, hends₀, hvalue, hcell⟩ : ∃ m₀, Ends (perform p xs) {} () m₀ ∧
      m₀.read p.constantSetting .stack 0 (8 * (2 : Nat)) = .ok (.known ⟨0x1234, 16⟩) ∧
        m₀.cells.find? .stack 0 = some ⟨0, 1, .known ⟨0x34, 8⟩⟩ := ⟨_, rfl, rfl, rfl⟩
  obtain ⟨-, rfl⟩ := hends.unique hends₀
  refine ⟨rfl, by decide, m, hends, hvalue, fun σ => ?_⟩
  obtain ⟨a, ha, hcases⟩ := hread σ .stack 0 2 (by decide)
  obtain rfl := Except.ok.inj (hvalue.symm.trans ha)
  rcases hcases with hunknown | ⟨v, hv, hright⟩
  · cases hunknown
  obtain rfl : 0x1234 = v := congrArg Num.value (Constant.known.inj hv)
  refine hright.mpr ?_
  rintro (@⟨_, -, -, -, i, hi, hmsb, -⟩ | ⟨hc, hlt, -, -⟩)
  · obtain rfl : i = 0 := by omega
    rw [show σ.perform xs .stack (0 + Int64.ofNat 0) = 0x34 from rfl] at hmsb
    exact absurd hmsb (by decide)
  · obtain rfl := Option.some.inj (hcell.symm.trans hc)
    exact absurd hlt (by decide)

/-- Both kinds of reads that go wrong: the bytes `80 12` are read as `80 FF`, and at the end of all
offsets the bytes `12 05` are read as `12 00`. -/
theorem read_smeared_and_overrun :
    let p : Program := { arch := default, options := {} }
    let xs := [Store.stack 0 1 (-128) (by decide) (by decide), Store.stack 1 1 18 (by decide) (by decide)]
    let ys := [Store.stack 9223372036854775803 4 305419896 (by decide) (by decide),
      Store.stack 9223372036854775807 1 5 (by decide) (by decide)]
    (∃ m, Ends (perform p xs) {} () m ∧ m.read p.constantSetting .stack 0 16 = .ok (.known ⟨-128, 16⟩) ∧
      ∀ σ : Bytes, (σ.perform xs).word .stack 0 2 = 4736) ∧
    ∃ m, Ends (perform p ys) {} () m ∧
      m.read p.constantSetting .stack 9223372036854775806 16 = .ok (.known ⟨18, 16⟩) ∧
      ∀ σ : Bytes, (σ.perform ys).word .stack 9223372036854775806 2 = 1298 := by
  intro p xs ys
  refine ⟨⟨_, rfl, rfl, fun σ => ?_⟩, ⟨_, rfl, rfl, fun σ => ?_⟩⟩
  all_goals
    rw [Bytes.word_eq_iff _ _ _ (by decide) (by decide)]
    intro i hi
    interval_cases i <;> rfl

end Memory

end FlowRecovery
