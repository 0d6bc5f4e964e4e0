import FlowRecovery.Proofs.Memory.Soundness

/-!
# The order of abstract memory

A memory is below another one if what the second knows is known to the first. `Memory.lessOrEqual`
does not look at every byte: it compares the cells of the second memory that are still found at
their first byte, and the global cells of the first one. What is known for other reasons has not
been compared, and need not be known to the first memory.
-/

namespace FlowRecovery

open FaultyM

def Bytes.Holds (σ : Bytes) (r : Region) (o : Int64) (size : Nat) (v : Int64) : Prop :=
  ∀ i < size, σ r (o + Int64.ofNat i) = Word.byte v i

namespace Memory

open FaultyM (Ends)

variable {p : Program} {m m' a b : Memory Constant} {σ : Bytes} {r : Region} {o : Int64} {size : Nat}

/-- Concrete memory holds every number that is read from abstract memory. -/
def Describes (p : Program) (m : Memory Constant) (σ : Bytes) : Prop :=
  ∀ (r : Region) (o : Int64) (size : Nat) (n : Num), IsAccess size →
    m.read p.constantSetting r o (8 * size) = .ok (.known n) → σ.Holds r o size n.value

/-! ### Changes -/

/-- The changes of memory. -/
inductive Change where
  | write (x : Write)
  | forgetRegion (r : Region)
  | forgetAll
  | forgetStackBelow (o : Int64)

def Change.run (p : Program) : Change → Update Constant Unit
  | write x => x.run p
  | forgetRegion r => setRegionTop p.constantSetting r
  | forgetAll => setTop p.constantSetting
  | forgetStackBelow o => modify (Memory.forgetStackBelow o)

def Reachable (p : Program) (m : Memory Constant) : Prop := ∃ cs : List Change, Ends (cs.forM (·.run p)) {} () m

/-- Cells are found at their own bytes, and have contents of their width. -/
structure Proper (m : Memory Constant) : Prop where
  typed : m.Typed
  placed : m.Placed

theorem Proper.of_within (h : m.Proper) (hm' : Within m' m) : m'.Proper :=
  ⟨fun r o c hc => h.typed r o c (hm' r o c hc), fun r o c hc => h.placed r o c (hm' r o c hc)⟩

theorem Written.proper {x : Write} {s : Bool} (hx : Written (.unknown 8) x.region x.cell s m m') (h : m.Proper) :
    m'.Proper :=
  ⟨hx.typed h.typed, hx.placed h.placed⟩

variable {s : Setting Constant}

theorem within_of_ends_setTop (h : Ends (setTop s) m () m') : Within m' m := by
  unfold setTop at h
  split at h
  · obtain ⟨-, rfl⟩ := ends_pure.mp h
    exact fun _ _ _ hc => hc
  · have h := ends_set_bind.mp h
    split at h
    · exact absurd h not_ends_throw
    · obtain ⟨-, rfl⟩ := ends_pure.mp h
      intro r o c hc
      cases hc

theorem within_of_ends_setRegionTop (h : Ends (setRegionTop s r) m () m') : Within m' m := by
  unfold setRegionTop at h
  split at h
  · exact within_of_ends_setTop h
  · split at h
    · have h := ends_modify_bind.mp h
      split at h
      · exact absurd h not_ends_throw
      · obtain ⟨-, rfl⟩ := ends_pure.mp h
        intro r' o c hc
        dsimp only at hc
        rw [PairMap.find?_eraseRow] at hc
        split at hc
        · cases hc
        · exact hc
    · obtain ⟨-, rfl⟩ := ends_pure.mp h
      exact fun _ _ _ hc => hc

theorem Proper.run {x : Change} (h : m.Proper) (hx : Ends (x.run p) m () m') : m'.Proper := by
  cases x with
  | write x =>
    obtain ⟨v, hv, hwritten⟩ := x.ends_run (p := p) m
    obtain ⟨-, rfl⟩ := hv.unique hx
    exact hwritten.proper h
  | forgetRegion r => exact h.of_within (within_of_ends_setRegionTop hx)
  | forgetAll => exact h.of_within (within_of_ends_setTop hx)
  | forgetStackBelow o =>
    obtain rfl := ends_modify.mp hx
    exact h.of_within (within_forgetStackBelow m o)

theorem proper_empty : ({} : Memory Constant).Proper where
  typed _ _ _ hc := by cases hc
  placed _ _ _ hc := by cases hc

theorem Proper.forM {cs : List Change} (h : m.Proper) (hcs : Ends (cs.forM (·.run p)) m () m') : m'.Proper := by
  induction cs generalizing m with
  | nil =>
    obtain rfl := ends_forM_nil.mp hcs
    exact h
  | cons x cs ih =>
    obtain ⟨v, hx, hcs⟩ := ends_forM_cons.mp hcs
    exact ih (h.run hx) hcs

theorem Reachable.proper (h : Reachable p m) : m.Proper := by
  obtain ⟨cs, hcs⟩ := h
  exact proper_empty.forM hcs

/-! ### What is compared -/

theorem forall_of_allM {β : Type} {test : β → Faulty Bool} {l : List β} (h : allM test l = .ok true) :
    ∀ x ∈ l, test x = .ok true := by
  induction l with
  | nil => exact fun x hx => absurd hx List.not_mem_nil
  | cons y l ih =>
    rw [allM] at h
    cases hy : test y with
    | error e =>
      rw [hy] at h
      cases h
    | ok t =>
      rw [hy] at h
      cases t with
      | false => cases h
      | true =>
        intro x hx
        rcases List.mem_cons.mp hx with rfl | hx
        · exact hy
        · exact ih h x hx

variable {n : Num}

theorem eq_known_of_lessOrEqual {x : Constant}
    (h : AbstractValue.lessOrEqual x (.known n) = .ok true) : x = .known n := by
  have h : (Constant.known n).isTop || x.equals (.known n) := Except.ok.inj h
  cases x with
  | unknown u => simp [Constant.isTop, Constant.equals] at h
  | known k =>
    have hk : n = k := by simpa [Constant.isTop, Constant.equals, Constant.representative] using h
    rw [hk]

theorem allM_of_lessOrEqual (hle : a.lessOrEqual s b = .ok true) :
    allM (fun (r, c) => do AbstractValue.lessOrEqual (← a.read s r c.offset c.width) c.contents) b.allHeads = .ok true ∧
    allM (fun c => do AbstractValue.lessOrEqual c.contents (← b.read s .global c.offset c.width)) a.globalHeads =
      .ok true := by
  rw [lessOrEqual] at hle
  generalize allM _ b.allHeads = all at hle ⊢
  cases all with
  | error e => cases hle
  | ok t =>
    cases t with
    | false => cases hle
    | true => exact ⟨rfl, hle⟩

variable {c : Cell Constant}

theorem read_of_lessOrEqual (hle : a.lessOrEqual s b = .ok true)
    (hc : b.cells.find? r c.offset = some c) (hn : c.contents = .known n) :
    a.read s r c.offset c.width = .ok (.known n) := by
  have hcell := forall_of_allM (allM_of_lessOrEqual hle).1 _ (mem_allHeads hc)
  dsimp only at hcell
  cases hread : a.read s r c.offset c.width with
  | error e =>
    rw [hread] at hcell
    cases hcell
  | ok x =>
    rw [hread, hn] at hcell
    rw [eq_known_of_lessOrEqual hcell]

theorem contents_of_lessOrEqual (hle : a.lessOrEqual s b = .ok true) (hc : a.cells.find? .global c.offset = some c)
    (hn : b.read s .global c.offset c.width = .ok (.known n)) : c.contents = .known n := by
  have hcell := forall_of_allM (allM_of_lessOrEqual hle).2 _ (mem_globalHeads hc)
  rw [hn] at hcell
  exact eq_known_of_lessOrEqual hcell

/-! ### Bytes -/

/-- What is known of a byte: its place in a cell, or the initial data. -/
def byte? (p : Program) (m : Memory Constant) (r : Region) (o : Int64) : Option (BitVec 8) :=
  match m.cells.find? r o with
  | some c =>
    match c.contents with
    | .known n => some (Word.byte n.value (distance c.offset o))
    | .unknown _ => none
  | none =>
    if r = .global then
      match m.readInitial p.constantSetting o 8 with
      | .ok (.known n) => some (Word.byte n.value 0)
      | _ => none
    else none

variable {v : BitVec 8} {xs : List Store}

theorem byte?_of_cell (hc : m.cells.find? r o = some c) :
    m.byte? p r o = some v ↔ ∃ n, c.contents = .known n ∧ Word.byte n.value (distance c.offset o) = v := by
  rw [byte?, hc]
  dsimp only
  cases c.contents with
  | known n => simp
  | unknown u => simp

theorem byte?_of_none (hc : m.cells.find? r o = none) : m.byte? p r o = some v ↔
      r = .global ∧ ∃ n, m.readInitial p.constantSetting o 8 = .ok (.known n) ∧ Word.byte n.value 0 = v := by
  rw [byte?, hc]
  dsimp only
  split
  · next hr =>
    split
    · next n hn => simp [hr, hn]
    · next hne => simpa [hr] using fun n hn => absurd hn (hne n)
  · next hr => simp [hr]

theorem read_first (htyped : m.Typed) (hr : r ≠ .top) (hc : m.cells.find? r c.offset = some c) :
    m.read p.constantSetting r c.offset c.width = .ok c.contents := by
  have hwidth := (htyped r _ c hc).width_eq
  obtain ⟨k, hk, hsize, -⟩ := htyped r _ c hc
  rw [read, requireKnown, if_neg hr]
  refine readWith_cell hc rfl ?_
  rw [hwidth, Int.mul_tdiv_cancel_left _ (by decide)]
  omega

theorem read_byte_of_none (hc : m.cells.find? .global o = none) :
    m.read p.constantSetting .global o 8 = m.readInitial p.constantSetting o 8 := by
  rw [read, requireKnown, if_neg (by decide)]
  change readWith _ m _ .global o 8 = _
  rw [readWith, hc]
  rfl

theorem eq_of_ofNum_eq_known {k : Num} (h : Constant.ofNum k = .ok (.known n)) : k = n := by
  unfold Constant.ofNum at h
  split at h
  · cases h
  · split at h
    · cases h
    · exact Constant.known.inj (Except.ok.inj h)

theorem readInitial_eq_known {w : Int} : m.readInitial p.constantSetting o w = .ok (.known n) ↔
      p.initialNumber m.dataIsTop o w = .ok (some n) ∧ Constant.ofNum n = .ok (.known n) := by
  unfold readInitial
  change (p.initialNumber m.dataIsTop o w >>= _) = _ ↔ _
  cases p.initialNumber m.dataIsTop o w with
  | error e => exact iff_of_false (nofun) (fun h => by cases h.1)
  | ok x =>
    cases x with
    | none =>
      refine iff_of_false (fun h => ?_) (fun h => by cases h.1)
      change Constant.top w = _ at h
      unfold Constant.top at h
      split at h <;> cases h
    | some k =>
      constructor
      · intro h
        obtain rfl := eq_of_ofNum_eq_known h
        exact ⟨rfl, h⟩
      · rintro ⟨⟨⟩, h⟩
        exact h

theorem initialNumber_mono {flag flag' : Bool} (hflag : flag → flag') {w : Int}
    (h : p.initialNumber flag' o w = .ok (some n)) : p.initialNumber flag o w = .ok (some n) := by
  unfold Program.initialNumber at h ⊢
  cases himage : p.imageAt? o with
  | none => simp [himage] at h
  | some i =>
    simp only [himage] at h
    split at h
    · cases h
    · next hcounts =>
      dsimp only
      rw [if_neg]
      · exact h
      · cases flag <;> simp_all

/-! ### Covering -/

/-- The bytes of a number are what is known of each byte. -/
def Coherent (p : Program) (m : Memory Constant) (r : Region) (o : Int64) (size : Nat) (v : Int64) : Prop :=
  ∀ i < size, m.byte? p r (o + Int64.ofNat i) = some (Word.byte v i)

/-- What the second memory knows of a byte has been compared with the first. -/
inductive Compared (p : Program) (a b : Memory Constant) (r : Region) (o : Int64) : Prop
  /-- The second memory has a cell there, which it still has at its first byte. -/
  | cell {c : Cell Constant} (hc : b.cells.find? r o = some c) (hfirst : b.cells.find? r c.offset = some c)
  /-- Neither has a cell there, and the initial data counts for the first as it does for the second.
  -/
  | initial (hb : b.cells.find? r o = none) (ha : a.cells.find? r o = none)
      (hflag : a.dataIsTop = true → b.dataIsTop = true)
  /-- Only the first memory has a cell there, at its first byte as well, and the second reads all of
  its bytes. -/
  | overwritten {c : Cell Constant} {n : Num} (hb : b.cells.find? r o = none) (hc : a.cells.find? r o = some c)
      (hfirst : a.cells.find? r c.offset = some c) (hread : b.read p.constantSetting r c.offset c.width = .ok (.known n))
      (hcoherent : Coherent p b r c.offset c.size.toNat n.value)

theorem Describes.holds_cell (hσ : Describes p a σ) (htyped : c.Typed)
    (hread : a.read p.constantSetting r c.offset c.width = .ok (.known n)) :
    σ.Holds r c.offset c.size.toNat n.value := by
  rw [htyped.width_eq] at hread
  obtain ⟨k, hk, hsize, -⟩ := htyped
  refine hσ r c.offset c.size.toNat n ?_ hread
  rwa [hsize, Int.toNat_natCast]

theorem Compared.byte_eq (h : Compared p a b r o) (ha : a.Proper) (hb : b.Proper) (hr : r ≠ .top)
    (hle : a.lessOrEqual p.constantSetting b = .ok true) (hσ : Describes p a σ)
    (hv : b.byte? p r o = some v) : σ r o = v := by
  cases h with
  | @cell c hc hfirst =>
    obtain ⟨n, hn, rfl⟩ := (byte?_of_cell hc).mp hv
    obtain ⟨d, hd, rfl⟩ := mem_bytes.mp (hb.placed r o c hc)
    obtain ⟨k, hk, hsize, -⟩ := hb.typed r _ c hc
    have hlt := hk.le
    rw [distance_add (by omega)]
    exact hσ.holds_cell (hb.typed r _ c hc) (read_of_lessOrEqual hle hfirst hn) d hd
  | initial hbnone hanone hflag =>
    obtain ⟨rfl, n, hn, rfl⟩ := (byte?_of_none hbnone).mp hv
    have hinitial := readInitial_eq_known.mp hn
    have hread : a.read p.constantSetting .global o (8 * (1 : Nat)) = .ok (.known n) :=
      (read_byte_of_none hanone).trans
        (readInitial_eq_known.mpr ⟨initialNumber_mono hflag hinitial.1, hinitial.2⟩)
    have hholds := hσ .global o 1 n (.inl rfl) hread 0 Nat.one_pos
    rwa [show o + .ofNat 0 = o from Int64.add_zero o] at hholds
  | @overwritten c n hbnone hc hfirst hread hcoherent =>
    obtain ⟨rfl, -⟩ := (byte?_of_none hbnone).mp hv
    have hcontents := contents_of_lessOrEqual hle hfirst hread
    have hholds := hσ.holds_cell (ha.typed _ o c hc) (hcontents ▸ read_first ha.typed hr hfirst)
    obtain ⟨d, hd, rfl⟩ := mem_bytes.mp (ha.placed _ o c hc)
    rw [hholds d hd, ← Option.some.inj ((hcoherent d hd).symm.trans hv)]

/-- **Covering.** Let `a` be below `b`. What `b` reads is held by every concrete memory that `a`
describes, if it is made of what `b` knows of each byte, and each byte was compared. -/
theorem holds_of_lessOrEqual (p : Program) (a b : Memory Constant) (ha : Reachable p a) (hb : Reachable p b)
    (hle : a.lessOrEqual p.constantSetting b = .ok true) (σ : Bytes) (hσ : Describes p a σ) (r : Region) (o : Int64)
    (size : Nat) (n : Num) (hread : b.read p.constantSetting r o (8 * size) = .ok (.known n))
    (hcoherent : Coherent p b r o size n.value) (hcompared : ∀ i < size, Compared p a b r (o + Int64.ofNat i)) :
    σ.Holds r o size n.value := by
  have hr : r ≠ .top := by
    rintro rfl
    cases hread
  intro i hi
  exact (hcompared i hi).byte_eq ha.proper hb.proper hr hle hσ (hcoherent i hi)

/-- Memory that describes concrete memory cell by cell describes it read by read, where no read goes
wrong. -/
theorem Described.describes (himages : p.images = #[]) (h : Described m σ)
    (hright : ∀ (r : Region) (o : Int64) (size : Nat), IsAccess size → ¬Misreads m σ r o size) : Describes p m σ := by
  intro r o size n hsize hread
  have hr : r ≠ .top := by
    rintro rfl
    cases hread
  obtain ⟨x, hx, hcases⟩ := h.read_cases himages hr o hsize
  cases hread.symm.trans hx
  rcases hcases with hunknown | ⟨v, hv, hword⟩
  · cases hunknown
  · obtain rfl := Constant.known.inj hv
    have hle := hsize.le
    intro i hi
    dsimp only
    rw [hword.mpr (hright r o size hsize), Bytes.byte_word σ r o (by omega) hi]

theorem reachable_of_perform (hends : Ends (perform p xs) {} () m) : Reachable p m := by
  refine ⟨xs.map (fun x => .write x.toWrite), ?_⟩
  change Ends (forM (xs.map _) _) {} () m
  rwa [List.forM_map]

theorem origin_of_perform (hends : Ends (perform p xs) m () m') (hc : m'.cells.find? r o = some c) :
    m.cells.find? r o = some c ∨ c = ⟨o, 1, .unknown 8⟩ ∨
      ∃ x ∈ xs, r = x.region ∧ o ∈ bytes x.offset x.size ∧ c = x.cell := by
  induction xs generalizing m with
  | nil =>
    obtain rfl := ends_forM_nil.mp hends
    exact .inl hc
  | cons x xs ih =>
    obtain ⟨v, hx, hxs⟩ := ends_forM_cons.mp hends
    obtain ⟨u, hu, hwritten⟩ := x.ends_run (p := p) m
    obtain ⟨-, rfl⟩ := hu.unique hx
    rcases ih hxs with hold | hvacant | ⟨y, hy, hcell⟩
    · by_cases hr : r = x.region
      · subst hr
        rcases hwritten.origin hold with hold | hvacant | ⟨hmem, hnew⟩
        · exact .inl hold
        · exact .inr (.inl hvacant)
        · exact .inr (.inr ⟨x, List.mem_cons_self, rfl, hmem, hnew⟩)
      · rw [hwritten.elsewhere hr] at hold
        exact .inl hold
    · exact .inr (.inl hvacant)
    · exact .inr (.inr ⟨y, List.mem_cons_of_mem x hy, hcell⟩)

/-- The middle of a number on the stack; the second memory knows less than the first. -/
theorem holds_middle_of_cell :
    let p : Program := { arch := default, options := {} }
    let xs := [Store.stack 0 4 0x12345678 (by decide) (by decide), Store.stack 9 1 0x11 (by decide) (by decide)]
    let ys := [Store.stack 0 4 0x12345678 (by decide) (by decide)]
    let σ := Bytes.perform (fun _ _ => 0) xs
    ∃ a b, Ends (perform p xs) {} () a ∧ Ends (perform p ys) {} () b ∧ Reachable p a ∧ Reachable p b ∧
      a.lessOrEqual p.constantSetting b = .ok true ∧ Describes p a σ ∧
      b.read p.constantSetting .stack 1 (8 * (2 : Nat)) = .ok (.known ⟨0x3456, 16⟩) ∧ σ.Holds .stack 1 2 0x3456 := by
  intro p xs ys σ
  obtain ⟨a, b, ha, hb, hle, hread, hbytes, hfirst, hcells⟩ : ∃ a b, Ends (perform p xs) {} () a ∧
      Ends (perform p ys) {} () b ∧ a.lessOrEqual p.constantSetting b = .ok true ∧
      b.read p.constantSetting .stack 1 (8 * (2 : Nat)) = .ok (.known ⟨0x3456, 16⟩) ∧
      (b.byte? p .stack (1 + Int64.ofNat 0) = some 0x56 ∧ b.byte? p .stack (1 + Int64.ofNat 1) = some 0x34) ∧
      b.cells.find? .stack 0 = some ⟨0, 4, .known ⟨0x12345678, 32⟩⟩ ∧
      b.cells.find? .stack (1 + Int64.ofNat 0) = some ⟨0, 4, .known ⟨0x12345678, 32⟩⟩ ∧
      b.cells.find? .stack (1 + Int64.ofNat 1) = some ⟨0, 4, .known ⟨0x12345678, 32⟩⟩ :=
    ⟨_, _, rfl, rfl, rfl, rfl, ⟨rfl, rfl⟩, rfl, rfl, rfl⟩
  have hdescribed : Described a σ := by
    obtain ⟨m, hm, hdescribed, -⟩ := ends_perform p xs {}
    obtain ⟨-, rfl⟩ := hm.unique ha
    exact hdescribed _ (described_empty _)
  have hmsb (r : Region) (o : Int64) : (σ r o).msb = false := by
    change (if _ then Word.byte 0x11 (distance 9 o) else if _ then Word.byte 0x12345678 (distance 0 o) else 0).msb = false
    split_ifs with hy hx
    · exact (by decide : ∀ d < 1, (Word.byte 0x11 d).msb = false) _ hy.2
    · exact (by decide : ∀ d < 4, (Word.byte 0x12345678 d).msb = false) _ hx.2
    · rfl
  have hσ : Describes p a σ := by
    refine hdescribed.describes rfl fun r o size hsize => ?_
    have hpos := hsize.le
    rintro (⟨-, -, -, -, hset, -⟩ | ⟨hc, hlt, hend, hnext⟩)
    · exact absurd hset (by rw [hmsb]; decide)
    · rcases origin_of_perform ha hc with hnone | rfl | ⟨x, hx, rfl, hmem, rfl⟩
      · cases hnone
      · dsimp only at hlt
        omega
      · rcases List.mem_pair.mp hx with rfl | rfl
        · -- the read would begin at the last byte of the number, before a zero
          obtain ⟨d, hd, ho⟩ := mem_bytes.mp hmem
          have hdistance : distance 0 o = d := ho ▸ distance_add (Nat.lt_trans hd (by decide)) 0
          change (size : Int) < 4 at hlt
          change (4 : Int) < distance 0 o + size at hend
          obtain ⟨rfl, rfl⟩ : d = 3 ∧ size = 2 := by
            change d < 4 at hd
            unfold IsAccess at hsize
            omega
          subst ho
          rw [Word.signFill, hmsb] at hnext
          exact hnext rfl
        · change (size : Int) < 1 at hlt
          omega
  refine ⟨a, b, ha, hb, reachable_of_perform ha, reachable_of_perform hb, hle, hσ, hread, ?_⟩
  refine holds_of_lessOrEqual p a b (reachable_of_perform ha) (reachable_of_perform hb) hle σ hσ .stack 1 2 _ hread
    (fun i hi => ?_) (fun i hi => ?_)
  · interval_cases i
    · exact hbytes.1
    · exact hbytes.2
  · interval_cases i
    · exact .cell hcells.1 hfirst
    · exact .cell hcells.2 hfirst

def writableProgram : Program where
  arch := default
  options := {}
  images := #[.ofSectioned "" ⟨#[0, 0x74, 0x01]⟩ { (default : Elf.Image) with
    sections := [{ (default : Elf.Section) with type := 1, address := 0x1000, position := 1, size := 2 }] }]

/-- What is left of a number on the stack after its lower half was forgotten. -/
def fragment : Memory Constant :=
  (((perform writableProgram [.stack (-4) 4 0x12345678 (by decide) (by decide)]).run.run
    { dataIsTop := true }).2).forgetStackBelow (-2)

theorem reachable_fragment : Reachable writableProgram fragment := by
  refine ⟨[.forgetAll, .write (Store.stack (-4) 4 0x12345678 (by decide) (by decide)).toWrite,
    .forgetStackBelow (-2)], ?_⟩
  exact ends_forM_cons.mpr ⟨_, rfl, ends_forM_cons.mpr ⟨_, rfl, ends_forM_cons.mpr
    ⟨_, ends_modify.mpr rfl, ends_forM_nil.mpr rfl⟩⟩⟩

/-- Where nothing is known, nothing is said about concrete memory. -/
theorem describes_of_dataIsTop (σ : Bytes) : Describes writableProgram { dataIsTop := true } σ := by
  intro r o size n hsize hread
  have hr : r ≠ .top := by
    rintro rfl
    cases hread
  rw [read, requireKnown, if_neg hr] at hread
  change (if r = .global then readInitial writableProgram.constantSetting { dataIsTop := true } o (8 * size)
    else Constant.top (8 * size)) = _ at hread
  split at hread
  · have hinitial := (readInitial_eq_known.mp hread).1
    rw [Program.initialNumber] at hinitial
    cases himage : writableProgram.imageAt? o with
    | none =>
      rw [himage] at hinitial
      cases hinitial
    | some i =>
      obtain rfl := Array.mem_singleton.mp (Array.mem_of_find?_eq_some himage)
      rw [himage] at hinitial
      cases hinitial
  · cases hread.symm.trans (Constant.top_width hsize)

/-- Two things that are not compared: the initial data, if only the second memory still has it, and
what is left of a cell that has lost its first byte. -/
theorem lessOrEqual_uncompared :
    Reachable writableProgram { dataIsTop := true } ∧ Reachable writableProgram {} ∧ Reachable writableProgram fragment ∧
      Memory.lessOrEqual writableProgram.constantSetting { dataIsTop := true } {} = .ok true ∧
      Memory.read writableProgram.constantSetting {} .global 0x1000 8 = .ok (.known ⟨0x74, 8⟩) ∧
      Memory.lessOrEqual writableProgram.constantSetting { dataIsTop := true } fragment = .ok true ∧
      fragment.read writableProgram.constantSetting .stack (-2) 16 = .ok (.known ⟨0x1234, 16⟩) ∧
      ∃ σ : Bytes, Describes writableProgram { dataIsTop := true } σ ∧ ¬σ.Holds .global 0x1000 1 0x74 ∧
        ¬σ.Holds .stack (-2) 2 0x1234 := by
  refine ⟨⟨[.forgetAll], rfl⟩, ⟨[], rfl⟩, reachable_fragment, rfl, by decide +kernel, by decide +kernel,
    by decide +kernel, fun _ _ => 0, describes_of_dataIsTop _, ?_, ?_⟩
  · exact fun h => absurd (h 0 (by decide)) (by decide)
  · exact fun h => absurd (h 0 (by decide)) (by decide)

end Memory

end FlowRecovery
