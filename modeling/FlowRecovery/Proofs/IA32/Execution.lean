import FlowRecovery.Proofs.IA32.Sizes

/-!
# Statements on registers and memory

A `State` has the bits of all registers and a byte at each of the 2³² addresses of memory. Segments
begin at addresses that the contents of segment registers tell. Expressions have their values on the
machine that a state shows (`State.machine`); a statement assigns such a value to a register or
stores it in memory, its lowest byte first (`State.step`).

What a place holds after it was written is what was written (`State.value_put_var`,
`State.value_put_mem`), and to write what a place holds changes nothing (`State.put_var_value`,
`State.put_mem_value`). Everything else keeps its value unless it depends on the place
(`State.Keeps`).
-/

namespace FlowRecovery.IA32

open FlowRecovery.Expr Word BitVec

/-- The registers and the memory of a machine. -/
structure State where
  /-- The bits of the registers. -/
  file : Registers.File
  /-- Where a segment begins, by the contents of its register. Without one, the address is not
  moved. -/
  base : Option Int64 → BitVec 32
  /-- The bytes of memory. -/
  bytes : BitVec 32 → BitVec 8

namespace State

variable {r : Registers} {σ σ' : State} {x y : Var} {a e : Expr} {as : List Expr} {s : Option Expr} {w m : Int}
  {v : Int64} {n : Nat}

/-! ### Memory -/

def load (σ : State) (a : BitVec 32) (n : Nat) : BitVec n :=
  BitVec.ofFnLE fun k : Fin n => (σ.bytes (a + BitVec.ofNat 32 (k / 8))).getLsbD (k % 8)

def store (σ : State) (a : BitVec 32) (b : BitVec n) : State :=
  { σ with bytes := fun a' =>
      if 8 * (a' - a).toNat < n then b.extractLsb' (8 * (a' - a).toNat) 8 else σ.bytes a' }

theorem getLsbD_load (a : BitVec 32) {k : Nat} (hk : k < n) :
    (σ.load a n).getLsbD k = (σ.bytes (a + .ofNat 32 (k / 8))).getLsbD (k % 8) := by
  rw [load, getLsbD_ofFnLE, dif_pos hk]

theorem load_store (hn : n ≤ 64) (a : BitVec 32) (b : BitVec n) : (σ.store a b).load a n = b := by
  apply eq_of_getLsbD_eq
  intro k hk
  -- bit `k` lies in the byte at distance `k / 8`
  have hdistance : (a + .ofNat 32 (k / 8) - a).toNat = k / 8 := by
    rw [add_comm, add_sub_cancel, toNat_ofNat, Nat.mod_eq_of_lt (by omega)]
  rw [getLsbD_load a hk]
  simp only [store, hdistance]
  rw [if_pos (by omega), getLsbD_extractLsb', Nat.div_add_mod]
  simp [Nat.mod_lt]

theorem store_load (hn : 8 ∣ n) (a : BitVec 32) : σ.store a (σ.load a n) = σ := by
  obtain ⟨m, rfl⟩ := hn
  have hbytes : (σ.store a (σ.load a (8 * m))).bytes = σ.bytes := by
    funext a'
    simp only [store]
    split
    · next hlt =>
      apply eq_of_getLsbD_eq
      intro j hj
      have hquotient : (8 * (a' - a).toNat + j) / 8 = (a' - a).toNat := by omega
      have hremainder : (8 * (a' - a).toNat + j) % 8 = j := by omega
      have haddress : a + .ofNat 32 (a' - a).toNat = a' := by
        rw [ofNat_toNat, setWidth_eq, add_comm, sub_add_cancel]
      rw [getLsbD_extractLsb', getLsbD_load a (by omega), hquotient, hremainder, haddress]
      simp [hj]
    · rfl
  exact congrArg (mk σ.file σ.base) hbytes

/-! ### Values -/

/-- What expressions can speak of in a state. There are no named operations and no unspecified
values. -/
def machine (r : Registers) (σ : State) : Machine where
  register x := ofBits (r.read σ.file x)
  memory w s a := ofBits (σ.load (σ.base s + low 32 a) w.toNat)
  named _ _ := 0
  unspecified _ := 0
  other _ _ _ := 0

theorem value_var (hpos : 0 ≤ x.width) (hle : x.width ≤ 64) :
    value (σ.machine r) (.var x) = ofBits (r.read σ.file x) := by
  rw [value]
  have hfits := fits_ofBits (by omega) (r.read σ.file x)
  rwa [Int.toNat_of_nonneg hpos] at hfits

def locate (r : Registers) (σ : State) (a : Expr) (s : Option Expr) : BitVec 32 :=
  σ.base (segmentValue (σ.machine r) s) + low 32 (value (σ.machine r) a)

theorem value_mem (hpos : 0 ≤ w) (hle : w ≤ 64) :
    value (σ.machine r) (.mem w a s m) = ofBits (σ.load (σ.locate r a s) w.toNat) := by
  rw [value]
  have hfits := fits_ofBits (by omega) (σ.load (σ.locate r a s) w.toNat)
  rwa [Int.toNat_of_nonneg hpos] at hfits

/-! ### Places -/

def put (r : Registers) (σ : State) : Expr → Int64 → State
  | .var x, v => { σ with file := r.write σ.file x (low x.width.toNat v) }
  | .mem w a s _, v => σ.store (σ.locate r a s) (low w.toNat v)
  | _, _ => σ

def step (r : Registers) (σ : State) : Effect → Option State
  | .assign x e => some (σ.put r (.var x) (value (σ.machine r) e))
  | .store (.mem w a s m) e => some (σ.put r (.mem w a s m) (value (σ.machine r) e))
  | .skip => some σ
  | _ => none

def execute (r : Registers) (σ : State) (ss : List Stmt) : Option State := (effects ss).foldlM (step r) σ

def Keeps (r : Registers) (σ σ' : State) (e : Expr) : Prop := value (σ'.machine r) e = value (σ.machine r) e

theorem keeps_num (r : Registers) (σ σ' : State) (v : Int64) (w : Int) : Keeps r σ σ' (.num v w) := by
  rw [Keeps, value, value]

theorem keeps_var (h : r.read σ'.file x = r.read σ.file x) : Keeps r σ σ' (.var x) := by
  rw [Keeps, value, value]
  exact congrArg (fun b => wrap x.width (ofBits b)) h

theorem apply_congr {μ μ' : Machine} (h : μ'.other = μ.other) : μ'.apply = μ.apply := by
  funext o w ws vs
  unfold Machine.apply
  rw [h]

theorem keeps_op {o : Operator} (h : ∀ a ∈ as, Keeps r σ σ' a) : Keeps r σ σ' (.op o as) := by
  have hvalues : values (σ'.machine r) as = values (σ.machine r) as := by
    rw [values_eq_map, values_eq_map]
    exact List.map_congr_left h
  have happly : (σ'.machine r).apply = (σ.machine r).apply := apply_congr rfl
  rw [Keeps, value, value, hvalues, happly]

theorem keeps_bits {f l : Expr} (hx : Keeps r σ σ' a) (hf : Keeps r σ σ' f) (hl : Keeps r σ σ' l) :
    Keeps r σ σ' (.bits a f l) := by
  unfold Keeps at hx hf hl ⊢
  rw [value, value, hx, hf, hl]

theorem locate_eq (hbase : σ'.base = σ.base) (ha : Keeps r σ σ' a) (hs : ∀ t ∈ s, Keeps r σ σ' t) :
    σ'.locate r a s = σ.locate r a s := by
  have hsegment : segmentValue (σ'.machine r) s = segmentValue (σ.machine r) s := by
    cases s with
    | none => rw [segmentValue, segmentValue]
    | some t =>
      have ht := hs t rfl
      unfold Keeps at ht
      rw [segmentValue, segmentValue, ht]
  unfold Keeps at ha
  rw [locate, locate, hbase, hsegment, ha]

theorem keeps_mem (hbase : σ'.base = σ.base) (hbytes : σ'.bytes = σ.bytes) (ha : Keeps r σ σ' a)
    (hs : ∀ t ∈ s, Keeps r σ σ' t) : Keeps r σ σ' (.mem w a s m) := by
  have hload (b : BitVec 32) : σ'.load b w.toNat = σ.load b w.toNat := by
    unfold load
    rw [hbytes]
  have hmemory (σ : State) : value (σ.machine r) (.mem w a s m) =
      wrap w (ofBits (σ.load (σ.locate r a s) w.toNat)) := by
    rw [value]
    rfl
  rw [Keeps, hmemory, hmemory, hload, locate_eq hbase ha hs]

/-! ### Writing -/

@[simp] theorem base_put (p : Expr) (v : Int64) : (σ.put r p v).base = σ.base := by
  cases p <;> rfl

theorem value_put_var (hpos : 0 ≤ x.width) (hle : x.width ≤ 64) (hv : Fits x.width v) :
    value ((σ.put r (.var x) v).machine r) (.var x) = v := by
  have hread : r.read (σ.put r (.var x) v).file x = low x.width.toNat v := Registers.read_write_self _
  rw [value_var hpos hle, hread]
  exact hv

theorem value_put_mem (hpos : 0 ≤ w) (hle : w ≤ 64) (hv : Fits w v)
    (ha : Keeps r σ (σ.put r (.mem w a s m) v) a) (hs : ∀ t ∈ s, Keeps r σ (σ.put r (.mem w a s m) v) t) :
    value ((σ.put r (.mem w a s m) v).machine r) (.mem w a s m) = v := by
  rw [value_mem hpos hle, locate_eq (base_put _ v) ha hs, put, load_store (by omega)]
  exact hv

theorem put_var_value (hpos : 0 ≤ x.width) (hle : x.width ≤ 64) :
    σ.put r (.var x) (value (σ.machine r) (.var x)) = σ := by
  rw [value_var hpos hle, put, low_ofBits (by omega), Registers.write_read]

theorem put_mem_value (hpos : 0 ≤ w) (hle : w ≤ 64) (hw : w % 8 = 0) :
    σ.put r (.mem w a s m) (value (σ.machine r) (.mem w a s m)) = σ := by
  rw [value_mem hpos hle, put, low_ofBits (by omega), store_load (by omega)]

theorem step_write (p e : Expr) (hp : (∃ v, p = .var v) ∨ ∃ w a s m, p = .mem w a s m) :
    σ.step r (.write p e) = some (σ.put r p (value (σ.machine r) e)) := by
  rcases hp with ⟨v, rfl⟩ | ⟨w, a, s, m, rfl⟩ <;> rfl

theorem read_put_var (h : (r.place y).1 ≠ (r.place x).1) (σ : State) (v : Int64) :
    r.read (σ.put r (.var x) v).file y = r.read σ.file y := by
  refine Registers.read_write_of_apart _ fun i j hbit hbit' => h ?_
  rw [← hbit'.1, hbit.1]

theorem keeps_put_var (h : (r.place y).1 ≠ (r.place x).1) : Keeps r σ (σ.put r (.var x) v) (.var y) :=
  keeps_var (read_put_var h σ v)

theorem keeps_put_mem : Keeps r σ (σ.put r (.mem w a s m) v) (.var y) := keeps_var rfl

end State

end FlowRecovery.IA32
