import FlowRecovery.Spec.Registers
import FlowRecovery.Proofs.Container.PairMap
import FlowRecovery.Proofs.Expr.Widths
import FlowRecovery.Proofs.Masks

/-!
# Registers inside registers

A register can be a range of bits of a larger one, which can be a range of bits itself. `Family r`
says that `r` was made by declaring registers that are no parts, and parts of registers declared
before, where the parts of one register have no bits in common.

The table of such a family is `Nested`: the registers listed as the ones around a register are the
register that it is part of and those around that one. Hence two registers that have a bit in common
are the same, or one of them is listed around the other (`Nested.within_of_bit`).

`RegisterFile` is what the table is about: bits, of which every register shows some. A register that
is part of another shows bits of the other (`read_part`), and to write to it is to write to the
other one (`write_part`).
-/

namespace FlowRecovery

namespace Registers

open List

variable {r r' : Registers} {x y p q : Var} {f g i j a b : Nat}

/-! ### Families -/

def Declares (r : Registers) (x : Var) : Prop := r.vars[x.index]? = some x

instance (r : Registers) (x : Var) : Decidable (r.Declares x) := inferInstanceAs (Decidable (_ = _))

/-- The variable that a declaration calls by the name, if it is there. -/
def named? (r : Registers) (name : String) : Except Fault (Option Var) := do return r.find? (← bare name)

def range (p : Var) (first : Nat) (width : Int) : Expr :=
  .bits (.var p) (.num (Int64.ofInt first) 8) (.num (Int64.ofInt (first + width - 1)) 8)

def PartOf (r : Registers) (x p : Var) (first : Nat) : Prop :=
  r.parent? x = some (range p first x.width) ∧ first + x.width ≤ p.width

/-- The registers that are listed around `x` include `p`. -/
def Within (r : Registers) (x p : Var) : Prop := (x.index, p.index) ∈ r.coveredBy

/-- The register tables that are made by declarations with new names. A register has 32 bits at
most; one that has parts consists of whole bytes. A part is declared after the register around it,
is smaller, and shares no bits with the other parts of that register. -/
inductive Family : Registers → Prop where
  | empty : Family {}
  | whole {r r' : Registers} {x : Var} {name : String} {width : Int} (h : Family r) (hnew : r.named? name = .ok none)
      (hpos : 0 < width) (hle : width ≤ 32) (hmade : r.obtain name width = .ok (x, r')) : Family r'
  | part {r r' : Registers} {p : Var} {name parent : String} {first last : Int} (h : Family r)
      (hnew : r.named? name = .ok none) (hparent : r.named? parent = .ok (some p)) (hbytes : p.width % 8 = 0)
      (hfirst : 0 ≤ first) (hle : first ≤ last) (hlast : last < p.width) (hproper : last - first + 1 < p.width)
      (hfree : ∀ y f, r.Declares y → r.PartOf y p f → last < f ∨ f + y.width ≤ first)
      (hmade : r.share name parent first last = .ok r') : Family r'

/-- The lists of a register table belong together. -/
structure Nested (r : Registers) : Prop where
  index_eq {i : Nat} {x : Var} (h : r.vars[i]? = some x) : x.index = i
  few : r.vars.size < limit
  width {x : Var} (hx : r.Declares x) : 0 < x.width ∧ x.width ≤ 32
  orphan {i : Nat} (h : r.vars.size ≤ i) : r.parents.lookup i = none
  part {x : Var} {e : Expr} (hx : r.Declares x) (h : r.parent? x = some e) :
    ∃ p first, e = range p first x.width ∧ r.Declares p ∧ p.index < x.index ∧ first + x.width ≤ p.width ∧
      p.width % 8 = 0 ∧ x.width < p.width
  apart {x y p : Var} {f g : Nat} (hx : r.Declares x) (hy : r.Declares y) (hf : r.PartOf x p f) (hg : r.PartOf y p g) :
    x = y ∨ f + x.width ≤ g ∨ g + y.width ≤ f
  ordered {i a : Nat} (h : (i, a) ∈ r.coveredBy) : a < i ∧ i < r.vars.size
  within_iff {x : Var} {a : Nat} (hx : r.Declares x) :
    (x.index, a) ∈ r.coveredBy ↔ ∃ p f, r.PartOf x p f ∧ (a = p.index ∨ (p.index, a) ∈ r.coveredBy)
  covers_iff {i a : Nat} : (a, i) ∈ r.covers ↔ (i, a) ∈ r.coveredBy

/-! ### The lists of pairs -/

variable {pairs : List (Nat × Nat)} {v : Nat}

@[simp] theorem mem_partners : b ∈ partners pairs a ↔ (a, b) ∈ pairs := by
  unfold partners
  rw [mem_filterMap]
  constructor
  · rintro ⟨⟨i, j⟩, hmem, hij⟩
    simp only [beq_iff_eq, Option.ite_none_right_eq_some, Option.some.injEq] at hij
    obtain ⟨rfl, rfl⟩ := hij
    exact hmem
  · intro h
    exact ⟨(a, b), h, by simp⟩

@[simp] theorem mem_addPair {pair : Nat × Nat} : pair ∈ addPair pairs a b ↔ pair ∈ pairs ∨ pair = (a, b) := by
  unfold addPair
  split
  · next h =>
    rw [contains_iff_mem] at h
    constructor
    · exact .inl
    · rintro (h' | rfl)
      · exact h'
      · exact h
  · simp

/-- What is listed around the registers around a register is listed around the register itself,
where the register is any but the `v`-th, which is around no other. -/
def Closed (pairs : List (Nat × Nat)) (v : Nat) : Prop :=
  ∀ i a, i ≠ v → (i, a) ∈ pairs → a ≠ v ∧ ∀ b, (a, b) ∈ pairs → (i, b) ∈ pairs

def Reaches (pairs : List (Nat × Nat)) (i a : Nat) : Prop := a = i ∨ (i, a) ∈ pairs

theorem Closed.congr {pairs' : List (Nat × Nat)} (h : Closed pairs v)
    (hsame : ∀ i a, i ≠ v → ((i, a) ∈ pairs' ↔ (i, a) ∈ pairs)) : Closed pairs' v := by
  intro i a hi hia
  obtain ⟨ha, htrans⟩ := h i a hi ((hsame i a hi).mp hia)
  exact ⟨ha, fun b hab => (hsame i b hi).mpr (htrans b ((hsame a b ha).mp hab))⟩

theorem Closed.reaches_iff (h : Closed pairs v) (hi : i ≠ v) :
    Reaches pairs i b ↔ (∃ a ∈ partners pairs i, Reaches pairs a b) ∨ b = i := by
  simp only [mem_partners]
  constructor
  · rintro (rfl | hib)
    · exact .inr rfl
    · exact .inl ⟨b, hib, .inl rfl⟩
  · rintro (⟨a, hia, rfl | hab⟩ | rfl)
    · exact .inr hia
    · exact .inr ((h i a hi hia).2 b hab)
    · exact .inl rfl

theorem foldlM_adds {S T : Type} (good : S → Prop) (has : S → T → Prop) (added : Nat → T → Prop)
    {step : S → Nat → Faulty S} {as : List Nat} {s s' : S}
    (hstep : ∀ a ∈ as, ∀ s s', good s → step s a = .ok s' → good s' ∧ ∀ t, has s' t ↔ has s t ∨ added a t)
    (hs : good s) (h : as.foldlM step s = .ok s') : good s' ∧ ∀ t, has s' t ↔ has s t ∨ ∃ a ∈ as, added a t := by
  induction as generalizing s with
  | nil =>
    cases h
    exact ⟨hs, by simp⟩
  | cons a as ih =>
    rw [foldlM_cons] at h
    obtain ⟨s₁, ha, h⟩ := of_bind_eq_ok h
    obtain ⟨hs₁, hhas₁⟩ := hstep a mem_cons_self s s₁ hs ha
    obtain ⟨hgood, hhas⟩ := ih (fun b hb => hstep b (mem_cons_of_mem a hb)) hs₁ h
    refine ⟨hgood, fun t => ?_⟩
    simp only [hhas, hhas₁, exists_mem_cons_iff, or_assoc]

theorem addAround_spec {fuel q : Nat} (hclosed : Closed r.coveredBy v) (hq : q ≠ v)
    (h : addAround fuel v q r = .ok r') : ∃ pairs, r' = { r with coveredBy := pairs } ∧
      ∀ i a, (i, a) ∈ pairs ↔ (i, a) ∈ r.coveredBy ∨ i = v ∧ Reaches r.coveredBy q a := by
  induction fuel generalizing q r r' with
  | zero => cases h
  | succ fuel ih =>
    unfold addAround at h
    obtain ⟨s, hfold, h⟩ := of_bind_eq_ok h
    -- only pairs of the new register are added, and nothing that is visited is that register
    obtain ⟨⟨⟨pairs, rfl⟩, -⟩, hadded⟩ := foldlM_adds
      (fun s => (∃ pairs, s = { r with coveredBy := pairs }) ∧
        ∀ i a, i ≠ v → ((i, a) ∈ s.coveredBy ↔ (i, a) ∈ r.coveredBy))
      (fun s t => t ∈ s.coveredBy) (fun b t => t.1 = v ∧ Reaches r.coveredBy b t.2)
      (fun b hb s s' hs hrun => by
        obtain ⟨⟨pairs, rfl⟩, hsame⟩ := hs
        have hb := (hclosed q b hq (mem_partners.mp hb)).1
        obtain ⟨pairs', rfl, hmem⟩ := ih (hclosed.congr hsame) hb hrun
        have hadded (t : Nat × Nat) : t ∈ pairs' ↔ t ∈ pairs ∨ t.1 = v ∧ Reaches r.coveredBy b t.2 := by
          rw [hmem]
          exact or_congr Iff.rfl (and_congr Iff.rfl (or_congr Iff.rfl (hsame b t.2 hb)))
        refine ⟨⟨⟨pairs', rfl⟩, fun i a hi => ?_⟩, hadded⟩
        change (i, a) ∈ pairs' ↔ _
        rw [hadded, ← hsame i a hi]
        exact or_iff_left fun h => hi h.1)
      ⟨⟨r.coveredBy, rfl⟩, fun _ _ _ => Iff.rfl⟩ hfold
    cases h
    refine ⟨_, rfl, fun i a => ?_⟩
    rw [mem_addPair, hadded, hclosed.reaches_iff hq, Prod.mk.injEq]
    grind

theorem addInside_spec {fuel q : Nat} (hclosed : Closed r.coveredBy v) (hq : q ≠ v)
    (h : addInside fuel q v r = .ok r') : ∃ pairs, r' = { r with covers := pairs } ∧
      ∀ a i, (a, i) ∈ pairs ↔ (a, i) ∈ r.covers ∨ i = v ∧ Reaches r.coveredBy q a := by
  induction fuel generalizing q r r' with
  | zero => cases h
  | succ fuel ih =>
    unfold addInside at h
    obtain ⟨s, hfold, h⟩ := of_bind_eq_ok h
    obtain ⟨⟨pairs, rfl⟩, hadded⟩ := foldlM_adds (fun s => ∃ pairs, s = { r with covers := pairs })
      (fun s t => t ∈ s.covers) (fun b t => t.2 = v ∧ Reaches r.coveredBy b t.1)
      (fun b hb s s' hs hrun => by
        obtain ⟨pairs, rfl⟩ := hs
        have hb := (hclosed q b hq (mem_partners.mp hb)).1
        obtain ⟨pairs', rfl, hmem⟩ := ih (r := { r with covers := pairs }) hclosed hb hrun
        exact ⟨⟨pairs', rfl⟩, fun t => hmem t.1 t.2⟩)
      ⟨r.covers, rfl⟩ hfold
    cases h
    refine ⟨_, rfl, fun a i => ?_⟩
    rw [mem_addPair, hadded, hclosed.reaches_iff hq, Prod.mk.injEq]
    grind

/-! ### Declarations -/

theorem Declares.eq (hx : r.Declares x) (hy : r.Declares y) (h : x.index = y.index) : x = y := by
  rw [Declares, h] at hx
  exact Option.some.inj (hx.symm.trans hy)

theorem Declares.lt (hx : r.Declares x) : x.index < r.vars.size := (Array.getElem?_eq_some_iff.mp hx).1

variable {name : String} {n : Int}

theorem Nested.declares_of_find? (h : r.Nested) (hx : r.find? name = some x) : r.Declares x := by
  obtain ⟨i, hi⟩ := Array.mem_iff_getElem?.mp (Array.mem_toList_iff.mp (mem_of_find?_eq_some hx))
  rw [Declares, h.index_eq hi]
  exact hi

theorem obtain_new {width : Int} (hnew : r.named? name = .ok none) (h : r.obtain name width = .ok (x, r')) :
    x.index = r.vars.size ∧ x.width = width ∧ r' = { r with vars := r.vars.push x } ∧ r.vars.size + 1 < limit := by
  obtain ⟨n, hbare, h⟩ := of_bind_eq_ok h
  obtain ⟨n', hbare', hnew⟩ := of_bind_eq_ok hnew
  cases hbare.symm.trans hbare'
  rw [show r.find? n = none from Except.ok.inj hnew] at h
  change (if r.vars.size + 1 < limit then _ else _) = _ at h
  split at h
  · next hlimit =>
    cases Except.ok.inj h
    exact ⟨rfl, rfl, rfl, hlimit⟩
  · cases h

theorem obtain_old (hold : r.named? name = .ok (some p))
    (h : obtain { r with vars := r.vars.push x } name unknownWidth = .ok (q, r')) :
    q = p ∧ r' = { r with vars := r.vars.push x } := by
  obtain ⟨n, hbare, h⟩ := of_bind_eq_ok h
  obtain ⟨n', hbare', hold⟩ := of_bind_eq_ok hold
  cases hbare.symm.trans hbare'
  have hfind : find? { r with vars := r.vars.push x } n = some p := by
    have hold : r.vars.toList.find? (·.name == n) = some p := Except.ok.inj hold
    rw [find?, Array.toList_push, find?_append, hold]
    rfl
  rw [hfind] at h
  cases Except.ok.inj h
  exact ⟨rfl, rfl⟩

/-! ### Positions of bits -/

theorem toInt_position (hpos : 0 ≤ n) (hle : n ≤ 32) : (Int64.ofInt n).toInt = n :=
  Int64.toInt_ofInt_of_le (by omega) (by omega)

theorem fits_position (hpos : 0 ≤ n) (hle : n ≤ 32) : Word.Fits 8 (Int64.ofInt n) := by
  apply Int64.toInt_inj.mp
  rw [Word.wrap, Word.toInt_ofBits (by decide), ← Word.ofInt_toInt (by decide), toInt_position hpos hle,
    BitVec.toInt_ofInt]
  change n.bmod 256 = n
  exact Int.bmod_eq_of_le (by omega) (by omega)

theorem number_position (hpos : 0 ≤ n) (hle : n ≤ 32) : Expr.number (.ofInt n) 8 = .num (.ofInt n) 8 := by
  rw [Expr.number_eq, Word.settle_of_fits (by decide) (fits_position hpos hle)]

theorem range_inj {w : Int} (hf : f ≤ 32) (hg : g ≤ 32) (h : range p f w = range q g w) : p = q ∧ f = g := by
  obtain ⟨hp, hf', -⟩ := Expr.bits.inj h
  obtain ⟨hf', -⟩ := Expr.num.inj hf'
  have hint := congrArg Int64.toInt hf'
  rw [toInt_position (by omega) (by omega), toInt_position (by omega) (by omega)] at hint
  exact ⟨Expr.var.inj hp, by omega⟩

section

variable (h : r.Nested)

include h

theorem Nested.partOf (hx : r.Declares x) (hf : r.PartOf x p f) :
    r.Declares p ∧ p.index < x.index ∧ p.width % 8 = 0 ∧ x.width < p.width := by
  obtain ⟨q, g, he, hq, hlt, hle, hbytes, hproper⟩ := h.part hx hf.1
  obtain ⟨rfl⟩ := Expr.var.inj (Expr.bits.inj he).1
  exact ⟨hq, hlt, hbytes, hproper⟩

theorem Nested.exists_partOf (hx : r.Declares x) {e : Expr} (he : r.parent? x = some e) :
    ∃ p f, r.PartOf x p f ∧ e = range p f x.width := by
  obtain ⟨p, f, rfl, -, -, hle, -⟩ := h.part hx he
  exact ⟨p, f, ⟨he, hle⟩, rfl⟩

theorem Nested.exists_of_mem (hia : (i, a) ∈ r.coveredBy) : ∃ x, r.Declares x ∧ x.index = i := by
  have hlt := (h.ordered hia).2
  have hx : r.vars[i]? = some r.vars[i] := Array.getElem?_eq_getElem hlt
  have hindex := h.index_eq hx
  exact ⟨r.vars[i], by rw [Declares, hindex]; exact hx, hindex⟩

theorem Nested.trans (hia : (i, a) ∈ r.coveredBy) (hab : (a, b) ∈ r.coveredBy) : (i, b) ∈ r.coveredBy := by
  induction i using Nat.strongRecOn with
  | ind i ih =>
    obtain ⟨x, hx, rfl⟩ := h.exists_of_mem hia
    obtain ⟨p, f, hpart, ha⟩ := (h.within_iff hx).mp hia
    refine (h.within_iff hx).mpr ⟨p, f, hpart, .inr ?_⟩
    rcases ha with rfl | hpa
    · exact hab
    · exact ih p.index (h.partOf hx hpart).2.1 hpa

theorem Nested.closed (hlast : r.vars.size ≤ v + 1) : Closed r.coveredBy v := by
  intro i a hi hia
  have := h.ordered hia
  exact ⟨by omega, fun b hab => h.trans hia hab⟩

end

/-! ### Families are nested -/

theorem nested_empty : Nested {} where
  index_eq h := by simp at h
  few := by decide
  width hx := by simp [Declares] at hx
  orphan _ := rfl
  part hx := by simp [Declares] at hx
  apart hx := by simp [Declares] at hx
  ordered h := by cases h
  within_iff hx := by simp [Declares] at hx
  covers_iff := by simp

theorem declares_push (hx : x.index = r.vars.size) :
    Declares { r with vars := r.vars.push x } y ↔ r.Declares y ∨ y = x := by
  unfold Declares
  rw [Array.getElem?_push]
  constructor
  · intro h
    split at h
    · exact .inr (Option.some.inj h).symm
    · exact .inl h
  · rintro (h | rfl)
    · have hlt := Declares.lt h
      rw [if_neg (by omega)]
      exact h
    · rw [if_pos hx]

theorem Nested.parent?_new (h : r.Nested) (hx : x.index = r.vars.size) : r.parent? x = none := h.orphan hx.ge

theorem Nested.push (h : r.Nested) (hx : x.index = r.vars.size) (hwidth : 0 < x.width ∧ x.width ≤ 32)
    (hfew : r.vars.size + 1 < limit) : Nested { r with vars := r.vars.push x } where
  index_eq {i y} hy := by
    rw [Array.getElem?_push] at hy
    split at hy
    · cases hy
      omega
    · exact h.index_eq hy
  few := by
    rw [Array.size_push]
    exact hfew
  width hy := by
    rcases (declares_push hx).mp hy with hy | rfl
    · exact h.width hy
    · exact hwidth
  orphan hi := by
    rw [Array.size_push] at hi
    exact h.orphan (by omega)
  part {y e} hy he := by
    rcases (declares_push hx).mp hy with hy | rfl
    · obtain ⟨p, first, hrange, hp, hrest⟩ := h.part hy he
      exact ⟨p, first, hrange, (declares_push hx).mpr (.inl hp), hrest⟩
    · cases (h.parent?_new hx).symm.trans he
  apart {y z p f g} hy hz hf hg := by
    have hold {y : Var} {f : Nat} (hy : Declares { r with vars := r.vars.push x } y)
        (hf : PartOf { r with vars := r.vars.push x } y p f) : r.Declares y := by
      rcases (declares_push hx).mp hy with hy | rfl
      · exact hy
      · cases (h.parent?_new hx).symm.trans hf.1
    exact h.apart (hold hy hf) (hold hz hg) hf hg
  ordered hia := by
    rw [Array.size_push]
    have := h.ordered hia
    omega
  within_iff {y a} hy := by
    rcases (declares_push hx).mp hy with hy | rfl
    · exact h.within_iff hy
    · constructor
      · intro hya
        have := h.ordered hya
        omega
      · rintro ⟨p, f, ⟨hpart, -⟩, -⟩
        cases (h.parent?_new hx).symm.trans hpart
  covers_iff := h.covers_iff

variable {parents : List (Nat × Expr)}

theorem lookup_setRange {e : Expr} :
    ((i, e) :: parents.filter (fun (k, _) => k != i)).lookup j = if j = i then some e else parents.lookup j := by
  have hfilter : parents.filter (fun (k, _) => k != i) = parents.filter (fun pair => !(i == pair.1)) :=
    filter_congr fun pair _ => congrArg Bool.not (BEq.comm (a := pair.1) (b := i))
  by_cases hj : j = i
  · rw [hj, lookup_cons_self, if_pos rfl]
  · rw [if_neg hj, lookup_cons, beq_false_of_ne hj, hfilter, PairMap.lookup_filter_ne, if_neg hj]

/-- The table `r'` is `r` with the last register as a part of another one. -/
structure Links (r r' : Registers) (x p : Var) (f : Nat) : Prop where
  vars_eq : r'.vars = r.vars
  lookup_eq (i : Nat) : r'.parents.lookup i = if i = x.index then some (range p f x.width) else r.parents.lookup i
  coveredBy_iff (i a : Nat) : (i, a) ∈ r'.coveredBy ↔ (i, a) ∈ r.coveredBy ∨ i = x.index ∧ Reaches r.coveredBy p.index a
  covers_iff (a i : Nat) : (a, i) ∈ r'.covers ↔ (a, i) ∈ r.covers ∨ i = x.index ∧ Reaches r.coveredBy p.index a

namespace Links

section

variable (hl : Links r r' x p f)

include hl

theorem declares_iff : r'.Declares y ↔ r.Declares y := by
  rw [Declares, hl.vars_eq, Declares]

theorem partOf_self (hle : f + x.width ≤ p.width) : r'.PartOf x p f :=
  ⟨by rw [parent?, hl.lookup_eq, if_pos rfl], hle⟩

theorem eq_of_partOf (hpos : 0 ≤ x.width) (hwidth : p.width ≤ 32) (hle : f + x.width ≤ p.width)
    (h : r'.PartOf x q g) : p = q ∧ f = g := by
  obtain ⟨hparent, hle'⟩ := h
  rw [parent?, hl.lookup_eq, if_pos rfl] at hparent
  have hrange := Option.some.inj hparent
  obtain rfl := Expr.var.inj (Expr.bits.inj hrange).1
  exact range_inj (by omega) (by omega) hrange

theorem partOf_iff (h : y.index ≠ x.index) : r'.PartOf y q g ↔ r.PartOf y q g := by
  rw [PartOf, parent?, hl.lookup_eq, if_neg h, PartOf, parent?]

theorem mem_iff (h : i ≠ x.index) : (i, a) ∈ r'.coveredBy ↔ (i, a) ∈ r.coveredBy := by
  rw [hl.coveredBy_iff]
  exact or_iff_left fun h' => h h'.1

theorem nested (h : r.Nested) (hx : r.Declares x) (hlast : r.vars.size = x.index + 1)
    (hnone : r.parent? x = none) (hp : r.Declares p) (hlt : p.index < x.index) (hbytes : p.width % 8 = 0)
    (hle : f + x.width ≤ p.width) (hproper : x.width < p.width)
    (hfree : ∀ y g, r.Declares y → r.PartOf y p g → f + x.width ≤ g ∨ g + y.width ≤ f) : r'.Nested where
  index_eq hi := h.index_eq (hl.vars_eq ▸ hi)
  few := hl.vars_eq ▸ h.few
  width hy := h.width (hl.declares_iff.mp hy)
  orphan {i} hi := by
    rw [hl.vars_eq] at hi
    rw [hl.lookup_eq, if_neg (by omega)]
    exact h.orphan hi
  part {y e} hy he := by
    rw [parent?, hl.lookup_eq] at he
    split at he
    · next hindex =>
      obtain rfl := Declares.eq (hl.declares_iff.mp hy) hx hindex
      exact ⟨p, f, (Option.some.inj he).symm, hl.declares_iff.mpr hp, hlt, hle, hbytes, hproper⟩
    · obtain ⟨q, g, hrange, hq, hrest⟩ := h.part (hl.declares_iff.mp hy) he
      exact ⟨q, g, hrange, hl.declares_iff.mpr hq, hrest⟩
  apart {y z q g k} hy hz hg hk := by
    rw [hl.declares_iff] at hy hz
    have hself := fun {q g} => hl.eq_of_partOf (q := q) (g := g) (h.width hx).1.le (h.width hp).2 hle
    by_cases hyx : y = x
    · by_cases hzx : z = x
      · exact .inl (hyx.trans hzx.symm)
      · subst hyx
        obtain ⟨rfl, rfl⟩ := hself hg
        exact .inr (hfree z k hz ((hl.partOf_iff fun hi => hzx (hz.eq hx hi)).mp hk))
    · have hg := (hl.partOf_iff fun hi => hyx (hy.eq hx hi)).mp hg
      by_cases hzx : z = x
      · subst hzx
        obtain ⟨rfl, rfl⟩ := hself hk
        exact .inr (hfree y g hy hg).symm
      · exact h.apart hy hz hg ((hl.partOf_iff fun hi => hzx (hz.eq hx hi)).mp hk)
  ordered {i a} hia := by
    rw [hl.vars_eq]
    rcases (hl.coveredBy_iff i a).mp hia with hia | ⟨rfl, rfl | hpa⟩
    · exact h.ordered hia
    · exact ⟨hlt, hx.lt⟩
    · exact ⟨(h.ordered hpa).1.trans hlt, hx.lt⟩
  within_iff {y a} hy := by
    rw [hl.declares_iff] at hy
    by_cases hyx : y = x
    · subst hyx
      rw [hl.coveredBy_iff]
      constructor
      · rintro (hya | ⟨-, hreaches⟩)
        · obtain ⟨q, g, ⟨hq, -⟩, -⟩ := (h.within_iff hx).mp hya
          cases hnone.symm.trans hq
        · exact ⟨p, f, hl.partOf_self hle, hreaches.imp_right (hl.mem_iff hlt.ne).mpr⟩
      · rintro ⟨q, g, hpart, ha⟩
        obtain ⟨rfl, rfl⟩ := hl.eq_of_partOf (h.width hx).1.le (h.width hp).2 hle hpart
        exact .inr ⟨rfl, ha.imp_right (hl.mem_iff hlt.ne).mp⟩
    · have hne : y.index ≠ x.index := fun hi => hyx (hy.eq hx hi)
      rw [hl.mem_iff hne, h.within_iff hy]
      refine exists_congr fun q => exists_congr fun g => ?_
      rw [hl.partOf_iff hne]
      refine and_congr_right fun hpart => or_congr Iff.rfl (hl.mem_iff ?_).symm
      -- nothing is part of the last register
      have hqy := (h.partOf hy hpart).2.1
      have := hy.lt
      omega
  covers_iff {i a} := by rw [hl.covers_iff, hl.coveredBy_iff, h.covers_iff]

end

end Links

theorem Links.of_add {fuel : Nat} {s : Registers} (h : r.Nested)
    (hlast : r.vars.size = x.index + 1) (hp : p.index ≠ x.index)
    (hlookup : ∀ i, parents.lookup i = if i = x.index then some (range p f x.width) else r.parents.lookup i)
    (haround : addAround fuel x.index p.index { r with parents := parents } = .ok s)
    (hinside : addInside fuel p.index x.index s = .ok r') : Links r r' x p f := by
  have hclosed := h.closed hlast.le
  obtain ⟨around, rfl, hmem⟩ := addAround_spec (r := { r with parents := parents }) hclosed hp haround
  have hsame (i a : Nat) (hi : i ≠ x.index) : (i, a) ∈ around ↔ (i, a) ∈ r.coveredBy := by
    rw [hmem]
    exact or_iff_left fun h => hi h.1
  obtain ⟨inside, rfl, hmem'⟩ := addInside_spec (r := { r with parents := parents, coveredBy := around })
    (hclosed.congr hsame) hp hinside
  refine ⟨rfl, hlookup, hmem, fun a i => ?_⟩
  rw [hmem']
  exact or_congr Iff.rfl (and_congr Iff.rfl (or_congr Iff.rfl (hsame p.index a hp)))

theorem share_spec {parent : String} {first last : Int} (h : r.Nested) (hnew : r.named? name = .ok none)
    (hparent : r.named? parent = .ok (some p)) (hp : r.Declares p) (hfirst : 0 ≤ first) (hle : first ≤ last)
    (hlast : last < 32) (hmade : r.share name parent first last = .ok r') :
    ∃ x, x.index = r.vars.size ∧ x.width = last - first + 1 ∧ r.vars.size + 1 < limit ∧
      Links { r with vars := r.vars.push x } r' x p first.toNat := by
  unfold share at hmade
  rw [wrap32_of_lt (by omega) (by omega), number_position hfirst (by omega),
    number_position (by omega) (by omega)] at hmade
  obtain ⟨⟨x, r₁⟩, hmake, hmade⟩ := of_bind_eq_ok hmade
  obtain ⟨hindex, hwidth, rfl, hfew⟩ := obtain_new hnew hmake
  obtain ⟨⟨q, r₂⟩, hfound, hmade⟩ := of_bind_eq_ok hmade
  obtain ⟨rfl, rfl⟩ := obtain_old hparent hfound
  obtain ⟨s, haround, hinside⟩ := of_bind_eq_ok hmade
  refine ⟨x, hindex, hwidth, hfew, ?_⟩
  have hrange : range q first.toNat x.width =
      .bits (.var q) (.num (.ofInt first) 8) (.num (.ofInt last) 8) := by
    rw [range, Int.toNat_of_nonneg hfirst, show first + x.width - 1 = last by omega]
  rw [← hrange] at haround
  have := hp.lt
  refine Links.of_add (h.push hindex (by omega) hfew) ?_ (by omega) (fun i => lookup_setRange) haround hinside
  rw [Array.size_push, hindex]

theorem Family.nested (h : Family r) : r.Nested := by
  induction h with
  | empty => exact nested_empty
  | whole _ hnew hpos hle hmade ih =>
    obtain ⟨hindex, rfl, rfl, hfew⟩ := obtain_new hnew hmade
    exact ih.push hindex ⟨hpos, hle⟩ hfew
  | @part r r' p name parent first last _ hnew hparent hbytes hfirst hle hlast hproper hfree hmade ih =>
    have hp : r.Declares p := by
      obtain ⟨n, -, hfind⟩ := of_bind_eq_ok hparent
      exact ih.declares_of_find? (Except.ok.inj hfind)
    have hwidth := (ih.width hp).2
    obtain ⟨x, hindex, hwidth', hfew, hlinks⟩ := share_spec ih hnew hparent hp hfirst hle (by omega) hmade
    have hpush := ih.push hindex (by omega) hfew
    have hlt := hp.lt
    refine hlinks.nested hpush ((declares_push hindex).mpr (.inr rfl)) ?_ (ih.parent?_new hindex)
      ((declares_push hindex).mpr (.inl hp)) (by omega) hbytes (by omega) (by omega) ?_
    · rw [Array.size_push, hindex]
    · intro y g hy hpart
      rcases (declares_push hindex).mp hy with hy | rfl
      · have := hfree y g hy hpart
        omega
      · cases (ih.parent?_new hindex).symm.trans hpart.1

/-! ### The bits of registers -/

/-- The register that the bits of `x` are bits of in the end, by its number, and the lowest of these
bits. -/
def place (r : Registers) (x : Var) : Nat × Nat :=
  match r.parent? x with
  | some (.bits (.var p) (.num f _) _) =>
    if p.index < x.index then ((r.place p).1, (r.place p).2 + f.toInt.toNat) else (x.index, 0)
  | _ => (x.index, 0)
termination_by x.index

/-- Bit `j` of the register number `i` is one of the bits of `x`. -/
def Bit (r : Registers) (x : Var) (i j : Nat) : Prop :=
  i = (r.place x).1 ∧ (r.place x).2 ≤ j ∧ j < (r.place x).2 + x.width.toNat

instance (r : Registers) (x : Var) (i j : Nat) : Decidable (r.Bit x i j) := inferInstanceAs (Decidable (_ ∧ _ ∧ _))

theorem place_whole (h : r.parent? x = none) : r.place x = (x.index, 0) := by
  rw [place, h]

section

variable (h : r.Nested) (hx : r.Declares x)

include h hx

theorem Nested.place_part (hf : r.PartOf x p f) : r.place x = ((r.place p).1, (r.place p).2 + f) := by
  obtain ⟨hp, hlt, -⟩ := h.partOf hx hf
  have hpos := (h.width hx).1
  have hwidth := (h.width hp).2
  have hle := hf.2
  have hposition : (Int64.ofInt f).toInt.toNat = f := by
    rw [toInt_position (by omega) (by omega), Int.toNat_natCast]
  rw [place, hf.1]
  simp only [range, if_pos hlt, hposition]

theorem Nested.bit_of_part (hf : r.PartOf x p f) (hbit : r.Bit x i j) : r.Bit p i j := by
  have hle := hf.2
  have hpos := (h.width hx).1
  unfold Bit at hbit
  rw [h.place_part hx hf] at hbit
  unfold Bit
  omega

theorem Nested.within_of_le (hy : r.Declares y) (hle : x.index ≤ y.index) (hbit : r.Bit x i j) (hbit' : r.Bit y i j) :
    x = y ∨ r.Within y x := by
  induction hn : x.index + y.index using Nat.strongRecOn generalizing x y with
  | ind n ih =>
    subst hn
    cases hparent : r.parent? y with
    | none =>
      cases hparent' : r.parent? x with
      | none =>
        unfold Bit at hbit hbit'
        rw [place_whole hparent'] at hbit
        rw [place_whole hparent] at hbit'
        exact .inl (hx.eq hy (hbit.1.symm.trans hbit'.1))
      | some e =>
        obtain ⟨p, f, hpart, -⟩ := h.exists_partOf hx hparent'
        obtain ⟨hp, hlt, -⟩ := h.partOf hx hpart
        rcases ih _ (by omega) hp hy (by omega) (h.bit_of_part hx hpart hbit) hbit' rfl with rfl | hyp
        · omega
        · obtain ⟨_, _, hpart, -⟩ := (h.within_iff hy).mp hyp
          cases hparent.symm.trans hpart.1
    | some e =>
      obtain ⟨p, f, hpart, -⟩ := h.exists_partOf hy hparent
      obtain ⟨hp, hlt, -⟩ := h.partOf hy hpart
      have hbitp := h.bit_of_part hy hpart hbit'
      rcases le_or_gt x.index p.index with hxp | hpx
      · rcases ih _ (by omega) hx hp hxp hbit hbitp rfl with rfl | hpx
        · exact .inr ((h.within_iff hy).mpr ⟨x, f, hpart, .inl rfl⟩)
        · exact .inr ((h.within_iff hy).mpr ⟨p, f, hpart, .inr hpx⟩)
      · -- the register around `y` lies around `x` as well; compare `y` with the register that `x` is part of
        have hxp : r.Within x p := (ih _ (by omega) hp hx hpx.le hbitp hbit rfl).resolve_left (by rintro rfl; omega)
        obtain ⟨q, g, hq, hreach⟩ := (h.within_iff hx).mp hxp
        obtain ⟨hdq, hqlt, -⟩ := h.partOf hx hq
        rcases hreach with heq | hqp
        · obtain rfl := hdq.eq hp heq.symm
          refine (h.apart hx hy hq hpart).imp_right fun hapart => ?_
          unfold Bit at hbit hbit'
          rw [h.place_part hx hq] at hbit
          rw [h.place_part hy hpart] at hbit'
          omega
        · have := h.ordered hqp
          rcases ih _ (by omega) hdq hy (by omega) (h.bit_of_part hx hq hbit) hbit' rfl with rfl | hyq
          · omega
          · obtain ⟨p', f', hpart', hreach'⟩ := (h.within_iff hy).mp hyq
            obtain rfl : p' = p :=
              Expr.var.inj (Expr.bits.inj (Option.some.inj (hpart'.1.symm.trans hpart.1))).1
            rcases hreach' with heq | hmem
            · omega
            · have := h.ordered hmem
              omega

/-- **Registers with a common bit** are the same, or one is listed around the other. -/
theorem Nested.within_of_bit (hy : r.Declares y) (hbit : r.Bit x i j) (hbit' : r.Bit y i j) :
    x = y ∨ r.Within x y ∨ r.Within y x := by
  rcases le_total x.index y.index with hle | hle
  · exact (h.within_of_le hx hy hle hbit hbit').imp_right .inr
  · exact (h.within_of_le hy hx hle hbit' hbit).imp Eq.symm .inl

end

/-! ### Register files -/

/-- The bits of all registers that are no parts, by the number of the register. -/
abbrev File := Nat → Nat → Bool

def read (r : Registers) (ρ : File) (x : Var) : BitVec x.width.toNat :=
  BitVec.ofFnLE fun k => ρ (r.place x).1 ((r.place x).2 + k)

def write (r : Registers) (ρ : File) (x : Var) (b : BitVec x.width.toNat) : File :=
  fun i j => if r.Bit x i j then b.getLsbD (j - (r.place x).2) else ρ i j

variable {ρ : File}

theorem getLsbD_read {k : Nat} (hk : k < x.width.toNat) :
    (r.read ρ x).getLsbD k = ρ (r.place x).1 ((r.place x).2 + k) := by
  rw [read, BitVec.getLsbD_ofFnLE, dif_pos hk]

@[simp] theorem read_write_self (b : BitVec x.width.toNat) : r.read (r.write ρ x b) x = b := by
  apply BitVec.eq_of_getLsbD_eq
  intro k hk
  rw [getLsbD_read hk, write, if_pos ⟨rfl, by omega, by omega⟩, Nat.add_sub_cancel_left]

theorem read_write_of_apart (b : BitVec x.width.toNat) (h : ∀ i j, r.Bit x i j → ¬r.Bit y i j) :
    r.read (r.write ρ x b) y = r.read ρ y := by
  apply BitVec.eq_of_getLsbD_eq
  intro k hk
  rw [getLsbD_read hk, getLsbD_read hk, write, if_neg fun hbit => h _ _ hbit ⟨rfl, by omega, by omega⟩]

@[simp] theorem write_read : r.write ρ x (r.read ρ x) = ρ := by
  funext i j
  unfold write
  split
  · next hbit =>
    obtain ⟨rfl, hle, hlt⟩ := hbit
    rw [getLsbD_read (by omega), Nat.add_sub_cancel' hle]
  · rfl

theorem Nested.read_part (h : r.Nested) (hx : r.Declares x) (hf : r.PartOf x p f) :
    r.read ρ x = (r.read ρ p).extractLsb' f x.width.toNat := by
  apply BitVec.eq_of_getLsbD_eq
  intro k hk
  have hle := hf.2
  rw [getLsbD_read hk, BitVec.getLsbD_extractLsb', getLsbD_read (by omega), h.place_part hx hf, Nat.add_assoc,
    decide_eq_true hk, Bool.true_and]

theorem Nested.write_part (h : r.Nested) (hx : r.Declares x) (hf : r.PartOf x p f) (b : BitVec x.width.toNat) :
    r.write ρ x b = r.write ρ p (Word.replaceAt (r.read ρ p) f b) := by
  funext i j
  have hle := hf.2
  have hplace := h.place_part hx hf
  unfold write
  by_cases hbit : r.Bit p i j
  · obtain ⟨rfl, hle', hlt⟩ := hbit
    rw [if_pos (show r.Bit p _ j from ⟨rfl, hle', hlt⟩), Word.getLsbD_replaceAt _ _ _ (by omega), getLsbD_read (by omega),
      Nat.add_sub_cancel' hle']
    by_cases hbit : r.Bit x (r.place p).1 j
    · have hx := hbit
      unfold Bit at hx
      rw [hplace] at hx
      rw [if_pos hbit, if_pos (by omega), hplace, Nat.sub_add_eq]
    · have hx := hbit
      unfold Bit at hx
      rw [hplace] at hx
      rw [if_neg hbit, if_neg (by omega)]
  · rw [if_neg hbit, if_neg fun hx' => hbit (h.bit_of_part hx hf hx')]

end Registers

end FlowRecovery
