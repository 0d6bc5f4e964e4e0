import FlowRecovery.Domain.Valuation
import FlowRecovery.Proofs.Expr.Fields
import FlowRecovery.Proofs.Memory.Reading
import FlowRecovery.Proofs.Registers.Nesting

/-!
# Valuations of registers that share bits

A valuation lists numbers for some of the registers. It describes the register files in which these
registers show these numbers (`Valuation.Describes`); it is regular if no register is listed
together with one around it (`Valuation.Regular`).

* A register that is not listed is read from the registers around it (`getTo_spec`). What a part
  shows is computed by evaluating its range, where the register around it is known
  (`Registers.Nested.evaluateAt_range`).
* A number is written to the register around, if that one is known: the bits of the part are
  replaced by masks and shifts (`Registers.Nested.exists_insertBits`). Otherwise all registers that
  share bits with the part are forgotten (`put_spec`). Both describe the registers after the bits of
  the part, and no others, have been overwritten (`setTo_spec`).
* A join writes to one register after the other what both operands know of it, so that nothing that
  one of them describes is changed (`join_spec`).

The histories of valuations are trees of such operations, and every history leaves register files
behind. The main result is that what a valuation tells is true of all of them
(`Valuation.get_after_run`).
-/

namespace FlowRecovery

open Word List Constant

/-! ### Evaluation with one known variable -/

def Num.shown (x : Var) (b : BitVec x.width.toNat) : Num := ⟨ofBits b, x.width⟩

variable {p x : Var} {e : Expr} {w : Int} {b : BitVec p.width.toNat} {c : Constant}

theorem Num.exists_shown {n : Num} (h : (Constant.known n).Fits x.width) : ∃ b, n = Num.shown x b := by
  obtain ⟨v, w⟩ := n
  obtain ⟨rfl, hfits⟩ := h
  exact ⟨low x.width.toNat v, congrArg (Num.mk · x.width) hfits.symm⟩

theorem Num.fits_shown (hle : x.width ≤ 64) (b : BitVec x.width.toNat) :
    (Constant.known (Num.shown x b)).Fits x.width :=
  ⟨rfl, congrArg ofBits (low_ofBits (by omega) b)⟩

namespace Context

/-- The context in which a register shows `b`, and nothing else is known. -/
def showing (p : Var) (b : BitVec p.width.toNat) : Context := ⟨[], [(.var p, (Num.shown p b).toExpr)]⟩

theorem valueOf_showing : (showing p b).valueOf p = .num (ofBits b) p.width := by
  have hself : (Expr.var p).equals (.var p) := by simp [Expr.equals]
  simp [valueOf, showing, substitution, assignment, lookup, hself, Expr.isPlace, Num.toExpr, Num.shown]

theorem becomes_showing (hpos : 0 < p.width) :
    Expr.Becomes (showing p b) 1 (.var p) (.num (ofBits b) p.width.toNat) := fun _ => by
  rw [Int.toNat_of_nonneg (by omega)]
  exact congrArg Except.ok valueOf_showing

end Context

namespace Registers

variable {r : Registers} {f : Nat}

theorem Nested.bounds (h : r.Nested) (hx : r.Declares x) (hf : r.PartOf x p f) :
    0 < x.width ∧ x.width < p.width ∧ p.width ≤ 32 ∧ f + x.width ≤ p.width ∧ p.width % 8 = 0 := by
  obtain ⟨hp, -, hbytes, hproper⟩ := h.partOf hx hf
  exact ⟨(h.width hx).1, hproper, (h.width hp).2, hf.2, hbytes⟩

variable (h : r.Nested) (hx : r.Declares x) (hf : r.PartOf x p f)

include h hx hf

theorem Nested.evaluateAt_range : Valuation.evaluateAt p (Num.shown p b) (range p f x.width) =
    .ok (Num.shown x (b.extractLsb' f x.width.toNat)) := by
  obtain ⟨hpos, hlt, hwidth, hle, -⟩ := h.bounds hx hf
  have hrange : range p f x.width =
      .bits (.var p) (.num (.ofNat f) 8) (.num (.ofNat (f + x.width.toNat - 1)) 8) := by
    rw [range, show f + x.width - 1 = (f + x.width.toNat - 1 : Nat) by omega]
    rfl
  change ((range p f x.width).evaluate (Context.showing p b) >>= Num.ofExpr) = _
  rw [hrange, Expr.evaluate_bits (m := x.width.toNat) (by omega) (by omega) (by omega) (by omega)
    (Context.becomes_showing (by omega)), if_neg (by omega), Int.toNat_of_nonneg (by omega)]
  rfl

theorem Nested.exists_insertBits (b : BitVec p.width.toNat) (b' : BitVec x.width.toNat) :
    ∃ e, Expr.insertBits (.var p) (.num (.ofInt f) 8) (.num (.ofInt (f + x.width - 1)) 8)
      (Num.shown x b').toExpr = .ok e ∧
      Valuation.evaluateAt p (Num.shown p b) e = .ok (Num.shown p (replaceAt b f b')) := by
  obtain ⟨hpos, hlt, hwidth, hle, hbytes⟩ := h.bounds hx hf
  have hp : (p.width.toNat : Int) = p.width := Int.toNat_of_nonneg (by omega)
  have hnumber : (Num.shown x b').toExpr = .num (ofBits b') x.width.toNat :=
    congrArg (Expr.num _) (Int.toNat_of_nonneg (show 0 ≤ x.width by omega)).symm
  obtain ⟨e, he, hevaluate⟩ := Expr.exists_insertBits (c := Context.showing p b) (f := f) (y := b') (by omega) (by omega)
    (by omega) (by omega) (show f + x.width.toNat - 1 + 1 = f + x.width.toNat by omega)
    (Context.becomes_showing (b := b) (by omega)) (congrArg Except.ok hp.symm) rfl
  refine ⟨e, ?_, ?_⟩
  · rw [show f + x.width - 1 = (f + x.width.toNat - 1 : Nat) by omega, hnumber]
    exact he
  · change (e.evaluate (Context.showing p b) >>= Num.ofExpr) = _
    rw [hevaluate, Expr.inserted_eq_replaceAt (by omega) (by omega) (by omega) (by omega), hp]
    rfl

end Registers

def Surroundings.constants (s : Surroundings) : Setting Constant := { s with factory := Constant.factory }

/-- The value is unknown, or it is the number that the register shows. -/
def Constant.StandsFor (a : Constant) (x : Var) (b : BitVec x.width.toNat) : Prop :=
  a = .unknown x.width ∨ a = .known (Num.shown x b)

theorem Constant.standsFor_known (hle : x.width ≤ 64) {b b' : BitVec x.width.toNat} :
    (Constant.known (Num.shown x b)).StandsFor x b' ↔ b = b' := by
  constructor
  · rintro (h | h)
    · cases h
    · exact (Expr.ofBits_inj (by omega)).mp (Num.mk.inj (known.inj h)).1
  · rintro rfl
    exact .inr rfl

theorem Constant.join_shown (hle : x.width ≤ 64) (b : BitVec x.width.toNat) (hc : c.Fits x.width) :
    ((Constant.known (Num.shown x b)).join c).Fits x.width ∧
      ∀ b', b = b' ∨ c.StandsFor x b' → ((Constant.known (Num.shown x b)).join c).StandsFor x b' := by
  have hwidth : (known (Num.shown x b)).width = x.width := rfl
  unfold join
  rw [hc.width_eq, hwidth, if_neg (lt_irrefl _), if_neg (lt_irrefl _)]
  cases c with
  | unknown u => exact ⟨rfl, fun b' _ => .inl rfl⟩
  | known m =>
    obtain ⟨b₁, rfl⟩ := Num.exists_shown hc
    by_cases heq : Num.shown x b = Num.shown x b₁
    · simp only [if_pos heq]
      refine ⟨Num.fits_shown hle b, fun b' h => ?_⟩
      rcases h with rfl | h
      · exact .inr rfl
      · rw [heq]
        exact h
    · simp only [if_neg heq]
      exact ⟨rfl, fun b' _ => .inl rfl⟩

namespace Registers

variable {r : Registers} {y : Var}

theorem Nested.mem_declared (h : r.Nested) (is : List Nat) :
    y ∈ is.filterMap (r.vars[·]?) ↔ r.Declares y ∧ y.index ∈ is := by
  rw [mem_filterMap]
  constructor
  · rintro ⟨i, hmem, hi⟩
    obtain rfl := h.index_eq hi
    exact ⟨hi, hmem⟩
  · rintro ⟨hy, hmem⟩
    exact ⟨y.index, hmem, hy⟩

theorem Nested.mem_covering (h : r.Nested) : y ∈ r.covering x ↔ r.Declares y ∧ r.Within x y := by
  rw [covering, h.mem_declared, mem_partners, Within]

theorem Nested.mem_covered (h : r.Nested) : y ∈ r.covered x ↔ r.Declares y ∧ r.Within y x := by
  rw [covered, h.mem_declared, mem_partners, h.covers_iff, Within]

end Registers

namespace Valuation

variable {s : Surroundings} {v w : Valuation Constant} {y : Var} {a : Constant} {ρ : Registers.File} {d i : Nat}
  {h : History}

/-- The values belong to registers and are numbers of their widths, and no register is listed
together with one around it. -/
structure Regular (s : Surroundings) (v : Valuation Constant) : Prop where
  entry {i : Nat} {x : Var} {a : Constant} (h : v.entries[i]? = some (x, a)) :
    x.index = i ∧ s.registers.Declares x ∧ ∃ b, a = .known (Num.shown x b)
  antichain {i j : Nat} {x y : Var} {a c : Constant} (hx : v.entries[i]? = some (x, a))
    (hy : v.entries[j]? = some (y, c)) : ¬s.registers.Within x y

def Describes (s : Surroundings) (v : Valuation Constant) (ρ : Registers.File) : Prop :=
  ∀ (i : Nat) (x : Var) (a : Constant), v.entries[i]? = some (x, a) → a = .known (Num.shown x (s.registers.read ρ x))

theorem Regular.find?_eq_some (hv : v.Regular s) (hx : s.registers.Declares x) (ha : v.find? x = some a) :
    v.entries[x.index]? = some (x, a) := by
  obtain ⟨⟨y, c⟩, hentry, rfl⟩ := Option.map_eq_some_iff.mp ha
  obtain ⟨hindex, hy, -⟩ := hv.entry hentry
  rw [hentry, hy.eq hx hindex]

/-! ### Reading -/

theorem top_eq (hs : s.registers.Nested) (hx : s.registers.Declares x) :
    s.constants.factory.top x.width = .ok (.unknown x.width) := by
  have := hs.width hx
  change top x.width = _
  rw [top, if_pos (by omega)]

theorem several_eq (hs : s.registers.Nested) (hx : s.registers.Declares x) (b : BitVec x.width.toNat) :
    s.constants.factory.several [Num.shown x b] = .ok (.known (Num.shown x b)) := by
  have := hs.width hx
  exact several_singleton (show 0 < x.width by omega) (show x.width ≤ 128 by omega)

theorem around?_of_none (h : s.registers.parent? x = none) : around? s x = none := by
  rw [around?, h]

theorem around?_of_partOf (hf : s.registers.PartOf x p f) : around? s x = some (p, Registers.range p f x.width) := by
  rw [around?, hf.1]
  rfl

section

variable (hs : s.registers.Nested) (hx : s.registers.Declares x) (hf : s.registers.PartOf x p f) (hnone : v.find? x = none)

include hs hx hf

theorem concretize_unknown_outer : AbstractValue.concretize (Constant.unknown p.width) = .ok .all := by
  obtain ⟨hpos, hlt, -⟩ := hs.bounds hx hf
  exact concretize_unknown_of_ne (by omega)

include hnone

theorem getTo_of_unknown (hp : getTo s.constants v d p = .ok (.unknown p.width)) :
    getTo s.constants v (d + 1) x = .ok (.unknown x.width) := by
  have haround : around? s.constants.toSurroundings x = _ := around?_of_partOf hf
  rw [getTo, hnone]
  simp only [haround, hp, ok_bind, concretize_unknown_outer hs hx hf]
  exact top_eq hs hx

theorem getTo_of_known (hp : getTo s.constants v d p = .ok (.known (Num.shown p b))) :
    getTo s.constants v (d + 1) x = .ok (.known (Num.shown x (b.extractLsb' f x.width.toNat))) := by
  have haround : around? s.constants.toSurroundings x = _ := around?_of_partOf hf
  rw [getTo, hnone]
  simp only [haround, hp]
  change ([Num.shown p b].mapM (fun n => evaluateAt p n (Registers.range p f x.width)) >>= _) = _
  rw [mapM_cons, mapM_nil, hs.evaluateAt_range hx hf]
  exact several_eq hs hx _

end

/-- **Reading.** A register reads as unknown or as the number that it shows, whatever registers the
valuation describes. -/
theorem getTo_spec (hs : s.registers.Nested) (hv : v.Regular s) (hx : s.registers.Declares x) :
    ∃ a, getTo s.constants v d x = .ok a ∧ a.Fits x.width ∧
      ∀ ρ, v.Describes s ρ → a.StandsFor x (s.registers.read ρ x) := by
  -- the depth is not known to be enough; where it is not, the register reads as unknown
  induction d generalizing x with
  | zero => exact ⟨_, top_eq hs hx, rfl, fun ρ _ => .inl rfl⟩
  | succ d ih =>
    cases hfind : v.find? x with
    | some a =>
      have hentry := hv.find?_eq_some hx hfind
      obtain ⟨-, -, b, rfl⟩ := hv.entry hentry
      have := hs.width hx
      exact ⟨_, by rw [getTo, hfind], Num.fits_shown (by omega) b, fun ρ hρ => .inr (hρ _ _ _ hentry)⟩
    | none =>
      cases hparent : s.registers.parent? x with
      | none =>
        refine ⟨.unknown x.width, ?_, rfl, fun ρ _ => .inl rfl⟩
        have haround : around? s.constants.toSurroundings x = none := around?_of_none hparent
        rw [getTo, hfind]
        simp only [haround]
        exact top_eq hs hx
      | some e =>
        obtain ⟨p, f, hf, -⟩ := hs.exists_partOf hx hparent
        obtain ⟨hp, -⟩ := hs.partOf hx hf
        obtain ⟨c, hc, hfits, hshows⟩ := ih hp
        cases c with
        | unknown u =>
          obtain rfl : u = p.width := hfits
          exact ⟨_, getTo_of_unknown hs hx hf hfind hc, rfl, fun ρ _ => .inl rfl⟩
        | known n =>
          obtain ⟨b, rfl⟩ := Num.exists_shown hfits
          have := hs.width hx
          have hp := hs.width hp
          refine ⟨_, getTo_of_known hs hx hf hfind hc, Num.fits_shown (by omega) _, fun ρ hρ => .inr ?_⟩
          rw [(standsFor_known (by omega)).mp (hshows ρ hρ), hs.read_part hx hf]

/-! ### Forgetting -/

theorem getElem?_foldl_erase {A : Type} {xs : List Var} {es : Std.TreeMap Nat (Var × A)} {entry : Var × A} :
    (xs.foldl (fun es y => es.erase y.index) es)[i]? = some entry ↔ es[i]? = some entry ∧ ∀ y ∈ xs, y.index ≠ i := by
  induction xs generalizing es with
  | nil => simp
  | cons y xs ih =>
    rw [foldl_cons, ih, Std.TreeMap.getElem?_erase, forall_mem_cons]
    by_cases hy : y.index = i <;> simp [hy]

section

variable (hs : s.registers.Nested) (hx : s.registers.Declares x) (hv : v.Regular s)

include hs hx hv

theorem getElem?_forget : (v.forget s x).entries[i]? = some (y, a) ↔
      v.entries[i]? = some (y, a) ∧ y ≠ x ∧ ¬s.registers.Within x y ∧ ¬s.registers.Within y x := by
  unfold forget
  rw [getElem?_foldl_erase]
  refine and_congr_right fun hentry => ?_
  obtain ⟨rfl, hy, -⟩ := hv.entry hentry
  constructor
  · intro h
    refine ⟨?_, fun hxy => ?_, fun hyx => ?_⟩
    · rintro rfl
      exact h y (by simp) rfl
    · exact h y (by simp [hs.mem_covering, hy, hxy]) rfl
    · exact h y (by simp [hs.mem_covered, hy, hyx]) rfl
  · rintro ⟨hne, hxy, hyx⟩ z hz hindex
    simp only [mem_append, hs.mem_covering, hs.mem_covered, mem_singleton] at hz
    rcases hz with (⟨hz, hxz⟩ | ⟨hz, hzx⟩) | rfl
    · exact hxy (hz.eq hy hindex ▸ hxz)
    · exact hyx (hz.eq hy hindex ▸ hzx)
    · exact hne (hy.eq hx hindex.symm)

theorem Regular.forget : (v.forget s x).Regular s where
  entry h := hv.entry ((getElem?_forget hs hx hv).mp h).1
  antichain h h' := hv.antichain ((getElem?_forget hs hx hv).mp h).1 ((getElem?_forget hs hx hv).mp h').1

theorem Describes.forget
    (hρ : v.Describes s ρ) (b : BitVec x.width.toNat) : (v.forget s x).Describes s (s.registers.write ρ x b) := by
  intro i y a hentry
  obtain ⟨hentry, hne, hxy, hyx⟩ := (getElem?_forget hs hx hv).mp hentry
  obtain ⟨-, hy, -⟩ := hv.entry hentry
  rw [Registers.read_write_of_apart, ← hρ i y a hentry]
  intro j k hbit hbit'
  rcases hs.within_of_bit hx hy hbit hbit' with rfl | h | h
  · exact hne rfl
  · exact hxy h
  · exact hyx h

end

/-! ### Writing -/

/-- `v'` is what `v` may become when the value `a` is written to `x`: it is regular, describes the
registers after the write, and knows `x` if `a` is known. -/
structure Updated (s : Surroundings) (v : Valuation Constant) (x : Var) (a : Constant) (v' : Valuation Constant) :
    Prop where
  regular : v'.Regular s
  describes {ρ : Registers.File} {b : BitVec x.width.toNat} (hρ : v.Describes s ρ) (hb : a.StandsFor x b) :
    v'.Describes s (s.registers.write ρ x b)
  listed {n : Num} (ha : a = .known n) : ∃ y c, v'.entries[y.index]? = some (y, c) ∧ (y = x ∨ s.registers.Within x y)

theorem put_known (s : Surroundings) (v : Valuation Constant) (x : Var) (n : Num) :
    v.put s x (.known n) = .ok ⟨(v.forget s x).entries.insert x.index (x, .known n)⟩ := rfl

theorem put_unknown (s : Surroundings) (v : Valuation Constant) (x : Var) (u : Int) :
    v.put s x (.unknown u) = .ok (v.forget s x) := rfl

theorem eq_or_of_insert {es : Std.TreeMap Nat (Var × Constant)}
    (h : (es.insert x.index (x, c))[i]? = some (y, a)) : (x.index = i ∧ y = x ∧ a = c) ∨ es[i]? = some (y, a) := by
  rw [Std.TreeMap.getElem?_insert] at h
  split at h
  · next hi =>
    cases Option.some.inj h
    exact .inl ⟨compare_eq_iff_eq.mp hi, rfl, rfl⟩
  · exact .inr h

section

variable (hs : s.registers.Nested) (hx : s.registers.Declares x) (hv : v.Regular s)

include hs hx hv

theorem put_spec (ha : a.Fits x.width) : ∃ v', v.put s x a = .ok v' ∧ v.Updated s x a v' := by
  cases a with
  | unknown u =>
    exact ⟨_, put_unknown s v x u, hv.forget hs hx, fun hρ _ => hρ.forget hs hx hv _, nofun⟩
  | known n =>
    obtain ⟨c, rfl⟩ := Num.exists_shown ha
    have hwidth := hs.width hx
    have hcleared := hv.forget hs hx
    refine ⟨_, put_known s v x _, ⟨fun {i y a} h => ?_, fun {i j y z a a'} h h' => ?_⟩, fun {ρ b} hρ hb i y a h => ?_,
      fun _ => ⟨x, .known (Num.shown x c), by simp, .inl rfl⟩⟩
    · rcases eq_or_of_insert h with ⟨hi, rfl, rfl⟩ | h
      · exact ⟨hi, hx, c, rfl⟩
      · exact hcleared.entry h
    · -- what is left is neither around `x` nor in it
      rcases eq_or_of_insert h with ⟨-, rfl, -⟩ | h
      · rcases eq_or_of_insert h' with ⟨-, rfl, -⟩ | h'
        · exact fun hself => (hs.ordered hself).1.ne rfl
        · exact ((getElem?_forget hs hx hv).mp h').2.2.1
      · rcases eq_or_of_insert h' with ⟨-, rfl, -⟩ | h'
        · exact ((getElem?_forget hs hx hv).mp h).2.2.2
        · exact hcleared.antichain h h'
    · obtain rfl := (standsFor_known (by omega)).mp hb
      rcases eq_or_of_insert h with ⟨-, rfl, rfl⟩ | h
      · rw [Registers.read_write_self]
      · exact hρ.forget hs hx hv c i y a h

theorem insertInto_spec (ha : a.Fits x.width) : v.insertInto s.constants x a = .ok none ∨
      ∃ p f b c, s.registers.PartOf x p f ∧ a = .known (Num.shown x b) ∧
        v.get s.constants p = .ok (.known (Num.shown p c)) ∧
        v.insertInto s.constants x a = .ok (some (p, .known (Num.shown p (replaceAt c f b)))) := by
  cases hparent : s.registers.parent? x with
  | none =>
    have haround : around? s.constants.toSurroundings x = none := around?_of_none hparent
    left
    rw [insertInto, haround]
    rfl
  | some e =>
    obtain ⟨p, f, hf, -⟩ := hs.exists_partOf hx hparent
    obtain ⟨hp, -⟩ := hs.partOf hx hf
    have haround : around? s.constants.toSurroundings x = _ := around?_of_partOf hf
    cases a with
    | unknown u =>
      left
      rw [insertInto, haround]
      rfl
    | known n =>
      obtain ⟨b, rfl⟩ := Num.exists_shown ha
      obtain ⟨o, ho, hfits, -⟩ := getTo_spec (d := nesting) hs hv hp
      have ho : v.get s.constants p = .ok o := ho
      have hunique : AbstractValue.isUnique (known (Num.shown x b)) = .ok true := rfl
      have hwritten : AbstractValue.concretize (known (Num.shown x b)) = .ok (.listed [Num.shown x b]) := rfl
      have hsome : ¬Numbers.listed [Num.shown x b] = .listed [] := by simp
      cases o with
      | unknown u =>
        obtain rfl : u = p.width := hfits
        left
        unfold insertInto
        simp only [haround, ho, hunique, hwritten, concretize_unknown_outer hs hx hf, ok_bind, Bool.not_true,
          Bool.false_eq_true, if_false, if_neg hsome]
        rfl
      | known m =>
        obtain ⟨c, rfl⟩ := Num.exists_shown hfits
        obtain ⟨e, hinsert, hevaluate⟩ := hs.exists_insertBits hx hf c b
        have hold : AbstractValue.concretize (known (Num.shown p c)) = .ok (.listed [Num.shown p c]) := rfl
        refine .inr ⟨p, f, b, c, hf, rfl, ho, ?_⟩
        unfold insertInto
        simp only [haround, ho, hunique, hwritten, hold, ok_bind, Bool.not_true, Bool.false_eq_true, if_false,
          if_neg hsome, mapM_cons, mapM_nil, Registers.range, hinsert, hevaluate, pure, Except.pure,
          several_eq hs hp]

theorem setTo_spec (ha : a.Fits x.width) : ∃ v', setTo s.constants v d x a = .ok v' ∧ v.Updated s x a v' := by
  induction d generalizing x a with
  | zero => exact put_spec hs hx hv ha
  | succ d ih =>
    rcases insertInto_spec hs hx hv ha with hnone | ⟨p, f, b, c, hf, rfl, hget, hinto⟩
    · rw [setTo, hnone]
      exact put_spec hs hx hv ha
    · obtain ⟨hp, -⟩ := hs.partOf hx hf
      have hwx := hs.width hx
      have hwp := hs.width hp
      obtain ⟨v', hset, hupdated⟩ := ih hp (Num.fits_shown (by omega) (replaceAt c f b))
      refine ⟨v', by rw [setTo, hinto]; exact hset, hupdated.regular, fun {ρ b'} hρ hb => ?_, fun _ => ?_⟩
      · obtain rfl := (standsFor_known (by omega)).mp hb
        -- the old number of the register around is the one that it shows
        obtain ⟨o, ho, -, hshows⟩ := getTo_spec (d := nesting) hs hv hp
        cases ho.symm.trans hget
        have hc := (standsFor_known (by omega)).mp (hshows ρ hρ)
        rw [hs.write_part hx hf b, ← hc]
        exact hupdated.describes hρ (.inr rfl)
      · obtain ⟨y, e, hentry, rfl | hwithin⟩ := hupdated.listed rfl
        · exact ⟨y, e, hentry, .inr ((hs.within_iff hx).mpr ⟨y, f, hf, .inl rfl⟩)⟩
        · exact ⟨y, e, hentry, .inr ((hs.within_iff hx).mpr ⟨p, f, hf, .inr hwithin⟩)⟩

theorem getTo_of_listed (hd : x.index < d)
    (hy : v.entries[y.index]? = some (y, a)) (hxy : y = x ∨ s.registers.Within x y) :
    ∃ b, getTo s.constants v d x = .ok (.known (Num.shown x b)) := by
  induction d generalizing x with
  | zero => omega
  | succ d ih =>
    cases hfind : v.find? x with
    | some c =>
      obtain ⟨-, -, b, rfl⟩ := hv.entry (hv.find?_eq_some hx hfind)
      exact ⟨b, by rw [getTo, hfind]⟩
    | none =>
      rcases hxy with rfl | hxy
      · rw [find?, hy] at hfind
        cases hfind
      · obtain ⟨p, f, hf, hreach⟩ := (hs.within_iff hx).mp hxy
        obtain ⟨hp, hlt, -⟩ := hs.partOf hx hf
        obtain ⟨-, hdy, -⟩ := hv.entry hy
        obtain ⟨b, hb⟩ := ih hp (by omega) (hreach.imp_left fun hindex => hdy.eq hp hindex)
        exact ⟨_, getTo_of_known hs hx hf hfind hb⟩

end

theorem Updated.get_eq {n : Num} {v' : Valuation Constant} (h : v.Updated s x (.known n) v') (hs : s.registers.Nested)
    (hx : s.registers.Declares x) (hn : (Constant.known n).Fits x.width) (hρ : v.Describes s ρ) :
    v'.get s.constants x = .ok (.known n) := by
  obtain ⟨b, rfl⟩ := Num.exists_shown hn
  obtain ⟨y, a, hentry, hxy⟩ := h.listed rfl
  have hd : x.index < nesting := hx.lt.trans hs.few
  obtain ⟨c, hc⟩ := getTo_of_listed hs hx h.regular hd hentry hxy
  obtain ⟨o, ho, -, hshows⟩ := getTo_spec (d := nesting) hs h.regular hx
  cases ho.symm.trans hc
  have hwidth := hs.width hx
  have hread := (standsFor_known (by omega)).mp (hshows _ (h.describes hρ (.inr rfl)))
  rw [Registers.read_write_self] at hread
  rw [get, hc, hread]

/-! ### Joining -/

theorem isTop_describes (h : v.isTop) : v.Describes s ρ := by
  intro i x a hentry
  have hempty := Std.TreeMap.isEmpty_iff_forall_not_mem.mp h i
  rw [Std.TreeMap.mem_iff_isSome_getElem?, hentry] at hempty
  exact absurd rfl hempty

theorem entries_of_mem_toList (h : (x, a) ∈ v.toList) : ∃ i : Nat, v.entries[i]? = some (x, a) := by
  rw [toList, mem_reverse, mem_map] at h
  obtain ⟨⟨i, entry⟩, hmem, rfl⟩ := h
  exact ⟨i, Std.TreeMap.mem_toList_iff_getElem?_eq_some.mp hmem⟩

theorem join_step {j : Valuation Constant} (hs : s.registers.Nested) (hv : v.Regular s) (hw : w.Regular s)
    (hj : j.Regular s) (hall : ∀ ρ, v.Describes s ρ ∨ w.Describes s ρ → j.Describes s ρ) (hmem : (x, a) ∈ v.toList) :
    ∃ j', (do j.set s.constants x (← AbstractValue.join a (← w.get s.constants x))) = .ok j' ∧ j'.Regular s ∧
      ∀ ρ, v.Describes s ρ ∨ w.Describes s ρ → j'.Describes s ρ := by
  obtain ⟨i, hentry⟩ := entries_of_mem_toList hmem
  obtain ⟨-, hx, b, rfl⟩ := hv.entry hentry
  have hwidth := hs.width hx
  obtain ⟨c, hc, hfits, hshows⟩ := getTo_spec (d := nesting) hs hw hx
  obtain ⟨hjoin, hstands⟩ := join_shown (by omega) b hfits
  obtain ⟨j', hset, hupdated⟩ := setTo_spec (d := nesting) hs hx hj hjoin
  refine ⟨j', ?_, hupdated.regular, fun ρ hρ => ?_⟩
  · rw [get, hc]
    exact hset
  · -- what is written is what the register shows already, so the file stays as it is
    have hself : ((known (Num.shown x b)).join c).StandsFor x (s.registers.read ρ x) := by
      apply hstands
      rcases hρ with hρ | hρ
      · exact .inl ((standsFor_known (by omega)).mp (.inr (hρ _ _ _ hentry)))
      · exact .inr (hshows ρ hρ)
    have := hupdated.describes (hall ρ hρ) hself
    rwa [Registers.write_read] at this

theorem regular_empty : Regular s {} where
  entry h := by simp at h
  antichain h := by simp at h

theorem join_spec (hs : s.registers.Nested) (hv : v.Regular s) (hw : w.Regular s) :
    ∃ j, v.join s.constants w = .ok j ∧ j.Regular s ∧ ∀ ρ, v.Describes s ρ ∨ w.Describes s ρ → j.Describes s ρ := by
  have hfold (xs : List (Var × Constant)) (hxs : ∀ entry ∈ xs, entry ∈ v.toList) (j : Valuation Constant)
      (hj : j.Regular s) (hall : ∀ ρ, v.Describes s ρ ∨ w.Describes s ρ → j.Describes s ρ) :
      ∃ j', xs.foldlM (fun j (x, a) => do j.set s.constants x (← AbstractValue.join a (← w.get s.constants x))) j =
        .ok j' ∧ j'.Regular s ∧ ∀ ρ, v.Describes s ρ ∨ w.Describes s ρ → j'.Describes s ρ := by
    induction xs generalizing j with
    | nil => exact ⟨j, rfl, hj, hall⟩
    | cons entry xs ih =>
      obtain ⟨hmem, hxs⟩ := forall_mem_cons.mp hxs
      obtain ⟨j₁, hstep, hj₁, hall₁⟩ := join_step hs hv hw hj hall hmem
      obtain ⟨j', hrest, hj'⟩ := ih hxs j₁ hj₁ hall₁
      refine ⟨j', ?_, hj'⟩
      rw [foldlM_cons, ← hrest]
      exact congrArg (· >>= _) hstep
  unfold join
  split
  · next htop => exact ⟨v, rfl, hv, fun ρ _ => isTop_describes htop⟩
  · split
    · next htop => exact ⟨w, rfl, hw, fun ρ _ => isTop_describes htop⟩
    · exact hfold v.toList (fun _ h => h) {} regular_empty fun ρ _ => isTop_describes rfl

/-! ### Histories -/

/-- How a valuation came about. -/
inductive History where
  | empty
  | set (x : Var) (a : Constant) (h : History)
  | setTop (x : Var) (h : History)
  | join (h g : History)

namespace History

def run (s : Surroundings) : History → Except Fault (Valuation Constant)
  | empty => .ok {}
  | set x a h => do (← h.run s).set s.constants x a
  | setTop x h => do return (← h.run s).forget s x
  | join h g => do (← h.run s).join s.constants (← g.run s)

/-- The operations are about registers of the table, and values of their widths. -/
def Proper (r : Registers) : History → Prop
  | empty => True
  | set x a h => r.Declares x ∧ a.Fits x.width ∧ h.Proper r
  | setTop x h => r.Declares x ∧ h.Proper r
  | join h g => h.Proper r ∧ g.Proper r

instance decidableProper (r : Registers) : (h : History) → Decidable (h.Proper r)
  | empty => inferInstanceAs (Decidable True)
  | set _ _ h =>
    have := decidableProper r h
    inferInstanceAs (Decidable (_ ∧ _ ∧ _))
  | setTop _ h =>
    have := decidableProper r h
    inferInstanceAs (Decidable (_ ∧ _))
  | join h g =>
    have := decidableProper r h
    have := decidableProper r g
    inferInstanceAs (Decidable (_ ∧ _))

/-- The registers that the operations can leave behind. A write overwrites the bits of the register
with the number, or with any number if the value is unknown. A join may come from either side. -/
def Leaves (r : Registers) : History → Registers.File → Prop
  | empty, _ => True
  | set x a h, ρ => ∃ ρ₀ b, h.Leaves r ρ₀ ∧ a.StandsFor x b ∧ ρ = r.write ρ₀ x b
  | setTop x h, ρ => ∃ ρ₀ b, h.Leaves r ρ₀ ∧ ρ = r.write ρ₀ x b
  | join h g, ρ => h.Leaves r ρ ∨ g.Leaves r ρ

theorem exists_leaves {r : Registers} (hproper : h.Proper r) : ∃ ρ, h.Leaves r ρ := by
  induction h with
  | empty => exact ⟨fun _ _ => false, trivial⟩
  | set x a h ih =>
    obtain ⟨-, ha, hproper⟩ := hproper
    obtain ⟨ρ, hρ⟩ := ih hproper
    cases a with
    | known n =>
      obtain ⟨b, rfl⟩ := Num.exists_shown ha
      exact ⟨_, ρ, b, hρ, .inr rfl, rfl⟩
    | unknown u =>
      obtain rfl : u = x.width := ha
      exact ⟨_, ρ, 0, hρ, .inl rfl, rfl⟩
  | setTop x h ih =>
    obtain ⟨ρ, hρ⟩ := ih hproper.2
    exact ⟨_, ρ, 0, hρ, rfl⟩
  | join h g ih _ =>
    obtain ⟨ρ, hρ⟩ := ih hproper.1
    exact ⟨ρ, .inl hρ⟩

theorem run_spec (hs : s.registers.Nested) (hproper : h.Proper s.registers) :
    ∃ v, h.run s = .ok v ∧ v.Regular s ∧ ∀ ρ, h.Leaves s.registers ρ → v.Describes s ρ := by
  induction h with
  | empty => exact ⟨{}, rfl, regular_empty, fun ρ _ => isTop_describes rfl⟩
  | set x a h ih =>
    obtain ⟨hx, ha, hproper⟩ := hproper
    obtain ⟨v, hrun, hv, hall⟩ := ih hproper
    obtain ⟨v', hset, hupdated⟩ := setTo_spec (d := nesting) hs hx hv ha
    refine ⟨v', ?_, hupdated.regular, ?_⟩
    · rw [run, hrun]
      exact hset
    · rintro _ ⟨ρ, b, hρ, hb, rfl⟩
      exact hupdated.describes (hall ρ hρ) hb
  | setTop x h ih =>
    obtain ⟨hx, hproper⟩ := hproper
    obtain ⟨v, hrun, hv, hall⟩ := ih hproper
    refine ⟨v.forget s x, ?_, hv.forget hs hx, ?_⟩
    · rw [run, hrun]
      rfl
    · rintro _ ⟨ρ, b, hρ, rfl⟩
      exact (hall ρ hρ).forget hs hx hv b
  | join h g ihh ihg =>
    obtain ⟨v, hrun, hv, hall⟩ := ihh hproper.1
    obtain ⟨w, hrun', hw, hall'⟩ := ihg hproper.2
    obtain ⟨j, hjoin, hj, hboth⟩ := join_spec hs hv hw
    refine ⟨j, ?_, hj, fun ρ hρ => hboth ρ (hρ.imp (hall ρ) (hall' ρ))⟩
    rw [run, hrun, hrun']
    exact hjoin

end History

/-- **Registers that share bits.** In a family of registers, every history of writes and joins ends
with a valuation of which each register reads as unknown or as the number that it shows in any
register file that the history leaves behind. A register to which a number was written last reads as
this number. No register is listed together with one around it. -/
theorem get_after_run (hfamily : s.registers.Family) {h : History} (hproper : h.Proper s.registers) :
    ∃ v, h.run s = .ok v ∧
      (∀ ρ, h.Leaves s.registers ρ → ∀ x, s.registers.Declares x →
        ∃ a, v.get s.constants x = .ok a ∧ a.StandsFor x (s.registers.read ρ x)) ∧
      (∀ x n g, h = .set x (.known n) g → v.get s.constants x = .ok (.known n)) ∧
      ∀ x y, v.find? x ≠ none → v.find? y ≠ none → y ∉ s.registers.covering x := by
  have hs := hfamily.nested
  obtain ⟨v, hrun, hv, hall⟩ := History.run_spec hs hproper
  refine ⟨v, hrun, fun ρ hρ x hx => ?_, ?_, fun x y hx hy hmem => ?_⟩
  · obtain ⟨a, ha, -, hshows⟩ := getTo_spec (d := nesting) hs hv hx
    exact ⟨a, ha, hshows ρ (hall ρ hρ)⟩
  · rintro x n g rfl
    obtain ⟨hx, hn, hproper⟩ := hproper
    obtain ⟨ρ, hρ⟩ := History.exists_leaves hproper
    obtain ⟨v₀, hrun₀, hv₀, hall₀⟩ := History.run_spec hs hproper
    obtain ⟨v', hset, hupdated⟩ := setTo_spec (d := nesting) hs hx hv₀ hn
    -- the history leaves some file behind, so the register cannot read as another number
    rw [History.run, hrun₀] at hrun
    obtain rfl := Except.ok.inj (hset.symm.trans hrun)
    exact hupdated.get_eq hs hx hn (hall₀ ρ hρ)
  · obtain ⟨⟨x', a⟩, hentry⟩ := Option.ne_none_iff_exists'.mp (Option.map_eq_none_iff.not.mp hx)
    obtain ⟨⟨y', c⟩, hentry'⟩ := Option.ne_none_iff_exists'.mp (Option.map_eq_none_iff.not.mp hy)
    have hwithin := (hs.mem_covering.mp hmem).2
    refine hv.antichain hentry hentry' ?_
    rw [Registers.Within, (hv.entry hentry).1, (hv.entry hentry').1]
    exact hwithin

end Valuation

namespace Registers

def eax : Var := ⟨0, "eax", 32⟩

def ax : Var := ⟨1, "ax", 16⟩

def al : Var := ⟨2, "al", 8⟩

def ah : Var := ⟨3, "ah", 8⟩

/-- A register of 32 bits, its lower half, and the two bytes of that. -/
def accumulator : Registers where
  vars := #[eax, ax, al, ah]
  parents := [(3, range ax 8 8), (2, range ax 0 8), (1, range eax 0 16)]
  coveredBy := [(1, 0), (2, 0), (2, 1), (3, 0), (3, 1)]
  covers := [(0, 1), (0, 2), (1, 2), (0, 3), (1, 3)]

theorem family_accumulator : Family accumulator := by
  let half : Registers := ⟨#[eax, ax], [(1, range eax 0 16)], [(1, 0)], [(0, 1)]⟩
  let low : Registers :=
    ⟨#[eax, ax, al], [(2, range ax 0 8), (1, range eax 0 16)], [(1, 0), (2, 0), (2, 1)], [(0, 1), (0, 2), (1, 2)]⟩
  have hnot {y : Var} {f : Nat} (h : [(1, range eax 0 16)].lookup y.index = some (range ax f y.width)) : False := by
    rw [lookup_cons] at h
    split at h
    · cases Expr.var.inj (Expr.bits.inj (Option.some.inj h)).1
    · cases h
  have hwhole : Family { vars := #[eax] } :=
    @Family.whole _ _ eax "%eax" 32 .empty rfl (by decide) (by decide) rfl
  have hhalf : Family half := @Family.part _ _ eax "%ax" "%eax" 0 15 hwhole rfl rfl (by decide) (by decide) (by decide)
    (by decide) (by decide) (fun y f _ hf => by cases hf.1) rfl
  have hlow : Family low := @Family.part _ _ ax "%al" "%ax" 0 7 hhalf rfl rfl (by decide) (by decide) (by decide)
    (by decide) (by decide) (fun y f _ hf => (hnot hf.1).elim) rfl
  refine @Family.part _ _ ax "%ah" "%ax" 8 15 hlow rfl rfl (by decide) (by decide) (by decide) (by decide) (by decide)
    (fun y f hy hf => ?_) rfl
  obtain ⟨hf, hle⟩ := hf
  rw [parent?, lookup_cons] at hf
  split at hf
  · next hindex =>
    obtain rfl : al = y := by
      rw [Declares, beq_iff_eq.mp hindex] at hy
      exact Option.some.inj hy
    obtain ⟨-, rfl⟩ := range_inj (by decide) (by change f + 8 ≤ (16 : Int) at hle; omega) (Option.some.inj hf)
    exact .inr (by decide)
  · exact (hnot hf).elim

end Registers

open Registers in
/-- A half is written in one branch and one of its bytes in the other; then the byte is written
again. -/
theorem Valuation.get_after_join_of_halves :
    let s : Surroundings := { registers := accumulator }
    let h : History := .set ah (.known ⟨5, 8⟩)
      (.join (.set ax (.known ⟨-392, 16⟩) (.setTop al (.set eax (.unknown 32) .empty)))
        (.set ah (.known ⟨-2, 8⟩) (.set eax (.known ⟨0x12345678, 32⟩) .empty)))
    s.registers.Family ∧ h.Proper s.registers ∧
      ∃ v, h.run s = .ok v ∧
        (∀ ρ, h.Leaves s.registers ρ → ∃ a, v.get s.constants al = .ok a ∧ a.StandsFor al (s.registers.read ρ al)) ∧
        v.get s.constants ah = .ok (.known ⟨5, 8⟩) ∧
        (v.find? al ≠ none → v.find? ax ≠ none → ax ∉ s.registers.covering al) := by
  intro s h
  have hproper : h.Proper s.registers := by decide
  obtain ⟨v, hrun, hread, hlast, hlisted⟩ := get_after_run (s := s) family_accumulator hproper
  exact ⟨family_accumulator, hproper, v, hrun, fun ρ hρ => hread ρ hρ al rfl, hlast _ _ _ rfl, hlisted al ax⟩

end FlowRecovery
