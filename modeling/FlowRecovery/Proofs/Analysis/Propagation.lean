import FlowRecovery.Analysis.Constants
import FlowRecovery.Proofs.Expr.Operands
import FlowRecovery.Proofs.Registers.Aliasing
import FlowRecovery.Proofs.Registers.Assignments

/-!
# Constant propagation over registers

A state describes a register file if every constant that it gives for a register is what the
register holds (`Constants.Describes`). Then every expression over registers is evaluated without a
fault, and to its value if to a number at all (`evals`).

An assignment changes no constant but that of the register that is named. The constants of registers
that share bits with it become stale. So the state describes the registers after a sequence of
assignments if there are no such constants whenever a register is assigned (`describes_propagate`).
-/

namespace FlowRecovery

open FaultyM FlowRecovery.Expr

namespace Expr

mutual

/-- The widths of the numbers in an expression are those that constants can have. -/
def Measured : Expr → Prop
  | .num _ w => 1 ≤ w ∧ w ≤ 128
  | .op _ as => AllMeasured as
  | .bits x f l => Measured x ∧ Measured f ∧ Measured l
  | .cond c t f => Measured c ∧ Measured t ∧ Measured f
  | _ => True

def AllMeasured : List Expr → Prop
  | [] => True
  | a :: as => Measured a ∧ AllMeasured as

end

end Expr

/-- The constant is the value of the expression, or nothing is known. -/
inductive Constant.Tells (σ : Machine) (e : Expr) : Constant → Prop where
  | known : Tells σ e (.known ⟨e.value σ, e.widthOf⟩)
  | unknown (h : e.isNumber = false) (w : Int) : Tells σ e (.unknown w)

variable {c : Constant}

namespace Constants

variable {r : Registers} {ρ : Registers.File} {s : Constants} {p : Program} {o : Operator} {e f t : Expr} {es : List Expr}
  {w : Int} {σ : Machine} {v : Int64}

def Describes (s : Constants) (r : Registers) (ρ : Registers.File) : Prop :=
  ∀ x, r.Declares x → ∀ n, s.getVar x = .ok (.known n) → n = ⟨Word.ofBits (r.read ρ x), x.width⟩

theorem top_eq (hw : 1 ≤ w ∧ w ≤ 128) : Constant.top w = .ok (.unknown w) := if_pos hw

theorem ofNum_eq {n : Num} (hw : 1 ≤ n.width ∧ n.width ≤ 128) : Constant.ofNum n = .ok (.known n) := by
  rw [Constant.ofNum, if_neg (by omega), if_neg (by omega)]

/-- The expression is evaluated to what is known of it. -/
def Evals (s : Constants) (p : Program) (σ : Machine) (e : Expr) : Prop :=
  ∃ c, Ends (s.evalPart e) p (some c) p ∧ c.Tells σ e

theorem ends_num (hw : 1 ≤ w ∧ w ≤ 128) : Ends (s.evalPart (.num v w)) p (some (.known ⟨v, w⟩)) p := by
  rw [evalPart]
  exact .lift (ofNum_eq hw) .pure

theorem evals_num (hw : 1 ≤ w ∧ w ≤ 128) : s.Evals p σ (.num v w) := ⟨_, ends_num hw, .known⟩

theorem exists_evalOperands (h : ∀ e ∈ es, s.Evals p σ e ∧ ∃ w, e.width = .ok w ∧ 1 ≤ w ∧ w ≤ 128) :
    ∃ xs, Ends (s.evalOperands es) p xs p ∧ List.Forall₂ (Seen σ) es xs := by
  induction es with
  | nil => exact ⟨[], by rw [evalOperands]; exact .pure, .nil⟩
  | cons e es ih =>
    obtain ⟨⟨⟨c, hc, htells⟩, w, hw, hrange⟩, hes⟩ := List.forall_mem_cons.mp h
    obtain ⟨xs, hxs, hseen⟩ := ih hes
    have hrest (x : Expr) : Ends (do return x :: (← s.evalOperands es) : ProgramM (List Expr)) p (x :: xs) p :=
      .bind hxs .pure
    rw [evalOperands]
    cases htells with
    | known =>
      exact ⟨_, .bind hc (.lift rfl (.bind .pure (hrest _))), .cons .known hseen⟩
    | unknown hnum =>
      have hwidthOf : e.widthOf = w := by rw [widthOf, hw]
      refine ⟨_, .bind hc (.lift rfl ?_), .cons (.unknown hnum) hseen⟩
      rw [hwidthOf]
      exact .lift hw (.lift (if_pos hrange) (hrest _))

theorem evals_op {Γ : Vocabulary} (hΓ : ∀ u, Γ.width u → u ≤ 64) (hsum : ∀ u, Γ.sum u → 1 < u)
    (h : Standard Γ (.op o es) w) {xs : List Expr} (hends : Ends (s.evalOperands es) p xs p)
    (hxs : List.Forall₂ (Seen σ) es xs) : s.Evals p σ (.op o es) := by
  have htyped := h.hasWidth hΓ
  have hrange : 1 ≤ w ∧ w ≤ 128 := by
    have := hΓ w htyped.width_eq.2
    have := htyped.width_pos
    omega
  obtain ⟨q, hyields, hq⟩ := h.yields hΓ hsum hxs
  obtain ⟨e', hop, heval⟩ := of_bind_eq_ok hyields
  unfold Evals
  rw [evalPart]
  cases q with
  | num v u =>
    obtain ⟨rfl, rfl⟩ := hq v u rfl
    refine ⟨_, .bind hends (.lift hop (.lift heval ?_)), .known⟩
    rw [htyped.widthOf_eq]
    exact .lift (ofNum_eq hrange) .pure
  | _ =>
    refine ⟨_, .bind hends (.lift hop (.lift heval ?_)), .unknown rfl w⟩
    exact .lift htyped.width_eq.1 (.lift (top_eq hrange) .pure)

theorem evals_var (hs : s.Describes r ρ) {x : Var} (hx : r.Declares x) (hw : 0 < x.width ∧ x.width ≤ 64) :
    s.Evals p (machine (r.read ρ)) (.var x) := by
  have hvalue : value (machine (r.read ρ)) (.var x) = Word.ofBits (r.read ρ x) :=
    congrArg Word.ofBits (Word.low_ofBits (by omega) _)
  have hrange : 1 ≤ x.width ∧ x.width ≤ 128 := by omega
  unfold Evals
  rw [evalPart]
  cases htop : s.isTop with
  | true =>
    exact ⟨_, .lift (top_eq hrange) .pure, .unknown rfl x.width⟩
  | false =>
    obtain ⟨c, hc⟩ : ∃ c, s.getVar x = .ok c := by
      unfold getVar
      split
      · exact ⟨_, rfl⟩
      · exact ⟨_, top_eq hrange⟩
    refine ⟨c, .lift hc .pure, ?_⟩
    cases c with
    | unknown w => exact .unknown rfl w
    | known n =>
      rw [hs x hx n hc, ← hvalue]
      exact .known

theorem of_eq_settle (v : Int64) (w : Int) : Num.of v w = ⟨Word.settle w v, w⟩ := by
  unfold Num.of Word.settle
  simp only [beq_iff_eq]

theorem evals_bits {x : Expr} {f l : Int64} {wf wl u : Int} (hu : (Expr.bits x (.num f wf) (.num l wl)).width = .ok u)
    (hrange : 1 ≤ u ∧ u ≤ 128) (hf : 1 ≤ wf ∧ wf ≤ 128) (hl : 1 ≤ wl ∧ wl ≤ 128) (hx : s.Evals p σ x) :
    s.Evals p σ (.bits x (.num f wf) (.num l wl)) := by
  obtain ⟨c, hc, htells⟩ := hx
  unfold Evals
  rw [evalPart]
  cases htells with
  | known =>
    have hwidth : (Expr.bits x (.num f wf) (.num l wl)).widthOf = u := by rw [widthOf, hu]
    have hbits : Num.bits (Num.low32 ⟨f, wf⟩) (Num.low32 ⟨l, wl⟩) ⟨value σ x, x.widthOf⟩ =
        ⟨value σ (.bits x (.num f wf) (.num l wl)), u⟩ := by
      rw [Num.bits, of_eq_settle, value, extract, value?_number]
      exact congrArg (Num.mk _) (Except.ok.inj hu)
    have hnumber := (congrArg Constant.ofNum hbits).trans (ofNum_eq hrange)
    refine ⟨_, .bind (ends_num hf) ?_, .known⟩
    refine .bind (ends_num hl) (.bind hc ?_)
    rw [hwidth]
    -- all three are numbers
    exact .lift rfl (.lift rfl (.lift rfl (.lift hnumber .pure)))
  | unknown _ w =>
    refine ⟨_, .bind (ends_num hf) ?_, .unknown rfl u⟩
    refine .bind (ends_num hl) (.bind hc ?_)
    refine .lift rfl (.lift rfl (.lift rfl (ends_lift.mpr ⟨?_, rfl⟩)))
    rw [hu]
    change (Constant.top u >>= _) = _
    rw [top_eq hrange]
    rfl

theorem tells_of_eq (h : c.Tells σ f) (hvalue : value σ e = value σ f)
    (hwidth : e.widthOf = f.widthOf) (he : e.isNumber = false) : c.Tells σ e := by
  cases h with
  | known =>
    rw [← hvalue, ← hwidth]
    exact .known
  | unknown _ w => exact .unknown he w

theorem tells_join {a b : Constant} (ha : a.Tells σ t) (hb : b.Tells σ f)
    (hvalue : value σ e = value σ t ∨ value σ e = value σ f) (hwidth : e.widthOf = t.widthOf)
    (he : e.isNumber = false) : (a.join b).Tells σ e := by
  unfold Constant.join
  split
  · exact .unknown he _
  split
  · exact .unknown he _
  cases ha with
  | unknown => exact .unknown he _
  | known =>
    cases hb with
    | unknown => exact .unknown he _
    | known =>
      change Constant.Tells σ e (if _ then _ else _)
      split
      · next heq =>
        injection heq with hsame _
        exact tells_of_eq (f := t) .known (hvalue.elim id fun h => h.trans hsame.symm) hwidth he
      · exact .unknown he _

theorem evals_cond {c : Expr} (hc : s.Evals p σ c) (ht : s.Evals p σ t) (hf : s.Evals p σ f) (hone : c.widthOf = 1)
    (htruth : value σ c = 0 ∨ value σ c = -1) (htw : (Expr.cond c t f).widthOf = t.widthOf)
    (hfw : (Expr.cond c t f).widthOf = f.widthOf) : s.Evals p σ (.cond c t f) := by
  obtain ⟨a, ha, hatells⟩ := hc
  obtain ⟨b, hb, hbtells⟩ := ht
  obtain ⟨d, hd, hdtells⟩ := hf
  have hfalse (h : value σ c = 0) : value σ (.cond c t f) = value σ f := by rw [value, if_pos h]
  have htrue (h : value σ c = -1) : value σ (.cond c t f) = value σ t := by rw [value, if_neg (by rw [h]; decide)]
  unfold Evals
  rw [evalPart]
  cases hatells with
  | known =>
    rw [hone] at ha
    rcases htruth with h | h
    · rw [h] at ha
      refine ⟨d, .bind ha (.lift rfl ?_), tells_of_eq hdtells (hfalse h) hfw rfl⟩
      exact .bind .pure (.bind hd .pure)
    · rw [h] at ha
      refine ⟨b, .bind ha (.lift rfl ?_), tells_of_eq hbtells (htrue h) htw rfl⟩
      exact .bind hb .pure
  | unknown _ u =>
    have htells := tells_join hbtells hdtells (htruth.symm.imp htrue hfalse) htw rfl
    refine ⟨b.join d, .bind ha (.lift rfl ?_), htells⟩
    -- either branch may be taken
    refine .bind hb (.bind hd ?_)
    exact .lift rfl .pure

mutual

theorem evals (hs : s.Describes r ρ) (p : Program) :
    ∀ {e : Expr} {w : Int}, Standard r.words e w → e.Measured → s.Evals p (machine (r.read ρ)) e
  | .num _ _, _, _, hm => evals_num hm
  | .var x, _, .var hx hw, _ => evals_var hs hx hw
  | .op o es, w, h, hm => by
    obtain ⟨xs, hends, hxs⟩ := exists_evalOperands (evalsAll hs p h.operand hm)
    exact evals_op r.words_le (fun _ hu => hu) h hends hxs
  | .bits x (.num f wf) (.num l wl), u, h, hm => by
    have htyped := h.hasWidth r.words_le
    obtain ⟨hx, hf, hl⟩ := hm
    obtain ⟨hu, hpos, hle⟩ := htyped.width_eq
    obtain ⟨w, hx'⟩ : ∃ w, Standard r.words x w := by cases h with | bits _ _ _ _ _ _ _ hx => exact ⟨_, hx⟩
    exact evals_bits hu (by omega) hf hl (evals hs p hx' hx)
  | .cond c t f, w, h, hm => by
    obtain ⟨hmc, hmt, hmf⟩ := hm
    obtain ⟨hc, ht, hf⟩ : Standard r.words c 1 ∧ Standard r.words t w ∧ Standard r.words f w := by
      cases h with | cond _ hc ht hf => exact ⟨hc, ht, hf⟩
    have hwidth {e : Expr} {w : Int} (h : Standard r.words e w) := (h.hasWidth r.words_le).widthOf_eq
    exact evals_cond (evals hs p hc hmc) (evals hs p ht hmt) (evals hs p hf hmf) (hwidth hc)
      (Word.fits_one_iff.mp (fits_value _ (hc.hasWidth r.words_le))) ((hwidth h).trans (hwidth ht).symm)
      ((hwidth h).trans (hwidth hf).symm)

theorem evalsAll (hs : s.Describes r ρ) (p : Program) :
    ∀ {es : List Expr}, (∀ e ∈ es, e.isNumber ∨ ∃ w, Standard r.words e w) → Expr.AllMeasured es →
      ∀ e ∈ es, s.Evals p (machine (r.read ρ)) e ∧ ∃ w, e.width = .ok w ∧ 1 ≤ w ∧ w ≤ 128
  | [], _, _ => by simp
  | e :: es, h, hm => by
    obtain ⟨he, hes⟩ := List.forall_mem_cons.mp h
    refine List.forall_mem_cons.mpr ⟨?_, evalsAll hs p hes hm.2⟩
    rcases he with hnum | ⟨w, hw⟩
    · obtain ⟨v, u, rfl⟩ := exists_num_of_isNumber hnum
      exact ⟨evals_num hm.1, u, rfl, hm.1⟩
    · obtain ⟨hwidth, hpos, hle⟩ := (hw.hasWidth r.words_le).width_eq
      exact ⟨evals hs p hw hm.1, w, hwidth, by omega, by omega⟩

end

/-! ### Statements -/

/-- No register of which a constant is known shares bits with `v`, except `v` itself. -/
def Clear (s : Constants) (r : Registers) (v : Var) : Prop :=
  ∀ x, r.Declares x → x ≠ v → ∀ n, s.getVar x = .ok (.known n) → r.Disjoint v x

theorem getVar_setVar_of_ne {v x : Var} (c : Constant) (h : x.index ≠ v.index) : (s.setVar v c).getVar x = s.getVar x := by
  have hne : compare v.index x.index ≠ .eq := fun heq => h (Nat.compare_eq_eq.mp heq).symm
  unfold getVar setVar
  split_ifs
  · rw [Std.TreeMap.getElem?_erase, if_neg hne]
  · rw [Std.TreeMap.getElem?_insert, if_neg hne]

theorem eq_of_getVar_setVar {v : Var} {n : Num} (h : (s.setVar v c).getVar v = .ok (.known n)) : c = .known n := by
  unfold getVar setVar at h
  split_ifs at h with htop
  · rw [Std.TreeMap.getElem?_erase_self] at h
    change Constant.top v.width = _ at h
    by_cases hw : 1 ≤ v.width ∧ v.width ≤ 128
    · rw [top_eq hw] at h
      cases h
    · rw [Constant.top, if_neg hw] at h
      cases h
  · rw [Std.TreeMap.getElem?_insert_self] at h
    exact Except.ok.inj h

/-- The statement assigns to a register of the same width an expression over registers, of the
operations in `Standard`: without SHR, DIV, MOD, rotations, casts and shifts by registers. -/
def Assigns (r : Registers) (stmt : Stmt) : Prop :=
  ∃ v e, stmt.effect = .assign v e ∧ r.Declares v ∧ Standard r.words e v.width ∧ e.Measured

theorem exists_post {stmt : Stmt} {v : Var} (hs : s.Describes r ρ) (heffect : stmt.effect = .assign v e)
    (hv : r.Declares v) (he : Standard r.words e v.width) (hm : e.Measured) (hclear : s.Clear r v) (p : Program) :
    ∃ t, Ends (s.post stmt) p (some t) p ∧ t.Describes r (r.assign ρ v e) := by
  obtain ⟨c, hc, htells⟩ := evals hs p he hm
  refine ⟨s.setVar v c, ?_, fun x hx n hn => ?_⟩
  · unfold post
    rw [heffect]
    exact .bind (.bind hc (ends_lift.mpr ⟨rfl, rfl⟩)) .pure
  · by_cases hxv : x = v
    · subst hxv
      obtain rfl := eq_of_getVar_setVar hn
      cases htells with
      | known =>
        rw [Registers.assign, Registers.read_write_self, value_eq_ofBits_denote r.words_le _ he,
          (he.hasWidth r.words_le).widthOf_eq]
    · have hindex : x.index ≠ v.index := fun h => hxv (r.words.declared_inj hx hv h)
      rw [getVar_setVar_of_ne c hindex] at hn
      rw [Registers.assign, Registers.read_write_of_apart _ (hclear x hx hxv n hn)]
      exact hs x hx n hn

def propagate (s : Constants) : List Stmt → ProgramM (Option Constants)
  | [] => return some s
  | stmt :: ss => do
    match ← s.post stmt with
    | none => return none
    | some t => propagate t ss

/-- Whenever a register is assigned, no constant is known of another register that shares bits with
it. -/
def Tidy (p : Program) (r : Registers) : List Stmt → Constants → Prop
  | [], _ => True
  | stmt :: ss, s => (∀ v e, stmt.effect = .assign v e → s.Clear r v) ∧
      ∀ t, Ends (s.post stmt) p (some t) p → Tidy p r ss t

/-- **Constant propagation.** Passing assignments to registers without stale constants never fails,
and the state in the end describes the registers in the end. -/
theorem describes_propagate {ss : List Stmt} (hs : s.Describes r ρ) (hss : ∀ stmt ∈ ss, Assigns r stmt)
    (htidy : Tidy p r ss s) :
    ∃ t, Ends (s.propagate ss) p (some t) p ∧ t.Describes r (ss.foldl (fun ρ stmt => r.step ρ stmt.effect) ρ) := by
  induction ss generalizing s ρ with
  | nil => exact ⟨s, .pure, hs⟩
  | cons stmt ss ih =>
    obtain ⟨⟨v, e, heffect, hv, he, hm⟩, hss⟩ := List.forall_mem_cons.mp hss
    obtain ⟨s', hpost, hs'⟩ := exists_post hs heffect hv he hm (htidy.1 v e heffect) p
    obtain ⟨t, ht, hdescribes⟩ := ih hs' hss (htidy.2 s' hpost)
    refine ⟨t, .bind hpost ht, ?_⟩
    rw [List.foldl_cons, heffect]
    exact hdescribes

section

open Registers

theorem place_accumulator : accumulator.place al = (0, 0) ∧ accumulator.place ah = (0, 8) ∧
    accumulator.place eax = (0, 0) := by
  have heax : accumulator.place eax = (0, 0) := place_whole rfl
  have hax : accumulator.place ax = (0, 0) := by
    rw [place]
    change (if 0 < 1 then ((accumulator.place eax).1, (accumulator.place eax).2 + 0) else _) = _
    rw [heax]
    rfl
  refine ⟨?_, ?_, heax⟩
  · rw [place]
    change (if 1 < 2 then ((accumulator.place ax).1, (accumulator.place ax).2 + 0) else _) = _
    rw [hax]
    rfl
  · rw [place]
    change (if 1 < 3 then ((accumulator.place ax).1, (accumulator.place ax).2 + 8) else _) = _
    rw [hax]
    rfl

theorem disjoint_al_ah : accumulator.Disjoint al ah := by
  obtain ⟨hal, hah, -⟩ := place_accumulator
  rintro i j ⟨-, -, hlt⟩ ⟨-, hle, -⟩
  rw [hal] at hlt
  rw [hah] at hle
  change j < 0 + 8 at hlt
  omega

theorem getVar_empty (x : Var) (n : Num) : ({} : Constants).getVar x ≠ .ok (.known n) := by
  intro h
  change Constant.top x.width = _ at h
  unfold Constant.top at h
  split_ifs at h
  all_goals cases h

/-- One byte of a register is set and then the other one from it. -/
theorem propagate_bytes :
    let ss : List Stmt := [⟨none, none, .assign ah (.num 5 8)⟩, ⟨none, none, .assign al (.op .plus [.var ah, .num 1 8])⟩]
    let ρ : File := fun _ _ => true
    ({} : Constants).Describes accumulator ρ ∧ Tidy default accumulator ss {} ∧
      ∃ t, Ends (({} : Constants).propagate ss) default (some t) default ∧
        t.Describes accumulator (ss.foldl (fun ρ stmt => accumulator.step ρ stmt.effect) ρ) := by
  intro ss ρ
  have hs : ({} : Constants).Describes accumulator ρ := fun x _ n hn => absurd hn (getVar_empty x n)
  have hfirst : Ends (({} : Constants).post ⟨none, none, .assign ah (.num 5 8)⟩) default
      (some (({} : Constants).setVar ah (.known ⟨5, 8⟩))) default := rfl
  have hnum (v : Int64) (hv : Word.Fits 8 v) : Standard accumulator.words (.num v 8) 8 := .num ⟨by decide, by decide⟩ hv
  have hss : ∀ stmt ∈ ss, Assigns accumulator stmt := by
    refine List.forall_mem_cons.mpr ⟨?_, List.forall_mem_singleton.mpr ?_⟩
    · exact ⟨ah, .num 5 8, rfl, rfl, hnum 5 (by decide), by decide, by decide⟩
    · refine ⟨al, .op .plus [.var ah, .num 1 8], rfl, rfl, ?_, trivial, ⟨by decide, by decide⟩, trivial⟩
      exact .regroup rfl (fun _ => (by decide : (1 : Int) < 8)) (by decide) (.inr rfl)
        (forall_mem_pair.mpr ⟨.var rfl ⟨by decide, by decide⟩, hnum 1 (by decide)⟩)
  have htidy : Tidy default accumulator ss {} := by
    refine ⟨fun v e _ x _ _ n hn => absurd hn (getVar_empty x n), fun t ht => ⟨fun v e heffect x hx _ n hn => ?_,
      fun _ _ => trivial⟩⟩
    obtain rfl := Option.some.inj (ht.unique hfirst).1
    obtain ⟨rfl, -⟩ := Effect.assign.inj heffect
    by_cases hxah : x = ah
    · exact hxah ▸ disjoint_al_ah
    · have hindex : x.index ≠ ah.index := fun h => hxah (accumulator.words.declared_inj hx rfl h)
      rw [getVar_setVar_of_ne _ hindex] at hn
      exact absurd hn (getVar_empty x n)
  exact ⟨hs, htidy, describes_propagate hs hss htidy⟩

/-- A register is set and then its low byte. The constant of the register stays what it was. -/
theorem propagate_stale_constant :
    let ss : List Stmt := [⟨none, none, .assign eax (.num 0x1234 32)⟩, ⟨none, none, .assign al (.num 5 8)⟩]
    ∃ t, Ends (({} : Constants).propagate ss) default (some t) default ∧
      t.getVar eax = .ok (.known ⟨0x1234, 32⟩) ∧ ∀ ρ : File,
        accumulator.read (ss.foldl (fun ρ stmt => accumulator.step ρ stmt.effect) ρ) eax = (0x1205 : BitVec 32) := by
  intro ss
  refine ⟨(({} : Constants).setVar eax (.known ⟨0x1234, 32⟩)).setVar al (.known ⟨5, 8⟩), rfl, rfl, fun ρ => ?_⟩
  obtain ⟨hal, -, heax⟩ := place_accumulator
  change accumulator.read (accumulator.write (accumulator.write ρ eax 0x1234) al 5) eax = _
  apply BitVec.eq_of_getLsbD_eq
  intro k hk
  rw [getLsbD_read hk]
  simp only [write, Bit, hal, heax]
  change k < 32 at hk
  interval_cases k <;> rfl

end

end Constants

end FlowRecovery
