import FlowRecovery.Analysis.Address.State
import FlowRecovery.Proofs.Expr.Unspecified

/-!
# Pointer arithmetic

A tracked address stands for numbers once it is known where the regions lie (`Based.Covers`). Sums
and negatives of such addresses are evaluated operand by operand. While the operands of a sum are
passed, at most one region is kept: a pointer brings its region in, and a subtracted pointer into
the same region takes it out again.

What is subtracted then should be the offset of the pointer, but it is added (`cancelled`). Apart
from that evaluation is sound: a sum is off by twice the offsets of the pointers that were taken out
(`drift`, `eval_covers`).
-/

namespace FlowRecovery

open FaultyM FlowRecovery.Expr Word

/-- The number is one that the address stands for, where `β` says at which addresses the regions
lie. -/
inductive Based.Covers (β : Region → BitVec 32) (b : BitVec 32) : Based → Prop where
  | unknown (r : Region) : Covers β b ⟨r, .unknown 32⟩
  | known {r : Region} {v : Int64} (hr : r ≠ .top) (hv : Fits 32 v) (hb : b = β r + low 32 v) :
      Covers β b ⟨r, .known ⟨v, 32⟩⟩

/-- Sums and negatives of variables and numbers of 32 bits. -/
inductive Expr.Affine : Expr → Prop where
  | num {v : Int64} (hv : Fits 32 v) : Affine (.num v 32)
  | var {x : Var} (hx : x.width = 32) : Affine (.var x)
  | neg {a : Expr} (ha : Affine a) : Affine (.op .neg [a])
  | plus {as : List Expr} (hlen : 2 ≤ as.length) (has : ∀ a ∈ as, Affine a) : Affine (.op .plus as)

namespace Tracked

def track (t : Tracked) (p : Program) (e : Expr) : Based :=
  match (outcome (t.eval e) p).1 with
  | .ok a => a
  | .error _ => default

/-- Twice the offsets of the pointers that are taken out of a sum in which `region` has been kept so
far. -/
def cancelled (t : Tracked) (p : Program) : Region → List Expr → BitVec 32
  | _, [] => 0
  | region, e :: es =>
    if (t.track p e).region ≠ .global then t.cancelled p (t.track p e).region es
    else match (t.track p e).offset, e with
      | .unknown _, .op .neg [b] =>
        if (t.track p b).region = region then
          2 * low 32 (t.track p b).offset.representative.value + t.cancelled p .global es
        else t.cancelled p region es
      | _, _ => t.cancelled p region es

mutual

def drift (t : Tracked) (p : Program) : Expr → BitVec 32
  | .op .neg [a] => -t.drift p a
  | .op .plus as => t.drifts p as + t.cancelled p .global as
  | _ => 0

def drifts (t : Tracked) (p : Program) : List Expr → BitVec 32
  | [] => 0
  | a :: as => t.drift p a + t.drifts p as

end

variable {t : Tracked} {p : Program} {β : Region → BitVec 32} {ρ : Contents} {e : Expr} {es : List Expr} {a : Based}
  {b : BitVec 32}

/-- Evaluation gives the address `a`, which stands for the value of the expression up to the drift.
-/
structure Tracks (t : Tracked) (p : Program) (β : Region → BitVec 32) (ρ : Contents) (e : Expr) (a : Based) : Prop where
  ends : Ends (evaluation p.addressSetting t e).run p (some a) p
  covers : a.Covers β (e.denote ρ 32 + t.drift p e)
  width_eq : e.width = .ok 32

theorem Tracks.eval_ends (h : Tracks t p β ρ e a) : Ends (t.eval e) p a p := by
  unfold eval
  refine ends_get_bind.mpr (.bind h.ends (ends_lift.mpr ⟨?_, rfl⟩))
  have hwidth : a.width = 32 := by cases h.covers <;> rfl
  simp [checkWidth, need, h.width_eq, hwidth, ok_bind, pure, Except.pure]

theorem Tracks.track_eq (h : Tracks t p β ρ e a) : t.track p e = a := by
  unfold track
  rw [h.eval_ends]

def leafOf (a : Based) : Expr :=
  match a.offset with
  | .known n => n.toExpr
  | .unknown w => .nondet w

theorem leaf_leafOf (h : a.Covers β b) : Expr.Leaf 32 (leafOf a) := by
  cases h with
  | unknown => exact .nondet
  | known _ hv => exact .num hv

theorem exists_allows (h : a.Covers β b) : ∃ u, Expr.Allows (leafOf a) u ∧ β a.region + low 32 u = b := by
  cases h with
  | @unknown r =>
    refine ⟨ofBits (b - β r), allows_nondet _ _, ?_⟩
    rw [low_ofBits (by decide)]
    exact add_sub_cancel _ _
  | @known r v _ _ hb => exact ⟨v, allows_num v 32, hb.symm⟩

/-- The values of the operands of a sum, with their drift. -/
def drifted (t : Tracked) (p : Program) (ρ : Contents) (es : List Expr) : BitVec 32 :=
  (es.map fun e => e.denote ρ 32 + t.drift p e).sum

/-- The operands of a sum, in which `region` was kept before, as numbers in one region: they can be
numbers that add up to the value of the sum. -/
def Common (t : Tracked) (p : Program) (β : Region → BitVec 32) (ρ : Contents) (region : Region) (es : List Expr)
    (found : Option (Region × List Expr)) : Prop :=
  ∀ r xs, found = some (r, xs) → r ≠ .top ∧ xs.length = es.length ∧ (∀ x ∈ xs, Expr.Leaf 32 x) ∧
    ∃ us, List.Forall₂ Expr.Allows xs us ∧
      β r + low 32 (Operator.plus.total us) = β region + t.drifted p ρ es + t.cancelled p region es

variable {found : Option (Region × List Expr)} {b' : Based}

theorem Common.cons {region next : Region} {x : Expr} {u : Int64}
    (h : Common t p β ρ next es found) (hx : Expr.Leaf 32 x) (hu : Expr.Allows x u)
    (hsum : β next + low 32 u + t.cancelled p next es =
      β region + (e.denote ρ 32 + t.drift p e) + t.cancelled p region (e :: es)) :
    Common t p β ρ region (e :: es) (found.map fun q => (q.1, x :: q.2)) := by
  rintro r _ heq
  obtain ⟨⟨r, xs⟩, rfl, hq⟩ := Option.map_eq_some_iff.mp heq
  cases hq
  obtain ⟨hr, hlen, hleaves, us, hus, htotal⟩ := h r xs rfl
  refine ⟨hr, congrArg (· + 1) hlen, List.forall_mem_cons.mpr ⟨hx, hleaves⟩, u :: us, .cons hu hus, ?_⟩
  calc β r + low 32 (Operator.plus.total (u :: us))
      = low 32 u + (β r + low 32 (Operator.plus.total us)) := by
        rw [Operator.total_cons]
        change _ + low 32 (u + _) = _
        rw [low_add (by decide)]
        abel
    _ = (β next + low 32 u + t.cancelled p next es) + t.drifted p ρ es := by
        rw [htotal]
        abel
    _ = β region + t.drifted p ρ (e :: es) + t.cancelled p region (e :: es) := by
        rw [hsum, drifted, drifted, List.map_cons, List.sum_cons]
        abel

/-- The expression is tracked, and so is the operand of a negation. -/
structure Known (t : Tracked) (p : Program) (β : Region → BitVec 32) (ρ : Contents) (e : Expr) : Prop where
  affine : e.Affine
  self : ∃ a, Tracks t p β ρ e a
  operand : ∀ b, e = .op .neg [b] → ∃ a, Tracks t p β ρ b a

theorem offset_eq (h : a.Covers β b) (hr : a.region ≠ .top) (hwidth : e.width = .ok 32) :
    (do if ← a.isOffsetUnknown then (do Expr.unspecified (← e.width)) else return (← a.number).toExpr) =
      Except.ok (leafOf a) := by
  have hknown : a.isOffsetUnknown = .ok a.offset.isTop := by simp [Based.isOffsetUnknown, Based.isTop, hr]
  cases h <;> simp [hknown, hwidth, Constant.isTop, Based.number, Constant.number, unspecified, leafOf, bind,
    Except.bind, pure, Except.pure]

theorem ends_goOn {x : Faulty Expr} {y : Expr} {rest : ProgramM (Option (Region × List Expr))}
    (hx : x = .ok y) (hrest : Ends rest p found p) : Ends (do
      let y ← liftM x
      let found ← rest
      pure (found.map fun q => (q.1, y :: q.2)) : ProgramM _) p (found.map fun q => (q.1, y :: q.2)) p :=
  .lift hx (.bind hrest .pure)

theorem cancelled_cons (region : Region) (es : List Expr) : t.track p e = a → t.cancelled p region (e :: es) =
      if a.region ≠ .global then t.cancelled p a.region es
      else match a.offset, e with
        | .unknown _, .op .neg [b] =>
          if (t.track p b).region = region then
            2 * low 32 (t.track p b).offset.representative.value + t.cancelled p .global es
          else t.cancelled p region es
        | _, _ => t.cancelled p region es := by
  rintro rfl
  rfl

section

variable {region : Region} {rest : List (Expr × Evaluation)} {vs : List (Option Based)}

def Passes (t : Tracked) (p : Program) (β : Region → BitVec 32) (ρ : Contents) (es : List Expr)
    (rest : List (Expr × Evaluation)) (vs : List (Option Based)) (region : Region) : Prop :=
  region ≠ .top → ∃ found, Ends (commonRegion .plus region rest vs) p found p ∧ Common t p β ρ region es found

theorem common_none : Common t p β ρ region es none := fun _ _ heq => nomatch heq

variable {ev : Evaluation}

theorem passes_top (htop : a.isTop) : Passes t p β ρ (e :: es) ((e, ev) :: rest) (some a :: vs) region := by
  intro hregion
  simp only [commonRegion, hregion, if_false, need]
  refine ⟨none, .lift rfl ?_, common_none⟩
  rw [if_pos htop]
  exact .pure

/-- A pointer brings its region in, unless there is one. -/
theorem passes_pointer (hβ : β .global = 0) (ha : Tracks t p β ρ e a) (htop : a.region ≠ .top)
    (hpointer : a.region ≠ .global) (hrest : Passes t p β ρ es rest vs a.region) :
    Passes t p β ρ (e :: es) ((e, ev) :: rest) (some a :: vs) region := by
  intro hregion
  have hcancelled := cancelled_cons region es ha.track_eq
  rw [if_pos hpointer] at hcancelled
  have hisTop : ¬a.isTop := by simp [Based.isTop, htop]
  simp only [commonRegion, hregion, if_false, need]
  by_cases hfirst : region = .global
  · subst hfirst
    obtain ⟨found, hfound, hcommon⟩ := hrest htop
    obtain ⟨u, hu, hsum⟩ := exists_allows ha.covers
    refine ⟨_, .lift rfl ?_, hcommon.cons (leaf_leafOf ha.covers) hu ?_⟩
    · rw [if_neg hisTop, if_pos hpointer, if_pos trivial, if_pos rfl]
      exact ends_goOn (offset_eq ha.covers htop ha.width_eq) hfound
    · rw [hsum, hcancelled, hβ, zero_add]
  · refine ⟨none, .lift rfl ?_, common_none⟩
    rw [if_neg hisTop, if_pos hpointer, if_pos trivial, if_neg hfirst]
    exact .pure

theorem passes_number (hβ : β .global = 0) {n : Num} (ha : Tracks t p β ρ e ⟨.global, .known n⟩)
    (hrest : Passes t p β ρ es rest vs region) :
    Passes t p β ρ (e :: es) ((e, ev) :: rest) (some ⟨.global, .known n⟩ :: vs) region := by
  intro hregion
  have hcancelled := cancelled_cons region es ha.track_eq
  simp only [commonRegion, hregion, if_false, need]
  obtain ⟨found, hfound, hcommon⟩ := hrest hregion
  obtain ⟨u, hu, hsum⟩ := exists_allows ha.covers
  rw [hβ, zero_add] at hsum
  have hoffset := offset_eq ha.covers nofun ha.width_eq
  refine ⟨_, .lift rfl ?_, hcommon.cons (leaf_leafOf ha.covers) hu ?_⟩
  · exact .lift rfl (ends_goOn hoffset hfound)
  · rw [hsum, hcancelled]
    rfl

theorem Common.cons_unknown (h : Common t p β ρ region es found)
    (hcancelled : t.cancelled p region (e :: es) = t.cancelled p region es) :
    Common t p β ρ region (e :: es) (found.map fun q => (q.1, .nondet 32 :: q.2)) := by
  refine h.cons .nondet (allows_nondet 32 (ofBits (e.denote ρ 32 + t.drift p e))) ?_
  rw [hcancelled, low_ofBits (by decide)]

theorem nondet_eq (ha : Tracks t p β ρ e a) : (do Expr.unspecified (← e.width)) = Except.ok (.nondet 32) := by
  rw [ha.width_eq]
  rfl

theorem drifted_neg (t : Tracked) (p : Program) (ρ : Contents) (b : Expr) :
    (Expr.op .neg [b]).denote ρ 32 + t.drift p (.op .neg [b]) = -(b.denote ρ 32 + t.drift p b) := (neg_add _ _).symm

/-- The negative of a pointer into the region that is kept takes the region out; the offset is
added. -/
theorem passes_negative (hβ : β .global = 0) {b : Expr} {w : Int}
    (ha : Tracks t p β ρ (.op .neg [b]) ⟨.global, .unknown w⟩) (hb : Tracks t p β ρ b b')
    (hrest : ∀ region, Passes t p β ρ es rest vs region) :
    Passes t p β ρ (.op .neg [b] :: es) ((.op .neg [b], evaluation p.addressSetting t (.op .neg [b])) :: rest)
      (some ⟨.global, .unknown w⟩ :: vs) region := by
  intro hregion
  have hcancelled := cancelled_cons region es ha.track_eq
  rw [if_neg (by simp)] at hcancelled
  change _ = if (t.track p b).region = region then _ else _ at hcancelled
  rw [hb.track_eq] at hcancelled
  simp only [commonRegion, hregion, if_false, need]
  by_cases hsame : b'.region = region
  · rw [if_pos hsame] at hcancelled
    obtain ⟨found, hfound, hcommon⟩ := hrest .global (by decide)
    obtain ⟨v, hv, hadds⟩ : ∃ v, Expr.Allows (leafOf b') v ∧ low 32 v =
        β region - (b.denote ρ 32 + t.drift p b) + 2 * low 32 b'.offset.representative.value := by
      have hcovers := hb.covers
      cases hcovers with
      | unknown => exact ⟨ofBits _, allows_nondet 32 _, low_ofBits (by decide) _⟩
      | @known r v _ _ hsum =>
        refine ⟨v, allows_num v 32, ?_⟩
        obtain rfl : r = region := hsame
        change _ = _ + 2 * low 32 v
        rw [hsum, two_mul]
        abel
    refine ⟨_, .lift rfl (.lift rfl (.bind hb.ends (.lift rfl ?_))), hcommon.cons (leaf_leafOf hb.covers) hv ?_⟩
    · rw [if_pos hsame]
      exact ends_goOn (offset_eq hb.covers (hsame ▸ hregion) ha.width_eq) hfound
    · rw [hadds, hcancelled, drifted_neg, hβ]
      abel
  · rw [if_neg hsame] at hcancelled
    obtain ⟨found, hfound, hcommon⟩ := hrest region hregion
    refine ⟨_, .lift rfl (.lift rfl (.bind hb.ends (.lift rfl ?_))), hcommon.cons_unknown hcancelled⟩
    rw [if_neg hsame]
    exact ends_goOn (nondet_eq ha) hfound

theorem passes_cons (hβ : β .global = 0) (he : Known t p β ρ e) (ha : Tracks t p β ρ e a)
    (hrest : ∀ region, Passes t p β ρ es rest vs region) :
    Passes t p β ρ (e :: es) ((e, evaluation p.addressSetting t e) :: rest) (some a :: vs) region := by
  have hcovers := ha.covers
  by_cases hglobal : a.region = .global
  · cases hcovers with
    | @known r v =>
      obtain rfl : r = .global := hglobal
      exact passes_number hβ ha (hrest region)
    | @unknown r =>
      obtain rfl : r = .global := hglobal
      cases he.affine with
      | @neg b =>
        obtain ⟨b', hb⟩ := he.operand b rfl
        exact passes_negative hβ ha hb hrest
      | num | var | plus =>
        intro hregion
        obtain ⟨found, hfound, hcommon⟩ := hrest region hregion
        simp only [commonRegion, hregion, if_false, need]
        refine ⟨_, .lift rfl (.lift rfl (ends_goOn (nondet_eq ha) hfound)), hcommon.cons_unknown ?_⟩
        rw [cancelled_cons _ _ ha.track_eq]
        rfl
  · cases hcovers with
    | @known r v hr => exact passes_pointer hβ ha hr hglobal (hrest _)
    | @unknown r =>
      by_cases hr : r = .top
      · exact passes_top (by rw [hr]; rfl)
      · exact passes_pointer hβ ha hr hglobal (hrest _)

end

theorem passes_all {vs : List Based} (hβ : β .global = 0) (hes : ∀ e ∈ es, Known t p β ρ e)
    (hvs : List.Forall₂ (Tracks t p β ρ) es vs) (region : Region) :
    Passes t p β ρ es (evaluations p.addressSetting t es) (vs.map some) region := by
  induction hvs generalizing region with
  | nil =>
    refine fun hregion => ⟨some (region, []), .pure, ?_⟩
    rintro r xs heq
    cases heq
    exact ⟨hregion, rfl, by simp, [], .nil, by simp [drifted, cancelled, Operator.total, Operator.unit, low]⟩
  | cons ha _ ih =>
    obtain ⟨he, hrest⟩ := List.forall_mem_cons.mp hes
    exact passes_cons hβ he ha (ih hrest)

/-! ### Expressions -/

section

variable {o : Operator} {operands : List (Expr × Evaluation)} {vs : List (Option Based)}

variable (ho : o = .plus ∨ o = .neg) (hvs : Ends (operands.mapM fun q => q.2.run) p vs p) (hwidth : e.width = .ok 32)

include ho hvs hwidth

theorem operate_unknown (hfound : Ends (commonRegion o .global operands vs) p none p) :
    Ends (operate o e operands) p (some ⟨.top, .unknown 32⟩) p := by
  rcases ho with rfl | rfl
  all_goals
    refine .bind hvs (.bind hfound ?_)
    exact .lift hwidth (.lift rfl .pure)

theorem exists_operate {r : Region} {xs : List Expr} {q : Expr}
    (hfound : Ends (commonRegion o .global operands vs) p (some (r, xs)) p)
    (hres : (Expr.operation o xs >>= fun e => e.evaluate .empty) = .ok q)
    (hcovers : ∀ v, q.value? = some v → q.width = .ok 32 ∧ r ≠ .top ∧ Fits 32 v ∧ b = β r + low 32 v) :
    ∃ a, Ends (operate o e operands) p (some a) p ∧ a.Covers β b := by
  obtain ⟨e', he', heval⟩ := of_bind_eq_ok hres
  cases q with
  | num v w =>
    obtain ⟨hw, hr, hv, hb⟩ := hcovers v rfl
    obtain rfl : w = 32 := Except.ok.inj hw
    refine ⟨⟨r, .known ⟨v, 32⟩⟩, ?_, .known hr hv hb⟩
    rcases ho with rfl | rfl
    all_goals
      refine .bind hvs (.bind hfound ?_)
      refine .lift he' (.lift heval ?_)
      exact .lift rfl .pure
  | _ =>
    refine ⟨⟨r, .unknown 32⟩, ?_, .unknown r⟩
    rcases ho with rfl | rfl
    all_goals
      refine .bind hvs (.bind hfound ?_)
      refine .lift he' (.lift heval ?_)
      exact .lift hwidth (.lift rfl .pure)

end

theorem exists_tracks_neg {b : Expr} (hβ : β .global = 0) (hb : Tracks t p β ρ b b') :
    ∃ a, Tracks t p β ρ (.op .neg [b]) a := by
  have hmapM : Ends ((evaluations p.addressSetting t [b]).mapM fun q => q.2.run) p [some b'] p :=
    ends_mapM_cons.mpr ⟨_, p, _, hb.ends, ends_mapM_nil.mpr ⟨rfl, rfl⟩, rfl⟩
  have hrest : Ends (commonRegion .neg .global [] []) p (some (.global, [])) p := .pure
  -- of a pointer only that it is some number is left
  have hunknown (hfound : Ends (commonRegion .neg .global (evaluations p.addressSetting t [b]) [some b']) p
      (some (.global, [.nondet 32])) p) : ∃ a, Tracks t p β ρ (.op .neg [b]) a := by
    obtain ⟨a, ha, hcovers⟩ := exists_operate (q := .op .neg [.nondet 32]) (.inr rfl) hmapM hb.width_eq hfound rfl
      (nofun)
    exact ⟨a, ha, hcovers, hb.width_eq⟩
  by_cases htop : b'.isTop
  · refine ⟨_, operate_unknown (.inr rfl) hmapM hb.width_eq (.lift rfl ?_), .unknown _, hb.width_eq⟩
    rw [if_pos htop]
    exact .pure
  by_cases hglobal : b'.region = .global
  · have hcovers := hb.covers
    cases hcovers with
    | unknown r =>
      obtain rfl : r = .global := hglobal
      exact hunknown (.lift rfl (.lift rfl (ends_goOn (nondet_eq hb) hrest)))
    | @known r v hr hv hsum =>
      obtain rfl : r = .global := hglobal
      have hfound : Ends (commonRegion .neg .global (evaluations p.addressSetting t [b]) [some ⟨.global, .known ⟨v, 32⟩⟩])
          p (some (.global, [.num v 32])) p :=
        .lift rfl (.lift rfl (ends_goOn (offset_eq hb.covers hr hb.width_eq) hrest))
      obtain ⟨a, ha, hcovers⟩ := exists_operate (β := β) (b := (op .neg [b]).denote ρ 32 + t.drift p (.op .neg [b]))
        (q := number (-v) 32) (.inr rfl) hmapM hb.width_eq hfound rfl fun u hu => by
          rw [number_eq, settle_eq_wrap (by decide)] at hu ⊢
          obtain rfl : wrap 32 (-v) = u := Option.some.inj hu
          refine ⟨rfl, hr, fits_wrap 32 _, ?_⟩
          rw [drifted_neg, hsum, hβ, zero_add, zero_add]
          exact (low_neg (by decide) v).symm.trans (low_wrap (w := 32) (by decide) _).symm
      exact ⟨a, ha, hcovers, hb.width_eq⟩
  · refine hunknown (.lift rfl ?_)
    rw [if_neg htop, if_pos hglobal]
    exact ends_goOn (nondet_eq hb) hrest

theorem exists_tracks_plus (hβ : β .global = 0) (hlen : 2 ≤ es.length)
    (hes : ∀ e ∈ es, Known t p β ρ e) : ∃ a, Tracks t p β ρ (.op .plus es) a := by
  obtain ⟨vs, hvs⟩ := exists_forall₂ fun e he => (hes e he).self
  have hwidth : (op .plus es).width = .ok 32 := by
    refine operationWidth_of_forall rfl (by decide) (by rintro rfl; cases hlen) fun e he => ?_
    obtain ⟨a, ha⟩ := (hes e he).self
    exact ha.width_eq
  have hmapM : Ends ((evaluations p.addressSetting t es).mapM fun q => q.2.run) p (vs.map some) p := by
    clear hlen hwidth hes
    induction hvs with
    | nil => exact ends_mapM_nil.mpr ⟨rfl, rfl⟩
    | cons ha _ ih => exact ends_mapM_cons.mpr ⟨_, p, _, ha.ends, ih, rfl⟩
  have hvalue : (op .plus es).denote ρ 32 + t.drift p (.op .plus es) =
      t.drifted p ρ es + t.cancelled p .global es := by
    have hdrifted : (op .plus es).denote ρ 32 + t.drifts p es = t.drifted p ρ es := by
      clear hlen hwidth hmapM hvs hes
      induction es with
      | nil => rfl
      | cons e es ih =>
        rw [drifted, List.map_cons, List.sum_cons, ← drifted, ← ih]
        change (e.denote ρ 32 + (op .plus es).denote ρ 32) + (t.drift p e + t.drifts p es) = _
        abel
    rw [← hdrifted]
    exact (add_assoc _ _ _).symm
  obtain ⟨found, hfound, hcommon⟩ := passes_all hβ hes hvs .global (by decide)
  cases found with
  | none => exact ⟨_, operate_unknown (.inl rfl) hmapM hwidth hfound, .unknown _, hwidth⟩
  | some q =>
    obtain ⟨r, xs⟩ := q
    obtain ⟨hr, hlength, hleaves, us, hus, htotal⟩ := hcommon r xs rfl
    obtain ⟨res, hres, hsettled⟩ := exists_evaluate_leaves (o := .plus) rfl (by decide) (by decide) (by decide)
      (.inr (by decide)) (hlength ▸ hlen) hleaves
    have hres' (v : Int64) (hv : res.value? = some v) : res.width = .ok 32 ∧ r ≠ .top ∧ Fits 32 v ∧
        (op .plus es).denote ρ 32 + t.drift p (.op .plus es) = β r + low 32 v := by
      have hwrap := hsettled.total_eq hv hus
      have hlow : low 32 v = low 32 (Operator.plus.total us) := hwrap ▸ low_wrap (w := 32) (by decide) _
      refine ⟨hsettled.width_eq, hr, hwrap ▸ fits_wrap 32 _, ?_⟩
      rw [hvalue, hlow, htotal, hβ, zero_add]
    obtain ⟨a, ha, hcovers⟩ := exists_operate (.inl rfl) hmapM hwidth hfound hres hres'
    exact ⟨a, ha, hcovers, hwidth⟩

theorem known_of_affine (hβ : β .global = 0) (hvars : ∀ x : Var, x.width = 32 → ∃ a,
    t.vars.get p.addressSetting x = .ok a ∧ a.Covers β ((Expr.var x).denote ρ 32)) (he : e.Affine) :
    Known t p β ρ e := by
  induction he with
  | @num v hv =>
    refine ⟨.num hv, ⟨⟨.global, .known ⟨v, 32⟩⟩, ?_, .known (by decide) hv ?_, rfl⟩, nofun⟩
    · exact .lift rfl .pure
    · rw [hβ, zero_add, ← ofInt_toInt (by decide)]
      exact add_zero _
  | @var x hx =>
    obtain ⟨a, ha, hcovers⟩ := hvars x hx
    refine ⟨.var hx, ⟨a, .lift ha .pure, ?_, ?_⟩, nofun⟩
    · rwa [show t.drift p (.var x) = 0 from rfl, add_zero]
    · rw [← hx]
      rfl
  | @neg b hb ih =>
    obtain ⟨b', hb'⟩ := ih.self
    refine ⟨.neg hb, exists_tracks_neg hβ hb', fun c hc => ?_⟩
    cases hc
    exact ⟨b', hb'⟩
  | plus hlen has ih => exact ⟨.plus hlen has, exists_tracks_plus hβ hlen ih, nofun⟩

/-- **Pointer arithmetic.** Sums and negatives of tracked variables and numbers are evaluated
without a fault to an address that stands for their value, up to the drift. -/
theorem eval_covers (p : Program) (t : Tracked) {β : Region → BitVec 32} (hβ : β .global = 0) {ρ : Contents}
    (hvars : ∀ x : Var, x.width = 32 → ∃ a,
      t.vars.get p.addressSetting x = .ok a ∧ a.Covers β ((Expr.var x).denote ρ 32))
    {e : Expr} (he : e.Affine) :
    ∃ a, Ends (t.eval e) p a p ∧ a.Covers β (e.denote ρ 32 + t.drift p e) := by
  obtain ⟨a, ha⟩ := (known_of_affine hβ hvars he).self
  exact ⟨a, ha.eval_ends, ha.covers⟩

end Tracked

def Valuation.only (x : Var) (a : Based) : Valuation Based := ⟨(∅ : Std.TreeMap Nat (Var × Based)).insert x.index (x, a)⟩

theorem Valuation.find?_only (x y : Var) (a : Based) :
    (Valuation.only x a).find? y = if x.index = y.index then some a else none := by
  change Option.map Prod.snd ((∅ : Std.TreeMap Nat (Var × Based)).insert x.index (x, a))[y.index]? = _
  rw [Std.TreeMap.getElem?_insert]
  split <;> simp_all

namespace Tracked

def eax : Var := ⟨37, "eax", 32⟩

def pointing : Tracked := { vars := .only eax ⟨.stack, .known ⟨8, 32⟩⟩ }

def origin : Region → BitVec 32
  | .stack => 4096
  | _ => 0

theorem get_pointing {x : Var} (hx : x.width = 32) : ∃ a,
    pointing.vars.get (default : Program).addressSetting x = .ok a ∧
      a.Covers origin ((Expr.var x).denote (fun _ => 4104) 32) := by
  have hfind := Valuation.find?_only eax x ⟨.stack, .known ⟨8, 32⟩⟩
  have hget : pointing.vars.get (default : Program).addressSetting x =
      (pointing.vars.find? x).elim (Based.top x.width) .ok := by
    change Valuation.getTo _ _ (127 + 1) x = _
    rw [Valuation.getTo]
    cases pointing.vars.find? x <;> rfl
  rw [hget, pointing, hfind, hx]
  split_ifs
  · refine ⟨_, rfl, .known (by decide) (by decide) ?_⟩
    change BitVec.setWidth 32 (.ofNat x.width.toNat 4104) = _
    rw [hx]
    decide
  · exact ⟨_, rfl, .unknown _⟩

/-- A number is added to a pointer. -/
theorem eval_offset : ∃ a, Ends (pointing.eval (.op .plus [.var eax, .num 4 32])) default a default ∧
    a.Covers origin 4108 := by
  obtain ⟨a, ha, hcovers⟩ := eval_covers default pointing (β := origin) rfl (fun x hx => get_pointing hx)
    (e := .op .plus [.var eax, .num 4 32]) (.plus (by decide)
      (forall_mem_pair.mpr ⟨.var rfl, .num (by decide)⟩))
  have hdrift : pointing.drift default (.op .plus [.var eax, .num 4 32]) = 0 := by decide +kernel
  rw [hdrift] at hcovers
  exact ⟨a, ha, hcovers⟩

/-- A pointer without itself is zero, but it is evaluated to twice its offset. -/
theorem eval_pointer_without_itself :
    Ends (pointing.eval (.op .plus [.var eax, .op .neg [.var eax]])) default ⟨.global, .known ⟨16, 32⟩⟩ default ∧
      ∀ (ρ : Contents) (β : Region → BitVec 32), β .global = 0 →
        ¬Based.Covers β ((Expr.op .plus [.var eax, .op .neg [.var eax]]).denote ρ 32) ⟨.global, .known ⟨16, 32⟩⟩ := by
  constructor
  · unfold Ends
    rfl
  · intro ρ β hβ
    have hzero : (op .plus [.var eax, .op .neg [.var eax]]).denote ρ 32 = 0 := by
      change (var eax).denote ρ 32 + (-(var eax).denote ρ 32 + 0) = 0
      rw [add_zero, add_neg_cancel]
    rw [hzero]
    rintro ⟨⟩
    next hb =>
      rw [hβ] at hb
      exact absurd hb (by decide)

end Tracked

end FlowRecovery
