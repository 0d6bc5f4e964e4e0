import FlowRecovery.Proofs.Expr.Unspecified

/-!
# Operations of which some operands are known

An analysis that knows the numbers of some variables puts a number for every operand that it knows,
and an unspecified value for each of the others (`Seen`). It then evaluates the operation. This
always ends. If the result is a number, the operation has this value, whatever the unknown operands
are (`Standard.yields`).
-/

namespace FlowRecovery.Expr

variable {o : Operator} {w : Int} {a b e x y r : Expr} {es xs : List Expr} {σ : Machine} {Γ : Vocabulary} {v : Int64}

/-- What is put for an operand: its number, or that it is unspecified. -/
inductive Seen (σ : Machine) (e : Expr) : Expr → Prop where
  | known : Seen σ e (.num (e.value σ) e.widthOf)
  | unknown (h : e.isNumber = false) : Seen σ e (.nondet e.widthOf)

theorem Seen.becomes (h : Seen σ e x) : Becomes .empty 1 x x := by cases h <;> exact fun _ => rfl

/-- The operation on `xs` is evaluated. If the result is a number, it has `w` bits and is the value
of `e`. -/
def Yields (σ : Machine) (o : Operator) (w : Int) (e : Expr) (xs : List Expr) : Prop :=
  ∃ r, (operation o xs >>= fun e => e.evaluate .empty) = .ok r ∧ ∀ v u, r = .num v u → v = e.value σ ∧ u = w

theorem value_op_of_values (hw : (Expr.op o xs).widthOf = (Expr.op o es).widthOf)
    (hws : xs.map widthOf = es.map widthOf) (hvs : xs.map (value σ) = es.map (value σ)) :
    value σ (.op o xs) = value σ (.op o es) := by
  rw [value, value, hw, hws, values_eq_map, values_eq_map, hvs]

abbrev leafWords : Vocabulary := Context.empty.words fun _ => default

theorem leafWords_le (u : Int) (hu : leafWords.width u) : u ≤ 64 := hu.2

theorem yields_numbers (hop : operation o xs = .ok (.op o xs)) (h : Standard leafWords (.op o xs) w)
    (hvalue : value σ (.op o xs) = value σ e) : Yields σ o w e xs := by
  have hc := Context.empty.determines_words fun _ => default
  obtain ⟨r, hr, hrtyped, hkeeps⟩ := evaluate_spec (suits_of_determines hc) (h.hasWidth leafWords_le)
  obtain ⟨hflawless, -⟩ := isConcrete_of_standard leafWords_le (fun _ hu => hu) hc _ h (weight_le_depth _)
  refine ⟨r, by rw [hop]; exact hr, ?_⟩
  rintro v u rfl
  have hσ : σ.Agrees leafWords .empty := fun x _ _ => rfl
  refine ⟨(hkeeps σ hσ hflawless).trans hvalue, ?_⟩
  cases hrtyped
  rfl

theorem yields_nothing {n : Nat} (hop : operation o xs = .ok (.op o xs)) (h : Becomes .empty n (.op o xs) r)
    (hn : n ≤ 2000) (hr : r.value? = none) : Yields σ o w e xs := by
  refine ⟨r, by rw [hop]; exact h.evaluate hn, ?_⟩
  rintro v u rfl
  cases hr

theorem Becomes.stays {n : Nat} (hop : operation o xs = .ok (.op o xs)) (hne : xs ≠ [])
    (hxs : List.Forall₂ (Becomes .empty n) xs xs) (hw : (Expr.op o xs).width = .ok w) (hpos : w ≠ 0) (hor : o ≠ .or)
    (hrule : identityRule o w w xs xs = .ok none) (hcompute : compute o xs.length (xs.filterMap value?) = none) :
    Becomes .empty (n + 1) (.op o xs) (.op o xs) :=
  .kept hne hxs hw hpos hw hrule (mergeComparisons_of_ne hor) hcompute hop

theorem not_nondet (hadm : Admissible w) : not (.nondet w) = .ok (.op .not [.nondet w]) := by
  change (if w == 1 || w % 8 == 0 then _ else _) = _
  exact if_pos (by simpa [Admissible] using hadm)

theorem isNumber_of_value? (h : x.value? = some v) : x.isNumber := by rw [isNumber, h]; rfl

/-! ### One operand is unspecified -/

/-- Nothing but an unspecified operand is left, or its negation. -/
def Open (w : Int) : Reduction → Prop
  | .done r => r = .nondet w
  | .again r => r = .op .not [.nondet w] ∧ Admissible w

theorem answers_negated (hadm : Admissible w) (hy : y = .nondet w) :
    Answers (Open w) (do return some (.again (← not y))) := by
  rw [hy, not_nondet hadm]
  exact .some ⟨rfl, hadm⟩

section

variable (hx : Leaf w x) (hy : Leaf w y) (h : x.isNumber = false ∨ y.isNumber = false)

include hy h in
theorem Leaf.eq_nondet (hnum : x.isNumber) : y = .nondet w := by
  cases hy with
  | num => rcases h with h | h <;> simp_all [isNumber, value?]
  | nondet => rfl

include hx hy h

theorem equals_unspecified : x.equals y = false := by
  by_contra heq
  obtain ⟨v, rfl, rfl⟩ := hy.eq_of_equals (Bool.not_eq_false _ ▸ heq)
  rcases h with h | h <;> cases h

theorem answers_xor_unspecified (hadm : Admissible w) : Answers (Open w) (xorRule w x y) := by
  have hright := hy.eq_nondet h
  have hleft := hx.eq_nondet h.symm
  unfold xorRule
  rw [equals_unspecified hx hy h]
  simp only [Bool.false_eq_true, if_false]
  split
  · next hzero => exact .some (hright (isNumber_of_value? (eq_of_isZero hzero)))
  split
  · next hzero => exact .some (hleft (isNumber_of_value? (eq_of_isZero hzero)))
  split
  · next hones => exact answers_negated hadm (hright (isNumber_of_value? (eq_of_isAllOnes hones)))
  split
  · next hones => exact answers_negated hadm (hleft (isNumber_of_value? (eq_of_isAllOnes hones)))
  · exact .none

theorem answers_equal_unspecified : Answers (Open w) (equalRule x y) := by
  have hright {v : Int64} (heq : (num v 1).equals x) : y = .nondet w ∧ w = 1 := by
    obtain ⟨u, rfl, hu⟩ := hx.eq_of_equals heq
    injection hu with _ hone
    exact ⟨hy.eq_nondet h rfl, hone.symm⟩
  have hleft {v : Int64} (heq : (num v 1).equals y) : x = .nondet w ∧ w = 1 := by
    obtain ⟨u, rfl, hu⟩ := hy.eq_of_equals heq
    injection hu with _ hone
    exact ⟨hx.eq_nondet h.symm rfl, hone.symm⟩
  unfold equalRule
  rw [equals_unspecified hx hy h]
  simp only [Bool.false_eq_true, if_false]
  split
  · next heq => exact .some (hright heq).1
  split
  · next heq => exact .some (hleft heq).1
  split
  · next heq => exact answers_negated (.inl (hright heq).2) (hright heq).1
  split
  · next heq => exact answers_negated (.inl (hleft heq).2) (hleft heq).1
  · exact .none

end

theorem becomes_not_nondet (hadm : Admissible w) (hpos : 0 < w) :
    Becomes .empty 2 (.op .not [.nondet w]) (.op .not [.nondet w]) :=
  .stays (not_nondet hadm) (by simp) (.cons (fun _ => rfl) .nil) rfl hpos.ne' (by decide) rfl rfl

theorem yields_unspecified {u : Int} (hx : Leaf w x) (hy : Leaf w y) (h : x.isNumber = false ∨ y.isNumber = false)
    (hpos : 0 < w) (hop : operation o [x, y] = .ok (.op o [x, y])) (hu : (Expr.op o [x, y]).width = .ok u)
    (hupos : 0 < u) (hor : o ≠ .or) (hrule : Answers (Open w) (identityRule o u u [x, y] [x, y])) :
    Yields σ o u e [x, y] := by
  have hself {x : Expr} (hx : Leaf w x) : Becomes .empty 2 x x := by cases hx <;> exact fun _ => rfl
  have hxs : List.Forall₂ (Becomes .empty 2) [x, y] [x, y] := .cons (hself hx) (.cons (hself hy) .nil)
  obtain ⟨res, hres, hopen⟩ := hrule
  cases res with
  | none =>
    exact yields_nothing hop (.stays hop (by simp) hxs hu hupos.ne' hor hres (compute_pair o h)) (by decide) rfl
  | some red =>
    have hred := reduce_of_some hres
    cases red with
    | done r =>
      obtain rfl := hopen _ rfl
      exact yields_nothing hop (.done (by simp) hxs hu hupos.ne' hu hred) (by decide) rfl
    | again r =>
      obtain ⟨rfl, hadm⟩ := hopen _ rfl
      have hnot := becomes_not_nondet hadm hpos
      exact yields_nothing hop (.again (by simp) hxs hu hupos.ne' hu hred hnot) (by decide) rfl

theorem Seen.leaf (h : Seen σ e x) (he : HasWidth Γ e w) : Leaf w x ∧ Allows x (value σ e) := by
  cases h with
  | known => rw [he.widthOf_eq]; exact ⟨.num (fits_value σ he), allows_num _ _⟩
  | unknown => rw [he.widthOf_eq]; exact ⟨.nondet, allows_nondet _ _⟩

theorem Seen.eq_of_isNumber (h : Seen σ e x) (hx : x.isNumber) : x = .num (value σ e) e.widthOf := by
  cases h with
  | known => rfl
  | unknown => cases hx

theorem Seen.eq_num (h : Seen σ (.num v w) x) : x = .num v w := by
  cases h with
  | known => rfl
  | unknown h => cases h

/-! ### Every operation -/

theorem yields_known (h : HasWidth Γ (.op o es) w) (hxs : xs = es.map fun e => .num (value σ e) e.widthOf)
    (hop : operation o xs = .ok (.op o xs)) (hstd : Standard leafWords (.op o xs) w) : Yields σ o w (.op o es) xs := by
  refine yields_numbers hop hstd (value_op_of_values ?_ ?_ ?_)
  · rw [h.widthOf_eq, (hstd.hasWidth leafWords_le).widthOf_eq]
  · rw [hxs, List.map_map]
    rfl
  · rw [hxs, List.map_map]
    rfl

section

variable (hΓ : ∀ u, Γ.width u → u ≤ 64) (hsum : ∀ u, Γ.sum u → 1 < u)

include hΓ

section

variable (ha : Standard Γ a w) (hx : Seen σ a x)

include ha hx

theorem yields_pair {u : Int} (hadm : Admissible u) (hb : Standard Γ b w) (h : HasWidth Γ (.op o [a, b]) u) (hy : Seen σ b y)
    (ho : operation o [x, y] = apply o [x, y]) (hor : o ≠ .or) (hwidth : HasWidth leafWords (.op o [x, y]) u)
    (hstd : ∀ {x y}, Standard leafWords x w → Standard leafWords y w → Standard leafWords (.op o [x, y]) u)
    (hrule : Leaf w x → Leaf w y → x.isNumber = false ∨ y.isNumber = false →
      Answers (Open w) (identityRule o u u [x, y] [x, y])) : Yields σ o u (.op o [a, b]) [x, y] := by
  have hatyped := ha.hasWidth hΓ
  have hbtyped := hb.hasWidth hΓ
  have hpos := hatyped.width_pos
  have hle := hΓ w hatyped.width_eq.2
  have hop := ho.trans (hwidth.apply_eq hadm)
  obtain ⟨hxleaf, -⟩ := hx.leaf hatyped
  obtain ⟨hyleaf, -⟩ := hy.leaf hbtyped
  by_cases hnum : x.isNumber ∧ y.isNumber
  · refine yields_known h (by rw [hx.eq_of_isNumber hnum.1, hy.eq_of_isNumber hnum.2]; rfl) hop (hstd ?_ ?_)
    · exact standard_of_isNumber (hxleaf.hasWidth hpos hle) hnum.1
    · exact standard_of_isNumber (hyleaf.hasWidth hpos hle) hnum.2
  · have hopen : x.isNumber = false ∨ y.isNumber = false := by
      simpa only [not_and_or, Bool.not_eq_true] using hnum
    exact yields_unspecified hxleaf hyleaf hopen hpos hop hwidth.width_eq.1 hwidth.width_pos
      hor (hrule hxleaf hyleaf hopen)

theorem Seen.hasWidth : HasWidth leafWords x w := by
  have ha := ha.hasWidth hΓ
  exact (hx.leaf ha).1.hasWidth ha.width_pos (hΓ w ha.width_eq.2)

theorem yields_unary (ho : o = .not ∨ o = .neg) (hadm : Admissible w) (h : HasWidth Γ (.op o [a]) w)
    (hwidth : HasWidth leafWords (.op o [x]) w)
    (hstd : ∀ {x}, Standard leafWords x w → Standard leafWords (.op o [x]) w) : Yields σ o w (.op o [a]) [x] := by
  have hop : operation o [x] = .ok (.op o [x]) := by
    rcases ho with rfl | rfl <;> cases hx <;> exact hwidth.apply_eq hadm
  have htyped := hx.hasWidth hΓ ha
  cases hx with
  | known => exact yields_known h rfl hop (hstd (standard_of_isNumber htyped rfl))
  | unknown =>
    refine yields_nothing (n := 2) hop (.stays hop (by simp) (.cons (fun _ => rfl) .nil) hwidth.width_eq.1
      h.width_pos.ne' ?_ ?_ ?_) (by decide) rfl
    all_goals rcases ho with rfl | rfl <;> first | decide | rfl

theorem yields_shift {k : Int64} {wk : Int} (hrich : Γ.rich) (ho : o = .shl ∨ o = .sar) (hone : 1 < w)
    (hadm : Admissible w) (hk : Γ.width wk) (hfits : Word.Fits wk k) (hpos : 0 ≤ k.toInt) (hlt : k.toInt < 64) :
    Yields σ o w (.op o [a, .num k wk]) [x, .num k wk] := by
  have h : HasWidth Γ (.op o [a, .num k wk]) w := (Standard.shift hrich ho hone hadm ha hk hfits hpos hlt).hasWidth hΓ
  have hresizes : o.Resizes w wk w := by rcases ho with rfl | rfl <;> rfl
  have hkwidth : leafWords.width wk := ⟨Γ.width_pos hk, hΓ wk hk⟩
  have htyped := hx.hasWidth hΓ ha
  have hleaves : HasWidth leafWords (.op o [x, .num k wk]) w :=
    .arith trivial hresizes hone hadm htyped.width_eq.2 htyped (.num hkwidth hfits)
  have hop : operation o [x, .num k wk] = .ok (.op o [x, .num k wk]) := by
    rcases ho with rfl | rfl <;> exact hleaves.apply_eq hadm
  cases hx with
  | known =>
    exact yields_known h rfl hop
      (.shift trivial ho hone hadm (standard_of_isNumber htyped rfl) hkwidth hfits hpos hlt)
  | unknown =>
    refine yields_nothing (n := 2) hop (.stays hop (by simp) (.cons (fun _ => rfl) (.cons (fun _ => rfl) .nil))
      hleaves.width_eq.1 h.width_pos.ne' ?_ ?_ rfl) (by decide) rfl
    all_goals rcases ho with rfl | rfl <;> first | decide | rfl

theorem yields_extend {f l : Int64} {wf wl u : Int} (hrich : Γ.rich) (ho : o = .signExtend ∨ o = .zeroFill)
    (hfirst : f.toInt = w) (hlast : l.toInt = u - 1) (hw : w ≤ 32) (hlt : w < u) (hadm : Admissible u)
    (hwidth : Γ.width u) : Yields σ o u (.op o [.num f wf, .num l wl, a]) [.num f wf, .num l wl, x] := by
  have h : HasWidth Γ (.op o [.num f wf, .num l wl, a]) u :=
    (Standard.extend hrich ho hfirst hlast hw hlt hadm hwidth ha).hasWidth hΓ
  have hpos := h.width_pos
  have htyped := hx.hasWidth hΓ ha
  have hleaves : (op o [.num f wf, .num l wl, x]).width = .ok u := by
    have hwidths : x.width = a.width := by
      rw [htyped.width_eq.1, (ha.hasWidth hΓ).width_eq.1]
    rw [← h.width_eq.1]
    rcases ho with rfl | rfl <;> simp only [width, widths, operationWidth, hwidths] <;> rfl
  have hop : operation o [.num f wf, .num l wl, x] = .ok (.op o [.num f wf, .num l wl, x]) := by
    have happly : apply o [.num f wf, .num l wl, x] = .ok (.op o [.num f wf, .num l wl, x]) := by
      rw [apply, show operationWidth o _ _ = _ from hleaves]
      exact if_pos (by simpa [Admissible] using hadm)
    rcases ho with rfl | rfl <;> exact happly
  cases hx with
  | known =>
    exact yields_known h rfl hop
      (.extend trivial ho hfirst hlast hw hlt hadm ⟨hpos, hΓ u hwidth⟩ (standard_of_isNumber htyped rfl))
  | unknown =>
    have hrule : identityRule o u u [.num f wf, .num l wl, .nondet a.widthOf] [.num f wf, .num l wl, .nondet a.widthOf] =
        .ok (some (.done (.op o [.num f wf, .num l wl, .nondet a.widthOf]))) := by
      rcases ho with rfl | rfl <;> simp only [identityRule, extensionRule, hop] <;> rfl
    exact yields_nothing (n := 2) hop (.done (by simp) (.cons (fun _ => rfl) (.cons (fun _ => rfl) (.cons (fun _ => rfl)
      .nil))) hleaves hpos.ne' hleaves (reduce_of_some hrule)) (by decide) rfl

theorem yields_mul (hadm : Admissible (2 * w)) (hwidth : Γ.width (2 * w)) (hrich : Γ.rich) (hb : Standard Γ b w)
    (hy : Seen σ b y) : Yields σ .mul (2 * w) (.op .mul [a, b]) [x, y] := by
  have h : HasWidth Γ (.op .mul [a, b]) (2 * w) := (Standard.mul hrich hadm hwidth ha hb).hasWidth hΓ
  have hpos := h.width_pos
  have hle := hΓ _ hwidth
  have hleaves : HasWidth leafWords (.op .mul [x, y]) (2 * w) :=
    .arith trivial ⟨rfl, rfl⟩ (by omega) hadm ⟨hpos, hle⟩ (hx.hasWidth hΓ ha) (hy.hasWidth hΓ hb)
  by_cases hzero : x.isZero ∨ y.isZero
  · have hvalue : value σ (.op .mul [a, b]) = 0 := by
      rw [value, h.widthOf_eq]
      change Word.wrap (2 * w) (value σ a * value σ b) = 0
      rcases hzero with hzero | hzero
      · rw [(hx.leaf (ha.hasWidth hΓ)).2 0 (eq_of_isZero hzero), Int64.zero_mul, Word.wrap_zero]
      · rw [(hy.leaf (hb.hasWidth hΓ)).2 0 (eq_of_isZero hzero), Int64.mul_zero, Word.wrap_zero]
    have hrule : identityRule .mul (2 * w) (2 * w) [x, y] [x, y] = .ok (some (.done (number 0 (2 * w)))) := by
      change scan (mulRule (2 * w)) 0 [x, y] = _
      by_cases hx : x.isZero
      · simp [scan, mulRule, hx, ok_bind]
        rfl
      · simp [scan, mulRule, hx, hzero.resolve_left hx, ok_bind]
        rfl
    have hwidth' := hleaves.width_eq.1
    refine ⟨number 0 (2 * w), ?_, fun v u hr => ?_⟩
    · rw [show operation .mul [x, y] = .ok (.op .mul [x, y]) from hleaves.apply_eq hadm]
      exact Becomes.evaluate (.done (by simp) (.cons hx.becomes (.cons hy.becomes .nil)) hwidth' (by omega) hwidth'
        (reduce_of_some hrule)) (by decide)
    · rw [number_eq, Word.settle_of_fits (by omega) (Word.wrap_zero _)] at hr
      injection hr with hv hu
      exact ⟨hv.symm.trans hvalue.symm, hu.symm⟩
  · obtain ⟨hx', hy'⟩ := not_or.mp hzero
    refine yields_pair hΓ ha hx hadm hb h hy rfl (by decide) hleaves (fun hx hy => .mul trivial hadm ⟨hpos, hle⟩ hx hy)
      fun _ _ _ => ?_
    change Answers _ (scan (mulRule (2 * w)) 0 [x, y])
    simp only [scan, mulRule, hx', hy', Bool.false_eq_true, if_false, ok_bind]
    exact .none

end

omit hΓ in
theorem Seen.leaves (has : ∀ e ∈ es, HasWidth Γ e w) (hxs : List.Forall₂ (Seen σ) es xs) :
    (∀ x ∈ xs, Leaf w x) ∧ List.Forall₂ Allows xs (es.map (value σ)) := by
  induction hxs with
  | nil => exact ⟨by simp, .nil⟩
  | cons hx _ ih =>
    obtain ⟨he, hes⟩ := List.forall_mem_cons.mp has
    obtain ⟨hleaves, hallows⟩ := ih hes
    exact ⟨List.forall_mem_cons.mpr ⟨(hx.leaf he).1, hleaves⟩, .cons (hx.leaf he).2 hallows⟩

include hsum

/-- **Operations on what is seen of their operands.** The evaluation always ends, and a number is
the value of the operation. -/
theorem Standard.yields (h : Standard Γ (.op o es) w) (hxs : List.Forall₂ (Seen σ) es xs) :
    Yields σ o w (.op o es) xs := by
  have htyped := h.hasWidth hΓ
  cases h with
  | regroup ho hs hlen hadm has =>
    obtain ⟨hleaves, hallows⟩ := Seen.leaves (fun e he => (has e he).hasWidth hΓ) hxs
    obtain ⟨r, hr, hsettled⟩ := exists_evaluate_leaves ho (fun h => hsum w (hs h)) htyped.width_pos
      (hΓ w htyped.width_eq.2) hadm (hxs.length_eq ▸ hlen) hleaves
    refine ⟨r, hr, ?_⟩
    rintro v u rfl
    refine ⟨?_, Except.ok.inj hsettled.width_eq⟩
    rw [value_regroup σ htyped ho]
    exact (hsettled.total_eq rfl hallows).symm
  | not hadm ha =>
    obtain ⟨x, rfl, hx⟩ := forall₂_one_left hxs
    exact yields_unary hΓ ha hx (.inl rfl) hadm htyped (.not hadm (hx.hasWidth hΓ ha)) (.not hadm)
  | neg hs hadm ha =>
    obtain ⟨x, rfl, hx⟩ := forall₂_one_left hxs
    have hone := hsum w hs
    exact yields_unary hΓ ha hx (.inr rfl) hadm htyped (.neg hone hadm (hx.hasWidth hΓ ha)) (.neg hone hadm)
  | xor hadm ha hb =>
    obtain ⟨x, y, rfl, hx, hy⟩ := forall₂_two_left hxs
    exact yields_pair hΓ ha hx hadm hb htyped hy rfl (by decide) (.xor hadm (hx.hasWidth hΓ ha) (hy.hasWidth hΓ hb))
      (.xor hadm) fun hx hy h => answers_xor_unspecified hx hy h hadm
  | compare ho ha hb =>
    obtain ⟨x, y, rfl, hx, hy⟩ := forall₂_two_left hxs
    refine yields_pair hΓ ha hx (.inl rfl) hb htyped hy ?_ ?_ (.compare ho (hx.hasWidth hΓ ha) (hy.hasWidth hΓ hb))
      (.compare ho) fun hx hy h => ?_
    · cases o <;> first | rfl | cases ho
    · rintro rfl
      cases ho
    · cases o with
      | equal => exact answers_equal_unspecified hx hy h
      | less | lessOrEqual | unsignedLess | unsignedLessOrEqual => exact .none
      | _ => cases ho
  | mul hrich hadm hwidth ha hb =>
    obtain ⟨x, y, rfl, hx, hy⟩ := forall₂_two_left hxs
    exact yields_mul hΓ ha hx hadm hwidth hrich hb hy
  | shift hrich ho hone hadm ha hk hfits hpos hlt =>
    obtain ⟨x, y, rfl, hx, hy⟩ := forall₂_two_left hxs
    obtain rfl := hy.eq_num
    exact yields_shift hΓ ha hx hrich ho hone hadm hk hfits hpos hlt
  | extend hrich ho hfirst hlast hw hlt hadm hwidth ha =>
    obtain ⟨x, y, z, rfl, hx, hy, hz⟩ := forall₂_three_left hxs
    obtain rfl := hx.eq_num
    obtain rfl := hy.eq_num
    exact yields_extend hΓ ha hz hrich ho hfirst hlast hw hlt hadm hwidth

end

end FlowRecovery.Expr
