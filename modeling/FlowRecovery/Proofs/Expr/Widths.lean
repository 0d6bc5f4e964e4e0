import FlowRecovery.Proofs.Ending
import FlowRecovery.Proofs.Expr.Meaning

/-!
# Expressions of a width

`HasWidth Γ e w` says that `e` is built from the variables and operations of the vocabulary `Γ`,
that its operands have the widths that its operators ask for, and that it has `w` bits itself. Then
`Expr.width` finds this width (`HasWidth.width_eq`), and the value on every machine fits into it
(`fits_value`).

The variables of a vocabulary are told apart by their numbers. So two expressions of one vocabulary
that the library takes for equal are the same (`eq_of_equals`): `Expr.equals` does not look at the
widths of variables.
-/

variable {as : List Expr}

namespace FlowRecovery

open Word List

/-- The expressions that are spoken of. -/
structure Vocabulary where
  /-- The variables. -/
  declared : Var → Prop
  /-- The widths that expressions may have. -/
  width : Int → Prop
  /-- The widths of sums and negatives. -/
  sum : Int → Prop
  /-- Are there expressions other than numbers, variables, sums, comparisons and bitwise operations?
  -/
  rich : Prop
  /-- Are there memory locations? -/
  memory : Prop
  declared_inj {x y : Var} (hx : declared x) (hy : declared y) (h : x.index = y.index) : x = y
  width_one : width 1
  width_pos {w : Int} (hw : width w) : 0 < w
  width_lt {w : Int} (hw : width w) : w < 2147483648

theorem Vocabulary.bounded_one : 0 < (1 : Int) ∧ (1 : Int) ≤ 64 := by decide

theorem Vocabulary.bounded_pos {w : Int} (h : 0 < w ∧ w ≤ 64) : 0 < w := h.1

theorem Vocabulary.bounded_lt {w : Int} (h : 0 < w ∧ w ≤ 64) : w < 2147483648 := by omega

namespace Operator

/-- The widths of the operands and of the result, for operators on two operands that compute modulo
a power of two. -/
def Resizes (o : Operator) (w w' u : Int) : Prop :=
  match o with
  | mul => w' = w ∧ u = 2 * w
  | div | mod => w' = w ∧ u = w
  | shl | shr | sar => u = w
  | _ => False

/-- Operators about which nothing but the width of the result is known. -/
def isOpaque : Operator → Bool
  | powerOf | floatMul | floatDiv | rol | ror | rolc | rorc => true
  | _ => false

end Operator

namespace Expr

def Admissible (w : Int) : Prop := w = 1 ∨ w % 8 = 0

/-- The expression has `w` bits, and all its parts have the widths that they should have. -/
inductive HasWidth (Γ : Vocabulary) : Expr → Int → Prop where
  | num {v : Int64} {w : Int} (hw : Γ.width w) (hv : Fits w v) : HasWidth Γ (.num v w) w
  | var {x : Var} (hx : Γ.declared x) (hw : Γ.width x.width) : HasWidth Γ (.var x) x.width
  | regroup {o : Operator} {as : List Expr} {w : Int} (ho : o.isAssociative = true) (hsum : o = .plus → Γ.sum w)
      (hlen : 2 ≤ as.length) (hadm : Admissible w) (has : ∀ a ∈ as, HasWidth Γ a w) : HasWidth Γ (.op o as) w
  | not {a : Expr} {w : Int} (hadm : Admissible w) (ha : HasWidth Γ a w) : HasWidth Γ (.op .not [a]) w
  | neg {a : Expr} {w : Int} (hsum : Γ.sum w) (hadm : Admissible w) (ha : HasWidth Γ a w) :
      HasWidth Γ (.op .neg [a]) w
  | xor {a b : Expr} {w : Int} (hadm : Admissible w) (ha : HasWidth Γ a w) (hb : HasWidth Γ b w) :
      HasWidth Γ (.op .xor [a, b]) w
  | compare {o : Operator} {a b : Expr} {w : Int} (ho : o.isComparison = true) (ha : HasWidth Γ a w)
      (hb : HasWidth Γ b w) : HasWidth Γ (.op o [a, b]) 1
  | arith {o : Operator} {a b : Expr} {w w' u : Int} (hrich : Γ.rich) (ho : o.Resizes w w' u) (hone : 1 < u)
      (hadm : Admissible u) (hu : Γ.width u) (ha : HasWidth Γ a w) (hb : HasWidth Γ b w') : HasWidth Γ (.op o [a, b]) u
  | functional {o : Operator} {f l : Int64} {a : Expr} {wf wl w u : Int} (hrich : Γ.rich) (ho : o.isFunctional = true)
      (hu : operationWidth o [.num f wf, .num l wl, a] [.ok wf, .ok wl, .ok w] = .ok u) (hadm : Admissible u)
      (hwidth : Γ.width u) (ha : HasWidth Γ a w) : HasWidth Γ (.op o [.num f wf, .num l wl, a]) u
  | cast {n : Int64} {a : Expr} {wn w : Int} (hrich : Γ.rich) (hn : low32 n = w) (ha : HasWidth Γ a w) :
      HasWidth Γ (.op .cast [a, .num n wn]) w
  | unknown {o : Operator} {as : List Expr} {ws : List Int} {w : Int} (hrich : Γ.rich) (ho : o.isOpaque = true)
      (hlen : ws.length = as.length) (hw : operationWidth o as (ws.map .ok) = .ok w) (hadm : Admissible w)
      (hwidth : Γ.width w) (has : ∀ p ∈ as.zip ws, HasWidth Γ p.1 p.2) : HasWidth Γ (.op o as) w
  | bits {f l : Int64} {x : Expr} {wf wl w u : Int} (hrich : Γ.rich) (hfirst : 0 ≤ low32 f)
      (hle : low32 f ≤ low32 l) (hu : u = low32 l - low32 f + 1) (hlt : u < 64)
      (hwidth : Γ.width u) (hx : HasWidth Γ x w) : HasWidth Γ (.bits x (.num f wf) (.num l wl)) u
  | cond {c t f : Expr} {w : Int} (hrich : Γ.rich) (hc : HasWidth Γ c 1) (ht : HasWidth Γ t w) (hf : HasWidth Γ f w) :
      HasWidth Γ (.cond c t f) w
  | mem {a : Expr} {s : Option Expr} {w wa ws n : Int} (hmemory : Γ.memory) (hw : Γ.width w) (ha : HasWidth Γ a wa)
      (hs : ∀ t ∈ s, HasWidth Γ t ws) : HasWidth Γ (.mem w a s n) w
  | special {name : String} {as : List Expr} {ws : List Int} (hrich : Γ.rich)
      (hname : name ≠ "addr" ∧ name ≠ "nondet") (hlen : ws.length = as.length) (hw : Γ.width (specialWidth name))
      (has : ∀ p ∈ as.zip ws, HasWidth Γ p.1 p.2) : HasWidth Γ (.special name as) (specialWidth name)
  | nondet {w : Int} (hrich : Γ.rich) (hw : Γ.width w) : HasWidth Γ (.nondet w) w

/-! ### Equality -/

mutual

def Declared (d : Var → Prop) : Expr → Prop
  | .var x => d x
  | .op _ as => AllDeclared d as
  | .special _ as => AllDeclared d as
  | .bits x f l => Declared d x ∧ Declared d f ∧ Declared d l
  | .cond c t f => Declared d c ∧ Declared d t ∧ Declared d f
  | .mem _ a s _ => Declared d a ∧ SegmentDeclared d s
  | .num .. | .nondet _ => True

def AllDeclared (d : Var → Prop) : List Expr → Prop
  | [] => True
  | a :: as => Declared d a ∧ AllDeclared d as

def SegmentDeclared (d : Var → Prop) : Option Expr → Prop
  | none => True
  | some s => Declared d s

end

theorem allDeclared_iff {d : Var → Prop} : AllDeclared d as ↔ ∀ a ∈ as, Declared d a := by
  induction as with
  | nil => simp [AllDeclared]
  | cons a as ih => rw [AllDeclared, ih, forall_mem_cons]

theorem eq_of_sharedNondet {a b : Expr} (h : sharedNondet a b) : a = b := by
  unfold sharedNondet at h
  split at h
  · rw [eq_of_beq h]
  · cases h

variable {Γ : Vocabulary}

mutual

theorem eq_of_equals : ∀ {a b : Expr}, Declared Γ.declared a → Declared Γ.declared b → a.equals b → a = b
  | .num v w, .num v' w', _, _, h => by
    simp only [equals, Bool.and_eq_true, beq_iff_eq] at h
    rw [h.1, h.2]
  | .var x, .var y, hx, hy, h => by
    simp only [equals, Bool.and_eq_true, beq_iff_eq] at h
    rw [Γ.declared_inj hx hy h.1]
  | .op o as, .op o' bs, has, hbs, h | .special o as, .special o' bs, has, hbs, h => by
    simp only [equals, Bool.and_eq_true, beq_iff_eq] at h
    rw [h.1, eq_of_equalOperands has hbs h.2]
  | .bits x y z, .bits x' y' z', ha, hb, h | .cond x y z, .cond x' y' z', ha, hb, h => by
    simp only [equals, Bool.and_eq_true] at h
    rw [eq_of_equals ha.1 hb.1 h.1.1, eq_of_equals ha.2.1 hb.2.1 h.1.2, eq_of_equals ha.2.2 hb.2.2 h.2]
  | .mem w a s n, .mem w' a' s' n', ha, hb, h => by
    simp only [equals, Bool.and_eq_true, beq_iff_eq] at h
    rw [eq_of_equals ha.1 hb.1 h.1.1.1, eq_of_equalSegments ha.2 hb.2 h.2, h.1.1.2, h.1.2]

theorem eq_of_equalOperands :
    ∀ {as bs : List Expr}, AllDeclared Γ.declared as → AllDeclared Γ.declared bs → equalOperands as bs → as = bs
  | [], [], _, _, _ => rfl
  | a :: as, b :: bs, has, hbs, h => by
    simp only [equalOperands, Bool.and_eq_true, Bool.or_eq_true] at h
    rw [eq_of_equalOperands has.2 hbs.2 h.2]
    rcases h.1 with h | h
    · rw [eq_of_sharedNondet h]
    · rw [eq_of_equals has.1 hbs.1 h]

theorem eq_of_equalSegments :
    ∀ {s t : Option Expr}, SegmentDeclared Γ.declared s → SegmentDeclared Γ.declared t → equalSegments s t → s = t
  | none, none, _, _, _ => rfl
  | some a, some b, ha, hb, h => by
    simp only [equalSegments, Bool.or_eq_true] at h
    rcases h with h | h
    · rw [eq_of_sharedNondet h]
    · rw [eq_of_equals ha hb h]

end

/-! ### Widths -/

variable {e : Expr} {w : Int} {ws : List Int} {o : Operator}

theorem forall_mem_pair {α : Type} {P : α → Prop} {a b : α} : (∀ x ∈ [a, b], P x) ↔ P a ∧ P b := by simp

theorem exists_mem_zip (hlen : ws.length = as.length) {a : Expr} (ha : a ∈ as) : ∃ u, (a, u) ∈ as.zip ws := by
  rw [← map_fst_zip (Nat.le_of_eq hlen.symm)] at ha
  obtain ⟨⟨_, u⟩, hp, rfl⟩ := mem_map.mp ha
  exact ⟨u, hp⟩

theorem HasWidth.declared (h : HasWidth Γ e w) : Declared Γ.declared e := by
  induction h with
  | num | nondet => trivial
  | var hx => exact hx
  | regroup _ _ _ _ _ ih => exact allDeclared_iff.mpr ih
  | not _ _ ih | neg _ _ _ ih => exact ⟨ih, trivial⟩
  | xor _ _ _ iha ihb | compare _ _ _ iha ihb | arith _ _ _ _ _ _ _ iha ihb => exact ⟨iha, ihb, trivial⟩
  | functional _ _ _ _ _ _ ih => exact ⟨trivial, trivial, ih, trivial⟩
  | cast _ _ _ ih => exact ⟨ih, trivial, trivial⟩
  | unknown _ _ hlen _ _ _ _ ih | special _ _ hlen _ _ ih =>
    refine allDeclared_iff.mpr fun a ha => ?_
    obtain ⟨u, hp⟩ := exists_mem_zip hlen ha
    exact ih (a, u) hp
  | bits _ _ _ _ _ _ _ ih => exact ⟨ih, trivial, trivial⟩
  | cond _ _ _ _ ihc iht ihf => exact ⟨ihc, iht, ihf⟩
  | @mem a s _ _ _ _ _ _ _ _ iha ihs =>
    refine ⟨iha, ?_⟩
    cases s with
    | none => trivial
    | some t => exact ihs t rfl

theorem HasWidth.eq_of_equals {a b : Expr} {w' : Int} (ha : HasWidth Γ a w) (hb : HasWidth Γ b w')
    (h : a.equals b) : a = b :=
  Expr.eq_of_equals ha.declared hb.declared h

theorem commonWidth_of_forall {ws : List (Faulty Int)} (hpos : 0 < w) (hne : ws ≠ []) (h : ∀ u ∈ ws, u = .ok w) :
    commonWidth ws = .ok w := by
  have hgo (us : List (Faulty Int)) (hus : ∀ u ∈ us, u = .ok w) : commonWidth.go w us = .ok w := by
    induction us with
    | nil => rfl
    | cons u us ih =>
      obtain ⟨rfl, hrest⟩ := forall_mem_cons.mp hus
      change (if w ≤ 0 then _ else commonWidth.go (max w w) us) = _
      rw [if_neg (by omega), Int.max_self, ih hrest]
  match ws, hne with
  | u :: us, _ =>
    obtain ⟨rfl, hus⟩ := forall_mem_cons.mp h
    change (if w ≤ 0 then _ else commonWidth.go w us) = _
    rw [if_neg (by omega), hgo us hus]

theorem operationWidth_of_forall (ho : o.isAssociative) (hpos : 0 < w)
    (hne : as ≠ []) (h : ∀ a ∈ as, a.width = .ok w) : operationWidth o as (widths as) = .ok w := by
  have hcommon : commonWidth (widths as) = .ok w := by
    rw [widths_eq_map]
    refine commonWidth_of_forall hpos (by simpa using hne) fun u hu => ?_
    obtain ⟨a, ha, rfl⟩ := mem_map.mp hu
    exact h a ha
  cases o <;> first | exact hcommon | cases ho

theorem operationWidth_pair {a b : Expr} (ho : o.isAssociative) (hpos : 0 < w) (ha : a.width = .ok w)
    (hb : b.width = .ok w) : operationWidth o [a, b] (widths [a, b]) = .ok w :=
  operationWidth_of_forall ho hpos (by simp) (by simpa using ⟨ha, hb⟩)

theorem widths_of_zip (hlen : ws.length = as.length)
    (h : ∀ p ∈ as.zip ws, p.1.width = .ok p.2) : widths as = ws.map .ok := by
  have hfst : (as.zip ws).map Prod.fst = as := map_fst_zip (Nat.le_of_eq hlen.symm)
  have hsnd : (as.zip ws).map Prod.snd = ws := map_snd_zip (Nat.le_of_eq hlen)
  calc
    widths as = ((as.zip ws).map Prod.fst).map width := by rw [widths_eq_map, hfst]
    _ = (as.zip ws).map (fun p => .ok p.2) := by
      rw [map_map]
      exact map_congr_left h
    _ = ((as.zip ws).map Prod.snd).map .ok := by rw [map_map]; rfl
    _ = ws.map .ok := by rw [hsnd]

theorem HasWidth.width_eq (h : HasWidth Γ e w) : e.width = .ok w ∧ Γ.width w := by
  induction h with
  | num hw | nondet _ hw | var _ hw | mem _ hw | special _ _ _ hw => exact ⟨rfl, hw⟩
  | @regroup o as w ho _ hlen _ _ ih =>
    obtain ⟨a, ha⟩ := exists_mem_of_length_pos (l := as) (by omega)
    have hne : as ≠ [] := ne_nil_of_mem ha
    refine ⟨?_, (ih a ha).2⟩
    rw [width]
    exact operationWidth_of_forall ho (Γ.width_pos (ih a ha).2) hne fun a ha => (ih a ha).1
  | not _ _ ih | neg _ _ _ ih =>
    refine ⟨?_, ih.2⟩
    rw [width, widths, ih.1]
    rfl
  | xor _ _ _ iha ihb =>
    refine ⟨?_, iha.2⟩
    rw [width, widths, widths, widths, iha.1, ihb.1]
    change commonWidth [.ok _, .ok _] = _
    exact commonWidth_of_forall (Γ.width_pos iha.2) (by simp) (by simp)
  | @compare o _ _ _ ho _ _ _ _ =>
    refine ⟨?_, Γ.width_one⟩
    cases o <;> first | rfl | cases ho
  | @arith o _ _ w w' u _ ho _ _ hu _ _ iha ihb =>
    refine ⟨?_, hu⟩
    rw [width, widths, widths, widths, iha.1, ihb.1]
    cases o with
    | mul =>
      obtain ⟨rfl, rfl⟩ := ho
      have hpos := Γ.width_pos iha.2
      have hlt := Γ.width_lt hu
      change (commonWidth [.ok w', .ok w'] >>= fun v => _) = _
      rw [commonWidth_of_forall hpos (by simp) (by simp)]
      have hknown : ¬(w' == unknownWidth) := by
        rw [beq_iff_eq, unknownWidth]
        omega
      change Except.ok (if w' == unknownWidth then unknownWidth else wrap32 (w' * 2)) = _
      rw [if_neg hknown, wrap32_of_lt (by omega) (by omega), Int.mul_comm]
    | div | mod =>
      obtain ⟨rfl, rfl⟩ := ho
      rfl
    | shl | shr | sar =>
      obtain rfl := ho
      rfl
    | _ => cases ho
  | functional _ _ hu _ hwidth _ ih =>
    refine ⟨?_, hwidth⟩
    rw [width, widths, widths, widths, widths, ih.1]
    exact hu
  | cast _ hn _ ih =>
    refine ⟨?_, ih.2⟩
    rw [← hn]
    rfl
  | unknown _ _ hlen hw _ hwidth _ ih =>
    refine ⟨?_, hwidth⟩
    rw [width, widths_of_zip hlen fun p hp => (ih p hp).1]
    exact hw
  | bits _ hfirst hle hu hlt hwidth _ _ =>
    refine ⟨?_, hwidth⟩
    rw [width, wrap32_of_lt (by omega) (by omega), hu]
  | cond _ _ _ _ _ iht _ => exact iht

theorem HasWidth.widthOf_eq (h : HasWidth Γ e w) : e.widthOf = w := by
  rw [widthOf, h.width_eq.1]

theorem HasWidth.unique {w' : Int} (h : HasWidth Γ e w) (h' : HasWidth Γ e w') : w = w' :=
  h.widthOf_eq.symm.trans h'.widthOf_eq

theorem HasWidth.width_pos (h : HasWidth Γ e w) : 0 < w := Γ.width_pos h.width_eq.2

theorem value?_number (v : Int64) (w : Int) : (number v w).value? = some (settle w v) := by
  rw [number_eq, value?]

theorem fits_apply (σ : Machine) (ho : o.isFunctional = false) (w : Int) (ws : List Int)
    (vs : List Int64) : Fits w (σ.apply o w ws vs) := by
  unfold Machine.apply
  split
  iterate 6 exact fits_wrap _ _
  iterate 2 cases ho
  split <;> exact fits_wrap _ _

theorem extend_eq_number (signed : Bool) (first last : Int) (v : Int64) (w : Int) :
    ∃ v', extend signed first last v w = number v' (max (wrap32 (last + 1)) w) := by
  rw [Int.max_comm]
  unfold extend
  split
  · split <;> exact ⟨_, rfl⟩
  · exact ⟨_, rfl⟩

theorem fits_operation (σ : Machine) (h : HasWidth Γ (.op o as) w) : Fits w (value σ (.op o as)) := by
  have hpos := h.width_pos
  rw [value, h.widthOf_eq]
  cases hfunctional : o.isFunctional with
  | false => exact fits_apply σ hfunctional _ _ _
  | true =>
    cases h with
    | @functional _ f l a wf wl u _ _ _ hu _ _ ha =>
      have hextend (signed : Bool) (v : Int64) (hu' : max (wrap32 (low32 l + 1)) u = w) :
          Fits w ((extend signed (low32 f) (low32 l) v u).value?.getD 0) := by
        obtain ⟨v', hv'⟩ := extend_eq_number signed (low32 f) (low32 l) v u
        rw [hv', value?_number, hu']
        exact fits_settle hpos v'
      rw [values, values, values, values, map, map, map, ha.widthOf_eq]
      cases o with
      | signExtend | zeroFill => exact hextend _ _ (Except.ok.inj hu)
      | floatResize => exact fits_wrap _ _
      | _ => cases hfunctional
    | regroup ho | compare ho | arith _ ho | unknown _ ho => cases o <;> cases hfunctional <;> cases ho
    | not | neg | xor | cast => cases hfunctional

theorem fits_value (σ : Machine) {e : Expr} {w : Int} (h : HasWidth Γ e w) : Fits w (e.value σ) := by
  match e, h with
  | .op .., h => exact fits_operation σ h
  | .num .., .num _ hv => exact hv
  | .var _, .var .. | .nondet _, .nondet .. | .special .., .special .. | .mem .., .mem .. =>
    rw [value]
    exact fits_wrap _ _
  | .bits .., .bits _ hfirst hle hu hlt hwidth hx =>
    have hpos := Γ.width_pos hwidth
    simp only [value, extract, value?_number, Option.getD_some]
    rw [wrap32_of_lt (by omega) (by omega), ← hu]
    exact fits_settle hpos _
  | .cond .., .cond _ _ ht hf =>
    rw [value]
    split
    · exact fits_value σ hf
    · exact fits_value σ ht

end Expr

end FlowRecovery
