import FlowRecovery.Domain.State
import FlowRecovery.Proofs.Domain.Lattice
import FlowRecovery.Proofs.Expr.Concrete

/-!
# Bounded sets

Two places where bounded sets fall short of what they should stand for. A product of numbers has
twice their width, but the product of two sets has the width of its factors
(`MachineState.eval_mul_misses_iff`). What is read at several addresses is the union of the sets
found there (`KSet.union`), in which places about which nothing is known do not count, and which may
exceed its bound (`KSet.readStore_sound_iff`).
-/

namespace FlowRecovery

open AbstractValue Word List

variable {k w : Int} {x y : Int64}

theorem Expr.evaluate_mul (hw : w = 8 ∨ w = 16 ∨ w = 32) (hx : Fits w x) (hy : Fits w y) :
    (op .mul [.num x w, .num y w]).evaluate .empty = .ok (.num (wrap (2 * w) (x * y)) (2 * w)) := by
  have hnum {v : Int64} (hv : Fits w v) : Standard (Context.empty.words fun _ => default) (.num v w) w :=
    .num ⟨by omega, by omega⟩ hv
  have hstandard : Standard (Context.empty.words fun _ => default) (.op .mul [.num x w, .num y w]) (2 * w) :=
    .mul trivial (.inr (by rcases hw with rfl | rfl | rfl <;> rfl)) ⟨by omega, by omega⟩ (hnum hx) (hnum hy)
  have hextend {v : Int64} (hv : Fits w v) :
      (BitVec.ofInt w.toNat v.toInt).signExtend (2 * w).toNat = low (2 * w).toNat v := by
    rw [ofInt_toInt (by omega), ← low_ofBits_eq_signExtend (by omega)]
    exact congrArg (low _) hv
  rw [evaluate_of_standard hstandard, wrap, low_mul (by omega), ← hextend hx, ← hextend hy]
  rfl

namespace KSet

def number (k w : Int) (v : Int64) : KSet := single k ⟨.global, .known ⟨v, w⟩⟩

theorem times_numbers (hw : 1 < w) (hle : w ≤ 128) :
    times (number k w y) (number k w x) = .ok (if k < 1 then ⟨k, none⟩ else number k w (wrap w (y * x))) := by
  have hproduct : Based.times ⟨.global, .known ⟨y, w⟩⟩ ⟨.global, .known ⟨x, w⟩⟩ =
      .ok ⟨.global, .known ⟨wrap w (y * x), w⟩⟩ := by
    change (do return (⟨.global, ← Constant.ofNum (Num.of (y * x) (max w w))⟩ : Based)) = _
    rw [max_self, Num.of_eq_wrap hw, Constant.ofNum_eq (by dsimp; omega) (by dsimp; omega)]
    rfl
  change (Based.times _ _ >>= fun a => Except.ok ((⟨max k k, some []⟩ : KSet).add a)) >>= Except.ok = _
  rw [hproduct, max_self]
  rfl

end KSet

namespace MachineState

theorem eval_mul (hw : w = 8 ∨ w = 16 ∨ w = 32) (s : Surroundings) (m : MachineState KSet) :
    m.eval { s with factory := KSet.factory k } (.op .mul [.num x w, .num y w]) =
      KSet.times (KSet.number k w y) (KSet.number k w x) := by
  have hsingle (v : Int64) : (KSet.factory k).single ⟨v, w⟩ = .ok (KSet.number k w v) := by
    rcases hw with rfl | rfl | rfl <;> rfl
  have hwidth : (Expr.op .mul [.num x w, .num y w]).width = .ok (2 * w) := by
    rcases hw with rfl | rfl | rfl <;> rfl
  simp only [eval, evalAll, evalEach, hsingle, hwidth]
  change (((KSet.times (KSet.number k w y) (KSet.number k w x) >>= Except.ok) >>= fun a => Except.ok [a]) >>= Except.ok) >>=
    joinAll = _
  cases KSet.times (KSet.number k w y) (KSet.number k w x) <;> rfl

/-- The product of two numbers has twice their width, but as a set it is cut to their width. -/
theorem eval_mul_misses_iff (hw : w = 8 ∨ w = 16 ∨ w = 32) (hx : Fits w x) (hy : Fits w y) (k : Int) (s : Surroundings)
    (m : MachineState KSet) :
    ∃ r n, m.eval { s with factory := KSet.factory k } (.op .mul [.num x w, .num y w]) = .ok r ∧
      (Expr.op .mul [.num x w, .num y w]).evaluate .empty = .ok (.num n (2 * w)) ∧
      (r.concretize.Mem ⟨n, 2 * w⟩ ↔ k < 1) ∧ (1 ≤ k → r = .single k ⟨.global, .known ⟨wrap w n, w⟩⟩) := by
  refine ⟨_, _, (eval_mul hw s m).trans (KSet.times_numbers (by omega) (by omega)), Expr.evaluate_mul hw hx hy, ?_, ?_⟩
  · by_cases hk : k < 1
    · exact iff_of_true (by rw [if_pos hk]; trivial) hk
    · refine iff_of_false (fun hmem => ?_) hk
      rw [if_neg hk] at hmem
      have hwidth := congrArg Num.width (mem_singleton.mp hmem)
      dsimp at hwidth
      omega
  · intro hk
    have hcut : wrap w (wrap (2 * w) (x * y)) = wrap w (y * x) := by
      refine congrArg ofBits ?_
      rw [wrap, low_ofBits_eq_signExtend (by omega), BitVec.signExtend_eq_setWidth_of_le _ (by omega), low,
        BitVec.setWidth_setWidth_of_le _ (by omega), Int64.mul_comm]
      rfl
    rw [if_neg (by omega), hcut]
    rfl

/-- A hundred times a hundred does not fit into a byte. -/
theorem eval_mul_of_hundreds :
    ∃ r n, ({} : MachineState KSet).eval { registers := {}, factory := KSet.factory 3 }
        (.op .mul [.num 100 8, .num 100 8]) = .ok r ∧
      (Expr.op .mul [.num 100 8, .num 100 8]).evaluate .empty = .ok (.num n 16) ∧ ¬r.concretize.Mem ⟨n, 16⟩ := by
  obtain ⟨r, n, hr, hn, hmem, -⟩ := eval_mul_misses_iff (w := 8) (.inl rfl) (x := 100) (y := 100) (by decide) (by decide)
    3 { registers := {} } {}
  exact ⟨r, n, hr, hn, fun h => absurd (hmem.mp h) (by decide)⟩

theorem eval_mul_cut : ({} : MachineState KSet).eval { registers := {}, factory := KSet.factory 3 }
      (.op .mul [.num 100 8, .num 100 8]) = .ok (.single 3 ⟨.global, .known ⟨16, 8⟩⟩) ∧
    (Expr.op .mul [.num 100 8, .num 100 8]).evaluate .empty = .ok (.num 10000 16) := ⟨rfl, rfl⟩

end MachineState

/-! ### Reading -/

theorem Based.equals_refl (a : Based) : a.equals a := by
  obtain ⟨r, _ | _⟩ := a <;> simp [equals, Constant.equals, Constant.representative]

namespace AbstractValue

variable {A : Type} [AbstractValue A] {as bs : List A} {a b : A}

theorem insert_cases (as : List A) (b : A) : (insert as b = as ∧ ∃ a ∈ as, equals b a) ∨
    (insert as b = as ++ [b] ∧ ∀ a ∈ as, ¬equals b a) := by
  by_cases h : ∃ a ∈ as, equals b a
  · exact .inl ⟨if_pos (any_eq_true.mpr h), h⟩
  · exact .inr ⟨if_neg fun hany => h (any_eq_true.mp hany), fun a ha he => h ⟨a, ha, he⟩⟩

/-- The second list has the values of the first one and of `bs`, each of them once. -/
structure Inserted (as bs cs : List A) : Prop where
  subset : as ⊆ cs
  origin : ∀ c ∈ cs, c ∈ as ∨ c ∈ bs
  covers : ∀ b ∈ bs, ∃ c ∈ cs, equals b c = true
  nodup : as.Nodup → cs.Nodup

theorem inserted_insertAll (hrefl : ∀ a : A, equals a a) (as bs : List A) : Inserted as bs (insertAll as bs) := by
  induction bs generalizing as with
  | nil => exact ⟨fun _ h => h, fun _ h => .inl h, by simp, id⟩
  | cons b bs ih =>
    obtain ⟨hsubset, horigin, hcovers, hnodup⟩ := ih (insert as b)
    change Inserted as (b :: bs) (insertAll (insert as b) bs)
    rcases insert_cases as b with ⟨heq, a, ha, he⟩ | ⟨heq, hne⟩
    · rw [heq] at hsubset horigin hcovers hnodup ⊢
      exact ⟨hsubset, fun c hc => (horigin c hc).imp_right (mem_cons_of_mem _),
        forall_mem_cons.mpr ⟨⟨a, hsubset ha, he⟩, hcovers⟩, hnodup⟩
    · rw [heq] at hsubset horigin hcovers hnodup ⊢
      refine ⟨fun a ha => hsubset (mem_append_left _ ha), fun c hc => ?_,
        forall_mem_cons.mpr ⟨⟨b, hsubset (by simp), hrefl b⟩, hcovers⟩, fun h => hnodup ?_⟩
      · rcases horigin c hc with hc | hc <;> grind
      · exact nodup_append.mpr ⟨h, by simp, by grind⟩

end AbstractValue

namespace KSet

/-- The members of a set that is not full. -/
def listed (f : KSet) : List Based := f.members.getD []

/-- The members of some sets are listed once, under the greatest bound of the sets that have
members. -/
structure Gathers (fs : List KSet) (k : Int) (as : List Based) : Prop where
  origin : ∀ a ∈ as, ∃ f ∈ fs, a ∈ f.listed
  covers : ∀ f ∈ fs, ∀ b ∈ f.listed, ∃ a ∈ as, b.equals a = true
  nodup : as.Nodup
  nonneg : 0 ≤ k
  bound_le : ∀ f ∈ fs, f.listed ≠ [] → f.bound ≤ k
  bound_mem : k = 0 ∨ ∃ f ∈ fs, f.bound = k

def gather (q : Int × List Based) (f : KSet) : Int × List Based :=
  (if f.listed = [] then q.1 else max q.1 f.bound, insertAll q.2 f.listed)

variable {fs : List KSet} {q : Int × List Based}

theorem Gathers.step (h : Gathers fs q.1 q.2) (f : KSet) : Gathers (fs ++ [f]) (gather q f).1 (gather q f).2 := by
  obtain ⟨hsubset, horigin, hcovers, hnodup⟩ := inserted_insertAll Based.equals_refl q.2 f.listed
  have hle : q.1 ≤ (gather q f).1 := by
    rw [gather]
    split <;> omega
  refine ⟨fun a ha => ?_, fun g hg b hb => ?_, hnodup h.nodup, h.nonneg.trans hle, fun g hg hne => ?_, ?_⟩
  · rcases horigin a ha with ha | ha
    · obtain ⟨g, hg, ha⟩ := h.origin a ha
      exact ⟨g, mem_append_left _ hg, ha⟩
    · exact ⟨f, by simp, ha⟩
  · rcases mem_append.mp hg with hg | hg
    · obtain ⟨a, ha, he⟩ := h.covers g hg b hb
      exact ⟨a, hsubset ha, he⟩
    · exact hcovers b (mem_singleton.mp hg ▸ hb)
  · rcases mem_append.mp hg with hg | hg
    · exact (h.bound_le g hg hne).trans hle
    · obtain rfl := mem_singleton.mp hg
      rw [gather, if_neg hne]
      exact le_max_right _ _
  · have hmem := h.bound_mem
    simp only [gather, mem_append, mem_singleton]
    grind

theorem Gathers.run (h : Gathers fs q.1 q.2) (gs : List KSet) :
    Gathers (fs ++ gs) (gs.foldl gather q).1 (gs.foldl gather q).2 := by
  induction gs generalizing fs q with
  | nil => simpa using h
  | cons g gs ih => simpa using ih (h.step g)

def union (fs : List KSet) : KSet :=
  let q := fs.foldl gather (0, [])
  ⟨q.1, some q.2⟩

theorem gathers_union (fs : List KSet) : Gathers fs (union fs).bound (union fs).listed := by
  have hnone : Gathers [] 0 [] := ⟨by simp, by simp, .nil, le_rfl, by simp, .inl rfl⟩
  exact Gathers.run (q := (0, [])) hnone fs

variable {s : Setting KSet} {m : Memory KSet} {width k : Int} {ps : List Based} {found : Based → KSet}

theorem readStore_eq_union (hfound : ∀ e ∈ ps, (do m.read s e.region (← e.number).value width) = .ok (found e)) :
    readStore s m width ⟨k, some ps⟩ = .ok (union (ps.map found)) := by
  unfold readStore union
  dsimp only
  generalize ((0 : Int), ([] : List Based)) = q
  induction ps generalizing q with
  | nil => rfl
  | cons e ps ih =>
    obtain ⟨he, hfound⟩ := forall_mem_cons.mp hfound
    obtain ⟨n, hn, hread⟩ := of_bind_eq_ok he
    rw [foldlM_cons, map_cons, foldl_cons, ← ih hfound]
    generalize found e = f at hread ⊢
    obtain ⟨bound, members⟩ := f
    simp only [hn, hread, ok_bind]
    rcases members with _ | _ | _ <;> rfl

theorem lessOrEqual_iff {f r : KSet} (hr : r.isTop = false) :
    f.lessOrEqual r ↔ f.isTop = false ∧ ∀ b ∈ f.listed, ∃ a ∈ r.listed, b.equals a := by
  obtain ⟨l, _ | as⟩ := r
  · cases hr
  obtain ⟨k, _ | bs⟩ := f
  · cases as <;> simp [lessOrEqual, isTop]
  · have hcontains : lessOrEqual ⟨k, some bs⟩ ⟨l, some as⟩ = containsAll as bs := by
      cases as <;> cases bs <;> simp [lessOrEqual, containsAll]
    rw [hcontains]
    simp [containsAll, isTop, listed, AbstractValue.equals]

/-- What is read at some pointers is never the full set. It has the values of all sets that are
read, but for full ones, and it stays within its bound if one of them has all their members. -/
theorem readStore_sound_iff (k : Int)
    (hfound : ∀ e ∈ ps, (do m.read s e.region (← e.number).value width) = .ok (found e)) :
    ∃ r, readStore s m width ⟨k, some ps⟩ = .ok r ∧ r.isTop = false ∧ Gathers (ps.map found) r.bound r.listed ∧
      ((∀ e ∈ ps, (found e).lessOrEqual r = true) ↔ ∀ e ∈ ps, (found e).isTop = false) ∧
      ∀ e ∈ ps, (∀ e' ∈ ps, (found e').listed ⊆ (found e).listed) → ((found e).listed.length : Int) ≤ (found e).bound →
        (r.listed.length : Int) ≤ r.bound := by
  have hgathers := gathers_union (ps.map found)
  refine ⟨_, readStore_eq_union hfound, rfl, hgathers, ⟨fun h e he => ?_, fun h e he => ?_⟩, fun e he hsub hlen => ?_⟩
  · exact ((lessOrEqual_iff rfl).mp (h e he)).1
  · exact (lessOrEqual_iff rfl).mpr ⟨h e he, hgathers.covers _ (mem_map_of_mem he)⟩
  · have hsubset : (union (ps.map found)).listed ⊆ (found e).listed := by
      intro a ha
      obtain ⟨f, hf, ha⟩ := hgathers.origin a ha
      obtain ⟨e', he', rfl⟩ := mem_map.mp hf
      exact hsub e' he' ha
    have hcount := (hgathers.nodup.subperm hsubset).length_le
    by_cases hne : (found e).listed = []
    · have hnonneg := hgathers.nonneg
      rw [hne, length_nil] at hcount
      omega
    · have hbound := hgathers.bound_le _ (mem_map_of_mem he) hne
      omega

def plain : Setting KSet := { registers := {}, factory := factory 2 }

def numbers (vs : List Int64) : KSet := ⟨2, some (vs.map fun v => ⟨.global, .known ⟨v, 32⟩⟩)⟩

def pointers (os : List Int64) : KSet := ⟨3, some (os.map fun o => ⟨.stack, .known ⟨o, 32⟩⟩)⟩

/-- Memory with two sets on the stack, and nothing known above them. -/
def stacked : Memory KSet :=
  ((Memory.write plain .stack 0 32 (numbers [1, 2]) *> Memory.write plain .stack 4 32 (numbers [3])).run.run {}).2

/-- No place is unknown, so nothing is left out. -/
theorem readStore_two_places : ∃ r, readStore plain stacked 32 (pointers [0, 4]) = .ok r ∧
    (numbers [1, 2]).lessOrEqual r = true ∧ (numbers [3]).lessOrEqual r = true := by
  let found (e : Based) : KSet := if e.offset = .known ⟨0, 32⟩ then numbers [1, 2] else numbers [3]
  have hfound : ∀ e ∈ [⟨.stack, .known ⟨0, 32⟩⟩, ⟨.stack, .known ⟨4, 32⟩⟩],
      (do stacked.read plain e.region (← Based.number e).value 32) = .ok (found e) := by
    decide +kernel
  obtain ⟨r, hr, -, -, hsound, -⟩ := readStore_sound_iff 3 hfound
  obtain ⟨hfirst, hsecond⟩ := forall_mem_cons.mp (hsound.mpr (by decide))
  exact ⟨r, hr, hfirst, hsecond _ (mem_singleton_self _)⟩

/-- Two sets with three members together are read as a set of more members than its bound. A set
that is read together with an unknown place is read as if that place was not there. -/
theorem readStore_unbounded :
    readStore plain stacked 32 (pointers [0, 4]) = .ok (numbers [1, 2, 3]) ∧
      stacked.read plain .stack 8 32 = .ok top ∧
      readStore plain stacked 32 (pointers [0, 8]) = .ok (numbers [1, 2]) := by
  decide +kernel

end KSet

end FlowRecovery
