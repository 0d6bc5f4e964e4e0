import Mathlib
import FlowRecovery.Container.FifoSet

/-!
# Sets that remember the order of insertion, as lists

A `FifoSet` is a list without duplicates, whichever store holds it. A numbered store keeps two
tables that are inverse to each other (`FifoStore.Valid`), so its elements are listed by their
numbers, in the order in which they came. What belongs to a set after an operation is read off its
list.

* `FifoSet.toList_insert`, `FifoSet.toList_erase`: what an insertion and a removal do to the list;
* `FifoSet.contains_insert`, `FifoSet.contains_erase`: what belongs to the set after them;
* `FifoSet.pop?_eq_none`, `FifoSet.pop?_eq_some`: `pop?` takes out an element, unless there is none;
* `FifoSet.run_calls`: a set and a list that get the same calls give the same answers.
-/

namespace FlowRecovery

open Std List TreeMap FifoStore

variable {α : Type} [BEq α]

/-- What has an element has every equal one. -/
theorem or_of_contains {f : α → Bool} (hf : ∀ {a b : α}, (a == b) → f a = f b) {a : α} (ha : f a)
    (b : α) : (a == b || f b) = f b := by
  by_cases hab : (a == b)
  · rw [← hf hab, ha, Bool.or_true]
  · rw [Bool.eq_false_iff.mpr hab, Bool.false_or]

theorem any_filter_ne [EquivBEq α] (as : List α) (a b : α) :
    (as.filter (fun c => !(c == a))).any (· == b) = (as.any (· == b) && !(a == b)) := by
  rw [any_filter, and_any_distrib_right]
  refine any_congr rfl fun c => ?_
  by_cases hcb : (c == b)
  · simp [hcb, BEq.congr_left hcb, BEq.comm]
  · simp [hcb]

variable [Hashable α]

namespace FifoStore

/-- No element is held twice, and the numbers of elements lead back to them. -/
def Valid : FifoStore α → Prop
  | listed as => as.Pairwise (fun a b => (a == b) = false)
  | numbered as n next =>
    (∀ (a : α) (i : Nat), n[a]? = some i → ∃ b, as[i]? = some b ∧ (b == a) = true) ∧
    (∀ (i : Nat) (b : α), as[i]? = some b → n[b]? = some i ∧ i < next)

theorem size_eq_length (s : FifoStore α) : s.size = s.toList.length := by
  cases s with
  | listed as => rfl
  | numbered as n next => rw [size, toList, length_map, length_toList]

variable {as : TreeMap Nat α} {n : HashMap α Nat} {next : Nat} {s : FifoStore α}

theorem toList_push (h : s.Valid) (a : α) : (s.push a).toList = s.toList ++ [a] := by
  cases s with
  | listed as => rfl
  | numbered as n next =>
    have hlt {p : Nat × α} (hp : p ∈ as.toList) : p.1 < next :=
      (h.2 p.1 p.2 (mem_toList_iff_getElem?_eq_some.mp hp)).2
    -- the new number is the greatest, and numbers are listed in their order
    have hlist : (as.insert next a).toList = as.toList ++ [(next, a)] := by
      have hperm := toList_insert_perm (t := as) (k := next) (v := a)
      rw [filter_eq_self.mpr fun p hp => by simpa using (hlt hp).ne'] at hperm
      refine (hperm.trans (perm_append_singleton _ _).symm).eq_of_pairwise (fun p q _ _ hpq hqp => ?_)
        ordered_keys_toList (pairwise_append.mpr ⟨ordered_keys_toList, pairwise_singleton _ _, ?_⟩)
      · rw [Nat.compare_eq_lt] at hpq hqp
        omega
      · intro p hp q hq
        rw [mem_singleton.mp hq, Nat.compare_eq_lt]
        exact hlt hp
    rw [push, toList, hlist, map_append]
    rfl

variable [EquivBEq α] [LawfulHashable α]

/-- An element and its number belong together. -/
theorem number_iff (h : (numbered as n next).Valid) {p : Nat × α} (hp : p ∈ as.toList) (a : α) :
    n[a]? = some p.1 ↔ (p.2 == a) := by
  have hb := mem_toList_iff_getElem?_eq_some.mp hp
  constructor
  · intro hi
    obtain ⟨c, hc, hca⟩ := h.1 a p.1 hi
    obtain rfl : c = p.2 := by simpa [hc] using hb
    exact hca
  · intro hba
    rw [← HashMap.getElem?_congr hba]
    exact (h.2 p.1 p.2 hb).1

theorem pairwise_toList (h : s.Valid) : s.toList.Pairwise (fun a b => (a == b) = false) := by
  cases s with
  | listed as => exact h
  | numbered as n next =>
    refine pairwise_map.mpr (ordered_keys_toList.imp_of_mem fun {p q} hp hq hlt => ?_)
    refine Bool.eq_false_iff.mpr fun heq => ?_
    have hnumber := (number_iff h hp q.2).mpr heq
    rw [(number_iff h hq q.2).mpr (BEq.refl _)] at hnumber
    simp [Option.some.inj hnumber] at hlt

theorem contains_eq_any (h : s.Valid) (a : α) : s.contains a = s.toList.any (· == a) := by
  cases s with
  | listed as => rfl
  | numbered as n next =>
    rw [contains, HashMap.contains_eq_isSome_getElem?, Bool.eq_iff_iff, Option.isSome_iff_exists, any_eq_true]
    constructor
    · rintro ⟨i, hi⟩
      obtain ⟨b, hb, hba⟩ := h.1 a i hi
      exact ⟨b, mem_map.mpr ⟨(i, b), mem_toList_iff_getElem?_eq_some.mpr hb, rfl⟩, hba⟩
    · rintro ⟨b, hb, hba⟩
      obtain ⟨p, hp, rfl⟩ := mem_map.mp hb
      exact ⟨p.1, (number_iff h hp a).mpr hba⟩

theorem contains_congr (s : FifoStore α) {a b : α} (h : (a == b)) : s.contains a = s.contains b := by
  cases s with
  | listed as =>
    refine any_congr rfl fun c => ?_
    exact BEq.congr_right h
  | numbered as n next => exact HashMap.contains_congr h

theorem valid_push (h : s.Valid) {a : α} (hnew : s.contains a = false) : (s.push a).Valid := by
  cases s with
  | listed as =>
    refine pairwise_append.mpr ⟨h, pairwise_singleton _ _, ?_⟩
    intro b hb c hc
    rw [mem_singleton.mp hc]
    exact Bool.eq_false_iff.mpr fun heq => any_eq_false.mp hnew b hb heq
  | numbered as n next =>
    obtain ⟨hback, hforth⟩ := h
    refine ⟨fun b i hb => ?_, fun i b hi => ?_⟩
    · rw [HashMap.getElem?_insert] at hb
      split at hb
      -- the number of the new element leads back to it
      · next hab =>
        obtain rfl : next = i := by simpa using hb
        exact ⟨a, getElem?_insert_self, hab⟩
      · obtain ⟨c, hc, hcb⟩ := hback b i hb
        -- older numbers are below the next one and keep their elements
        have hlt := (hforth i c hc).2
        refine ⟨c, ?_, hcb⟩
        rw [TreeMap.getElem?_insert, if_neg (by simp; omega)]
        exact hc
    · rw [TreeMap.getElem?_insert] at hi
      split at hi
      · next hni =>
        obtain rfl : a = b := by simpa using hi
        obtain rfl : next = i := by simpa using hni
        exact ⟨HashMap.getElem?_insert_self, Nat.lt_succ_self _⟩
      · obtain ⟨hb, hlt⟩ := hforth i b hi
        refine ⟨?_, Nat.lt_succ_of_lt hlt⟩
        -- the new element takes no number away from an older one
        have hne : ¬(a == b) := by
          intro heq
          rw [← HashMap.getElem?_congr heq, HashMap.getElem?_eq_none_of_contains_eq_false hnew] at hb
          cases hb
        rw [HashMap.getElem?_insert, if_neg hne]
        exact hb

theorem toList_erase (h : s.Valid) (a : α) : (s.erase a).toList = s.toList.filter (fun b => !(b == a)) := by
  cases s with
  | listed as =>
    change as.eraseP (· == a) = as.filter _
    induction as with
    | nil => rfl
    | cons b as ih =>
      obtain ⟨hb, has⟩ := pairwise_cons.mp h
      by_cases hba : (b == a)
      · -- only the first occurrence is taken out, and there is no other
        rw [eraseP_cons_of_pos (p := (· == a)) hba, filter_cons_of_neg (by simp [hba])]
        refine (filter_eq_self.mpr fun c hc => ?_).symm
        rw [← BEq.congr_right hba, BEq.comm, hb c hc]
        rfl
      · rw [eraseP_cons_of_neg (p := (· == a)) hba, filter_cons_of_pos (by simpa using hba), ih has]
  | numbered as n next =>
    have hfilter {q : Nat × α → Bool} (hq : ∀ p ∈ as.toList, q p ↔ n[a]? ≠ some p.1) :
        (as.toList.filter q).map Prod.snd = (numbered as n next).toList.filter (fun b => !(b == a)) := by
      rw [toList, filter_map]
      refine congrArg _ (filter_congr fun p hp => Bool.eq_iff_iff.mpr ?_)
      rw [hq p hp, ne_eq, number_iff h hp a]
      simp
    simp only [erase]
    split
    · next hnone =>
      rw [← hfilter (q := fun _ => true) (by simp [hnone]), filter_true]
      rfl
    · next i hi =>
      have hlist : (as.erase i).toList = as.toList.filter (fun p => !(i == p.1)) := by
        rw [← toList_filter (f := fun j _ => !(i == j))]
        refine TreeMap.Equiv.toList_eq (.of_forall_constGet?_eq fun j => ?_)
        rw [getElem?_erase, getElem?_filter']
        by_cases hij : i = j <;> cases as[j]? <;> simp [Option.filter, hij]
      rw [toList, hlist, hfilter (by simp [hi])]

theorem valid_erase (h : s.Valid) (a : α) : (s.erase a).Valid := by
  cases s with
  | listed as => exact List.Pairwise.eraseP _ h
  | numbered as n next =>
    simp only [erase]
    split
    · exact h
    · next i hi =>
      have hnumber {j : Nat} {b : α} (hb : as[j]? = some b) : i = j ↔ (b == a) := by
        rw [← number_iff h (p := (j, b)) (mem_toList_iff_getElem?_eq_some.mpr hb) a, hi, Option.some_inj]
      refine ⟨fun b j hb => ?_, fun j b hj => ?_⟩
      · rw [HashMap.getElem?_erase] at hb
        split at hb
        · cases hb
        · next hab =>
          obtain ⟨c, hc, hcb⟩ := h.1 b j hb
          refine ⟨c, ?_, hcb⟩
          -- two elements of one number would be equal
          have hij : i ≠ j := fun hij => hab (BEq.trans (BEq.symm ((hnumber hc).mp hij)) hcb)
          rw [getElem?_erase, if_neg (by simpa using hij)]
          exact hc
      · rw [getElem?_erase] at hj
        split at hj
        · cases hj
        · next hij =>
          obtain ⟨hb, hlt⟩ := h.2 j b hj
          refine ⟨?_, hlt⟩
          -- an element equal to the erased one would have the erased number
          have hab : ¬(a == b) := fun hab => hij (by simp [(hnumber hj).mpr (BEq.symm hab)])
          rw [HashMap.getElem?_erase, if_neg hab]
          exact hb

theorem foldl_push {as : List α} (h : s.Valid) (has : (s.toList ++ as).Pairwise (fun a b => (a == b) = false)) :
    (as.foldl push s).Valid ∧ (as.foldl push s).toList = s.toList ++ as := by
  induction as generalizing s with
  | nil => exact ⟨h, (append_nil _).symm⟩
  | cons a as ih =>
    have hnew : s.contains a = false := by
      rw [contains_eq_any h]
      refine any_eq_false.mpr fun b hb hba => ?_
      simp [(pairwise_append.mp has).2.2 b hb a mem_cons_self] at hba
    rw [append_cons, ← toList_push h] at has ⊢
    exact ih (valid_push h hnew) has

end FifoStore

namespace FifoSet

def Valid (s : FifoSet α) : Prop :=
  s.store.Valid ∧ (s.capacity ≤ smallCapacity → ∃ as, s.store = .listed as)

theorem valid_empty : (({} : FifoSet α)).Valid := ⟨List.Pairwise.nil, fun _ => ⟨[], rfl⟩⟩

theorem size_eq_length (s : FifoSet α) : s.size = s.toList.length := FifoStore.size_eq_length s.store

variable [EquivBEq α] [LawfulHashable α] {s : FifoSet α}

section

variable (h : s.Valid)

include h

theorem contains_eq_any (a : α) : s.contains a = s.toList.any (· == a) := FifoStore.contains_eq_any h.1 a

theorem pairwise_toList : s.toList.Pairwise (fun a b => (a == b) = false) := FifoStore.pairwise_toList h.1

theorem valid_grown : s.grown.Valid ∧ s.grown.toList = s.toList := by
  unfold grown
  split
  · obtain ⟨hvalid, hlist⟩ := foldl_push (s := .numbered {} {} 0) ⟨by simp, by simp⟩ (pairwise_toList h)
    exact ⟨⟨hvalid, fun hle => absurd (show largeCapacity ≤ smallCapacity from hle) (by decide)⟩, hlist⟩
  · exact ⟨h, rfl⟩

theorem toList_insert (a : α) : (s.insert a).toList = if s.contains a then s.toList else s.toList ++ [a] := by
  unfold insert add
  split
  · rfl
  · obtain ⟨hgrown, hlist⟩ := valid_grown h
    exact (toList_push hgrown.1 a).trans (congrArg (· ++ [a]) hlist)

theorem valid_insert (a : α) : (s.insert a).Valid := by
  unfold insert add
  split
  · exact h
  · next hnew =>
    obtain ⟨hgrown, hlist⟩ := valid_grown h
    have hfresh : s.grown.contains a = false := by
      rw [contains_eq_any hgrown, hlist, ← contains_eq_any h]
      exact Bool.eq_false_iff.mpr hnew
    refine ⟨valid_push hgrown.1 hfresh, fun hle => ?_⟩
    obtain ⟨as, has⟩ := hgrown.2 hle
    exact ⟨as ++ [a], by simp only [has, push]⟩

theorem contains_insert (a b : α) : (s.insert a).contains b = (a == b || s.contains b) := by
  rw [contains_eq_any (valid_insert h a), toList_insert h]
  split
  · next hin =>
    rw [← contains_eq_any h]
    exact (or_of_contains (contains_congr s.store) hin b).symm
  · simp [contains_eq_any h, Bool.or_comm]

theorem valid_erase (a : α) : (s.erase a).Valid := by
  refine ⟨FifoStore.valid_erase h.1 a, fun hle => ?_⟩
  obtain ⟨as, has⟩ := h.2 hle
  exact ⟨as.eraseP (· == a), by simp only [erase, remove, has, FifoStore.erase]⟩

theorem toList_erase (a : α) : (s.erase a).toList = s.toList.filter (fun b => !(b == a)) :=
  FifoStore.toList_erase h.1 a

theorem contains_erase (a b : α) : (s.erase a).contains b = (s.contains b && !(a == b)) := by
  rw [contains_eq_any (valid_erase h a), toList_erase h, contains_eq_any h, any_filter_ne]

theorem contains_of_size_eq_zero (hsize : s.size = 0) (a : α) : s.contains a = false := by
  rw [size_eq_length, length_eq_zero_iff] at hsize
  rw [contains_eq_any h, hsize]
  rfl

theorem valid_clear : s.clear.Valid ∧ s.clear.toList = [] := by
  obtain ⟨capacity, store⟩ := s
  cases store with
  | listed as => exact ⟨⟨List.Pairwise.nil, fun _ => ⟨[], rfl⟩⟩, rfl⟩
  | numbered as n next => exact ⟨⟨⟨by simp, by simp⟩, fun hle => nomatch h.2 hle⟩, rfl⟩

end

omit [EquivBEq α] [LawfulHashable α] in
theorem pop?_eq_none (h : s.pop? = none) : s.size = 0 := by
  simp only [pop?, Option.map_eq_none_iff, head?_eq_none_iff] at h
  rw [size_eq_length, h]
  rfl

theorem pop?_eq_some (h : s.Valid) {a : α} {t : FifoSet α} (hpop : s.pop? = some (a, t)) :
    s.contains a ∧ t = s.erase a := by
  simp only [pop?, Option.map_eq_some_iff, Prod.mk.injEq] at hpop
  obtain ⟨b, hb, rfl, rfl⟩ := hpop
  rw [contains_eq_any h]
  exact ⟨any_eq_true.mpr ⟨b, mem_of_head? hb, BEq.refl b⟩, rfl⟩

/-! ### Runs of calls -/

/-- A call of a set. -/
inductive Call (α : Type) where
  | add (a : α)
  | remove (a : α)
  | clear
  | pick

/-- What a call answers: whether it changed anything, nothing, or the element that was picked, if
there was one. -/
inductive Reply (α : Type) where
  | changed (b : Bool)
  | silent
  | picked (a : Option α)
  deriving DecidableEq

def perform (s : FifoSet α) : Call α → FifoSet α × Reply α
  | .add a => (s.add a).map id .changed
  | .remove a => (s.remove a).map id .changed
  | .clear => (s.clear, .silent)
  | .pick =>
    match s.pop? with
    | none => (s, .picked none)
    | some (a, t) => (t, .picked (some a))

/-- The same call of a list. -/
def performOnList (as : List α) : Call α → List α × Reply α
  | .add a => if as.any (· == a) then (as, .changed false) else (as ++ [a], .changed true)
  | .remove a => (as.filter (fun b => !(b == a)), .changed (as.any (· == a)))
  | .clear => ([], .silent)
  | .pick => (as.tail, .picked as.head?)

/-- What calls leave and answer, one after the other. -/
def run {σ : Type} (step : σ → Call α → σ × Reply α) (s : σ) : List (Call α) → σ × List (Reply α)
  | [] => (s, [])
  | c :: cs =>
    let (t, r) := step s c
    let (u, rs) := run step t cs
    (u, r :: rs)

theorem perform_spec (h : s.Valid) (c : Call α) :
    (s.perform c).1.Valid ∧ performOnList s.toList c = ((s.perform c).1.toList, (s.perform c).2) := by
  cases c with
  | add a =>
    have hnew : (s.add a).2 = !s.contains a := by
      rw [add]
      cases s.contains a <;> rfl
    refine ⟨valid_insert h a, ?_⟩
    change _ = ((s.insert a).toList, Reply.changed (s.add a).2)
    rw [hnew, performOnList, toList_insert h, contains_eq_any h]
    cases s.toList.any (· == a) <;> rfl
  | remove a =>
    refine ⟨valid_erase h a, ?_⟩
    rw [performOnList, ← toList_erase h, ← contains_eq_any h]
    rfl
  | clear =>
    obtain ⟨hvalid, hnil⟩ := valid_clear h
    exact ⟨hvalid, by rw [perform, performOnList, hnil]⟩
  | pick =>
    have hdistinct := pairwise_toList h
    rw [perform, performOnList, pop?]
    cases hlist : s.toList with
    | nil => exact ⟨h, congrArg (·, _) hlist.symm⟩
    | cons a as =>
      rw [hlist, pairwise_cons] at hdistinct
      have hrest : (s.erase a).toList = as := by
        rw [toList_erase h, hlist, filter_cons_of_neg (by simp)]
        refine filter_eq_self.mpr fun b hb => ?_
        rw [BEq.comm, hdistinct.1 b hb]
        rfl
      exact ⟨valid_erase h a, congrArg (·, _) hrest.symm⟩

theorem run_perform (h : s.Valid) (cs : List (Call α)) :
    (run perform s cs).1.Valid ∧ run performOnList s.toList cs = ((run perform s cs).1.toList, (run perform s cs).2) := by
  induction cs generalizing s with
  | nil => exact ⟨h, rfl⟩
  | cons c cs ih =>
    obtain ⟨hvalid, hstep⟩ := perform_spec h c
    obtain ⟨hend, hrest⟩ := ih hvalid
    exact ⟨hend, by simp only [run, hstep, hrest]⟩

/-- **A set that remembers the order of insertion is a list without duplicates.** From any capacity,
a set and a list that get the same calls give the same answers, and in the end the set has the
elements of the list in their order. -/
theorem run_calls (n : Nat) (cs : List (Call α)) :
    let x := run perform (withCapacity n) cs
    let y := run performOnList [] cs
    x.2 = y.2 ∧ x.1.toList = y.1 ∧ x.1.size = y.1.length ∧ (∀ a, x.1.contains a = y.1.any (· == a)) ∧
      y.1.Pairwise (fun a b => (a == b) = false) := by
  intro x y
  obtain ⟨hempty, hnil⟩ : (withCapacity n : FifoSet α).Valid ∧ (withCapacity n : FifoSet α).toList = [] := by
    unfold withCapacity
    split
    · exact ⟨⟨List.Pairwise.nil, fun _ => ⟨[], rfl⟩⟩, rfl⟩
    · next hlarge => exact ⟨⟨⟨by simp, by simp⟩, fun hsmall => absurd hsmall hlarge⟩, rfl⟩
  obtain ⟨hvalid, hrun⟩ := run_perform hempty cs
  rw [hnil] at hrun
  have hy : y = (x.1.toList, x.2) := hrun
  rw [hy]
  exact ⟨rfl, rfl, size_eq_length _, contains_eq_any hvalid, pairwise_toList hvalid⟩

/-- The set outgrows its list with the last element that is added. -/
theorem run_calls_outgrown :
    let cs := (List.range 16).map .add ++ [.pick, .add 5, .add 16, .add 17, .remove 3]
    let x := run perform (withCapacity 15) cs
    x.1.capacity = largeCapacity ∧ x.1.toList = [1, 2] ++ List.range' 4 14 ∧
      x.2.drop 16 = [.picked (some 0), .changed false, .changed true, .changed true, .changed true] := by
  intro cs x
  obtain ⟨hanswers, hlist, -⟩ := run_calls 15 cs
  exact ⟨by decide +kernel, hlist.trans (by decide), (congrArg _ hanswers).trans (by decide)⟩

end FifoSet

end FlowRecovery
