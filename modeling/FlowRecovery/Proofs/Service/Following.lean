import FlowRecovery.Service.Follower
import Mathlib.Data.List.Induction

/-!
# Executions along routes

An execution comes to one instruction after the other. The routes that it is on are those that start
with the addresses it has come to (`Follower.run_along`).
-/

namespace FlowRecovery

open List

variable (rs : Routes) (as : List Int) (a : Int)

namespace Follower

/-- The execution after it has come to the addresses, one after the other. -/
def run (addresses : List Int) : Follower := addresses.foldl (fun f a => f.enter rs a) {}

/-- The numbers of the routes that start with the addresses, in increasing order. -/
def along (addresses : List Int) : List Nat :=
  (List.range rs.length).filter fun i => rs[i]?.any fun r => addresses.isPrefixOf r

variable {rs as a}

theorem mem_along {i : Nat} : i ∈ along rs as ↔ ∃ r, rs[i]? = some r ∧ as <+: r := by
  rw [along, mem_filter, mem_range, Option.any_eq_true]
  simp only [and_iff_right_iff_imp, isPrefixOf_iff_prefix]
  rintro ⟨r, hr, -⟩
  exact (List.getElem?_eq_some_iff.mp hr).1

theorem concat_prefix_iff {r : Route} : as ++ [a] <+: r ↔ as <+: r ∧ r[as.length]? = some a := by
  constructor
  · rintro ⟨s, rfl⟩
    simp
  · rintro ⟨⟨s, rfl⟩, h⟩
    cases s with
    | nil => simp at h
    | cons b s =>
      obtain rfl : b = a := by simpa using h
      exact ⟨s, by simp⟩

variable (rs as a)

theorem filter_along : (along rs as).filter (fun i => rs.at? i as.length == some a) = along rs (as ++ [a]) := by
  rw [along, along, filter_filter]
  refine filter_congr fun i _ => ?_
  rw [Routes.at?, Bool.eq_iff_iff]
  cases rs[i]? with
  | none => simp
  | some r => simp [concat_prefix_iff, and_comm]

theorem run_concat : run rs (as ++ [a]) = (run rs as).enter rs a := by
  rw [run, foldl_append]
  rfl

theorem advance_run : advance rs (run rs as).position = ⟨as.length, along rs as⟩ := by
  induction as using reverseRecOn with
  | nil =>
    rw [along, filter_eq_self.mpr]
    · rfl
    · intro i hi
      rw [getElem?_eq_getElem (mem_range.mp hi)]
      rfl
  | append_singleton as a ih =>
    rw [run_concat, enter, ih, advance, filter_along, length_append, length_singleton]

theorem enter_run : (run rs as).enter rs a =
    { position := some ⟨as.length, along rs (as ++ [a])⟩
      abandoned := if (along rs (as ++ [a])).isEmpty then (run rs as).abandoned + 1 else (run rs as).abandoned } := by
  rw [enter, advance_run, filter_along]

/-- **Directed execution.** After each instruction, the position counts the instructions before it
and lists the routes that start with all addresses so far, and it is with this instruction that the
execution is given up if there is none. -/
theorem run_along : (run rs (as ++ [a])).position = some ⟨as.length, along rs (as ++ [a])⟩ ∧
    (along rs (as ++ [a])).Pairwise (· < ·) ∧
    (∀ i, i ∈ along rs (as ++ [a]) ↔ ∃ r, rs[i]? = some r ∧ as ++ [a] <+: r) ∧
    ((run rs (as ++ [a])).abandoned ≠ (run rs as).abandoned ↔ along rs (as ++ [a]) = []) := by
  rw [run_concat, enter_run]
  refine ⟨rfl, pairwise_lt_range.filter _, fun i => mem_along, ?_⟩
  cases along rs (as ++ [a]) <;> simp

end Follower

end FlowRecovery
