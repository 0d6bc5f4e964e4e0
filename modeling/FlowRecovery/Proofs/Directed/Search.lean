import Mathlib
import FlowRecovery.Directed.Paths

/-!
# The paths that a bounded search finds

A search takes its visits from a stack, and puts the successors of an address there as long as a
path may go on. The paths that a visit leads to are described without the stack (`Visit.LeadsTo`).
They are the path to its own address, if that is a target, and the paths that its successors lead to
(`leadsTo_iff`), so each round of the search keeps what is found together with what the stack leads
to (`mem_search`). From the graph of a set of edges, the search therefore gives the sequences of
addresses along the edges, and no others (`mem_paths_ofEdges`).
-/

namespace FlowRecovery.AddressGraph

open List

/-! ### Graphs of edges -/

/-- An edge leads from the one address to the other, which is a different one. -/
def Joined (es : List Edge) (a b : Int64) : Prop := a ≠ b ∧ ∃ e ∈ es, e.source.address = a ∧ e.target.address = b

variable (g : AddressGraph) {a b : Int64} {es : List Edge}

@[simp] theorem next_addAddress (a b : Int64) : (g.addAddress a).next b = g.next b := by
  unfold addAddress next
  split
  case isTrue => rfl
  case isFalse h =>
    have hnone : g.successors[a]? = none := by simpa using h
    by_cases hab : a = b <;> simp_all [Std.HashMap.getElem?_insert]

@[simp] theorem contains_addAddress (a b : Int64) : (g.addAddress a).contains b = (a == b || g.contains b) := by
  unfold addAddress contains
  split <;> by_cases hab : a = b <;> simp_all [Std.HashMap.contains_insert]

theorem mem_next_modify {c d : Int64} (ha : g.contains a) :
    b ∈ ({ g with successors := g.successors.modify a (· ++ [c]) } : AddressGraph).next d ↔
      b ∈ g.next d ∨ a = d ∧ b = c := by
  have hget := Std.HashMap.getElem?_eq_some_getElem ha
  simp only [next, Std.HashMap.getElem?_modify, beq_iff_eq]
  by_cases had : a = d
  · subst had
    simp [hget]
  · simp [had]

theorem mem_next_addEdge {e : Edge} : b ∈ (g.addEdge e).next a ↔ b ∈ g.next a ∨ Joined [e] a b := by
  simp only [addEdge, Joined, mem_singleton, exists_eq_left]
  split
  case isTrue h =>
    have hsame : e.source.address = e.target.address := by simpa using h
    simp only [next_addAddress]
    grind
  case isFalse h =>
    have hne : e.source.address ≠ e.target.address := by simpa using h
    rw [mem_next_modify _ (by simp), next_addAddress, next_addAddress]
    grind

theorem contains_addEdge {e : Edge} :
    (g.addEdge e).contains a ↔ g.contains a ∨ a = e.source.address ∨ a = e.target.address := by
  have hboth : ((g.addAddress e.source.address).addAddress e.target.address).contains a ↔
      g.contains a ∨ a = e.source.address ∨ a = e.target.address := by
    simp only [contains_addAddress, Bool.or_eq_true, beq_iff_eq]
    grind
  rw [← hboth, addEdge]
  split
  · rfl
  · simp [contains]

theorem mem_next_ofEdges : b ∈ (ofEdges es).next a ↔ Joined es a b := by
  have hfold (g : AddressGraph) : b ∈ (es.foldl addEdge g).next a ↔ b ∈ g.next a ∨ Joined es a b := by
    induction es generalizing g with
    | nil => simp [Joined]
    | cons e es ih =>
      rw [foldl_cons, ih, mem_next_addEdge]
      simp only [Joined, exists_mem_cons_iff]
      grind
  rw [ofEdges, hfold]
  simp [next]

theorem contains_ofEdges : (ofEdges es).contains a ↔ ∃ e ∈ es, a = e.source.address ∨ a = e.target.address := by
  have hfold (g : AddressGraph) : (es.foldl addEdge g).contains a ↔
      g.contains a ∨ ∃ e ∈ es, a = e.source.address ∨ a = e.target.address := by
    induction es generalizing g with
    | nil => simp
    | cons e es ih =>
      rw [foldl_cons, ih, contains_addEdge]
      simp [or_assoc]
  rw [ofEdges, hfold]
  simp [contains]

/-! ### Rounds of the search -/

variable {g} {isTarget : Int64 → Bool}

/-- A path that goes through the visit and on to a target, with no more addresses than the visit
allows. -/
def Visit.LeadsTo (g : AddressGraph) (isTarget : Int64 → Bool) (v : Visit) (p : List Int64) : Prop :=
  ∃ rest, p = v.back.reverse ++ v.address :: rest ∧ rest.length < v.depth ∧
    List.IsChain (fun a b => b ∈ g.next a) (v.address :: rest) ∧ isTarget ((v.address :: rest).getLast (by simp)) = true

variable {p : List Int64}

theorem leadsTo_iff {v : Visit} (h : v.depth ≠ 0) : v.LeadsTo g isTarget p ↔
      (isTarget v.address ∧ p = (v.address :: v.back).reverse) ∨ ∃ u ∈ g.fanOut v, u.LeadsTo g isTarget p := by
  constructor
  · rintro ⟨rest, rfl, hlength, hchain, hlast⟩
    cases rest with
    | nil => exact .inl ⟨hlast, by simp⟩
    | cons b rest =>
      rw [isChain_cons_cons] at hchain
      refine .inr ⟨⟨b, v.address :: v.back, v.depth - 1⟩, ?_, rest, by simp, ?_, hchain.2, by simpa using hlast⟩
      · simp only [fanOut, mem_map, mem_eraseDups]
        exact ⟨b, hchain.1, rfl⟩
      · simp only [length_cons] at hlength
        show rest.length < v.depth - 1
        omega
  · rintro (⟨htarget, rfl⟩ | ⟨u, hu, rest, rfl, hlength, hchain, hlast⟩)
    · exact ⟨[], by simp, by simpa using Nat.pos_of_ne_zero h, by simp, htarget⟩
    · simp only [fanOut, mem_map, mem_eraseDups] at hu
      obtain ⟨b, hb, rfl⟩ := hu
      replace hlength : rest.length < v.depth - 1 := hlength
      refine ⟨b :: rest, by simp, ?_, isChain_cons_cons.mpr ⟨hb, hchain⟩, by simpa using hlast⟩
      rw [length_cons]
      omega

theorem mem_search {stack : List Visit} {found : List (List Int64)} :
    p ∈ g.search isTarget stack found ↔ p ∈ found ∨ ∃ v ∈ stack, v.LeadsTo g isTarget p := by
  fun_induction search g isTarget stack found with
  | case1 => simp
  | case2 found v stack h ih =>
    have hnone : ¬v.LeadsTo g isTarget p := by
      rintro ⟨rest, -, hlength, -⟩
      omega
    simp [ih, hnone]
  | case3 found v stack h ih =>
    simp only [dite_eq_ite] at ih
    rw [ih, exists_mem_cons_iff, leadsTo_iff h]
    split <;> grind

theorem leadsTo_start_iff {start : Int64} {n : Nat} : Visit.LeadsTo g isTarget { address := start, depth := n } p ↔
      p.length ≤ n ∧ p.head? = some start ∧ (∃ t, isTarget t ∧ p.getLast? = some t) ∧
        p.IsChain (fun a b => b ∈ g.next a) := by
  constructor
  · rintro ⟨rest, rfl, hlength, hchain, hlast⟩
    exact ⟨hlength, rfl, ⟨_, hlast, getLast?_eq_some_getLast _⟩, hchain⟩
  · rintro ⟨hlength, hhead, ⟨t, ht, hlast⟩, hchain⟩
    obtain ⟨rest, rfl⟩ := head?_eq_some_iff.mp hhead
    refine ⟨rest, rfl, hlength, hchain, ?_⟩
    rw [getLast?_eq_some_getLast (cons_ne_nil _ _), Option.some_inj] at hlast
    rwa [hlast]

/-- **Bounded search.** From an address of some edges, the search gives the sequences of at most
`depth` addresses that start there, end at a target and step from each address to another one along
an edge. -/
theorem mem_paths_ofEdges {es : List Edge} {start : Int64}
    (hstart : ∃ e ∈ es, start = e.source.address ∨ start = e.target.address) (targets : List Int64) (depth : Int) :
    ∃ ps, (ofEdges es).paths start targets depth = .ok ps ∧
      ∀ p, p ∈ ps ↔ (p.length : Int) ≤ depth ∧ p.head? = some start ∧ (∃ t ∈ targets, p.getLast? = some t) ∧
        p.IsChain (Joined es) := by
  cases targets with
  | nil => exact ⟨[], rfl, by simp⟩
  | cons t ts =>
    have hsearch : (ofEdges es).paths start (t :: ts) depth =
        .ok ((ofEdges es).search (Std.HashSet.ofList (t :: ts)).contains [{ address := start, depth := depth.toNat }]
          []).reverse := by
      simp [paths, contains_ofEdges.mpr hstart]
    refine ⟨_, hsearch, fun p => ?_⟩
    have hjoined : (fun a b => b ∈ (ofEdges es).next a) = Joined es := by
      ext a b
      exact mem_next_ofEdges
    simp only [mem_reverse, mem_search, not_mem_nil, false_or, mem_singleton, exists_eq_left,
      leadsTo_start_iff, hjoined, Std.HashSet.contains_ofList, contains_iff_mem]
    -- a path has an address, so there is none if the depth is negative
    constructor
    · rintro ⟨hlength, hhead, hrest⟩
      have := length_pos_of_mem (mem_of_mem_head? hhead)
      exact ⟨by omega, hhead, hrest⟩
    · exact fun ⟨hlength, hrest⟩ => ⟨by omega, hrest⟩

/-- Around a cycle, the target is passed twice on one path. -/
theorem mem_paths_around :
    let there : Edge := { source := ⟨1, 0⟩, target := ⟨2, 0⟩, transformer := default }
    let back : Edge := { source := ⟨2, 0⟩, target := ⟨1, 1⟩, transformer := default, kind := .must }
    ∃ ps, (ofEdges [there, back]).paths 1 [2] 4 = .ok ps ∧
      ∀ p, p ∈ ps ↔ (p.length : Int) ≤ 4 ∧ p.head? = some 1 ∧ (∃ t ∈ [2], p.getLast? = some t) ∧
        p.IsChain (Joined [there, back]) := by
  intro there back
  exact mem_paths_ofEdges ⟨there, mem_cons_self, .inl rfl⟩ [2] 4

end FlowRecovery.AddressGraph
