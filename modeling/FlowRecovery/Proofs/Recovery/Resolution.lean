import FlowRecovery.Proofs.Expr.Evaluation
import FlowRecovery.Recovery.Resolution

/-!
# Jumps go where their values say

The state at a jump tells which pairs of values its condition and its target may have. Under the
first policy, and unless jumps with unknown targets are given edges to everywhere, each pair is
accounted for in one of two ways:

* the jump is taken to an unknown target; then its label is noted, and the control flow counts as
  unsound;
* the label that the pair leads to (`Site.destination`) has an edge, and only one.

Edges with the same ends are one edge, and the first one stays (`Edge.find?_foldl_insert`). So the
assumption on the edge is that of the *first* pair that leads to the label. It holds on exactly the
machines that go this way if that pair decides the condition in the same way; if it does not, then
no machine with the values of the pair passes the edge. This happens where a jump leads to the place
after itself.

`Recovery.resolve_accounts` says all this of `Recovery.resolve`.
-/

namespace FlowRecovery

open List FlowRecovery.Expr

/-! ### Edges with different ends -/

namespace Edge

variable {es : List Edge} {e x : Edge}

theorem sameEnds_iff {a b : Edge} : a.sameEnds b ↔ a.source = b.source ∧ a.target = b.target := by
  simp [sameEnds]

theorem find?_insert (es : List Edge) (e x : Edge) :
    (insert es e).find? (·.sameEnds x) = (es ++ [e]).find? (·.sameEnds x) := by
  unfold insert
  split
  · next hold =>
    rw [find?_append]
    by_cases hx : e.sameEnds x
    · -- the edge in the way has the ends that are looked for
      obtain ⟨a, ha, hae⟩ := any_eq_true.mp hold
      rw [sameEnds_iff] at hx hae
      have hfound : (es.find? (·.sameEnds x)).isSome :=
        find?_isSome.mpr ⟨a, ha, sameEnds_iff.mpr ⟨hae.1.trans hx.1, hae.2.trans hx.2⟩⟩
      obtain ⟨y, hy⟩ := Option.isSome_iff_exists.mp hfound
      rw [hy]
      rfl
    · simp [hx]
  · rfl

theorem find?_foldl_insert (es news : List Edge) (x : Edge) :
    (news.foldl insert es).find? (·.sameEnds x) = (es ++ news).find? (·.sameEnds x) := by
  induction news generalizing es with
  | nil => rw [append_nil, foldl_nil]
  | cons e news ih =>
    rw [foldl_cons, ih, find?_append, find?_insert, ← find?_append, append_assoc]
    rfl

def Distinct (es : List Edge) : Prop := ∀ e ∈ es, es.find? (·.sameEnds e) = some e

theorem distinct_insert (h : Distinct es) (e : Edge) : Distinct (insert es e) := by
  intro x hx
  rw [find?_insert, find?_append]
  unfold insert at hx
  split at hx
  · rw [h x hx]
    rfl
  · next hnew =>
    rcases mem_append.mp hx with hx | hx
    · rw [h x hx]
      rfl
    · obtain rfl := mem_singleton.mp hx
      have hnone : es.find? (·.sameEnds x) = none :=
        find?_eq_none.mpr fun a ha hsame => hnew (any_eq_true.mpr ⟨a, ha, hsame⟩)
      rw [hnone]
      simp [sameEnds]

theorem distinct_foldl_insert {news : List Edge} (h : Distinct es) : Distinct (news.foldl insert es) := by
  induction news generalizing es with
  | nil => exact h
  | cons e news ih => exact ih (distinct_insert h e)

theorem eq_of_distinct (h : Distinct es) (he : e ∈ es) (hx : x ∈ es) (hsame : e.sameEnds x) : e = x := by
  have hends : (fun a : Edge => a.sameEnds e) = fun a => a.sameEnds x := by
    obtain ⟨hsource, htarget⟩ := sameEnds_iff.mp hsame
    funext a
    simp only [sameEnds, hsource, htarget]
  have hfirst := h e he
  rw [hends, h x hx] at hfirst
  exact (Option.some.inj hfirst).symm

end Edge

/-! ### Addresses -/

theorem Word.low_and_allOnes {n : Nat} {m : Int64} (hm : low n m = BitVec.allOnes n) (v : Int64) :
    low n (v &&& m) = low n v := by
  rw [low_and, hm, BitVec.and_allOnes]

variable {w : Int}

theorem addressOfNumber_inj {u v : Int64} (hu : Word.Fits w u) (hv : Word.Fits w v)
    (h : addressOfNumber u w = addressOfNumber v w) : u = v := by
  -- a mask that keeps all bits of the width tells numbers of this width apart
  have heq {n : Nat} {m : Int64} (hw : w = n) (hm : Word.low n m = BitVec.allOnes n) (h : u &&& m = v &&& m) :
      u = v := by
    have hlow := congrArg (Word.low n) h
    rw [Word.low_and_allOnes hm, Word.low_and_allOnes hm] at hlow
    calc u = Word.ofBits (Word.low w.toNat u) := hu.symm
      _ = Word.ofBits (Word.low w.toNat v) := by rw [hw, Int.toNat_natCast, hlow]
      _ = v := hv
  unfold addressOfNumber at h
  split at h
  · next hw => exact heq (n := 16) hw (by decide) h
  · split at h
    · next hw => exact heq (n := 32) hw (by decide) h
    · exact h

def Num.Fits (w : Int) (n : Num) : Prop := n.width = w ∧ Word.Fits w n.value

theorem Num.eq_of_fits {m n : Num} (hm : m.Fits w) (hn : n.Fits w) (h : m.value = n.value) : m = n := by
  obtain ⟨v, u⟩ := m
  obtain ⟨v', u'⟩ := n
  obtain rfl : u = u' := hm.1.trans hn.1.symm
  obtain rfl : v = v' := h
  rfl

theorem Num.hasWidth {Γ : Vocabulary} {n : Num} (h : n.Fits w) (hw : Γ.width w) : Expr.HasWidth Γ n.toExpr w := by
  obtain ⟨rfl, hv⟩ := h
  exact .num hw hv

/-! ### Truth -/

namespace Expr

variable {Γ : Vocabulary} {σ : Machine} {a b : Expr}

def Holds (σ : Machine) (e : Expr) : Prop := e.value σ = Num.tt.value

theorem truthWord_eq_iff {t : Bool} : truthWord t = Num.tt.value ↔ t := by
  cases t <;> decide

theorem holds_equal {n : Num} (ha : HasWidth Γ a w) (hn : HasWidth Γ n.toExpr w) :
    (Expr.op .equal [a, n.toExpr]).Holds σ ↔ a.value σ = n.value := by
  rw [Holds, value_compare σ rfl ha hn rfl, truthWord_eq_iff, beq_iff_eq]
  rfl

theorem holds_and (ha : HasWidth Γ a 1) (hb : HasWidth Γ b 1) :
    (Expr.op .and [a, b]).Holds σ ↔ a.Holds σ ∧ b.Holds σ := by
  have hand : HasWidth Γ (.op .and [a, b]) 1 := .regroup rfl (by simp) (by simp) (.inl rfl) (by simp [ha, hb])
  obtain ⟨x, hx⟩ := exists_truthWord σ ha
  obtain ⟨y, hy⟩ := exists_truthWord σ hb
  rw [Holds, Holds, Holds, value_regroup σ hand rfl, map_cons, map_cons, map_nil, hx, hy]
  cases x <;> cases y <;> decide

theorem equal_of_hasWidth {n : Num} (ha : HasWidth Γ a w) (hn : HasWidth Γ n.toExpr w) :
    equal a n.toExpr = .ok (.op .equal [a, n.toExpr]) :=
  HasWidth.apply_eq (.compare rfl ha hn) (.inl rfl)

end Expr

theorem Context.suits_empty (Γ : Vocabulary) : Context.empty.Suits Γ :=
  ⟨fun _ => .inl rfl, fun _ _ _ _ _ => rfl⟩

theorem Machine.agrees_empty (σ : Machine) (Γ : Vocabulary) : σ.Agrees Γ .empty := fun _ _ _ => rfl

/-! ### Sites of jumps -/

/-- A jump at its place: the labels that it stands at and goes on to, and expressions of the widths
that they should have. -/
structure Jump.Site (Γ : Vocabulary) (s : Stmt) (j : Jump) where
  source : Label
  next : Label
  target : Expr
  width : Int
  label_eq : s.label = some source
  next_eq : s.next = some next
  target_eq : j.target = some target
  condition_hasWidth : Expr.HasWidth Γ j.condition 1
  target_hasWidth : Expr.HasWidth Γ target width

variable {pairs : Projection}

namespace Jump.Site

variable {Γ : Vocabulary} {s : Stmt} {j : Jump} (p : Site Γ s j) {c : Num} {t t' : Option Num} {l : Label} {σ : Machine}
  {pair : List (Option Num)}

/-- A pair of values of the condition, which has to be known, and of the target. -/
inductive Fitting : List (Option Num) → Prop where
  | mk {c : Num} {t : Option Num} (hc : c.Fits 1) (ht : ∀ n ∈ t, n.Fits p.width) : Fitting [some c, t]

/-- The label that a pair of values leads to; nothing if the jump is taken to an unknown target. -/
def destination : List (Option Num) → Option Label
  | [some c, t] => if c = .ff then some p.next else t.map (fun n => .ofAddress (addressOfNumber n.value n.width))
  | _ => none

/-- The machine has the given values. If the jump is not taken, the target does not matter. -/
def Goes (σ : Machine) (c : Num) (t : Option Num) : Prop :=
  j.condition.value σ = c.value ∧ (c ≠ .ff → ∀ n ∈ t, p.target.value σ = n.value)

def demand (c : Num) (t : Option Num) : Expr :=
  let decided := .op .equal [j.condition, c.toExpr]
  match t with
  | none => decided
  | some n => if c = .ff then decided else .op .and [decided, .op .equal [p.target, n.toExpr]]

def edge (l : Label) (a : Expr) : Edge :=
  { source := p.source, target := l, transformer := .statement (Recovery.assumption s j l a) }

def fault : Fault := .unresolvable ("Unresolvable control flow from " ++ p.source.text)

def edge? (pair : List (Option Num)) : Option Edge :=
  match j.way s.next pair with
  | .ok (.toward (some l) a) => some (p.edge l a)
  | _ => none

theorem destination_eq_none_iff : p.destination [some c, t] = none ↔ c ≠ .ff ∧ t = none := by
  unfold destination
  by_cases hff : c = .ff
  · simp [hff]
  · simp [hff]

/-! ### What is demanded -/

section

variable (hc : c.Fits 1) (ht : ∀ n ∈ t, n.Fits p.width)

include hc ht

theorem hasWidth_demand : Expr.HasWidth Γ (p.demand c t) 1 := by
  have hdecided : Expr.HasWidth Γ (.op .equal [j.condition, c.toExpr]) 1 :=
    .compare rfl p.condition_hasWidth (Num.hasWidth hc Γ.width_one)
  cases t with
  | none => exact hdecided
  | some n =>
    change Expr.HasWidth Γ (if c = .ff then _ else _) 1
    split
    · exact hdecided
    · refine .regroup rfl (by simp) (by simp) (.inl rfl) (forall_mem_pair.mpr ⟨hdecided, ?_⟩)
      exact .compare rfl p.target_hasWidth (Num.hasWidth (ht n rfl) p.target_hasWidth.width_eq.2)

theorem holds_demand : (p.demand c t).Holds σ ↔ p.Goes σ c t := by
  have hdecided : (op .equal [j.condition, c.toExpr]).Holds σ ↔ j.condition.value σ = c.value :=
    holds_equal p.condition_hasWidth (Num.hasWidth hc Γ.width_one)
  unfold demand Goes
  cases t with
  | none => simpa using hdecided
  | some n =>
    by_cases hff : c = .ff
    · simpa [hff] using hdecided
    · have hn := Num.hasWidth (ht n rfl) p.target_hasWidth.width_eq.2
      simp only [if_neg hff]
      rw [holds_and (.compare rfl p.condition_hasWidth (Num.hasWidth hc Γ.width_one))
        (.compare rfl p.target_hasWidth hn), hdecided, holds_equal p.target_hasWidth hn]
      simp [hff]

/-- **Simplification.** The demand is simplified without a fault. Unless a step of this is flawed,
the result holds on the machines that have the values. -/
theorem exists_simplified : ∃ a, (p.demand c t).evaluate .empty = .ok a ∧
      (Expr.Flawless .empty (p.demand c t).depth (p.demand c t) → ∀ σ, a.Holds σ ↔ p.Goes σ c t) := by
  obtain ⟨a, ha, -, hkeeps⟩ := evaluate_spec (Context.suits_empty Γ) (p.hasWidth_demand hc ht)
  refine ⟨a, ha, fun hflawless σ => ?_⟩
  rw [← p.holds_demand hc ht, Expr.Holds, Expr.Holds, hkeeps σ (Machine.agrees_empty σ Γ) hflawless]

end

/-! ### Ways -/

theorem way_of_unknown (hc : c.Fits 1) (hl : p.destination [some c, t] = none) :
    j.way s.next [some c, t] = .ok .unknown := by
  obtain ⟨hff, rfl⟩ := p.destination_eq_none_iff.mp hl
  have hdecided := equal_of_hasWidth p.condition_hasWidth (Num.hasWidth hc Γ.width_one)
  simp only [way, hdecided, ok_bind, if_neg hff]
  rfl

theorem way_of_known {a : Expr} (hc : c.Fits 1) (ht : ∀ n ∈ t, n.Fits p.width) (hl : p.destination [some c, t] = some l)
    (ha : (p.demand c t).evaluate .empty = .ok a) : j.way s.next [some c, t] = .ok (.toward (some l) a) := by
  have hdecided := equal_of_hasWidth p.condition_hasWidth (Num.hasWidth hc Γ.width_one)
  by_cases hff : c = .ff
  · have hnext : p.next = l := by simpa [destination, hff] using hl
    have hdemand : p.demand c t = .op .equal [j.condition, c.toExpr] := by
      cases t <;> simp [demand, hff]
    rw [hdemand] at ha
    simp only [way, hdecided, ok_bind, if_pos hff, ha, p.next_eq, hnext]
    rfl
  · cases t with
    | none => simp [destination, hff] at hl
    | some n =>
      have hn := Num.hasWidth (ht n rfl) p.target_hasWidth.width_eq.2
      have hmeets := equal_of_hasWidth p.target_hasWidth hn
      have hdemand : p.demand c (some n) =
          .op .and [.op .equal [j.condition, c.toExpr], .op .equal [p.target, n.toExpr]] := by
        simp [demand, hff]
      have hboth : and (.op .equal [j.condition, c.toExpr]) (.op .equal [p.target, n.toExpr]) =
          .ok (p.demand c (some n)) := by
        rw [hdemand]
        exact (hdemand ▸ p.hasWidth_demand hc ht).apply_eq (.inl rfl)
      have haddress : Label.ofAddress (addressOfNumber n.value n.width) = l := by simpa [destination, hff] using hl
      simp only [way, hdecided, ok_bind, if_neg hff, p.target_eq, hmeets, hboth, ha, haddress]
      rfl

theorem edge?_of_unknown (hc : c.Fits 1) (hl : p.destination [some c, t] = none) : p.edge? [some c, t] = none := by
  rw [edge?, p.way_of_unknown hc hl]

/-- **The edge of a pair.** It leads to the label of the pair. Unless a step of the simplification
is flawed, it is passed by the machines that have the values. -/
theorem exists_edge? (hc : c.Fits 1) (ht : ∀ n ∈ t, n.Fits p.width) (hl : p.destination [some c, t] = some l) :
    ∃ a, p.edge? [some c, t] = some (p.edge l a) ∧
      (Expr.Flawless .empty (p.demand c t).depth (p.demand c t) → ∀ σ, a.Holds σ ↔ p.Goes σ c t) := by
  obtain ⟨a, ha, hholds⟩ := p.exists_simplified hc ht
  refine ⟨a, ?_, hholds⟩
  rw [edge?, p.way_of_known hc ht hl ha]

theorem destination_of_edge? {e : Edge} (hfit : p.Fitting pair)
    (he : p.edge? pair = some e) : p.destination pair = some e.target ∧ e.source = p.source := by
  obtain @⟨c, t, hc, ht⟩ := hfit
  cases hl : p.destination [some c, t] with
  | none => cases (p.edge?_of_unknown hc hl).symm.trans he
  | some l =>
    obtain ⟨a, ha, -⟩ := p.exists_edge? hc ht hl
    cases ha.symm.trans he
    exact ⟨rfl, rfl⟩

/-! ### The first pair for a label -/

def first? (pairs : Projection) (l : Label) : Option (List (Option Num)) :=
  pairs.find? (fun pair => p.destination pair = some l)

def OnlyEdge (es : List Edge) (l : Label) (a : Expr) : Prop :=
  p.edge l a ∈ es ∧ ∀ e ∈ es, e.target = l → e = p.edge l a

/-- The edges of pairs of values, of which the first to each label is kept. -/
def edges (pairs : Projection) : List Edge := (pairs.filterMap p.edge?).foldl Edge.insert []

theorem mem_edges_iff {e : Edge} : e ∈ p.edges pairs ↔ (pairs.filterMap p.edge?).find? (·.sameEnds e) = some e := by
  have hfind := Edge.find?_foldl_insert [] (pairs.filterMap p.edge?) e
  rw [nil_append] at hfind
  rw [← hfind]
  exact ⟨Edge.distinct_foldl_insert (by simp [Edge.Distinct]) e, mem_of_find?_eq_some⟩

theorem onlyEdge_of_first {a : Expr} (hfit : ∀ q ∈ pairs, p.Fitting q)
    (hfirst : p.first? pairs l = some pair) (hedge : p.edge? pair = some (p.edge l a)) :
    p.OnlyEdge (p.edges pairs) l a := by
  obtain ⟨-, before, rest, rfl, hbefore⟩ := find?_eq_some_iff_append.mp hfirst
  have hmem : p.edge l a ∈ p.edges (before ++ pair :: rest) := by
    rw [mem_edges_iff, filterMap_append, filterMap_cons_some hedge, find?_eq_some_iff_append]
    refine ⟨Edge.sameEnds_iff.mpr ⟨rfl, rfl⟩, _, _, rfl, fun e he => ?_⟩
    -- an earlier edge to the label would belong to an earlier pair
    obtain ⟨q, hq, hqe⟩ := mem_filterMap.mp he
    have hne : e.target ≠ l := by
      simpa [(p.destination_of_edge? (hfit q (by simp [hq])) hqe).1] using hbefore q hq
    simp [Edge.sameEnds, edge, hne]
  -- all edges start at the jump, so those to one label have the same ends
  refine ⟨hmem, fun e he htarget => ?_⟩
  have hdistinct : Edge.Distinct (p.edges (before ++ pair :: rest)) :=
    Edge.distinct_foldl_insert (by simp [Edge.Distinct])
  obtain ⟨q, hq, hqe⟩ := mem_filterMap.mp (mem_of_find?_eq_some (p.mem_edges_iff.mp he))
  have hsource := (p.destination_of_edge? (hfit q hq) hqe).2
  exact Edge.eq_of_distinct hdistinct he hmem (Edge.sameEnds_iff.mpr ⟨hsource, htarget⟩)

theorem goes_iff_of_eq (ht : ∀ n ∈ t, n.Fits p.width) (ht' : ∀ n ∈ t', n.Fits p.width)
    (hl : p.destination [some c, t] = some l) (hl' : p.destination [some c, t'] = some l) :
    p.Goes σ c t' ↔ p.Goes σ c t := by
  by_cases hff : c = .ff
  · simp [Goes, hff]
  · simp only [destination, if_neg hff, Option.map_eq_some_iff] at hl hl'
    obtain ⟨n, rfl, hn⟩ := hl
    obtain ⟨n', rfl, hn'⟩ := hl'
    have hfits : n.Fits p.width := ht n rfl
    have hfits' : n'.Fits p.width := ht' n' rfl
    have haddress : addressOfNumber n'.value n'.width = addressOfNumber n.value n.width :=
      congrArg Label.address (hn'.trans hn.symm)
    rw [hfits.1, hfits'.1] at haddress
    rw [Num.eq_of_fits hfits' hfits (addressOfNumber_inj hfits'.2 hfits.2 haddress)]

theorem not_goes_of_ne {c' : Num} (hc : c.Fits 1) (hc' : c'.Fits 1) (hne : c' ≠ c)
    (hgoes : p.Goes σ c t) : ¬p.Goes σ c' t' := by
  intro hgoes'
  exact hne (Num.eq_of_fits hc' hc (hgoes'.1.symm.trans hgoes.1))

/-- **One edge for a label.** A pair of values that leads to a label shares its edge with the first
pair that does. -/
theorem exists_onlyEdge (hfit : ∀ q ∈ pairs, p.Fitting q) (hmem : [some c, t] ∈ pairs)
    (hl : p.destination [some c, t] = some l) :
    ∃ a c₀ t₀, p.OnlyEdge (p.edges pairs) l a ∧ p.first? pairs l = some [some c₀, t₀] ∧
      (Expr.Flawless .empty (p.demand c₀ t₀).depth (p.demand c₀ t₀) →
        (c₀ = c → ∀ σ, a.Holds σ ↔ p.Goes σ c t) ∧ (c₀ ≠ c → ∀ σ, p.Goes σ c t → ¬a.Holds σ)) := by
  have hfound : (p.first? pairs l).isSome := find?_isSome.mpr ⟨_, hmem, by simpa using hl⟩
  obtain ⟨pair, hfirst⟩ := Option.isSome_iff_exists.mp hfound
  -- the assumption is that of the first pair, which need not be the given one
  have hl₀ : p.destination pair = some l := by simpa using find?_some hfirst
  obtain @⟨c₀, t₀, hc₀, ht₀⟩ := hfit pair (mem_of_find?_eq_some hfirst)
  obtain ⟨hc, ht⟩ : c.Fits 1 ∧ ∀ n ∈ t, n.Fits p.width := by
    cases hfit _ hmem with
    | mk hc ht => exact ⟨hc, ht⟩
  obtain ⟨a, hedge, hholds⟩ := p.exists_edge? hc₀ ht₀ hl₀
  refine ⟨a, c₀, t₀, p.onlyEdge_of_first hfit hfirst hedge, hfirst, fun hflawless => ⟨?_, fun hne σ hgoes => ?_⟩⟩
  · rintro rfl σ
    rw [hholds hflawless σ, p.goes_iff_of_eq ht ht₀ hl hl₀]
  · rw [hholds hflawless σ]
    exact p.not_goes_of_ne hc hc₀ hne hgoes

end Jump.Site

/-! ### Steps -/

namespace Flow

theorem mem_leaveOpen (f : Flow) (l : Label) : l ∈ (f.leaveOpen l).unresolved := by
  unfold leaveOpen
  dsimp only
  split
  · next h => exact contains_iff_mem.mp h
  · exact mem_append_right _ (mem_singleton_self l)

theorem leaveOpen_leaveOpen (f : Flow) (l : Label) : (f.leaveOpen l).leaveOpen l = f.leaveOpen l := by
  have hmem : (f.leaveOpen l).unresolved.contains l := contains_iff_mem.mpr (f.mem_leaveOpen l)
  rw [leaveOpen, if_pos hmem]
  rfl

end Flow

namespace Recovery

open FaultyM

variable {Γ : Vocabulary} {s : Stmt} {j : Jump} (p : Jump.Site Γ s j) {es : List Edge} {pair : List (Option Num)}
  {l : Label} {a : Expr} {r : Recovery}

def opened (r : Recovery) (l : Label) : Recovery := { r with flow := r.flow.leaveOpen l }

theorem opened_opened (r : Recovery) (l : Label) : (r.opened l).opened l = r.opened l :=
  congrArg (fun f => { r with flow := f }) (r.flow.leaveOpen_leaveOpen l)

theorem jumpEdge_eq (l : Label) (a : Expr) : jumpEdge s j l a .may = .ok (p.edge l a) := by
  simp only [jumpEdge, Edge.ofStmt, assumption, Jump.Site.edge, p.label_eq]
  rfl

theorem ends_addDirect_of_known (hway : j.way s.next pair = .ok (.toward (some l) a)) :
    (addDirect s j es pair).Ends r (Edge.insert es (p.edge l a)) r := by
  have hassumptions : (assumptions s j [pair]).Ends r ([(l, a)], []) r := by
    unfold assumptions
    rw [foldlM_cons]
    exact .bind (.lift hway .pure) .pure
  unfold addDirect
  have hedges : ([(l, a)].mapM fun q => jumpEdge s j q.1 q.2 .may : RecoveryM (List Edge)).Ends r [p.edge l a] r :=
    ends_mapM_cons.mpr ⟨_, r, [], ends_lift.mpr ⟨jumpEdge_eq p l a, rfl⟩, ends_mapM_nil.mpr ⟨rfl, rfl⟩, rfl⟩
  exact .bind hassumptions (.bind hedges .pure)

theorem labelOf_eq : labelOf s = .ok p.source := by
  rw [labelOf, p.label_eq]

section

variable (hall : r.program.options.allEdges = false)

include hall

theorem ends_leaveOpen (hdebug : r.program.options.debug = false) : (leaveOpen s j).Ends r [] (r.opened p.source) := by
  unfold leaveOpen
  refine ends_get_bind.mpr (.lift (labelOf_eq p) ?_)
  simp only [hall, hdebug, Bool.and_false, Bool.false_and, Bool.false_eq_true, if_false]
  exact ends_modify_bind.mpr .pure

theorem fails_leaveOpen (hpolicy : r.policy = .pessimistic) (hdebug : r.program.options.debug) :
    (leaveOpen s j).Fails r p.fault (r.opened p.source) := by
  unfold leaveOpen
  refine fails_bind.mpr (.inr ⟨r, r, ends_get.mpr ⟨rfl, rfl⟩, ?_⟩)
  refine fails_bind.mpr (.inr ⟨_, r, ends_lift.mpr ⟨labelOf_eq p, rfl⟩, ?_⟩)
  simp only [hall, hdebug, hpolicy, Bool.and_false, Bool.false_eq_true, if_false]
  refine fails_bind.mpr (.inr ⟨⟨⟩, r.opened p.source, ends_modify.mpr rfl, ?_⟩)
  exact fails_bind.mpr (.inl (fails_throw.mpr ⟨rfl, rfl⟩))

theorem ends_addDirect_of_unknown (hdebug : r.program.options.debug = false) (hway : j.way s.next pair = .ok .unknown) :
    (addDirect s j es pair).Ends r es (r.opened p.source) := by
  have hassumptions : (assumptions s j [pair]).Ends r ([], []) (r.opened p.source) := by
    unfold assumptions
    rw [foldlM_cons]
    exact .bind (.lift hway (.bind (ends_leaveOpen p hall hdebug) .pure)) .pure
  unfold addDirect
  exact .bind hassumptions (.bind (ends_mapM_nil.mpr ⟨rfl, rfl⟩) .pure)

theorem fails_addDirect_of_unknown (hpolicy : r.policy = .pessimistic) (hdebug : r.program.options.debug)
    (hway : j.way s.next pair = .ok .unknown) : (addDirect s j es pair).Fails r p.fault (r.opened p.source) := by
  unfold addDirect assumptions
  rw [foldlM_cons]
  refine fails_bind.mpr (.inl (fails_bind.mpr (.inl ?_)))
  refine fails_bind.mpr (.inr ⟨_, r, ends_lift.mpr ⟨hway, rfl⟩, ?_⟩)
  exact fails_bind.mpr (.inl (fails_leaveOpen p hall hpolicy hdebug))

end

/-! ### Runs over all pairs -/

/-- What is noted when a jump may have the given pairs of values. -/
def after (r : Recovery) (pairs : Projection) : Recovery :=
  if none ∈ pairs.map p.destination then r.opened p.source else r

theorem program_after (r : Recovery) (pairs : Projection) : (after p r pairs).program = r.program := by
  unfold after
  split <;> rfl

theorem after_cons (r : Recovery) (pair : List (Option Num)) (pairs : Projection) :
    after p r (pair :: pairs) = after p (after p r [pair]) pairs := by
  unfold after
  by_cases hpair : p.destination pair = none
  · by_cases hpairs : none ∈ pairs.map p.destination
    · simp [hpair, hpairs, opened_opened]
    · simp [hpair, hpairs]
  · have hknown : none ≠ p.destination pair := fun h => hpair h.symm
    simp [hknown]

theorem ends_addDirect (hfit : p.Fitting pair) (hall : r.program.options.allEdges = false)
    (hdebug : r.program.options.debug → p.destination pair ≠ none) :
    (addDirect s j es pair).Ends r ((p.edge? pair).toList.foldl Edge.insert es) (after p r [pair]) := by
  obtain @⟨c, t, hc, ht⟩ := hfit
  cases hl : p.destination [some c, t] with
  | none =>
    rw [p.edge?_of_unknown hc hl, after, if_pos (by simp [hl])]
    exact ends_addDirect_of_unknown p hall (by simpa [hl] using hdebug) (p.way_of_unknown hc hl)
  | some l =>
    obtain ⟨a, ha, -⟩ := p.exists_simplified hc ht
    have hway := p.way_of_known hc ht hl ha
    rw [Jump.Site.edge?, hway, after, if_neg (by simp [hl])]
    exact ends_addDirect_of_known p hway

/-- **Run.** The pairs add their edges one after the other, and one unknown target is enough to be
noted. -/
theorem ends_foldlM_addDirect (hfit : ∀ pair ∈ pairs, p.Fitting pair) (hall : r.program.options.allEdges = false)
    (hdebug : r.program.options.debug → none ∉ pairs.map p.destination) :
    (pairs.foldlM (addDirect s j) es).Ends r ((pairs.filterMap p.edge?).foldl Edge.insert es) (after p r pairs) := by
  -- the edges found so far and what is noted so far are carried along
  induction pairs generalizing es r with
  | nil => exact .pure
  | cons pair pairs ih =>
    obtain ⟨hpair, hpairs⟩ := forall_mem_cons.mp hfit
    rw [foldlM_cons, after_cons]
    have hstep : (addDirect s j es pair).Ends r ((p.edge? pair).toList.foldl Edge.insert es) (after p r [pair]) :=
      ends_addDirect p hpair hall fun h hnone => hdebug h (by simp [hnone])
    have hrest : (pairs.foldlM (addDirect s j) ((p.edge? pair).toList.foldl Edge.insert es)).Ends (after p r [pair])
        ((pairs.filterMap p.edge?).foldl Edge.insert ((p.edge? pair).toList.foldl Edge.insert es))
        (after p (after p r [pair]) pairs) := by
      refine ih hpairs ?_ ?_
      · rwa [program_after]
      · rw [program_after]
        exact fun h hmem => hdebug h (mem_cons_of_mem _ hmem)
    refine .bind hstep ?_
    cases hedge : p.edge? pair <;> simpa [hedge] using hrest

theorem fails_foldlM_addDirect (hfit : ∀ pair ∈ pairs, p.Fitting pair)
    (hpolicy : r.policy = .pessimistic) (hall : r.program.options.allEdges = false)
    (hdebug : r.program.options.debug) (hunknown : none ∈ pairs.map p.destination) :
    (pairs.foldlM (addDirect s j) es).Fails r p.fault (r.opened p.source) := by
  induction pairs generalizing es with
  | nil => cases hunknown
  | cons pair pairs ih =>
    obtain ⟨hpair, hpairs⟩ := forall_mem_cons.mp hfit
    rw [foldlM_cons]
    by_cases hl : p.destination pair = none
    · obtain @⟨c, t, hc, -⟩ := hpair
      exact fails_bind.mpr (.inl (fails_addDirect_of_unknown p hall hpolicy hdebug (p.way_of_unknown hc hl)))
    · have hstep : (addDirect s j es pair).Ends r _ (after p r [pair]) := ends_addDirect p hpair hall fun _ => hl
      rw [after, if_neg (by simpa [eq_comm] using hl)] at hstep
      refine fails_bind.mpr (.inr ⟨_, _, hstep, ih hpairs ?_⟩)
      exact (mem_cons.mp hunknown).resolve_left fun h => hl h.symm

/-! ### Resolution -/

theorem ends_trustedEdges (hpolicy : r.policy = .pessimistic) : (trustedEdges s j).Ends r (some []) r := by
  unfold trustedEdges
  refine ends_get_bind.mpr ?_
  simp only [hpolicy]
  exact .pure

theorem resolve_eq {state : CompositeState} {r' : Recovery} (hpolicy : r.policy = .pessimistic)
    (hpairs : (onProgram (r.composite.project state [j.condition, p.target])).Ends r pairs r') :
    (resolve state s j).outcome r = (pairs.foldlM (addDirect s j) []).outcome r' := by
  have htarget : (liftM (targetOf j) : RecoveryM Expr).Ends r p.target r := by
    refine ends_lift.mpr ⟨?_, rfl⟩
    rw [targetOf, p.target_eq]
  unfold resolve
  rw [(ends_trustedEdges hpolicy).outcome_bind]
  refine (htarget.outcome_bind _).trans ?_
  refine ((ends_get.mpr ⟨rfl, rfl⟩).outcome_bind _).trans ((hpairs.outcome_bind _).trans ?_)
  simp only [hpolicy, reduceCtorEq, if_false, bind_pure]

/-- **Resolution of jumps.** Let a jump have a condition and a target of the right widths, and let a
state project them to pairs of values of these widths. While debugging, an unknown target of a jump
that is taken is a fault. Otherwise there are edges, and every pair is accounted for:

* if the jump is taken to an unknown target, it is noted, and the control flow is unsound;
* if not, then a single edge leads to the label of the pair. It has the assumption of the first pair
  that leads there. Provided that no step of its simplification is flawed, the assumption holds on
  exactly the machines with the values of the pair if the first pair decides the condition in the
  same way, and on none of them if it does not.

In any case an unknown target leaves the control flow unsound. -/
theorem resolve_accounts {state : CompositeState} {pairs : Projection} {r' : Recovery}
    (hpolicy : r.policy = .pessimistic)
    (hpairs : (onProgram (r.composite.project state [j.condition, p.target])).Ends r pairs r')
    (hall : r'.program.options.allEdges = false) (hfit : ∀ pair ∈ pairs, p.Fitting pair) :
    (r'.program.options.debug = true → none ∈ pairs.map p.destination →
      ∃ r'', (resolve state s j).Fails r p.fault r'' ∧ p.source ∈ r''.flow.unresolved ∧ r''.flow.isSound = false) ∧
    ((r'.program.options.debug = true → none ∉ pairs.map p.destination) →
      ∃ es r'', (resolve state s j).Ends r es r'' ∧ ∀ c t, [some c, t] ∈ pairs →
        (c ≠ .ff ∧ t = none ∧ p.source ∈ r''.flow.unresolved ∧ r''.flow.isSound = false) ∨
        ∃ l a c₀ t₀, p.destination [some c, t] = some l ∧ p.OnlyEdge es l a ∧ p.first? pairs l = some [some c₀, t₀] ∧
          (Expr.Flawless .empty (p.demand c₀ t₀).depth (p.demand c₀ t₀) →
            (c₀ = c → ∀ σ, a.Holds σ ↔ p.Goes σ c t) ∧ (c₀ ≠ c → ∀ σ, p.Goes σ c t → ¬a.Holds σ))) := by
  have hrun := resolve_eq p hpolicy hpairs
  have hopened (r : Recovery) :
      p.source ∈ (r.opened p.source).flow.unresolved ∧ (r.opened p.source).flow.isSound = false :=
    ⟨r.flow.mem_leaveOpen p.source, rfl⟩
  constructor
  · intro hdebug hunknown
    -- a projection works on the program only
    have hpolicy' : r'.policy = .pessimistic := by
      obtain ⟨v, -, rfl⟩ := ends_focus.mp hpairs
      exact hpolicy
    exact ⟨_, hrun.trans (fails_foldlM_addDirect p hfit hpolicy' hall hdebug hunknown), hopened r'⟩
  · intro hdebug
    refine ⟨p.edges pairs, after p r' pairs, hrun.trans (ends_foldlM_addDirect p hfit hall hdebug), fun c t hmem => ?_⟩
    cases hl : p.destination [some c, t] with
    | none =>
      obtain ⟨hff, rfl⟩ := p.destination_eq_none_iff.mp hl
      rw [after, if_pos (mem_map.mpr ⟨_, hmem, hl⟩)]
      exact .inl ⟨hff, rfl, hopened r'⟩
    | some l =>
      obtain ⟨a, c₀, t₀, honly, hfirst, hholds⟩ := p.exists_onlyEdge hfit hmem hl
      exact .inr ⟨l, a, c₀, t₀, rfl, honly, hfirst, hholds⟩

/-- If nothing is known of the flag that a jump depends on, both ways have an edge of their own. -/
theorem resolve_conditional_jump :
    let zf : Var := ⟨0, "ZF", 1⟩
    let j : Jump := ⟨some (.num 0x2000 32), .var zf, .jump⟩
    let s : Stmt := ⟨some ⟨0x1000, 0⟩, some ⟨0x1002, 0⟩, .goto j⟩
    let state : CompositeState := ⟨⟨0x1000, 0⟩, [.constants {}]⟩
    let r : Recovery := { program := { arch := default, options := {} }, composite := { kinds := [.constants] } }
    ∃ es r', (resolve state s j).Ends r es r' ∧ ∀ c ∈ [Num.tt, .ff],
      ∃ e ∈ es, e.target = ⟨if c = .ff then 0x1002 else 0x2000, 0⟩ ∧
        ∃ a, e.transformer = .statement (assumption s j e.target a) ∧
          ∀ σ, a.Holds σ ↔ (Expr.var zf).value σ = c.value := by
  intro zf j s state r
  let Γ : Vocabulary :=
    { declared := (· = zf), width := fun w => w = 1 ∨ w = 32, sum := fun _ => False, rich := False, memory := False
      declared_inj := fun hx hy _ => hx.trans hy.symm
      width_one := .inl rfl, width_pos := by omega, width_lt := by omega }
  let p : Jump.Site Γ s j :=
    { source := ⟨0x1000, 0⟩, next := ⟨0x1002, 0⟩, target := .num 0x2000 32, width := 32
      label_eq := rfl, next_eq := rfl, target_eq := rfl
      condition_hasWidth := .var rfl (.inl rfl), target_hasWidth := .num (.inr rfl) (by decide) }
  let n : Num := ⟨0x2000, 32⟩
  have hpairs : (onProgram (r.composite.project state [j.condition, p.target])).Ends r
      [[some .tt, some n], [some .ff, some n]] r := rfl
  have hn : ∀ m ∈ some n, m.Fits 32 := by
    intro m hm
    obtain rfl := Option.mem_some_iff.mp hm
    exact ⟨rfl, by decide⟩
  have hfit : ∀ pair ∈ [[some .tt, some n], [some .ff, some n]], p.Fitting pair :=
    forall_mem_pair.mpr ⟨.mk ⟨rfl, by decide⟩ hn, .mk ⟨rfl, by decide⟩ hn⟩
  obtain ⟨es, r', hends, hcovers⟩ := (resolve_accounts p rfl hpairs rfl hfit).2 (by simp [r])
  have hflawless : ∀ c ∈ [Num.tt, .ff], Expr.Flawless .empty (p.demand c (some n)).depth (p.demand c (some n)) := by
    refine forall_mem_pair.mpr ⟨?_, ?_⟩
    · have hdecided : Expr.Flawless .empty 2111 (.op .equal [.var zf, .tt]) :=
        flawless_op [.var zf, .tt] (.done (.var zf)) (by simp [tt]) (by cbv)
          (not_isFlawed (by decide) (by decide)) (by cbv) (by simp)
      have hmeets : Expr.Flawless .empty 2111 (.op .equal [.num 0x2000 32, .num 0x2000 32]) :=
        flawless_op [.num 0x2000 32, .num 0x2000 32] (.done .tt) (by simp) (by cbv)
          (not_isFlawed (by decide) (by decide)) (by cbv) (by simp)
      refine flawless_op (d := 2111) [.var zf, .tt] (.again (.var zf)) (forall_mem_pair.mpr ⟨hdecided, hmeets⟩)
        (by cbv) (not_isFlawed (by decide) (by decide)) (by cbv) ?_
      rintro _ ⟨⟩
      trivial
    · have hnot : Expr.Flawless .empty 2047 (.op .not [.var zf]) :=
        flawless_op [.var zf] (.done (.op .not [.var zf])) (by simp) (by cbv)
          (not_isFlawed (by decide) (by decide)) (by cbv) (by simp)
      refine flawless_op (d := 2047) [.var zf, .ff] (.again (.op .not [.var zf])) (by simp [j, Num.toExpr])
        (by cbv) (not_isFlawed (by decide) (by decide)) (by cbv) ?_
      rintro _ ⟨⟩
      exact hnot
  refine ⟨es, r', hends, fun c hc => ?_⟩
  have hl : p.destination [some c, some n] = some ⟨if c = .ff then 0x1002 else 0x2000, 0⟩ := by
    revert c
    decide
  have hfirst : p.first? [[some .tt, some n], [some .ff, some n]] ⟨if c = .ff then 0x1002 else 0x2000, 0⟩ =
      some [some c, some n] := by
    revert c
    decide
  obtain ⟨-, hnone, -⟩ | ⟨l, a, c₀, t₀, hl', honly, hfirst', hholds⟩ :=
    hcovers c (some n) (mem_of_find?_eq_some hfirst)
  · cases hnone
  · obtain rfl := Option.some.inj (hl.symm.trans hl')
    obtain ⟨rfl, rfl⟩ : c = c₀ ∧ some n = t₀ := by simpa using hfirst.symm.trans hfirst'
    refine ⟨_, honly.1, rfl, a, rfl, fun σ => ?_⟩
    rw [(hholds (hflawless c hc)).1 rfl σ]
    exact ⟨And.left, fun h => ⟨h, fun _ m hm => congrArg Num.value (Option.mem_some_iff.mp hm)⟩⟩

/-- A jump to the place after it has one edge for both ways, and no machine without the flag passes
it. -/
theorem resolve_jump_to_next :
    let zf : Var := ⟨0, "ZF", 1⟩
    let j : Jump := ⟨some (.num 0x1002 32), .var zf, .jump⟩
    let s : Stmt := ⟨some ⟨0x1000, 0⟩, some ⟨0x1002, 0⟩, .goto j⟩
    let state : CompositeState := ⟨⟨0x1000, 0⟩, [.constants {}]⟩
    let r : Recovery := { program := { arch := default, options := {} }, composite := { kinds := [.constants] } }
    let e : Edge := ⟨⟨0x1000, 0⟩, ⟨0x1002, 0⟩, .statement (assumption s j ⟨0x1002, 0⟩ (.var zf)), .may⟩
    (onProgram (r.composite.project state [.var zf, .num 0x1002 32])).Ends r
        [[some .tt, some ⟨0x1002, 32⟩], [some .ff, some ⟨0x1002, 32⟩]] r ∧
      (resolve state s j).Ends r [e] r ∧ r.flow.isSound = true ∧
      ∀ σ, (Expr.var zf).value σ = Num.ff.value → ¬(Expr.var zf).Holds σ := by
  intro zf j s state r e
  refine ⟨rfl, ?_, rfl, fun σ hff hholds => ?_⟩
  · cbv
  · cases hff.symm.trans hholds

end Recovery

end FlowRecovery
