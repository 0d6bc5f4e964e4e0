import FlowRecovery.Proofs.Ending
import FlowRecovery.Proofs.Exploration.Membership

/-!
# Explorations that end are closed

When an exploration ends because no state waits, the reached states describe everything: each of
them was explored, and each state that was found on the way is covered by what was reached in the
end (`closed_of_ends`). This holds whatever the order in which states are picked, and although
reached states are replaced while the states after them are still being looked at.

Two facts about a step carry the proof, and both survive any number of steps (`Advances`):

* what is covered stays covered: reached states are only added, or replaced by states above them;
* a state is *settled* if it was reached and does not wait; no step but picking a state makes one
  settled, since every state that is new waits.

So the invariant `Inv` need only say that every settled state was explored, and that the states
found then are covered by what is reached now.
-/

namespace FlowRecovery

open FaultyM List Reached Waiting

variable {W S P : Type} [Located S]

/-! ### What is asked of an explorer -/

/-- The state adds nothing to the reached ones, whatever the world and the precision are. -/
def Explorer.Covers (e : Explorer W S P) (r : Reached S) (s : S) : Prop := ∀ w p, e.isCovered w p s r = .ok true

/-- Merging goes upward in the order `above`, and covering depends on the set of reached states
alone, in which states may be added and replaced by states above them. -/
structure Explorer.Monotone (e : Explorer W S P) (above : S → S → Prop) : Prop where
  merge_above {w : W} {p : P} {new old m : S} (h : e.merge w p new old = .ok m) : above m old
  isCovered_eq (w w' : W) (p p' : P) (s : S) (r : Reached S) : e.isCovered w p s r = e.isCovered w' p' s r
  isCovered_congr (w : W) (p : P) (s : S) {r r' : Reached S} (hr : r.Valid) (hr' : r'.Valid)
    (h : ∀ t, r.contains t = r'.contains t) : e.isCovered w p s r = e.isCovered w p s r'
  covers_self (s : S) {r : Reached S} (hr : r.Valid) : e.Covers (r.insert s) s
  covers_insert {s : S} {r : Reached S} (hr : r.Valid) (h : e.Covers r s) (t : S) : e.Covers (r.insert t) s
  covers_replace {s old new : S} {r : Reached S} (hr : r.Valid) (h : e.Covers r s) (hold : r.contains old = true)
    (habove : above new old) : e.Covers ((r.erase old).insert new) s

/-- No two edges that are given for a state have the same ends. -/
def Explorer.DistinctEdges (e : Explorer W S P) : Prop :=
  ∀ s w es w', (e.edges s).Ends w es w' → es.Pairwise (fun a b => a.sameEnds b = false)

/-- What exploring a state showed is what the explorer says of it: how the state is adjusted, which
edges it has and which states come after each edge. -/
structure Visit.Shows (v : Visit S) (e : Explorer W S P) (s : S) : Prop where
  adjust : ∃ r p q w w', (e.adjust r p s).Ends w (v.adjusted, q) w'
  edges : ∃ w w', (e.edges v.adjusted).Ends w v.edges w'
  post : ∀ f ∈ v.found, ∃ p w w', (e.post p f.1 v.adjusted).Ends w f.2 w'

/-! ### Edges with different ends -/

theorem Edge.foldl_insert_of_pairwise {es : List Edge} (h : es.Pairwise (fun a b => a.sameEnds b = false))
    (done : List Edge) (hdone : ∀ a ∈ done, ∀ b ∈ es, a.sameEnds b = false) :
    es.foldl Edge.insert done = done ++ es := by
  -- what was added before only has to differ from what is still to come
  induction es generalizing done with
  | nil => simp
  | cons b es ih =>
    obtain ⟨hb, hes⟩ := pairwise_cons.mp h
    have hnew : done.any (fun a => a.sameEnds b) = false :=
      any_eq_false.mpr fun a ha => by simp [hdone a ha b mem_cons_self]
    have hstep : Edge.insert done b = done ++ [b] := by
      rw [Edge.insert, hnew]
      rfl
    rw [foldl_cons, hstep, ih hes]
    · simp
    · intro a ha c hc
      rcases mem_append.mp ha with ha | ha
      · exact hdone a ha c (mem_cons_of_mem b hc)
      · rw [mem_singleton.mp ha]
        exact hb c hc

variable {r : Reached S} {changes : List (S × S)}

namespace Exploration

variable {e : Explorer W S P} {above : S → S → Prop}

/-! ### Replacing reached states -/

variable [BEq S] [EquivBEq S] [LawfulLocated S]

variable (he : e.Monotone above) (hchanges : ∀ c ∈ changes, above c.2 c.1) (hr : r.Valid) {s : S} (h : e.Covers r s)

include he hchanges hr h

/-- Replacing states one after the other and adding each new one once more at the end: a new state
may be replaced itself on the way. -/
theorem exists_replaced : ∃ r', r'.Valid ∧ e.Covers r' s ∧ ∀ t, r'.contains t =
      (r.contains t && changes.all (fun c => !(c.1 == t)) || changes.any (fun c => c.2 == t)) := by
  induction changes generalizing r with
  | nil => exact ⟨r, hr, h, fun t => by simp⟩
  | cons c changes ih =>
    have hstep : e.Covers ((r.erase c.1).insert c.2) s := by
      by_cases hold : r.contains c.1
      · exact he.covers_replace hr h hold (hchanges c mem_cons_self)
      · -- a state that is not there any more is not replaced, but one is added
        rw [Reached.erase, if_neg hold]
        exact he.covers_insert hr h _
    obtain ⟨r', hr', h', hcontains⟩ := ih (fun d hd => hchanges d (mem_cons_of_mem c hd))
      (valid_insert (valid_erase hr _) _) hstep
    refine ⟨r'.insert c.2, valid_insert hr' _, he.covers_insert hr' h' _, fun t => ?_⟩
    rw [Reached.contains_insert, hcontains, Reached.contains_insert, Reached.contains_erase, all_cons,
      any_cons]
    cases c.2 == t <;> cases c.1 == t <;> cases r.contains t <;> simp

/-- **Replacing states keeps what is covered.** The states to be replaced are removed all at once
before those above them are added. -/
theorem covers_of_replaced {r' : Reached S} (hr' : r'.Valid) (hcontains : ∀ t, r'.contains t =
      (r.contains t && changes.all (fun c => !(c.1 == t)) || changes.any (fun c => c.2 == t))) : e.Covers r' s := by
  obtain ⟨r'', hr'', hcovers, hcontains'⟩ := exists_replaced he hchanges hr h
  intro w p
  -- both sets have the same members, and covering sees nothing else
  rw [he.isCovered_congr w p s hr' hr'' fun t => (hcontains t).trans (hcontains' t).symm]
  exact hcovers w p

end Exploration

/-! ### What a step keeps -/

namespace Exploration

variable {edges : List Edge}

section Advances

variable [BEq S] [Hashable S] {e : Explorer W S P} {x y z : Exploration W S P}

def Settled (x : Exploration W S P) (s : S) : Prop := x.reached.contains s = true ∧ x.waiting.contains s = false

def Valid (x : Exploration W S P) : Prop := x.reached.Valid ∧ x.waiting.Valid

/-- What an exploration does other than picking a state: what is covered stays covered, and no state
becomes settled. -/
structure Advances (e : Explorer W S P) (x y : Exploration W S P) : Prop where
  valid : y.Valid
  covers {s : S} (h : e.Covers x.reached s) : e.Covers y.reached s
  settled {s : S} (h : y.Settled s) : x.Settled s

theorem Advances.refl (hx : x.Valid) : Advances e x x := ⟨hx, id, id⟩

theorem Advances.trans (hxy : Advances e x y) (hyz : Advances e y z) : Advances e x z where
  valid := hyz.valid
  covers h := hyz.covers (hxy.covers h)
  settled h := hxy.settled (hyz.settled h)

theorem Advances.of_eq (hx : x.Valid) (hreached : y.reached = x.reached) (hwaiting : y.waiting = x.waiting) :
    Advances e x y := by
  refine ⟨?_, ?_, ?_⟩
  · rw [Valid, hreached, hwaiting]
    exact hx
  · intro s h
    rwa [hreached]
  · intro s h
    rwa [Settled, hreached, hwaiting] at h

theorem advances_inWorld {α : Type} {a : FaultyM W α} {r : α} (hx : x.Valid) (h : (inWorld a).Ends x r y) :
    Advances e x y := by
  obtain ⟨w, -, rfl⟩ := ends_focus.mp h
  exact .of_eq hx rfl rfl

theorem advances_precisionFor {l : Label} {p : P} (hx : x.Valid) (h : (precisionFor e l).Ends x p y) :
    Advances e x y := by
  replace h := ends_get_bind.mp h
  split at h
  · obtain ⟨-, rfl⟩ := ends_pure.mp h
    exact .refl hx
  · -- a label that is met for the first time asks the world for its precision
    obtain ⟨q, z, hq, h⟩ := ends_bind.mp h
    have hz : Advances e x z := advances_inWorld hx hq
    replace h := ends_modify_bind.mp h
    obtain ⟨-, rfl⟩ := ends_pure.mp h
    exact hz.trans (.of_eq hz.valid rfl rfl)

theorem advances_noteStuck {s : S} (hx : x.Valid) (h : (noteStuck e s edges).Ends x ⟨⟩ y) : Advances e x y := by
  unfold noteStuck at h
  split at h
  · obtain ⟨isStuck, z, hz, h⟩ := ends_bind.mp h
    have hxz : Advances e x z := advances_inWorld hx hz
    refine hxz.trans ?_
    cases isStuck with
    | true =>
      rw [ends_modify.mp h]
      exact .of_eq hxz.valid rfl rfl
    | false =>
      obtain ⟨-, rfl⟩ := ends_pure.mp h
      exact .refl hxz.valid
  · obtain ⟨-, rfl⟩ := ends_pure.mp h
    exact .refl hx

end Advances

section Explore

variable [BEq S] [Hashable S] [EquivBEq S] [LawfulHashable S] [LawfulLocated S]
variable {e : Explorer W S P} {above : S → S → Prop} {x y : Exploration W S P} {p : P} {s : S}

omit [Located S] [Hashable S] [EquivBEq S] [LawfulHashable S] [LawfulLocated S] in
theorem contains_foldl_erase {T : Type} (valid : T → Prop) (contains : T → S → Bool) (erase : T → S → T)
    (hvalid : ∀ r s, valid r → valid (erase r s))
    (hcontains : ∀ r s t, valid r → contains (erase r s) t = (contains r t && !(s == t))) {r : T} (hr : valid r) :
    valid (changes.foldl (fun r c => erase r c.1) r) ∧ ∀ t, contains (changes.foldl (fun r c => erase r c.1) r) t =
      (contains r t && changes.all (fun c => !(c.1 == t))) := by
  induction changes generalizing r with
  | nil => exact ⟨hr, fun t => by simp⟩
  | cons c changes ih =>
    obtain ⟨hvalid', hcontains'⟩ := ih (hvalid r c.1 hr)
    refine ⟨hvalid', fun t => ?_⟩
    rw [foldl_cons, hcontains', hcontains r c.1 t hr, all_cons, Bool.and_assoc]

/-- A state that is added waits, so that no state becomes settled by it. -/
theorem settled_of_insert {t : S} {isUrgent : Bool} {w : Waiting S} (hw : w.Valid)
    (hreached : (r.insert s).contains t) (hwaiting : (w.insert isUrgent s).contains t = false) :
    r.contains t ∧ w.contains t = false := by
  rw [Reached.contains_insert, Bool.or_eq_true] at hreached
  rw [contains_insert hw, Bool.or_eq_false_iff] at hwaiting
  refine ⟨hreached.resolve_left ?_, hwaiting.2⟩
  rw [hwaiting.1]
  exact Bool.false_ne_true

theorem ends_insertNew {new : S} (hx : x.Valid) (h : (do
      if !(← get).reached.contains new then
        modify (fun x => { x with reached := x.reached.insert new })
        enqueue e new : Work W S P PUnit).Ends x ⟨⟩ y) :
    y.Valid ∧ (∀ t, y.reached.contains t = (x.reached.contains t || new == t)) ∧ ∀ t, y.Settled t → x.Settled t := by
  replace h := ends_get_bind.mp h
  split at h
  · rw [ends_modify.mp (ends_modify_bind.mp h)]
    refine ⟨⟨valid_insert hx.1 _, valid_insert hx.2 _ _⟩, fun t => ?_, fun t ht => ?_⟩
    · exact (contains_insert _ new t).trans (Bool.or_comm _ _)
    · exact settled_of_insert hx.2 ht.1 ht.2
  · next hold =>
    obtain ⟨-, rfl⟩ := ends_pure.mp h
    -- nothing happens, and `new` or one equal to it had been reached
    have hnew : y.reached.contains new := by simpa using hold
    refine ⟨hx, fun t => ?_, fun t ht => ht⟩
    rw [Bool.or_comm, or_of_contains (contains_congr _) hnew]

theorem ends_forM_insertNew (hx : x.Valid) (h : (changes.forM (fun c => do
      if !(← get).reached.contains c.2 then
        modify (fun x => { x with reached := x.reached.insert c.2 })
        enqueue e c.2) : Work W S P PUnit).Ends x ⟨⟩ y) :
    y.Valid ∧ (∀ t, y.reached.contains t = (x.reached.contains t || changes.any (fun c => c.2 == t))) ∧
      ∀ t, y.Settled t → x.Settled t := by
  induction changes generalizing x with
  | nil =>
    rw [ends_forM_nil.mp h]
    exact ⟨hx, fun t => by simp, fun t ht => ht⟩
  | cons c changes ih =>
    obtain ⟨z, hz, hy⟩ := ends_forM_cons.mp h
    obtain ⟨hvalid, hcontains, hsettled⟩ := ends_insertNew hx hz
    obtain ⟨hvalid', hcontains', hsettled'⟩ := ih hvalid hy
    refine ⟨hvalid', fun t => ?_, fun t ht => hsettled t (hsettled' t ht)⟩
    rw [hcontains', hcontains, any_cons, Bool.or_assoc]

/-- **Replacing.** States that are replaced by states above them are lost, but nothing that they
cover is. -/
theorem advances_replace (he : e.Monotone above) (hchanges : ∀ c ∈ changes, above c.2 c.1)
    (hx : x.Valid) (h : (replace e changes).Ends x ⟨⟩ y) : Advances e x y := by
  obtain ⟨_, z, hz, hy⟩ := ends_bind.mp h
  replace hz := ends_modify.mp hz
  have hreached : z.reached = changes.foldl (fun r c => r.erase c.1) x.reached := by rw [hz]
  have hwaiting : z.waiting = changes.foldl (fun w c => w.erase c.1) x.waiting := by rw [hz]
  obtain ⟨hrvalid, hrcontains⟩ := contains_foldl_erase Reached.Valid contains erase
    (fun _ s hr => valid_erase hr s) (fun r s t _ => contains_erase r s t) hx.1
  obtain ⟨hwvalid, hwcontains⟩ := contains_foldl_erase Waiting.Valid contains erase
    (fun _ s hw => valid_erase hw s) (fun _ s t hw => contains_erase hw s t) hx.2
  have hzvalid : z.Valid := by
    rw [Valid, hreached, hwaiting]
    exact ⟨hrvalid, hwvalid⟩
  -- first all old states are removed from both tables (`z`), then the new ones are added
  obtain ⟨hyvalid, hycontains, hysettled⟩ := ends_forM_insertNew hzvalid hy
  refine ⟨hyvalid, fun hs => ?_, fun {s} hs => ?_⟩
  · refine covers_of_replaced he hchanges hx.1 hs hyvalid.1 fun t => ?_
    rw [hycontains, hreached, hrcontains]
  · -- a state that is left in the table was not removed from the waiting ones either,
    -- so it did not wait before
    obtain ⟨hr, hw⟩ := hysettled s hs
    rw [hreached, hrcontains, Bool.and_eq_true] at hr
    rw [hwaiting, hwcontains, hr.2, Bool.and_true] at hw
    exact ⟨hr.1, hw⟩

omit [BEq S] [Hashable S] [EquivBEq S] [LawfulHashable S] [LawfulLocated S] in
theorem merged_cons (w : W) (p : P) (s r : S) (reached : List S) : merged e w p s (r :: reached) =
      (match e.merge w p s r with
        | .ok m => if Located.same m r then merged e w p s reached else (merged e w p s reached).map ((r, m) :: ·)
        | .error f => .error f) := by
  unfold merged
  rw [filterMapM_cons]
  cases e.merge w p s r with
  | error f => rfl
  | ok m =>
    cases h : Located.same m r <;> simp [bind, Except.bind, pure, Except.pure, Except.map, h]

omit [BEq S] [Hashable S] [EquivBEq S] [LawfulHashable S] [LawfulLocated S] in
theorem merge_of_mem_merged {w : W} {reached : List S}
    (h : merged e w p s reached = .ok changes) : ∀ c ∈ changes, e.merge w p s c.1 = .ok c.2 := by
  induction reached generalizing changes with
  | nil =>
    cases h
    simp
  | cons r reached ih =>
    rw [merged_cons] at h
    split at h
    · next m hm =>
      split at h
      · -- merging changed nothing, and the reached state is not listed
        exact ih h
      · obtain ⟨rest, hrest, h⟩ := of_bind_eq_ok h
        cases h
        exact forall_mem_cons.mpr ⟨hm, ih hrest⟩
    · cases h

section

variable (he : e.Monotone above) (hx : x.Valid)

include he hx

/-- **Arriving.** A state that is reached is covered from then on. -/
theorem advances_arrive (h : (arrive e p s).Ends x ⟨⟩ y) : Advances e x y ∧ e.Covers y.reached s := by
  obtain ⟨changes, z, hz, hmerged⟩ := ends_bind.mp (ends_get_bind.mp h)
  obtain ⟨hchanges, rfl⟩ := ends_lift.mp hz
  obtain ⟨_, v, hv, hreplaced⟩ := ends_bind.mp hmerged
  have hadvances : Advances e z v :=
    advances_replace he (fun c hc => he.merge_above (merge_of_mem_merged hchanges c hc)) hx hv
  obtain ⟨covered, u, hu, h⟩ := ends_bind.mp (ends_get_bind.mp hreplaced)
  obtain ⟨hcovered, rfl⟩ := ends_lift.mp hu
  -- the question is asked after the merging, so a merged state may have absorbed `s`
  cases covered with
  | true =>
    obtain ⟨-, rfl⟩ := ends_pure.mp h
    refine ⟨hadvances, fun w q => ?_⟩
    rw [he.isCovered_eq w y.world q p, hcovered]
  | false =>
    rw [if_pos (by decide)] at h
    rw [ends_modify.mp (ends_modify_bind.mp h)]
    obtain ⟨hreached, hwaiting⟩ := hadvances.valid
    refine ⟨hadvances.trans ⟨?_, ?_, ?_⟩, he.covers_self s hreached⟩
    · exact ⟨valid_insert hreached s, valid_insert hwaiting _ s⟩
    · exact fun ht => he.covers_insert hreached ht s
    · exact fun ht => settled_of_insert hwaiting ht.1 ht.2

theorem advances_forM_arrive {found : List S}
    (h : (found.forM (arrive e p)).Ends x ⟨⟩ y) : Advances e x y ∧ ∀ s ∈ found, e.Covers y.reached s := by
  induction found generalizing x with
  | nil =>
    rw [ends_forM_nil.mp h]
    exact ⟨.refl hx, by simp⟩
  | cons s found ih =>
    obtain ⟨z, hz, h⟩ := ends_forM_cons.mp h
    obtain ⟨hxz, hs⟩ := advances_arrive he hx hz
    obtain ⟨hzy, hfound⟩ := ih hxz.valid h
    -- the first state stays covered while the others arrive
    exact ⟨hxz.trans hzy, forall_mem_cons.mpr ⟨hzy.covers hs, hfound⟩⟩

theorem advances_follow {edge : Edge} {found : List S} (h : (follow e s edge).Ends x found y) :
    Advances e x y ∧ (∀ t ∈ found, e.Covers y.reached t) ∧ ∃ p w w', (e.post p edge s).Ends w found w' := by
  obtain ⟨p, z, hp, h⟩ := ends_bind.mp h
  obtain ⟨ss, v, hss, h⟩ := ends_bind.mp h
  obtain ⟨_, u, hu, h⟩ := ends_bind.mp h
  obtain ⟨rfl, rfl⟩ := ends_pure.mp h
  have hxz : Advances e x z := advances_precisionFor hx hp
  have hzv : Advances e z v := advances_inWorld hxz.valid hss
  obtain ⟨hvu, hfound⟩ := advances_forM_arrive he hzv.valid hu
  obtain ⟨w, hpost, -⟩ := ends_focus.mp hss
  exact ⟨hxz.trans (hzv.trans hvu), hfound, p, z.world, w, hpost⟩

end

variable {found : List (Edge × List S)}

theorem advances_mapM_follow (he : e.Monotone above)
    (hx : x.Valid) (h : (edges.mapM (fun edge => do return (edge, ← follow e s edge))).Ends x found y) :
    Advances e x y ∧ found.map Prod.fst = edges ∧ (∀ f ∈ found, ∀ t ∈ f.2, e.Covers y.reached t) ∧
      ∀ f ∈ found, ∃ p w w', (e.post p f.1 s).Ends w f.2 w' := by
  induction edges generalizing x found with
  | nil =>
    obtain ⟨rfl, rfl⟩ := ends_mapM_nil.mp h
    exact ⟨.refl hx, rfl, by simp, by simp⟩
  | cons edge edges ih =>
    obtain ⟨first, z, rest, hfirst, hrest, rfl⟩ := ends_mapM_cons.mp h
    obtain ⟨ss, v, hss, hpure⟩ := ends_bind.mp hfirst
    obtain ⟨rfl, rfl⟩ := ends_pure.mp hpure
    obtain ⟨hxz, hcovers, hpost⟩ := advances_follow he hx hss
    obtain ⟨hzy, hedges, hcovers', hposts⟩ := ih hxz.valid hrest
    refine ⟨hxz.trans hzy, by rw [map_cons, hedges], forall_mem_cons.mpr ⟨fun t ht => ?_, hcovers'⟩,
      forall_mem_cons.mpr ⟨hpost, hposts⟩⟩
    exact hzy.covers (hcovers t ht)

/-- **Exploring.** Every edge of the state is followed, and every state after it is covered in the
end. -/
theorem advances_explore (he : e.Monotone above) (hedges : e.DistinctEdges) {v : Visit S} (hx : x.Valid)
    (h : (explore e s).Ends x v y) :
    Advances e x y ∧ v.Shows e s ∧ v.found.map Prod.fst = v.edges ∧ ∀ f ∈ v.found, ∀ t ∈ f.2, e.Covers y.reached t := by
  obtain ⟨_, x₀, hnoted, h₀⟩ := ends_bind.mp h
  replace h₀ := ends_get_bind.mp h₀
  split at h₀
  · -- a label without a precision: the exploration fails and does not end
    exact absurd h₀ not_ends_throw
  · obtain ⟨⟨t, q⟩, x₁, hadjust, h₁⟩ := ends_bind.mp h₀
    obtain ⟨_, x₂, hprecision, h₂⟩ := ends_bind.mp h₁
    obtain ⟨edges, x₃, hgiven, h₃⟩ := ends_bind.mp h₂
    obtain ⟨_, x₄, hstuck, h₄⟩ := ends_bind.mp h₃
    obtain ⟨found, x₅, hfollow, h₅⟩ := ends_bind.mp h₄
    obtain ⟨rfl, rfl⟩ := ends_pure.mp h₅
    -- nothing before the edges are followed touches what was reached or what waits
    have hx₀ : Advances e x x₀ := by
      rw [ends_modify.mp hnoted]
      exact .of_eq hx rfl rfl
    have hx₁ : Advances e x x₁ := hx₀.trans (advances_inWorld hx₀.valid hadjust)
    have hx₂ : Advances e x x₂ := by
      rw [ends_modify.mp hprecision]
      exact hx₁.trans (.of_eq hx₁.valid rfl rfl)
    have hx₃ : Advances e x x₃ := hx₂.trans (advances_inWorld hx₂.valid hgiven)
    have hx₄ : Advances e x x₄ := hx₃.trans (advances_noteStuck hx₃.valid hstuck)
    obtain ⟨hfollowed, hfound, hcovers, hposts⟩ := advances_mapM_follow he hx₄.valid hfollow
    obtain ⟨w, hadjust, -⟩ := ends_focus.mp hadjust
    obtain ⟨w', hgiven, -⟩ := ends_focus.mp hgiven
    refine ⟨hx₄.trans hfollowed, ⟨?_, ?_, hposts⟩, ?_, hcovers⟩
    · exact ⟨_, _, _, _, _, hadjust⟩
    · exact ⟨_, _, hgiven⟩
    · -- no edge is dropped as a repetition of another
      rw [hfound, Edge.foldl_insert_of_pairwise (hedges _ _ _ _ hgiven) [] (by simp), nil_append]

end Explore

/-! ### Runs -/

section Run

variable [BEq S] [Hashable S]

/-- One turn of the loop: `s` is picked and explored, and `v` is what that showed. -/
def Iterates (e : Explorer W S P) (pick? : Exploration W S P → Option (S × Waiting S)) (x : Exploration W S P) (s : S)
    (v : Visit S) (y : Exploration W S P) : Prop :=
  e.isOver x.world = false ∧ ∃ waiting, pick? x = some (s, waiting) ∧
    (explore e s).Ends { x with waiting, visited := x.visited + 1 } v y

def Goes (e : Explorer W S P) (pick? : Exploration W S P → Option (S × Waiting S)) :
    Exploration W S P → Exploration W S P → Prop :=
  Relation.ReflTransGen (fun x y => ∃ s v, Iterates e pick? x s v y)

/-- On the way from `x₀` to `x` the state was picked, all its edges were followed, and the states
after them are covered at the end of the way. -/
def Explored (e : Explorer W S P) (pick? : Exploration W S P → Option (S × Waiting S)) (x₀ x : Exploration W S P)
    (s : S) : Prop :=
  ∃ y t v z, Goes e pick? x₀ y ∧ Iterates e pick? y t v z ∧ Goes e pick? z x ∧ (t == s) = true ∧ v.Shows e t ∧
    ∀ edge ∈ v.edges, ∃ ss, (edge, ss) ∈ v.found ∧ ∀ u ∈ ss, e.Covers x.reached u

/-- What holds before every turn. -/
structure Inv (e : Explorer W S P) (pick? : Exploration W S P → Option (S × Waiting S)) (start : S)
    (x₀ x : Exploration W S P) : Prop where
  valid : x.Valid
  goes : Goes e pick? x₀ x
  start : e.Covers x.reached start
  explored {s : S} (hs : x.Settled s) : Explored e pick? x₀ x s

variable [EquivBEq S] [LawfulHashable S] [LawfulLocated S]
variable {e : Explorer W S P} {above : S → S → Prop} {pick? : Exploration W S P → Option (S × Waiting S)}
variable {x₀ x y : Exploration W S P} {start s : S}

theorem inv_begin (he : e.Monotone above) {w : W} (h : (begin e start).Ends { world := w } ⟨⟩ x) :
    Inv e pick? start x x := by
  obtain ⟨_, y, hy, h⟩ := ends_bind.mp h
  obtain ⟨_, z, hz, h⟩ := ends_bind.mp h
  obtain ⟨p, v, hv, h⟩ := ends_bind.mp h
  obtain ⟨-, rfl⟩ := ends_pure.mp h
  rw [ends_modify.mp hy] at hz
  replace hz := ends_modify.mp hz
  have hreached : z.reached = insert {} start := by rw [hz]
  have hwaiting : z.waiting = insert {} (e.isUrgent w start) start := by rw [hz]
  have hvalid : z.Valid := by
    rw [Valid, hreached, hwaiting]
    exact ⟨valid_insert valid_empty _, valid_insert valid_empty _ _⟩
  have hadvances : Advances e z x := advances_precisionFor hvalid hv
  refine ⟨hadvances.valid, .refl, hadvances.covers ?_, fun {s} hs => ?_⟩
  · rw [hreached]
    exact he.covers_self start valid_empty
  · -- only the first state was reached, and it waits
    obtain ⟨hr, hw⟩ := hadvances.settled hs
    rw [hreached, Reached.contains_insert, Reached.contains_empty, Bool.or_false] at hr
    rw [hwaiting, contains_insert valid_empty, hr, Bool.true_or] at hw
    cases hw

section

variable (he : e.Monotone above) (hedges : e.DistinctEdges) (hpick : Picks pick?) (hinv : Inv e pick? start x₀ x)

include he hedges hpick hinv

theorem inv_iterates {v : Visit S} (h : Iterates e pick? x s v y) : Inv e pick? start x₀ y := by
  have ⟨_, waiting, hpicked, hexplore⟩ := h
  have hvalid : Valid { x with waiting, visited := x.visited + 1 } :=
    ⟨hinv.valid.1, hpick.valid_of_some hinv.valid.2 hpicked⟩
  obtain ⟨hadvances, hshows, hfound, hcovers⟩ := advances_explore he hedges hvalid hexplore
  have hgoes : Goes e pick? x y := .single ⟨s, v, h⟩
  refine ⟨hadvances.valid, hinv.goes.trans hgoes, hadvances.covers hinv.start, fun {t} ht => ?_⟩
  obtain ⟨hreached, hwaiting⟩ := hadvances.settled ht
  cases ht' : x.waiting.contains t with
  | true =>
    -- the state waited before, so it is the one that was picked
    have hst : (s == t) := by
      rcases hpick.rest_of_some hinv.valid.2 hpicked ht' with hst | hrest
      · exact hst
      · rw [hrest] at hwaiting
        cases hwaiting
    refine ⟨x, s, v, y, hinv.goes, h, .refl, hst, hshows, fun edge hedge => ?_⟩
    rw [← hfound] at hedge
    obtain ⟨⟨_, ss⟩, hmem, rfl⟩ := mem_map.mp hedge
    exact ⟨ss, hmem, hcovers _ hmem⟩
  | false =>
    -- it was settled before, and what its edges lead to stays covered
    obtain ⟨a, u, v', b, ha, hab, hb, hut, hshows', hedges'⟩ := hinv.explored ⟨hreached, ht'⟩
    refine ⟨a, u, v', b, ha, hab, hb.trans hgoes, hut, hshows', fun edge hedge => ?_⟩
    obtain ⟨ss, hmem, hss⟩ := hedges' edge hedge
    exact ⟨ss, hmem, fun u hu => hadvances.covers (hss u hu)⟩

theorem inv_runTo {n : Nat} (h : (runTo e pick? n).Ends x ⟨⟩ y) : Inv e pick? start x₀ y := by
  -- the invariant holds before each turn, whatever ends the loop: no turns left, the world says so,
  -- or nothing to pick
  induction n generalizing x with
  | zero =>
    obtain ⟨-, rfl⟩ := ends_pure.mp h
    exact hinv
  | succ n ih =>
    replace h := ends_get_bind.mp h
    split at h
    · obtain ⟨-, rfl⟩ := ends_pure.mp h
      exact hinv
    · next hover =>
      split at h
      · obtain ⟨-, rfl⟩ := ends_pure.mp h
        exact hinv
      · next s waiting hpicked =>
        obtain ⟨v, z, hz, h⟩ := ends_bind.mp (ends_set_bind.mp h)
        exact ih (inv_iterates he hedges hpick hinv ⟨by simpa using hover, waiting, hpicked, hz⟩) h

end

/-- **An exploration that ends with nothing left to do is closed.** The first state is covered by
what was reached, and each reached state was picked in one of the turns, in which all its edges were
followed to states that the reached ones cover in the end. -/
theorem closed_of_ends (he : e.Monotone above) (hedges : e.DistinctEdges) (hpick : Picks pick?) {w : W} {n : Nat}
    (h : (do begin e start; runTo e pick? n : Work W S P Unit).Ends { world := w } ⟨⟩ x)
    (hempty : x.waiting.isEmpty = true) :
    e.Covers x.reached start ∧
      ∃ x₀, (begin e start).Ends { world := w } ⟨⟩ x₀ ∧ ∀ s, x.reached.contains s = true → Explored e pick? x₀ x s := by
  obtain ⟨_, x₀, hbegin, hrun⟩ := ends_bind.mp h
  have hinv : Inv e pick? start x₀ x := inv_runTo he hedges hpick (inv_begin he hbegin) hrun
  refine ⟨hinv.start, x₀, hbegin, fun s hs => hinv.explored ⟨hs, ?_⟩⟩
  exact contains_of_isEmpty hinv.valid.2 hempty s

end Run

section Climber

/-- A number at a label. -/
structure Level where
  height : Nat
  deriving BEq, ReflBEq, LawfulBEq, Hashable

instance : Located Level := ⟨fun _ => ⟨0, 0⟩, fun a b => a == b⟩

instance : LawfulLocated Level := ⟨fun _ _ => rfl, fun _ => rfl⟩

/-- Numbers that climb to a bound. They are merged to the greater one, and a number covers all
smaller ones. -/
def climber (top : Nat) : Explorer Unit Level Unit where
  isUrgent _ _ := false
  startPrecision _ := return ()
  adjust _ p s := return (s, p)
  edges _ := return [⟨⟨0, 0⟩, ⟨0, 0⟩, .block [], .may⟩]
  isStuck _ := return false
  post _ _ s := return [⟨min (s.height + 1) top⟩]
  merge _ _ new old := .ok ⟨max new.height old.height⟩
  isCovered _ _ s r := .ok ((r.at_ (Located.location s)).any (fun t => s.height ≤ t.height))

theorem any_le_iff {r : Reached Level} {s : Level} : (r.at_ (Located.location s)).any (fun t => s.height ≤ t.height) ↔
      ∃ t, r.contains t ∧ s.height ≤ t.height := by
  have hmem (t : Level) : r.contains t ↔ t ∈ r.at_ (Located.location s) := by
    rw [contains_eq_any, any_beq']
    exact contains_iff_mem
  simp only [any_eq_true, hmem, decide_eq_true_eq]

theorem covers_climber {top : Nat} {r : Reached Level} {s : Level} :
    (climber top).Covers r s ↔ ∃ t, r.contains t ∧ s.height ≤ t.height := by
  rw [← any_le_iff]
  exact ⟨fun h => Except.ok.inj (h () ()), fun h _ _ => congrArg Except.ok h⟩

theorem monotone_climber (top : Nat) : (climber top).Monotone (fun new old => old.height ≤ new.height) where
  merge_above h := by
    cases h
    exact Nat.le_max_right _ _
  isCovered_eq _ _ _ _ _ _ := rfl
  isCovered_congr _ _ s r r' _ _ h := by
    refine congrArg Except.ok (Bool.eq_iff_iff.mpr ?_)
    simp only [any_le_iff, h]
  covers_self s _ _ := by
    rw [covers_climber]
    exact ⟨s, by rw [Reached.contains_insert, BEq.rfl, Bool.true_or], Nat.le_refl _⟩
  covers_insert _ h t := by
    obtain ⟨u, hu, hle⟩ := covers_climber.mp h
    rw [covers_climber]
    exact ⟨u, by rw [Reached.contains_insert, hu, Bool.or_true], hle⟩
  covers_replace {s old new r} _ h _ habove := by
    obtain ⟨u, hu, hle⟩ := covers_climber.mp h
    rw [covers_climber]
    -- if what covered `s` is replaced, then the state above it covers `s`
    by_cases hold : old = u
    · subst hold
      exact ⟨new, by rw [Reached.contains_insert, BEq.rfl, Bool.true_or], Nat.le_trans hle habove⟩
    · exact ⟨u, by simp [Reached.contains_insert, Reached.contains_erase, hu, hold], hle⟩

theorem distinctEdges_climber (top : Nat) : (climber top).DistinctEdges := by
  intro s w es w' h
  obtain ⟨rfl, -⟩ := ends_pure.mp h
  exact pairwise_singleton _ _

def climb : Work Unit Level Unit Unit := do
  begin (climber 2) ⟨0⟩
  runTo (climber 2) (fun x => x.waiting.pick?) 5

/-- Zero and one are reached on the way up and replaced, and what is left is closed. -/
theorem closed_climb :
    climb.Ends { world := () } () (climb.outcome { world := () }).2 ∧
      (climb.outcome { world := () }).2.waiting.isEmpty = true ∧
      (climber 2).Covers (climb.outcome { world := () }).2.reached ⟨0⟩ ∧
      ∃ x₀, (begin (climber 2) ⟨0⟩).Ends { world := () } () x₀ ∧
        ∀ s, (climb.outcome { world := () }).2.reached.contains s = true →
          Explored (climber 2) (fun x => x.waiting.pick?) x₀ (climb.outcome { world := () }).2 s := by
  have hok : (climb.outcome { world := () }).1.toOption = some () := by cbv
  have hends : climb.Ends { world := () } () (climb.outcome { world := () }).2 := by
    unfold FaultyM.Ends
    revert hok
    rcases climb.outcome { world := () } with ⟨f | ⟨⟩, x⟩
    · intro h
      cases h
    · intro _
      rfl
  have hempty : (climb.outcome { world := () }).2.waiting.isEmpty = true := by cbv
  exact ⟨hends, hempty,
    closed_of_ends (monotone_climber 2) (distinctEdges_climber 2) picks_pick? hends hempty⟩

end Climber

end Exploration

end FlowRecovery
