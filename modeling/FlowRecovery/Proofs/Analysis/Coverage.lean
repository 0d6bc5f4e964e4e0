import FlowRecovery.Analysis.Composite
import FlowRecovery.Proofs.Ending
import FlowRecovery.Proofs.Exploration.Membership

/-!
# What a covered state adds

Analyses that run side by side are asked one by one whether a state adds something to those that
were reached at its label (`Composite.isCovered`). Each answers for its own part, and looks for a
reached part above it. The parts that are found may belong to different states. So a covered state
is below the reached ones part by part (`Composite.covered_part_by_part`), and what it describes is
described by each of these parts whose analysis has an order that agrees with what its parts say
(`Concretization.Monotone`). One of the states describes it if they are all combinations of their
parts (`AllCombinations`), as they are where there is one state, or one analysis. In general none
does (`Composite.isCovered_by_none`).
-/

namespace FlowRecovery

open List

/-- Does the analysis compare a part with each of the reached ones? Others join them first, or do
not look at them. -/
def AnalysisKind.comparesEach : AnalysisKind → Bool
  | .sets | .intervals | .definitions => false
  | _ => true

/-! ### Parts -/

namespace Part

variable {p : Program} {a : Part}

theorem exists_above_of_isBelowSome {bs : List Part} (h : a.isBelowSome p bs = .ok true) :
    ∃ b ∈ bs, a.lessOrEqual p b = .ok true := by
  induction bs with
  | nil => cases h
  | cons b bs ih =>
    rw [isBelowSome] at h
    obtain ⟨t, hb, h⟩ := of_bind_eq_ok h
    cases t with
    | true => exact ⟨b, mem_cons_self, hb⟩
    | false =>
      obtain ⟨b', hmem, hb'⟩ := ih h
      exact ⟨b', mem_cons_of_mem b hmem, hb'⟩

theorem isCovered_eq {k : AnalysisKind} (hk : k.comparesEach) (bs : List Part) :
    a.isCovered p k bs = a.isBelowSome p bs := by
  cases k with
  | sets | intervals | definitions => cases hk
  | _ => rfl

end Part

/-! ### States -/

/-- What the parts of analyses say about the states of a program. -/
structure Concretization (X : Type) where
  /-- Where a state of the program is. -/
  label : X → Label
  /-- Does the part describe the state, as one of the analysis at this place? -/
  describes : Nat → Part → X → Prop

namespace Concretization

variable {X : Type} (γ : Concretization X)

/-- The state of the program is at the location, and all parts describe it. -/
def Describes (s : CompositeState) (x : X) : Prop :=
  γ.label x = s.location ∧ ∀ i a, s.parts[i]? = some a → γ.describes i a x

/-- A part of the `i`-th analysis describes all that the parts below it describe. It is asked of
each analysis alone, as others may lack it: a memory that lost its data is below a fresh one. -/
def Monotone (p : Program) (i : Nat) : Prop :=
  ∀ a b, a.lessOrEqual p b = .ok true → ∀ x, γ.describes i a x → γ.describes i b x

end Concretization

/-- The states hold each combination of the first `n` of their parts. -/
def AllCombinations (n : Nat) (ss : List CompositeState) : Prop :=
  ∀ f : Nat → CompositeState, (∀ i, f i ∈ ss) → ∃ s ∈ ss, s.parts.length = n ∧
  ∀ i < n, s.parts[i]? = (f i).parts[i]?

namespace Composite

variable {p : Program} {c : Composite}

variable {reached : List CompositeState} {s : CompositeState}

theorem exists_above_of_partsCovered {i : Nat} {parts : List (AnalysisKind × Part)}
    (hkinds : ∀ q ∈ parts, q.1.comparesEach) (h : partsCovered p reached i parts = .ok true)
    {j : Nat}
    {q : AnalysisKind × Part} (hq : parts[j]? = some q) :
    ∃ r ∈ reached, ∃ b, r.parts[i + j]? = some b ∧ q.2.lessOrEqual p b = .ok true := by
  induction parts generalizing i j with
  | nil => cases hq
  | cons head rest ih =>
    obtain ⟨k, a⟩ := head
    rw [partsCovered, Part.isCovered_eq (hkinds _ mem_cons_self)] at h
    obtain ⟨t, hbelow, h⟩ := of_bind_eq_ok h
    cases t with
    | false => cases h
    | true =>
      cases j with
      | zero =>
        cases hq
        obtain ⟨b, hb, hle⟩ := Part.exists_above_of_isBelowSome hbelow
        obtain ⟨r, hr, hrb⟩ := mem_filterMap.mp hb
        exact ⟨r, hr, b, hrb, hle⟩
      | succ j =>
        rw [show i + (j + 1) = i + 1 + j by omega]
        exact ih (fun q hq => hkinds q (mem_cons_of_mem _ hq)) h hq

theorem ne_nil_of_isCovered (h : c.isCovered p s reached = .ok true) : reached ≠ [] := by
  rintro rfl
  cases h

theorem exists_above_of_isCovered (hkinds : ∀ k ∈ c.kinds, k.comparesEach)
    (hs : s.parts.length = c.kinds.length) (h : c.isCovered p s reached = .ok true)
    {i : Nat} {a : Part} (ha : s.parts[i]? = some a) :
    ∃ r ∈ reached, ∃ b, r.parts[i]? = some b ∧ a.lessOrEqual p b = .ok true := by
  rw [isCovered, if_neg (by simpa using ne_nil_of_isCovered h)] at h
  obtain ⟨hi, -⟩ := List.getElem?_eq_some_iff.mp ha
  obtain ⟨k, hk⟩ : ∃ k, c.kinds[i]? = some k := ⟨_, getElem?_eq_getElem (by omega)⟩
  have hzip : (c.kinds.zip s.parts)[i]? = some (k, a) := getElem?_zip_eq_some.mpr ⟨hk, ha⟩
  obtain ⟨r, hr, b, hb, hle⟩ :=
    exists_above_of_partsCovered (fun q hq => hkinds q.1 (of_mem_zip hq).1) h hzip
  rw [Nat.zero_add] at hb
  exact ⟨r, hr, b, hb, hle⟩

/-- **What a covered state adds.** Let all analyses compare with each reached part. If a state is
covered by those reached at its label, then each of its parts is below one that was reached there,
and that one describes what the state describes if its analysis is monotone. If all analyses are,
and the reached states are all combinations of their parts, one state describes it. -/
theorem covered_part_by_part {X : Type} (γ : Concretization X)
    (hkinds : ∀ k ∈ c.kinds, k.comparesEach = true) (s : CompositeState)
    (hs : s.parts.length = c.kinds.length) (reached : Reached CompositeState)
    (hvalid : reached.Valid) (hcovered : c.isCovered p s (reached.at_ s.location) = .ok true) :
    (∃ r ∈ reached.at_ s.location, r.location = s.location) ∧
      (∀ (i : Nat) (a : Part), s.parts[i]? = some a →
        ∃ r ∈ reached.at_ s.location, r.location = s.location ∧
          ∃ b, r.parts[i]? = some b ∧ a.lessOrEqual p b = .ok true ∧
            (γ.Monotone p i → ∀ x, γ.Describes s x → γ.describes i b x)) ∧
      (AllCombinations s.parts.length (reached.at_ s.location) →
        (∀ i < c.kinds.length, γ.Monotone p i) →
        ∃ r ∈ reached.at_ s.location, r.location = s.location ∧
          ∀ x, γ.Describes s x → γ.Describes r x) := by
  have habove {i : Nat} {a : Part} (ha : s.parts[i]? = some a) :=
    exists_above_of_isCovered hkinds hs hcovered ha
  obtain ⟨r₀, hr₀⟩ := exists_mem_of_ne_nil _ (ne_nil_of_isCovered hcovered)
  refine ⟨⟨r₀, hr₀, hvalid _ r₀ hr₀⟩, fun i a ha => ?_, fun hcombinations hmono => ?_⟩
  · obtain ⟨r, hr, b, hb, hle⟩ := habove ha
    exact ⟨r, hr, hvalid _ r hr, b, hb, hle, fun hmono x hx => hmono a b hle x (hx.2 i a ha)⟩
  · -- choose a state for each place, and combine their parts
    have hchoice (i : Nat) : ∃ r ∈ reached.at_ s.location, ∀ a, s.parts[i]? = some a →
        ∃ b, r.parts[i]? = some b ∧ a.lessOrEqual p b = .ok true := by
      cases ha : s.parts[i]? with
      | none => exact ⟨r₀, hr₀, fun a h => by cases h⟩
      | some a =>
        obtain ⟨r, hr, b, hb, hle⟩ := habove ha
        exact ⟨r, hr, fun a' ha' => ⟨b, hb, Option.some.inj ha' ▸ hle⟩⟩
    choose f hf hfabove using hchoice
    obtain ⟨r, hr, hlength, hparts⟩ := hcombinations f hf
    refine ⟨r, hr, hvalid _ r hr, fun x hx => ⟨hx.1.trans (hvalid _ r hr).symm, fun i b hb => ?_⟩⟩
    have hlt : i < s.parts.length := hlength ▸ (List.getElem?_eq_some_iff.mp hb).1
    have ha := getElem?_eq_getElem hlt
    obtain ⟨b', hb', hle⟩ := hfabove i _ ha
    obtain rfl := Option.some.inj (hb.symm.trans ((hparts i hlt).trans hb'))
    exact hmono i (hs ▸ hlt) _ b hle x (hx.2 i _ ha)

theorem allCombinations_singleton (s : CompositeState) : AllCombinations s.parts.length [s] := by
  intro f hf
  refine ⟨s, mem_singleton.mpr rfl, rfl, fun i _ => ?_⟩
  rw [mem_singleton.mp (hf i)]

/-- Where a state of a program is, the calls that are open, and the procedure that it runs. -/
structure Position where
  label : Label
  calls : List Label
  procedure : Label

/-- What call stacks and procedures say about positions, at whichever place they stand. -/
def positions : Concretization Position where
  label := Position.label
  describes
    | _, .callStack (.stack ls), x => x.calls = ls
    | _, .procedures ls, x => x.procedure ∈ ls
    | _, _, _ => True

theorem monotone_positions (p : Program) (i : Nat) : positions.Monotone p i := by
  intro a b h x hx
  cases b with
  | callStack d =>
    cases d with
    | any => trivial
    | stack ls =>
      cases a with
      | callStack c =>
        have hd : CallStack.stack ls = c := by
          simpa [Part.lessOrEqual, CallStack.lessOrEqual] using h
        subst hd
        exact hx
      | tracked t => cases t <;> cases h
      | definitions b => cases b <;> cases h
      | _ => cases h
  | procedures ls =>
    cases a with
    | procedures ks =>
      have hall : Part.allIn ks ls = true := Except.ok.inj h
      exact contains_iff_mem.mp (all_eq_true.mp hall _ hx)
    | tracked t => cases t <;> cases h
    | definitions b => cases b <;> cases h
    | _ => cases h
  | _ => trivial

section Examples

def inCall (call procedure : Label) : CompositeState :=
  ⟨⟨0x6000, 0⟩, [.callStack (.stack [call]), .procedures [procedure]]⟩

theorem at_of_insert (s : CompositeState) :
    (({} : Reached CompositeState).insert s).at_ s.location = [s] := by
  exact (Reached.at_insert_of_not_contains (Reached.contains_empty s)).trans (by simp [Reached.at_])

/-- A call that is covered by one to either of two procedures. -/
theorem covered_by_either :
    let p : Program := { arch := default, options := {} }
    let c : Composite := { kinds := [.callStacks, .procedures] }
    let r : CompositeState :=
      ⟨⟨0x6000, 0⟩, [.callStack (.stack [⟨0x2005, 0⟩]), .procedures [⟨0x4000, 0⟩, ⟨0x5000, 0⟩]]⟩
    let s := inCall ⟨0x2005, 0⟩ ⟨0x5000, 0⟩
    let reached := ({} : Reached CompositeState).insert r
    (∀ k ∈ c.kinds, k.comparesEach = true) ∧ s.parts.length = c.kinds.length ∧ reached.Valid ∧
      c.isCovered p s (reached.at_ s.location) = .ok true ∧
      ∃ r' ∈ reached.at_ s.location, r'.location = s.location ∧
        ∀ x, positions.Describes s x → positions.Describes r' x := by
  intro p c r s reached
  have hat : reached.at_ s.location = [r] := at_of_insert r
  have hkinds : ∀ k ∈ c.kinds, k.comparesEach = true := by decide
  have hvalid : reached.Valid := Reached.valid_insert Reached.valid_empty r
  have hcovered : c.isCovered p s (reached.at_ s.location) = .ok true := by
    rw [hat]
    rfl
  refine ⟨hkinds, rfl, hvalid, hcovered, ?_⟩
  refine (covered_part_by_part positions hkinds s rfl reached hvalid hcovered).2.2 ?_
    fun i _ => monotone_positions p i
  rw [hat]
  exact allCombinations_singleton r

/-- Two calls lead from different places through different procedures to one label. Then a call from
the first place through the second procedure is covered, although neither of the states describes
it. -/
theorem isCovered_by_none :
    let p : Program := { arch := default, options := {} }
    let c : Composite := { kinds := [.callStacks, .procedures] }
    let reached := (({} : Reached CompositeState).insert (inCall ⟨0x2005, 0⟩ ⟨0x4000, 0⟩)).insert
      (inCall ⟨0x3005, 0⟩ ⟨0x5000, 0⟩)
    let s := inCall ⟨0x2005, 0⟩ ⟨0x5000, 0⟩
    let x : Position := ⟨⟨0x6000, 0⟩, [⟨0x2005, 0⟩], ⟨0x5000, 0⟩⟩
    (∀ k ∈ c.kinds, k.comparesEach = true) ∧ (∀ i, positions.Monotone p i) ∧
      c.isCovered p s (reached.at_ s.location) = .ok true ∧
      positions.Describes s x ∧ ∀ r ∈ reached.at_ s.location, ¬positions.Describes r x := by
  intro p c reached s x
  have hat : reached.at_ s.location =
    [inCall ⟨0x2005, 0⟩ ⟨0x4000, 0⟩, inCall ⟨0x3005, 0⟩ ⟨0x5000, 0⟩] := by
    have hfirst := at_of_insert (inCall ⟨0x2005, 0⟩ ⟨0x4000, 0⟩)
    refine (Reached.at_insert_of_not_contains ?_).trans (congrArg (· ++ _) hfirst)
    rw [Reached.contains]
    exact (congrArg (any · _) hfirst).trans rfl
  rw [hat]
  refine ⟨by decide, monotone_positions p, rfl, ⟨rfl, ?_⟩, ?_⟩
  · rintro (_ | _ | i) a ha <;> cases ha <;> simp [positions, x]
  · rintro r hr hx
    rcases mem_pair.mp hr with rfl | rfl
    · exact absurd (hx.2 1 _ rfl) (by simp [positions, x])
    · exact absurd (hx.2 0 _ rfl) (by simp [positions, x])

end Examples

end Composite

end FlowRecovery
