import Mathlib.Data.Set.Lattice
import FlowRecovery.Analysis.Composite
import FlowRecovery.Proofs.Ending

/-!
# Numbers that analyses agree on

Each analysis may say which numbers some expressions have together (`Part.project`). It lists
patterns of numbers, whose open entries stand for any number (`Projection.Fits`), so a list of
patterns stands for a set of tuples (`Projection.tuples`); an analysis that says nothing allows them
all (`Projection.allowed`). Analyses that run side by side unify their patterns pairwise, and what
they say together are the tuples that all of them allow (`Composite.project_eq_inter`).
-/

namespace FlowRecovery

namespace Projection

/-- Each entry of the pattern is open, or it is the number of the tuple. -/
def Fits (pattern : List (Option Num)) (t : List Num) : Prop := List.Forall₂ (fun a n => ∀ m ∈ a, m = n) pattern t

/-- The tuples of numbers that a projection stands for. -/
def tuples (p : Projection) : Set (List Num) := {t | ∃ a ∈ p, Fits a t}

/-- The tuples that an analysis does not rule out. -/
def allowed : Option Projection → Set (List Num)
  | none => Set.univ
  | some p => p.tuples

@[simp] theorem fits_cons_cons {a : Option Num} {as : List (Option Num)} {n : Num} {ns : List Num} :
    Fits (a :: as) (n :: ns) ↔ (∀ m ∈ a, m = n) ∧ Fits as ns := List.forall₂_cons

theorem fits_unify (a b : List (Option Num)) (t : List Num) :
    (∃ c, unify a b = some c ∧ Fits c t) ↔ Fits a t ∧ Fits b t := by
  induction a generalizing b t with
  | nil => cases b <;> cases t <;> simp [unify, Fits]
  | cons x as ih =>
    cases b with
    | nil => cases t <;> simp [unify, Fits]
    | cons y bs =>
      cases t with
      | nil => cases x <;> cases y <;> simp [unify, Fits]
      | cons k t =>
        have htail := ih bs t
        -- an open entry takes the entry beside it, and two numbers have to be the same
        cases x with
        | none => cases y <;> simp [unify] <;> grind
        | some m =>
          cases y with
          | none => simp [unify]; grind
          | some n => by_cases h : m = n <;> simp [unify, h] <;> grind

theorem tuples_inter (p q : Projection) : (inter p q).tuples = p.tuples ∩ q.tuples := by
  ext t
  constructor
  · rintro ⟨c, hc, hfits⟩
    simp only [inter, List.mem_eraseDups, List.mem_flatMap, List.mem_filterMap] at hc
    obtain ⟨a, ha, b, hb, hunify⟩ := hc
    obtain ⟨hfa, hfb⟩ := (fits_unify a b t).mp ⟨c, hunify, hfits⟩
    exact ⟨⟨a, ha, hfa⟩, ⟨b, hb, hfb⟩⟩
  · rintro ⟨⟨a, ha, hfa⟩, ⟨b, hb, hfb⟩⟩
    obtain ⟨c, hunify, hfits⟩ := (fits_unify a b t).mpr ⟨hfa, hfb⟩
    refine ⟨c, ?_, hfits⟩
    simp only [inter, List.mem_eraseDups, List.mem_flatMap, List.mem_filterMap]
    exact ⟨a, ha, b, hb, hunify⟩

theorem allowed_meet (found p : Option Projection) : allowed (meet found p) = allowed found ∩ allowed p := by
  cases found with
  | none => cases p <;> simp [meet, allowed]
  | some r =>
    cases p with
    | none => simp [meet, allowed]
    | some q => exact tuples_inter r q

theorem allowed_foldl_meet (found : Option Projection) (ps : List (Option Projection)) :
    allowed (ps.foldl meet found) = allowed found ∩ ⋂ p ∈ ps, allowed p := by
  induction ps generalizing found with
  | nil => simp
  | cons p ps ih =>
    rw [List.foldl_cons, ih, allowed_meet, Set.inter_assoc]
    simp

theorem isSome_foldl_meet {found : Option Projection} {ps : List (Option Projection)} :
    (ps.foldl meet found).isSome ↔ found.isSome ∨ ∃ p ∈ ps, p.isSome := by
  induction ps generalizing found with
  | nil => simp
  | cons p ps ih =>
    rw [List.foldl_cons, ih]
    cases found <;> cases p <;> simp [meet]

end Projection

namespace Composite

open Projection FaultyM

/-- **Side by side.** If some analysis says something about the expressions, the analyses together
say that the numbers are those that each of them allows. -/
theorem project_eq_inter (c : Composite) {s : CompositeState} {es : List Expr} {p p' : Program}
    {qs : List (Option Projection)} (hparts : Ends (s.parts.mapM (fun part => part.project es)) p qs p')
    (hsome : ∃ q, some q ∈ qs) :
    ∃ r, Ends (c.project s es) p r p' ∧ r.tuples = ⋂ q ∈ {q | some q ∈ qs}, q.tuples := by
  obtain ⟨q, hq⟩ := hsome
  have hfound : (interAll qs).isSome := isSome_foldl_meet.mpr (.inr ⟨some q, hq, rfl⟩)
  obtain ⟨r, hr⟩ := Option.isSome_iff_exists.mp hfound
  refine ⟨r, ?_, ?_⟩
  · rw [project, ends_bind]
    refine ⟨some r, p', ?_, ends_pure.mpr ⟨rfl, rfl⟩⟩
    rw [CompositeState.project, ends_bind]
    exact ⟨qs, p', hparts, ends_pure.mpr ⟨hr.symm, rfl⟩⟩
  · calc r.tuples = allowed (interAll qs) := by rw [hr]; rfl
      _ = ⋂ q ∈ qs, allowed q := by rw [interAll, allowed_foldl_meet]; simp [allowed]
      _ = ⋂ q ∈ {q | some q ∈ qs}, q.tuples := by
        ext t
        simp only [Set.mem_iInter, Set.mem_ofPred_eq]
        constructor
        · exact fun h q hq => h (some q) hq
        · intro h q hq
          cases q with
          | none => trivial
          | some q => exact h q hq

/-- Two analyses know one register each, and one between them says nothing: the third register stays
open. -/
theorem project_two_registers :
    let a : Var := ⟨0, "eax", 32⟩
    let b : Var := ⟨1, "ebx", 32⟩
    let parts : List Part := [.constants (Constants.setVar {} a (.known ⟨5, 32⟩)), .definitions true,
      .constants (Constants.setVar {} b (.known ⟨7, 32⟩))]
    let qs : List (Option Projection) := [some [[some ⟨5, 32⟩, none, none]], none, some [[none, some ⟨7, 32⟩, none]]]
    let es : List Expr := [.var a, .var b, .var ⟨2, "ecx", 32⟩]
    ∃ r, Ends (Composite.project ⟨[], false⟩ ⟨default, parts⟩ es) default r default ∧
      r.tuples = ⋂ q ∈ {q | some q ∈ qs}, q.tuples := by
  intro a b parts qs es
  have hparts : Ends (parts.mapM (fun part => part.project es)) default qs default := rfl
  exact project_eq_inter ⟨[], false⟩ hparts ⟨_, List.mem_cons_self⟩

end Composite

end FlowRecovery
