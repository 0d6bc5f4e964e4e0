import FlowRecovery.Proofs.IA32.Branching

/-!
# Counted loops

The instructions of the loop family count `ecx` down and jump if it is not zero then. Two of them
ask about the zero flag as well, and the specification writes this as `%ecx ~= 0 & %ZF`. But
conjunctions bind tighter than inequalities, so `ecx` is compared with the conjunction of zero and
the flag, which is zero again. Hence all instructions of the family have the guard of the one
without condition (`lift_loop`): they are right as long as the flag is what they ask for, or the
counter has become zero.
-/

namespace FlowRecovery.IA32

open FlowRecovery.Expr
open Instruction (instantiation)

/-! ### What the specification says -/

/-- The instructions that count down and jump. -/
inductive Loop where
  | counted | whileEqual | whileDifferent
  deriving DecidableEq

namespace Loop

def names : Loop → List String
  | counted => ["loop"]
  | whileEqual => ["loope", "loopz"]
  | whileDifferent => ["loopne", "loopnz"]

def all : List Loop := [counted, whileEqual, whileDifferent]

def flag? : Loop → Option Bool
  | counted => none
  | whileEqual => some true
  | whileDifferent => some false

/-- The loop should go on, when the counter is `n` after it was counted down and the zero flag is
`z`. -/
def GoesOn (l : Loop) (n : BitVec 32) (z : Bool) : Prop := n ≠ 0 ∧ ∀ b ∈ l.flag?, z = b

end Loop

def ecx : Var := Size.dword.var 1

def countedDown (u : Int) : Expr := .op .plus [.var ecx, .num (-1) u]

/-- The counter is not zero, where zero has a width or none. -/
def notDone (u : Int) : Expr := .op .not [.op .equal [.var ecx, .num 0 u]]

def countDown : Effect := .template 32 (.var ecx) (countedDown unknownWidth)

def jumpBack : Effect := .goto ⟨some (.op .plus [.var pc, .var reloc8]), notDone unknownWidth, .jump⟩

def loopTemplate (name : String) : Template := ⟨name, [reloc8], some [.ofEffect countDown, .ofEffect jumpBack]⟩

theorem reads_loops : ∀ l ∈ Loop.all, ∀ n ∈ l.names,
    Architecture.groupOf (Chapter.read base [loops.toList]) n.toUpper.toList = [loopTemplate n.toUpper] := by
  rw [base_eq]
  unfold loops
  rw [String.toList_ofList]
  decide +kernel

theorem names_loop : ∀ l ∈ Loop.all, ∀ n ∈ l.names, chapters.findIdx (·.names.contains n.toUpper) = 7 ∧
      String.ofList (Architecture.groupName n.toUpper.toList) = n.toUpper ∧
      Instruction.repeatable.any (fun r => n.toUpper.startsWith r) = false ∧
      Instruction.directives.lookup n.toUpper = none := by
  decide +kernel

theorem template?_loop {l : Loop} {i : Instruction} (summarize : Bool) (hi : i.name ∈ l.names) :
    i.template? architecture summarize = some (loopTemplate i.name.toUpper) := by
  have hl : l ∈ Loop.all := by cases l <;> decide
  obtain ⟨hchapter, hgroup, hrepeat, hlookup⟩ := names_loop l hl _ hi
  have hdirective : i.directive? architecture = none := by
    unfold Instruction.directive?
    rw [hlookup]
    split <;> rfl
  have hspec : i.specName = i.name.toUpper := by simp [Instruction.specName, hrepeat]
  have htemplates : architecture.group? i.name.toUpper = some [loopTemplate i.name.toUpper] := by
    rw [group?_eq, hchapter]
    exact congrArg some (reads_loops l hl _ hi)
  have hnamed : architecture.named? i.name.toUpper = some (loopTemplate i.name.toUpper) := by
    unfold Architecture.named?
    rw [hgroup, htemplates]
    simp [loopTemplate]
  unfold Instruction.template?
  rw [hdirective]
  simp only [hspec, htemplates, hnamed, Option.some_or]

/-! ### Lifting -/

theorem countDown_passes (t : Expr) (next : Int64) :
    Effect.Passes (instantiation pc [(reloc8, t)] next) countDown (.assign ecx (countedDown 32)) := by
  have hfree : (instantiation pc [(reloc8, t)] next).Free ecx := by
    refine Instruction.free_instantiation ?_ (by decide)
    simp [reloc8, parameter, ecx, Size.var]
  have hsettles : Settles (instantiation pc [(reloc8, t)] next) ecx (countedDown unknownWidth) (countedDown 32) := by
    refine ⟨⟨countedDown unknownWidth, rfl, rfl, rfl⟩, rfl, rfl, ?_⟩
    exact plain_op (applyRules_inequalities (by simp) (by simp) (by simp)) (by simp [plain_var, plain_num])
  exact hsettles.passes hfree

theorem jumpBack_passes (d next : Int64) : Effect.Passes (instantiation pc [(reloc8, .number d 32)] next) jumpBack
      (.goto ⟨some (.number (next + d) 32), notDone 32, .jump⟩) :=
  goto_passes rfl rfl rfl rfl

theorem exists_lift_loop {l : Loop} {i : Instruction} {d : Int} (summarize : Bool) (address : Int64)
    (hi : i.name ∈ l.names) (hos : i.operands = [.relative d]) :
    ∃ count jump, i.lift architecture summarize address = .ok [count, jump] ∧
      count.effect = .assign ecx (countedDown 32) ∧
      jump.effect = .goto ⟨some (.number (address + .ofNat i.size + .ofInt d) 32), notDone 32, .jump⟩ := by
  have hbindings : i.bindings architecture.vars (loopTemplate i.name.toUpper) =
      .ok [(reloc8, .number (.ofInt d) 32)] := by
    refine Instruction.bindings_eq (by rw [hos]; exact Nat.lt_irrefl 1) (by rw [hos]; rfl) (.cons rfl .nil)
  have hcount := countDown_passes (.number (.ofInt d) 32) (address + .ofNat i.size)
  have hjump := jumpBack_passes (.ofInt d) (address + .ofNat i.size)
  rw [← standard_architecture.counter] at hcount hjump
  obtain ⟨ss, hss, heffects⟩ := Instruction.lift_of_passes (template?_loop summarize hi) rfl hbindings (by simp)
    (.cons hcount (.cons hjump .nil)) (by simp)
  obtain ⟨count, rest, rfl, hcount, hrest⟩ := List.map_eq_cons_iff.mp heffects
  obtain ⟨jump, rfl, hjump⟩ := List.map_eq_singleton_iff.mp hrest
  exact ⟨count, jump, hss, hcount, hjump⟩

/-! ### Running -/

section

variable {r : Registers} {ρ : Registers.File}

theorem denote_countedDown (κ : Contents) : (countedDown 32).denote κ 32 = (Expr.var ecx).denote κ 32 - 1 := by
  change (var ecx).denote κ 32 + (BitVec.ofInt 32 (-1) + 0) = _
  rw [BitVec.sub_eq_add_neg]
  rfl

theorem shown_countedDown (r : Registers) (ρ : Registers.File) :
    Size.dword.shown r (r.assign ρ ecx (countedDown 32)) 1 = Size.dword.shown r ρ 1 - 1 := by
  change (var ecx).denote (r.read _) 32 = (var ecx).denote (r.read ρ) 32 - 1
  rw [Registers.denote_assign rfl, denote_countedDown]

theorem denote_notDone (r : Registers) (ρ : Registers.File) :
    (notDone 32).denote (r.read ρ) 1 = 1#1 ↔ Size.dword.shown r ρ 1 ≠ 0 := by
  have hequal : Tells (r.read ρ) (.op .equal [.var ecx, .num 0 32]) (Size.dword.shown r ρ 1 == 0) :=
    tells_compare (o := .equal) rfl rfl
  exact Tells.iff hequal.not (by simp)

end

/-- **Counted loops.** Every instruction of the family counts down and jumps exactly if the counter
is not zero then. So it jumps exactly when it should if the zero flag is what it asks for, or if the
counter has become zero. -/
theorem lift_loop {l : Loop} {i : Instruction} {d : Int} (summarize : Bool) (address : Int64) (ρ : Registers.File)
    (hi : i.name ∈ l.names) (hos : i.operands = [.relative d]) :
    ∃ count goto jump ρ', i.lift architecture summarize address = .ok [count, goto] ∧
      runAll architecture.vars ρ [count] = some ρ' ∧ goto.effect = .goto jump ∧
      jump.target = some (.number (address + Int64.ofNat i.size + Int64.ofInt d) 32) ∧
      Size.dword.shown architecture.vars ρ' 1 = Size.dword.shown architecture.vars ρ 1 - 1 ∧
      architecture.vars.read ρ' ZF = architecture.vars.read ρ ZF ∧
      (jump.condition.denote (architecture.vars.read ρ') 1 = 1#1 ↔ Size.dword.shown architecture.vars ρ' 1 ≠ 0) ∧
      ((jump.condition.denote (architecture.vars.read ρ') 1 = 1#1 ↔
          l.GoesOn (Size.dword.shown architecture.vars ρ' 1) (architecture.vars.read ρ ZF == 1#1)) ↔
        Size.dword.shown architecture.vars ρ' 1 = 0 ∨ ∀ b ∈ l.flag?, (architecture.vars.read ρ ZF == 1#1) = b) := by
  obtain ⟨count, goto, hlift, hcount, hgoto⟩ := exists_lift_loop summarize address hi hos
  have hrun : runAll architecture.vars ρ [count] = some (architecture.vars.assign ρ ecx (countedDown 32)) := by
    unfold runAll
    simp only [effects, List.map_cons, List.map_nil, hcount]
    rfl
  have hguard := denote_notDone architecture.vars (architecture.vars.assign ρ ecx (countedDown 32))
  refine ⟨count, goto, _, _, hlift, hrun, hgoto, rfl, shown_countedDown _ _, ?_, hguard, ?_⟩
  · refine Registers.read_write_of_apart _ ?_
    rintro k j ⟨hk, -⟩ ⟨hk', -⟩
    have hcounter : 37 ≤ (architecture.vars.place ecx).1 := standard_architecture.le_place .dword 1
    have hflag : (architecture.vars.place ZF).1 = 36 := by
      rw [Registers.place_whole (standard_architecture.wholes ZF (by decide))]
      rfl
    omega
  · rw [hguard]
    unfold Loop.GoesOn
    tauto

theorem read_blank (r : Registers) (x : Var) : r.read (fun _ _ => false) x = 0 := by
  apply BitVec.eq_of_getLsbD_eq
  intro k hk
  simp [Registers.read, BitVec.getLsbD_ofFnLE]

theorem shown_blank (s : Size) (r : Registers) (n : Fin 8) : s.shown r (fun _ _ => false) n = 0 := by
  rw [Size.shown, read_blank]
  exact BitVec.setWidth_zero _ _

/-- Where all registers are zero, the loop that goes on while the zero flag is cleared counts down
to -1 and jumps. -/
theorem lift_loopne_from_zero :
    ∃ count goto jump ρ',
      (Instruction.mk "loopne" default [.relative (-5)] 2 {}).lift architecture false 4096 = .ok [count, goto] ∧
      runAll architecture.vars (fun _ _ => false) [count] = some ρ' ∧ goto.effect = .goto jump ∧
      Size.dword.shown architecture.vars ρ' 1 = BitVec.ofInt 32 (-1) ∧
      jump.condition.denote (architecture.vars.read ρ') 1 = 1#1 ∧
      Loop.whileDifferent.GoesOn (BitVec.ofInt 32 (-1)) false := by
  obtain ⟨count, goto, jump, ρ', hlift, hrun, hgoto, -, hcounter, -, hguard, -⟩ := lift_loop (l := .whileDifferent)
    (i := ⟨"loopne", default, [.relative (-5)], 2, {}⟩) false 4096 (fun _ _ => false) (by decide) rfl
  rw [shown_blank] at hcounter
  rw [hcounter] at hguard
  exact ⟨count, goto, jump, ρ', hlift, hrun, hgoto, hcounter, hguard.mpr (by decide), by decide, by simp [Loop.flag?]⟩

/-- Where all registers are zero, the loop that goes on while the zero flag is set jumps, although
the flag is cleared. -/
theorem lift_loope_from_zero :
    ∃ count goto jump ρ',
      (Instruction.mk "loope" default [.relative (-5)] 2 {}).lift architecture false 4096 = .ok [count, goto] ∧
      runAll architecture.vars (fun _ _ => false) [count] = some ρ' ∧ goto.effect = .goto jump ∧
      jump.condition.denote (architecture.vars.read ρ') 1 = 1#1 ∧
      ¬Loop.whileEqual.GoesOn (Size.dword.shown architecture.vars ρ' 1)
        (architecture.vars.read (fun _ _ => false) ZF == 1#1) := by
  obtain ⟨count, goto, hlift, hcount, hgoto⟩ := exists_lift_loop (l := .whileEqual)
    (i := ⟨"loope", default, [.relative (-5)], 2, {}⟩) false 4096 (by decide) rfl
  refine ⟨count, goto, _, architecture.vars.assign (fun _ _ => false) ecx (countedDown 32), hlift, ?_, hgoto, ?_, ?_⟩
  · simp only [runAll, effects, List.map_cons, List.map_nil, hcount]
    rfl
  · rw [denote_notDone, shown_countedDown, shown_blank]
    decide
  · rintro ⟨-, hflag⟩
    have hset := hflag true rfl
    rw [read_blank] at hset
    exact absurd hset (by decide)

end FlowRecovery.IA32
