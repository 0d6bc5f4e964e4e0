import FlowRecovery.Proofs.IA32.Flags

/-!
# Compare and branch

A comparison of a register with a register or with a number is lifted to assignments of flags, and a
conditional jump to a statement whose guard is a condition over flags. This module puts them
together: the guard is true exactly if the jump asks for how the two numbers compare
(`guard_after_comparison`).

The templates of comparisons have the layouts of subtractions, and are chosen like them
(`chosen_comparison`).
-/

namespace FlowRecovery.IA32

open FlowRecovery.Expr Instruction Word

variable {s : Size} {r : Registers}

/-! ### Templates of comparisons -/

def Size.mnemonic : Size → String
  | byte => "cmpb"
  | word => "cmpw"
  | dword => "cmpl"

/-- The statements of a comparison: the difference is kept in the scratch register, and the flags
are set. -/
def comparisonBody (s : Size) (x y : Expr) : List Effect :=
  .template s.bits (.var s.scratch) (.op .plus [x, .op .neg [y]]) ::
    (differenceFlags (.var s.scratch) x y).map Flag.effect

def comparisonTemplate (s : Size) (f : Layout) (name : String) : Template :=
  ⟨name, f.parameters s modrm, some ((comparisonBody s (f.first s modrm) (f.second s)).map .ofEffect)⟩

def comparisonTemplates (s : Size) : List Template :=
  (Arithmetic.layouts ⟨true, false⟩ s).map fun (f, ending) => comparisonTemplate s f (s.mnemonic.toUpper ++ "." ++ ending)

theorem comparison_group : ∀ s ∈ Size.all, repeatable.any (fun r => s.mnemonic.toUpper.startsWith r) = false ∧
    chapters.findIdx (·.names.contains s.mnemonic.toUpper) = 3 := by
  decide +kernel

theorem chosen_comparison : ∀ s ∈ Size.all, ∀ k ∈ OperandKind.all, ∀ k' ∈ OperandKind.all, ∀ summarize : Bool,
    Arithmetic.admits ⟨true, false⟩ s k k' →
      (best (score summarize ⟨"", default, [k.operand s, k'.operand s], 0, {}⟩) (comparisonTemplates s)).map contentOf =
        some (contentOf (comparisonTemplate s (Arithmetic.layout ⟨true, false⟩ s k k') "")) := by
  decide +kernel

theorem reads_comparisons : ∀ s ∈ Size.all,
    Architecture.groupOf (Chapter.read base [subtractionFlags.toList, comparison.toList]) s.mnemonic.toUpper.toList =
      comparisonTemplates s := by
  rw [base_eq]
  unfold subtractionFlags comparison
  rw [String.toList_ofList, String.toList_ofList]
  decide +kernel

/-! ### Running a comparison -/

theorem Whole.ofBits_number {e : Expr} (h : Whole s e) (σ : State) :
    ofBits (s.number r e σ) = value (σ.machine r) e := by
  cases h with
  | cell h => exact h.ofBits_number σ
  | number hv =>
    rw [number_num, value_num]
    exact hv

section

variable {c : Context} {x y e : Expr} {n : Fin 8} (h : Operates c s x y (.var (s.var n)) e e)
  (hmade : OfRegisters True s.bits e) (hne : .var (s.var n) = e ∨ e.equals (.var (s.var n)) = false)

include h

theorem Operates.held_register : Held True s (.var (s.var n)) := by
  refine .cell h.cell fun _ => ?_
  have hwidth := (s.has_var n).width_eq
  rw [← hwidth]
  exact .var (s.var_mem n) (hwidth ▸ s.width_registerWords)

theorem Operates.starts_scratch :
    Starts r True c s (.var (s.var n)) x (.var (s.var n)) (.var s.scratch) fun _ => True where
  becomes := h.first
  loose := h.loose_first
  held := h.held_register
  target := .scratch
  apart := .inr h.cell.scratch_equals
  value_eq _ _ := rfl

include hmade

theorem Operates.compares_scratch : Compares True c s x y (.var s.scratch) (.var (s.var n)) e e (.var s.scratch) where
  cleared := h.cleared
  first := h.first
  second := h.second
  result := ((Held.scratch (m := True)).fixed h.cleared).becomes
  held := h.held_register
  held_result := .scratch
  addend := h.addend
  ofRegisters := hmade

include hne

theorem Operates.lifts_comparison :
    ∀ f ∈ differenceFlags (.var s.scratch) x y, f.Lifts True c (.var (s.var n)) e (.var s.scratch) := by
  refine (h.compares_scratch hmade).lifts_differenceFlags (hne.imp_right fun hne => ?_)
  cases h.addend with
  | cell hcell =>
    cases hcell with
    | register m =>
      rw [equals] at hne ⊢
      rw [← hne, Bool.beq_comm, Bool.beq_comm (a := (s.var n).name)]
    | memory => rfl
  | number => rfl

/-- **What a comparison leaves in the flags.** Its statements assign registers only, and set the
flags by the two operands and their difference. -/
theorem Operates.exists_comparison (hr : Complete r) (he : Whole s e) :
    ∃ es, Effect.Leaves c (comparisonBody s x y) es ∧ es ≠ [] ∧ (∀ f ∈ es, Effect.OfRegisters f) ∧
      ∀ σ : State, ∃ σ', es.foldlM (State.step r) σ = some σ' ∧ σ'.status r =
        Arithmetic.shown ⟨true, false⟩ (s.number r (.var (s.var n)) σ) (s.number r e σ)
          (s.number r (.var (s.var n)) σ - s.number r e σ) := by
  have hcompares := h.compares_scratch hmade
  have hdistinct : (differenceFlags (.var s.scratch) x y).Pairwise fun f g => f.var.index ≠ g.var.index := by
    simp [differenceFlags, CF, OF, SF, ZF]
  obtain ⟨es, hes, hregisters, hrun⟩ := exists_flags hr h.cleared (hcompares.held.lasting hr) (h.addend.lasting hr)
    (hcompares.held_result.lasting hr) (h.lifts_comparison hmade hne) hdistinct
  have hwidth := s.width_scratch
  have hbits := s.bits_le
  have htarget := (h.cleared.free _ s.scratch_mem).target
  rw [hwidth] at htarget
  cases h.computes_difference (r := r) h.starts_scratch he hmade hne with
  | vanishes hz => exact absurd hz.equals_scratch (by simp [equals])
  | @assigns q hq hofRegisters hvalue =>
    refine ⟨.write (.var s.scratch) q :: es, .keep (hq.passes htarget) hes, by simp, ?_, fun σ => ?_⟩
    · exact List.forall_mem_cons.mpr ⟨show Expr.Standard _ q s.scratch.width from hwidth ▸ hofRegisters trivial,
        hregisters trivial⟩
    -- after the difference, the operands are what they were
    have halike : State.Alike σ (σ.put r (.var s.scratch) (value (σ.machine r) q)) :=
      .put_low (hr.whole_scratch s) s.scratch_lt σ _
    obtain ⟨σ', hσ', -, hflags, -⟩ := hrun (σ.put r (.var s.scratch) (value (σ.machine r) q))
    have hfirst := h.cell.keeps_of_alike hr halike
    have hsecond := h.addend.keeps hr halike
    unfold State.Keeps at hfirst hsecond
    rw [hfirst, hsecond, hvalue σ trivial, State.value_put_var (by omega) (by omega) (hwidth ▸ fits_ofBits hbits _),
      ← h.cell.ofBits_number, ← he.ofBits_number] at hflags
    refine ⟨σ', ?_, Arithmetic.status_of_differenceFlags rfl hflags⟩
    rw [List.foldlM_cons, State.step_write _ _ (.inl ⟨_, rfl⟩)]
    exact hσ'

end

/-! ### Comparisons -/

/-- The number that an operand of a comparison stands for: what a register shows, or a number that
is written in the instruction. A number of 8 bits is extended with its sign. -/
inductive Operand.Shows (s : Size) (r : Registers) (ρ : Registers.File) : Operand → BitVec s.bits → Prop where
  | register (m : Fin 8) : Shows s r ρ (.register (s.register m)) (s.shown r ρ m)
  | number {v : Int} {t : DataType} (ht : t.bits = s.bits) : Shows s r ρ (.immediate v t) (BitVec.ofInt s.bits v)
  | short {v : Int} {t : DataType} (ht : t.bits = 8) :
      Shows s r ρ (.immediate v t) ((BitVec.ofInt 8 v).signExtend s.bits)

/-- The comparison is lifted, and running it leaves flags that tell how the register compares with
`b`. -/
def LeavesFlags (s : Size) (i : Instruction) (n : Fin 8) (summarize : Bool) (address : Int64) (ρ : Registers.File)
    (b : BitVec s.bits) : Prop :=
  ∃ ss ρ', i.lift architecture summarize address = .ok ss ∧ runAll architecture.vars ρ ss = some ρ' ∧
    Flags (architecture.vars.read ρ') (s.shown architecture.vars ρ n) b

theorem Source.Denotes.ofRegisters {y : Source s} {e e' : Expr} (hr : Complete r) (h : y.Denotes r e e')
    (hy : y.kind ≠ .memory) : OfRegisters True s.bits e' := by
  intro _
  have hwhole := h.whole
  cases h with
  | @place q _ hq =>
    cases q with
    | register m =>
      have hwidth := (s.has_var m).width_eq
      rw [hq.eq_var hr, ← hwidth]
      exact .var (s.var_mem m) (hwidth ▸ s.width_registerWords)
    | memory => exact absurd rfl hy
  | number | extended | short =>
    cases hwhole with
    | cell hcell => cases hcell
    | number hv => exact .num s.width_registerWords hv

section

variable {i : Instruction} {n : Fin 8} {summarize : Bool} {address : Int64}

theorem admits_register (n : Fin 8) {k : OperandKind} (h : k ≠ .short ∨ s ≠ .byte) :
    Arithmetic.admits ⟨true, false⟩ s (Place.register n : Place s).kind k := by
  have hkind : (Place.register n : Place s).kind = .accumulator ∨ (Place.register n : Place s).kind = .register := by
    by_cases hn : n = 0 <;> simp [Place.kind, hn]
  rcases hkind with hkind | hkind <;> rw [hkind] <;> cases k <;> cases s <;> simp_all [Arithmetic.admits]

section

variable (hi : i.name = s.mnemonic) (hd : i.directive? architecture = none) {t : DataType}

include hi hd

theorem leavesFlags {y : Source s}
    (hos : i.operands = [.register (s.register n), y.operand]) (hy : y.kind ≠ .memory) (hshort : y.kind ≠ .short ∨ s ≠ .byte)
    (ρ : Registers.File) : LeavesFlags s i n summarize address ρ (y.read architecture.vars ⟨ρ, fun _ => 0, fun _ => 0⟩) := by
  have hadmits := admits_register n hshort
  obtain ⟨hrepeat, hchapter⟩ := comparison_group s s.mem_all
  have hgroup : architecture.group? s.mnemonic.toUpper = some (comparisonTemplates s) := by
    rw [group?_eq, hchapter]
    exact congrArg some (reads_comparisons s s.mem_all)
  obtain ⟨t, ht, hcontent⟩ := exists_template (congrArg String.toUpper hi) hd (p := .register n) hos hrepeat hgroup
    (Nat.le_trans (Arithmetic.two_le_layouts _ s) (Nat.le_of_eq (List.length_map _).symm))
    (chosen_comparison s s.mem_all _ (OperandKind.mem_all _) _ (OperandKind.mem_all _) summarize hadmits)
  have hp := Place.denotes_register (s := s) complete_architecture n
  obtain ⟨e, e', ⟨es, hes, htakes⟩, hdenotes, he⟩ := Arithmetic.exists_binds complete_architecture hadmits hp
  obtain rfl := he.mpr (by simp)
  obtain ⟨effs, hleaves, hne, hregisters, hrun⟩ := (htakes.operates (.inl rfl) (address + .ofNat i.size)).exists_comparison
    (hdenotes.ofRegisters complete_architecture hy) (Arithmetic.eq_or_differs complete_architecture hadmits hp hdenotes)
    complete_architecture hdenotes.whole
  obtain ⟨ss, hss, heffects⟩ := lift_of_layout ht (by rw [hos]; rfl) (by rw [hos]; rfl) hes htakes (.inl rfl)
    hcontent hleaves hne
  obtain ⟨σ', hσ', hstatus⟩ := hrun ⟨ρ, fun _ => 0, fun _ => 0⟩
  refine ⟨ss, σ'.file, hss, ?_, ?_⟩
  · unfold runAll
    rw [heffects]
    exact foldlM_run hregisters rfl hσ'
  · rw [Size.number, hp.value_eq, low_ofBits s.bits_le, Size.number, hdenotes.value_eq,
      low_ofBits s.bits_le] at hstatus
    exact flags_of_status (by cases s <;> decide) hstatus

theorem leavesFlags_number {v : Int}
    (ht : t.bits = s.bits) (hos : i.operands = [.register (s.register n), .immediate v t]) (ρ : Registers.File) :
    LeavesFlags s i n summarize address ρ (.ofInt s.bits v) :=
  leavesFlags (y := .number v t ht) hi hd hos nofun (.inl nofun) ρ

theorem leavesFlags_short {v : Int}
    (ht : t.bits = 8) (hos : i.operands = [.register (s.register n), .immediate v t]) (ρ : Registers.File) :
    LeavesFlags s i n summarize address ρ ((BitVec.ofInt 8 v).signExtend s.bits) := by
  by_cases hs : s = .byte
  · subst hs
    rw [show (BitVec.ofInt 8 v).signExtend Size.byte.bits = BitVec.ofInt Size.byte.bits v from BitVec.signExtend_eq _]
    exact leavesFlags_number hi hd ht hos ρ
  · exact leavesFlags (y := .short v t ht) hi hd hos nofun (.inr hs) ρ

theorem leavesFlags_register (m : Fin 8)
    (hos : i.operands = [.register (s.register n), .register (s.register m)]) (ρ : Registers.File) :
    LeavesFlags s i n summarize address ρ (s.shown architecture.vars ρ m) := by
  have hkind : (Place.register m : Place s).kind ≠ .memory := by
    by_cases hm : m = 0 <;> simp [Place.kind, hm]
  exact leavesFlags (y := .place (.register m)) hi hd hos hkind (.inl (Place.kind_ne_short (s := s) (.register m))) ρ

end

end

/-! ### Jumps -/

theorem guard_steps (o : Order) (t : Expr) (next : Int64) :
    (Expr.op .equal [o.guard, .num 1 unknownWidth]).evaluate (instantiation pc [(reloc8, t)] next) =
        .ok (.op .equal [o.guard, .num 1 unknownWidth]) ∧
      (Expr.op .equal [o.guard, .num 1 unknownWidth]).inferWidth 1 = .ok (.op .equal [o.guard, tt]) ∧
      (Expr.op .equal [o.guard, tt]).evaluate .empty = .ok o.guard ∧ o.guard.evaluate .empty = .ok o.guard := by
  cases o <;> exact ⟨rfl, rfl, rfl, rfl⟩

theorem number_add (u v : Int64) : number (wrap 32 u + wrap 32 v) 32 = number (u + v) 32 := by
  rw [number_eq, number_eq, settle_eq_wrap (by decide), settle_eq_wrap (by decide), wrap_add]

/-- A jump whose guard has the width of a truth value after the first pass, and stays as it is after
the second. -/
theorem goto_passes {g g₁ g₂ : Expr} {d next : Int64}
    (hfirst : g.evaluate (instantiation pc [(reloc8, .number d 32)] next) = .ok g) (hwidth : g.inferWidth 1 = .ok g₁)
    (hsecond : g₁.evaluate .empty = .ok g₂) (hthird : g₂.evaluate .empty = .ok g₂) :
    Effect.Passes (instantiation pc [(reloc8, .number d 32)] next)
      (.goto ⟨some (.op .plus [.var pc, .var reloc8]), g, .jump⟩)
      (.goto ⟨some (.number (next + d) 32), g₂, .jump⟩) := by
  have hnumber (k : Int64) : number k 32 = .num (wrap 32 k) 32 := by
    rw [number_eq, settle_eq_wrap (by decide)]
  have htarget : (Expr.op .plus [.var pc, .var reloc8]).evaluate (instantiation pc [(reloc8, .number d 32)] next) =
      .ok (number (next + d) 32) := by
    have hpc : Becomes (instantiation pc [(reloc8, .number d 32)] next) 1 (.var pc) (.num (wrap 32 next) 32) := by
      rw [← hnumber]
      exact fun _ => rfl
    have hreloc :
        Becomes (instantiation pc [(reloc8, .number d 32)] next) 1 (.var reloc8) (.num (wrap 32 d) 32) := by
      rw [← hnumber]
      exact becomes_parameter rfl (.inl (by rw [hnumber]; rfl))
    have hsum := Becomes.plus_numbers hpc hreloc rfl (by decide) (by decide) (fits_wrap _ _) (fits_wrap _ _)
    rw [number_add] at hsum
    exact hsum.evaluate (by decide)
  have hwidth' : (number (next + d) 32).inferWidth addressWidth = .ok (number (next + d) 32) := by
    rw [hnumber]
    exact inferWidth_num _ _
  have hagain : (number (next + d) 32).evaluate .empty = .ok (number (next + d) 32) := by
    rw [hnumber]
    rfl
  refine ⟨.goto ⟨some (.number (next + d) 32), g, .jump⟩, .goto ⟨some (.number (next + d) 32), g₁, .jump⟩,
    .goto ⟨some (.number (next + d) 32), g₂, .jump⟩, .goto ⟨some (.number (next + d) 32), g₂, .jump⟩, ?_, ?_, ?_, ?_,
    rfl, ?_⟩
  · simp only [Effect.evaluate, hfirst, Option.mapM_some, htarget, ok_bind]
    rfl
  · intro c k hgoto
    cases hgoto
  · simp only [Effect.inferTypes, hwidth, hwidth', ok_bind]
    rfl
  · simp only [Effect.evaluate, hsecond, Option.mapM_some, hagain, ok_bind]
    rfl
  · simp only [Effect.evaluate, hthird, Option.mapM_some, hagain, ok_bind]
    rfl

theorem jump_passes (o : Order) (d next : Int64) :
    Effect.Passes (instantiation pc [(reloc8, .number d 32)] next) (o.jump reloc8)
      (.goto ⟨some (.number (next + d) 32), o.guard, .jump⟩) := by
  obtain ⟨hfirst, hwidth, hsecond, hthird⟩ := guard_steps o (.number d 32) next
  exact goto_passes hfirst hwidth hsecond hthird

theorem lift_jump {o : Order} {j : Instruction} {d : Int} (summarize : Bool) (address : Int64) (hj : j.name ∈ o.names)
    (hos : j.operands = [.relative d]) : ∃ g, j.lift architecture summarize address = .ok [g] ∧
      g.effect = .goto ⟨some (.number (address + .ofNat j.size + .ofInt d) 32), o.guard, .jump⟩ := by
  obtain ⟨t, ht, hparameters, hbody⟩ := exists_template_jump summarize hj hos
  have hbindings : j.bindings architecture.vars t = .ok [(reloc8, .number (.ofInt d) 32)] := by
    have hexpr : (Operand.relative d).toExpr architecture.vars = .ok (.number (.ofInt d) 32) := rfl
    have hzip : j.bindings architecture.vars t = .ok (t.parameters.zip [.number (.ofInt d) 32]) :=
      bindings_eq (by rw [hos, hparameters]; exact Nat.lt_irrefl 1) (by rw [hos, hparameters]; rfl)
        (.cons hexpr .nil)
    rwa [hparameters] at hzip
  have hpasses := jump_passes o (.ofInt d) (address + .ofNat j.size)
  rw [← standard_architecture.counter] at hpasses
  obtain ⟨ss, hss, heffects⟩ := lift_of_passes ht hbody hbindings (by simp) (.cons hpasses .nil) (by simp)
  obtain ⟨g, rfl, hg⟩ := List.map_eq_singleton_iff.mp heffects
  exact ⟨g, hss, hg⟩

/-- **Compare and branch.** After a comparison of a register with a register or with a number, the
guard of a conditional jump is true exactly if the jump asks for how the two numbers compare. (A
locked and repeated comparison is a directive and does not compare.) -/
theorem guard_after_comparison {i j : Instruction} {n : Fin 8} {y : Operand} {o : Order} {d : Int}
    {ρ : Registers.File} {b : BitVec s.bits} (summarize : Bool) (address address' : Int64) (hi : i.name = s.mnemonic)
    (hd : i.directive? architecture = none) (hos : i.operands = [.register (s.register n), y])
    (hy : y.Shows s architecture.vars ρ b) (hj : j.name ∈ o.names) (hjos : j.operands = [.relative d]) :
    ∃ ss ρ' g jump, i.lift architecture summarize address = .ok ss ∧ runAll architecture.vars ρ ss = some ρ' ∧
      j.lift architecture summarize address' = .ok [g] ∧ g.effect = .goto jump ∧
      (jump.condition.denote (architecture.vars.read ρ') 1 = 1#1 ↔ o.Holds (s.shown architecture.vars ρ n) b) := by
  have hflags : LeavesFlags s i n summarize address ρ b := by
    cases hy with
    | register m => exact leavesFlags_register hi hd m hos ρ
    | number ht => exact leavesFlags_number hi hd ht hos ρ
    | short ht => exact leavesFlags_short hi hd ht hos ρ
  obtain ⟨ss, ρ', hss, hrun, hflags⟩ := hflags
  obtain ⟨g, hg, heffect⟩ := lift_jump summarize address' hj hjos
  have hpos : 0 < s.bits := by cases s <;> decide
  exact ⟨ss, ρ', g, _, hss, hrun, hg, heffect, hflags.guard_iff hpos o⟩

/-- Zero in `eax` compared with the number -1 of 8 bits: the next jump for *greater* is taken. -/
theorem guard_after_comparison_short :
    ∃ ss ρ' g jump,
      (Instruction.mk "cmpl" default [.register (.dword 0), .immediate (-1) .int8] 3 {}).lift architecture false 4096 =
        .ok ss ∧
      runAll architecture.vars (fun _ _ => false) ss = some ρ' ∧
      (Instruction.mk "jg" default [.relative 5] 2 {}).lift architecture false 4099 = .ok [g] ∧ g.effect = .goto jump ∧
      jump.condition.denote (architecture.vars.read ρ') 1 = 1#1 := by
  obtain ⟨ss, ρ', g, jump, hss, hrun, hg, heffect, hguard⟩ := guard_after_comparison (s := .dword) (n := 0)
    (o := .greater) (i := ⟨"cmpl", default, [.register (.dword 0), .immediate (-1) .int8], 3, {}⟩)
    (j := ⟨"jg", default, [.relative 5], 2, {}⟩) (ρ := fun _ _ => false) false 4096 4099 rfl rfl rfl (.short rfl)
    (by decide) rfl
  refine ⟨ss, ρ', g, jump, hss, hrun, hg, heffect, hguard.mpr ?_⟩
  have hzero : Size.dword.shown architecture.vars (fun _ _ => false) 0 = (0 : BitVec Size.dword.bits) := by
    apply BitVec.eq_of_getLsbD_eq
    intro k hk
    simp [Size.shown, Registers.read, BitVec.getLsbD_ofFnLE]
  rw [hzero]
  change ((BitVec.ofInt 8 (-1)).signExtend 32).toInt < (0#32).toInt
  decide

end FlowRecovery.IA32
