import FlowRecovery.Proofs.IA32.Sums

/-!
# Templates with two operands

Templates of instructions with two operands come in five layouts (`Layout`): their first operand is
a place, a register, or the accumulator, which is not a parameter, and their second operand is a
register, a place or a number. `Layout.Takes` says which expressions can stand for the parameters of
a layout, and what the operands are then (`Layout.Takes.operates`).

`lift_operation` puts it together: an instruction whose template is an operation of some layout is
lifted, and its statements do on all states what the operation does. Which template is chosen
depends on the kinds of the operands only (`Operand.Ranks`).
-/

namespace FlowRecovery.IA32

open FlowRecovery.Expr Instruction Word

variable {s : Size} {e e' p : Expr} {next : Int64}

/-! ### Instantiated operands -/

variable {pairs : List (Var × Expr)}

theorem open_instantiation (h : ∀ q ∈ pairs, 88 ≤ q.1.index) (next : Int64) : Open (instantiation pc pairs next) where
  free x hx := by
    have hindex := index_of_mem_operandVars x hx
    refine free_instantiation (fun q hq => ?_) (Nat.ne_of_lt hindex.1)
    have := h q hq
    omega
  assignment_mem w a s n := rfl

theorem becomes_operand {q : Var}
    (hq : (instantiation pc pairs next).substitution (.var q) = e) (he : Cell s e ∨ e.isPlace = false) :
    Becomes (instantiation pc pairs next) 1 (.var q) e := by
  rcases he with hcell | he
  · cases hcell with
    | register n =>
      have hle := s.le_index n
      have hpos : 0 < (s.var n).index := by omega
      exact becomes_parameter hq (.inr ⟨_, rfl, Nat.ne_of_lt hpos⟩)
    | @memory a ha t =>
      have hvalue : (instantiation pc pairs next).valueOf q = .mem s.bits a (segmentOf t) 0 := by
        unfold Context.valueOf
        rw [hq]
        rfl
      have hvar := Becomes.var (c := instantiation pc pairs next) q
      rwa [hvalue] at hvar
  · exact becomes_parameter hq (.inl he)

theorem Addend.cell_or (h : Addend s e e') : Cell s e ∨ e.isPlace = false := by
  cases h with
  | cell h => exact .inl h
  | number => exact .inr rfl

section

variable {q q' : Var}

theorem target_operand (hq : 88 ≤ q.index) (hp : Cell s p)
    (hpair : (instantiation pc pairs next).substitution (.var q) = p) :
    Target (instantiation pc pairs next) s.bits (.var q) p := by
  have hne : pc.index ≠ q.index := by
    change 0 ≠ q.index
    omega
  exact hp.target (becomes_operand hpair (.inl hp)) (by decide) (forgetAll_instantiation hne)

variable (next : Int64)

theorem substitution_first (pairs : List (Var × Expr)) :
    (instantiation pc ((q, p) :: pairs) next).substitution (.var q) = p := by
  simp [instantiation, Context.substitution, Context.lookup, equals]

theorem substitution_second (hne : q.index ≠ q'.index) (pairs : List (Var × Expr)) :
    (instantiation pc ((q, p) :: (q', e) :: pairs) next).substitution (.var q') = e := by
  simp [instantiation, Context.substitution, Context.lookup, equals, hne]

variable (hq : 88 ≤ q.index) (hw : q.width = unknownWidth)

include hq hw

theorem operates_pair (hq' : 88 ≤ q'.index) (hw' : q'.width = unknownWidth) (hne : q.index ≠ q'.index) (hp : Cell s p)
    (he : Addend s e e') : Operates (instantiation pc [(q, p), (q', e)] next) s (.var q) (.var q') p e e' where
  cleared := open_instantiation (by simpa using ⟨hq, hq'⟩) next
  cell := hp
  addend := he
  first := (becomes_operand (substitution_first next _) (.inl hp)).mono (by decide)
  second := (becomes_operand (substitution_second next hne _) he.cell_or).mono (by decide)
  loose_first := .inl (congrArg Except.ok hw)
  loose_second := .inl (congrArg Except.ok hw')

theorem operates_accumulator (he : Addend s e e') :
    Operates (instantiation pc [(q, e)] next) s (.var (s.var 0)) (.var q) (.var (s.var 0)) e e' := by
  have hopen : Open (instantiation pc [(q, e)] next) := open_instantiation (by simpa using hq) next
  exact ⟨hopen, .register 0, he, (fixed_var hopen (s.var_mem 0)).becomes,
    (becomes_operand (substitution_first next _) he.cell_or).mono (by decide), .inr (by cases s <;> rfl),
    .inl (congrArg Except.ok hw)⟩

theorem operates_short (hs : s ≠ .byte) (hne : q.index ≠ 88) (hp : Cell s p) (b : BitVec 8) :
    Operates (instantiation pc [(q, p), (i8, .num (ofBits b) 8)] next) s (.var q) (s.extended (.var i8)) p
      (.num (ofBits (b.signExtend s.bits)) s.bits) (.num (ofBits (b.signExtend s.bits)) s.bits) where
  cleared := open_instantiation (by simpa using ⟨hq, Nat.le_refl 88⟩) next
  cell := hp
  addend := .number s.one_lt_bits.ne' (inferWidth_num _ _)
  first := (becomes_operand (substitution_first next _) (.inl hp)).mono (by decide)
  second := (becomes_extended hs (becomes_parameter (substitution_second next hne _) (.inl rfl))).mono (by decide)
  loose_first := .inl (congrArg Except.ok hw)
  loose_second := .inr (by cases s <;> rfl)

end

/-! ### Layouts -/

/-- How a template names its two operands. -/
inductive Layout where
  /-- The accumulator, which is not a parameter, and a number. -/
  | accumulator
  /-- A place and a number. -/
  | number
  /-- A place and a number of 8 bits. -/
  | short
  /-- A place and a register. -/
  | intoPlace
  /-- A register and a place. -/
  | intoRegister
  deriving DecidableEq

namespace Layout

/-- The parameters. The place beside a number is called `q`. -/
def parameters (s : Size) (q : Var) : Layout → List Var
  | accumulator => [s.imm]
  | number => [q, s.imm]
  | short => [q, i8]
  | intoPlace => [modrm, s.reg]
  | intoRegister => [s.reg, modrm]

def first (s : Size) (q : Var) : Layout → Expr
  | accumulator => .var (s.var 0)
  | number | short => .var q
  | intoPlace => .var modrm
  | intoRegister => .var s.reg

def second (s : Size) : Layout → Expr
  | accumulator | number => .var s.imm
  | short => s.extended (.var i8)
  | intoPlace => .var s.reg
  | intoRegister => .var modrm

def start (s : Size) (q : Var) (f : Layout) : Expr :=
  if f = intoPlace ∧ s ≠ .dword then .var s.scratch else f.first s q

/-- The expressions `es` can stand for the parameters. The operands are then `p` and `e`, which
becomes `e'`. -/
inductive Takes (s : Size) : Layout → List Expr → Expr → Expr → Expr → Prop where
  | accumulator {e e' : Expr} (he : Addend s e e') : Takes s .accumulator [e] (.var (s.var 0)) e e'
  | number {p e e' : Expr} (hp : Cell s p) (he : Addend s e e') : Takes s .number [p, e] p e e'
  | short {p : Expr} (hs : s ≠ .byte) (hp : Cell s p) (b : BitVec 8) :
      Takes s .short [p, .num (ofBits b) 8] p (.num (ofBits (b.signExtend s.bits)) s.bits)
        (.num (ofBits (b.signExtend s.bits)) s.bits)
  | intoPlace {p e e' : Expr} (hp : Cell s p) (he : Addend s e e') : Takes s .intoPlace [p, e] p e e'
  | intoRegister {p e e' : Expr} (hp : Cell s p) (he : Addend s e e') : Takes s .intoRegister [p, e] p e e'

variable {f : Layout} {es : List Expr} {q : Var}

theorem start_cases (s : Size) (q : Var) (f : Layout) (p : Expr) : ∃ a, Start s (f.first s q) p (f.start s q) a := by
  unfold start
  split
  · exact ⟨_, .saved⟩
  · exact ⟨_, .place⟩

namespace Takes

abbrev context (s : Size) (f : Layout) (q : Var) (es : List Expr) (next : Int64) : Context :=
  instantiation pc ((f.parameters s q).zip es) next

theorem operates (h : f.Takes s es p e e') (hq : q = modrm ∨ q = s.reg) (next : Int64) :
    Operates (context s f q es next) s (f.first s q) (f.second s) p e e' := by
  have hq₁ : 88 ≤ q.index := by rcases hq with rfl | rfl <;> cases s <;> decide
  have hq₂ : q.index ≠ s.imm.index := by rcases hq with rfl | rfl <;> cases s <;> decide
  have hq₃ : q.index ≠ 88 := by rcases hq with rfl | rfl <;> cases s <;> decide
  have himm : 88 ≤ s.imm.index := by cases s <;> decide
  have hreg : 88 ≤ s.reg.index := by cases s <;> decide
  have hne : modrm.index ≠ s.reg.index := by cases s <;> decide
  have hq₄ : q.width = unknownWidth := by rcases hq with rfl | rfl <;> cases s <;> rfl
  have himm' : s.imm.width = unknownWidth := by cases s <;> rfl
  have hreg' : s.reg.width = unknownWidth := by cases s <;> rfl
  cases h with
  | accumulator he => exact operates_accumulator next himm himm' he
  | number hp he => exact operates_pair next hq₁ hq₄ himm himm' hq₂ hp he
  | short hs hp b => exact operates_short next hq₁ hq₄ hs hq₃ hp b
  | intoPlace hp he => exact operates_pair next (by decide) rfl hreg hreg' hne hp he
  | intoRegister hp he => exact operates_pair next hreg hreg' (by decide) rfl hne.symm hp he

theorem target (h : f.Takes s es p e e') (hq : q = modrm ∨ q = s.reg) (next : Int64) :
    Target (context s f q es next) s.bits (f.first s q) p := by
  have hq₁ : 88 ≤ q.index := by rcases hq with rfl | rfl <;> cases s <;> decide
  have hreg : 88 ≤ s.reg.index := by cases s <;> decide
  have hcleared := (h.operates hq next).cleared
  cases h with
  | accumulator he =>
    have htarget := (hcleared.free _ (s.var_mem 0)).target
    rwa [(s.has_var 0).width_eq] at htarget
  | number hp | short _ hp => exact target_operand hq₁ hp (substitution_first next _)
  | intoPlace hp he => exact target_operand (by decide) hp (substitution_first next _)
  | intoRegister hp he => exact target_operand hreg hp (substitution_first next _)

theorem length_eq (h : f.Takes s es p e e') (q : Var) : (f.parameters s q).length = es.length := by
  cases h <;> rfl

end Takes

theorem pairwise_zip (hq : q = modrm ∨ q = s.reg) (h : (f.parameters s q).length = es.length) :
    ((f.parameters s q).zip es).Pairwise fun p q => p.1.index ≠ q.1.index := by
  have hdistinct : (f.parameters s q).Pairwise fun p q => p.index ≠ q.index := by
    rcases hq with rfl | rfl <;> cases f <;> cases s <;> decide
  rwa [← List.map_fst_zip (Nat.le_of_eq h), List.pairwise_map] at hdistinct

end Layout

/-! ### Operations -/

section

variable {i : Instruction} {summarize : Bool} {t : Template} {f : Layout} {q : Var} {os : List Operand} {es : List Expr}
  (ht : i.template? architecture summarize = some t) (hlength : i.operands.length = 2)
  (hos : (if i.operands.length > (f.parameters s q).length then i.operands.drop 1 else i.operands) = os)
  (hes : List.Forall₂ (fun o e => o.toExpr architecture.vars = .ok e) os es) (h : f.Takes s es p e e')
  (hq : q = modrm ∨ q = s.reg)

include ht hlength hos hes h hq

theorem lift_of_layout {body effs : List Effect} {address : Int64}
    (hcontent : contentOf t = (f.parameters s q, some (body.map .ofEffect)))
    (hleaves : Effect.Leaves (Layout.Takes.context s f q es (address + .ofNat i.size)) body effs) (hne : effs ≠ []) :
    ∃ ss, i.lift architecture summarize address = .ok ss ∧ effects ss = effs := by
  have hparameters : t.parameters = f.parameters s q := congrArg Prod.fst hcontent
  have hbody : t.body = some (body.map .ofEffect) := congrArg Prod.snd hcontent
  have hbindings : i.bindings architecture.vars t = .ok ((f.parameters s q).zip es) := by
    have hle : (f.parameters s q).length ≤ 2 := by cases f <;> simp [Layout.parameters]
    rw [← hparameters] at hos hle ⊢
    exact bindings_eq (by omega) hos hes
  have heffects : effects (body.map .ofEffect) = body := by
    simp [effects, Stmt.ofEffect, Function.comp_def]
  have hcounter := standard_architecture.counter
  have hleaves' : Effect.Leaves (instantiation architecture.special.pc ((f.parameters s q).zip es)
      (address + .ofNat i.size)) (effects (body.map .ofEffect)) effs := by
    rw [heffects, hcounter]
    exact hleaves
  exact lift_of_leaves ht hbody hbindings (Layout.pairwise_zip hq (h.length_eq q)) hleaves' hne

/-- **Lifting of operations.** An instruction with an operation as template is lifted, and its
statements write the result to the first operand and set the flags. -/
theorem lift_operation (address : Int64) {v : Expr} {fs : List Flag} {g : State → BitVec s.bits}
    (hcontent : contentOf t = (f.parameters s q, some ((operationBody s (f.first s q) v fs).map .ofEffect)))
    (hv : ∀ next, Computes architecture.vars False (Layout.Takes.context s f q es next) s
      (Saved architecture.vars s p) p v g) (hg : ∀ σ v, g (σ.put architecture.vars (.var s.scratch) v) = g σ)
    (hfs : ∀ next, ∀ x ∈ fs, x.Lifts False (Layout.Takes.context s f q es next) (.var s.scratch) e p)
    (hd : fs.Pairwise fun f g => f.var.index ≠ g.var.index) :
    ∃ ss, i.lift architecture summarize address = .ok ss ∧ ∀ σ : State, ∃ σ', σ.execute architecture.vars ss = some σ' ∧
      State.Alike (σ.put architecture.vars p (ofBits (g σ))) σ' ∧
      ∀ x ∈ fs, σ'.flag architecture.vars x.var = x.holds (value (σ.machine architecture.vars) p)
        (value (σ'.machine architecture.vars) e) (ofBits (g σ)) := by
  obtain ⟨effs, hleaves, hne, hrun⟩ := (h.operates hq (address + .ofNat i.size)).exists_run complete_architecture
    (h.target hq _) (hv _) hg (hfs _) hd
  obtain ⟨ss, hss, heff⟩ := lift_of_layout ht hlength hos hes h hq hcontent hleaves hne
  refine ⟨ss, hss, fun σ => ?_⟩
  unfold State.execute
  rw [heff]
  exact hrun σ

end

/-! ### The choice of templates -/

/-- The operands count the same when a template is chosen. -/
structure Operand.Ranks (o o' : Operand) : Prop where
  impliedBy_eq : o.impliedBy = o'.impliedBy
  fit_eq : ∀ q, o.fit q = o'.fit q

theorem Operand.ranks_refl (o : Operand) : o.Ranks o := ⟨rfl, fun _ => rfl⟩

theorem Operand.ranks_memory (m m' : MemoryOperand) : (Operand.memory m).Ranks (.memory m') := ⟨rfl, fun _ => rfl⟩

theorem Operand.ranks_immediate {t t' : DataType} (ht : t.bits = t'.bits) (v v' : Int) :
    (Operand.immediate v t).Ranks (.immediate v' t') :=
  ⟨rfl, fun q => by simp only [Operand.fit, ht]⟩

theorem score_congr {a a' b b' : Operand} (ha : a.Ranks a') (hb : b.Ranks b') (summarize : Bool) :
    score summarize ⟨"", default, [a, b], 0, {}⟩ = score summarize ⟨"", default, [a', b'], 0, {}⟩ := by
  funext t
  have hscore {o o' : Operand} (h : o.Ranks o') (n : Nat) : operandScore t 2 o n = operandScore t 2 o' n := by
    simp only [operandScore, h.impliedBy_eq, h.fit_eq]
  simp [score, hscore ha, hscore hb]

end FlowRecovery.IA32
