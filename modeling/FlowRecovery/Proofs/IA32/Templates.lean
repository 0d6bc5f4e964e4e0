import FlowRecovery.IA32.Lifting
import FlowRecovery.Proofs.Expr.Decidable

/-!
# Templates of the specification

What the specification of IA-32 says about registers and conditional jumps. The texts are read by
evaluation: the templates of a group depend on the text about registers and on one chapter only
(`group?_eq`), so the other chapters are not read.
-/

namespace FlowRecovery.IA32

/-! ### Variables -/

/-- The sizes of general registers. -/
inductive Size where
  | byte | word | dword
  deriving DecidableEq

namespace Size

def bits : Size → Nat
  | byte => 8
  | word => 16
  | dword => 32

def register : Size → Fin 8 → Register
  | byte => .byte
  | word => .word
  | dword => .dword

def var (s : Size) (n : Fin 8) : Var :=
  match s with
  | byte => ⟨53 + n, ["al", "cl", "dl", "bl", "ah", "ch", "dh", "bh"].get n, 8⟩
  | word => ⟨45 + n, ["ax", "cx", "dx", "bx", "sp", "bp", "si", "di"].get n, 16⟩
  | dword => ⟨37 + n, ["eax", "ecx", "edx", "ebx", "esp", "ebp", "esi", "edi"].get n, 32⟩

def scratch : Size → Var
  | byte => ⟨3, "tmpb", 8⟩
  | word => ⟨4, "tmph", 16⟩
  | dword => ⟨5, "tmp1", 32⟩

end Size

def pc : Var := ⟨0, "pc", 32⟩

def CF : Var := ⟨23, "CF", 1⟩

def OF : Var := ⟨33, "OF", 1⟩

def SF : Var := ⟨35, "SF", 1⟩

def ZF : Var := ⟨36, "ZF", 1⟩

def parameter (index : Nat) (name : String) : Var := ⟨index, name, unknownWidth⟩

/-- The register that a part is a range of bits of, with the first of these bits. -/
def Size.around : Size → Fin 8 → Option (Var × Nat)
  | byte, n => some (word.var ⟨n % 4, by omega⟩, if n < 4 then 0 else 8)
  | word, n => some (dword.var n, 0)
  | dword, _ => none

/-! ### The text about registers -/

def variableTable : List Var := [
  ⟨0, "pc", 32⟩, ⟨1, "SKIP", 1⟩, ⟨2, "RPT", 1⟩, ⟨3, "tmpb", 8⟩, ⟨4, "tmph", 16⟩, ⟨5, "tmp1", 32⟩,
  ⟨6, "tmp2", 32⟩, ⟨7, "tmp3", 32⟩, ⟨8, "tmp4", 32⟩, ⟨9, "tmp5", 32⟩, ⟨10, "retaddr", 32⟩, ⟨11, "tmpl", 64⟩,
  ⟨12, "tmpD", 80⟩, ⟨13, "tmpD1", 80⟩, ⟨14, "tmpD2", 80⟩, ⟨15, "tmpb1", 8⟩, ⟨16, "tmpb2", 8⟩, ⟨17, "tmph1", 16⟩,
  ⟨18, "tmph2", 16⟩, ⟨19, "tmpq2", 64⟩, ⟨20, "tmpq3", 64⟩, ⟨21, "tmpq5", 64⟩, ⟨22, "AF", 1⟩, ⟨23, "CF", 1⟩,
  ⟨24, "C1", 1⟩, ⟨25, "C2", 1⟩, ⟨26, "FLF", 1⟩, ⟨27, "FZF", 1⟩, ⟨28, "fsw", 16⟩, ⟨29, "fcw", 16⟩,
  ⟨30, "fstp", 8⟩, ⟨31, "DF", 1⟩, ⟨32, "IF", 1⟩, ⟨33, "OF", 1⟩, ⟨34, "PF", 1⟩, ⟨35, "SF", 1⟩, ⟨36, "ZF", 1⟩,
  ⟨37, "eax", 32⟩, ⟨38, "ecx", 32⟩, ⟨39, "edx", 32⟩, ⟨40, "ebx", 32⟩, ⟨41, "esp", 32⟩, ⟨42, "ebp", 32⟩,
  ⟨43, "esi", 32⟩, ⟨44, "edi", 32⟩, ⟨45, "ax", 16⟩, ⟨46, "cx", 16⟩, ⟨47, "dx", 16⟩, ⟨48, "bx", 16⟩,
  ⟨49, "sp", 16⟩, ⟨50, "bp", 16⟩, ⟨51, "si", 16⟩, ⟨52, "di", 16⟩, ⟨53, "al", 8⟩, ⟨54, "cl", 8⟩, ⟨55, "dl", 8⟩,
  ⟨56, "bl", 8⟩, ⟨57, "ah", 8⟩, ⟨58, "ch", 8⟩, ⟨59, "dh", 8⟩, ⟨60, "bh", 8⟩, ⟨61, "es", 16⟩, ⟨62, "cs", 16⟩,
  ⟨63, "ss", 16⟩, ⟨64, "ds", 16⟩, ⟨65, "fs", 16⟩, ⟨66, "gs", 16⟩, ⟨67, "cr0", 32⟩, ⟨68, "cr2", 32⟩,
  ⟨69, "cr3", 32⟩, ⟨70, "cr4", 32⟩, ⟨71, "st0", 80⟩, ⟨72, "st1", 80⟩, ⟨73, "st2", 80⟩, ⟨74, "st3", 80⟩,
  ⟨75, "st4", 80⟩, ⟨76, "st5", 80⟩, ⟨77, "st6", 80⟩, ⟨78, "st7", 80⟩, ⟨79, "xmm0", 128⟩, ⟨80, "xmm1", 128⟩,
  ⟨81, "xmm2", 128⟩, ⟨82, "xmm3", 128⟩, ⟨83, "xmm4", 128⟩, ⟨84, "xmm5", 128⟩, ⟨85, "xmm6", 128⟩,
  ⟨86, "xmm7", 128⟩, ⟨87, "mxcsr", 32⟩, ⟨88, "i8", unknownWidth⟩, ⟨89, "reg8", unknownWidth⟩,
  ⟨90, "modrm", unknownWidth⟩, ⟨91, "reg32", unknownWidth⟩, ⟨92, "i32", unknownWidth⟩, ⟨93, "i16", unknownWidth⟩,
  ⟨94, "reg16", unknownWidth⟩, ⟨95, "reg128", unknownWidth⟩, ⟨96, "reloc32", unknownWidth⟩,
  ⟨97, "reloc16", unknownWidth⟩, ⟨98, "sti", unknownWidth⟩, ⟨99, "reloc8", unknownWidth⟩, ⟨100, "stmxcsr", 32⟩,
  ⟨101, "mem", unknownWidth⟩]

/-- The general registers that are parts of others, in the order of their declaration. -/
def parts : List (Size × Fin 8) := [Size.word, .byte].flatMap fun s => [0, 1, 2, 3, 4, 5, 6, 7].map (s, ·)

/-- The numbers of parts and of the registers around them. -/
def nestings : List (Nat × Nat) :=
  [0, 1, 2, 3, 4, 5, 6, 7].map (fun n => (45 + n, 37 + n)) ++
    [0, 1, 2, 3, 4, 5, 6, 7].flatMap fun n => [(53 + n, 37 + n % 4), (53 + n, 45 + n % 4)]

def sharing : Registers where
  vars := variableTable.toArray
  parents := parts.reverse.filterMap fun (s, n) => (s.around n).map fun (p, f) => ((s.var n).index,
    .bits (.var p) (.number (Int64.ofNat f) 8) (.number (Int64.ofNat (f + s.bits - 1)) 8))
  coveredBy := nestings
  covers := nestings.map Prod.swap

def constantTable : List (Spec.Chars × Int64) :=
  [("ADDRESSBITS", 32), ("MAX32NEG", 2147483648), ("MAX32POS", 2147483647), ("MAX16NEG", 32768), ("MAX16POS", 32767),
    ("MAX8NEG", 128), ("MAX8POS", 127), ("MAX32BITS", 4294967295), ("MAX16BITS", 65535),
    ("MAX8BITS", 255)].map fun (n, v) => (n.toList, v)

/-- What is known about the definitions of a text, apart from which registers it declares. -/
structure Defines (d : Spec.Definitions) : Prop where
  vars : d.vars.vars.toList = sharing.vars.toList
  parents : d.vars.parents = sharing.parents
  coveredBy : d.vars.coveredBy = sharing.coveredBy
  covers : d.vars.covers = sharing.covers
  constants : d.constants = constantTable
  nothing : d.tables.isEmpty ∧ d.functions.isEmpty ∧ d.instructions.isEmpty

instance (d : Spec.Definitions) : Decidable (Defines d) :=
  decidable_of_iff (_ ∧ _ ∧ _ ∧ _ ∧ _ ∧ _) ⟨fun h => ⟨h.1, h.2.1, h.2.2.1, h.2.2.2.1, h.2.2.2.2.1, h.2.2.2.2.2⟩,
    fun h => ⟨h.1, h.2, h.3, h.4, h.5, h.6⟩⟩

theorem Defines.eq {d : Spec.Definitions} (h : Defines d) :
    d = { declared := d.declared, vars := sharing, constants := constantTable } := by
  obtain ⟨⟨⟨vars⟩, parents, coveredBy, covers⟩, declared, constants, tables, functions, instructions⟩ := d
  obtain ⟨hvars, hparents, hinner, houter, hconstants, htables, hfunctions, hinstructions⟩ := h
  simp_all [sharing]

theorem defines_base : Defines base := by
  rw [base]
  unfold registers
  rw [String.toList_ofList]
  decide +kernel

theorem base_eq : base = { declared := base.declared, vars := sharing, constants := constantTable } := defines_base.eq

/-! ### The machine -/

/-- What is known about the variables of a machine. -/
structure Standard (arch : Architecture) : Prop where
  counter : arch.special.pc = pc
  general : ∀ s ∈ [Size.byte, .word, .dword], ∀ n : Fin 8,
    (s.register n).variableIn arch.vars = s.var n ∧
      arch.vars.parent? (s.var n) = (s.around n).map fun (p, f) =>
        .bits (.var p) (.number (Int64.ofNat f) 8) (.number (Int64.ofNat (f + s.bits - 1)) 8)
  wholes : ∀ x ∈ [Size.byte.scratch, Size.word.scratch, Size.dword.scratch, CF, OF, SF, ZF], arch.vars.parent? x = none

instance (arch : Architecture) : Decidable (Standard arch) :=
  decidable_of_iff (_ ∧ _ ∧ _) ⟨fun h => ⟨h.1, h.2.1, h.2.2⟩, fun h => ⟨h.1, h.2, h.3⟩⟩

theorem standard_machine : Standard (machineOf base) := by
  rw [base_eq]
  decide +kernel

/-! ### Groups -/

theorem lookup_groups (c : Chapter) (name : String) : c.groups.lookup name =
      if c.names.contains name then
        some (Architecture.groupOf (Chapter.read base (c.texts.map String.toList)) name.toList)
      else none := by
  unfold Chapter.groups
  induction c.names with
  | nil => rfl
  | cons n ns ih =>
    rw [List.map_cons, List.lookup_cons, ih, List.contains_cons]
    by_cases h : name = n
    · simp [h]
    · simp [beq_eq_false_iff_ne.mpr h]

theorem group?_eq (name : String) :
    architecture.group? name = (chapters[chapters.findIdx (·.names.contains name)]?).map fun c =>
      Architecture.groupOf (Chapter.read base (c.texts.map String.toList)) name.toList := by
  rw [← List.find?_eq_getElem?_findIdx]
  change (chapters.flatMap Chapter.groups).lookup name = _
  induction chapters with
  | nil => rfl
  | cons c cs ih =>
    rw [List.flatMap_cons, List.lookup_append, ih, lookup_groups, List.find?_cons]
    cases c.names.contains name <;> rfl

/-! ### Conditions and parameters -/

def zero : Expr := .num 0 unknownWidth

def negative (z x : Expr) : Expr := .op .less [x, z]

def positive (z x : Expr) : Expr := .op .less [z, x]

/-- The difference of `x` and `y` is too small, as `t` has the wrong sign. -/
def tooSmall (z t x y : Expr) : Expr := .op .and [positive z t, negative z x, .op .not [negative z y]]

/-- The difference of `x` and `y` is too large, as `t` has the wrong sign. -/
def tooLarge (z t x y : Expr) : Expr := .op .and [negative z t, .op .not [negative z x], negative z y]

def overflow (z t x y : Expr) : Expr := .op .or [tooSmall z t x y, tooLarge z t x y]

def Size.extended (s : Size) (e : Expr) : Expr :=
  .op .signExtend [.num 8 unknownWidth, .num (Int64.ofNat (s.bits - 1)) unknownWidth, e]

def modrm : Var := parameter 90 "modrm"

def i8 : Var := parameter 88 "i8"

def Size.reg : Size → Var
  | byte => parameter 89 "reg8"
  | word => parameter 94 "reg16"
  | dword => parameter 91 "reg32"

def Size.imm : Size → Var
  | byte => i8
  | word => parameter 93 "i16"
  | dword => parameter 92 "i32"

/-! ### Conditional jumps -/

/-- What a conditional jump asks about the operands of the comparison before it. -/
inductive Order where
  | above | aboveOrEqual | below | belowOrEqual | equal | different | greater | greaterOrEqual | less | lessOrEqual
  deriving DecidableEq

namespace Order

def names : Order → List String
  | above => ["ja"]
  | aboveOrEqual => ["jae"]
  | below => ["jb"]
  | belowOrEqual => ["jbe"]
  | equal => ["je"]
  | different => ["jne"]
  | greater => ["jg"]
  | greaterOrEqual => ["jge", "jnl"]
  | less => ["jl"]
  | lessOrEqual => ["jle"]

def guard : Order → Expr
  | above => .op .not [.op .or [.var CF, .var ZF]]
  | aboveOrEqual => .op .not [.var CF]
  | below => .var CF
  | belowOrEqual => .op .or [.var CF, .var ZF]
  | equal => .var ZF
  | different => .op .not [.var ZF]
  | greater => .op .and [.op .equal [.var SF, .var OF], .op .not [.var ZF]]
  | greaterOrEqual => .op .equal [.var SF, .var OF]
  | less => .op .xor [.var SF, .var OF]
  | lessOrEqual => .op .or [.op .xor [.var SF, .var OF], .var ZF]

def all : List Order :=
  [above, aboveOrEqual, below, belowOrEqual, equal, different, greater, greaterOrEqual, less, lessOrEqual]

def jump (o : Order) (distance : Var) : Effect :=
  .goto ⟨some (.op .plus [.var pc, .var distance]), .op .equal [o.guard, .num 1 unknownWidth], .jump⟩

def templates (o : Order) (name : String) : List Template :=
  [("JB", parameter 99 "reloc8"), ("JVOD", parameter 97 "reloc16"), ("JVOW", parameter 96 "reloc32")].map
    fun (form, distance) => ⟨name ++ "." ++ form, [distance], some [.ofEffect (o.jump distance)]⟩

end Order

/-! ### The choice of templates -/

def contentOf (t : Template) : List Var × Option (List Stmt) := (t.parameters, t.body)

def Size.type : Size → DataType
  | byte => .int8
  | word => .int16
  | dword => .int32

def reloc8 : Var := parameter 99 "reloc8"

theorem chosen_jump : ∀ o ∈ Order.all, ∀ n ∈ o.names, ∀ summarize : Bool,
    (Instruction.best (Instruction.score summarize ⟨"", default, [.relative 0], 0, {}⟩)
      (o.templates n.toUpper)).map contentOf = some ([reloc8], some [.ofEffect (o.jump reloc8)]) := by
  decide +kernel

theorem names_jump : ∀ o ∈ Order.all, ∀ n ∈ o.names,
    Instruction.repeatable.any (fun r => n.toUpper.startsWith r) = false ∧
      Instruction.directives.lookup n.toUpper = none := by
  decide +kernel

theorem findIdx_jump : ∀ o ∈ Order.all, ∀ n ∈ o.names, chapters.findIdx (·.names.contains n.toUpper) = 6 := by
  decide +kernel

/-! ### Reading the texts -/

theorem reads_jumps : ∀ o ∈ Order.all, ∀ n ∈ o.names,
    Architecture.groupOf (Chapter.read base [jumps.toList]) n.toUpper.toList = o.templates n.toUpper := by
  rw [base_eq]
  unfold jumps
  rw [String.toList_ofList]
  decide +kernel

theorem jump_templates (o : Order) {n : String} (hn : n ∈ o.names) :
    architecture.group? n.toUpper = some (o.templates n.toUpper) := by
  have ho : o ∈ Order.all := by cases o <;> decide
  rw [group?_eq, findIdx_jump o ho n hn]
  exact congrArg some (reads_jumps o ho n hn)

theorem exists_template_jump {o : Order} {j : Instruction} {d : Int} (summarize : Bool) (hj : j.name ∈ o.names)
    (hos : j.operands = [.relative d]) : ∃ t, j.template? architecture summarize = some t ∧ t.parameters = [reloc8] ∧
      t.body = some [.ofEffect (o.jump reloc8)] := by
  have ho : o ∈ Order.all := by cases o <;> decide
  obtain ⟨hrepeat, hlookup⟩ := names_jump o ho _ hj
  obtain ⟨t, ht, hcontent⟩ := Option.map_eq_some_iff.mp (chosen_jump o ho _ hj summarize)
  refine ⟨t, ?_, congrArg Prod.fst hcontent, congrArg Prod.snd hcontent⟩
  have hdirective : j.directive? architecture = none := by
    unfold Instruction.directive?
    rw [hlookup]
    split <;> rfl
  have hspec : j.specName = j.name.toUpper := by simp [Instruction.specName, hrepeat]
  have hscore : j.score summarize = Instruction.score summarize ⟨"", default, [.relative 0], 0, {}⟩ := by
    funext t
    unfold Instruction.score
    rw [hos]
    rfl
  unfold Instruction.template?
  rw [hdirective]
  simp only [hspec, jump_templates o hj]
  rw [hscore]
  exact ht

end FlowRecovery.IA32
