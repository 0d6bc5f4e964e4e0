import FlowRecovery.IA32.Code.Decoder
import FlowRecovery.Proofs.Container.PairMap
import Mathlib.Order.MinMax
import Mathlib.Tactic.Common

/-!
# Decoding is local and has no memory

An instruction is determined by its own bytes. A reading is *local* if what it gives depends on the
bytes that it uses up and on nothing else; everything that is read from left to right is local,
operand by operand. Selecting a form also looks at one byte without using it up. This byte belongs
to the instruction nevertheless: the forms of a group all use up at least one byte after their
operation code, and a floating point instruction has at least two bytes.

Decoding an instruction leaves mode bytes behind. They are left to forms with a mode byte only, and
these read a new one before they would use it, so that no sequence of earlier instructions shows.

Main statement: `Decoders.decodeAt_local`.
-/

namespace FlowRecovery.IA32

open Reading

/-- Two codes have the same bytes at the positions from `i` on and below `j`. -/
def Agree (code code' : ByteArray) (i j : Nat) : Prop :=
  ∀ k, i ≤ k → k < j → Reading.byteAt code' k = Reading.byteAt code k

theorem Agree.mono {code code' : ByteArray} {i j i' j' : Nat} (h : Agree code code' i j) (hi : i ≤ i') (hj : j' ≤ j) :
    Agree code code' i' j' :=
  fun k hk hk' => h k (hi.trans hk) (lt_of_lt_of_le hk' hj)

/-! ## Local readings -/

variable {code : ByteArray} {b : UInt8} {i j n : Nat}

namespace Reading

theorem byteAt_eq_ok (h : byteAt code i = .ok b) : i < code.size := by
  unfold byteAt at h
  split at h
  · assumption
  · cases h

theorem bind_eq_ok {α β : Type} {x : Reading α} {f : α → Reading β} {b : β} :
    (x >>= f) i = .ok (b, j) ↔ ∃ a k, x i = .ok (a, k) ∧ f a k = .ok (b, j) := by
  change (x i >>= fun p => f p.1 p.2) = .ok (b, j) ↔ _
  cases hx : x i with
  | error e => simp [bind, Except.bind]
  | ok p =>
    obtain ⟨a, k⟩ := p
    simp [bind, Except.bind]

/-- A reading goes forward within the code, and it gives the same wherever the code has the bytes
that it used up. -/
structure Local {α : Type} (r : ByteArray → Reading α) : Prop where
  forward {code : ByteArray} {i j : Nat} {a : α} : r code i = .ok (a, j) → i ≤ j
  within {code : ByteArray} {i j : Nat} {a : α} : r code i = .ok (a, j) → j ≤ max i code.size
  agree {code code' : ByteArray} {i j : Nat} {a : α} :
    r code i = .ok (a, j) → Agree code code' i j → r code' i = .ok (a, j)

variable {α β : Type}

/-- A reading that uses up nothing and does not look at the code. -/
theorem local_of_stays {r : Reading α} (h : ∀ {i j a}, r i = .ok (a, j) → j = i) : Local (fun _ => r) where
  forward hr := (h hr).ge
  within hr := le_max_of_le_left (h hr).le
  agree hr _ := hr

theorem local_pure (a : α) : Local (fun _ => (pure a : Reading α)) := local_of_stays (by rintro _ _ _ ⟨⟩; rfl)

theorem local_get : Local (fun _ => (get : Reading Nat)) := local_of_stays (by rintro _ _ _ ⟨⟩; rfl)

theorem local_throw (e : Undecoded) : Local (fun _ => (throw e : Reading α)) := local_of_stays (by rintro _ _ _ ⟨⟩)

theorem orElse_eq_ok {e : Undecoded} {o : Option α} {a : α} : orElse e o i = .ok (a, j) ↔ o = some a ∧ j = i := by
  cases o with
  | none => exact ⟨nofun, nofun⟩
  | some b =>
    constructor
    · rintro ⟨⟩
      exact ⟨rfl, rfl⟩
    · rintro ⟨⟨⟩, rfl⟩
      rfl

theorem local_orElse (e : Undecoded) (o : Option α) : Local (fun _ => orElse e o) :=
  local_of_stays fun h => (orElse_eq_ok.mp h).2

theorem lift_eq_ok {x : Except Undecoded α} {a : α} : (liftM x : Reading α) i = .ok (a, j) ↔ x = .ok a ∧ j = i := by
  cases x with
  | error e => exact ⟨nofun, nofun⟩
  | ok b =>
    constructor
    · rintro ⟨⟩
      exact ⟨rfl, rfl⟩
    · rintro ⟨⟨⟩, rfl⟩
      rfl

theorem Local.bind {r : ByteArray → Reading α} {f : α → ByteArray → Reading β} (hr : Local r)
    (hf : ∀ a, Local (f a)) : Local (fun code => r code >>= fun a => f a code) where
  forward h := by
    obtain ⟨a, k, hfirst, hsecond⟩ := bind_eq_ok.mp h
    exact (hr.forward hfirst).trans ((hf a).forward hsecond)
  within h := by
    obtain ⟨a, k, hfirst, hsecond⟩ := bind_eq_ok.mp h
    have hk := hr.within hfirst
    have hj := (hf a).within hsecond
    omega
  agree h hagree := by
    obtain ⟨a, k, hfirst, hsecond⟩ := bind_eq_ok.mp h
    refine bind_eq_ok.mpr ⟨a, k, ?_, ?_⟩
    · exact hr.agree hfirst (hagree.mono le_rfl ((hf a).forward hsecond))
    · exact (hf a).agree hsecond (hagree.mono (hr.forward hfirst) le_rfl)

theorem Local.map {r : ByteArray → Reading α} (hr : Local r) (f : α → β) :
    Local (fun code => r code >>= fun a => pure (f a)) :=
  hr.bind fun a => local_pure (f a)

theorem byte_eq_ok : byte code i = .ok (b, j) ↔ byteAt code i = .ok b ∧ j = i + 1 := by
  unfold byte
  cases byteAt code i with
  | error e => simp [Except.map]
  | ok x => simp [Except.map, eq_comm]

theorem peek_eq_ok : peek code i = .ok (b, j) ↔ byteAt code i = .ok b ∧ j = i := by
  unfold peek
  cases byteAt code i with
  | error e => simp [Except.map]
  | ok x => simp [Except.map, eq_comm]

theorem local_byte : Local byte where
  forward h := by
    obtain ⟨-, rfl⟩ := byte_eq_ok.mp h
    exact Nat.le_succ _
  within h := by
    obtain ⟨hb, rfl⟩ := byte_eq_ok.mp h
    exact le_max_of_le_right (byteAt_eq_ok hb)
  agree h hagree := by
    obtain ⟨hb, rfl⟩ := byte_eq_ok.mp h
    exact byte_eq_ok.mpr ⟨(hagree _ le_rfl (Nat.lt_succ_self _)).trans hb, rfl⟩

theorem local_number (n : Nat) : Local (number · n) := by
  induction n with
  | zero => exact local_pure 0
  | succ n ih => exact local_byte.bind (fun b => ih.map _)

theorem number_eq_ok {a : Nat} (h : number code n i = .ok (a, j)) : j = i + n := by
  induction n generalizing i a with
  | zero => cases h; rfl
  | succ n ih =>
    obtain ⟨b, k, hb, hrest⟩ := bind_eq_ok.mp h
    obtain ⟨m, l, hm, hlast⟩ := bind_eq_ok.mp hrest
    obtain ⟨-, rfl⟩ := byte_eq_ok.mp hb
    cases hlast
    have hl := ih hm
    omega

theorem local_signed8 : Local signed8 := (local_number 1).map _

theorem local_unsigned16 : Local unsigned16 := (local_number 2).map _

theorem local_signed16 : Local signed16 := (local_number 2).map _

theorem local_signed32 : Local signed32 := (local_number 4).map _

theorem local_mapM {γ : Type} {f : ByteArray → γ → Reading β} (hf : ∀ c, Local (f · c)) (cs : List γ) :
    Local (fun code => cs.mapM (f code)) := by
  induction cs with
  | nil => exact local_pure []
  | cons c cs ih =>
    simp only [List.mapM_cons]
    exact (hf c).bind (fun _ => ih.map _)

end Reading

/-! ## Operands -/

namespace MemoryOperand

open Reading

theorem local_readRegisters (m : ModeByte) : Local (readRegisters · m) := by
  unfold readRegisters
  split
  · exact local_byte.map _
  · exact local_pure _

theorem local_readDisplacement (m : ModeByte) (base : Fin 8) : Local (readDisplacement · m base) := by
  unfold readDisplacement
  split
  · exact local_signed32
  · split
    · exact local_signed8
    · exact local_pure 0

theorem local_read (f : Frame) (e : Extent) : Local (read · f e) := by
  unfold read
  refine (local_readRegisters f.modeByte).bind (fun registers => ?_)
  exact (local_readDisplacement f.modeByte registers.1).bind
    (fun _ => (local_orElse _ _).map _)

end MemoryOperand

namespace Slot

open Reading

theorem local_registerOrMemory (f : Frame) (e : Extent) (r : Fin 8 → Option Register) :
    Local (registerOrMemory · f e r) := by
  unfold registerOrMemory
  split
  · exact (local_orElse _ _).map _
  · exact (MemoryOperand.local_read f e).map _

theorem local_readImmediate (wide : Bool) (e : Extent) : Local (readImmediate · wide e) := by
  cases e with
  | byte => exact local_signed8.map _
  | word => exact local_signed16.map _
  | sized =>
    cases wide with
    | true => exact local_signed32.map _
    | false => exact local_signed16.map _
  | _ => exact local_throw _

theorem local_readRelative (wide : Bool) (e : Extent) : Local (readRelative · wide e) := by
  cases e with
  | byte => exact local_signed8.map _
  | sized =>
    cases wide with
    | true => exact local_signed32.map _
    | false => exact local_unsigned16.map _
  | _ => exact local_pure _

theorem local_readAddress (f : Frame) : Local (readAddress · f) := by
  unfold readAddress
  split
  · exact local_signed32
  · exact local_unsigned16

theorem local_read (f : Frame) (s : Slot) : Local (read · f s) := by
  cases s with
  | generalOrMemory e => exact local_registerOrMemory f e (fun n => e.register? f.wide n)
  | vectorOrMemory e => exact local_registerOrMemory f e (fun n => some (.xmm n))
  | mediaOrMemory e => exact local_registerOrMemory f e (fun n => some (.mmx n))
  | general e => exact (local_orElse _ _).map _
  | segment | control =>
    simp only [read]
    split
    · exact local_pure _
    · exact local_throw _
  | immediate e => exact local_readImmediate f.wide e
  | relative e => exact local_readRelative f.wide e
  | far => exact (local_readAddress f).bind (fun _ => local_unsigned16.map _)
  | offset e => exact (local_readAddress f).bind (fun _ => (local_orElse _ _).map _)
  | stringTarget e | stringSource e => exact (local_orElse _ _).map _
  | test | farMemory => exact local_throw _
  | _ => exact local_pure _

def isNumber : Slot → Bool
  | immediate _ => true
  | _ => false

theorem lt_of_read {f : Frame} {s : Slot} {o : Operand} (hs : s.isNumber)
    (h : s.read code f i = .ok (o, j)) : i < j := by
  obtain ⟨e, rfl⟩ : ∃ e, s = .immediate e := by
    cases s <;> simp_all [isNumber]
  -- every extent of a number has at least one byte
  have hnumber {n : Nat} {g : Nat → Int} {k : Int → Operand} (hn : 0 < n)
      (h : (do return k (← (do return g (← number code n) : Reading Int)) : Reading Operand) i = .ok (o, j)) :
      i < j := by
    obtain ⟨v, l, hv, hlast⟩ := bind_eq_ok.mp h
    obtain ⟨a, l', ha, hv⟩ := bind_eq_ok.mp hv
    cases hlast
    cases hv
    have := number_eq_ok ha
    omega
  change readImmediate code f.wide e i = .ok (o, j) at h
  cases e with
  | byte => exact hnumber (by decide) h
  | word => exact hnumber (by decide) h
  | sized =>
    generalize f.wide = wide at h
    cases wide with
    | true => exact hnumber (by decide) h
    | false => exact hnumber (by decide) h
  | _ => cases h

theorem lt_of_mapM_read {f : Frame} {ss : List Slot} {os : List Operand}
    (hs : ss.any isNumber) (h : ss.mapM (read code f) i = .ok (os, j)) : i < j := by
  induction ss generalizing i os with
  | nil => cases hs
  | cons s ss ih =>
    rw [List.mapM_cons] at h
    obtain ⟨o, k, hfirst, hrest⟩ := bind_eq_ok.mp h
    obtain ⟨os', l, hrest, hlast⟩ := bind_eq_ok.mp hrest
    cases hlast
    have hik : i ≤ k := (local_read f s).forward hfirst
    have hkl : k ≤ j := (local_mapM (local_read f) ss).forward hrest
    rw [List.any_cons, Bool.or_eq_true] at hs
    obtain hs | hs := hs
    · exact lt_of_lt_of_le (lt_of_read hs hfirst) hkl
    · exact lt_of_le_of_lt hik (ih hs hrest)

end Slot

namespace Form

/-- Does an instruction of the form have at least one byte after its operation code? -/
def advances (f : Form) : Bool := f.hasMode || f.slots.any Slot.isNumber

theorem local_readMode (b : ModeByte) (f : Form) : Reading.Local (readMode · b f) := by
  unfold readMode
  split
  · exact local_byte.map _
  · exact local_pure b

end Form

/-! ## Selecting a form -/

variable {o : Opcode} {m m' : Modifiers} {f : Form}

namespace Opcode

/-- Do all forms of a group have a byte after their operation code? -/
def advances : Opcode → Bool
  | group fs => fs.all (fun f => f.all Form.advances)
  | _ => true

theorem advances_oneByte : ∀ o ∈ OpcodeMap.oneByte.toList, o.all advances := by
  decide +kernel

theorem advances_of_mem {fs : List (Option Form)} (h : (group fs).advances)
    (hf : fs[n]?.join = some f) : f.advances := by
  obtain ⟨f', hget, rfl⟩ : ∃ f', fs[n]? = some f' ∧ f' = some f := by
    simpa [Option.join_eq_some_iff] using hf
  exact List.all_eq_true.mp h _ (List.mem_of_getElem? hget)

theorem advances_of_getElem? {table : Array (Option Opcode)}
    (htable : ∀ o ∈ table.toList, o.all advances) (h : table[n]?.join = some o) : o.advances := by
  obtain ⟨o', hget, rfl⟩ : ∃ o', table[n]? = some o' ∧ o' = some o := by
    simpa [Option.join_eq_some_iff] using h
  exact htable _ (Array.mem_toList_iff.mpr (Array.mem_of_getElem? hget))

theorem advances_twoBytes : ∀ o ∈ OpcodeMap.twoBytes.toList, o.all advances := by
  decide +kernel

theorem advances_selected : ∀ p ∈ OpcodeMap.twoBytesF2 ++ OpcodeMap.twoBytesF3 ++ OpcodeMap.twoBytes66,
    p.2.all advances := by
  decide +kernel

theorem advances_of_lookup {table : List (UInt8 × Option Opcode)}
    (htable : ∀ p ∈ table, p.2.all advances) (h : (table.lookup b).join = some o) : o.advances := by
  obtain ⟨o', hlookup, rfl⟩ : ∃ o', table.lookup b = some o' ∧ o' = some o := by
    simpa [Option.join_eq_some_iff] using h
  obtain ⟨before, after, rfl, -⟩ := List.lookup_eq_some_iff.mp hlookup
  exact htable (b, some o) (by simp)

theorem advances_of_selectTwoBytes (h : (selectTwoBytes m b).1 = some o) : o.advances := by
  have hselected {table : List (UInt8 × Option Opcode)} (htable : ∀ p ∈ table, p ∈ OpcodeMap.twoBytesF2 ++
      OpcodeMap.twoBytesF3 ++ OpcodeMap.twoBytes66) (h : (table.lookup b).join = some o) : o.advances :=
    advances_of_lookup (fun p hp => advances_selected p (htable p hp)) h
  have hplain (h : OpcodeMap.twoBytes[b.toNat]?.join = some o) : o.advances := advances_of_getElem? advances_twoBytes h
  unfold selectTwoBytes at h
  split_ifs at h <;> grind

/-- The first byte of a floating point instruction is its operation code, so that nothing stands in
front. -/
theorem read_spec
    (h : read code m i = .ok ((o, m'), j)) : o.advances ∧ i < j ∧ (j = i + 1 ∨ Reading.byteAt code i = .ok 0x0f) := by
  obtain ⟨b, k, hbyte, hrest⟩ := bind_eq_ok.mp h
  obtain ⟨hb, rfl⟩ := byte_eq_ok.mp hbyte
  split at hrest
  next htwo =>
    obtain ⟨b', k, hbyte, hrest⟩ := bind_eq_ok.mp hrest
    obtain ⟨o', l, hfound, hlast⟩ := bind_eq_ok.mp hrest
    obtain ⟨-, hk⟩ := byte_eq_ok.mp hbyte
    obtain ⟨ho, hl⟩ := orElse_eq_ok.mp hfound
    cases hlast
    exact ⟨advances_of_selectTwoBytes ho, by omega, .inr (htwo ▸ hb)⟩
  next hone =>
    obtain ⟨o', l, hfound, hlast⟩ := bind_eq_ok.mp hrest
    obtain ⟨ho, hl⟩ := orElse_eq_ok.mp hfound
    cases hlast
    exact ⟨advances_of_getElem? advances_oneByte ho, by omega, .inl hl⟩

theorem local_read (m : Modifiers) : Reading.Local (read · m) := by
  unfold read
  refine local_byte.bind (fun b => ?_)
  split
  · refine local_byte.bind (fun b => ?_)
    exact (local_orElse _ _).map _
  · exact (local_orElse _ _).map _

end Opcode

namespace Modifiers

theorem read_eq (hb : Reading.byteAt code i = .ok b) : read code m i = match m.add? b with
      | some m' => read code m' (i + 1)
      | none => .ok (m, i) := by
  have hi := byteAt_eq_ok hb
  rw [read, dif_pos hi]
  rw [byteAt, dif_pos hi, Except.ok.injEq] at hb
  subst hb
  rfl

theorem read_spec (h : read code m i = .ok (m', j)) :
    i ≤ j ∧ j < code.size ∧ (j = i ∨ ∃ b, Reading.byteAt code i = .ok b ∧ (m.add? b).isSome) ∧
      ∀ code', Agree code code' i (j + 1) → read code' m i = .ok (m', j) := by
  fun_induction read code m i with
  | case1 m i hi m₁ hadd ih =>
    obtain ⟨hle, hlt, -, hsame⟩ := ih h
    have hb : byteAt code i = .ok code[i] := by simp [byteAt, hi]
    refine ⟨by omega, hlt, .inr ⟨code[i], hb, by rw [hadd]; rfl⟩, fun code' hagree => ?_⟩
    rw [read_eq ((hagree i le_rfl (by omega)).trans hb), hadd]
    exact hsame code' (hagree.mono (Nat.le_succ i) le_rfl)
  | case2 m i hi hadd =>
    have hb : byteAt code i = .ok code[i] := by simp [byteAt, hi]
    have hend : (m, i) = (m', j) := Except.ok.inj h
    cases hend
    refine ⟨le_rfl, hi, .inl rfl, fun code' hagree => ?_⟩
    rw [read_eq ((hagree _ le_rfl (Nat.lt_succ_self _)).trans hb), hadd]
  | case3 m i hi => cases h

theorem not_coprocessor_of_add? (h : (m.add? b).isSome) : b < 0xd8 ∨ b > 0xdf := by
  have hcases : b < 0xd8 ∨ b > 0xdf ∨ b = 0xd8 ∨ b = 0xd9 ∨ b = 0xda ∨ b = 0xdb ∨ b = 0xdc ∨ b = 0xdd ∨ b = 0xde ∨
      b = 0xdf := by
    grind
  obtain hlt | hgt | rfl | rfl | rfl | rfl | rfl | rfl | rfl | rfl := hcases
  · exact .inl hlt
  · exact .inr hgt
  all_goals cases h

end Modifiers

namespace Selection

/-- Reading selects `s` and comes to position `i`, in every code that agrees below `reach`. The
instruction that starts at `start` and ends at `j` contains these bytes, and no others that it does
not read. -/
structure Made (r : ByteArray → Except Undecoded (Selection × Nat)) (code : ByteArray) (start : Nat) (s : Selection)
    (i reach : Nat) : Prop where
  le_reach : i ≤ reach
  within : reach ≤ code.size
  agree (code' : ByteArray) : Agree code code' start reach → r code' = .ok (s, i)
  covered (j : Nat) : i ≤ j → (s.form.advances → i < j) → max (start + s.least) j = max reach j

end Selection

variable {s : Selection} {start : Nat}

namespace Opcode

open Reading

theorem inRange_of_floatForm {first : UInt8} (h : floatForm first b = .ok f) : ¬(first < 0xd8 ∨ first > 0xdf) := by
  intro hout
  unfold floatForm at h
  dsimp only at h
  rw [if_pos hout] at h
  cases h

theorem exists_made_select (ho : o.advances) (hstart : start < i) (hi : i ≤ code.size)
    (hopens : i = start + 1 ∨ ∀ b, byteAt code start = .ok b → b < 0xd8 ∨ b > 0xdf)
    (h : o.select code m start i = .ok (s, j)) :
    j = i ∧ ∃ reach, Selection.Made (fun code => o.select code m start i) code start s i reach := by
  cases o with
  | form f =>
    cases h
    refine ⟨rfl, i, le_rfl, hi, fun _ _ => rfl, fun j hj _ => ?_⟩
    change max (start + 0) j = _
    omega
  | group fs =>
    obtain ⟨f, k, hselect, hlast⟩ := bind_eq_ok.mp h
    obtain ⟨b, l, hpeek, hfound⟩ := bind_eq_ok.mp hselect
    obtain ⟨hb, hl⟩ := peek_eq_ok.mp hpeek
    obtain ⟨hf, hk⟩ := orElse_eq_ok.mp hfound
    subst k l
    cases hlast
    refine ⟨rfl, i + 1, Nat.le_succ i, byteAt_eq_ok hb, fun code' hagree => ?_, fun j hj hadvance => ?_⟩
    · have hb' : byteAt code' i = .ok b := (hagree i hstart.le (Nat.lt_succ_self i)).trans hb
      exact bind_eq_ok.mpr ⟨f, i, bind_eq_ok.mpr ⟨b, i, peek_eq_ok.mpr ⟨hb', rfl⟩, hfound⟩, rfl⟩
    · have hj : i < j := hadvance (advances_of_mem ho hf)
      change max (start + 0) j = _
      omega
  | coprocessor =>
    obtain ⟨f, k, hselect, hlast⟩ := bind_eq_ok.mp h
    obtain ⟨b, l, hpeek, hrest⟩ := bind_eq_ok.mp hselect
    obtain ⟨first, l', hfirst, hform⟩ := bind_eq_ok.mp hrest
    obtain ⟨hb, hl⟩ := peek_eq_ok.mp hpeek
    obtain ⟨hbegin, hl'⟩ := lift_eq_ok.mp hfirst
    obtain ⟨hfound, hk⟩ := lift_eq_ok.mp hform
    subst k l' l
    cases hlast
    -- nothing stands in front of the operation code, so that the two bytes are the first of the instruction
    obtain rfl : i = start + 1 := hopens.resolve_right (fun hno => inRange_of_floatForm hfound (hno first hbegin))
    refine ⟨rfl, start + 2, by omega, byteAt_eq_ok hb, fun code' hagree => ?_, fun _ _ _ => rfl⟩
    have hb' : byteAt code' (start + 1) = .ok b := (hagree _ (by omega) (by omega)).trans hb
    have hfirst' : byteAt code' start = .ok first := (hagree _ le_rfl (by omega)).trans hbegin
    refine bind_eq_ok.mpr ⟨f, start + 1, bind_eq_ok.mpr ⟨b, start + 1, peek_eq_ok.mpr ⟨hb', rfl⟩, ?_⟩, rfl⟩
    exact bind_eq_ok.mpr ⟨first, start + 1, lift_eq_ok.mpr ⟨hfirst', rfl⟩, lift_eq_ok.mpr ⟨hfound, rfl⟩⟩

end Opcode

variable {ins : Instruction}

namespace Selection

open Reading

theorem exists_made_read (h : (read code start).run start = .ok (s, i)) :
    start < i ∧ ∃ reach, Made (fun code => (read code start).run start) code start s i reach := by
  obtain ⟨m, k, hmodifiers, hrest⟩ := bind_eq_ok.mp h
  obtain ⟨⟨o, m'⟩, l, hopcode, hselect⟩ := bind_eq_ok.mp hrest
  obtain ⟨hstart, hk, hfront, hsame⟩ := Modifiers.read_spec hmodifiers
  obtain ⟨ho, hkl, hlong⟩ := Opcode.read_spec hopcode
  have hl : l ≤ code.size := by
    have := (Opcode.local_read m).within hopcode
    omega
  have hopens : l = start + 1 ∨ ∀ b, byteAt code start = .ok b → b < 0xd8 ∨ b > 0xdf := by
    obtain rfl | ⟨b, hb, hadd⟩ := hfront
    · refine hlong.imp_right (fun hb b hb' => ?_)
      cases hb'.symm.trans hb
      exact .inl (by decide)
    · refine .inr (fun b' hb' => ?_)
      cases hb'.symm.trans hb
      exact Modifiers.not_coprocessor_of_add? hadd
  obtain ⟨rfl, reach, hmade⟩ := Opcode.exists_made_select ho (by omega) hl hopens hselect
  refine ⟨by omega, reach, hmade.le_reach, hmade.within, fun code' hagree => ?_, hmade.covered⟩
  have hreach := hmade.le_reach
  refine bind_eq_ok.mpr ⟨m, k, hsame code' (hagree.mono le_rfl (by omega)), ?_⟩
  refine bind_eq_ok.mpr ⟨(o, m'), i, ?_, hmade.agree code' hagree⟩
  exact (Opcode.local_read m).agree hopcode (hagree.mono hstart hreach)

theorem size_of_readOperands {b : ModeByte}
    (h : (s.readOperands code start b).run i = .ok (ins, j)) : ins.size = max s.least (j - start) := by
  obtain ⟨os, k, hoperands, hlast⟩ := bind_eq_ok.mp h
  cases hlast
  rfl

theorem local_readOperands (start : Nat) (s : Selection) (b : ModeByte) : Local (s.readOperands · start b) := by
  have hoperands : Local (fun code => s.form.slots.mapM (Slot.read code ⟨b, s.modifiers⟩)) :=
    local_mapM (Slot.local_read _) _
  exact hoperands.bind (fun _ => local_get.map _)

theorem lt_of_advances {k : Nat} {left b : ModeByte}
    (hs : s.form.advances) (hmode : (s.form.readMode code left).run i = .ok (b, k))
    (hrest : (s.readOperands code start b).run k = .ok (ins, j)) : i < j := by
  have hik : i ≤ k := (Form.local_readMode left s.form).forward hmode
  have hkj : k ≤ j := (local_readOperands start s b).forward hrest
  obtain hbyte | hnumber := Bool.or_eq_true _ _ ▸ hs
  · unfold Form.readMode at hmode
    rw [if_pos hbyte] at hmode
    obtain ⟨x, l, hx, hlast⟩ := bind_eq_ok.mp hmode
    obtain ⟨-, rfl⟩ := byte_eq_ok.mp hx
    cases hlast
    omega
  · obtain ⟨os, l, hoperands, hlast⟩ := bind_eq_ok.mp hrest
    cases hlast
    have := Slot.lt_of_mapM_read hnumber hoperands
    omega

end Selection

/-! ## What is left -/

namespace Decoders

variable {d : Decoders}

theorem read_eq_ok : (d.read code start).1 = .ok ins ↔ ∃ s i b k j, (Selection.read code start).run start = .ok (s, i) ∧
      (s.form.readMode code (d.left s.form)).run i = .ok (b, k) ∧
      (s.readOperands code start b).run k = .ok (ins, j) := by
  unfold read
  cases hselect : (Selection.read code start).run start with
  | error e => simp
  | ok p =>
    obtain ⟨s, i⟩ := p
    dsimp only
    cases hmode : (s.form.readMode code (d.left s.form)).run i with
    | error e => simp [hmode]
    | ok q =>
      obtain ⟨b, k⟩ := q
      dsimp only
      cases hrest : (s.readOperands code start b).run k with
      | error e => simp [hmode, hrest, Except.map]
      | ok r => simp [hmode, hrest, Except.map]; grind

/-- Nothing is left to forms without a mode byte, which would go by it. -/
def Blank (d : Decoders) : Prop := ∀ f : Form, f.hasMode = false → d.left f = .none

theorem blank_fresh : Blank {} := fun _ _ => rfl

theorem left_leave_of_ne (d : Decoders) {g : Form} (b : ModeByte) (h : g ≠ f) : (d.leave f b).left g = d.left g := by
  unfold left leave
  rw [List.lookup_cons, beq_eq_false_iff_ne.mpr h, PairMap.lookup_filter_ne, if_neg h]

section

variable (hd : d.Blank) (code : ByteArray)

include hd

theorem Blank.leave (hf : f.hasMode) (b : ModeByte) : (d.leave f b).Blank := by
  intro g hg
  have hne : g ≠ f := by
    rintro rfl
    rw [hf] at hg
    cases hg
  rw [left_leave_of_ne d b hne]
  exact hd g hg

theorem Blank.readMode (f : Form) : f.readMode code (d.left f) = f.readMode code .none := by
  unfold Form.readMode
  split
  · rfl
  next hf => rw [hd f (by simpa using hf)]

theorem Blank.read_eq (start : Nat) : (d.read code start).1 = Instruction.read code start := by
  unfold Instruction.read read
  cases (Selection.read code start).run start with
  | error e => rfl
  | ok p =>
    dsimp only
    rw [hd.readMode, blank_fresh.readMode]
    cases (p.1.form.readMode code .none).run p.2 with
    | error e => rfl
    | ok q => rfl

theorem Blank.read (start : Nat) : (d.read code start).2.Blank := by
  unfold Decoders.read
  cases (Selection.read code start).run start with
  | error e => exact hd
  | ok p =>
    dsimp only
    cases (p.1.form.readMode code (d.left p.1.form)).run p.2 with
    | error e => exact hd
    | ok q =>
      dsimp only
      split
      next hf => exact hd.leave hf q.1
      · exact hd

theorem Blank.decodeAt (index : Int64) : (d.decodeAt code index).2.Blank := by
  unfold Decoders.decodeAt
  dsimp only
  split
  · exact hd
  · exact hd.read code _

end

variable (calls : List (ByteArray × Int64))

/-- What a sequence of decodings leaves, each of some code at some index. -/
def after : Decoders := calls.foldl (fun d c => (d.decodeAt c.1 c.2).2) {}

theorem blank_after : (after calls).Blank := by
  suffices ∀ d : Decoders, d.Blank → (calls.foldl (fun d c => (d.decodeAt c.1 c.2).2) d).Blank from this {} blank_fresh
  induction calls with
  | nil => exact fun d hd => hd
  | cons c calls ih => exact fun d hd => ih _ (hd.decodeAt c.1 c.2)

theorem decodeAt_after {index : Int64} : ((after calls).decodeAt code index).1 = some ins ↔
      0 ≤ Word.low32 index ∧ Instruction.read code (Word.low32 index).toNat = .ok ins := by
  unfold decodeAt
  dsimp only
  split
  next hneg => simp [not_le.mpr hneg]
  next hnonneg =>
    rw [(blank_after calls).read_eq]
    cases Instruction.read code (Word.low32 index).toNat with
    | error e => simp [Except.toOption]
    | ok i => simpa [Except.toOption] using fun _ => not_lt.mp hnonneg

end Decoders

/-! ## Instructions -/

theorem Instruction.local_read (h : read code start = .ok ins) : 1 ≤ ins.size ∧ start + ins.size ≤ code.size ∧
      ∀ code', Agree code code' start (start + ins.size) → read code' start = .ok ins := by
  obtain ⟨s, i, b, k, j, hselect, hmode, hrest⟩ := Decoders.read_eq_ok.mp h
  have hmodeLocal := Form.local_readMode (Decoders.left {} s.form) s.form
  have hrestLocal := Selection.local_readOperands start s b
  obtain ⟨hstart, reach, hmade⟩ := Selection.exists_made_read hselect
  have hik : i ≤ k := hmodeLocal.forward hmode
  have hkj : k ≤ j := hrestLocal.forward hrest
  have hk : k ≤ max i code.size := hmodeLocal.within hmode
  have hj : j ≤ max k code.size := hrestLocal.within hrest
  have hi : i ≤ reach := hmade.le_reach
  have hreach : reach ≤ code.size := hmade.within
  -- the instruction ends where reading ended, or where selecting its form looked last
  have hend : start + ins.size = max reach j := by
    rw [← hmade.covered j (by omega) (fun hs => Selection.lt_of_advances hs hmode hrest),
      Selection.size_of_readOperands hrest]
    omega
  refine ⟨by omega, by omega, fun code' hagree => ?_⟩
  refine Decoders.read_eq_ok.mpr ⟨s, i, b, k, j, hmade.agree code' (hagree.mono le_rfl (by omega)), ?_, ?_⟩
  · exact hmodeLocal.agree hmode (hagree.mono (by omega) (by omega))
  · exact hrestLocal.agree hrest (hagree.mono (by omega) (by omega))

/-- Decoding at an index gives an instruction of at least one byte that lies within the code, at the
position that the low half of the index tells. Any code with the same bytes at this place gives the
same instruction, and what was decoded earlier does not matter. The position is the index itself
exactly where the index lies within a code that can be addressed with 32 bits. -/
theorem Decoders.decodeAt_local (earlier : List (ByteArray × Int64)) {code : ByteArray} {index : Int64}
    {ins : Instruction} (h : ((after earlier).decodeAt code index).1 = some ins) :
    1 ≤ ins.size ∧ 0 ≤ Word.low32 index ∧ Word.low32 index + ins.size ≤ code.size ∧
      (∀ (later : List (ByteArray × Int64)) (code' : ByteArray),
        Agree code code' (Word.low32 index).toNat ((Word.low32 index).toNat + ins.size) →
          ((after later).decodeAt code' index).1 = some ins) ∧
      (code.size < 2 ^ 32 →
        (0 ≤ index.toInt ∧ index.toInt + ins.size ≤ code.size ↔ index.toInt = Word.low32 index)) := by
  obtain ⟨hnonneg, hread⟩ := (decodeAt_after earlier).mp h
  obtain ⟨hsize, hwithin, hsame⟩ := Instruction.local_read hread
  refine ⟨hsize, hnonneg, by omega, fun later code' hagree => ?_, fun hcode => ?_⟩
  · exact (decodeAt_after later).mpr ⟨hnonneg, hsame code' hagree⟩
  · have hlow : Word.low32 index = index.toInt.bmod 4294967296 := rfl
    rw [hlow] at hnonneg hwithin ⊢
    unfold Int.bmod at hnonneg hwithin ⊢
    dsimp only at hnonneg hwithin ⊢
    split_ifs at hnonneg hwithin ⊢ <;> omega

/-- A shift whose number is the byte that selects its form, decoded after a multiplication: the
bytes after it, which the second code lacks, do not matter. -/
theorem Decoders.decodeAt_shift :
    let shift : Instruction := ⟨"psrlw", .arithmetic, [.register (.mmx 0), .immediate (-48) .uint8], 3, {}⟩
    ((after [(⟨#[0xde, 0xc9]⟩, 0)]).decodeAt ⟨#[0x0f, 0x71, 0xd0, 0x05]⟩ 0).1 = some shift ∧
      ((after []).decodeAt ⟨#[0x0f, 0x71, 0xd0]⟩ 0).1 = some shift := by
  intro shift
  have h : ((after [(⟨#[0xde, 0xc9]⟩, 0)]).decodeAt ⟨#[0x0f, 0x71, 0xd0, 0x05]⟩ 0).1 = some shift := by
    decide +kernel
  obtain ⟨-, -, -, hsame, -⟩ := decodeAt_local _ h
  refine ⟨h, hsame [] _ ?_⟩
  intro k _ hk
  change k < 3 at hk
  interval_cases k <;> rfl

/-- At an index beyond the low half, decoding gives an instruction that lies elsewhere. -/
theorem Decoders.decodeAt_beyond :
    let code : ByteArray := ⟨#[0x90]⟩
    ∃ ins, ((after []).decodeAt code 4294967296).1 = some ins ∧
      (code.size : Int) < (4294967296 : Int64).toInt + ins.size := by
  refine ⟨⟨"nop", .plain, [], 1, {}⟩, ?_, ?_⟩
  · decide +kernel
  · decide

end FlowRecovery.IA32
