import FlowRecovery.Proofs.Memory.Bytes
import FlowRecovery.Proofs.Memory.Forgetting

/-!
# Copying memory

`Memory.copy` copies one byte after the other. Only where a cell of the source region starts at the
offset of the *target*, it copies that cell instead. If there is no such cell, each byte of the
target is afterwards what the byte of the source was, or unknown: a cell with bytes of both is
forgotten as soon as one of them is overwritten. `Memory.Copied` is the invariant of the loop.
-/

namespace FlowRecovery.Memory

open FaultyM

variable {A : Type} [AbstractValue A] {s : Setting A} {t b : A} {r source target : Region} {from_ into size x : Int64}
  {k : Nat} {a : Nat → A} {m m' n : Memory A} {stored : Bool}

/-! ### Single bytes -/

theorem read_byte (hr : r ≠ .top) (h : m.cells.find? r x = some ⟨x, 1, b⟩) : m.read s r x 8 = .ok b := by
  rw [read, requireKnown, if_neg hr]
  exact readWith_cell h rfl rfl

theorem Unknown.read (ht : s.factory.top 8 = .ok t) (hr : r ≠ .top) (h : Unknown t r x m) : m.read s r x 8 = .ok t := by
  rcases h with hfind | ⟨hglobal, hfind⟩
  · exact read_byte hr hfind
  · rw [Memory.read, requireKnown, if_neg hr, pure_bind, readWith, hfind]
    exact (if_neg hglobal).trans ht

theorem read_byte_congr (hflag : m'.dataIsTop = m.dataIsTop) (h : m'.cells.find? r x = m.cells.find? r x) :
    m'.read s r x 8 = m.read s r x 8 := by
  refine read_congr (by decide) hflag fun y hy => ?_
  obtain rfl : y = x := by simpa using (bytes_one x ▸ hy : y ∈ [x])
  exact h

omit [AbstractValue A] in
theorem Written.byte (h : Written t r ⟨x, 1, b⟩ (stored || r == .global) m m') (hm : m.Placed) :
    m'.cells.find? r x = some ⟨x, 1, b⟩ ∨ Unknown t r x m' := by
  have hx : x ∈ bytes x 1 := by simp
  cases hstored : (stored || r == .global) with
  | true => exact .inl (h.inside hstored hx)
  | false =>
    right
    cases hfind : m'.cells.find? r x with
    | none => exact .inr ⟨by rintro rfl; simp at hstored, hfind⟩
    | some c =>
      obtain rfl := h.isVacant hstored hm hx c hfind
      exact .inl hfind

/-! ### The loop -/

/-- The first `k` bytes of the target were written: byte `i` is `a i`, or unknown. -/
structure Copied (t : A) (target : Region) (into : Int64) (a : Nat → A) (k : Nat) (m m' : Memory A) : Prop where
  placed : m'.Placed
  dataIsTop_eq : m'.dataIsTop = m.dataIsTop
  elsewhere {r : Region} (hr : r ≠ target) (x : Int64) : m'.cells.find? r x = m.cells.find? r x
  done {i : Nat} (hi : i < k) : m'.cells.find? target (into + Int64.ofNat i) = some ⟨into + Int64.ofNat i, 1, a i⟩ ∨
    Unknown t target (into + Int64.ofNat i) m'
  ahead {x : Int64} (hx : x ∉ bytes into k) : Faded t target x m m'
  apart {x : Int64} (hx : x ∉ bytes into k)
    (hcells : ∀ y ∈ bytes into k, ∀ c, m.cells.find? target y = some c → x ∉ bytes c.offset c.size) :
    m'.cells.find? target x = m.cells.find? target x

theorem mem_bytes_succ : x ∈ bytes into (k + 1 : Nat) ↔ x ∈ bytes into k ∨ x = into + .ofNat k := by
  simp [bytes, List.range_succ]

theorem not_mem_bytes (hk : k < 2 ^ 63) : into + .ofNat k ∉ bytes into k := by
  rw [mem_bytes]
  rintro ⟨i, hi, heq⟩
  have hdistance := congrArg (distance into) heq
  rw [distance_add (by omega), distance_add (by omega)] at hdistance
  omega

omit [AbstractValue A] in
/-- **One more byte.** -/
theorem Copied.write (h : Copied t target into a k m m') (hk : k < 2 ^ 63) (hb : b = a k ∨ b = t)
    (hw : Written t target ⟨into + .ofNat k, 1, b⟩ (stored || target == .global) m' n) :
    Copied t target into a (k + 1) m n := by
  have hnew : into + .ofNat k ∉ bytes into k := not_mem_bytes hk
  have hother {x : Int64} (hx : x ≠ into + .ofNat k) : Faded t target x m' n := hw.faded (by simpa using hx)
  refine ⟨hw.placed h.placed, hw.dataIsTop_eq.trans h.dataIsTop_eq,
    fun hr x => (hw.elsewhere hr x).trans (h.elsewhere hr x), fun {i} hi => ?_, fun {x} hx => ?_, fun {x} hx hcells => ?_⟩
  · rcases Nat.lt_succ_iff_lt_or_eq.mp hi with hi | rfl
    · have hne : into + .ofNat i ≠ into + .ofNat k :=
        fun heq => hnew (mem_bytes.mpr ⟨i, by simpa using hi, heq.symm⟩)
      rcases hother hne with heq | hunknown
      · unfold Unknown
        rw [heq]
        exact h.done hi
      · exact .inr hunknown
    · rcases hb with rfl | rfl
      · exact hw.byte h.placed
      · exact .inr ((hw.byte h.placed).elim .inl id)
  · rw [mem_bytes_succ, not_or] at hx
    exact (h.ahead hx.1).trans (hother hx.2)
  · have hx' := mem_bytes_succ.not.mp hx
    rw [not_or] at hx'
    rw [hw.apart (by simpa using hx'.2) fun y hy c hc => ?_,
      h.apart hx'.1 fun y hy => hcells y (mem_bytes_succ.mpr (.inl hy))]
    -- the cell that is overwritten was there before, or is an unknown byte
    obtain rfl : y = into + .ofNat k := by simpa using hy
    rcases h.ahead hnew with heq | hvacant | ⟨-, hnone⟩
    · exact hcells _ (mem_bytes_succ.mpr (.inr rfl)) c (heq ▸ hc)
    · cases hvacant.symm.trans hc
      simpa using hx'.2
    · exact absurd (hnone.symm.trans hc) (by simp)

section Copy

variable (hu : UnknownByte s t) (htarget : target ≠ .top)
  (hread : ∀ i < size.toInt.toNat, m.read s source (from_ + .ofNat i) 8 = .ok (a i) ∧ IsByte (a i))
  (hdisjoint : source = target → ∀ i < size.toInt.toNat, from_ + .ofNat i ∉ bytes into size.toInt)
  (hstray : ∀ x ∈ bytes into size.toInt, ∀ c, m.cells.find? source x = some c → c.offset ≠ x)

include hu htarget hread hdisjoint hstray

/-- **The loop.** -/
theorem exists_copied {fuel : Nat} (hfuel : k + fuel = size.toInt.toNat) (h : Copied t target into a k m m') :
    ∃ n, Ends (copy.go s source from_ target into size fuel (.ofNat k)) m' () n ∧
      Copied t target into a size.toInt.toNat m n := by
  induction fuel generalizing k m' with
  | zero =>
    obtain rfl : k = size.toInt.toNat := by omega
    exact ⟨m', ends_pure.mpr ⟨rfl, rfl⟩, h⟩
  | succ fuel ih =>
    have hk : k < size.toInt.toNat := by omega
    have hsmall : k < 2 ^ 63 := by have := size.toInt_lt; omega
    have hlt : .ofNat k < size := by
      rw [Int64.lt_iff_toInt_lt, Int64.toInt_ofNat_of_lt hsmall]
      omega
    obtain ⟨hvalue, hbyte⟩ := hread k hk
    have hsource : source ≠ .top := by
      rintro rfl
      have herror : Except.error (Fault.violated none) = Except.ok (a k) := hvalue
      cases herror
    -- what is ahead in the source region is as it was, or was forgotten
    have hfaded {y : Int64} (hy : source = target → y ∉ bytes into k) : Faded t source y m m' := by
      by_cases hsame : source = target
      · subst hsame
        exact h.ahead (hy rfl)
      · exact .inl (h.elsewhere hsame y)
    obtain ⟨b, hb, hread'⟩ : ∃ b, (b = a k ∨ b = t) ∧ m'.read s source (from_ + .ofNat k) 8 = .ok b := by
      have hfar (hsame : source = target) : from_ + .ofNat k ∉ bytes into k := by
        intro hmem
        obtain ⟨i, hi, heq⟩ := mem_bytes.mp hmem
        exact hdisjoint hsame k hk (mem_bytes.mpr ⟨i, by omega, heq⟩)
      rcases hfaded hfar with heq | hunknown
      · exact ⟨a k, .inl rfl, (read_byte_congr h.dataIsTop_eq heq).trans hvalue⟩
      · exact ⟨t, .inr rfl, hunknown.read hu.top_eq hsource⟩
    -- either way one byte is written, and the rest is copied
    have hgo {b : A} (hb : b = a k ∨ b = t) : ∃ m₁ n, Ends (write s target (into + .ofNat k) 8 b) m' () m₁ ∧
        Ends (copy.go s source from_ target into size fuel (.ofNat k + 1)) m₁ () n ∧
        Copied t target into a size.toInt.toNat m n := by
      have hisByte : IsByte b := by
        rcases hb with rfl | rfl
        · exact hbyte
        · exact hu.toIsByte
      obtain ⟨top, htop⟩ := hisByte.isTop_eq
      obtain ⟨m₁, hends, hwritten⟩ := ends_write (o := into + .ofNat k) hu.top_eq htarget hisByte.width_eq htop m'
      obtain ⟨n, hrest, hcopied⟩ := ih (by omega) (h.write hsmall hb hwritten)
      rw [Int64.ofNat_add] at hrest
      exact ⟨m₁, n, hends, hrest, hcopied⟩
    rw [copy.go, if_pos hlt]
    cases hc : (m'.cells.find? source (into + .ofNat k)).filter (·.offset = into + .ofNat k) with
    | none =>
      obtain ⟨m₁, n, hends, hrest, hcopied⟩ := hgo hb
      refine ⟨n, ends_get_bind.mpr ?_, hcopied⟩
      rw [hc]
      exact ends_bind.mpr ⟨b, m', ends_lift.mpr ⟨hread', rfl⟩,
        ends_bind.mpr ⟨(), m₁, hends, hrest⟩⟩
    | some c =>
      -- the cell was not there before, so that it is an unknown byte
      obtain ⟨hfind, hoffset⟩ := Option.filter_eq_some_iff.mp hc
      have hold := hstray _ (mem_bytes.mpr ⟨k, hk, rfl⟩) c
      obtain rfl : c = ⟨into + .ofNat k, 1, t⟩ := by
        rcases hfaded fun _ => not_mem_bytes hsmall with heq | hvacant | ⟨-, hnone⟩
        · exact absurd (of_decide_eq_true hoffset) (hold (heq ▸ hfind))
        · exact Option.some.inj (hfind.symm.trans hvacant)
        · exact absurd (hnone.symm.trans hfind) (by simp)
      obtain ⟨m₁, n, hends, hrest, hcopied⟩ := hgo (.inr rfl)
      refine ⟨n, ends_get_bind.mpr ?_, hcopied⟩
      rw [hc]
      exact ends_bind.mpr ⟨(), m₁, hends, hrest⟩

/-- **Copying.** If no cell of the source region starts at an offset of the target, each byte of the
target is what the byte of the source was, or unknown. Bytes outside the target and outside the
cells that overlap it are as before. -/
theorem copy_reads (hm : m.Placed) :
    ∃ n, Ends (copy s source from_ target into size) m () n ∧
      (∀ i < size.toInt.toNat, n.read s target (into + Int64.ofNat i) 8 = .ok (a i) ∨
        n.read s target (into + Int64.ofNat i) 8 = .ok t) ∧
      ∀ (r : Region) (x : Int64), (r = target → x ∉ bytes into size.toInt ∧
        ∀ y ∈ bytes into size.toInt, ∀ c, m.cells.find? target y = some c → x ∉ bytes c.offset c.size) →
          n.read s r x 8 = m.read s r x 8 := by
  have hstart : Copied t target into a 0 m m :=
    ⟨hm, rfl, fun _ _ => rfl, fun hi => absurd hi (Nat.not_lt_zero _), fun _ => .inl rfl, fun _ _ => rfl⟩
  obtain ⟨n, hends, hcopied⟩ := exists_copied hu htarget hread hdisjoint hstray (Nat.zero_add _) hstart
  have hbytes : bytes into size.toInt = bytes into size.toInt.toNat := by simp [bytes]
  refine ⟨n, hends, fun i hi => ?_, fun r x hx => read_byte_congr hcopied.dataIsTop_eq ?_⟩
  · exact (hcopied.done hi).imp (read_byte htarget) (Unknown.read hu.top_eq htarget)
  · by_cases hr : r = target
    · subst hr
      rw [hbytes] at hx
      exact hcopied.apart (hx rfl).1 (hx rfl).2
    · exact hcopied.elsewhere hr x

end Copy

section Example

/-- A number of 16 bits is copied byte by byte. -/
theorem copy_number :
    ∃ n, Ends (copy plainSetting .stack 0 .stack 100 2) (onStack {} 0 2 0x1234) () n ∧
      (n.read plainSetting .stack 101 8 = .ok (.known ⟨0x12, 8⟩) ∨
        n.read plainSetting .stack 101 8 = .ok (.unknown 8)) := by
  obtain ⟨n, hcopy, hread, -⟩ := @copy_reads _ _ plainSetting _ .stack .stack 0 100 2
    (fun i => .known ⟨if i = 0 then 0x34 else 0x12, 8⟩) (onStack {} 0 2 0x1234) unknownByte_plainSetting (by decide) (fun i hi => by
      have hi : i < 2 := hi
      refine ⟨?_, fun u hu => (Option.some.inj hu).symm, false, rfl⟩
      interval_cases i <;> decide +kernel)
    (fun _ i hi => by
      have hi : i < 2 := hi
      interval_cases i <;> simp [bytes, List.range_succ])
    (fun x hx c hc => by
      obtain rfl | rfl : x = 100 ∨ x = 101 := by simpa [bytes, List.range_succ] using hx
      · exact absurd hc (by simp [show (onStack {} 0 2 0x1234).cells.find? .stack 100 = none by decide +kernel])
      · exact absurd hc (by simp [show (onStack {} 0 2 0x1234).cells.find? .stack 101 = none by decide +kernel]))
    ((written_overwrite plainSetting _ _ _).placed whole_empty.placed)
  exact ⟨n, hcopy, hread 1 (by decide)⟩

/-- A byte that was at the target already is kept, and the byte of the source is not copied. -/
theorem copy_onto_byte :
    let m := onStack (onStack {} 0 1 1) 100 1 2
    m.read plainSetting .stack 0 8 = .ok (.known ⟨1, 8⟩) ∧ ∃ n, Ends (copy plainSetting .stack 0 .stack 100 1) m () n ∧
      n.read plainSetting .stack 100 8 = .ok (.known ⟨2, 8⟩) := by
  intro m
  refine ⟨by decide +kernel, onStack m 100 1 2, ?_, by decide +kernel⟩
  have hfind : (m.cells.find? .stack (100 + 0)).filter (·.offset = 100 + 0) = some ⟨100, 1, .known ⟨2, 8⟩⟩ := by
    decide +kernel
  rw [copy, show (1 : Int64).toInt.toNat = 0 + 1 from rfl, copy.go, if_pos (by decide), ends_get_bind, hfind]
  exact ends_bind.mpr ⟨(), _, ends_write_stack m 100 1 2, ends_pure.mpr ⟨rfl, rfl⟩⟩

end Example

end FlowRecovery.Memory
