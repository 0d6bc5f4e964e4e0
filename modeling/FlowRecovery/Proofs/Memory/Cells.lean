import FlowRecovery.Domain.Memory
import FlowRecovery.Proofs.Container.Rows
import FlowRecovery.Proofs.Ending

/-!
# Cells of abstract memory

Cells are looked up byte by byte. `Memory.Written` says all that a write can do to these look-ups: a
cell that is found afterwards was there before, is the new one, or is a single unknown byte in the
place of a cell that was overwritten. `Memory.ends_write` shows that writes end, and end in such a
way.

Memory is *whole* (`Memory.Whole`) if each cell is found under all of its bytes and under no other.
Writes keep this, because a cell of which a byte is overwritten is forgotten altogether
(`Written.whole`).
-/

namespace FlowRecovery.Memory

open FaultyM List

variable {A : Type}

theorem mem_bytes {o o' : Int64} {size : Int} : o' ∈ bytes o size ↔ ∃ i, i < size.toNat ∧ o' = o + .ofNat i := by
  simp only [bytes, mem_map, mem_range, eq_comm]

@[simp] theorem bytes_one (o : Int64) : bytes o 1 = [o] := by
  simp [bytes]

/-- Every cell is found under its bytes, and under them only. -/
def Whole (m : Memory A) : Prop :=
  ∀ r o c, m.cells.find? r o = some c →
    o ∈ bytes c.offset c.size ∧ ∀ o' ∈ bytes c.offset c.size, m.cells.find? r o' = some c

/-- Every cell is found under its bytes only. -/
def Placed (m : Memory A) : Prop := ∀ r o c, m.cells.find? r o = some c → o ∈ bytes c.offset c.size

theorem Whole.placed {m : Memory A} (h : m.Whole) : m.Placed := fun r o c hc => (h r o c hc).1

theorem whole_empty : ({} : Memory A).Whole := by
  intro r o c h
  cases h

theorem find?_foldl {r : Region} {f : Memory A → Int64 → Memory A} {g : Int64 → Option (Cell A)}
    (hf : ∀ m o r' o', (f m o).cells.find? r' o' = if r' = r ∧ o' = o then g o' else m.cells.find? r' o')
    (os : List Int64) (m : Memory A) (r' : Region) (o' : Int64) :
    (os.foldl f m).cells.find? r' o' = if r' = r ∧ o' ∈ os then g o' else m.cells.find? r' o' := by
  induction os generalizing m with
  | nil => simp
  | cons o os ih =>
    rw [foldl_cons, ih, hf]
    by_cases hos : r' = r ∧ o' ∈ os
    · rw [if_pos hos, if_pos ⟨hos.1, mem_cons_of_mem o hos.2⟩]
    · rw [if_neg hos]
      refine if_congr ?_ rfl rfl
      rw [mem_cons]
      grind

/-! ### Forgetting bytes -/

variable {o x : Int64} {m : Memory A}

section Vacate

variable (s : Setting A) (t : A) (r : Region)

/-- Is an unknown byte kept in memory, instead of no byte? -/
def keepsVacant : Bool := (s.options.emptyHeap && r != .stack) || r == .global

/-- What is found in the place of a byte that was forgotten; `t` is the unknown byte. -/
def vacant (o : Int64) : Option (Cell A) := if keepsVacant s r then some ⟨o, 1, t⟩ else none

def vacate (m : Memory A) (o : Int64) : Memory A :=
  { m with cells := if keepsVacant s r then m.cells.insert r o ⟨o, 1, t⟩ else m.cells.erase r o }

def vacateCell (m : Memory A) (o : Int64) : Memory A :=
  match m.cells.find? r o with
  | some old => (bytes old.offset old.size).foldl (vacate s t r) m
  | none => m

variable {s t r} {os : List Int64}

theorem vacant_eq_some {c : Cell A} (h : vacant s t r o = some c) : c = ⟨o, 1, t⟩ := by
  unfold vacant at h
  split at h
  · exact (Option.some.inj h).symm
  · cases h

theorem find?_vacate (m : Memory A) (o : Int64) (r' : Region) (o' : Int64) :
    (vacate s t r m o).cells.find? r' o' = if r' = r ∧ o' = o then vacant s t r o' else m.cells.find? r' o' := by
  unfold vacate vacant
  by_cases hkeeps : keepsVacant s r
  · simp only [hkeeps, if_true, PairMap.find?_insert]
    by_cases h : r' = r ∧ o' = o
    · rw [if_pos h, if_pos h, h.2]
    · rw [if_neg h, if_neg h]
  · simp only [hkeeps, if_false, PairMap.find?_erase, Bool.false_eq_true]

theorem tidy_vacate (h : m.cells.Tidy) (o : Int64) : (vacate s t r m o).cells.Tidy := by
  unfold vacate
  split
  · exact h.insert r o _
  · exact h.erase r o

theorem tidy_vacateCell (h : m.cells.Tidy) (o : Int64) : (vacateCell s t r m o).cells.Tidy := by
  unfold vacateCell
  split
  · exact foldlRecOn (motive := fun m : Memory A => m.cells.Tidy) _ _ h fun _ h o _ => tidy_vacate h o
  · exact h

theorem find?_foldl_vacate (os : List Int64) (m : Memory A) (r' : Region) (o' : Int64) :
    (os.foldl (vacate s t r) m).cells.find? r' o' =
      if r' = r ∧ o' ∈ os then vacant s t r o' else m.cells.find? r' o' :=
  find?_foldl find?_vacate os m r' o'

theorem find?_vacateCell (m : Memory A) (o : Int64) (r' : Region) (o' : Int64) :
    (vacateCell s t r m o).cells.find? r' o' = m.cells.find? r' o' ∨
      r' = r ∧ (vacateCell s t r m o).cells.find? r' o' = vacant s t r o' := by
  unfold vacateCell
  split
  · rw [find?_foldl_vacate]
    split
    · next h => exact .inr ⟨h.1, rfl⟩
    · exact .inl rfl
  · exact .inl rfl

theorem Whole.vacateCell (hm : m.Whole) (o : Int64) : (vacateCell s t r m o).Whole := by
  unfold Memory.vacateCell
  cases hold : m.cells.find? r o with
  | none => exact hm
  | some old =>
    intro r' o' c hc
    dsimp only at hc ⊢
    rw [find?_foldl_vacate] at hc
    split at hc
    · next h =>
      obtain rfl := vacant_eq_some hc
      rw [bytes_one]
      refine ⟨mem_singleton.mpr rfl, fun o'' ho'' => ?_⟩
      rw [mem_singleton.mp ho'', find?_foldl_vacate, if_pos h]
      exact hc
    · next h =>
      obtain ⟨hmem, hrange⟩ := hm r' o' c hc
      refine ⟨hmem, fun o'' ho'' => ?_⟩
      rw [find?_foldl_vacate, if_neg, hrange o'' ho'']
      rintro ⟨rfl, ho''old⟩
      -- a byte of both cells makes them one, and then `o'` was forgotten with them
      have hsame : some old = some c := (hm r' o old hold).2 o'' ho''old ▸ hrange o'' ho''
      cases hsame
      exact h ⟨rfl, hmem⟩

/-- The byte belongs to no cell, or to one that is a single unknown byte. -/
def IsVacant (t : A) (r : Region) (m : Memory A) (o : Int64) : Prop :=
  ∀ c, m.cells.find? r o = some c → c = ⟨o, 1, t⟩

theorem IsVacant.vacateCell {o' : Int64} (h : IsVacant t r m o') (o : Int64) :
    IsVacant t r (vacateCell s t r m o) o' := by
  intro c hc
  rcases find?_vacateCell (s := s) (t := t) m o r o' with heq | ⟨-, heq⟩
  · exact h c (heq ▸ hc)
  · exact vacant_eq_some (heq ▸ hc)

theorem Placed.vacateCell (hm : m.Placed) (o : Int64) : (Memory.vacateCell s t r m o).Placed := by
  intro r' o' c hc
  rcases find?_vacateCell (s := s) (t := t) m o r' o' with heq | ⟨-, heq⟩
  · exact hm r' o' c (heq ▸ hc)
  · obtain rfl := vacant_eq_some (heq ▸ hc)
    simp

theorem Placed.isVacant (hm : m.Placed) (o : Int64) : IsVacant t r (Memory.vacateCell s t r m o) o := by
  intro c hc
  unfold Memory.vacateCell at hc
  cases hold : m.cells.find? r o with
  | none =>
    rw [hold] at hc
    exact absurd (hold.symm.trans hc) (by simp)
  | some old =>
    rw [hold] at hc
    dsimp only at hc
    rw [find?_foldl_vacate, if_pos ⟨rfl, hm r o old hold⟩] at hc
    exact vacant_eq_some hc

/-! ### Forgetting what a write overlaps -/

theorem dataIsTop_vacateCell (m : Memory A) (o : Int64) : (vacateCell s t r m o).dataIsTop = m.dataIsTop := by
  unfold vacateCell
  split
  · exact foldlRecOn (motive := fun m' : Memory A => m'.dataIsTop = m.dataIsTop) _ _ rfl fun _ h _ _ => h
  · rfl

theorem find?_foldl_vacateCell (os : List Int64) (m : Memory A) (r' : Region) (o' : Int64) :
    (os.foldl (vacateCell s t r) m).cells.find? r' o' = m.cells.find? r' o' ∨
      r' = r ∧ (os.foldl (vacateCell s t r) m).cells.find? r' o' = vacant s t r o' := by
  induction os generalizing m with
  | nil => exact .inl rfl
  | cons o os ih =>
    rw [foldl_cons]
    rcases ih (vacateCell s t r m o) with h | h
    · rw [h]
      exact find?_vacateCell m o r' o'
    · exact .inr h

theorem find?_foldl_vacateCell_of_apart (hx : x ∉ os)
    (hcells : ∀ o ∈ os, ∀ c, m.cells.find? r o = some c → x ∉ bytes c.offset c.size) :
    (os.foldl (vacateCell s t r) m).cells.find? r x = m.cells.find? r x := by
  induction os generalizing m with
  | nil => rfl
  | cons o os ih =>
    rw [mem_cons, not_or] at hx
    have hstep : (vacateCell s t r m o).cells.find? r x = m.cells.find? r x := by
      unfold vacateCell
      cases hold : m.cells.find? r o with
      | none => rfl
      | some old => rw [find?_foldl_vacate, if_neg fun h => hcells o mem_cons_self old hold h.2]
    rw [foldl_cons, ih hx.2 fun o' ho' c hc => ?_, hstep]
    rcases find?_vacateCell (s := s) (t := t) m o r o' with heq | ⟨-, heq⟩
    · exact hcells o' (mem_cons_of_mem o ho') c (heq ▸ hc)
    · -- an unknown byte in the place of a cell is found under its own offset
      obtain rfl := vacant_eq_some (heq ▸ hc)
      rw [bytes_one, mem_singleton]
      exact fun h => hx.2 (h ▸ ho')

theorem Placed.isVacant_foldl (hm : m.Placed) (ho : o ∈ os) :
    IsVacant t r (os.foldl (Memory.vacateCell s t r) m) o := by
  induction os generalizing m with
  | nil => cases ho
  | cons o' os ih =>
    rcases mem_cons.mp ho with rfl | ho
    · exact foldlRecOn (motive := fun m => IsVacant t r m o) os _ (hm.isVacant o) fun _ h o' _ => h.vacateCell o'
    · exact ih (hm.vacateCell o') ho

end Vacate

/-! ### Writes -/

def fill (r : Region) (c : Cell A) (m : Memory A) (o : Int64) : Memory A := { m with cells := m.cells.insert r o c }

theorem find?_foldl_fill (r : Region) (c : Cell A) (os : List Int64) (m : Memory A) (r' : Region) (o' : Int64) :
    (os.foldl (fill r c) m).cells.find? r' o' = if r' = r ∧ o' ∈ os then some c else m.cells.find? r' o' :=
  find?_foldl (f := fill r c) (g := fun _ => some c) (fun m o r' o' => PairMap.find?_insert m.cells r r' o o' c)
    os m r' o'

/-- Nothing is known of the byte. -/
def Unknown (t : A) (r : Region) (x : Int64) (m : Memory A) : Prop :=
  m.cells.find? r x = some ⟨x, 1, t⟩ ∨ r ≠ .global ∧ m.cells.find? r x = none

/-- The byte is as it was, or nothing is known of it any more. -/
def Faded (t : A) (r : Region) (x : Int64) (m m' : Memory A) : Prop :=
  m'.cells.find? r x = m.cells.find? r x ∨ Unknown t r x m'

theorem Faded.trans {t : A} {r : Region} {m' m'' : Memory A} (h : Faded t r x m m')
    (h' : Faded t r x m' m'') : Faded t r x m m'' := by
  rcases h' with hsame | hunknown
  · unfold Faded Unknown
    rwa [hsame]
  · exact .inr hunknown

/-- **What a write does.** Memory `m` becomes `m'`; the new cell is stored unless its value is
unknown and need not be kept. The unknown byte is `t`. -/
structure Written (t : A) (r : Region) (new : Cell A) (stored : Bool) (m m' : Memory A) : Prop where
  dataIsTop_eq : m'.dataIsTop = m.dataIsTop
  /-- Other regions are left alone. -/
  elsewhere {r' : Region} (hr : r' ≠ r) (o : Int64) : m'.cells.find? r' o = m.cells.find? r' o
  /-- What is found was there before, is an unknown byte, or the new cell. -/
  origin {o : Int64} {c : Cell A} (hc : m'.cells.find? r o = some c) :
    m.cells.find? r o = some c ∨ c = ⟨o, 1, t⟩ ∨ o ∈ bytes new.offset new.size ∧ c = new
  /-- A cell that is stored is found under each of its bytes. -/
  inside (hs : stored = true) {o : Int64} (ho : o ∈ bytes new.offset new.size) : m'.cells.find? r o = some new
  /-- Where a value is not stored, nothing is known afterwards. -/
  isVacant (hs : stored = false) (hm : m.Placed) {o : Int64} (ho : o ∈ bytes new.offset new.size) : IsVacant t r m' o
  /-- A byte that is not written stays as it is, unless it shares its cell with one that is. -/
  apart {x : Int64} (hx : x ∉ bytes new.offset new.size)
    (hcells : ∀ o ∈ bytes new.offset new.size, ∀ c, m.cells.find? r o = some c → x ∉ bytes c.offset c.size) :
    m'.cells.find? r x = m.cells.find? r x
  /-- A byte that is not written is forgotten at most. -/
  faded {x : Int64} (hx : x ∉ bytes new.offset new.size) : Faded t r x m m'
  /-- Cells stay whole. -/
  whole (hm : m.Whole) : m'.Whole
  tidy (hm : m.cells.Tidy) : m'.cells.Tidy

section Write

variable {s : Setting A} {t : A} {r : Region} {new : Cell A}

theorem written_vacated (s : Setting A) (new : Cell A) (m : Memory A) :
    Written t r new false m ((bytes new.offset new.size).foldl (vacateCell s t r) m) where
  dataIsTop_eq := foldlRecOn (motive := fun m' : Memory A => m'.dataIsTop = m.dataIsTop) _ _ rfl fun m' h o _ =>
    (dataIsTop_vacateCell m' o).trans h
  elsewhere hr o := (find?_foldl_vacateCell _ m _ o).resolve_right fun h => hr h.1
  origin hc := by
    rcases find?_foldl_vacateCell (s := s) (t := t) (bytes new.offset new.size) m r _ with h | ⟨-, h⟩
    · exact .inl (h ▸ hc)
    · exact .inr (.inl (vacant_eq_some (h ▸ hc)))
  inside hs := by cases hs
  isVacant _ hm _ ho := hm.isVacant_foldl ho
  apart := find?_foldl_vacateCell_of_apart
  faded {x} _ := by
    rcases find?_foldl_vacateCell (s := s) (t := t) (bytes new.offset new.size) m r x with h | ⟨-, h⟩
    · exact .inl h
    · right
      rw [Unknown, h, vacant]
      by_cases hkeeps : keepsVacant s r
      · exact .inl (if_pos hkeeps)
      · refine .inr ⟨fun hr => hkeeps ?_, if_neg hkeeps⟩
        simp [keepsVacant, hr]
  whole hm := foldlRecOn (motive := Whole) _ _ hm fun _ h o _ => h.vacateCell o
  tidy hm := foldlRecOn (motive := fun m : Memory A => m.cells.Tidy) _ _ hm fun _ h o _ => tidy_vacateCell h o

theorem Written.filled {m' : Memory A} (h : Written t r new false m m') :
    Written t r new true m ((bytes new.offset new.size).foldl (fill r new) m') where
  dataIsTop_eq := foldlRecOn (motive := fun n : Memory A => n.dataIsTop = m.dataIsTop) _ _
    h.dataIsTop_eq fun _ h _ _ => h
  elsewhere hr o := by
    rw [find?_foldl_fill, if_neg fun h => hr h.1]
    exact h.elsewhere hr o
  origin hc := by
    rw [find?_foldl_fill] at hc
    split at hc
    · next hin => exact .inr (.inr ⟨hin.2, (Option.some.inj hc).symm⟩)
    · next hout =>
      rcases h.origin hc with hold | hvacant | hnew
      · exact .inl hold
      · exact .inr (.inl hvacant)
      · exact absurd ⟨rfl, hnew.1⟩ hout
  inside _ _ ho := by rw [find?_foldl_fill, if_pos ⟨rfl, ho⟩]
  isVacant hs := by cases hs
  apart hx hcells := by
    rw [find?_foldl_fill, if_neg fun h => hx h.2]
    exact h.apart hx hcells
  faded hx := by
    rw [Faded, Unknown, find?_foldl_fill, if_neg fun h => hx h.2]
    exact h.faded hx
  tidy hm := foldlRecOn (motive := fun m : Memory A => m.cells.Tidy) _ _ (h.tidy hm) fun _ h o _ => h.insert r o new
  whole hm := by
    intro r' o c hc
    rw [find?_foldl_fill] at hc
    split at hc
    · next hin =>
      cases hc
      refine ⟨hin.2, fun o' ho' => ?_⟩
      rw [find?_foldl_fill, if_pos ⟨hin.1, ho'⟩]
    · next hout =>
      obtain ⟨hmem, hrange⟩ := h.whole hm r' o c hc
      refine ⟨hmem, fun o' ho' => ?_⟩
      rw [find?_foldl_fill, if_neg, hrange o' ho']
      rintro ⟨rfl, hin⟩
      -- the cell would be the vacant byte under `o'`, so that `o` is `o'`
      obtain rfl := h.isVacant rfl hm.placed hin c (hrange o' ho')
      rw [bytes_one, mem_singleton] at hmem
      exact hout ⟨rfl, hmem ▸ hin⟩

theorem Written.placed {stored : Bool} {m' : Memory A} (h : Written t r new stored m m')
    (hm : m.Placed) : m'.Placed := by
  intro r' o c hc
  by_cases hr : r' = r
  · subst hr
    rcases h.origin hc with hold | rfl | ⟨hmem, rfl⟩
    · exact hm r' o c hold
    · simp
    · exact hmem
  · exact hm r' o c (h.elsewhere hr o ▸ hc)

/-- Memory after the cells that the new one overlaps were forgotten, and the new one was stored if
it is to be. -/
def overwrite (s : Setting A) (t : A) (r : Region) (new : Cell A) (stored : Bool) (m : Memory A) : Memory A :=
  let vacated := (bytes new.offset new.size).foldl (vacateCell s t r) m
  if stored then (bytes new.offset new.size).foldl (fill r new) vacated else vacated

theorem written_overwrite (s : Setting A) (new : Cell A) (stored : Bool) (m : Memory A) :
    Written t r new stored m (overwrite s t r new stored m) := by
  have hvacated := written_vacated (t := t) (r := r) s new m
  cases stored with
  | false => exact hvacated
  | true => exact hvacated.filled

theorem find?_overwrite (s : Setting A) (new : Cell A) (stored : Bool) (m : Memory A) (r' : Region) (o : Int64) :
    let m' := overwrite s t r new stored m
    m'.cells.find? r' o = m.cells.find? r' o ∨ r' = r ∧ m'.cells.find? r' o = vacant s t r o ∨
      r' = r ∧ stored ∧ o ∈ bytes new.offset new.size ∧ m'.cells.find? r' o = some new := by
  have hvacated := find?_foldl_vacateCell (s := s) (t := t) (r := r) (bytes new.offset new.size) m r' o
  cases stored with
  | false => exact hvacated.imp id .inl
  | true =>
    rw [overwrite, if_pos rfl]
    dsimp only
    rw [find?_foldl_fill]
    by_cases hin : r' = r ∧ o ∈ bytes new.offset new.size
    · rw [if_pos hin]
      exact .inr (.inr ⟨hin.1, rfl, hin.2, rfl⟩)
    · rw [if_neg hin]
      exact hvacated.imp id .inl

theorem ends_setByteTop (ht : s.factory.top 8 = .ok t) (o : Int64) (m : Memory A) :
    Ends (setByteTop s r o) m () (vacate s t r m o) := by
  unfold setByteTop vacate
  by_cases hkeeps : keepsVacant s r
  · rw [if_pos (show (s.options.emptyHeap && r != .stack || r == .global) = true from hkeeps), if_pos hkeeps]
    refine .lift ht ?_
    exact ends_modify.mpr rfl
  · rw [if_neg (show ¬(s.options.emptyHeap && r != .stack || r == .global) = true from hkeeps), if_neg hkeeps]
    exact ends_modify.mpr rfl

theorem ends_forgetCell (ht : s.factory.top 8 = .ok t) (o : Int64) (m : Memory A) : Ends (do
      match (← get).cells.find? r o with
      | some old => (bytes old.offset old.size).forM (setByteTop s r)
      | none => pure () : Update A Unit) m () (vacateCell s t r m o) := by
  refine ends_get_bind.mpr ?_
  unfold vacateCell
  cases m.cells.find? r o with
  | none => exact .pure
  | some old => exact ends_forM_foldl (fun o m => ends_setByteTop ht o m) _ m

theorem ends_insertCell (c : Cell A) (os : List Int64) (m : Memory A) :
    Ends (os.forM (fun o => changeCells (·.insert r o c)) : Update A Unit) m () (os.foldl (fill r c) m) :=
  ends_forM_foldl (fun _ _ => ends_modify.mpr rfl) os m

variable [AbstractValue A]

variable {w : Int} {v : A}

section

variable (ht : s.factory.top 8 = .ok t) (hr : r ≠ .top) (hw : ∀ u ∈ AbstractValue.width? v, u = w) {b : Bool}
  (hv : AbstractValue.isTop v = .ok b) (m : Memory A)

include hr hw

theorem write_eq : write s r o w v = (do
      (bytes o (w.tdiv 8)).forM (fun o => do
        match (← get).cells.find? r o with
        | some old => (bytes old.offset old.size).forM (setByteTop s r)
        | none => pure ())
      if !(← AbstractValue.isTop v) || r == .global then
        (bytes o (w.tdiv 8)).forM (fun o' => changeCells (·.insert r o' ⟨o, w.tdiv 8, v⟩))) := by
  rw [write, requireKnown, if_neg hr, pure_bind]
  cases hwidth : AbstractValue.width? v with
  | none => rfl
  | some u =>
    dsimp only
    exact (if_neg (not_not.mpr (hw u hwidth))).trans rfl

include ht hv

theorem ends_write_overwrite :
    Ends (write s r o w v) m () (overwrite s t r ⟨o, w.tdiv 8, v⟩ (!b || r == .global) m) := by
  have hclear := ends_forM_foldl (ends_forgetCell (s := s) (r := r) ht) (bytes o (w.tdiv 8)) m
  rw [write_eq hr hw]
  refine .bind hclear (.lift hv ?_)
  rw [overwrite]
  cases hstored : (!b || r == .global) with
  | false =>
    rw [if_neg Bool.false_ne_true, if_neg Bool.false_ne_true]
    exact .pure
  | true =>
    rw [if_pos rfl, if_pos rfl]
    exact ends_insertCell _ _ _

theorem ends_write : ∃ m', Ends (write s r o w v) m () m' ∧ Written t r ⟨o, w.tdiv 8, v⟩ (!b || r == .global) m m' :=
  ⟨_, ends_write_overwrite ht hr hw hv m, written_overwrite s _ _ m⟩

end

theorem readWith_cell {c : Cell A} (hc : m.cells.find? r o = some c)
    {compose : Faulty (Option (List Num))} (ho : c.offset = o) (hw : c.size = w.tdiv 8) :
    readWith s m compose r o w = .ok c.contents := by
  rw [readWith, hc]
  dsimp only
  rw [if_pos ⟨ho, hw⟩]
  rfl

/-- A value that can be written as a byte. -/
structure IsByte (a : A) : Prop where
  width_eq : ∀ u ∈ AbstractValue.width? a, u = 8
  isTop_eq : ∃ b, AbstractValue.isTop a = .ok b

/-- What a domain has for a byte of which nothing is known. -/
structure UnknownByte (s : Setting A) (t : A) : Prop extends IsByte t where
  top_eq : s.factory.top 8 = .ok t

end Write

/-! ### Less memory -/

/-- Every cell that is found is found in the other memory, too. -/
def Within (n m : Memory A) : Prop := ∀ r o c, n.cells.find? r o = some c → m.cells.find? r o = some c

theorem find?_forgetStackBelow (m : Memory A) (d : Int64) (r : Region) (o : Int64) :
    (m.forgetStackBelow d).cells.find? r o = if r = .stack ∧ o < d then none else m.cells.find? r o := by
  rw [forgetStackBelow, PairMap.find?_filterRow]
  simp

theorem within_forgetStackBelow (m : Memory A) (d : Int64) : Within (m.forgetStackBelow d) m := by
  intro r o c hc
  rw [find?_forgetStackBelow] at hc
  split at hc
  · cases hc
  · exact hc

/-! ### Heads of cells -/

section Heads

variable {r : Region} {c : Cell A}

theorem mem_heads {entries : List (Int64 × Cell A)} : c ∈ heads entries ↔ (c.offset, c) ∈ entries := by
  rw [heads, mem_filterMap]
  constructor
  · rintro ⟨⟨o, c'⟩, hmem, hc⟩
    dsimp only at hc
    split at hc
    · next ho =>
      cases hc
      rwa [← ho]
    · cases hc
  · intro h
    exact ⟨_, h, if_pos rfl⟩

theorem mem_globalHeads (h : m.cells.find? .global c.offset = some c) : c ∈ m.globalHeads :=
  mem_heads.mpr ((PairMap.mem_rowList m.cells .global c.offset c).mpr h)

theorem mem_allHeads (h : m.cells.find? r c.offset = some c) : (r, c) ∈ m.allHeads := by
  obtain ⟨row, hrow, hc⟩ := PairMap.exists_row_of_find? h
  rw [allHeads, mem_flatMap]
  exact ⟨(r, row), hrow, mem_map.mpr ⟨c, mem_heads.mpr hc, rfl⟩⟩

theorem find?_of_mem_allHeads (hm : m.cells.Keyed) (h : (r, c) ∈ m.allHeads) : m.cells.find? r c.offset = some c := by
  rw [allHeads, mem_flatMap] at h
  obtain ⟨⟨r', row⟩, hrow, hc⟩ := h
  obtain ⟨c', hc', heq⟩ := mem_map.mp hc
  cases heq
  rw [← hm.getElem?_of_mem hrow]
  exact Std.TreeMap.mem_toList_iff_getElem?_eq_some.mp (mem_heads.mp hc')

end Heads

end FlowRecovery.Memory
