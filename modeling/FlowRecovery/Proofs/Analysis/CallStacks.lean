import Mathlib
import FlowRecovery.Analysis.CallStack

/-!
# Heights and tops of call stacks

A call puts the label that it returns to on the part of the stack below the same label. So a stack
never lists a label twice, whatever calls and returns have led to it, and is higher than at first by
the labels of its calls at most (`height_after_transfers`).

What a recursive call cuts away is not put back when it returns. The top of the stack is the label
of the innermost open call exactly if there was no recursion inside that call (`project_innermost`).
-/

namespace FlowRecovery.CallStack

open List

/-- What happens to the calls that are open. -/
inductive Transfer where
  | call (next : Label)
  | ret

def Transfer.apply (labels : List Label) : Transfer → List Label
  | call next => push next labels
  | ret => labels.tail

def Transfer.label? : Transfer → Option Label
  | call next => some next
  | ret => none

variable {p : Program} {s : Stmt} {t : Transfer} {ss : List Stmt} {ts : List Transfer} {labels : List Label}

/-- The statement says that a return was taken, or a call outside the harness that returns to a
label. -/
inductive Transfers (p : Program) (s : Stmt) : Transfer → Prop where
  | call {c : Expr} {j : PlacedJump} {l next : Label} {h : Harness} (effect : s.effect = .assume c j)
      (label : s.label = some l) (kind : j.jump.kind = .call) (harness : p.harness = some h)
      (outside : h.contains l.address = false) (target : returnLabel p l.address j = .ok next) : Transfers p s (.call next)
  | ret {c : Expr} {j : PlacedJump} {l : Label} (effect : s.effect = .assume c j) (label : s.label = some l)
      (kind : j.jump.kind = .ret) : Transfers p s .ret

theorem post_transfer (h : Transfers p s t) (labels : List Label) :
    post p s (stack labels) = .ok (stack (t.apply labels)) := by
  cases h with
  | call heffect hlabel hkind hharness houtside hnext =>
    simp only [post, heffect, hlabel, jump, hkind, hharness, houtside, hnext]
    rfl
  | ret heffect hlabel hkind =>
    simp only [post, heffect, hlabel, jump, hkind]
    rfl

theorem push_eq (l : Label) (labels : List Label) : ∃ below, push l labels = l :: below ∧ below <:+ labels ∧ l ∉ below := by
  refine ⟨_, rfl, ?_, fun hmem => ?_⟩
  · rw [← reverse_prefix, reverse_reverse]
    exact takeWhile_prefix _
  · have hne := mem_takeWhile_imp (mem_reverse.mp hmem)
    exact absurd rfl (bne_iff_ne.mp hne)

/-- One transfer: no label is listed twice, and all labels but that of a call were listed before. -/
theorem Transfer.apply_spec (t : Transfer) (h : labels.Nodup) :
    (t.apply labels).Nodup ∧ ∀ l ∈ t.apply labels, l ∈ labels ∨ t.label? = some l := by
  cases t with
  | call next =>
    obtain ⟨below, hpush, hsuffix, hnext⟩ := push_eq next labels
    rw [apply, hpush]
    refine ⟨nodup_cons.mpr ⟨hnext, h.sublist hsuffix.sublist⟩, fun l hl => ?_⟩
    rcases mem_cons.mp hl with rfl | hl
    · exact .inr rfl
    · exact .inl (hsuffix.mem hl)
  | ret => exact ⟨h.sublist (tail_sublist _), fun l hl => .inl (mem_of_mem_tail hl)⟩

theorem foldl_apply_spec (ts : List Transfer) (h : labels.Nodup) : (ts.foldl Transfer.apply labels).Nodup ∧
      ∀ l ∈ ts.foldl Transfer.apply labels, l ∈ labels ∨ l ∈ ts.filterMap Transfer.label? := by
  induction ts generalizing labels with
  | nil => exact ⟨h, fun l hl => .inl hl⟩
  | cons t ts ih =>
    obtain ⟨hnodup, hfirst⟩ := t.apply_spec h
    obtain ⟨hnodup', hrest⟩ := ih hnodup
    refine ⟨hnodup', fun l hl => ?_⟩
    rw [mem_filterMap]
    rcases hrest l hl with hl | hl
    · exact (hfirst l hl).imp_right fun ht => ⟨t, mem_cons_self, ht⟩
    · obtain ⟨u, hu, hl⟩ := mem_filterMap.mp hl
      exact .inr ⟨u, mem_cons_of_mem t hu, hl⟩

theorem foldlM_post (h : List.Forall₂ (Transfers p) ss ts) (labels : List Label) :
    ss.foldlM (fun c s => post p s c) (stack labels) = .ok (stack (ts.foldl Transfer.apply labels)) := by
  induction h generalizing labels with
  | nil => rfl
  | cons hs _ ih =>
    rw [foldlM_cons, post_transfer hs]
    exact ih _

/-- A program without instructions. -/
def bare : Program := { arch := default, options := {}, harness := some .single }

/-- A jump of five bytes was taken. -/
def taken (kind : JumpKind) (a : Int64) : Stmt :=
  ⟨some ⟨a, 0⟩, none, .assume .tt ⟨none, some ⟨a + 5, 0⟩, ⟨none, .tt, kind⟩⟩⟩

theorem transfers_call {a : Int64} (h : Harness.contains .single a = false) :
    Transfers bare (taken .call a) (.call ⟨a + 5, 0⟩) := by
  refine .call (l := ⟨a, 0⟩) (h := .single) rfl rfl rfl rfl h ?_
  rw [returnLabel, show bare.instructions[a]? = none from Std.TreeMap.getElem?_emptyc]

/-- **Call stacks stay finite.** After calls and returns outside the harness, no label is on the
stack twice, and its height has grown by the number of labels that the calls return to at most. A
further call puts its label on the lower part of the stack. -/
theorem height_after_transfers (h : List.Forall₂ (Transfers p) ss ts) (hlabels : labels.Nodup) :
    ∃ labels', ss.foldlM (fun c s => post p s c) (stack labels) = .ok (stack labels') ∧ labels'.Nodup ∧
      labels'.length ≤ labels.length + (ts.filterMap Transfer.label?).toFinset.card ∧
      ∀ s next, Transfers p s (.call next) →
        ∃ below, post p s (stack labels') = .ok (stack (next :: below)) ∧ below <:+ labels' := by
  obtain ⟨hnodup, hmem⟩ := foldl_apply_spec ts hlabels
  refine ⟨_, foldlM_post h labels, hnodup, ?_, fun s next hs => ?_⟩
  · have hsubset : (ts.foldl Transfer.apply labels).toFinset ⊆
        labels.toFinset ∪ (ts.filterMap Transfer.label?).toFinset := by
      intro l hl
      rw [Finset.mem_union, mem_toFinset, mem_toFinset]
      exact hmem l (mem_toFinset.mp hl)
    calc (ts.foldl Transfer.apply labels).length
        = (ts.foldl Transfer.apply labels).toFinset.card := (toFinset_card_of_nodup hnodup).symm
      _ ≤ labels.toFinset.card + (ts.filterMap Transfer.label?).toFinset.card :=
        (Finset.card_le_card hsubset).trans (Finset.card_union_le _ _)
      _ = labels.length + _ := by rw [toFinset_card_of_nodup hlabels]
  · obtain ⟨below, hpush, hsuffix, -⟩ := push_eq next (ts.foldl Transfer.apply labels)
    exact ⟨below, (post_transfer hs _).trans (by rw [Transfer.apply, hpush]), hsuffix⟩

/-- A procedure calls another one, which calls it again: the third call, as the first, cuts the
stack back. -/
theorem height_after_recursion :
    let p : Program := { arch := default, options := {}, harness := some .single }
    let call (a : Int64) : Stmt := ⟨some ⟨a, 0⟩, none, .assume .tt ⟨none, some ⟨a + 5, 0⟩, ⟨none, .tt, .call⟩⟩⟩
    ∃ labels below, [call 0x1000, call 0x2000].foldlM (fun c s => post p s c) (stack []) = .ok (stack labels) ∧
      labels.Nodup ∧ labels.length ≤ 2 ∧
      post p (call 0x1000) (stack labels) = .ok (stack (⟨0x1005, 0⟩ :: below)) ∧ below <:+ labels := by
  intro p call
  obtain ⟨labels, hrun, hnodup, hheight, hnext⟩ := height_after_transfers
    (.cons (transfers_call (a := 0x1000) (by decide)) (.cons (transfers_call (a := 0x2000) (by decide)) .nil)) nodup_nil
  obtain ⟨below, hpost, hsuffix⟩ := hnext _ _ (transfers_call (a := 0x1000) (by decide))
  exact ⟨labels, below, hrun, hnodup, hheight.trans (by decide), hpost, hsuffix⟩

/-! ### Predicted returns -/

/-- Calls that have all returned. -/
inductive Closed : List Transfer → Prop where
  | nil : Closed []
  | call (l : Label) {inside rest : List Transfer} (hinside : Closed inside) (hrest : Closed rest) :
      Closed (.call l :: (inside ++ .ret :: rest))

/-- No call returns to a label that is on the stack already. -/
def Fresh : List Label → List Transfer → Prop
  | _, [] => True
  | labels, .call l :: ts => l ∉ labels ∧ Fresh (push l labels) ts
  | labels, .ret :: ts => Fresh labels.tail ts

theorem fresh_append (ss : List Transfer) :
    Fresh labels (ss ++ ts) ↔ Fresh labels ss ∧ Fresh (ss.foldl Transfer.apply labels) ts := by
  induction ss generalizing labels with
  | nil => exact (true_and _).symm.to_iff
  | cons t ss ih =>
    cases t with
    | call l => exact (and_congr_right fun _ => ih).trans and_assoc.symm
    | ret => exact ih

theorem push_of_notMem {l : Label} (h : l ∉ labels) : push l labels = l :: labels := by
  have hall : ∀ x ∈ labels.reverse, (x != l) := fun x hx =>
    bne_iff_ne.mpr (ne_of_mem_of_not_mem (mem_reverse.mp hx) h)
  rw [push, takeWhile_eq_self_iff.mpr hall, reverse_reverse]

theorem foldl_call (l : Label) (inside rest : List Transfer) (labels : List Label) :
    (Transfer.call l :: (inside ++ .ret :: rest)).foldl Transfer.apply labels =
      rest.foldl Transfer.apply (inside.foldl Transfer.apply (push l labels)).tail := by
  rw [foldl_cons, foldl_append, foldl_cons]
  rfl

/-- What calls that have all returned leave of the stack is its lower part. -/
theorem Closed.suffix (h : Closed ts) (labels : List Label) : ts.foldl Transfer.apply labels <:+ labels := by
  induction h generalizing labels with
  | nil => exact suffix_rfl
  | @call l inside rest _ _ ihinside ihrest =>
    obtain ⟨below, hpush, hbelow, -⟩ := push_eq l labels
    rw [foldl_call, hpush]
    refine ((ihrest _).trans ?_).trans hbelow
    -- what is left inside is a part of `l :: below`, so without its top it is a part of `below`
    rcases suffix_cons_iff.mp (ihinside (l :: below)) with heq | hsuffix
    · rw [heq]
      exact suffix_rfl
    · exact (tail_suffix _).trans hsuffix

/-- All of a stack with a call is left exactly if no call returned to a label that was on it: what
such a call cuts away is lost. -/
theorem Closed.foldl_eq_iff (h : Closed ts) (hlabels : 0 < labels.length) :
    ts.foldl Transfer.apply labels = labels ↔ Fresh labels ts := by
  induction h generalizing labels with
  | nil => exact iff_of_true rfl trivial
  | @call l inside rest hinside hrest ihinside ihrest =>
    obtain ⟨below, hpush, hbelow, hnot⟩ := push_eq l labels
    have hheight : (push l labels).length = below.length + 1 := by rw [hpush, length_cons]
    have hinner := hinside.suffix (push l labels)
    rw [foldl_call, Fresh, fresh_append, ← ihinside (by omega)]
    change _ ↔ _ ∧ _ ∧ Fresh (inside.foldl Transfer.apply (push l labels)).tail rest
    constructor
    · intro heq
      -- nothing that is left on the way is higher than the stack, so nothing is cut away
      have hlast := (hrest.suffix (inside.foldl Transfer.apply (push l labels)).tail).length_le
      rw [heq, length_tail] at hlast
      have hlower := hbelow.length_le
      have hkept := hinner.eq_of_length (by have := hinner.length_le; omega)
      obtain rfl := hbelow.eq_of_length (by rw [hkept] at hlast; omega)
      rw [hkept, hpush] at heq ⊢
      exact ⟨hnot, rfl, (ihrest hlabels).mp heq⟩
    · rintro ⟨hfresh, hkept, hrest'⟩
      rw [hkept, push_of_notMem hfresh] at hrest' ⊢
      exact (ihrest hlabels).mpr hrest'

theorem Closed.head?_eq_iff (h : Closed ts) (l : Label) (labels : List Label) :
    (ts.foldl Transfer.apply (push l labels)).head? = some l ↔ Fresh (push l labels) ts := by
  obtain ⟨below, hpush, -, hnot⟩ := push_eq l labels
  rw [← h.foldl_eq_iff (by rw [hpush]; exact Nat.succ_pos _)]
  have hsuffix := h.suffix (push l labels)
  rw [hpush] at hsuffix ⊢
  constructor
  · intro hhead
    exact (suffix_cons_iff.mp hsuffix).resolve_right fun hlower => hnot (hlower.mem (mem_of_head? hhead))
  · intro heq
    rw [heq, head?_cons]

/-- **Predicted returns.** Let `l` be the label of the innermost open call: all calls since then
have returned. It is on top of the stack exactly if none of them was to return to a label that was
on the stack already. Then the return address is known to be that of `l`, and no other. -/
theorem project_innermost {l : Label} (before : List Transfer) {inside : List Transfer}
    (h : List.Forall₂ (Transfers p) ss (before ++ .call l :: inside)) (hinside : Closed inside) :
    ∃ labels, ss.foldlM (fun c s => post p s c) (stack []) = .ok (stack labels) ∧
      (labels.head? = some l ↔ Fresh (push l (before.foldl Transfer.apply [])) inside) ∧
      (Fresh (push l (before.foldl Transfer.apply [])) inside →
        project p (stack labels) [.tt, .var p.arch.special.returnAddress] =
          some [[some .tt, some (Num.of l.address 32)]]) := by
  have htop := hinside.head?_eq_iff l (before.foldl Transfer.apply [])
  have hrun := foldlM_post h []
  rw [foldl_append, foldl_cons, Transfer.apply] at hrun
  refine ⟨_, hrun, htop, fun hfresh => ?_⟩
  have hself : (Expr.var p.arch.special.returnAddress).equals (.var p.arch.special.returnAddress) = true := by
    simp [Expr.equals]
  rw [project, hself, htop.mpr hfresh]
  rfl

/-- A call that returns inside another one leaves that one to return next. -/
theorem project_after_return :
    ∃ labels, [taken .call 0x1000, taken .call 0x2000, taken .ret 0x3000].foldlM (fun c s => post bare s c) (stack []) =
        .ok (stack labels) ∧
      project bare (stack labels) [.tt, .var bare.arch.special.returnAddress] =
        some [[some .tt, some (Num.of 0x1005 32)]] := by
  obtain ⟨labels, hrun, -, hproject⟩ := project_innermost []
    (.cons (transfers_call (a := 0x1000) (by decide)) (.cons (transfers_call (a := 0x2000) (by decide))
      (.cons (.ret (s := taken .ret 0x3000) rfl rfl rfl) .nil))) (.call _ .nil .nil)
  exact ⟨labels, hrun, hproject ⟨by decide, trivial⟩⟩

/-- Two procedures call each other. When the second call of the second one has returned, the call of
the first one by the second is to return next. It was cut away, and the call from outside is
predicted. -/
theorem project_after_mutual_calls :
    let ss := [taken .call 0x2000, taken .call 0x4000, taken .call 0x5000, taken .call 0x4000, taken .ret 0x5000]
    List.Forall₂ (Transfers bare) ss
        ([.call ⟨0x2005, 0⟩, .call ⟨0x4005, 0⟩] ++ .call ⟨0x5005, 0⟩ :: [.call ⟨0x4005, 0⟩, .ret]) ∧
      Closed [.call ⟨0x4005, 0⟩, .ret] ∧
      ss.foldlM (fun c s => post bare s c) (stack []) = .ok (stack [⟨0x2005, 0⟩]) ∧
      project bare (stack [⟨0x2005, 0⟩]) [.tt, .var bare.arch.special.returnAddress] ≠
        some [[some .tt, some (Num.of 0x5005 32)]] := by
  have hcall {a : Int64} (h : Harness.contains .single a = false) := transfers_call h
  exact ⟨.cons (hcall (by decide)) (.cons (hcall (by decide)) (.cons (hcall (by decide)) (.cons (hcall (by decide))
    (.cons (.ret rfl rfl rfl) .nil)))), .call _ .nil .nil, rfl, by decide⟩

end FlowRecovery.CallStack
