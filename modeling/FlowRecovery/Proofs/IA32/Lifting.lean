import FlowRecovery.IA32.Lifting
import FlowRecovery.Proofs.Expr.Conditions

/-!
# Lifting, effect by effect

An instruction is lifted by passes over the statements of its template: they are evaluated with the
operands in place of the parameters, get widths, are evaluated again, become assignments of
variables, and are evaluated once more.

`Effect.Passes` says what all passes together make of one effect. If no effect changes what is
known, the passes over the sequence are the passes over those of its effects that do not disappear
(`Instruction.lift_of_leaves`). What is known are the operands, and where the next instruction is
(`Instruction.instantiation`).
-/

namespace FlowRecovery

open Context List

namespace Effect

/-- The effect of a statement of a template as one of a variable or of memory. -/
def normalize : Effect → Except Fault Effect
  | .template _ x v => specialise x v
  | e => .ok e

/-- The effect says where control goes, if it transfers control. -/
def Aimed (e : Effect) : Prop := ∀ c k, e ≠ .goto ⟨none, c, k⟩

/-- What lifting in the context `c` makes of an effect. Evaluation neither removes the effect nor
changes the context. -/
structure Passes (c : Context) (e e' : Effect) : Prop where
  exists_passes : ∃ e₁ e₂ e₃ e₄, e.evaluate c = .ok (some e₁, c) ∧ e₁.Aimed ∧ e₁.inferTypes = .ok e₂ ∧
    e₂.evaluate .empty = .ok (some e₃, .empty) ∧ e₃.normalize = .ok e₄ ∧ e₄.evaluate .empty = .ok (some e', .empty)

/-- What lifting in the context `c` leaves of effects: some disappear at once, and the others pass.
-/
inductive Leaves (c : Context) : List Effect → List Effect → Prop where
  | nil : Leaves c [] []
  | keep {e e' : Effect} {es es' : List Effect} (h : Passes c e e') (hrest : Leaves c es es') :
      Leaves c (e :: es) (e' :: es')
  | drop {e : Effect} {es es' : List Effect} (h : e.evaluate c = .ok (none, c)) (hrest : Leaves c es es') :
      Leaves c (e :: es) es'

theorem Leaves.of_passes {c : Context} {es es' : List Effect} (h : Forall₂ (Passes c) es es') : Leaves c es es' := by
  induction h with
  | nil => exact .nil
  | cons h _ ih => exact .keep h ih

end Effect

/-! ### Assignments -/

/-- The value `e` of the variable `v` becomes `r` in the context `c`: it gets the width of the
variable, and stays as it is from then on. -/
structure Settles (c : Context) (v : Var) (e r : Expr) : Prop where
  exists_first : ∃ e', e.evaluate c = .ok e' ∧ (Expr.var v).equals e' = false ∧ e'.inferWidth v.width = .ok r
  differs : (Expr.var v).equals r = false
  evaluate_eq : r.evaluate .empty = .ok r
  plain : r.Plain

/-- Nothing is known about the variable. -/
structure Context.Free (c : Context) (v : Var) : Prop where
  valueOf_eq : c.valueOf v = .var v
  forgetAll_eq : c.forgetAll (.singleton v) = c

theorem Context.Free.becomes {c : Context} {v : Var} (h : c.Free v) : Expr.Becomes c 1 (.var v) (.var v) := by
  have := Expr.Becomes.var (c := c) v
  rwa [h.valueOf_eq] at this

theorem Context.free_empty (v : Var) : Context.empty.Free v := ⟨rfl, rfl⟩

/-! ### Assignments to places -/

/-- The assignment of a variable or of a memory location. -/
def Effect.write (place value : Expr) : Effect :=
  match place with
  | .var v => .assign v value
  | m => .store m value

/-- In the context `c`, the left side `x` of an assignment of `w` bits is the place `p`. Nothing is
known about what it was before. -/
structure Target (c : Context) (w : Int) (x p : Expr) : Prop where
  evaluate_eq : x.evaluate c = .ok p
  forgets : ∃ d, x.definedOnWrite = .ok d ∧ c.forgetAll d = c
  shape : (∃ v, p = .var v) ∨ ∃ u a s n, p = .mem u a s n
  inferWidth_eq : p.inferWidth w = .ok p
  again : p.evaluate .empty = .ok p

variable {c : Context} {v : Var} {x p e r : Expr} {w : Int}

theorem Target.isPlace (h : Target c w x p) : p.isPlace := by
  rcases h.shape with ⟨v, rfl⟩ | ⟨u, a, s, n, rfl⟩ <;> rfl

theorem Target.forgets_empty (h : Target c w x p) :
    ∃ d, p.definedOnWrite = .ok d ∧ Context.empty.forgetAll d = .empty := by
  rcases h.shape with ⟨v, rfl⟩ | ⟨u, a, s, n, rfl⟩ <;> exact ⟨_, rfl, rfl⟩

/-- The value `e` of the place `p`, which has `w` bits, becomes `r`. It never is the place itself.
-/
structure Assigned (c : Context) (p : Expr) (w : Int) (e r : Expr) : Prop where
  exists_passes : ∃ e₁ e₂ e₃ e₄, e.evaluate c = .ok e₁ ∧ p.equals e₁ = false ∧ e₁.inferWidth w = .ok e₂ ∧
    e₂.evaluate .empty = .ok e₃ ∧ p.equals e₃ = false ∧ e₃.evaluate .empty = .ok e₄ ∧ e₄.simplify = .ok r ∧
    p.equals r = false

theorem Settles.assigned (h : Settles c v e r) : Assigned c (.var v) v.width e r := by
  obtain ⟨e', he', hne, hr⟩ := h.exists_first
  exact ⟨e', r, r, r, he', hne, hr, h.evaluate_eq, h.differs, h.evaluate_eq, h.plain.simplify, h.differs⟩

theorem Assigned.passes (h : Assigned c p w e r) (hp : Target c w x p) :
    Effect.Passes c (.template w x e) (.write p r) := by
  obtain ⟨e₁, e₂, e₃, e₄, he₁, hne₁, he₂, he₃, hne₃, he₄, hr, hne⟩ := h.exists_passes
  obtain ⟨d, hd, hforget⟩ := hp.forgets
  obtain ⟨d', hd', hforget'⟩ := hp.forgets_empty
  have hagain := hp.again
  have hinfer := hp.inferWidth_eq
  refine ⟨.template w p e₁, .template w p e₂, .template w p e₃, .write p e₃, ?_, ?_, ?_, ?_, ?_, ?_⟩
  · simp only [Effect.evaluate, he₁, hd, hforget, hp.evaluate_eq, hne₁, hp.isPlace, ok_bind,
      Bool.false_eq_true, if_false, if_true]
    rfl
  · intro c k hgoto
    cases hgoto
  · simp only [Effect.inferTypes, hinfer, he₂, ok_bind]
    rfl
  · simp only [Effect.evaluate, he₃, hd', hforget', hagain, hne₃, hp.isPlace, ok_bind, Bool.false_eq_true,
      if_false, if_true]
    rfl
  all_goals rcases hp.shape with ⟨v, rfl⟩ | ⟨u, a, s, n, rfl⟩
  · rfl
  · rfl
  · have hforget : empty.forget (.var v) = .empty := rfl
    simp only [Effect.write, Effect.evaluate, he₄, hr, hforget, hagain, hne, ok_bind, Bool.false_eq_true,
      if_false]
    rfl
  · have hforget : empty.forget (.mem u a s n) = .empty := rfl
    simp only [Effect.write, Effect.evaluate, he₄, hr, hforget, hagain, hne, ok_bind, Bool.false_eq_true,
      if_false]
    rfl

theorem Context.Free.target (h : c.Free v) : Target c v.width (.var v) (.var v) where
  evaluate_eq := h.becomes.evaluate (by decide)
  forgets := ⟨_, rfl, h.forgetAll_eq⟩
  shape := .inl ⟨v, rfl⟩
  inferWidth_eq := Expr.inferWidth_var v
  again := (Context.free_empty v).becomes.evaluate (by decide)

theorem Settles.passes (h : Settles c v e r) (hv : c.Free v) :
    Effect.Passes c (.template v.width (.var v) e) (.assign v r) :=
  h.assigned.passes hv.target

theorem Target.vanishes {e₁ : Expr} (hp : Target c w x p) (he : e.evaluate c = .ok e₁)
    (heq : p.equals e₁) : Effect.evaluate c (.template w x e) = .ok (none, c) := by
  obtain ⟨d, hd, hforget⟩ := hp.forgets
  simp only [Effect.evaluate, he, hd, hforget, hp.evaluate_eq, heq, ok_bind, if_true]
  rfl

/-! ### Passes over sequences -/

abbrev effects (ss : List Stmt) : List Effect := ss.map Stmt.effect

section

variable {ss : List Stmt} {es : List Effect} {os : List (Option Effect)}

theorem Attempt.exists_build {α : Type} {step : α → Stmt → Faulty (Option Stmt × α)} {c : α}
    {f : Effect → Option Effect → Prop} (h : Forall₂ f (effects ss) os)
    (hstep : ∀ s o, f s.effect o → step c s = .ok (o.map fun e => { s with effect := e }, c)) (built : List Stmt) :
    ∃ ss', build step c built (fun _ ss => ss) ss = ⟨built ++ ss', none⟩ ∧ effects ss' = os.reduceOption := by
  induction ss generalizing os built with
  | nil =>
    cases h
    exact ⟨[], by rw [append_nil]; rfl, rfl⟩
  | cons s ss ih =>
    cases h with
    | @cons _ o _ os he hrest =>
      obtain ⟨ss', hss', heffects⟩ := ih hrest (built ++ (o.map fun e => { s with effect := e }).toList)
      refine ⟨(o.map fun e => { s with effect := e }).toList ++ ss', ?_, ?_⟩
      · rw [build, hstep s o he]
        exact hss'.trans (by rw [append_assoc])
      · rw [effects, map_append, ← effects, ← effects, heffects]
        cases o <;> rfl

theorem Sequence.exists_evaluate (h : Forall₂ (fun e o => e.evaluate c = .ok (o, c)) (effects ss) os) :
    ∃ ss', (Sequence.evaluate c ss).result = .ok ss' ∧ effects ss' = os.reduceOption := by
  obtain ⟨ss', hss', hes⟩ : ∃ ss', Sequence.evaluate c ss = ⟨[] ++ ss', none⟩ ∧ _ :=
    Attempt.exists_build h (fun s o he => by rw [Stmt.evaluate, he]; rfl) []
  exact ⟨ss', congrArg Attempt.result hss', hes⟩

theorem Sequence.exists_normalize (h : Forall₂ (fun e e' => e.normalize = .ok e') (effects ss) es) :
    ∃ ss', (Sequence.normalize ss).result = .ok ss' ∧ effects ss' = es := by
  have hsome : Forall₂ (fun e o => ∃ e', o = some e' ∧ e.normalize = .ok e') (effects ss) (es.map some) :=
    forall₂_map_right_iff.mpr (h.imp fun _ e' he => ⟨e', rfl, he⟩)
  have hstep (s : Stmt) (o : Option Effect) (he : ∃ e', o = some e' ∧ s.effect.normalize = .ok e') :
      s.normalize.map (fun s => (some s, ())) = .ok (o.map fun e => { s with effect := e }, ()) := by
    obtain ⟨e', rfl, he⟩ := he
    obtain ⟨l, n, e⟩ := s
    cases e with
    | template w x v => simp [Stmt.normalize, show Effect.specialise x v = .ok e' from he, Except.map]
    | _ =>
      cases he
      rfl
  obtain ⟨ss', hss', hes⟩ : ∃ ss', Sequence.normalize ss = ⟨[] ++ ss', none⟩ ∧ _ := Attempt.exists_build hsome hstep []
  exact ⟨ss', congrArg Attempt.result hss', hes.trans (by simp [reduceOption])⟩

end

namespace IA32.Instruction

variable {ss : List Stmt} {es : List Effect}

theorem effects_place (address next : Int64) (h : ∀ e ∈ effects ss, e.Aimed) :
    effects (place address next ss) = effects ss := by
  unfold place
  generalize ss.length = n
  suffices hgo : ∀ i, effects ((ss.zipIdx i).map fun p =>
      { p.1.placeAt ⟨address, p.2⟩ with next := some (if p.2 + 1 = n then ⟨next, 0⟩ else ⟨address, p.2 + 1⟩) }) =
      effects ss from hgo 0
  induction ss with
  | nil => exact fun _ => rfl
  | cons s ss ih =>
    intro i
    obtain ⟨hs, hss⟩ := forall_mem_cons.mp h
    have heffect : (s.placeAt ⟨address, i⟩).effect = s.effect := by
      unfold Stmt.placeAt
      split
      · next hgoto => exact absurd hgoto (hs _ _)
      · rfl
    simp only [zipIdx_cons, map_cons, effects]
    rw [heffect]
    exact congrArg _ (ih hss (i + 1))

theorem exists_inferAll (h : Forall₂ (fun e e' => e.inferTypes = .ok e') (effects ss) es) :
    ∃ ss', inferAll ss = .ok ss' ∧ effects ss' = es := by
  suffices hmap : ∃ ss', ss.mapM Stmt.inferTypes = .ok ss' ∧ effects ss' = es by
    obtain ⟨ss', hss', hes⟩ := hmap
    exact ⟨ss', by unfold inferAll; rw [hss'], hes⟩
  induction ss generalizing es with
  | nil =>
    cases h
    exact ⟨[], rfl, rfl⟩
  | cons s ss ih =>
    cases h with
    | @cons _ e _ _ he hrest =>
      obtain ⟨ss', hss', rfl⟩ := ih hrest
      have hs : s.inferTypes = .ok { s with effect := e } := by
        unfold Stmt.inferTypes
        rw [he]
        rfl
      refine ⟨{ s with effect := e } :: ss', ?_, rfl⟩
      rw [mapM_cons, hs, hss']
      rfl

theorem exists_evaluated (h : Forall₂ (fun e e' => e.evaluate .empty = .ok (some e', .empty)) (effects ss) es)
    (hne : es ≠ []) : ∃ ss', evaluated ss = .ok ss' ∧ effects ss' = es := by
  have hall : Forall₂ (fun e o => e.evaluate .empty = .ok (o, .empty)) (effects ss) (es.map some) :=
    forall₂_map_right_iff.mpr h
  obtain ⟨ss', hss', heffects⟩ := Sequence.exists_evaluate hall
  have hsome : (es.map some).reduceOption = es := by simp [reduceOption, filterMap_map]
  rw [hsome] at heffects
  subst heffects
  refine ⟨ss', ?_, rfl⟩
  have hempty : ss'.isEmpty = false := by
    cases ss' with
    | nil => exact absurd rfl hne
    | cons => rfl
  simp only [evaluated, hss', hempty, ok_bind, Bool.false_eq_true, if_false]
  rfl

theorem exists_of_leaves {body : List Effect} (h : Effect.Leaves c body es) :
    ∃ (os : List (Option Effect)) (es₂ es₃ es₄ : List Effect),
      Forall₂ (fun e o => e.evaluate c = .ok (o, c)) body os ∧ (∀ e ∈ os.reduceOption, e.Aimed) ∧
      Forall₂ (fun e e' => e.inferTypes = .ok e') os.reduceOption es₂ ∧
      Forall₂ (fun e e' => e.evaluate .empty = .ok (some e', .empty)) es₂ es₃ ∧
      Forall₂ (fun e e' => e.normalize = .ok e') es₃ es₄ ∧
      Forall₂ (fun e e' => e.evaluate .empty = .ok (some e', .empty)) es₄ es := by
  induction h with
  | nil => exact ⟨[], [], [], [], .nil, by simp [reduceOption], .nil, .nil, .nil, .nil⟩
  | keep he _ ih =>
    obtain ⟨os, es₂, es₃, es₄, h₁, haimed, h₂, h₃, h₄, h₅⟩ := ih
    obtain ⟨⟨e₁, e₂, e₃, e₄, he₁, hgoto, he₂, he₃, he₄, he₅⟩⟩ := he
    refine ⟨some e₁ :: os, e₂ :: es₂, e₃ :: es₃, e₄ :: es₄, .cons he₁ h₁, ?_, ?_, .cons he₃ h₃, .cons he₄ h₄,
      .cons he₅ h₅⟩
    · rw [reduceOption_cons_of_some]
      exact forall_mem_cons.mpr ⟨hgoto, haimed⟩
    · rw [reduceOption_cons_of_some]
      exact .cons he₂ h₂
  | drop he _ ih =>
    obtain ⟨os, es₂, es₃, es₄, h₁, haimed, h₂, h₃, h₄, h₅⟩ := ih
    exact ⟨none :: os, es₂, es₃, es₄, .cons he h₁, haimed, h₂, h₃, h₄, h₅⟩

/-! ### Instantiation -/

variable {i : Instruction} {t : Template}

theorem bindings_eq {regs : Registers} {os : List Operand} {es : List Expr}
    (hlength : ¬i.operands.length < t.parameters.length)
    (hos : (if i.operands.length > t.parameters.length then i.operands.drop 1 else i.operands) = os)
    (h : Forall₂ (fun o e => o.toExpr regs = .ok e) os es) : i.bindings regs t = .ok (t.parameters.zip es) := by
  unfold bindings
  rw [if_neg hlength]
  change (t.parameters.zip (if _ then _ else _)).mapM _ = _
  rw [hos]
  clear hos hlength
  generalize t.parameters = ps
  induction h generalizing ps with
  | nil => simp [pure, Except.pure]
  | cons ho _ ih =>
    cases ps with
    | nil => simp [pure, Except.pure]
    | cons p ps =>
      rw [zip_cons_cons, mapM_cons, ih]
      simp only [ho, ok_bind]
      rfl

theorem foldlM_substitute {pairs : List (Var × Expr)} (hd : pairs.Pairwise fun p q => p.1.index ≠ q.1.index)
    (known : List (Expr × Expr)) (hnew : ∀ p ∈ pairs, ∀ q ∈ known, q.1.equals (.var p.1) = false) :
    pairs.foldlM (fun (c : Context) (v, e) => c.substitute (.var v) e) ⟨known, []⟩ =
      .ok ⟨known ++ pairs.map fun (p, e) => (.var p, e), []⟩ := by
  induction pairs generalizing known with
  | nil => simp [pure, Except.pure]
  | cons p pairs ih =>
    obtain ⟨v, e⟩ := p
    obtain ⟨hp, hpairs⟩ := pairwise_cons.mp hd
    have hput : put known (.var v) e = known ++ [(.var v, e)] := by
      have hknown := hnew _ mem_cons_self
      clear hnew ih
      induction known with
      | nil => rfl
      | cons q known ih =>
        obtain ⟨hq, hknown⟩ := forall_mem_cons.mp hknown
        rw [put, hq]
        exact congrArg (q :: ·) (ih hknown)
    have hstep : substitute ⟨known, []⟩ (.var v) e = .ok ⟨known ++ [(.var v, e)], []⟩ :=
      congrArg (fun k => Except.ok (Context.mk k [])) hput
    rw [foldlM_cons]
    change (substitute ⟨known, []⟩ (.var v) e >>= _) = _
    rw [hstep]
    refine (ih hpairs _ ?_).trans (by rw [append_assoc]; rfl)
    intro q hq k hk
    rcases mem_append.mp hk with hk | hk
    · exact hnew q (mem_cons_of_mem _ hq) k hk
    · cases mem_singleton.mp hk
      simp [Expr.equals, hp q hq]

def instantiation (counter : Var) (pairs : List (Var × Expr)) (next : Int64) : Context :=
  ⟨pairs.map fun (p, e) => (.var p, e), [(.var counter, .number next counter.width)]⟩

section

variable {counter v : Var} {pairs : List (Var × Expr)} {next : Int64}

theorem forgetAll_instantiation (hv : counter.index ≠ v.index) :
    (instantiation counter pairs next).forgetAll (.singleton v) = instantiation counter pairs next := by
  have hcontains : (VarSet.singleton v).contains counter = false := by
    rw [VarSet.contains, VarSet.singleton, Nat.one_shiftLeft]
    exact Nat.testBit_two_pow_of_ne hv.symm
  simp [Context.forgetAll, instantiation, hcontains]

theorem free_instantiation (hp : ∀ p ∈ pairs, p.1.index ≠ v.index) (hv : counter.index ≠ v.index) :
    (instantiation counter pairs next).Free v := by
  have hcounter : (Expr.var counter).equals (.var v) = false := by simp [Expr.equals, hv]
  have hsub : (instantiation counter pairs next).substitution (.var v) = .var v := by
    have hfind : (pairs.map fun (p, e) => (Expr.var p, e)).find? (fun p => p.1.equals (.var v)) = none := by
      refine find?_eq_none.mpr fun q hq => ?_
      obtain ⟨p, hmem, rfl⟩ := mem_map.mp hq
      simp [Expr.equals, hp p hmem]
    simp [instantiation, Context.substitution, Context.lookup, hfind]
  constructor
  · unfold Context.valueOf
    rw [hsub]
    change (instantiation counter pairs next).assignment (.var v) = _
    simp [Context.assignment, Context.lookup, instantiation, hcounter]
  · exact forgetAll_instantiation hv

theorem becomes_parameter {p : Var} (hp : (instantiation counter pairs next).substitution (.var p) = e)
    (he : e.isPlace = false ∨ ∃ a : Var, e = .var a ∧ counter.index ≠ a.index) :
    Expr.Becomes (instantiation counter pairs next) 1 (.var p) e := by
  have hvalue : (instantiation counter pairs next).valueOf p = e := by
    unfold Context.valueOf
    rw [hp]
    rcases he with he | ⟨a, rfl, ha⟩
    · simp [he]
    · have hcounter : (Expr.var counter).equals (.var a) = false := by simp [Expr.equals, ha]
      change (instantiation counter pairs next).assignment (.var a) = _
      simp [Context.assignment, Context.lookup, instantiation, hcounter]
  have := Expr.Becomes.var (c := instantiation counter pairs next) p
  rwa [hvalue] at this

end

variable {arch : Architecture} {summarize : Bool} {address : Int64} {body : List Stmt} {pairs : List (Var × Expr)}
  (ht : i.template? arch summarize = some t) (hbody : t.body = some body) (hpairs : i.bindings arch.vars t = .ok pairs)
  (hd : pairs.Pairwise fun p q => p.1.index ≠ q.1.index)

include ht hbody hpairs hd

/-- **Lifting by effects.** The statements of an instruction have the effects that the passes leave
of the effects of its template. -/
theorem lift_of_leaves
    (h : Effect.Leaves (instantiation arch.special.pc pairs (address + .ofNat i.size)) (effects body) es)
    (hne : es ≠ []) : ∃ ss, i.lift arch summarize address = .ok ss ∧ effects ss = es := by
  have hc₀ := foldlM_substitute hd [] (by simp)
  have hc : assign ⟨[] ++ pairs.map fun (p, e) => (.var p, e), []⟩ (.var arch.special.pc)
      (.number (address + .ofNat i.size) arch.special.pc.width) =
      .ok (instantiation arch.special.pc pairs (address + .ofNat i.size)) := rfl
  obtain ⟨os, es₂, es₃, es₄, h₁, haimed, h₂, h₃, h₄, h₅⟩ := exists_of_leaves h
  obtain ⟨ss₁, hss₁, heffects⟩ := Sequence.exists_evaluate h₁
  rw [← heffects] at haimed h₂
  have hlength : es.length = ss₁.length := by
    rw [← h₅.length_eq, ← h₄.length_eq, ← h₃.length_eq, ← h₂.length_eq, length_map]
  have hempty : ss₁.isEmpty = false := by
    cases ss₁ with
    | nil => exact absurd (length_eq_zero_iff.mp hlength) hne
    | cons => rfl
  rw [← effects_place address (address + .ofNat i.size) haimed] at h₂
  obtain ⟨ss₂, hss₂, rfl⟩ := exists_inferAll h₂
  have hne₃ : es₃ ≠ [] := by
    rintro rfl
    cases h₄
    cases h₅
    exact hne rfl
  obtain ⟨ss₃, hss₃, rfl⟩ := exists_evaluated h₃ hne₃
  obtain ⟨ss₄, hss₄, rfl⟩ := Sequence.exists_normalize h₄
  obtain ⟨ss, hss, rfl⟩ := exists_evaluated h₅ hne
  refine ⟨ss, ?_, rfl⟩
  simp only [lift, ht, hpairs, empty, hc₀, hc, hbody, hss₁, hempty, hss₂, hss₃, hss₄, hss, Option.bind,
    Option.getD, ok_bind, Bool.false_eq_true, if_false]

theorem lift_of_passes (h : Forall₂ (Effect.Passes (instantiation arch.special.pc pairs (address + .ofNat i.size)))
      (effects body) es) (hne : es ≠ []) : ∃ ss, i.lift arch summarize address = .ok ss ∧ effects ss = es :=
  lift_of_leaves ht hbody hpairs hd (.of_passes h) hne

end IA32.Instruction

end FlowRecovery
