import FlowRecovery.Directed.Paths
import FlowRecovery.Proofs.Ending
import FlowRecovery.Service.Route

/-!
# Paths as routes

The paths of a search are sent as lines of addresses, after the name of the program. Read back, they
are the routes of the request: each path without the address from which runs start, in the same
order and numbered from zero (`Paths.read_text`). A path of which nothing is left is an empty line,
which is no route.
-/

namespace FlowRecovery

open List

/-! ### Numerals -/

namespace Numeral

theorem mem_toDigits {n : Nat} {c : Char} (h : c ∈ Nat.toDigits 16 n) :
    ∃ d < 16, c = d.digitChar := by
  induction n using Nat.strongRecOn with
  | ind n ih =>
    rw [Nat.toDigits_eq_if (by decide)] at h
    split at h
    · next hlt => exact ⟨n, hlt, mem_singleton.mp h⟩
    · rcases mem_append.mp h with h | h
      · exact ih (n / 16) (by omega) h
      · exact ⟨n % 16, by omega, mem_singleton.mp h⟩

theorem digitValue_digitChar : ∀ d < 16, digitValue 16 d.digitChar = some d := by decide

theorem digitsValue_toDigits (n : Nat) : digitsValue 16 (Nat.toDigits 16 n) = some n := by
  rw [digitsValue, if_neg (by simp)]
  induction n using Nat.strongRecOn with
  | ind n ih =>
    rw [Nat.toDigits_eq_if (by decide)]
    split
    · next hlt => simp [digitValue_digitChar n hlt]
    · rw [foldlM_append, ih (n / 16) (by omega)]
      simp [digitValue_digitChar (n % 16) (by omega), Nat.div_add_mod']

variable {cs : List Char}

theorem digitsValue_replicate_append (k : Nat) (hne : cs ≠ []) :
    digitsValue 16 (List.replicate k '0' ++ cs) = digitsValue 16 cs := by
  rw [digitsValue, digitsValue, if_neg (by simp [hne]), if_neg (by simpa using hne)]
  induction k with
  | zero => rfl
  | succ k ih => exact ih

end Numeral

/-! ### Addresses -/

theorem Text.trimmed_of_forall {test : Char → Bool} (h : ∀ c ∈ cs, test c = false) :
    trimmed test cs = cs := by
  have hdrop {cs : List Char} (h : ∀ c ∈ cs, test c = false) : cs.dropWhile test = cs := by
    cases cs with
    | nil => rfl
    | cons c cs => rw [dropWhile_cons_of_neg (by simp [h])]
  rw [trimmed, hdrop h, hdrop (by simpa using h), reverse_reverse]

theorem Integer.ungrouped_of_not_mem (h : '_' ∉ cs) : ungrouped cs = some cs := by
  fun_induction ungrouped cs with
  | case1 | case3 => rfl
  | case2 | case4 | case5 => simp at h
  | case6 _ _ _ _ _ _ ih => rw [ih (not_mem_of_not_mem_cons h), Option.map_some]

theorem Integer.unmarked_of_not_mem (h : '_' ∉ cs) : unmarked ('0' :: 'x' :: cs) = cs := by
  unfold unmarked
  split <;> simp_all

theorem addressText_toList (a : Int64) : ∃ k, (addressText a).toList =
    '0' :: 'x' :: (List.replicate k '0' ++ Nat.toDigits 16 a.toUInt64.toNat) :=
  ⟨8 - (Text.hex64 a).length, by simp [addressText, Text.padLeft, Text.hex64, Text.hex]⟩

theorem mem_addressText {a : Int64} {c : Char} (h : c ∈ (addressText a).toList) :
    48 ≤ c.toNat ∧ c.toNat ≤ 120 ∧ c ≠ '_' := by
  obtain ⟨k, hk⟩ := addressText_toList a
  simp only [hk, mem_cons, mem_append, mem_replicate] at h
  rcases h with rfl | rfl | ⟨-, rfl⟩ | h
  · decide
  · decide
  · decide
  · obtain ⟨d, hd, rfl⟩ := Numeral.mem_toDigits h
    exact (by decide : ∀ d < 16, 48 ≤ (Nat.digitChar d).toNat ∧ d.digitChar.toNat ≤ 120 ∧
      d.digitChar ≠ '_') d hd

theorem Text.strip_addressText (a : Int64) : strip (addressText a) = addressText a := by
  have hranges : ∀ r ∈ blankRanges, r.2 < 48 ∨ 120 < r.1 := by decide
  rw [strip, trimmed_of_forall, String.ofList_toList]
  intro c hc
  have := mem_addressText hc
  refine any_eq_false.mpr fun r hr => ?_
  have := hranges r hr
  simp only [Bool.and_eq_true, decide_eq_true_eq]
  omega

theorem Integer.read_addressText {a : Int64} (ha : 0 ≤ a.toInt) :
    Integer.read 16 (addressText a) = .ok a.toInt := by
  have hplain : (addressText a).toList.map plain = (addressText a).toList := by
    refine (map_congr_left fun c hc => ?_).trans (map_id _)
    rw [plain, if_pos (by have := mem_addressText hc; omega), id]
  have htrim : Text.trimmed isPlainBlank (addressText a).toList = (addressText a).toList := by
    refine Text.trimmed_of_forall fun c hc => ?_
    have := mem_addressText hc
    have hspace : c ≠ ' ' := by
      rintro rfl
      exact absurd this.1 (by decide)
    simp only [isPlainBlank, Bool.or_eq_false_iff, beq_eq_false_iff_ne, Bool.and_eq_false_iff,
      decide_eq_false_iff_not]
    exact ⟨hspace, by omega⟩
  obtain ⟨k, hk⟩ := addressText_toList a
  have hmark : '_' ∉ replicate k '0' ++ Nat.toDigits 16 a.toUInt64.toNat := fun h =>
    (mem_addressText (hk ▸ mem_cons_of_mem _ (mem_cons_of_mem _ h))).2.2 rfl
  have hvalue : Numeral.digitsValue 16 (replicate k '0' ++ Nat.toDigits 16 a.toUInt64.toNat) =
      some a.toUInt64.toNat := by
    rw [Numeral.digitsValue_replicate_append k Nat.toDigits_ne_nil, Numeral.digitsValue_toDigits]
  have hnat : (a.toUInt64.toNat : Int) = a.toInt := by
    have hcond : a.toInt = _ := BitVec.toInt_eq_toNat_cond a.toBitVec
    have hlt := a.toBitVec.isLt
    change (a.toBitVec.toNat : Int) = _
    split at hcond <;> omega
  have hread : read? 16 (addressText a) = some a.toInt := by
    rw [read?, hplain, htrim, hk]
    change (ungrouped (unmarked ('0' :: 'x' :: _)) >>= fun digits =>
      Numeral.digitsValue 16 digits >>= fun n => some (n : Int)) = _
    rw [unmarked_of_not_mem hmark, ungrouped_of_not_mem hmark, Option.bind_eq_bind,
      Option.bind_some, hvalue, Option.bind_eq_bind, Option.bind_some, hnat]
  rw [read, hread]

/-! ### Lines -/

theorem mapM_eq_ok {α β : Type} {f : α → Faulty β} {g : α → β} {l : List α}
    (h : ∀ a ∈ l, f a = .ok (g a)) : l.mapM f = .ok (l.map g) := by
  induction l with
  | nil => rfl
  | cons a l ih =>
    obtain ⟨ha, hl⟩ := forall_mem_cons.mp h
    rw [mapM_cons, ha, ih hl]
    rfl

namespace Text

variable {c : Char} {s separator : String} (hc : separator.toList = [c])

include hc

theorem split_append (hs : c ∉ s.toList) (t : String) :
    split c (s ++ separator ++ t) = s :: split c t := by
  have hcons : (s ++ separator ++ t).toList = s.toList ++ c :: t.toList := by simp [hc]
  rw [split, hcons, splitOn_append_cons_self_of_not_mem hs, map_cons, String.ofList_toList, split]

theorem split_intercalate {ls : List String} (h : ∀ l ∈ ls, c ∉ l.toList) (hne : ls ≠ []) :
    split c (separator.intercalate ls) = ls := by
  rw [split, String.toList_intercalate, hc, splitOn_intercalate c (by simpa using h)
    (by simpa using hne), map_map]
  simp [Function.comp_def]

end Text

namespace Paths

def line (p : List Int64) : String := ",".intercalate (p.map addressText)

variable {p : List Int64} {paths : List (List Int64)}

theorem split_line (hne : p ≠ []) : Text.split ',' (line p) = p.map addressText := by
  refine Text.split_intercalate rfl ?_ (by simpa using hne)
  rintro _ hl hmem
  obtain ⟨a, -, rfl⟩ := mem_map.mp hl
  exact absurd (mem_addressText hmem).1 (by decide)

theorem line_ne_empty_iff : line p ≠ "" ↔ p ≠ [] := by
  constructor
  · rintro h rfl
    exact h rfl
  · intro hne h
    have hsplit := split_line hne
    obtain ⟨a, as, rfl⟩ := exists_cons_of_ne_nil hne
    obtain ⟨k, hk⟩ := addressText_toList a
    rw [h] at hsplit
    rw [← (cons.inj hsplit).1] at hk
    cases hk

theorem newline_not_mem_line (p : List Int64) : '\n' ∉ (line p).toList := by
  have haddress (a : Int64) : '\n' ∉ (addressText a).toList := fun h =>
    absurd (mem_addressText h).1 (by decide)
  rw [line, String.toList_intercalate]
  induction p with
  | nil => simp
  | cons a p ih =>
    cases p with
    | nil => simpa using haddress a
    | cons b p => simpa [intercalate_cons_cons, haddress] using ih

theorem read_line (hne : p ≠ []) (hp : ∀ a ∈ p, 0 ≤ a.toInt) :
    Route.read (line p) = .ok (p.map Int64.toInt) := by
  rw [Route.read, split_line hne, mapM_map]
  refine mapM_eq_ok fun a ha => ?_
  rw [Function.comp, Text.strip_addressText, Integer.read_addressText (hp a ha)]

/-! ### Paths -/

/-- The addresses of a path that are sent: the one from which runs start is none of the program. -/
def visible (p : List Int64) : List Int64 := if p.head? = some prologueAddress then p.tail else p

/-- The routes that the program is to be executed along. -/
def routes (paths : List (List Int64)) : Routes :=
  ((paths.map visible).filter (· ≠ [])).map (List.map Int64.toInt)

theorem addressTexts_of_not_mem (h : prologueAddress ∉ p) :
    addressTexts p = .ok (p.map addressText) := by
  cases p with
  | nil => rfl
  | cons a rest =>
    rw [mem_cons, not_or] at h
    rw [addressTexts, if_neg (Ne.symm h.1), if_neg (by simpa using h.2)]

theorem addressTexts_eq (h : prologueAddress ∉ p.tail) :
    addressTexts p = .ok ((visible p).map addressText) := by
  cases p with
  | nil => rfl
  | cons a rest =>
    by_cases ha : a = prologueAddress
    · subst ha
      exact addressTexts_of_not_mem h
    · rw [addressTexts_of_not_mem (by simpa using ⟨Ne.symm ha, h⟩), visible,
        if_neg (by simpa using ha)]

theorem text_eq (h : ∀ p ∈ paths, prologueAddress ∉ p.tail) :
    text paths = .ok ("\n".intercalate ((paths.map visible).map line)) := by
  have hlines : paths.mapM (fun p => do return ",".intercalate (← addressTexts p)) =
    .ok (paths.map (line ∘ visible)) := by
    refine mapM_eq_ok fun p hp => ?_
    rw [addressTexts_eq (h p hp)]
    rfl
  rw [text, hlines, map_map]
  rfl

theorem mem_of_mem_visible {a : Int64} (h : a ∈ visible p) : a ∈ p := by
  unfold visible at h
  split at h
  · exact mem_of_mem_tail h
  · exact h

/-- The empty lines apart, the lines of a text of paths are those of the paths, also if there is
none. -/
theorem filter_split_text (ps : List (List Int64)) :
    (Text.split '\n' ("\n".intercalate (ps.map line))).filter (· ≠ "") =
    (ps.filter (· ≠ [])).map line := by
  have hempty : (ps.map line).filter (· ≠ "") = (ps.filter (· ≠ [])).map line := by
    rw [filter_map]
    congr 1
    refine filter_congr fun p _ => ?_
    exact decide_eq_decide.mpr line_ne_empty_iff
  rw [← hempty]
  by_cases hne : ps = []
  · subst hne
    rfl
  · rw [Text.split_intercalate rfl ?_ (by simpa using hne)]
    rintro _ hl
    obtain ⟨p, -, rfl⟩ := mem_map.mp hl
    exact newline_not_mem_line p

theorem getElem?_lasts {rs : Routes} (h : ∀ r ∈ rs, r ≠ []) (n : Nat) :
    rs.lasts[n]? = rs[n]?.bind List.getLast? := by
  induction rs generalizing n with
  | nil => rfl
  | cons r rs ih =>
    obtain ⟨hr, hrs⟩ := forall_mem_cons.mp h
    rw [Routes.lasts, filterMap_cons_some (getLast?_eq_some_getLast hr)]
    cases n with
    | zero => exact (getLast?_eq_some_getLast hr).symm
    | succ n => exact ih hrs n

/-- An empty line is no route, and takes no number from the next one. -/
theorem readFrom_eq {lines : List String} {rs : Routes}
    (h : (lines.filter (· ≠ "")).mapM Route.read = .ok rs) (n : Nat) :
    Routes.readFrom n lines = .ok ((rs.zipIdx n).map fun q => ⟨q.1, q.2⟩) := by
  induction lines generalizing rs n with
  | nil =>
    cases h
    rfl
  | cons line lines ih =>
    rw [Routes.readFrom]
    by_cases hline : line = ""
    · rw [if_pos hline]
      exact ih (by simpa [hline] using h) n
    · rw [filter_cons_of_pos (by simpa using hline), mapM_cons] at h
      obtain ⟨r, hr, h⟩ := of_bind_eq_ok h
      obtain ⟨rs', hrs, h⟩ := of_bind_eq_ok h
      cases h
      rw [if_neg hline, hr, ok_bind, ih hrs]
      rfl

/-- **Transfer of paths.** The lines after the name are read as the routes of the paths, in their
order and numbered from zero, and the last address of each route is found at its number. No path may
come back to the address from which runs start. -/
theorem read_text {name : String} (hname : '\n' ∉ name.toList)
    (haddress : ∀ p ∈ paths, ∀ a ∈ p, 0 ≤ a.toInt)
    (hstart : ∀ p ∈ paths, prologueAddress ∉ p.tail) :
    ∃ t rs, text paths = .ok t ∧ (Text.split '\n' (name ++ "\n" ++ t)).head? = some name ∧
      Routes.read (Text.split '\n' (name ++ "\n" ++ t)).tail = .ok rs ∧
      rs.map NumberedRoute.route = routes paths ∧
      rs.map NumberedRoute.number = List.range rs.length ∧
      ∀ n : Nat, (routes paths).lasts[n]? = (routes paths)[n]?.bind List.getLast? := by
  refine ⟨_, (routes paths).zipIdx.map fun q => ⟨q.1, q.2⟩, text_eq hstart, ?_⟩
  rw [Text.split_append rfl hname, head?_cons, tail_cons]
  refine ⟨rfl, readFrom_eq ?_ 0, ?_, ?_, getElem?_lasts ?_⟩
  · rw [filter_split_text, mapM_map]
    refine mapM_eq_ok fun v hv => ?_
    rw [mem_filter, decide_eq_true_eq] at hv
    obtain ⟨p, hp, rfl⟩ := mem_map.mp hv.1
    exact read_line hv.2 fun a ha => haddress p hp a (mem_of_mem_visible ha)
  · rw [map_map]
    exact zipIdx_map_fst 0 _
  · rw [map_map, length_map, length_zipIdx, range_eq_range']
    exact zipIdx_map_snd 0 _
  · rintro r hr
    obtain ⟨v, hv, rfl⟩ := mem_map.mp hr
    simpa using (mem_filter.mp hv).2

/-- The path between the two others is empty, and is not counted. -/
theorem read_text_three : ∃ t rs, text [[prologueAddress, 0x1000, 0x1005], [], [0xFFFFFFFF]] =
    .ok t ∧ Routes.read (Text.split '\n' ("main" ++ "\n" ++ t)).tail = .ok rs ∧
      rs.map NumberedRoute.route = [[0x1000, 0x1005], [0xFFFFFFFF]] ∧
      rs.map NumberedRoute.number = List.range rs.length := by
  have haddress : ∀ p ∈ [[prologueAddress, 0x1000, 0x1005], [], [0xFFFFFFFF]], ∀ a ∈ p,
    0 ≤ a.toInt := by
    simp only [forall_mem_cons, not_mem_nil, false_implies, implies_true, and_true]
    decide
  obtain ⟨t, rs, ht, -, hread, hroutes, hnumbers, -⟩ :=
    read_text (show '\n' ∉ "main".toList by decide) haddress (by decide)
  exact ⟨t, rs, ht, hread, hroutes, hnumbers⟩

end Paths

end FlowRecovery
