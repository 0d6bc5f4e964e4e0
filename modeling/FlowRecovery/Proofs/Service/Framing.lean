import FlowRecovery.Proofs.Ending
import FlowRecovery.Service.Connection

/-!
# Messages that come in pieces

A message comes in pieces, and its end is looked for after each of them. It is received whole,
whatever the pieces are, exactly if its body does not hold the closing mark
(`Host.request_ends_iff`). The closing mark overlaps neither the opening mark nor itself, so what is
complete is a body between two marks (`isComplete_iff`), and a part of a message that is complete
shows the closing mark in the body (`closing_infix_of_prefix`).
-/

namespace FlowRecovery

open List

namespace Frame

variable {x y before bytes : List UInt8} {chunks later : List (List UInt8)}

/-! ### Complete messages -/

theorem isComplete_wrap (x : List UInt8) : isComplete (wrap x) := by
  rw [isComplete, Bool.and_eq_true, isPrefixOf_iff_prefix, isSuffixOf_iff_suffix, wrap]
  exact ⟨⟨x ++ closing, by rw [append_assoc]⟩, suffix_append _ _⟩

theorem closing_suffix_of_opening_append (h : closing <:+ opening ++ y) : closing <:+ y := by
  by_cases hlen : closing.length ≤ y.length
  · exact suffix_of_suffix_length_le h (suffix_append opening y) hlen
  · -- with a shorter rest, the closing mark would start inside of the opening mark
    rw [suffix_iff_eq_drop] at h
    match y, hlen with
    | [], _ | [_], _ | [_, _], _ => cases h
    | _ :: _ :: _ :: _, hlen => simp [closing] at hlen

theorem isComplete_iff : isComplete bytes ↔ ∃ x, bytes = wrap x := by
  constructor
  · intro h
    rw [isComplete, Bool.and_eq_true, isPrefixOf_iff_prefix, isSuffixOf_iff_suffix] at h
    obtain ⟨⟨y, rfl⟩, hsuffix⟩ := h
    obtain ⟨x, rfl⟩ := closing_suffix_of_opening_append hsuffix
    exact ⟨x, by rw [wrap, append_assoc]⟩
  · rintro ⟨x, rfl⟩
    exact isComplete_wrap x

theorem body_wrap (x : List UInt8) : body (wrap x) = .ok x := by
  have hlen : (wrap x).length - (opening.length + closing.length) = x.length := by
    simp only [wrap, length_append]
    omega
  rw [body, if_pos (isComplete_wrap x), hlen, wrap, append_assoc, drop_left, take_left]

theorem closing_infix_of_prefix (h : wrap x <+: wrap y) (hne : x ≠ y) : closing <:+: y := by
  obtain ⟨rest, h⟩ := h
  have hbody : x ++ closing ++ rest = y ++ closing := by
    simpa only [wrap, append_assoc, append_cancel_left_eq] using h
  by_cases hlen : closing.length ≤ rest.length
  · have hrest : rest <:+ y ++ closing := hbody ▸ suffix_append _ _
    obtain ⟨r, rfl⟩ := suffix_of_suffix_length_le (suffix_append y closing) hrest hlen
    rw [← append_assoc] at hbody
    exact ⟨x, r, append_cancel_right hbody⟩
  · -- with one or two bytes to come, the mark would overlap the closing mark of the message
    have hback := congrArg reverse hbody
    match rest, hlen with
    | [], _ => exact absurd (by simpa using hbody) hne
    | [_], _ | [_, _], _ => simp [closing] at hback
    | _ :: _ :: _ :: _, hlen => simp [closing] at hlen

/-! ### Pieces -/

theorem gather_of_forall (hne : chunks ≠ []) (hchunks : ∀ c ∈ chunks, c ≠ [])
    (hall : isComplete (before ++ chunks.flatten))
    (hpart : ∀ p, p <+: before ++ chunks.flatten → isComplete p → p = before ++ chunks.flatten) :
    gather before (chunks ++ later) = ⟨some (before ++ chunks.flatten), later⟩ := by
  induction chunks generalizing before with
  | nil => exact absurd rfl hne
  | cons c cs ih =>
    obtain ⟨hc, hcs⟩ := forall_mem_cons.mp hchunks
    obtain ⟨b, bs, rfl⟩ := exists_cons_of_ne_nil hc
    rw [flatten_cons, ← append_assoc] at hall hpart ⊢
    rw [cons_append, gather]
    by_cases hnow : isComplete (before ++ b :: bs)
    · -- only the last piece completes the message
      have hend : cs.flatten = [] := self_eq_append_right.mp (hpart _ (prefix_append _ _) hnow)
      have hcs : cs = [] := eq_nil_iff_forall_not_mem.mpr fun c hc =>
        hcs c hc (flatten_eq_nil_iff.mp hend c hc)
      rw [if_pos hnow, hend, hcs, append_nil, nil_append]
    · rw [if_neg hnow]
      refine ih ?_ hcs hall hpart
      rintro rfl
      exact hnow (by simpa using hall)

/-- Byte by byte, no complete part is passed by. -/
theorem gather_singletons (before x : List UInt8) (hx : x ≠ []) (hcomplete : isComplete (before ++ x))
    (rest : List UInt8) :
    ∃ r, (gather before ((x ++ rest).map fun b => [b])).bytes = some r ∧ r <+: before ++ x ∧ isComplete r := by
  induction x generalizing before with
  | nil => exact absurd rfl hx
  | cons b x ih =>
    rw [append_cons before b x] at hcomplete ⊢
    rw [cons_append, map_cons, gather]
    by_cases hnow : isComplete (before ++ [b])
    · exact ⟨before ++ [b], by rw [if_pos hnow], prefix_append _ _, hnow⟩
    · rw [if_neg hnow]
      refine ih (before ++ [b]) ?_ hcomplete
      rintro rfl
      exact hnow (by simpa using hcomplete)

end Frame

/-! ### Requests -/

theorem Encoding.decode_eq_ok_iff {bytes : List UInt8} {s : String} : decode bytes = .ok s ↔ bytes = encode s := by
  unfold decode encode String.fromUTF8?
  by_cases h : ByteArray.IsValidUTF8 ⟨bytes.toArray⟩
  · rw [dif_pos h]
    constructor
    · rintro ⟨rfl⟩
      simp [String.fromUTF8, String.toUTF8]
    · rintro rfl
      simp [String.fromUTF8, String.toUTF8]
  · rw [dif_neg h]
    constructor
    · nofun
    · rintro rfl
      exact absurd s.isValidUTF8 (by simpa using h)

namespace Host

open FlowRecovery.Frame

/-- The client that the host talks with has sent the bytes, in pieces of any division of them up to
the limit, and maybe more after them. -/
def Receives (h : Host) (bytes : List UInt8) : Prop :=
  ∃ n c pieces later, h.current = some n ∧ h.clients[n]? = some c ∧ c.incoming = pieces ++ later ∧
    (∀ p ∈ pieces, p.bytes ≠ [] ∧ p.bytes.length ≤ Piece.limit) ∧ pieces.flatMap Piece.bytes = bytes

variable {h : Host} {n : Nat} {c : Connection} {s : String}

theorem ends_client_iff (hn : h.current = some n) (hc : h.clients[n]? = some c) {p : Nat × Connection} {h' : Host} :
    client.Ends h p h' ↔ p = (n, c) ∧ h' = h := by
  rw [client, FaultyM.ends_get_bind, hn, Option.bind_some, hc]
  exact FaultyM.ends_pure

theorem ends_request_iff (hn : h.current = some n) (hc : h.clients[n]? = some c) :
    (∃ h', request.Ends h s h') ↔ ∃ x, (Frame.gather [] (c.incoming.map Piece.bytes)).bytes = some x ∧
      Frame.body x = .ok (Encoding.encode s) := by
  cases hx : (gather [] (c.incoming.map Piece.bytes)).bytes with
  | none => simp [request, put, ends_client_iff hn hc, hx]
  | some x => simp [request, put, ends_client_iff hn hc, hx, Encoding.decode_eq_ok_iff]

/-- **Framing.** A request is received, by whatever division of its message into pieces, exactly if
its text does not hold the closing mark. -/
theorem request_ends_iff (s : String) :
    (∀ h : Host, h.Receives (Frame.wrap (Encoding.encode s)) → ∃ h', request.Ends h s h') ↔
      ¬Frame.closing <:+: Encoding.encode s := by
  constructor
  · rintro hall ⟨x, y, hxy⟩
    -- byte by byte, the mark in the body is taken for the end, if no other one is before
    have hmessage : wrap (Encoding.encode s) = wrap x ++ (y ++ closing) := by
      simp [← hxy, wrap]
    let c : Connection := { incoming := (wrap (Encoding.encode s)).map fun b => ⟨[b], true⟩ }
    have hreceives : Receives { clients := [c], current := some 0 } (wrap (Encoding.encode s)) :=
      ⟨0, c, c.incoming, [], rfl, rfl, by simp, by simp [c, Piece.limit], by simp [c, flatMap_map]⟩
    obtain ⟨r, hr, hbody⟩ := (ends_request_iff rfl rfl).mp (hall _ hreceives)
    obtain ⟨r', hr', hprefix, hcomplete⟩ :=
      gather_singletons [] (wrap x) (by simp [wrap, opening]) (isComplete_wrap x)
        (y ++ closing)
    rw [map_map, hmessage] at hr
    obtain rfl := Option.some.inj (hr.symm.trans hr')
    obtain ⟨z, rfl⟩ := isComplete_iff.mp hcomplete
    rw [body_wrap] at hbody
    -- what is received is too short
    have hlen : (wrap z).length ≤ (wrap x).length := hprefix.length_le
    rw [Except.ok.inj hbody, ← hxy] at hlen
    simp only [wrap, closing, length_append, length_cons] at hlen
    omega
  · rintro hfree h ⟨n, c, pieces, later, hn, hc, hincoming, hpieces, hbytes⟩
    rw [flatMap_def] at hbytes
    have hpart (p : List UInt8) (hp : p <+: wrap (Encoding.encode s)) (hcomplete : isComplete p = true) :
        p = wrap (Encoding.encode s) := by
      obtain ⟨x, rfl⟩ := isComplete_iff.mp hcomplete
      by_contra hne
      exact hfree (Frame.closing_infix_of_prefix hp fun h => hne (by rw [h]))
    refine (ends_request_iff hn hc).mpr ⟨wrap (Encoding.encode s), ?_, body_wrap _⟩
    rw [hincoming, map_append, gather_of_forall, nil_append, hbytes]
    · rintro hnil
      rw [hnil] at hbytes
      simp [wrap, opening] at hbytes
    · simpa using fun p hp => (hpieces p hp).1
    · rw [nil_append, hbytes]
      exact isComplete_wrap _
    · rwa [nil_append, hbytes]

end Host

end FlowRecovery
