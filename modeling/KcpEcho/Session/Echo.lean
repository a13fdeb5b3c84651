import KcpEcho.Session.Pair

/-!
# What comes out is what went in

End-to-end integrity of one session. The server takes out a prefix of the bytes `ikcp_send` has
taken from the client, passes on exactly what it takes out, and the client takes out a prefix of
that, however the network loses, duplicates, delays and reorders the datagrams in between.

`ikcp_send` does not take every call whole. A buffer that needs 128 segments or more is refused, or
taken in part when the last queued segment has room, and the returned value says so. Bytes it did
not take are in no stream (`echo_skips_refused_call`). A call of at most 127 segments, 174752 bytes,
is always taken whole, and for clients that make no longer calls the bytes taken are the bytes
passed.
-/

namespace KcpEcho

open SelectiveRepeat

theorem RecvSide.Represents.taken_prefix {side : SendSide} {side' : RecvSide} {l : Stream}
    {written taken : List UInt8} (hrecv : side'.Represents l taken)
    (hsend : side.Represents l written) : taken <+: written := by
  have hsplit : l.sent.flatten = (l.sent.take l.nxt).flatten ++ (l.sent.drop l.nxt).flatten := by
    rw [← List.flatten_append, List.take_append_drop]
  calc taken <+: taken ++ side'.queue.flatMap IkcpSeg.data := List.prefix_append _ _
    _ = (l.sent.take l.nxt).flatten := hrecv.bytes
    _ <+: l.sent.flatten := hsplit ▸ List.prefix_append _ _
    _ <+: written := hsend.bytes ▸ List.prefix_append _ _

namespace Pair

variable {conv : UInt32} {clientUser serverUser : Ptr} {s : Pair}

/-- The client's calls of `ikcp_send` fit 127 segments each. -/
def ShortSends (_ : Pair) : PairEvent → Prop
  | .send buffer => buffer.length ≤ sendLimit sessionMss
  | _ => True

theorem accepted_eq_passed
    (hs : ((pair conv clientUser serverUser).restrict ShortSends).Reachable s) :
    s.clientAccepted = s.clientPassed := by
  have hinv : ((pair conv clientUser serverUser).restrict ShortSends).Inductive fun s ↦
      (∃ up down, s.Represents conv clientUser serverUser up down) ∧
        s.clientAccepted = s.clientPassed := by
    refine ((inductive_represents conv clientUser serverUser).restrict ShortSends).and
      (fun s hs ↦ ?_) (fun s e s' hrep heq hstep ↦ ?_)
    · obtain rfl : s = start conv clientUser serverUser := hs
      rfl
    · obtain ⟨up, down, h⟩ := hrep
      obtain ⟨⟨-, rfl⟩, hshort⟩ := hstep
      cases e with
      | send buffer =>
        have hall := h.client.framed.send_eq_length hshort
        change s.clientAccepted ++ buffer.take (ikcpSend s.client buffer).2.toNat
          = s.clientPassed ++ buffer
        rw [hall, Int.toNat_natCast, List.take_length, heq]
      | clientTick current => exact heq
      | serverTick current => exact heq
      | serverRecv f => exact heq
      | clientRecv f => exact heq
  exact (hinv.reachable hs).2

/-- **Echo integrity.** In every reachable state the server has taken out a prefix of the bytes
`ikcp_send` took from the client, has passed on exactly, in order, the bytes it took out, and the
client has taken out a prefix of those. When no call of the client exceeds 174752 bytes, the first
of these prefixes is one of the bytes the client has passed. -/
theorem echo_integrity (conv : UInt32) (clientUser serverUser : Ptr) :
    (∀ s, (pair conv clientUser serverUser).Reachable s →
      s.serverTaken <+: s.clientAccepted ∧ s.serverPassed = s.serverTaken ∧
        s.clientTaken <+: s.serverPassed) ∧
    ∀ s, ((pair conv clientUser serverUser).restrict ShortSends).Reachable s →
      s.serverTaken <+: s.clientPassed ∧ s.serverPassed = s.serverTaken ∧
        s.clientTaken <+: s.serverPassed := by
  have hall : ∀ s, (pair conv clientUser serverUser).Reachable s →
      s.serverTaken <+: s.clientAccepted ∧ s.serverPassed = s.serverTaken ∧
        s.clientTaken <+: s.serverPassed := by
    intro s hs
    obtain ⟨up, down, h⟩ := (inductive_represents conv clientUser serverUser).reachable hs
    exact ⟨h.server.recv.taken_prefix h.client.send, h.echoed,
      h.client.recv.taken_prefix h.server.send⟩
  refine ⟨hall, ?_⟩
  intro s hs
  rw [← accepted_eq_passed hs]
  exact hall s hs.of_restrict

theorem echo_integrity_byteBack :
    byteBack.serverTaken <+: byteBack.clientPassed ∧ byteBack.clientTaken = [7] := by
  have hreach := @reachable_byteBack ShortSends (by decide : 1 ≤ sendLimit sessionMss)
    (fun _ e he ↦ by
      cases e with
      | send buffer => exact absurd rfl (he buffer)
      | _ => trivial)
  exact ⟨((echo_integrity 1001 0 1).2 byteBack hreach).1, by decide⟩

/-! ## Calls that are too long -/

theorem reachable_refused {buffer : List UInt8} (hlong : sendLimit sessionMss < buffer.length)
    (hs : (pair conv clientUser serverUser).Reachable s) :
    (pair conv clientUser serverUser).Reachable
      { s with clientPassed := buffer ++ s.clientPassed } := by
  induction hs with
  | init h0 =>
    obtain rfl : _ = start conv clientUser serverUser := h0
    have hframed := Framed.init conv clientUser
    -- with nothing queued there is no room for even a part of it
    have hrefused : ikcpSend (configuredKcp conv clientUser) buffer
        = (configuredKcp conv clientUser, -2) :=
      ikcpSend_of_too_long (by rw [hframed.stream_eq]; decide) (by rw [hframed.mss_eq]; decide) rfl
        (hframed.mss_eq ▸ hlong)
    have hsend : ({ start conv clientUser serverUser with clientPassed := buffer ++ [] } : Pair)
        = (start conv clientUser serverUser).after (.send buffer) := by
      rw [after, Pair.send, show (start conv clientUser serverUser).client
        = configuredKcp conv clientUser from rfl, hrefused, List.append_nil]
      simp [start]
    exact @Lts.Reachable.step _ _ _ _ _ (.send buffer) (.init rfl) ⟨trivial, hsend⟩
  | @step s s' e _ hstep ih =>
    obtain ⟨henabled, rfl⟩ := hstep
    refine @Lts.Reachable.step _ _ _ _ _ e ih ⟨?_, ?_⟩
    · cases e <;> exact henabled
    · cases e with
      | send buffer' =>
        change ({ s.send buffer' with
          clientPassed := buffer ++ (s.clientPassed ++ buffer') } : Pair) = _
        rw [← List.append_assoc]
        rfl
      | _ => rfl

/-- **A refused call is skipped.** The client passes 174753 bytes, which `ikcp_send` refuses, and
then one byte, which arrives: what the server takes out is no prefix of what was passed. -/
theorem echo_skips_refused_call : ∃ s, (pair 1001 0 1).Reachable s ∧
    ¬s.serverTaken <+: s.clientPassed := by
  have hreach := @reachable_byteBack (fun _ _ ↦ True) trivial fun _ _ _ ↦ trivial
  have hlong : sendLimit sessionMss < (List.replicate 174753 (0 : UInt8)).length := by
    rw [List.length_replicate]
    decide
  refine ⟨_, reachable_refused hlong hreach.of_restrict, ?_⟩
  intro hprefix
  have htaken : byteBack.serverTaken = [7] := by decide
  have hhead : [7] <+: (0 : UInt8) :: (List.replicate 174752 0 ++ byteBack.clientPassed) := by
    rw [← htaken]
    exact hprefix
  exact absurd (List.cons_prefix_cons.mp hhead).1 (by decide)

end Pair
end KcpEcho
