import KcpEcho.Session.Pair

/-!
# The two ends agree on the window

Between handlers, each sender's window starts no later than the number its peer waits for, the peer
never waits for a number that was not assigned, and the window is at most 1024 long. So no segment
in the network lies beyond the receive window of its destination.

All of it is the window chain of the two streams (`Link.Inv.chain`), read through the residues.
-/

namespace KcpEcho

open SelectiveRepeat

/-- The sender's `snd_una` and `snd_nxt` and the receiver's `rcv_nxt`, in wrap-around order. -/
structure WindowAgrees (sender receiver : Ikcpcb) : Prop where
  /-- `snd_una` is not ahead of the peer's `rcv_nxt`. -/
  una_le : 0 ≤ itimediff receiver.rcvNxt sender.sndUna
  /-- The peer's `rcv_nxt` is not ahead of `snd_nxt`. -/
  nxt_le : 0 ≤ itimediff sender.sndNxt receiver.rcvNxt
  /-- `snd_nxt` is at most a window ahead of `snd_una`. -/
  window : 0 ≤ itimediff sender.sndNxt sender.sndUna ∧
    itimediff sender.sndNxt sender.sndUna ≤ 1024

theorem WindowAgrees.of_stream {sender receiver : Ikcpcb} {l : Stream}
    {written taken : List UInt8} (hl : l.Inv sessionWindow)
    (hsend : sender.sendSide.Represents l written)
    (hrecv : receiver.recvSide.Represents l taken) : WindowAgrees sender receiver := by
  have huna : sender.sndUna = UInt32.ofNat l.una := hsend.una
  have hnxt : sender.sndNxt = UInt32.ofNat l.sent.length := hsend.nxt
  have hrcv : receiver.rcvNxt = UInt32.ofNat l.nxt := hrecv.nxt
  obtain ⟨hreported, hnext, hlength, hwindow⟩ := hl.chain
  rw [sessionWindow] at hwindow
  constructor
  · rw [hrcv, huna, itimediff_ofNat (by constructor <;> omega)]
    omega
  · rw [hnxt, hrcv, itimediff_ofNat (by constructor <;> omega)]
    omega
  · rw [hnxt, huna, itimediff_ofNat (by constructor <;> omega)]
    omega

namespace Pair

variable {conv : UInt32} {clientUser serverUser : Ptr} {s : Pair}

/-- A datagram in time never ends the session it belongs to. -/
theorem never_refused (hs : (pair conv clientUser serverUser).Reachable s) :
    (∀ f ∈ s.toServer, s.InTime f → (ikcpInput s.server f.bytes).2 = 0) ∧
      ∀ f ∈ s.toClient, s.InTime f → (ikcpInput s.client f.bytes).2 = 0 := by
  obtain ⟨up, down, h⟩ := (inductive_represents conv clientUser serverUser).reachable hs
  constructor
  · intro f hf htime
    exact (h.serverInput hf htime).1
  · intro f hf htime
    exact (h.clientInput hf htime).1

/-- **Window agreement.** In every state between handlers the two ends agree on both windows, and
whatever datagram may be delivered next, no PUSH segment in it is rejected for lying at or beyond
`rcv_nxt + rcv_wnd`. -/
theorem window_agreement (hs : (pair conv clientUser serverUser).Reachable s) :
    WindowAgrees s.client s.server ∧ WindowAgrees s.server s.client ∧
      (∀ f ∈ s.toServer, s.InTime f → pushRejected s.server f.bytes = false) ∧
      ∀ f ∈ s.toClient, s.InTime f → pushRejected s.client f.bytes = false := by
  obtain ⟨up, down, h⟩ := (inductive_represents conv clientUser serverUser).reachable hs
  refine ⟨.of_stream h.up_sound.inv h.client.send h.server.recv,
    .of_stream h.down_sound.inv h.server.send h.client.recv, ?_, ?_⟩
  · intro f hf htime
    exact (h.serverInput hf htime).2.1
  · intro f hf htime
    exact (h.clientInput hf htime).2.1

/-- After one byte has gone there and back, a second copy of it is still not rejected. -/
theorem window_agreement_byteBack : WindowAgrees byteBack.client byteBack.server ∧
    WindowAgrees byteBack.server byteBack.client ∧
      pushRejected byteBack.server byteFlight.bytes = false := by
  have hreach := @reachable_byteBack (fun _ _ ↦ True) trivial fun _ _ _ ↦ trivial
  obtain ⟨hup, hdown, hserver, -⟩ := window_agreement hreach.of_restrict
  exact ⟨hup, hdown, hserver byteFlight (by decide) ⟨by decide, by decide⟩⟩

end Pair
end KcpEcho
