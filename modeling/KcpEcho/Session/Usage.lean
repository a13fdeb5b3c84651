import KcpEcho.Base.Transition
import KcpEcho.Ikcp.Framing
import KcpEcho.Ikcp.Stream
import KcpEcho.Process.Receive

/-!
# One session, whatever it is fed

A control block as the `KcpContext` constructor leaves it, under any calls the two programs make on
it and any bytes the network delivers. The invariant `Framed` says what such a block can hold on its
sending side; with it, everything the block ever emits is a datagram of its own conversation between
24 and 1400 bytes long, made of whole segments.
-/

namespace KcpEcho

/-- The calls the programs make on a control block. -/
inductive Usage
  /-- `ikcp_send` of a buffer. -/
  | send (buffer : List UInt8)
  /-- `ikcp_input` of a received datagram. -/
  | input (data : List UInt8)
  /-- `ikcp_recv` into a buffer of the given size. -/
  | recv (len : ℤ)
  /-- `ikcp_update` at a clock value. -/
  | update (current : UInt32)

/-- The block after a call. -/
def Ikcpcb.after (kcp : Ikcpcb) : Usage → Ikcpcb
  | .send buffer => (ikcpSend kcp buffer).1
  | .input data => (ikcpInput kcp data).1
  | .recv len => (ikcpRecv kcp len).1
  | .update current => (ikcpUpdate kcp current).1

/-- A session of conversation `conv` owned by the context at `user`. -/
def session (conv : UInt32) (user : Ptr) : Lts Ikcpcb Usage where
  init kcp := kcp = configuredKcp conv user
  step kcp usage kcp' := kcp' = kcp.after usage

theorem Ikcpcb.after_config (kcp : Ikcpcb) (usage : Usage) :
    (kcp.after usage).config = kcp.config := by
  cases usage with
  | send buffer => exact (ikcpSend_frame kcp buffer).1
  | input data => exact ikcpInput_config kcp data
  | recv len => exact (ikcpRecv_frame kcp len).1
  | update current =>
    obtain ⟨kcp', hconfig, -, -, hupd, heq | heq⟩ := ikcpUpdate_cases kcp current
    · rw [Ikcpcb.after, heq, (ikcpFlush_sides hupd).1, hconfig]
    · rw [Ikcpcb.after, heq, hconfig]

/-! ## Whole handlers -/

/-- `kcp'` comes from `kcp` by calls the programs make. -/
structure Evolves (kcp kcp' : Ikcpcb) : Prop where
  config : kcp'.config = kcp.config
  session : ∀ {conv user}, (session conv user).Reachable kcp → (session conv user).Reachable kcp'

namespace Evolves

theorem refl (kcp : Ikcpcb) : Evolves kcp kcp := ⟨rfl, id⟩

theorem trans {kcp kcp' kcp'' : Ikcpcb} (h : Evolves kcp kcp') (h' : Evolves kcp' kcp'') :
    Evolves kcp kcp'' := ⟨h'.config.trans h.config, fun hr ↦ h'.session (h.session hr)⟩

theorem after (kcp : Ikcpcb) (usage : Usage) : Evolves kcp (kcp.after usage) :=
  ⟨kcp.after_config usage, fun hr ↦ .step hr rfl⟩

theorem conv_eq {kcp kcp' : Ikcpcb} (h : Evolves kcp kcp') : kcp'.conv = kcp.conv :=
  congrArg IkcpConfig.conv h.config

theorem user_eq {kcp kcp' : Ikcpcb} (h : Evolves kcp kcp') : kcp'.user = kcp.user :=
  congrArg IkcpConfig.user h.config

theorem input (kcp : Ikcpcb) (data : List UInt8) : Evolves kcp (ikcpInput kcp data).1 :=
  after kcp (.input data)

theorem update (kcp : Ikcpcb) (current : UInt32) : Evolves kcp (ikcpUpdate kcp current).1 :=
  after kcp (.update current)

theorem echoLoop (fuel : ℕ) (kcp : Ikcpcb) (log : EchoLog) :
    Evolves kcp (echoLoop fuel kcp log).1 := by
  induction fuel generalizing kcp log with
  | zero => exact refl kcp
  | succ fuel ih =>
    have hrecv := after kcp (.recv allocSize)
    have hsend := after (ikcpRecv kcp allocSize).1 (.send (ikcpRecv kcp allocSize).2.2)
    rw [KcpEcho.echoLoop]
    dsimp only
    split
    · exact hrecv
    · split
      · exact hrecv.trans hsend
      · exact (hrecv.trans hsend).trans (ih _ _)

theorem echo (kcp : Ikcpcb) : Evolves kcp (echo kcp).1 := echoLoop _ kcp {}

theorem drainLoop (fuel : ℕ) (kcp : Ikcpcb) (taken : List UInt8) :
    Evolves kcp (drainLoop fuel kcp taken).1 := by
  induction fuel generalizing kcp taken with
  | zero => exact refl kcp
  | succ fuel ih =>
    have hrecv := after kcp (.recv allocSize)
    rw [KcpEcho.drainLoop]
    dsimp only
    split
    · exact hrecv
    · exact hrecv.trans (ih _ _)

theorem drain (kcp : Ikcpcb) : Evolves kcp (drain kcp).1 := drainLoop _ kcp []

end Evolves

/-! ## The invariant -/

/-- The maximum segment size of a configured block. -/
def sessionMss : ℕ := 1376

/-- What a configured block can hold on its sending side. -/
structure Framed (conv : UInt32) (user : Ptr) (kcp : Ikcpcb) : Prop where
  config : kcp.config = (configuredKcp conv user).config
  queue : Unfragmented sessionMss kcp.sendSide.queue
  buf : ∀ b ∈ kcp.sendSide.buf, b.conv = conv ∧ b.cmd = ikcpCmdPush ∧ b.data.length ≤ sessionMss

namespace Framed

variable {conv : UInt32} {user : Ptr} {kcp kcp' : Ikcpcb}

theorem conv_eq (h : Framed conv user kcp) : kcp.conv = conv := congrArg IkcpConfig.conv h.config

theorem mtu_eq (h : Framed conv user kcp) : kcp.mtu.toNat = 1400 :=
  congrArg (fun c ↦ c.mtu.toNat) h.config

theorem mss_eq (h : Framed conv user kcp) : kcp.mss.toNat = sessionMss :=
  congrArg (fun c ↦ c.mss.toNat) h.config

theorem stream_eq (h : Framed conv user kcp) : kcp.stream = 1 := congrArg IkcpConfig.stream h.config

theorem init (conv : UInt32) (user : Ptr) : Framed conv user (configuredKcp conv user) where
  config := rfl
  queue _ h := absurd h List.not_mem_nil
  buf _ h := absurd h List.not_mem_nil

theorem of_frame (h : Framed conv user kcp) (hconfig : kcp'.config = kcp.config)
    (hsend : kcp'.sendSide = kcp.sendSide) : Framed conv user kcp' where
  config := hconfig.trans h.config
  queue := hsend ▸ h.queue
  buf := hsend ▸ h.buf

theorem of_shrinks (h : Framed conv user kcp) (hconfig : kcp'.config = kcp.config)
    (hsend : SendShrinks kcp kcp') : Framed conv user kcp' where
  config := hconfig.trans h.config
  queue := hsend.queue ▸ h.queue
  buf b hb := h.buf b (hsend.buf.subset hb)

theorem send (h : Framed conv user kcp) (buffer : List UInt8) :
    Framed conv user (ikcpSend kcp buffer).1 := by
  have hstream : kcp.stream ≠ 0 := by rw [h.stream_eq]; decide
  obtain ⟨queue, n, heq, hqueue, -⟩ := ikcpSend_spec hstream
    (by rw [h.mss_eq]; decide) (h.mss_eq ▸ h.queue) buffer
  rw [heq]
  exact ⟨h.config, h.mss_eq ▸ hqueue, h.buf⟩

theorem input (h : Framed conv user kcp) (data : List UInt8) :
    Framed conv user (ikcpInput kcp data).1 :=
  h.of_shrinks (ikcpInput_config kcp data) (SendShrinks.ikcpInput kcp data)

theorem recv (h : Framed conv user kcp) (len : ℤ) : Framed conv user (ikcpRecv kcp len).1 :=
  h.of_frame (ikcpRecv_frame kcp len).1 (ikcpRecv_frame kcp len).2

/-- The segments `ikcp_flush` moves into the send buffer come from the queue. -/
theorem flushMoved (h : Framed conv user kcp) : Framed conv user (flushMoved kcp) := by
  have hprobe := flushProbe_sides { kcp with acklist := [] }
  have hbase : Framed conv user { flushProbe { kcp with acklist := [] } with probe := 0 } :=
    h.of_frame hprobe.1 hprobe.2.1
  obtain ⟨hbuf, hqueue⟩ := moveToSndBuf_bodies
    (flushCwnd { flushProbe { kcp with acklist := [] } with probe := 0 }) (ikcpWndUnused kcp)
    (flushProbe { kcp with acklist := [] }).sndQueue
    { flushProbe { kcp with acklist := [] } with probe := 0 }
  refine ⟨(flushMoved_frame kcp).1.trans h.config, fun e he ↦ hbase.queue e (hqueue.subset he),
    ?_⟩
  intro b hb
  rcases hbuf b hb with hb | ⟨hconv, hcmd, hmem⟩
  · exact hbase.buf b hb
  · exact ⟨hconv.trans hbase.conv_eq, hcmd, (hbase.queue _ hmem).2⟩

theorem flush (h : Framed conv user kcp) : Framed conv user (ikcpFlush kcp).1 := by
  by_cases hupd : kcp.updated = 0
  · rw [ikcpFlush_of_not_updated hupd]
    exact h
  · obtain ⟨hconfig, hsend, -⟩ := ikcpFlush_sides hupd
    exact h.flushMoved.of_frame (hconfig.trans (flushMoved_frame kcp).1.symm) hsend

theorem update (h : Framed conv user kcp) (current : UInt32) :
    Framed conv user (ikcpUpdate kcp current).1 := by
  obtain ⟨kcp', hconfig, hsend, -, -, heq | heq⟩ := ikcpUpdate_cases kcp current
  · rw [heq]
    exact (h.of_frame hconfig hsend).flush
  · rw [heq]
    exact h.of_frame hconfig hsend

theorem after (h : Framed conv user kcp) (usage : Usage) : Framed conv user (kcp.after usage) := by
  cases usage with
  | send buffer => exact h.send buffer
  | input data => exact h.input data
  | recv len => exact h.recv len
  | update current => exact h.update current

/-- Every state of a session is framed. -/
theorem inductive_session (conv : UInt32) (user : Ptr) :
    (session conv user).Inductive (Framed conv user) where
  init _ hkcp := hkcp ▸ init conv user
  step _ usage _ h hkcp' := hkcp' ▸ h.after usage

end Framed

/-! ## What a session emits -/

/-- A datagram a session may send: whole segments of its conversation, no more than an MTU. -/
def SessionDatagram (conv : UInt32) (d : List UInt8) : Prop :=
  Chunk (IkcpSeg.WellFormed conv) 1400 d

namespace SessionDatagram

variable {conv : UInt32} {d : List UInt8}

theorem length_ge (h : SessionDatagram conv d) : 24 ≤ d.length := by
  obtain ⟨segs, hne, -, rfl, -⟩ := h
  obtain ⟨seg, rest, rfl⟩ := List.exists_cons_of_ne_nil hne
  rw [wires_cons, List.length_append, IkcpSeg.length_wire, ikcpOverhead]
  omega

theorem length_le (h : SessionDatagram conv d) : d.length ≤ 1400 := by
  obtain ⟨-, -, -, -, hlen⟩ := h
  exact hlen

theorem decode_conv (h : SessionDatagram conv d) : (ikcpDecode32u d).1 = conv := by
  obtain ⟨segs, hne, hsegs, rfl, -⟩ := h
  obtain ⟨seg, rest, rfl⟩ := List.exists_cons_of_ne_nil hne
  rw [wires_cons, IkcpSeg.decode_conv_wire, (hsegs seg List.mem_cons_self).conv_eq]

/-- Any control block of that conversation, whatever its state, takes the datagram. -/
theorem ikcpInput (h : SessionDatagram conv d) {kcp : Ikcpcb} (hconv : kcp.conv = conv) :
    (ikcpInput kcp d).2 = 0 := by
  obtain ⟨segs, hne, hsegs, rfl, -⟩ := h
  have hinput := ikcpInput_wires (hconv ▸ hsegs) hne (by decide : ([] : List UInt8).length < _)
  rw [List.append_nil] at hinput
  rw [hinput]

end SessionDatagram

theorem Framed.flush_datagram {conv : UInt32} {user : Ptr} {kcp : Ikcpcb}
    (h : Framed conv user kcp) : ∀ d ∈ (ikcpFlush kcp).2, SessionDatagram conv d := by
  have hmtu : ikcpOverhead ≤ kcp.mtu.toNat := by rw [h.mtu_eq]; decide
  have hchunk := @ikcpFlush_chunk (IkcpSeg.WellFormed conv) kcp hmtu
    (fun a _ seg hseg hcmd _ ↦ ?_) (fun seg hseg hcmd ↦ ?_) (fun seg hseg _ ↦ ?_)
  · rw [h.mtu_eq] at hchunk
    exact hchunk
  · have hdata : seg.data = [] := hseg.2.2.2.2
    exact ⟨hseg.1.trans h.conv_eq, .inr (.inl hcmd), by rw [hdata]; decide⟩
  · have hdata : seg.data = [] := hseg.2.2.2.2
    exact ⟨hseg.1.trans h.conv_eq, .inr (.inr hcmd), by rw [hdata]; decide⟩
  · obtain ⟨hconv, hcmd, hlen⟩ := h.flushMoved.buf _ hseg
    have hlen : seg.data.length ≤ sessionMss := hlen
    rw [h.mtu_eq, ikcpOverhead, IkcpSeg.len]
    rw [sessionMss] at hlen
    exact ⟨⟨hconv, .inl hcmd, by omega⟩, by omega⟩

/-- Whatever a framed block emits on an update is a datagram of its session. -/
theorem Framed.update_datagram {conv : UInt32} {user : Ptr} {kcp : Ikcpcb}
    (h : Framed conv user kcp) (current : UInt32) :
    ∀ d ∈ (ikcpUpdate kcp current).2, SessionDatagram conv d := by
  obtain ⟨kcp', hconfig, hsend, -, -, heq | heq⟩ := ikcpUpdate_cases kcp current
  · rw [heq]
    exact (h.of_frame hconfig hsend).flush_datagram
  · rw [heq]
    exact fun _ hd ↦ absurd hd List.not_mem_nil

end KcpEcho
