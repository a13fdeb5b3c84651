import KcpEcho.Process.Routing
import KcpEcho.Table.ClientTable
import KcpEcho.Table.ServerTable

/-!
# Recovery from a session the server no longer knows

A client may go on using a conversation that the server has dropped. The first KCP datagram it
emits for it starts an exchange of four deliveries that replaces the session on both sides:

* the datagram finds no entry at the server, which answers with a FIN;
* the FIN ends the session at the client, which connects again;
* the SYN makes the server open its next conversation and announce it;
* the ACK makes the client open the same one.

The exchange starts from any joint state, with any other sessions on either side.
-/

namespace KcpEcho

open Proc

/-- The server and one client. -/
structure Joint where
  server : Proc := {}
  client : Client

namespace Joint

/-- Either side may move, and may receive anything. -/
def lts : Lts Joint (Server.Event ⊕ Client.Event) where
  init j := Server.lts.init j.server ∧ Client.lts.init j.client
  step j e j' := match e with
    | .inl e => Server.lts.step j.server e j'.server ∧ j'.client = j.client
    | .inr e => Client.lts.step j.client e j'.client ∧ j'.server = j.server

theorem reachable_sides {j : Joint} (h : lts.Reachable j) :
    Server.lts.Reachable j.server ∧ Client.lts.Reachable j.client := by
  induction h with
  | init h0 => exact ⟨.init h0.1, .init h0.2⟩
  | @step j j' e _ hstep ih =>
    cases e with
    | inl e => exact ⟨.step ih.1 hstep.1, hstep.2 ▸ ih.2⟩
    | inr e => exact ⟨hstep.2 ▸ ih.1, .step ih.2 hstep.1⟩

theorem reachable_of_sides {s : Proc} {c : Client} (hs : Server.lts.Reachable s)
    (hc : Client.lts.Reachable c) : lts.Reachable ⟨s, c⟩ := by
  induction hs with
  | init h0 =>
    induction hc with
    | init h0' => exact .init ⟨h0, h0'⟩
    | @step c c' e _ hstep ih => exact @Lts.Reachable.step _ _ _ _ _ (.inr e) ih ⟨hstep, rfl⟩
  | @step s s' e _ hstep ih => exact @Lts.Reachable.step _ _ _ _ _ (.inl e) ih ⟨hstep, rfl⟩

end Joint

/-! ## The exchange -/

/-- What the outside decides during the exchange: the two addresses, and the environment of the
client's tick and of each of the four deliveries. -/
structure Circumstances where
  clientAddr : SockAddr
  serverAddr : SockAddr
  tick : Env := {}
  datagram : Env := {}
  fin : Env := {}
  syn : Env := {}
  ack : Env := {}

/-- Every allocation of the exchange succeeds. -/
def Circumstances.AllocOk (w : Circumstances) : Prop := w.syn.AllocOk ∧ w.ack.AllocOk

/-- The update timer `t` of the client fires and its session emits `d`; `d`, the reply to it, the
reply to that, and the reply to that are delivered one after the other. A reply is the one datagram
that a handler has added to the outbox. -/
inductive Exchange (w : Circumstances) (t : Ptr) (d : List UInt8) (j : Joint) : Joint → Prop
  | intro {ticked reset installed : Client} {told opened : Proc} {out : List Packet}
      {fin syn ack : List UInt8}
      (tick_step : Client.lts.step j.client (.timer w.tick t) ticked)
      (ticked_outbox : ticked.proc.outbox = j.client.proc.outbox ++ out)
      (emitted : ⟨none, d⟩ ∈ out)
      (datagram_step : Server.lts.step j.server (.recv w.datagram w.clientAddr d) told)
      (told_outbox : told.outbox = j.server.outbox ++ [⟨some w.clientAddr, fin⟩])
      (fin_step : Client.lts.step ticked (.recv w.fin w.serverAddr fin) reset)
      (reset_outbox : reset.proc.outbox = ticked.proc.outbox ++ [⟨none, syn⟩])
      (syn_step : Server.lts.step told (.recv w.syn w.clientAddr syn) opened)
      (opened_outbox : opened.outbox = told.outbox ++ [⟨some w.clientAddr, ack⟩])
      (ack_step : Client.lts.step reset (.recv w.ack w.serverAddr ack) installed) :
      Exchange w t d j ⟨opened, installed⟩

theorem reply_inj {outbox : List Packet} {dest : Option SockAddr} {b b' : List UInt8}
    (h : outbox ++ [⟨dest, b⟩] = outbox ++ [⟨dest, b'⟩]) : b = b' := by
  have heq := List.append_cancel_left h
  cases heq
  rfl

/-- Handlers are functions, so an exchange has one outcome. -/
theorem Exchange.unique {w : Circumstances} {t : Ptr} {d : List UInt8} {j j' j'' : Joint}
    (h : Exchange w t d j j') (h' : Exchange w t d j j'') : j'' = j' := by
  cases h with
  | intro tick_step _ _ datagram_step told_outbox fin_step reset_outbox syn_step opened_outbox
      ack_step =>
    cases h' with
    | intro tick_step' _ _ datagram_step' told_outbox' fin_step' reset_outbox' syn_step'
        opened_outbox' ack_step' =>
      obtain rfl := Option.some.inj (tick_step.2.symm.trans tick_step'.2)
      obtain rfl := Option.some.inj (datagram_step.2.symm.trans datagram_step'.2)
      obtain rfl := reply_inj (told_outbox.symm.trans told_outbox')
      obtain rfl := Option.some.inj (fin_step.2.symm.trans fin_step'.2)
      obtain rfl := reply_inj (reset_outbox.symm.trans reset_outbox')
      obtain rfl := Option.some.inj (syn_step.2.symm.trans syn_step'.2)
      obtain rfl := reply_inj (opened_outbox.symm.trans opened_outbox')
      obtain rfl := Option.some.inj (ack_step.2.symm.trans ack_step'.2)
      rfl

/-- Session `c` of the client, in context `x`, has been replaced on both sides by a new session
`c'`. -/
structure Replaced (w : Circumstances) (c : UInt32) (x : Ptr) (c' : UInt32) (j j' : Joint) :
    Prop where
  gone : c ∉ j'.client.proc.kcpMap
  /-- The server has one more session: for the client's address, and in its initial state. -/
  server : ∃ y ctx k, j'.server.kcpMap = j.server.kcpMap.insert c' k ∧
    Live j'.server y ctx k (configuredKcp c' y) ∧ ctx.addr = w.clientAddr
  /-- The client has the same one instead of `c`, in its initial state, and it is sending. -/
  client : ∃ y ctx k, j'.client.proc.kcpMap = (j.client.proc.kcpMap.erase c).insert c' k ∧
    Live j'.client.proc y ctx k (configuredKcp c' y) ∧ ∃ s, ctx.sendTimer = some s ∧
      j'.client.proc.timers.lookup s = some ⟨.sendTimerCb, y⟩
  disarmed : j'.client.connectTimer = false
  /-- Every other session is unchanged. -/
  server_others : ∀ y ctx k kcp, Live j.server y ctx k kcp → Live j'.server y ctx k kcp
  client_others : ∀ y ≠ x, ∀ ctx k kcp, Live j.client.proc y ctx k kcp →
    Live j'.client.proc y ctx k kcp

/-! ## The five steps -/

section Steps

variable {w : Circumstances} {x k t : Ptr} {ctx : KcpContext} {kcp : Ikcpcb}

/-- A tick of the client, which never finds a session timed out. -/
theorem Client.step_tick {pc : Client} (hp : Client.Sturdy pc) (env : Env)
    (hlive : Live pc.proc x ctx k kcp) (ht : ctx.updateTimer = some t) :
    Client.lts.step pc (.timer env t)
      { pc with proc := ticked Client.kcpOutput env pc.proc x ctx k kcp } := by
  have hopen := hlive.timers .updateTimerCb t ht
  have hout : ¬isTimeout env ctx = true := by
    rw [isTimeout, if_pos (hp.unstamped x ctx hlive.ctx_at)]
    exact Bool.false_ne_true
  have heq := @updateTimerCb_eq Client.kcpOutput env _ _ _ _ _ _ hlive hopen
  rw [if_neg hout] at heq
  refine ⟨AList.lookup_isSome.mp (by rw [hopen]; rfl), ?_⟩
  rw [Client.handle, hopen]
  dsimp only
  rw [Client.updateTimerCb, heq]
  rfl

theorem Client.step_send {pc : Client} (env : Env) (hlive : Live pc.proc x ctx k kcp)
    (ht : ctx.sendTimer = some t) :
    Client.lts.step pc (.timer env t) { pc with
      proc := (pc.proc.uses [.ctx x, .kcp k]).used x ctx k
        (sendMessages (env.rand.toNat % 10 + 1) kcp) } := by
  have hopen := hlive.timers .sendTimerCb t ht
  refine ⟨AList.lookup_isSome.mp (by rw [hopen]; rfl), ?_⟩
  rw [Client.handle, hopen]
  dsimp only
  rw [Client.sendTimerCb, sendTimerCb_eq hlive hopen]
  rfl

theorem mem_of_emitted {p : Proc} {env : Env} {d : List UInt8} {out : List Packet}
    (hout : (ticked Client.kcpOutput env p x ctx k kcp).outbox = p.outbox ++ out)
    (hd : ⟨none, d⟩ ∈ out) : d ∈ (ikcpUpdate kcp env.now32).2 := by
  obtain rfl : (ikcpUpdate kcp env.now32).2.map (Packet.mk none) = out :=
    List.append_cancel_left hout
  obtain ⟨d', hd', heq⟩ := List.mem_map.mp hd
  cases heq
  exact hd'

theorem Server.step_unknown {p : Proc} {env : Env} {addr : SockAddr} {c : UInt32}
    {d : List UInt8} (hgone : c ∉ p.kcpMap) (hd : SessionDatagram c d) :
    Server.lts.step p (.recv env addr d) (p.sendUdpPacket (some addr) 3 c) := by
  refine ⟨trivial, ?_⟩
  have hnone : p.kcpMap.lookup c = none := AList.lookup_eq_none.mpr hgone
  rw [Server.handle, Server.udpRecvCb_eq, hd.classify_eq]
  exact Server.recvKcp_of_unknown hnone

theorem Client.step_fin {pc : Client} (env : Env) (addr : SockAddr)
    (hlive : Live pc.proc x ctx k kcp) (hmap : pc.proc.kcpMap.lookup kcp.conv = some k) :
    Client.lts.step pc (.recv env addr (udpPacket 3 kcp.conv)) (Client.connect env { pc with
      proc := (pc.proc.uses [.entry kcp.conv, .kcp k]).ended kcp.conv x ctx k }) := by
  refine ⟨trivial, ?_⟩
  rw [Client.handle, Client.udpRecvCb_eq, classify_fin]
  exact Client.recvFin_of_live hmap hlive

end Steps

/-! ## The outcome -/

/-- The server once it has answered the datagram and the SYN. -/
def afterSyn (w : Circumstances) (p : Proc) (c : UInt32) : Proc :=
  Server.synAnswered (p.sendUdpPacket (some w.clientAddr) 3 c) w.clientAddr w.fin.rand

/-- The client once the FIN has ended the session that ticked. -/
def afterFin (w : Circumstances) (pc : Client) (x : Ptr) (ctx : KcpContext) (k : Ptr)
    (kcp : Ikcpcb) : Client :=
  Client.connect w.fin { pc with
    proc := ((ticked Client.kcpOutput w.tick pc.proc x ctx k kcp).uses
      [.entry kcp.conv, .kcp k]).ended kcp.conv x ctx k }

/-- The client once it has installed the server's new session. -/
def afterAck (w : Circumstances) (pc : Client) (x : Ptr) (ctx : KcpContext) (k : Ptr)
    (kcp : Ikcpcb) (c' : UInt32) : Client :=
  Client.ackInstalled w.ack (afterFin w pc x ctx k kcp) w.serverAddr c'

section Outcome

variable {w : Circumstances} {j : Joint} {x k t : Ptr} {ctx : KcpContext} {kcp : Ikcpcb}

theorem step_afterFin {pc : Client} (hlive : Live pc.proc x ctx k kcp)
    (hmap : pc.proc.kcpMap.lookup kcp.conv = some k) :
    Client.lts.step { pc with proc := ticked Client.kcpOutput w.tick pc.proc x ctx k kcp }
      (.recv w.fin w.serverAddr (udpPacket 3 kcp.conv)) (afterFin w pc x ctx k kcp) := by
  have hconv : (ikcpUpdate kcp w.tick.now32).1.conv = kcp.conv :=
    (Evolves.update kcp w.tick.now32).conv_eq
  have hmap' : (ticked Client.kcpOutput w.tick pc.proc x ctx k kcp).kcpMap.lookup
      (ikcpUpdate kcp w.tick.now32).1.conv = some k := by
    rw [hconv]
    exact hmap
  have hstep := @Client.step_fin _ _ _ _ { pc with
    proc := ticked Client.kcpOutput w.tick pc.proc x ctx k kcp } w.fin w.serverAddr hlive.ticked
    hmap'
  rw [hconv] at hstep
  exact hstep

theorem exchange_outcome (hc : Client.Sturdy j.client) (hlive : Live j.client.proc x ctx k kcp)
    (hmap : j.client.proc.kcpMap.lookup kcp.conv = some k) (ht : ctx.updateTimer = some t)
    (hgone : kcp.conv ∉ j.server.kcpMap) (hw : w.AllocOk) {d : List UInt8} {out : List Packet}
    (hout : (ticked Client.kcpOutput w.tick j.client.proc x ctx k kcp).outbox
      = j.client.proc.outbox ++ out) (hd : ⟨none, d⟩ ∈ out) :
    Exchange w t d j ⟨afterSyn w j.server kcp.conv,
      afterAck w j.client x ctx k kcp (j.server.sConv + 1)⟩ := by
  have hdatagram : SessionDatagram kcp.conv d :=
    hlive.framed.update_datagram _ d (mem_of_emitted hout hd)
  have hsyn := Server.step_syn (j.server.sendUdpPacket (some w.clientAddr) 3 kcp.conv)
    ⟨hw.1.1, hw.1.2.1⟩ w.clientAddr w.fin.rand
  -- the ACK carries the number under the key of the SYN, which is still the client's
  have hack := Client.step_ack (afterFin w j.client x ctx k kcp) ⟨hw.2.1, hw.2.2.1⟩ w.serverAddr
    (j.server.sConv + 1 ^^^ w.fin.rand)
  have hkey : j.server.sConv + 1 ^^^ w.fin.rand ^^^ (afterFin w j.client x ctx k kcp).key
      = j.server.sConv + 1 := by
    change j.server.sConv + 1 ^^^ w.fin.rand ^^^ w.fin.rand = j.server.sConv + 1
    rw [UInt32.xor_assoc, UInt32.xor_self, UInt32.xor_zero]
  rw [hkey] at hack
  exact .intro (Client.step_tick hc w.tick hlive ht) hout hd (Server.step_unknown hgone hdatagram)
    rfl (step_afterFin hlive hmap) rfl hsyn (Server.outbox_synAnswered _ _ _) hack

theorem live_afterSyn {p : Proc} (hs : p.Sound) (c : UInt32) {y k' : Ptr} {ctx' : KcpContext}
    {kcp' : Ikcpcb} (hlive : Live p y ctx' k' kcp') : Live (afterSyn w p c) y ctx' k' kcp' :=
  Server.live_synAnswered_of_live ((grown_sendUdpPacket _ _ _ _).sound hs)
    ((grown_sendUdpPacket _ _ _ _).live.mpr hlive)

/-- The tick uses session `x` of the client and the FIN ends it; the others pass through all three
steps. -/
theorem live_afterAck {pc : Client} (hsound : (afterFin w pc x ctx k kcp).proc.Sound)
    (hlive : Live pc.proc x ctx k kcp) {y k' : Ptr} {ctx' : KcpContext} {kcp' : Ikcpcb}
    (hne : y ≠ x) (hlive' : Live pc.proc y ctx' k' kcp') (c' : UInt32) :
    Live (afterAck w pc x ctx k kcp c').proc y ctx' k' kcp' := by
  have hticked : Live (ticked Client.kcpOutput w.tick pc.proc x ctx k kcp) y ctx' k' kcp' :=
    grown_ticked.live.mpr (hlive.used_of_ne hlive' hne)
  have hfreed := removed_ended.live (c := kcp.conv) (hlive.ticked.uses [.entry kcp.conv, .kcp k])
    (hticked.uses [.entry kcp.conv, .kcp k]) hne
  exact Client.live_ackInstalled_of_live hsound ((grown_sendUdpPacket _ _ _ _).live.mpr hfreed)

theorem kcpMap_afterAck {pc : Client} {c' : UInt32} (hunused : c' ∉ pc.proc.kcpMap) :
    (afterAck w pc x ctx k kcp c').proc.kcpMap = (pc.proc.kcpMap.erase kcp.conv).insert c'
      ((afterFin w pc x ctx k kcp).proc.brk + 1) := by
  have hfresh : c' ∉ ((afterFin w pc x ctx k kcp).proc.opened w.serverAddr c').kcpMap :=
    fun hmem ↦ hunused (AList.mem_erase.mp hmem).2
  rw [afterAck, Client.kcpMap_ackInstalled, emplace_of_notMem hfresh]
  rfl

theorem replaced_outcome (hs : j.server.Sound)
    (hc : Client.Sturdy (afterFin w j.client x ctx k kcp)) (hlive : Live j.client.proc x ctx k kcp)
    (hmap : j.client.proc.kcpMap.lookup kcp.conv = some k)
    (hunused : j.server.sConv + 1 ∉ j.server.kcpMap)
    (hunused' : j.server.sConv + 1 ∉ j.client.proc.kcpMap) (hw : w.AllocOk) :
    Replaced w kcp.conv x (j.server.sConv + 1) j ⟨afterSyn w j.server kcp.conv,
      afterAck w j.client x ctx k kcp (j.server.sConv + 1)⟩ where
  gone := by
    rw [kcpMap_afterAck hunused', AList.mem_insert]
    rintro (heq | hmem)
    · exact hunused' (heq ▸ AList.lookup_isSome.mp (by rw [hmap]; rfl))
    · exact (AList.mem_erase.mp hmem).1 rfl
  server :=
    ⟨_, _, _, Server.kcpMap_synAnswered (p := j.server.sendUdpPacket (some w.clientAddr) 3 kcp.conv)
      hunused, Server.live_synAnswered, rfl⟩
  client := by
    obtain ⟨ctx', hlive', -, -, hsend⟩ := @Client.live_ackInstalled w.ack
      (afterFin w j.client x ctx k kcp) w.serverAddr (j.server.sConv + 1) hc.sound
    obtain ⟨s, hs⟩ := Option.ne_none_iff_exists'.mp (hsend.mpr hw.2.2.2)
    exact ⟨_, ctx', _, kcpMap_afterAck hunused', hlive', s, hs,
      hlive'.timers .sendTimerCb s hs⟩
  disarmed := rfl
  server_others _ _ _ _ := live_afterSyn hs _
  client_others _ hne _ _ _ hlive' := live_afterAck hc.sound hlive hne hlive' _

end Outcome

/-! ## The theorem -/

/-- **Recovery.** A session that only the client knows is replaced on both sides by the exchange
that its first datagram starts. -/
theorem session_replaced {j : Joint} (hj : Joint.lts.Reachable j) {c : UInt32} {k t : Ptr}
    {ctx : KcpContext} {kcp : Ikcpcb} (hmap : j.client.proc.kcpMap.lookup c = some k)
    (hk : j.client.proc.kcps k = some kcp) (hx : j.client.proc.ctxs kcp.user = some ctx)
    (ht : ctx.updateTimer = some t) (hgone : c ∉ j.server.kcpMap)
    (hunused : j.server.sConv + 1 ∉ j.server.kcpMap)
    (hunused' : j.server.sConv + 1 ∉ j.client.proc.kcpMap)
    {w : Circumstances} (hw : w.AllocOk) {ticked : Client}
    (htick : Client.lts.step j.client (.timer w.tick t) ticked) {d : List UInt8}
    {out : List Packet} (hout : ticked.proc.outbox = j.client.proc.outbox ++ out)
    (hd : ⟨none, d⟩ ∈ out) :
    ∃ j', Exchange w t d j j' ∧ (∀ j'', Exchange w t d j j'' → j'' = j') ∧
      Replaced w c kcp.user (j.server.sConv + 1) j j' := by
  obtain ⟨hs, hc⟩ := Joint.reachable_sides hj
  have hserver := Server.consistent_inductive.reachable hs
  have hclient := Client.sturdy_inductive.reachable hc
  obtain ⟨ctx', hlive⟩ := hclient.sound.live_of_kcp hk
  obtain rfl : ctx = ctx' := Option.some.inj (hx.symm.trans hlive.ctx_at)
  obtain ⟨kcp', hk', rfl⟩ := hclient.sound.map_kcp c k hmap
  obtain rfl : kcp = kcp' := Option.some.inj (hk.symm.trans hk')
  obtain rfl := Option.some.inj ((Client.step_tick hclient w.tick hlive ht).2.symm.trans htick.2)
  have hexchange := exchange_outcome hclient hlive hmap ht hgone hw hout hd
  have hsturdy := Client.sturdy_inductive.step _ _ _
    (Client.sturdy_inductive.step _ _ _ hclient htick) (step_afterFin (w := w) hlive hmap)
  exact ⟨_, hexchange, fun j'' h ↦ hexchange.unique h,
    replaced_outcome hserver.sound hsturdy hlive hmap hunused hunused' hw⟩

/-- A client that has one message to send, at a server that was told the session is over. -/
theorem session_replaced_after_fin : ∃ j j' : Joint,
    Replaced ⟨.inet 0 1, .inet 0 2, {}, {}, {}, {}, {}⟩ 1001 0 1002 j j' := by
  -- the server: a SYN, then a FIN for the session it opened
  have hopened := Server.reachable_synAnswered (.init rfl) (.inet 0 1) 0
  have hfresh : ({} : Proc).sConv + 1 ∉ ({} : Proc).kcpMap := AList.notMem_empty _
  have hended := (Server.reachable_ended hopened Server.live_synAnswered
    (Server.lookup_synAnswered hfresh)).of_restrict
  set s := ((Server.synAnswered {} (.inet 0 1) 0).uses [.entry 1001, .kcp 1]).ended 1001 0
    (({} : Proc).openCtx (.inet 0 1)) 1
  have hmap_s : s.kcpMap = ((∅ : AList fun _ : UInt32 ↦ Ptr).insert 1001 1).erase 1001 := by
    change (Server.synAnswered {} (.inet 0 1) 0).kcpMap.erase 1001 = _
    rw [Server.kcpMap_synAnswered hfresh]
    rfl
  have hempty : ∀ c, c ∉ s.kcpMap := by
    intro c hc
    rw [hmap_s, AList.mem_erase, AList.mem_insert] at hc
    exact hc.2.elim hc.1 (AList.notMem_empty c)
  -- the client: its session has been given a message
  obtain ⟨ctx, hlive, hsend⟩ := Client.live_connected
  obtain ⟨st, hst⟩ := Option.ne_none_iff_exists'.mp hsend
  obtain ⟨t, ht⟩ := Option.ne_none_iff_exists'.mp hlive.timed
  have hreach := Lts.Reachable.step Client.reachable_connected.of_restrict
    (Client.step_send {} hlive hst)
  have hlive' := (hlive.uses [.ctx 0, .kcp 1]).used_self
    (.of_evolves ctx (sendMessages_evolves 1 (configuredKcp 1001 0)))
  have hmap : Client.connected.proc.kcpMap.lookup 1001 = some 1 := by
    rw [Client.kcpMap_connected]
    exact AList.lookup_insert _
  have hunused : (1002 : UInt32) ∉ Client.connected.proc.kcpMap := by
    rw [Client.kcpMap_connected, AList.mem_insert]
    exact fun h ↦ h.elim (by decide) (AList.notMem_empty _)
  have hd : ⟨none, ((ikcpUpdate (sendMessages 1 (configuredKcp 1001 0)) 0).2).headD []⟩ ∈
      (ikcpUpdate (sendMessages 1 (configuredKcp 1001 0)) 0).2.map (Packet.mk none) :=
    List.mem_map_of_mem (by decide)
  obtain ⟨j', -, -, hreplaced⟩ := @session_replaced ⟨_, _⟩ (Joint.reachable_of_sides hended hreach)
    1001 1 t ctx _ hmap hlive'.kcp_at hlive'.ctx_at ht (hempty 1001) (hempty 1002) hunused
    ⟨.inet 0 1, .inet 0 2, {}, {}, {}, {}, {}⟩ ⟨⟨rfl, rfl, rfl⟩, rfl, rfl, rfl⟩ _
    (Client.step_tick (Client.sturdy_inductive.reachable hreach) {} hlive' ht) _ _ rfl hd
  exact ⟨_, j', hreplaced⟩

end KcpEcho
