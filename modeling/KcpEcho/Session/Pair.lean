import KcpEcho.Process.Handlers
import KcpEcho.Session.Endpoint

/-!
# A client and a server sharing one session

The system the window and echo theorems are about: the client's and the server's control block of
one conversation, and a network between them. The client calls `ikcp_send`; the update timer of
either side ticks at any clock value; and any datagram ever emitted may be delivered, at any time
and any number of times, or never. Each side handles a delivery as its `udp_recv_cb` does.

Datagrams carry, as ghost data, how many sequence numbers the two ends had assigned when they left.
A delivery is in time when neither end has assigned `2 ^ 29` numbers or more since.

The invariant is that the two blocks represent the two ends of the same pair of streams, and that
every datagram in the network says true things about these. It is proved once, in `Pair.inductive`.
-/

namespace KcpEcho

open SelectiveRepeat

/-! ## The system -/

/-- A datagram in the network. -/
structure Flight where
  bytes : List UInt8
  /-- The numbers the client had assigned when it left. -/
  clientSeq : ℕ
  /-- The numbers the server had assigned when it left. -/
  serverSeq : ℕ
  deriving DecidableEq, Repr

/-- The state of a session: the two control blocks, the network, and what has gone in and out. -/
structure Pair where
  client : Ikcpcb
  server : Ikcpcb
  /-- All datagrams ever sent to the server. -/
  toServer : List Flight := []
  /-- All datagrams ever sent to the client. -/
  toClient : List Flight := []
  /-- The numbers the client has assigned. -/
  clientSeq : ℕ := 0
  /-- The numbers the server has assigned. -/
  serverSeq : ℕ := 0
  /-- The bytes the client has passed to `ikcp_send`. -/
  clientPassed : List UInt8 := []
  /-- The bytes `ikcp_send` has taken: of each call as many as it returned, none on an error. -/
  clientAccepted : List UInt8 := []
  /-- The bytes the server has taken out with `ikcp_recv`. -/
  serverTaken : List UInt8 := []
  /-- The bytes the server has passed to `ikcp_send`. -/
  serverPassed : List UInt8 := []
  /-- The bytes the client has taken out with `ikcp_recv`. -/
  clientTaken : List UInt8 := []

inductive PairEvent
  /-- The client calls `ikcp_send`. -/
  | send (buffer : List UInt8)
  /-- The client's update timer fires. -/
  | clientTick (current : UInt32)
  /-- The server's update timer fires. -/
  | serverTick (current : UInt32)
  /-- The server receives a datagram. -/
  | serverRecv (f : Flight)
  /-- The client receives a datagram. -/
  | clientRecv (f : Flight)

/-- The sequence numbers an update has assigned: one for each segment that left `snd_queue`. -/
def assigned (kcp kcp' : Ikcpcb) : ℕ := kcp.sndQueue.length - kcp'.sndQueue.length

namespace Pair

/-- Two fresh contexts of one conversation. -/
def start (conv : UInt32) (clientUser serverUser : Ptr) : Pair where
  client := configuredKcp conv clientUser
  server := configuredKcp conv serverUser

def send (s : Pair) (buffer : List UInt8) : Pair :=
  let (kcp, n) := ikcpSend s.client buffer
  { s with
    client := kcp
    clientPassed := s.clientPassed ++ buffer
    clientAccepted := s.clientAccepted ++ buffer.take n.toNat }

/-- `UpdateTimerCb` of the client. -/
def clientTick (s : Pair) (current : UInt32) : Pair :=
  let (kcp, out) := ikcpUpdate s.client current
  let seq := s.clientSeq + assigned s.client kcp
  { s with
    client := kcp
    clientSeq := seq
    toServer := s.toServer ++ out.map fun d ↦ ⟨d, seq, s.serverSeq⟩ }

/-- `UpdateTimerCb` of the server. -/
def serverTick (s : Pair) (current : UInt32) : Pair :=
  let (kcp, out) := ikcpUpdate s.server current
  let seq := s.serverSeq + assigned s.server kcp
  { s with
    server := kcp
    serverSeq := seq
    toClient := s.toClient ++ out.map fun d ↦ ⟨d, s.clientSeq, seq⟩ }

/-- The KCP branch of the server's `udp_recv_cb`. -/
def serverRecv (s : Pair) (f : Flight) : Pair :=
  let (kcp, log) := echo (ikcpInput s.server f.bytes).1
  { s with
    server := kcp
    serverTaken := s.serverTaken ++ log.taken
    serverPassed := s.serverPassed ++ log.passed }

/-- The KCP branch of the client's `udp_recv_cb`. -/
def clientRecv (s : Pair) (f : Flight) : Pair :=
  let (kcp, taken) := drain (ikcpInput s.client f.bytes).1
  { s with client := kcp, clientTaken := s.clientTaken ++ taken }

def after (s : Pair) : PairEvent → Pair
  | .send buffer => s.send buffer
  | .clientTick current => s.clientTick current
  | .serverTick current => s.serverTick current
  | .serverRecv f => s.serverRecv f
  | .clientRecv f => s.clientRecv f

/-- Neither end has assigned `2 ^ 29` numbers or more since the datagram left. -/
def InTime (s : Pair) (f : Flight) : Prop :=
  s.clientSeq < f.clientSeq + 2 ^ 29 ∧ s.serverSeq < f.serverSeq + 2 ^ 29

/-- The network delivers what was sent, in time, and the receiver is not torn down by it. -/
def Enabled (s : Pair) : PairEvent → Prop
  | .send _ | .clientTick _ | .serverTick _ => True
  | .serverRecv f => f ∈ s.toServer ∧ s.InTime f ∧ 0 ≤ (ikcpInput s.server f.bytes).2
  | .clientRecv f => f ∈ s.toClient ∧ s.InTime f ∧ 0 ≤ (ikcpInput s.client f.bytes).2

end Pair

/-- A session of conversation `conv` between two contexts. -/
def pair (conv : UInt32) (clientUser serverUser : Ptr) : Lts Pair PairEvent where
  init s := s = Pair.start conv clientUser serverUser
  step s e s' := s.Enabled e ∧ s' = s.after e

/-! ## The steps are the handlers

Each step does to the control blocks, and to what is sent, what the handler of the program does. -/

section Handlers

open Proc

variable {s : Pair} {f : Flight} {env : Env} {addr : SockAddr} {conv : UInt32} {x k t : Ptr}
  {ctx : KcpContext}

theorem Server.recvKcp_serverRecv {p : Proc} (hc : p.kcpMap.lookup conv = some k)
    (h : Live p x ctx k s.server) (hok : 0 ≤ (ikcpInput s.server f.bytes).2) :
    ∃ p', Server.recvKcp env addr conv f.bytes p = some p' ∧
      p'.kcps k = some (s.serverRecv f).server :=
  ⟨_, Server.recvKcp_of_accepted hc h hok, Function.update_self _ _ _⟩

theorem Client.recvKcp_clientRecv {c : Client} (hc : c.proc.kcpMap.lookup conv = some k)
    (h : Live c.proc x ctx k s.client) (hok : 0 ≤ (ikcpInput s.client f.bytes).2) :
    ∃ c', Client.recvKcp env addr conv f.bytes c = some c' ∧
      c'.proc.kcps k = some (s.clientRecv f).client :=
  ⟨_, Client.recvKcp_of_accepted hc h hok, Function.update_self _ _ _⟩

/-- What the server hands to the network on a tick is what the step puts there. -/
theorem updateTimerCb_serverTick {p : Proc} (h : Live p x ctx k s.server)
    (ht : p.timers.lookup t = some ⟨.updateTimerCb, x⟩) (hidle : isTimeout env ctx = false) :
    ∃ p' flights, updateTimerCb Server.kcpOutput env p t = some p' ∧
      p'.kcps k = some (s.serverTick env.now32).server ∧
      (s.serverTick env.now32).toClient = s.toClient ++ flights ∧
      p'.outbox = p.outbox ++ flights.map fun f ↦ ⟨Server.kcpOutput ctx, f.bytes⟩ := by
  rw [updateTimerCb_eq h ht, hidle]
  refine ⟨_, _, rfl, Function.update_self _ _ _, rfl, ?_⟩
  rw [List.map_map]
  rfl

theorem updateTimerCb_clientTick {p : Proc} (h : Live p x ctx k s.client)
    (ht : p.timers.lookup t = some ⟨.updateTimerCb, x⟩) (hidle : isTimeout env ctx = false) :
    ∃ p' flights, updateTimerCb Client.kcpOutput env p t = some p' ∧
      p'.kcps k = some (s.clientTick env.now32).client ∧
      (s.clientTick env.now32).toServer = s.toServer ++ flights ∧
      p'.outbox = p.outbox ++ flights.map fun f ↦ ⟨Client.kcpOutput ctx, f.bytes⟩ := by
  rw [updateTimerCb_eq h ht, hidle]
  refine ⟨_, _, rfl, Function.update_self _ _ _, rfl, ?_⟩
  rw [List.map_map]
  rfl

/-- The loop of `SendTimerCb` is a run of sends. -/
theorem sendMessages_send (n : ℕ) (s : Pair) :
    sendMessages n s.client = ((fun s ↦ s.send [49, 50, 51, 52, 53, 54, 55, 56])^[n] s).client := by
  induction n generalizing s with
  | zero => rfl
  | succ n ih => exact ih (s.send [49, 50, 51, 52, 53, 54, 55, 56])

end Handlers

/-! ## The two ends

What one end does, seen from that end: it sends `out` and receives `inn`. The client and the server
run the same lemmas with the two streams exchanged. -/

/-- Two blocks that are the two ends of the streams `out` and `inn`, as they are between handlers:
neither has a receive queue left to hand out. -/
structure Ends (conv : UInt32) (user user' : Ptr) (kcp kcp' : Ikcpcb) (out inn : Stream)
    (written taken written' taken' : List UInt8) : Prop where
  out_sound : out.Sound
  inn_sound : inn.Sound
  near : Endpoint conv user kcp out inn written taken
  far : Endpoint conv user' kcp' inn out written' taken'
  near_idle : kcp.rcvQueue = []
  far_idle : kcp'.rcvQueue = []

namespace Ends

variable {conv : UInt32} {user user' : Ptr} {kcp kcp' : Ikcpcb} {out inn : Stream}
  {written taken written' taken' : List UInt8}

theorem symm (h : Ends conv user user' kcp kcp' out inn written taken written' taken') :
    Ends conv user' user kcp' kcp inn out written' taken' written taken :=
  ⟨h.inn_sound, h.out_sound, h.far, h.near, h.far_idle, h.near_idle⟩

/-- An update of one end extends both streams, its own by the numbers assigned. What it emits says
true things about the streams as they are now. -/
theorem ikcpUpdate (h : Ends conv user user' kcp kcp' out inn written taken written' taken')
    {outSeq innSeq : ℕ} (houtSeq : outSeq = out.sent.length) (hinnSeq : innSeq = inn.sent.length)
    (current : UInt32) :
    ∃ out' inn' : Stream, out.Extends out' ∧ inn.Extends inn' ∧
      Ends conv user user' (ikcpUpdate kcp current).1 kcp' out' inn' written taken written' taken' ∧
      outSeq + assigned kcp (ikcpUpdate kcp current).1 = out'.sent.length ∧
      innSeq = inn'.sent.length ∧
      ∀ d ∈ (ikcpUpdate kcp current).2, Chunk (Says conv out' inn'
        (outSeq + assigned kcp (ikcpUpdate kcp current).1) innSeq) 1400 d := by
  obtain ⟨ds, granted, hout, hinn, hgranted, hnear, hlen, hidle, hsaid⟩ :=
    h.near.ikcpUpdate h.out_sound h.inn_sound current
  have hends := Ends.mk hout hinn hnear (h.far.peer_update h.out_sound granted ds)
    (hidle.trans h.near_idle) h.far_idle
  have hseq : outSeq + assigned kcp (KcpEcho.ikcpUpdate kcp current).1
      = (out.sent ++ ds).length := by
    rw [List.length_append, assigned, houtSeq]
    omega
  rw [← hseq, ← hinnSeq] at hsaid
  exact ⟨{ out with sent := out.sent ++ ds }, { inn with granted := granted },
    ⟨List.prefix_append _ _, subset_rfl⟩, ⟨List.prefix_refl _, hgranted⟩, hends, hseq, hinnSeq,
    hsaid⟩

/-- A datagram moves the windows of both streams, and what the receive loop leaves behind is an end
of these. -/
theorem received (h : Ends conv user user' kcp kcp' out inn written taken written' taken')
    {acked got : Set ℕ} {kcp₁ : Ikcpcb} {written₁ taken₁ : List UInt8}
    (hout : Stream.Sound { out with acked := acked }) (hinn : Stream.Sound { inn with got := got })
    (hnear : Endpoint conv user kcp₁ { out with acked := acked } { inn with got := got } written₁
      taken₁) (hidle : kcp₁.rcvQueue = []) :
    Ends conv user user' kcp₁ kcp' { out with acked := acked } { inn with got := got } written₁
      taken₁ written' taken' :=
  ⟨hout, hinn, hnear, h.far.peer_input h.far_idle got hout, hidle, h.far_idle⟩

end Ends

/-! ## The invariant -/

/-- The two blocks are the ends of the streams `up` (client to server) and `down`, and the network
holds only datagrams that say true things about these. -/
structure Pair.Represents (conv : UInt32) (clientUser serverUser : Ptr) (s : Pair)
    (up down : Stream) : Prop where
  up_sound : up.Sound
  down_sound : down.Sound
  client : Endpoint conv clientUser s.client up down s.clientAccepted s.clientTaken
  server : Endpoint conv serverUser s.server down up s.serverPassed s.serverTaken
  client_idle : s.client.rcvQueue = []
  server_idle : s.server.rcvQueue = []
  clientSeq : s.clientSeq = up.sent.length
  serverSeq : s.serverSeq = down.sent.length
  echoed : s.serverPassed = s.serverTaken
  toServer : ∀ f ∈ s.toServer, Chunk (Says conv up down f.clientSeq f.serverSeq) 1400 f.bytes
  toClient : ∀ f ∈ s.toClient, Chunk (Says conv down up f.serverSeq f.clientSeq) 1400 f.bytes

namespace Pair

variable {conv : UInt32} {clientUser serverUser : Ptr} {s : Pair} {up down : Stream}

namespace Represents

theorem ends (h : s.Represents conv clientUser serverUser up down) :
    Ends conv clientUser serverUser s.client s.server up down s.clientAccepted s.clientTaken
      s.serverPassed s.serverTaken :=
  ⟨h.up_sound, h.down_sound, h.client, h.server, h.client_idle, h.server_idle⟩

/-- What a step has to show: the ends are again the ends of two streams, which extend the old ones,
and what is new in the network says true things about these. -/
theorem extend {s' : Pair} {up' down' : Stream}
    (h : s.Represents conv clientUser serverUser up down)
    (hends : Ends conv clientUser serverUser s'.client s'.server up' down' s'.clientAccepted
      s'.clientTaken s'.serverPassed s'.serverTaken)
    (hup : up.Extends up') (hdown : down.Extends down')
    (hclientSeq : s'.clientSeq = up'.sent.length) (hserverSeq : s'.serverSeq = down'.sent.length)
    (hechoed : s'.serverPassed = s'.serverTaken)
    (htoServer : ∀ f ∈ s'.toServer, f ∈ s.toServer ∨
      Chunk (Says conv up' down' f.clientSeq f.serverSeq) 1400 f.bytes)
    (htoClient : ∀ f ∈ s'.toClient, f ∈ s.toClient ∨
      Chunk (Says conv down' up' f.serverSeq f.clientSeq) 1400 f.bytes) :
    s'.Represents conv clientUser serverUser up' down' where
  up_sound := hends.out_sound
  down_sound := hends.inn_sound
  client := hends.near
  server := hends.far
  client_idle := hends.near_idle
  server_idle := hends.far_idle
  clientSeq := hclientSeq
  serverSeq := hserverSeq
  echoed := hechoed
  toServer := by
    intro f hf
    rcases htoServer f hf with hold | hnew
    · exact (h.toServer f hold).mono fun _ hsaid ↦ hsaid.mono hup hdown
    · exact hnew
  toClient := by
    intro f hf
    rcases htoClient f hf with hold | hnew
    · exact (h.toClient f hold).mono fun _ hsaid ↦ hsaid.mono hdown hup
    · exact hnew

theorem start (conv : UInt32) (clientUser serverUser : Ptr) :
    Represents conv clientUser serverUser (start conv clientUser serverUser) Link.empty
      Link.empty where
  up_sound := ⟨.empty, fun _ hd ↦ absurd hd List.not_mem_nil⟩
  down_sound := ⟨.empty, fun _ hd ↦ absurd hd List.not_mem_nil⟩
  client := .init conv clientUser
  server := .init conv serverUser
  client_idle := rfl
  server_idle := rfl
  clientSeq := rfl
  serverSeq := rfl
  echoed := rfl
  toServer _ hf := absurd hf List.not_mem_nil
  toClient _ hf := absurd hf List.not_mem_nil

theorem send (h : s.Represents conv clientUser serverUser up down) (buffer : List UInt8) :
    (s.send buffer).Represents conv clientUser serverUser up down :=
  { h with
    client := h.client.ikcpSend buffer
    client_idle :=
      (congrArg RecvSide.queue (ikcpSend_frame s.client buffer).2).trans h.client_idle }

theorem clientTick (h : s.Represents conv clientUser serverUser up down) (current : UInt32) :
    ∃ up' down', (s.clientTick current).Represents conv clientUser serverUser up' down' := by
  obtain ⟨up', down', hup, hdown, hends, hclientSeq, hserverSeq, hsaid⟩ :=
    h.ends.ikcpUpdate h.clientSeq h.serverSeq current
  refine ⟨up', down', h.extend hends hup hdown hclientSeq hserverSeq h.echoed ?_
    fun f hf ↦ .inl hf⟩
  intro f hf
  rcases List.mem_append.mp hf with hold | hnew
  · exact .inl hold
  · obtain ⟨d, hd, rfl⟩ := List.mem_map.mp hnew
    exact .inr (hsaid d hd)

theorem serverTick (h : s.Represents conv clientUser serverUser up down) (current : UInt32) :
    ∃ up' down', (s.serverTick current).Represents conv clientUser serverUser up' down' := by
  obtain ⟨down', up', hdown, hup, hends, hserverSeq, hclientSeq, hsaid⟩ :=
    h.ends.symm.ikcpUpdate h.serverSeq h.clientSeq current
  refine ⟨up', down', h.extend hends.symm hup hdown hclientSeq hserverSeq h.echoed
    (fun f hf ↦ .inl hf) ?_⟩
  intro f hf
  rcases List.mem_append.mp hf with hold | hnew
  · exact .inl hold
  · obtain ⟨d, hd, rfl⟩ := List.mem_map.mp hnew
    exact .inr (hsaid d hd)

/-! ### Deliveries -/

/-- A datagram that reaches the server in time is accepted whole. -/
theorem serverInput (h : s.Represents conv clientUser serverUser up down) {f : Flight}
    (hf : f ∈ s.toServer) (htime : s.InTime f) :
    (ikcpInput s.server f.bytes).2 = 0 ∧ pushRejected s.server f.bytes = false ∧
      ∃ acked got : Set ℕ, Stream.Sound { down with acked := acked } ∧
        Stream.Sound { up with got := got } ∧
        Endpoint conv serverUser (ikcpInput s.server f.bytes).1 { down with acked := acked }
          { up with got := got } s.serverPassed s.serverTaken := by
  obtain ⟨hclient, hserver⟩ := htime
  rw [h.clientSeq] at hclient
  rw [h.serverSeq] at hserver
  exact h.server.ikcpInput h.down_sound h.up_sound (h.toServer f hf) hserver hclient

theorem clientInput (h : s.Represents conv clientUser serverUser up down) {f : Flight}
    (hf : f ∈ s.toClient) (htime : s.InTime f) :
    (ikcpInput s.client f.bytes).2 = 0 ∧ pushRejected s.client f.bytes = false ∧
      ∃ acked got : Set ℕ, Stream.Sound { up with acked := acked } ∧
        Stream.Sound { down with got := got } ∧
        Endpoint conv clientUser (ikcpInput s.client f.bytes).1 { up with acked := acked }
          { down with got := got } s.clientAccepted s.clientTaken := by
  obtain ⟨hclient, hserver⟩ := htime
  rw [h.clientSeq] at hclient
  rw [h.serverSeq] at hserver
  exact h.client.ikcpInput h.up_sound h.down_sound (h.toClient f hf) hclient hserver

/-- Neither stream grows by a delivery: numbers are only dropped and stored. -/
theorem extends_received (l : Stream) (acked got : Set ℕ) :
    l.Extends { l with acked := acked } ∧ l.Extends { l with got := got } :=
  ⟨⟨List.prefix_refl _, subset_rfl⟩, ⟨List.prefix_refl _, subset_rfl⟩⟩

theorem serverRecv (h : s.Represents conv clientUser serverUser up down) {f : Flight}
    (hf : f ∈ s.toServer) (htime : s.InTime f) :
    ∃ up' down', (s.serverRecv f).Represents conv clientUser serverUser up' down' := by
  obtain ⟨-, -, acked, got, hdown, hup, hinput⟩ := h.serverInput hf htime
  obtain ⟨more, hlog, hserver, hidle⟩ := hinput.echoLoop hup
    (Nat.lt_succ_of_le (Nat.le_add_right _ _)) {}
  have hlog : (echo (ikcpInput s.server f.bytes).1).2 = ⟨more, more⟩ := hlog
  rw [Pair.serverRecv]
  dsimp only
  rw [hlog]
  exact ⟨_, _, h.extend (h.ends.symm.received hdown hup hserver hidle).symm
    (extends_received up acked got).2 (extends_received down acked got).1 h.clientSeq h.serverSeq
    (congrArg (· ++ more) h.echoed) (fun _ hf ↦ .inl hf) fun _ hf ↦ .inl hf⟩

theorem clientRecv (h : s.Represents conv clientUser serverUser up down) {f : Flight}
    (hf : f ∈ s.toClient) (htime : s.InTime f) :
    ∃ up' down', (s.clientRecv f).Represents conv clientUser serverUser up' down' := by
  obtain ⟨-, -, acked, got, hup, hdown, hinput⟩ := h.clientInput hf htime
  obtain ⟨more, hlog, hclient, hidle⟩ := hinput.drainLoop hdown
    (Nat.lt_succ_of_le (Nat.le_add_right _ _)) []
  have hlog : (drain (ikcpInput s.client f.bytes).1).2 = more := hlog
  rw [Pair.clientRecv]
  dsimp only
  rw [hlog]
  exact ⟨_, _, h.extend (h.ends.received hup hdown hclient hidle)
    (extends_received up acked got).1 (extends_received down acked got).2 h.clientSeq h.serverSeq
    h.echoed (fun _ hf ↦ .inl hf) fun _ hf ↦ .inl hf⟩

end Represents

/-- **The invariant of a session.** -/
theorem inductive_represents (conv : UInt32) (clientUser serverUser : Ptr) :
    (pair conv clientUser serverUser).Inductive fun s ↦
      ∃ up down, s.Represents conv clientUser serverUser up down where
  init s hs := by
    obtain rfl : s = Pair.start conv clientUser serverUser := hs
    exact ⟨_, _, .start conv clientUser serverUser⟩
  step s e s' := by
    rintro ⟨up, down, h⟩ ⟨henabled, rfl⟩
    cases e with
    | send buffer => exact ⟨up, down, h.send buffer⟩
    | clientTick current => exact h.clientTick current
    | serverTick current => exact h.serverTick current
    | serverRecv f => exact h.serverRecv henabled.1 henabled.2.1
    | clientRecv f => exact h.clientRecv henabled.1 henabled.2.1

/-! ## A run

One byte there and back, each datagram delivered once. -/

/-- The client has sent the byte. -/
def byteSent : Pair := ((start 1001 0 1).send [7]).clientTick 0

/-- The datagram with the byte. -/
def byteFlight : Flight := byteSent.toServer.headD ⟨[], 0, 0⟩

/-- The server has echoed it. -/
def byteEchoed : Pair := (byteSent.serverRecv byteFlight).serverTick 0

/-- The datagram with the acknowledgement and the echo. -/
def echoFlight : Flight := byteEchoed.toClient.headD ⟨[], 0, 0⟩

/-- The client has taken the echo out. -/
def byteBack : Pair := byteEchoed.clientRecv echoFlight

theorem enabled_byteFlight : byteSent.Enabled (.serverRecv byteFlight) :=
  ⟨by decide, ⟨by decide, by decide⟩, by decide⟩

theorem enabled_echoFlight : byteEchoed.Enabled (.clientRecv echoFlight) :=
  ⟨by decide, ⟨by decide, by decide⟩, by decide⟩

theorem reachable_after {C : Pair → PairEvent → Prop}
    (hs : ((pair conv clientUser serverUser).restrict C).Reachable s) (e : PairEvent)
    (henabled : s.Enabled e) (hC : C s e) :
    ((pair conv clientUser serverUser).restrict C).Reachable (s.after e) :=
  .step hs ⟨⟨henabled, rfl⟩, hC⟩

/-- The run is one of any restriction that allows its five steps. -/
theorem reachable_byteBack {C : Pair → PairEvent → Prop}
    (hsend : C (start 1001 0 1) (.send [7])) (hrest : ∀ s e, (∀ buffer, e ≠ .send buffer) → C s e) :
    ((pair 1001 0 1).restrict C).Reachable byteBack := by
  have h₁ := reachable_after (@Lts.Reachable.init _ _ ((pair 1001 0 1).restrict C) _ rfl)
    (.send [7]) trivial hsend
  have h₂ := reachable_after h₁ (.clientTick 0) trivial (hrest _ _ fun _ ↦ nofun)
  have h₃ := reachable_after h₂ (.serverRecv byteFlight) enabled_byteFlight
    (hrest _ _ fun _ ↦ nofun)
  have h₄ := reachable_after h₃ (.serverTick 0) trivial (hrest _ _ fun _ ↦ nofun)
  exact reachable_after h₄ (.clientRecv echoFlight) enabled_echoFlight (hrest _ _ fun _ ↦ nofun)

end Pair
end KcpEcho
