import KcpEcho.Base.Ranking
import KcpEcho.Network.Answers
import KcpEcho.Table.ServerTable
import Mathlib.Algebra.BigOperators.Group.Multiset.Basic
import Mathlib.Algebra.Order.BigOperators.Group.Multiset

/-!
# No message storm

Both programs answer datagrams with datagrams, and neither checks who is asking. The server, any
number of clients and whatever is in flight between them form a system in which every delivery
takes one datagram out and may put its answer in. No timer fires.

## The rank

A datagram is worth the deliveries it can cause, itself included. An ACK is worth one; a SYN at the
server is worth two, since an ACK answers it; a FIN at a client three, since a SYN answers it; and
a KCP datagram four, since a FIN may answer it. Everything else is worth one. A delivery replaces a
datagram by an answer that is worth less, so the total falls with every delivery.
-/

namespace KcpEcho

open Proc

/-! ## The system -/

/-- Who gets a datagram. -/
inductive Party (ι : Type*)
  | server
  | client (i : ι)
  /-- Neither the server nor a client is at its address. -/
  | nobody

/-- A datagram in flight. Nothing is known about its bytes, and its source may be forged. -/
structure Datagram (ι : Type*) where
  dst : Party ι
  src : SockAddr
  bytes : List UInt8

/-- Where the parties are, and who gets what is sent to an address. -/
structure Layout (ι : Type*) where
  server : SockAddr
  client : ι → SockAddr
  party : SockAddr → Party ι

/-- What a socket at `src` puts on the network. A client's socket is connected to the server. -/
def Layout.outgoing {ι : Type*} (L : Layout ι) (src : SockAddr) (out : List Packet) :
    Multiset (Datagram ι) :=
  (out.map fun pkt ↦ (⟨pkt.dest.elim .server L.party, src, pkt.bytes⟩ : Datagram ι) :)

/-- The server, the clients, and the datagrams in flight. -/
structure Storm (ι : Type*) where
  server : Proc
  clients : ι → Client
  flight : Multiset (Datagram ι)

namespace Storm

variable {ι : Type*}

/-- A delivery: the datagram, and what the outside decides while it is handled. -/
structure Delivery (ι : Type*) where
  env : Env
  datagram : Datagram ι

/-- Deliveries in any order, from any state on. What a handler sends is in flight from then on, less
what `uv_udp_send` fails to send. -/
def lts [DecidableEq ι] (L : Layout ι) : Lts (Storm ι) (Delivery ι) where
  init _ := True
  step s e s' := e.env.AllocOk ∧ ∃ rest, s.flight = e.datagram ::ₘ rest ∧
    match e.datagram.dst with
    | .server => ∃ server out new,
        Server.udpRecvCb e.env e.datagram.src e.datagram.bytes s.server = some server ∧
          server.outbox = s.server.outbox ++ out ∧ new ≤ L.outgoing L.server out ∧
          s' = { s with server := server, flight := rest + new }
    | .client i => ∃ client out new,
        Client.udpRecvCb e.env e.datagram.src e.datagram.bytes (s.clients i) = some client ∧
          client.proc.outbox = (s.clients i).proc.outbox ++ out ∧
          new ≤ L.outgoing (L.client i) out ∧
          s' = { s with clients := Function.update s.clients i client, flight := rest + new }
    | .nobody => s' = { s with flight := rest }

end Storm

/-! ## What a datagram is worth -/

section Worth

variable {ι : Type*}

/-- The deliveries a datagram of some kind can cause, itself included, when this party gets it. -/
def Party.worth : Party ι → DatagramKind → ℕ
  | .server, .syn _ => 2
  | .server, .kcp _ => 4
  | .client _, .fin _ => 3
  | .client _, .kcp _ => 4
  | _, _ => 1

def Datagram.worth (d : Datagram ι) : ℕ := d.dst.worth (classify d.bytes)

/-- What a number of datagrams is worth. -/
def worth (flight : Multiset (Datagram ι)) : ℕ := (flight.map Datagram.worth).sum

theorem Party.worth_pos (dst : Party ι) (kind : DatagramKind) : 0 < dst.worth kind := by
  cases dst <;> cases kind <;> simp [worth]

theorem Party.worth_le (dst : Party ι) (kind : DatagramKind) : dst.worth kind ≤ 4 := by
  cases dst <;> cases kind <;> simp [worth]

/-- A FIN is worth most at a client. -/
theorem Party.worth_fin_le (dst : Party ι) (conv : UInt32) : dst.worth (.fin conv) ≤ 3 := by
  cases dst <;> simp [worth]

theorem Party.worth_ack (dst : Party ι) (a : UInt32) : dst.worth (.ack a) = 1 := by
  cases dst <;> rfl

@[simp] theorem worth_zero : worth (0 : Multiset (Datagram ι)) = 0 := rfl

@[simp] theorem worth_cons (d : Datagram ι) (flight : Multiset (Datagram ι)) :
    worth (d ::ₘ flight) = d.worth + worth flight := by
  rw [worth, Multiset.map_cons, Multiset.sum_cons, worth]

@[simp] theorem worth_add (flight flight' : Multiset (Datagram ι)) :
    worth (flight + flight') = worth flight + worth flight' := by
  rw [worth, Multiset.map_add, Multiset.sum_add, worth, worth]

theorem worth_mono {flight flight' : Multiset (Datagram ι)} (h : flight ≤ flight') :
    worth flight ≤ worth flight' := by
  obtain ⟨more, rfl⟩ := Multiset.le_iff_exists_add.mp h
  rw [worth_add]
  exact Nat.le_add_right _ _

theorem worth_le_card (flight : Multiset (Datagram ι)) : worth flight ≤ 4 * flight.card := by
  have hle := Multiset.sum_le_card_nsmul (flight.map Datagram.worth) 4 (fun n hn ↦ by
    obtain ⟨d, -, rfl⟩ := Multiset.mem_map.mp hn
    exact d.dst.worth_le _)
  rw [Multiset.card_map] at hle
  exact hle.trans_eq (Nat.mul_comm _ _)

/-! ### Answers are worth less -/

theorem worth_outgoing_singleton (L : Layout ι) (src : SockAddr) (dest : Option SockAddr)
    (cmd : UInt8) (conv : UInt32) : worth (L.outgoing src [⟨dest, udpPacket cmd conv⟩]) =
      (dest.elim .server L.party).worth (classify (udpPacket cmd conv)) := Multiset.sum_singleton _

/-- Whatever the server answers is worth less than what it answers. -/
theorem worth_server_answer (L : Layout ι) (src : SockAddr) {addr : SockAddr} {kind : DatagramKind}
    {out : List Packet} (h : Server.Answer addr kind out) :
    worth (L.outgoing src out) < (.server : Party ι).worth kind := by
  cases h with
  | nothing => exact Party.worth_pos _ _
  | ack key conv =>
    rw [worth_outgoing_singleton, classify_ack, Party.worth_ack]
    exact Nat.lt_succ_self 1
  | fin conv conv' =>
    rw [worth_outgoing_singleton, classify_fin]
    exact Nat.lt_succ_of_le (Party.worth_fin_le _ _)

/-- So is whatever a client answers. -/
theorem worth_client_answer (L : Layout ι) (src : SockAddr) (i : ι) {addr : SockAddr}
    {kind : DatagramKind} {out : List Packet} (h : Client.Answer addr kind out) :
    worth (L.outgoing src out) < (Party.client i).worth kind := by
  cases h with
  | nothing => exact Party.worth_pos _ _
  | syn conv key =>
    rw [worth_outgoing_singleton, classify_syn]
    exact Nat.lt_succ_self 2
  | fin conv conv' =>
    rw [worth_outgoing_singleton, classify_fin]
    exact Nat.lt_succ_of_le (Party.worth_fin_le _ _)

end Worth

namespace Storm

variable {ι : Type*} [DecidableEq ι] {L : Layout ι} {s s' : Storm ι}

theorem lowers_worth : (lts L).Lowers fun s ↦ worth s.flight := by
  rintro s ⟨env, dst, src, bytes⟩ s' ⟨hok, rest, hflight, hstep⟩
  have hcreate : env.CreateOk := ⟨hok.1, hok.2.1⟩
  dsimp only
  rw [hflight, worth_cons]
  cases dst with
  | server =>
    obtain ⟨server, out, new, hrun, hout, hnew, rfl⟩ := hstep
    obtain ⟨out', hout', hanswer⟩ := Server.answer hcreate hrun
    obtain rfl : out = out' := List.append_cancel_left (hout.symm.trans hout')
    have hlt : _ < Datagram.worth ⟨.server, src, bytes⟩ := worth_server_answer L L.server hanswer
    have hle := worth_mono hnew
    dsimp only
    rw [worth_add]
    omega
  | client i =>
    obtain ⟨client, out, new, hrun, hout, hnew, rfl⟩ := hstep
    obtain ⟨out', hout', hanswer⟩ := Client.answer hcreate hrun
    obtain rfl : out = out' := List.append_cancel_left (hout.symm.trans hout')
    have hlt : _ < Datagram.worth ⟨.client i, src, bytes⟩ :=
      worth_client_answer L (L.client i) i hanswer
    have hle := worth_mono hnew
    dsimp only
    rw [worth_add]
    omega
  | nobody =>
    obtain rfl := hstep
    exact Nat.lt_add_of_pos_left (Party.worth_pos _ _)

end Storm

/-! ## Deliveries never get stuck

A handler that finds its memory sound gets to its end and leaves it sound. -/

theorem Server.exists_recv {p : Proc} (hp : Sound p) {env : Env} (hok : env.CreateOk)
    (addr : SockAddr) (data : List UInt8) :
    ∃ p', Server.udpRecvCb env addr data p = some p' ∧ Sound p' := by
  rw [Server.udpRecvCb_eq]
  cases classify data with
  | syn key => exact ⟨_, Server.recvSyn_of_createOk hok key, Server.sound_synAnswered hp addr key⟩
  | fin conv =>
    obtain ⟨p', hp', hreaction⟩ := Server.reaction_recvFin hp conv
    exact ⟨p', hp', hreaction.change.sound hp⟩
  | kcp conv =>
    obtain ⟨p', hp', hreaction⟩ := Server.reaction_recvKcp hp env addr conv data
    exact ⟨p', hp', hreaction.change.sound hp⟩
  | ack | other => exact ⟨p, rfl, hp⟩

theorem Client.exists_recv {c : Client} (hp : Sound c.proc) {env : Env} (hok : env.CreateOk)
    (addr : SockAddr) (data : List UInt8) :
    ∃ c', Client.udpRecvCb env addr data c = some c' ∧ Sound c'.proc := by
  by_cases hkcp : ∃ conv, classify data = .kcp conv
  · obtain ⟨conv, hkind⟩ := hkcp
    obtain ⟨c', hc', hout⟩ := @Client.outcome_recvKcp c hp env addr conv data hkind
    exact ⟨c', hc', hout.sound hp⟩
  rw [Client.udpRecvCb_eq]
  cases hkind : classify data with
  | ack a => exact ⟨_, Client.recvAck_of_createOk hok a, Client.sound_ackInstalled hp⟩
  | fin conv =>
    obtain ⟨c', hc', hout⟩ := Client.outcome_recvFin hp env conv (.recv env addr data)
    exact ⟨c', hc', hout.sound hp⟩
  | kcp conv => exact absurd ⟨conv, hkind⟩ hkcp
  | syn | other => exact ⟨c, rfl, hp⟩

namespace Storm

variable {ι : Type*}

/-- The memory of every party is sound. -/
structure Sound (s : Storm ι) : Prop where
  server : Proc.Sound s.server
  clients : ∀ i, Proc.Sound (s.clients i).proc

/-- Every state the programs can reach is. -/
theorem Sound.of_reachable {s : Storm ι} (hs : Server.lts.Reachable s.server)
    (hc : ∀ i, Client.lts.Reachable (s.clients i)) : s.Sound where
  server := (Server.consistent_inductive.reachable hs).sound
  clients i := (Client.sturdy_inductive.reachable (hc i)).sound

variable [DecidableEq ι] {L : Layout ι} {s s' : Storm ι}

theorem Sound.setClient (h : s.Sound) (i : ι) {client : Client} (hc : Proc.Sound client.proc)
    (flight : Multiset (Datagram ι)) :
    Sound { s with clients := Function.update s.clients i client, flight := flight } := by
  refine ⟨h.server, ?_⟩
  intro j
  dsimp only
  rcases eq_or_ne j i with rfl | hne
  · rw [Function.update_self]
    exact hc
  · rw [Function.update_of_ne hne]
    exact h.clients j

/-- Any datagram in flight may be delivered next. -/
theorem Sound.exists_step (h : s.Sound) {d : Datagram ι} (hd : d ∈ s.flight) {env : Env}
    (hok : env.AllocOk) : ∃ s', (lts L).step s ⟨env, d⟩ s' ∧ s'.Sound := by
  have hcreate : env.CreateOk := ⟨hok.1, hok.2.1⟩
  obtain ⟨rest, hrest⟩ := Multiset.exists_cons_of_mem hd
  obtain ⟨dst, src, bytes⟩ := d
  cases dst with
  | server =>
    obtain ⟨server, hrun, hsound⟩ := Server.exists_recv h.server hcreate src bytes
    obtain ⟨out, hout, -⟩ := Server.answer hcreate hrun
    exact ⟨_, ⟨hok, rest, hrest, server, out, _, hrun, hout, le_rfl, rfl⟩, hsound, h.clients⟩
  | client i =>
    obtain ⟨client, hrun, hsound⟩ := Client.exists_recv (h.clients i) hcreate src bytes
    obtain ⟨out, hout, -⟩ := Client.answer hcreate hrun
    exact ⟨_, ⟨hok, rest, hrest, client, out, _, hrun, hout, le_rfl, rfl⟩,
      h.setClient i hsound _⟩
  | nobody => exact ⟨_, ⟨hok, rest, hrest, rfl⟩, h.server, h.clients⟩

/-- A delivery keeps the memory of every party sound. -/
theorem Sound.step (h : s.Sound) {e : Delivery ι} (hstep : (lts L).step s e s') : s'.Sound := by
  obtain ⟨env, dst, src, bytes⟩ := e
  obtain ⟨hok, rest, hflight, hstep⟩ := hstep
  have hcreate : env.CreateOk := ⟨hok.1, hok.2.1⟩
  cases dst with
  | server =>
    obtain ⟨server, out, new, hrun, -, -, rfl⟩ := hstep
    obtain ⟨server', hrun', hsound⟩ := Server.exists_recv h.server hcreate src bytes
    obtain rfl := Option.some.inj (hrun'.symm.trans hrun)
    exact ⟨hsound, h.clients⟩
  | client i =>
    obtain ⟨client, out, new, hrun, -, -, rfl⟩ := hstep
    obtain ⟨client', hrun', hsound⟩ := Client.exists_recv (h.clients i) hcreate src bytes
    obtain rfl := Option.some.inj (hrun'.symm.trans hrun)
    exact h.setClient i hsound _
  | nobody =>
    obtain rfl := hstep
    exact ⟨h.server, h.clients⟩

/-! ## The theorem -/

/-- **No message storm.** From any state of the server and the clients, with anything in flight,
there are at most four deliveries for each datagram that was in flight to begin with, and none of
the exchanges goes on forever. Unless the memory was spoilt beforehand, every datagram in flight can
be delivered at any time, and the exchange is over once nothing is. -/
theorem no_message_storm (L : Layout ι) (s : Storm ι) :
    (∀ n s', (lts L).Steps s n s' → n ≤ 4 * s.flight.card) ∧
    (¬∃ run : ℕ → Storm ι, run 0 = s ∧ ∀ n, ∃ e, (lts L).step (run n) e (run (n + 1))) ∧
    (s.Sound → (∀ n s', (lts L).Steps s n s' → ∀ d ∈ s'.flight, ∀ env : Env, env.AllocOk →
      ∃ s'', (lts L).step s' ⟨env, d⟩ s'') ∧
      ∃ n s', (lts L).Steps s n s' ∧ s'.flight = 0) := by
  refine ⟨?_, ?_, fun hs ↦ ⟨?_, ?_⟩⟩
  · intro n s' hsteps
    exact (lowers_worth.length_le hsteps).trans (worth_le_card _)
  · rintro ⟨run, -, hrun⟩
    exact lowers_worth.not_forever run hrun
  · intro n s' hsteps d hd env hok
    have hs' := hsteps.keeps (fun _ _ _ h hstep ↦ h.step hstep) hs
    obtain ⟨s'', hstep, -⟩ := hs'.exists_step hd hok
    exact ⟨s'', hstep⟩
  · have hmove : ∀ s : Storm ι, s.Sound → ¬s.flight = 0 →
        ∃ e s', (lts L).step s e s' ∧ s'.Sound := by
      intro s hs hne
      obtain ⟨d, hd⟩ := Multiset.exists_mem_of_ne_zero hne
      obtain ⟨s', hstep, hs'⟩ := hs.exists_step (L := L) hd
        (⟨rfl, rfl, rfl⟩ : ({} : Env).AllocOk)
      exact ⟨_, s', hstep, hs'⟩
    obtain ⟨n, s', hsteps, -, hdone⟩ := lowers_worth.exists_done hmove hs
    exact ⟨n, s', hsteps, hdone⟩

/-- A server that has just started gets 24 zero bytes from a client that has just connected. -/
def unknownKcp : Storm Unit where
  server := {}
  clients _ := Client.connect {} {}
  flight := {⟨.server, .inet 0 2, List.replicate 24 0⟩}

theorem no_message_storm_unknownKcp :
    ∃ n s', (lts ⟨.inet 0 1, fun _ ↦ .inet 0 2, fun _ ↦ .client ()⟩).Steps unknownKcp n s' ∧
      s'.flight = 0 ∧ n ≤ 4 := by
  have hsound : unknownKcp.Sound := .of_reachable (.init rfl) fun _ ↦ .init ⟨{}, rfl⟩
  obtain ⟨hbound, -, hends⟩ := no_message_storm
    ⟨.inet 0 1, fun _ ↦ .inet 0 2, fun _ ↦ .client ()⟩ unknownKcp
  obtain ⟨n, s', hsteps, hdone⟩ := (hends hsound).2
  exact ⟨n, s', hsteps, hdone, hbound n s' hsteps⟩

end Storm
end KcpEcho
