import KcpEcho.Process.Routing
import KcpEcho.Table.ClientTable
import KcpEcho.Table.ServerTable

/-!
# The handshake

One server and any number of clients. The outboxes never shrink, so they serve as the network: any
datagram ever sent may reach its destination at any time, any number of times, or never.

An ACK carries the allocated number XOR the key of the SYN it answers, and the client decodes it
with the key it has by then. `Alloc` records which SYN an allocation answered, and two conditions
on the order of deliveries say when the handshake does what it is for:

* `AnswersLatest`: an ACK reaches its client before that client has sent another SYN. Then the
  decoded number is the allocated one, and no server session is fed by another client.
* `FindsArmed`: an ACK reaches a client whose connect timer is armed. Then a client never has two
  sessions.

The client checks neither. `handshake_disagrees` shows what an ACK does that comes late, or twice.
-/

namespace KcpEcho

open Proc

/-! ## The network -/

/-- Where the server and the clients are. No two clients share an address. -/
structure Addresses (ι : Type) where
  server : SockAddr
  client : ι ↪ SockAddr

/-- A conversation number, allocated in answer to a SYN. -/
structure Alloc (ι : Type) where
  client : ι
  /-- The position of the SYN among the client's datagrams. -/
  syn : ℕ
  conv : UInt32
  /-- The position of the ACK among the server's. -/
  ack : ℕ

structure Net (ι : Type) where
  server : Proc := {}
  clients : ι → Client
  allocs : List (Alloc ι) := []

namespace Net

variable {ι : Type}

inductive Event (ι : Type)
  /-- The server gets a datagram of client `i`, number `n` of all it has sent. -/
  | toServer (env : Env) (i : ι) (n : ℕ)
  /-- Client `i` gets a datagram of the server, number `n` of all it has sent. -/
  | toClient (env : Env) (i : ι) (n : ℕ)
  /-- An update timer of the server. -/
  | serverTimer (env : Env) (t : Ptr)
  /-- The connect timer of client `i`. -/
  | connectTimeout (env : Env) (i : ι)
  /-- Another timer of client `i`. -/
  | clientTimer (env : Env) (i : ι) (t : Ptr)

def setClient [DecidableEq ι] (net : Net ι) (i : ι) (c : Client) : Net ι :=
  { net with clients := Function.update net.clients i c }

/-- What the server allocates for a datagram: one number, if it is a SYN and there is memory. -/
def allocation (net : Net ι) (env : Env) (i : ι) (n : ℕ) (data : List UInt8) : List (Alloc ι) :=
  match classify data with
  | .syn _ => if env.CreateOk then [⟨i, n, net.server.sConv + 1, net.server.outbox.length⟩] else []
  | _ => []

/-- The server and the clients from their start on. -/
def lts [DecidableEq ι] (A : Addresses ι) : Lts (Net ι) (Event ι) where
  init net := net.server = {} ∧ net.allocs = [] ∧ ∀ i, Client.lts.init (net.clients i)
  step net e net' := match e with
    | .toServer env i n => ∃ pkt server, (net.clients i).proc.outbox[n]? = some pkt ∧
        Server.lts.step net.server (.recv env (A.client i) pkt.bytes) server ∧
        net' = { net with
          server := server
          allocs := net.allocs ++ net.allocation env i n pkt.bytes }
    | .toClient env i n => ∃ pkt client, net.server.outbox[n]? = some pkt ∧
        pkt.dest = some (A.client i) ∧
        Client.lts.step (net.clients i) (.recv env A.server pkt.bytes) client ∧
        net' = net.setClient i client
    | .serverTimer env t => ∃ server,
        Server.lts.step net.server (.updateTimer env t) server ∧
          net' = { net with server := server }
    | .connectTimeout env i => ∃ client,
        Client.lts.step (net.clients i) (.connectTimeout env) client ∧ net' = net.setClient i client
    | .clientTimer env i t => ∃ client,
        Client.lts.step (net.clients i) (.timer env t) client ∧ net' = net.setClient i client

/-- The counter has not wrapped, nor does the next allocation make it. -/
def NotWrapped (net : Net ι) (_ : Event ι) : Prop := net.server.sConv.toNat + 1 < 2 ^ 32

/-! ## SYNs -/

/-- Datagram `n` of the client is a SYN with this key. -/
def SynAt (c : Client) (n : ℕ) (key : UInt32) : Prop :=
  ∃ pkt, c.proc.outbox[n]? = some pkt ∧ classify pkt.bytes = .syn key

/-- The client has sent no SYN since its datagram `n`. -/
def LatestSyn (c : Client) (n : ℕ) : Prop := ∀ m key, n < m → ¬SynAt c m key

theorem SynAt.key_eq {c : Client} {n : ℕ} {key key' : UInt32} (h : SynAt c n key)
    (h' : SynAt c n key') : key = key' := by
  obtain ⟨pkt, hpkt, hkind⟩ := h
  obtain ⟨pkt', hpkt', hkind'⟩ := h'
  obtain rfl := Option.some.inj (hpkt.symm.trans hpkt')
  exact DatagramKind.syn.inj (hkind.symm.trans hkind')

theorem SynAt.eq_of_latest {c : Client} {n m : ℕ} {key key' : UInt32} (h : SynAt c n key)
    (hn : LatestSyn c n) (h' : SynAt c m key') (hm : LatestSyn c m) : key = key' := by
  rcases lt_trichotomy n m with hlt | rfl | hlt
  · exact absurd h' (hn m key' hlt)
  · exact h.key_eq h'
  · exact absurd h (hm n key hlt)

section Outbox

variable {l out : List Packet} {n : ℕ} {pkt : Packet}

theorem getElem?_outbox (h : l[n]? = some pkt) : (l ++ out)[n]? = some pkt :=
  (List.getElem?_append_left (List.getElem?_eq_some_iff.mp h).1).trans h

/-- A datagram of a grown outbox was there before, or is new. -/
theorem outbox_cases (h : (l ++ out)[n]? = some pkt) :
    l[n]? = some pkt ∨ (l.length ≤ n ∧ pkt ∈ out) := by
  rcases lt_or_ge n l.length with hlt | hge
  · exact .inl ((List.getElem?_append_left hlt).symm.trans h)
  · rw [List.getElem?_append_right hge] at h
    exact .inr ⟨hge, List.mem_of_getElem? h⟩

theorem outbox_concat_cases {new : Packet} (h : (l ++ [new])[n]? = some pkt) :
    l[n]? = some pkt ∨ (n = l.length ∧ pkt = new) := by
  rcases outbox_cases h with hold | ⟨hge, hmem⟩
  · exact .inl hold
  · have hlt := (List.getElem?_eq_some_iff.mp h).1
    rw [List.length_append, List.length_singleton] at hlt
    exact .inr ⟨by omega, List.mem_singleton.mp hmem⟩

end Outbox

/-! ## What holds in every run -/

/-- Where the messages of the handshake come from. -/
structure Traced (A : Addresses ι) (net : Net ι) : Prop where
  server : Server.Consistent net.server
  clients : ∀ i, Client.Sturdy (net.clients i)
  /-- The key of a client is that of the latest SYN it has sent. -/
  key : ∀ i, ∃ n, SynAt (net.clients i) n (net.clients i).key ∧ LatestSyn (net.clients i) n
  /-- An ACK answers the SYN of an allocation and goes to the client that sent the SYN. -/
  ack : ∀ n pkt a, net.server.outbox[n]? = some pkt → classify pkt.bytes = .ack a →
    ∃ r ∈ net.allocs, r.ack = n ∧ pkt.dest = some (A.client r.client) ∧
      ∃ key, SynAt (net.clients r.client) r.syn key ∧ a = r.conv ^^^ key
  /-- No number is allocated twice. -/
  bound : ∀ r ∈ net.allocs, r.conv.toNat ≤ net.server.sConv.toNat
  once : ∀ r ∈ net.allocs, ∀ r' ∈ net.allocs, r.conv = r'.conv → r = r'
  /-- Every session of the server was opened for an allocation. -/
  session : ∀ x ctx k kcp, Live net.server x ctx k kcp → ∃ r ∈ net.allocs, r.conv = kcp.conv

variable {A : Addresses ι} {net : Net ι}

/-! ### A client moves -/

theorem Client.outbox_grows {c c' : Client} {e : Client.Event} (h : Client.Sturdy c)
    (hs : Client.lts.step c e c') : ∃ out, c'.proc.outbox = c.proc.outbox ++ out := by
  rcases (Client.step_outcome h hs).outbox with ⟨-, out, hout, -⟩ | hout
  · exact ⟨out, hout⟩
  · exact ⟨_, hout⟩

theorem SynAt.step {c c' : Client} {e : Client.Event} (h : Client.Sturdy c)
    (hs : Client.lts.step c e c') {n : ℕ} {key : UInt32} (hsyn : SynAt c n key) :
    SynAt c' n key := by
  obtain ⟨out, hout⟩ := Client.outbox_grows h hs
  obtain ⟨pkt, hpkt, hkind⟩ := hsyn
  exact ⟨pkt, by rw [hout]; exact getElem?_outbox hpkt, hkind⟩

/-- A client stays in step with its latest SYN. -/
theorem key_step {c c' : Client} {e : Client.Event} (h : Client.Sturdy c)
    (hs : Client.lts.step c e c') (hkey : ∃ n, SynAt c n c.key ∧ LatestSyn c n) :
    ∃ n, SynAt c' n c'.key ∧ LatestSyn c' n := by
  obtain ⟨n, hsyn, hlatest⟩ := hkey
  rcases (Client.step_outcome h hs).outbox with ⟨hsame, hsaid⟩ | hout
  · obtain ⟨out, hout, hkinds⟩ := hsaid.kinds
    refine ⟨n, hsame ▸ hsyn.step h hs, ?_⟩
    rintro m key hlt ⟨pkt, hpkt, hkind⟩
    rw [hout] at hpkt
    rcases outbox_cases hpkt with hold | ⟨-, hmem⟩
    · exact hlatest m key hlt ⟨pkt, hold, hkind⟩
    · rcases hkinds pkt hmem with ⟨_, hfin⟩ | ⟨_, _, _, _, -, hkcp⟩
      · exact nomatch hkind.symm.trans hfin
      · exact nomatch hkind.symm.trans hkcp
  · -- a reconnect: the new SYN is the last datagram
    refine ⟨c.proc.outbox.length, ⟨⟨none, udpPacket 1 c'.key⟩, ?_, classify_syn c'.key⟩, ?_⟩
    · rw [hout]
      exact List.getElem?_concat_length
    · rintro m key hlt ⟨pkt, hpkt, -⟩
      rw [hout] at hpkt
      rcases outbox_concat_cases hpkt with hold | ⟨heq, -⟩
      · exact absurd (List.getElem?_eq_some_iff.mp hold).1 (Nat.lt_asymm hlt)
      · exact absurd heq hlt.ne'

theorem setClient_self [DecidableEq ι] (i : ι) (c : Client) : (net.setClient i c).clients i = c :=
  Function.update_self _ _ _

theorem setClient_of_ne [DecidableEq ι] {i j : ι} (h : j ≠ i) (c : Client) :
    (net.setClient i c).clients j = net.clients j := Function.update_of_ne h _ _

theorem Traced.setClient [DecidableEq ι] (h : Traced A net) {i : ι} {c' : Client} {e : Client.Event}
    (hs : Client.lts.step (net.clients i) e c') : Traced A (net.setClient i c') where
  server := h.server
  clients j := by
    rcases eq_or_ne j i with rfl | hne
    · rw [setClient_self]
      exact Client.sturdy_inductive.step _ _ _ (h.clients j) hs
    · rw [setClient_of_ne hne]
      exact h.clients j
  key j := by
    rcases eq_or_ne j i with rfl | hne
    · rw [setClient_self]
      exact key_step (h.clients j) hs (h.key j)
    · rw [setClient_of_ne hne]
      exact h.key j
  ack n pkt a hpkt hkind := by
    obtain ⟨r, hr, hack, hdest, key, hsyn, ha⟩ := h.ack n pkt a hpkt hkind
    refine ⟨r, hr, hack, hdest, key, ?_, ha⟩
    rcases eq_or_ne r.client i with heq | hne
    · rw [heq] at hsyn ⊢
      rw [setClient_self]
      exact hsyn.step (h.clients i) hs
    · rw [setClient_of_ne hne]
      exact hsyn
  bound := h.bound
  once := h.once
  session := h.session

/-! ### The server moves -/

theorem toNat_succ {conv : UInt32} (hw : conv.toNat + 1 < 2 ^ 32) :
    (conv + 1).toNat = conv.toNat + 1 := by
  rw [UInt32.toNat_add]
  exact Nat.mod_eq_of_lt hw

theorem Traced.reaction (h : Traced A net) (hw : net.server.sConv.toNat + 1 < 2 ^ 32) {s : Proc}
    (hs : Server.Consistent s) (hr : Server.Reaction net.server s) :
    Traced A { net with server := s } where
  server := hs
  clients := h.clients
  key := h.key
  ack n pkt a hpkt hkind := by
    obtain ⟨out, hout, hkinds⟩ := hr.utters.kinds
    have hpkt : s.outbox[n]? = some pkt := hpkt
    rw [hout] at hpkt
    rcases outbox_cases hpkt with hold | ⟨-, hmem⟩
    · exact h.ack n pkt a hold hkind
    · rcases hkinds pkt hmem with ⟨_, hfin⟩ | ⟨_, _, _, _, -, hkcp⟩
      · exact nomatch hkind.symm.trans hfin
      · exact nomatch hkind.symm.trans hkcp
  bound r hmem := by
    have hle := h.bound r hmem
    have hsucc := toNat_succ hw
    change r.conv.toNat ≤ s.sConv.toNat
    -- a SYN without memory uses a number up all the same
    rcases hr.sConv with heq | heq
    · rwa [heq]
    · rw [heq, hsucc]
      exact Nat.le_succ_of_le hle
  once := h.once
  session x ctx k kcp hl := by
    obtain ⟨_, kcp₀, hlive, hconv⟩ := hr.change.live_of_live h.server.sound hl
    obtain ⟨r, hmem, hr⟩ := h.session _ _ _ _ hlive
    exact ⟨r, hmem, hr.trans hconv.symm⟩

theorem Traced.syn (h : Traced A net) (hw : net.server.sConv.toNat + 1 < 2 ^ 32) {i : ι} {n : ℕ}
    {key : UInt32} (hsyn : SynAt (net.clients i) n key) :
    Traced A { net with
      server := Server.synAnswered net.server (A.client i) key
      allocs := net.allocs ++ [⟨i, n, net.server.sConv + 1, net.server.outbox.length⟩] } where
  server := h.server.synAnswered (A.client i) key
  clients := h.clients
  key := h.key
  ack m pkt a hpkt hkind := by
    have hpkt : (Server.synAnswered net.server (A.client i) key).outbox[m]? = some pkt := hpkt
    rw [Server.outbox_synAnswered] at hpkt
    rcases outbox_concat_cases hpkt with hold | ⟨rfl, rfl⟩
    · obtain ⟨r, hr, hrest⟩ := h.ack m pkt a hold hkind
      exact ⟨r, List.mem_append_left _ hr, hrest⟩
    · -- the ACK that has just been sent answers this very SYN
      refine ⟨_, List.mem_append_right _ (List.mem_singleton_self _), rfl, rfl, key, hsyn, ?_⟩
      exact (DatagramKind.ack.inj ((classify_ack _).symm.trans hkind)).symm
  bound r hmem := by
    have hsucc := toNat_succ hw
    change r.conv.toNat ≤ (Server.synAnswered net.server (A.client i) key).sConv.toNat
    rw [Server.sConv_synAnswered, hsucc]
    rcases List.mem_append.mp hmem with hold | hnew
    · exact Nat.le_succ_of_le (h.bound r hold)
    · rw [List.mem_singleton.mp hnew, hsucc]
  once r hr r' hr' heq := by
    -- the new number is above every old one
    have hfresh : ∀ q ∈ net.allocs, q.conv ≠ net.server.sConv + 1 := by
      intro q hq heq
      have hle := h.bound q hq
      rw [heq, toNat_succ hw] at hle
      exact absurd hle (Nat.not_succ_le_self _)
    rcases List.mem_append.mp hr with hold | hnew
    · rcases List.mem_append.mp hr' with hold' | hnew'
      · exact h.once r hold r' hold' heq
      · rw [List.mem_singleton.mp hnew'] at heq
        exact absurd heq (hfresh r hold)
    · rcases List.mem_append.mp hr' with hold' | hnew'
      · rw [List.mem_singleton.mp hnew] at heq
        exact absurd heq.symm (hfresh r' hold')
      · rw [List.mem_singleton.mp hnew, List.mem_singleton.mp hnew']
  session x ctx k kcp hl := by
    rcases Server.live_of_live_synAnswered h.server.sound hl with hconv | hlive
    · exact ⟨_, List.mem_append_right _ (List.mem_singleton_self _), hconv.symm⟩
    · obtain ⟨r, hr, hconv⟩ := h.session _ _ _ _ hlive
      exact ⟨r, List.mem_append_left _ hr, hconv⟩

theorem allocation_of_syn {env : Env} {i : ι} {n : ℕ} {data : List UInt8} {key : UInt32}
    (hkind : classify data = .syn key) (hok : env.CreateOk) :
    net.allocation env i n data = [⟨i, n, net.server.sConv + 1, net.server.outbox.length⟩] := by
  rw [allocation, hkind]
  exact if_pos hok

theorem allocation_of_not_syn {env : Env} {i : ι} {n : ℕ} {data : List UInt8}
    (h : ¬∃ key, classify data = .syn key ∧ env.CreateOk) : net.allocation env i n data = [] := by
  rw [allocation]
  split
  · rename_i key hkind
    exact if_neg fun hok ↦ h ⟨key, hkind, hok⟩
  · rfl

/-- What a datagram of a client does to the server: a SYN is answered and recorded, or the server
reacts and nothing is recorded. -/
theorem toServer_cases {env : Env} {i : ι} {n : ℕ} {pkt : Packet} {s : Proc}
    (h : Server.Consistent net.server) (hpkt : (net.clients i).proc.outbox[n]? = some pkt)
    (hs : Server.lts.step net.server (.recv env (A.client i) pkt.bytes) s) :
    (∃ key, SynAt (net.clients i) n key ∧ s = Server.synAnswered net.server (A.client i) key ∧
      net.allocation env i n pkt.bytes =
        [⟨i, n, net.server.sConv + 1, net.server.outbox.length⟩]) ∨
    (Server.Reaction net.server s ∧ net.allocation env i n pkt.bytes = []) := by
  by_cases hsyn : ∃ key, classify pkt.bytes = .syn key ∧ env.CreateOk
  · obtain ⟨key, hkind, hok⟩ := hsyn
    have hstep := hs.2
    rw [Server.handle, Server.udpRecvCb_eq, hkind] at hstep
    dsimp only at hstep
    rw [Server.recvSyn_of_createOk hok] at hstep
    exact .inl ⟨key, ⟨pkt, hpkt, hkind⟩, (Option.some.inj hstep).symm, allocation_of_syn hkind hok⟩
  · obtain ⟨q, hq, hcases⟩ := Server.handle_cases h hs.1
    obtain rfl := Option.some.inj (hq.symm.trans hs.2)
    rcases hcases with hreaction | ⟨addr, key, ⟨env', data', heq, hkind, hok⟩, -⟩
    · exact .inr ⟨hreaction, allocation_of_not_syn hsyn⟩
    · cases heq
      exact absurd ⟨key, hkind, hok⟩ hsyn

theorem serverTimer_reaction {env : Env} {t : Ptr} {p s : Proc} (h : Server.Consistent p)
    (hs : Server.lts.step p (.updateTimer env t) s) : Server.Reaction p s := by
  obtain ⟨q, hq, hcases⟩ := Server.handle_cases h hs.1
  obtain rfl := Option.some.inj (hq.symm.trans hs.2)
  rcases hcases with hreaction | ⟨addr, key, ⟨env', data', heq, -⟩, -⟩
  · exact hreaction
  · exact nomatch heq

theorem traced_init [DecidableEq ι] {net : Net ι} (h : (lts A).init net) : Traced A net := by
  obtain ⟨hserver, hallocs, hclients⟩ := h
  refine ⟨hserver ▸ Server.Consistent.init, fun i ↦ ?_, fun i ↦ ?_, ?_, ?_, ?_, ?_⟩
  · obtain ⟨env, hc⟩ := hclients i
    exact hc ▸ Client.sturdy_init env
  · obtain ⟨env, hc⟩ := hclients i
    rw [hc]
    refine ⟨0, ⟨⟨none, udpPacket 1 env.rand⟩, rfl, classify_syn env.rand⟩, ?_⟩
    rintro m key hlt ⟨pkt, hpkt, -⟩
    have hm : m < 1 := (List.getElem?_eq_some_iff.mp hpkt).1
    omega
  · intro n pkt a hpkt
    rw [hserver] at hpkt
    exact nomatch hpkt
  · simp [hallocs]
  · simp [hallocs]
  · intro x ctx k kcp hl
    rw [hserver] at hl
    exact nomatch hl.ctx_at

theorem traced_inductive [DecidableEq ι] : ((lts A).restrict NotWrapped).Inductive (Traced A) where
  init _ h := traced_init h
  step net e net' h hs := by
    obtain ⟨hstep, hw⟩ := hs
    cases e with
    | toServer env i n =>
      obtain ⟨pkt, s, hpkt, hs, rfl⟩ := hstep
      rcases toServer_cases h.server hpkt hs with ⟨key, hsyn, rfl, halloc⟩ | ⟨hreaction, halloc⟩
      · rw [halloc]
        exact h.syn hw hsyn
      · rw [halloc, List.append_nil]
        exact h.reaction hw (Server.consistent_inductive.step _ _ _ h.server hs) hreaction
    | toClient env i n =>
      obtain ⟨pkt, c, -, -, hs, rfl⟩ := hstep
      exact h.setClient hs
    | serverTimer env t =>
      obtain ⟨s, hs, rfl⟩ := hstep
      exact h.reaction hw (Server.consistent_inductive.step _ _ _ h.server hs)
        (serverTimer_reaction h.server hs)
    | connectTimeout env i =>
      obtain ⟨c, hs, rfl⟩ := hstep
      exact h.setClient hs
    | clientTimer env i t =>
      obtain ⟨c, hs, rfl⟩ := hstep
      exact h.setClient hs

/-! ## ACKs that answer the latest SYN -/

/-- An ACK arrives before its client has sent another SYN. -/
def AnswersLatest (net : Net ι) : Event ι → Prop
  | .toClient _ i n => ∀ r ∈ net.allocs, r.ack = n → LatestSyn (net.clients i) r.syn
  | _ => True

/-- The sessions of a client, and the KCP data it has sent, belong to its own allocations. -/
structure Allocated (net : Net ι) : Prop where
  session : ∀ i x ctx k kcp, Live (net.clients i).proc x ctx k kcp →
    ∃ r ∈ net.allocs, r.client = i ∧ r.conv = kcp.conv
  datagram : ∀ i (n : ℕ) (pkt : Packet) c, (net.clients i).proc.outbox[n]? = some pkt →
    classify pkt.bytes = .kcp c → ∃ r ∈ net.allocs, r.client = i ∧ r.conv = c

/-- The number an ACK decodes to: that of the allocation, off by the keys of the SYN it answers
and of the latest SYN. -/
theorem Traced.decoded (h : Traced A net) {i : ι} {n : ℕ} {pkt : Packet} {a : UInt32}
    (hpkt : net.server.outbox[n]? = some pkt) (hdest : pkt.dest = some (A.client i))
    (hkind : classify pkt.bytes = .ack a) :
    ∃ r ∈ net.allocs, r.client = i ∧ r.ack = n ∧ ∃ key, SynAt (net.clients i) r.syn key ∧
      a ^^^ (net.clients i).key = r.conv ^^^ key ^^^ (net.clients i).key := by
  obtain ⟨r, hr, hack, hdest', key, hsyn, rfl⟩ := h.ack n pkt a hpkt hkind
  obtain rfl : r.client = i := A.client.injective (Option.some.inj (hdest'.symm.trans hdest))
  exact ⟨r, hr, rfl, hack, key, hsyn, rfl⟩

theorem Traced.decoded_latest (h : Traced A net) {env : Env} {i : ι} {n : ℕ} {pkt : Packet}
    {a : UInt32} (hlatest : AnswersLatest net (.toClient env i n))
    (hpkt : net.server.outbox[n]? = some pkt) (hdest : pkt.dest = some (A.client i))
    (hkind : classify pkt.bytes = .ack a) :
    ∃ r ∈ net.allocs, r.client = i ∧ r.conv = a ^^^ (net.clients i).key := by
  obtain ⟨r, hr, hi, hack, key, hsyn, heq⟩ := h.decoded hpkt hdest hkind
  obtain ⟨m, hm, hm_latest⟩ := h.key i
  have hkey : key = (net.clients i).key := hsyn.eq_of_latest (hlatest r hr hack) hm hm_latest
  refine ⟨r, hr, hi, ?_⟩
  rw [heq, hkey, UInt32.xor_assoc, UInt32.xor_self, UInt32.xor_zero]

theorem Allocated.setClient [DecidableEq ι] (h : Allocated net) {i : ι} {c' : Client}
    {e : Client.Event} (hc : Client.Sturdy (net.clients i))
    (hs : Client.lts.step (net.clients i) e c')
    (hnew : ∀ env addr data a, e = .recv env addr data → classify data = .ack a →
      ∃ r ∈ net.allocs, r.client = i ∧ r.conv = a ^^^ (net.clients i).key) :
    Allocated (net.setClient i c') := by
  have hout := Client.step_outcome hc hs
  constructor
  · intro j x ctx k kcp hl
    rcases eq_or_ne j i with rfl | hne
    · rw [setClient_self] at hl
      rcases hout.live_of_live hc hl with
        ⟨ctx₀, kcp₀, hlive, hconv⟩ | ⟨env, addr, data, a, he, hkind, hconv⟩
      · rw [hconv]
        exact h.session j _ _ _ _ hlive
      · rw [hconv]
        exact hnew env addr data a he hkind
    · rw [setClient_of_ne hne] at hl
      exact h.session j _ _ _ _ hl
  · intro j n pkt conv hpkt hkind
    rcases eq_or_ne j i with rfl | hne
    · rw [setClient_self] at hpkt
      rcases hout.outbox with ⟨-, hsaid⟩ | hsyn
      · obtain ⟨out, hout, hkinds⟩ := hsaid.kinds
        rw [hout] at hpkt
        rcases outbox_cases hpkt with hold | ⟨-, hmem⟩
        · exact h.datagram j n pkt conv hold hkind
        · rcases hkinds pkt hmem with ⟨_, hfin⟩ | ⟨_, _, _, kcp, hlive, hkcp⟩
          · exact nomatch hkind.symm.trans hfin
          · obtain rfl := DatagramKind.kcp.inj (hkind.symm.trans hkcp)
            exact h.session j _ _ _ _ hlive
      · rw [hsyn] at hpkt
        rcases outbox_concat_cases hpkt with hold | ⟨-, rfl⟩
        · exact h.datagram j n pkt conv hold hkind
        · exact nomatch (classify_syn _).symm.trans hkind
    · rw [setClient_of_ne hne] at hpkt
      exact h.datagram j n pkt conv hpkt hkind

theorem Allocated.grow (h : Allocated net) (s : Proc) (rs : List (Alloc ι)) :
    Allocated { net with server := s, allocs := net.allocs ++ rs } where
  session i x ctx k kcp hl := by
    obtain ⟨r, hr, hrest⟩ := h.session i x ctx k kcp hl
    exact ⟨r, List.mem_append_left _ hr, hrest⟩
  datagram i n pkt c hpkt hkind := by
    obtain ⟨r, hr, hrest⟩ := h.datagram i n pkt c hpkt hkind
    exact ⟨r, List.mem_append_left _ hr, hrest⟩

theorem allocated_inductive [DecidableEq ι] :
    (((lts A).restrict NotWrapped).restrict AnswersLatest).Inductive fun net ↦
      Traced A net ∧ Allocated net :=
  (traced_inductive.restrict AnswersLatest).and
    (fun net h ↦ by
      obtain ⟨-, -, hclients⟩ := h
      constructor
      · intro i x ctx k kcp hl
        obtain ⟨env, hc⟩ := hclients i
        rw [hc] at hl
        exact nomatch hl.ctx_at
      · intro i n pkt c hpkt hkind
        obtain ⟨env, hc⟩ := hclients i
        rw [hc] at hpkt
        rcases @outbox_concat_cases [] _ _ _ hpkt with hold | ⟨-, rfl⟩
        · exact nomatch hold
        · exact nomatch (classify_syn _).symm.trans hkind)
    (fun net e net' htraced h hs ↦ by
      obtain ⟨⟨hstep, -⟩, hlatest⟩ := hs
      cases e with
      | toServer env i n =>
        obtain ⟨pkt, s, -, -, rfl⟩ := hstep
        exact h.grow s _
      | toClient env i n =>
        obtain ⟨pkt, c, hpkt, hdest, hs, rfl⟩ := hstep
        apply h.setClient (htraced.clients i) hs
        intro env' addr data a he hkind
        cases he
        exact htraced.decoded_latest hlatest hpkt hdest hkind
      | serverTimer env t =>
        obtain ⟨s, -, rfl⟩ := hstep
        have hgrow := h.grow s []
        rw [List.append_nil] at hgrow
        exact hgrow
      -- timers install nothing
      | connectTimeout env i =>
        obtain ⟨c, hs, rfl⟩ := hstep
        exact h.setClient (htraced.clients i) hs fun _ _ _ _ he ↦ nomatch he
      | clientTimer env i t =>
        obtain ⟨c, hs, rfl⟩ := hstep
        exact h.setClient (htraced.clients i) hs fun _ _ _ _ he ↦ nomatch he)

/-! ## ACKs that find the connect timer armed -/

/-- An ACK arrives at a client whose connect timer is armed. -/
def FindsArmed (net : Net ι) : Event ι → Prop
  | .toClient _ i n => ∀ (pkt : Packet) a, net.server.outbox[n]? = some pkt →
      classify pkt.bytes = .ack a → (net.clients i).connectTimer = true
  | _ => True

/-- A client has one session at most, and none while its connect timer is armed. -/
structure Lone (c : Client) : Prop where
  single : ∀ x y, c.proc.ctxs x ≠ none → c.proc.ctxs y ≠ none → x = y
  waiting : c.connectTimer = true → ∀ x, c.proc.ctxs x = none

section Lone

variable {c c' : Client}

theorem lone_init (env : Env) : Lone (Client.connect env {}) where
  single _ _ hx _ := absurd rfl hx
  waiting _ _ := rfl

/-- No context is new, and the connect timer has not been armed. -/
theorem Lone.shrink (h : Lone c) (hctxs : ∀ x, c'.proc.ctxs x ≠ none → c.proc.ctxs x ≠ none)
    (htimer : c'.connectTimer = c.connectTimer) : Lone c' where
  single x y hx hy := h.single x y (hctxs x hx) (hctxs y hy)
  waiting harmed x := by
    by_contra hx
    exact hctxs x hx (h.waiting (htimer ▸ harmed) x)

theorem ctxs_of_change {p p' : Proc} (h : Change False p p') {x : Ptr} (hx : p'.ctxs x ≠ none) :
    p.ctxs x ≠ none := by
  obtain ⟨ctx', hctx'⟩ := Option.ne_none_iff_exists'.mp hx
  obtain ⟨ctx, hctx, -⟩ := h.listed hctx'
  rw [hctx]
  exact Option.some_ne_none ctx

/-- **One step of a client.** Whatever arms the connect timer leaves no session: it was armed
before, or the only session has just ended. -/
theorem Lone.step (h : Lone c) {e : Client.Event} (hc : Client.Sturdy c)
    (hs : Client.lts.step c e c')
    (harmed : ∀ env addr data a, e = .recv env addr data → classify data = .ack a →
      c.connectTimer = true) : Lone c' := by
  cases Client.step_outcome hc hs with
  | quiet hchange _ _ => exact h.shrink (fun _ ↦ ctxs_of_change hchange) rfl
  | @reconnected env p' hchange _ hwhy =>
    refine ⟨fun x y hx hy ↦
      h.single x y (ctxs_of_change hchange hx) (ctxs_of_change hchange hy), fun _ x ↦ ?_⟩
    by_contra hx
    have hold : c.proc.ctxs x ≠ none := ctxs_of_change hchange hx
    cases hwhy with
    | timeout hbefore => exact hold (h.waiting hbefore x)
    | ack he hkind => exact hold (h.waiting (harmed _ _ _ _ he hkind) x)
    | @fin y _ ctx _ hlive hgone =>
      have hy : c.proc.ctxs y ≠ none := by
        rw [hlive.ctx_at]
        exact Option.some_ne_none ctx
      obtain rfl := h.single x y hold hy
      exact hx hgone
  | @installed env addr data a he hkind hok =>
    have hnone := h.waiting (harmed _ _ _ _ he hkind)
    have hnew : ∀ x, (Client.ackInstalled env c addr (a ^^^ c.key)).proc.ctxs x ≠ none →
        x = c.proc.brk := by
      intro x hx
      obtain ⟨ctx, hctx⟩ := Option.ne_none_iff_exists'.mp hx
      exact (Client.ctxs_ackInstalled hctx).resolve_right fun hold ↦
        nomatch (hnone x).symm.trans hold
    exact ⟨fun x y hx hy ↦ (hnew x hx).trans (hnew y hy).symm, fun hfalse ↦ nomatch hfalse⟩
  | @refused _ _ _ y k ctx kcp p' he hkind hbad hmap hlive hgrown _ =>
    refine h.shrink (fun x hx ↦ ?_) rfl
    change p'.ctxs x ≠ none at hx
    rw [hgrown.ctxs] at hx
    rcases eq_or_ne x y with rfl | hne
    · exact absurd (Function.update_self x _ c.proc.ctxs) hx
    · exact (Function.update_of_ne hne _ c.proc.ctxs).symm.trans_ne hx

end Lone

theorem lone_setClient [DecidableEq ι] (h : ∀ i, Lone (net.clients i)) {i : ι} {c' : Client}
    (hc' : Lone c') (j : ι) : Lone ((net.setClient i c').clients j) := by
  rcases eq_or_ne j i with rfl | hne
  · rwa [setClient_self]
  · rw [setClient_of_ne hne]
    exact h j

theorem lone_inductive [DecidableEq ι] :
    (((lts A).restrict NotWrapped).restrict FindsArmed).Inductive fun net ↦
      Traced A net ∧ ∀ i, Lone (net.clients i) :=
  (traced_inductive.restrict FindsArmed).and
    (fun net h i ↦ by
      obtain ⟨env, hc⟩ := h.2.2 i
      exact hc ▸ lone_init env)
    (fun net e net' htraced h hs ↦ by
      obtain ⟨⟨hstep, -⟩, hfinds⟩ := hs
      cases e with
      | toServer env i n =>
        obtain ⟨pkt, s, -, -, rfl⟩ := hstep
        exact h
      | toClient env i n =>
        obtain ⟨pkt, c, hpkt, -, hs, rfl⟩ := hstep
        refine lone_setClient h ((h i).step (htraced.clients i) hs ?_)
        intro env' addr data a he hkind
        cases he
        exact hfinds pkt a hpkt hkind
      | serverTimer env t =>
        obtain ⟨s, -, rfl⟩ := hstep
        exact h
      | connectTimeout env i =>
        obtain ⟨c, hs, rfl⟩ := hstep
        exact lone_setClient h ((h i).step (htraced.clients i) hs fun _ _ _ _ he ↦ nomatch he)
      | clientTimer env i t =>
        obtain ⟨c, hs, rfl⟩ := hstep
        exact lone_setClient h ((h i).step (htraced.clients i) hs fun _ _ _ _ he ↦ nomatch he))

/-! ## Agreement -/

/-- Every session of a client has a number that was allocated in answer to a SYN of its own. -/
def Installed (net : Net ι) : Prop :=
  ∀ i x ctx k kcp, Live (net.clients i).proc x ctx k kcp →
    ∃ r ∈ net.allocs, r.client = i ∧ r.conv = kcp.conv

/-- No client has two sessions. -/
def Single (net : Net ι) : Prop :=
  ∀ i x y, (net.clients i).proc.ctxs x ≠ none → (net.clients i).proc.ctxs y ≠ none → x = y

/-- KCP data that the server hands to a session of its table was sent by the client whose SYN
opened that session. -/
def Fed (net : Net ι) : Prop :=
  ∀ i (n : ℕ) (pkt : Packet) c, (net.clients i).proc.outbox[n]? = some pkt →
    classify pkt.bytes = .kcp c → c ∈ net.server.kcpMap →
    ∃ r ∈ net.allocs, r.client = i ∧ r.conv = c ∧ ∀ r' ∈ net.allocs, r'.conv = c → r' = r

/-- **What the handshake guarantees.** The number a client installs is one allocated for it, off by
the keys of the SYN that was answered and of its latest SYN; so it is the allocated one, and no
session is fed by another client, as long as every ACK answers the latest SYN. As long as every ACK
finds its client's connect timer armed, no client has two sessions. -/
theorem handshake_agreement [DecidableEq ι] (A : Addresses ι) :
    (∀ net env i n net', ((lts A).restrict NotWrapped).Reachable net →
      (lts A).step net (.toClient env i n) net' →
      ∀ x ctx k kcp, Live (net'.clients i).proc x ctx k kcp →
        (∃ ctx₀ kcp₀, Live (net.clients i).proc x ctx₀ k kcp₀ ∧ kcp.conv = kcp₀.conv) ∨
        ∃ r ∈ net.allocs, r.client = i ∧ r.ack = n ∧ ∃ key, SynAt (net.clients i) r.syn key ∧
          kcp.conv = r.conv ^^^ key ^^^ (net.clients i).key) ∧
    (∀ net, (((lts A).restrict NotWrapped).restrict AnswersLatest).Reachable net →
      Installed net ∧ Fed net) ∧
    ∀ net, (((lts A).restrict NotWrapped).restrict FindsArmed).Reachable net → Single net := by
  refine ⟨?_, fun net h ↦ ?_, fun net h i ↦ ((lone_inductive.reachable h).2 i).single⟩
  · intro net env i n net' h hstep x ctx k kcp hl
    have htraced := traced_inductive.reachable h
    obtain ⟨pkt, c, hpkt, hdest, hs, rfl⟩ := hstep
    rw [setClient_self] at hl
    have hout := Client.step_outcome (htraced.clients i) hs
    apply (hout.live_of_live (htraced.clients i) hl).imp_right
    rintro ⟨env', addr, data, a, he, hkind, hconv⟩
    cases he
    obtain ⟨r, hr, hi, hack, key, hsyn, heq⟩ := htraced.decoded hpkt hdest hkind
    exact ⟨r, hr, hi, hack, key, hsyn, hconv.trans heq⟩
  · obtain ⟨htraced, halloc⟩ := allocated_inductive.reachable h
    refine ⟨halloc.session, ?_⟩
    intro i n pkt c hpkt hkind _
    obtain ⟨r, hr, hi, hconv⟩ := halloc.datagram i n pkt c hpkt hkind
    exact ⟨r, hr, hi, hconv, fun r' hr' hconv' ↦
      htraced.once r' hr' r hr (hconv'.trans hconv.symm)⟩

/-! ### Two clients -/

def twoClients : Addresses Bool where
  server := .inet 0 0
  client := ⟨fun i ↦ .inet 0 (if i then 2 else 1), by
    intro i j h
    cases i <;> cases j <;> simp_all⟩

/-- Both have sent a SYN with key 1. -/
def started : Net Bool where
  clients _ := Client.connect { rand := 1 } {}

/-- The server answers the first SYN of client `i`. -/
def answer (net : Net Bool) (i : Bool) : Net Bool :=
  { net with
    server := Server.synAnswered net.server (twoClients.client i) 1
    allocs := net.allocs ++ [⟨i, 0, net.server.sConv + 1, net.server.outbox.length⟩] }

/-- Both SYNs have been answered. -/
def answered : Net Bool := (started.answer false).answer true

theorem step_answer {net : Net Bool} {i : Bool} (h : net.clients = started.clients) :
    (lts twoClients).step net (.toServer {} i 0) (net.answer i) := by
  refine ⟨⟨none, udpPacket 1 1⟩, _, ?_, Server.step_syn net.server ⟨rfl, rfl⟩ _ 1, ?_⟩
  · rw [h]
    rfl
  · rw [allocation_of_syn (classify_syn 1) ⟨rfl, rfl⟩]
    rfl

theorem sConv_answer (net : Net Bool) (i : Bool) :
    (net.answer i).server.sConv = net.server.sConv + 1 := Server.sConv_synAnswered _ _ _

theorem outbox_answer (net : Net Bool) (i : Bool) : (net.answer i).server.outbox =
    net.server.outbox ++ [⟨some (twoClients.client i), udpPacket 2 ((net.server.sConv + 1) ^^^ 1)⟩] :=
  Server.outbox_synAnswered _ _ _

theorem sConv_answered : answered.server.sConv = 1002 := by
  rw [answered, sConv_answer, sConv_answer]
  rfl

theorem outbox_answered : answered.server.outbox[0]? =
    some ⟨some (twoClients.client false), udpPacket 2 (1001 ^^^ 1)⟩ := by
  rw [answered, outbox_answer, outbox_answer]
  rfl

theorem allocs_answered : answered.allocs = [⟨false, 0, 1001, 0⟩, ⟨true, 0, 1002, 1⟩] := by
  have hconv : (started.answer false).server.sConv = 1001 := sConv_answer _ _
  have hlen : (started.answer false).server.outbox.length = 1 := by
    rw [outbox_answer]
    rfl
  rw [answered, answer, hconv, hlen]
  rfl

theorem mem_kcpMap_answered : 1002 ∈ answered.server.kcpMap := by
  have hconv : (started.answer false).server.sConv = 1001 := sConv_answer _ _
  have hempty : (started.server.sConv + 1) ∉ started.server.kcpMap := AList.notMem_empty _
  have hfresh : (started.answer false).server.sConv + 1 ∉ (started.answer false).server.kcpMap := by
    rw [hconv, answer, Server.kcpMap_synAnswered hempty, AList.mem_insert]
    rintro (heq | hmem)
    · exact absurd heq (by decide)
    · exact absurd hmem (AList.notMem_empty _)
  rw [answered, answer, Server.kcpMap_synAnswered hfresh, AList.mem_insert, hconv]
  exact .inl rfl

theorem notWrapped_answered {clients : Bool → Client} {e : Event Bool} :
    NotWrapped { answered with clients := clients } e := by
  change answered.server.sConv.toNat + 1 < 2 ^ 32
  rw [sConv_answered]
  decide

/-- A first SYN meets every condition on ACKs. -/
theorem reachable_answered {C : Net Bool → Event Bool → Prop}
    (hC : ∀ net env i n, C net (.toServer env i n)) :
    (((lts twoClients).restrict NotWrapped).restrict C).Reachable answered := by
  have hstart : (((lts twoClients).restrict NotWrapped).restrict C).Reachable started :=
    .init ⟨rfl, rfl, fun _ ↦ ⟨_, rfl⟩⟩
  have hwrap : NotWrapped started (.toServer {} false 0) := by
    change (1000 : UInt32).toNat + 1 < 2 ^ 32
    decide
  have hwrap' : NotWrapped (started.answer false) (.toServer {} true 0) := by
    rw [NotWrapped, sConv_answer]
    change (1001 : UInt32).toNat + 1 < 2 ^ 32
    decide
  exact .step (.step hstart ⟨⟨step_answer rfl, hwrap⟩, hC _ _ _ _⟩)
    ⟨⟨step_answer rfl, hwrap'⟩, hC _ _ _ _⟩

/-- The ACK for 1001 reaches its client, whichever state that is in. -/
theorem step_ack_answered (clients : Bool → Client) :
    (lts twoClients).step { answered with clients := clients } (.toClient {} false 0)
      (setClient { answered with clients := clients } false
        (Client.ackInstalled {} (clients false) (.inet 0 0) (1001 ^^^ 1 ^^^ (clients false).key))) :=
  ⟨_, _, outbox_answered, rfl, Client.step_ack _ ⟨rfl, rfl⟩ _ _, rfl⟩

/-- The ACK comes before the timer: it meets both conditions. -/
theorem handshake_agreement_on_prompt_ack : ∃ net : Net Bool,
    (Installed net ∧ Fed net) ∧ Single net ∧
      ∃ x ctx k, Live (net.clients false).proc x ctx k (configuredKcp 1001 x) := by
  obtain ⟨-, hagree, hsingle⟩ := handshake_agreement twoClients
  have hlatest : AnswersLatest answered (.toClient {} false 0) := by
    intro r hr hack
    rw [allocs_answered] at hr
    rcases List.mem_cons.mp hr with rfl | hr
    · rintro m key hlt ⟨pkt, hpkt, -⟩
      have hm : m < 1 := (List.getElem?_eq_some_iff.mp hpkt).1
      exact absurd hlt (Nat.not_lt.mpr (Nat.lt_succ_iff.mp hm))
    · obtain rfl := List.mem_singleton.mp hr
      exact absurd hack (by decide)
  have hfinds : FindsArmed answered (.toClient {} false 0) := fun _ _ _ _ ↦ rfl
  have hstep := step_ack_answered started.clients
  have hkey : 1001 ^^^ 1 ^^^ (started.clients false).key = 1001 := by decide
  rw [hkey] at hstep
  obtain ⟨ctx, hlive, -⟩ := @Client.live_ackInstalled {} (started.clients false) (.inet 0 0) 1001
    (Client.sturdy_init { rand := 1 }).sound
  refine ⟨_, hagree _ (.step (reachable_answered fun _ _ _ _ ↦ trivial)
      ⟨⟨hstep, notWrapped_answered⟩, hlatest⟩),
    hsingle _ (.step (reachable_answered fun _ _ _ _ ↦ trivial)
      ⟨⟨hstep, notWrapped_answered⟩, hfinds⟩), 0, ctx, 1, ?_⟩
  rw [setClient_self]
  exact hlive

/-! ### ACKs that come late, and twice -/

section Disagreement

/-- A state of the two clients, whenever ACKs come. -/
abbrev Arises (net : Net Bool) : Prop := ((lts twoClients).restrict NotWrapped).Reachable net

theorem arises_answered : Arises answered :=
  (@reachable_answered (fun _ _ ↦ True) fun _ _ _ _ ↦ trivial).of_restrict

/-- The client of the first ACK once its timer has expired; its new key is 2. -/
def lateClient : Client := Client.connectTimeoutCb { rand := 2 } (started.clients false)

theorem arises_late : Arises (answered.setClient false lateClient) :=
  @Lts.Reachable.step _ _ _ _ _ (.connectTimeout { rand := 2 } false) arises_answered
    ⟨⟨lateClient, ⟨rfl, rfl⟩, rfl⟩, notWrapped_answered⟩

/-- The same client after the ACK, with the number of the other. -/
def crossedClient : Client := Client.ackInstalled {} lateClient (.inet 0 0) 1002

theorem arises_crossed :
    Arises ((answered.setClient false lateClient).setClient false crossedClient) := by
  have hstep := step_ack_answered (answered.setClient false lateClient).clients
  have hkey : 1001 ^^^ 1 ^^^ ((answered.setClient false lateClient).clients false).key = 1002 := by
    rw [setClient_self]
    decide
  rw [hkey, setClient_self] at hstep
  exact .step arises_late ⟨hstep, notWrapped_answered⟩

theorem sturdy_crossed : Client.Sturdy crossedClient := by
  have h := (traced_inductive.reachable arises_crossed).clients false
  rwa [setClient_self] at h

theorem live_crossed : ∃ ctx, Live crossedClient.proc 0 ctx 1 (configuredKcp 1002 0) ∧
    ctx.sendTimer ≠ none := by
  have h := (traced_inductive.reachable arises_late).clients false
  rw [setClient_self] at h
  obtain ⟨ctx, hlive, -, -, hsend⟩ :=
    @Client.live_ackInstalled {} lateClient (.inet 0 0) 1002 h.sound
  exact ⟨ctx, hlive, hsend.mpr rfl⟩

/-- The session of a client says something once both of its timers have fired. -/
theorem speaks {c : Client} (h : Client.Sturdy c) {x k : Ptr} {ctx : KcpContext} {kcp : Ikcpcb}
    (hlive : Live c.proc x ctx k kcp) (hsend : ctx.sendTimer ≠ none)
    (hout : (ikcpUpdate (sendMessages 1 kcp) 0).2 ≠ []) :
    ∃ s t c₁ c₂, Client.lts.step c (.timer {} s) c₁ ∧ Client.lts.step c₁ (.timer {} t) c₂ ∧
      ∃ pkt ∈ c₂.proc.outbox, classify pkt.bytes = .kcp kcp.conv := by
  obtain ⟨s, hs⟩ := Option.ne_none_iff_exists'.mp hsend
  obtain ⟨t, ht⟩ := Option.ne_none_iff_exists'.mp hlive.timed
  have hevolves := sendMessages_evolves 1 kcp
  set p₁ := (c.proc.uses [.ctx x, .kcp k]).used x ctx k (sendMessages 1 kcp) with hp₁
  have hlive₁ : Live p₁ x ctx k (sendMessages 1 kcp) :=
    (hlive.uses _).used_self (.of_evolves ctx hevolves)
  have hfirst : Client.lts.step c (.timer {} s) { c with proc := p₁ } := by
    have hlookup := hlive.timers .sendTimerCb s hs
    refine ⟨AList.lookup_isSome.mp (by rw [hlookup]; rfl), ?_⟩
    rw [Client.handle, hlookup]
    dsimp only
    rw [Client.sendTimerCb, sendTimerCb_eq hlive hlookup]
    rfl
  have hsecond : Client.lts.step { c with proc := p₁ } (.timer {} t) { c with
      proc := ticked Client.kcpOutput {} p₁ x ctx k (sendMessages 1 kcp) } := by
    have hlookup := hlive₁.timers .updateTimerCb t ht
    have hquiet : ¬isTimeout {} ctx = true := by
      rw [isTimeout, if_pos (h.unstamped x ctx hlive.ctx_at)]
      exact Bool.false_ne_true
    refine ⟨AList.lookup_isSome.mp (by rw [hlookup]; rfl), ?_⟩
    rw [Client.handle, hlookup]
    dsimp only
    rw [Client.updateTimerCb, updateTimerCb_eq hlive₁ hlookup, if_neg hquiet]
    rfl
  obtain ⟨d, hd⟩ := List.exists_mem_of_ne_nil _ hout
  refine ⟨s, t, _, _, hfirst, hsecond, ⟨Client.kcpOutput ctx, d⟩,
    List.mem_append_right _ (List.mem_map.mpr ⟨d, hd, rfl⟩), ?_⟩
  rw [← hevolves.conv_eq]
  exact (hlive₁.framed.update_datagram 0 d hd).classify_eq

/-- **An ACK comes late**, and its client installs the number of the other one. -/
theorem not_installed_crossed :
    ¬Installed ((answered.setClient false lateClient).setClient false crossedClient) := by
  intro h
  obtain ⟨ctx, hlive, -⟩ := live_crossed
  obtain ⟨r, hr, hi, hconv⟩ := h false 0 ctx 1 (configuredKcp 1002 0) (by rwa [setClient_self])
  have hr : r ∈ answered.allocs := hr
  rw [allocs_answered] at hr
  rcases List.mem_cons.mp hr with rfl | hr
  · exact absurd hconv (by decide)
  · obtain rfl := List.mem_singleton.mp hr
    exact nomatch hi

/-- Its data then go to the session of the other. -/
theorem exists_not_fed : ∃ net, Arises net ∧ ¬Fed net := by
  obtain ⟨ctx, hlive, hsend⟩ := live_crossed
  obtain ⟨s, t, c₁, c₂, hfirst, hsecond, pkt, hpkt, hkind⟩ :=
    speaks sturdy_crossed hlive hsend (by decide)
  obtain ⟨n, hn⟩ := List.mem_iff_getElem?.mp hpkt
  have hone : Arises
      (((answered.setClient false lateClient).setClient false crossedClient).setClient false c₁) :=
    @Lts.Reachable.step _ _ _ _ _ (.clientTimer {} false s) arises_crossed
      ⟨⟨c₁, by rwa [setClient_self], rfl⟩, notWrapped_answered⟩
  have htwo : Arises ((((answered.setClient false lateClient).setClient false
      crossedClient).setClient false c₁).setClient false c₂) :=
    @Lts.Reachable.step _ _ _ _ _ (.clientTimer {} false t) hone
      ⟨⟨c₂, by rwa [setClient_self], rfl⟩, notWrapped_answered⟩
  refine ⟨_, htwo, fun hfed ↦ ?_⟩
  obtain ⟨r, hr, hi, hconv, -⟩ :=
    hfed false n pkt 1002 (by rwa [setClient_self]) hkind mem_kcpMap_answered
  have hr : r ∈ answered.allocs := hr
  rw [allocs_answered] at hr
  rcases List.mem_cons.mp hr with rfl | hr
  · exact absurd hconv (by decide)
  · obtain rfl := List.mem_singleton.mp hr
    exact nomatch hi

/-- **An ACK comes twice**, and its client has two sessions. -/
theorem exists_not_single : ∃ net, Arises net ∧ ¬Single net := by
  set c₁ := Client.ackInstalled {} (started.clients false) (.inet 0 0)
    (1001 ^^^ 1 ^^^ (started.clients false).key) with hc₁
  have hone : Arises (answered.setClient false c₁) :=
    .step arises_answered ⟨step_ack_answered started.clients, notWrapped_answered⟩
  have hstep := step_ack_answered (answered.setClient false c₁).clients
  rw [setClient_self] at hstep
  refine ⟨_, .step hone ⟨hstep, notWrapped_answered⟩, fun hsingle ↦ ?_⟩
  have hsound : Sound c₁.proc := by
    have h := (traced_inductive.reachable hone).clients false
    rw [setClient_self] at h
    exact h.sound
  obtain ⟨ctx, hlive, -⟩ := @Client.live_ackInstalled {} (started.clients false) (.inet 0 0)
    (1001 ^^^ 1 ^^^ (started.clients false).key) (Client.sturdy_init { rand := 1 }).sound
  obtain ⟨ctx', hlive', -⟩ :=
    @Client.live_ackInstalled {} c₁ (.inet 0 0) (1001 ^^^ 1 ^^^ c₁.key) hsound
  have hold := @Client.live_ackInstalled_of_live {} c₁ (.inet 0 0) (1001 ^^^ 1 ^^^ c₁.key) hsound
    _ _ _ _ hlive
  have heq := hsingle false _ _ (by rw [setClient_self, hold.ctx_at]; exact Option.some_ne_none _)
    (by rw [setClient_self, hlive'.ctx_at]; exact Option.some_ne_none _)
  exact absurd heq (hsound.ctx_lt hlive.ctx_at).ne

end Disagreement

/-- What the handshake does not guarantee, all three for one reason: the client takes any ACK. -/
theorem handshake_disagrees :
    (∃ net, ((lts twoClients).restrict NotWrapped).Reachable net ∧ ¬Installed net) ∧
    (∃ net, ((lts twoClients).restrict NotWrapped).Reachable net ∧ ¬Single net) ∧
    ∃ net, ((lts twoClients).restrict NotWrapped).Reachable net ∧ ¬Fed net :=
  ⟨⟨_, arises_crossed, not_installed_crossed⟩, exists_not_single, exists_not_fed⟩

end Net
end KcpEcho
