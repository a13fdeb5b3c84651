import KcpEcho.Process.Ownership

/-!
# The handlers, branch by branch

What each branch of `udp_recv_cb` and each timer callback leaves behind, as an equation in the
operations of `KcpEcho.Process.Ownership`. On a sound process every branch has a result: none of
them follows a pointer to a dead object. Later proofs cite these equations and never unfold a
handler.
-/

namespace KcpEcho

open Lifetime

namespace Proc

/-- One step of a handler. -/
theorem some_bind {α β : Type} (a : α) (f : α → Option β) : (some a >>= f) = f a := rfl

/-! ## Recording accesses -/

/-- The process after a number of accesses. -/
def uses (p : Proc) (os : List Obj) : Proc :=
  { p with trace := p.trace ++ os.map .use }

theorem use_eq_uses (p : Proc) (o : Obj) : p.use o = p.uses [o] := rfl

@[simp] theorem uses_uses (p : Proc) (os os' : List Obj) :
    (p.uses os).uses os' = p.uses (os ++ os') := by
  simp [uses]

theorem grown_uses (p : Proc) (os : List Obj) : Grown p (p.uses os) :=
  ⟨rfl, rfl, rfl, rfl, le_rfl⟩

theorem grown_sendUdpPacket (p : Proc) (dest : Option SockAddr) (cmd : UInt8) (conv : UInt32) :
    Grown p (p.sendUdpPacket dest cmd conv) := ⟨rfl, rfl, rfl, rfl, le_rfl⟩

theorem readKcp_eq {p : Proc} {k : Ptr} {kcp : Ikcpcb} (h : p.kcps k = some kcp) :
    p.readKcp k = some (p.uses [.kcp k], kcp) := by
  rw [readKcp, h]
  rfl

theorem readCtx_eq {p : Proc} {x : Ptr} {ctx : KcpContext} (h : p.ctxs x = some ctx) :
    p.readCtx x = some (p.uses [.ctx x], ctx) := by
  rw [readCtx, h]
  rfl

theorem ikcpRelease_eq {p : Proc} {k : Ptr} {kcp : Ikcpcb} (h : p.kcps k = some kcp) :
    p.ikcpRelease k = some { p with
      kcps := Function.update p.kcps k none
      trace := p.trace ++ [.use (.kcp k), .finish (.kcp k)] } := by
  rw [ikcpRelease, readKcp_eq h, some_bind]
  simp [uses, finish]

theorem freeCtx_eq {p : Proc} {x : Ptr} {ctx : KcpContext} (h : p.ctxs x = some ctx) :
    p.freeCtx x = some { p with
      ctxs := Function.update p.ctxs x none
      trace := p.trace ++ [.finish (.ctx x)] } := by
  rw [freeCtx, h]
  rfl

section Live

variable {p : Proc} {x k : Ptr} {ctx : KcpContext} {kcp : Ikcpcb}

theorem Live.uses (h : Live p x ctx k kcp) (os : List Obj) : Live (p.uses os) x ctx k kcp :=
  (p.grown_uses os).live.mpr h

/-- Writing a control block back is a use of its session. -/
theorem Live.setKcp_eq (h : Live p x ctx k kcp) (kcp' : Ikcpcb) :
    p.setKcp k kcp' = p.used x ctx k kcp' := by
  have hself : Function.update p.ctxs x (some ctx) = p.ctxs :=
    Function.update_eq_self_iff.mpr h.ctx_at.symm
  rw [used, hself]
  rfl

theorem Live.deleteCtx_eq (h : Live p x ctx k kcp) : p.deleteCtx x = some (p.deleted x ctx k) :=
  Proc.deleteCtx_eq h.ctx_at h.kcp_eq h.kcp_at h.timers

end Live

/-! ## Changes

Apart from opening a session and from the error path of the client, a handler leaves the objects
alone, uses one session, or ends one that the table knows. -/

/-- What a handler may do to the objects. `stamps` says whether the program notes when it has last
heard from a session. -/
inductive Change (stamps : Prop) (p p' : Proc) : Prop
  | idle (h : Grown p p')
  | used {x k : Ptr} {ctx ctx' : KcpContext} {kcp kcp' : Ikcpcb} (hlive : Live p x ctx k kcp)
      (hmoved : Moved ctx ctx' kcp kcp')
      (hstamp : ctx'.lastRecvTime = ctx.lastRecvTime ∨
        (stamps ∧ p.kcpMap.lookup kcp.conv = some k))
      (h : Grown (p.used x ctx' k kcp') p')
  | ended {x k : Ptr} {ctx : KcpContext} {kcp : Ikcpcb} (hlive : Live p x ctx k kcp)
      (hmap : p.kcpMap.lookup kcp.conv = some k) (h : Grown (p.ended kcp.conv x ctx k) p')

/-- Ending a session forgets what it was used for before. -/
theorem ended_used {p : Proc} {c : UInt32} {x k : Ptr} {ctx : KcpContext} {kcp : Ikcpcb} :
    Grown (p.ended c x ctx k) ((p.used x ctx k kcp).ended c x ctx k) :=
  ⟨Function.update_idem _ _ _, Function.update_idem _ _ _, rfl, rfl, le_rfl⟩

section Change

variable {stamps : Prop} {p p' : Proc}

theorem Change.sound (h : Change stamps p p') (hp : Sound p) : Sound p' := by
  cases h with
  | idle h => exact h.sound hp
  | used hlive hmoved _ h => exact h.sound (hp.used hlive hmoved)
  | ended hlive hmap h => exact h.sound (removed_ended.sound hp hlive hmap)

theorem Change.timersOwned (h : Change stamps p p') (ho : TimersOwned p) : TimersOwned p' := by
  cases h with
  | idle h => exact h.timersOwned ho
  | used hlive hmoved _ h => exact h.timersOwned (ho.used hlive hmoved)
  | ended hlive _ h => exact h.timersOwned (ho.ended hlive)

/-- A context that is there afterwards was there before, and is listed if it was. -/
theorem Change.listed (h : Change stamps p p') {y : Ptr} {ctx' : KcpContext}
    (hy : p'.ctxs y = some ctx') :
    ∃ ctx, p.ctxs y = some ctx ∧ (Listed p y → Listed p' y) ∧
      (ctx'.lastRecvTime = ctx.lastRecvTime ∨ (stamps ∧ Listed p y)) := by
  cases h with
  | idle h => exact ⟨ctx', h.ctxs ▸ hy, h.listed.mpr, .inl rfl⟩
  | @used x k ctx₀ ctx₁ kcp kcp' hlive hmoved hstamp h =>
    have hlisted : Listed p y → Listed p' y := fun hl ↦ h.listed.mpr (hl.used hlive hmoved)
    rw [h.ctxs] at hy
    rcases eq_or_ne y x with rfl | hne
    · obtain rfl : ctx₁ = ctx' := Option.some.inj ((Function.update_self y _ p.ctxs).symm.trans hy)
      refine ⟨ctx₀, hlive.ctx_at, hlisted, hstamp.imp_right fun ⟨hs, hmap⟩ ↦ ?_⟩
      exact ⟨hs, ctx₀, k, kcp, hlive, hmap⟩
    · exact ⟨ctx', (Function.update_of_ne hne _ _).symm.trans hy, hlisted, .inl rfl⟩
  | @ended x k ctx₀ kcp hlive hmap h =>
    rw [h.ctxs] at hy
    rcases eq_or_ne y x with rfl | hne
    · exact nomatch (Function.update_self y _ p.ctxs).symm.trans hy
    · exact ⟨ctx', (Function.update_of_ne hne _ _).symm.trans hy,
        fun hl ↦ h.listed.mpr (removed_ended.listed hlive hmap hl hne), .inl rfl⟩

/-- A session that is there afterwards was there before, under the same number. -/
theorem Change.live_of_live (h : Change stamps p p') (hp : Sound p) {y j : Ptr}
    {ctx' : KcpContext} {kcp' : Ikcpcb} (hl : Live p' y ctx' j kcp') :
    ∃ ctx kcp, Live p y ctx j kcp ∧ kcp'.conv = kcp.conv := by
  obtain ⟨ctx, hctx, -⟩ := h.listed hl.ctx_at
  obtain ⟨k, kcp, hlive⟩ := hp.ctx_live y ctx hctx
  cases h with
  | idle h =>
    obtain ⟨-, rfl, rfl⟩ := (h.live.mpr hlive).unique hl
    exact ⟨ctx, kcp', hlive, rfl⟩
  | @used x k₀ ctx₀ ctx₁ kcp₀ kcp₁ hlive₀ hmoved _ h =>
    rcases eq_or_ne y x with rfl | hne
    · obtain ⟨-, rfl, rfl⟩ := (h.live.mpr (hlive₀.used_self hmoved)).unique hl
      exact ⟨ctx₀, kcp₀, hlive₀, hmoved.conv_eq⟩
    · obtain ⟨-, rfl, rfl⟩ := (h.live.mpr (hlive₀.used_of_ne hlive hne)).unique hl
      exact ⟨ctx, kcp', hlive, rfl⟩
  | @ended x k₀ ctx₀ kcp₀ hlive₀ hmap h =>
    have hne : y ≠ x := by
      rintro rfl
      have hgone := hl.ctx_at
      rw [h.ctxs] at hgone
      exact nomatch (Function.update_self y _ p.ctxs).symm.trans hgone
    obtain ⟨-, rfl, rfl⟩ := (h.live.mpr (removed_ended.live hlive₀ hlive hne)).unique hl
    exact ⟨ctx, kcp', hlive, rfl⟩

end Change

/-! ## Timers -/

/-- The datagrams of an update, one `kcp_output` each. -/
theorem kcpOutput_eq {dest : KcpContext → Option SockAddr} {user : Ptr} {ctx : KcpContext}
    (out : List (List UInt8)) {p : Proc} (h : p.ctxs user = some ctx) :
    kcpOutput dest user out p = some { p with
      trace := p.trace ++ List.replicate out.length (.use (.ctx user))
      outbox := p.outbox ++ out.map (Packet.mk (dest ctx)) } := by
  induction out generalizing p with
  | nil => simp [kcpOutput]
  | cons data out ih =>
    have hnext : ((p.uses [.ctx user]).sendKcpPacket (dest ctx) data).ctxs user = some ctx := h
    rw [kcpOutput, readCtx_eq h, some_bind]
    dsimp only
    rw [ih hnext]
    simp [uses, sendKcpPacket, List.replicate_succ]

/-- The process after `ikcp_update` of session `x` and its output. -/
def ticked (dest : KcpContext → Option SockAddr) (env : Env) (p : Proc) (x : Ptr)
    (ctx : KcpContext) (k : Ptr) (kcp : Ikcpcb) : Proc :=
  { p.used x ctx k (ikcpUpdate kcp env.now32).1 with
    trace := p.trace ++ (([.ctx x, .kcp k] ++ List.replicate (ikcpUpdate kcp env.now32).2.length
      (.ctx x) ++ [.ctx x] : List Obj).map .use)
    outbox := p.outbox ++ (ikcpUpdate kcp env.now32).2.map (Packet.mk (dest ctx)) }

section Ticked

variable {dest : KcpContext → Option SockAddr} {env : Env} {p : Proc} {x k t : Ptr}
  {ctx : KcpContext} {kcp : Ikcpcb}

theorem grown_ticked : Grown (p.used x ctx k (ikcpUpdate kcp env.now32).1)
    (ticked dest env p x ctx k kcp) := ⟨rfl, rfl, rfl, rfl, le_rfl⟩

theorem Live.ticked (h : Live p x ctx k kcp) :
    Live (ticked dest env p x ctx k kcp) x ctx k (ikcpUpdate kcp env.now32).1 :=
  grown_ticked.live.mpr (h.used_self (.of_evolves ctx (.update kcp _)))

theorem updateTimerCb_eq (h : Live p x ctx k kcp)
    (ht : p.timers.lookup t = some ⟨.updateTimerCb, x⟩) :
    updateTimerCb dest env p t =
      if isTimeout env ctx then
        let q := ((ticked dest env p x ctx k kcp).uses [.kcp k]).sendUdpPacket (some ctx.addr) 3
          kcp.conv
        if kcp.conv ∈ p.kcpMap then some (q.ended kcp.conv x ctx k) else some q
      else some (ticked dest env p x ctx k kcp) := by
  have hlive := @Live.ticked dest env p x k ctx kcp h
  have huser : (ikcpUpdate kcp env.now32).1.user = x :=
    (Evolves.update kcp env.now32).user_eq.trans h.user_eq
  have hconv : (ikcpUpdate kcp env.now32).1.conv = kcp.conv :=
    (Evolves.update kcp env.now32).conv_eq
  have hout : kcpOutput dest (ikcpUpdate kcp env.now32).1.user (ikcpUpdate kcp env.now32).2
      (((p.uses [.ctx x]).uses [.kcp k]).setKcp k (ikcpUpdate kcp env.now32).1) =
        some { p.used x ctx k (ikcpUpdate kcp env.now32).1 with
          trace := p.trace ++ (([.ctx x, .kcp k] ++
            List.replicate (ikcpUpdate kcp env.now32).2.length (.ctx x) : List Obj).map .use)
          outbox := p.outbox ++ (ikcpUpdate kcp env.now32).2.map (Packet.mk (dest ctx)) } := by
    rw [uses_uses, (h.uses _).setKcp_eq, huser, kcpOutput_eq _ (Function.update_self _ _ _)]
    simp [used, uses]
  -- the output callback has touched nothing but the trace and the outbox
  have hread : readCtx { p.used x ctx k (ikcpUpdate kcp env.now32).1 with
      trace := p.trace ++ (([.ctx x, .kcp k] ++
        List.replicate (ikcpUpdate kcp env.now32).2.length (.ctx x) : List Obj).map .use)
      outbox := p.outbox ++ (ikcpUpdate kcp env.now32).2.map (Packet.mk (dest ctx)) } x =
        some (Proc.ticked dest env p x ctx k kcp, ctx) := by
    rw [readCtx_eq (Function.update_self _ _ _)]
    simp [uses, Proc.ticked]
  have hmap : (Proc.ticked dest env p x ctx k kcp).kcpMap = p.kcpMap := rfl
  rw [updateTimerCb, ht, some_bind]
  dsimp only
  rw [readCtx_eq h.ctx_at, some_bind]
  dsimp only
  rw [h.kcp_eq, some_bind, readKcp_eq (h.uses _).kcp_at, some_bind]
  dsimp only
  rw [hout, some_bind, hread, some_bind]
  dsimp only
  refine if_congr Iff.rfl ?_ rfl
  rw [readKcp_eq hlive.kcp_at, some_bind]
  dsimp only
  rw [hconv]
  -- timed out: the FIN goes first, then the session
  have hdel : Live (((Proc.ticked dest env p x ctx k kcp).uses [.kcp k]).sendUdpPacket
      (some ctx.addr) 3 kcp.conv) x ctx k (ikcpUpdate kcp env.now32).1 :=
    (grown_sendUdpPacket _ _ _ _).live.mpr (hlive.uses _)
  rw [hdel.deleteCtx_eq, some_bind]
  rfl

end Ticked

theorem sendMessages_evolves (n : ℕ) (kcp : Ikcpcb) : Evolves kcp (sendMessages n kcp) := by
  induction n generalizing kcp with
  | zero => exact .refl kcp
  | succ n ih => exact (Evolves.after kcp (.send _)).trans (ih _)

theorem sendTimerCb_eq {env : Env} {p : Proc} {x k t : Ptr} {ctx : KcpContext} {kcp : Ikcpcb}
    (h : Live p x ctx k kcp) (ht : p.timers.lookup t = some ⟨.sendTimerCb, x⟩) :
    sendTimerCb env p t = some ((p.uses [.ctx x, .kcp k]).used x ctx k
      (sendMessages (env.rand.toNat % 10 + 1) kcp)) := by
  rw [sendTimerCb, ht, some_bind]
  dsimp only
  rw [readCtx_eq h.ctx_at, some_bind]
  dsimp only
  rw [h.kcp_eq, some_bind, readKcp_eq (h.uses _).kcp_at, some_bind]
  dsimp only
  rw [uses_uses, (h.uses _).setKcp_eq]
  rfl

/-! ## What is said

Apart from a SYN and its answer, a handler sends FINs and the KCP data of a session. -/

/-- The outbox has grown by FINs and by KCP data of sessions of `p`. -/
def Utters (p p' : Proc) : Prop :=
  ∃ out, p'.outbox = p.outbox ++ out ∧ ∀ pkt ∈ out, (∃ conv, pkt.bytes = udpPacket 3 conv) ∨
    ∃ x ctx k kcp, Live p x ctx k kcp ∧ SessionDatagram kcp.conv pkt.bytes

section Utters

variable {p p' : Proc} {x k : Ptr} {ctx : KcpContext} {kcp : Ikcpcb}

theorem Utters.nothing (h : p'.outbox = p.outbox) : Utters p p' :=
  ⟨[], by rw [h, List.append_nil], fun _ h ↦ absurd h List.not_mem_nil⟩

theorem Utters.fin {p₁ : Proc} (h : Utters p p₁) {dest : Option SockAddr} {conv : UInt32}
    (hout : p'.outbox = p₁.outbox ++ [⟨dest, udpPacket 3 conv⟩]) : Utters p p' := by
  obtain ⟨out, hout₁, hsaid⟩ := h
  refine ⟨out ++ [⟨dest, udpPacket 3 conv⟩], by rw [hout, hout₁, List.append_assoc], ?_⟩
  intro pkt hpkt
  rcases List.mem_append.mp hpkt with hmem | hmem
  · exact hsaid pkt hmem
  · obtain rfl := List.mem_singleton.mp hmem
    exact .inl ⟨conv, rfl⟩

theorem Utters.ticked (dest : KcpContext → Option SockAddr) (env : Env) (h : Live p x ctx k kcp) :
    Utters p (ticked dest env p x ctx k kcp) := by
  refine ⟨_, rfl, ?_⟩
  intro pkt hpkt
  obtain ⟨d, hd, rfl⟩ := List.mem_map.mp hpkt
  exact .inr ⟨x, ctx, k, kcp, h, h.framed.update_datagram env.now32 d hd⟩

end Utters

end Proc

/-! ## The dispatch

Both `udp_recv_cb` sort a datagram by its length and its command byte in the same way. -/

/-- What a received datagram is taken for. -/
inductive DatagramKind
  | syn (key : UInt32)
  | ack (convOrKey : UInt32)
  | fin (conv : UInt32)
  | kcp (conv : UInt32)
  /-- Too short, or an unknown command. -/
  | other
  deriving DecidableEq, Repr

/-- The length and command tests of `udp_recv_cb`. -/
def classify (data : List UInt8) : DatagramKind :=
  if data.length < 5 then .other
  else if data.length < 24 then
    if commandByte data = 1 then .syn (decode32u data)
    else if commandByte data = 2 then .ack (decode32u data)
    else if commandByte data = 3 then .fin (decode32u data)
    else .other
  else .kcp (decode32u data)

theorem classify_syn (key : UInt32) : classify (udpPacket 1 key) = .syn key := by
  simp [classify]

theorem classify_ack (convOrKey : UInt32) : classify (udpPacket 2 convOrKey) = .ack convOrKey := by
  simp [classify]

theorem classify_fin (conv : UInt32) : classify (udpPacket 3 conv) = .fin conv := by
  simp [classify]

theorem classify_of_length_ge {data : List UInt8} (h : 24 ≤ data.length) :
    classify data = .kcp (decode32u data) := by
  rw [classify, if_neg (by omega), if_neg (by omega)]

theorem Server.udpRecvCb_eq (env : Env) (addr : SockAddr) (data : List UInt8) (p : Proc) :
    Server.udpRecvCb env addr data p = match classify data with
      | .syn key => Server.recvSyn env addr key p
      | .fin conv => Server.recvFin conv p
      | .kcp conv => Server.recvKcp env addr conv data p
      | .ack _ | .other => some p := by
  rw [Server.udpRecvCb, classify]
  dsimp only
  split_ifs <;> rfl

theorem Client.udpRecvCb_eq (env : Env) (addr : SockAddr) (data : List UInt8) (c : Client) :
    Client.udpRecvCb env addr data c = match classify data with
      | .ack convOrKey => Client.recvAck env addr convOrKey c
      | .fin conv => Client.recvFin env conv c
      | .kcp conv => Client.recvKcp env addr conv data c
      | .syn _ | .other => some c := by
  rw [Client.udpRecvCb, classify]
  dsimp only
  split_ifs <;> rfl

open Proc

/-! ## The server -/

namespace Server

variable {env : Env} {addr : SockAddr} {conv : UInt32} {data : List UInt8} {p : Proc} {x k : Ptr}
  {ctx : KcpContext} {kcp : Ikcpcb}

/-- The process after a SYN has been answered. -/
def synAnswered (p : Proc) (addr : SockAddr) (key : UInt32) : Proc :=
  ((({ p with sConv := p.sConv + 1 }.opened addr (p.sConv + 1)).uses [.ctx p.brk]).emplace
    (p.sConv + 1) (p.brk + 1)).sendUdpPacket (some addr) 2 ((p.sConv + 1) ^^^ key)

theorem outbox_synAnswered (p : Proc) (addr : SockAddr) (key : UInt32) :
    (synAnswered p addr key).outbox =
      p.outbox ++ [⟨some addr, udpPacket 2 ((p.sConv + 1) ^^^ key)⟩] := by
  change (emplace _ _ _).outbox ++ _ = _
  rw [outbox_emplace]
  rfl

theorem sConv_synAnswered (p : Proc) (addr : SockAddr) (key : UInt32) :
    (synAnswered p addr key).sConv = p.sConv + 1 := by
  simp only [synAnswered, sendUdpPacket, emplace]
  split <;> rfl

theorem recvSyn_of_createOk (h : env.CreateOk) (key : UInt32) :
    recvSyn env addr key p = some (synAnswered p addr key) := by
  rw [recvSyn, newKcpContext_of_createOk _ h]
  dsimp only
  rw [readCtx_eq (Function.update_self _ _ _), some_bind]
  rfl

/-- Without memory for the session a SYN is dropped. -/
theorem recvSyn_of_not_createOk (hp : Sound p) (h : ¬env.CreateOk) (key : UInt32) :
    ∃ p', recvSyn env addr key p = some p' ∧ Grown p p' ∧ p'.sConv = p.sConv + 1 ∧
      p'.outbox = p.outbox := by
  have hgrown : Grown p { p with sConv := p.sConv + 1 } := ⟨rfl, rfl, rfl, rfl, le_rfl⟩
  obtain ⟨p₁, ctx, p₂, hnew, hx, hnone, hdel, hp₂, hconv, hout⟩ :=
    newKcpContext_of_not_createOk (hgrown.sound hp) h addr (p.sConv + 1)
  refine ⟨p₂, ?_, hgrown.trans hp₂, hconv, hout⟩
  rw [recvSyn, hnew]
  dsimp only
  rw [readCtx_eq hx, some_bind]
  dsimp only
  rw [use_eq_uses] at hdel
  split
  · rename_i hk ht
    rcases hnone with h | h
    · exact nomatch h.symm.trans hk
    · exact nomatch h.symm.trans ht
  · exact hdel

theorem recvFin_of_unknown (h : p.kcpMap.lookup conv = none) : recvFin conv p = some p := by
  rw [recvFin, h]

theorem recvFin_of_live (hc : p.kcpMap.lookup conv = some k) (h : Live p x ctx k kcp) :
    recvFin conv p = some ((p.uses [.entry conv, .kcp k]).ended conv x ctx k) := by
  rw [recvFin, hc]
  dsimp only
  rw [use_eq_uses, readKcp_eq (h.uses _).kcp_at, some_bind]
  dsimp only
  rw [uses_uses, h.user_eq, (h.uses _).deleteCtx_eq, some_bind]
  rfl

theorem recvKcp_of_unknown (h : p.kcpMap.lookup conv = none) :
    recvKcp env addr conv data p = some (p.sendUdpPacket (some addr) 3 conv) := by
  rw [recvKcp, h]

/-- A datagram `ikcp_input` accepts: the session runs, and its time stamp moves. -/
theorem recvKcp_of_accepted (hc : p.kcpMap.lookup conv = some k) (h : Live p x ctx k kcp)
    (hok : 0 ≤ (ikcpInput kcp data).2) :
    recvKcp env addr conv data p =
      some ((p.uses [.entry conv, .kcp k, .entry conv, .ctx x]).used x
        { ctx with lastRecvTime := env.now32 } k (echo (ikcpInput kcp data).1).1) := by
  have huser : (ikcpInput kcp data).1.user = x := (Evolves.input kcp data).user_eq.trans h.user_eq
  rw [recvKcp, hc]
  dsimp only
  rw [use_eq_uses, readKcp_eq (h.uses _).kcp_at, some_bind]
  dsimp only
  rw [if_neg (not_lt.mpr hok), uses_uses, (h.uses _).setKcp_eq, use_eq_uses, huser,
    readCtx_eq (Function.update_self _ _ _), some_bind]
  simp [uses, used, setCtx, setKcp]

/-- A datagram `ikcp_input` refuses: the session is ended, and the FIN reads its number back
through the erased entry and the released control block. -/
theorem recvKcp_of_refused (hc : p.kcpMap.lookup conv = some k) (h : Live p x ctx k kcp)
    (hbad : (ikcpInput kcp data).2 < 0) :
    recvKcp env addr conv data p =
      some ((((((p.uses [.entry conv, .kcp k]).used x ctx k (ikcpInput kcp data).1).uses
        [.entry conv, .kcp k]).ended conv x ctx k).uses [.entry conv, .kcp k]).sendUdpPacket
          (some addr) 3 env.junk) := by
  have huser : (ikcpInput kcp data).1.user = x := (Evolves.input kcp data).user_eq.trans h.user_eq
  have hused : Live ((p.uses [.entry conv, .kcp k]).used x ctx k (ikcpInput kcp data).1) x ctx k
      (ikcpInput kcp data).1 := (h.uses _).used_self (.of_evolves ctx (.input kcp data))
  rw [recvKcp, hc]
  dsimp only
  rw [use_eq_uses, readKcp_eq (h.uses _).kcp_at, some_bind]
  dsimp only
  rw [if_pos hbad, uses_uses, List.singleton_append, (h.uses _).setKcp_eq, use_eq_uses,
    readKcp_eq (hused.uses _).kcp_at, some_bind]
  dsimp only
  rw [uses_uses, huser, (hused.uses _).deleteCtx_eq, some_bind]
  simp [readConv, ended, deleted, eraseEntry, use, uses, sendUdpPacket]

end Server

/-! ## The client -/

namespace Client

variable {env : Env} {addr : SockAddr} {conv : UInt32} {data : List UInt8} {c : Client} {x k : Ptr}
  {ctx : KcpContext} {kcp : Ikcpcb}

/-- The process after `StartSend`. -/
def sending (env : Env) (p : Proc) (x : Ptr) (ctx : KcpContext) : Proc :=
  if env.sendTimerAlloc = false then p.setCtx x { ctx with sendTimer := none } else p.started x ctx

theorem startSend_eq {p : Proc} (h : p.ctxs x = some ctx) :
    p.startSend env x = some (sending env (p.uses [.ctx x]) x ctx) := by
  rw [startSend, readCtx_eq h, some_bind, sending]
  dsimp only
  split <;> rfl

/-- The client after an ACK has opened session `conv`. -/
def ackInstalled (env : Env) (c : Client) (addr : SockAddr) (conv : UInt32) : Client :=
  { c with
    proc := sending env ((((c.proc.opened addr conv).uses [.ctx c.proc.brk]).emplace conv
      (c.proc.brk + 1)).uses [.ctx c.proc.brk]) c.proc.brk (c.proc.openCtx addr)
    connectTimer := false }

theorem recvAck_of_createOk (h : env.CreateOk) (convOrKey : UInt32) :
    recvAck env addr convOrKey c = some (ackInstalled env c addr (convOrKey ^^^ c.key)) := by
  have hctx : (((c.proc.opened addr (convOrKey ^^^ c.key)).uses [.ctx c.proc.brk]).emplace
      (convOrKey ^^^ c.key) (c.proc.brk + 1)).ctxs c.proc.brk = some (c.proc.openCtx addr) := by
    rw [(emplace_frame _ _ _).1]
    exact Function.update_self _ _ _
  rw [recvAck, newKcpContext_of_createOk _ h]
  dsimp only
  rw [readCtx_eq (Function.update_self _ _ _), some_bind]
  dsimp only [openCtx]
  rw [startSend_eq hctx, some_bind]
  rfl

/-- Without memory for the session an ACK makes the client connect again. -/
theorem recvAck_of_not_createOk (hp : Sound c.proc) (h : ¬env.CreateOk) (convOrKey : UInt32) :
    ∃ p', recvAck env addr convOrKey c = some (connect env { c with proc := p' }) ∧
      Grown c.proc p' ∧ p'.outbox = c.proc.outbox := by
  obtain ⟨p₁, ctx, p₂, hnew, hx, hnone, hdel, hp₂, -, hout⟩ :=
    newKcpContext_of_not_createOk hp h addr (convOrKey ^^^ c.key)
  refine ⟨p₂, ?_, hp₂, hout⟩
  rw [recvAck, hnew]
  dsimp only
  rw [readCtx_eq hx, some_bind]
  dsimp only
  rw [use_eq_uses] at hdel
  split
  · rename_i hk ht
    rcases hnone with h | h
    · exact nomatch h.symm.trans hk
    · exact nomatch h.symm.trans ht
  · rw [hdel, some_bind]

theorem recvFin_of_unknown (h : c.proc.kcpMap.lookup conv = none) :
    recvFin env conv c = some c := by
  rw [recvFin, h]

theorem recvFin_of_live (hc : c.proc.kcpMap.lookup conv = some k) (h : Live c.proc x ctx k kcp) :
    recvFin env conv c = some (connect env { c with
      proc := (c.proc.uses [.entry conv, .kcp k]).ended conv x ctx k }) := by
  rw [recvFin, hc]
  dsimp only
  rw [use_eq_uses, readKcp_eq (h.uses _).kcp_at, some_bind]
  dsimp only
  rw [uses_uses, h.user_eq, (h.uses _).deleteCtx_eq, some_bind]
  rfl

theorem recvKcp_of_unknown (h : c.proc.kcpMap.lookup conv = none) :
    recvKcp env addr conv data c = some c := by
  rw [recvKcp, h]

theorem recvKcp_of_accepted (hc : c.proc.kcpMap.lookup conv = some k) (h : Live c.proc x ctx k kcp)
    (hok : 0 ≤ (ikcpInput kcp data).2) :
    recvKcp env addr conv data c = some { c with
      proc := (c.proc.uses [.entry conv, .kcp k, .entry conv]).used x ctx k
        (drain (ikcpInput kcp data).1).1 } := by
  rw [recvKcp, hc]
  dsimp only
  rw [use_eq_uses, readKcp_eq (h.uses _).kcp_at, some_bind]
  dsimp only
  rw [if_neg (not_lt.mpr hok), uses_uses, (h.uses _).setKcp_eq]
  simp [uses, used, setKcp, use]

/-- The process after the error path of the client: the control block is released and the entry
erased, but the context is given back without its destructor, so its timers stay open. -/
def dropped (p : Proc) (conv : UInt32) (x k : Ptr) : Proc :=
  { p with
    ctxs := Function.update p.ctxs x none
    kcps := Function.update p.kcps k none
    kcpMap := p.kcpMap.erase conv
    trace := p.trace ++ [.finish (.ctx x), .use (.entry conv), .use (.kcp k), .finish (.kcp k),
      .finish (.entry conv)] }

theorem recvKcp_of_refused (hc : c.proc.kcpMap.lookup conv = some k) (h : Live c.proc x ctx k kcp)
    (hbad : (ikcpInput kcp data).2 < 0) :
    recvKcp env addr conv data c = some { c with
      proc := ((dropped (((c.proc.uses [.entry conv, .kcp k]).used x ctx k
        (ikcpInput kcp data).1).uses [.entry conv, .kcp k]) conv x k).uses
          [.entry conv, .kcp k]).sendUdpPacket (some addr) 3 env.junk } := by
  have huser : (ikcpInput kcp data).1.user = x := (Evolves.input kcp data).user_eq.trans h.user_eq
  have hused : Live ((c.proc.uses [.entry conv, .kcp k]).used x ctx k (ikcpInput kcp data).1) x ctx
      k (ikcpInput kcp data).1 := (h.uses _).used_self (.of_evolves ctx (.input kcp data))
  rw [recvKcp, hc]
  dsimp only
  rw [use_eq_uses, readKcp_eq (h.uses _).kcp_at, some_bind]
  dsimp only
  rw [if_pos hbad, uses_uses, List.singleton_append, (h.uses _).setKcp_eq, use_eq_uses,
    readKcp_eq (hused.uses _).kcp_at, some_bind]
  dsimp only
  rw [uses_uses, huser, freeCtx_eq (hused.uses _).ctx_at, some_bind, use_eq_uses,
    @ikcpRelease_eq _ k (ikcpInput kcp data).1, some_bind]
  · simp [readConv, dropped, eraseEntry, use, uses, sendUdpPacket]
  · exact (hused.uses [.entry conv, .kcp k]).kcp_at

end Client
end KcpEcho
