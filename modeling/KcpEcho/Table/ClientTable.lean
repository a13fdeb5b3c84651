import KcpEcho.Base.Transition
import KcpEcho.Process.Handlers

/-!
# The client's session table and its timers

The client as a transition system over datagrams of any bytes, connect-timer expiries and session
timers. Every step is one of four outcomes (`Outcome`): quiet, a reconnect, a session installed by
an ACK, or a session dropped because `ikcp_input` refused a datagram.

The last two are where the program falls short of what its table should satisfy. An ACK for a
number the table already holds installs a context the table never learns of; a refused datagram
frees a context without closing its timers, and is the one way to lose a session that does not
connect again. The theorems of this file say that nothing else goes wrong.
-/

namespace KcpEcho
namespace Client

open Proc

/-! ## Runs -/

/-- What can happen to the client. -/
inductive Event
  /-- `udp_recv_cb`. -/
  | recv (env : Env) (addr : SockAddr) (data : List UInt8)
  /-- `connect_timeout_cb`. -/
  | connectTimeout (env : Env)
  /-- `UpdateTimerCb` or `SendTimerCb`. -/
  | timer (env : Env) (t : Ptr)

/-- Only armed timers fire. -/
def Enabled (c : Client) : Event → Prop
  | .recv _ _ _ => True
  | .connectTimeout _ => c.connectTimer = true
  | .timer _ t => t ∈ c.proc.timers

def handle (c : Client) : Event → Option Client
  | .recv env addr data => udpRecvCb env addr data c
  | .connectTimeout env => some (connectTimeoutCb env c)
  | .timer env t =>
    match c.proc.timers.lookup t with
    | some ⟨.updateTimerCb, _⟩ => updateTimerCb env t c
    | some ⟨.sendTimerCb, _⟩ => sendTimerCb env t c
    | none => none

/-- What the outside decides during an event. -/
def Event.env : Event → Env
  | .recv env _ _ => env
  | .connectTimeout env => env
  | .timer env _ => env

/-- The client from its first `connect` on. -/
def lts : Lts Client Event where
  init c := ∃ env, c = connect env {}
  step c e c' := Enabled c e ∧ handle c e = some c'

/-! ## What holds in every state -/

/-- The part of the invariant that nothing breaks. -/
structure Sturdy (c : Client) : Prop where
  sound : Sound c.proc
  /-- The client never notes when it has heard from a session, so its sessions do not time out. -/
  unstamped : ∀ x ctx, c.proc.ctxs x = some ctx → ctx.lastRecvTime = 0

/-- The timer an event fires, if any, points to a live context. -/
def Owned (c : Client) (e : Event) : Prop :=
  ∀ env t timer, e = .timer env t → c.proc.timers.lookup t = some timer →
    ∃ ctx, c.proc.ctxs timer.data = some ctx

/-- What makes the client connect again. -/
inductive Reconnects (c : Client) (e : Event) (p' : Proc) : Prop
  | timeout (h : c.connectTimer = true)
  /-- There is no memory for the session an ACK would open. -/
  | ack {env : Env} {addr : SockAddr} {data : List UInt8} {a : UInt32}
      (he : e = .recv env addr data) (hkind : classify data = .ack a)
  /-- A FIN has ended a session. -/
  | fin {x k : Ptr} {ctx : KcpContext} {kcp : Ikcpcb} (hlive : Live c.proc x ctx k kcp)
      (hgone : p'.ctxs x = none)

/-- What a step of the client may come to. -/
inductive Outcome (c : Client) (e : Event) : Client → Prop
  | quiet {p' : Proc} (h : Change False c.proc p') (hmap : p'.kcpMap = c.proc.kcpMap)
      (hsaid : Utters c.proc p') : Outcome c e { c with proc := p' }
  | reconnected (env : Env) {p' : Proc} (h : Change False c.proc p')
      (hout : p'.outbox = c.proc.outbox) (hwhy : Reconnects c e p') :
      Outcome c e (connect env { c with proc := p' })
  | installed {env : Env} {addr : SockAddr} {data : List UInt8} {a : UInt32}
      (he : e = .recv env addr data) (hkind : classify data = .ack a) (hok : env.CreateOk) :
      Outcome c e (ackInstalled env c addr (a ^^^ c.key))
  | refused {env : Env} {addr : SockAddr} {data : List UInt8} {x k : Ptr} {ctx : KcpContext}
      {kcp : Ikcpcb} {p' : Proc} (he : e = .recv env addr data)
      (hkind : classify data = .kcp kcp.conv) (hbad : ¬Acceptable kcp.conv data)
      (hmap : c.proc.kcpMap.lookup kcp.conv = some k) (hlive : Live c.proc x ctx k kcp)
      (h : Grown (dropped c.proc kcp.conv x k) p') (hsaid : Utters c.proc p') :
      Outcome c e { c with proc := p' }

theorem dropped_used {p : Proc} {conv : UInt32} {x k : Ptr} {ctx : KcpContext} {kcp : Ikcpcb} :
    Grown (dropped p conv x k) (dropped (p.used x ctx k kcp) conv x k) :=
  ⟨Function.update_idem _ _ _, Function.update_idem _ _ _, rfl, rfl, le_rfl⟩

theorem outcome_recvFin {c : Client} (hp : Sound c.proc) (env : Env) (conv : UInt32) (e : Event) :
    ∃ c', recvFin env conv c = some c' ∧ Outcome c e c' := by
  cases hc : c.proc.kcpMap.lookup conv with
  | none => exact ⟨c, recvFin_of_unknown hc, .quiet (.idle (.refl _)) rfl (.nothing rfl)⟩
  | some k =>
    obtain ⟨ctx, kcp, hlive, rfl⟩ := hp.live_of_entry hc
    exact ⟨_, recvFin_of_live hc hlive,
      .reconnected env (.ended hlive hc ⟨rfl, rfl, rfl, rfl, le_rfl⟩) rfl
        (.fin hlive (Function.update_self _ _ _))⟩

/-- A refused datagram drops its session and does nothing else. -/
theorem handle_of_refused {c : Client} {env : Env} {addr : SockAddr} {data : List UInt8} {x k : Ptr}
    {ctx : KcpContext} {kcp : Ikcpcb} (hkind : classify data = .kcp kcp.conv)
    (hmap : c.proc.kcpMap.lookup kcp.conv = some k) (hlive : Live c.proc x ctx k kcp)
    (hbad : ¬Acceptable kcp.conv data) : ∃ p', handle c (.recv env addr data) =
      some { c with proc := p' } ∧ Grown (dropped c.proc kcp.conv x k) p' ∧ Utters c.proc p' := by
  rw [handle, udpRecvCb_eq, hkind]
  exact ⟨_, recvKcp_of_refused hmap hlive ((ikcpInput_neg_iff kcp data).mpr hbad),
    dropped_used.trans ⟨rfl, rfl, rfl, rfl, le_rfl⟩,
    @Utters.fin c.proc _ c.proc (.nothing rfl) _ _ rfl⟩

theorem outcome_recvKcp {c : Client} (hp : Sound c.proc) {env : Env} {addr : SockAddr}
    {conv : UInt32} {data : List UInt8} (hkind : classify data = .kcp conv) :
    ∃ c', handle c (.recv env addr data) = some c' ∧ Outcome c (.recv env addr data) c' := by
  cases hc : c.proc.kcpMap.lookup conv with
  | none =>
    refine ⟨c, ?_, .quiet (.idle (.refl _)) rfl (.nothing rfl)⟩
    rw [handle, udpRecvCb_eq, hkind]
    exact recvKcp_of_unknown hc
  | some k =>
    obtain ⟨ctx, kcp, hlive, rfl⟩ := hp.live_of_entry hc
    by_cases hacc : Acceptable kcp.conv data
    · have hmoved := Moved.of_evolves ctx ((Evolves.input kcp data).trans (.drain _))
      have hstep : handle c (.recv env addr data) = some { c with
          proc := (c.proc.uses [.entry kcp.conv, .kcp k, .entry kcp.conv]).used kcp.user ctx k
            (drain (ikcpInput kcp data).1).1 } := by
        rw [handle, udpRecvCb_eq, hkind]
        exact recvKcp_of_accepted hc hlive ((ikcpInput_nonneg_iff kcp data).mpr hacc)
      exact ⟨_, hstep,
        .quiet (.used hlive hmoved (.inl rfl) ⟨rfl, rfl, rfl, rfl, le_rfl⟩) rfl (.nothing rfl)⟩
    · obtain ⟨p', hp', hgrown, hsaid⟩ := handle_of_refused hkind hc hlive hacc
      exact ⟨_, hp', .refused rfl hkind hacc hc hlive hgrown hsaid⟩

theorem outcome_timer {c : Client} (h : Sturdy c) {env : Env} {t : Ptr} {timer : UvTimer}
    {ctx : KcpContext} (ht : c.proc.timers.lookup t = some timer)
    (hx : c.proc.ctxs timer.data = some ctx) :
    ∃ c', handle c (.timer env t) = some c' ∧ Outcome c (.timer env t) c' := by
  obtain ⟨cb, x⟩ := timer
  obtain ⟨k, kcp, hlive⟩ := h.sound.ctx_live x ctx hx
  rw [handle, ht]
  cases cb with
  | updateTimerCb =>
    have hout : ¬isTimeout env ctx = true := by
      rw [isTimeout, if_pos (h.unstamped x ctx hx)]
      exact Bool.false_ne_true
    have heq := @updateTimerCb_eq kcpOutput env _ _ _ _ _ _ hlive ht
    rw [if_neg hout] at heq
    dsimp only
    rw [updateTimerCb, heq]
    exact ⟨_, rfl, .quiet (.used hlive (.of_evolves ctx (.update kcp _)) (.inl rfl) grown_ticked)
      rfl (.ticked kcpOutput env hlive)⟩
  | sendTimerCb =>
    dsimp only
    rw [sendTimerCb, sendTimerCb_eq hlive ht]
    exact ⟨_, rfl, .quiet (.used hlive (.of_evolves ctx (sendMessages_evolves _ kcp)) (.inl rfl)
      ⟨rfl, rfl, rfl, rfl, le_rfl⟩) rfl (.nothing rfl)⟩

/-- **Every step of the client** whose timer is owned has a result, one of the four outcomes. -/
theorem handle_cases {c : Client} (h : Sturdy c) {e : Event} (he : Enabled c e) (ho : Owned c e) :
    ∃ c', handle c e = some c' ∧ Outcome c e c' := by
  cases e with
  | recv env addr data =>
    by_cases hkcp : ∃ conv, classify data = .kcp conv
    · obtain ⟨conv, hkind⟩ := hkcp
      exact outcome_recvKcp h.sound hkind
    rw [handle, udpRecvCb_eq]
    cases hkind : classify data with
    | syn key => exact ⟨c, rfl, .quiet (.idle (.refl _)) rfl (.nothing rfl)⟩
    | ack a =>
      by_cases hok : env.CreateOk
      · exact ⟨_, recvAck_of_createOk hok a, .installed rfl hkind hok⟩
      · obtain ⟨p', hp', hgrown, hout⟩ := @recvAck_of_not_createOk _ addr _ h.sound hok a
        exact ⟨_, hp', .reconnected env (.idle hgrown) hout (.ack rfl hkind)⟩
    | fin conv => exact outcome_recvFin h.sound env conv _
    | kcp conv => exact absurd ⟨conv, hkind⟩ hkcp
    | other => exact ⟨c, rfl, .quiet (.idle (.refl _)) rfl (.nothing rfl)⟩
  | connectTimeout env => exact ⟨_, rfl, .reconnected env (.idle (.refl _)) rfl (.timeout he)⟩
  | timer env t =>
    obtain ⟨timer, ht⟩ := Option.isSome_iff_exists.mp (AList.lookup_isSome.mpr he)
    obtain ⟨ctx, hx⟩ := ho env t timer rfl ht
    exact outcome_timer h ht hx

/-- A timer whose context is gone leads nowhere: its callback follows a dead pointer. -/
theorem owned_of_handle {c c' : Client} {e : Event} (hs : handle c e = some c') : Owned c e := by
  rintro env t ⟨cb, x⟩ rfl ht
  rw [← Option.isSome_iff_exists]
  by_contra hnone
  rw [Option.not_isSome_iff_eq_none] at hnone
  rw [handle, ht] at hs
  cases cb with
  | updateTimerCb => simp [updateTimerCb, Proc.updateTimerCb, ht, readCtx, hnone] at hs
  | sendTimerCb => simp [sendTimerCb, Proc.sendTimerCb, ht, readCtx, hnone] at hs

theorem step_outcome {c c' : Client} {e : Event} (h : Sturdy c) (hs : lts.step c e c') :
    Outcome c e c' := by
  obtain ⟨q, hq, hout⟩ := handle_cases h hs.1 (owned_of_handle hs.2)
  obtain rfl : q = c' := Option.some.inj (hq.symm.trans hs.2)
  exact hout

/-! ### Sessions that an ACK installs -/

section Installed

variable {env : Env} {c : Client} {addr : SockAddr} {conv : UInt32}

/-- The process of the client when `StartSend` is called. -/
def entered (c : Client) (addr : SockAddr) (conv : UInt32) : Proc :=
  (((c.proc.opened addr conv).uses [.ctx c.proc.brk]).emplace conv (c.proc.brk + 1)).uses
    [.ctx c.proc.brk]

theorem grown_entered :
    Grown ((c.proc.opened addr conv).emplace conv (c.proc.brk + 1)) (entered c addr conv) :=
  ((grown_uses _ _).emplace _ _).trans (grown_uses _ _)

theorem live_entered : Live (entered c addr conv) c.proc.brk (c.proc.openCtx addr) (c.proc.brk + 1)
    (configuredKcp conv c.proc.brk) :=
  grown_entered.live.mpr (live_emplace.mpr live_opened_self)

theorem sound_entered (h : Sound c.proc) : Sound (entered c addr conv) :=
  grown_entered.sound ((h.opened addr conv).emplace (Function.update_self _ _ _) rfl)

theorem live_entered_of_live (h : Sound c.proc) {x k : Ptr} {ctx : KcpContext} {kcp : Ikcpcb}
    (hlive : Live c.proc x ctx k kcp) : Live (entered c addr conv) x ctx k kcp :=
  grown_entered.live.mpr (live_emplace.mpr (hlive.opened h))

theorem proc_ackInstalled : (ackInstalled env c addr conv).proc =
    sending env (entered c addr conv) c.proc.brk (c.proc.openCtx addr) := rfl

/-- Without memory for the send timer, `StartSend` changes nothing. -/
theorem grown_sending_of_not_alloc (h : env.sendTimerAlloc = false) :
    Grown (entered c addr conv)
      (sending env (entered c addr conv) c.proc.brk (c.proc.openCtx addr)) := by
  rw [sending, if_pos h]
  refine ⟨?_, rfl, rfl, rfl, le_rfl⟩
  have hx := (@live_entered c addr conv).ctx_at
  exact Function.update_eq_self_iff.mpr hx.symm

theorem sending_of_alloc (h : env.sendTimerAlloc = true) :
    sending env (entered c addr conv) c.proc.brk (c.proc.openCtx addr) =
      (entered c addr conv).started c.proc.brk (c.proc.openCtx addr) := by
  rw [sending, if_neg (by rw [h]; decide)]

theorem sound_ackInstalled (h : Sound c.proc) : Sound (ackInstalled env c addr conv).proc := by
  rw [proc_ackInstalled]
  cases halloc : env.sendTimerAlloc with
  | false => exact (grown_sending_of_not_alloc halloc).sound (sound_entered h)
  | true =>
    rw [sending_of_alloc halloc]
    exact (sound_entered h).started live_entered

theorem kcpMap_ackInstalled : (ackInstalled env c addr conv).proc.kcpMap =
    ((c.proc.opened addr conv).emplace conv (c.proc.brk + 1)).kcpMap := by
  rw [proc_ackInstalled]
  cases halloc : env.sendTimerAlloc with
  | false => rw [(grown_sending_of_not_alloc halloc).kcpMap, grown_entered.kcpMap]
  | true =>
    rw [sending_of_alloc halloc]
    exact grown_entered.kcpMap

/-- The new session, with or without its send timer. -/
theorem live_ackInstalled (h : Sound c.proc) :
    ∃ ctx, Live (ackInstalled env c addr conv).proc c.proc.brk ctx (c.proc.brk + 1)
      (configuredKcp conv c.proc.brk) ∧ ctx.addr = addr ∧ ctx.lastRecvTime = 0 ∧
      (ctx.sendTimer ≠ none ↔ env.sendTimerAlloc = true) := by
  rw [proc_ackInstalled]
  cases halloc : env.sendTimerAlloc with
  | false =>
    exact ⟨_, (grown_sending_of_not_alloc halloc).live.mpr live_entered, rfl, rfl,
      by simp [openCtx]⟩
  | true =>
    rw [sending_of_alloc halloc]
    exact ⟨_, live_entered.started_self (sound_entered h), rfl, rfl, by simp⟩

/-- The sessions that were there are as they were. -/
theorem live_ackInstalled_of_live (h : Sound c.proc) {x k : Ptr} {ctx : KcpContext} {kcp : Ikcpcb}
    (hlive : Live c.proc x ctx k kcp) : Live (ackInstalled env c addr conv).proc x ctx k kcp := by
  have hold := @live_entered_of_live c addr conv h _ _ _ _ hlive
  have hne : x ≠ c.proc.brk := (h.ctx_lt hlive.ctx_at).ne
  rw [proc_ackInstalled]
  cases halloc : env.sendTimerAlloc with
  | false => exact (grown_sending_of_not_alloc halloc).live.mpr hold
  | true =>
    rw [sending_of_alloc halloc]
    exact hold.started_of_ne (sound_entered h) hne

/-- A context of the client after an ACK is the new one or was there before. -/
theorem ctxs_ackInstalled {x : Ptr} {ctx : KcpContext}
    (hx : (ackInstalled env c addr conv).proc.ctxs x = some ctx) :
    x = c.proc.brk ∨ c.proc.ctxs x = some ctx := by
  rcases eq_or_ne x c.proc.brk with heq | hne
  · exact .inl heq
  · right
    have hentered : (entered c addr conv).ctxs x = c.proc.ctxs x := by
      rw [grown_entered.ctxs, (emplace_frame _ _ _).1]
      exact Function.update_of_ne hne _ _
    rw [proc_ackInstalled] at hx
    cases halloc : env.sendTimerAlloc with
    | false =>
      rw [(grown_sending_of_not_alloc halloc).ctxs, hentered] at hx
      exact hx
    | true =>
      rw [sending_of_alloc halloc] at hx
      exact hentered.symm.trans ((Function.update_of_ne hne _ _).symm.trans hx)

theorem timersOwned_ackInstalled (h : Sound c.proc) (ho : TimersOwned c.proc) :
    TimersOwned (ackInstalled env c addr conv).proc := by
  have hentered : TimersOwned (entered c addr conv) :=
    grown_entered.timersOwned (ho.opened h addr conv).emplace
  rw [proc_ackInstalled]
  cases halloc : env.sendTimerAlloc with
  | false => exact (grown_sending_of_not_alloc halloc).timersOwned hentered
  | true =>
    rw [sending_of_alloc halloc]
    exact hentered.started live_entered rfl

end Installed

/-! ### Sessions that are dropped -/

theorem removed_dropped {p : Proc} {conv : UInt32} {x k : Ptr} (ctx : KcpContext) :
    Removed p (dropped p conv x k) conv x ctx k := ⟨rfl, rfl, rfl, rfl, fun _ ↦ .inl rfl⟩

/-! ### What is left of a step -/

theorem outbox_ackInstalled {env : Env} {c : Client} {addr : SockAddr} {conv : UInt32} :
    (ackInstalled env c addr conv).proc.outbox = c.proc.outbox := by
  have hsame : (ackInstalled env c addr conv).proc.outbox = (entered c addr conv).outbox := by
    rw [proc_ackInstalled, sending]
    split <;> rfl
  exact hsame.trans (outbox_emplace _ _ _)

/-- A session that is there afterwards was there before, under the same number, or an ACK has
installed it under the number it decodes to. -/
theorem Outcome.live_of_live {c c' : Client} {e : Event} (h : Sturdy c) (hout : Outcome c e c')
    {y j : Ptr} {ctx' : KcpContext} {kcp' : Ikcpcb} (hl : Live c'.proc y ctx' j kcp') :
    (∃ ctx kcp, Live c.proc y ctx j kcp ∧ kcp'.conv = kcp.conv) ∨
      ∃ env addr data a, e = .recv env addr data ∧ classify data = .ack a ∧
        kcp'.conv = a ^^^ c.key := by
  cases hout with
  | quiet hc _ _ => exact .inl (hc.live_of_live h.sound hl)
  | reconnected env hc _ _ =>
    exact .inl (hc.live_of_live h.sound ((grown_sendUdpPacket _ _ _ _).live.mp hl))
  | @installed env addr data a he hkind hok =>
    rcases ctxs_ackInstalled hl.ctx_at with rfl | hold
    · obtain ⟨ctx, hnew, -⟩ := @live_ackInstalled env c addr (a ^^^ c.key) h.sound
      obtain ⟨-, rfl, rfl⟩ := hnew.unique hl
      exact .inr ⟨env, addr, data, a, he, hkind, rfl⟩
    · obtain ⟨k, kcp, hlive⟩ := h.sound.ctx_live y ctx' hold
      obtain ⟨-, rfl, rfl⟩ := (live_ackInstalled_of_live h.sound hlive).unique hl
      exact .inl ⟨ctx', kcp', hlive, rfl⟩
  | @refused _ _ _ x k ctx kcp _ he hkind hbad hmap hlive hgrown _ =>
    have hy := hl.ctx_at
    rw [hgrown.ctxs] at hy
    rcases eq_or_ne y x with rfl | hne
    · exact nomatch (Function.update_self y _ c.proc.ctxs).symm.trans hy
    · obtain ⟨k₁, kcp₁, hlive₁⟩ :=
        h.sound.ctx_live y ctx' ((Function.update_of_ne hne _ _).symm.trans hy)
      obtain ⟨-, rfl, rfl⟩ :=
        (hgrown.live.mpr ((removed_dropped ctx).live hlive hlive₁ hne)).unique hl
      exact .inl ⟨ctx', kcp', hlive₁, rfl⟩

/-- A step says nothing that asks for an answer, or it is a reconnect. -/
theorem Outcome.outbox {c c' : Client} {e : Event} (hout : Outcome c e c') :
    (c'.key = c.key ∧ Utters c.proc c'.proc) ∨
      c'.proc.outbox = c.proc.outbox ++ [⟨none, udpPacket 1 c'.key⟩] := by
  cases hout with
  | quiet _ _ hsaid => exact .inl ⟨rfl, hsaid⟩
  | reconnected env _ hsame _ =>
    right
    change _ ++ [_] = _
    rw [hsame]
    rfl
  | installed _ _ _ => exact .inl ⟨rfl, .nothing outbox_ackInstalled⟩
  | refused _ _ _ _ _ _ hsaid => exact .inl ⟨rfl, hsaid⟩

/-! ### The invariant of every run -/

theorem Sturdy.change {c : Client} {p' : Proc} (h : Sturdy c) (hc : Change False c.proc p') :
    Sound p' ∧ ∀ x ctx, p'.ctxs x = some ctx → ctx.lastRecvTime = 0 := by
  refine ⟨hc.sound h.sound, ?_⟩
  intro y ctx' hy
  obtain ⟨ctx, hctx, -, heq | ⟨hf, -⟩⟩ := hc.listed hy
  · exact heq.trans (h.unstamped y ctx hctx)
  · exact hf.elim

/-- No outcome spoils the memory. -/
theorem Outcome.sound {c c' : Client} {e : Event} (hout : Outcome c e c') (hp : Sound c.proc) :
    Sound c'.proc := by
  cases hout with
  | quiet hc _ _ => exact hc.sound hp
  | reconnected env hc _ _ => exact (grown_sendUdpPacket _ _ _ _).sound (hc.sound hp)
  | installed he hkind hok => exact sound_ackInstalled hp
  | @refused _ _ _ x k ctx kcp p' he hkind hbad hmap hlive hgrown _ =>
    exact hgrown.sound ((removed_dropped ctx).sound hp hlive hmap)

theorem Sturdy.outcome {c c' : Client} {e : Event} (h : Sturdy c) (hout : Outcome c e c') :
    Sturdy c' := by
  refine ⟨hout.sound h.sound, ?_⟩
  cases hout with
  | quiet hc _ _ => exact (h.change hc).2
  | reconnected env hc _ _ => exact (h.change hc).2
  | installed he hkind hok =>
    intro x ctx hx
    rcases ctxs_ackInstalled hx with rfl | hold
    · obtain ⟨ctx', hlive, -, hstamp, -⟩ := @live_ackInstalled _ _ _ _ h.sound
      obtain rfl : ctx' = ctx := Option.some.inj (hlive.ctx_at.symm.trans hx)
      exact hstamp
    · exact h.unstamped x ctx hold
  | @refused _ _ _ x k ctx kcp p' he hkind hbad hmap hlive hgrown _ =>
    intro y ctx' hy
    rw [hgrown.ctxs] at hy
    rcases eq_or_ne y x with rfl | hne
    · exact nomatch (Function.update_self y _ c.proc.ctxs).symm.trans hy
    · exact h.unstamped y ctx' ((Function.update_of_ne hne _ _).symm.trans hy)

theorem sturdy_init (env : Env) : Sturdy (connect env {}) where
  sound :=
    { ctx_fresh _ _ := rfl
      kcp_fresh _ _ := rfl
      timer_fresh _ _ := AList.lookup_empty _
      ctx_live _ _ h := nomatch h
      kcp_live _ _ h := nomatch h
      map_kcp c _ h := nomatch (AList.lookup_empty c).symm.trans h }
  unstamped _ _ h := nomatch h

theorem sturdy_inductive : lts.Inductive Sturdy where
  init _ hc := by
    obtain ⟨env, rfl⟩ := hc
    exact sturdy_init env
  step _ _ _ h hs := h.outcome (step_outcome h hs)

/-! ## The table and the timers agree -/

/-- What the client's table and timers should satisfy. -/
structure TableTimers (p : Proc) : Prop where
  /-- An open timer points to a live context with an unreleased control block. -/
  timer : ∀ t cb x, p.timers.lookup t = some ⟨cb, x⟩ →
    ∃ ctx k kcp, p.ctxs x = some ctx ∧ ctx.kcp = some k ∧ p.kcps k = some kcp
  /-- An entry holds the control block of exactly one live context, of its number. -/
  entry : ∀ conv k, p.kcpMap.lookup conv = some k → ∃ kcp ctx, p.kcps k = some kcp ∧
    kcp.conv = conv ∧ p.ctxs kcp.user = some ctx ∧ ctx.kcp = some k ∧
    ∀ x ctx', p.ctxs x = some ctx' → ctx'.kcp = some k → x = kcp.user
  /-- A live context is the one recorded under its number. -/
  listed : ∀ x ctx, p.ctxs x = some ctx → ∃ k kcp, ctx.kcp = some k ∧ p.kcps k = some kcp ∧
    kcp.user = x ∧ p.kcpMap.lookup kcp.conv = some k

/-- The invariant behind `TableTimers`. -/
structure Tabled (c : Client) : Prop where
  sturdy : Sturdy c
  owned : TimersOwned c.proc
  listed : ∀ x ctx, c.proc.ctxs x = some ctx → Listed c.proc x

theorem Tabled.tableTimers {c : Client} (h : Tabled c) : TableTimers c.proc where
  timer t cb x ht := by
    obtain ⟨ctx, hx, -⟩ := h.owned t _ ht
    obtain ⟨k, kcp, hlive⟩ := h.sturdy.sound.ctx_live x ctx hx
    exact ⟨ctx, k, kcp, hx, hlive.kcp_eq, hlive.kcp_at⟩
  entry conv k hc := by
    obtain ⟨ctx, kcp, hlive, hconv⟩ := h.sturdy.sound.live_of_entry hc
    refine ⟨kcp, ctx, hlive.kcp_at, hconv, hlive.ctx_at, hlive.kcp_eq, ?_⟩
    intro x ctx' hx hk
    obtain ⟨k', kcp', hlive'⟩ := h.sturdy.sound.ctx_live x ctx' hx
    obtain rfl : k' = k := Option.some.inj (hlive'.kcp_eq.symm.trans hk)
    exact hlive'.ctx_eq hlive
  listed x ctx hx := by
    obtain ⟨ctx₁, k, kcp, hlive, hmap⟩ := h.listed x ctx hx
    obtain rfl : ctx = ctx₁ := Option.some.inj (hx.symm.trans hlive.ctx_at)
    exact ⟨k, kcp, hlive.kcp_eq, hlive.kcp_at, hlive.user_eq, hmap⟩

/-- The steps that keep the table: an ACK that opens a session decodes to a number the table does
not hold, and a KCP datagram for a session of the table is one `ikcp_input` accepts. -/
def Tidy (c : Client) (e : Event) : Prop :=
  ∀ env addr data, e = .recv env addr data →
    (∀ a, classify data = .ack a → env.CreateOk → a ^^^ c.key ∉ c.proc.kcpMap) ∧
    (∀ conv, classify data = .kcp conv → conv ∈ c.proc.kcpMap → Acceptable conv data)

/-- No timer loses its context, unless a datagram of a session of the table is refused. -/
theorem Outcome.timersOwned {c c' : Client} {e : Event} (hout : Outcome c e c')
    (hp : Sound c.proc) (ho : TimersOwned c.proc)
    (hacc : ∀ env addr data, e = .recv env addr data →
      ∀ conv, classify data = .kcp conv → conv ∈ c.proc.kcpMap → Acceptable conv data) :
    TimersOwned c'.proc := by
  cases hout with
  | quiet hc _ _ => exact hc.timersOwned ho
  | reconnected env hc _ _ => exact hc.timersOwned ho
  | installed he hkind hok => exact timersOwned_ackInstalled hp ho
  | refused he hkind hbad hmap hlive hgrown _ =>
    exact absurd (hacc _ _ _ he _ hkind (AList.lookup_isSome.mp (by rw [hmap]; rfl))) hbad

theorem Tabled.outcome {c c' : Client} {e : Event} (h : Tabled c) (htidy : Tidy c e)
    (hout : Outcome c e c') : Tabled c' := by
  have hsturdy := h.sturdy.outcome hout
  refine ⟨hsturdy, ?_, ?_⟩
  · exact hout.timersOwned h.sturdy.sound h.owned fun env addr data he ↦
      (htidy env addr data he).2
  · cases hout with
    | quiet hc _ _ =>
      intro x ctx hx
      obtain ⟨ctx₀, hx₀, hlisted, -⟩ := hc.listed hx
      exact hlisted (h.listed x ctx₀ hx₀)
    | reconnected env hc _ _ =>
      intro x ctx hx
      obtain ⟨ctx₀, hx₀, hlisted, -⟩ := hc.listed hx
      exact (grown_sendUdpPacket _ _ _ _).listed.mpr (hlisted (h.listed x ctx₀ hx₀))
    | @installed env addr data a he hkind hok =>
      intro x ctx hx
      have hfresh := (htidy _ _ _ he).1 _ hkind hok
      rcases ctxs_ackInstalled hx with rfl | hold
      · obtain ⟨ctx', hlive, -⟩ := @live_ackInstalled env c addr (a ^^^ c.key) h.sturdy.sound
        refine ⟨ctx', _, _, hlive, ?_⟩
        rw [kcpMap_ackInstalled]
        exact lookup_emplace_self hfresh
      · obtain ⟨ctx₁, k, kcp, hlive, hmap⟩ := h.listed x ctx hold
        refine ⟨ctx₁, k, kcp, live_ackInstalled_of_live h.sturdy.sound hlive, ?_⟩
        rw [kcpMap_ackInstalled]
        exact lookup_emplace_of_some hmap
    | refused he hkind hbad hmap hlive hgrown _ =>
      exact absurd ((htidy _ _ _ he).2 _ hkind (AList.lookup_isSome.mp (by rw [hmap]; rfl))) hbad

theorem tabled_inductive : (lts.restrict Tidy).Inductive Tabled where
  init _ hc := by
    obtain ⟨env, rfl⟩ := hc
    refine ⟨sturdy_init env, ?_, fun _ _ h ↦ nomatch h⟩
    intro t _ h
    exact nomatch (AList.lookup_empty t).symm.trans h
  step _ _ _ h hs := h.outcome hs.2 (step_outcome h.sturdy hs.1)

/-- **First slip.** An ACK for a number the table already holds installs a context no entry
records. -/
theorem not_tableTimers_ackInstalled {env : Env} {c : Client} (h : Sturdy c) {addr : SockAddr}
    {conv : UInt32} (hused : conv ∈ c.proc.kcpMap) :
    ¬TableTimers (ackInstalled env c addr conv).proc := by
  intro htable
  obtain ⟨ctx, hlive, -⟩ := @live_ackInstalled env c addr conv h.sound
  obtain ⟨k, kcp, hk, hkcp, -, hmap⟩ := htable.listed _ _ hlive.ctx_at
  obtain rfl : c.proc.brk + 1 = k := Option.some.inj (hlive.kcp_eq.symm.trans hk)
  obtain rfl : configuredKcp conv c.proc.brk = kcp := Option.some.inj (hlive.kcp_at.symm.trans hkcp)
  obtain ⟨k', hk'⟩ := Option.isSome_iff_exists.mp (AList.lookup_isSome.mpr hused)
  have hold := @lookup_emplace_of_some (c.proc.opened addr conv) conv (c.proc.brk + 1) _ _ hk'
  rw [← kcpMap_ackInstalled] at hold
  obtain rfl : k' = c.proc.brk + 1 := Option.some.inj (hold.symm.trans hmap)
  obtain ⟨kcp', hkcp', -⟩ := h.sound.map_kcp _ _ hk'
  exact nomatch (h.sound.kcp_fresh _ (Nat.le_succ _)).symm.trans hkcp'

/-- A refused datagram leaves the update timer of a freed context open. -/
theorem dangling_dropped {p p' : Proc} {conv : UInt32} {x k : Ptr} {ctx : KcpContext} {kcp : Ikcpcb}
    (hlive : Live p x ctx k kcp) (h : Grown (dropped p conv x k) p') :
    ∃ t, p'.timers.lookup t = some ⟨.updateTimerCb, x⟩ ∧ p'.ctxs x = none := by
  obtain ⟨t, ht⟩ := Option.ne_none_iff_exists'.mp hlive.timed
  refine ⟨t, ?_, ?_⟩
  · rw [h.timers]
    exact hlive.timers .updateTimerCb t ht
  · rw [h.ctxs]
    exact Function.update_self x _ p.ctxs

/-- **Second slip.** No open timer should point to a freed context. -/
theorem not_tableTimers_of_dangling {p : Proc} {t x : Ptr} {cb : TimerCb}
    (ht : p.timers.lookup t = some ⟨cb, x⟩) (hx : p.ctxs x = none) : ¬TableTimers p := by
  intro htable
  obtain ⟨ctx, -, -, hctx, -⟩ := htable.timer t cb x ht
  exact nomatch hx.symm.trans hctx

/-- **Table and timers agree along every tidy run**, and in no reachable state does an untidy step
leave them in agreement. -/
theorem table_timers_while_tidy (c : Client) :
    ((lts.restrict Tidy).Reachable c → TableTimers c.proc) ∧
    ∀ e c', lts.Reachable c → lts.step c e c' → ¬Tidy c e → ¬TableTimers c'.proc := by
  refine ⟨fun h ↦ (tabled_inductive.reachable h).tableTimers, ?_⟩
  intro e c' h hs hnot
  have hsturdy := sturdy_inductive.reachable h
  have hout := step_outcome hsturdy hs
  unfold Tidy at hnot
  push Not at hnot
  obtain ⟨env, addr, data, rfl, hnot⟩ := hnot
  by_cases hack : ∃ a, classify data = .ack a ∧ env.CreateOk ∧ a ^^^ c.key ∈ c.proc.kcpMap
  · obtain ⟨a, hkind, hok, hused⟩ := hack
    have hstep := hs.2
    rw [handle, udpRecvCb_eq, hkind] at hstep
    dsimp only at hstep
    rw [recvAck_of_createOk hok] at hstep
    obtain rfl := Option.some.inj hstep
    exact not_tableTimers_ackInstalled hsturdy hused
  · obtain ⟨conv, hkind, hmem, hbad⟩ := hnot fun a ha hok hused ↦ hack ⟨a, ha, hok, hused⟩
    obtain ⟨k, hc⟩ := Option.isSome_iff_exists.mp (AList.lookup_isSome.mpr hmem)
    obtain ⟨ctx, kcp, hlive, rfl⟩ := hsturdy.sound.live_of_entry hc
    obtain ⟨p', hp', hgrown, -⟩ := handle_of_refused hkind hc hlive hbad
    obtain rfl := Option.some.inj (hp'.symm.trans hs.2)
    obtain ⟨t, ht, hx⟩ := dangling_dropped hlive hgrown
    exact not_tableTimers_of_dangling ht hx

/-! ### Two runs -/

theorem step_ack (c : Client) {env : Env} (h : env.CreateOk) (addr : SockAddr) (a : UInt32) :
    lts.step c (.recv env addr (udpPacket 2 a)) (ackInstalled env c addr (a ^^^ c.key)) := by
  refine ⟨trivial, ?_⟩
  rw [handle, udpRecvCb_eq, classify_ack]
  exact recvAck_of_createOk h a

/-- The client once its first SYN, with key 0, has been answered with number 1001. -/
def connected : Client := ackInstalled {} (connect {} {}) (.inet 0 1) 1001

/-- A step in which every allocation succeeds. -/
def Allocates (_ : Client) (e : Event) : Prop := e.env.AllocOk

theorem reachable_connected : (lts.restrict Allocates).Reachable connected :=
  .step (.init ⟨{}, rfl⟩) ⟨@step_ack (connect {} {}) {} ⟨rfl, rfl⟩ (.inet 0 1) 1001, rfl, rfl, rfl⟩

theorem kcpMap_connected :
    connected.proc.kcpMap = (∅ : AList fun _ : UInt32 ↦ Ptr).insert 1001 1 := by
  have hfresh : 1001 ∉ ((connect {} {}).proc.opened (.inet 0 1) 1001).kcpMap :=
    AList.notMem_empty _
  rw [connected, kcpMap_ackInstalled, emplace_of_notMem hfresh]
  rfl

theorem live_connected : ∃ ctx, Live connected.proc 0 ctx 1 (configuredKcp 1001 0) ∧
    ctx.sendTimer ≠ none := by
  obtain ⟨ctx, hlive, -, -, hsend⟩ :=
    @live_ackInstalled {} (connect {} {}) (.inet 0 1) 1001 (sturdy_init {}).sound
  exact ⟨ctx, hlive, hsend.mpr rfl⟩

/-- The ACK arrives twice. -/
theorem table_timers_fail_on_duplicate_ack :
    ¬∀ c, (lts.restrict Allocates).Reachable c → TableTimers c.proc := by
  intro hall
  have hstep := @step_ack connected {} ⟨rfl, rfl⟩ (.inet 0 1) 1001
  have hsturdy := sturdy_inductive.reachable reachable_connected.of_restrict
  have hused : 1001 ∈ connected.proc.kcpMap := by
    rw [kcpMap_connected, AList.mem_insert]
    exact .inl rfl
  exact not_tableTimers_ackInstalled hsturdy hused
    (hall _ (.step reachable_connected ⟨hstep, rfl, rfl, rfl⟩))

/-- A run with one ACK is tidy. -/
theorem table_timers_while_tidy_connected : TableTimers connected.proc := by
  refine (table_timers_while_tidy connected).1 (.step (.init ⟨{}, rfl⟩)
    ⟨@step_ack (connect {} {}) {} ⟨rfl, rfl⟩ (.inet 0 1) 1001, ?_⟩)
  intro env addr data he
  cases he
  exact ⟨fun a _ _ ↦ AList.notMem_empty _, fun _ _ h ↦ absurd h (AList.notMem_empty _)⟩

/-! ## The client is not stranded -/

/-- The table holds session `conv`, and its send timer runs. -/
def Sending (p : Proc) (conv : UInt32) : Prop :=
  ∃ k kcp ctx s, p.kcpMap.lookup conv = some k ∧ p.kcps k = some kcp ∧
    p.ctxs kcp.user = some ctx ∧ ctx.sendTimer = some s ∧
    p.timers.lookup s = some ⟨.sendTimerCb, kcp.user⟩

/-- A new SYN will be sent, or a session of the table goes on sending. -/
def Alive (c : Client) : Prop := c.connectTimer = true ∨ ∃ conv, Sending c.proc conv

theorem sending_iff {p : Proc} (hp : Sound p) {conv : UInt32} : Sending p conv ↔
    ∃ x ctx k kcp, p.kcpMap.lookup conv = some k ∧ Live p x ctx k kcp ∧ ctx.sendTimer ≠ none := by
  constructor
  · rintro ⟨k, kcp, ctx, s, hmap, hk, hx, hs, -⟩
    obtain ⟨ctx', hlive⟩ := hp.live_of_kcp hk
    obtain rfl : ctx = ctx' := Option.some.inj (hx.symm.trans hlive.ctx_at)
    exact ⟨_, ctx, k, kcp, hmap, hlive, by rw [hs]; exact Option.some_ne_none s⟩
  · rintro ⟨x, ctx, k, kcp, hmap, hlive, hs⟩
    obtain ⟨s, hs⟩ := Option.ne_none_iff_exists'.mp hs
    obtain rfl := hlive.user_eq
    exact ⟨k, kcp, ctx, s, hmap, hlive.kcp_at, hlive.ctx_at, hs, hlive.timers .sendTimerCb s hs⟩

/-- A quiet step stops no send timer. -/
theorem Sending.change {p p' : Proc} (hp : Sound p) (hc : Change False p p')
    (hmap : p'.kcpMap = p.kcpMap) {conv : UInt32} (h : Sending p conv) : Sending p' conv := by
  rw [sending_iff (hc.sound hp)]
  obtain ⟨x, ctx, k, kcp, hlookup, hlive, hs⟩ := (sending_iff hp).mp h
  rw [← hmap] at hlookup
  cases hc with
  | idle hg => exact ⟨x, ctx, k, kcp, hlookup, hg.live.mpr hlive, hs⟩
  | @used y j ctx₀ ctx₁ kcp₀ kcp₁ hlive₀ hmoved _ hg =>
    rcases eq_or_ne x y with rfl | hne
    · obtain ⟨rfl, rfl, rfl⟩ := hlive₀.unique hlive
      have hsame : ctx₁.sendTimer = ctx.sendTimer := hmoved.timer_eq .sendTimerCb
      exact ⟨x, ctx₁, k, kcp₁, hlookup, hg.live.mpr (hlive₀.used_self hmoved), hsame ▸ hs⟩
    · exact ⟨x, ctx, k, kcp, hlookup, hg.live.mpr (hlive₀.used_of_ne hlive hne), hs⟩
  | @ended y j ctx₀ kcp₀ hlive₀ hmap₀ hg =>
    have herased : p'.kcpMap.lookup kcp₀.conv = none := by
      rw [hg.kcpMap]
      exact AList.lookup_erase _ _
    rw [hmap, hmap₀] at herased
    exact nomatch herased

/-- Whatever may happen next has a result: no timer leads its callback to a dead object. -/
def Responsive (c : Client) : Prop := ∀ e, Enabled c e → ∃ c', handle c e = some c'

/-- The steps that leave the client something to go on with: a context an ACK installs enters the
table with a send timer, unless some session of the table is sending anyway; and no datagram of a
session of the table is refused by `ikcp_input`. -/
def NotStranding (c : Client) (e : Event) : Prop :=
  ∀ env addr data, e = .recv env addr data →
    (∀ a, classify data = .ack a → env.CreateOk →
      (a ^^^ c.key ∉ c.proc.kcpMap ∧ env.sendTimerAlloc = true) ∨ ∃ conv, Sending c.proc conv) ∧
    (∀ conv, classify data = .kcp conv → conv ∈ c.proc.kcpMap → Acceptable conv data)

theorem responsive_of_timersOwned {c : Client} (h : Sturdy c) (ho : TimersOwned c.proc) :
    Responsive c := by
  intro e he
  have howned : Owned c e := by
    intro env t timer _ ht
    obtain ⟨ctx, hx, -⟩ := ho t timer ht
    exact ⟨ctx, hx⟩
  obtain ⟨c', hc', -⟩ := handle_cases h he howned
  exact ⟨c', hc'⟩

theorem not_responsive_of_dangling {c : Client} {t x : Ptr} {cb : TimerCb}
    (ht : c.proc.timers.lookup t = some ⟨cb, x⟩) (hx : c.proc.ctxs x = none) : ¬Responsive c := by
  intro h
  obtain ⟨c', hc'⟩ := h (.timer {} t) (AList.lookup_isSome.mp (by rw [ht]; rfl))
  obtain ⟨ctx, hctx⟩ := owned_of_handle hc' {} t _ rfl ht
  exact nomatch hx.symm.trans hctx

section Installed

variable {env : Env} {c : Client} {addr : SockAddr} {conv : UInt32}

theorem sending_ackInstalled_of_sending (h : Sturdy c) {conv' : UInt32}
    (hs : Sending c.proc conv') : Sending (ackInstalled env c addr conv).proc conv' := by
  obtain ⟨x, ctx, k, kcp, hmap, hlive, hsend⟩ := (sending_iff h.sound).mp hs
  rw [sending_iff (sound_ackInstalled h.sound)]
  refine ⟨x, ctx, k, kcp, ?_, live_ackInstalled_of_live h.sound hlive, hsend⟩
  rw [kcpMap_ackInstalled]
  exact lookup_emplace_of_some hmap

theorem sending_ackInstalled (h : Sturdy c) (hfresh : conv ∉ c.proc.kcpMap)
    (halloc : env.sendTimerAlloc = true) : Sending (ackInstalled env c addr conv).proc conv := by
  rw [sending_iff (sound_ackInstalled h.sound)]
  obtain ⟨ctx, hlive, -, -, hsend⟩ := @live_ackInstalled env c addr conv h.sound
  refine ⟨_, ctx, _, _, ?_, hlive, hsend.mpr halloc⟩
  rw [kcpMap_ackInstalled]
  exact lookup_emplace_self hfresh

/-- If the ACK neither brought a sending session into the table nor found one there, the client is
stranded: its connect timer has been stopped. -/
theorem not_alive_ackInstalled (h : Sturdy c)
    (hnew : ¬(conv ∉ c.proc.kcpMap ∧ env.sendTimerAlloc = true))
    (hold : ¬∃ conv', Sending c.proc conv') : ¬Alive (ackInstalled env c addr conv) := by
  rintro (hfalse | ⟨conv', hs⟩)
  · exact nomatch hfalse
  obtain ⟨x, ctx, k, kcp, hmap, hlive, hsend⟩ := (sending_iff (sound_ackInstalled h.sound)).mp hs
  rw [kcpMap_ackInstalled] at hmap
  -- an entry that was there before was sending before
  have hbefore : c.proc.kcpMap.lookup conv' ≠ some k := by
    intro hmap'
    obtain ⟨ctx₀, kcp₀, hlive₀, -⟩ := h.sound.live_of_entry hmap'
    have hlive₁ := @live_ackInstalled_of_live env c addr conv h.sound _ _ _ _ hlive₀
    obtain rfl := hlive.ctx_eq hlive₁
    obtain ⟨rfl, -, -⟩ := hlive.unique hlive₁
    exact hold ⟨conv', (sending_iff h.sound).mpr ⟨_, _, k, kcp₀, hmap', hlive₀, hsend⟩⟩
  -- the entry is an old one, or the one the ACK has made
  by_cases hmem : conv ∈ c.proc.kcpMap
  · have hmem' : conv ∈ (c.proc.opened addr conv).kcpMap := hmem
    rw [emplace_of_mem hmem'] at hmap
    exact hbefore hmap
  · have hmem' : conv ∉ (c.proc.opened addr conv).kcpMap := hmem
    rw [emplace_of_notMem hmem'] at hmap
    rcases eq_or_ne conv' conv with rfl | hne
    · obtain rfl : c.proc.brk + 1 = k :=
        Option.some.inj ((AList.lookup_insert c.proc.kcpMap).symm.trans hmap)
      obtain ⟨ctx₁, hlive₁, -, -, hsend₁⟩ := @live_ackInstalled env c addr conv' h.sound
      obtain rfl := hlive.ctx_eq hlive₁
      obtain ⟨rfl, -, -⟩ := hlive.unique hlive₁
      exact hnew ⟨hmem, hsend₁.mp hsend⟩
    · exact hbefore ((AList.lookup_insert_ne hne).symm.trans hmap)

end Installed

theorem Alive.outcome {c c' : Client} {e : Event} (h : Alive c) (hsturdy : Sturdy c)
    (hnot : NotStranding c e) (hout : Outcome c e c') : Alive c' := by
  cases hout with
  | quiet hc hmap _ => exact h.imp id fun ⟨conv, hs⟩ ↦ ⟨conv, hs.change hsturdy.sound hc hmap⟩
  | reconnected env hc _ _ => exact .inl rfl
  | @installed env addr data a he hkind hok =>
    rcases (hnot _ _ _ he).1 _ hkind hok with ⟨hfresh, halloc⟩ | ⟨conv, hs⟩
    · exact .inr ⟨_, sending_ackInstalled hsturdy hfresh halloc⟩
    · exact .inr ⟨conv, sending_ackInstalled_of_sending hsturdy hs⟩
  | refused he hkind hbad hmap hlive hgrown _ =>
    have hmem := AList.lookup_isSome.mp (by rw [hmap]; rfl)
    exact absurd ((hnot _ _ _ he).2 _ hkind hmem) hbad

theorem alive_inductive : (lts.restrict NotStranding).Inductive fun c ↦
    Sturdy c ∧ Alive c ∧ TimersOwned c.proc :=
  (sturdy_inductive.restrict NotStranding).and
    (fun _ hc ↦ by
      obtain ⟨env, rfl⟩ := hc
      refine ⟨.inl rfl, fun t _ h ↦ ?_⟩
      exact nomatch (AList.lookup_empty t).symm.trans h)
    (fun _ _ _ hsturdy ⟨h, ho⟩ hs ↦ by
      have hout := step_outcome hsturdy hs.1
      exact ⟨h.outcome hsturdy hs.2 hout, hout.timersOwned hsturdy.sound ho fun env addr data he ↦
        (hs.2 env addr data he).2⟩)

/-- **The client is not stranded along any run that meets the condition**: it has something to go on
with, and every event that may come next has a result. Every other step of any run ends without the
one or without the other. -/
theorem not_stranded_iff (c : Client) :
    ((lts.restrict NotStranding).Reachable c → Alive c ∧ Responsive c) ∧
    ∀ e c', lts.Reachable c → lts.step c e c' → ¬NotStranding c e → ¬(Alive c' ∧ Responsive c') := by
  constructor
  · intro h
    obtain ⟨hsturdy, halive, ho⟩ := alive_inductive.reachable h
    exact ⟨halive, responsive_of_timersOwned hsturdy ho⟩
  intro e c' h hs hnot
  have hsturdy := sturdy_inductive.reachable h
  unfold NotStranding at hnot
  push Not at hnot
  obtain ⟨env, addr, data, rfl, hnot⟩ := hnot
  -- either an ACK starts no sending session, or a refused datagram leaves a timer behind
  by_cases hack : ∀ a, classify data = .ack a → env.CreateOk →
      (a ^^^ c.key ∉ c.proc.kcpMap ∧ env.sendTimerAlloc = true) ∨ ∃ conv, Sending c.proc conv
  · obtain ⟨conv, hkind, hmem, hbad⟩ := hnot hack
    obtain ⟨k, hc⟩ := Option.isSome_iff_exists.mp (AList.lookup_isSome.mpr hmem)
    obtain ⟨ctx, kcp, hlive, rfl⟩ := hsturdy.sound.live_of_entry hc
    obtain ⟨p', hp', hgrown, -⟩ := handle_of_refused hkind hc hlive hbad
    obtain rfl := Option.some.inj (hp'.symm.trans hs.2)
    obtain ⟨t, ht, hx⟩ := dangling_dropped hlive hgrown
    exact fun h' ↦ not_responsive_of_dangling ht hx h'.2
  · push Not at hack
    obtain ⟨a, hkind, hok, hnew, hold⟩ := hack
    have hstep := hs.2
    rw [handle, udpRecvCb_eq, hkind] at hstep
    dsimp only at hstep
    rw [recvAck_of_createOk hok] at hstep
    obtain rfl := Option.some.inj hstep
    exact fun h' ↦ not_alive_ackInstalled hsturdy (fun h ↦ hnew h.1 h.2)
      (fun ⟨conv, h⟩ ↦ hold conv h) h'.1

theorem not_stranded_connected : Alive connected ∧ Responsive connected := by
  refine (not_stranded_iff connected).1 (.step (.init ⟨{}, rfl⟩)
    ⟨@step_ack (connect {} {}) {} ⟨rfl, rfl⟩ (.inet 0 1) 1001, ?_⟩)
  intro env addr data he
  cases he
  exact ⟨fun a _ _ ↦ .inl ⟨AList.notMem_empty _, rfl⟩, fun _ _ h ↦ absurd h (AList.notMem_empty _)⟩

/-- 24 bytes of conversation 1001 with a command no segment has. -/
def badDatagram : List UInt8 := encode32u 1001 ++ List.replicate 20 0

/-- The datagram arrives at a client that has just connected. -/
theorem stranded_after_bad_datagram :
    ¬∀ c, (lts.restrict Allocates).Reachable c → Alive c := by
  intro hall
  have hmap : connected.proc.kcpMap.lookup 1001 = some 1 := by
    rw [kcpMap_connected]
    exact AList.lookup_insert _
  obtain ⟨ctx, hlive, -⟩ := live_connected
  have hbad : ¬Acceptable 1001 badDatagram :=
    (ikcpInput_neg_iff (configuredKcp 1001 0) badDatagram).mp (by decide)
  obtain ⟨p', hp', hgrown, -⟩ := @handle_of_refused connected {} (.inet 0 1) badDatagram _ _ _ _
    (by decide) hmap hlive hbad
  have hstep : lts.step connected (.recv {} (.inet 0 1) badDatagram) _ := ⟨trivial, hp'⟩
  rcases hall _ (.step reachable_connected ⟨hstep, rfl, rfl, rfl⟩) with hfalse | ⟨conv, hs⟩
  · exact nomatch hfalse
  · -- the table held nothing else
    obtain ⟨k, _, _, _, hlookup, -⟩ := hs
    have hlookup : p'.kcpMap.lookup conv = some k := hlookup
    have hempty : p'.kcpMap = (connected.proc.kcpMap).erase 1001 := hgrown.kcpMap
    rw [hempty, kcpMap_connected] at hlookup
    rcases eq_or_ne conv 1001 with rfl | hne
    · exact nomatch (AList.lookup_erase _ _).symm.trans hlookup
    · rw [AList.lookup_erase_ne hne, AList.lookup_insert_ne hne, AList.lookup_empty] at hlookup
      exact nomatch hlookup

end Client
end KcpEcho
