import KcpEcho.Base.Transition
import KcpEcho.Process.Handlers

/-!
# The server's session table

The server as a transition system over datagrams of any bytes from any address and update-timer
ticks at any clock values. Every step opens a session, or is a `Change`; from that the two
statements about the table follow.

* `Consistent` holds of every run: whatever the table lists is a complete session, every timer has
  an owner, and a session that has been heard from is listed.
* `AllListed`, that every live context is listed, needs more: the table refuses a conversation
  number it already holds, so it survives exactly the SYNs that find the next number unused.
-/

namespace KcpEcho
namespace Server

open Proc

/-! ## Runs -/

/-- What can happen to the server. -/
inductive Event
  /-- `udp_recv_cb`. -/
  | recv (env : Env) (addr : SockAddr) (data : List UInt8)
  /-- `KcpContext::UpdateTimerCb`. -/
  | updateTimer (env : Env) (t : Ptr)

/-- Only open timers fire. -/
def Enabled (p : Proc) : Event → Prop
  | .recv _ _ _ => True
  | .updateTimer _ t => ∃ x, p.timers.lookup t = some ⟨.updateTimerCb, x⟩

def handle (p : Proc) : Event → Option Proc
  | .recv env addr data => udpRecvCb env addr data p
  | .updateTimer env t => Proc.updateTimerCb kcpOutput env p t

/-- What the outside decides during an event. -/
def Event.env : Event → Env
  | .recv env _ _ => env
  | .updateTimer env _ => env

/-- A step in which every allocation succeeds. -/
def Allocates (_ : Proc) (e : Event) : Prop := e.env.AllocOk

/-- The server from its start on. -/
def lts : Lts Proc Event where
  init p := p = {}
  step p e p' := Enabled p e ∧ handle p e = some p'

/-! ## The invariant -/

/-- Whatever the server can reach. -/
structure Consistent (p : Proc) : Prop where
  sound : Sound p
  owned : TimersOwned p
  /-- A session that has been heard from is in the table. -/
  stamped : ∀ x ctx, p.ctxs x = some ctx → ctx.lastRecvTime ≠ 0 → Listed p x

theorem Consistent.init : Consistent {} where
  sound :=
    { ctx_fresh _ _ := rfl
      kcp_fresh _ _ := rfl
      timer_fresh _ _ := AList.lookup_empty _
      ctx_live _ _ h := nomatch h
      kcp_live _ _ h := nomatch h
      map_kcp c _ h := nomatch (AList.lookup_empty c).symm.trans h }
  owned t _ h := nomatch (AList.lookup_empty t).symm.trans h
  stamped _ _ h := nomatch h

theorem Consistent.change {p p' : Proc} (h : Consistent p) (hc : Change True p p') :
    Consistent p' where
  sound := hc.sound h.sound
  owned := hc.timersOwned h.owned
  stamped y ctx' hy hne := by
    obtain ⟨ctx, hctx, hlisted, heq | ⟨-, hl⟩⟩ := hc.listed hy
    · exact hlisted (h.stamped y ctx hctx (heq ▸ hne))
    · exact hlisted hl

/-- The objects after a SYN has been answered. -/
theorem grown_synAnswered (p : Proc) (addr : SockAddr) (key : UInt32) :
    Grown ((p.opened addr (p.sConv + 1)).emplace (p.sConv + 1) (p.brk + 1))
      (synAnswered p addr key) := by
  have hopened : Grown (p.opened addr (p.sConv + 1))
      (({ p with sConv := p.sConv + 1 }.opened addr (p.sConv + 1)).uses [.ctx p.brk]) :=
    ⟨rfl, rfl, rfl, rfl, le_rfl⟩
  exact (hopened.emplace _ _).trans (grown_sendUdpPacket _ _ _ _)

theorem sound_synAnswered {p : Proc} (hp : Sound p) (addr : SockAddr) (key : UInt32) :
    Sound (synAnswered p addr key) :=
  (grown_synAnswered p addr key).sound ((hp.opened addr _).emplace (Function.update_self _ _ _) rfl)

/-- The session a SYN opens, if the table takes it. -/
theorem kcpMap_synAnswered {p : Proc} {addr : SockAddr} {key : UInt32}
    (hfresh : p.sConv + 1 ∉ p.kcpMap) :
    (synAnswered p addr key).kcpMap = p.kcpMap.insert (p.sConv + 1) (p.brk + 1) := by
  have hmem : p.sConv + 1 ∉ (p.opened addr (p.sConv + 1)).kcpMap := hfresh
  rw [(grown_synAnswered p addr key).kcpMap, emplace_of_notMem hmem]
  rfl

theorem lookup_synAnswered {p : Proc} {addr : SockAddr} {key : UInt32}
    (hfresh : p.sConv + 1 ∉ p.kcpMap) :
    (synAnswered p addr key).kcpMap.lookup (p.sConv + 1) = some (p.brk + 1) := by
  rw [kcpMap_synAnswered hfresh]
  exact AList.lookup_insert _

theorem live_synAnswered {p : Proc} {addr : SockAddr} {key : UInt32} :
    Live (synAnswered p addr key) p.brk (p.openCtx addr) (p.brk + 1)
      (configuredKcp (p.sConv + 1) p.brk) :=
  (grown_synAnswered p addr key).live.mpr (live_emplace.mpr live_opened_self)

theorem live_synAnswered_of_live {p : Proc} (hp : Sound p) {addr : SockAddr} {key : UInt32}
    {x k : Ptr} {ctx : KcpContext} {kcp : Ikcpcb} (h : Live p x ctx k kcp) :
    Live (synAnswered p addr key) x ctx k kcp :=
  (grown_synAnswered p addr key).live.mpr (live_emplace.mpr (h.opened hp))

/-- A session that is there after a SYN was there before, or is the one it opened. -/
theorem live_of_live_synAnswered {p : Proc} (hp : Sound p) {addr : SockAddr} {key : UInt32}
    {y j : Ptr} {ctx : KcpContext} {kcp : Ikcpcb} (hl : Live (synAnswered p addr key) y ctx j kcp) :
    kcp.conv = p.sConv + 1 ∨ Live p y ctx j kcp := by
  rcases eq_or_ne y p.brk with rfl | hne
  · obtain ⟨-, rfl, rfl⟩ := live_synAnswered.unique hl
    exact .inl rfl
  · have hy := hl.ctx_at
    rw [(grown_synAnswered p addr key).ctxs, (emplace_frame _ _ _).1] at hy
    obtain ⟨k, kcp₀, hlive⟩ := hp.ctx_live y ctx ((Function.update_of_ne hne _ _).symm.trans hy)
    obtain ⟨-, rfl, rfl⟩ := (live_synAnswered_of_live hp hlive).unique hl
    exact .inr hlive

theorem Consistent.synAnswered {p : Proc} (h : Consistent p) (addr : SockAddr) (key : UInt32) :
    Consistent (synAnswered p addr key) where
  sound := sound_synAnswered h.sound addr key
  owned := (grown_synAnswered p addr key).timersOwned (h.owned.opened h.sound addr _).emplace
  stamped x ctx hx hne := by
    rw [(grown_synAnswered p addr key).listed]
    rw [(grown_synAnswered p addr key).ctxs, (emplace_frame _ _ _).1] at hx
    rcases eq_or_ne x p.brk with rfl | hnew
    · obtain rfl : p.openCtx addr = ctx :=
        Option.some.inj ((Function.update_self p.brk _ p.ctxs).symm.trans hx)
      exact absurd rfl hne
    · obtain ⟨ctx₁, k, kcp, hlive, hmap⟩ :=
        h.stamped x ctx ((Function.update_of_ne hnew _ _).symm.trans hx) hne
      exact Listed.emplace ⟨ctx₁, k, kcp, hlive.opened h.sound, hmap⟩

/-! ## What a step does -/

/-- The answered SYN of an event, if it is one. -/
def IsSyn (e : Event) (addr : SockAddr) (key : UInt32) : Prop :=
  ∃ env data, e = .recv env addr data ∧ classify data = .syn key ∧ env.CreateOk

/-- What the server does in every other step. -/
structure Reaction (p p' : Proc) : Prop where
  change : Change True p p'
  utters : Utters p p'
  /-- A SYN that finds no memory uses up a number all the same. -/
  sConv : p'.sConv = p.sConv ∨ p'.sConv = p.sConv + 1

theorem Reaction.refl (p : Proc) : Reaction p p := ⟨.idle (.refl p), .nothing rfl, .inl rfl⟩

theorem reaction_recvFin {p : Proc} (hp : Sound p) (conv : UInt32) :
    ∃ p', recvFin conv p = some p' ∧ Reaction p p' := by
  cases hc : p.kcpMap.lookup conv with
  | none => exact ⟨p, recvFin_of_unknown hc, .refl p⟩
  | some k =>
    obtain ⟨ctx, kcp, hlive, rfl⟩ := hp.live_of_entry hc
    exact ⟨_, recvFin_of_live hc hlive, .ended hlive hc ⟨rfl, rfl, rfl, rfl, le_rfl⟩,
      .nothing rfl, .inl rfl⟩

theorem reaction_recvKcp {p : Proc} (hp : Sound p) (env : Env) (addr : SockAddr) (conv : UInt32)
    (data : List UInt8) : ∃ p', recvKcp env addr conv data p = some p' ∧ Reaction p p' := by
  cases hc : p.kcpMap.lookup conv with
  | none =>
    exact ⟨_, recvKcp_of_unknown hc, .idle (grown_sendUdpPacket _ _ _ _),
      @Utters.fin p _ p (.nothing rfl) _ _ rfl, .inl rfl⟩
  | some k =>
    obtain ⟨ctx, kcp, hlive, rfl⟩ := hp.live_of_entry hc
    rcases lt_or_ge (ikcpInput kcp data).2 0 with hbad | hok
    · refine ⟨_, recvKcp_of_refused hc hlive hbad, .ended hlive hc ?_,
        @Utters.fin p _ p (.nothing rfl) _ _ rfl, .inl rfl⟩
      exact ended_used.trans ⟨rfl, rfl, rfl, rfl, le_rfl⟩
    · refine ⟨_, recvKcp_of_accepted hc hlive hok, .used hlive ?_ (.inr ⟨trivial, hc⟩)
        ⟨rfl, rfl, rfl, rfl, le_rfl⟩, .nothing rfl, .inl rfl⟩
      exact ⟨rfl, fun cb ↦ by cases cb <;> rfl, (Evolves.input kcp data).trans (.echo _)⟩

/-- A timeout ends the session whose timer fired: it has been heard from, so it is listed. -/
theorem Consistent.timeout {p : Proc} (h : Consistent p) {env : Env} {t x : Ptr} {ctx : KcpContext}
    (ht : p.timers.lookup t = some ⟨.updateTimerCb, x⟩) (hx : p.ctxs x = some ctx)
    (hout : isTimeout env ctx = true) :
    ∃ k kcp p', Live p x ctx k kcp ∧ p.kcpMap.lookup kcp.conv = some k ∧
      Proc.updateTimerCb kcpOutput env p t = some p' ∧ Grown (p.ended kcp.conv x ctx k) p' ∧
      Utters p p' ∧ p'.sConv = p.sConv := by
  -- a session that has heard nothing never times out
  have hne : ctx.lastRecvTime ≠ 0 := by
    intro h0
    rw [isTimeout, if_pos h0] at hout
    exact nomatch hout
  obtain ⟨ctx₁, k, kcp, hlive, hmap⟩ := h.stamped x ctx hx hne
  obtain rfl : ctx = ctx₁ := Option.some.inj (hx.symm.trans hlive.ctx_at)
  have hmem : kcp.conv ∈ p.kcpMap := AList.lookup_isSome.mp (by rw [hmap]; rfl)
  have heq := @updateTimerCb_eq kcpOutput env _ _ _ _ _ _ hlive ht
  rw [if_pos hout] at heq
  dsimp only at heq
  rw [if_pos hmem] at heq
  exact ⟨k, kcp, _, hlive, hmap, heq, ended_used.trans ⟨rfl, rfl, rfl, rfl, le_rfl⟩,
    (Utters.ticked kcpOutput env hlive).fin rfl, rfl⟩

/-- The update timer of a session. -/
theorem reaction_updateTimerCb {p : Proc} (h : Consistent p) (env : Env) {t x : Ptr}
    (ht : p.timers.lookup t = some ⟨.updateTimerCb, x⟩) :
    ∃ p', Proc.updateTimerCb kcpOutput env p t = some p' ∧ Reaction p p' := by
  obtain ⟨ctx, hx, -⟩ := h.owned t _ ht
  by_cases hout : isTimeout env ctx = true
  · obtain ⟨k, kcp, p', hlive, hmap, hp', hgrown, hutters, hconv⟩ := h.timeout ht hx hout
    exact ⟨p', hp', .ended hlive hmap hgrown, hutters, .inl hconv⟩
  · obtain ⟨k, kcp, hlive⟩ := h.sound.ctx_live x ctx hx
    rw [updateTimerCb_eq hlive ht, if_neg hout]
    exact ⟨_, rfl, .used hlive (.of_evolves ctx (.update kcp env.now32)) (.inl rfl) grown_ticked,
      .ticked kcpOutput env hlive, .inl rfl⟩

/-- **Every step of the server** has a result, and either answers a SYN or is a `Reaction`. -/
theorem handle_cases {p : Proc} (h : Consistent p) {e : Event} (he : Enabled p e) :
    ∃ p', handle p e = some p' ∧
      (Reaction p p' ∨ ∃ addr key, IsSyn e addr key ∧ p' = synAnswered p addr key) := by
  cases e with
  | recv env addr data =>
    rw [handle, udpRecvCb_eq]
    cases hkind : classify data with
    | syn key =>
      by_cases hok : env.CreateOk
      · exact ⟨_, recvSyn_of_createOk hok key, .inr ⟨addr, key, ⟨env, data, rfl, hkind, hok⟩, rfl⟩⟩
      · obtain ⟨p', hp', hgrown, hconv, hout⟩ := @recvSyn_of_not_createOk _ addr _ h.sound hok key
        exact ⟨p', hp', .inl ⟨.idle hgrown, .nothing hout, .inr hconv⟩⟩
    | ack => exact ⟨p, rfl, .inl (.refl p)⟩
    | fin conv =>
      obtain ⟨p', hp', hreaction⟩ := reaction_recvFin h.sound conv
      exact ⟨p', hp', .inl hreaction⟩
    | kcp conv =>
      obtain ⟨p', hp', hreaction⟩ := reaction_recvKcp h.sound env addr conv data
      exact ⟨p', hp', .inl hreaction⟩
    | other => exact ⟨p, rfl, .inl (.refl p)⟩
  | updateTimer env t =>
    obtain ⟨x, ht⟩ := he
    obtain ⟨p', hp', hreaction⟩ := reaction_updateTimerCb h env ht
    exact ⟨p', hp', .inl hreaction⟩

theorem Consistent.step {p p' : Proc} {e : Event} (h : Consistent p) (hs : lts.step p e p') :
    Consistent p' := by
  obtain ⟨q, hq, hcases⟩ := handle_cases h hs.1
  obtain rfl : q = p' := Option.some.inj (hq.symm.trans hs.2)
  rcases hcases with hreaction | ⟨addr, key, -, rfl⟩
  · exact h.change hreaction.change
  · exact h.synAnswered addr key

theorem consistent_inductive : lts.Inductive Consistent where
  init _ hp := hp ▸ Consistent.init
  step _ _ _ h hs := h.step hs

theorem step_syn (p : Proc) {env : Env} (h : env.CreateOk) (addr : SockAddr) (key : UInt32) :
    lts.step p (.recv env addr (udpPacket 1 key)) (synAnswered p addr key) := by
  refine ⟨trivial, ?_⟩
  rw [handle, udpRecvCb_eq, classify_syn]
  exact recvSyn_of_createOk h key

/-- A SYN can always arrive. -/
theorem reachable_synAnswered {p : Proc} (h : (lts.restrict Allocates).Reachable p)
    (addr : SockAddr) (key : UInt32) :
    (lts.restrict Allocates).Reachable (synAnswered p addr key) :=
  .step h ⟨@step_syn p {} ⟨rfl, rfl⟩ addr key, rfl, rfl, rfl⟩

/-- So can a FIN for any session of the table. -/
theorem reachable_ended {p : Proc} (h : (lts.restrict Allocates).Reachable p) {x k : Ptr}
    {ctx : KcpContext} {kcp : Ikcpcb} (hlive : Live p x ctx k kcp)
    (hmap : p.kcpMap.lookup kcp.conv = some k) :
    (lts.restrict Allocates).Reachable
      ((p.uses [.entry kcp.conv, .kcp k]).ended kcp.conv x ctx k) := by
  have hstep : lts.step p (.recv {} (.inet 0 0) (udpPacket 3 kcp.conv))
      ((p.uses [.entry kcp.conv, .kcp k]).ended kcp.conv x ctx k) := by
    refine ⟨trivial, ?_⟩
    rw [handle, udpRecvCb_eq, classify_fin]
    exact recvFin_of_live hmap hlive
  exact .step h ⟨hstep, rfl, rfl, rfl⟩

/-! ### A first byte -/

/-- The server after its first SYN. -/
def firstOpened : Proc := synAnswered {} (.inet 0 1) 5

/-- One byte for the session it has opened. -/
def firstByte : List UInt8 := ({ conv := 1001, cmd := ikcpCmdPush, data := [7] } : IkcpSeg).wire

theorem classify_firstByte : classify firstByte = .kcp 1001 := by decide

theorem ikcpInput_firstByte : 0 ≤ (ikcpInput (configuredKcp 1001 0) firstByte).2 := by decide

theorem live_firstOpened : Live firstOpened 0 (({} : Proc).openCtx (.inet 0 1)) 1
    (configuredKcp 1001 0) := live_synAnswered

theorem lookup_firstOpened : firstOpened.kcpMap.lookup 1001 = some 1 :=
  @lookup_synAnswered {} (.inet 0 1) 5 (AList.notMem_empty _)

/-- The session has accepted the byte. -/
def firstHeard (env : Env) : Proc :=
  (firstOpened.uses [.entry 1001, .kcp 1, .entry 1001, .ctx 0]).used 0
    { ({} : Proc).openCtx (.inet 0 1) with lastRecvTime := env.now32 } 1
    (echo (ikcpInput (configuredKcp 1001 0) firstByte).1).1

theorem live_firstHeard (env : Env) : Live (firstHeard env) 0
    { ({} : Proc).openCtx (.inet 0 1) with lastRecvTime := env.now32 } 1
    (echo (ikcpInput (configuredKcp 1001 0) firstByte).1).1 :=
  (live_firstOpened.uses _).used_self ⟨rfl, fun cb ↦ by cases cb <;> rfl,
    (Evolves.input _ firstByte).trans (.echo _)⟩

theorem step_firstHeard (env : Env) (addr : SockAddr) :
    lts.step firstOpened (.recv env addr firstByte) (firstHeard env) := by
  refine ⟨trivial, ?_⟩
  rw [handle, udpRecvCb_eq, classify_firstByte]
  exact recvKcp_of_accepted lookup_firstOpened live_firstOpened ikcpInput_firstByte

/-! ## No dangling session -/

/-- What the table and the timers of the server never lose. -/
structure NoDangling (p : Proc) : Prop where
  /-- An entry holds an unreleased control block of its number, whose user is a live context that
  points back to it and has an open update timer. -/
  entry : ∀ c k, p.kcpMap.lookup c = some k → ∃ kcp ctx t, p.kcps k = some kcp ∧ kcp.conv = c ∧
    p.ctxs kcp.user = some ctx ∧ ctx.kcp = some k ∧ ctx.updateTimer = some t ∧
    p.timers.lookup t = some ⟨.updateTimerCb, kcp.user⟩
  /-- Distinct entries have distinct contexts. -/
  distinct : ∀ c c' k k' kcp kcp', p.kcpMap.lookup c = some k → p.kcpMap.lookup c' = some k' →
    p.kcps k = some kcp → p.kcps k' = some kcp' → kcp.user = kcp'.user → c = c'
  /-- An open update timer points to a live context. -/
  timer : ∀ t x, p.timers.lookup t = some ⟨.updateTimerCb, x⟩ → ∃ ctx, p.ctxs x = some ctx
  /-- A context that has been heard from is in the table under its own number. -/
  stamped : ∀ x ctx, p.ctxs x = some ctx → ctx.lastRecvTime ≠ 0 →
    ∃ k kcp, ctx.kcp = some k ∧ p.kcps k = some kcp ∧ p.kcpMap.lookup kcp.conv = some k
  /-- A timeout deletes exactly the context and the entry of the session whose timer fired. -/
  timeout : ∀ env t x ctx, p.timers.lookup t = some ⟨.updateTimerCb, x⟩ → p.ctxs x = some ctx →
    isTimeout env ctx = true → ∃ k kcp p', ctx.kcp = some k ∧ p.kcps k = some kcp ∧
      p.kcpMap.lookup kcp.conv = some k ∧ Proc.updateTimerCb kcpOutput env p t = some p' ∧
      p'.ctxs = Function.update p.ctxs x none ∧ p'.kcps = Function.update p.kcps k none ∧
      p'.kcpMap = p.kcpMap.erase kcp.conv
  /-- Every handler has a result. -/
  runs : ∀ e, Enabled p e → ∃ p', handle p e = some p'

/-- **No dangling session.** Whatever the server receives, and however its clock runs. -/
theorem no_dangling_session {p : Proc} (h : lts.Reachable p) : NoDangling p := by
  have hp := consistent_inductive.reachable h
  refine ⟨?_, ?_, ?_, ?_, ?_, ?_⟩
  · intro c k hc
    obtain ⟨ctx, kcp, hlive, hconv⟩ := hp.sound.live_of_entry hc
    obtain ⟨t, ht⟩ := Option.ne_none_iff_exists'.mp hlive.timed
    exact ⟨kcp, ctx, t, hlive.kcp_at, hconv, hlive.ctx_at, hlive.kcp_eq, ht,
      hlive.timers .updateTimerCb t ht⟩
  · intro c c' k k' kcp kcp' hc hc' hk hk' huser
    obtain ⟨ctx, hlive⟩ := hp.sound.live_of_kcp hk
    obtain ⟨ctx', hlive'⟩ := hp.sound.live_of_kcp hk'
    rw [← huser] at hlive'
    obtain ⟨-, rfl, -⟩ := hlive.unique hlive'
    exact hp.sound.entry_inj hc hc'
  · intro t x ht
    obtain ⟨ctx, hx, -⟩ := hp.owned t _ ht
    exact ⟨ctx, hx⟩
  · intro x ctx hx hne
    obtain ⟨ctx₁, k, kcp, hlive, hmap⟩ := hp.stamped x ctx hx hne
    obtain rfl : ctx = ctx₁ := Option.some.inj (hx.symm.trans hlive.ctx_at)
    exact ⟨k, kcp, hlive.kcp_eq, hlive.kcp_at, hmap⟩
  · intro env t x ctx ht hx hout
    obtain ⟨k, kcp, p', hlive, hmap, hp', hgrown, -⟩ := hp.timeout ht hx hout
    exact ⟨k, kcp, p', hlive.kcp_eq, hlive.kcp_at, hmap, hp', hgrown.ctxs, hgrown.kcps,
      hgrown.kcpMap⟩
  · intro e he
    obtain ⟨p', hp', -⟩ := handle_cases hp he
    exact ⟨p', hp'⟩

/-- Two sessions; the first has been heard from at 1000 ms, the second never. -/
def twoOpened : Proc := synAnswered (firstHeard { now := 1000 }) (.inet 0 2) 6

/-- At 61001 ms the first times out, and the second stays. -/
theorem no_dangling_session_two : NoDangling twoOpened ∧
    ∃ p', Proc.updateTimerCb kcpOutput { now := 61001 } twoOpened 2 = some p' ∧
      1001 ∉ p'.kcpMap ∧ 1002 ∈ p'.kcpMap ∧ p'.ctxs = Function.update twoOpened.ctxs 0 none := by
  have hheard : lts.Reachable (firstHeard { now := 1000 }) :=
    .step (reachable_synAnswered (.init rfl) _ _).of_restrict (step_firstHeard _ (.inet 0 1))
  have htwo : lts.Reachable twoOpened := .step hheard (@step_syn _ {} ⟨rfl, rfl⟩ (.inet 0 2) 6)
  have hall := no_dangling_session htwo
  have hlive : Live twoOpened 0 _ 1 _ :=
    live_synAnswered_of_live (consistent_inductive.reachable hheard).sound (live_firstHeard _)
  obtain ⟨k, kcp, p', hk, hkcp, -, hp', hctxs, -, hmap⟩ := hall.timeout { now := 61001 } 2 0 _
    (hlive.timers .updateTimerCb 2 rfl) hlive.ctx_at (by decide)
  obtain rfl : 1 = k := Option.some.inj (hlive.kcp_eq.symm.trans hk)
  have hconv : kcp.conv = 1001 := by
    rw [← Option.some.inj (hlive.kcp_at.symm.trans hkcp)]
    decide
  have hmem : 1002 ∈ twoOpened.kcpMap := by decide
  rw [hconv] at hmap
  refine ⟨hall, p', hp', ?_, ?_, hctxs⟩
  · rw [hmap, AList.mem_erase]
    exact fun h ↦ h.1 rfl
  · rw [hmap, AList.mem_erase]
    exact ⟨by decide, hmem⟩

/-! ## No orphan, no shared conversation -/

/-- Every live context is the one the table records under its number. -/
def AllListed (p : Proc) : Prop := ∀ x ctx, p.ctxs x = some ctx → Listed p x

/-- A SYN that is going to be answered finds the next conversation number unused. -/
def FreshConv (p : Proc) (e : Event) : Prop :=
  ∀ addr key, IsSyn e addr key → p.sConv + 1 ∉ p.kcpMap

theorem AllListed.change {p p' : Proc} (h : AllListed p) (hc : Change True p p') :
    AllListed p' := by
  intro y ctx' hy
  obtain ⟨ctx, hctx, hlisted, -⟩ := hc.listed hy
  exact hlisted (h y ctx hctx)

theorem AllListed.synAnswered {p : Proc} (h : AllListed p) (hp : Sound p) {addr : SockAddr}
    {key : UInt32} (hfresh : p.sConv + 1 ∉ p.kcpMap) : AllListed (synAnswered p addr key) := by
  intro x ctx hx
  rcases eq_or_ne x p.brk with rfl | hnew
  · exact ⟨_, _, _, live_synAnswered, lookup_synAnswered hfresh⟩
  · rw [(grown_synAnswered p addr key).ctxs, (emplace_frame _ _ _).1] at hx
    obtain ⟨ctx₁, k, kcp, hlive, hmap⟩ := h x ctx ((Function.update_of_ne hnew _ _).symm.trans hx)
    rw [(grown_synAnswered p addr key).listed]
    exact Listed.emplace ⟨ctx₁, k, kcp, hlive.opened hp, hmap⟩

/-- **The slip.** When the table already holds the next number, the new context is live and in no
entry: the entry keeps the control block it had. -/
theorem not_listed_synAnswered {p : Proc} (hp : Sound p) {addr : SockAddr} {key : UInt32}
    (hused : p.sConv + 1 ∈ p.kcpMap) : ¬Listed (synAnswered p addr key) p.brk := by
  rintro ⟨ctx, k, kcp, hlive, hmap⟩
  obtain ⟨rfl, rfl, rfl⟩ := live_synAnswered.unique hlive
  rw [(grown_synAnswered p addr key).kcpMap] at hmap
  obtain ⟨k', hk'⟩ := Option.isSome_iff_exists.mp (AList.lookup_isSome.mpr hused)
  have hold := @lookup_emplace_of_some (p.opened addr (p.sConv + 1)) (p.sConv + 1) (p.brk + 1) _ _
    hk'
  obtain rfl : k' = p.brk + 1 := Option.some.inj (hold.symm.trans hmap)
  obtain ⟨kcp', hk, -⟩ := hp.map_kcp _ _ hk'
  exact nomatch (hp.kcp_fresh _ (Nat.le_succ _)).symm.trans hk

theorem listed_inductive : (lts.restrict FreshConv).Inductive fun p ↦ Consistent p ∧ AllListed p :=
  (consistent_inductive.restrict FreshConv).and
    (fun _ hp _ _ hx ↦ by subst hp; exact nomatch hx)
    (fun p e p' hcons hlisted hs ↦ by
      obtain ⟨⟨he, hstep⟩, hfresh⟩ := hs
      obtain ⟨q, hq, hcases⟩ := handle_cases hcons he
      obtain rfl : q = p' := Option.some.inj (hq.symm.trans hstep)
      rcases hcases with hreaction | ⟨addr, key, hsyn, rfl⟩
      · exact hlisted.change hreaction.change
      · exact hlisted.synAnswered hcons.sound (hfresh addr key hsyn))

/-- What a SYN from `addr` leaves behind that was answered with conversation number `conv`. -/
structure SynKept (p p' : Proc) (addr : SockAddr) (conv : UInt32) : Prop where
  /-- The number holds a fresh control block, bound to the source of the SYN. -/
  entry : ∃ x k ctx, p'.kcpMap.lookup conv = some k ∧ p'.kcps k = some (configuredKcp conv x) ∧
    p'.ctxs x = some ctx ∧ ctx.kcp = some k ∧ ctx.addr = addr ∧ p.kcps k = none ∧ p.ctxs x = none
  /-- No other entry, context or control block was touched. -/
  map : ∀ c k, p.kcpMap.lookup c = some k → p'.kcpMap.lookup c = some k
  ctxs : ∀ x ctx, p.ctxs x = some ctx → p'.ctxs x = some ctx
  kcps : ∀ k kcp, p.kcps k = some kcp → p'.kcps k = some kcp

theorem synKept_synAnswered {p : Proc} (hp : Sound p) {addr : SockAddr} {key : UInt32}
    (hfresh : p.sConv + 1 ∉ p.kcpMap) :
    SynKept p (synAnswered p addr key) addr (p.sConv + 1) where
  entry := ⟨p.brk, p.brk + 1, p.openCtx addr, lookup_synAnswered hfresh, live_synAnswered.kcp_at,
    live_synAnswered.ctx_at, rfl, rfl, hp.kcp_fresh _ (Nat.le_succ _), hp.ctx_fresh _ le_rfl⟩
  map c k hc := by
    rw [(grown_synAnswered p addr key).kcpMap]
    exact lookup_emplace_of_some hc
  ctxs x ctx hx := by
    rw [(grown_synAnswered p addr key).ctxs, (emplace_frame _ _ _).1]
    exact (Function.update_of_ne (ne_add_of_lt (hp.ctx_lt hx) 0) _ _).trans hx
  kcps k kcp hk := by
    rw [(grown_synAnswered p addr key).kcps, (emplace_frame _ _ _).2.1]
    exact (Function.update_of_ne (ne_add_of_lt (hp.kcp_lt hk) 1) _ _).trans hk

/-- A SYN that was answered with an ACK has opened a session; the ACK announces its number. -/
theorem answered_syn {p p' : Proc} (hp : Sound p) {env : Env} {addr : SockAddr} {data : List UInt8}
    {key a : UInt32} (hkind : classify data = .syn key)
    (hstep : handle p (.recv env addr data) = some p')
    (hout : p'.outbox = p.outbox ++ [⟨some addr, udpPacket 2 a⟩]) :
    IsSyn (.recv env addr data) addr key ∧ p' = synAnswered p addr key ∧
      a ^^^ key = p.sConv + 1 := by
  rw [handle, udpRecvCb_eq, hkind] at hstep
  dsimp only at hstep
  by_cases hok : env.CreateOk
  · rw [recvSyn_of_createOk hok] at hstep
    obtain rfl := Option.some.inj hstep
    refine ⟨⟨env, data, rfl, hkind, hok⟩, rfl, ?_⟩
    rw [outbox_synAnswered] at hout
    have hbytes := congrArg Packet.bytes (List.singleton_injective (List.append_cancel_left hout))
    have hconv := congrArg decode32u hbytes
    dsimp only at hconv
    rw [decode32u_udpPacket, decode32u_udpPacket] at hconv
    rw [← hconv, UInt32.xor_assoc, UInt32.xor_self, UInt32.xor_zero]
  · obtain ⟨q, hq, -, -, hbox⟩ := @recvSyn_of_not_createOk _ addr _ hp hok key
    obtain rfl : q = p' := Option.some.inj (hq.symm.trans hstep)
    rw [hbox] at hout
    exact absurd hout (by simp)

/-- **No orphan and no shared conversation, as long as the counter finds unused numbers.** Along a
run whose SYNs all do, every live context is listed, and an answered SYN leaves its own fresh
session under the announced number. A SYN that does not, in any reachable state, leaves a live
context that is in no entry. -/
theorem no_orphan_while_fresh (p : Proc) :
    ((lts.restrict FreshConv).Reachable p → AllListed p ∧
      ∀ env addr data key a p', lts.step p (.recv env addr data) p' →
        FreshConv p (.recv env addr data) → classify data = .syn key →
        p'.outbox = p.outbox ++ [⟨some addr, udpPacket 2 a⟩] → SynKept p p' addr (a ^^^ key)) ∧
    ∀ e p', lts.Reachable p → lts.step p e p' → ¬FreshConv p e → ¬AllListed p' := by
  refine ⟨fun h ↦ ?_, fun e p' h hs hnot hall ↦ ?_⟩
  · obtain ⟨hcons, hlisted⟩ := listed_inductive.reachable h
    refine ⟨hlisted, ?_⟩
    intro env addr data key a p' hs hfresh hkind hout
    obtain ⟨hsyn, rfl, hconv⟩ := answered_syn hcons.sound hkind hs.2 hout
    rw [hconv]
    exact synKept_synAnswered hcons.sound (hfresh addr key hsyn)
  · have hcons := consistent_inductive.reachable h
    unfold FreshConv at hnot
    push Not at hnot
    obtain ⟨addr, key, ⟨env, data, rfl, hkind, hok⟩, hused⟩ := hnot
    have hq := hs.2
    rw [handle, udpRecvCb_eq, hkind] at hq
    dsimp only at hq
    rw [recvSyn_of_createOk hok] at hq
    obtain rfl := Option.some.inj hq
    exact not_listed_synAnswered hcons.sound hused (hall _ _ live_synAnswered.ctx_at)

/-- The first SYN of all. -/
theorem no_orphan_while_fresh_first :
    AllListed {} ∧ SynKept {} (synAnswered {} (.inet 0 1) 5) (.inet 0 1) 1001 := by
  obtain ⟨hlisted, hkept⟩ := (no_orphan_while_fresh {}).1 (.init rfl)
  have hfresh : FreshConv {} (.recv {} (.inet 0 1) (udpPacket 1 5)) :=
    fun _ _ _ ↦ AList.notMem_empty _
  exact ⟨hlisted, hkept {} (.inet 0 1) _ 5 (1001 ^^^ 5) _ (step_syn _ ⟨rfl, rfl⟩ _ _) hfresh
    (classify_syn 5) rfl⟩

/-! ### The counter comes round

One session opened at the start is never heard from, so it never expires. Every later SYN is
followed by a FIN for the session it opened. After `2 ^ 32` numbers the counter announces the first
one again. -/

theorem reachable_first_kept (n : ℕ) (hn : n < 2 ^ 32) :
    ∃ p, (lts.restrict Allocates).Reachable p ∧ p.sConv = UInt32.ofNat (1001 + n) ∧
      1001 ∈ p.kcpMap ∧ ∀ c ≠ 1001, c ∉ p.kcpMap := by
  induction n with
  | zero =>
    have hmap := @kcpMap_synAnswered {} (.inet 0 1) 0 (AList.notMem_empty _)
    refine ⟨_, reachable_synAnswered (.init rfl) (.inet 0 1) 0, sConv_synAnswered _ _ _, ?_, ?_⟩
    · rw [hmap, AList.mem_insert]
      exact .inl rfl
    · intro c hc
      rw [hmap, AList.mem_insert]
      rintro (rfl | h)
      · exact hc rfl
      · exact AList.notMem_empty _ h
  | succ n ih =>
    obtain ⟨p, hp, hconv, hfirst, honly⟩ := ih (by omega)
    have hnext : p.sConv + 1 = UInt32.ofNat (1001 + (n + 1)) := by
      rw [hconv, ← Nat.add_assoc, UInt32.ofNat_add (1001 + n) 1]
      rfl
    have hne : p.sConv + 1 ≠ 1001 := by
      rw [hnext]
      intro heq
      have := (@ofNat32_inj (1001 + (n + 1)) 1001 ⟨by omega, by omega⟩).mp heq
      omega
    have hfresh := honly _ hne
    -- the SYN opens a session, and the FIN ends it again
    have hopened := reachable_synAnswered hp (.inet 0 1) 0
    have hmap := @kcpMap_synAnswered p (.inet 0 1) 0 hfresh
    refine ⟨_, reachable_ended hopened live_synAnswered (lookup_synAnswered hfresh),
      (sConv_synAnswered p (.inet 0 1) 0).trans hnext, ?_, ?_⟩
    · have hkept : 1001 ∈ (synAnswered p (.inet 0 1) 0).kcpMap := by
        rw [hmap, AList.mem_insert]
        exact .inr hfirst
      exact AList.mem_erase.mpr ⟨hne.symm, hkept⟩
    · intro c hc hmem
      obtain ⟨hnot, hmem⟩ := AList.mem_erase.mp hmem
      have hmem : c ∈ (synAnswered p (.inet 0 1) 0).kcpMap := hmem
      rw [hmap, AList.mem_insert] at hmem
      rcases hmem with heq | hmem
      · exact hnot heq
      · exact honly c hc hmem

/-- The run in which the counter comes round: a reachable state with a live context that is in no
entry of the table. -/
theorem orphan_after_wrap : ¬∀ p, (lts.restrict Allocates).Reachable p → AllListed p := by
  intro hall
  obtain ⟨p, hp, hconv, hfirst, -⟩ := reachable_first_kept (2 ^ 32 - 1) (by decide)
  have hused : p.sConv + 1 ∈ p.kcpMap := by
    have hwrap : UInt32.ofNat (1001 + (2 ^ 32 - 1)) + 1 = 1001 := by decide
    rwa [hconv, hwrap]
  have hsound := (consistent_inductive.reachable hp.of_restrict).sound
  exact not_listed_synAnswered hsound hused
    (hall _ (reachable_synAnswered hp (.inet 0 2) 0) _ _ live_synAnswered.ctx_at)

end Server
end KcpEcho
