import KcpEcho.Table.ServerTable

/-!
# What a step of the server comes to

A finer inversion than `Server.Reaction`: which session an event is about, whether the session has
accepted a datagram, and whether its update timer has fired. Statements about what a session goes
through are read off it.
-/

namespace KcpEcho
namespace Server

open Proc

/-! ## Whom an event is about -/

/-- The context whose session accepts the KCP datagram of an event, if one does. -/
def heardFrom (p : Proc) : Event → Option Ptr
  | .recv _ _ data =>
    match classify data with
    | .kcp conv => do
      let k ← p.kcpMap.lookup conv
      let kcp ← p.kcps k
      if 0 ≤ (ikcpInput kcp data).2 then some kcp.user else none
    | _ => none
  | .updateTimer _ _ => none

/-- The context whose update timer an event fires. -/
def firedFor (p : Proc) : Event → Option Ptr
  | .recv _ _ _ => none
  | .updateTimer _ t => (p.timers.lookup t).map UvTimer.data

section About

variable {p : Proc} {env : Env} {addr : SockAddr} {data : List UInt8} {x k t : Ptr}
  {ctx : KcpContext} {kcp : Ikcpcb}

theorem heardFrom_of_not_kcp (h : ∀ conv, classify data ≠ .kcp conv) :
    heardFrom p (.recv env addr data) = none := by
  rw [heardFrom]
  split
  · exact absurd ‹_› (h _)
  · rfl

theorem heardFrom_of_unknown {conv : UInt32} (hkind : classify data = .kcp conv)
    (hc : p.kcpMap.lookup conv = none) : heardFrom p (.recv env addr data) = none := by
  rw [heardFrom, hkind]
  dsimp only
  rw [hc]
  rfl

theorem heardFrom_of_live (hkind : classify data = .kcp kcp.conv)
    (hc : p.kcpMap.lookup kcp.conv = some k) (hlive : Live p x ctx k kcp) :
    heardFrom p (.recv env addr data) = if 0 ≤ (ikcpInput kcp data).2 then some x else none := by
  rw [heardFrom, hkind]
  dsimp only
  rw [hc, some_bind, hlive.kcp_at, some_bind, hlive.user_eq]

end About

/-! ## Outcomes -/

/-- What a step of the server may come to. -/
inductive Outcome (p : Proc) (e : Event) : Proc → Prop
  /-- Nothing, as far as the objects are concerned. -/
  | quiet {p' : Proc} (hheard : heardFrom p e = none) (hfired : firedFor p e = none)
      (h : Grown p p') : Outcome p e p'
  /-- A SYN has opened a session. -/
  | opened {addr : SockAddr} {key : UInt32} (hheard : heardFrom p e = none)
      (hfired : firedFor p e = none) : Outcome p e (synAnswered p addr key)
  /-- A session has accepted a datagram and echoed what it had in store. -/
  | accepted {env : Env} {addr : SockAddr} {data : List UInt8} {x k : Ptr} {ctx : KcpContext}
      {kcp : Ikcpcb} {p' : Proc} (he : e = .recv env addr data) (hheard : heardFrom p e = some x)
      (hlive : Live p x ctx k kcp) (hmap : p.kcpMap.lookup kcp.conv = some k)
      (h : Grown (p.used x { ctx with lastRecvTime := env.now32 } k
        (echo (ikcpInput kcp data).1).1) p') : Outcome p e p'
  /-- A session has been ended by a FIN or by a datagram that `ikcp_input` refused. -/
  | closed {x k : Ptr} {ctx : KcpContext} {kcp : Ikcpcb} {p' : Proc}
      (hheard : heardFrom p e = none) (hfired : firedFor p e = none) (hlive : Live p x ctx k kcp)
      (hmap : p.kcpMap.lookup kcp.conv = some k) (h : Grown (p.ended kcp.conv x ctx k) p') :
      Outcome p e p'
  /-- A session has had its tick. -/
  | ticked {env : Env} {t x k : Ptr} {ctx : KcpContext} {kcp : Ikcpcb} {p' : Proc}
      (he : e = .updateTimer env t) (hfired : firedFor p e = some x) (hlive : Live p x ctx k kcp)
      (hout : isTimeout env ctx = false)
      (h : Grown (p.used x ctx k (ikcpUpdate kcp env.now32).1) p') : Outcome p e p'
  /-- A session has been ended at its tick, because it timed out. -/
  | expired {env : Env} {t x k : Ptr} {ctx : KcpContext} {kcp : Ikcpcb} {p' : Proc}
      (he : e = .updateTimer env t) (hfired : firedFor p e = some x) (hlive : Live p x ctx k kcp)
      (hmap : p.kcpMap.lookup kcp.conv = some k) (hout : isTimeout env ctx = true)
      (h : Grown (p.ended kcp.conv x ctx k) p') : Outcome p e p'

section Outcome

variable {p : Proc}

theorem outcome_recvFin (hp : Sound p) {env : Env} {addr : SockAddr} {data : List UInt8}
    {conv : UInt32} (hkind : classify data = .fin conv) :
    ∃ p', handle p (.recv env addr data) = some p' ∧ Outcome p (.recv env addr data) p' := by
  have hheard : heardFrom p (.recv env addr data) = none :=
    heardFrom_of_not_kcp (by simp [hkind])
  rw [handle, udpRecvCb_eq, hkind]
  cases hc : p.kcpMap.lookup conv with
  | none => exact ⟨p, recvFin_of_unknown hc, .quiet hheard rfl (.refl p)⟩
  | some k =>
    obtain ⟨ctx, kcp, hlive, rfl⟩ := hp.live_of_entry hc
    exact ⟨_, recvFin_of_live hc hlive,
      .closed hheard rfl hlive hc ⟨rfl, rfl, rfl, rfl, le_rfl⟩⟩

theorem outcome_recvKcp (hp : Sound p) {env : Env} {addr : SockAddr} {data : List UInt8}
    {conv : UInt32} (hkind : classify data = .kcp conv) :
    ∃ p', handle p (.recv env addr data) = some p' ∧ Outcome p (.recv env addr data) p' := by
  rw [handle, udpRecvCb_eq, hkind]
  cases hc : p.kcpMap.lookup conv with
  | none =>
    exact ⟨_, recvKcp_of_unknown hc,
      .quiet (heardFrom_of_unknown hkind hc) rfl (grown_sendUdpPacket _ _ _ _)⟩
  | some k =>
    obtain ⟨ctx, kcp, hlive, rfl⟩ := hp.live_of_entry hc
    have hheard := @heardFrom_of_live p env addr data _ _ _ _ hkind hc hlive
    rcases lt_or_ge (ikcpInput kcp data).2 0 with hbad | hok
    · rw [if_neg (not_le.mpr hbad)] at hheard
      exact ⟨_, recvKcp_of_refused hc hlive hbad,
        .closed hheard rfl hlive hc (ended_used.trans ⟨rfl, rfl, rfl, rfl, le_rfl⟩)⟩
    · rw [if_pos hok] at hheard
      exact ⟨_, recvKcp_of_accepted hc hlive hok,
        .accepted rfl hheard hlive hc ⟨rfl, rfl, rfl, rfl, le_rfl⟩⟩

theorem outcome_updateTimerCb (h : Consistent p) {env : Env} {t x : Ptr}
    (ht : p.timers.lookup t = some ⟨.updateTimerCb, x⟩) :
    ∃ p', handle p (.updateTimer env t) = some p' ∧ Outcome p (.updateTimer env t) p' := by
  have hfired : firedFor p (.updateTimer env t) = some x := by
    rw [firedFor, ht]
    rfl
  obtain ⟨ctx, hx, -⟩ := h.owned t _ ht
  cases hout : isTimeout env ctx with
  | true =>
    obtain ⟨k, kcp, p', hlive, hmap, hp', hgrown, -⟩ := h.timeout ht hx hout
    exact ⟨p', hp', .expired rfl hfired hlive hmap hout hgrown⟩
  | false =>
    obtain ⟨k, kcp, hlive⟩ := h.sound.ctx_live x ctx hx
    have heq := @updateTimerCb_eq kcpOutput env _ _ _ _ _ _ hlive ht
    rw [hout] at heq
    exact ⟨_, heq, .ticked rfl hfired hlive hout grown_ticked⟩

/-- **Every step of the server** has one of the outcomes. -/
theorem step_outcome {p' : Proc} {e : Event} (h : Consistent p) (hs : lts.step p e p') :
    Outcome p e p' := by
  have hcases : ∃ q, handle p e = some q ∧ Outcome p e q := by
    cases e with
    | recv env addr data =>
      cases hkind : classify data with
      | syn key =>
        have hheard : heardFrom p (.recv env addr data) = none :=
          heardFrom_of_not_kcp (by simp [hkind])
        rw [handle, udpRecvCb_eq, hkind]
        by_cases hok : env.CreateOk
        · exact ⟨_, recvSyn_of_createOk hok key, .opened hheard rfl⟩
        · obtain ⟨q, hq, hgrown, -⟩ := @recvSyn_of_not_createOk _ addr _ h.sound hok key
          exact ⟨q, hq, .quiet hheard rfl hgrown⟩
      | fin conv => exact outcome_recvFin h.sound hkind
      | kcp conv => exact outcome_recvKcp h.sound hkind
      | ack | other =>
        have hheard : heardFrom p (.recv env addr data) = none :=
          heardFrom_of_not_kcp (by simp [hkind])
        rw [handle, udpRecvCb_eq, hkind]
        exact ⟨p, rfl, .quiet hheard rfl (.refl p)⟩
    | updateTimer env t =>
      obtain ⟨x, ht⟩ := hs.1
      exact outcome_updateTimerCb h ht
  obtain ⟨q, hq, hout⟩ := hcases
  obtain rfl : q = p' := Option.some.inj (hq.symm.trans hs.2)
  exact hout

end Outcome

theorem heardFrom_firstByte (env : Env) (addr : SockAddr) :
    heardFrom firstOpened (.recv env addr firstByte) = some 0 := by
  rw [heardFrom_of_live classify_firstByte lookup_firstOpened live_firstOpened]
  exact if_pos ikcpInput_firstByte

end Server
end KcpEcho
