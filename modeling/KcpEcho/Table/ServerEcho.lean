import KcpEcho.Session.EchoLoop
import KcpEcho.Table.ServerOutcome

/-!
# What the server echoes

The echo loop inside the server. Along every run in which each datagram fits the buffer of
`alloc_cb`, and be its bytes hostile, all control blocks stay bounded; so whenever a session accepts
a datagram, the loop that follows conserves bytes.
-/

namespace KcpEcho
namespace Server

open Proc

/-- A datagram fits the buffer of `alloc_cb`. -/
def FitsBuffer (_ : Proc) : Event → Prop
  | .recv _ _ data => data.length ≤ 65536
  | .updateTimer _ _ => True

/-- No control block holds more than a peer can make it hold. -/
def AllBounded (p : Proc) : Prop := ∀ k kcp, p.kcps k = some kcp → RecvBounded kcp

theorem AllBounded.of_update {p p' : Proc} (h : AllBounded p) {k : Ptr} {new : Option Ikcpcb}
    (hkcps : p'.kcps = Function.update p.kcps k new) (hnew : ∀ kcp ∈ new, RecvBounded kcp) :
    AllBounded p' := by
  intro j kcp hj
  rw [hkcps] at hj
  by_cases heq : j = k
  · subst heq
    rw [Function.update_self] at hj
    exact hnew kcp hj
  · rw [Function.update_of_ne heq] at hj
    exact h j kcp hj

theorem AllBounded.synAnswered {p : Proc} (h : AllBounded p) (addr : SockAddr) (key : UInt32) :
    AllBounded (synAnswered p addr key) := by
  have hopened : AllBounded (p.opened addr (p.sConv + 1)) := by
    apply h.of_update rfl
    intro kcp hkcp
    obtain rfl := Option.some.inj hkcp
    exact .init _ _
  intro k kcp hk
  rw [(grown_synAnswered p addr key).kcps, (emplace_frame _ _ _).2.1] at hk
  exact hopened k kcp hk

/-- Every outcome keeps the bounds: a peer moves a control block by what fits the buffer only. -/
theorem AllBounded.outcome {p p' : Proc} {e : Event} (h : AllBounded p) (hfits : FitsBuffer p e)
    (hout : Outcome p e p') : AllBounded p' := by
  cases hout with
  | quiet _ _ hgrown =>
    intro k kcp hk
    rw [hgrown.kcps] at hk
    exact h k kcp hk
  | opened => exact h.synAnswered _ _
  | @accepted env addr data x k ctx kcp _ he _ hlive _ hgrown =>
    subst he
    apply h.of_update hgrown.kcps
    intro kcp' hkcp'
    obtain rfl := Option.some.inj hkcp'
    exact ((h k kcp hlive.kcp_at).input hfits).echo
  | closed _ _ _ _ hgrown =>
    apply h.of_update hgrown.kcps
    exact fun _ hkcp' ↦ nomatch hkcp'
  | @ticked env t x k ctx kcp _ _ _ hlive _ hgrown =>
    apply h.of_update hgrown.kcps
    intro kcp' hkcp'
    obtain rfl := Option.some.inj hkcp'
    exact (h k kcp hlive.kcp_at).update env.now32
  | expired _ _ _ _ _ hgrown =>
    apply h.of_update hgrown.kcps
    exact fun _ hkcp' ↦ nomatch hkcp'

theorem bounded_inductive :
    (lts.restrict FitsBuffer).Inductive fun p ↦ Consistent p ∧ AllBounded p :=
  (consistent_inductive.restrict FitsBuffer).and
    (fun _ hp k kcp hk ↦ by subst hp; exact nomatch hk)
    (fun _ _ _ hcons hbounded hs ↦ hbounded.outcome hs.2 (step_outcome hcons hs.1))

/-- **The echo loop conserves bytes.** A session that accepts a datagram runs the loop on the block
`ikcp_input` leaves. The loop terminates, and however it goes, it ends on the block the session
keeps and conserves bytes. -/
theorem echo_conserves_bytes {p : Proc} (h : (lts.restrict FitsBuffer).Reachable p) {env : Env}
    {addr : SockAddr} {data : List UInt8} (hfits : FitsBuffer p (.recv env addr data))
    {conv : UInt32} (hkind : classify data = .kcp conv) {k : Ptr} {kcp : Ikcpcb}
    (hmap : p.kcpMap.lookup conv = some k) (hk : p.kcps k = some kcp)
    (hok : 0 ≤ (ikcpInput kcp data).2) :
    ∃ p', handle p (.recv env addr data) = some p' ∧
      (∃ rounds t, echoBody.Run (ikcpInput kcp data).1 rounds t) ∧
      ∀ rounds t, echoBody.Run (ikcpInput kcp data).1 rounds t →
        p'.kcps k = some t.2 ∧ (∃ err < 0, t.1 = .recvFailed err) ∧
        EchoConserves (ikcpInput kcp data).1 rounds t.2 := by
  obtain ⟨hcons, hbounded⟩ := bounded_inductive.reachable h
  obtain ⟨ctx, kcp₁, hlive, rfl⟩ := hcons.sound.live_of_entry hmap
  obtain rfl : kcp = kcp₁ := Option.some.inj (hk.symm.trans hlive.kcp_at)
  have hstep := @recvKcp_of_accepted env addr _ _ _ _ _ _ _ hmap hlive hok
  rw [handle, udpRecvCb_eq, hkind]
  refine ⟨_, hstep, LoopBody.exists_run lowers_queued _, ?_⟩
  intro rounds t hrun
  obtain ⟨err, herr, hret, hconserves⟩ := conserves_of_run (hlive.framed.input data)
    ((hbounded k kcp hk).input hfits) hrun
  refine ⟨?_, ⟨err, herr, hret⟩, hconserves⟩
  rw [← echo_eq_of_run hrun]
  exact Function.update_self _ _ _

/-- The first byte of the first session. -/
theorem echo_conserves_bytes_first :
    ∃ p' rounds, ∃ t : EchoReturn × Ikcpcb,
      handle firstOpened (.recv {} (.inet 0 1) firstByte) = some p' ∧ p'.kcps 1 = some t.2 ∧
      EchoConserves (ikcpInput (configuredKcp 1001 0) firstByte).1 rounds t.2 := by
  have hsyn : (lts.restrict FitsBuffer).Reachable firstOpened :=
    .step (.init rfl) ⟨@step_syn {} {} ⟨rfl, rfl⟩ (.inet 0 1) 5, by simp [FitsBuffer]⟩
  have hfits : FitsBuffer firstOpened (.recv {} (.inet 0 1) firstByte) :=
    (by decide : firstByte.length ≤ 65536)
  obtain ⟨p', hp', ⟨rounds, t, hrun⟩, hall⟩ := echo_conserves_bytes hsyn hfits classify_firstByte
    lookup_firstOpened live_firstOpened.kcp_at ikcpInput_firstByte
  obtain ⟨hkcp, -, hconserves⟩ := hall rounds t hrun
  exact ⟨p', rounds, t, hp', hkcp, hconserves⟩

end Server
end KcpEcho
