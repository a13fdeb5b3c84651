import KcpEcho.Ikcp.Emission
import KcpEcho.Session.Queues
import KcpEcho.Session.Usage

/-!
# A session in memory

The whole of `ikcp_input`, `ikcp_flush`, `ikcp_update`, `ikcp_create` and `ikcp_release` on links,
counters and segments, composed from `KcpEcho.Session.Queues`. Whatever calls the programs make and
whatever bytes arrive, as long as allocation succeeds no call follows a dangling pointer, frees a
segment twice or fails an assertion, each does what the list model says, and the release at the end
leaves no segment behind (`session_memory_safe`).
-/

namespace KcpEcho

open RingList

namespace LinkedCb

variable {m m' : LinkedCb} {cells : Cells} {q : Queue} {kcp : Ikcpcb} {c : Ptr × IkcpSeg}
  {l r cs : List (Ptr × IkcpSeg)} {seg : IkcpSeg}

/-! ## Scalars -/

/-- A function of the scalar fields. -/
def Scalar (g : Ikcpcb → Ikcpcb) : Prop :=
  ∀ (kcp : Ikcpcb) (f : Queue → List IkcpSeg), g (kcp.withQueues f) = (g kcp).withQueues f

theorem Represents.scalar (h : Represents m kcp) {g : Ikcpcb → Ikcpcb} (hg : Scalar g) :
    Represents { m with ctl := g m.ctl } (g kcp) :=
  h.withCtl fun f heq ↦ by rw [← heq, hg]

theorem scalar_ikcpUpdateAck (rtt : Int32) : Scalar fun kcp ↦ ikcpUpdateAck kcp rtt := by
  intro kcp f
  by_cases hfirst : kcp.rxSrtt = 0
  · simp only [ikcpUpdateAck, Ikcpcb.withQueues, hfirst, if_true]
  · simp only [ikcpUpdateAck, Ikcpcb.withQueues, hfirst, if_false]
    rfl

theorem scalar_inputRtt (ts : UInt32) : Scalar fun kcp ↦ inputRtt kcp ts := by
  intro kcp f
  dsimp only [inputRtt]
  split_ifs with h h' h'
  · exact scalar_ikcpUpdateAck _ kcp f
  · exact absurd h h'
  · exact absurd h' h
  · rfl

theorem scalar_updateCwnd : Scalar updateCwnd := by
  intro kcp f
  by_cases h₁ : kcp.cwnd < kcp.rmtWnd
  · by_cases h₂ : kcp.cwnd < kcp.ssthresh
    · simp only [updateCwnd, h₁, h₂, Ikcpcb.withQueues, if_true]
      split_ifs <;> rfl
    · -- congestion avoidance, with the guard of its division
      by_cases h₃ : kcp.incr < kcp.mss
      · by_cases h₄ : (kcp.cwnd + 1) * kcp.mss ≤
            kcp.mss + (kcp.mss * kcp.mss / kcp.mss + kcp.mss / 16) <;>
        by_cases h₅ : kcp.mss > 0 <;>
        simp only [updateCwnd, h₁, h₂, h₃, h₄, h₅, Ikcpcb.withQueues, if_true, if_false] <;>
        split_ifs <;> rfl
      · by_cases h₄ : (kcp.cwnd + 1) * kcp.mss ≤
            kcp.incr + (kcp.mss * kcp.mss / kcp.incr + kcp.mss / 16) <;>
        by_cases h₅ : kcp.mss > 0 <;>
        simp only [updateCwnd, h₁, h₂, h₃, h₄, h₅, Ikcpcb.withQueues, if_true, if_false] <;>
        split_ifs <;> rfl
  · simp only [updateCwnd, h₁, Ikcpcb.withQueues, if_false]

theorem scalar_flushProbe : Scalar fun kcp ↦ flushProbe { kcp with acklist := [] } := by
  intro kcp f
  unfold flushProbe Ikcpcb.withQueues
  dsimp only
  split_ifs <;> rfl

theorem scalar_updateSsthresh (resent cwnd : UInt32) (change lost : Bool) :
    Scalar fun kcp ↦ updateSsthresh kcp resent cwnd change lost := by
  intro kcp f
  cases change <;> cases lost <;> simp only [updateSsthresh, Ikcpcb.withQueues] <;> split_ifs <;> rfl

theorem scalar_updateClock (current : UInt32) : Scalar fun kcp ↦ updateClock kcp current := by
  intro kcp f
  by_cases hupd : kcp.updated = 0
  · simp only [updateClock, Ikcpcb.withQueues, hupd, if_true]
  · simp only [updateClock, Ikcpcb.withQueues, hupd, if_false]

theorem scalar_scheduleFlush : Scalar scheduleFlush := by
  intro kcp f
  by_cases hlate : itimediff kcp.current (kcp.tsFlush + kcp.interval) ≥ 0
  · simp only [scheduleFlush, Ikcpcb.withQueues, hlate, if_true]
  · simp only [scheduleFlush, Ikcpcb.withQueues, hlate, if_false]

/-! ## `ikcp_input` -/

theorem Represents.inputHead (h : Represents m kcp) (hd : IkcpHeader) :
    ∃ m', m.inputHead hd = some m' ∧ Represents m' (KcpEcho.inputHead kcp hd) := by
  have hwnd : Represents { m with ctl := { m.ctl with rmtWnd := hd.wnd.toUInt32 } } _ :=
    @Represents.scalar _ _ h (fun kcp ↦ { kcp with rmtWnd := hd.wnd.toUInt32 }) fun _ _ ↦ rfl
  obtain ⟨m₁, huna, h₁⟩ := hwnd.ikcpParseUna hd.una
  obtain ⟨m', hshrink, h'⟩ := h₁.ikcpShrinkBuf
  refine ⟨m', ?_, h'⟩
  rw [LinkedCb.inputHead, huna, Option.bind_eq_bind, Option.bind_some, hshrink]

/-- The locals are the same, and the block is represented. -/
structure Tracks (st : LinkedCb.InputState) (st' : KcpEcho.InputState) : Prop where
  kcp : Represents st.kcp st'.kcp
  flag : st.flag = st'.flag
  maxack : st.maxack = st'.maxack
  latestTs : st.latestTs = st'.latestTs

theorem Tracks.inputAck {st : LinkedCb.InputState} {st' : KcpEcho.InputState} (h : Tracks st st')
    (hd : IkcpHeader) :
    ∃ st₁, LinkedCb.inputAck st hd = some st₁ ∧ Tracks st₁ (KcpEcho.inputAck st' hd) := by
  have hrtt := h.kcp.scalar (scalar_inputRtt hd.ts)
  obtain ⟨m₁, hack, h₁⟩ := hrtt.ikcpParseAck hd.sn
  obtain ⟨m₂, hshrink, h₂⟩ := h₁.ikcpShrinkBuf
  rw [LinkedCb.inputAck, KcpEcho.inputAck, hack, Option.bind_eq_bind, Option.bind_some, hshrink,
    Option.bind_some, h.flag, h.maxack]
  split_ifs
  · exact ⟨_, rfl, h₂, rfl, rfl, rfl⟩
  · exact ⟨_, rfl, h₂, rfl, rfl, rfl⟩
  · exact ⟨_, rfl, h₂, rfl, rfl, h.latestTs⟩

theorem Represents.inputPush (h : Represents m kcp) (hd : IkcpHeader) (data : List UInt8) :
    ∃ m', m.inputPush hd data = some m' ∧ Represents m' (KcpEcho.inputPush kcp hd data) := by
  have hwindow : inWindow m.ctl hd.sn = inWindow kcp hd.sn :=
    @Represents.ctl_eq _ _ h _ (fun kcp ↦ inWindow kcp hd.sn) fun _ _ ↦ rfl
  rw [LinkedCb.inputPush, KcpEcho.inputPush, hwindow]
  by_cases hin : inWindow kcp hd.sn = true
  · have hpush := @Represents.scalar _ _ h (fun kcp ↦ ikcpAckPush kcp hd.sn hd.ts) fun _ _ ↦ rfl
    have hnxt : (ikcpAckPush m.ctl hd.sn hd.ts).rcvNxt = (ikcpAckPush kcp hd.sn hd.ts).rcvNxt :=
      @Represents.ctl_eq _ _ hpush _ Ikcpcb.rcvNxt fun _ _ ↦ rfl
    rw [if_pos hin, if_pos hin]
    dsimp only
    rw [hnxt]
    split_ifs
    · exact hpush.ikcpParseData (hd.segment data)
    · exact ⟨_, rfl, hpush⟩
  · rw [if_neg hin, if_neg hin]
    exact ⟨m, rfl, h⟩

theorem Tracks.inputSeg {st : LinkedCb.InputState} {st' : KcpEcho.InputState} (h : Tracks st st')
    (hd : IkcpHeader) (data : List UInt8) :
    ∃ st₁, LinkedCb.inputSeg st hd data = some st₁ ∧ Tracks st₁ (KcpEcho.inputSeg st' hd data) := by
  obtain ⟨m₁, hhead, h₁⟩ := h.kcp.inputHead hd
  have htracks : Tracks { st with kcp := m₁ } { st' with kcp := KcpEcho.inputHead st'.kcp hd } :=
    ⟨h₁, h.flag, h.maxack, h.latestTs⟩
  rw [LinkedCb.inputSeg, KcpEcho.inputSeg, hhead, Option.bind_eq_bind, Option.bind_some]
  dsimp only
  split_ifs
  · exact htracks.inputAck hd
  · obtain ⟨m₂, hpush, h₂⟩ := h₁.inputPush hd data
    rw [hpush]
    exact ⟨_, rfl, h₂, h.flag, h.maxack, h.latestTs⟩
  · exact ⟨_, rfl, @Represents.scalar _ _ h₁ inputWask fun _ _ ↦ rfl, h.flag, h.maxack,
      h.latestTs⟩
  · exact ⟨_, rfl, htracks⟩

theorem Tracks.inputLoop {fuel : ℕ} {st : LinkedCb.InputState} {st' : KcpEcho.InputState}
    (h : Tracks st st') (data : List UInt8) :
    ∃ st₁, LinkedCb.inputLoop fuel st data = some (st₁, (KcpEcho.inputLoop fuel st' data).2) ∧
      Tracks st₁ (KcpEcho.inputLoop fuel st' data).1 := by
  induction fuel generalizing st st' data with
  | zero => exact ⟨st, rfl, h⟩
  | succ fuel ih =>
    have hconv : st.kcp.ctl.conv = st'.kcp.conv :=
      @Represents.ctl_eq _ _ h.kcp _ Ikcpcb.conv fun _ _ ↦ rfl
    rw [LinkedCb.inputLoop, KcpEcho.inputLoop, hconv]
    split_ifs
    · exact ⟨st, rfl, h⟩
    dsimp only
    cases headerError st'.kcp.conv (decodeHeader data).1 (decodeHeader data).2.length with
    | some err => exact ⟨st, rfl, h⟩
    | none =>
      obtain ⟨st₁, hseg, h₁⟩ := h.inputSeg (decodeHeader data).1
        ((decodeHeader data).2.take (decodeHeader data).1.len.toNat)
      obtain ⟨st₂, hloop, h₂⟩ :=
        ih h₁ ((decodeHeader data).2.drop (decodeHeader data).1.len.toNat)
      refine ⟨st₂, ?_, h₂⟩
      dsimp only
      rw [hseg, Option.bind_eq_bind, Option.bind_some, hloop]

theorem Tracks.inputFinish {st : LinkedCb.InputState} {st' : KcpEcho.InputState}
    (h : Tracks st st') (prevUna : UInt32) :
    ∃ m', LinkedCb.inputFinish prevUna st = some m' ∧
      Represents m' (KcpEcho.inputFinish prevUna st') := by
  have hfast : ∃ m₁, (if st.flag then st.kcp.ikcpParseFastack st.maxack st.latestTs
        else some st.kcp) = some m₁ ∧
      Represents m₁ (if st'.flag then KcpEcho.ikcpParseFastack st'.kcp st'.maxack st'.latestTs
        else st'.kcp) := by
    rw [h.flag, h.maxack, h.latestTs]
    split_ifs
    · exact h.kcp.ikcpParseFastack _ _
    · exact ⟨_, rfl, h.kcp⟩
  obtain ⟨m₁, hfirst, h₁⟩ := hfast
  have huna := @Represents.ctl_eq _ _ h₁ _ Ikcpcb.sndUna fun _ _ ↦ rfl
  rw [LinkedCb.inputFinish, KcpEcho.inputFinish, hfirst, Option.bind_eq_bind, Option.bind_some,
    huna]
  generalize (if st'.flag then KcpEcho.ikcpParseFastack st'.kcp st'.maxack st'.latestTs
    else st'.kcp) = kcp₁ at h₁ ⊢
  split_ifs
  · exact ⟨_, rfl, h₁.scalar scalar_updateCwnd⟩
  · exact ⟨_, rfl, h₁⟩

theorem Represents.ikcpInput (h : Represents m kcp) (data : List UInt8) :
    ∃ m', m.ikcpInput data = some (m', (KcpEcho.ikcpInput kcp data).2) ∧
      Represents m' (KcpEcho.ikcpInput kcp data).1 := by
  have hstart : Tracks { kcp := m } { kcp := kcp } := ⟨h, rfl, rfl, rfl⟩
  obtain ⟨st, hloop, hst⟩ := @Tracks.inputLoop data.length _ _ hstart data
  have huna := @Represents.ctl_eq _ _ h _ Ikcpcb.sndUna fun _ _ ↦ rfl
  obtain ⟨m', hfinish, h'⟩ := hst.inputFinish kcp.sndUna
  rw [LinkedCb.ikcpInput, KcpEcho.ikcpInput, hloop, huna]
  split_ifs
  · exact ⟨m, rfl, h⟩
  dsimp only
  rw [Option.bind_eq_bind, Option.bind_some]
  dsimp only
  split_ifs
  · exact ⟨st.kcp, rfl, hst.kcp⟩
  · refine ⟨m', ?_, h'⟩
    rw [hfinish]
    rfl

/-! ## `ikcp_flush` -/

/-- The counter of the receive queue announces the same window. -/
theorem Represents.flushTemplate (h : Represents m kcp) :
    m.flushTemplate = KcpEcho.flushTemplate kcp := by
  have hroom := h.room
  obtain ⟨cells, hs, rfl⟩ := h
  have hque : (m.block cells).nrcvQue = (cells .rcvQueue).length := List.length_map _
  have hwnd : m.ikcpWndUnused = KcpEcho.ikcpWndUnused (m.block cells) := by
    rw [LinkedCb.ikcpWndUnused, KcpEcho.ikcpWndUnused, hque, ← hs.counted .rcvQueue]
    exact if_congr (hque ▸ hroom) rfl rfl
  rw [LinkedCb.flushTemplate, KcpEcho.flushTemplate, hwnd]
  rfl

/-- The loop "move data from snd_queue to snd_buf" does not look at the queue it is about to set. -/
theorem moveToSndBuf_sndQueue (cwnd wnd : UInt32) (segs queue : List IkcpSeg) (kcp : Ikcpcb) :
    KcpEcho.moveToSndBuf cwnd wnd segs { kcp with sndQueue := queue } =
      KcpEcho.moveToSndBuf cwnd wnd segs kcp := by
  induction segs generalizing kcp with
  | nil => rfl
  | cons seg rest ih =>
    rw [KcpEcho.moveToSndBuf, KcpEcho.moveToSndBuf]
    dsimp only
    split_ifs
    · exact ih { kcp with sndBuf := kcp.sndBuf ++ [_], sndNxt := kcp.sndNxt + 1 }
    · rfl

/-- The loop "move data from snd_queue to snd_buf". -/
theorem moveToSndBuf_spec (cwnd wnd : UInt32) {fuel : ℕ} (h : Stores m cells)
    (hcells : cells .sndQueue = cs) (hfuel : cs.length < fuel) :
    ∃ m', LinkedCb.moveToSndBuf cwnd wnd fuel m = some m' ∧
      Represents m' (KcpEcho.moveToSndBuf cwnd wnd (cs.map Prod.snd) (m.block cells)) := by
  induction cs generalizing m cells fuel with
  | nil =>
    obtain ⟨fuel, rfl⟩ := Nat.exists_eq_succ_of_ne_zero hfuel.ne_bot
    refine ⟨m, ?_, cells, h, ?_⟩
    · simp [LinkedCb.moveToSndBuf, h.isEmpty, hcells]
    · simp [KcpEcho.moveToSndBuf, block, Ikcpcb.withQueues, hcells]
  | cons c rest ih =>
    obtain ⟨p, seg⟩ := c
    obtain ⟨fuel, rfl⟩ := Nat.exists_eq_succ_of_ne_zero hfuel.ne_bot
    have hempty : m.isEmpty .sndQueue = some false := by rw [h.isEmpty, hcells]; rfl
    have hque : (m.block cells).sndQueue = seg :: rest.map Prod.snd :=
      congrArg (List.map Prod.snd) hcells
    simp only [LinkedCb.moveToSndBuf, hempty, h.front hcells, Option.bind_eq_bind,
      Option.bind_some, Bool.false_eq_true, if_false, List.map_cons, KcpEcho.moveToSndBuf]
    by_cases hmove : itimediff m.ctl.sndNxt (m.ctl.sndUna + cwnd) < 0
    · have hmove' : itimediff (m.block cells).sndNxt ((m.block cells).sndUna + cwnd) < 0 := hmove
      rw [if_pos hmove, if_pos hmove']
      obtain ⟨links, links', owner, hdel, hadd, hown, hloose⟩ :=
        h.transfer .sndBuf (by simp) hcells
      have h₁ : Stores { m with
            links := links', nsndQue := m.nsndQue - 1, nsndBuf := m.nsndBuf + 1 }
          (Function.update (Function.update cells .sndQueue rest) .sndBuf
            (cells .sndBuf ++ [(p, seg)])) := by
        refine ⟨⟨owner, hown.congr rfl rfl rfl, hloose⟩, fun q ↦ ?_, h.small⟩
        cases q with
        | rcvQueue => exact h.counted .rcvQueue
        | rcvBuf => exact h.counted .rcvBuf
        | sndQueue => exact h.count_pred (l := []) hcells
        | sndBuf => exact h.count_succ .sndBuf
      obtain ⟨segs, hset, h₂⟩ := h₁.setSeg (q := .sndBuf) (c := (p, seg)) (r := [])
        (Function.update_self _ _ _) { seg with
          conv := m.ctl.conv
          cmd := ikcpCmdPush
          wnd := wnd
          ts := m.ctl.current
          sn := m.ctl.sndNxt
          una := m.ctl.rcvNxt
          resendts := m.ctl.current
          rto := m.ctl.rxRto.toUInt32
          fastack := 0
          xmit := 0 }
      rw [Function.update_idem] at h₂
      obtain ⟨m', hloop, hrep⟩ := ih (h₂.withCtl { m.ctl with sndNxt := m.ctl.sndNxt + 1 })
        rfl (Nat.lt_of_succ_lt_succ hfuel)
      refine ⟨m', ?_, ?_⟩
      · rw [hdel, Option.bind_some, LinkedCb.addTail, hadd, Option.map_some, Option.bind_some]
        exact (congrArg (fun o : Option LinkedCb ↦ o.bind fun m ↦ LinkedCb.moveToSndBuf cwnd wnd fuel
          { m with ctl := { m.ctl with sndNxt := m.ctl.sndNxt + 1 } }) hset).trans hloop
      · rw [← moveToSndBuf_sndQueue _ _ _ (rest.map Prod.snd)]
        convert hrep using 2
        simp [block, Ikcpcb.withQueues]
    · have hmove' : ¬itimediff (m.block cells).sndNxt ((m.block cells).sndUna + cwnd) < 0 := hmove
      rw [if_neg hmove, if_neg hmove', ← hque]
      exact ⟨m, rfl, cells, h, rfl⟩

theorem Represents.moveToSndBuf (h : Represents m kcp) (cwnd wnd : UInt32) :
    ∃ m', LinkedCb.moveToSndBuf cwnd wnd m.fuel m = some m' ∧
      Represents m' (KcpEcho.moveToSndBuf cwnd wnd kcp.sndQueue kcp) := by
  obtain ⟨cells, hs, rfl⟩ := h
  exact moveToSndBuf_spec cwnd wnd hs rfl (hs.length_lt_fuel .sndQueue)

theorem flushData_withQueues (kcp : Ikcpcb) (f : Queue → List IkcpSeg)
    (resent rtomin wnd : UInt32) (segs : List IkcpSeg) (ds : DataState) :
    KcpEcho.flushData (kcp.withQueues f) resent rtomin wnd segs ds =
      KcpEcho.flushData kcp resent rtomin wnd segs ds := by
  induction segs generalizing ds with
  | nil => rfl
  | cons seg rest ih =>
    rw [KcpEcho.flushData, KcpEcho.flushData]
    dsimp only
    rw [ih]
    rfl

/-- The loop "flush data segments" writes each segment in place. -/
theorem flushData_spec (resent rtomin wnd : UInt32) {fuel : ℕ} (ds : DataState) (h : Stores m cells)
    (hcells : cells .sndBuf = l ++ cs) (hfuel : cs.length < fuel) :
    ∃ m' cs', LinkedCb.flushData resent rtomin wnd fuel (Queue.nodeAhead .sndBuf cs) m ds =
        some (m', (KcpEcho.flushData m.ctl resent rtomin wnd (cs.map Prod.snd) ds).2) ∧
      Stores m' (Function.update cells .sndBuf (l ++ cs')) ∧ m'.ctl = m.ctl ∧
      cs'.map Prod.snd = (KcpEcho.flushData m.ctl resent rtomin wnd (cs.map Prod.snd) ds).1 := by
  induction cs generalizing l fuel m cells ds with
  | nil =>
    obtain ⟨fuel, rfl⟩ := Nat.exists_eq_succ_of_ne_zero hfuel.ne_bot
    exact ⟨m, [], if_pos rfl, h.update_self hcells, rfl, rfl⟩
  | cons c rest ih =>
    obtain ⟨p, seg⟩ := c
    obtain ⟨fuel, rfl⟩ := Nat.exists_eq_succ_of_ne_zero hfuel.ne_bot
    have hentry := h.entry_member hcells
    obtain ⟨segs, hset, h₁⟩ := h.setSeg hcells (flushSegment m.ctl resent rtomin wnd seg ds).1
    have hcells₁ := Function.update_self Queue.sndBuf
      (l ++ (p, (flushSegment m.ctl resent rtomin wnd seg ds).1) :: rest) cells
    have hnext := (h₁.linked_member hcells₁).1
    obtain ⟨m', cs', hloop, h', hctl, hmap⟩ := ih (l := l ++ [(p, _)])
      (flushSegment m.ctl resent rtomin wnd seg ds).2 h₁
      (by rw [hcells₁, List.append_assoc, List.singleton_append]) (Nat.lt_of_succ_lt_succ hfuel)
    rw [Function.update_idem, List.append_assoc, List.singleton_append] at h'
    refine ⟨m', _ :: cs', ?_, h', hctl, ?_⟩
    · simp only [nodeAhead_cons, LinkedCb.flushData, reduceCtorEq, if_false, hentry, hset,
        Option.bind_eq_bind, Option.bind_some]
      exact (congrArg (fun o : Option Node ↦ o.bind fun n ↦ LinkedCb.flushData resent rtomin wnd
        fuel n { m with segs := segs } _) hnext).trans hloop
    · rw [List.map_cons, hmap]
      rfl

theorem Represents.flushData (h : Represents m kcp) (resent rtomin wnd : UInt32) (ds : DataState) :
    ∃ n m', m.links.next (.head .sndBuf) = some n ∧
      LinkedCb.flushData resent rtomin wnd m.fuel n m ds =
        some (m', (KcpEcho.flushData kcp resent rtomin wnd kcp.sndBuf ds).2) ∧
      Represents m' { kcp with
        sndBuf := (KcpEcho.flushData kcp resent rtomin wnd kcp.sndBuf ds).1 } := by
  obtain ⟨cells, hs, rfl⟩ := h
  obtain ⟨m', cs', hloop, h', hctl, hmap⟩ := flushData_spec resent rtomin wnd ds hs
    (List.nil_append _).symm (hs.length_lt_fuel .sndBuf)
  rw [← flushData_withQueues m.ctl fun q ↦ (cells q).map Prod.snd] at hloop hmap
  refine ⟨_, m', hs.next_head .sndBuf, hloop, _, h', ?_⟩
  rw [block_sndBuf hctl, List.nil_append, hmap]
  rfl

/-- The data loop and the tail of `ikcp_flush`. -/
theorem Represents.flushTail (h : Represents m kcp) (cwnd wnd : UInt32) (fb : FlushBuf) :
    ∃ m', (do
      let (m', ds) ← LinkedCb.flushData (flushResent m.ctl) (flushRtomin m.ctl) wnd m.fuel
        (← m.links.next (.head .sndBuf)) m { fb := fb, xmit := m.ctl.xmit, state := m.ctl.state }
      let ctl := { m'.ctl with xmit := ds.xmit, state := ds.state }
      some ({ m' with ctl := updateSsthresh ctl (flushResent m.ctl) cwnd ds.change ds.lost },
        ds.fb.finish)) =
      some (m', (KcpEcho.flushData kcp (flushResent kcp) (flushRtomin kcp) wnd kcp.sndBuf
        { fb := fb, xmit := kcp.xmit, state := kcp.state }).2.fb.finish) ∧
      Represents m'
        (let (sndBuf, ds) := KcpEcho.flushData kcp (flushResent kcp) (flushRtomin kcp) wnd
          kcp.sndBuf { fb := fb, xmit := kcp.xmit, state := kcp.state }
        let kcp' := { kcp with sndBuf := sndBuf, xmit := ds.xmit, state := ds.state }
        updateSsthresh kcp' (flushResent kcp) cwnd ds.change ds.lost) := by
  have hresent : flushResent m.ctl = flushResent kcp :=
    @Represents.ctl_eq _ _ h _ flushResent fun _ _ ↦ rfl
  have hrtomin : flushRtomin m.ctl = flushRtomin kcp :=
    @Represents.ctl_eq _ _ h _ flushRtomin fun _ _ ↦ rfl
  have hxmit : m.ctl.xmit = kcp.xmit := @Represents.ctl_eq _ _ h _ Ikcpcb.xmit fun _ _ ↦ rfl
  have hstate : m.ctl.state = kcp.state := @Represents.ctl_eq _ _ h _ Ikcpcb.state fun _ _ ↦ rfl
  obtain ⟨n, m', hnext, hloop, h'⟩ := h.flushData (flushResent kcp) (flushRtomin kcp) wnd
    { fb := fb, xmit := kcp.xmit, state := kcp.state }
  rw [hnext, hresent, hrtomin, hxmit, hstate, Option.bind_eq_bind, Option.bind_some, hloop]
  generalize KcpEcho.flushData kcp (flushResent kcp) (flushRtomin kcp) wnd kcp.sndBuf
    { fb := fb, xmit := kcp.xmit, state := kcp.state } = sent at h' ⊢
  obtain ⟨sndBuf, ds⟩ := sent
  exact ⟨_, rfl, @Represents.scalar _ _ h' (fun k ↦ updateSsthresh
      { k with xmit := ds.xmit, state := ds.state } (flushResent kcp) cwnd ds.change ds.lost)
      fun k f ↦ scalar_updateSsthresh _ _ _ _ { k with xmit := ds.xmit, state := ds.state } f⟩

/-- The buffer of `ikcp_flush` when the data loop starts. -/
def flushHead (m : LinkedCb) : FlushBuf :=
  let (seg, fb) := flushAcks m.ctl.mtu m.ctl.acklist m.flushTemplate {}
  let probed := flushProbe { m.ctl with acklist := [] }
  let (seg, fb) := flushCommand probed ikcpAskSend ikcpCmdWask seg fb
  (flushCommand probed ikcpAskTell ikcpCmdWins seg fb).2

theorem Represents.flushHead (h : Represents m kcp) : m.flushHead = KcpEcho.flushHead kcp := by
  have htemplate := h.flushTemplate
  have hprobed := h.scalar scalar_flushProbe
  have hcommand : ∀ ask cmd seg fb, flushCommand (flushProbe { m.ctl with acklist := [] }) ask cmd
      seg fb = flushCommand (flushProbe { kcp with acklist := [] }) ask cmd seg fb :=
    fun ask cmd seg fb ↦ @Represents.ctl_eq _ _ hprobed _
      (fun kcp ↦ flushCommand kcp ask cmd seg fb) fun _ _ ↦ rfl
  have hacks : flushAcks m.ctl.mtu m.ctl.acklist m.flushTemplate {} =
      flushAcks kcp.mtu kcp.acklist (KcpEcho.flushTemplate kcp) {} := by
    rw [htemplate]
    exact @Represents.ctl_eq _ _ h _
      (fun k ↦ flushAcks k.mtu k.acklist (KcpEcho.flushTemplate kcp) {}) fun _ _ ↦ rfl
  rw [LinkedCb.flushHead, KcpEcho.flushHead, hacks]
  dsimp only
  rw [hcommand, hcommand]

theorem Represents.ikcpFlush (h : Represents m kcp) :
    ∃ m', m.ikcpFlush = some (m', (KcpEcho.ikcpFlush kcp).2) ∧
      Represents m' (KcpEcho.ikcpFlush kcp).1 := by
  have hupd : m.ctl.updated = kcp.updated := @Represents.ctl_eq _ _ h _ Ikcpcb.updated fun _ _ ↦ rfl
  by_cases hidle : kcp.updated = 0
  · rw [LinkedCb.ikcpFlush, KcpEcho.ikcpFlush, if_pos (hupd.trans hidle), if_pos hidle]
    exact ⟨m, rfl, h⟩
  have hmoving := @Represents.scalar _ _ h
    (fun kcp ↦ { flushProbe { kcp with acklist := [] } with probe := 0 })
    fun kcp f ↦ congrArg (fun kcp : Ikcpcb ↦ { kcp with probe := 0 }) (scalar_flushProbe kcp f)
  have hcwnd := @Represents.ctl_eq _ _ hmoving _ flushCwnd fun _ _ ↦ rfl
  have hwnd : m.flushTemplate.wnd = KcpEcho.ikcpWndUnused kcp := congrArg IkcpSeg.wnd h.flushTemplate
  obtain ⟨m₁, hmove, h₁⟩ := hmoving.moveToSndBuf
    (flushCwnd { flushProbe { kcp with acklist := [] } with probe := 0 })
    (KcpEcho.ikcpWndUnused kcp)
  obtain ⟨m₂, htail, h₂⟩ := h₁.flushTail
    (flushCwnd { flushProbe { kcp with acklist := [] } with probe := 0 })
    (KcpEcho.ikcpWndUnused kcp) (KcpEcho.flushHead kcp)
  rw [LinkedCb.ikcpFlush, KcpEcho.ikcpFlush, if_neg (hupd ▸ hidle), if_neg hidle]
  dsimp only
  rw [hcwnd, hwnd, hmove, Option.bind_eq_bind, Option.bind_some]
  refine ⟨m₂, Eq.trans ?_ htail, h₂⟩
  rw [← h.flushHead]
  rfl

theorem Represents.ikcpUpdate (h : Represents m kcp) (current : UInt32) :
    ∃ m', m.ikcpUpdate current = some (m', (KcpEcho.ikcpUpdate kcp current).2) ∧
      Represents m' (KcpEcho.ikcpUpdate kcp current).1 := by
  have hclock := h.scalar (scalar_updateClock current)
  have hslap := @Represents.ctl_eq _ _ hclock _ (fun kcp ↦ itimediff kcp.current kcp.tsFlush)
    fun _ _ ↦ rfl
  have hjump := @Represents.scalar _ _ hclock
    (fun kcp ↦ scheduleFlush { kcp with tsFlush := kcp.current })
    fun kcp f ↦ scalar_scheduleFlush { kcp with tsFlush := kcp.current } f
  have hdue := hclock.scalar scalar_scheduleFlush
  dsimp only at hslap
  rw [LinkedCb.ikcpUpdate, KcpEcho.ikcpUpdate]
  dsimp only
  rw [hslap]
  split_ifs
  · exact hjump.ikcpFlush
  · exact hdue.ikcpFlush
  · exact ⟨_, rfl, hclock⟩

/-! ## Creation and release -/

/-- Four empty rings, and nothing else. -/
theorem exists_ikcpCreate (conv : UInt32) (user : Ptr) :
    ∃ links, ikcpCreate conv user = some { ctl := KcpEcho.ikcpCreate conv user, links := links } ∧
      (∀ q, links.Ring (.head q) []) ∧ ∀ p, ¬links.Live (.seg p) := by
  have hraw : ∀ q, Heap.Live ⟨rawLink, rawLink⟩ (.head q) := fun _ ↦ ⟨rfl, rfl⟩
  obtain ⟨h₁, hinit₁, hring₁, honly₁⟩ := Heap.Ring.init (hraw .sndQueue)
  obtain ⟨h₂, hinit₂, hring₂, honly₂⟩ :=
    Heap.Ring.init ((honly₁.live _).mpr (hraw .rcvQueue))
  obtain ⟨h₃, hinit₃, hring₃, honly₃⟩ :=
    Heap.Ring.init ((honly₂.live _).mpr ((honly₁.live _).mpr (hraw .sndBuf)))
  obtain ⟨h₄, hinit₄, hring₄, honly₄⟩ := Heap.Ring.init
    ((honly₃.live _).mpr ((honly₂.live _).mpr ((honly₁.live _).mpr (hraw .rcvBuf))))
  refine ⟨h₄, ?_, fun q ↦ ?_, fun p hp ↦ ?_⟩
  · simp only [ikcpCreate, hinit₁, hinit₂, hinit₃, hinit₄, Option.bind_eq_bind, Option.bind_some]
  · cases q with
    | sndQueue =>
      exact ((hring₁.frame honly₂ (by simp)).frame honly₃ (by simp)).frame honly₄ (by simp)
    | rcvQueue => exact (hring₂.frame honly₃ (by simp)).frame honly₄ (by simp)
    | sndBuf => exact hring₃.frame honly₄ (by simp)
    | rcvBuf => exact hring₄
  · have hlive := (honly₁.live _).mp ((honly₂.live _).mp ((honly₃.live _).mp ((honly₄.live _).mp hp)))
    exact absurd hlive.1 (by simp [rawLink])

theorem represents_configuredKcp (conv : UInt32) (user : Ptr) :
    ∃ m, configuredKcp conv user = some m ∧ Represents m (KcpEcho.configuredKcp conv user) := by
  obtain ⟨links, hcreate, hring, hlive⟩ := exists_ikcpCreate conv user
  have hrep : Represents { ctl := KcpEcho.ikcpCreate conv user, links := links }
      (KcpEcho.ikcpCreate conv user) := by
    refine ⟨fun _ ↦ [], ⟨⟨fun _ ↦ none, ⟨hring, ?_, ?_, ?_, ?_, ?_⟩, by simp⟩, ?_, by simp⟩, rfl⟩
    · simp
    · simp
    · simp
    · simp [hlive]
    · simp
    · intro q
      cases q <;> rfl
  refine ⟨_, ?_, @Represents.scalar _ _ hrep (fun kcp ↦
    { ikcpWndsize (ikcpNodelay kcp 1 10 2 1) 1024 1024 with stream := 1 }) fun _ _ ↦ rfl⟩
  rw [configuredKcp, hcreate]
  rfl

/-- One of the four loops of `ikcp_release` empties its queue. -/
theorem releaseLoop_spec {owner : Ptr → Option Place} {fuel : ℕ} (h : Holds m cells owner)
    (hloose : ∀ p, owner p ≠ some .loose) (hcells : cells q = cs) (hfuel : cs.length < fuel) :
    ∃ m' owner', releaseLoop q fuel m = some m' ∧ Holds m' (Function.update cells q []) owner' ∧
      ∀ p, owner' p ≠ some .loose := by
  induction cs generalizing m cells owner fuel with
  | nil =>
    obtain ⟨fuel, rfl⟩ := Nat.exists_eq_succ_of_ne_zero hfuel.ne_bot
    refine ⟨m, owner, ?_, ?_, hloose⟩
    · simp [releaseLoop, h.isEmpty, hcells]
    · rwa [← hcells, Function.update_eq_self]
  | cons c rest ih =>
    obtain ⟨fuel, rfl⟩ := Nat.exists_eq_succ_of_ne_zero hfuel.ne_bot
    have hempty : m.isEmpty q = some false := by rw [h.isEmpty, hcells]; rfl
    obtain ⟨links, hdel, h₁⟩ := h.del (l := []) hcells
    obtain ⟨segs, links', hdelete, h₂⟩ := h₁.segmentDelete (Function.update_self _ _ _)
    obtain ⟨m', owner', hloop, h', hloose'⟩ := ih h₂ (not_loose_update hloose (by simp))
      (Function.update_self _ _ _) (Nat.lt_of_succ_lt_succ hfuel)
    rw [Function.update_idem] at h'
    refine ⟨m', owner', ?_, h', hloose'⟩
    simp only [releaseLoop, hempty, h.front hcells, hdel, hdelete, Option.bind_eq_bind,
      Option.bind_some, Bool.false_eq_true, if_false]
    exact hloop

/-- **`ikcp_release`** frees every segment. -/
theorem Represents.ikcpRelease (h : Represents m kcp) :
    ∃ m', m.ikcpRelease = some m' ∧ ∀ p, m'.segs p = none ∧ ¬m'.links.Live (.seg p) := by
  obtain ⟨cells, ⟨⟨owner, hown, hloose⟩, -, -⟩, -⟩ := h
  obtain ⟨m₁, owner₁, hloop₁, h₁, hloose₁⟩ :=
    releaseLoop_spec hown hloose rfl (hown.length_lt_fuel .sndBuf)
  obtain ⟨m₂, owner₂, hloop₂, h₂, hloose₂⟩ :=
    releaseLoop_spec h₁ hloose₁ rfl (h₁.length_lt_fuel .rcvBuf)
  obtain ⟨m₃, owner₃, hloop₃, h₃, hloose₃⟩ :=
    releaseLoop_spec h₂ hloose₂ rfl (h₂.length_lt_fuel .sndQueue)
  obtain ⟨m₄, owner₄, hloop₄, h₄, hloose₄⟩ :=
    releaseLoop_spec h₃ hloose₃ rfl (h₃.length_lt_fuel .rcvQueue)
  have hnone : ∀ p, owner₄ p = none := by
    intro p
    cases hp : owner₄ p with
    | none => rfl
    | some place =>
      cases place with
      | loose => exact absurd hp (hloose₄ p)
      | queue q =>
        have hmem := (h₄.owned q p).mpr hp
        cases q <;> simp at hmem
  refine ⟨{ m₄ with
    ctl := { m₄.ctl with acklist := [] }
    nrcvBuf := 0
    nsndBuf := 0
    nrcvQue := 0
    nsndQue := 0 }, ?_, fun p ↦ ⟨?_, ?_⟩⟩
  · simp only [LinkedCb.ikcpRelease, hloop₁, hloop₂, hloop₃, hloop₄, Option.bind_eq_bind,
      Option.bind_some]
  · have hsegs := h₄.segs p
    rw [hnone p] at hsegs
    simpa using hsegs
  · have hlive := h₄.live p
    rw [hnone p] at hlive
    simpa using hlive

end LinkedCb

/-! ## Every run -/

/-- What a call gives back: the value, the bytes copied out, the datagrams handed over. -/
structure Reply where
  ret : ℤ := 0
  data : List UInt8 := []
  out : List (List UInt8) := []

/-- A call on the lists. -/
def Ikcpcb.reply (kcp : Ikcpcb) : Usage → Reply
  | .send buffer => { ret := (ikcpSend kcp buffer).2 }
  | .input data => { ret := (ikcpInput kcp data).2 }
  | .recv len => { ret := (ikcpRecv kcp len).2.1, data := (ikcpRecv kcp len).2.2 }
  | .update current => { out := (ikcpUpdate kcp current).2 }

/-- A call on the block in memory. -/
def LinkedCb.call (m : LinkedCb) : Usage → Option (LinkedCb × Reply)
  | .send buffer => (m.ikcpSend buffer).map fun r ↦ (r.1, { ret := r.2 })
  | .input data => (m.ikcpInput data).map fun r ↦ (r.1, { ret := r.2 })
  | .recv len => (m.ikcpRecv len).map fun r ↦ (r.1, { ret := r.2.1, data := r.2.2 })
  | .update current => (m.ikcpUpdate current).map fun r ↦ (r.1, { out := r.2 })

/-- A session of conversation `conv`, in memory. -/
def linkedSession (conv : UInt32) (user : Ptr) : Lts LinkedCb Usage where
  init m := LinkedCb.configuredKcp conv user = some m
  step m usage m' := ∃ reply, m.call usage = some (m', reply)

/-- One call: it succeeds, and does what it does on the lists. -/
theorem LinkedCb.Represents.call {m : LinkedCb} {kcp : Ikcpcb} (h : m.Represents kcp)
    (usage : Usage) :
    ∃ m', m.call usage = some (m', kcp.reply usage) ∧ m'.Represents (kcp.after usage) := by
  cases usage with
  | send buffer =>
    obtain ⟨m', hcall, h'⟩ := h.ikcpSend buffer
    exact ⟨m', by rw [LinkedCb.call, hcall]; rfl, h'⟩
  | input data =>
    obtain ⟨m', hcall, h'⟩ := h.ikcpInput data
    exact ⟨m', by rw [LinkedCb.call, hcall]; rfl, h'⟩
  | recv len =>
    obtain ⟨m', hcall, h'⟩ := h.ikcpRecv len
    exact ⟨m', by rw [LinkedCb.call, hcall]; rfl, h'⟩
  | update current =>
    obtain ⟨m', hcall, h'⟩ := h.ikcpUpdate current
    exact ⟨m', by rw [LinkedCb.call, hcall]; rfl, h'⟩

/-- The lists simulate the memory. -/
theorem linkedSession_inductive (conv : UInt32) (user : Ptr) :
    (linkedSession conv user).Inductive fun m ↦
      ∃ kcp, (session conv user).Reachable kcp ∧ m.Represents kcp where
  init m hm := by
    obtain ⟨m', hcreate, hrep⟩ := LinkedCb.represents_configuredKcp conv user
    obtain rfl : m' = m := Option.some.inj (hcreate.symm.trans hm)
    exact ⟨_, .init rfl, hrep⟩
  step m usage m' h hstep := by
    obtain ⟨kcp, hkcp, hrep⟩ := h
    obtain ⟨reply, hcall⟩ := hstep
    obtain ⟨m₁, hcall₁, h₁⟩ := hrep.call usage
    obtain rfl : m₁ = m' := congrArg Prod.fst (Option.some.inj (hcall₁.symm.trans hcall))
    exact ⟨_, .step hkcp rfl, h₁⟩

/-- **Memory safety and refinement.** However a session has been used and whatever has arrived, its
rings, counters and segments represent a state of the list model, if every allocation succeeds.
Every further call runs to its end, gives back what it gives back there and represents the state it
leads to there; and `ikcp_release` runs to its end and leaves no segment in memory. -/
theorem session_memory_safe {conv : UInt32} {user : Ptr} {m : LinkedCb}
    (hm : (linkedSession conv user).Reachable m) :
    ∃ kcp, (session conv user).Reachable kcp ∧ m.Represents kcp ∧
      (∀ usage, ∃ m', m.call usage = some (m', kcp.reply usage) ∧
        m'.Represents (kcp.after usage)) ∧
      ∃ m', m.ikcpRelease = some m' ∧ ∀ p, m'.segs p = none ∧ ¬m'.links.Live (.seg p) := by
  obtain ⟨kcp, hkcp, hrep⟩ := (linkedSession_inductive conv user).reachable hm
  exact ⟨kcp, hkcp, hrep, hrep.call, hrep.ikcpRelease⟩

/-- A session with two bytes on their way to the peer. -/
def twoBytesSent : Option LinkedCb := do
  let (m, _) ← (← LinkedCb.configuredKcp 7 0).call (.send [104, 105])
  let (m, _) ← m.call (.update 10)
  some m

theorem reachable_twoBytesSent {m : LinkedCb} (h : twoBytesSent = some m) :
    (linkedSession 7 0).Reachable m := by
  simp only [twoBytesSent, Option.bind_eq_bind, Option.bind_eq_some_iff, Option.some.injEq] at h
  obtain ⟨m₀, hcreate, ⟨m₁, reply₁⟩, hsend, ⟨m₂, reply₂⟩, hupdate, rfl⟩ := h
  exact .step (i := .update 10) (.step (i := .send [104, 105]) (.init hcreate) ⟨reply₁, hsend⟩)
    ⟨reply₂, hupdate⟩

theorem session_memory_safe_twoBytesSent :
    ∃ m m', twoBytesSent = some m ∧ m.nsndBuf = 1 ∧ m.ikcpRelease = some m' ∧
      ∀ p, m'.segs p = none := by
  have hcount : twoBytesSent.map LinkedCb.nsndBuf = some 1 := by decide +kernel
  obtain ⟨m, hm, hbuf⟩ := Option.map_eq_some_iff.mp hcount
  obtain ⟨-, -, -, -, m', hrelease, hsegs⟩ := session_memory_safe (reachable_twoBytesSent hm)
  exact ⟨m, m', hm, hbuf, hrelease, fun p ↦ (hsegs p).1⟩

end KcpEcho
