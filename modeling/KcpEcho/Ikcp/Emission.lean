import KcpEcho.Base.Packing
import KcpEcho.Ikcp.Framing

/-!
# What `ikcp_flush` emits, exactly

`ikcp_flush` writes segments into its buffer at five places and hands the buffer over whenever the
next segment would not fit. The segments are, in this order, one acknowledgement for each pending
entry, up to two window probes, and those segments of the send buffer whose turn it is
(`flushSegs`). What leaves is the greedy packing of that sequence (`ikcpFlush_snd_eq_pack`): nothing
is lost, doubled or moved on the way into the datagrams, and no other way of packing the same
sequence would need fewer of them.
-/

namespace KcpEcho

open Packing

/-! ## The segments -/

/-- The bytes a segment takes in the buffer, the `need` of the source. -/
def IkcpSeg.need (seg : IkcpSeg) : ℕ := ikcpOverhead + seg.len

/-- The acknowledgements, in the order of the list. -/
def ackSegs (kcp : Ikcpcb) : List IkcpSeg :=
  kcp.acklist.map fun a ↦ { flushTemplate kcp with sn := a.1, ts := a.2 }

/-- The template as the acknowledgements leave it: with the number and time of the last one. -/
def probeTemplate (kcp : Ikcpcb) : IkcpSeg :=
  { flushTemplate kcp with
    sn := (kcp.acklist.getLastD (0, 0)).1
    ts := (kcp.acklist.getLastD (0, 0)).2 }

/-- The window probe or the answer to one, if it is asked for. -/
def commandSegs (kcp : Ikcpcb) (ask cmd : UInt32) (seg : IkcpSeg) : List IkcpSeg :=
  if kcp.probe &&& ask ≠ 0 then [{ seg with cmd := cmd }] else []

/-- The window probes. -/
def probeSegs (kcp : Ikcpcb) : List IkcpSeg :=
  let probed := flushProbe { kcp with acklist := [] }
  commandSegs probed ikcpAskSend ikcpCmdWask (probeTemplate kcp) ++
    commandSegs probed ikcpAskTell ikcpCmdWins (probeTemplate kcp)

/-- The local `resent` of `ikcp_flush`. -/
def flushResent (kcp : Ikcpcb) : UInt32 :=
  if kcp.fastresend > 0 then UInt32.ofInt kcp.fastresend else 0xffffffff

/-- The local `rtomin` of `ikcp_flush`. -/
def flushRtomin (kcp : Ikcpcb) : UInt32 :=
  if kcp.nodelay = 0 then (kcp.rxRto >>> 3).toUInt32 else 0

/-- A segment of the send buffer as it is sent, if it is. -/
def sentSeg (kcp : Ikcpcb) (wnd : UInt32) (seg : IkcpSeg) : Option IkcpSeg :=
  let d := sendDecision kcp (flushResent kcp) (flushRtomin kcp) seg
  if d.needsend then some { d.seg with ts := kcp.current, wnd := wnd, una := kcp.rcvNxt } else none

/-- The segments of the send buffer whose turn it is, once the window has been filled. -/
def dataSegs (kcp : Ikcpcb) : List IkcpSeg :=
  (flushMoved kcp).sndBuf.filterMap (sentSeg (flushMoved kcp) (ikcpWndUnused kcp))

/-- All that `ikcp_flush` puts into its buffer. -/
def flushSegs (kcp : Ikcpcb) : List IkcpSeg := ackSegs kcp ++ (probeSegs kcp ++ dataSegs kcp)

/-! ## The buffer -/

theorem length_wires (segs : List IkcpSeg) : (wires segs).length = total IkcpSeg.need segs := by
  induction segs with
  | nil => rfl
  | cons seg segs ih =>
    rw [wires_cons, List.length_append, seg.length_wire, ih, total_cons]
    rfl

/-- The buffer of `ikcp_flush` is on its way through a packing. -/
structure FlushBuf.Packs (fb : FlushBuf) (r : Runs IkcpSeg) : Prop where
  out : fb.out = r.closed.map wires
  buffer : fb.buffer = wires r.last

section Packs

variable {fb : FlushBuf} {r : Runs IkcpSeg}

theorem wires_eq_nil {segs : List IkcpSeg} : (wires segs).length = 0 ↔ segs = [] := by
  constructor
  · intro h
    cases segs with
    | nil => rfl
    | cons seg segs =>
      rw [length_wires, total_cons, IkcpSeg.need, ikcpOverhead] at h
      omega
  · rintro rfl
    rfl

/-- `ikcp_output` closes a run. -/
theorem FlushBuf.Packs.output (h : fb.Packs r) :
    ikcpOutput fb.out fb.buffer = r.close.map wires := by
  rw [ikcpOutput, Runs.close, h.out, h.buffer]
  by_cases hempty : r.last = []
  · rw [if_pos hempty, if_pos (wires_eq_nil.mpr hempty)]
  · rw [if_neg hempty, if_neg fun hlen ↦ hempty (wires_eq_nil.mp hlen), List.map_append,
      List.map_singleton]

theorem FlushBuf.Packs.put (h : fb.Packs r) (mtu : UInt32) (seg : IkcpSeg) :
    (fb.put mtu seg).Packs (r.put IkcpSeg.need mtu.toNat seg) := by
  have hlen : fb.buffer.length = total IkcpSeg.need r.last := by rw [h.buffer, length_wires]
  rw [FlushBuf.put, Runs.put, hlen, ← IkcpSeg.need]
  split_ifs
  · exact ⟨h.output, by simp⟩
  · exact ⟨h.out, by simp [h.buffer]⟩

theorem FlushBuf.Packs.puts (h : fb.Packs r) (mtu : UInt32) (segs : List IkcpSeg) :
    (segs.foldl (fun fb seg ↦ fb.put mtu seg) fb).Packs
      (segs.foldl (Runs.put IkcpSeg.need mtu.toNat) r) := by
  induction segs generalizing fb r with
  | nil => exact h
  | cons seg segs ih => exact ih (h.put mtu seg)

end Packs

/-! ## The five places -/

theorem flushAcks_eq (mtu : UInt32) (acks : List (UInt32 × UInt32)) (seg : IkcpSeg)
    (fb : FlushBuf) :
    flushAcks mtu acks seg fb =
      ({ seg with sn := (acks.getLastD (seg.sn, seg.ts)).1
                  ts := (acks.getLastD (seg.sn, seg.ts)).2 },
        (acks.map fun a ↦ { seg with sn := a.1, ts := a.2 }).foldl
          (fun fb seg ↦ fb.put mtu seg) fb) := by
  induction acks generalizing seg fb with
  | nil => rfl
  | cons a acks ih =>
    rw [flushAcks, ih, List.getLastD_cons]
    rfl

theorem flushCommand_eq (kcp : Ikcpcb) (ask cmd : UInt32) (seg : IkcpSeg) (fb : FlushBuf) :
    (flushCommand kcp ask cmd seg fb).2
      = (commandSegs kcp ask cmd seg).foldl (fun fb seg ↦ fb.put kcp.mtu seg) fb := by
  rw [flushCommand, commandSegs]
  split_ifs <;> rfl

/-- The second command overwrites the first in the template, and nothing else. -/
theorem commandSegs_flushCommand (kcp : Ikcpcb) (ask cmd ask' cmd' : UInt32) (seg : IkcpSeg)
    (fb : FlushBuf) :
    commandSegs kcp ask' cmd' (flushCommand kcp ask cmd seg fb).1
      = commandSegs kcp ask' cmd' seg := by
  rw [flushCommand]
  split_ifs <;> rfl

theorem flushHead_eq (kcp : Ikcpcb) : flushHead kcp =
    (ackSegs kcp ++ probeSegs kcp).foldl (fun fb seg ↦ fb.put kcp.mtu seg) {} := by
  have hmtu : (flushProbe { kcp with acklist := [] }).mtu = kcp.mtu :=
    congrArg IkcpConfig.mtu (flushProbe_sides _).1
  rw [flushHead, flushAcks_eq]
  dsimp only
  rw [flushCommand_eq, commandSegs_flushCommand, flushCommand_eq, hmtu, List.foldl_append, probeSegs,
    List.foldl_append]
  rfl

theorem flushData_eq (kcp : Ikcpcb) (wnd : UInt32) (segs : List IkcpSeg) (ds : DataState) :
    (flushData kcp (flushResent kcp) (flushRtomin kcp) wnd segs ds).2.fb =
      (segs.filterMap (sentSeg kcp wnd)).foldl (fun fb seg ↦ fb.put kcp.mtu seg) ds.fb := by
  induction segs generalizing ds with
  | nil => rfl
  | cons seg segs ih =>
    rw [flushData, List.filterMap_cons]
    dsimp only
    rw [ih, flushSegment, sentSeg]
    dsimp only
    split_ifs <;> rfl

/-- **Exact emission.** The datagrams of `ikcp_flush` are the greedy packing of its segments. -/
theorem ikcpFlush_snd_eq_pack {kcp : Ikcpcb} (h : kcp.updated ≠ 0) :
    (ikcpFlush kcp).2 = (pack IkcpSeg.need kcp.mtu.toNat (flushSegs kcp)).map wires := by
  have hmtu : (flushMoved kcp).mtu = kcp.mtu := congrArg IkcpConfig.mtu (flushMoved_frame kcp).1
  have hstart : FlushBuf.Packs {} {} := ⟨rfl, rfl⟩
  have hflush : (ikcpFlush kcp).2 = (flushData (flushMoved kcp) (flushResent (flushMoved kcp))
      (flushRtomin (flushMoved kcp)) (ikcpWndUnused kcp) (flushMoved kcp).sndBuf
      { fb := flushHead kcp, xmit := (flushMoved kcp).xmit
        state := (flushMoved kcp).state }).2.fb.finish := by
    rw [ikcpFlush, if_neg h]
    rfl
  rw [hflush, flushData_eq, hmtu, flushHead_eq, ← List.foldl_append, List.append_assoc]
  exact (hstart.puts kcp.mtu (flushSegs kcp)).output

end KcpEcho
