import KcpEcho.Base.LittleEndian
import KcpEcho.Base.SerialNumber
import Mathlib.Tactic.Linarith

/-!
# KCP segments and their wire format

The constants, the integer helpers and the segment record at the top of `ikcp.c`, with the fixed
24-byte header every segment travels behind.

## Representation

A segment's `data` is a list of bytes and its `len` is the length of that list: in the source the
two are always set together (`ikcp_segment_new` allocates exactly `len` bytes behind the header).
The intrusive queue node is left out; queues are lists of segments. `IUINT32` is `UInt32`, and the
wrapping comparison `_itimediff` lands in `ℤ`, as the source's lands in `long`.

The decoders return the value together with the bytes behind it, as the C ones return the advanced
pointer. Reading past the end does not occur: `ikcp_input` checks the size before it decodes.
-/

namespace KcpEcho

/-! ## Constants -/

def ikcpRtoNdl : UInt32 := 30
def ikcpRtoMin : UInt32 := 100
def ikcpRtoDef : UInt32 := 200
def ikcpRtoMax : UInt32 := 60000
/-- `cmd`: push data. -/
def ikcpCmdPush : UInt32 := 81
/-- `cmd`: ack. -/
def ikcpCmdAck : UInt32 := 82
/-- `cmd`: window probe (ask). -/
def ikcpCmdWask : UInt32 := 83
/-- `cmd`: window size (tell). -/
def ikcpCmdWins : UInt32 := 84
/-- Need to send `IKCP_CMD_WASK`. -/
def ikcpAskSend : UInt32 := 1
/-- Need to send `IKCP_CMD_WINS`. -/
def ikcpAskTell : UInt32 := 2
def ikcpWndSnd : UInt32 := 32
def ikcpWndRcv : UInt32 := 128
def ikcpMtuDef : UInt32 := 1400
def ikcpInterval : UInt32 := 100
def ikcpOverhead : ℕ := 24
def ikcpDeadlink : UInt32 := 20
def ikcpThreshInit : UInt32 := 2
def ikcpThreshMin : UInt32 := 2
def ikcpProbeInit : UInt32 := 7000
def ikcpProbeLimit : UInt32 := 120000
def ikcpFastackLimit : ℤ := 5

/-! ## Integer helpers -/

/-- `_imin_`. -/
def imin (a b : UInt32) : UInt32 := if a ≤ b then a else b

/-- `_imax_`. -/
def imax (a b : UInt32) : UInt32 := if a ≥ b then a else b

/-- `_ibound_`. -/
def ibound (lower middle upper : UInt32) : UInt32 := imin (imax lower middle) upper

/-- `_itimediff`: the signed 32-bit value of the wrapping difference. -/
def itimediff (later earlier : UInt32) : ℤ := (later - earlier).toBitVec.toInt

theorem itimediff_eq_diff (later earlier : UInt32) :
    itimediff later earlier = Serial.diff later.toBitVec earlier.toBitVec := rfl

/-- `_itimediff` is exact on the residues of true numbers less than `2 ^ 31` apart. -/
theorem itimediff_ofNat {a b : ℕ} (h : Serial.Near (2 ^ 31) a b) :
    itimediff (UInt32.ofNat a) (UInt32.ofNat b) = (a : ℤ) - b := by
  rw [itimediff_eq_diff, UInt32.toBitVec_ofNat', UInt32.toBitVec_ofNat']
  exact Serial.diff_ofNat h

theorem ofNat32_inj {a b : ℕ} (h : Serial.Near (2 ^ 32) a b) :
    UInt32.ofNat a = UInt32.ofNat b ↔ a = b := by
  rw [← Serial.ofNat_inj h, ← UInt32.toBitVec_ofNat', ← UInt32.toBitVec_ofNat',
    UInt32.toBitVec_inj]

/-- How far a number is ahead of another one, in the order of the counter. -/
abbrev ahead (a base : UInt32) : ℕ := Serial.elapsed a.toBitVec base.toBitVec

/-- `_itimediff` is exact on numbers less than `2 ^ 31` apart as seen from a common base. -/
theorem itimediff_of_ahead {a b : UInt32} (base : UInt32)
    (h : Serial.Near (2 ^ 31) (ahead a base) (ahead b base)) :
    itimediff a b = (ahead a base : ℤ) - ahead b base := Serial.diff_of_elapsed h

/-- The sign of `_itimediff` is the order seen from a base less than `2 ^ 31` behind. -/
theorem itimediff_neg_iff {a b : UInt32} (base : UInt32) (ha : ahead a base < 2 ^ 31)
    (hb : ahead b base < 2 ^ 31) : itimediff a b < 0 ↔ ahead a base < ahead b base :=
  Serial.diff_neg_iff ha hb

/-- The test for a window of numbers. -/
theorem ahead_lt_iff {a base stop : UInt32} (hstop : ahead stop base < 2 ^ 31) :
    ahead a base < ahead stop base ↔ 0 ≤ itimediff a base ∧ itimediff a stop < 0 :=
  Serial.elapsed_lt_iff hstop

theorem ahead_inj {a b : UInt32} (base : UInt32) : ahead a base = ahead b base ↔ a = b := by
  rw [ahead, ahead, Serial.elapsed_inj, UInt32.toBitVec_inj]

theorem ahead_add (a base : UInt32) (n : ℕ) :
    ahead (a + UInt32.ofNat n) base = (ahead a base + n) % 2 ^ 32 := by
  rw [ahead, UInt32.toBitVec_add, UInt32.toBitVec_ofNat', Serial.elapsed_add]

theorem ahead_add_self (base n : UInt32) : ahead (base + n) base = n.toNat := by
  have h := ahead_add base base n.toNat
  rw [UInt32.ofNat_toNat, ahead, ahead, Serial.elapsed_self, Nat.zero_add] at h
  exact h.trans (Nat.mod_eq_of_lt n.toNat_lt)

/-! ## The segment -/

/-- `struct IKCPSEG`, without the queue node. -/
structure IkcpSeg where
  conv : UInt32 := 0
  cmd : UInt32 := 0
  frg : UInt32 := 0
  wnd : UInt32 := 0
  ts : UInt32 := 0
  sn : UInt32 := 0
  una : UInt32 := 0
  resendts : UInt32 := 0
  rto : UInt32 := 0
  fastack : UInt32 := 0
  xmit : UInt32 := 0
  data : List UInt8 := []
  deriving DecidableEq, Repr

/-- The `len` field. -/
def IkcpSeg.len (seg : IkcpSeg) : ℕ := seg.data.length

/-! ## Encoding and decoding -/

def ikcpEncode8u (c : UInt8) : List UInt8 := [c]

def ikcpEncode16u (w : UInt16) : List UInt8 := LittleEndian.encode 2 w.toNat

def ikcpEncode32u (l : UInt32) : List UInt8 := LittleEndian.encode 4 l.toNat

def ikcpDecode8u (p : List UInt8) : UInt8 × List UInt8 := (p.headD 0, p.drop 1)

def ikcpDecode16u (p : List UInt8) : UInt16 × List UInt8 :=
  (UInt16.ofNat (LittleEndian.decode (p.take 2)), p.drop 2)

def ikcpDecode32u (p : List UInt8) : UInt32 × List UInt8 :=
  (UInt32.ofNat (LittleEndian.decode (p.take 4)), p.drop 4)

@[simp] theorem length_ikcpEncode32u (l : UInt32) : (ikcpEncode32u l).length = 4 :=
  LittleEndian.length_encode 4 _

@[simp] theorem length_ikcpEncode16u (w : UInt16) : (ikcpEncode16u w).length = 2 :=
  LittleEndian.length_encode 2 _

@[simp] theorem length_ikcpEncode8u (c : UInt8) : (ikcpEncode8u c).length = 1 := rfl

@[simp] theorem ikcpDecode8u_encode (c : UInt8) (p : List UInt8) :
    ikcpDecode8u (ikcpEncode8u c ++ p) = (c, p) := rfl

@[simp] theorem ikcpDecode16u_encode (w : UInt16) (p : List UInt8) :
    ikcpDecode16u (ikcpEncode16u w ++ p) = (w, p) := by
  have hlen := length_ikcpEncode16u w
  rw [ikcpDecode16u, List.take_left' hlen, List.drop_left' hlen, ikcpEncode16u,
    LittleEndian.decode_encode_of_lt (by have := w.toNat_lt; omega), UInt16.ofNat_toNat]

@[simp] theorem ikcpDecode32u_encode (l : UInt32) (p : List UInt8) :
    ikcpDecode32u (ikcpEncode32u l ++ p) = (l, p) := by
  have hlen := length_ikcpEncode32u l
  rw [ikcpDecode32u, List.take_left' hlen, List.drop_left' hlen, ikcpEncode32u,
    LittleEndian.decode_encode_of_lt (by have := l.toNat_lt; omega), UInt32.ofNat_toNat]

/-- `ikcp_encode_seg`: the header of a segment; the caller copies the data behind it. -/
def ikcpEncodeSeg (seg : IkcpSeg) : List UInt8 :=
  ikcpEncode32u seg.conv ++ (ikcpEncode8u seg.cmd.toUInt8 ++ (ikcpEncode8u seg.frg.toUInt8 ++
    (ikcpEncode16u seg.wnd.toUInt16 ++ (ikcpEncode32u seg.ts ++ (ikcpEncode32u seg.sn ++
      (ikcpEncode32u seg.una ++ ikcpEncode32u (UInt32.ofNat seg.len)))))))

@[simp] theorem length_ikcpEncodeSeg (seg : IkcpSeg) :
    (ikcpEncodeSeg seg).length = ikcpOverhead := by
  simp [ikcpEncodeSeg, ikcpOverhead]

/-- The locals `ikcp_input` decodes a header into. -/
structure IkcpHeader where
  conv : UInt32
  cmd : UInt8
  frg : UInt8
  wnd : UInt16
  ts : UInt32
  sn : UInt32
  una : UInt32
  len : UInt32
  deriving DecidableEq, Repr

/-- The eight decodes at the top of the loop of `ikcp_input`. -/
def decodeHeader (data : List UInt8) : IkcpHeader × List UInt8 :=
  let (conv, data) := ikcpDecode32u data
  let (cmd, data) := ikcpDecode8u data
  let (frg, data) := ikcpDecode8u data
  let (wnd, data) := ikcpDecode16u data
  let (ts, data) := ikcpDecode32u data
  let (sn, data) := ikcpDecode32u data
  let (una, data) := ikcpDecode32u data
  let (len, data) := ikcpDecode32u data
  (⟨conv, cmd, frg, wnd, ts, sn, una, len⟩, data)

/-- The header a segment travels behind. -/
def IkcpSeg.header (seg : IkcpSeg) : IkcpHeader where
  conv := seg.conv
  cmd := seg.cmd.toUInt8
  frg := seg.frg.toUInt8
  wnd := seg.wnd.toUInt16
  ts := seg.ts
  sn := seg.sn
  una := seg.una
  len := UInt32.ofNat seg.len

/-- **Header round trip.** -/
theorem decodeHeader_encode (seg : IkcpSeg) (p : List UInt8) :
    decodeHeader (ikcpEncodeSeg seg ++ p) = (seg.header, p) := by
  simp only [ikcpEncodeSeg, List.append_assoc, decodeHeader, ikcpDecode32u_encode,
    ikcpDecode8u_encode, ikcpDecode16u_encode, IkcpSeg.header]

theorem length_decodeHeader_snd (data : List UInt8) :
    (decodeHeader data).2.length = data.length - ikcpOverhead := by
  simp only [decodeHeader, ikcpDecode32u, ikcpDecode8u, ikcpDecode16u, List.length_drop,
    ikcpOverhead]
  omega

theorem ikcpEncode16u_decode {p : List UInt8} (h : 2 ≤ p.length) :
    ikcpEncode16u (ikcpDecode16u p).1 ++ (ikcpDecode16u p).2 = p := by
  have hlen : (p.take 2).length = 2 := List.length_take_of_le h
  have hlt := LittleEndian.decode_lt (p.take 2)
  have henc := LittleEndian.encode_decode (p.take 2)
  rw [hlen] at hlt henc
  rw [ikcpDecode16u, ikcpEncode16u, UInt16.toNat_ofNat_of_lt' (by simpa using hlt), henc,
    List.take_append_drop]

theorem ikcpEncode32u_decode {p : List UInt8} (h : 4 ≤ p.length) :
    ikcpEncode32u (ikcpDecode32u p).1 ++ (ikcpDecode32u p).2 = p := by
  have hlen : (p.take 4).length = 4 := List.length_take_of_le h
  have hlt := LittleEndian.decode_lt (p.take 4)
  have henc := LittleEndian.encode_decode (p.take 4)
  rw [hlen] at hlt henc
  rw [ikcpDecode32u, ikcpEncode32u, UInt32.toNat_ofNat_of_lt' (by simpa using hlt), henc,
    List.take_append_drop]

theorem ikcpEncode8u_decode {p : List UInt8} (h : 1 ≤ p.length) :
    ikcpEncode8u (ikcpDecode8u p).1 ++ (ikcpDecode8u p).2 = p := by
  obtain ⟨b, p, rfl⟩ := List.exists_cons_of_length_pos h
  rfl

/-- The fields of a header, one behind the other as `ikcp_encode_seg` writes them. -/
def IkcpHeader.encode (h : IkcpHeader) : List UInt8 :=
  ikcpEncode32u h.conv ++ (ikcpEncode8u h.cmd ++ (ikcpEncode8u h.frg ++ (ikcpEncode16u h.wnd ++
    (ikcpEncode32u h.ts ++ (ikcpEncode32u h.sn ++ (ikcpEncode32u h.una ++
      ikcpEncode32u h.len))))))

theorem ikcpEncodeSeg_eq (seg : IkcpSeg) : ikcpEncodeSeg seg = seg.header.encode := rfl

/-- **Header round trip, from the wire.** Encoding what was decoded gives the bytes back. -/
theorem encode_decodeHeader {data : List UInt8} (h : ikcpOverhead ≤ data.length) :
    (decodeHeader data).1.encode ++ (decodeHeader data).2 = data := by
  rw [ikcpOverhead] at h
  simp only [decodeHeader, IkcpHeader.encode, List.append_assoc]
  rw [ikcpEncode32u_decode, ikcpEncode32u_decode, ikcpEncode32u_decode, ikcpEncode32u_decode,
    ikcpEncode16u_decode, ikcpEncode8u_decode, ikcpEncode8u_decode, ikcpEncode32u_decode (by omega)]
  all_goals
    simp only [ikcpDecode32u, ikcpDecode16u, ikcpDecode8u, List.length_drop]
    omega

/-- A whole segment on the wire: its header and its data. -/
def IkcpSeg.wire (seg : IkcpSeg) : List UInt8 := ikcpEncodeSeg seg ++ seg.data

@[simp] theorem IkcpSeg.length_wire (seg : IkcpSeg) :
    seg.wire.length = ikcpOverhead + seg.data.length := by
  rw [IkcpSeg.wire, List.length_append, length_ikcpEncodeSeg]

theorem IkcpSeg.decode_conv_wire (seg : IkcpSeg) (p : List UInt8) :
    (ikcpDecode32u (seg.wire ++ p)).1 = seg.conv := by
  rw [IkcpSeg.wire, ikcpEncodeSeg, List.append_assoc, List.append_assoc, ikcpDecode32u_encode]

end KcpEcho
