import KcpEcho.Base.Lifetime
import KcpEcho.Ikcp.Flush
import Mathlib.Data.List.AList
import Mathlib.Data.List.GetD
import Mathlib.Logic.Function.Basic

/-!
# The process: heap, session table and timers

`kcp_util.h` as both programs include it: the `KcpContext` class, the global `kcp_map`, the update
and send timers, and the packet functions.

## The heap

Contexts and control blocks live behind pointers, because the theorems about teardown are about
which pointer is followed when. A live object is one its heap maps to `some`. Following a pointer
to a dead object has no meaning in the source, and the functions here return `none` there: such a
run has no next state. One read of freed memory is modelled more generously, since the program
goes on after it: reading a number back through a dead object yields an arbitrary value of the
environment (`Env.junk`).

Blocks are never given an address twice, so a stale pointer stays stale. Every access and every
end of a lifetime is recorded in `trace`; every datagram handed to libuv is recorded in `outbox`.

## libuv

`uv_timer_init`, `uv_timer_start` and `uv_timer_stop` fail only for arguments the program never
passes and are taken to succeed. A timer is open from `create_timer` to `uv_close`; after that its
callback does not run again. A failed `uv_udp_send` loses the datagram, which the network may do
anyway, so `outbox` holds what was attempted. The counters `send_count` and `recv_count` are
written for the statistics line only and are left out.
-/

namespace KcpEcho

/-! ## Addresses and packets -/

/-- A socket address, as the `union` of `KcpContext` holds it. -/
inductive SockAddr
  | inet (addr : UInt32) (port : UInt16)
  | inet6 (addr : BitVec 128) (port : UInt16)
  deriving DecidableEq, Repr

/-- A datagram handed to `uv_udp_send`. The address is `none` where the program passes `NULL`, on a
connected socket. -/
structure Packet where
  dest : Option SockAddr
  bytes : List UInt8
  deriving DecidableEq, Repr

/-- `encode8u` of `kcp_util.h`, the same code as `ikcp_encode8u`. -/
def encode8u (c : UInt8) : List UInt8 := ikcpEncode8u c

/-- `encode32u` of `kcp_util.h`, the same code as `ikcp_encode32u`. -/
def encode32u (l : UInt32) : List UInt8 := ikcpEncode32u l

/-- `decode32u` of `kcp_util.h`, the same code as `ikcp_decode32u`. -/
def decode32u (p : List UInt8) : UInt32 := (ikcpDecode32u p).1

/-- The five bytes of `send_udp_packet`. -/
def udpPacket (cmd : UInt8) (conv : UInt32) : List UInt8 := encode32u conv ++ encode8u cmd

@[simp] theorem length_udpPacket (cmd : UInt8) (conv : UInt32) :
    (udpPacket cmd conv).length = 5 := by
  simp [udpPacket, encode32u, encode8u]

@[simp] theorem decode32u_udpPacket (cmd : UInt8) (conv : UInt32) :
    decode32u (udpPacket cmd conv) = conv := by
  rw [decode32u, udpPacket, encode32u, ikcpDecode32u_encode]

/-- The command byte, `buf->base[4]`. -/
def commandByte (data : List UInt8) : UInt8 := data.getD 4 0

@[simp] theorem commandByte_udpPacket (cmd : UInt8) (conv : UInt32) :
    commandByte (udpPacket cmd conv) = cmd := by
  have hlen : (encode32u conv).length = 4 := length_ikcpEncode32u conv
  rw [commandByte, udpPacket, List.getD_append_right _ _ _ _ (by omega), hlen]
  rfl

/-! ## Objects -/

/-- `class KcpContext`. The socket handle is the process's only one. -/
structure KcpContext where
  addr : SockAddr
  updateTimer : Option Ptr := none
  sendTimer : Option Ptr := none
  kcp : Option Ptr := none
  lastRecvTime : UInt32 := 0
  deriving DecidableEq, Repr

inductive TimerCb
  | updateTimerCb
  | sendTimerCb
  deriving DecidableEq, Repr

/-- An open timer: its callback and its `data` pointer. -/
structure UvTimer where
  cb : TimerCb
  data : Ptr
  deriving DecidableEq, Repr

/-- The things whose lifetimes the program manages by hand. -/
inductive Obj
  | ctx (x : Ptr)
  | kcp (k : Ptr)
  | timer (t : Ptr)
  | entry (conv : UInt32)
  deriving DecidableEq, Repr

/-- What the outside decides while a handler runs. -/
structure Env where
  /-- `uv_now`, in milliseconds. -/
  now : ℕ := 0
  /-- What `rand` returns. -/
  rand : UInt32 := 0
  /-- `ikcp_create` gets its memory. -/
  kcpAlloc : Bool := true
  /-- The update timer gets its memory. -/
  updateTimerAlloc : Bool := true
  /-- The send timer gets its memory. -/
  sendTimerAlloc : Bool := true
  /-- What a read of freed memory finds. -/
  junk : UInt32 := 0

/-- `(uint32_t)uv_now(uv_default_loop())`. -/
def Env.now32 (env : Env) : UInt32 := UInt32.ofNat env.now

/-- Every allocation of the handler succeeds. -/
def Env.AllocOk (env : Env) : Prop :=
  env.kcpAlloc = true ∧ env.updateTimerAlloc = true ∧ env.sendTimerAlloc = true

/-- The memory of a process. -/
structure Proc where
  sConv : UInt32 := 1000
  kcpMap : AList fun _ : UInt32 ↦ Ptr := ∅
  ctxs : Ptr → Option KcpContext := fun _ ↦ none
  kcps : Ptr → Option Ikcpcb := fun _ ↦ none
  timers : AList fun _ : Ptr ↦ UvTimer := ∅
  /-- The next address to be allocated. -/
  brk : Ptr := 0
  trace : List (Lifetime.Event Obj) := []
  outbox : List Packet := []

namespace Proc

/-! ## Memory accesses -/

def use (p : Proc) (o : Obj) : Proc := { p with trace := p.trace ++ [.use o] }

def finish (p : Proc) (o : Obj) : Proc := { p with trace := p.trace ++ [.finish o] }

def setCtx (p : Proc) (x : Ptr) (ctx : KcpContext) : Proc :=
  { p with ctxs := Function.update p.ctxs x (some ctx) }

def setKcp (p : Proc) (k : Ptr) (kcp : Ikcpcb) : Proc :=
  { p with kcps := Function.update p.kcps k (some kcp) }

/-- Follow a pointer to a context. -/
def readCtx (p : Proc) (x : Ptr) : Option (Proc × KcpContext) :=
  (p.ctxs x).map fun ctx ↦ (p.use (.ctx x), ctx)

/-- Follow a pointer to a control block. -/
def readKcp (p : Proc) (k : Ptr) : Option (Proc × Ikcpcb) :=
  (p.kcps k).map fun kcp ↦ (p.use (.kcp k), kcp)

/-- `it->second->conv` through an iterator whose entry may have been erased and whose control block
may have been released. -/
def readConv (p : Proc) (env : Env) (conv : UInt32) (k : Ptr) : Proc × UInt32 :=
  ((p.use (.entry conv)).use (.kcp k), ((p.kcps k).map Ikcpcb.conv).getD env.junk)

/-- `kcp_map.emplace`, which leaves an existing entry alone. -/
def emplace (p : Proc) (conv : UInt32) (k : Ptr) : Proc :=
  if conv ∈ p.kcpMap then p else { p with kcpMap := p.kcpMap.insert conv k }

/-- `kcp_map.erase(it)`. -/
def eraseEntry (p : Proc) (conv : UInt32) : Proc :=
  { p with kcpMap := p.kcpMap.erase conv, trace := p.trace ++ [.finish (.entry conv)] }

/-! ## Packets -/

/-- `send_udp_packet`. -/
def sendUdpPacket (p : Proc) (dest : Option SockAddr) (cmd : UInt8) (conv : UInt32) : Proc :=
  { p with outbox := p.outbox ++ [⟨dest, udpPacket cmd conv⟩] }

/-- `send_kcp_packet`. -/
def sendKcpPacket (p : Proc) (dest : Option SockAddr) (buffer : List UInt8) : Proc :=
  { p with outbox := p.outbox ++ [⟨dest, buffer⟩] }

/-! ## Timers -/

/-- `create_timer` on freshly allocated memory. -/
def createTimer (p : Proc) (cb : TimerCb) (data : Ptr) : Proc × Ptr :=
  ({ p with timers := p.timers.insert p.brk ⟨cb, data⟩, brk := p.brk + 1 }, p.brk)

/-- `uv_close` of a timer, which must be open. -/
def uvClose (p : Proc) (t : Ptr) : Option Proc :=
  if t ∈ p.timers then
    some { p with timers := p.timers.erase t, trace := p.trace ++ [.finish (.timer t)] }
  else none

/-- `KcpContext::CloseUpdateTimer`. -/
def closeUpdateTimer (p : Proc) (x : Ptr) : Option Proc := do
  let (p, ctx) ← p.readCtx x
  match ctx.updateTimer with
  | none => some p
  | some t =>
    let p ← p.uvClose t
    some (p.setCtx x { ctx with updateTimer := none })

/-- `KcpContext::CloseSendTimer`. -/
def closeSendTimer (p : Proc) (x : Ptr) : Option Proc := do
  let (p, ctx) ← p.readCtx x
  match ctx.sendTimer with
  | none => some p
  | some t =>
    let p ← p.uvClose t
    some (p.setCtx x { ctx with sendTimer := none })

/-! ## Contexts -/

/-- `ikcp_release`: the four queues, the buffer, the ack list and the block itself. -/
def ikcpRelease (p : Proc) (k : Ptr) : Option Proc := do
  let (p, _) ← p.readKcp k
  some { p.finish (.kcp k) with kcps := Function.update p.kcps k none }

/-- Give the storage of a context back, without its destructor. -/
def freeCtx (p : Proc) (x : Ptr) : Option Proc :=
  (p.ctxs x).map fun _ ↦ { p.finish (.ctx x) with ctxs := Function.update p.ctxs x none }

/-- `delete kcp_ctx`: the destructor `~KcpContext`, then the storage. -/
def deleteCtx (p : Proc) (x : Ptr) : Option Proc := do
  let p ← p.closeUpdateTimer x
  let p ← p.closeSendTimer x
  let (p, ctx) ← p.readCtx x
  let p ← match ctx.kcp with
    | none => some p
    | some k => p.ikcpRelease k
  p.freeCtx x

/-- `new KcpContext(handle, addr, conv, kcp_output)`, whose constructor stops early when one of its
allocations fails. -/
def newKcpContext (p : Proc) (env : Env) (addr : SockAddr) (conv : UInt32) : Proc × Ptr :=
  let x := p.brk
  let ctx : KcpContext := { addr := addr }
  let p := { p with brk := p.brk + 1 }
  if env.kcpAlloc = false then (p.setCtx x ctx, x)
  else
    let k := p.brk
    let ctx := { ctx with kcp := some k }
    let p := { p with brk := p.brk + 1 }.setKcp k (configuredKcp conv x)
    if env.updateTimerAlloc = false then (p.setCtx x ctx, x)
    else
      let (p, t) := p.createTimer .updateTimerCb x
      (p.setCtx x { ctx with updateTimer := some t }, x)

/-- `KcpContext::IsTimeout`. -/
def isTimeout (env : Env) (ctx : KcpContext) : Bool :=
  if ctx.lastRecvTime = 0 then false else env.now32 - ctx.lastRecvTime > 60000

/-- `KcpContext::StartSend`. Its result is not looked at by the callers. -/
def startSend (p : Proc) (env : Env) (x : Ptr) : Option Proc := do
  let (p, ctx) ← p.readCtx x
  if env.sendTimerAlloc = false then some (p.setCtx x { ctx with sendTimer := none })
  else
    let (p, t) := p.createTimer .sendTimerCb x
    some (p.setCtx x { ctx with sendTimer := some t })

/-! ## Timer callbacks -/

/-- The datagrams of one `ikcp_update`, through the callback `kcp_output` of either program. `dest`
is where that program's callback sends to. -/
def kcpOutput (dest : KcpContext → Option SockAddr) (user : Ptr) :
    List (List UInt8) → Proc → Option Proc
  | [], p => some p
  | data :: out, p => do
    let (p, ctx) ← p.readCtx user
    kcpOutput dest user out (p.sendKcpPacket (dest ctx) data)

/-- `KcpContext::UpdateTimerCb` of an open timer. -/
def updateTimerCb (dest : KcpContext → Option SockAddr) (env : Env) (p : Proc) (t : Ptr) :
    Option Proc := do
  let timer ← p.timers.lookup t
  let x := timer.data
  let (p, ctx) ← p.readCtx x
  let k ← ctx.kcp
  let (p, kcp) ← p.readKcp k
  let (kcp, out) := ikcpUpdate kcp env.now32
  let p ← kcpOutput dest kcp.user out (p.setKcp k kcp)
  let (p, ctx) ← p.readCtx x
  if isTimeout env ctx then
    let (p, kcp) ← p.readKcp k
    let p := p.sendUdpPacket (some ctx.addr) 3 kcp.conv
    if kcp.conv ∈ p.kcpMap then
      let p ← p.deleteCtx x
      some (p.eraseEntry kcp.conv)
    else some p
  else some p

/-- The loop of `SendTimerCb`. -/
def sendMessages : ℕ → Ikcpcb → Ikcpcb
  | 0, kcp => kcp
  | n + 1, kcp => sendMessages n (ikcpSend kcp [49, 50, 51, 52, 53, 54, 55, 56]).1

/-- `KcpContext::SendTimerCb` of an open timer: one to ten messages `"12345678"`. -/
def sendTimerCb (env : Env) (p : Proc) (t : Ptr) : Option Proc := do
  let timer ← p.timers.lookup t
  let (p, ctx) ← p.readCtx timer.data
  let k ← ctx.kcp
  let (p, kcp) ← p.readKcp k
  some (p.setKcp k (sendMessages (env.rand.toNat % 10 + 1) kcp))

end Proc
end KcpEcho
