import KcpEcho.Process.Memory
import KcpEcho.Process.Receive

/-!
# `kcp_server.cpp`

The server's receive handler. A datagram of 5 to 23 bytes is a control packet (a command behind a
conversation number or key), one of 24 bytes or more is KCP. The SYN branch allocates the next
conversation number and answers with that number XOR the client's key; an unknown conversation is
answered with a FIN.
-/

namespace KcpEcho
namespace Server

open Proc

/-- `kcp_output`: the server sends to the address the context was created with. -/
def kcpOutput (ctx : KcpContext) : Option SockAddr := some ctx.addr

/-- The SYN branch. -/
def recvSyn (env : Env) (addr : SockAddr) (key : UInt32) (p : Proc) : Option Proc := do
  let conv := p.sConv + 1
  let p := { p with sConv := conv }
  let (p, x) := p.newKcpContext env addr conv
  let (p, ctx) ← p.readCtx x
  match ctx.kcp, ctx.updateTimer with
  | some k, some _ => some ((p.emplace conv k).sendUdpPacket (some addr) 2 (conv ^^^ key))
  | _, _ => p.deleteCtx x

/-- The FIN branch. -/
def recvFin (conv : UInt32) (p : Proc) : Option Proc :=
  match p.kcpMap.lookup conv with
  | none => some p
  | some k => do
    let (p, kcp) ← (p.use (.entry conv)).readKcp k
    let p ← p.deleteCtx kcp.user
    some (p.eraseEntry conv)

/-- The KCP branch. -/
def recvKcp (env : Env) (addr : SockAddr) (conv : UInt32) (data : List UInt8) (p : Proc) :
    Option Proc :=
  match p.kcpMap.lookup conv with
  | none => some (p.sendUdpPacket (some addr) 3 conv)
  | some k => do
    let (p, kcp) ← (p.use (.entry conv)).readKcp k
    let (kcp, nread) := ikcpInput kcp data
    let p := p.setKcp k kcp
    if nread < 0 then
      let (p, kcp) ← (p.use (.entry conv)).readKcp k
      let p ← p.deleteCtx kcp.user
      let p := p.eraseEntry conv
      -- the FIN reads its number back through the erased entry
      let (p, conv) := p.readConv env conv k
      some (p.sendUdpPacket (some addr) 3 conv)
    else
      let (p, ctx) ← (p.use (.entry conv)).readCtx kcp.user
      let p := p.setCtx kcp.user { ctx with lastRecvTime := env.now32 }
      some (p.setKcp k (echo kcp).1)

/-- `udp_recv_cb` of the server. -/
def udpRecvCb (env : Env) (addr : SockAddr) (data : List UInt8) (p : Proc) : Option Proc :=
  if data.length < 5 then some p
  else
    let convOrKey := decode32u data
    if data.length < 24 then
      let cmd := commandByte data
      if cmd = 1 then recvSyn env addr convOrKey p
      else if cmd = 2 then some p
      else if cmd = 3 then recvFin convOrKey p
      else some p
    else recvKcp env addr convOrKey data p

end Server
end KcpEcho
