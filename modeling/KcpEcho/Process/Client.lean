import KcpEcho.Process.Memory
import KcpEcho.Process.Receive

/-!
# `kcp_client.cpp`

The client's handlers. `connect` draws a key, sends it in a SYN and arms the connect timer; an ACK
carries the server's conversation number XOR that key. The client decodes it with whatever key is
current, installs a session, stops the connect timer and starts the send timer. A FIN for a known
session ends it and connects again.
-/

namespace KcpEcho

/-- The memory of the client: the process, whether `connect_timer` is armed, and the key in
`handle->data`. -/
structure Client where
  proc : Proc := {}
  connectTimer : Bool := false
  key : UInt32 := 0

namespace Client

open Proc

/-- `kcp_output`: the client sends on its connected socket. -/
def kcpOutput (_ctx : KcpContext) : Option SockAddr := none

/-- `connect`. -/
def connect (env : Env) (c : Client) : Client where
  key := env.rand
  proc := c.proc.sendUdpPacket none 1 env.rand
  connectTimer := true

/-- `connect_timeout_cb`, when the armed one-shot timer fires. -/
def connectTimeoutCb (env : Env) (c : Client) : Client :=
  connect env { c with connectTimer := false }

/-- The ACK branch. -/
def recvAck (env : Env) (addr : SockAddr) (convOrKey : UInt32) (c : Client) : Option Client := do
  let conv := convOrKey ^^^ c.key
  let (p, x) := c.proc.newKcpContext env addr conv
  let (p, ctx) ← p.readCtx x
  match ctx.kcp, ctx.updateTimer with
  | some k, some _ =>
    let p := p.emplace conv k
    -- stop the connect timer, then start sending
    let p ← p.startSend env x
    some { c with proc := p, connectTimer := false }
  | _, _ =>
    let p ← p.deleteCtx x
    some (connect env { c with proc := p })

/-- The FIN branch. -/
def recvFin (env : Env) (conv : UInt32) (c : Client) : Option Client :=
  match c.proc.kcpMap.lookup conv with
  | none => some c
  | some k => do
    let (p, kcp) ← (c.proc.use (.entry conv)).readKcp k
    let p ← p.deleteCtx kcp.user
    some (connect env { c with proc := p.eraseEntry conv })

/-- The KCP branch. -/
def recvKcp (env : Env) (addr : SockAddr) (conv : UInt32) (data : List UInt8) (c : Client) :
    Option Client :=
  match c.proc.kcpMap.lookup conv with
  | none => some c
  | some k => do
    let (p, kcp) ← (c.proc.use (.entry conv)).readKcp k
    let (kcp, nread) := ikcpInput kcp data
    let p := p.setKcp k kcp
    if nread < 0 then
      let (p, kcp) ← (p.use (.entry conv)).readKcp k
      -- the context is freed without its destructor
      let p ← p.freeCtx kcp.user
      let p ← (p.use (.entry conv)).ikcpRelease k
      let p := p.eraseEntry conv
      let (p, conv) := p.readConv env conv k
      some { c with proc := p.sendUdpPacket (some addr) 3 conv }
    else some { c with proc := (p.use (.entry conv)).setKcp k (drain kcp).1 }

/-- `udp_recv_cb` of the client. -/
def udpRecvCb (env : Env) (addr : SockAddr) (data : List UInt8) (c : Client) : Option Client :=
  if data.length < 5 then some c
  else
    let convOrKey := decode32u data
    if data.length < 24 then
      let cmd := commandByte data
      if cmd = 1 then some c
      else if cmd = 2 then recvAck env addr convOrKey c
      else if cmd = 3 then recvFin env convOrKey c
      else some c
    else recvKcp env addr convOrKey data c

/-- `UpdateTimerCb` in the client. -/
def updateTimerCb (env : Env) (t : Ptr) (c : Client) : Option Client :=
  (Proc.updateTimerCb kcpOutput env c.proc t).map fun p ↦ { c with proc := p }

/-- `SendTimerCb` in the client. -/
def sendTimerCb (env : Env) (t : Ptr) (c : Client) : Option Client :=
  (Proc.sendTimerCb env c.proc t).map fun p ↦ { c with proc := p }

end Client
end KcpEcho
