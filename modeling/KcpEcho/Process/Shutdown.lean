import KcpEcho.Process.Memory

/-!
# The end of `main`

Both programs end in the same way once the event loop has been stopped: close the timers of every
listed session, let `uv_walk` close whatever handle is still open, delete every listed context, and
clear the table. The order in which `kcp_map` is walked is left to the table; nothing here depends
on it.
-/

namespace KcpEcho
namespace Proc

/-- A position in `kcp_map`. -/
abbrev Entry := Sigma fun _ : UInt32 ↦ Ptr

/-- The loop that calls `CloseUpdateTimer` and `CloseSendTimer`. -/
def closeTimersLoop : List Entry → Proc → Option Proc
  | [], p => some p
  | ⟨conv, k⟩ :: rest, p => do
    let (p, kcp) ← (p.use (.entry conv)).readKcp k
    let p ← p.closeUpdateTimer kcp.user
    let p ← p.closeSendTimer kcp.user
    closeTimersLoop rest p

/-- `uv_walk` with `walk_cb`: the timers that are still open are closed. -/
def walk (p : Proc) : Proc :=
  { p with timers := ∅, trace := p.trace ++ p.timers.keys.map fun t ↦ .finish (.timer t) }

/-- The loop that deletes the contexts. -/
def deleteLoop : List Entry → Proc → Option Proc
  | [], p => some p
  | ⟨conv, k⟩ :: rest, p => do
    let (p, kcp) ← (p.use (.entry conv)).readKcp k
    let p ← p.deleteCtx kcp.user
    deleteLoop rest p

/-- `kcp_map.clear()`. -/
def clear (p : Proc) : Proc :=
  { p with kcpMap := ∅, trace := p.trace ++ p.kcpMap.keys.map fun conv ↦ .finish (.entry conv) }

/-- What `main` does after `uv_run`. -/
def shutdown (p : Proc) : Option Proc := do
  let p ← closeTimersLoop p.kcpMap.entries p
  let p := p.walk
  let p ← deleteLoop p.kcpMap.entries p
  some p.clear

end Proc
end KcpEcho
