import KcpEcho.Process.Server
import KcpEcho.Process.Client
import KcpEcho.Session.Usage

/-!
# Who owns what

A complete session is a context, its control block and its timers, each pointing to the others
(`Live`). `Sound` says that contexts and control blocks occur only as parts of complete sessions
and that the table points to control blocks filed under their own number; `TimersOwned` adds that
every open timer belongs to a live context.

The operations of the two programs on this memory are few: a session is opened, entered in the
table, used, or ended. For each there is an equation that says what the code leaves behind and a
lemma for each part of the invariant. The handlers are compositions of these.
-/

namespace KcpEcho

open Lifetime

/-- The timer a context holds for a callback. -/
def KcpContext.timer (ctx : KcpContext) : TimerCb → Option Ptr
  | .updateTimerCb => ctx.updateTimer
  | .sendTimerCb => ctx.sendTimer

/-- The two allocations of the constructor succeed. -/
def Env.CreateOk (env : Env) : Prop := env.kcpAlloc = true ∧ env.updateTimerAlloc = true

instance (env : Env) : Decidable env.CreateOk := inferInstanceAs (Decidable (_ ∧ _))

namespace Proc

/-! ## Closing and deleting -/

def eraseTimer (timers : AList fun _ : Ptr ↦ UvTimer) : Option Ptr → AList fun _ : Ptr ↦ UvTimer
  | none => timers
  | some t => timers.erase t

theorem lookup_eraseTimer_of_ne {timers : AList fun _ : Ptr ↦ UvTimer} {o : Option Ptr} {t : Ptr}
    (h : o ≠ some t) : (eraseTimer timers o).lookup t = timers.lookup t := by
  cases o with
  | none => rfl
  | some s => exact AList.lookup_erase_ne fun hs ↦ h (hs ▸ rfl)

theorem lookup_eraseTimer_self {timers : AList fun _ : Ptr ↦ UvTimer} (t : Ptr) :
    (eraseTimer timers (some t)).lookup t = none := AList.lookup_erase _ _

/-- The trace of `CloseUpdateTimer` and of `CloseSendTimer`. -/
def closeTrace (x : Ptr) (t : Option Ptr) : List (Event Obj) :=
  .use (.ctx x) :: t.toList.map fun t ↦ .finish (.timer t)

theorem closeUpdateTimer_eq {p : Proc} {x : Ptr} {ctx : KcpContext} (hx : p.ctxs x = some ctx)
    (ht : ∀ t, ctx.updateTimer = some t → t ∈ p.timers) :
    p.closeUpdateTimer x = some { p with
      ctxs := Function.update p.ctxs x (some { ctx with updateTimer := none })
      timers := eraseTimer p.timers ctx.updateTimer
      trace := p.trace ++ closeTrace x ctx.updateTimer } := by
  unfold closeUpdateTimer
  cases h : ctx.updateTimer with
  | none =>
    have hself : { ctx with updateTimer := none } = ctx := by rw [← h]
    simp [readCtx, hx, h, hself, use, eraseTimer, closeTrace]
  | some t => simp [readCtx, hx, h, use, eraseTimer, closeTrace, uvClose, ht t h, setCtx]

theorem closeSendTimer_eq {p : Proc} {x : Ptr} {ctx : KcpContext} (hx : p.ctxs x = some ctx)
    (ht : ∀ t, ctx.sendTimer = some t → t ∈ p.timers) :
    p.closeSendTimer x = some { p with
      ctxs := Function.update p.ctxs x (some { ctx with sendTimer := none })
      timers := eraseTimer p.timers ctx.sendTimer
      trace := p.trace ++ closeTrace x ctx.sendTimer } := by
  unfold closeSendTimer
  cases h : ctx.sendTimer with
  | none =>
    have hself : { ctx with sendTimer := none } = ctx := by rw [← h]
    simp [readCtx, hx, h, hself, use, eraseTimer, closeTrace]
  | some t => simp [readCtx, hx, h, use, eraseTimer, closeTrace, uvClose, ht t h, setCtx]

/-- The timers of a context are open, and are the context's. -/
def TimersAt (p : Proc) (x : Ptr) (ctx : KcpContext) : Prop :=
  ∀ cb t, ctx.timer cb = some t → p.timers.lookup t = some ⟨cb, x⟩

theorem TimersAt.update_ne_send {p : Proc} {x : Ptr} {ctx : KcpContext} (h : TimersAt p x ctx)
    {t : Ptr} (ht : ctx.sendTimer = some t) : ctx.updateTimer ≠ some t := by
  intro hu
  have h1 := h .updateTimerCb t hu
  rw [h .sendTimerCb t ht] at h1
  cases h1

/-- What is left of the timers when a context's are closed. -/
def closedTimers (p : Proc) (ctx : KcpContext) : AList fun _ : Ptr ↦ UvTimer :=
  eraseTimer (eraseTimer p.timers ctx.updateTimer) ctx.sendTimer

theorem lookup_closedTimers_of_ne {p : Proc} {ctx : KcpContext} {t : Ptr}
    (h : ∀ cb, ctx.timer cb ≠ some t) : (closedTimers p ctx).lookup t = p.timers.lookup t := by
  have hs : ctx.sendTimer ≠ some t := h .sendTimerCb
  have hu : ctx.updateTimer ≠ some t := h .updateTimerCb
  rw [closedTimers, lookup_eraseTimer_of_ne hs, lookup_eraseTimer_of_ne hu]

theorem lookup_closedTimers_self {p : Proc} {ctx : KcpContext} {t : Ptr} {cb : TimerCb}
    (h : ctx.timer cb = some t) : (closedTimers p ctx).lookup t = none := by
  rw [closedTimers]
  cases cb with
  | updateTimerCb =>
    have hu : ctx.updateTimer = some t := h
    by_cases hs : ctx.sendTimer = some t
    · rw [hs, lookup_eraseTimer_self]
    · rw [lookup_eraseTimer_of_ne hs, hu, lookup_eraseTimer_self]
  | sendTimerCb =>
    have hs : ctx.sendTimer = some t := h
    rw [hs, lookup_eraseTimer_self]

/-- The trace of `delete kcp_ctx`. -/
def deleteTrace (x : Ptr) (ctx : KcpContext) (k : Ptr) : List (Event Obj) :=
  closeTrace x ctx.updateTimer ++ (closeTrace x ctx.sendTimer ++
    [.use (.ctx x), .use (.kcp k), .finish (.kcp k), .finish (.ctx x)])

/-- The process after `delete kcp_ctx`. -/
def deleted (p : Proc) (x : Ptr) (ctx : KcpContext) (k : Ptr) : Proc :=
  { p with
    ctxs := Function.update p.ctxs x none
    kcps := Function.update p.kcps k none
    timers := closedTimers p ctx
    trace := p.trace ++ deleteTrace x ctx k }

/-- **The destructor.** Deleting a context closes its timers, releases its control block and gives
its storage back. -/
theorem deleteCtx_eq {p : Proc} {x k : Ptr} {ctx : KcpContext} {kcp : Ikcpcb}
    (hx : p.ctxs x = some ctx) (hk : ctx.kcp = some k) (hkcp : p.kcps k = some kcp)
    (ht : TimersAt p x ctx) : p.deleteCtx x = some (p.deleted x ctx k) := by
  have hu : ∀ t, ctx.updateTimer = some t → t ∈ p.timers := fun t h ↦
    AList.lookup_isSome.mp (by rw [ht .updateTimerCb t h]; rfl)
  have hs : ∀ t, ctx.sendTimer = some t → t ∈ eraseTimer p.timers ctx.updateTimer := fun t h ↦ by
    rw [← AList.lookup_isSome, lookup_eraseTimer_of_ne (ht.update_ne_send h), ht .sendTimerCb t h]
    rfl
  rw [deleteCtx, closeUpdateTimer_eq hx hu, Option.bind_eq_bind, Option.bind_some,
    closeSendTimer_eq (Function.update_self x _ _) hs]
  simp [readCtx, readKcp, hk, hkcp, use, finish, ikcpRelease, freeCtx, deleted, deleteTrace,
    closedTimers]

/-! ## Complete sessions -/

/-- Context `x` is alive and complete, with control block `k`. -/
structure Live (p : Proc) (x : Ptr) (ctx : KcpContext) (k : Ptr) (kcp : Ikcpcb) : Prop where
  ctx_at : p.ctxs x = some ctx
  kcp_eq : ctx.kcp = some k
  kcp_at : p.kcps k = some kcp
  user_eq : kcp.user = x
  timed : ctx.updateTimer ≠ none
  timers : TimersAt p x ctx
  session : (session kcp.conv x).Reachable kcp

/-- Contexts and control blocks occur in complete sessions only, the table points to control blocks
filed under their own number, and nothing lives at an address still to be allocated. -/
structure Sound (p : Proc) : Prop where
  ctx_fresh : ∀ x, p.brk ≤ x → p.ctxs x = none
  kcp_fresh : ∀ k, p.brk ≤ k → p.kcps k = none
  timer_fresh : ∀ t, p.brk ≤ t → p.timers.lookup t = none
  ctx_live : ∀ x ctx, p.ctxs x = some ctx → ∃ k kcp, Live p x ctx k kcp
  kcp_live : ∀ k kcp, p.kcps k = some kcp → ∃ ctx, p.ctxs kcp.user = some ctx ∧ ctx.kcp = some k
  map_kcp : ∀ c k, p.kcpMap.lookup c = some k → ∃ kcp, p.kcps k = some kcp ∧ kcp.conv = c

/-- Every open timer belongs to a live context. -/
def TimersOwned (p : Proc) : Prop :=
  ∀ t timer, p.timers.lookup t = some timer →
    ∃ ctx, p.ctxs timer.data = some ctx ∧ ctx.timer timer.cb = some t

/-- Context `x` is the one recorded in the table under its own number. -/
def Listed (p : Proc) (x : Ptr) : Prop :=
  ∃ ctx k kcp, Live p x ctx k kcp ∧ p.kcpMap.lookup kcp.conv = some k

namespace Sound

variable {p : Proc}

theorem ctx_lt (h : Sound p) {x : Ptr} {ctx : KcpContext} (hx : p.ctxs x = some ctx) :
    x < p.brk := by
  by_contra hlt
  rw [h.ctx_fresh x (not_lt.mp hlt)] at hx
  cases hx

theorem kcp_lt (h : Sound p) {k : Ptr} {kcp : Ikcpcb} (hk : p.kcps k = some kcp) : k < p.brk := by
  by_contra hlt
  rw [h.kcp_fresh k (not_lt.mp hlt)] at hk
  cases hk

theorem timer_lt (h : Sound p) {t : Ptr} {timer : UvTimer} (ht : p.timers.lookup t = some timer) :
    t < p.brk := by
  by_contra hlt
  rw [h.timer_fresh t (not_lt.mp hlt)] at ht
  cases ht

/-- A control block belongs to the session of its user. -/
theorem live_of_kcp (h : Sound p) {k : Ptr} {kcp : Ikcpcb} (hk : p.kcps k = some kcp) :
    ∃ ctx, Live p kcp.user ctx k kcp := by
  obtain ⟨ctx, hx, hctx⟩ := h.kcp_live k kcp hk
  obtain ⟨k', kcp', hlive⟩ := h.ctx_live _ ctx hx
  obtain rfl : k' = k := Option.some.inj (hlive.kcp_eq.symm.trans hctx)
  obtain rfl : kcp' = kcp := Option.some.inj (hlive.kcp_at.symm.trans hk)
  exact ⟨ctx, hlive⟩

/-- **A table entry is a complete session** of its own number. -/
theorem live_of_entry (h : Sound p) {c : UInt32} {k : Ptr} (hc : p.kcpMap.lookup c = some k) :
    ∃ ctx kcp, Live p kcp.user ctx k kcp ∧ kcp.conv = c := by
  obtain ⟨kcp, hk, hconv⟩ := h.map_kcp c k hc
  obtain ⟨ctx, hlive⟩ := h.live_of_kcp hk
  exact ⟨ctx, kcp, hlive, hconv⟩

/-- Two entries never share a control block. -/
theorem entry_inj (h : Sound p) {c c' : UInt32} {k : Ptr} (hc : p.kcpMap.lookup c = some k)
    (hc' : p.kcpMap.lookup c' = some k) : c = c' := by
  obtain ⟨kcp, hk, rfl⟩ := h.map_kcp c k hc
  obtain ⟨kcp', hk', rfl⟩ := h.map_kcp c' k hc'
  rw [hk] at hk'
  cases hk'
  rfl

end Sound

namespace Live

variable {p : Proc} {x x' k k' : Ptr} {ctx ctx' : KcpContext} {kcp kcp' : Ikcpcb}

/-- A session is determined by its context. -/
theorem unique (h : Live p x ctx k kcp) (h' : Live p x ctx' k' kcp') :
    ctx' = ctx ∧ k' = k ∧ kcp' = kcp := by
  obtain rfl : ctx = ctx' := Option.some.inj (h.ctx_at.symm.trans h'.ctx_at)
  obtain rfl : k = k' := Option.some.inj (h.kcp_eq.symm.trans h'.kcp_eq)
  exact ⟨rfl, rfl, Option.some.inj (h'.kcp_at.symm.trans h.kcp_at)⟩

/-- Two live contexts never share a control block. -/
theorem ctx_eq (h : Live p x ctx k kcp) (h' : Live p x' ctx' k kcp') : x = x' := by
  rw [← h.user_eq, ← h'.user_eq, Option.some.inj (h.kcp_at.symm.trans h'.kcp_at)]

/-- Two live contexts never share a timer. -/
theorem timer_ne (h : Live p x ctx k kcp) (h' : Live p x' ctx' k' kcp') (hne : x ≠ x') {t : Ptr}
    {cb : TimerCb} (ht : ctx'.timer cb = some t) (cb' : TimerCb) : ctx.timer cb' ≠ some t := by
  intro hcb
  have := (h.timers cb' t hcb).symm.trans (h'.timers cb t ht)
  cases this
  exact hne rfl

theorem framed (h : Live p x ctx k kcp) : Framed kcp.conv x kcp :=
  (Framed.inductive_session _ _).reachable h.session

/-- A session is as alive as before if its three parts are where they were. -/
theorem frame {p' : Proc} (h : Live p x ctx k kcp) (hx : p'.ctxs x = p.ctxs x)
    (hk : p'.kcps k = p.kcps k)
    (ht : ∀ cb t, ctx.timer cb = some t → p'.timers.lookup t = p.timers.lookup t) :
    Live p' x ctx k kcp where
  ctx_at := hx.trans h.ctx_at
  kcp_eq := h.kcp_eq
  kcp_at := hk.trans h.kcp_at
  user_eq := h.user_eq
  timed := h.timed
  timers cb t hcb := (ht cb t hcb).trans (h.timers cb t hcb)
  session := h.session

end Live

/-! ## Nothing but bookkeeping -/

/-- The same objects: at most addresses were used up, and the trace and the outbox moved. -/
structure Grown (p p' : Proc) : Prop where
  ctxs : p'.ctxs = p.ctxs
  kcps : p'.kcps = p.kcps
  timers : p'.timers = p.timers
  kcpMap : p'.kcpMap = p.kcpMap
  brk : p.brk ≤ p'.brk

namespace Grown

variable {p p' p'' : Proc}

theorem refl (p : Proc) : Grown p p := ⟨rfl, rfl, rfl, rfl, le_rfl⟩

theorem trans (h : Grown p p') (h' : Grown p' p'') : Grown p p'' :=
  ⟨h'.ctxs.trans h.ctxs, h'.kcps.trans h.kcps, h'.timers.trans h.timers,
    h'.kcpMap.trans h.kcpMap, h.brk.trans h'.brk⟩

theorem live (h : Grown p p') {x k : Ptr} {ctx : KcpContext} {kcp : Ikcpcb} :
    Live p' x ctx k kcp ↔ Live p x ctx k kcp :=
  ⟨fun hl ↦ hl.frame (by rw [h.ctxs]) (by rw [h.kcps]) (fun _ _ _ ↦ by rw [h.timers]),
    fun hl ↦ hl.frame (by rw [h.ctxs]) (by rw [h.kcps]) (fun _ _ _ ↦ by rw [h.timers])⟩

theorem sound (h : Grown p p') (hp : Sound p) : Sound p' where
  ctx_fresh x hx := h.ctxs ▸ hp.ctx_fresh x (h.brk.trans hx)
  kcp_fresh k hk := h.kcps ▸ hp.kcp_fresh k (h.brk.trans hk)
  timer_fresh t ht := h.timers ▸ hp.timer_fresh t (h.brk.trans ht)
  ctx_live x ctx hx := by
    obtain ⟨k, kcp, hlive⟩ := hp.ctx_live x ctx (h.ctxs ▸ hx)
    exact ⟨k, kcp, h.live.mpr hlive⟩
  kcp_live k kcp hk := by
    rw [h.ctxs]
    exact hp.kcp_live k kcp (h.kcps ▸ hk)
  map_kcp c k hc := by
    rw [h.kcps]
    exact hp.map_kcp c k (h.kcpMap ▸ hc)

theorem timersOwned (h : Grown p p') (hp : TimersOwned p) : TimersOwned p' := by
  intro t timer ht
  rw [h.ctxs]
  exact hp t timer (h.timers ▸ ht)

theorem listed (h : Grown p p') {x : Ptr} : Listed p' x ↔ Listed p x := by
  simp only [Listed, h.live, h.kcpMap]

end Grown

/-! ## Opening a session -/

theorem ne_add_of_lt {a b : ℕ} (h : a < b) (n : ℕ) : a ≠ b + n := by omega

theorem ne_add_of_le {a b m : ℕ} (h : b + m ≤ a) (n : ℕ) (hn : n < m) : a ≠ b + n := by omega

/-- The context a successful constructor leaves. -/
def openCtx (p : Proc) (addr : SockAddr) : KcpContext where
  addr := addr
  updateTimer := some (p.brk + 2)
  kcp := some (p.brk + 1)

/-- The process after a successful constructor. -/
def opened (p : Proc) (addr : SockAddr) (conv : UInt32) : Proc :=
  { p with
    brk := p.brk + 3
    ctxs := Function.update p.ctxs p.brk (some (p.openCtx addr))
    kcps := Function.update p.kcps (p.brk + 1) (some (configuredKcp conv p.brk))
    timers := p.timers.insert (p.brk + 2) ⟨.updateTimerCb, p.brk⟩ }

theorem newKcpContext_of_createOk (p : Proc) {env : Env} (h : env.CreateOk) (addr : SockAddr)
    (conv : UInt32) : p.newKcpContext env addr conv = (p.opened addr conv, p.brk) := by
  simp [newKcpContext, h.1, h.2, createTimer, setKcp, setCtx, opened, openCtx]

section Opened

variable {p : Proc} {addr : SockAddr} {conv : UInt32}

theorem live_opened_self : Live (p.opened addr conv) p.brk (p.openCtx addr) (p.brk + 1)
    (configuredKcp conv p.brk) where
  ctx_at := Function.update_self _ _ _
  kcp_eq := rfl
  kcp_at := Function.update_self _ _ _
  user_eq := rfl
  timed h := nomatch h
  timers cb t ht := by
    cases cb with
    | updateTimerCb =>
      cases ht
      exact AList.lookup_insert _
    | sendTimerCb => cases ht
  session := .init rfl

theorem Live.opened (hp : Sound p) {x k : Ptr} {ctx : KcpContext} {kcp : Ikcpcb}
    (h : Live p x ctx k kcp) : Live (p.opened addr conv) x ctx k kcp := by
  have hx := ne_add_of_lt (hp.ctx_lt h.ctx_at) 0
  have hk := ne_add_of_lt (hp.kcp_lt h.kcp_at) 1
  exact h.frame (Function.update_of_ne hx _ _) (Function.update_of_ne hk _ _)
    fun cb t ht ↦ AList.lookup_insert_ne (ne_add_of_lt (hp.timer_lt (h.timers cb t ht)) 2)

theorem Sound.opened (hp : Sound p) (addr : SockAddr) (conv : UInt32) :
    Sound (p.opened addr conv) where
  ctx_fresh x hx := (Function.update_of_ne (ne_add_of_le hx 0 (by decide)) _ _).trans
    (hp.ctx_fresh x ((Nat.le_add_right _ 3).trans hx))
  kcp_fresh k hk := (Function.update_of_ne (ne_add_of_le hk 1 (by decide)) _ _).trans
    (hp.kcp_fresh k ((Nat.le_add_right _ 3).trans hk))
  timer_fresh t ht := (AList.lookup_insert_ne (ne_add_of_le ht 2 (by decide))).trans
    (hp.timer_fresh t ((Nat.le_add_right _ 3).trans ht))
  ctx_live x ctx hx := by
    rcases eq_or_ne x p.brk with rfl | hne
    · obtain rfl : p.openCtx addr = ctx :=
        Option.some.inj ((Function.update_self p.brk _ p.ctxs).symm.trans hx)
      exact ⟨_, _, live_opened_self⟩
    · obtain ⟨k, kcp, hlive⟩ := hp.ctx_live x ctx ((Function.update_of_ne hne _ _).symm.trans hx)
      exact ⟨k, kcp, hlive.opened hp⟩
  kcp_live k kcp hk := by
    rcases eq_or_ne k (p.brk + 1) with rfl | hne
    · obtain rfl : configuredKcp conv p.brk = kcp :=
        Option.some.inj ((Function.update_self (p.brk + 1) _ p.kcps).symm.trans hk)
      exact ⟨p.openCtx addr, Function.update_self _ _ _, rfl⟩
    · obtain ⟨ctx, hlive⟩ := hp.live_of_kcp ((Function.update_of_ne hne _ _).symm.trans hk)
      exact ⟨ctx, (hlive.opened hp).ctx_at, hlive.kcp_eq⟩
  map_kcp c k hc := by
    obtain ⟨kcp, hk, hconv⟩ := hp.map_kcp c k hc
    have hne := ne_add_of_lt (hp.kcp_lt hk) 1
    exact ⟨kcp, (Function.update_of_ne hne _ _).trans hk, hconv⟩

theorem TimersOwned.opened (h : TimersOwned p) (hp : Sound p) (addr : SockAddr) (conv : UInt32) :
    TimersOwned (p.opened addr conv) := by
  intro t timer ht
  rcases eq_or_ne t (p.brk + 2) with rfl | hne
  · obtain rfl : ⟨.updateTimerCb, p.brk⟩ = timer :=
      Option.some.inj ((AList.lookup_insert p.timers).symm.trans ht)
    exact ⟨p.openCtx addr, Function.update_self _ _ _, rfl⟩
  · obtain ⟨ctx, hx, hcb⟩ := h t timer ((AList.lookup_insert_ne hne).symm.trans ht)
    have hlt := ne_add_of_lt (hp.ctx_lt hx) 0
    exact ⟨ctx, (Function.update_of_ne hlt _ _).trans hx, hcb⟩

end Opened

/-- A constructor that ran out of memory leaves nothing once its context is deleted. -/
theorem newKcpContext_of_not_createOk {p : Proc} (hp : Sound p) {env : Env} (h : ¬env.CreateOk)
    (addr : SockAddr) (conv : UInt32) :
    ∃ p' ctx p'', p.newKcpContext env addr conv = (p', p.brk) ∧ p'.ctxs p.brk = some ctx ∧
      (ctx.kcp = none ∨ ctx.updateTimer = none) ∧
      (p'.use (.ctx p.brk)).deleteCtx p.brk = some p'' ∧ Grown p p'' ∧ p''.sConv = p.sConv ∧
      p''.outbox = p.outbox := by
  have hx : Function.update p.ctxs p.brk none = p.ctxs :=
    Function.update_eq_self_iff.mpr (hp.ctx_fresh p.brk le_rfl).symm
  have hk : Function.update p.kcps (p.brk + 1) none = p.kcps :=
    Function.update_eq_self_iff.mpr (hp.kcp_fresh (p.brk + 1) (Nat.le_succ _)).symm
  -- no control block, or one without an update timer; the destructor takes back what there is
  cases hkcp : env.kcpAlloc with
  | false =>
    have hnew : p.newKcpContext env addr conv =
        ({ p with brk := p.brk + 1 }.setCtx p.brk { addr := addr }, p.brk) := by
      simp [newKcpContext, hkcp]
    obtain ⟨trace, hdel⟩ : ∃ trace,
        (({ p with brk := p.brk + 1 }.setCtx p.brk { addr := addr }).use (.ctx p.brk)).deleteCtx
          p.brk = some { p with brk := p.brk + 1, trace := trace } :=
      ⟨_, by simp [deleteCtx, closeUpdateTimer, closeSendTimer, readCtx, setCtx, use, freeCtx,
        finish, hx]; rfl⟩
    exact ⟨_, _, _, hnew, Function.update_self _ _ _, .inl rfl, hdel,
      ⟨rfl, rfl, rfl, rfl, Nat.le_succ _⟩, rfl, rfl⟩
  | true =>
    have htimer : env.updateTimerAlloc = false := by
      by_contra hne
      exact h ⟨hkcp, by simpa using hne⟩
    set p₁ : Proc := { p with brk := p.brk + 2 }.setKcp (p.brk + 1) (configuredKcp conv p.brk)
    have hnew : p.newKcpContext env addr conv =
        (p₁.setCtx p.brk { addr := addr, kcp := some (p.brk + 1) }, p.brk) := by
      simp [newKcpContext, hkcp, htimer, p₁]
    obtain ⟨trace, hdel⟩ : ∃ trace,
        ((p₁.setCtx p.brk { addr := addr, kcp := some (p.brk + 1) }).use (.ctx p.brk)).deleteCtx
          p.brk = some { p with brk := p.brk + 2, trace := trace } :=
      ⟨_, by simp [deleteCtx, closeUpdateTimer, closeSendTimer, readCtx, readKcp, setCtx, setKcp,
        use, freeCtx, finish, ikcpRelease, hx, hk, p₁]; rfl⟩
    exact ⟨_, _, _, hnew, Function.update_self _ _ _, .inr rfl, hdel,
      ⟨rfl, rfl, rfl, rfl, Nat.le_add_right _ 2⟩, rfl, rfl⟩

/-! ## Entering a session in the table -/

section Emplace

variable {p : Proc} {conv : UInt32} {k : Ptr}

theorem emplace_of_mem (h : conv ∈ p.kcpMap) (k : Ptr) : p.emplace conv k = p := if_pos h

theorem emplace_of_notMem (h : conv ∉ p.kcpMap) (k : Ptr) :
    p.emplace conv k = { p with kcpMap := p.kcpMap.insert conv k } := if_neg h

theorem emplace_frame (p : Proc) (conv : UInt32) (k : Ptr) :
    (p.emplace conv k).ctxs = p.ctxs ∧ (p.emplace conv k).kcps = p.kcps ∧
      (p.emplace conv k).timers = p.timers ∧ (p.emplace conv k).brk = p.brk := by
  unfold emplace
  split <;> exact ⟨rfl, rfl, rfl, rfl⟩

theorem outbox_emplace (p : Proc) (conv : UInt32) (k : Ptr) :
    (p.emplace conv k).outbox = p.outbox := by
  unfold emplace
  split <;> rfl

theorem Grown.emplace {p' : Proc} (h : Grown p p') (conv : UInt32) (k : Ptr) :
    Grown (p.emplace conv k) (p'.emplace conv k) := by
  obtain ⟨hctxs, hkcps, htimers, hbrk⟩ := emplace_frame p conv k
  obtain ⟨hctxs', hkcps', htimers', hbrk'⟩ := emplace_frame p' conv k
  refine ⟨hctxs'.trans (h.ctxs.trans hctxs.symm), hkcps'.trans (h.kcps.trans hkcps.symm),
    htimers'.trans (h.timers.trans htimers.symm), ?_, by rw [hbrk, hbrk']; exact h.brk⟩
  by_cases hmem : conv ∈ p.kcpMap
  · have hmem' : conv ∈ p'.kcpMap := h.kcpMap ▸ hmem
    rw [emplace_of_mem hmem, emplace_of_mem hmem']
    exact h.kcpMap
  · have hmem' : conv ∉ p'.kcpMap := h.kcpMap ▸ hmem
    rw [emplace_of_notMem hmem, emplace_of_notMem hmem']
    dsimp only
    rw [h.kcpMap]

/-- Entries that were there stay. -/
theorem lookup_emplace_of_some {c : UInt32} {k' : Ptr} (h : p.kcpMap.lookup c = some k') :
    (p.emplace conv k).kcpMap.lookup c = some k' := by
  by_cases hmem : conv ∈ p.kcpMap
  · rw [emplace_of_mem hmem, h]
  · rw [emplace_of_notMem hmem]
    have hne : c ≠ conv := by
      rintro rfl
      exact hmem (AList.lookup_isSome.mp (by rw [h]; rfl))
    exact (AList.lookup_insert_ne hne).trans h

theorem lookup_emplace_self (h : conv ∉ p.kcpMap) :
    (p.emplace conv k).kcpMap.lookup conv = some k := by
  rw [emplace_of_notMem h]
  exact AList.lookup_insert _

theorem live_emplace {x k' : Ptr} {ctx : KcpContext} {kcp : Ikcpcb} :
    Live (p.emplace conv k) x ctx k' kcp ↔ Live p x ctx k' kcp := by
  obtain ⟨hctxs, hkcps, htimers, -⟩ := emplace_frame p conv k
  exact ⟨fun h ↦ h.frame (by rw [hctxs]) (by rw [hkcps]) (fun _ _ _ ↦ by rw [htimers]),
    fun h ↦ h.frame (by rw [hctxs]) (by rw [hkcps]) (fun _ _ _ ↦ by rw [htimers])⟩

theorem Sound.emplace (hp : Sound p) {kcp : Ikcpcb} (hk : p.kcps k = some kcp)
    (hconv : kcp.conv = conv) : Sound (p.emplace conv k) := by
  obtain ⟨hctxs, hkcps, htimers, hbrk⟩ := emplace_frame p conv k
  refine ⟨?_, ?_, ?_, ?_, ?_, ?_⟩
  · rw [hctxs, hbrk]
    exact hp.ctx_fresh
  · rw [hkcps, hbrk]
    exact hp.kcp_fresh
  · rw [htimers, hbrk]
    exact hp.timer_fresh
  · simp only [hctxs, live_emplace]
    exact hp.ctx_live
  · rw [hctxs, hkcps]
    exact hp.kcp_live
  · intro c k' hc
    rw [hkcps]
    by_cases hmem : conv ∈ p.kcpMap
    · rw [emplace_of_mem hmem] at hc
      exact hp.map_kcp c k' hc
    · rw [emplace_of_notMem hmem] at hc
      rcases eq_or_ne c conv with rfl | hne
      · obtain rfl : k = k' := Option.some.inj ((AList.lookup_insert p.kcpMap).symm.trans hc)
        exact ⟨kcp, hk, hconv⟩
      · exact hp.map_kcp c k' ((AList.lookup_insert_ne hne).symm.trans hc)

theorem TimersOwned.emplace (h : TimersOwned p) : TimersOwned (p.emplace conv k) := by
  obtain ⟨hctxs, -, htimers, -⟩ := emplace_frame p conv k
  rw [TimersOwned, hctxs, htimers]
  exact h

theorem Listed.emplace {x : Ptr} (h : Listed p x) : Listed (p.emplace conv k) x := by
  obtain ⟨ctx, k', kcp, hlive, hmap⟩ := h
  exact ⟨ctx, k', kcp, live_emplace.mpr hlive, lookup_emplace_of_some hmap⟩

end Emplace

/-! ## Using a session -/

/-- The process after session `x` has run: its context and its control block have moved on. -/
def used (p : Proc) (x : Ptr) (ctx : KcpContext) (k : Ptr) (kcp : Ikcpcb) : Proc :=
  { p with
    ctxs := Function.update p.ctxs x (some ctx)
    kcps := Function.update p.kcps k (some kcp) }

/-- What a use may do to the two objects. -/
structure Moved (ctx ctx' : KcpContext) (kcp kcp' : Ikcpcb) : Prop where
  kcp_eq : ctx'.kcp = ctx.kcp
  timer_eq : ∀ cb, ctx'.timer cb = ctx.timer cb
  evolves : Evolves kcp kcp'

section Used

variable {p : Proc} {x k : Ptr} {ctx ctx' : KcpContext} {kcp kcp' : Ikcpcb}

theorem Moved.conv_eq (h : Moved ctx ctx' kcp kcp') : kcp'.conv = kcp.conv := h.evolves.conv_eq

theorem Moved.of_evolves (ctx : KcpContext) (h : Evolves kcp kcp') : Moved ctx ctx kcp kcp' :=
  ⟨rfl, fun _ ↦ rfl, h⟩

theorem Live.used_self (h : Live p x ctx k kcp) (hm : Moved ctx ctx' kcp kcp') :
    Live (p.used x ctx' k kcp') x ctx' k kcp' where
  ctx_at := Function.update_self _ _ _
  kcp_eq := hm.kcp_eq.trans h.kcp_eq
  kcp_at := Function.update_self _ _ _
  user_eq := hm.evolves.user_eq.trans h.user_eq
  timed := by
    have := hm.timer_eq .updateTimerCb
    exact fun hnone ↦ h.timed (this.symm.trans hnone)
  timers cb t ht := h.timers cb t ((hm.timer_eq cb).symm.trans ht)
  session := by
    rw [hm.conv_eq]
    exact hm.evolves.session h.session

theorem Live.used_of_ne (h : Live p x ctx k kcp) {x' k' : Ptr} {ctx₁ : KcpContext} {kcp₁ : Ikcpcb}
    (h' : Live p x' ctx₁ k' kcp₁) (hne : x' ≠ x) :
    Live (p.used x ctx' k kcp') x' ctx₁ k' kcp₁ := by
  refine h'.frame (Function.update_of_ne hne _ _) (Function.update_of_ne ?_ _ _) fun _ _ _ ↦ rfl
  rintro rfl
  exact hne (h'.ctx_eq h)

theorem Sound.used (hp : Sound p) (h : Live p x ctx k kcp) (hm : Moved ctx ctx' kcp kcp') :
    Sound (p.used x ctx' k kcp') where
  ctx_fresh y hy := by
    have hne : y ≠ x := (lt_of_lt_of_le (hp.ctx_lt h.ctx_at) hy).ne'
    exact (Function.update_of_ne hne _ _).trans (hp.ctx_fresh y hy)
  kcp_fresh j hj := by
    have hne : j ≠ k := (lt_of_lt_of_le (hp.kcp_lt h.kcp_at) hj).ne'
    exact (Function.update_of_ne hne _ _).trans (hp.kcp_fresh j hj)
  timer_fresh := hp.timer_fresh
  ctx_live y ctx₁ hy := by
    rcases eq_or_ne y x with rfl | hne
    · obtain rfl : ctx' = ctx₁ := Option.some.inj ((Function.update_self y _ p.ctxs).symm.trans hy)
      exact ⟨k, kcp', h.used_self hm⟩
    · obtain ⟨j, kcp₁, hlive⟩ := hp.ctx_live y ctx₁ ((Function.update_of_ne hne _ _).symm.trans hy)
      exact ⟨j, kcp₁, h.used_of_ne hlive hne⟩
  kcp_live j kcp₁ hj := by
    rcases eq_or_ne j k with rfl | hne
    · obtain rfl : kcp' = kcp₁ := Option.some.inj ((Function.update_self j _ p.kcps).symm.trans hj)
      have hself := h.used_self hm
      exact ⟨ctx', by rw [hself.user_eq]; exact hself.ctx_at, hself.kcp_eq⟩
    · obtain ⟨ctx₁, hlive⟩ := hp.live_of_kcp ((Function.update_of_ne hne _ _).symm.trans hj)
      have hx : kcp₁.user ≠ x := by
        intro heq
        rw [heq] at hlive
        exact hne (h.unique hlive).2.1
      exact ⟨ctx₁, (h.used_of_ne hlive hx).ctx_at, hlive.kcp_eq⟩
  map_kcp c j hc := by
    obtain ⟨kcp₁, hj, hconv⟩ := hp.map_kcp c j hc
    rcases eq_or_ne j k with rfl | hne
    · obtain rfl : kcp = kcp₁ := Option.some.inj (h.kcp_at.symm.trans hj)
      exact ⟨kcp', Function.update_self _ _ _, hm.conv_eq.trans hconv⟩
    · exact ⟨kcp₁, (Function.update_of_ne hne _ _).trans hj, hconv⟩

theorem TimersOwned.used (ho : TimersOwned p) (h : Live p x ctx k kcp)
    (hm : Moved ctx ctx' kcp kcp') : TimersOwned (p.used x ctx' k kcp') := by
  intro t timer ht
  obtain ⟨ctx₁, hx, hcb⟩ := ho t timer ht
  rcases eq_or_ne timer.data x with heq | hne
  · rw [heq] at hx ⊢
    obtain rfl : ctx = ctx₁ := Option.some.inj (h.ctx_at.symm.trans hx)
    exact ⟨ctx', Function.update_self _ _ _, (hm.timer_eq _).trans hcb⟩
  · exact ⟨ctx₁, (Function.update_of_ne hne _ _).trans hx, hcb⟩

theorem Listed.used {y : Ptr} (hl : Listed p y) (h : Live p x ctx k kcp)
    (hm : Moved ctx ctx' kcp kcp') : Listed (p.used x ctx' k kcp') y := by
  obtain ⟨ctx₁, j, kcp₁, hlive, hmap⟩ := hl
  rcases eq_or_ne y x with rfl | hne
  · obtain ⟨rfl, rfl, rfl⟩ := h.unique hlive
    exact ⟨ctx', j, kcp', h.used_self hm, by rw [hm.conv_eq]; exact hmap⟩
  · exact ⟨ctx₁, j, kcp₁, h.used_of_ne hlive hne, hmap⟩

end Used

/-! ## Starting to send -/

/-- The process after a context got its send timer. -/
def started (p : Proc) (x : Ptr) (ctx : KcpContext) : Proc :=
  { p with
    brk := p.brk + 1
    ctxs := Function.update p.ctxs x (some { ctx with sendTimer := some p.brk })
    timers := p.timers.insert p.brk ⟨.sendTimerCb, x⟩ }

section Started

variable {p : Proc} {x k : Ptr} {ctx : KcpContext} {kcp : Ikcpcb}

theorem Sound.lookup_started (hp : Sound p) {t : Ptr} {timer : UvTimer}
    (ht : p.timers.lookup t = some timer) : (p.started x ctx).timers.lookup t = some timer :=
  (AList.lookup_insert_ne (ne_add_of_lt (hp.timer_lt ht) 0)).trans ht

theorem Live.started_self (h : Live p x ctx k kcp) (hp : Sound p) :
    Live (p.started x ctx) x { ctx with sendTimer := some p.brk } k kcp where
  ctx_at := Function.update_self _ _ _
  kcp_eq := h.kcp_eq
  kcp_at := h.kcp_at
  user_eq := h.user_eq
  timed := h.timed
  timers cb t ht := by
    cases cb with
    | updateTimerCb => exact hp.lookup_started (h.timers .updateTimerCb t ht)
    | sendTimerCb =>
      cases ht
      exact AList.lookup_insert _
  session := h.session

theorem Live.started_of_ne (hp : Sound p) {x' k' : Ptr} {ctx₁ : KcpContext} {kcp₁ : Ikcpcb}
    (h' : Live p x' ctx₁ k' kcp₁) (hne : x' ≠ x) : Live (p.started x ctx) x' ctx₁ k' kcp₁ :=
  h'.frame (Function.update_of_ne hne _ _) rfl fun cb t ht ↦ by
    rw [hp.lookup_started (h'.timers cb t ht), h'.timers cb t ht]

theorem Sound.started (hp : Sound p) (h : Live p x ctx k kcp) : Sound (p.started x ctx) where
  ctx_fresh y hy := by
    have hlt := (hp.ctx_lt h.ctx_at).trans_le ((Nat.le_succ _).trans hy)
    exact (Function.update_of_ne hlt.ne' _ _).trans (hp.ctx_fresh y ((Nat.le_succ _).trans hy))
  kcp_fresh j hj := hp.kcp_fresh j ((Nat.le_succ _).trans hj)
  timer_fresh t ht := (AList.lookup_insert_ne (ne_add_of_le ht 0 Nat.one_pos)).trans
    (hp.timer_fresh t ((Nat.le_succ _).trans ht))
  ctx_live y ctx₁ hy := by
    rcases eq_or_ne y x with rfl | hne
    · obtain rfl : { ctx with sendTimer := some p.brk } = ctx₁ :=
        Option.some.inj ((Function.update_self y _ p.ctxs).symm.trans hy)
      exact ⟨k, kcp, h.started_self hp⟩
    · obtain ⟨j, kcp₁, hlive⟩ := hp.ctx_live y ctx₁ ((Function.update_of_ne hne _ _).symm.trans hy)
      exact ⟨j, kcp₁, hlive.started_of_ne hp hne⟩
  kcp_live j kcp₁ hj := by
    obtain ⟨ctx₁, hlive⟩ := hp.live_of_kcp hj
    rcases eq_or_ne kcp₁.user x with heq | hne
    · rw [heq] at hlive ⊢
      exact ⟨_, Function.update_self _ _ _, (h.unique hlive).1 ▸ hlive.kcp_eq⟩
    · exact ⟨ctx₁, (hlive.started_of_ne hp hne).ctx_at, hlive.kcp_eq⟩
  map_kcp := hp.map_kcp

theorem TimersOwned.started (ho : TimersOwned p) (h : Live p x ctx k kcp)
    (hsend : ctx.sendTimer = none) : TimersOwned (p.started x ctx) := by
  intro t timer ht
  rcases eq_or_ne t p.brk with rfl | hne
  · obtain rfl : ⟨.sendTimerCb, x⟩ = timer :=
      Option.some.inj ((AList.lookup_insert p.timers).symm.trans ht)
    exact ⟨_, Function.update_self _ _ _, rfl⟩
  · obtain ⟨ctx₁, hx, hcb⟩ := ho t timer ((AList.lookup_insert_ne hne).symm.trans ht)
    rcases eq_or_ne timer.data x with heq | hnx
    · rw [heq] at hx ⊢
      obtain rfl : ctx = ctx₁ := Option.some.inj (h.ctx_at.symm.trans hx)
      refine ⟨_, Function.update_self _ _ _, ?_⟩
      obtain ⟨cb, data⟩ := timer
      cases cb with
      | updateTimerCb => exact hcb
      | sendTimerCb => exact nomatch hsend.symm.trans hcb
    · exact ⟨ctx₁, (Function.update_of_ne hnx _ _).trans hx, hcb⟩

end Started

/-! ## Ending a session -/

/-- Session `x` and its entry `c` are gone; at most timers of `x` were closed. -/
structure Removed (p p' : Proc) (c : UInt32) (x : Ptr) (ctx : KcpContext) (k : Ptr) : Prop where
  ctxs : p'.ctxs = Function.update p.ctxs x none
  kcps : p'.kcps = Function.update p.kcps k none
  kcpMap : p'.kcpMap = p.kcpMap.erase c
  brk : p'.brk = p.brk
  timers : ∀ t, p'.timers.lookup t = p.timers.lookup t ∨
    (p'.timers.lookup t = none ∧ ∃ cb, ctx.timer cb = some t)

section Removed

variable {p p' : Proc} {c : UInt32} {x k : Ptr} {ctx : KcpContext} {kcp : Ikcpcb}

theorem Removed.live (hr : Removed p p' c x ctx k) (h : Live p x ctx k kcp) {x' k' : Ptr}
    {ctx₁ : KcpContext} {kcp₁ : Ikcpcb} (h' : Live p x' ctx₁ k' kcp₁) (hne : x' ≠ x) :
    Live p' x' ctx₁ k' kcp₁ := by
  have hk : k' ≠ k := by
    rintro rfl
    exact hne (h'.ctx_eq h)
  refine h'.frame (by rw [hr.ctxs, Function.update_of_ne hne])
    (by rw [hr.kcps, Function.update_of_ne hk]) ?_
  intro cb t ht
  rcases hr.timers t with heq | ⟨-, cb', hcb'⟩
  · exact heq
  · exact absurd hcb' (h.timer_ne h' hne.symm ht cb')

theorem Removed.sound (hr : Removed p p' c x ctx k) (hp : Sound p) (h : Live p x ctx k kcp)
    (hc : p.kcpMap.lookup c = some k) : Sound p' where
  ctx_fresh y hy := by
    rw [hr.ctxs]
    rcases eq_or_ne y x with rfl | hne
    · exact Function.update_self _ _ _
    · exact (Function.update_of_ne hne _ _).trans (hp.ctx_fresh y (hr.brk ▸ hy))
  kcp_fresh j hj := by
    rw [hr.kcps]
    rcases eq_or_ne j k with rfl | hne
    · exact Function.update_self _ _ _
    · exact (Function.update_of_ne hne _ _).trans (hp.kcp_fresh j (hr.brk ▸ hj))
  timer_fresh t ht := by
    rcases hr.timers t with heq | ⟨hnone, -⟩
    · exact heq.trans (hp.timer_fresh t (hr.brk ▸ ht))
    · exact hnone
  ctx_live y ctx₁ hy := by
    rw [hr.ctxs] at hy
    rcases eq_or_ne y x with rfl | hne
    · exact nomatch (Function.update_self y _ p.ctxs).symm.trans hy
    · obtain ⟨j, kcp₁, hlive⟩ := hp.ctx_live y ctx₁ ((Function.update_of_ne hne _ _).symm.trans hy)
      exact ⟨j, kcp₁, hr.live h hlive hne⟩
  kcp_live j kcp₁ hj := by
    rw [hr.kcps] at hj
    rcases eq_or_ne j k with rfl | hne
    · exact nomatch (Function.update_self j _ p.kcps).symm.trans hj
    · obtain ⟨ctx₁, hlive⟩ := hp.live_of_kcp ((Function.update_of_ne hne _ _).symm.trans hj)
      have hx : kcp₁.user ≠ x := by
        intro heq
        rw [heq] at hlive
        exact hne (h.unique hlive).2.1
      exact ⟨ctx₁, (hr.live h hlive hx).ctx_at, hlive.kcp_eq⟩
  map_kcp c' j hj := by
    rw [hr.kcpMap] at hj
    rcases eq_or_ne c' c with rfl | hne
    · exact nomatch (AList.lookup_erase c' p.kcpMap).symm.trans hj
    · have hj' : p.kcpMap.lookup c' = some j := (AList.lookup_erase_ne hne).symm.trans hj
      obtain ⟨kcp₁, hk₁, hconv⟩ := hp.map_kcp c' j hj'
      -- another number cannot lead to the same control block
      have hjk : j ≠ k := by
        rintro rfl
        exact hne (hp.entry_inj hj' hc)
      exact ⟨kcp₁, by rw [hr.kcps, Function.update_of_ne hjk, hk₁], hconv⟩

theorem Removed.listed (hr : Removed p p' c x ctx k) (h : Live p x ctx k kcp)
    (hc : p.kcpMap.lookup c = some k) {y : Ptr} (hl : Listed p y) (hne : y ≠ x) : Listed p' y := by
  obtain ⟨ctx₁, j, kcp₁, hlive, hmap⟩ := hl
  refine ⟨ctx₁, j, kcp₁, hr.live h hlive hne, ?_⟩
  have hconv : kcp₁.conv ≠ c := by
    intro heq
    rw [heq, hc] at hmap
    cases hmap
    exact hne (hlive.ctx_eq h)
  rw [hr.kcpMap, AList.lookup_erase_ne hconv, hmap]

end Removed

/-- The process after session `x` has been deleted and its entry erased. -/
def ended (p : Proc) (c : UInt32) (x : Ptr) (ctx : KcpContext) (k : Ptr) : Proc :=
  (p.deleted x ctx k).eraseEntry c

section Ended

variable {p : Proc} {c : UInt32} {x k : Ptr} {ctx : KcpContext} {kcp : Ikcpcb}

theorem removed_ended : Removed p (p.ended c x ctx k) c x ctx k where
  ctxs := rfl
  kcps := rfl
  kcpMap := rfl
  brk := rfl
  timers t := by
    by_cases hcb : ∃ cb, ctx.timer cb = some t
    · exact .inr ⟨lookup_closedTimers_self hcb.choose_spec, hcb⟩
    · exact .inl (lookup_closedTimers_of_ne fun cb h ↦ hcb ⟨cb, h⟩)

theorem TimersOwned.ended (ho : TimersOwned p) (h : Live p x ctx k kcp) :
    TimersOwned (p.ended c x ctx k) := by
  intro t timer ht
  have hother : ∀ cb, ctx.timer cb ≠ some t := fun cb hcb ↦
    nomatch (lookup_closedTimers_self hcb).symm.trans ht
  obtain ⟨ctx₁, hx, hcb⟩ := ho t timer ((lookup_closedTimers_of_ne hother).symm.trans ht)
  have hne : timer.data ≠ x := by
    intro heq
    rw [heq, h.ctx_at] at hx
    obtain rfl : ctx = ctx₁ := Option.some.inj hx
    exact hother _ hcb
  exact ⟨ctx₁, (Function.update_of_ne hne _ _).trans hx, hcb⟩

end Ended

end Proc
end KcpEcho
