import KcpEcho.Process.Shutdown
import KcpEcho.Table.ClientTable
import KcpEcho.Table.ServerTable

/-!
# Ending a session

The teardown sequences of the two programs, held against one law: a FIN, a datagram `ikcp_input`
refuses, a timeout, and the loops at the end of `main`. Every path but the refused datagram is
shown to account for the objects it touches (`Accounted`): what it ends it ends once, and it uses
nothing it has ended. The law is read off that, and off what the path leaves in the table.
-/

namespace KcpEcho

open Lifetime

/-- A context whose timers have been closed. -/
def KcpContext.bare (ctx : KcpContext) : KcpContext :=
  { ctx with updateTimer := none, sendTimer := none }

theorem KcpContext.timer_bare (ctx : KcpContext) (cb : TimerCb) : ctx.bare.timer cb = none := by
  cases cb <;> rfl

namespace Proc

/-! ## Live objects -/

/-- What is live in a process. -/
def Has (p : Proc) : Obj → Prop
  | .ctx x => p.ctxs x ≠ none
  | .kcp k => p.kcps k ≠ none
  | .timer t => t ∈ p.timers
  | .entry conv => conv ∈ p.kcpMap

/-- The live objects. -/
def objects (p : Proc) : Set Obj := {o | p.Has o}

/-- From `p` to `p'` the objects are accounted for by the events in between. -/
def Accounted (p p' : Proc) : Prop :=
  ∃ events, p'.trace = p.trace ++ events ∧ Accounts p.objects events p'.objects

namespace Accounted

variable {p p' p'' : Proc}

theorem trans (h : Accounted p p') (h' : Accounted p' p'') : Accounted p p'' := by
  obtain ⟨events, htrace, hacc⟩ := h
  obtain ⟨events', htrace', hacc'⟩ := h'
  exact ⟨events ++ events', by rw [htrace', htrace, List.append_assoc], hacc.append hacc'⟩

/-- A step that ends nothing and uses what is live. -/
theorem of_uses {os : List Obj} (htrace : p'.trace = p.trace ++ os.map .use)
    (hsame : p'.objects = p.objects) (h : ∀ o ∈ os, p.Has o) : Accounted p p' :=
  ⟨_, htrace, (Accounts.uses h).congr_right hsame.symm⟩

theorem of_same (htrace : p'.trace = p.trace) (hsame : p'.objects = p.objects) :
    Accounted p p' := by
  have hnil : p'.trace = p.trace ++ ([] : List Obj).map .use := by
    rw [htrace, List.map_nil, List.append_nil]
  exact of_uses hnil hsame fun _ h ↦ absurd h List.not_mem_nil

theorem refl (p : Proc) : Accounted p p := of_same rfl rfl

theorem uses {os : List Obj} (h : ∀ o ∈ os, p.Has o) : Accounted p (p.uses os) :=
  of_uses rfl rfl h

end Accounted

theorem objects_used {p : Proc} {x k : Ptr} {ctx ctx' : KcpContext} {kcp kcp' : Ikcpcb}
    (h : Live p x ctx k kcp) : (p.used x ctx' k kcp').objects = p.objects := by
  ext o
  cases o with
  | ctx y =>
    change Function.update p.ctxs x (some ctx') y ≠ none ↔ p.ctxs y ≠ none
    rcases eq_or_ne y x with rfl | hne
    · rw [Function.update_self, h.ctx_at]
      simp
    · rw [Function.update_of_ne hne]
  | kcp j =>
    change Function.update p.kcps k (some kcp') j ≠ none ↔ p.kcps j ≠ none
    rcases eq_or_ne j k with rfl | hne
    · rw [Function.update_self, h.kcp_at]
      simp
    · rw [Function.update_of_ne hne]
  | timer t => exact Iff.rfl
  | entry conv => exact Iff.rfl

/-! ## The destructor -/

theorem accounts_closeTrace {S : Set Obj} {x : Ptr} {o : Option Ptr} (hx : .ctx x ∈ S)
    (ho : ∀ t, o = some t → .timer t ∈ S) :
    Accounts S (closeTrace x o) (S \ {u | ∃ t, o = some t ∧ u = .timer t}) := by
  cases o with
  | none => exact (Accounts.use hx).congr_right (by ext u; simp)
  | some t =>
    apply ((Accounts.use hx).append (Accounts.finish (ho t rfl))).congr_right
    ext u
    simp

/-- What a context hands to its destructor. -/
structure Deletable (p : Proc) (x : Ptr) (ctx : KcpContext) (k : Ptr) : Prop where
  ctx_at : p.ctxs x = some ctx
  kcp_eq : ctx.kcp = some k
  kcp_at : p.kcps k ≠ none
  timers : TimersAt p x ctx

theorem Live.deletable {p : Proc} {x k : Ptr} {ctx : KcpContext} {kcp : Ikcpcb}
    (h : Live p x ctx k kcp) : Deletable p x ctx k :=
  ⟨h.ctx_at, h.kcp_eq, by rw [h.kcp_at]; exact Option.some_ne_none kcp, h.timers⟩

theorem mem_eraseTimer {timers : AList fun _ : Ptr ↦ UvTimer} {o : Option Ptr} {t : Ptr} :
    t ∈ eraseTimer timers o ↔ t ∈ timers ∧ o ≠ some t := by
  cases o with
  | none => simp [eraseTimer]
  | some s =>
    rw [eraseTimer, AList.mem_erase, and_comm, ne_eq, ne_eq, Option.some.injEq, @eq_comm _ s t]

theorem mem_closedTimers {p : Proc} {ctx : KcpContext} {t : Ptr} :
    t ∈ closedTimers p ctx ↔ t ∈ p.timers ∧ ∀ cb, ctx.timer cb ≠ some t := by
  rw [closedTimers, mem_eraseTimer, mem_eraseTimer, and_assoc]
  refine and_congr_right fun _ ↦ ⟨?_, fun h ↦ ⟨h .updateTimerCb, h .sendTimerCb⟩⟩
  rintro ⟨hupdate, hsend⟩ cb
  cases cb
  · exact hupdate
  · exact hsend

/-- What is live once the timers of `ctx` are closed. -/
def closedObjects (p : Proc) (ctx : KcpContext) : Set Obj :=
  {o | p.Has o ∧ ∀ cb t, ctx.timer cb = some t → o ≠ .timer t}

theorem mem_closedObjects {p : Proc} {ctx : KcpContext} {o : Obj} (h : p.Has o)
    (ho : ∀ t, o ≠ .timer t) : o ∈ p.closedObjects ctx := ⟨h, fun _ t _ ↦ ho t⟩

theorem timer_mem_closedObjects {p : Proc} {ctx : KcpContext} {t : Ptr} :
    .timer t ∈ p.closedObjects ctx ↔ t ∈ closedTimers p ctx := by
  rw [mem_closedTimers]
  refine and_congr_right fun _ ↦ ⟨fun h cb hcb ↦ h cb t hcb rfl, ?_⟩
  rintro h cb s hcb heq
  cases heq
  exact h cb hcb

namespace Deletable

variable {p : Proc} {x k : Ptr} {ctx : KcpContext}

theorem has_ctx (h : Deletable p x ctx k) : p.Has (.ctx x) := by
  change p.ctxs x ≠ none
  rw [h.ctx_at]
  exact Option.some_ne_none ctx

/-- `CloseUpdateTimer` and `CloseSendTimer`. -/
theorem accounts_close (h : Deletable p x ctx k) :
    Accounts p.objects (closeTrace x ctx.updateTimer ++ closeTrace x ctx.sendTimer)
      (p.closedObjects ctx) := by
  have hopen : ∀ cb t, ctx.timer cb = some t → Obj.timer t ∈ p.objects := fun cb t ht ↦
    AList.lookup_isSome.mp (by rw [h.timers cb t ht]; rfl)
  have hupdate := accounts_closeTrace h.has_ctx (hopen .updateTimerCb)
  have hsend := @accounts_closeTrace
    (p.objects \ {u | ∃ t, ctx.updateTimer = some t ∧ u = .timer t}) x ctx.sendTimer
    ⟨h.has_ctx, fun ⟨_, _, h⟩ ↦ nomatch h⟩ fun t ht ↦ by
      refine ⟨hopen .sendTimerCb t ht, ?_⟩
      rintro ⟨s, hs, heq⟩
      cases heq
      exact h.timers.update_ne_send ht hs
  apply (hupdate.append hsend).congr_right
  ext o
  constructor
  · rintro ⟨⟨ho, hu⟩, hs⟩
    refine ⟨ho, ?_⟩
    intro cb t ht heq
    cases cb
    · exact hu ⟨t, ht, heq⟩
    · exact hs ⟨t, ht, heq⟩
  · rintro ⟨ho, hall⟩
    exact ⟨⟨ho, fun ⟨t, ht, heq⟩ ↦ hall .updateTimerCb t ht heq⟩,
      fun ⟨t, ht, heq⟩ ↦ hall .sendTimerCb t ht heq⟩

/-- **The destructor accounts for what it ends**: the timers, the control block, the context. -/
theorem accounted (h : Deletable p x ctx k) : Accounted p (p.deleted x ctx k) := by
  have hx : Obj.ctx x ∈ p.closedObjects ctx := mem_closedObjects h.has_ctx fun _ h ↦ nomatch h
  have hk : Obj.kcp k ∈ p.closedObjects ctx := mem_closedObjects h.kcp_at fun _ h ↦ nomatch h
  have hx' : Obj.ctx x ∈ p.closedObjects ctx \ {Obj.kcp k} := ⟨hx, fun h ↦ nomatch h⟩
  have hrest := (Accounts.use hx).append ((Accounts.use hk).append ((Accounts.finish hk).append
    (Accounts.finish hx')))
  refine ⟨deleteTrace x ctx k, rfl, ?_⟩
  rw [deleteTrace, ← List.append_assoc]
  apply (h.accounts_close.append hrest).congr_right
  ext o
  cases o with
  | ctx y =>
    change _ ↔ Function.update p.ctxs x none y ≠ none
    rcases eq_or_ne y x with rfl | hne
    · simp
    · rw [Function.update_of_ne hne]
      simp [closedObjects, Has, hne]
  | kcp j =>
    change _ ↔ Function.update p.kcps k none j ≠ none
    rcases eq_or_ne j k with rfl | hne
    · simp
    · rw [Function.update_of_ne hne]
      simp [closedObjects, Has, hne]
  | timer t =>
    change _ ↔ t ∈ closedTimers p ctx
    rw [← timer_mem_closedObjects]
    simp
  | entry conv => simp [closedObjects, Has, objects, deleted]

end Deletable

theorem accounted_eraseEntry {p : Proc} {conv : UInt32} (h : conv ∈ p.kcpMap) :
    Accounted p (p.eraseEntry conv) := by
  have hmem : Obj.entry conv ∈ p.objects := h
  refine ⟨[.finish (.entry conv)], rfl, (Accounts.finish hmem).congr_right ?_⟩
  ext o
  cases o with
  | entry c => simp [objects, Has, eraseEntry, AList.mem_erase, and_comm]
  | _ => simp [objects, Has, eraseEntry]

theorem Live.accounted_ended {p : Proc} {c : UInt32} {x k : Ptr} {ctx : KcpContext} {kcp : Ikcpcb}
    (h : Live p x ctx k kcp) (hc : c ∈ p.kcpMap) : Accounted p (p.ended c x ctx k) :=
  h.deletable.accounted.trans (accounted_eraseEntry hc)

/-! ## The loops at the end of `main` -/

/-- An entry leads to a context that can be deleted. -/
def Filed (p : Proc) (e : Entry) : Prop :=
  ∃ kcp ctx, p.kcps e.2 = some kcp ∧ Deletable p kcp.user ctx e.2

/-- The context of an entry has no timer left. -/
def Bare (p : Proc) (e : Entry) : Prop :=
  ∀ kcp ctx, p.kcps e.2 = some kcp → p.ctxs kcp.user = some ctx → ∀ cb, ctx.timer cb = none

/-- The process after one round of the first loop. -/
def timersClosed (p : Proc) (e : Entry) (x : Ptr) (ctx : KcpContext) : Proc :=
  { p with
    ctxs := Function.update p.ctxs x (some ctx.bare)
    timers := closedTimers p ctx
    trace := p.trace ++ ([.use (.entry e.1), .use (.kcp e.2)] ++
      (closeTrace x ctx.updateTimer ++ closeTrace x ctx.sendTimer)) }

section Loops

variable {p : Proc} {e : Entry} {kcp : Ikcpcb} {ctx : KcpContext}

theorem ctxs_timersClosed_self {x : Ptr} : (p.timersClosed e x ctx).ctxs x = some ctx.bare :=
  Function.update_self _ _ _

theorem closeTimersLoop_cons (hk : p.kcps e.2 = some kcp) (h : Deletable p kcp.user ctx e.2)
    (rest : List Entry) :
    closeTimersLoop (e :: rest) p = closeTimersLoop rest (p.timersClosed e kcp.user ctx) := by
  obtain ⟨conv, k⟩ := e
  have hupdate : ∀ t, ctx.updateTimer = some t → t ∈ p.timers := fun t ht ↦
    AList.lookup_isSome.mp (by rw [h.timers .updateTimerCb t ht]; rfl)
  have hsend : ∀ t, ctx.sendTimer = some t → t ∈ eraseTimer p.timers ctx.updateTimer := fun t ht ↦
    mem_eraseTimer.mpr ⟨AList.lookup_isSome.mp (by rw [h.timers .sendTimerCb t ht]; rfl),
      h.timers.update_ne_send ht⟩
  have hkcp : (p.uses [.entry conv]).kcps k = some kcp := hk
  have hctx : ((p.uses [.entry conv]).uses [.kcp k]).ctxs kcp.user = some ctx := h.ctx_at
  rw [closeTimersLoop, use_eq_uses, readKcp_eq hkcp, some_bind]
  dsimp only
  rw [closeUpdateTimer_eq hctx hupdate, some_bind,
    closeSendTimer_eq (Function.update_self _ _ _) hsend, some_bind]
  simp [timersClosed, uses, closedTimers, KcpContext.bare]

theorem accounted_timersClosed (hmem : e.1 ∈ p.kcpMap) (h : Deletable p kcp.user ctx e.2) :
    Accounted p (p.timersClosed e kcp.user ctx) := by
  have hentry : Obj.entry e.1 ∈ p.objects := hmem
  have hblock : Obj.kcp e.2 ∈ p.objects := h.kcp_at
  have huses := (Accounts.use hentry).append (Accounts.use hblock)
  refine ⟨_, rfl, (huses.append h.accounts_close).congr_right ?_⟩
  ext o
  cases o with
  | ctx y =>
    change _ ↔ Function.update p.ctxs kcp.user (some ctx.bare) y ≠ none
    rcases eq_or_ne y kcp.user with rfl | hne
    · simp [closedObjects, Has, h.ctx_at]
    · rw [Function.update_of_ne hne]
      simp [closedObjects, Has]
  | kcp j => simp [closedObjects, Has, objects, timersClosed]
  | timer t => exact timer_mem_closedObjects
  | entry conv => simp [closedObjects, Has, objects, timersClosed]

/-- Two entries with different control blocks have different contexts. -/
theorem Deletable.user_ne (h : Deletable p kcp.user ctx e.2) {e' : Entry} {kcp' : Ikcpcb}
    {ctx' : KcpContext} (h' : Deletable p kcp'.user ctx' e'.2) (hne : e'.2 ≠ e.2) :
    kcp'.user ≠ kcp.user := by
  intro heq
  have hctx := h'.ctx_at
  rw [heq, h.ctx_at] at hctx
  obtain rfl := Option.some.inj hctx
  exact hne (Option.some.inj (h'.kcp_eq.symm.trans h.kcp_eq))

/-- Closing the timers of one context closes no timer of another. -/
theorem TimersAt.closed {x x' : Ptr} {ctx' : KcpContext} (h : TimersAt p x ctx)
    (h' : TimersAt p x' ctx') (hne : x' ≠ x) {p' : Proc} (ht : p'.timers = closedTimers p ctx) :
    TimersAt p' x' ctx' := by
  intro cb t hcb
  have hopen := h' cb t hcb
  rw [ht, lookup_closedTimers_of_ne, hopen]
  intro cb' hcb'
  have hdata := (h cb' t hcb').symm.trans hopen
  cases hdata
  exact hne rfl

theorem Filed.timersClosed (hk : p.kcps e.2 = some kcp) (h : Deletable p kcp.user ctx e.2)
    {e' : Entry} (he' : Filed p e') : Filed (p.timersClosed e kcp.user ctx) e' := by
  obtain ⟨kcp', ctx', hk', h'⟩ := he'
  by_cases heq : e'.2 = e.2
  · have hsame : kcp' = kcp := Option.some.inj (hk'.symm.trans (heq ▸ hk))
    rw [hsame] at h'
    refine ⟨kcp, ctx.bare, hsame ▸ hk', Function.update_self _ _ _, ?_, h'.kcp_at, ?_⟩
    · rw [heq]
      exact h.kcp_eq
    · intro cb t ht
      rw [ctx.timer_bare cb] at ht
      exact nomatch ht
  · have hne := h.user_ne h' heq
    exact ⟨kcp', ctx', hk', (Function.update_of_ne hne _ _).trans h'.ctx_at, h'.kcp_eq, h'.kcp_at,
      h.timers.closed h'.timers hne rfl⟩

theorem Bare.timersClosed {e' : Entry} (h : Bare p e') :
    Bare (p.timersClosed e kcp.user ctx) e' := by
  intro kcp' ctx' hk' hx' cb
  rcases eq_or_ne kcp'.user kcp.user with heq | hne
  · rw [heq] at hx'
    obtain rfl := Option.some.inj (ctxs_timersClosed_self.symm.trans hx')
    exact ctx.timer_bare cb
  · exact h kcp' ctx' hk' ((Function.update_of_ne hne _ _).symm.trans hx') cb

theorem bare_timersClosed (hk : p.kcps e.2 = some kcp) :
    Bare (p.timersClosed e kcp.user ctx) e := by
  intro kcp' ctx' hk' hx' cb
  obtain rfl : kcp = kcp' := Option.some.inj (hk.symm.trans hk')
  obtain rfl := Option.some.inj (ctxs_timersClosed_self.symm.trans hx')
  exact ctx.timer_bare cb

/-- The first loop closes the timers of the listed contexts. -/
theorem closeTimersLoop_spec (es : List Entry) {p : Proc} (hmem : ∀ e ∈ es, e.1 ∈ p.kcpMap)
    (hfiled : ∀ e ∈ es, Filed p e) :
    ∃ p', closeTimersLoop es p = some p' ∧ Accounted p p' ∧ p'.kcpMap = p.kcpMap ∧
      (∀ e, Filed p e → Filed p' e) ∧ (∀ e, Bare p e → Bare p' e) ∧ ∀ e ∈ es, Bare p' e := by
  induction es generalizing p with
  | nil =>
    exact ⟨p, rfl, .refl p, rfl, fun _ h ↦ h, fun _ h ↦ h, fun _ h ↦ absurd h List.not_mem_nil⟩
  | cons e rest ih =>
    obtain ⟨kcp, ctx, hk, h⟩ := hfiled e List.mem_cons_self
    obtain ⟨p', hp', hacc, hmap, hstay, hbare, hall⟩ := @ih (p.timersClosed e kcp.user ctx)
      (fun e' he' ↦ hmem e' (List.mem_cons_of_mem _ he'))
      (fun e' he' ↦ (hfiled e' (List.mem_cons_of_mem _ he')).timersClosed hk h)
    refine ⟨p', ?_, (accounted_timersClosed (hmem e List.mem_cons_self) h).trans hacc, hmap, ?_,
      ?_, ?_⟩
    · rw [closeTimersLoop_cons hk h, hp']
    · exact fun e' he' ↦ hstay e' (he'.timersClosed hk h)
    · exact fun e' he' ↦ hbare e' he'.timersClosed
    · intro e' he'
      -- the entry of this round stays bare through the rounds that follow
      rcases List.mem_cons.mp he' with rfl | hrest
      · exact hbare e' (bare_timersClosed hk)
      · exact hall e' hrest

theorem accounted_walk (p : Proc) : Accounted p p.walk := by
  have hnodup : (p.timers.keys.map Obj.timer).Nodup :=
    p.timers.keys_nodup.map fun _ _ h ↦ Obj.timer.inj h
  have hopen : ∀ o ∈ p.timers.keys.map Obj.timer, o ∈ p.objects := by
    intro o ho
    obtain ⟨t, ht, rfl⟩ := List.mem_map.mp ho
    exact AList.mem_keys.mpr ht
  refine ⟨_, rfl, ?_⟩
  have hacc := Accounts.finishes hnodup hopen
  rw [List.map_map] at hacc
  apply hacc.congr_right
  ext o
  cases o <;> simp [objects, Has, walk, AList.mem_keys]

theorem accounted_clear (p : Proc) : Accounted p p.clear := by
  have hnodup : (p.kcpMap.keys.map Obj.entry).Nodup :=
    p.kcpMap.keys_nodup.map fun _ _ h ↦ Obj.entry.inj h
  have hlisted : ∀ o ∈ p.kcpMap.keys.map Obj.entry, o ∈ p.objects := by
    intro o ho
    obtain ⟨conv, hconv, rfl⟩ := List.mem_map.mp ho
    exact AList.mem_keys.mpr hconv
  refine ⟨_, rfl, ?_⟩
  have hacc := Accounts.finishes hnodup hlisted
  rw [List.map_map] at hacc
  apply hacc.congr_right
  ext o
  cases o <;> simp [objects, Has, clear, AList.mem_keys]

theorem deleteLoop_cons (hk : p.kcps e.2 = some kcp) (h : Deletable p kcp.user ctx e.2)
    (rest : List Entry) : deleteLoop (e :: rest) p =
      deleteLoop rest ((p.uses [.entry e.1, .kcp e.2]).deleted kcp.user ctx e.2) := by
  obtain ⟨conv, k⟩ := e
  have hkcp : (p.uses [.entry conv]).kcps k = some kcp := hk
  have hdel : (p.uses [.entry conv, .kcp k]).deleteCtx kcp.user =
      some ((p.uses [.entry conv, .kcp k]).deleted kcp.user ctx k) :=
    deleteCtx_eq h.ctx_at h.kcp_eq hk h.timers
  rw [deleteLoop, use_eq_uses, readKcp_eq hkcp, some_bind]
  dsimp only
  rw [uses_uses, List.singleton_append, hdel, some_bind]

theorem Filed.deleted (h : Deletable p kcp.user ctx e.2) {os : List Obj} {e' : Entry}
    (hne : e'.2 ≠ e.2) (he' : Filed p e') :
    Filed ((p.uses os).deleted kcp.user ctx e.2) e' := by
  obtain ⟨kcp', ctx', hk', h'⟩ := he'
  have huser := h.user_ne h' hne
  have hk'' : Function.update p.kcps e.2 none e'.2 = some kcp' :=
    (Function.update_of_ne hne _ _).trans hk'
  refine ⟨kcp', ctx', hk'', (Function.update_of_ne huser _ _).trans h'.ctx_at, h'.kcp_eq, ?_,
    h.timers.closed h'.timers huser rfl⟩
  change Function.update p.kcps e.2 none e'.2 ≠ none
  rw [hk'']
  exact Option.some_ne_none kcp'

/-- The second loop deletes the listed contexts. -/
theorem deleteLoop_spec (es : List Entry) {p : Proc} (hmem : ∀ e ∈ es, e.1 ∈ p.kcpMap)
    (hfiled : ∀ e ∈ es, Filed p e) (hdistinct : es.Pairwise fun e e' ↦ e.2 ≠ e'.2) :
    ∃ p', deleteLoop es p = some p' ∧ Accounted p p' ∧ p'.kcpMap = p.kcpMap ∧
      ∀ e ∈ es, p'.kcps e.2 = none := by
  induction es generalizing p with
  | nil => exact ⟨p, rfl, .refl p, rfl, fun _ h ↦ absurd h List.not_mem_nil⟩
  | cons e rest ih =>
    obtain ⟨hhead, htail⟩ := List.pairwise_cons.mp hdistinct
    obtain ⟨kcp, ctx, hk, h⟩ := hfiled e List.mem_cons_self
    set q : Proc := (p.uses [.entry e.1, .kcp e.2]).deleted kcp.user ctx e.2 with hq
    obtain ⟨p', hp', hacc, hmap, hall⟩ := @ih q
      (fun e' he' ↦ hmem e' (List.mem_cons_of_mem _ he'))
      (fun e' he' ↦ (hfiled e' (List.mem_cons_of_mem _ he')).deleted h (hhead e' he').symm) htail
    have huses : Accounted p (p.uses [.entry e.1, .kcp e.2]) := by
      apply Accounted.uses
      intro o ho
      rcases List.mem_pair.mp ho with rfl | rfl
      · exact hmem e List.mem_cons_self
      · exact h.kcp_at
    have hdel : Deletable (p.uses [.entry e.1, .kcp e.2]) kcp.user ctx e.2 :=
      ⟨h.ctx_at, h.kcp_eq, h.kcp_at, h.timers⟩
    refine ⟨p', ?_, (huses.trans hdel.accounted).trans hacc, hmap, ?_⟩
    · rw [deleteLoop_cons hk h, hp']
    · intro e' he'
      rcases List.mem_cons.mp he' with rfl | hrest
      · -- nothing is live afterwards that was not live before
        obtain ⟨events, -, hevents⟩ := hacc
        by_contra hlive
        have hbefore : q.kcps e'.2 ≠ none := (hevents.kept (.kcp e'.2) hlive).1
        exact hbefore (Function.update_self _ _ _)
      · exact hall e' hrest

end Loops

/-- **The end of `main`** accounts for every object it ends: all timers, all entries, and the
contexts and control blocks of the table. -/
theorem shutdown_spec {p : Proc} (hp : Sound p) :
    ∃ p', p.shutdown = some p' ∧ Accounted p p' ∧ p'.kcpMap = ∅ ∧ (∀ t, t ∉ p'.timers) ∧
      ∀ c k, p.kcpMap.lookup c = some k → p'.kcps k = none := by
  have hlookup : ∀ e ∈ p.kcpMap.entries, p.kcpMap.lookup e.1 = some e.2 := fun e he ↦
    AList.mem_lookup_iff.mpr he
  have hmem : ∀ e ∈ p.kcpMap.entries, e.1 ∈ p.kcpMap := fun e he ↦
    AList.lookup_isSome.mp (by rw [hlookup e he]; rfl)
  have hfiled : ∀ e ∈ p.kcpMap.entries, Filed p e := by
    intro e he
    obtain ⟨ctx, kcp, hlive, -⟩ := hp.live_of_entry (hlookup e he)
    exact ⟨kcp, ctx, hlive.kcp_at, hlive.deletable⟩
  -- no control block is released twice
  have hdistinct : p.kcpMap.entries.Pairwise fun e e' ↦ e.2 ≠ e'.2 := by
    apply (List.nodupKeys_iff_pairwise.mp p.kcpMap.nodupKeys).imp_of_mem
    intro e e' he he' hne heq
    exact hne (hp.entry_inj (hlookup e he) (heq ▸ hlookup e' he'))
  obtain ⟨p₁, hp₁, hacc₁, hmap₁, hstay, -, hbare⟩ := closeTimersLoop_spec _ hmem hfiled
  -- after the first loop no session has an open timer left
  have hwalked : ∀ e ∈ p.kcpMap.entries, Filed p₁.walk e := by
    intro e he
    obtain ⟨kcp, ctx, hk, h⟩ := hstay e (hfiled e he)
    refine ⟨kcp, ctx, hk, h.ctx_at, h.kcp_eq, h.kcp_at, ?_⟩
    intro cb t ht
    rw [hbare e he kcp ctx hk h.ctx_at cb] at ht
    exact nomatch ht
  obtain ⟨p₂, hp₂, hacc₂, -, hgone⟩ := @deleteLoop_spec p.kcpMap.entries p₁.walk
    (fun e he ↦ by
      change e.1 ∈ p₁.kcpMap
      rw [hmap₁]
      exact hmem e he) hwalked hdistinct
  refine ⟨p₂.clear, ?_, (hacc₁.trans p₁.accounted_walk).trans (hacc₂.trans p₂.accounted_clear), rfl,
    ?_, fun c k hc ↦ hgone ⟨c, k⟩ (AList.mem_lookup_iff.mp hc)⟩
  · rw [shutdown, hp₁, some_bind]
    have hentries : p₁.walk.kcpMap.entries = p.kcpMap.entries := by
      change p₁.kcpMap.entries = _
      rw [hmap₁]
    dsimp only
    rw [hentries, hp₂, some_bind]
  · intro t ht
    obtain ⟨events, -, hevents⟩ := hacc₂
    have hopen : t ∈ p₁.walk.timers := (hevents.kept (.timer t) ht).1
    exact AList.notMem_empty t hopen

end Proc

open Proc

/-! ## The paths -/

/-- The ways a program comes to end a session. -/
inductive Path
  /-- `udp_recv_cb` of the server. -/
  | serverRecv (env : Env) (addr : SockAddr) (data : List UInt8)
  /-- `udp_recv_cb` of the client, with the rest of the client's memory. -/
  | clientRecv (env : Env) (addr : SockAddr) (data : List UInt8) (connectTimer : Bool)
      (key : UInt32)
  /-- `UpdateTimerCb` in the server. -/
  | serverTimer (env : Env) (t : Ptr)
  /-- `UpdateTimerCb` in the client. -/
  | clientTimer (env : Env) (t : Ptr)
  /-- The end of `main`, the same in both. -/
  | shutdown

namespace Path

def run (p : Proc) : Path → Option Proc
  | serverRecv env addr data => Server.udpRecvCb env addr data p
  | clientRecv env addr data connectTimer key =>
    (Client.udpRecvCb env addr data ⟨p, connectTimer, key⟩).map Client.proc
  | serverTimer env t => Proc.updateTimerCb Server.kcpOutput env p t
  | clientTimer env t => Proc.updateTimerCb Client.kcpOutput env p t
  | shutdown => p.shutdown

/-- The datagram that sets the path off, if one does. -/
def datagram : Path → Option (List UInt8)
  | serverRecv _ _ data | clientRecv _ _ data _ _ => some data
  | _ => none

/-- The timer that sets it off, if one does. -/
def timer : Path → Option (Env × Ptr)
  | serverTimer env t | clientTimer env t => some (env, t)
  | _ => none

theorem timer_of_datagram {path : Path} {data : List UInt8} (h : path.datagram = some data) :
    path.timer = none := by
  cases path with
  | serverRecv | clientRecv => rfl
  | serverTimer | clientTimer | shutdown => cases h

/-- A FIN for the session. -/
def ByFin (path : Path) (kcp : Ikcpcb) : Prop :=
  ∃ data, path.datagram = some data ∧ classify data = .fin kcp.conv

/-- A KCP datagram for the session that `ikcp_input` gives a negative result for. -/
def ByRefusal (path : Path) (kcp : Ikcpcb) : Prop :=
  ∃ data, path.datagram = some data ∧ classify data = .kcp kcp.conv ∧ (ikcpInput kcp data).2 < 0

/-- The update timer of the session, when `IsTimeout` holds. -/
def ByTimeout (path : Path) (ctx : KcpContext) : Prop :=
  ∃ env t, path.timer = some (env, t) ∧ ctx.updateTimer = some t ∧ isTimeout env ctx = true

/-- The path ends the session. -/
def Ends (path : Path) (ctx : KcpContext) (kcp : Ikcpcb) : Prop :=
  path.ByFin kcp ∨ path.ByRefusal kcp ∨ path.ByTimeout ctx ∨ path = shutdown

end Path

/-! ## The law -/

/-- What ending session `x` should come to, between `p` and `p'`. -/
structure LawfulEnd (path : Path) (p p' : Proc) (x : Ptr) (ctx : KcpContext) (k : Ptr)
    (kcp : Ikcpcb) : Prop where
  /-- The session has left the table. -/
  unlisted : kcp.conv ∉ p'.kcpMap
  /-- Its timers are closed once each, its control block is released once, and nothing is used
  after its end. -/
  trace : ∃ events, p'.trace = p.trace ++ events ∧ Safe events ∧ EndedOnce (.kcp k) events ∧
    ∀ cb t, ctx.timer cb = some t → EndedOnce (.timer t) events
  /-- The FIN of an error path or a timeout carries the number of the session. -/
  fin : path.ByRefusal kcp ∨ path.ByTimeout ctx → ∃ out dest,
    p'.outbox = p.outbox ++ out ++ [⟨dest, udpPacket 3 kcp.conv⟩]
  /-- The other sessions are as they were. The end of `main` has none: it ends the whole table. -/
  others : path ≠ .shutdown → ∀ y ≠ x, ∀ ctx' j kcp', Live p y ctx' j kcp' →
    Live p' y ctx' j kcp' ∧ ∀ conv, p.kcpMap.lookup conv = some j → p'.kcpMap.lookup conv = some j

section Law

variable {path : Path} {p p' : Proc} {x k : Ptr} {ctx : KcpContext} {kcp : Ikcpcb}

/-- The trace clause is read off the accounts. -/
theorem Proc.Accounted.trace (h : Accounted p p') (hlive : Live p x ctx k kcp)
    (hk : p'.kcps k = none) (htimers : ∀ cb t, ctx.timer cb = some t → t ∉ p'.timers) :
    ∃ events, p'.trace = p.trace ++ events ∧ Safe events ∧ EndedOnce (.kcp k) events ∧
      ∀ cb t, ctx.timer cb = some t → EndedOnce (.timer t) events := by
  obtain ⟨events, htrace, hacc⟩ := h
  have hkcp : Obj.kcp k ∈ p.objects := hlive.deletable.kcp_at
  refine ⟨events, htrace, hacc.safe, hacc.once _ hkcp fun h ↦ h hk, ?_⟩
  intro cb t ht
  have hopen : Obj.timer t ∈ p.objects :=
    AList.lookup_isSome.mp (by rw [hlive.timers cb t ht]; rfl)
  exact hacc.once _ hopen (htimers cb t ht)

/-- A path that accounts for its objects and comes to `ended` is lawful. -/
theorem LawfulEnd.of_ended (hlive : Live p x ctx k kcp)
    (hmap : p.kcpMap.lookup kcp.conv = some k) (hacc : Accounted p p')
    (h : Grown (p.ended kcp.conv x ctx k) p')
    (hfin : path.ByRefusal kcp ∨ path.ByTimeout ctx → ∃ out dest,
      p'.outbox = p.outbox ++ out ++ [⟨dest, udpPacket 3 kcp.conv⟩]) :
    LawfulEnd path p p' x ctx k kcp where
  unlisted := by
    rw [h.kcpMap]
    exact fun hmem ↦ (AList.mem_erase.mp hmem).1 rfl
  trace := by
    refine hacc.trace hlive ?_ fun cb t ht ↦ ?_
    · rw [h.kcps]
      exact Function.update_self _ _ _
    · rw [h.timers]
      exact fun hmem ↦ (mem_closedTimers.mp hmem).2 cb ht
  fin := hfin
  others := by
    intro _ y hne ctx' j kcp' hlive'
    refine ⟨h.live.mpr (removed_ended.live hlive hlive' hne), ?_⟩
    intro conv hconv
    rw [h.kcpMap]
    refine (AList.lookup_erase_ne ?_).trans hconv
    rintro rfl
    obtain rfl := Option.some.inj (hconv.symm.trans hmap)
    exact hne (hlive'.ctx_eq hlive)

/-- A use after the end of the control block breaks the law, whatever else the path does. -/
theorem LawfulEnd.false_of_trace (h : LawfulEnd path p p' x ctx k kcp) {s t : List (Event Obj)}
    (htrace : p'.trace = p.trace ++ (s ++ t)) (hs : .finish (.kcp k) ∈ s)
    (ht : .use (.kcp k) ∈ t) : False := by
  obtain ⟨events, hevents, hsafe, -⟩ := h.trace
  rw [htrace] at hevents
  obtain rfl := List.append_cancel_left hevents
  exact not_safe_of_use_after hs ht hsafe

/-! ### The FIN branches -/

theorem accounted_fin (hlive : Live p x ctx k kcp) (hmap : p.kcpMap.lookup kcp.conv = some k) :
    Accounted p ((p.uses [.entry kcp.conv, .kcp k]).ended kcp.conv x ctx k) := by
  have hmem : kcp.conv ∈ p.kcpMap := AList.lookup_isSome.mp (by rw [hmap]; rfl)
  have huses : Accounted p (p.uses [.entry kcp.conv, .kcp k]) := by
    apply Accounted.uses
    intro o ho
    rcases List.mem_pair.mp ho with rfl | rfl
    · exact hmem
    · exact hlive.deletable.kcp_at
  exact huses.trans ((hlive.uses _).accounted_ended hmem)

theorem lawful_fin (hlive : Live p x ctx k kcp)
    (hmap : p.kcpMap.lookup kcp.conv = some k) (h : path.ByFin kcp) :
    ∃ p', path.run p = some p' ∧ LawfulEnd path p p' x ctx k kcp := by
  obtain ⟨data, hdata, hkind⟩ := h
  have hacc := accounted_fin hlive hmap
  -- a FIN is neither a KCP datagram nor a timer
  have hnofin : ¬(path.ByRefusal kcp ∨ path.ByTimeout ctx) := by
    rintro (⟨data', hdata', hkind', -⟩ | ⟨env, t, ht, -⟩)
    · obtain rfl := Option.some.inj (hdata.symm.trans hdata')
      exact nomatch hkind.symm.trans hkind'
    · exact nomatch (Path.timer_of_datagram hdata).symm.trans ht
  cases path with
  | serverRecv env addr data =>
    cases hdata
    refine ⟨_, ?_, .of_ended hlive hmap hacc ⟨rfl, rfl, rfl, rfl, le_rfl⟩ (absurd · hnofin)⟩
    rw [Path.run, Server.udpRecvCb_eq, hkind]
    exact Server.recvFin_of_live hmap hlive
  | clientRecv env addr data connectTimer key =>
    cases hdata
    have hsent : Accounted p (((p.uses [.entry kcp.conv, .kcp k]).ended kcp.conv x ctx
        k).sendUdpPacket none 1 env.rand) := hacc.trans (.of_same rfl rfl)
    refine ⟨_, ?_, .of_ended hlive hmap hsent ⟨rfl, rfl, rfl, rfl, le_rfl⟩ (absurd · hnofin)⟩
    rw [Path.run, Client.udpRecvCb_eq, hkind]
    dsimp only
    rw [Client.recvFin_of_live hmap hlive]
    rfl
  | _ => exact nomatch hdata

/-! ### Timeouts -/

theorem accounted_ticked (dest : KcpContext → Option SockAddr) (env : Env)
    (hlive : Live p x ctx k kcp) : Accounted p (ticked dest env p x ctx k kcp) := by
  refine .of_uses rfl (objects_used hlive) ?_
  intro o ho
  simp only [List.mem_append, List.mem_cons, List.mem_replicate, List.not_mem_nil, or_false] at ho
  rcases ho with ((rfl | rfl) | ⟨-, rfl⟩) | rfl
  · exact hlive.deletable.has_ctx
  · exact hlive.deletable.kcp_at
  · exact hlive.deletable.has_ctx
  · exact hlive.deletable.has_ctx

theorem lawful_timeout (hlive : Live p x ctx k kcp)
    (hmap : p.kcpMap.lookup kcp.conv = some k) (h : path.ByTimeout ctx) :
    ∃ p', path.run p = some p' ∧ LawfulEnd path p p' x ctx k kcp := by
  obtain ⟨env, t, htimer, ht, hout⟩ := h
  have hmem : kcp.conv ∈ p.kcpMap := AList.lookup_isSome.mp (by rw [hmap]; rfl)
  -- the two programs differ in where they send to
  have hrun (dest : KcpContext → Option SockAddr) : ∃ p', updateTimerCb dest env p t = some p' ∧
      LawfulEnd path p p' x ctx k kcp := by
    have heq := @updateTimerCb_eq dest env _ _ _ _ _ _ hlive (hlive.timers .updateTimerCb t ht)
    rw [if_pos hout] at heq
    dsimp only at heq
    rw [if_pos hmem] at heq
    have hticked := @Live.ticked dest env _ _ _ _ _ hlive
    have hread : Accounted (ticked dest env p x ctx k kcp)
        (((ticked dest env p x ctx k kcp).uses [.kcp k]).sendUdpPacket (some ctx.addr) 3
          kcp.conv) := by
      have huses : Accounted (ticked dest env p x ctx k kcp)
          ((ticked dest env p x ctx k kcp).uses [.kcp k]) := by
        apply Accounted.uses
        intro o ho
        obtain rfl := List.mem_singleton.mp ho
        exact hticked.deletable.kcp_at
      exact huses.trans (.of_same rfl rfl)
    have hsent : Live (((ticked dest env p x ctx k kcp).uses [.kcp k]).sendUdpPacket
        (some ctx.addr) 3 kcp.conv) x ctx k (ikcpUpdate kcp env.now32).1 :=
      (grown_sendUdpPacket _ _ _ _).live.mpr (hticked.uses _)
    have hacc := ((accounted_ticked dest env hlive).trans hread).trans (hsent.accounted_ended hmem)
    exact ⟨_, heq, .of_ended hlive hmap hacc (ended_used.trans ⟨rfl, rfl, rfl, rfl, le_rfl⟩)
      fun _ ↦ ⟨_, _, rfl⟩⟩
  cases path with
  | serverTimer env' t' =>
    cases htimer
    exact hrun Server.kcpOutput
  | clientTimer env' t' =>
    cases htimer
    exact hrun Client.kcpOutput
  | _ => exact nomatch htimer

/-! ### The end of `main` -/

theorem lawful_shutdown (hp : Sound p) (hlive : Live p x ctx k kcp)
    (hmap : p.kcpMap.lookup kcp.conv = some k) :
    ∃ p', Path.shutdown.run p = some p' ∧ LawfulEnd .shutdown p p' x ctx k kcp := by
  obtain ⟨p', hp', hacc, hempty, htimers, hgone⟩ := shutdown_spec hp
  refine ⟨p', hp', ?_, hacc.trace hlive (hgone _ _ hmap) fun _ t _ ↦ htimers t, ?_, ?_⟩
  · rw [hempty]
    exact AList.notMem_empty _
  · rintro (⟨data, hdata, -⟩ | ⟨env, t, ht, -⟩)
    · exact nomatch hdata
    · exact nomatch ht
  · exact fun h ↦ absurd rfl h

/-! ### The error branches -/

/-- Both error branches release the control block and then read the number for the FIN back from
it. -/
theorem not_lawful_refused (hlive : Live p x ctx k kcp)
    (hmap : p.kcpMap.lookup kcp.conv = some k) (h : path.ByRefusal kcp) :
    ∃ p', path.run p = some p' ∧ ¬LawfulEnd path p p' x ctx k kcp := by
  obtain ⟨data, hdata, hkind, hbad⟩ := h
  cases path with
  | serverRecv env addr data =>
    cases hdata
    have hstep : (Path.serverRecv env addr data).run p =
        Server.recvKcp env addr kcp.conv data p := by
      rw [Path.run, Server.udpRecvCb_eq, hkind]
    refine ⟨_, hstep.trans (Server.recvKcp_of_refused hmap hlive hbad), ?_⟩
    intro hlaw
    refine @LawfulEnd.false_of_trace _ _ _ _ _ _ _ hlaw
      ([.use (.entry kcp.conv), .use (.kcp k), .use (.entry kcp.conv), .use (.kcp k)] ++
        deleteTrace x ctx k ++ [.finish (.entry kcp.conv)])
      [.use (.entry kcp.conv), .use (.kcp k)] ?_ ?_ ?_
    · -- the release comes before the last two reads
      simp [uses, sendUdpPacket, ended, eraseEntry, deleted, used]
    · simp [deleteTrace]
    · simp
  | clientRecv env addr data connectTimer key =>
    cases hdata
    have hrun := @Client.recvKcp_of_refused env addr _ data ⟨p, connectTimer, key⟩ _ _ _ _ hmap
      hlive hbad
    have hstep : (Path.clientRecv env addr data connectTimer key).run p =
        (Client.recvKcp env addr kcp.conv data ⟨p, connectTimer, key⟩).map Client.proc := by
      rw [Path.run, Client.udpRecvCb_eq, hkind]
    refine ⟨_, hstep.trans (congrArg (Option.map Client.proc) hrun), ?_⟩
    intro hlaw
    refine @LawfulEnd.false_of_trace _ _ _ _ _ _ _ hlaw
      [.use (.entry kcp.conv), .use (.kcp k), .use (.entry kcp.conv), .use (.kcp k),
        .finish (.ctx x), .use (.entry kcp.conv), .use (.kcp k), .finish (.kcp k),
        .finish (.entry kcp.conv)] [.use (.entry kcp.conv), .use (.kcp k)] ?_ ?_ ?_
    · simp [uses, sendUdpPacket, Client.dropped, used]
    · simp
    · simp
  | _ => cases hdata

/-! ### All paths -/

/-- **A session is ended lawfully exactly when it is not ended by a refused datagram.** Every path
has a result, from any sound memory and for any session of the table. -/
theorem lawful_end_iff (hp : Sound p) (hlive : Live p x ctx k kcp)
    (hmap : p.kcpMap.lookup kcp.conv = some k) (h : path.Ends ctx kcp) :
    ∃ p', path.run p = some p' ∧ (LawfulEnd path p p' x ctx k kcp ↔ ¬path.ByRefusal kcp) := by
  have hcases : path.ByRefusal kcp ∨
      ∃ p', path.run p = some p' ∧ LawfulEnd path p p' x ctx k kcp := by
    rcases h with hfin | hrefused | htimeout | rfl
    · exact .inr (lawful_fin hlive hmap hfin)
    · exact .inl hrefused
    · exact .inr (lawful_timeout hlive hmap htimeout)
    · exact .inr (lawful_shutdown hp hlive hmap)
  rcases hcases with hrefused | ⟨p', hrun, hlaw⟩
  · obtain ⟨p', hrun, hnot⟩ := not_lawful_refused hlive hmap hrefused
    exact ⟨p', hrun, fun h ↦ absurd h hnot, fun h ↦ absurd hrefused h⟩
  · refine ⟨p', hrun, ?_, fun _ ↦ hlaw⟩
    intro _ hrefused
    obtain ⟨q, hq, hnot⟩ := not_lawful_refused hlive hmap hrefused
    obtain rfl := Option.some.inj (hrun.symm.trans hq)
    exact hnot hlaw

end Law

/-! ### A run of the server -/

/-- The server after the SYN of its first client. -/
def opening : Proc := Server.synAnswered {} (.inet 0 1) 0

theorem opening_session : ∃ ctx, Live opening 0 ctx 1 (configuredKcp 1001 0) ∧
    opening.kcpMap.lookup 1001 = some 1 := by
  have hgrown := Server.grown_synAnswered {} (.inet 0 1) 0
  have hfresh : (1001 : UInt32) ∉ (({} : Proc).opened (.inet 0 1) 1001).kcpMap :=
    AList.notMem_empty _
  refine ⟨_, hgrown.live.mpr (live_emplace.mpr live_opened_self), ?_⟩
  change (Server.synAnswered {} (.inet 0 1) 0).kcpMap.lookup 1001 = some 1
  rw [hgrown.kcpMap]
  exact lookup_emplace_self hfresh

/-- The end of `main`, right after the first SYN. -/
theorem lawful_end_opening : ∃ ctx p', Path.shutdown.run opening = some p' ∧
    (LawfulEnd .shutdown opening p' 0 ctx 1 (configuredKcp 1001 0) ↔
      ¬Path.shutdown.ByRefusal (configuredKcp 1001 0)) := by
  obtain ⟨ctx, hlive, hmap⟩ := opening_session
  obtain ⟨p', h⟩ := lawful_end_iff
    (Server.Consistent.init.synAnswered (.inet 0 1) 0).sound hlive hmap (.inr (.inr (.inr rfl)))
  exact ⟨ctx, p', h⟩

/-- 24 bytes with a command no segment has, for the session that has just been opened. -/
theorem unlawful_end_on_bad_datagram : ¬∀ p, (Server.lts.restrict Server.Allocates).Reachable p →
    ∀ env addr data x ctx k kcp p', Live p x ctx k kcp → p.kcpMap.lookup kcp.conv = some k →
      (Path.serverRecv env addr data).Ends ctx kcp →
      (Path.serverRecv env addr data).run p = some p' →
      LawfulEnd (.serverRecv env addr data) p p' x ctx k kcp := by
  intro hall
  obtain ⟨ctx, hlive, hmap⟩ := opening_session
  have hreach : (Server.lts.restrict Server.Allocates).Reachable opening :=
    Server.reachable_synAnswered (.init rfl) (.inet 0 1) 0
  have hrefused : (Path.serverRecv {} (.inet 0 1) Client.badDatagram).ByRefusal
      (configuredKcp 1001 0) := ⟨_, rfl, by decide, by decide⟩
  obtain ⟨p', hrun, hnot⟩ := not_lawful_refused hlive hmap hrefused
  exact hnot (hall _ hreach _ _ _ _ _ _ _ _ hlive hmap (.inr (.inl hrefused)) hrun)

end KcpEcho
