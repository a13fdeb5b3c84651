import KcpEcho.Table.ServerOutcome

/-!
# The idle timeout

A session notes when it has last accepted a datagram, as the low 32 bits of the loop clock, and ends
at the first tick at which more than 60000 ms have gone by. Here the server runs next to a true
clock and a record of when one session accepted datagrams and ticked, and the two are compared.

The wrapping subtraction of `IsTimeout` is right at every clock value, as long as the session ticks
often enough. What is not is the mark for "nothing received yet": it is the time stamp 0, and that
is also what a datagram leaves behind that is accepted when the clock reads a multiple of `2 ^ 32`.
A session that then falls silent never times out.
-/

namespace KcpEcho
namespace Server

open Proc

/-! ## One context -/

/-- What a step of the server does to the context at `x`. -/
inductive Fate (x : Ptr) (p : Proc) (e : Event) (p' : Proc) : Prop
  /-- The event is about something else. -/
  | idle (hheard : heardFrom p e ≠ some x) (hfired : firedFor p e ≠ some x)
      (h : p'.ctxs x = p.ctxs x)
  | born {ctx : KcpContext} (hheard : heardFrom p e ≠ some x) (hfired : firedFor p e ≠ some x)
      (hnew : p.brk = x) (h : p'.ctxs x = some ctx) (hstamp : ctx.lastRecvTime = 0)
  | heard {ctx : KcpContext} (hheard : heardFrom p e = some x) (hfired : firedFor p e ≠ some x)
      (hctx : p.ctxs x = some ctx)
      (h : p'.ctxs x = some { ctx with lastRecvTime := e.env.now32 })
  | closed (hheard : heardFrom p e ≠ some x) (hfired : firedFor p e ≠ some x)
      (h : p'.ctxs x = none)
  | ticked {ctx : KcpContext} (hheard : heardFrom p e ≠ some x) (hfired : firedFor p e = some x)
      (hctx : p.ctxs x = some ctx) (hout : isTimeout e.env ctx = false) (h : p'.ctxs x = some ctx)
  | expired {ctx : KcpContext} (hheard : heardFrom p e ≠ some x) (hfired : firedFor p e = some x)
      (hctx : p.ctxs x = some ctx) (hout : isTimeout e.env ctx = true) (h : p'.ctxs x = none)

theorem ctxs_synAnswered (p : Proc) (addr : SockAddr) (key : UInt32) :
    (synAnswered p addr key).ctxs = Function.update p.ctxs p.brk (some (p.openCtx addr)) := by
  rw [(grown_synAnswered p addr key).ctxs, (emplace_frame _ _ _).1]
  rfl

section Fate

variable {p p' : Proc} {e : Event} {x y : Ptr} {new : Option KcpContext}

theorem Fate.of_ne (hheard : heardFrom p e ≠ some x) (hfired : firedFor p e ≠ some x)
    (hctxs : p'.ctxs = Function.update p.ctxs y new) (hx : x ≠ y) : Fate x p e p' := by
  apply Fate.idle hheard hfired
  rw [hctxs, Function.update_of_ne hx]

theorem ctxs_self (hctxs : p'.ctxs = Function.update p.ctxs y new) : p'.ctxs y = new := by
  rw [hctxs, Function.update_self]

/-- An outcome changes at most the one context it is about. -/
theorem fate_of_outcome (h : Outcome p e p') (x : Ptr) : Fate x p e p' := by
  cases h with
  | quiet hheard hfired hgrown =>
    exact .idle (by simp [hheard]) (by simp [hfired]) (by rw [hgrown.ctxs])
  | @opened addr key hheard hfired =>
    have hctxs := ctxs_synAnswered p addr key
    by_cases hx : x = p.brk
    · subst hx
      exact .born (by simp [hheard]) (by simp [hfired]) rfl (ctxs_self hctxs) rfl
    · exact .of_ne (by simp [hheard]) (by simp [hfired]) hctxs hx
  -- the stamp moves in the session that accepts, and in no other
  | @accepted env addr data y k ctx kcp _ he hheard hlive _ hgrown =>
    subst he
    by_cases hx : x = y
    · subst hx
      exact .heard hheard (by simp [firedFor]) hlive.ctx_at (ctxs_self hgrown.ctxs)
    · exact .of_ne (by simp [hheard, Ne.symm hx]) (by simp [firedFor]) hgrown.ctxs hx
  | @closed y k ctx kcp _ hheard hfired hlive _ hgrown =>
    by_cases hx : x = y
    · subst hx
      exact .closed (by simp [hheard]) (by simp [hfired]) (ctxs_self hgrown.ctxs)
    · exact .of_ne (by simp [hheard]) (by simp [hfired]) hgrown.ctxs hx
  | @ticked env t y k ctx kcp _ he hfired hlive hout hgrown =>
    subst he
    by_cases hx : x = y
    · subst hx
      exact .ticked (by simp [heardFrom]) hfired hlive.ctx_at hout (ctxs_self hgrown.ctxs)
    · exact .of_ne (by simp [heardFrom]) (by simp [hfired, Ne.symm hx]) hgrown.ctxs hx
  | @expired env t y k ctx kcp _ he hfired hlive _ hout hgrown =>
    subst he
    by_cases hx : x = y
    · subst hx
      exact .expired (by simp [heardFrom]) hfired hlive.ctx_at hout (ctxs_self hgrown.ctxs)
    · exact .of_ne (by simp [heardFrom]) (by simp [hfired, Ne.symm hx]) hgrown.ctxs hx

theorem brk_le_of_outcome (h : Outcome p e p') : p.brk ≤ p'.brk := by
  cases h with
  | quiet _ _ hgrown => exact hgrown.brk
  | @opened addr key _ _ =>
    have hgrown := (grown_synAnswered p addr key).brk
    rw [(emplace_frame _ _ _).2.2.2] at hgrown
    exact (Nat.le_add_right _ 3).trans hgrown
  | accepted _ _ _ _ hgrown => exact hgrown.brk
  | closed _ _ _ _ hgrown => exact hgrown.brk
  | ticked _ _ _ _ hgrown => exact hgrown.brk
  | expired _ _ _ _ _ hgrown => exact hgrown.brk

end Fate

/-! ## The server and a true clock -/

/-- The server, the loop clock, and when one session has accepted datagrams and ticked, the latest
first. -/
structure Watched where
  proc : Proc := {}
  clock : ℕ := 0
  heard : List ℕ := []
  ticks : List ℕ := []

/-- The record after an event that leaves the process `p'`. -/
def Watched.after (x : Ptr) (w : Watched) (e : Event) (p' : Proc) : Watched where
  proc := p'
  clock := e.env.now
  heard := if heardFrom w.proc e = some x then e.env.now :: w.heard else w.heard
  ticks := if firedFor w.proc e = some x then e.env.now :: w.ticks else w.ticks

/-- The runs of the server whose clock never goes back, with a record for the session at `x`. -/
def watch (x : Ptr) : Lts Watched Event where
  init w := w = {}
  step w e w' := lts.step w.proc e w'.proc ∧ w.clock ≤ e.env.now ∧ w' = w.after x e w'.proc

/-- Consecutive ticks of the session are less than `2 ^ 32 - 60000` ms apart. -/
def Punctual (x : Ptr) (w : Watched) (e : Event) : Prop :=
  firedFor w.proc e = some x → ∀ t ∈ w.ticks.head?, e.env.now < t + (2 ^ 32 - 60000)

/-! ## The elapsed time -/

theorem toNat_now32_sub {env : Env} {r : ℕ} (h : r ≤ env.now) :
    (env.now32 - UInt32.ofNat r).toNat = (env.now - r) % 2 ^ 32 := by
  rw [← Serial.elapsed_ofNat h, Env.now32, Serial.elapsed, ← UInt32.toNat_toBitVec,
    UInt32.toBitVec_sub, UInt32.toBitVec_ofNat', UInt32.toBitVec_ofNat']

theorem ofNat_eq_zero_iff (r : ℕ) : UInt32.ofNat r = 0 ↔ r % 2 ^ 32 = 0 := by
  rw [← UInt32.toNat_inj, UInt32.toNat_ofNat']
  rfl

theorem isTimeout_iff {env : Env} {ctx : KcpContext} {r : ℕ}
    (hstamp : ctx.lastRecvTime = UInt32.ofNat r) (h : r ≤ env.now) :
    isTimeout env ctx = true ↔ r % 2 ^ 32 ≠ 0 ∧ 60000 < (env.now - r) % 2 ^ 32 := by
  rw [isTimeout, hstamp]
  split
  · rename_i hzero
    rw [ofNat_eq_zero_iff] at hzero
    exact ⟨fun hfalse ↦ absurd hfalse Bool.false_ne_true, fun hnot ↦ absurd hzero hnot.1⟩
  · rename_i hzero
    rw [ofNat_eq_zero_iff] at hzero
    rw [decide_eq_true_iff, gt_iff_lt, UInt32.lt_iff_toNat_lt, toNat_now32_sub h]
    exact ⟨fun hlt ↦ ⟨hzero, hlt⟩, fun hlt ↦ hlt.2⟩

/-! ## The invariant -/

/-- What holds of a watched session, whenever its clock is read. -/
structure Clocked (x : Ptr) (w : Watched) : Prop where
  consistent : Consistent w.proc
  /-- Nothing has happened yet to a context that is still to be allocated. -/
  young : w.proc.brk ≤ x → w.heard = [] ∧ w.ticks = []
  /-- The time stamp is the last acceptance cut to 32 bits, or 0 if there was none. -/
  stamp : ∀ ctx, w.proc.ctxs x = some ctx →
    ctx.lastRecvTime = UInt32.ofNat (w.heard.head?.getD 0)
  past : (∀ r ∈ w.heard.head?, r ≤ w.clock) ∧ ∀ t ∈ w.ticks.head?, t ≤ w.clock
  /-- A session that is still there was not silent for too long at its last tick, unless its silence
  does not show. -/
  recent : w.proc.ctxs x ≠ none → ∀ r ∈ w.heard.head?, r % 2 ^ 32 ≠ 0 →
    ∀ f ∈ w.ticks.getLast?, f < r + 2 ^ 32 → ∀ t ∈ w.ticks.head?, t ≤ r + 60000

namespace Clocked

variable {x : Ptr} {w w' : Watched} {e : Event}

theorem init : Clocked x {} where
  consistent := Consistent.init
  young _ := ⟨rfl, rfl⟩
  stamp _ h := nomatch h
  past := ⟨fun _ h ↦ (nomatch h), fun _ h ↦ (nomatch h)⟩
  recent h := absurd rfl h

/-- What `IsTimeout` computes from the stamp. -/
theorem isTimeout_iff (h : Clocked x w) {env : Env} (hclock : w.clock ≤ env.now) {ctx : KcpContext}
    (hctx : w.proc.ctxs x = some ctx) :
    isTimeout env ctx = true ↔
      ∃ r ∈ w.heard.head?, r % 2 ^ 32 ≠ 0 ∧ 60000 < (env.now - r) % 2 ^ 32 := by
  have hstamp := h.stamp ctx hctx
  have hpast := h.past.1
  cases hheard : w.heard.head? with
  | none =>
    rw [hheard] at hstamp
    rw [Server.isTimeout_iff hstamp (Nat.zero_le _)]
    constructor
    · rintro ⟨h0, -⟩
      exact absurd rfl h0
    · rintro ⟨r, hr, -⟩
      exact nomatch hr
  | some r =>
    rw [hheard] at hstamp hpast
    rw [Server.isTimeout_iff hstamp ((hpast r rfl).trans hclock)]
    constructor
    · intro hout
      exact ⟨r, rfl, hout⟩
    · rintro ⟨r', hr', hout⟩
      obtain rfl := Option.some.inj hr'
      exact hout

/-- At a tick of a session that has accepted a datagram, the computed difference is the true one,
unless the session had not ticked for a whole turn of the clock. -/
theorem exact_elapsed (h : Clocked x w) (hpunctual : Punctual x w e)
    (hfired : firedFor w.proc e = some x) (hctx : w.proc.ctxs x ≠ none) {r : ℕ}
    (hr : r ∈ w.heard.head?) (hr0 : r % 2 ^ 32 ≠ 0)
    (hfirst : w.ticks.getLast?.getD e.env.now < r + 2 ^ 32) :
    (e.env.now - r) % 2 ^ 32 = e.env.now - r := by
  apply Nat.mod_eq_of_lt
  cases hticks : w.ticks with
  | nil =>
    rw [hticks] at hfirst
    have hfirst : e.env.now < r + 2 ^ 32 := hfirst
    omega
  | cons t rest =>
    -- the session was there after its last tick at `t`, so it had not been silent for long
    have hlast : t ∈ w.ticks.head? := by rw [hticks]; rfl
    obtain ⟨f, hf⟩ : ∃ f, w.ticks.getLast? = some f := by
      rw [hticks, List.getLast?_cons]
      exact ⟨_, rfl⟩
    rw [hf] at hfirst
    have hrecent := h.recent hctx r hr hr0 f hf hfirst t hlast
    have hgap := hpunctual hfired t hlast
    omega

theorem keep (h : Clocked x w) {p' : Proc} {now : ℕ} (hcons : Consistent p')
    (hbrk : w.proc.brk ≤ p'.brk) (hclock : w.clock ≤ now)
    (hctx : ∀ ctx, p'.ctxs x = some ctx →
      w.proc.ctxs x = some ctx ∨ (w.proc.brk = x ∧ ctx.lastRecvTime = 0)) :
    Clocked x { w with proc := p', clock := now } where
  consistent := hcons
  young hle := h.young (hbrk.trans hle)
  stamp ctx hx := by
    rcases hctx ctx hx with hold | ⟨hnew, h0⟩
    · exact h.stamp ctx hold
    · rw [h0, (h.young hnew.le).1]
      rfl
  past := ⟨fun r hr ↦ (h.past.1 r hr).trans hclock, fun t ht ↦ (h.past.2 t ht).trans hclock⟩
  recent hne r hr := by
    obtain ⟨ctx, hx⟩ := Option.ne_none_iff_exists'.mp hne
    rcases hctx ctx hx with hold | ⟨hnew, -⟩
    · exact h.recent (hold ▸ Option.some_ne_none ctx) r hr
    · rw [(h.young hnew.le).1] at hr
      exact nomatch hr

theorem hear (h : Clocked x w) {p' : Proc} {env : Env} {ctx : KcpContext} (hcons : Consistent p')
    (hbrk : w.proc.brk ≤ p'.brk) (hclock : w.clock ≤ env.now)
    (hctx : w.proc.ctxs x = some ctx)
    (hctx' : p'.ctxs x = some { ctx with lastRecvTime := env.now32 }) :
    Clocked x { w with proc := p', clock := env.now, heard := env.now :: w.heard } where
  consistent := hcons
  young hle := absurd (h.consistent.sound.ctx_lt hctx) (Nat.not_lt.mpr (hbrk.trans hle))
  stamp ctx' hx := by
    obtain rfl := Option.some.inj (hctx'.symm.trans hx)
    rfl
  past := by
    refine ⟨?_, fun t ht ↦ (h.past.2 t ht).trans hclock⟩
    intro r hr
    obtain rfl := Option.some.inj hr
    exact le_rfl
  recent _ r hr _ _ _ _ t ht := by
    obtain rfl := Option.some.inj hr
    have := h.past.2 t ht
    dsimp only at *
    omega

/-- A tick. The session is there afterwards only if it did not time out. -/
theorem tick (h : Clocked x w) {p' : Proc} {ctx : KcpContext} (hcons : Consistent p')
    (hbrk : w.proc.brk ≤ p'.brk) (hclock : w.clock ≤ e.env.now) (hpunctual : Punctual x w e)
    (hfired : firedFor w.proc e = some x) (hctx : w.proc.ctxs x = some ctx)
    (hctx' : ∀ ctx', p'.ctxs x = some ctx' → ctx' = ctx ∧ isTimeout e.env ctx = false) :
    Clocked x { w with proc := p', clock := e.env.now, ticks := e.env.now :: w.ticks } where
  consistent := hcons
  young hle := absurd (h.consistent.sound.ctx_lt hctx) (Nat.not_lt.mpr (hbrk.trans hle))
  stamp ctx' hx := by
    obtain ⟨rfl, -⟩ := hctx' ctx' hx
    exact h.stamp ctx' hctx
  past := by
    refine ⟨fun r hr ↦ (h.past.1 r hr).trans hclock, ?_⟩
    intro t ht
    obtain rfl := Option.some.inj ht
    exact le_rfl
  recent hne r hr hr0 f hf hfirst t ht := by
    obtain ⟨ctx', hx⟩ := Option.ne_none_iff_exists'.mp hne
    obtain ⟨rfl, hout⟩ := hctx' ctx' hx
    obtain rfl := Option.some.inj ht
    by_contra hlong
    -- a longer silence would have shown at this tick
    rw [List.getLast?_cons] at hf
    obtain rfl := Option.some.inj hf
    have helapsed := h.exact_elapsed hpunctual hfired (hctx ▸ Option.some_ne_none ctx') hr hr0
      hfirst
    have htimeout := (h.isTimeout_iff hclock hctx).mpr
      ⟨r, hr, hr0, by rw [helapsed]; dsimp only at *; omega⟩
    exact Bool.false_ne_true (hout.symm.trans htimeout)

/-- **The step lemma.** -/
theorem step (h : Clocked x w) (hs : ((watch x).restrict (Punctual x)).step w e w') :
    Clocked x w' := by
  obtain ⟨⟨hstep, hclock, hw'⟩, hpunctual⟩ := hs
  have hout := step_outcome h.consistent hstep
  have hcons := h.consistent.step hstep
  have hbrk := brk_le_of_outcome hout
  rw [hw', Watched.after]
  cases fate_of_outcome hout x with
  | idle hheard hfired hctx =>
    rw [if_neg hheard, if_neg hfired]
    exact h.keep hcons hbrk hclock fun ctx hx ↦ .inl (hctx ▸ hx)
  | born hheard hfired hnew hctx hstamp =>
    rw [if_neg hheard, if_neg hfired]
    refine h.keep hcons hbrk hclock fun ctx hx ↦ .inr ⟨hnew, ?_⟩
    obtain rfl := Option.some.inj (hctx.symm.trans hx)
    exact hstamp
  | heard hheard hfired hctx hctx' =>
    rw [if_pos hheard, if_neg hfired]
    exact h.hear hcons hbrk hclock hctx hctx'
  | closed hheard hfired hctx =>
    rw [if_neg hheard, if_neg hfired]
    exact h.keep hcons hbrk hclock fun ctx hx ↦ nomatch hctx.symm.trans hx
  | ticked hheard hfired hctx hout hctx' =>
    rw [if_neg hheard, if_pos hfired]
    exact h.tick hcons hbrk hclock hpunctual hfired hctx fun ctx' hx ↦
      ⟨Option.some.inj (hx.symm.trans hctx'), hout⟩
  | expired hheard hfired hctx hout hctx' =>
    rw [if_neg hheard, if_pos hfired]
    exact h.tick hcons hbrk hclock hpunctual hfired hctx fun ctx' hx ↦
      nomatch hctx'.symm.trans hx

end Clocked

theorem clocked_inductive (x : Ptr) :
    ((watch x).restrict (Punctual x)).Inductive (Clocked x) where
  init _ hw := hw ▸ Clocked.init
  step _ _ _ h hs := h.step hs

/-! ## Exactness -/

section Exact

variable {x : Ptr} {w w' : Watched} {e : Event}

/-- The step ends the session. At a tick that is a timeout. -/
def Expires (x : Ptr) (w w' : Watched) : Prop := w.proc.ctxs x ≠ none ∧ w'.proc.ctxs x = none

/-- The session has accepted a datagram, and the last one more than 60000 ms before. -/
def Idle (w : Watched) (e : Event) : Prop := ∃ r ∈ w.heard.head?, 60000 < e.env.now - r

/-- When a tick finds a session idle: the last datagram was not accepted at a multiple of `2 ^ 32`;
and the session has ticked before the clock has made a whole turn since then, or the tick is more
than 60000 ms past the last whole turn. -/
def Visible (w : Watched) (e : Event) : Prop :=
  ∀ r ∈ w.heard.head?, 60000 < e.env.now - r → r % 2 ^ 32 ≠ 0 ∧
    (w.ticks.getLast?.getD e.env.now < r + 2 ^ 32 ∨ 60000 < (e.env.now - r) % 2 ^ 32)

theorem ctxs_of_firedFor {p : Proc} (h : Consistent p) (hfired : firedFor p e = some x) :
    p.ctxs x ≠ none := by
  cases e with
  | recv env addr data => exact nomatch hfired
  | updateTimer env t =>
    obtain ⟨timer, ht, rfl⟩ := Option.map_eq_some_iff.mp hfired
    obtain ⟨ctx, hctx, -⟩ := h.owned t timer ht
    rw [hctx]
    exact Option.some_ne_none ctx

theorem Clocked.expires_iff (h : Clocked x w) (hs : (watch x).step w e w')
    (hfired : firedFor w.proc e = some x) :
    Expires x w w' ↔ ∃ r ∈ w.heard.head?, r % 2 ^ 32 ≠ 0 ∧ 60000 < (e.env.now - r) % 2 ^ 32 := by
  obtain ⟨hstep, hclock, -⟩ := hs
  cases fate_of_outcome (step_outcome h.consistent hstep) x with
  | idle _ hnot _ => exact absurd hfired hnot
  | born _ hnot _ _ _ => exact absurd hfired hnot
  | heard _ hnot _ _ => exact absurd hfired hnot
  | closed _ hnot _ => exact absurd hfired hnot
  | ticked _ _ hctx hout hctx' =>
    rw [← h.isTimeout_iff hclock hctx, hout]
    constructor
    · rintro ⟨-, hgone⟩
      exact nomatch hctx'.symm.trans hgone
    · exact fun hfalse ↦ absurd hfalse Bool.false_ne_true
  | expired _ _ hctx hout hctx' =>
    rw [← h.isTimeout_iff hclock hctx, hout]
    constructor
    · exact fun _ ↦ rfl
    · exact fun _ ↦ ⟨hctx ▸ Option.some_ne_none _, hctx'⟩

theorem Clocked.exact_iff (h : Clocked x w)
    (hs : ((watch x).restrict (Punctual x)).step w e w') (hfired : firedFor w.proc e = some x) :
    (Expires x w w' ↔ Idle w e) ↔ Visible w e := by
  rw [h.expires_iff hs.1 hfired]
  constructor
  · intro hexact r hr hidle
    obtain ⟨r', hr', hr0, hout⟩ := hexact.mpr ⟨r, hr, hidle⟩
    obtain rfl := Option.some.inj (hr'.symm.trans hr)
    exact ⟨hr0, .inr hout⟩
  · intro hvisible
    constructor
    · rintro ⟨r, hr, -, hout⟩
      exact ⟨r, hr, hout.trans_le (Nat.mod_le _ _)⟩
    · rintro ⟨r, hr, hidle⟩
      obtain ⟨hr0, hfirst | hout⟩ := hvisible r hr hidle
      · have hctx := ctxs_of_firedFor h.consistent hfired
        have helapsed := h.exact_elapsed hs.2 hfired hctx hr hr0 hfirst
        exact ⟨r, hr, hr0, helapsed.symm ▸ hidle⟩
      · exact ⟨r, hr, hr0, hout⟩

/-- **When the idle timeout is exact.** In every run whose clock does not go back and in which the
session ticks punctually, a tick ends the session exactly if it is idle, if and only if its
idleness is visible. -/
theorem timeout_exact_iff_visible (h : ((watch x).restrict (Punctual x)).Reachable w)
    (hs : ((watch x).restrict (Punctual x)).step w e w') (hfired : firedFor w.proc e = some x) :
    (Expires x w w' ↔ Idle w e) ↔ Visible w e :=
  ((clocked_inductive x).reachable h).exact_iff hs hfired

/-! ### Sessions that tick soon

The second part of `Visible` is about sessions that do not tick for a whole turn of the clock. -/

/-- The first tick comes before the clock has made a whole turn since the session accepted its first
datagram; so it does if it comes within a turn of the opening of the session. -/
def TicksSoon (x : Ptr) (w : Watched) (e : Event) : Prop :=
  firedFor w.proc e = some x → w.ticks = [] → ∀ r ∈ w.heard, e.env.now < r + 2 ^ 32

structure Soon (w : Watched) : Prop where
  past : ∀ f ∈ w.ticks, f ≤ w.clock
  soon : ∀ f ∈ w.ticks.getLast?, ∀ r ∈ w.heard, f < r + 2 ^ 32

theorem Soon.step (h : Soon w) (hs : (watch x).step w e w') (hsoon : TicksSoon x w e) :
    Soon w' := by
  obtain ⟨-, hclock, hw'⟩ := hs
  have hpast : ∀ f ∈ w'.ticks, f ≤ e.env.now := by
    intro f hf
    rw [hw', Watched.after] at hf
    dsimp only at hf
    split_ifs at hf with hfired
    · rcases List.mem_cons.mp hf with rfl | hf
      · exact le_rfl
      · exact (h.past f hf).trans hclock
    · exact (h.past f hf).trans hclock
  refine ⟨by rwa [hw', Watched.after] at hpast ⊢, fun f hf r hr ↦ ?_⟩
  have hle := hpast f (List.mem_of_getLast? hf)
  -- a new datagram comes after every tick
  have hold : r = e.env.now ∨ r ∈ w.heard := by
    rw [hw', Watched.after] at hr
    dsimp only at hr
    split_ifs at hr
    · exact List.mem_cons.mp hr
    · exact .inr hr
  rcases hold with rfl | hr
  · omega
  rw [hw', Watched.after] at hf
  dsimp only at hf
  split_ifs at hf with hfired
  · rcases eq_or_ne w.ticks [] with hnil | hne
    · rw [hnil] at hf
      obtain rfl := Option.some.inj hf
      exact hsoon hfired hnil r hr
    · rw [List.getLast?_cons_of_ne_nil hne] at hf
      exact h.soon f hf r hr
  · exact h.soon f hf r hr

theorem soon_inductive (x : Ptr) :
    (((watch x).restrict (Punctual x)).restrict (TicksSoon x)).Inductive Soon where
  init _ hw := hw ▸ ⟨fun _ hf ↦ absurd hf List.not_mem_nil, fun _ hf ↦ nomatch hf⟩
  step _ _ _ h hs := h.step hs.1.1 hs.2

/-- Then the time stamp 0 is all that hides an idle session. -/
theorem timeout_exact_of_ticksSoon
    (h : (((watch x).restrict (Punctual x)).restrict (TicksSoon x)).Reachable w)
    (hs : (((watch x).restrict (Punctual x)).restrict (TicksSoon x)).step w e w')
    (hfired : firedFor w.proc e = some x) :
    (Expires x w w' ↔ Idle w e) ↔
      ∀ r ∈ w.heard.head?, 60000 < e.env.now - r → r % 2 ^ 32 ≠ 0 := by
  rw [((clocked_inductive x).reachable h.of_restrict).exact_iff hs.1 hfired]
  constructor
  · intro hvisible r hr hidle
    exact (hvisible r hr hidle).1
  · intro hstamp r hr hidle
    refine ⟨hstamp r hr hidle, .inl ?_⟩
    have hmem := List.mem_of_head? hr
    cases hlast : w.ticks.getLast? with
    | none => exact hs.2 hfired (List.getLast?_eq_none_iff.mp hlast) r hmem
    | some f => exact ((soon_inductive x).reachable h).soon f hlast r hmem

end Exact

/-! ### One datagram, one tick -/

/-- The server, its first session, and a datagram accepted at a given time. -/
def heardAt (r : ℕ) : Watched where
  proc := firstHeard { now := r }
  clock := r
  heard := [r]

theorem reachable_heardAt (r : ℕ) :
    ((watch 0).restrict (Punctual 0)).Reachable (heardAt r) := by
  have hsyn : ((watch 0).restrict (Punctual 0)).Reachable { proc := firstOpened, clock := r } := by
    refine @Lts.Reachable.step _ _ _ _ _ (.recv { now := r } (.inet 0 1) (udpPacket 1 5))
      (.init rfl) ⟨⟨@step_syn {} { now := r } ⟨rfl, rfl⟩ (.inet 0 1) 5, Nat.zero_le r, ?_⟩, ?_⟩
    · have hheard := @heardFrom_of_not_kcp {} { now := r } (.inet 0 1) (udpPacket 1 5)
        (by simp [classify_syn])
      simp [Watched.after, hheard, firedFor, Event.env]
    · intro hfired
      simp [firedFor] at hfired
  refine @Lts.Reachable.step _ _ _ _ _ (.recv { now := r } (.inet 0 1) firstByte) hsyn
    ⟨⟨step_firstHeard _ _, le_rfl, ?_⟩, ?_⟩
  · simp [Watched.after, heardFrom_firstByte, firedFor, Event.env, heardAt]
  · intro hfired
    simp [firedFor] at hfired

theorem firedFor_heardAt (r : ℕ) (env : Env) :
    firedFor (heardAt r).proc (.updateTimer env 2) = some 0 := rfl

/-- Its first tick may come at any later time. -/
theorem exists_step_heardAt {r t : ℕ} (h : r ≤ t) : ∃ w', ((watch 0).restrict (Punctual 0)).step
    (heardAt r) (.updateTimer { now := t } 2) w' := by
  have hcons := ((clocked_inductive 0).reachable (reachable_heardAt r)).consistent
  have henabled : Enabled (heardAt r).proc (.updateTimer { now := t } 2) := ⟨0, rfl⟩
  obtain ⟨p', hp', -⟩ := handle_cases hcons henabled
  exact ⟨(heardAt r).after 0 (.updateTimer { now := t } 2) p', ⟨⟨henabled, hp'⟩, h, rfl⟩,
    fun _ _ hlast ↦ nomatch hlast⟩

/-- A tick one minute after a datagram. -/
theorem timeout_exact_iff_visible_minute :
    ∃ w', ((watch 0).restrict (Punctual 0)).step (heardAt 1000)
      (.updateTimer { now := 61001 } 2) w' ∧ Expires 0 (heardAt 1000) w' := by
  obtain ⟨w', hw'⟩ := @exists_step_heardAt 1000 61001 (by decide)
  have hidle : Idle (heardAt 1000) (.updateTimer { now := 61001 } 2) := ⟨1000, rfl, by decide⟩
  have hvisible : Visible (heardAt 1000) (.updateTimer { now := 61001 } 2) := by
    intro r hr _
    obtain rfl := Option.some.inj hr
    exact ⟨by decide, .inl (by decide)⟩
  have hexact := timeout_exact_iff_visible (reachable_heardAt 1000) hw' (firedFor_heardAt _ _)
  exact ⟨w', hw', (hexact.mpr hvisible).mpr hidle⟩

/-- **The slip.** A datagram accepted when the clock has made exactly one turn leaves the mark of a
session that has received nothing: the tick a minute later finds the session idle, and keeps it. -/
theorem timeout_missed_at_turn :
    ((watch 0).restrict (Punctual 0)).Reachable (heardAt (2 ^ 32)) ∧
    ∃ w', ((watch 0).restrict (Punctual 0)).step (heardAt (2 ^ 32))
        (.updateTimer { now := 2 ^ 32 + 60001 } 2) w' ∧
      firedFor (heardAt (2 ^ 32)).proc (.updateTimer { now := 2 ^ 32 + 60001 } 2) = some 0 ∧
      ¬(Expires 0 (heardAt (2 ^ 32)) w' ↔
        Idle (heardAt (2 ^ 32)) (.updateTimer { now := 2 ^ 32 + 60001 } 2)) := by
  have hreach := reachable_heardAt (2 ^ 32)
  have hfired := firedFor_heardAt (2 ^ 32) { now := 2 ^ 32 + 60001 }
  obtain ⟨w', hw'⟩ := @exists_step_heardAt (2 ^ 32) (2 ^ 32 + 60001) (Nat.le_add_right _ _)
  refine ⟨hreach, w', hw', hfired, ?_⟩
  intro hexact
  have hclocked := (clocked_inductive 0).reachable hreach
  obtain ⟨r, hr, hr0, -⟩ := (hclocked.expires_iff hw'.1 hfired).mp
    (hexact.mpr ⟨2 ^ 32, rfl, by decide⟩)
  obtain rfl := Option.some.inj hr
  exact hr0 (Nat.mod_self _)

end Server
end KcpEcho
