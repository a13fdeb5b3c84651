import KcpEcho.Base.Pacing
import KcpEcho.Ikcp.Schedule
import KcpEcho.Session.Usage

/-!
# How often a session flushes

The update timer fires when the event loop gets to it. A session runs here next to a true clock:
whatever it is fed, and at whatever times the timer fires, its flushes keep the pace of one in every
10 ms, and none is put off for longer than that once the timer fires. The session itself knows the
true clock only by its low 32 bits; the deadline it keeps is a pacer's all the same, as long as the
timer is not silent for a whole turn of the clock.
-/

namespace KcpEcho

open Pacing

/-! ## The deadline in true time -/

section Deadline

variable {kcp : Ikcpcb} {due now period : ℕ}

/-- Up to a whole turn of the clock later: from half a turn on, a past number shows as one ahead. -/
theorem itimediff_ofNat_of_le (hle : due ≤ now) (hlt : now < due + 2 ^ 32) :
    itimediff (UInt32.ofNat now) (UInt32.ofNat due) =
      if now < due + 2 ^ 31 then (now : ℤ) - due else now - due - 2 ^ 32 := by
  have helapsed := @Serial.elapsed_ofNat 32 now due hle
  rw [Nat.mod_eq_of_lt (by omega)] at helapsed
  rw [itimediff_eq_diff, UInt32.toBitVec_ofNat', UInt32.toBitVec_ofNat', Serial.diff_eq_elapsed,
    helapsed]
  split_ifs <;> omega

theorem flushDue_iff (hupd : kcp.updated ≠ 0) (hts : kcp.tsFlush = UInt32.ofNat due)
    (hnear : due ≤ now + 10000) (hfar : now < due + (2 ^ 32 - 10000)) :
    flushDue kcp (UInt32.ofNat now) = true ↔ due ≤ now := by
  rw [flushDue, updateClock_of_updated hupd, decide_eq_true_eq, hts]
  dsimp only
  rcases le_or_gt due now with hle | hlt
  · rw [itimediff_ofNat_of_le hle (by omega)]
    split_ifs <;> omega
  · have hdiff := @itimediff_ofNat now due ⟨by omega, by omega⟩
    omega

/-- A flush moves the deadline as a pacer does. -/
theorem tsFlush_scheduled (hupd : kcp.updated ≠ 0) (hts : kcp.tsFlush = UInt32.ofNat due)
    (hinterval : kcp.interval = UInt32.ofNat period) (hperiod : 0 < period ∧ period ≤ 5000)
    (hpast : due ≤ now) (hfar : now < due + (2 ^ 32 - 10000)) :
    (scheduled kcp (UInt32.ofNat now)).tsFlush = UInt32.ofNat (next period due now) := by
  have hnext : ∀ base : Ikcpcb, base.current = UInt32.ofNat now → base.interval = kcp.interval →
      ∀ d, base.tsFlush = UInt32.ofNat d → d ≤ now → now < d + 10000 →
        (scheduleFlush base).tsFlush = UInt32.ofNat (next period d now) := by
    intro base hcurrent hsame d hd hle hlt
    have hdiff := @itimediff_ofNat now (d + period) ⟨by omega, by omega⟩
    push_cast at hdiff
    unfold scheduleFlush
    dsimp only
    rw [hcurrent, hsame, hinterval, hd, ← UInt32.ofNat_add, next]
    by_cases hlate : now < d + period
    · rw [if_neg (by omega), if_pos hlate]
    · rw [if_pos (by omega), if_neg hlate, ← UInt32.ofNat_add]
  rw [scheduled, updateClock_of_updated hupd, hts]
  dsimp only
  rcases lt_or_ge now (due + 10000) with hlt | hge
  · have hdiff := @itimediff_ofNat now due ⟨by omega, by omega⟩
    rw [if_neg (by omega)]
    exact hnext { kcp with current := UInt32.ofNat now, tsFlush := UInt32.ofNat due } rfl rfl due
      rfl hpast hlt
  · -- the clock has run far ahead, and the deadline starts afresh
    have hjump : itimediff (UInt32.ofNat now) (UInt32.ofNat due) ≥ 10000 ∨
        itimediff (UInt32.ofNat now) (UInt32.ofNat due) < -10000 := by
      rw [itimediff_ofNat_of_le hpast (by omega)]
      split_ifs <;> omega
    have hafresh : next period now now = next period due now := by
      rw [next, next, if_pos (by omega), if_neg (by omega)]
    rw [if_pos hjump, ← hafresh]
    exact hnext { kcp with current := UInt32.ofNat now, tsFlush := UInt32.ofNat now } rfl rfl now
      rfl le_rfl (by omega)

theorem first_update (hupd : kcp.updated = 0) (hinterval : kcp.interval = UInt32.ofNat period)
    (hperiod : 0 < period ∧ period ≤ 5000) :
    flushDue kcp (UInt32.ofNat now) = true ∧
      (scheduled kcp (UInt32.ofNat now)).tsFlush = UInt32.ofNat (now + period) := by
  have hclock : updateClock kcp (UInt32.ofNat now) =
      { kcp with
        current := UInt32.ofNat now, updated := 1, tsFlush := UInt32.ofNat now } := if_pos hupd
  have hnow := @itimediff_ofNat now now ⟨by omega, by omega⟩
  have hnext := @itimediff_ofNat now (now + period) ⟨by omega, by omega⟩
  push_cast at hnext
  constructor
  · rw [flushDue, hclock, decide_eq_true_eq]
    dsimp only
    omega
  · rw [scheduled, hclock]
    dsimp only
    rw [if_neg (by omega), scheduleFlush]
    dsimp only
    rw [hinterval, ← UInt32.ofNat_add, if_neg (by omega)]

end Deadline

theorem ikcpUpdate_clock {kcp : Ikcpcb} {current : UInt32} :
    (ikcpUpdate kcp current).1.clockSide =
      if flushDue kcp current then (scheduled kcp current).clockSide
      else (updateClock kcp current).clockSide := by
  by_cases hdue : flushDue kcp current = true
  · rw [if_pos hdue, ikcpUpdate_of_due hdue, ikcpFlush_clock]
  · rw [if_neg hdue, ikcpUpdate_of_not_due (Bool.not_eq_true _ ▸ hdue)]

/-! ## The system -/

/-- A session, the true times its timer fired at and those it flushed at, the latest first. -/
structure PacedSession where
  kcp : Ikcpcb
  ticks : List ℕ := []
  flushes : List ℕ := []

inductive PacedEvent
  /-- A call other than `ikcp_update`. -/
  | call (usage : Usage)
  /-- The timer fires, at a true time. -/
  | tick (now : ℕ)

/-- The update of one tick. -/
def PacedSession.tick (s : PacedSession) (now : ℕ) : PacedSession where
  kcp := s.kcp.after (.update (UInt32.ofNat now))
  ticks := now :: s.ticks
  flushes := if flushDue s.kcp (UInt32.ofNat now) then now :: s.flushes else s.flushes

/-- The timer fires in the order of time, and is never silent for almost a turn of the clock. -/
def Punctual (s : PacedSession) : PacedEvent → Prop
  | .call _ => True
  | .tick now => ∀ last ∈ s.ticks.head?, last ≤ now ∧ now < last + (2 ^ 32 - 10000)

/-- What holds along a run: before the first tick nothing has been flushed; afterwards the session
keeps a pacer's deadline. -/
structure PacedSession.Pacing (conv : UInt32) (user : Ptr) (s : PacedSession) : Prop where
  config : s.kcp.config = (configuredKcp conv user).config
  idle : s.ticks = [] → s.kcp.updated = 0 ∧ s.flushes = []
  running : ∀ last ∈ s.ticks.head?, s.kcp.updated ≠ 0 ∧ ∃ due, s.kcp.tsFlush = UInt32.ofNat due ∧
    Paced 10 s.flushes due ∧ last < due ∧ ∃ latest ∈ s.flushes.head?, latest ≤ last
  /-- A tick leaves nothing unflushed for 10 ms. -/
  served : ∀ now ∈ s.ticks, ∃ t ∈ s.flushes, t ≤ now ∧ now < t + 10

namespace PacedSession.Pacing

variable {conv : UInt32} {user : Ptr} {s : PacedSession}

theorem init (conv : UInt32) (user : Ptr) :
    Pacing conv user { kcp := configuredKcp conv user } where
  config := rfl
  idle _ := ⟨rfl, rfl⟩
  running last hlast := absurd hlast (by simp)
  served now hnow := absurd hnow List.not_mem_nil

theorem interval_eq (h : s.Pacing conv user) : s.kcp.interval = UInt32.ofNat 10 :=
  congrArg IkcpConfig.interval h.config

theorem call (h : s.Pacing conv user) {usage : Usage} (hcall : ∀ current, usage ≠ .update current) :
    Pacing conv user { s with kcp := s.kcp.after usage } := by
  have hclock : (s.kcp.after usage).clockSide = s.kcp.clockSide := by
    cases usage with
    | send buffer => exact ikcpSend_clock _ _
    | input data => exact ikcpInput_clock _ _
    | recv len => exact ikcpRecv_clock _ _
    | update current => exact absurd rfl (hcall current)
  have hupd : (s.kcp.after usage).updated = s.kcp.updated := congrArg ClockSide.updated hclock
  have hts : (s.kcp.after usage).tsFlush = s.kcp.tsFlush := congrArg ClockSide.tsFlush hclock
  exact ⟨(s.kcp.after_config usage).trans h.config, hupd ▸ h.idle, hupd ▸ hts ▸ h.running,
    h.served⟩

theorem flushed (h : s.Pacing conv user) {now due : ℕ}
    (hdue : flushDue s.kcp (UInt32.ofNat now) = true)
    (hts : (scheduled s.kcp (UInt32.ofNat now)).tsFlush = UInt32.ofNat due)
    (hpaced : Paced 10 (now :: s.flushes) due) : (s.tick now).Pacing conv user := by
  have hclock := @ikcpUpdate_clock s.kcp (UInt32.ofNat now)
  rw [if_pos hdue] at hclock
  have hupd : (ikcpUpdate s.kcp (UInt32.ofNat now)).1.updated ≠ 0 :=
    (congrArg ClockSide.updated hclock).trans_ne (scheduled_sides _ _).2.2.2.1
  have htick : (s.tick now).flushes = now :: s.flushes := if_pos hdue
  refine ⟨(s.kcp.after_config _).trans h.config, fun hnil ↦ absurd hnil (List.cons_ne_nil _ _),
    ?_, ?_⟩
  · intro last hlast
    obtain rfl := Option.some.inj hlast
    rw [htick]
    exact ⟨hupd, due, (congrArg ClockSide.tsFlush hclock).trans hts, hpaced,
      (hpaced.near _ rfl).1, _, rfl, le_rfl⟩
  · intro t ht
    rw [htick]
    rcases List.mem_cons.mp ht with rfl | ht
    · exact ⟨t, List.mem_cons_self, le_rfl, by omega⟩
    · obtain ⟨u, hu, hle, hlt⟩ := h.served t ht
      exact ⟨u, List.mem_cons_of_mem _ hu, hle, hlt⟩

theorem waited (h : s.Pacing conv user) {now due latest : ℕ} (hupd : s.kcp.updated ≠ 0)
    (hts : s.kcp.tsFlush = UInt32.ofNat due) (hpaced : Paced 10 s.flushes due)
    (hlatest : latest ∈ s.flushes.head?) (hbefore : latest ≤ now) (hnow : now < due)
    (hdue : flushDue s.kcp (UInt32.ofNat now) ≠ true) : (s.tick now).Pacing conv user := by
  have hclock := @ikcpUpdate_clock s.kcp (UInt32.ofNat now)
  rw [if_neg hdue, updateClock_of_updated hupd] at hclock
  have htick : (s.tick now).flushes = s.flushes := if_neg hdue
  refine ⟨(s.kcp.after_config _).trans h.config, fun hnil ↦ absurd hnil (List.cons_ne_nil _ _),
    ?_, ?_⟩
  · intro t ht
    obtain rfl := Option.some.inj ht
    rw [htick]
    exact ⟨(congrArg ClockSide.updated hclock).trans_ne hupd, due,
      (congrArg ClockSide.tsFlush hclock).trans hts, hpaced, hnow, latest, hlatest, hbefore⟩
  · intro t ht
    rw [htick]
    rcases List.mem_cons.mp ht with rfl | ht
    · exact ⟨latest, List.mem_of_head? hlatest, hbefore,
        not_le.mp fun hlate ↦ hnow.not_ge (hpaced.prompt hlatest hlate)⟩
    · exact h.served t ht

theorem tick (h : s.Pacing conv user) {now : ℕ} (hpunctual : Punctual s (.tick now)) :
    (s.tick now).Pacing conv user := by
  rcases hticks : s.ticks.head? with _ | last
  · -- the first tick
    obtain ⟨hupd, hnone⟩ := h.idle (List.head?_eq_none_iff.mp hticks)
    obtain ⟨hdue, hts⟩ := @first_update s.kcp now 10 hupd h.interval_eq (by decide)
    refine h.flushed hdue hts ?_
    rw [hnone]
    exact Paced.first (by decide) now
  · obtain ⟨hle, hgap⟩ := hpunctual last hticks
    obtain ⟨hupd, due, hts, hpaced, hafter, latest, hlatest, hbefore⟩ := h.running last hticks
    have hnear := (hpaced.near latest hlatest).2
    have hiff := @flushDue_iff s.kcp due now hupd hts (by omega) (by omega)
    by_cases hpast : due ≤ now
    · exact h.flushed (hiff.mpr hpast)
        (tsFlush_scheduled hupd hts h.interval_eq (by decide) hpast (by omega))
        (hpaced.fire (by decide) hpast)
    · exact h.waited hupd hts hpaced hlatest (hbefore.trans hle) (not_le.mp hpast)
        (hiff.not.mpr hpast)

end PacedSession.Pacing

end KcpEcho
