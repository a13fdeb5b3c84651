import Mathlib.Data.List.Pairwise
import Mathlib.Data.Set.Insert

/-!
# Lifetimes of objects in an event trace

A manually managed program uses objects and ends them, and its trace records both in order. Two
obligations follow: no object is used after its end (`Safe`), and an object the program is done
with has been ended exactly once (`EndedOnce`).

Both follow from bookkeeping. `Accounts S events T` says that `events` leads from the live objects
`S` to the live objects `T`: it uses what is in `S`, ends what is in `S` and not in `T`, and creates
nothing. A program that composes such steps never reasons about its whole trace.
-/

namespace Lifetime

/-- What a program does with an object. -/
inductive Event (ω : Type*)
  /-- The object is read, written or passed on. -/
  | use (o : ω)
  /-- The object is deleted, released, erased or closed. -/
  | finish (o : ω)
  deriving DecidableEq

variable {ω : Type*}

/-- No object is used after its end. -/
def Safe (trace : List (Event ω)) : Prop :=
  trace.Pairwise fun e f ↦ ∀ o, e = .finish o → f ≠ .use o

/-- The object is ended exactly once. -/
def EndedOnce [DecidableEq ω] (o : ω) (trace : List (Event ω)) : Prop :=
  trace.count (.finish o) = 1

theorem Safe.nil : Safe ([] : List (Event ω)) := List.Pairwise.nil

/-- A use comes first, so nothing ended before it. -/
theorem Safe.cons_use {o : ω} {trace : List (Event ω)} (h : Safe trace) :
    Safe (.use o :: trace) :=
  List.Pairwise.cons (fun _ _ _ h ↦ nomatch h) h

theorem safe_cons_finish {o : ω} {trace : List (Event ω)} :
    Safe (.finish o :: trace) ↔ .use o ∉ trace ∧ Safe trace := by
  rw [Safe, List.pairwise_cons]
  refine and_congr_left fun _ ↦ ⟨fun h hmem ↦ h _ hmem o rfl rfl, ?_⟩
  rintro h e he o' heq rfl
  cases heq
  exact h he

/-- Two traces run one after the other are safe when each is, and the second keeps off what the
first has ended. -/
theorem safe_append {s t : List (Event ω)} :
    Safe (s ++ t) ↔ Safe s ∧ Safe t ∧ ∀ o, .finish o ∈ s → .use o ∉ t := by
  rw [Safe, List.pairwise_append]
  refine and_congr_right fun _ ↦ and_congr_right fun _ ↦ ⟨fun h o ho ho' ↦ ?_, ?_⟩
  · exact h _ ho _ ho' o rfl rfl
  · rintro h e he f hf o rfl rfl
    exact h o he hf

/-- A use of an ended object, anywhere later, breaks safety. -/
theorem not_safe_of_use_after {o : ω} {s t : List (Event ω)} (hs : .finish o ∈ s)
    (ht : .use o ∈ t) : ¬Safe (s ++ t) :=
  fun h ↦ (safe_append.mp h).2.2 o hs ht

/-! ## Accounting for live objects -/

section Accounts

variable [DecidableEq ω] {S T U : Set ω} {s t : List (Event ω)} {o : ω}

/-- `trace` leads from the live objects `S` to the live objects `T`. -/
structure Accounts (S : Set ω) (trace : List (Event ω)) (T : Set ω) : Prop where
  kept : ∀ o ∈ T, o ∈ S ∧ .finish o ∉ trace
  once : ∀ o ∈ S, o ∉ T → EndedOnce o trace
  idle : ∀ o ∉ S, .finish o ∉ trace
  used : ∀ o, .use o ∈ trace → o ∈ S
  safe : Safe trace

namespace Accounts

theorem nil (S : Set ω) : Accounts S [] S where
  kept _ ho := ⟨ho, List.not_mem_nil⟩
  once _ ho hnot := absurd ho hnot
  idle _ _ := List.not_mem_nil
  used _ ho := absurd ho List.not_mem_nil
  safe := Safe.nil

theorem use (ho : o ∈ S) : Accounts S [.use o] S where
  kept p hp := ⟨hp, fun h ↦ nomatch List.mem_singleton.mp h⟩
  once p hp hnot := absurd hp hnot
  idle p _ h := nomatch List.mem_singleton.mp h
  used p hp := by
    cases List.mem_singleton.mp hp
    exact ho
  safe := Safe.nil.cons_use

theorem finish (ho : o ∈ S) : Accounts S [.finish o] (S \ {o}) where
  kept p hp := by
    refine ⟨hp.1, ?_⟩
    intro h
    cases List.mem_singleton.mp h
    exact hp.2 rfl
  once p hp hnot := by
    have heq : p = o := by
      by_contra hne
      exact hnot ⟨hp, hne⟩
    rw [EndedOnce, heq, List.count_singleton_self]
  idle p hp h := by
    cases List.mem_singleton.mp h
    exact hp ho
  used p hp := nomatch List.mem_singleton.mp hp
  safe := safe_cons_finish.mpr ⟨List.not_mem_nil, Safe.nil⟩

/-- **Composition.** An object that survives the first part may be ended in the second; one ended
in the first is neither used nor ended again. -/
theorem append (h : Accounts S s T) (h' : Accounts T t U) : Accounts S (s ++ t) U where
  kept o ho := by
    obtain ⟨hT, ht⟩ := h'.kept o ho
    obtain ⟨hS, hs⟩ := h.kept o hT
    exact ⟨hS, fun hmem ↦ (List.mem_append.mp hmem).elim hs ht⟩
  once o hS hU := by
    rw [EndedOnce, List.count_append]
    by_cases hT : o ∈ T
    · rw [List.count_eq_zero.mpr (h.kept o hT).2, h'.once o hT hU]
    · rw [h.once o hS hT, List.count_eq_zero.mpr (h'.idle o hT)]
  idle o ho hmem := by
    rcases List.mem_append.mp hmem with hs | ht
    · exact h.idle o ho hs
    · exact h'.idle o (fun hT ↦ ho (h.kept o hT).1) ht
  used o hmem := by
    rcases List.mem_append.mp hmem with hs | ht
    · exact h.used o hs
    · exact (h.kept o (h'.used o ht)).1
  safe := by
    refine safe_append.mpr ⟨h.safe, h'.safe, ?_⟩
    intro o hs ht
    exact (h.kept o (h'.used o ht)).2 hs

/-- Only the live objects matter, not how they are described. -/
theorem congr_right (h : Accounts S s T) (hT : T = U) : Accounts S s U := hT ▸ h

theorem uses {os : List ω} (h : ∀ o ∈ os, o ∈ S) : Accounts S (os.map .use) S := by
  induction os with
  | nil => exact nil S
  | cons o os ih =>
    exact (use (h o List.mem_cons_self)).append (ih fun p hp ↦ h p (List.mem_cons_of_mem _ hp))

theorem finishes {os : List ω} (hnodup : os.Nodup) (h : ∀ o ∈ os, o ∈ S) :
    Accounts S (os.map .finish) (S \ {o | o ∈ os}) := by
  induction os generalizing S with
  | nil => exact (nil S).congr_right (by ext p; simp)
  | cons o os ih =>
    obtain ⟨ho, hnodup⟩ := List.nodup_cons.mp hnodup
    have htail := @ih (S \ {o}) hnodup fun p hp ↦
      ⟨h p (List.mem_cons_of_mem _ hp), fun heq ↦ ho (heq ▸ hp)⟩
    apply ((finish (h o List.mem_cons_self)).append htail).congr_right
    ext p
    simp [and_assoc]

end Accounts
end Accounts

end Lifetime
