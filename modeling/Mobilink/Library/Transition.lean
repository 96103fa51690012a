import Mathlib.Data.List.Infix
import Mathlib.Data.Option.Basic

/-! Deterministic labelled transition systems with partial steps: runs, reachable states and the
induction rules for what one step preserves. -/
namespace Transition

/-- A refused event (one that is not enabled) has no successor. -/
structure System (σ ε : Type*) where
  init : σ
  step : σ → ε → Option σ

namespace System

variable {σ ε : Type*} (S : System σ ε)

def run (s : σ) : List ε → Option σ
  | [] => some s
  | e :: es => (S.step s e).bind (fun t => run t es)

def Reachable (s : σ) : Prop := ∃ es, S.run S.init es = some s

@[simp] theorem run_nil (s : σ) : S.run s [] = some s := rfl

theorem run_cons_iff (s u : σ) (e : ε) (es : List ε) :
    S.run s (e :: es) = some u ↔ ∃ t, S.step s e = some t ∧ S.run t es = some u := by
  simp only [run, Option.bind_eq_some_iff]

theorem run_append_iff (s u : σ) (es fs : List ε) :
    S.run s (es ++ fs) = some u ↔ ∃ t, S.run s es = some t ∧ S.run t fs = some u := by
  induction es generalizing s with
  | nil => simp
  | cons e es ih =>
    simp only [List.cons_append, run_cons_iff, ih]
    constructor
    · rintro ⟨t, ht, v, hv, hu⟩
      exact ⟨v, ⟨t, ht, hv⟩, hu⟩
    · rintro ⟨v, ⟨t, ht, hv⟩, hu⟩
      exact ⟨t, ht, v, hv, hu⟩

@[simp] theorem run_singleton (s : σ) (e : ε) : S.run s [e] = S.step s e := by
  cases h : S.step s e <;> simp [run, h]

/-- A run through an event, cut before and behind it. -/
theorem run_split_iff (s u : σ) (e : ε) (es fs : List ε) :
    S.run s (es ++ e :: fs) = some u ↔
      ∃ t t', S.run s es = some t ∧ S.step t e = some t' ∧ S.run t' fs = some u := by
  simp only [run_append_iff, run_cons_iff, exists_and_left]

/-- A run goes on from the state behind an event. -/
theorem run_split {s t t' : σ} {e : ε} {es : List ε} (hes : S.run s es = some t)
    (he : S.step t e = some t') (fs : List ε) : S.run s (es ++ e :: fs) = S.run t' fs := by
  apply Option.ext
  intro u
  rw [run_split_iff, hes]
  constructor
  · rintro ⟨_, u', ht, hu', hrun⟩
    rw [← Option.some.inj ht, he] at hu'
    exact Option.some.inj hu' ▸ hrun
  · exact fun hrun => ⟨t, t', rfl, he, hrun⟩

/-- The states that a run from `s` through `es` passes, its two ends included. -/
def Visited (s : σ) (es : List ε) (u : σ) : Prop := ∃ past, past <+: es ∧ S.run s past = some u

theorem reachable_init : S.Reachable S.init := ⟨[], rfl⟩

theorem visited_start (s : σ) (es : List ε) : S.Visited s es s := ⟨[], List.nil_prefix, rfl⟩

variable {S}

theorem Reachable.run {s t : σ} {es : List ε} (hs : S.Reachable s) (h : S.run s es = some t) :
    S.Reachable t := by
  obtain ⟨fs, hfs⟩ := hs
  exact ⟨fs ++ es, (S.run_append_iff _ _ _ _).mpr ⟨s, hfs, h⟩⟩

theorem Reachable.step {s t : σ} {e : ε} (hs : S.Reachable s) (h : S.step s e = some t) :
    S.Reachable t := by
  have hrun : S.run s [e] = some t := by
    rw [run_singleton]
    exact h
  exact hs.run hrun

theorem Visited.append {s u : σ} {es : List ε} (h : S.Visited s es u) (fs : List ε) :
    S.Visited s (es ++ fs) u := by
  obtain ⟨past, hpast, hrun⟩ := h
  exact ⟨past, hpast.trans (List.prefix_append es fs), hrun⟩

theorem visited_end {s t : σ} {es : List ε} (h : S.run s es = some t) : S.Visited s es t :=
  ⟨es, List.prefix_rfl, h⟩

/-- Induction on a run from its beginning, with the events behind it at hand. -/
theorem run_induction {P : List ε → σ → Prop} {s : σ} (h0 : P [] s)
    (hP : ∀ past u e u', S.run s past = some u → P past u → S.step u e = some u' →
      P (past ++ [e]) u') {t : σ} {es : List ε} (h : S.run s es = some t) : P es t := by
  induction es using List.reverseRecOn generalizing t with
  | nil =>
    have hst : s = t := Option.some.inj h
    exact hst ▸ h0
  | append_singleton past e ih =>
    obtain ⟨u, hu, hstep⟩ := (S.run_append_iff _ _ _ _).mp h
    rw [run_singleton] at hstep
    exact hP past u e t hu (ih hu) hstep

/-- What every step preserves holds at the end of every run that starts with it. -/
theorem run_preserves {P : σ → Prop} (hP : ∀ s e t, P s → S.step s e = some t → P t)
    {s t : σ} {es : List ε} (hs : P s) (h : S.run s es = some t) : P t := by
  induction es generalizing s with
  | nil =>
    have : s = t := Option.some.inj h
    exact this ▸ hs
  | cons e es ih =>
    obtain ⟨u, hu, ht⟩ := (S.run_cons_iff _ _ _ _).mp h
    exact ih (hP s e u hs hu) ht

/-- The invariant rule: initially true and kept by every step from a reachable state. -/
theorem Reachable.invariant {P : σ → Prop} (h0 : P S.init)
    (hP : ∀ s e t, S.Reachable s → P s → S.step s e = some t → P t)
    {s : σ} (hs : S.Reachable s) : P s := by
  obtain ⟨es, h⟩ := hs
  have hstep : ∀ s e t, S.Reachable s ∧ P s → S.step s e = some t → S.Reachable t ∧ P t := by
    rintro s e t ⟨hr, hp⟩ ht
    exact ⟨hr.step ht, hP s e t hr hp ht⟩
  exact (run_preserves hstep ⟨S.reachable_init, h0⟩ h).2

end System
end Transition
