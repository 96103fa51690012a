import Mathlib.Algebra.BigOperators.Group.List.Basic
import Mathlib.Tactic.Ring
import Mobilink.Library.Transition

/-! Runs that have to end. Every step costs something, and is paid for by the rank of the state or by
what the step itself brings in. -/
namespace Transition

variable {σ ε : Type*}

/-- `Rank s n`: what is still to be paid in `s` is at most `n`. -/
structure Ranked (C : System σ ε) (Rank : σ → ℕ → Prop) (gain cost : ε → ℕ) : Prop where
  step : ∀ s e t n, C.Reachable s → Rank s n → C.step s e = some t →
    ∃ m, Rank t m ∧ m + cost e ≤ n + gain e

theorem sum_map_indicator (p : ε → Bool) (k : ℕ) (es : List ε) :
    (es.map fun e => if p e then k else 0).sum = k * es.countP p := by
  induction es with
  | nil => rfl
  | cons e es ih =>
    rw [List.map_cons, List.sum_cons, ih, List.countP_cons]
    split_ifs <;> ring

namespace Ranked

variable {C : System σ ε} {Rank : σ → ℕ → Prop} {gain cost : ε → ℕ} {s t : σ} {n : ℕ}

theorem run (h : Ranked C Rank gain cost) {es : List ε} (hs : C.Reachable s) (hn : Rank s n)
    (hrun : C.run s es = some t) :
    ∃ m, Rank t m ∧ m + (es.map cost).sum ≤ n + (es.map gain).sum := by
  induction es generalizing s n with
  | nil =>
    have hst : s = t := Option.some.inj hrun
    exact ⟨n, hst ▸ hn, le_rfl⟩
  | cons e es ih =>
    obtain ⟨u, hu, hrest⟩ := (C.run_cons_iff _ _ _ _).mp hrun
    obtain ⟨k, hk, hfirst⟩ := h.step s e u n hs hn hu
    obtain ⟨m, hm, hlater⟩ := ih (hs.step hu) hk hrest
    refine ⟨m, hm, ?_⟩
    rw [List.map_cons, List.sum_cons, List.map_cons, List.sum_cons]
    omega

/-- If nothing is brought in, a run has no more of the steps that cost something than the rank of
its first state. -/
theorem countP_le {pays : ε → Bool} (h : Ranked C Rank (fun _ => 0) fun e => if pays e then 1 else 0)
    {es : List ε} (hs : C.Reachable s) (hn : Rank s n) (hrun : C.run s es = some t) :
    es.countP pays ≤ n := by
  have hnothing : (es.map fun _ => 0).sum = 0 := by simp
  obtain ⟨m, -, hm⟩ := h.run hs hn hrun
  rw [sum_map_indicator, hnothing] at hm
  omega

/-- Each of the events in `starts` brings in `k`. -/
theorem countP_le_mul {starts pays : ε → Bool} {k : ℕ}
    (h : Ranked C Rank (fun e => if starts e then k else 0) fun e => if pays e then 1 else 0)
    {es : List ε} (hs : C.Reachable s) (hn : Rank s 0) (hrun : C.run s es = some t) :
    es.countP pays ≤ k * es.countP starts := by
  obtain ⟨m, -, hm⟩ := h.run hs hn hrun
  rw [sum_map_indicator, sum_map_indicator] at hm
  omega

/-- If there is always one more step that only costs, such steps lead to the end, wherever one
starts. `I` is what these steps keep. -/
theorem exists_run (h : Ranked C Rank gain cost) (I Done : σ → Prop) (Allowed : ε → Prop)
    (hcost : ∀ e, Allowed e → gain e < cost e)
    (hI : ∀ s e t, C.Reachable s → I s → Allowed e → C.step s e = some t → I t)
    (hprogress : ∀ s, C.Reachable s → I s → ¬ Done s → ∃ e, Allowed e ∧ (C.step s e).isSome = true)
    (hs : C.Reachable s) (hinv : I s) (hn : Rank s n) :
    ∃ es t, C.run s es = some t ∧ (∀ e ∈ es, Allowed e) ∧ es.length ≤ n ∧ Done t := by
  induction n using Nat.strong_induction_on generalizing s with
  | _ n ih =>
    by_cases hdone : Done s
    · exact ⟨[], s, rfl, by simp, Nat.zero_le n, hdone⟩
    · obtain ⟨e, he, hsome⟩ := hprogress s hs hinv hdone
      obtain ⟨u, hu⟩ := Option.isSome_iff_exists.mp hsome
      obtain ⟨m, hm, hpaid⟩ := h.step s e u n hs hn hu
      have hless := hcost e he
      have hmn : m < n := by omega
      obtain ⟨es, t, hrun, hes, hlength, ht⟩ := ih m hmn (hs.step hu) (hI s e u hs hinv he hu) hm
      refine ⟨e :: es, t, (C.run_cons_iff _ _ _ _).mpr ⟨u, hu, hrun⟩, ?_, ?_, ht⟩
      · exact List.forall_mem_cons.mpr ⟨he, hes⟩
      · rw [List.length_cons]
        omega

end Ranked
end Transition
