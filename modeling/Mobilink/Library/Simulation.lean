import Mobilink.Library.Transition

/-! Simulation of one transition system by another, with what an observer sees of both. What is proved
of the reachable states of the abstract system then holds of the concrete one, up to the relation
between their states. -/
namespace Transition

variable {σ τ υ ε δ ζ κ : Type*}

/-- Every step of `C` from a reachable state is matched by a run of `A` in which the same is seen. -/
structure Simulation (C : System σ ε) (A : System τ δ) (seen : ε → Option κ) (seen' : δ → Option κ)
    (R : σ → τ → Prop) : Prop where
  init : R C.init A.init
  step : ∀ s t e s', C.Reachable s → R s t → C.step s e = some s' →
    ∃ fs t', A.run t fs = some t' ∧ fs.filterMap seen' = (seen e).toList ∧ R s' t'

namespace Simulation

variable {C : System σ ε} {A : System τ δ} {B : System υ ζ} {seen : ε → Option κ}
  {seen' : δ → Option κ} {seen'' : ζ → Option κ} {R : σ → τ → Prop} {Q : τ → υ → Prop}

theorem run (h : Simulation C A seen seen' R) {s s' : σ} {t : τ} {es : List ε} (hs : C.Reachable s)
    (hR : R s t) (hrun : C.run s es = some s') :
    ∃ fs t', A.run t fs = some t' ∧ fs.filterMap seen' = es.filterMap seen ∧ R s' t' := by
  induction es generalizing s t with
  | nil =>
    have hss : s = s' := Option.some.inj hrun
    exact ⟨[], t, rfl, rfl, hss ▸ hR⟩
  | cons e es ih =>
    obtain ⟨u, hu, hrest⟩ := (C.run_cons_iff _ _ _ _).mp hrun
    obtain ⟨fs, v, hfs, hfirst, hv⟩ := h.step s t e u hs hR hu
    obtain ⟨gs, t', hgs, hlater, ht'⟩ := ih (hs.step hu) hv hrest
    refine ⟨fs ++ gs, t', (A.run_append_iff _ _ _ _).mpr ⟨v, hfs, hgs⟩, ?_, ht'⟩
    rw [List.filterMap_append, hfirst, hlater, List.filterMap_cons]
    cases seen e <;> rfl

theorem reachable (h : Simulation C A seen seen' R) {s : σ} (hs : C.Reachable s) :
    ∃ t, A.Reachable t ∧ R s t := by
  obtain ⟨es, hes⟩ := hs
  obtain ⟨fs, t, hfs, -, ht⟩ := h.run C.reachable_init h.init hes
  exact ⟨t, ⟨fs, hfs⟩, ht⟩

/-- A system that simulates a simulating system does so for the first one, too. -/
theorem trans (h : Simulation C A seen seen' R) (h' : Simulation A B seen' seen'' Q) :
    Simulation C B seen seen'' fun s u => ∃ t, A.Reachable t ∧ R s t ∧ Q t u := by
  constructor
  · exact ⟨A.init, A.reachable_init, h.init, h'.init⟩
  · rintro s u e s' hs ⟨t, ht, hR, hQ⟩ hstep
    obtain ⟨fs, t', hfs, hseen, hR'⟩ := h.step s t e s' hs hR hstep
    obtain ⟨gs, u', hgs, hseen', hQ'⟩ := h'.run ht hQ hfs
    exact ⟨gs, u', hgs, hseen'.trans hseen, t', ht.run hfs, hR', hQ'⟩

end Simulation
end Transition
