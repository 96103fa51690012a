import Mathlib.Data.List.Infix

/-! What a sequence of events leaves behind: the items that some event brings in and none takes out
again, where an event brings in or takes out by the state that it finds. -/
namespace Provenance

variable {σ ε β : Type*} (step : σ → ε → σ) (born killed : σ → ε → β → Prop)

/-- An event brings the item in, and no later one takes it out. -/
def Alive (s : σ) (es : List ε) (b : β) : Prop :=
  ∃ past e rest, es = past ++ e :: rest ∧ born (past.foldl step s) e b ∧
    ∀ mid e', mid ++ [e'] <+: rest → ¬ killed ((past ++ e :: mid).foldl step s) e' b

variable {step born killed} {s : σ} {es : List ε} {e : ε} {b : β}

theorem not_alive_nil : ¬ Alive step born killed s [] b := by
  rintro ⟨past, e, rest, hes, -⟩
  exact absurd hes (by simp)

/-- The last event brings the item in, or leaves it alive. -/
theorem alive_concat_iff :
    Alive step born killed s (es ++ [e]) b ↔
      born (es.foldl step s) e b ∨
        Alive step born killed s es b ∧ ¬ killed (es.foldl step s) e b := by
  constructor
  · rintro ⟨past, e₀, rest, hes, hborn, hkept⟩
    rcases List.eq_nil_or_concat rest with rfl | ⟨rest, last, rfl⟩
    · obtain ⟨hpast, he⟩ := List.append_inj' hes rfl
      rw [hpast, List.singleton_inj.mp he]
      exact Or.inl hborn
    · have hsplit : es ++ [e] = (past ++ e₀ :: rest) ++ [last] := by simpa using hes
      obtain ⟨hes', he⟩ := List.append_inj' hsplit rfl
      rw [List.singleton_inj.mp he, hes']
      refine Or.inr ⟨⟨past, e₀, rest, rfl, hborn, ?_⟩, hkept rest last (by simp)⟩
      intro mid e' hmid
      exact hkept mid e' (hmid.trans (by simp))
  · rintro (hborn | ⟨⟨past, e₀, rest, rfl, hborn, hkept⟩, hlast⟩)
    · refine ⟨es, e, [], rfl, hborn, ?_⟩
      intro mid e' hmid
      exact absurd (List.prefix_nil.mp hmid) (by simp)
    · refine ⟨past, e₀, rest ++ [e], by simp, hborn, ?_⟩
      intro mid e' hmid
      rcases List.prefix_concat_iff.mp hmid with heq | hpre
      · obtain ⟨hmid', he⟩ := List.append_inj' heq rfl
        rw [hmid', List.singleton_inj.mp he]
        exact hlast
      · exact hkept mid e' hpre

/-- If every step brings in and takes out what it should, the items that are there are those that
are alive. -/
theorem mem_foldl_iff (mem : σ → β → Prop) {P : σ → Prop} (hs : P s) (hempty : ∀ b, ¬ mem s b)
    (hP : ∀ s e, P s → P (step s e))
    (hstep : ∀ s e b, P s → (mem (step s e) b ↔ born s e b ∨ mem s b ∧ ¬ killed s e b))
    (es : List ε) (b : β) : mem (es.foldl step s) b ↔ Alive step born killed s es b := by
  have hall : P (es.foldl step s) ∧
      (mem (es.foldl step s) b ↔ Alive step born killed s es b) := by
    induction es using List.reverseRecOn with
    | nil => exact ⟨hs, iff_of_false (hempty b) not_alive_nil⟩
    | append_singleton es e ih =>
      rw [List.foldl_concat, alive_concat_iff, ← ih.2]
      exact ⟨hP _ e ih.1, hstep _ e b ih.1⟩
  exact hall.2

end Provenance
