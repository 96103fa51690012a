import Mathlib.Algebra.BigOperators.Group.Finset.Piecewise
import Mathlib.Algebra.Order.BigOperators.Group.Finset
import Mobilink.Library.Locks
import Mobilink.Library.Ranked

/-! Operations that take a bounded number of steps, and their locks in ascending order: whoever is
scheduled, all calls return, after no more steps than their bounds add up to. -/
namespace Locks

variable {ι σ ℓ α ω : Type*}

/-- At most `n` steps are left. -/
def Program.Within : Program σ ℓ α → ℕ → Prop
  | .returned _, _ => True
  | .acquire _ next, n + 1 => next.Within n
  | .access _ next, n + 1 => ∀ s, (next s).Within n
  | .release _ next, n + 1 => next.Within n
  | _, 0 => False

theorem Program.Within.mono {p : Program σ ℓ α} {m n : ℕ} (h : p.Within m) (hmn : m ≤ n) :
    p.Within n := by
  induction p generalizing m n with
  | returned answer => cases n <;> trivial
  | acquire lock next ih =>
    cases m with
    | zero => exact absurd h id
    | succ m =>
      obtain ⟨n, rfl⟩ := Nat.exists_eq_add_of_le' (Nat.lt_of_lt_of_le m.succ_pos hmn)
      exact ih h (Nat.le_of_succ_le_succ hmn)
  | access update next ih =>
    cases m with
    | zero => exact absurd h id
    | succ m =>
      obtain ⟨n, rfl⟩ := Nat.exists_eq_add_of_le' (Nat.lt_of_lt_of_le m.succ_pos hmn)
      exact fun s => ih s (h s) (Nat.le_of_succ_le_succ hmn)
  | release lock next ih =>
    cases m with
    | zero => exact absurd h id
    | succ m =>
      obtain ⟨n, rfl⟩ := Nat.exists_eq_add_of_le' (Nat.lt_of_lt_of_le m.succ_pos hmn)
      exact ih h (Nat.le_of_succ_le_succ hmn)

namespace Event

def isStart : Event ι ω → Bool
  | .start _ _ => true
  | .advance _ => false

def isAdvance : Event ι ω → Bool
  | .start _ _ => false
  | .advance _ => true

variable [DecidableEq ι]

def startsOf (i : ι) : Event ι ω → Bool
  | .start j _ => j = i
  | .advance _ => false

def advancesOf (i : ι) : Event ι ω → Bool
  | .start _ _ => false
  | .advance j => j = i

end Event

section

variable [DecidableEq ι]

/-- The steps that the callers have left add up to at most `n`. -/
def Outstanding (s : State ι σ ℓ α) (n : ℕ) : Prop :=
  ∃ (S : Finset ι) (left : ι → ℕ), ∑ i ∈ S, left i ≤ n ∧
    ∀ i p, s.callers i = some p → i ∈ S ∧ p.Within (left i)

/-- One caller's steps change. -/
theorem Outstanding.withCaller {s t : State ι σ ℓ α} {S : Finset ι} {left : ι → ℕ} {i : ι}
    {p : Program σ ℓ α} {k : ℕ} (h : ∀ j q, s.callers j = some q → j ∈ S ∧ q.Within (left j))
    (ht : t.callers = Function.update s.callers i (some p)) (hp : p.Within k) :
    Outstanding t (k + ∑ j ∈ insert i S \ {i}, left j) := by
  refine ⟨insert i S, Function.update left i k, ?_, ?_⟩
  · rw [Finset.sum_update_of_mem (Finset.mem_insert_self i S)]
  · intro j q hq
    rw [ht] at hq
    by_cases hj : j = i
    · subst hj
      rw [Function.update_self] at hq ⊢
      exact ⟨Finset.mem_insert_self j S, Option.some.inj hq ▸ hp⟩
    · rw [Function.update_of_ne hj] at hq ⊢
      exact ⟨Finset.mem_insert_of_mem (h j q hq).1, (h j q hq).2⟩

variable [DecidableEq ℓ] {code : ω → Program σ ℓ α} {s t : State ι σ ℓ α}

/-- What a step leaves of its caller's operation. -/
theorem Move.callers {e : Event ι ω} (h : Move code s e t) :
    match e with
    | .start i op => t.callers = Function.update s.callers i (some (code op))
    | .advance i => ∃ p p', s.callers i = some p ∧
        t.callers = Function.update s.callers i (some p') ∧
        ∀ n, p.Within n → ∃ m, n = m + 1 ∧ p'.Within m := by
  have hnone : ∀ {p p' : Program σ ℓ α}, ¬ p.Within 0 → (∀ m, p.Within (m + 1) → p'.Within m) →
      ∀ n, p.Within n → ∃ m, n = m + 1 ∧ p'.Within m := by
    intro p p' hzero hsucc n hn
    cases n with
    | zero => exact absurd hn hzero
    | succ m => exact ⟨m, rfl, hsucc m hn⟩
  cases h with
  | start _ => rfl
  | acquire hp _ => exact ⟨_, _, hp, rfl, hnone id fun _ hm => hm⟩
  | access hp => exact ⟨_, _, hp, rfl, hnone id fun _ hm => hm s.shared⟩
  | release hp => exact ⟨_, _, hp, rfl, hnone id fun _ hm => hm⟩

theorem outstanding_init (code : ω → Program σ ℓ α) (init : σ) :
    Outstanding (system (ι := ι) code init).init 0 :=
  ⟨∅, fun _ => 0, by simp, fun i p hp => absurd hp (by simp [system])⟩

/-- A call brings its bound in, and every other step costs one. -/
theorem ranked_outstanding {k : ℕ} (hcode : ∀ op, (code op).Within k) (init : σ) :
    Transition.Ranked (system (ι := ι) code init) Outstanding
      (fun e => if e.isStart then k else 0) fun e => if e.isAdvance then 1 else 0 := by
  constructor
  rintro s e t n - ⟨S, left, hsum, hcallers⟩ hstep
  have hmove := (move_of_step hstep).callers
  cases e with
  | start i op =>
    have hless : ∑ j ∈ insert i S \ {i}, left j ≤ ∑ j ∈ S, left j := by
      apply Finset.sum_le_sum_of_subset
      intro j hj
      rw [Finset.mem_sdiff, Finset.mem_insert, Finset.mem_singleton] at hj
      exact hj.1.resolve_left hj.2
    refine ⟨_, Outstanding.withCaller hcallers hmove (hcode op), ?_⟩
    simp only [Event.isStart, Event.isAdvance]
    simp
    omega
  | advance i =>
    obtain ⟨p, p', hp, ht, hwithin⟩ := hmove
    obtain ⟨hi, hn⟩ := hcallers i p hp
    obtain ⟨m, hm, hp'⟩ := hwithin _ hn
    have hsame : ∑ j ∈ S, left j = left i + ∑ j ∈ insert i S \ {i}, left j := by
      rw [Finset.insert_eq_of_mem hi, Finset.sum_eq_add_sum_sdiff_singleton_of_mem hi]
    refine ⟨_, Outstanding.withCaller hcallers ht hp', ?_⟩
    simp only [Event.isStart, Event.isAdvance]
    simp
    omega

/-- The same for the steps of one caller. -/
theorem ranked_within {k : ℕ} (hcode : ∀ op, (code op).Within k) (init : σ) (i : ι) :
    Transition.Ranked (system code init) (fun s n => ∀ p, s.callers i = some p → p.Within n)
      (fun e => if e.startsOf i then k else 0) fun e => if e.advancesOf i then 1 else 0 := by
  constructor
  intro s e t n _ hn hstep
  have hmove := (move_of_step hstep).callers
  cases e with
  | start j op =>
    dsimp only at hmove
    by_cases hj : j = i
    · subst hj
      refine ⟨k, ?_, by simp [Event.startsOf, Event.advancesOf]⟩
      intro p hp
      rw [hmove, Function.update_self] at hp
      exact Option.some.inj hp ▸ hcode op
    · refine ⟨n, ?_, by simp [Event.startsOf, Event.advancesOf, hj]⟩
      intro p hp
      rw [hmove, Function.update_of_ne (Ne.symm hj)] at hp
      exact hn p hp
  | advance j =>
    obtain ⟨p, p', hp, ht, hwithin⟩ := hmove
    by_cases hj : j = i
    · subst hj
      obtain ⟨m, rfl, hp'⟩ := hwithin n (hn p hp)
      refine ⟨m, ?_, by simp [Event.startsOf, Event.advancesOf]⟩
      intro q hq
      rw [ht, Function.update_self] at hq
      exact Option.some.inj hq ▸ hp'
    · refine ⟨n, ?_, by simp [Event.startsOf, Event.advancesOf, hj]⟩
      intro q hq
      rw [ht, Function.update_of_ne (Ne.symm hj)] at hq
      exact hn q hq

/-- A caller makes no more steps than the bounds of its calls allow. -/
theorem countP_advancesOf_le {k : ℕ} (hcode : ∀ op, (code op).Within k) {init : σ}
    {es : List (Event ι ω)} (h : (system code init).run (system code init).init es = some s) (i : ι) :
    es.countP (Event.advancesOf i) ≤ k * es.countP (Event.startsOf i) :=
  (ranked_within hcode init i).countP_le_mul (system code init).reachable_init
    (fun p hp => absurd hp (by simp [system])) h

/-- From every state that can be reached, steps of the callers alone lead to one where all calls
have returned. -/
theorem exists_all_returned [Preorder ℓ] [WellFoundedGT ℓ] {k : ℕ}
    (hcode : ∀ op, (code op).Within k) (hordered : ∀ op, (code op).Ordered ∅) {init : σ}
    (hs : (system code init).Reachable s) :
    ∃ es t, (system code init).run s es = some t ∧ (∀ e ∈ es, Event.isAdvance e = true) ∧
      ∀ i, ¬ t.Unfinished i := by
  have hcost : ∀ e : Event ι ω, e.isAdvance = true →
      (if e.isStart then k else 0) < if e.isAdvance then 1 else 0 := by
    intro e he
    cases e with
    | start i op => exact absurd he (by simp [Event.isAdvance])
    | advance i => simp [Event.isStart, Event.isAdvance]
  have hprogress : ∀ s, (system code init).Reachable s → ¬ (∀ i, ¬ s.Unfinished i) →
      ∃ e : Event ι ω, e.isAdvance = true ∧ ((system code init).step s e).isSome = true := by
    intro s hs hdone
    obtain ⟨i, hi⟩ := not_forall.mp hdone
    obtain ⟨j, -, hstep⟩ := exists_step hordered hs ⟨i, not_not.mp hi⟩
    exact ⟨.advance j, rfl, hstep⟩
  obtain ⟨past, hpast⟩ := hs
  obtain ⟨n, hn, -⟩ := (ranked_outstanding hcode init).run (system code init).reachable_init
    (outstanding_init code init) hpast
  obtain ⟨es, t, hrun, hes, -, ht⟩ := (ranked_outstanding hcode init).exists_run (fun _ => True)
    (fun t => ∀ i, ¬ t.Unfinished i) (fun e => e.isAdvance = true) hcost (fun _ _ _ _ _ _ _ => trivial)
    (fun s hs _ => hprogress s hs) ⟨past, hpast⟩ trivial hn
  exact ⟨es, t, hrun, hes, ht⟩

end

end Locks
