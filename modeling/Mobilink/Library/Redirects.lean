import Mathlib.Data.Nat.Notation

/-! A client that follows redirects by itself, a limited number of times, over a world that every
exchange may change. -/
namespace Redirects

variable {σ ρ α : Type*}

inductive Failure where
  | transport
  | tooManyRedirects
  deriving DecidableEq

/-- What an exchange leads to: the end of the request, or the next one. -/
inductive Turn (ρ α : Type*) where
  | done (result : Except Failure α)
  | redirect (q : ρ)

variable (exchange : σ → ρ → σ × Option α) (follow : ρ → α → Option ρ)

/-- An exchange without an answer is a transport error. -/
def turn (s : σ) (q : ρ) : σ × Turn ρ α :=
  match exchange s q with
  | (s, none) => (s, .done (.error .transport))
  | (s, some a) =>
    match follow q a with
    | none => (s, .done (.ok a))
    | some q' => (s, .redirect q')

/-- At most `limit` redirects are followed. -/
def send : ℕ → σ → ρ → σ × Except Failure α
  | 0, s, q =>
    match turn exchange follow s q with
    | (s, .done result) => (s, result)
    | (s, .redirect _) => (s, .error .tooManyRedirects)
  | limit + 1, s, q =>
    match turn exchange follow s q with
    | (s, .done result) => (s, result)
    | (s, .redirect q') => send limit s q'

variable {exchange follow}

theorem send_of_answer {s s' : σ} {q : ρ} {a : α} (h : exchange s q = (s', some a))
    (hf : follow q a = none) (limit : ℕ) : send exchange follow limit s q = (s', .ok a) := by
  have hturn : turn exchange follow s q = (s', .done (.ok a)) := by
    rw [turn, h]
    simp only [hf]
  cases limit <;> simp only [send, hturn]

theorem send_of_redirect {s s' : σ} {q q' : ρ} {a : α} (h : exchange s q = (s', some a))
    (hf : follow q a = some q') (limit : ℕ) :
    send exchange follow (limit + 1) s q = send exchange follow limit s' q' := by
  have hturn : turn exchange follow s q = (s', .redirect q') := by
    rw [turn, h]
    simp only [hf]
  simp only [send, hturn]

theorem send_zero_of_redirect {s s' : σ} {q q' : ρ} {a : α} (h : exchange s q = (s', some a))
    (hf : follow q a = some q') :
    send exchange follow 0 s q = (s', .error .tooManyRedirects) := by
  have hturn : turn exchange follow s q = (s', .redirect q') := by
    rw [turn, h]
    simp only [hf]
  simp only [send, hturn]

/-- What every single exchange does to the world, a request with all its redirects does too. -/
theorem send_induction {R : σ → σ → Prop} (htrans : ∀ s t u, R s t → R t u → R s u)
    (hstep : ∀ s q, R s (exchange s q).1)
    (limit : ℕ) (s : σ) (q : ρ) : R s (send exchange follow limit s q).1 := by
  have hturn : ∀ s q, R s (turn exchange follow s q).1 := by
    intro s q
    have hs := hstep s q
    unfold turn
    split
    · rename_i t heq
      rw [heq] at hs
      exact hs
    · rename_i t a heq
      rw [heq] at hs
      split <;> exact hs
  induction limit generalizing s q with
  | zero =>
    have hs := hturn s q
    unfold send
    split <;> rename_i heq <;> rw [heq] at hs <;> exact hs
  | succ limit ih =>
    have hs := hturn s q
    unfold send
    split
    · rename_i heq
      rw [heq] at hs
      exact hs
    · rename_i t q' heq
      rw [heq] at hs
      exact htrans s t _ hs (ih t q')

/-! ### One exchange at a time -/

/-- A request between two exchanges: what is sent next, with the redirects that may still be followed,
or how it ended. -/
inductive Progress (ρ α : Type*) where
  | sending (limit : ℕ) (q : ρ)
  | ended (result : Except Failure α)

/-- What the answer to a request leads to. -/
def answered (follow : ρ → α → Option ρ) (limit : ℕ) (q : ρ) : Option α → Progress ρ α
  | none => .ended (.error .transport)
  | some a =>
    match follow q a, limit with
    | none, _ => .ended (.ok a)
    | some _, 0 => .ended (.error .tooManyRedirects)
    | some q', limit + 1 => .sending limit q'

section

variable {follow : ρ → α → Option ρ} {q q' : ρ} {a : α}

theorem answered_none (limit : ℕ) : answered follow limit q none = .ended (.error .transport) := rfl

theorem answered_of_answer (hf : follow q a = none) (limit : ℕ) :
    answered follow limit q (some a) = .ended (.ok a) := by
  simp only [answered, hf]

theorem answered_zero (hf : follow q a = some q') :
    answered follow 0 q (some a) = .ended (.error .tooManyRedirects) := by
  simp only [answered, hf]

theorem answered_succ (hf : follow q a = some q') (limit : ℕ) :
    answered follow (limit + 1) q (some a) = .sending limit q' := by
  simp only [answered, hf]

end

/-- The exchanges that one request makes from `p` on, oldest first. -/
inductive Exchanged (follow : ρ → α → Option ρ) (p : Progress ρ α) :
    List (ρ × Option α) → Progress ρ α → Prop where
  | start : Exchanged follow p [] p
  | next {es : List (ρ × Option α)} {limit : ℕ} {q : ρ} (a : Option α)
      (h : Exchanged follow p es (.sending limit q)) :
    Exchanged follow p (es ++ [(q, a)]) (answered follow limit q a)

/-- How many exchanges a request can have made. -/
def Progress.Spent (limit : ℕ) : Progress ρ α → ℕ → Prop
  | .sending left _, n => n + left = limit
  | .ended _, n => 1 ≤ n ∧ n ≤ limit + 1

namespace Exchanged

variable {follow : ρ → α → Option ρ} {limit : ℕ} {q : ρ} {es : List (ρ × Option α)}
  {p : Progress ρ α}

theorem spent (h : Exchanged follow (.sending limit q) es p) : p.Spent limit es.length := by
  induction h with
  | start => exact Nat.zero_add limit
  | @next es left q' answer _ ih =>
    have hleft : es.length + left = limit := ih
    have hlength : (es ++ [(q', answer)]).length = es.length + 1 := by simp
    have hended : ∀ result, (Progress.ended result : Progress ρ α).Spent limit (es.length + 1) :=
      fun _ => ⟨by omega, by omega⟩
    rw [hlength]
    cases answer with
    | none => exact hended _
    | some a =>
      cases hf : follow q' a with
      | none =>
        rw [answered_of_answer hf]
        exact hended _
      | some q'' =>
        cases left with
        | zero =>
          rw [answered_zero hf]
          exact hended _
        | succ left =>
          rw [answered_succ hf]
          change es.length + 1 + left = limit
          omega

theorem length_le (h : Exchanged follow (.sending limit q) es p) : es.length ≤ limit + 1 := by
  have hspent := h.spent
  cases p with
  | sending left q' =>
    have hleft : es.length + left = limit := hspent
    omega
  | ended result => exact hspent.2

/-- The first exchange is that of the request itself. -/
theorem head_cases (h : Exchanged follow (.sending limit q) es p) :
    (es = [] ∧ p = .sending limit q) ∨ ∃ a rest, es = (q, a) :: rest := by
  induction h with
  | start => exact Or.inl ⟨rfl, rfl⟩
  | @next es left q' a _ ih =>
    right
    obtain ⟨hes, hp⟩ | ⟨a', rest, hes⟩ := ih
    · rw [Progress.sending.injEq] at hp
      rw [hes, hp.2]
      exact ⟨a, [], rfl⟩
    · rw [hes]
      exact ⟨a', rest ++ [(q', a)], rfl⟩

/-- A request that nobody answers ends there. -/
theorem eq_transport_of_unanswered {result : Except Failure α}
    (h : Exchanged follow (.sending limit q) es (.ended result)) (hes : ∀ e ∈ es, e.2 = none) :
    result = .error .transport := by
  generalize hp : (Progress.ended result : Progress ρ α) = p at h
  cases h with
  | start => exact absurd hp (by simp)
  | @next es left q' answer _ =>
    obtain rfl : answer = none := hes (q', answer) (by simp)
    rw [answered_none] at hp
    exact Progress.ended.inj hp

/-- If the first answer is not followed, there is no second exchange. -/
theorem eq_singleton {a : α} {rest : List (ρ × Option α)}
    (h : Exchanged follow (.sending limit q) ((q, some a) :: rest) p) (hf : follow q a = none) :
    rest = [] ∧ p = .ended (.ok a) := by
  generalize hes : (q, some a) :: rest = es at h
  induction h generalizing rest with
  | start => exact absurd hes (by simp)
  | @next es left q' b hprev ih =>
    cases es with
    | nil =>
      simp only [List.nil_append, List.cons.injEq, Prod.mk.injEq] at hes
      obtain ⟨⟨hq, hb⟩, hrest⟩ := hes
      rw [← hq, ← hb]
      exact ⟨hrest, answered_of_answer hf left⟩
    | cons e es =>
      -- A longer list has this exchange at its head already, and the request had ended with it.
      obtain ⟨hhead, hrest⟩ := List.cons.inj hes
      have hsame : (q, some a) :: es = e :: es := by rw [hhead]
      exact absurd (ih hsame).2 (by simp)

end Exchanged

/-- What is left of a request that nobody interrupts. -/
def finish (exchange : σ → ρ → σ × Option α) (follow : ρ → α → Option ρ) (s : σ) :
    Progress ρ α → σ × Except Failure α
  | .sending limit q => send exchange follow limit s q
  | .ended result => (s, result)

/-- One exchange leaves what is left of a request as it was. -/
theorem finish_answered (exchange : σ → ρ → σ × Option α) (follow : ρ → α → Option ρ) (limit : ℕ)
    (s : σ) (q : ρ) :
    finish exchange follow (exchange s q).1 (answered follow limit q (exchange s q).2) =
      send exchange follow limit s q := by
  cases ha : (exchange s q).2 with
  | none =>
    have hturn : turn exchange follow s q = ((exchange s q).1, .done (.error .transport)) := by
      rw [turn, show exchange s q = ((exchange s q).1, none) from Prod.ext rfl ha]
    rw [answered_none]
    cases limit <;> simp only [finish, send, hturn]
  | some a =>
    have hex : exchange s q = ((exchange s q).1, some a) := Prod.ext rfl ha
    cases hf : follow q a with
    | none => rw [answered_of_answer hf, send_of_answer hex hf, finish]
    | some q' =>
      cases limit with
      | zero => rw [answered_zero hf, send_zero_of_redirect hex hf, finish]
      | succ limit => rw [answered_succ hf, send_of_redirect hex hf, finish]

end Redirects
