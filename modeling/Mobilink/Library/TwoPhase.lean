import Mathlib.Data.Finset.Basic
import Mobilink.Library.Locks
import Mobilink.Library.Simulation

/-! Two-phase locking. Every lock guards a part of the shared state. From the first lock that it takes
to the last one that it gives back, a caller touches only what its locks guard, and once it has given
one back, it only gives back the others: then all this is as good as a single step. -/
namespace Locks

variable {ι σ ℓ α ω : Type*} {τ : ℓ → Type*}

/-- The part of the shared state behind every lock, in the states that differ in nothing else. -/
structure Parts (σ : Type*) {ℓ : Type*} (τ : ℓ → Type*) where
  part : ∀ l, σ → τ l
  Valid : σ → Prop
  ext : ∀ {s t}, Valid s → Valid t → (∀ l, part l s = part l t) → s = t
  exists_mix : ∀ (held : Finset ℓ) {s t}, Valid s → Valid t →
    ∃ u, Valid u ∧ (∀ l ∈ held, part l u = part l s) ∧ ∀ l ∉ held, part l u = part l t

/-- What an access does depends on, and changes, nothing but what the locks in `held` guard. -/
structure Parts.Confines (G : Parts σ τ) (held : Finset ℓ) (update : σ → σ)
    (next : σ → Program σ ℓ α) : Prop where
  valid : ∀ s, G.Valid s → G.Valid (update s)
  next_eq : ∀ s t, G.Valid s → G.Valid t → (∀ l ∈ held, G.part l s = G.part l t) → next s = next t
  changes : ∀ s t, G.Valid s → G.Valid t → (∀ l ∈ held, G.part l s = G.part l t) →
    ∀ l ∈ held, G.part l (update s) = G.part l (update t)
  keeps : ∀ s, G.Valid s → ∀ l ∉ held, G.part l (update s) = G.part l s

/-- Without a lock, an access changes nothing. -/
theorem Parts.Confines.update_eq {G : Parts σ τ} {update : σ → σ} {next : σ → Program σ ℓ α}
    (h : G.Confines ∅ update next) {s : σ} (hs : G.Valid s) : update s = s :=
  G.ext (h.valid s hs) hs fun l => h.keeps s hs l (Finset.notMem_empty l)

theorem Parts.confines_read (G : Parts σ τ) {held : Finset ℓ} {next : σ → Program σ ℓ α}
    (h : ∀ s t, G.Valid s → G.Valid t → (∀ l ∈ held, G.part l s = G.part l t) → next s = next t) :
    G.Confines held id next :=
  ⟨fun _ hs => hs, h, fun _ _ _ _ hsame => hsame, fun _ _ _ _ => rfl⟩

namespace Program

variable [DecidableEq ℓ]

/-- `released`: the caller has given a lock back, and still holds those in `held`. -/
def TwoPhase (G : Parts σ τ) : Program σ ℓ α → Finset ℓ → Bool → Prop
  | .acquire lock next, held, released =>
    released = false ∧ next.TwoPhase G (insert lock held) false
  | .access update next, held, released => released = false ∧ G.Confines held update next ∧
    ∀ s, G.Valid s → (next s).TwoPhase G held false
  | .release lock next, held, _ =>
    lock ∈ held ∧ next.TwoPhase G (held.erase lock) (decide (held.erase lock ≠ ∅))
  | .returned _, held, _ => held = ∅

/-- The rest of a section, without any other caller. -/
def finish : Program σ ℓ α → Finset ℓ → σ → σ × Program σ ℓ α
  | .acquire lock next, held, s => next.finish (insert lock held) s
  | .access update next, held, s => (next s).finish held (update s)
  | .release lock next, held, s =>
    if held.erase lock = ∅ then (s, next) else next.finish (held.erase lock) s
  | .returned answer, _, s => (s, .returned answer)

/-- A whole section, or an access without a lock. -/
def atomically : Program σ ℓ α → σ → Option (σ × Program σ ℓ α)
  | .acquire lock next, s => some (next.finish {lock} s)
  | .access update next, s => some (update s, next s)
  | _, _ => none

variable {G : Parts σ τ}

/-- Once a lock has been given back, nothing happens any more until the end of the section. -/
theorem finish_of_released {p : Program σ ℓ α} {held : Finset ℓ} (h : p.TwoPhase G held true)
    (hne : held ≠ ∅) : ∃ P, ∀ s, p.finish held s = (s, P) := by
  induction p generalizing held with
  | acquire lock next _ => exact absurd h.1 (by simp)
  | access update next _ => exact absurd h.1 (by simp)
  | release lock next ih =>
    by_cases hlast : held.erase lock = ∅
    · exact ⟨next, fun s => by rw [finish, if_pos hlast]⟩
    · have hnext := h.2
      rw [decide_eq_true hlast] at hnext
      obtain ⟨P, hP⟩ := ih hnext hlast
      exact ⟨P, fun s => by rw [finish, if_neg hlast, hP]⟩
  | returned answer => exact absurd h hne

theorem valid_runAlone {p : Program σ ℓ α} {held : Finset ℓ} {released : Bool}
    (h : p.TwoPhase G held released) {s : σ} (hs : G.Valid s) : G.Valid (p.runAlone s).1 := by
  induction p generalizing held released s with
  | acquire lock next ih => exact ih h.2 hs
  | access update next ih => exact ih s (h.2.2 s hs) (h.2.1.valid s hs)
  | release lock next ih => exact ih h.2 hs
  | returned answer => exact hs

/-- A section that takes a lock first, and gives it back last, is the whole operation. -/
theorem finish_of_endsWith {lock : ℓ} {p : Program σ ℓ α} (h : p.EndsWith lock) {held : Finset ℓ}
    (hlock : lock ∈ held) (hp : p.TwoPhase G held false ∨ p.TwoPhase G held true) {s : σ}
    (hs : G.Valid s) : p.finish held s = ((p.runAlone s).1, .returned (p.runAlone s).2) := by
  induction p generalizing held s with
  | acquire l next ih =>
    refine ih h.2 (Finset.mem_insert_of_mem hlock) (Or.inl ?_) hs
    rcases hp with hp | hp
    · exact hp.2
    · exact absurd hp.1 (by simp)
  | access update next ih =>
    have hnext : G.Confines held update next ∧ ∀ s, G.Valid s → (next s).TwoPhase G held false := by
      rcases hp with hp | hp
      · exact hp.2
      · exact absurd hp.1 (by simp)
    exact ih s (h s) hlock (Or.inl (hnext.2 s hs)) (hnext.1.valid s hs)
  | release l next ih =>
    have hnext : next.TwoPhase G (held.erase l) (decide (held.erase l ≠ ∅)) := by
      rcases hp with hp | hp
      · exact hp.2
      · exact hp.2
    rw [EndsWith] at h
    split_ifs at h with hl
    · obtain ⟨answer, rfl⟩ := h
      have hempty : held.erase l = ∅ := hnext
      rw [finish, if_pos hempty]
      rfl
    · have hmem : lock ∈ held.erase l := Finset.mem_erase.mpr ⟨Ne.symm hl, hlock⟩
      have hne : held.erase l ≠ ∅ := fun hempty => absurd (hempty ▸ hmem) (Finset.notMem_empty lock)
      rw [decide_eq_true hne] at hnext
      rw [finish, if_neg hne]
      exact ih h hmem (Or.inr hnext) hs
  | returned answer => exact absurd h id

theorem atomically_of_encloses {lock : ℓ} {p : Program σ ℓ α} (h : p.Encloses lock)
    (hp : p.TwoPhase G ∅ false) {s : σ} (hs : G.Valid s) :
    p.atomically s = some ((p.runAlone s).1, .returned (p.runAlone s).2) := by
  obtain ⟨next, rfl, hends⟩ := h
  have hnext : next.TwoPhase G {lock} false := hp.2
  rw [atomically, finish_of_endsWith hends (Finset.mem_singleton_self lock) (Or.inl hnext) hs]
  rfl

end Program

/-! ### Sections in one piece -/

/-- The callers of operations whose sections are single steps. Nobody holds a lock between them. -/
structure AtomicState (ι σ ℓ α : Type*) where
  shared : σ
  callers : ι → Option (Program σ ℓ α)

/-- The call that a step is, if it is one. -/
def Event.call? : Event ι ω → Option (ι × ω)
  | .start i op => some (i, op)
  | .advance _ => none

def AtomicState.withCaller [DecidableEq ι] (t : AtomicState ι σ ℓ α) (i : ι)
    (out : σ × Program σ ℓ α) : AtomicState ι σ ℓ α :=
  ⟨out.1, Function.update t.callers i (some out.2)⟩

theorem AtomicState.withCaller_self [DecidableEq ι] {t : AtomicState ι σ ℓ α} {i : ι}
    {P : Program σ ℓ α} (h : t.callers i = some P) : t.withCaller i (t.shared, P) = t := by
  rw [AtomicState.withCaller, ← h, Function.update_eq_self]

section

variable [DecidableEq ι] [DecidableEq ℓ] (code : ω → Program σ ℓ α)

def atomicStep (t : AtomicState ι σ ℓ α) : Event ι ω → Option (AtomicState ι σ ℓ α)
  | .start i op =>
    if (t.callers i).all Program.isReturned then some (t.withCaller i (t.shared, code op)) else none
  | .advance i =>
    (t.callers i).bind fun p => (p.atomically t.shared).map (t.withCaller i)

def atomicSystem (init : σ) : Transition.System (AtomicState ι σ ℓ α) (Event ι ω) :=
  ⟨⟨init, fun _ => none⟩, atomicStep code⟩

end

/-! ### The simulation -/

/-- Where a caller with the program `p` and the locks `held` stands against the caller `P` of the
atomic system: between two sections; in a section that `P` has not made yet; or in one that `P` has
made already. The shared states are `s` and `t`. -/
inductive Stage [DecidableEq ℓ] (G : Parts σ τ) (s t : σ) :
    Program σ ℓ α → Finset ℓ → Program σ ℓ α → Prop where
  | outside {p : Program σ ℓ α} (h : p.TwoPhase G ∅ false) : Stage G s t p ∅ p
  | inside {p P : Program σ ℓ α} {held : Finset ℓ} (hne : held ≠ ∅) (h : p.TwoPhase G held false)
      (hrun : ∀ u v, G.Valid u → G.Valid v → (∀ l ∈ held, G.part l u = G.part l t) →
        (∀ l ∈ held, G.part l v = G.part l s) → (∀ l ∉ held, G.part l v = G.part l u) →
        P.atomically u = some (p.finish held v)) :
    Stage G s t p held P
  | leaving {p P : Program σ ℓ α} {held : Finset ℓ} (hne : held ≠ ∅) (h : p.TwoPhase G held true)
      (hsame : ∀ l ∈ held, G.part l s = G.part l t) (hrun : ∀ v, p.finish held v = (v, P)) :
    Stage G s t p held P

/-- Only the parts behind its own locks matter for the stage of a caller. -/
theorem Stage.congr [DecidableEq ℓ] {G : Parts σ τ} {s s' t t' : σ} {p P : Program σ ℓ α}
    {held : Finset ℓ} (h : Stage G s t p held P) (hs : ∀ l ∈ held, G.part l s' = G.part l s)
    (ht : ∀ l ∈ held, G.part l t' = G.part l t) : Stage G s' t' p held P := by
  cases h with
  | outside h => exact .outside h
  | inside hne h hrun =>
    refine .inside hne h ?_
    intro u v hu hv hut hvs hoff
    apply hrun u v hu hv _ _ hoff
    · exact fun l hl => (hut l hl).trans (ht l hl)
    · exact fun l hl => (hvs l hl).trans (hs l hl)
  | leaving hne h hsame hrun =>
    exact .leaving hne h (fun l hl => (hs l hl).trans ((hsame l hl).trans (ht l hl).symm)) hrun

section

variable [DecidableEq ℓ] {G : Parts σ τ} {s t : σ} {P : Program σ ℓ α} {held : Finset ℓ}

theorem Stage.acquire {lock : ℓ} {next : Program σ ℓ α}
    (h : Stage G s t (.acquire lock next) held P) (hfree : G.part lock s = G.part lock t) :
    Stage G s t next (insert lock held) P := by
  cases h with
  | outside h =>
    refine .inside (Finset.insert_ne_empty _ _) h.2 ?_
    intro u v hu hv hut hvs hoff
    have hlock : lock ∈ insert lock (∅ : Finset ℓ) := Finset.mem_insert_self _ _
    have huv : u = v := by
      apply G.ext hu hv
      intro l
      by_cases hl : l ∈ insert lock (∅ : Finset ℓ)
      · have hsame : l = lock := by simpa using hl
        rw [hsame, hut lock hlock, hvs lock hlock, hfree]
      · exact (hoff l hl).symm
    rw [huv, insert_empty_eq]
    rfl
  | inside hne h hrun =>
    refine .inside (Finset.insert_ne_empty _ _) h.2 ?_
    intro u v hu hv hut hvs hoff
    apply hrun u v hu hv
    · exact fun l hl => hut l (Finset.mem_insert_of_mem hl)
    · exact fun l hl => hvs l (Finset.mem_insert_of_mem hl)
    · intro l hl
      by_cases hsame : l = lock
      · have hlock : lock ∈ insert lock held := Finset.mem_insert_self _ _
        rw [hsame, hut lock hlock, hvs lock hlock, hfree]
      · exact hoff l (by simp [hsame, hl])
  | leaving _ h _ _ => exact absurd h.1 (by simp)

/-- Between two sections an access changes nothing, in both systems. -/
theorem Stage.access_outside {update : σ → σ} {next : σ → Program σ ℓ α}
    (h : Stage G s t (.access update next) ∅ P) (hs : G.Valid s) (ht : G.Valid t) :
    update s = s ∧ P.atomically t = some (t, next s) ∧ Stage G s t (next s) ∅ (next s) := by
  cases h with
  | outside h =>
    obtain ⟨-, hconfines, hnext⟩ := h
    refine ⟨hconfines.update_eq hs, ?_, .outside (hnext s hs)⟩
    rw [Program.atomically, hconfines.update_eq ht,
      hconfines.next_eq t s ht hs fun l hl => absurd hl (Finset.notMem_empty l)]
  | inside hne _ _ => exact absurd rfl hne
  | leaving hne _ _ _ => exact absurd rfl hne

/-- In a section the access is not visible to the atomic system yet. -/
theorem Stage.access {update : σ → σ} {next : σ → Program σ ℓ α}
    (h : Stage G s t (.access update next) held P) (hs : G.Valid s) (hne : held ≠ ∅) :
    G.Confines held update next ∧ Stage G (update s) t (next s) held P := by
  cases h with
  | outside _ => exact absurd rfl hne
  | inside _ h hrun =>
    obtain ⟨-, hconfines, hnext⟩ := h
    refine ⟨hconfines, .inside hne (hnext s hs) ?_⟩
    intro u v hu hv hut hvs hoff
    -- The state before the access in which only the parts of this caller are the concrete ones.
    obtain ⟨w, hw, hwon, hwoff⟩ := G.exists_mix held hs hu
    have hrest := hrun u w hu hw hut hwon hwoff
    have hupdate : update w = v := by
      apply G.ext (hconfines.valid w hw) hv
      intro l
      by_cases hl : l ∈ held
      · rw [hvs l hl]
        exact hconfines.changes w s hw hs hwon l hl
      · rw [hconfines.keeps w hw l hl, hwoff l hl, hoff l hl]
    rw [hrest, Program.finish, hupdate, hconfines.next_eq w s hw hs hwon]
  | leaving _ h _ _ => exact absurd h.1 (by simp)

/-- The first lock that is given back ends the section for the atomic system. -/
theorem Stage.release {lock : ℓ} {next : Program σ ℓ α}
    (h : Stage G s t (.release lock next) held P) (hs : G.Valid s) (ht : G.Valid t) :
    lock ∈ held ∧ ∃ y P', G.Valid y ∧ ((y, P') = (t, P) ∨ P.atomically t = some (y, P')) ∧
      (∀ l ∈ held, G.part l s = G.part l y) ∧ (∀ l ∉ held, G.part l y = G.part l t) ∧
      Stage G s y next (held.erase lock) P' := by
  have hstage : ∀ {y : σ} {P' : Program σ ℓ α} {released : Bool},
      (Program.release lock next).TwoPhase G held released →
      (∀ v, (Program.release lock next).finish held v = (v, P')) →
      (∀ l ∈ held, G.part l s = G.part l y) → Stage G s y next (held.erase lock) P' := by
    intro y P' released h hrun hsame
    have hnext := h.2
    by_cases hlast : held.erase lock = ∅
    · have hP : next = P' := by
        have hfinish := hrun s
        rw [Program.finish, if_pos hlast] at hfinish
        exact (Prod.mk.inj hfinish).2
      rw [decide_eq_false (not_not.mpr hlast), hlast] at hnext
      rw [hlast, ← hP]
      exact .outside hnext
    · rw [decide_eq_true hlast] at hnext
      refine .leaving hlast hnext (fun l hl => hsame l (Finset.mem_of_mem_erase hl)) ?_
      intro v
      have hfinish := hrun v
      rw [Program.finish, if_neg hlast] at hfinish
      exact hfinish
  cases h with
  | outside h => exact absurd h.1 (Finset.notMem_empty lock)
  | inside hne h hrun =>
    obtain ⟨w, hw, hwon, hwoff⟩ := G.exists_mix held hs ht
    have hmade := hrun t w ht hw (fun _ _ => rfl) hwon hwoff
    obtain ⟨P', hP'⟩ : ∃ P', ∀ v, (Program.release lock next).finish held v = (v, P') := by
      by_cases hlast : held.erase lock = ∅
      · exact ⟨next, fun v => by rw [Program.finish, if_pos hlast]⟩
      · have hnext := h.2
        rw [decide_eq_true hlast] at hnext
        obtain ⟨P', hP'⟩ := Program.finish_of_released hnext hlast
        exact ⟨P', fun v => by rw [Program.finish, if_neg hlast, hP']⟩
    rw [hP'] at hmade
    have hsame : ∀ l ∈ held, G.part l s = G.part l w := fun l hl => (hwon l hl).symm
    exact ⟨h.1, w, P', hw, Or.inr hmade, hsame, hwoff, hstage h hP' hsame⟩
  | leaving hne h hsame hrun =>
    exact ⟨h.1, t, P, ht, Or.inl rfl, hsame, fun _ _ => rfl, hstage h hrun hsame⟩

end

/-- The shared states agree behind every free lock, and every caller is at a stage. -/
structure Matched [DecidableEq ℓ] (G : Parts σ τ) (held : ι → Finset ℓ) (s : State ι σ ℓ α)
    (t : AtomicState ι σ ℓ α) : Prop where
  valid : G.Valid s.shared
  valid' : G.Valid t.shared
  holds : ∀ i l, l ∈ held i ↔ s.holder l = some i
  free : ∀ l, s.holder l = none → G.part l s.shared = G.part l t.shared
  waiting : ∀ i, s.callers i = none → t.callers i = none ∧ held i = ∅
  going : ∀ i p, s.callers i = some p →
    ∃ P, t.callers i = some P ∧ Stage G s.shared t.shared p (held i) P

section

variable [DecidableEq ℓ] {G : Parts σ τ} {held : ι → Finset ℓ} {s : State ι σ ℓ α}
  {t : AtomicState ι σ ℓ α}

/-- Two callers never hold the same lock. -/
theorem Matched.notMem (h : Matched G held s t) {i j : ι} (hj : j ≠ i) {l : ℓ} (hl : l ∈ held j) :
    l ∉ held i := by
  intro hi
  exact hj (Option.some.inj (((h.holds j l).mp hl).symm.trans ((h.holds i l).mp hi)))

theorem Stage.eq_of_returned {x y : σ} {P : Program σ ℓ α} {mine : Finset ℓ} {answer : α}
    (h : Stage G x y (.returned answer) mine P) : mine = ∅ ∧ P = .returned answer := by
  cases h with
  | outside _ => exact ⟨rfl, rfl⟩
  | inside hne h _ => exact absurd h hne
  | leaving hne h _ _ => exact absurd h hne

/-- A caller that may call holds no lock, and may call in the atomic system, too. -/
theorem Matched.returned (h : Matched G held s t) {i : ι}
    (hi : ∀ p, s.callers i = some p → p.isReturned = true) :
    held i = ∅ ∧ (t.callers i).all Program.isReturned = true := by
  cases hp : s.callers i with
  | none =>
    obtain ⟨hnone, hempty⟩ := h.waiting i hp
    exact ⟨hempty, by rw [hnone]; rfl⟩
  | some p =>
    have hreturned := hi p hp
    obtain ⟨P, hP, hstage⟩ := h.going i p hp
    cases p with
    | returned answer =>
      obtain ⟨hempty, rfl⟩ := hstage.eq_of_returned
      exact ⟨hempty, by rw [hP]; rfl⟩
    | _ => exact absurd hreturned (by simp [Program.isReturned])

theorem Matched.shared_eq (h : Matched G held s t) (hfree : ∀ l, s.holder l = none) :
    s.shared = t.shared :=
  G.ext h.valid h.valid' fun l => h.free l (hfree l)

/-- An operation that has returned has returned the same in the atomic system. -/
theorem Matched.answer (h : Matched G held s t) {i : ι} {answer : α}
    (hi : s.callers i = some (.returned answer)) : t.callers i = some (.returned answer) := by
  obtain ⟨P, hP, hstage⟩ := h.going i _ hi
  rw [hP, hstage.eq_of_returned.2]

variable [DecidableEq ι]

/-- The caller `i` steps, in one system or in both, and leaves the locks and the parts of the others
alone. -/
theorem Matched.advance (h : Matched G held s t) {i : ι} {p P : Program σ ℓ α} {x y : σ}
    (mine : Finset ℓ) (holder : ℓ → Option ι) (hx : G.Valid x) (hy : G.Valid y)
    (hmine : ∀ l, l ∈ mine ↔ holder l = some i)
    (hothers : ∀ j, j ≠ i → ∀ l, holder l = some j ↔ s.holder l = some j)
    (hfree : ∀ l, holder l = none → G.part l x = G.part l y) (hstage : Stage G x y p mine P)
    (hparts : ∀ l ∉ held i, G.part l x = G.part l s.shared ∧ G.part l y = G.part l t.shared) :
    Matched G (Function.update held i mine)
      ⟨x, holder, Function.update s.callers i (some p)⟩ (t.withCaller i (y, P)) := by
  constructor
  · exact hx
  · exact hy
  · intro j l
    by_cases hj : j = i
    · subst hj
      rw [Function.update_self]
      exact hmine l
    · rw [Function.update_of_ne hj]
      exact (h.holds j l).trans (hothers j hj l).symm
  · exact hfree
  · intro j hnone
    by_cases hj : j = i
    · subst hj
      exact absurd hnone (by simp)
    · dsimp only [AtomicState.withCaller] at hnone ⊢
      rw [Function.update_of_ne hj] at hnone ⊢
      rw [Function.update_of_ne hj]
      exact h.waiting j hnone
  · intro j q hq
    by_cases hj : j = i
    · subst hj
      dsimp only [AtomicState.withCaller] at hq ⊢
      rw [Function.update_self] at hq ⊢
      rw [Function.update_self, ← Option.some.inj hq]
      exact ⟨P, rfl, hstage⟩
    · dsimp only [AtomicState.withCaller] at hq ⊢
      rw [Function.update_of_ne hj] at hq ⊢
      rw [Function.update_of_ne hj]
      obtain ⟨Q, hQ, hold⟩ := h.going j q hq
      refine ⟨Q, hQ, hold.congr ?_ ?_⟩
      · exact fun l hl => (hparts l (h.notMem hj hl)).1
      · exact fun l hl => (hparts l (h.notMem hj hl)).2

variable {code : ω → Program σ ℓ α} {e : Event ι ω} {s' : State ι σ ℓ α}

/-- What a caller does in the atomic system while it steps in the other. -/
theorem run_advance (code : ω → Program σ ℓ α) (init : σ) {i : ι} {P P' : Program σ ℓ α} {y : σ}
    (hP : t.callers i = some P)
    (h : (y, P') = (t.shared, P) ∨ P.atomically t.shared = some (y, P')) :
    ∃ fs : List (Event ι ω), (atomicSystem code init).run t fs = some (t.withCaller i (y, P')) ∧
      fs.filterMap Event.call? = [] := by
  rcases h with h | h
  · rw [h, AtomicState.withCaller_self hP]
    exact ⟨[], rfl, rfl⟩
  · refine ⟨[.advance i], ?_, rfl⟩
    rw [Transition.System.run_singleton]
    change (t.callers i).bind _ = _
    rw [hP, Option.bind_some, h, Option.map_some]

theorem Matched.move (hcode : ∀ op, (code op).TwoPhase G ∅ false) (init : σ)
    (h : Matched G held s t) (hm : Move code s e s') :
    ∃ fs t', (atomicSystem code init).run t fs = some t' ∧
      fs.filterMap Event.call? = e.call?.toList ∧ ∃ held', Matched G held' s' t' := by
  cases hm with
  | @start i op hreturned =>
    obtain ⟨hempty, hall⟩ := h.returned hreturned
    refine ⟨[.start i op], t.withCaller i (t.shared, code op), ?_, rfl, _,
      h.advance ∅ s.holder h.valid h.valid' ?_ (fun _ _ _ => Iff.rfl) h.free (.outside (hcode op))
        fun _ _ => ⟨rfl, rfl⟩⟩
    · rw [Transition.System.run_singleton]
      exact if_pos hall
    · exact fun l => hempty ▸ h.holds i l
  | @acquire i lock next hp hfree =>
    obtain ⟨P, hP, hstage⟩ := h.going i _ hp
    obtain ⟨fs, hfs, hcalls⟩ := run_advance (t := t) code init hP (Or.inl rfl)
    refine ⟨fs, _, hfs, hcalls, _, h.advance (insert lock (held i))
      (Function.update s.holder lock (some i)) h.valid h.valid' ?_ ?_ ?_ (hstage.acquire
      (h.free lock hfree)) fun _ _ => ⟨rfl, rfl⟩⟩
    · intro l
      by_cases hl : l = lock
      · simp [hl]
      · simp [hl, h.holds]
    · intro j hj l
      by_cases hl : l = lock
      · simp [hl, hfree, Ne.symm hj]
      · simp [hl]
    · intro l hnone
      by_cases hl : l = lock
      · exact absurd hnone (by simp [hl])
      · rw [Function.update_of_ne hl] at hnone
        exact h.free l hnone
  | @access i update next hp =>
    obtain ⟨P, hP, hstage⟩ := h.going i _ hp
    have hmine : ∀ l, l ∈ held i ↔ s.holder l = some i := h.holds i
    by_cases hempty : held i = ∅
    · rw [hempty] at hstage hmine
      obtain ⟨hsame, hatomic, hstage'⟩ := hstage.access_outside h.valid h.valid'
      obtain ⟨fs, hfs, hcalls⟩ := run_advance (t := t) code init hP (Or.inr hatomic)
      have hmatched := h.advance ∅ s.holder h.valid h.valid' hmine (fun _ _ _ => Iff.rfl) h.free
        hstage' fun _ _ => ⟨rfl, rfl⟩
      rw [State.withShared, hsame]
      exact ⟨fs, _, hfs, hcalls, _, hmatched⟩
    · obtain ⟨hconfines, hstage'⟩ := hstage.access h.valid hempty
      obtain ⟨fs, hfs, hcalls⟩ := run_advance (t := t) code init hP (Or.inl rfl)
      have hkeeps : ∀ l ∉ held i, G.part l (update s.shared) = G.part l s.shared :=
        hconfines.keeps s.shared h.valid
      refine ⟨fs, _, hfs, hcalls, _, h.advance (held i) s.holder (hconfines.valid _ h.valid) h.valid'
        hmine (fun _ _ _ => Iff.rfl) ?_ hstage' fun l hl => ⟨hkeeps l hl, rfl⟩⟩
      intro l hnone
      have hholder : s.holder l = none := hnone
      have hl : l ∉ held i := fun hl => absurd (hholder.symm.trans ((hmine l).mp hl)) (by simp)
      exact (hkeeps l hl).trans (h.free l hholder)
  | @release i lock next hp =>
    obtain ⟨P, hP, hstage⟩ := h.going i _ hp
    obtain ⟨hlock, y, P', hy, hatomic, hon, hoff, hstage'⟩ := hstage.release h.valid h.valid'
    obtain ⟨fs, hfs, hcalls⟩ := run_advance (t := t) code init hP hatomic
    have hholder : s.holder lock = some i := (h.holds i lock).mp hlock
    refine ⟨fs, _, hfs, hcalls, _, h.advance ((held i).erase lock)
      (Function.update s.holder lock none) h.valid hy ?_ ?_ ?_ hstage'
      fun l hl => ⟨rfl, hoff l hl⟩⟩
    · intro l
      by_cases hl : l = lock
      · simp [hl]
      · simp [hl, h.holds]
    · intro j hj l
      by_cases hl : l = lock
      · simp [hl, hholder, Ne.symm hj]
      · simp [hl]
    · intro l hnone
      by_cases hmine : l ∈ held i
      · exact hon l hmine
      · have hl : l ≠ lock := fun hl => hmine (hl ▸ hlock)
        rw [Function.update_of_ne hl] at hnone
        exact (h.free l hnone).trans (hoff l hmine).symm

/-- Operations in two phases are as good as operations whose sections are single steps: called in the
same order, they have the same answers at every moment, and behind a free lock the same state. -/
theorem simulation (hcode : ∀ op, (code op).TwoPhase G ∅ false) {init : σ} (hinit : G.Valid init) :
    Transition.Simulation (system (ι := ι) code init) (atomicSystem code init) Event.call? Event.call?
      fun s t => ∃ held, Matched G held s t := by
  constructor
  · refine ⟨fun _ => ∅, hinit, hinit, ?_, fun _ _ => rfl, fun _ _ => ⟨rfl, rfl⟩, ?_⟩
    · exact fun i l => by simp [system]
    · exact fun i p hp => absurd hp (by simp [system])
  · rintro s t e s' - ⟨held, h⟩ hstep
    exact h.move hcode init (move_of_step hstep)

end

end Locks
