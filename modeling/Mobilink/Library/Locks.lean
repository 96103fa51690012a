import Mathlib.Data.Set.Insert
import Mathlib.Logic.Function.Basic
import Mathlib.Order.WellFounded
import Mobilink.Library.Transition

/-! Operations on a shared state that take locks, run by any number of callers in any order. Two
rules about their code: taking locks in ascending order, no caller is stuck for ever, and what every
operation restores before it gives a lock back is true whenever that lock is free. -/
namespace Locks

/-- What is left of an operation. What comes behind an access depends on what it found. -/
inductive Program (σ ℓ α : Type*) where
  | acquire (lock : ℓ) (next : Program σ ℓ α)
  | access (update : σ → σ) (next : σ → Program σ ℓ α)
  | release (lock : ℓ) (next : Program σ ℓ α)
  | returned (answer : α)

variable {ι σ ℓ α ω : Type*}

namespace Program

def read (next : σ → Program σ ℓ α) : Program σ ℓ α := .access id next

def write (update : σ → σ) (next : Program σ ℓ α) : Program σ ℓ α := .access update fun _ => next

def isReturned : Program σ ℓ α → Bool
  | .returned _ => true
  | _ => false

/-- The whole operation, without any other caller. -/
def runAlone : Program σ ℓ α → σ → σ × α
  | .acquire _ next, s => next.runAlone s
  | .access update next, s => (next s).runAlone (update s)
  | .release _ next, s => next.runAlone s
  | .returned answer, s => (s, answer)

/-- With the locks in `held`, only higher ones are taken, only held ones given back, and none kept. -/
def Ordered [LT ℓ] : Program σ ℓ α → Set ℓ → Prop
  | .acquire lock next, held => (∀ l ∈ held, l < lock) ∧ next.Ordered (insert lock held)
  | .access _ next, held => ∀ s, (next s).Ordered held
  | .release lock next, held => lock ∈ held ∧ next.Ordered (held \ {lock})
  | .returned _, held => held = ∅

variable [DecidableEq ℓ]

/-- `some s`: the caller holds `lock`, and the shared state is `s`. It may change it until it gives
the lock back, when `J` has to hold again. `none`: the caller may only read. -/
def Keeps (lock : ℓ) (J : σ → Prop) : Program σ ℓ α → Option σ → Prop
  | .acquire l next, none => if l = lock then ∀ s, J s → next.Keeps lock J (some s)
    else next.Keeps lock J none
  | .acquire l next, some s => l ≠ lock ∧ next.Keeps lock J (some s)
  | .access update next, none => ∀ s, update s = s ∧ (next s).Keeps lock J none
  | .access update next, some s => (next s).Keeps lock J (some (update s))
  | .release l next, none => l ≠ lock ∧ next.Keeps lock J none
  | .release l next, some s => if l = lock then J s ∧ next.Keeps lock J none
    else next.Keeps lock J (some s)
  | .returned _, none => True
  | .returned _, some _ => False

section

variable {lock l : ℓ} {J : σ → Prop} {next : Program σ ℓ α} {known : Option σ}

theorem keeps_of_keeps_acquire (hl : l ≠ lock) (h : (acquire l next).Keeps lock J known) :
    next.Keeps lock J known := by
  cases known with
  | none =>
    rw [Keeps, if_neg hl] at h
    exact h
  | some r => exact h.2

theorem keeps_of_keeps_release (hl : l ≠ lock) (h : (release l next).Keeps lock J known) :
    next.Keeps lock J known := by
  cases known with
  | none => exact h.2
  | some r =>
    rw [Keeps, if_neg hl] at h
    exact h

theorem eq_none_of_keeps_returned (answer : α) (known : Option σ)
    (h : (returned answer : Program σ ℓ α).Keeps lock J known) : known = none := by
  cases known with
  | none => rfl
  | some r => exact absurd h id

end

/-- The lock is given back in the last step, and not taken again. -/
def EndsWith (lock : ℓ) : Program σ ℓ α → Prop
  | .acquire l next => l ≠ lock ∧ next.EndsWith lock
  | .access _ next => ∀ s, (next s).EndsWith lock
  | .release l next => if l = lock then ∃ answer, next = .returned answer else next.EndsWith lock
  | .returned _ => False

/-- If the lock is given back at the end, the whole operation has to restore `J`. -/
theorem keeps_of_endsWith {lock : ℓ} {J : σ → Prop} {p : Program σ ℓ α} (h : p.EndsWith lock) {s : σ}
    (hJ : J (p.runAlone s).1) : p.Keeps lock J (some s) := by
  induction p generalizing s with
  | acquire l next ih => exact ⟨h.1, ih h.2 hJ⟩
  | access update next ih => exact ih s (h s) hJ
  | release l next ih =>
    rw [EndsWith] at h
    rw [Keeps]
    split_ifs at h ⊢ with hl
    · obtain ⟨answer, rfl⟩ := h
      exact ⟨hJ, trivial⟩
    · exact ih h hJ
  | returned answer => exact absurd h id

/-- The lock is taken first and given back last. -/
def Encloses (lock : ℓ) (p : Program σ ℓ α) : Prop :=
  ∃ next, p = .acquire lock next ∧ next.EndsWith lock

theorem keeps_of_encloses {lock : ℓ} {J : σ → Prop} {p : Program σ ℓ α} (h : p.Encloses lock)
    (hJ : ∀ s, J s → J (p.runAlone s).1) : p.Keeps lock J none := by
  obtain ⟨next, rfl, hnext⟩ := h
  rw [Keeps, if_pos rfl]
  exact fun s hs => keeps_of_endsWith hnext (hJ s hs)

end Program

/-- `none` is a caller that has not called yet. -/
structure State (ι σ ℓ α : Type*) where
  shared : σ
  holder : ℓ → Option ι
  callers : ι → Option (Program σ ℓ α)

inductive Event (ι ω : Type*) where
  | start (i : ι) (op : ω)
  | advance (i : ι)

namespace State

/-- The caller is in the middle of an operation. -/
def Unfinished (s : State ι σ ℓ α) (i : ι) : Prop :=
  ∃ p, s.callers i = some p ∧ p.isReturned = false

def held (s : State ι σ ℓ α) (i : ι) : Set ℓ := {l | s.holder l = some i}

/-- The next step takes a lock that is not free. -/
def Blocked (s : State ι σ ℓ α) (i : ι) : Prop :=
  ∃ lock next, s.callers i = some (.acquire lock next) ∧ s.holder lock ≠ none

section
variable [DecidableEq ι]

def withCaller (s : State ι σ ℓ α) (i : ι) (p : Program σ ℓ α) : State ι σ ℓ α :=
  { s with callers := Function.update s.callers i (some p) }

end

section
variable [DecidableEq ℓ]

def withHolder (s : State ι σ ℓ α) (lock : ℓ) (i : Option ι) : State ι σ ℓ α :=
  { s with holder := Function.update s.holder lock i }

@[simp] theorem withHolder_self (s : State ι σ ℓ α) (lock : ℓ) (i : Option ι) :
    (s.withHolder lock i).holder lock = i := Function.update_self _ _ _

theorem withHolder_ne (s : State ι σ ℓ α) {lock l : ℓ} (h : l ≠ lock) (i : Option ι) :
    (s.withHolder lock i).holder l = s.holder l := Function.update_of_ne h _ _

theorem mem_held_withHolder {s : State ι σ ℓ α} {lock l : ℓ} {o : Option ι} {j : ι} :
    l ∈ (s.withHolder lock o).held j ↔ if l = lock then o = some j else l ∈ s.held j := by
  split_ifs with hl
  · rw [hl, held, Set.mem_ofPred_eq, withHolder_self]
  · rw [held, Set.mem_ofPred_eq, withHolder_ne s hl]
    exact Iff.rfl

theorem held_withHolder_insert (s : State ι σ ℓ α) (lock : ℓ) (i : ι) :
    (s.withHolder lock (some i)).held i = insert lock (s.held i) := by
  ext l
  rw [mem_held_withHolder, Set.mem_insert_iff]
  by_cases hl : l = lock <;> simp [hl]

theorem held_withHolder_sdiff (s : State ι σ ℓ α) (lock : ℓ) (i : ι) :
    (s.withHolder lock none).held i = s.held i \ {lock} := by
  ext l
  rw [mem_held_withHolder, Set.mem_sdiff, Set.mem_singleton_iff]
  by_cases hl : l = lock <;> simp [hl]

/-- A caller that neither had the lock nor gets it. -/
theorem held_withHolder_of_ne {s : State ι σ ℓ α} {lock : ℓ} {o : Option ι} {j : ι}
    (hs : s.holder lock ≠ some j) (ho : o ≠ some j) : (s.withHolder lock o).held j = s.held j := by
  ext l
  rw [mem_held_withHolder]
  by_cases hl : l = lock
  · simp [hl, held, hs, ho]
  · rw [if_neg hl]

end

theorem holder_ne {s : State ι σ ℓ α} {lock : ℓ} {i j : ι} (h : s.holder lock = some i)
    (hj : j ≠ i) : s.holder lock ≠ some j := by
  rw [h]
  exact fun he => hj (Option.some.inj he).symm

def withShared (s : State ι σ ℓ α) (shared : σ) : State ι σ ℓ α := { s with shared := shared }

section
variable [DecidableEq ι]

/-- What the caller knows of the shared state while it holds the lock. -/
def view (s : State ι σ ℓ α) (lock : ℓ) (i : ι) : Option σ :=
  if s.holder lock = some i then some s.shared else none

theorem view_of_holder {s : State ι σ ℓ α} {lock : ℓ} {i : ι} (h : s.holder lock = some i) :
    s.view lock i = some s.shared := if_pos h

theorem view_eq_none_iff {s : State ι σ ℓ α} {lock : ℓ} {i : ι} :
    s.view lock i = none ↔ s.holder lock ≠ some i := by
  rw [view]
  split_ifs with h <;> simp [h]

theorem view_withHolder_ne [DecidableEq ℓ] (s : State ι σ ℓ α) {lock l : ℓ} (h : l ≠ lock)
    (o : Option ι) (j : ι) : (s.withHolder l o).view lock j = s.view lock j := by
  rw [view, withHolder_ne s (Ne.symm h)]
  rfl

end

end State

/-- Each caller goes on as what it knows allows, and one that has not called knows `idle`. -/
structure Follows {κ : Type*} (Q : Program σ ℓ α → κ → Prop) (idle : κ)
    (callers : ι → Option (Program σ ℓ α)) (knows : ι → κ) : Prop where
  going : ∀ i p, callers i = some p → Q p (knows i)
  waiting : ∀ i, callers i = none → knows i = idle

namespace Follows

variable {κ : Type*} {Q : Program σ ℓ α → κ → Prop} {idle : κ}
  {callers : ι → Option (Program σ ℓ α)} {knows knows' : ι → κ}

/-- The caller `i` steps, and the others know what they knew. -/
theorem advance [DecidableEq ι] (h : Follows Q idle callers knows) {i : ι} {p : Program σ ℓ α}
    (hp : Q p (knows' i)) (hothers : ∀ j, j ≠ i → knows' j = knows j) :
    Follows Q idle (Function.update callers i (some p)) knows' := by
  constructor
  · intro j q hq
    by_cases hj : j = i
    · subst hj
      rw [Function.update_self] at hq
      rw [← Option.some.inj hq]
      exact hp
    · rw [Function.update_of_ne hj] at hq
      rw [hothers j hj]
      exact h.going j q hq
  · intro j hq
    by_cases hj : j = i
    · subst hj
      exact absurd hq (by simp)
    · rw [Function.update_of_ne hj] at hq
      rw [hothers j hj]
      exact h.waiting j hq

/-- A caller that may start an operation knows nothing. -/
theorem knows_of_returned (h : Follows Q idle callers knows)
    (hQ : ∀ answer k, Q (.returned answer) k → k = idle) {i : ι}
    (hi : ∀ p, callers i = some p → p.isReturned = true) : knows i = idle := by
  cases hp : callers i with
  | none => exact h.waiting i hp
  | some p =>
    have hreturned := hi p hp
    have hgoing := h.going i p hp
    cases p with
    | returned answer => exact hQ answer _ hgoing
    | _ => exact absurd hreturned (by simp [Program.isReturned])

end Follows

/-- Every caller goes on in ascending order, and one that has not called holds nothing. -/
def Disciplined [LT ℓ] (s : State ι σ ℓ α) : Prop := Follows Program.Ordered ∅ s.callers s.held

/-- The holder of a lock is in the middle of its operation. -/
theorem unfinished_of_holder [LT ℓ] {s : State ι σ ℓ α} (h : Disciplined s) {lock : ℓ} {j : ι}
    (hj : s.holder lock = some j) : s.Unfinished j := by
  have hmem : lock ∈ s.held j := hj
  by_contra hfinished
  have hempty : s.held j = ∅ := by
    apply h.knows_of_returned (fun _ _ hempty => hempty)
    intro p hp
    by_contra hp'
    exact hfinished ⟨p, hp, by simpa using hp'⟩
  rw [hempty] at hmem
  exact absurd hmem (Set.notMem_empty lock)

/-- Somebody behind the lock that a caller waits for is not waiting: the holder of a lock waits for
a higher one, if for any. -/
theorem exists_not_blocked [Preorder ℓ] [WellFoundedGT ℓ] {s : State ι σ ℓ α} (h : Disciplined s)
    {i : ι} (hi : s.Unfinished i) :
    ∃ j, s.Unfinished j ∧ ¬ s.Blocked j := by
  have hwaits : ∀ (lock : ℓ) (i : ι) (next : Program σ ℓ α),
      s.callers i = some (.acquire lock next) → ∃ j, s.Unfinished j ∧ ¬ s.Blocked j := by
    intro lock
    induction lock using WellFoundedGT.induction with
    | ind lock ih =>
      intro i next hp
      cases hholder : s.holder lock with
      | none =>
        refine ⟨i, ⟨_, hp, rfl⟩, ?_⟩
        rintro ⟨l, next', hp', hheld⟩
        rw [(Program.acquire.inj (Option.some.inj (hp.symm.trans hp'))).1] at hholder
        exact hheld hholder
      | some j =>
        have hj := unfinished_of_holder h hholder
        by_cases hblocked : s.Blocked j
        · obtain ⟨l, next', hp', -⟩ := hblocked
          exact ih l ((h.going j _ hp').1 lock hholder) j next' hp'
        · exact ⟨j, hj, hblocked⟩
  by_cases hblocked : s.Blocked i
  · obtain ⟨lock, next, hp, -⟩ := hblocked
    exact hwaits lock i next hp
  · exact ⟨i, hi, hblocked⟩

section

variable [DecidableEq ι] [DecidableEq ℓ] (code : ω → Program σ ℓ α)

/-- A caller whose operation has returned can start another one. A lock is taken when it is free. -/
def step (s : State ι σ ℓ α) : Event ι ω → Option (State ι σ ℓ α)
  | .start i op =>
    if (s.callers i).all Program.isReturned then some (s.withCaller i (code op)) else none
  | .advance i =>
    match s.callers i with
    | some (.acquire lock next) =>
      if (s.holder lock).isNone then some ((s.withCaller i next).withHolder lock (some i)) else none
    | some (.access update next) =>
      some ((s.withCaller i (next s.shared)).withShared (update s.shared))
    | some (.release lock next) => some ((s.withCaller i next).withHolder lock none)
    | _ => none

def system (init : σ) : Transition.System (State ι σ ℓ α) (Event ι ω) :=
  ⟨⟨init, fun _ => none, fun _ => none⟩, step code⟩

/-- What a step can be. -/
inductive Move (s : State ι σ ℓ α) : Event ι ω → State ι σ ℓ α → Prop where
  | start {i : ι} {op : ω} (h : ∀ p, s.callers i = some p → p.isReturned = true) :
    Move s (.start i op) (s.withCaller i (code op))
  | acquire {i : ι} {lock : ℓ} {next : Program σ ℓ α}
      (h : s.callers i = some (.acquire lock next)) (hfree : s.holder lock = none) :
    Move s (.advance i) ((s.withCaller i next).withHolder lock (some i))
  | access {i : ι} {update : σ → σ} {next : σ → Program σ ℓ α}
      (h : s.callers i = some (.access update next)) :
    Move s (.advance i) ((s.withCaller i (next s.shared)).withShared (update s.shared))
  | release {i : ι} {lock : ℓ} {next : Program σ ℓ α}
      (h : s.callers i = some (.release lock next)) :
    Move s (.advance i) ((s.withCaller i next).withHolder lock none)

variable {code} {s t : State ι σ ℓ α} {e : Event ι ω}

theorem move_of_step (h : step code s e = some t) : Move code s e t := by
  cases e with
  | start i op =>
    simp only [step] at h
    split_ifs at h with hall
    rw [← Option.some.inj h]
    refine .start ?_
    intro p hp
    simpa [hp] using hall
  | advance i =>
    simp only [step] at h
    split at h
    · rename_i lock next hp
      split_ifs at h with hfree
      rw [← Option.some.inj h]
      exact .acquire hp (Option.isNone_iff_eq_none.mp hfree)
    · rename_i update next hp
      rw [← Option.some.inj h]
      exact .access hp
    · rename_i lock next hp
      rw [← Option.some.inj h]
      exact .release hp
    · exact absurd h (by simp)

/-- An unfinished caller can step unless it waits for a lock. -/
theorem isSome_step_of_not_blocked {i : ι} (h : s.Unfinished i) (hb : ¬ s.Blocked i) :
    (step code s (.advance i)).isSome = true := by
  obtain ⟨p, hp, hunfinished⟩ := h
  simp only [step, hp]
  cases p with
  | acquire lock next =>
    have hfree : s.holder lock = none := by
      by_contra hheld
      exact hb ⟨lock, next, hp, hheld⟩
    simp [hfree]
  | access update next => rfl
  | release lock next => rfl
  | returned answer => exact absurd hunfinished (by simp [Program.isReturned])

/-! ### No deadlock -/

section

variable [LT ℓ]

theorem disciplined_init (init : σ) : Disciplined (system (ι := ι) code init).init := by
  constructor
  · intro i p hp
    exact absurd hp (by simp [system])
  · intro i _
    simp [system, State.held]

theorem Disciplined.move (hcode : ∀ op, (code op).Ordered ∅) (h : Disciplined s)
    (hm : Move code s e t) : Disciplined t := by
  cases hm with
  | @start i op hreturned =>
    have hheld : s.held i = ∅ := h.knows_of_returned (fun _ _ hempty => hempty) hreturned
    apply h.advance
    · change (code op).Ordered (s.held i)
      rw [hheld]
      exact hcode op
    · exact fun j _ => rfl
  | @acquire i lock next hp hfree =>
    apply h.advance
    · rw [State.held_withHolder_insert]
      exact (h.going i _ hp).2
    · intro j hj
      exact State.held_withHolder_of_ne (s := s.withCaller i next) (by simp [State.withCaller, hfree])
        fun he => hj (Option.some.inj he).symm
  | @access i update next hp =>
    apply h.advance
    · exact h.going i _ hp s.shared
    · exact fun j _ => rfl
  | @release i lock next hp =>
    obtain ⟨hmem, hnext⟩ := h.going i _ hp
    have hholder : (s.withCaller i next).holder lock = some i := hmem
    apply h.advance
    · rw [State.held_withHolder_sdiff]
      exact hnext
    · intro j hj
      exact State.held_withHolder_of_ne (State.holder_ne hholder hj) (by simp)

theorem disciplined_of_reachable (hcode : ∀ op, (code op).Ordered ∅) {init : σ}
    (hs : (system code init).Reachable s) : Disciplined s := by
  apply hs.invariant (disciplined_init init)
  intro s e t _ h hstep
  exact h.move hcode (move_of_step hstep)

end

/-- If all operations take their locks in ascending order, some unfinished caller can always step. -/
theorem exists_step [Preorder ℓ] [WellFoundedGT ℓ] (hcode : ∀ op, (code op).Ordered ∅) {init : σ}
    (hs : (system code init).Reachable s) (hi : ∃ i, s.Unfinished i) :
    ∃ i, s.Unfinished i ∧ ((system code init).step s (.advance i)).isSome = true := by
  obtain ⟨i, hi⟩ := hi
  obtain ⟨j, hj, hnot⟩ := exists_not_blocked (disciplined_of_reachable hcode hs) hi
  have hstep : (step code s (.advance j)).isSome = true := isSome_step_of_not_blocked hj hnot
  exact ⟨j, hj, hstep⟩

/-! ### The invariant of a lock -/

/-- `J` holds while the lock is free, and every caller keeps to it. -/
structure Monitored (lock : ℓ) (J : σ → Prop) (s : State ι σ ℓ α) : Prop where
  free : s.holder lock = none → J s.shared
  callers : Follows (Program.Keeps lock J) none s.callers (s.view lock)

section

variable {lock : ℓ} {J : σ → Prop}

theorem monitored_init {init : σ} (hinit : J init) :
    Monitored lock J (system (ι := ι) code init).init := by
  refine ⟨fun _ => hinit, ?_, ?_⟩
  · intro i p hp
    exact absurd hp (by simp [system])
  · intro i _
    simp [system, State.view]

/-- A step that takes another lock or gives it back. -/
theorem Monitored.moveOther (h : Monitored lock J s) {i : ι} {l : ℓ} {next : Program σ ℓ α}
    {o : Option ι} (hl : l ≠ lock) (hnext : next.Keeps lock J (s.view lock i)) :
    Monitored lock J ((s.withCaller i next).withHolder l o) := by
  have hsame : ∀ j, ((s.withCaller i next).withHolder l o).view lock j = s.view lock j :=
    (s.withCaller i next).view_withHolder_ne hl o
  constructor
  · rw [State.withHolder_ne _ (Ne.symm hl)]
    exact h.free
  · apply h.callers.advance
    · rw [hsame i]
      exact hnext
    · exact fun j _ => hsame j

theorem Monitored.acquire (h : Monitored lock J s) {i : ι} {l : ℓ} {next : Program σ ℓ α}
    (hp : s.callers i = some (.acquire l next)) (hfree : s.holder l = none) :
    Monitored lock J ((s.withCaller i next).withHolder l (some i)) := by
  have hkeeps := h.callers.going i _ hp
  by_cases hl : l = lock
  · subst hl
    have hview : ∀ j, s.view l j = none := fun j => State.view_eq_none_iff.mpr (by simp [hfree])
    rw [hview i, Program.Keeps, if_pos rfl] at hkeeps
    refine ⟨by simp, h.callers.advance ?_ ?_⟩
    · rw [State.view_of_holder (State.withHolder_self _ l (some i))]
      exact hkeeps s.shared (h.free hfree)
    · intro j hj
      rw [hview j, State.view_eq_none_iff]
      exact State.holder_ne (State.withHolder_self _ l (some i)) hj
  · exact h.moveOther hl (Program.keeps_of_keeps_acquire hl hkeeps)

theorem Monitored.access (h : Monitored lock J s) {i : ι} {update : σ → σ}
    {next : σ → Program σ ℓ α} (hp : s.callers i = some (.access update next)) :
    Monitored lock J ((s.withCaller i (next s.shared)).withShared (update s.shared)) := by
  have hkeeps := h.callers.going i _ hp
  by_cases hholder : s.holder lock = some i
  · rw [State.view_of_holder hholder] at hkeeps
    have hview : ((s.withCaller i (next s.shared)).withShared (update s.shared)).view lock i =
        some (update s.shared) := State.view_of_holder hholder
    refine ⟨?_, h.callers.advance ?_ ?_⟩
    · intro hfree
      exact absurd (hholder.symm.trans hfree) (by simp)
    · rw [hview]
      exact hkeeps
    · intro j hj
      rw [State.view_eq_none_iff.mpr (State.holder_ne hholder hj)]
      exact State.view_eq_none_iff.mpr (State.holder_ne hholder hj)
  · -- Without the lock the caller changes nothing.
    rw [State.view_eq_none_iff.mpr hholder] at hkeeps
    obtain ⟨hupdate, hnext⟩ := hkeeps s.shared
    rw [hupdate]
    refine ⟨h.free, h.callers.advance ?_ (fun j _ => rfl)⟩
    change (next s.shared).Keeps lock J (s.view lock i)
    rw [State.view_eq_none_iff.mpr hholder]
    exact hnext

theorem Monitored.release (h : Monitored lock J s) {i : ι} {l : ℓ} {next : Program σ ℓ α}
    (hp : s.callers i = some (.release l next)) :
    Monitored lock J ((s.withCaller i next).withHolder l none) := by
  have hkeeps := h.callers.going i _ hp
  by_cases hl : l = lock
  · subst hl
    have hholder : s.holder l = some i := by
      by_contra hne
      rw [State.view_eq_none_iff.mpr hne] at hkeeps
      exact hkeeps.1 rfl
    rw [State.view_of_holder hholder, Program.Keeps, if_pos rfl] at hkeeps
    refine ⟨fun _ => hkeeps.1, h.callers.advance ?_ ?_⟩
    · rw [State.view_eq_none_iff.mpr (by simp)]
      exact hkeeps.2
    · intro j hj
      rw [State.view_eq_none_iff.mpr (State.holder_ne hholder hj)]
      exact State.view_eq_none_iff.mpr (by simp)
  · exact h.moveOther hl (Program.keeps_of_keeps_release hl hkeeps)

theorem Monitored.move (hcode : ∀ op, (code op).Keeps lock J none) (h : Monitored lock J s)
    (hm : Move code s e t) : Monitored lock J t := by
  cases hm with
  | @start i op hreturned =>
    have hview : s.view lock i = none :=
      h.callers.knows_of_returned Program.eq_none_of_keeps_returned hreturned
    refine ⟨h.free, h.callers.advance ?_ (fun j _ => rfl)⟩
    change (code op).Keeps lock J (s.view lock i)
    rw [hview]
    exact hcode op
  | acquire hp hfree => exact h.acquire hp hfree
  | access hp => exact h.access hp
  | release hp => exact h.release hp

/-- What the operations restore whenever they give a lock back holds whenever the lock is free. -/
theorem holds_of_free (hcode : ∀ op, (code op).Keeps lock J none) {init : σ} (hinit : J init)
    (hs : (system code init).Reachable s) (hfree : s.holder lock = none) : J s.shared := by
  have hmonitored : Monitored lock J s := by
    apply hs.invariant (monitored_init hinit)
    intro s e t _ h hstep
    exact h.move hcode (move_of_step hstep)
  exact hmonitored.free hfree

end

end

end Locks
