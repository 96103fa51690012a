import Mathlib.Data.List.Nodup
import Mathlib.Data.List.Infix

/-! Which of several open items is the newest: the log of all open items in order of opening, a
single slot that remembers the last one opened, and exactly when the slot keeps up with the log. -/
namespace Recency

variable {α κ : Type*} [DecidableEq κ] (key : α → κ)

/-- The open items, newest first. -/
structure Log where
  items : List α
  nodup : (items.map key).Nodup

inductive Call (α κ : Type*) where
  | opens (a : α)
  | closes (k : κ)

namespace Log

variable {key}

def empty : Log key := ⟨[], by simp⟩

def newest (l : Log key) : Option α := l.items.head?

def find? (l : Log key) (k : κ) : Option α := l.items.find? (fun a => key a = k)

/-- Opening a key that is open already is refused and changes nothing. -/
def opened (l : Log key) (a : α) : Log key :=
  if h : key a ∈ l.items.map key then l
  else ⟨a :: l.items, by simpa using ⟨by simpa using h, l.nodup⟩⟩

def closed (l : Log key) (k : κ) : Log key :=
  ⟨l.items.filter (fun a => key a ≠ k), l.nodup.sublist (List.filter_sublist.map key)⟩

def apply (l : Log key) : Call α κ → Log key
  | .opens a => l.opened a
  | .closes k => l.closed k

variable (key) in
def after (calls : List (Call α κ)) : Log key := calls.foldl apply empty

theorem after_append (past : List (Call α κ)) (c : Call α κ) :
    after key (past ++ [c]) = (after key past).apply c := by
  simp [after, List.foldl_append]

theorem find?_eq_none_iff (l : Log key) (k : κ) : l.find? k = none ↔ k ∉ l.items.map key := by
  simp only [find?, List.find?_eq_none, decide_eq_true_eq, List.mem_map, not_exists, not_and]

theorem find?_opened (l : Log key) (a : α) (h : l.find? (key a) = none) (k : κ) :
    (l.opened a).find? k = if key a = k then some a else l.find? k := by
  have hk : key a ∉ l.items.map key := (l.find?_eq_none_iff _).mp h
  rw [opened, dif_neg hk, find?, List.find?_cons]
  by_cases he : key a = k <;> simp [he, find?]

theorem opened_of_mem (l : Log key) (a : α) (h : l.find? (key a) ≠ none) : l.opened a = l := by
  have hk : key a ∈ l.items.map key := by
    by_contra hn
    exact h ((l.find?_eq_none_iff _).mpr hn)
  rw [opened, dif_pos hk]

theorem find?_closed (l : Log key) (k j : κ) :
    (l.closed k).find? j = if k = j then none else l.find? j := by
  rw [find?, closed, List.find?_filter]
  by_cases he : k = j
  · subst he
    simp
  · rw [if_neg he, find?]
    congr 1
    funext a
    by_cases ha : key a = j
    · have hj : j ≠ k := fun h => he h.symm
      simp [ha, hj]
    · simp [ha]

theorem newest_opened (l : Log key) (a : α) (h : l.find? (key a) = none) :
    (l.opened a).newest = some a := by
  rw [opened, dif_neg ((l.find?_eq_none_iff _).mp h)]
  rfl

theorem find?_newest {l : Log key} {a : α} (h : l.newest = some a) : l.find? (key a) = some a := by
  obtain ⟨rest, hitems⟩ := List.head?_eq_some_iff.mp h
  simp [find?, hitems]

/-- Closing anything but the newest item leaves the newest in place. -/
theorem newest_closed_of_ne {l : Log key} {a : α} {k : κ} (h : l.newest = some a)
    (hk : key a ≠ k) : (l.closed k).newest = some a := by
  obtain ⟨rest, hitems⟩ := List.head?_eq_some_iff.mp h
  simp [newest, closed, hitems, hk]

/-- Closing the newest item leaves a log that is empty exactly when it was alone. -/
theorem newest_closed_self {l : Log key} {a : α} (h : l.newest = some a) :
    (l.closed (key a)).newest = none ↔ l.items.length < 2 := by
  obtain ⟨rest, hitems⟩ := List.head?_eq_some_iff.mp h
  have hrest : ∀ c ∈ rest, key c ≠ key a := by
    intro c hc he
    have hn := l.nodup
    rw [hitems] at hn
    have hnot : key a ∉ rest.map key := (List.nodup_cons.mp hn).1
    exact hnot (he ▸ List.mem_map_of_mem hc)
  have hf : rest.filter (fun c => key c ≠ key a) = rest :=
    List.filter_eq_self.mpr (fun c hc => by simpa using hrest c hc)
  simp only [newest, closed, hitems, List.filter_cons, ne_eq, not_true_eq_false, decide_false,
    Bool.false_eq_true, if_false] at hf ⊢
  rw [hf, List.head?_eq_none_iff]
  cases rest <;> simp

end Log

/-- A log, and one slot that an opening sets and that closing its own key clears. -/
structure Slotted where
  log : Log key
  slot : Option κ

namespace Slotted

variable {key}

def empty : Slotted key := ⟨.empty, none⟩

def apply (s : Slotted key) : Call α κ → Slotted key
  | .opens a => if s.log.find? (key a) = none then ⟨s.log.opened a, some (key a)⟩ else s
  | .closes k => ⟨s.log.closed k, if s.slot = some k then none else s.slot⟩

variable (key) in
def after (calls : List (Call α κ)) : Slotted key := calls.foldl apply empty

def owner (s : Slotted key) : Option α := s.slot.bind s.log.find?

/-- The slot is never stale: it is empty or names the newest open item. -/
def Current (s : Slotted key) : Prop := ∀ k, s.slot = some k → s.log.newest.map key = some k

def ClosesNewestOfSeveral (l : Log key) : Call α κ → Prop
  | .opens _ => False
  | .closes k => l.newest.map key = some k ∧ 2 ≤ l.items.length

theorem after_append (past : List (Call α κ)) (c : Call α κ) :
    after key (past ++ [c]) = (after key past).apply c := by
  simp [after, List.foldl_append]

theorem log_apply (s : Slotted key) (c : Call α κ) : (s.apply c).log = s.log.apply c := by
  cases c with
  | opens a =>
    unfold apply Log.apply
    dsimp only
    split_ifs with hf
    · rfl
    · rw [Log.opened_of_mem _ _ hf]
  | closes k => rfl

theorem log_after (calls : List (Call α κ)) : (after key calls).log = Log.after key calls := by
  induction calls using List.reverseRecOn with
  | nil => rfl
  | append_singleton past c ih => rw [after_append, Log.after_append, log_apply, ih]

theorem current_apply {s : Slotted key} (h : s.Current) (c : Call α κ) : (s.apply c).Current := by
  cases c with
  | opens a =>
    unfold apply
    dsimp only
    split_ifs with hf
    · intro k hk
      rw [Log.newest_opened _ _ hf]
      exact hk
    · exact h
  | closes k =>
    intro j hj
    simp only [apply] at hj ⊢
    split_ifs at hj with hs
    obtain ⟨a, ha, hka⟩ := Option.map_eq_some_iff.mp (h j hj)
    have hne : key a ≠ k := by
      intro he
      exact hs (by rw [hj, ← hka, he])
    rw [Log.newest_closed_of_ne ha hne, Option.map_some, hka]

theorem current_after (calls : List (Call α κ)) : (after key calls).Current := by
  induction calls using List.reverseRecOn with
  | nil => intro k hk; simp [after, empty] at hk
  | append_singleton past c ih => rw [after_append]; exact current_apply ih c

theorem slot_ne_of_missing {s : Slotted key} (h : s.Current) {k : κ} (hk : s.log.find? k = none) :
    s.slot ≠ some k := by
  intro hs
  obtain ⟨a, ha, hka⟩ := Option.map_eq_some_iff.mp (h k hs)
  have hf := Log.find?_newest ha
  rw [hka, hk] at hf
  exact absurd hf (by simp)

theorem owner_eq_newest_of_slot {s : Slotted key} (h : s.Current) {k : κ} (hk : s.slot = some k) :
    s.owner = s.log.newest := by
  obtain ⟨a, ha, hka⟩ := Option.map_eq_some_iff.mp (h k hk)
  rw [owner, hk, Option.bind_some, ← hka, Log.find?_newest ha, ha]

theorem owner_eq_newest_iff {s : Slotted key} (h : s.Current) :
    s.owner = s.log.newest ↔ s.slot = s.log.newest.map key := by
  cases hs : s.slot with
  | none =>
    have ho : s.owner = none := by rw [owner, hs]; rfl
    rw [ho]
    cases s.log.newest <;> simp
  | some k => simp [owner_eq_newest_of_slot h hs, h k hs]

/-- From a state in which the slot names the newest item, one call breaks that exactly when it
closes the newest item while an older one is open. -/
theorem owner_eq_newest_apply_iff {s : Slotted key} (h : s.Current)
    (ho : s.owner = s.log.newest) (c : Call α κ) :
    (s.apply c).owner = (s.apply c).log.newest ↔ ¬ ClosesNewestOfSeveral s.log c := by
  have hslot := (owner_eq_newest_iff h).mp ho
  rw [owner_eq_newest_iff (current_apply h c)]
  cases c with
  | opens a =>
    simp only [ClosesNewestOfSeveral, not_false_eq_true, iff_true]
    unfold apply
    dsimp only
    split_ifs with hf
    · rw [Log.newest_opened _ _ hf, Option.map_some]
    · exact hslot
  | closes k =>
    simp only [ClosesNewestOfSeveral, apply]
    cases hn : s.log.newest with
    | none =>
      have hitems : s.log.items = [] := List.head?_eq_none_iff.mp hn
      have hcl : (s.log.closed k).newest = none := by simp [Log.newest, Log.closed, hitems]
      simp [hslot, hn, hcl]
    | some a =>
      by_cases hk : key a = k
      · subst hk
        have hself := Log.newest_closed_self hn
        have hs : s.slot = some (key a) := by rw [hslot, hn]; rfl
        rw [if_pos hs, eq_comm, Option.map_eq_none_iff, hself]
        simp
      · have hs : s.slot ≠ some k := by rw [hslot, hn]; simpa using hk
        rw [if_neg hs, Log.newest_closed_of_ne hn hk, hslot, hn]
        simp [hk]

variable (key) in
/-- Over whole runs of calls that `f` reads as openings and closings: the slot names the newest
open item in every state exactly when no call closes the newest item while an older one is open. -/
theorem owner_eq_newest_throughout_iff {γ : Type*} (f : γ → Call α κ) (calls : List γ) :
    (∀ past, past <+: calls →
        (after key (past.map f)).owner = (Log.after key (past.map f)).newest) ↔
      ∀ past c, past ++ [c] <+: calls →
        ¬ ClosesNewestOfSeveral (Log.after key (past.map f)) (f c) := by
  have hsnoc : ∀ past c,
      after key ((past ++ [c]).map f) = (after key (past.map f)).apply (f c) := by
    intro past c
    rw [List.map_append, List.map_singleton, after_append]
  simp only [← log_after]
  constructor
  · intro h past c hp
    have h0 := h past ((List.prefix_append past [c]).trans hp)
    have h1 := h _ hp
    rw [hsnoc] at h1
    exact (owner_eq_newest_apply_iff (current_after _) h0 (f c)).mp h1
  · intro h past
    induction past using List.reverseRecOn with
    | nil => intro _; rfl
    | append_singleton past c ih =>
      intro hp
      have h0 := ih ((List.prefix_append past [c]).trans hp)
      rw [hsnoc]
      exact (owner_eq_newest_apply_iff (current_after _) h0 (f c)).mpr (h past c hp)

end Slotted
end Recency
