import Mathlib.Data.Finmap

/-! Iteration over a hash map: the map fixes the entries, the order is any listing of them. -/
namespace IterationOrder

variable {κ υ : Type*} [DecidableEq κ]

/-- The value that iteration in the order `order` meets first. -/
def first (order : AList fun _ : κ => υ) : Option υ := order.entries.head?.map Sigma.snd

variable {m : Finmap fun _ : κ => υ}

theorem lookup_of_first {order : AList fun _ : κ => υ} (ho : order.toFinmap = m) {v : υ}
    (h : first order = some v) : ∃ k, m.lookup k = some v := by
  obtain ⟨⟨k, w⟩, hhead, hw⟩ := Option.map_eq_some_iff.mp h
  have hmem : (⟨k, w⟩ : Sigma fun _ : κ => υ) ∈ order.entries := List.mem_of_mem_head? hhead
  have hvw : w = v := hw
  refine ⟨k, ?_⟩
  rw [← ho, Finmap.lookup_toFinmap, ← hvw]
  exact AList.mem_lookup_iff.mpr hmem

/-- Every entry of the map comes first in some order. -/
theorem exists_first {k : κ} {v : υ} (h : m.lookup k = some v) :
    ∃ order : AList fun _ : κ => υ, order.toFinmap = m ∧ first order = some v := by
  obtain ⟨l, hl⟩ : ∃ l : AList fun _ : κ => υ, l.toFinmap = m := m.induction_on fun l => ⟨l, rfl⟩
  refine ⟨(l.erase k).insert k v, ?_, ?_⟩
  · rw [← Finmap.insert_toFinmap, ← Finmap.erase_toFinmap, hl]
    apply Finmap.ext_lookup
    intro j
    by_cases hj : j = k
    · rw [hj, Finmap.lookup_insert, h]
    · rw [Finmap.lookup_insert_of_ne _ hj, Finmap.lookup_erase_ne hj]
  · unfold first
    rw [AList.entries_insert]
    rfl

theorem first_eq_none_iff {order : AList fun _ : κ => υ} (ho : order.toFinmap = m) :
    first order = none ↔ ∀ k, m.lookup k = none := by
  constructor
  · intro h k
    have hnil : order.entries = [] := List.head?_eq_none_iff.mp (Option.map_eq_none_iff.mp h)
    rw [← ho, Finmap.lookup_toFinmap, AList.lookup, hnil, List.dlookup_nil]
  · intro h
    by_contra hne
    obtain ⟨v, hv⟩ := Option.ne_none_iff_exists'.mp hne
    obtain ⟨k, hk⟩ := lookup_of_first ho hv
    exact absurd (h k) (by simp [hk])

end IterationOrder
