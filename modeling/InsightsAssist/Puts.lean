import Mathlib.Data.Finmap

/-! A map that entries are put into one after the other: a key has the last value put under it. -/
namespace InsightsAssist
variable {κ β : Type*} [DecidableEq κ] {puts other : List (κ × β)} {m : Finmap fun _ : κ => β}
  {k : κ} {v : β}

def putAll (m : Finmap fun _ : κ => β) (puts : List (κ × β)) : Finmap fun _ : κ => β :=
  puts.foldl (fun m put => m.insert put.1 put.2) m

/-- No key is given two values. -/
def Agree (puts : List (κ × β)) : Prop :=
  ∀ a ∈ puts, ∀ b ∈ puts, a.1 = b.1 → a.2 = b.2

theorem putAll_append : putAll m (puts ++ other) = putAll (putAll m puts) other :=
  List.foldl_append

theorem putAll_concat (put : κ × β) :
    putAll m (puts ++ [put]) = (putAll m puts).insert put.1 put.2 := putAll_append

theorem lookup_putAll_of_not_mem (h : k ∉ puts.map Prod.fst) :
    (putAll m puts).lookup k = m.lookup k := by
  induction puts using List.reverseRecOn with
  | nil => rfl
  | append_singleton puts put ih =>
    rw [List.map_append, List.mem_append, not_or] at h
    have hne : k ≠ put.1 := by simpa using h.2
    rw [putAll_concat, Finmap.lookup_insert_of_ne _ hne, ih h.1]

theorem exists_of_mem_keys (h : k ∈ puts.map Prod.fst) :
    ∃ put ∈ puts, put.1 = k ∧ (putAll m puts).lookup k = some put.2 := by
  induction puts using List.reverseRecOn with
  | nil => simp at h
  | append_singleton puts put ih =>
    rw [putAll_concat]
    by_cases hk : k = put.1
    · subst hk
      exact ⟨put, by simp, rfl, Finmap.lookup_insert _⟩
    · rw [Finmap.lookup_insert_of_ne _ hk]
      rw [List.map_append, List.mem_append] at h
      obtain ⟨put', hput', hfound⟩ := ih (h.resolve_right (by simpa using hk))
      exact ⟨put', List.mem_append_left _ hput', hfound⟩

theorem lookup_putAll (hagree : Agree puts) {put : κ × β} (h : put ∈ puts) :
    (putAll m puts).lookup put.1 = some put.2 := by
  obtain ⟨put', hput', hkey, hlookup⟩ := exists_of_mem_keys (m := m) (List.mem_map_of_mem h)
  rw [hlookup, hagree put' hput' put h hkey]

theorem keys_putAll : (putAll m puts).keys = m.keys ∪ (puts.map Prod.fst).toFinset := by
  ext k
  rw [Finset.mem_union, List.mem_toFinset, Finmap.mem_keys, Finmap.mem_keys, Finmap.mem_iff,
    Finmap.mem_iff]
  by_cases hk : k ∈ puts.map Prod.fst
  · obtain ⟨put, -, -, hlookup⟩ := exists_of_mem_keys (m := m) hk
    simp [hk, hlookup]
  · rw [lookup_putAll_of_not_mem hk]
    simp only [hk, or_false]

theorem putAll_perm (hperm : other.Perm puts) (hagree : Agree puts) :
    putAll m other = putAll m puts := by
  refine Finmap.ext_lookup fun k => ?_
  by_cases hk : k ∈ puts.map Prod.fst
  · obtain ⟨put, hput, rfl⟩ := List.mem_map.mp hk
    have hother : Agree other := fun a ha b hb =>
      hagree a (hperm.mem_iff.mp ha) b (hperm.mem_iff.mp hb)
    rw [lookup_putAll hagree hput, lookup_putAll hother (hperm.mem_iff.mpr hput)]
  · have hother : k ∉ other.map Prod.fst := fun h => hk ((hperm.map _).mem_iff.mp h)
    rw [lookup_putAll_of_not_mem hk, lookup_putAll_of_not_mem hother]

end InsightsAssist
