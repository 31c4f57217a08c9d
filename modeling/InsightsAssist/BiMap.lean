import Mathlib.Data.List.AList

/-! Partial one-to-one maps, with the operations of a hash bimap: a put that would give
one value two keys is refused. -/
namespace InsightsAssist

structure BiMap (κ ν : Type*) [DecidableEq κ] where
  toAList : AList fun _ : κ => ν
  injective : ∀ {k k' v}, toAList.lookup k = some v → toAList.lookup k' = some v → k = k'

namespace BiMap
variable {κ ν : Type*} [DecidableEq κ]

def empty : BiMap κ ν := ⟨∅, by simp⟩

def get (m : BiMap κ ν) (k : κ) : Option ν := m.toAList.lookup k

def containsKey (m : BiMap κ ν) (k : κ) : Bool := (m.get k).isSome

/-- The key of a value: `inverse().get`. -/
def getKey [DecidableEq ν] (m : BiMap κ ν) (v : ν) : Option κ :=
  (m.toAList.entries.find? fun e => e.2 = v).map Sigma.fst

def containsValue [DecidableEq ν] (m : BiMap κ ν) (v : ν) : Bool := (m.getKey v).isSome

def remove (m : BiMap κ ν) (k : κ) : BiMap κ ν where
  toAList := m.toAList.erase k
  injective := by
    intro a b v ha hb
    by_cases hak : a = k
    · subst hak; simp at ha
    · by_cases hbk : b = k
      · subst hbk; simp at hb
      · rw [AList.lookup_erase_ne hak] at ha
        rw [AList.lookup_erase_ne hbk] at hb
        exact m.injective ha hb

def removeValue [DecidableEq ν] (m : BiMap κ ν) (v : ν) : BiMap κ ν :=
  match m.getKey v with
  | none => m
  | some k => m.remove k

theorem getKey_eq_some [DecidableEq ν] (m : BiMap κ ν) (k : κ) (v : ν) :
    m.getKey v = some k ↔ m.get k = some v := by
  have hmem : ∀ e ∈ m.toAList.entries, m.get e.1 = some e.2 := fun e he =>
    AList.mem_lookup_iff.mpr he
  constructor
  · intro h
    obtain ⟨e, he, rfl⟩ := Option.map_eq_some_iff.mp h
    have hv : e.2 = v := by simpa using List.find?_some he
    rw [← hv]
    exact hmem e (List.mem_of_find?_eq_some he)
  · intro h
    have hk : (⟨k, v⟩ : Sigma fun _ : κ => ν) ∈ m.toAList.entries := AList.mem_lookup_iff.mp h
    cases hf : m.toAList.entries.find? (fun e => e.2 = v) with
    | none => simpa using List.find?_eq_none.mp hf _ hk
    | some e =>
      have hv : e.2 = v := by simpa using List.find?_some hf
      have he := hmem e (List.mem_of_find?_eq_some hf)
      rw [hv] at he
      simp [getKey, hf, m.injective he h]

theorem getKey_eq_none [DecidableEq ν] (m : BiMap κ ν) (v : ν) :
    m.getKey v = none ↔ ∀ k, m.get k ≠ some v := by
  rw [Option.eq_none_iff_forall_ne_some]
  exact forall_congr' fun k => not_congr (m.getKey_eq_some k v)

theorem containsKey_iff (m : BiMap κ ν) (k : κ) : m.containsKey k ↔ ∃ v, m.get k = some v := by
  rw [containsKey, Option.isSome_iff_exists]

theorem containsValue_iff [DecidableEq ν] (m : BiMap κ ν) (v : ν) :
    m.containsValue v ↔ ∃ k, m.get k = some v := by
  simp only [containsValue, Option.isSome_iff_exists, getKey_eq_some]

theorem get_inj (m : BiMap κ ν) {k k' : κ} {v : ν} (h : m.get k = some v)
    (h' : m.get k' = some v) : k = k' :=
  m.injective h h'

/-- `put`; `none` is the refusal "value already present". -/
def put [DecidableEq ν] (m : BiMap κ ν) (k : κ) (v : ν) : Option (BiMap κ ν) :=
  if m.get k = some v then some m
  else if h : m.containsValue v then none
  else some {
    toAList := m.toAList.insert k v
    injective := by
      have hfresh : ∀ a, m.get a ≠ some v := fun a ha => h ((m.containsValue_iff v).mpr ⟨a, ha⟩)
      intro a b w ha hb
      by_cases hak : a = k <;> by_cases hbk : b = k
      · rw [hak, hbk]
      · subst hak
        rw [AList.lookup_insert] at ha
        rw [AList.lookup_insert_ne hbk] at hb
        exact absurd (hb.trans ha.symm) (hfresh b)
      · subst hbk
        rw [AList.lookup_insert] at hb
        rw [AList.lookup_insert_ne hak] at ha
        exact absurd (ha.trans hb.symm) (hfresh a)
      · rw [AList.lookup_insert_ne hak] at ha
        rw [AList.lookup_insert_ne hbk] at hb
        exact m.injective ha hb }

@[simp] theorem get_empty (k : κ) : (empty : BiMap κ ν).get k = none := by
  simp [get, empty]

theorem get_remove (m : BiMap κ ν) (k k' : κ) :
    (m.remove k).get k' = if k' = k then none else m.get k' := by
  by_cases h : k' = k
  · subst h; simp [get, remove]
  · simp [get, remove, h, AList.lookup_erase_ne h]

theorem get_removeValue [DecidableEq ν] (m : BiMap κ ν) (v : ν) (k : κ) :
    (m.removeValue v).get k = if m.get k = some v then none else m.get k := by
  cases h : m.getKey v with
  | none => simp [removeValue, h, (m.getKey_eq_none v).mp h k]
  | some k' =>
    have hk' : m.get k' = some v := (m.getKey_eq_some k' v).mp h
    simp only [removeValue, h, get_remove]
    by_cases hk : k = k'
    · simp [hk, hk']
    · have hne : m.get k ≠ some v := fun hkv => hk (m.get_inj hkv hk')
      simp [hk, hne]

theorem put_of_free [DecidableEq ν] (m : BiMap κ ν) (k : κ) (v : ν)
    (hfree : ∀ k', m.get k' = some v → k' = k) :
    ∃ m', m.put k v = some m' ∧ ∀ k', m'.get k' = if k' = k then some v else m.get k' := by
  by_cases hkv : m.get k = some v
  · refine ⟨m, by simp [put, hkv], fun k' => ?_⟩
    by_cases hk : k' = k
    · simp [hk, hkv]
    · simp [hk]
  · have hno : ¬ m.containsValue v := by
      rw [containsValue_iff]
      rintro ⟨k', hk'⟩
      exact hkv (hfree k' hk' ▸ hk')
    refine ⟨_, by rw [put, if_neg hkv, dif_neg hno], fun k' => ?_⟩
    by_cases hk : k' = k
    · subst hk; simp [get]
    · simp [get, hk, AList.lookup_insert_ne hk]

/-- Whatever a put does, it binds no key but its own to its value. -/
theorem get_of_put [DecidableEq ν] {m m' : BiMap κ ν} {k k' : κ} {v w : ν}
    (h : m.put k v = some m') (hg : m'.get k' = some w) :
    (k' = k ∧ w = v) ∨ m.get k' = some w := by
  unfold put at h
  split at h
  · cases h; exact .inr hg
  · split at h
    · cases h
    · cases h
      by_cases hk : k' = k
      · subst hk
        left
        simpa [get, eq_comm] using hg
      · right
        simpa [get, AList.lookup_insert_ne hk] using hg

end BiMap
end InsightsAssist
