import Mathlib.Data.List.DropRight

/-! Splitting a text at a character as `String.split` does, without the trailing empty parts,
and joining the parts again. -/
namespace InsightsAssist

/-- No match leaves the text whole, so the empty text has one part. -/
def split (s : List Char) (sep : Char) : List (List Char) :=
  if sep ∈ s then (s.splitOn sep).rdropWhile (·.isEmpty) else [s]

def join (sep : Char) (parts : List (List Char)) : List Char := [sep].intercalate parts

variable {sep c : Char} {s : List Char} {parts : List (List Char)}

theorem join_cons (h : parts ≠ []) (p : List Char) :
    join sep (p :: parts) = p ++ sep :: join sep parts := by
  rw [join, List.intercalate_cons_of_ne_nil h, List.append_assoc]
  rfl

theorem intercalate_concat_nil {α : Type*} {sep : α} {parts : List (List α)} (h : parts ≠ []) :
    [sep].intercalate (parts ++ [[]]) = [sep].intercalate parts ++ [sep] := by
  induction parts with
  | nil => exact absurd rfl h
  | cons p parts ih =>
    cases parts with
    | nil => simp
    | cons q parts => simpa using ih (by simp)

theorem intercalate_concat_append {α : Type*} (sep : List α) (parts : List (List α))
    (a b : List α) : sep.intercalate (parts ++ [a ++ b]) = sep.intercalate (parts ++ [a]) ++ b := by
  induction parts with
  | nil => simp
  | cons p parts ih =>
    rw [List.cons_append, List.cons_append, List.intercalate_cons_of_ne_nil (by simp),
      List.intercalate_cons_of_ne_nil (by simp), ih]
    simp only [List.append_assoc]

theorem splitOn_concat_of_ne (h : c ≠ sep) :
    ((s ++ [c]).splitOn sep).rdropWhile (·.isEmpty) = (s ++ [c]).splitOn sep := by
  rw [List.rdropWhile_eq_self_iff]
  intro hne hlast
  obtain ⟨front, hs⟩ : ∃ front, (s ++ [c]).splitOn sep = front ++ [[]] := by
    have hparts := List.dropLast_append_getLast hne
    rw [List.isEmpty_iff.mp hlast] at hparts
    exact ⟨_, hparts.symm⟩
  have hjoin : [sep].intercalate (front ++ [[]]) = s ++ [c] := by
    rw [← hs, List.intercalate_splitOn]
  by_cases hfront : front = []
  · simp [hfront] at hjoin
  · rw [intercalate_concat_nil hfront] at hjoin
    have hsep : [sep] = [c] := (List.append_inj' hjoin rfl).2
    simp_all

theorem splitOn_concat_self (s : List Char) (c : Char) :
    (s ++ [c]).splitOn c = s.splitOn c ++ [[]] := by
  rw [List.splitOn_append_cons_self, List.splitOn_nil]

theorem join_splitOn (s : List Char) (sep : Char) :
    join sep ((s.splitOn sep).rdropWhile (·.isEmpty)) = s.rdropWhile (· = sep) := by
  induction s using List.reverseRecOn with
  | nil => simp [join, List.rdropWhile_singleton]
  | append_singleton s c ih =>
    by_cases hc : c = sep
    · subst hc
      rw [splitOn_concat_self, List.rdropWhile_concat, List.rdropWhile_concat]
      simpa using ih
    · rw [splitOn_concat_of_ne hc, List.rdropWhile_concat_neg _ _ _ (by simpa using hc), join,
        List.intercalate_splitOn]

theorem rdropWhile_of_not_mem (h : sep ∉ s) : s.rdropWhile (· = sep) = s := by
  rw [List.rdropWhile_eq_self_iff]
  intro hne hlast
  have hsep : s.getLast hne = sep := by simpa using hlast
  exact h (hsep ▸ List.getLast_mem hne)

/-- Splitting and joining drops the trailing separators and nothing else. -/
theorem join_split (s : List Char) (sep : Char) :
    join sep (split s sep) = s.rdropWhile (· = sep) := by
  unfold split
  split
  · exact join_splitOn s sep
  · rename_i hmem
    rw [rdropWhile_of_not_mem hmem]
    simp [join]

theorem eq_nil_of_join_eq_nil (h : join sep parts = []) : ∀ p ∈ parts, p = [] := by
  cases parts with
  | nil => simp
  | cons p parts =>
    cases parts with
    | nil => simpa [join] using h
    | cons q parts => simp [join] at h

theorem split_eq_nil_iff (s : List Char) (sep : Char) :
    split s sep = [] ↔ sep ∈ s ∧ ∀ c ∈ s, c = sep := by
  constructor
  · intro h
    have hmem : sep ∈ s := by
      by_contra hmem
      simp [split, hmem] at h
    have hdrop : s.rdropWhile (· = sep) = [] := by
      rw [← join_split, h]
      rfl
    exact ⟨hmem, by simpa [List.rdropWhile_eq_nil_iff] using hdrop⟩
  · rintro ⟨hmem, hall⟩
    have hjoin : join sep (split s sep) = [] := by
      rw [join_split, List.rdropWhile_eq_nil_iff]
      simpa using hall
    by_contra hne
    have hlast := eq_nil_of_join_eq_nil hjoin _ (List.getLast_mem hne)
    simp only [split, if_pos hmem] at hne hlast
    exact List.rdropWhile_last_not _ _ hne (by simp [hlast])

/-- Lines that each end in the separator. -/
def terminated (sep : Char) (lines : List (List Char)) : List Char :=
  lines.flatMap fun line => line ++ [sep]

theorem terminated_eq_join (sep : Char) (lines : List (List Char)) :
    terminated sep lines = join sep (lines ++ [[]]) := by
  induction lines with
  | nil => simp [terminated, join]
  | cons line lines ih =>
    rw [List.cons_append, join_cons (by simp), ← ih]
    simp [terminated]

theorem length_splitOn (s : List Char) (sep : Char) :
    (s.splitOn sep).length = s.count sep + 1 := by
  induction s with
  | nil => simp
  | cons c s ih =>
    rw [List.splitOn_cons_eq_if_modifyHead, List.count_cons]
    split
    · simp [ih]
    · simp [ih]

theorem count_join (h : parts ≠ []) :
    (join sep parts).count sep + 1 = parts.flatten.count sep + parts.length := by
  induction parts with
  | nil => exact absurd rfl h
  | cons p parts ih =>
    cases parts with
    | nil => simp [join]
    | cons q parts =>
      have hrest := ih (by simp)
      rw [join_cons (by simp), List.count_append, List.count_cons_self, List.flatten_cons,
        List.count_append, List.length_cons]
      omega

theorem length_splitOn_join_iff (h : parts ≠ []) :
    ((join sep parts).splitOn sep).length = parts.length ↔ ∀ p ∈ parts, sep ∉ p := by
  have hcount : (join sep parts).count sep + 1 = parts.flatten.count sep + parts.length :=
    count_join h
  have hzero : parts.flatten.count sep = 0 ↔ ∀ p ∈ parts, sep ∉ p := by
    simp [List.count_eq_zero]
  rw [length_splitOn, ← hzero]
  omega

theorem splitOn_join (hne : parts ≠ []) (h : ∀ p ∈ parts, sep ∉ p) :
    (join sep parts).splitOn sep = parts := List.splitOn_intercalate sep h hne

theorem not_mem_of_mem_split {p : List Char} (h : p ∈ split s sep) : sep ∉ p := by
  unfold split at h
  split at h
  · have hjoin : ((join sep (s.splitOn sep)).splitOn sep).length = (s.splitOn sep).length := by
      rw [join, List.intercalate_splitOn]
    exact (length_splitOn_join_iff (by simp)).mp hjoin p ((List.rdropWhile_prefix _ _).subset h)
  · rename_i hmem
    rwa [List.mem_singleton.mp h]

theorem split_pair {a b : List Char} (ha : sep ∉ a) (hb : sep ∉ b) (hne : b ≠ []) :
    split (a ++ sep :: b) sep = [a, b] := by
  have hjoin : a ++ sep :: b = join sep [a, b] := by simp [join]
  have hparts : (a ++ sep :: b).splitOn sep = [a, b] := by
    rw [hjoin]
    exact splitOn_join (by simp) (by simp [ha, hb])
  rw [split, if_pos (by simp), hparts, List.rdropWhile_eq_self_iff]
  simpa using hne

theorem rtakeWhile_eq_replicate (s : List Char) (sep : Char) :
    s.rtakeWhile (· = sep) = List.replicate (s.rtakeWhile (· = sep)).length sep := by
  refine List.eq_replicate_of_mem fun c hc => ?_
  simpa using List.mem_rtakeWhile_imp hc

theorem rdropWhile_splitOn_append_replicate (s : List Char) (sep : Char) (n : Nat) :
    ((s ++ List.replicate n sep).splitOn sep).rdropWhile (·.isEmpty) =
      (s.splitOn sep).rdropWhile (·.isEmpty) := by
  induction n with
  | zero => simp
  | succ n ih =>
    rw [List.replicate_succ', ← List.append_assoc, splitOn_concat_self,
      List.rdropWhile_concat_pos _ _ _ (by rfl), ih]

/-- Parts come back from their join, whatever separators follow it, if the last is not empty. -/
theorem split_join_append_replicate {p : List Char} (hp : p ≠ []) (hne : parts ≠ [])
    (h : ∀ q ∈ parts ++ [p], sep ∉ q) (n : Nat) :
    split (join sep (parts ++ [p]) ++ List.replicate n sep) sep = parts ++ [p] := by
  have hmem : sep ∈ join sep (parts ++ [p]) := by
    obtain ⟨first, rest, rfl⟩ := List.exists_cons_of_ne_nil hne
    rw [List.cons_append, join_cons (by simp)]
    simp
  rw [split, if_pos (List.mem_append_left _ hmem), rdropWhile_splitOn_append_replicate,
    splitOn_join (by simp) h, List.rdropWhile_concat_neg]
  simpa using hp

theorem mem_join (hc : c ≠ sep) : c ∈ join sep parts ↔ ∃ p ∈ parts, c ∈ p := by
  induction parts with
  | nil => simp [join]
  | cons p parts ih =>
    cases parts with
    | nil => simp [join]
    | cons q parts =>
      rw [join_cons (by simp), List.mem_append, List.mem_cons, or_iff_right hc, ih]
      simp

end InsightsAssist
