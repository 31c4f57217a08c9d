import Mathlib.Data.Finmap
import InsightsAssist.JavaStrings
import InsightsAssist.Split

/-! The parameters of a request for several forms of one kind: those whose name is key-groupId,
sorted into one group of attributes for each form. -/
namespace InsightsAssist.GroupedParameters
variable {α : Type*}

def isSensitiveParameter (paramName : List Char) : Bool :=
  !paramName.isEmpty && ['_'].isPrefixOf paramName

def deSensitise : List Char → List Char
  | '_' :: paramName => paramName
  | paramName => paramName

/-- Sensitive parameters are prefixed with the _ character, attributes are not. -/
def attributeName (paramName : List Char) : List Char :=
  if isSensitiveParameter paramName then deSensitise paramName else paramName

/-- The parameters of a request by name, in the order they are iterated over. -/
structure ParameterMap (α : Type*) where
  entries : List (List Char × α)
  nodup : (entries.map Prod.fst).Nodup

/-- {25 => {id => 25}}: by group id, then by key. -/
abbrev Groups (α : Type*) := Finmap fun _ : List Char => Finmap fun _ : List Char => α

def addToGroup (grouped : Groups α) (groupId key : List Char) (value : α) : Groups α :=
  grouped.insert groupId (((grouped.lookup groupId).getD ∅).insert key value)

def addParameter (grouped : Groups α) (me : List Char × α) : Except Throwable (Groups α) :=
  let paramName := attributeName me.1
  match split paramName '-' with
  | [key, groupId] => .ok (addToGroup grouped groupId key me.2)
  | _ => .error (.illegalState ("Invalid request parameter name. Must have exactly two parts " ++
      s!"separated by a dash [got {String.ofList paramName}]"))

def nameContainsDash (me : List Char × α) : Bool := '-' ∈ me.1

/-- The groups by their ids; those returned are the values of this map. -/
def groupParameters (parameterMap : ParameterMap α) : Except Throwable (Groups α) :=
  (parameterMap.entries.filter nameContainsDash).foldlM addParameter ∅

def value (grouped : Groups α) (groupId key : List Char) : Option α :=
  (grouped.lookup groupId).bind fun aGroup => aGroup.lookup key

/-- The parameter is found in this group under this key, as its name says. -/
structure IsAt (grouped : Groups α) (me : List Char × α) (groupId key : List Char) : Prop where
  key_ne_nil : key ≠ []
  groupId_ne_nil : groupId ≠ []
  name : attributeName me.1 = key ++ '-' :: groupId
  value : value grouped groupId key = some me.2

/-- Each parameter with a dash is at one place, and each place is that of one parameter. -/
structure OneToOne (entries : List (List Char × α)) (grouped : Groups α) : Prop where
  place : ∀ me ∈ entries, nameContainsDash me →
    ∃! p : List Char × List Char, IsAt grouped me p.1 p.2
  parameter : ∀ groupId key v, value grouped groupId key = some v →
    ∃! me, me ∈ entries ∧ nameContainsDash me ∧ IsAt grouped me groupId key
  nonempty : ∀ groupId aGroup, grouped.lookup groupId = some aGroup → aGroup ≠ ∅

/-- In every order of iteration the parameters are refused, or the same groups are returned, to
which they correspond. -/
def Grouped (m : ParameterMap α) : Prop :=
  (∀ m' : ParameterMap α, m'.entries.Perm m.entries → ∃ e, groupParameters m' = .error e) ∨
    ∃ grouped, OneToOne m.entries grouped ∧
      ∀ m' : ParameterMap α, m'.entries.Perm m.entries → groupParameters m' = .ok grouped

/-- A name with a dash that splits into one part, none or more than two. -/
def Refused (entries : List (List Char × α)) : Prop :=
  ∃ me ∈ entries, nameContainsDash me ∧ (split (attributeName me.1) '-').length ≠ 2

/-- Names with a dash are of the form key-groupId, and no two differ by a leading _ only. -/
structure WellNamed (entries : List (List Char × α)) : Prop where
  parts : ∀ me ∈ entries, nameContainsDash me → ∃ key groupId : List Char,
    key ≠ [] ∧ groupId ≠ [] ∧ '-' ∉ key ∧ '-' ∉ groupId ∧
      attributeName me.1 = key ++ '-' :: groupId
  distinct : ∀ a ∈ entries, ∀ b ∈ entries, nameContainsDash a → nameContainsDash b →
    attributeName a.1 = attributeName b.1 → a.1 = b.1

def parts (me : List Char × α) : List Char × List Char :=
  match split (attributeName me.1) '-' with
  | [key, groupId] => (key, groupId)
  | _ => ([], [])

def addParts (grouped : Groups α) (me : List Char × α) : Groups α :=
  addToGroup grouped (parts me).2 (parts me).1 me.2

variable {grouped : Groups α} {me a b : List Char × α} {groupId key groupId' key' : List Char}
  {v : α} {entries : List (List Char × α)} {m : ParameterMap α}

section Steps

theorem addParameter_ok (h : (split (attributeName me.1) '-').length = 2) (grouped : Groups α) :
    addParameter grouped me = .ok (addParts grouped me) := by
  obtain ⟨key, groupId, hsplit⟩ := List.length_eq_two.mp h
  simp [addParameter, addParts, parts, hsplit]

theorem addParameter_error (h : (split (attributeName me.1) '-').length ≠ 2)
    (grouped : Groups α) : ∃ e, addParameter grouped me = .error e := by
  unfold addParameter
  dsimp only
  split
  · rename_i hsplit
    rw [hsplit] at h
    exact absurd rfl h
  · exact ⟨_, rfl⟩

theorem value_addToGroup : value (addToGroup grouped groupId key v) groupId' key' =
    if groupId' = groupId ∧ key' = key then some v else value grouped groupId' key' := by
  by_cases hg : groupId' = groupId
  · subst hg
    by_cases hk : key' = key
    · subst hk
      simp [value, addToGroup]
    · cases hlookup : grouped.lookup groupId' with
      | none => simp [value, addToGroup, hk, hlookup, Finmap.lookup_insert_of_ne _ hk]
      | some aGroup => simp [value, addToGroup, hk, hlookup, Finmap.lookup_insert_of_ne _ hk]
  · simp [value, addToGroup, hg, Finmap.lookup_insert_of_ne _ hg]

theorem addToGroup_comm (h : ¬(groupId = groupId' ∧ key = key')) (v v' : α) :
    addToGroup (addToGroup grouped groupId key v) groupId' key' v' =
      addToGroup (addToGroup grouped groupId' key' v') groupId key v := by
  by_cases hg : groupId = groupId'
  · subst hg
    have hk : key ≠ key' := fun hk => h ⟨rfl, hk⟩
    simp only [addToGroup, Finmap.lookup_insert, Option.getD_some, Finmap.insert_insert]
    rw [Finmap.insert_insert_of_ne _ hk]
  · simp only [addToGroup, Finmap.lookup_insert_of_ne _ hg,
      Finmap.lookup_insert_of_ne _ (Ne.symm hg)]
    rw [Finmap.insert_insert_of_ne _ hg]

theorem addToGroup_nonempty {aGroup : Finmap fun _ : List Char => α}
    (hne : ∀ groupId aGroup, grouped.lookup groupId = some aGroup → aGroup ≠ ∅)
    (h : (addToGroup grouped groupId key v).lookup groupId' = some aGroup) : aGroup ≠ ∅ := by
  by_cases hg : groupId' = groupId
  · subst hg
    rw [addToGroup, Finmap.lookup_insert] at h
    cases h
    intro hempty
    have hlookup := congrArg (Finmap.lookup key) hempty
    simp at hlookup
  · rw [addToGroup, Finmap.lookup_insert_of_ne _ hg] at h
    exact hne groupId' aGroup h

end Steps

section Runs

theorem not_mem_parts (me : List Char × α) : '-' ∉ (parts me).1 ∧ '-' ∉ (parts me).2 := by
  unfold parts
  split
  · rename_i key groupId hsplit
    constructor
    · exact not_mem_of_mem_split (hsplit ▸ List.mem_cons_self)
    · exact not_mem_of_mem_split (hsplit ▸ List.mem_cons_of_mem _ List.mem_cons_self)
  · simp

theorem parts_of_name (hname : attributeName me.1 = key ++ '-' :: groupId) (hkey : '-' ∉ key)
    (hgroupId : '-' ∉ groupId) (hne : groupId ≠ []) :
    (split (attributeName me.1) '-').length = 2 ∧ parts me = (key, groupId) := by
  have hsplit := split_pair hkey hgroupId hne
  rw [← hname] at hsplit
  simp [parts, hsplit]

theorem foldlM_error (h : ∃ me ∈ entries, (split (attributeName me.1) '-').length ≠ 2)
    (grouped : Groups α) : ∃ e, entries.foldlM addParameter grouped = .error e := by
  induction entries generalizing grouped with
  | nil => simp at h
  | cons me entries ih =>
    rw [List.foldlM_cons]
    by_cases hme : (split (attributeName me.1) '-').length = 2
    · rw [addParameter_ok hme]
      refine ih ?_ _
      obtain ⟨other, hother, hlength⟩ := h
      rcases List.mem_cons.mp hother with rfl | hother
      · exact absurd hme hlength
      · exact ⟨other, hother, hlength⟩
    · obtain ⟨e, he⟩ := addParameter_error hme grouped
      rw [he]
      exact ⟨e, rfl⟩

theorem foldlM_ok (h : ∀ me ∈ entries, (split (attributeName me.1) '-').length = 2)
    (grouped : Groups α) :
    entries.foldlM addParameter grouped = .ok (entries.foldl addParts grouped) := by
  induction entries generalizing grouped with
  | nil => rfl
  | cons me entries ih =>
    rw [List.foldlM_cons, addParameter_ok (h me (by simp))]
    exact ih (fun other hother => h other (List.mem_cons_of_mem _ hother)) _

theorem value_foldl (h : value (entries.foldl addParts (∅ : Groups α)) groupId key = some v) :
    ∃ me ∈ entries, parts me = (key, groupId) ∧ me.2 = v := by
  induction entries using List.reverseRecOn with
  | nil => simp [value] at h
  | append_singleton entries me ih =>
    rw [List.foldl_append, List.foldl_cons, List.foldl_nil, addParts, value_addToGroup] at h
    split at h
    · rename_i hplace
      refine ⟨me, by simp, ?_, Option.some.inj h⟩
      rw [hplace.1, hplace.2]
    · obtain ⟨other, hother, hparts⟩ := ih h
      exact ⟨other, List.mem_append_left _ hother, hparts⟩

theorem value_of_mem (h : (entries.map parts).Nodup) (hme : me ∈ entries) :
    value (entries.foldl addParts (∅ : Groups α)) (parts me).2 (parts me).1 = some me.2 := by
  induction entries using List.reverseRecOn with
  | nil => simp at hme
  | append_singleton entries last ih =>
    rw [List.foldl_append, List.foldl_cons, List.foldl_nil, addParts, value_addToGroup]
    rw [List.map_append, List.nodup_append] at h
    rcases List.mem_append.mp hme with hme | hme
    · have hne := h.2.2 (parts me) (List.mem_map_of_mem hme) (parts last) (by simp)
      rw [if_neg fun hplace => hne (Prod.ext hplace.2 hplace.1)]
      exact ih h.1 hme
    · rw [List.mem_singleton.mp hme, if_pos ⟨rfl, rfl⟩]

theorem foldl_nonempty : ∀ groupId aGroup,
    (entries.foldl addParts (∅ : Groups α)).lookup groupId = some aGroup → aGroup ≠ ∅ := by
  induction entries using List.reverseRecOn with
  | nil => simp
  | append_singleton entries me ih =>
    rw [List.foldl_append, List.foldl_cons, List.foldl_nil]
    exact fun groupId aGroup => addToGroup_nonempty ih

theorem foldl_perm {other : List (List Char × α)} (hperm : entries.Perm other)
    (h : (entries.map parts).Nodup) :
    entries.foldl addParts (∅ : Groups α) = other.foldl addParts ∅ := by
  refine hperm.foldl_eq' ?_ ∅
  intro a ha b hb grouped
  by_cases hab : parts a = parts b
  · rw [List.inj_on_of_nodup_map h ha hb hab]
  · refine addToGroup_comm ?_ _ _
    rintro ⟨h₁, h₂⟩
    exact hab (Prod.ext h₂ h₁)

theorem parts_of_isAt (h : IsAt (entries.foldl addParts ∅) me groupId key) :
    '-' ∉ key ∧ '-' ∉ groupId ∧ (split (attributeName me.1) '-').length = 2 ∧
      parts me = (key, groupId) := by
  obtain ⟨other, -, hparts, -⟩ := value_foldl h.value
  have hdash := not_mem_parts other
  rw [hparts] at hdash
  exact ⟨hdash.1, hdash.2, parts_of_name h.name hdash.1 hdash.2 h.groupId_ne_nil⟩

end Runs

section Grouping

def dashed (m : ParameterMap α) : List (List Char × α) := m.entries.filter nameContainsDash

theorem mem_dashed : me ∈ dashed m ↔ me ∈ m.entries ∧ nameContainsDash me := List.mem_filter

theorem groupParameters_error (h : Refused m.entries) : ∃ e, groupParameters m = .error e := by
  obtain ⟨me, hme, hdash, hlength⟩ := h
  exact foldlM_error ⟨me, mem_dashed.mpr ⟨hme, hdash⟩, hlength⟩ ∅

theorem groupParameters_ok (h : ¬Refused m.entries) :
    groupParameters m = .ok ((dashed m).foldl addParts ∅) := by
  refine foldlM_ok ?_ ∅
  intro me hme
  obtain ⟨hme, hdash⟩ := mem_dashed.mp hme
  by_contra hlength
  exact h ⟨me, hme, hdash, hlength⟩

theorem refused_perm {other : List (List Char × α)} (hperm : other.Perm entries) :
    Refused other ↔ Refused entries := by
  simp only [Refused, hperm.mem_iff]

theorem parts_of_wellNamed (h : WellNamed m.entries) (hme : me ∈ dashed m) :
    (split (attributeName me.1) '-').length = 2 ∧ (parts me).1 ≠ [] ∧ (parts me).2 ≠ [] ∧
      attributeName me.1 = (parts me).1 ++ '-' :: (parts me).2 := by
  obtain ⟨hme, hdash⟩ := mem_dashed.mp hme
  obtain ⟨key, groupId, hkey, hgroupId, hkey', hgroupId', hname⟩ := h.parts me hme hdash
  obtain ⟨hlength, hparts⟩ := parts_of_name hname hkey' hgroupId' hgroupId
  rw [hparts]
  exact ⟨hlength, hkey, hgroupId, hname⟩

theorem parts_nodup (h : WellNamed m.entries) : ((dashed m).map parts).Nodup := by
  have hnodup : (dashed m).Pairwise fun a b => a.1 ≠ b.1 :=
    (List.pairwise_map.mp m.nodup).filter _
  rw [List.Nodup, List.pairwise_map]
  refine hnodup.imp_of_mem ?_
  intro a b ha hb hne hparts
  have haname := (parts_of_wellNamed h ha).2.2.2
  have hbname := (parts_of_wellNamed h hb).2.2.2
  obtain ⟨ha, hadash⟩ := mem_dashed.mp ha
  obtain ⟨hb, hbdash⟩ := mem_dashed.mp hb
  exact hne (h.distinct a ha b hb hadash hbdash (by rw [haname, hbname, hparts]))

theorem oneToOne_of_wellNamed (h : WellNamed m.entries) :
    OneToOne m.entries ((dashed m).foldl addParts ∅) := by
  have hat : ∀ me ∈ dashed m,
      IsAt ((dashed m).foldl addParts ∅) me (parts me).2 (parts me).1 := by
    intro me hme
    obtain ⟨-, hkey, hgroupId, hname⟩ := parts_of_wellNamed h hme
    exact ⟨hkey, hgroupId, hname, value_of_mem (parts_nodup h) hme⟩
  refine ⟨?_, ?_, foldl_nonempty⟩
  · intro me hme hdash
    refine ⟨((parts me).2, (parts me).1), hat me (mem_dashed.mpr ⟨hme, hdash⟩), ?_⟩
    rintro ⟨groupId, key⟩ hplace
    rw [(parts_of_isAt hplace).2.2.2]
  · intro groupId key v hv
    obtain ⟨me, hme, hparts, -⟩ := value_foldl hv
    have hplace := hat me hme
    rw [hparts] at hplace
    obtain ⟨hme', hdash⟩ := mem_dashed.mp hme
    refine ⟨me, ⟨hme', hdash, hplace⟩, ?_⟩
    rintro other ⟨hother, hotherdash, hotherplace⟩
    refine List.inj_on_of_nodup_map (parts_nodup h) (mem_dashed.mpr ⟨hother, hotherdash⟩) hme ?_
    rw [hparts, (parts_of_isAt hotherplace).2.2.2]

theorem wellNamed_of_oneToOne (h : OneToOne m.entries ((dashed m).foldl addParts ∅)) :
    WellNamed m.entries where
  parts me hme hdash := by
    obtain ⟨⟨groupId, key⟩, hplace, -⟩ := h.place me hme hdash
    obtain ⟨hkey, hgroupId, -, -⟩ := parts_of_isAt hplace
    exact ⟨key, groupId, hplace.key_ne_nil, hplace.groupId_ne_nil, hkey, hgroupId, hplace.name⟩
  distinct a ha b hb hadash hbdash hname := by
    obtain ⟨⟨groupId, key⟩, haplace, -⟩ := h.place a ha hadash
    obtain ⟨⟨groupId', key'⟩, hbplace, -⟩ := h.place b hb hbdash
    have haparts := (parts_of_isAt haplace).2.2.2
    have hbparts := (parts_of_isAt hbplace).2.2.2
    have hparts : parts a = parts b := by simp only [parts, hname]
    rw [haparts, hbparts, Prod.mk.injEq] at hparts
    obtain ⟨rfl, rfl⟩ := hparts
    obtain ⟨me, -, hunique⟩ := h.parameter groupId key a.2 haplace.value
    rw [hunique a ⟨ha, hadash, haplace⟩, hunique b ⟨hb, hbdash, hbplace⟩]

end Grouping

theorem groupParameters_grouped_iff (m : ParameterMap α) :
    Grouped m ↔ Refused m.entries ∨ WellNamed m.entries := by
  constructor
  · intro h
    by_cases hrefused : Refused m.entries
    · exact .inl hrefused
    · right
      have hok := groupParameters_ok hrefused
      rcases h with h | ⟨grouped, hone, h⟩
      · obtain ⟨e, he⟩ := h m (.refl _)
        rw [hok] at he
        cases he
      · have hgrouped := h m (.refl _)
        rw [hok] at hgrouped
        cases hgrouped
        exact wellNamed_of_oneToOne hone
  · rintro (h | h)
    · exact .inl fun m' hperm => groupParameters_error ((refused_perm hperm).mpr h)
    · right
      refine ⟨_, oneToOne_of_wellNamed h, ?_⟩
      intro m' hperm
      have hrefused : ¬Refused m.entries := by
        rintro ⟨me, hme, hdash, hlength⟩
        exact hlength (parts_of_wellNamed h (mem_dashed.mpr ⟨hme, hdash⟩)).1
      rw [groupParameters_ok fun hm => hrefused ((refused_perm hperm).mp hm)]
      exact congrArg _ (foldl_perm (hperm.symm.filter nameContainsDash) (parts_nodup h)).symm

/-- A parameter and the sensitive one of the same name, for the same form. -/
def prefixedTwice : ParameterMap String where
  entries := [("a-1".toList, "x"), ("_a-1".toList, "y")]
  nodup := by decide

theorem merged_not_grouped : ¬Grouped prefixedTwice := by
  have hok := groupParameters_ok (m := prefixedTwice) (by unfold Refused; decide)
  rintro (h | ⟨grouped, hone, h⟩)
  · obtain ⟨e, he⟩ := h prefixedTwice (.refl _)
    rw [hok] at he
    cases he
  · have hgrouped := h prefixedTwice (.refl _)
    rw [hok] at hgrouped
    cases hgrouped
    have hsame := (wellNamed_of_oneToOne hone).distinct ("a-1".toList, "x") (by decide)
      ("_a-1".toList, "y") (by decide) (by decide) (by decide) (by decide)
    exact absurd hsame (by decide)

end InsightsAssist.GroupedParameters
