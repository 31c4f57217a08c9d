import Mathlib.Algebra.Order.BigOperators.Group.List
import Mathlib.Algebra.Order.Group.Nat
import Mathlib.Data.List.Nodup
import InsightsAssist.FileTree

/-! Finite trees of directories and of files with their contents, without links. A store lists
its paths in some order, which is the order that a directory's names are listed in. -/
namespace InsightsAssist.FileStores
open FileTree

inductive Entry where
  | directory
  | file (content : List UInt8)
  deriving DecidableEq, Repr

def isName (name : String) : Bool :=
  name ≠ "" && name ≠ "." && name ≠ ".." && '/' ∉ name.toList && '\x00' ∉ name.toList

structure FileStore where
  paths : List Path
  entry : Path → Entry
  nodup : paths.Nodup
  closed : ∀ p name, p ++ [name] ∈ paths → p ∈ paths ∧ entry p = .directory
  named : ∀ p ∈ paths, ∀ name ∈ p, isName name

theorem foldlM_some_mono {α β : Type*} {f g : β → α → Option β}
    (hstep : ∀ b a b', f b a = some b' → g b a = some b') {l : List α} {b b' : β}
    (h : l.foldlM f b = some b') : l.foldlM g b = some b' := by
  induction l generalizing b with
  | nil => exact h
  | cons a l ih =>
    rw [List.foldlM_cons] at h ⊢
    obtain ⟨c, hc, hrest⟩ := Option.bind_eq_some_iff.mp h
    exact Option.bind_eq_some_iff.mpr ⟨c, hstep b a c hc, ih hrest⟩

namespace FileStore

/-- Each of the paths is a single one, of good names and in a directory. -/
def isTree (paths : List Path) (entry : Path → Entry) : Bool :=
  paths.Nodup && paths.all fun q =>
    q.all isName && (q = [] || q.dropLast ∈ paths && entry q.dropLast = .directory)

def of (paths : List Path) (entry : Path → Entry) (h : isTree paths entry) : FileStore where
  paths := paths
  entry := entry
  nodup := by
    rw [isTree, Bool.and_eq_true] at h
    exact of_decide_eq_true h.1
  closed p name hmem := by
    rw [isTree, Bool.and_eq_true, List.all_eq_true] at h
    simpa using ((Bool.and_eq_true _ _).mp (h.2 _ hmem)).2
  named q hq := by
    rw [isTree, Bool.and_eq_true, List.all_eq_true] at h
    exact List.all_eq_true.mp ((Bool.and_eq_true _ _).mp (h.2 q hq)).1

variable (s : FileStore) (p : Path)

def isDirectory : Bool := p ∈ s.paths ∧ s.entry p = .directory

def find : Option Entry := if p ∈ s.paths then some (s.entry p) else none

/-- The last name of a path that leads into the directory. -/
def nameIn (q : Path) : Option String := if q.dropLast = p then q.getLast? else none

/-- The names in a directory, each of which can be listed. -/
def list : List String := s.paths.filterMap (nameIn p)

variable {s p} {q : Path} {name : String} {e : Entry}

/-! ### Names and prefixes -/

theorem nameIn_eq_some : nameIn p q = some name ↔ q = p ++ [name] := by
  constructor
  · intro h
    obtain ⟨hdrop, hlast⟩ := Option.ite_none_right_eq_some.mp h
    rw [← hdrop, List.dropLast_append_getLast? name hlast]
  · rintro rfl
    simp [nameIn]

theorem mem_list : name ∈ s.list p ↔ p ++ [name] ∈ s.paths := by
  simp only [list, List.mem_filterMap, nameIn_eq_some]
  constructor
  · rintro ⟨_, hmem, rfl⟩
    exact hmem
  · exact fun hmem => ⟨_, hmem, rfl⟩

theorem list_nodup (s : FileStore) (p : Path) : (s.list p).Nodup := by
  refine List.Nodup.filterMap (fun q q' name hq hq' => ?_) s.nodup
  rw [Option.mem_def, nameIn_eq_some] at hq hq'
  rw [hq, hq']

theorem isDirectory_iff : s.isDirectory p ↔ p ∈ s.paths ∧ s.entry p = .directory := by
  simp [isDirectory]

theorem isDirectory_of_mem_list (h : name ∈ s.list p) : s.isDirectory p :=
  isDirectory_iff.mpr (s.closed p name (mem_list.mp h))

theorem isName_of_mem_list (h : name ∈ s.list p) : isName name :=
  s.named _ (mem_list.mp h) name (by simp)

theorem front_mem_paths (h : q ∈ s.paths) (hp : p <+: q) : p ∈ s.paths := by
  induction q using List.reverseRecOn with
  | nil => rwa [List.prefix_nil.mp hp]
  | append_singleton q name ih =>
    obtain rfl | hp := List.prefix_concat_iff.mp hp
    · exact h
    · exact ih (s.closed q name h).1 hp

theorem exists_mem_list (h : q ∈ s.paths) (hp : p <+: q) (hne : q ≠ p) :
    ∃ name ∈ s.list p, p ++ [name] <+: q := by
  obtain ⟨rest, rfl⟩ := hp
  cases rest with
  | nil => simp at hne
  | cons name rest =>
    have hchild : p ++ [name] <+: p ++ name :: rest := ⟨rest, by simp⟩
    exact ⟨name, mem_list.mpr (front_mem_paths h hchild), hchild⟩

theorem name_eq_of_front {other : String} (h : p ++ [name] <+: q) (hother : p ++ [other] <+: q) :
    name = other := by
  have hsame := List.prefix_of_prefix_length_le h hother (by simp)
  rw [List.prefix_append_right_inj] at hsame
  simpa using hsame

/-! ### Depth -/

/-- Nothing lies so many names below the path. -/
def DepthWithin (s : FileStore) (p : Path) (depth : Nat) : Prop :=
  ∀ q ∈ s.paths, p <+: q → q.length < p.length + depth

theorem exists_depthWithin (s : FileStore) (p : Path) :
    ∃ depth, ∀ more ≥ depth, s.DepthWithin p more := by
  refine ⟨(s.paths.map List.length).sum + 1, fun more hmore q hq _ => ?_⟩
  have hle : q.length ≤ (s.paths.map List.length).sum :=
    List.single_le_sum (by simp) _ (List.mem_map_of_mem hq)
  omega

theorem DepthWithin.child {depth : Nat} (h : s.DepthWithin p (depth + 1)) (name : String) :
    s.DepthWithin (p ++ [name]) depth := by
  intro q hq hprefix
  have hlt := h q hq ((List.prefix_append p [name]).trans hprefix)
  simp only [List.length_append, List.length_singleton]
  omega

theorem DepthWithin.of_subset {s' : FileStore} {depth : Nat} (h : s.DepthWithin p depth)
    (hsub : s'.paths ⊆ s.paths) : s'.DepthWithin p depth :=
  fun q hq hprefix => h q (hsub hq) hprefix

theorem DepthWithin.pos {depth : Nat} (h : s.DepthWithin p depth) (hp : p ∈ s.paths) :
    0 < depth := by
  have hlt := h p hp (List.prefix_refl p)
  omega

/-! ### Changes -/

/-- A path that nothing lies below is taken out. -/
def erase (s : FileStore) (p : Path) (h : s.list p = []) : FileStore where
  paths := s.paths.filter (· ≠ p)
  entry := s.entry
  nodup := s.nodup.filter _
  closed q name hmem := by
    have hthere := (List.mem_filter.mp hmem).1
    obtain ⟨hq, hdir⟩ := s.closed q name hthere
    have hne : q ≠ p := by
      rintro rfl
      have hlist := mem_list.mpr hthere
      rw [h] at hlist
      cases hlist
    exact ⟨List.mem_filter.mpr ⟨hq, by simpa using hne⟩, hdir⟩
  named q hq := s.named q (List.mem_filter.mp hq).1

/-- `File.delete`: a directory must be empty. -/
def delete (deletable : Path → Bool) (s : FileStore) (p : Path) : Bool × FileStore :=
  if h : p ∈ s.paths ∧ deletable p ∧ s.list p = [] then (true, s.erase p h.2.2) else (false, s)

def add (s : FileStore) (p : Path) (name : String) (e : Entry) (hdir : s.isDirectory p)
    (hname : isName name) (hnew : p ++ [name] ∉ s.paths) : FileStore where
  paths := s.paths ++ [p ++ [name]]
  entry := Function.update s.entry (p ++ [name]) e
  nodup := by
    rw [List.nodup_append]
    refine ⟨s.nodup, by simp, fun q hq r hr => ?_⟩
    rintro rfl
    exact hnew (List.mem_singleton.mp hr ▸ hq)
  closed q other hmem := by
    have hthere : q ∈ s.paths ∧ s.entry q = .directory := by
      obtain hmem | hmem := List.mem_append.mp hmem
      · exact s.closed q other hmem
      · rw [(List.append_inj' (List.mem_singleton.mp hmem) rfl).1]
        exact isDirectory_iff.mp hdir
    have hne : q ≠ p ++ [name] := fun heq => hnew (heq ▸ hthere.1)
    exact ⟨List.mem_append_left _ hthere.1, by rw [Function.update_of_ne hne, hthere.2]⟩
  named q hq other hother := by
    obtain hq | hq := List.mem_append.mp hq
    · exact s.named q hq other hother
    · rw [List.mem_singleton.mp hq] at hother
      obtain hother | hother := List.mem_append.mp hother
      · exact s.named p (isDirectory_iff.mp hdir).1 other hother
      · rwa [List.mem_singleton.mp hother]

def overwrite (s : FileStore) (p : Path) (content : List UInt8)
    (h : s.entry p ≠ .directory) : FileStore where
  paths := s.paths
  entry := Function.update s.entry p (.file content)
  nodup := s.nodup
  closed q name hmem := by
    obtain ⟨hq, hdir⟩ := s.closed q name hmem
    have hne : q ≠ p := fun heq => h (heq ▸ hdir)
    exact ⟨hq, by rw [Function.update_of_ne hne, hdir]⟩
  named := s.named

/-- `File.mkdir` for a name in a directory. -/
def mkdir (s : FileStore) (p : Path) (name : String) : Option FileStore :=
  if h : s.isDirectory p ∧ isName name ∧ p ++ [name] ∉ s.paths then
    some (s.add p name .directory h.1 h.2.1 h.2.2)
  else none

/-- A new `FileOutputStream`: an empty file, which takes the place of the one that may be there. -/
def openFile (s : FileStore) (p : Path) : Option FileStore :=
  p.getLast?.bind fun name =>
    if h : s.isDirectory p.dropLast ∧ isName name ∧ p.dropLast ++ [name] ∉ s.paths then
      some (s.add p.dropLast name (.file []) h.1 h.2.1 h.2.2)
    else if h : p ∈ s.paths ∧ s.entry p ≠ .directory then some (s.overwrite p [] h.2)
    else none

theorem delete_fst {deletable : Path → Bool} :
    (s.delete deletable p).1 ↔ p ∈ s.paths ∧ deletable p ∧ s.list p = [] := by
  rw [delete]
  split
  · rename_i h
    exact ⟨fun _ => h, fun _ => rfl⟩
  · rename_i h
    exact ⟨fun hfalse => absurd hfalse Bool.false_ne_true, fun hall => absurd hall h⟩

theorem mem_delete {deletable : Path → Bool} :
    q ∈ (s.delete deletable p).2.paths ↔
      q ∈ s.paths ∧ ((s.delete deletable p).1 → q ≠ p) := by
  rw [delete]
  split
  · simp [erase]
  · simp

theorem entry_delete {deletable : Path → Bool} : (s.delete deletable p).2.entry = s.entry := by
  rw [delete]
  split <;> rfl

theorem mkdir_eq_some {s' : FileStore} (h : s.mkdir p name = some s') :
    p ++ [name] ∉ s.paths ∧ (∀ q, q ∈ s'.paths ↔ q ∈ s.paths ∨ q = p ++ [name]) ∧
      s'.entry = Function.update s.entry (p ++ [name]) .directory := by
  rw [mkdir] at h
  split at h
  · rename_i hfree
    cases h
    exact ⟨hfree.2.2, by simp [add], rfl⟩
  · cases h

theorem mkdir_isSome (hdir : s.isDirectory p) (hname : isName name) :
    (s.mkdir p name).isSome ↔ name ∉ s.list p := by
  rw [mem_list, mkdir]
  split
  · simp_all
  · simp_all

theorem mkdir_eq_none (hdir : s.isDirectory p) (hname : isName name) :
    s.mkdir p name = none ↔ name ∈ s.list p := by
  rw [← Option.not_isSome_iff_eq_none, mkdir_isSome hdir hname, not_not]

theorem list_mkdir {s' : FileStore} (h : s.mkdir p name = some s') :
    s'.list (p ++ [name]) = [] := by
  obtain ⟨hnew, hmem, -⟩ := mkdir_eq_some h
  rw [List.eq_nil_iff_forall_not_mem]
  intro other hother
  rw [mem_list, hmem] at hother
  obtain hold | heq := hother
  · exact hnew (s.closed _ other hold).1
  · simp at heq

theorem mem_list_mkdir {s' : FileStore} {other : String} (h : s.mkdir p name = some s') :
    other ∈ s'.list p ↔ other ∈ s.list p ∨ other = name := by
  rw [mem_list, mem_list, (mkdir_eq_some h).2.1, List.append_cancel_left_eq, List.singleton_inj]

theorem isDirectory_mkdir {s' : FileStore} (h : s.mkdir p name = some s') :
    s'.isDirectory q ↔ s.isDirectory q ∨ q = p ++ [name] := by
  obtain ⟨hnew, hmem, hentry⟩ := mkdir_eq_some h
  rw [isDirectory_iff, isDirectory_iff, hmem, hentry]
  by_cases hq : q = p ++ [name]
  · simp [hq]
  · rw [Function.update_of_ne hq, or_iff_left hq, or_iff_left hq]

theorem openFile_eq_some {s' : FileStore} (h : s.openFile p = some s') :
    s.find p ≠ some .directory ∧ ∀ q, q ≠ p → s'.find q = s.find q := by
  obtain ⟨name, hlast, hopen⟩ := Option.bind_eq_some_iff.mp h
  have hp : p.dropLast ++ [name] = p := List.dropLast_append_getLast? name hlast
  split at hopen
  · rename_i hfree
    cases hopen
    refine ⟨?_, fun q hq => ?_⟩
    · rw [← hp]
      simp [find, hfree.2.2]
    · rw [← hp] at hq
      simp [find, add, hq]
  · split at hopen
    · rename_i hfile
      cases hopen
      refine ⟨by simp [find, hfile], fun q hq => ?_⟩
      simp [find, overwrite, hq]
    · cases hopen

theorem find_eq_some : s.find p = some e ↔ p ∈ s.paths ∧ s.entry p = e := by
  simp [find]

theorem isDirectory_iff_find : s.isDirectory p ↔ s.find p = some .directory := by
  rw [isDirectory_iff, find_eq_some]

theorem exists_content (hp : p ∈ s.paths) (hfile : ¬ s.isDirectory p) :
    ∃ content, s.find p = some (.file content) := by
  cases hentry : s.entry p with
  | directory => exact absurd (isDirectory_iff.mpr ⟨hp, hentry⟩) hfile
  | file content => exact ⟨content, find_eq_some.mpr ⟨hp, hentry⟩⟩

end FileStore
end InsightsAssist.FileStores
