import Mathlib.Data.List.Sort
import Std.Data.String.ToInt
import InsightsAssist.FileStores
import InsightsAssist.JavaStrings

/-! Temporary directories: how they are numbered, and how they are deleted with what is in them. -/
namespace InsightsAssist.TempFileUtil
open FileTree FileStores

/-- A path as it is written, and where it leads. -/
structure File where
  path : List Char
  location : Path
  deriving DecidableEq, Repr

/-- A name in a directory; only the path of the root ends with the separator. -/
def File.child (parent : File) (name : String) : File where
  path := if parent.path = ['/'] then '/' :: name.toList else parent.path ++ '/' :: name.toList
  location := parent.location ++ [name]

/-! ### Deletion -/
section Deletion
variable (deletable : Path → Bool)

/-- The children of a directory; a call that has failed is not the last one. -/
def deleteChildren (call : FileStore → File → Option (Bool × FileStore)) (f : File)
    (children : List String) (s : FileStore) : Option (Bool × FileStore) :=
  children.foldlM (fun r element =>
    (call r.2 (f.child element)).map fun r' => (r.1 && r'.1, r'.2)) (true, s)

/-- `fuel` bounds the depth. -/
def deleteTempDir : Nat → FileStore → File → Option (Bool × FileStore)
  | 0, _, _ => none
  | fuel + 1, s, f =>
    let children := if s.isDirectory f.location then s.list f.location else []
    (deleteChildren (deleteTempDir fuel) f children s).map fun r =>
      if r.1 then r.2.delete deletable f.location else (false, r.2)

/-- Something at the path or below it cannot be deleted. -/
def Stuck (s : FileStore) (q : Path) : Prop := ∃ u ∈ s.paths, q <+: u ∧ deletable u = false

structure Deleted (s : FileStore) (roots : List Path) (r : Bool × FileStore) : Prop where
  mem : ∀ q, q ∈ r.2.paths ↔ q ∈ s.paths ∧ ∀ root ∈ roots, root <+: q → Stuck deletable s q
  entry : r.2.entry = s.entry
  success : r.1 ↔ ∀ root ∈ roots, ¬ Stuck deletable s root

/-- `createTempDir` for a name: what there is of an earlier directory is deleted. -/
def createNamedTempDir (rootDir : File) (dir : String) (fuel : Nat) (s : FileStore) :
    Option (Option File × FileStore) :=
  let tempDir := rootDir.child dir
  let cleared := if s.isDirectory tempDir.location then
    (deleteTempDir deletable fuel s tempDir).map (·.2) else some s
  cleared.map fun s =>
    match s.mkdir rootDir.location dir with
    | some s' => (some tempDir, s')
    | none => (none, s)

variable {deletable} {s : FileStore} {p q root : Path} {roots : List Path}
  {r r' : Bool × FileStore} {f : File}

theorem Deleted.nil (s : FileStore) : Deleted deletable s [] (true, s) where
  mem := by simp
  entry := rfl
  success := by simp

theorem Deleted.stuck_iff (h : Deleted deletable s roots r)
    (hapart : ∀ u, q <+: u → ∀ other ∈ roots, ¬ other <+: u) :
    Stuck deletable r.2 q ↔ Stuck deletable s q := by
  constructor
  · intro ⟨u, hu, hprefix, hkept⟩
    exact ⟨u, ((h.mem u).mp hu).1, hprefix, hkept⟩
  · intro ⟨u, hu, hprefix, hkept⟩
    exact ⟨u, (h.mem u).mpr ⟨hu, fun other hother hbelow =>
      absurd hbelow (hapart u hprefix other hother)⟩, hprefix, hkept⟩

theorem Deleted.concat (h : Deleted deletable s roots r) (h' : Deleted deletable r.2 [root] r')
    (hapart : ∀ u, root <+: u → ∀ other ∈ roots, ¬ other <+: u) :
    Deleted deletable s (roots ++ [root]) (r.1 && r'.1, r'.2) where
  mem q := by
    have hstuck (hq : root <+: q) : Stuck deletable r.2 q ↔ Stuck deletable s q :=
      h.stuck_iff fun u hu => hapart u (hq.trans hu)
    rw [h'.mem, h.mem, List.forall_mem_append, List.forall_mem_singleton, List.forall_mem_singleton,
      and_assoc]
    refine and_congr_right fun _ => and_congr_right fun _ => ?_
    exact imp_congr_right hstuck
  entry := h'.entry.trans h.entry
  success := by
    rw [Bool.and_eq_true, h.success, h'.success, List.forall_mem_append, List.forall_mem_singleton,
      List.forall_mem_singleton, h.stuck_iff hapart]

theorem stuck_iff_children (hp : p ∈ s.paths) :
    Stuck deletable s p ↔
      deletable p = false ∨ ∃ name ∈ s.list p, Stuck deletable s (p ++ [name]) := by
  constructor
  · intro ⟨u, hu, hprefix, hkept⟩
    by_cases hne : u = p
    · exact .inl (hne ▸ hkept)
    · obtain ⟨name, hname, hchild⟩ := FileStore.exists_mem_list hu hprefix hne
      exact .inr ⟨name, hname, u, hu, hchild, hkept⟩
  · rintro (hkept | ⟨name, -, u, hu, hprefix, hkept⟩)
    · exact ⟨p, hp, List.prefix_refl p, hkept⟩
    · exact ⟨u, hu, (List.prefix_append p [name]).trans hprefix, hkept⟩

theorem Deleted.close (hp : p ∈ s.paths)
    (h : Deleted deletable s ((s.list p).map fun name => p ++ [name]) r) :
    Deleted deletable s [p] (if r.1 then r.2.delete deletable p else (false, r.2)) := by
  have hroots (P : Path → Prop) : (∀ root ∈ (s.list p).map fun name => p ++ [name], P root) ↔
      ∀ name ∈ s.list p, P (p ++ [name]) := List.forall_mem_map
  have hchildren : r.1 ↔ ∀ name ∈ s.list p, ¬ Stuck deletable s (p ++ [name]) := by
    rw [h.success, hroots]
  have hthere : p ∈ r.2.paths := by
    rw [h.mem, hroots]
    exact ⟨hp, fun name _ hprefix => absurd hprefix.length_le (by simp)⟩
  have hempty (hsuccess : r.1) : r.2.list p = [] := by
    rw [List.eq_nil_iff_forall_not_mem]
    intro name hname
    rw [FileStore.mem_list, h.mem, hroots, ← FileStore.mem_list] at hname
    exact hchildren.mp hsuccess name hname.1 (hname.2 name hname.1 (List.prefix_refl _))
  generalize hresult : (if r.1 then r.2.delete deletable p else (false, r.2)) = result
  have hsuccess : result.1 ↔ ¬ Stuck deletable s p := by
    rw [stuck_iff_children hp, not_or, Bool.not_eq_false, not_exists]
    simp only [not_and]
    rw [← hchildren, ← hresult]
    split
    · rename_i hr
      rw [FileStore.delete_fst]
      simp [hthere, hempty hr, hr]
    · simp_all
  have hmem (q : Path) : q ∈ result.2.paths ↔ q ∈ r.2.paths ∧ (result.1 → q ≠ p) := by
    rw [← hresult]
    split
    · exact FileStore.mem_delete
    · simp
  constructor
  · intro q
    rw [hmem, hsuccess, h.mem, hroots, List.forall_mem_singleton, and_assoc]
    refine and_congr_right fun hq => ?_
    by_cases hprefix : p <+: q
    · by_cases hne : q = p
      · subst hne
        refine ⟨fun hall _ => by simpa using hall.2, fun hstuck => ⟨?_, by simpa using hstuck⟩⟩
        exact fun name _ hchild => absurd hchild.length_le (by simp)
      · obtain ⟨name, hname, hchild⟩ := FileStore.exists_mem_list hq hprefix hne
        refine ⟨fun hall _ => hall.1 name hname hchild, fun hstuck => ?_⟩
        exact ⟨fun _ _ _ => hstuck hprefix, fun _ => hne⟩
    · refine ⟨fun _ habove => absurd habove hprefix, fun _ => ⟨fun name _ hchild => ?_, ?_⟩⟩
      · exact absurd ((List.prefix_append p [name]).trans hchild) hprefix
      · rintro - rfl
        exact hprefix (List.prefix_refl q)
  · rw [← hresult, ← h.entry]
    split
    · exact FileStore.entry_delete
    · rfl
  · rw [hsuccess, List.forall_mem_singleton]

theorem children_eq (s : FileStore) (p : Path) :
    (if s.isDirectory p then s.list p else []) = s.list p := by
  split
  · rfl
  · rename_i hfile
    rw [eq_comm, List.eq_nil_iff_forall_not_mem]
    exact fun name hname => hfile (FileStore.isDirectory_of_mem_list hname)

/-- The children that are listed are deleted one after the other, whatever becomes of one. -/
theorem deleteChildren_deleted {call : FileStore → File → Option (Bool × FileStore)}
    (hcall : ∀ name ∈ s.list f.location, ∀ s' : FileStore, s'.paths ⊆ s.paths →
      f.location ++ [name] ∈ s'.paths →
      ∃ r, call s' (f.child name) = some r ∧ Deleted deletable s' [f.location ++ [name]] r) :
    ∃ r, deleteChildren call f (s.list f.location) s = some r ∧
      Deleted deletable s ((s.list f.location).map fun name => f.location ++ [name]) r := by
  suffices hdone : ∀ done, done <+: s.list f.location → ∃ r,
      deleteChildren call f done s = some r ∧
        Deleted deletable s (done.map fun name => f.location ++ [name]) r from
    hdone _ (List.prefix_refl _)
  intro done hdone
  induction done using List.reverseRecOn with
  | nil => exact ⟨_, rfl, .nil s⟩
  | append_singleton done name ih =>
    obtain ⟨r, hr, hdeleted⟩ := ih ((List.prefix_append done [name]).trans hdone)
    have hname : name ∈ s.list f.location := hdone.subset (by simp)
    -- no name is listed twice, so the child has not been deleted yet
    have hnew : name ∉ done := by
      have hnodup := (FileStore.list_nodup s f.location).sublist hdone.sublist
      rw [List.nodup_append] at hnodup
      exact fun hmem => hnodup.2.2 name hmem name (by simp) rfl
    have hapart (u : Path) (hu : f.location ++ [name] <+: u) :
        ∀ other ∈ done.map fun name => f.location ++ [name], ¬ other <+: u := by
      intro other hother hprefix
      obtain ⟨first, hfirst, rfl⟩ := List.mem_map.mp hother
      exact hnew (FileStore.name_eq_of_front hprefix hu ▸ hfirst)
    have hthere : f.location ++ [name] ∈ r.2.paths := by
      rw [hdeleted.mem]
      exact ⟨FileStore.mem_list.mp hname, fun other hother hprefix =>
        absurd hprefix (hapart _ (List.prefix_refl _) other hother)⟩
    obtain ⟨r', hr', hdeleted'⟩ :=
      hcall name hname r.2 (fun q hq => ((hdeleted.mem q).mp hq).1) hthere
    refine ⟨(r.1 && r'.1, r'.2), ?_, ?_⟩
    · rw [deleteChildren] at hr ⊢
      rw [List.foldlM_append, hr]
      simp [hr']
    · rw [List.map_append]
      exact hdeleted.concat hdeleted' hapart

variable (deletable) in
theorem deleteTempDir_deleted {fuel : Nat} (hf : f.location ∈ s.paths)
    (hdepth : s.DepthWithin f.location fuel) :
    ∃ r, deleteTempDir deletable fuel s f = some r ∧ Deleted deletable s [f.location] r := by
  induction fuel generalizing s f with
  | zero => exact absurd (hdepth.pos hf) (Nat.lt_irrefl 0)
  | succ fuel ih =>
    have hchildren : ∃ r,
        deleteChildren (deleteTempDir deletable fuel) f (s.list f.location) s = some r ∧
          Deleted deletable s ((s.list f.location).map fun name => f.location ++ [name]) r :=
      deleteChildren_deleted fun name _ s' hsub hthere =>
        ih hthere ((hdepth.child name).of_subset hsub)
    obtain ⟨r, hr, hdeleted⟩ := hchildren
    refine ⟨_, ?_, hdeleted.close hf⟩
    rw [deleteTempDir, children_eq, hr]
    rfl

theorem deleteTempDir_succ {fuel : Nat} (h : deleteTempDir deletable fuel s f = some r) :
    deleteTempDir deletable (fuel + 1) s f = some r := by
  induction fuel generalizing s f r with
  | zero => cases h
  | succ fuel ih =>
    rw [deleteTempDir] at h ⊢
    obtain ⟨r', hr', rfl⟩ := Option.map_eq_some_iff.mp h
    refine Option.map_eq_some_iff.mpr ⟨r', foldlM_some_mono (fun r name r' hr' => ?_) hr', rfl⟩
    obtain ⟨deleted, hdeleted, rfl⟩ := Option.map_eq_some_iff.mp hr'
    rw [ih hdeleted]
    rfl

variable (deletable) in
theorem exists_deleted (hp : f.location ∈ s.paths) :
    ∃ r, (∃ enough, ∀ fuel ≥ enough, deleteTempDir deletable fuel s f = some r) ∧
      Deleted deletable s [f.location] r := by
  obtain ⟨enough, hdepth⟩ := s.exists_depthWithin f.location
  obtain ⟨r, hr, hdeleted⟩ :=
    deleteTempDir_deleted deletable hp (hdepth enough (Nat.le_refl _))
  refine ⟨r, ⟨enough, fun fuel hfuel => ?_⟩, hdeleted⟩
  induction fuel, hfuel using Nat.le_induction with
  | base => exact hr
  | succ fuel _ ih => exact deleteTempDir_succ ih

theorem Deleted.mem_iff (h : Deleted deletable s [p] r) :
    q ∈ r.2.paths ↔ q ∈ s.paths ∧ (p <+: q → Stuck deletable s q) := by
  rw [h.mem, List.forall_mem_singleton]

theorem Deleted.success_iff (h : Deleted deletable s [p] r) :
    r.1 ↔ ¬ Stuck deletable s p := by
  rw [h.success, List.forall_mem_singleton]

theorem Deleted.find_eq (h : Deleted deletable s roots r) (hq : q ∈ r.2.paths ↔ q ∈ s.paths) :
    r.2.find q = s.find q := by
  rw [FileStore.find, FileStore.find, h.entry]
  simp only [hq]

/-- The deletion ends. What survives in the tree cannot be deleted or has something that survives
below it, nothing outside is touched, and the answer is whether the tree is gone. -/
theorem deleteTempDir_survivors (deletable : Path → Bool) (s : FileStore) (f : File)
    (hf : f.location ∈ s.paths) :
    ∃ success s', (∃ enough, ∀ fuel ≥ enough,
        deleteTempDir deletable fuel s f = some (success, s')) ∧
      (∀ q ∈ s.paths, f.location <+: q →
        (q ∈ s'.paths ↔ deletable q = false ∨ ∃ u ∈ s'.paths, q <+: u ∧ u ≠ q)) ∧
      (∀ q ∈ s'.paths, s'.find q = s.find q) ∧
      (∀ q, ¬ f.location <+: q → s'.find q = s.find q) ∧
      (success = true ↔ f.location ∉ s'.paths) := by
  obtain ⟨⟨success, s'⟩, hends, hdeleted⟩ := exists_deleted deletable hf
  have hmem (q : Path) : q ∈ s'.paths ↔
      q ∈ s.paths ∧ (f.location <+: q → Stuck deletable s q) := hdeleted.mem_iff
  refine ⟨success, s', hends, fun q hq hfront => ?_, fun q hq => ?_, fun q hfront => ?_, ?_⟩
  · rw [hmem]
    constructor
    · intro ⟨_, hstuck⟩
      obtain ⟨u, hu, hbelow, hkept⟩ := hstuck hfront
      by_cases hne : u = q
      · exact .inl (hne ▸ hkept)
      · have hsurvives : u ∈ s'.paths :=
          (hmem u).mpr ⟨hu, fun _ => ⟨u, hu, List.prefix_refl u, hkept⟩⟩
        exact .inr ⟨u, hsurvives, hbelow, hne⟩
    · rintro (hkept | ⟨u, hu, hbelow, -⟩)
      · exact ⟨hq, fun _ => ⟨q, hq, List.prefix_refl q, hkept⟩⟩
      · obtain ⟨v, hv, habove, hkept⟩ := ((hmem u).mp hu).2 (hfront.trans hbelow)
        exact ⟨hq, fun _ => ⟨v, hv, hbelow.trans habove, hkept⟩⟩
  · exact hdeleted.find_eq ⟨fun _ => ((hmem q).mp hq).1, fun _ => hq⟩
  · exact hdeleted.find_eq ⟨fun hq => ((hmem q).mp hq).1,
      fun hq => (hmem q).mpr ⟨hq, fun h => absurd h hfront⟩⟩
  · rw [hdeleted.success_iff, hmem, not_and]
    exact ⟨fun hfree _ hstuck => hfree (hstuck (List.prefix_refl _)),
      fun hgone hstuck => hgone hf fun _ => hstuck⟩

def work : FileStore :=
  .of [["tmp"], [], ["tmp", "7", "in.txt"], ["tmp", "7"], ["tmp", "7", "out"],
      ["tmp", "7", "out", "report.zip"]]
    (fun q => if q.length = 4 then .file [80, 75] else if q.length = 3 ∧ q.getLast? = some "in.txt"
      then .file [1, 2, 3] else .directory)
    (by decide +kernel)

theorem deleteTempDir_survivors_work :
    ∃ success s', (∃ enough, ∀ fuel ≥ enough, deleteTempDir (· ≠ ["tmp", "7", "in.txt"]) fuel work
        ⟨"/tmp/7".toList, ["tmp", "7"]⟩ = some (success, s')) ∧
      (∀ q ∈ work.paths, ["tmp", "7"] <+: q → (q ∈ s'.paths ↔
        decide (q ≠ ["tmp", "7", "in.txt"]) = false ∨ ∃ u ∈ s'.paths, q <+: u ∧ u ≠ q)) ∧
      (∀ q ∈ s'.paths, s'.find q = work.find q) ∧
      (∀ q, ¬ ["tmp", "7"] <+: q → s'.find q = work.find q) ∧
      (success = true ↔ ["tmp", "7"] ∉ s'.paths) :=
  deleteTempDir_survivors (· ≠ ["tmp", "7", "in.txt"]) work ⟨"/tmp/7".toList, ["tmp", "7"]⟩
    (by decide)

example : (deleteTempDir (· ≠ ["tmp", "7", "in.txt"]) 4 work
    ⟨"/tmp/7".toList, ["tmp", "7"]⟩).map (fun r => (r.1, r.2.paths)) =
      some (false, [["tmp"], [], ["tmp", "7", "in.txt"], ["tmp", "7"]]) := by decide +kernel

/-- A directory asked for by name is made, and is empty, unless a file or something that cannot be
deleted stands in its place. -/
theorem createNamedTempDir_spec {dir : String} (hroot : s.isDirectory f.location)
    (hname : isName dir) :
    ∃ r, (∃ enough, ∀ fuel ≥ enough, createNamedTempDir deletable f dir fuel s = some r) ∧
      (r.1 = some (f.child dir) ↔ (f.child dir).location ∉ s.paths ∨
        s.isDirectory (f.child dir).location ∧ ¬ Stuck deletable s (f.child dir).location) ∧
      (r.1 = some (f.child dir) → r.2.list (f.child dir).location = []) := by
  have hmkdir (s' : FileStore) (hdir : s'.isDirectory f.location) :
      ∃ r, (match s'.mkdir f.location dir with
          | some s'' => (some (f.child dir), s'')
          | none => (none, s')) = r ∧
        (r.1 = some (f.child dir) ↔ (f.child dir).location ∉ s'.paths) ∧
        (r.1 = some (f.child dir) → r.2.list (f.child dir).location = []) := by
    refine ⟨_, rfl, ?_⟩
    have hfree := FileStore.mkdir_isSome hdir hname
    rw [FileStore.mem_list] at hfree
    cases hmade : s'.mkdir f.location dir with
    | none => simp_all [File.child]
    | some s'' =>
      rw [hmade] at hfree
      refine ⟨⟨fun _ => hfree.mp rfl, fun _ => rfl⟩, fun _ => ?_⟩
      exact FileStore.list_mkdir hmade
  by_cases hold : s.isDirectory (f.child dir).location
  · obtain ⟨r, ⟨enough, hends⟩, hdeleted⟩ :=
      exists_deleted deletable (FileStore.isDirectory_iff.mp hold).1
    have hkept : r.2.isDirectory f.location := by
      rw [FileStore.isDirectory_iff, hdeleted.entry, hdeleted.mem_iff]
      refine ⟨⟨(FileStore.isDirectory_iff.mp hroot).1, fun h => ?_⟩,
        (FileStore.isDirectory_iff.mp hroot).2⟩
      exact absurd h.length_le (by simp [File.child])
    obtain ⟨r', hr', hmade, hempty⟩ := hmkdir r.2 hkept
    refine ⟨r', ⟨enough, fun fuel hfuel => ?_⟩, ?_, hempty⟩
    · rw [createNamedTempDir, if_pos hold, hends fuel hfuel, ← hr']
      rfl
    · have hthere := (FileStore.isDirectory_iff.mp hold).1
      rw [hmade, hdeleted.mem_iff]
      simp [hthere, hold]
  · obtain ⟨r', hr', hmade, hempty⟩ := hmkdir s hroot
    refine ⟨r', ⟨0, fun fuel _ => ?_⟩, ?_, hempty⟩
    · rw [createNamedTempDir, if_neg hold, ← hr']
      rfl
    · rw [hmade]
      simp [hold]

end Deletion
/-! ### Numbered directories -/

structure TempDirs where
  rootDir : File
  nextDirName : Int32
  store : FileStore

/-- Other names than those of numbers count as 0. -/
def number (name : String) : Int32 := Int32.ofInt ((Java.parseInt name).getD 0)

def init (tempRoot : File) (nextDirName : Int32) (s : FileStore) : Except Throwable TempDirs :=
  let root := String.ofList tempRoot.path
  if tempRoot.location ∉ s.paths then
    .error (.external s!"Temp directory root {root} is not found!")
  else if !s.isDirectory tempRoot.location then
    .error (.external s!"Temp directory root {root} is not a directory!")
  else
    match (((s.list tempRoot.location).map number).insertionSort (· ≤ ·)).getLast? with
    | some last => .ok ⟨tempRoot, last + 1, s⟩
    | none => .ok ⟨tempRoot, nextDirName, s⟩

def createTempDir (t : TempDirs) : Option File × TempDirs :=
  let name := toString t.nextDirName
  match t.store.mkdir t.rootDir.location name with
  | some s => (some (t.rootDir.child name), { t with nextDirName := t.nextDirName + 1, store := s })
  | none => (none, { t with nextDirName := t.nextDirName + 1 })

def createTempDirs : Nat → TempDirs → List (Option File) × TempDirs
  | 0, t => ([], t)
  | n + 1, t =>
    let before := createTempDirs n t
    let call := createTempDir before.2
    (before.1 ++ [call.1], call.2)

/-- Each call has made a directory of its own, which was not there before. -/
structure AllCreated (t : TempDirs) (n : Nat) : Prop where
  created : ∀ dir ∈ (createTempDirs n t).1, dir.isSome
  distinct : (createTempDirs n t).1.Nodup
  new : ∀ dir, some dir ∈ (createTempDirs n t).1 →
    dir.location ∉ t.store.paths ∧ (createTempDirs n t).2.store.isDirectory dir.location

def TempDirs.name (t : TempDirs) (k : Nat) : String :=
  toString ((t.nextDirName.toInt + k).bmod 4294967296)

/-- The name that the call asks for is not taken, also by no earlier call. -/
def TempDirs.Free (t : TempDirs) (k : Nat) : Prop :=
  t.name k ∉ t.store.list t.rootDir.location ∧ ∀ j < k, t.name j ≠ t.name k

variable {t t' : TempDirs} {n k : Nat}

theorem isName_of_digits {cs : List Char} (hne : cs ≠ []) (h : ∀ c ∈ cs, c = '-' ∨ c.isDigit) :
    isName (String.ofList cs) := by
  have hnot (c : Char) (hc : c ≠ '-' ∧ ¬ c.isDigit) : c ∉ cs := fun hmem => by
    obtain hdash | hdigit := h c hmem
    · exact hc.1 hdash
    · exact hc.2 hdigit
  have htext (text : String) (htext : text = "" ∨ '.' ∈ text.toList) :
      String.ofList cs ≠ text := by
    rintro rfl
    obtain hempty | hdot := htext
    · exact hne (by simpa using congrArg String.toList hempty)
    · exact hnot '.' (by decide) (by simpa using hdot)
  simp only [isName, Bool.and_eq_true, decide_eq_true_eq, String.toList_ofList]
  exact ⟨⟨⟨⟨htext "" (by decide), htext "." (by decide)⟩, htext ".." (by decide)⟩,
    hnot '/' (by decide)⟩, hnot '\x00' (by decide)⟩

theorem isName_toString (z : Int) : isName (toString z) := by
  have hdigit (m : Nat) (c : Char) (hc : c ∈ Nat.toDigits 10 m) : c.isDigit :=
    Nat.isDigit_of_mem_toDigits (by decide) (by decide) hc
  cases z with
  | ofNat m =>
    change isName (String.ofList (Nat.toDigits 10 m))
    exact isName_of_digits Nat.toDigits_ne_nil fun c hc => .inr (hdigit m c hc)
  | negSucc m =>
    have hsign : toString (Int.negSucc m) = String.ofList ('-' :: Nat.toDigits 10 (m + 1)) := by
      rw [← String.toList_inj]
      change ("-" ++ Nat.repr (m + 1)).toList = _
      rw [String.toList_append, Nat.toList_repr, String.toList_ofList]
      simp
    rw [hsign]
    refine isName_of_digits (by simp) fun c hc => ?_
    obtain rfl | hc := List.mem_cons.mp hc
    · exact .inl rfl
    · exact .inr (hdigit _ c hc)

theorem TempDirs.name_zero (t : TempDirs) : t.name 0 = toString t.nextDirName := by
  rw [TempDirs.name, Int.natCast_zero, Int.add_zero, Int32.toInt_bmod]
  rfl

/-- A call makes the directory that it asks for, if the name is free. -/
theorem createTempDir_spec (hdir : t.store.isDirectory t.rootDir.location) :
    (∀ p, (createTempDir t).2.store.isDirectory p ↔ t.store.isDirectory p ∨
        t.name 0 ∉ t.store.list t.rootDir.location ∧ p = t.rootDir.location ++ [t.name 0]) ∧
      (∀ name, name ∈ (createTempDir t).2.store.list t.rootDir.location ↔
        name ∈ t.store.list t.rootDir.location ∨ name = t.name 0) ∧
      (createTempDir t).1 = if t.name 0 ∉ t.store.list t.rootDir.location then
        some (t.rootDir.child (t.name 0)) else none := by
  have hname : isName (t.name 0) := isName_toString _
  rw [createTempDir, ← TempDirs.name_zero]
  cases hmkdir : t.store.mkdir t.rootDir.location (t.name 0) with
  | none =>
    have htaken := (FileStore.mkdir_eq_none hdir hname).mp hmkdir
    simp only [htaken, if_false, not_true, false_and, or_false, implies_true, true_and, and_true]
    exact fun name => ⟨.inl, fun h => h.elim id fun heq => heq ▸ htaken⟩
  | some s =>
    have hfree : t.name 0 ∉ t.store.list t.rootDir.location := by
      rw [← FileStore.mkdir_isSome hdir hname, hmkdir]
      rfl
    simp only [hfree, if_true, not_false_iff, true_and, and_true]
    exact ⟨fun p => FileStore.isDirectory_mkdir hmkdir, fun name => FileStore.mem_list_mkdir hmkdir⟩

theorem createTempDir_fields (t : TempDirs) : (createTempDir t).2.rootDir = t.rootDir ∧
    (createTempDir t).2.nextDirName = t.nextDirName + 1 := by
  rw [createTempDir]
  cases t.store.mkdir t.rootDir.location (toString t.nextDirName) <;> exact ⟨rfl, rfl⟩

instance (t : TempDirs) (k : Nat) : Decidable (t.Free k) := inferInstanceAs (Decidable (_ ∧ _))

/-- Where so many calls lead, whether or not they have found their names free. -/
structure Reached (t : TempDirs) (n : Nat) (t' : TempDirs) : Prop where
  rootDir : t'.rootDir = t.rootDir
  nextDirName : t'.nextDirName.toInt = (t.nextDirName.toInt + n).bmod 4294967296
  directories : ∀ p, t'.store.isDirectory p ↔ t.store.isDirectory p ∨
    ∃ k < n, t.Free k ∧ p = t.rootDir.location ++ [t.name k]
  names : ∀ name, name ∈ t'.store.list t.rootDir.location ↔
    name ∈ t.store.list t.rootDir.location ∨ ∃ k < n, name = t.name k

theorem Reached.name_zero (h : Reached t n t') : t'.name 0 = t.name n := by
  rw [TempDirs.name, h.nextDirName, Int.bmod_add_bmod, Int.natCast_zero, Int.add_zero,
    TempDirs.name]

theorem Reached.free_iff (h : Reached t n t') :
    t'.name 0 ∉ t'.store.list t'.rootDir.location ↔ t.Free n := by
  rw [h.name_zero, h.rootDir, h.names, not_or, TempDirs.Free]
  refine and_congr_right fun _ => ?_
  simp only [not_exists, not_and, ne_eq, eq_comm]

theorem Reached.isDirectory (h : Reached t n t')
    (hdir : t.store.isDirectory t.rootDir.location) :
    t'.store.isDirectory t'.rootDir.location := by
  rw [h.rootDir, h.directories]
  exact .inl hdir

theorem Reached.next (h : Reached t n t') (hdir : t.store.isDirectory t.rootDir.location) :
    Reached t (n + 1) (createTempDir t').2 := by
  obtain ⟨hdirectories, hnames, -⟩ := createTempDir_spec (h.isDirectory hdir)
  obtain ⟨hroot, hnext⟩ := createTempDir_fields t'
  constructor
  · rw [hroot, h.rootDir]
  · rw [hnext, Int32.toInt_add, h.nextDirName, Int.bmod_add_bmod]
    rw [Int.add_assoc]
    rfl
  · intro p
    rw [hdirectories, h.free_iff, h.directories, h.name_zero, h.rootDir, Nat.exists_lt_succ_right,
      or_assoc]
  · intro name
    rw [h.rootDir, h.name_zero] at hnames
    rw [hnames, h.names, Nat.exists_lt_succ_right, or_assoc]

theorem reached_createTempDirs (hdir : t.store.isDirectory t.rootDir.location) (n : Nat) :
    Reached t n (createTempDirs n t).2 := by
  induction n with
  | zero =>
    constructor
    · rfl
    · rw [Int.natCast_zero, Int.add_zero, Int32.toInt_bmod]
      rfl
    · simp [createTempDirs]
    · simp [createTempDirs]
  | succ n ih => exact ih.next hdir

theorem createTempDirs_answers (hdir : t.store.isDirectory t.rootDir.location) (n : Nat) :
    (createTempDirs n t).1 = (List.range n).map fun k =>
      if t.Free k then some (t.rootDir.child (t.name k)) else none := by
  induction n with
  | zero => rfl
  | succ n ih =>
    have hreached := reached_createTempDirs hdir n
    obtain ⟨-, -, hanswer⟩ := createTempDir_spec (hreached.isDirectory hdir)
    rw [if_congr hreached.free_iff rfl rfl, hreached.rootDir, hreached.name_zero] at hanswer
    rw [createTempDirs, ih, hanswer, List.range_succ, List.map_append, List.map_singleton]

theorem allCreated_iff (hdir : t.store.isDirectory t.rootDir.location) :
    AllCreated t n ↔ ∀ k < n, t.Free k := by
  have hanswers := createTempDirs_answers hdir n
  constructor
  · intro h k hk
    by_contra hfree
    have hnone : none ∈ (createTempDirs n t).1 := by
      rw [hanswers]
      exact List.mem_map.mpr ⟨k, List.mem_range.mpr hk, if_neg hfree⟩
    exact Bool.false_ne_true (h.created none hnone)
  · intro hfree
    have hsome : (createTempDirs n t).1 =
        (List.range n).map fun k => some (t.rootDir.child (t.name k)) := by
      rw [hanswers]
      exact List.map_congr_left fun k hk => if_pos (hfree k (List.mem_range.mp hk))
    constructor
    · intro dir hmem
      rw [hsome] at hmem
      obtain ⟨k, -, rfl⟩ := List.mem_map.mp hmem
      rfl
    · rw [hsome]
      refine List.Nodup.map_on (fun j hj k hk hsame => ?_) List.nodup_range
      have hname : t.name j = t.name k := by
        simpa [File.child] using congrArg File.location (Option.some.inj hsame)
      obtain hlt | rfl | hgt := Nat.lt_trichotomy j k
      · exact absurd hname ((hfree k (List.mem_range.mp hk)).2 j hlt)
      · rfl
      · exact absurd hname.symm ((hfree j (List.mem_range.mp hj)).2 k hgt)
    · intro dir hmem
      rw [hsome] at hmem
      obtain ⟨k, hk, hdir'⟩ := List.mem_map.mp hmem
      cases hdir'
      have hk := List.mem_range.mp hk
      refine ⟨fun hthere => (hfree k hk).1 (FileStore.mem_list.mpr hthere), ?_⟩
      exact ((reached_createTempDirs hdir n).directories _).mpr (.inr ⟨k, hk, hfree k hk, rfl⟩)

/-! ### Numbers that wrap -/

theorem bmod_eq_iff {a b : Int} :
    a.bmod 4294967296 = b.bmod 4294967296 ↔ (a - b) % 4294967296 = 0 := by
  rw [Int.bmod_def, Int.bmod_def]
  split <;> split <;> omega

theorem number_toString (v : Int32) : number (toString v) = v := by
  have hparse : Java.parseInt (toString v) = some v.toInt :=
    Java.parseInt_toString v.le_toInt (Int.le_of_lt_add_one v.toInt_lt)
  rw [number, hparse, Option.getD_some]
  exact Int32.ofInt_toInt v

theorem getLast?_insertionSort {l : List Int32} {last : Int32}
    (h : (l.insertionSort (· ≤ ·)).getLast? = some last) :
    last ∈ l ∧ ∀ v ∈ l, v.toInt ≤ last.toInt := by
  have hsorted := List.pairwise_insertionSort (· ≤ · : Int32 → Int32 → Prop) l
  obtain ⟨front, hfront⟩ := List.getLast?_eq_some_iff.mp h
  have hmem (v : Int32) : v ∈ l ↔ v ∈ front ∨ v = last := by
    rw [← List.mem_insertionSort (· ≤ ·), hfront]
    simp
  rw [hfront, List.pairwise_append] at hsorted
  refine ⟨(hmem last).mpr (.inr rfl), fun v hv => ?_⟩
  obtain hv | rfl := (hmem v).mp hv
  · exact Int32.le_iff_toInt_le.mp (hsorted.2.2 v hv last (by simp))
  · exact Int.le_refl _

theorem init_eq_ok {tempRoot : File} {nextDirName : Int32} {s : FileStore}
    (h : init tempRoot nextDirName s = .ok t) :
    t.rootDir = tempRoot ∧ t.store = s ∧ s.isDirectory tempRoot.location ∧
      (s.list tempRoot.location ≠ [] → ∃ last ∈ s.list tempRoot.location,
        t.nextDirName = number last + 1 ∧
          ∀ name ∈ s.list tempRoot.location, (number name).toInt ≤ (number last).toInt) := by
  unfold init at h
  split at h
  · cases h
  split at h
  · cases h
  rename_i hdir
  rw [Bool.not_eq_true, Bool.not_eq_false'] at hdir
  split at h
  · rename_i last hlast
    cases h
    obtain ⟨hmem, hmax⟩ := getLast?_insertionSort hlast
    obtain ⟨name, hname, rfl⟩ := List.mem_map.mp hmem
    exact ⟨rfl, rfl, hdir, fun _ => ⟨name, hname, rfl, fun other hother =>
      hmax _ (List.mem_map_of_mem hother)⟩⟩
  · rename_i hnone
    cases h
    refine ⟨rfl, rfl, hdir, fun hne => absurd hnone ?_⟩
    simpa [List.getLast?_eq_none_iff, ← List.length_eq_zero_iff] using hne

/-- So many numbers follow the greatest of the names, before they come round to one that is a
name. -/
def Room (names : List String) (n : Nat) : Prop :=
  n ≤ 4294967296 ∧ ∀ v : Int32, toString v ∈ names →
    ∀ name ∈ names, n + ((number name).toInt + 1 - v.toInt) ≤ 4294967296

theorem TempDirs.name_eq_toString_iff {v : Int32} :
    t.name k = toString v ↔ (t.nextDirName.toInt + k - v.toInt) % 4294967296 = 0 := by
  have htext : t.name k = toString v ↔
      (t.nextDirName.toInt + k).bmod 4294967296 = v.toInt := Int.repr_inj
  rw [htext, ← bmod_eq_iff, Int32.toInt_bmod]

theorem TempDirs.name_inj {j : Nat} :
    t.name j = t.name k ↔ ((j : Int) - k) % 4294967296 = 0 := by
  have htext : t.name j = t.name k ↔ (t.nextDirName.toInt + j).bmod 4294967296 =
      (t.nextDirName.toInt + k).bmod 4294967296 := Int.repr_inj
  rw [htext, bmod_eq_iff]
  omega

theorem TempDirs.exists_name (t : TempDirs) (k : Nat) : ∃ v : Int32, t.name k = toString v := by
  refine ⟨Int32.ofInt (t.nextDirName.toInt + k), ?_⟩
  rw [TempDirs.name, ← Int32.toInt_ofInt]
  rfl

/-- The calls all make new directories iff the names that `init` has found leave room for them. -/
theorem createTempDir_creates_iff {tempRoot : File} {nextDirName : Int32} {s : FileStore}
    (h : init tempRoot nextDirName s = .ok t) (n : Nat) :
    AllCreated t n ↔ Room (s.list tempRoot.location) n := by
  obtain ⟨rfl, rfl, hdir, hlast⟩ := init_eq_ok h
  rw [allCreated_iff hdir]
  constructor
  · intro hfree
    have hn : n ≤ 4294967296 := by
      by_contra hlt
      refine (hfree 4294967296 (by omega)).2 0 (by decide) ?_
      rw [TempDirs.name_inj]
      decide
    refine ⟨hn, fun v hv name hname => ?_⟩
    obtain ⟨last, -, hnext, hmax⟩ := hlast (List.ne_nil_of_mem hv)
    have hle := hmax _ hv
    have hbound := hmax name hname
    rw [number_toString] at hle
    have hlow := v.le_toInt
    have hhigh := (number last).toInt_lt
    -- the call that comes to this name
    by_contra hroom
    have hturn : ((4294967296 - ((number last).toInt + 1 - v.toInt)).toNat : Int) =
        4294967296 - ((number last).toInt + 1 - v.toInt) := by omega
    refine (hfree (4294967296 - ((number last).toInt + 1 - v.toInt)).toNat (by omega)).1 ?_
    have hname : t.name (4294967296 - ((number last).toInt + 1 - v.toInt)).toNat = toString v := by
      rw [TempDirs.name_eq_toString_iff, hturn, hnext, Int32.toInt_add, Int.bmod_def]
      have hone : (1 : Int32).toInt = 1 := rfl
      rw [hone]
      split <;> omega
    rwa [hname]
  · intro ⟨hn, hroom⟩ k hk
    constructor
    · intro hmem
      obtain ⟨v, hv⟩ := t.exists_name k
      obtain ⟨last, hlastMem, hnext, hmax⟩ := hlast (List.ne_nil_of_mem hmem)
      rw [hv] at hmem
      have hbound := hroom v hmem last hlastMem
      have hle := hmax _ hmem
      rw [number_toString] at hle
      rw [TempDirs.name_eq_toString_iff, hnext, Int32.toInt_add, Int.bmod_def] at hv
      have hone : (1 : Int32).toInt = 1 := rfl
      rw [hone] at hv
      split at hv <;> omega
    · intro j hj hsame
      rw [TempDirs.name_inj] at hsame
      omega

def root : File := ⟨"/tmp".toList, ["tmp"]⟩

def numbered : FileStore :=
  .of [[], ["tmp"], ["tmp", "2147483647"], ["tmp", "notes"], ["tmp", "-2147483648"]]
    (fun _ => .directory) (by decide +kernel)

theorem createTempDir_creates_numbered : ∃ t, init root 1 numbered = .ok t ∧
    (AllCreated t 3 ↔ Room ["2147483647", "notes", "-2147483648"] 3) := by
  have hinit : (init root 1 numbered).toOption.isSome := by decide +kernel
  cases hresult : init root 1 numbered with
  | error e =>
    rw [hresult] at hinit
    cases hinit
  | ok t => exact ⟨t, rfl, createTempDir_creates_iff hresult 3⟩

theorem createTempDir_wraps : ∃ t, init root 1 numbered = .ok t ∧
    (createTempDirs 1 t).1 = [none] ∧ ¬ AllCreated t 1 := by
  have hcall : (init root 1 numbered).toOption.any fun t => (createTempDirs 1 t).1 = [none] := by
    decide +kernel
  cases hresult : init root 1 numbered with
  | error e =>
    rw [hresult] at hcall
    cases hcall
  | ok t =>
    rw [hresult] at hcall
    have hnone : (createTempDirs 1 t).1 = [none] := of_decide_eq_true hcall
    refine ⟨t, rfl, hnone, fun h => ?_⟩
    have hsome := h.created none (by simp [hnone])
    cases hsome

end InsightsAssist.TempFileUtil
