import Mathlib.Data.List.Infix
import Mathlib.Logic.Function.Basic
import InsightsAssist.Split

/-! Paths, file systems without links, and the making of directories and files in them. A path is
followed name by name through what there is; resolving it only looks at the names. -/
namespace InsightsAssist.FileTree

/-- The names from the root on. -/
abbrev Path := List String

instance : LawfulBEq Path := inferInstance

inductive Node where
  | directory | file
  deriving DecidableEq, Repr

/-- What there is at the paths without `.` and `..`. -/
abbrev Tree := Path → Option Node

/-- The names of a text; empty ones, between two slashes or at an end, do not count. -/
def segments (path : String) : Path :=
  ((path.toList.splitOn '/').filter (· ≠ [])).map String.ofList

def enter (dir : Path) (name : String) : Path :=
  if name = "." then dir else if name = ".." then dir.dropLast else dir ++ [name]

def resolve (p : Path) : Path := p.foldl enter []

/-- No name can hold a NUL. -/
def isInvalid (p : Path) : Bool := p.any fun name => '\x00' ∈ name.toList

def Tree.follow (t : Tree) (dir : Path) (name : String) : Option Path :=
  if t dir = some .directory ∧ t (enter dir name) ≠ none then some (enter dir name) else none

def Tree.walk (t : Tree) (p : Path) : Option Path := p.foldlM t.follow []

def Tree.exists (t : Tree) (p : Path) : Bool := !isInvalid p && (t.walk p).isSome

/-- The path leads to a free name in a directory. -/
def Tree.creatable (t : Tree) (p : Path) : Bool :=
  !isInvalid p && (t.walk p.dropLast).any (fun dir => t dir = some .directory) &&
    t (resolve p) = none

/-- Everything stands in a directory. -/
structure FileSystem where
  node : Tree
  root : node [] = some .directory
  closed : ∀ p name, node (p ++ [name]) ≠ none → node p = some .directory

variable {t : Tree} {fs fs' : FileSystem} {p q dir : Path} {name : String} {kind : Node}

/-! ### Resolving -/

@[simp] theorem resolve_nil : resolve [] = [] := rfl

theorem resolve_append (p : Path) (name : String) :
    resolve (p ++ [name]) = enter (resolve p) name := by
  simp [resolve]

theorem length_enter_le (dir : Path) (name : String) :
    (enter dir name).length ≤ dir.length + 1 := by
  unfold enter
  split
  · omega
  · split
    · simp
      omega
    · simp

theorem length_resolve_le (p : Path) : (resolve p).length ≤ p.length := by
  induction p using List.reverseRecOn with
  | nil => simp
  | append_singleton p name ih =>
    have hstep := length_enter_le (resolve p) name
    rw [resolve_append, List.length_append, List.length_singleton]
    omega

def IsCanonical (p : Path) : Prop := ∀ name ∈ p, name ≠ "." ∧ name ≠ ".."

theorem mem_enter {other : String} (h : other ∈ enter dir name) :
    other ∈ dir ∨ other = name ∧ name ≠ "." ∧ name ≠ ".." := by
  unfold enter at h
  split at h
  · exact .inl h
  · split at h
    · exact .inl (List.mem_of_mem_dropLast h)
    · obtain h | h := List.mem_append.mp h
      · exact .inl h
      · exact .inr ⟨List.mem_singleton.mp h, ‹_›, ‹_›⟩

theorem isCanonical_resolve (p : Path) : IsCanonical (resolve p) := by
  induction p using List.reverseRecOn with
  | nil => simp [IsCanonical]
  | append_singleton p name ih =>
    intro other hother
    rw [resolve_append] at hother
    obtain h | ⟨rfl, h⟩ := mem_enter hother
    · exact ih other h
    · exact h

theorem mem_of_mem_resolve (h : name ∈ resolve p) : name ∈ p := by
  induction p using List.reverseRecOn with
  | nil => exact h
  | append_singleton p other ih =>
    rw [resolve_append] at h
    obtain h | ⟨rfl, -⟩ := mem_enter h
    · exact List.mem_append_left _ (ih h)
    · simp

theorem enter_of_ne (h : name ≠ "." ∧ name ≠ "..") : enter dir name = dir ++ [name] := by
  rw [enter, if_neg h.1, if_neg h.2]

theorem IsCanonical.of_prefix (h : IsCanonical q) (hp : p <+: q) : IsCanonical p :=
  fun name hname => h name (hp.subset hname)

theorem IsCanonical.resolve_eq (h : IsCanonical p) : resolve p = p := by
  induction p using List.reverseRecOn with
  | nil => rfl
  | append_singleton p name ih =>
    rw [resolve_append, ih (h.of_prefix (List.prefix_append _ _)), enter_of_ne (h name (by simp))]

theorem isInvalid_resolve (h : isInvalid p = false) : isInvalid (resolve p) = false := by
  simp only [isInvalid, List.any_eq_false] at h ⊢
  exact fun name hname => h name (mem_of_mem_resolve hname)

theorem isInvalid_of_prefix (h : isInvalid q = false) (hp : p <+: q) : isInvalid p = false := by
  simp only [isInvalid, List.any_eq_false] at h ⊢
  exact fun name hname => h name (hp.subset hname)

/-! ### The names of a text -/

theorem segments_append (s t : String) :
    segments (s ++ "/" ++ t) = segments s ++ segments t := by
  have hlist : (s ++ "/" ++ t).toList = s.toList ++ '/' :: t.toList := by
    simp [String.toList_append]
  rw [segments, hlist, List.splitOn_append_cons_self, List.filter_append, List.map_append]
  rfl

theorem segments_concat (s : String) {t : String} (hslash : '/' ∉ t.toList) (hne : t ≠ "") :
    ∃ init name, segments (s ++ t) = init ++ [name ++ t] := by
  have hlast (name : List Char) : ((name ++ t.toList).splitOn '/' = [name ++ t.toList]) ↔
      '/' ∉ name := by
    constructor
    · intro hsplit hmem
      have hlength := congrArg List.length hsplit
      rw [length_splitOn, List.length_singleton] at hlength
      have hcount := List.count_pos_iff.mpr (List.mem_append_left t.toList hmem)
      omega
    · intro hmem
      exact List.splitOn_eq_singleton (by simp [hmem, hslash])
  have hempty (name : List Char) : name ++ t.toList ≠ [] := by simp [hne]
  have hstring (name : List Char) :
      String.ofList (name ++ t.toList) = String.ofList name ++ t := by simp
  by_cases hs : '/' ∈ s.toList
  · obtain ⟨back, front, hback, hmem⟩ := List.eq_append_cons_of_mem (List.mem_reverse.mpr hs)
    have hlist : s.toList = front.reverse ++ '/' :: back.reverse := by
      rw [← List.reverse_reverse s.toList, hback]
      simp
    refine ⟨((front.reverse.splitOn '/').filter (· ≠ [])).map String.ofList,
      String.ofList back.reverse, ?_⟩
    rw [segments, String.toList_append, hlist, List.append_assoc, List.cons_append,
      List.splitOn_append_cons_self, (hlast back.reverse).mpr (by simpa using hmem),
      List.filter_append, List.map_append, ← hstring]
    simp [hempty]
  · refine ⟨[], s, ?_⟩
    rw [segments, String.toList_append, (hlast s.toList).mpr hs]
    simp [hempty]

theorem isInvalid_segments (s : String) : isInvalid (segments s) ↔ '\x00' ∈ s.toList := by
  have hjoin : join '/' (s.toList.splitOn '/') = s.toList := List.intercalate_splitOn '/'
  rw [← hjoin, mem_join (by decide)]
  simp only [isInvalid, segments, List.any_map, List.any_eq_true, List.mem_filter]
  constructor
  · intro ⟨name, ⟨hmem, _⟩, hnul⟩
    exact ⟨name, hmem, by simpa using hnul⟩
  · intro ⟨name, hmem, hnul⟩
    exact ⟨name, ⟨hmem, by simpa using List.ne_nil_of_mem hnul⟩, by simpa using hnul⟩

/-! ### Following a path -/

theorem Tree.walk_append (t : Tree) (p : Path) (name : String) :
    t.walk (p ++ [name]) = (t.walk p).bind fun dir => t.follow dir name := by
  rw [Tree.walk, List.foldlM_append]
  change (t.walk p >>= fun dir => t.follow dir name >>= fun dir => some dir) = _
  simp only [Option.bind_eq_bind, Option.bind_fun_some]

theorem Tree.walk_eq_some (h : t.walk p = some q) : q = resolve p ∧ (p ≠ [] → t q ≠ none) := by
  induction p using List.reverseRecOn generalizing q with
  | nil => exact ⟨(Option.some.inj h).symm, fun hne => absurd rfl hne⟩
  | append_singleton p name ih =>
    rw [Tree.walk_append, Option.bind_eq_some_iff] at h
    obtain ⟨dir, hdir, hfollow⟩ := h
    rw [Tree.follow] at hfollow
    split at hfollow
    · rename_i hthere
      cases hfollow
      rw [resolve_append, (ih hdir).1]
      exact ⟨rfl, fun _ => (ih hdir).1 ▸ hthere.2⟩
    · cases hfollow

theorem FileSystem.node_of_walk (h : fs.node.walk p = some q) :
    q = resolve p ∧ fs.node q ≠ none := by
  obtain ⟨hq, hthere⟩ := Tree.walk_eq_some h
  refine ⟨hq, ?_⟩
  by_cases hp : p = []
  · subst hp
    rw [hq, resolve_nil, fs.root]
    simp
  · exact hthere hp

theorem FileSystem.node_prefix (h : fs.node q ≠ none) (hp : p <+: q) (hne : p ≠ q) :
    fs.node p = some .directory := by
  induction q using List.reverseRecOn with
  | nil => exact absurd (List.prefix_nil.mp hp) hne
  | append_singleton q name ih =>
    have hq := fs.closed q name h
    obtain rfl | hp := List.prefix_concat_iff.mp hp
    · exact absurd rfl hne
    · by_cases hpq : p = q
      · rw [hpq]
        exact hq
      · exact ih (by simp [hq]) hp hpq

theorem FileSystem.walk_of_canonical (fs : FileSystem) (h : IsCanonical p) :
    fs.node.walk p = if fs.node p = none then none else some p := by
  induction p using List.reverseRecOn with
  | nil => simp [fs.root, Tree.walk]
  | append_singleton p name ih =>
    have hname := h name (by simp)
    rw [Tree.walk_append, ih (h.of_prefix (List.prefix_append _ _))]
    by_cases hthere : fs.node (p ++ [name]) = none
    · by_cases hp : fs.node p = none <;> simp [hp, hthere, Tree.follow, enter_of_ne hname]
    · have hdir := fs.closed p name hthere
      simp [hdir, hthere, Tree.follow, enter_of_ne hname]

theorem FileSystem.exists_of_canonical (fs : FileSystem) (h : IsCanonical p)
    (hvalid : isInvalid p = false) : fs.node.exists p ↔ fs.node p ≠ none := by
  rw [Tree.exists, hvalid, fs.walk_of_canonical h]
  by_cases hp : fs.node p = none <;> simp [hp]

theorem FileSystem.node_of_exists (h : fs.node.exists p) : fs.node (resolve p) ≠ none := by
  rw [Tree.exists, Bool.and_eq_true, Option.isSome_iff_exists] at h
  obtain ⟨-, q, hwalk⟩ := h
  obtain ⟨rfl, hq⟩ := FileSystem.node_of_walk hwalk
  exact hq

/-! ### Making one directory or file -/

def FileSystem.add (fs : FileSystem) (q : Path) (kind : Node)
    (hdir : fs.node q.dropLast = some .directory) (hfree : fs.node q = none) : FileSystem where
  node := Function.update fs.node q (some kind)
  root := by
    have hq : [] ≠ q := by
      rintro rfl
      rw [fs.root] at hfree
      cases hfree
    rw [Function.update_of_ne hq, fs.root]
  closed := by
    intro p name hthere
    by_cases hnew : p ++ [name] = q
    · subst hnew
      rw [List.dropLast_concat] at hdir
      rw [Function.update_of_ne (by simp), hdir]
    · rw [Function.update_of_ne hnew] at hthere
      have hp := fs.closed p name hthere
      have hne : p ≠ q := by
        rintro rfl
        rw [hp] at hfree
        cases hfree
      rw [Function.update_of_ne hne, hp]

theorem Tree.creatable_iff : t.creatable p ↔ isInvalid p = false ∧
    (∃ dir, t.walk p.dropLast = some dir ∧ t dir = some .directory) ∧ t (resolve p) = none := by
  simp [Tree.creatable, Option.any_eq_true, and_assoc]

theorem FileSystem.creatable_parent (h : fs.node.creatable p) :
    fs.node (resolve p).dropLast = some .directory ∧ fs.node (resolve p) = none ∧
      resolve p = resolve p.dropLast ++ [p.getLast?.getD ""] := by
  obtain ⟨-, ⟨dir, hwalk, hdir⟩, hfree⟩ := Tree.creatable_iff.mp h
  obtain ⟨rfl, -⟩ := FileSystem.node_of_walk hwalk
  induction p using List.reverseRecOn with
  | nil =>
    rw [resolve_nil, fs.root] at hfree
    cases hfree
  | append_singleton p name _ =>
    rw [List.dropLast_concat] at hdir ⊢
    rw [resolve_append] at hfree ⊢
    -- `.` and `..` lead to directories that are there
    have hname : name ≠ "." ∧ name ≠ ".." := by
      constructor
      · rintro rfl
        rw [enter, if_pos rfl, hdir] at hfree
        cases hfree
      · rintro rfl
        have hup : fs.node (resolve p).dropLast = some .directory := by
          by_cases hp : (resolve p).dropLast = resolve p
          · rw [hp, hdir]
          · exact FileSystem.node_prefix (by simp [hdir]) (List.dropLast_prefix _) hp
        rw [enter, if_neg (by decide), if_pos rfl, hup] at hfree
        cases hfree
    rw [enter_of_ne hname] at hfree ⊢
    simp [hdir, hfree]

def FileSystem.create (fs : FileSystem) (p : Path) (kind : Node) : Option FileSystem :=
  if h : fs.node.creatable p then
    some (fs.add (resolve p) kind (FileSystem.creatable_parent h).1
      (FileSystem.creatable_parent h).2.1)
  else none

theorem FileSystem.create_eq_some (h : fs.create p kind = some fs') :
    fs.node.creatable p ∧ fs'.node = Function.update fs.node (resolve p) (some kind) := by
  rw [FileSystem.create] at h
  split at h
  · cases h
    exact ⟨‹_›, rfl⟩
  · cases h

theorem FileSystem.create_eq_none : fs.create p kind = none ↔ fs.node.creatable p = false := by
  rw [FileSystem.create]
  split <;> simp_all

theorem FileSystem.creatable_of_canonical (fs : FileSystem) (h : IsCanonical p)
    (hvalid : isInvalid p = false) : fs.node.creatable p ↔
      fs.node p.dropLast = some .directory ∧ fs.node p = none := by
  have hinit : IsCanonical p.dropLast := h.of_prefix (List.dropLast_prefix p)
  rw [Tree.creatable_iff, h.resolve_eq, fs.walk_of_canonical hinit]
  by_cases hdir : fs.node p.dropLast = none <;> simp [hvalid, hdir]

/-! ### Making the directories of a path -/

theorem length_dropLast_resolve_lt (h : resolve p ≠ []) :
    (resolve p).dropLast.length < p.length := by
  have hle := length_resolve_le p
  have hpos := List.length_pos_of_ne_nil h
  rw [List.length_dropLast]
  omega

/-- `File.mkdirs`: whether it has made the directory, and what there is then. -/
def FileSystem.mkdirs (fs : FileSystem) (p : Path) : Bool × FileSystem :=
  if fs.node.exists p then (false, fs)
  else
    match fs.create p .directory with
    | some fs' => (true, fs')
    | none =>
      if _ : isInvalid p ∨ resolve p = [] then (false, fs)
      else
        let (made, fs') := fs.mkdirs (resolve p).dropLast
        if made || fs'.node.exists (resolve p).dropLast then
          match fs'.create (resolve p) .directory with
          | some fs'' => (true, fs'')
          | none => (false, fs')
        else (false, fs')
termination_by p.length
decreasing_by exact length_dropLast_resolve_lt (not_or.mp ‹_›).2

/-- With directories at the path and above it. -/
def Tree.withDirectories (t : Tree) (p : Path) : Tree := fun q =>
  if t q = none ∧ q <+: p then some .directory else t q

/-- There is something at the path already, or a file above it. -/
def Tree.Blocked (t : Tree) (p : Path) : Prop :=
  isInvalid p ∨ t (resolve p) ≠ none ∨ ∃ q, q <+: resolve p ∧ t q = some .file

theorem prefix_dropLast (h : q <+: p) (hne : q ≠ p) : q <+: p.dropLast := by
  induction p using List.reverseRecOn with
  | nil => exact absurd (List.prefix_nil.mp h) hne
  | append_singleton p name _ =>
    rw [List.dropLast_concat]
    exact (List.prefix_concat_iff.mp h).resolve_left hne

theorem FileSystem.node_above (hdir : fs.node p.dropLast = some .directory) (hq : q <+: p)
    (hne : q ≠ p) : fs.node q = some .directory := by
  by_cases hlast : q = p.dropLast
  · rw [hlast, hdir]
  · exact FileSystem.node_prefix (by simp [hdir]) (prefix_dropLast hq hne) hlast

theorem withDirectories_eq_update (hdir : fs.node p.dropLast = some .directory)
    (hfree : fs.node p = none) :
    fs.node.withDirectories p = Function.update fs.node p (some .directory) := by
  funext q
  rw [Tree.withDirectories]
  by_cases hq : q = p
  · subst hq
    simp [hfree]
  · rw [Function.update_of_ne hq, if_neg]
    rintro ⟨hnone, hunder⟩
    rw [FileSystem.node_above hdir hunder hq] at hnone
    cases hnone

theorem not_blocked_of_creatable (h : fs.node.creatable p) : ¬ fs.node.Blocked p := by
  obtain ⟨hdir, hfree, -⟩ := FileSystem.creatable_parent h
  rintro (hinvalid | hthere | ⟨q, hq, hfile⟩)
  · rw [(Tree.creatable_iff.mp h).1] at hinvalid
    cases hinvalid
  · exact hthere hfree
  · have hne : q ≠ resolve p := by
      rintro rfl
      rw [hfree] at hfile
      cases hfile
    rw [FileSystem.node_above hdir hq hne] at hfile
    cases hfile

theorem blocked_of_exists (h : fs.node.exists p) : fs.node.Blocked p :=
  .inr (.inl (FileSystem.node_of_exists h))

theorem create_canonical (fs : FileSystem) (h : IsCanonical p) (hvalid : isInvalid p = false) :
    (fs.node p.dropLast = some .directory → fs.node p = none → ∃ fs',
      fs.create p .directory = some fs' ∧ fs'.node = fs.node.withDirectories p) ∧
    (¬ (fs.node p.dropLast = some .directory ∧ fs.node p = none) →
      fs.create p .directory = none) := by
  constructor
  · intro hdir hfree
    have hcreatable := (fs.creatable_of_canonical h hvalid).mpr ⟨hdir, hfree⟩
    cases hcreate : fs.create p .directory with
    | none => simp [FileSystem.create_eq_none.mp hcreate] at hcreatable
    | some fs' =>
      refine ⟨fs', rfl, ?_⟩
      rw [(FileSystem.create_eq_some hcreate).2, h.resolve_eq, withDirectories_eq_update hdir hfree]
  · intro hnot
    rw [FileSystem.create_eq_none, Bool.eq_false_iff]
    exact fun hcreatable => hnot ((fs.creatable_of_canonical h hvalid).mp hcreatable)

theorem create_of_blocked (h : fs.node.Blocked p) : fs.create p kind = none := by
  rw [FileSystem.create_eq_none, Bool.eq_false_iff]
  exact fun hcreatable => not_blocked_of_creatable hcreatable h

theorem blocked_resolve (hvalid : isInvalid p = false) :
    t.Blocked (resolve p) ↔ t.Blocked p := by
  rw [Tree.Blocked, Tree.Blocked, (isCanonical_resolve p).resolve_eq, isInvalid_resolve hvalid,
    hvalid]

theorem blocked_dropLast (h : IsCanonical p) (hvalid : isInvalid p = false)
    (hblocked : fs.node.Blocked p) : fs.node.Blocked p.dropLast := by
  have hinit : resolve p.dropLast = p.dropLast :=
    (h.of_prefix (List.dropLast_prefix p)).resolve_eq
  rw [Tree.Blocked, h.resolve_eq, hvalid] at hblocked
  have hthere (hp : fs.node p ≠ none) : fs.node p.dropLast ≠ none := by
    by_cases hsame : p.dropLast = p
    · rwa [hsame]
    · rw [FileSystem.node_prefix hp (List.dropLast_prefix p) hsame]
      simp
  obtain hinvalid | hp | ⟨q, hq, hfile⟩ := hblocked
  · cases hinvalid
  · exact .inr (.inl (hinit.symm ▸ hthere hp))
  · by_cases hqp : q = p
    · exact .inr (.inl (hinit.symm ▸ hthere (by simp [← hqp, hfile])))
    · exact .inr (.inr ⟨q, hinit.symm ▸ prefix_dropLast hq hqp, hfile⟩)

theorem withDirectories_withDirectories (hp : p <+: q) :
    (t.withDirectories p).withDirectories q = t.withDirectories q := by
  funext other
  simp only [Tree.withDirectories]
  by_cases hnone : t other = none
  · by_cases hother : other <+: p
    · simp [hnone, hother, hother.trans hp]
    · simp [hnone, hother]
  · simp [hnone]

theorem withDirectories_self (h : t p = none) : t.withDirectories p p = some .directory :=
  if_pos ⟨h, List.prefix_rfl⟩

theorem withDirectories_dropLast (hne : p ≠ []) : t.withDirectories p.dropLast p = t p := by
  rw [Tree.withDirectories, if_neg]
  rintro ⟨-, hunder⟩
  have hle := hunder.length_le
  have hpos := List.length_pos_of_ne_nil hne
  rw [List.length_dropLast] at hle
  omega

theorem not_blocked_iff (h : IsCanonical p) (hvalid : isInvalid p = false) :
    ¬ t.Blocked p ↔ t p = none ∧ ∀ q, q <+: p → t q ≠ some .file := by
  rw [Tree.Blocked, h.resolve_eq, hvalid]
  simp

theorem directory_of_blocked_dropLast (h : IsCanonical p) (hvalid : isInvalid p = false)
    (hfree : ¬ t.Blocked p) (hparent : t.Blocked p.dropLast) :
    t p.dropLast = some .directory := by
  obtain ⟨-, hnofile⟩ := (not_blocked_iff h hvalid).mp hfree
  have hthere : t p.dropLast ≠ none := fun hnone => by
    have hinit : IsCanonical p.dropLast := h.of_prefix (List.dropLast_prefix p)
    refine (not_blocked_iff hinit ?_).mpr ⟨hnone, fun q hq => ?_⟩ hparent
    · exact isInvalid_of_prefix hvalid (List.dropLast_prefix p)
    · exact hnofile q (hq.trans (List.dropLast_prefix p))
  have hfile := hnofile _ (List.dropLast_prefix p)
  cases hnode : t p.dropLast with
  | none => exact absurd hnode hthere
  | some kind =>
    cases kind with
    | directory => rfl
    | file => exact absurd hnode hfile

theorem make_below (h : IsCanonical p) (hvalid : isInvalid p = false) (hne : p ≠ [])
    {r : Bool × FileSystem} (hr : fs.node.Blocked p.dropLast → r = (false, fs))
    (hr' : ¬ fs.node.Blocked p.dropLast → r.1 = true ∧
      r.2.node = fs.node.withDirectories p.dropLast) {result : Bool × FileSystem}
    (hresult : result = if r.1 || r.2.node.exists p.dropLast then
        match r.2.create p .directory with
        | some fs'' => (true, fs'')
        | none => (false, r.2)
      else (false, r.2)) :
    (fs.node.Blocked p → result = (false, fs)) ∧
    (¬ fs.node.Blocked p → result.1 = true ∧ result.2.node = fs.node.withDirectories p) := by
  have hinit : IsCanonical p.dropLast := h.of_prefix (List.dropLast_prefix p)
  have hvalid' := isInvalid_of_prefix hvalid (List.dropLast_prefix p)
  constructor
  · intro hblocked
    rw [hresult, hr (blocked_dropLast h hvalid hblocked), create_of_blocked hblocked]
    split <;> rfl
  · intro hfree
    have hnone : fs.node p = none := ((not_blocked_iff h hvalid).mp hfree).1
    by_cases hparent : fs.node.Blocked p.dropLast
    · -- the parent was there before
      have hdir := directory_of_blocked_dropLast h hvalid hfree hparent
      obtain ⟨fs', hcreate, hnode⟩ := (create_canonical fs h hvalid).1 hdir hnone
      have hexists := (fs.exists_of_canonical hinit hvalid').mpr (by simp [hdir])
      rw [hresult, hr hparent, hcreate, hexists]
      exact ⟨rfl, hnode⟩
    · obtain ⟨hmade, hnode⟩ := hr' hparent
      have hnew : fs.node p.dropLast = none := ((not_blocked_iff hinit hvalid').mp hparent).1
      have hdir : r.2.node p.dropLast = some .directory := by rw [hnode, withDirectories_self hnew]
      have hnone' : r.2.node p = none := by rw [hnode, withDirectories_dropLast hne, hnone]
      obtain ⟨fs', hcreate, hnode'⟩ := (create_canonical r.2 h hvalid).1 hdir hnone'
      rw [hresult, hmade, hcreate]
      refine ⟨rfl, ?_⟩
      change fs'.node = _
      rw [hnode', hnode, withDirectories_withDirectories (List.dropLast_prefix p)]

/-- `mkdirs` makes all missing directories of what the path resolves to, or nothing. -/
theorem FileSystem.mkdirs_spec (fs : FileSystem) (p : Path) :
    (fs.node.Blocked p → fs.mkdirs p = (false, fs)) ∧
    (¬ fs.node.Blocked p → (fs.mkdirs p).1 = true ∧
      (fs.mkdirs p).2.node = fs.node.withDirectories (resolve p)) := by
  induction hlength : p.length using Nat.strongRecOn generalizing p with
  | ind n ih =>
    subst hlength
    rw [FileSystem.mkdirs]
    by_cases hexists : fs.node.exists p
    · rw [if_pos hexists]
      exact ⟨fun _ => rfl, fun hfree => absurd (blocked_of_exists hexists) hfree⟩
    rw [if_neg hexists]
    cases hcreate : fs.create p .directory with
    | some fs' =>
      obtain ⟨hcreatable, hnode⟩ := FileSystem.create_eq_some hcreate
      obtain ⟨hdir, hfree, -⟩ := FileSystem.creatable_parent hcreatable
      refine ⟨fun hblocked => absurd hblocked (not_blocked_of_creatable hcreatable), fun _ => ?_⟩
      exact ⟨rfl, by rw [withDirectories_eq_update hdir hfree, hnode]⟩
    | none =>
      simp only
      by_cases hstop : isInvalid p ∨ resolve p = []
      · rw [dif_pos hstop]
        have hblocked : fs.node.Blocked p := by
          obtain hinvalid | hroot := hstop
          · exact .inl hinvalid
          · exact .inr (.inl (by rw [hroot, fs.root]; simp))
        exact ⟨fun _ => rfl, fun hfree => absurd hblocked hfree⟩
      rw [dif_neg hstop]
      rw [not_or, Bool.not_eq_true] at hstop
      have hparent := ih _ (length_dropLast_resolve_lt hstop.2) (resolve p).dropLast rfl
      have hinit := IsCanonical.of_prefix (isCanonical_resolve p) (List.dropLast_prefix _)
      rw [hinit.resolve_eq] at hparent
      rw [← blocked_resolve hstop.1]
      exact make_below (isCanonical_resolve p) (isInvalid_resolve hstop.1) hstop.2 hparent.1
        hparent.2 rfl

/-- `FileUtils.openOutputStream`: what there is after it, whether it has opened the file or
thrown. -/
def FileSystem.openOutputStream (fs : FileSystem) (p : Path) : FileSystem :=
  if fs.node.exists p then fs
  else if fs.node.exists p.dropLast then (fs.create p .file).getD fs
  else
    match fs.mkdirs p.dropLast with
    | (true, fs') => (fs'.create p .file).getD fs'
    | (false, fs') => fs'

/-! ### What is new -/

/-- What is there stays as it is. -/
def Tree.Extends (t t' : Tree) : Prop := ∀ q, t q ≠ none → t' q = t q

/-- All that is new is the directory or inside it. -/
def NewWithin (root : Path) (t t' : Tree) : Prop := ∀ q, t q = none → t' q ≠ none → root <+: q

section NewWithin
variable {root : Path} {t' t'' : Tree}

theorem newWithin_refl (root : Path) (t : Tree) : NewWithin root t t :=
  fun _ hnone hthere => absurd hnone hthere

theorem newWithin_trans_iff (h : t.Extends t') (h' : t'.Extends t'') :
    NewWithin root t t'' ↔ NewWithin root t t' ∧ NewWithin root t' t'' := by
  constructor
  · intro hall
    refine ⟨fun q hnone hthere => hall q hnone (by rwa [h' q hthere]), fun q hnone hthere => ?_⟩
    by_cases hq : t q = none
    · exact hall q hq hthere
    · rw [h q hq] at hnone
      exact absurd hnone hq
  · intro ⟨hfirst, hsecond⟩ q hnone hthere
    by_cases hq : t' q = none
    · exact hsecond q hq hthere
    · exact hfirst q hnone hq

theorem newWithin_update (hfree : t q = none) :
    NewWithin root t (Function.update t q (some kind)) ↔ root <+: q := by
  constructor
  · intro h
    exact h q hfree (by simp)
  · intro hroot other hnone hthere
    by_cases hother : other = q
    · rwa [hother]
    · rw [Function.update_of_ne hother] at hthere
      exact absurd hnone hthere

theorem extends_update (hfree : t q = none) : t.Extends (Function.update t q (some kind)) := by
  intro other hthere
  rw [Function.update_of_ne]
  rintro rfl
  exact hthere hfree

theorem extends_withDirectories (t : Tree) (p : Path) : t.Extends (t.withDirectories p) := by
  intro q hthere
  rw [Tree.withDirectories, if_neg fun h => hthere h.1]

/-- New directories are inside iff the last one is and the parent of the root is there. -/
theorem newWithin_withDirectories (hroot : root ≠ []) (hfree : fs.node p = none) :
    NewWithin root fs.node (fs.node.withDirectories p) ↔
      root <+: p ∧ fs.node root.dropLast ≠ none := by
  have hnew (q : Path) (hnone : fs.node q = none) :
      fs.node.withDirectories p q ≠ none ↔ q <+: p := by
    by_cases hq : q <+: p <;> simp [Tree.withDirectories, hnone, hq]
  constructor
  · intro h
    have hp : root <+: p := h p hfree ((hnew p hfree).mpr (List.prefix_refl p))
    refine ⟨hp, fun hnone => ?_⟩
    have habove := h _ hnone ((hnew _ hnone).mpr ((List.dropLast_prefix root).trans hp))
    have hle := habove.length_le
    have hpos := List.length_pos_of_ne_nil hroot
    rw [List.length_dropLast] at hle
    omega
  · intro ⟨hp, hthere⟩ q hnone hq
    obtain hbelow | habove := List.prefix_or_prefix_of_prefix ((hnew q hnone).mp hq) hp
    · by_cases hsame : q = root
      · rw [hsame]
      · exfalso
        have hdrop := prefix_dropLast hbelow hsame
        by_cases hlast : q = root.dropLast
        · exact hthere (hlast ▸ hnone)
        · rw [FileSystem.node_prefix hthere hdrop hlast] at hnone
          cases hnone
    · exact habove

theorem extends_create (fs : FileSystem) (p : Path) (kind : Node) :
    fs.node.Extends ((fs.create p kind).getD fs).node := by
  cases hcreate : fs.create p kind with
  | none => exact fun _ _ => rfl
  | some fs' =>
    obtain ⟨hcreatable, hnode⟩ := FileSystem.create_eq_some hcreate
    rw [Option.getD_some, hnode]
    exact extends_update (FileSystem.creatable_parent hcreatable).2.1

theorem newWithin_create (fs : FileSystem) (p : Path) (kind : Node) :
    NewWithin root fs.node ((fs.create p kind).getD fs).node ↔
      (fs.node.creatable p → root <+: resolve p) := by
  cases hcreate : fs.create p kind with
  | none =>
    rw [FileSystem.create_eq_none] at hcreate
    simp [hcreate, newWithin_refl]
  | some fs' =>
    obtain ⟨hcreatable, hnode⟩ := FileSystem.create_eq_some hcreate
    rw [Option.getD_some, hnode,
      newWithin_update (FileSystem.creatable_parent hcreatable).2.1]
    simp [hcreatable]

theorem extends_mkdirs (fs : FileSystem) (p : Path) : fs.node.Extends (fs.mkdirs p).2.node := by
  by_cases hblocked : fs.node.Blocked p
  · rw [(fs.mkdirs_spec p).1 hblocked]
    exact fun _ _ => rfl
  · rw [((fs.mkdirs_spec p).2 hblocked).2]
    exact extends_withDirectories _ _

theorem extends_openOutputStream (fs : FileSystem) (p : Path) :
    fs.node.Extends (fs.openOutputStream p).node := by
  rw [FileSystem.openOutputStream]
  split
  · exact fun _ _ => rfl
  split
  · exact extends_create fs p .file
  · have hmkdirs := extends_mkdirs fs p.dropLast
    split
    · rename_i fs' heq
      rw [heq] at hmkdirs
      intro q hthere
      have hfirst := hmkdirs q hthere
      rw [extends_create fs' p .file q (by rwa [hfirst]), hfirst]
    · rename_i heq
      rw [heq] at hmkdirs
      exact hmkdirs

/-- Opening a file makes nothing outside: its parent is inside, or nothing is made. -/
def FileContained (root : Path) (t : Tree) (p : Path) : Prop :=
  root <+: resolve p.dropLast ∨ t.exists p ∨
    (t.exists p.dropLast ∧ t (resolve p.dropLast) = some .file) ∨
    (¬ t.exists p.dropLast ∧ t.Blocked p.dropLast)

theorem prefix_concat_iff_of_last (hlast : root.getLast? ≠ some name) :
    root <+: p ++ [name] ↔ root <+: p := by
  rw [List.prefix_concat_iff, or_iff_right]
  rintro rfl
  exact hlast List.getLast?_concat

theorem creatable_of_parent (hvalid : isInvalid (p ++ [name]) = false)
    (hparent : fs.node.exists p) (hnew : ¬ fs.node.exists (p ++ [name])) :
    fs.node.creatable (p ++ [name]) ↔ fs.node (resolve p) = some .directory := by
  rw [Tree.exists, Bool.and_eq_true, Option.isSome_iff_exists] at hparent
  obtain ⟨-, dir, hwalk⟩ := hparent
  obtain ⟨rfl, -⟩ := FileSystem.node_of_walk hwalk
  rw [Tree.creatable_iff, List.dropLast_concat, hwalk]
  simp only [hvalid, Option.some.injEq, exists_eq_left', true_and, and_iff_left_iff_imp]
  intro hdir
  by_contra hthere
  refine hnew ?_
  rw [resolve_append] at hthere
  simp [Tree.exists, hvalid, Tree.walk_append, hwalk, Tree.follow, hdir, hthere]

theorem newWithin_openOutputStream (hroot : root ≠ []) (hthere : fs.node root.dropLast ≠ none)
    (hvalid : isInvalid (p ++ [name]) = false) (hname : name ≠ "." ∧ name ≠ "..")
    (hlast : root.getLast? ≠ some name) :
    NewWithin root fs.node (fs.openOutputStream (p ++ [name])).node ↔
      FileContained root fs.node (p ++ [name]) := by
  have hfile : root <+: resolve (p ++ [name]) ↔ root <+: resolve p := by
    rw [resolve_append, enter_of_ne hname, prefix_concat_iff_of_last hlast]
  rw [FileSystem.openOutputStream, FileContained, List.dropLast_concat]
  by_cases hexists : fs.node.exists (p ++ [name])
  · rw [if_pos hexists]
    simp [hexists, newWithin_refl]
  rw [if_neg hexists]
  by_cases hparent : fs.node.exists p
  · have hnode := FileSystem.node_of_exists hparent
    rw [if_pos hparent, newWithin_create, hfile, creatable_of_parent hvalid hparent hexists]
    cases hkind : fs.node (resolve p) with
    | none => exact absurd hkind hnode
    | some kind => cases kind <;> simp [hexists, hparent]
  · rw [if_neg hparent]
    by_cases hblocked : fs.node.Blocked p
    · rw [(fs.mkdirs_spec p).1 hblocked]
      simp [hparent, hblocked, newWithin_refl]
    · obtain ⟨hmade, hnode⟩ := (fs.mkdirs_spec p).2 hblocked
      have hfree : fs.node (resolve p) = none := by
        by_contra hp
        exact hblocked (.inr (.inl hp))
      have hresult : fs.mkdirs p = (true, (fs.mkdirs p).2) := by rw [← hmade]
      rw [hresult]
      simp only [hexists, hparent, hblocked, false_and, and_false, or_false, Bool.false_eq_true]
      rw [newWithin_trans_iff (extends_mkdirs fs p) (extends_create _ _ _), newWithin_create, hfile,
        hnode, newWithin_withDirectories hroot hfree]
      constructor
      · exact fun h => h.1.1
      · exact fun h => ⟨⟨h, hthere⟩, fun _ => h⟩

end NewWithin
end InsightsAssist.FileTree
