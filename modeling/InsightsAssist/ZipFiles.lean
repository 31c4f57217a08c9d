import InsightsAssist.TempFiles

/-! The archive of a directory. How many bytes a read gives is open. -/
namespace InsightsAssist.TempFileUtil
open FileTree FileStores

/-- The bytes that a read into the buffer gives of a file from a position on, if any are left. -/
structure Reads where
  count : Path → Nat → Nat
  pos : ∀ p position, 0 < count p position
  le : ∀ p position, count p position ≤ 8192

def Reads.read (reads : Reads) (p : Path) (content : List UInt8) (position : Nat) : List UInt8 :=
  (content.drop position).take (reads.count p position)

/-- The entries with their bytes, the last one in front. -/
structure ZipOutputStream where
  entries : List (List Char × List UInt8)
  deriving DecidableEq, Repr

namespace ZipOutputStream

def putNextEntry (zos : ZipOutputStream) (name : List Char) : Except Throwable ZipOutputStream :=
  if name ∈ zos.entries.map (·.1) then
    .error (.external s!"duplicate entry: {String.ofList name}")
  else .ok ⟨(name, []) :: zos.entries⟩

/-- Bytes for the entry that has been put last. -/
def write (zos : ZipOutputStream) (bytes : List UInt8) : ZipOutputStream :=
  match zos.entries with
  | [] => zos
  | e :: entries => ⟨(e.1, e.2 ++ bytes) :: entries⟩

@[simp] theorem write_cons (e : List Char × List UInt8) (entries : List (List Char × List UInt8))
    (bytes : List UInt8) :
    write ⟨e :: entries⟩ bytes = ⟨(e.1, e.2 ++ bytes) :: entries⟩ := rfl

theorem write_write (zos : ZipOutputStream) (a b : List UInt8) :
    (zos.write a).write b = zos.write (a ++ b) := by
  obtain ⟨_ | ⟨e, entries⟩⟩ := zos
  · rfl
  · simp

theorem write_nil (zos : ZipOutputStream) : zos.write [] = zos := by
  obtain ⟨_ | ⟨e, entries⟩⟩ := zos
  · rfl
  · simp

end ZipOutputStream

def File.getName (f : File) : List Char := f.path.rtakeWhile (· ≠ '/')

variable (reads : Reads)

/-- The loop that copies a file; a read gives a byte at least, which bounds it. -/
def copy (p : Path) (content : List UInt8) :
    Nat → Nat → ZipOutputStream → Option ZipOutputStream
  | 0, _, _ => none
  | fuel + 1, position, zos =>
    let buffer := reads.read p content position
    if buffer = [] then some zos
    else copy p content fuel (position + buffer.length) (zos.write buffer)

/-- Every file can be read. -/
def fileInputStream (s : FileStore) (f : File) : Except Throwable (List UInt8) :=
  match s.find f.location with
  | some (.file content) => .ok content
  | _ => .error (.external "FileNotFoundException")

variable (s : FileStore) (base : File)

/-- The entry of a file, of which nothing is written yet, and the bytes to write. -/
def putFile (f : File) (zos : ZipOutputStream) :
    Except Throwable (List UInt8 × ZipOutputStream) :=
  (fileInputStream s f).bind fun content =>
    (Java.substring f.path (base.path.length + 1) f.path.length).bind fun name =>
      (zos.putNextEntry name).map fun zos => (content, zos)

def zipFile (f : File) (zos : ZipOutputStream) : Option (Except Throwable ZipOutputStream) :=
  match putFile s base f zos with
  | .error e => some (.error e)
  | .ok (content, zos) => (copy reads f.location content (content.length + 1) 0 zos).map .ok

/-- The loop over the files of a directory, which an exception ends. -/
def zipChildren (call : File → ZipOutputStream → Option (Except Throwable ZipOutputStream))
    (files : List File) (zos : ZipOutputStream) : Option (Except Throwable ZipOutputStream) :=
  files.foldlM (fun r f =>
    match r with
    | .ok zos => call f zos
    | .error e => some (.error e)) (.ok zos)

/-- Null where there is no directory. Every directory can be listed. -/
def listFiles (directory : File) : Option (List File) :=
  if s.isDirectory directory.location then
    some ((s.list directory.location).map directory.child)
  else none

/-- `fuel` bounds the depth. -/
def zip : Nat → File → ZipOutputStream → Option (Except Throwable ZipOutputStream)
  | 0, _, _ => none
  | fuel + 1, directory, zos =>
    zipChildren (fun f zos =>
        if s.isDirectory f.location then zip fuel f zos
        else if ".zip".toList.isSuffixOf f.getName then some (.ok zos)
        else zipFile reads s base f zos)
      ((listFiles s directory).getD []) zos

/-- What the archive holds; it is opened before anything is read. -/
def zipDirectory (directory archive : File) (fuel : Nat) :
    Option (Except Throwable ZipOutputStream) :=
  match s.openFile archive.location with
  | none => some (.error (.external "FileNotFoundException"))
  | some s => zip reads s directory fuel directory ⟨[]⟩

/-! ### One file -/

variable {reads} {s base} {d p q : Path} {content : List UInt8} {zos : ZipOutputStream} {f : File}
  {name : String} {pre : List Char} {e : List Char × List UInt8}

/-- However many bytes the reads give, all that are left get copied. -/
theorem copy_eq {fuel position : Nat} (h : content.length - position < fuel) :
    copy reads p content fuel position zos = some (zos.write (content.drop position)) := by
  induction fuel generalizing position zos with
  | zero => omega
  | succ fuel ih =>
    have hpos := reads.pos p position
    have hprefix : reads.read p content position <+: content.drop position := List.take_prefix _ _
    rw [copy]
    split
    · rename_i hend
      have hdrop : content.drop position = [] := by
        obtain hzero | hdrop := List.take_eq_nil_iff.mp hend
        · omega
        · exact hdrop
      rw [hdrop, ZipOutputStream.write_nil]
    · rename_i hread
      have hlength := List.length_pos_of_ne_nil hread
      have hle := hprefix.length_le
      rw [List.length_drop] at hle
      rw [ih (by omega), ZipOutputStream.write_write, ← List.drop_drop,
        List.prefix_iff_eq_append.mp hprefix]

theorem substring_rest (a b : List Char) :
    Java.substring (a ++ '/' :: b) (a.length + 1) (a ++ '/' :: b).length = .ok b := by
  have hsubstring := Java.substring_append (a ++ ['/']) b []
  have hlength : ((a ++ ['/']).length + b.length : Nat) = (a ++ '/' :: b).length := by
    simp only [List.length_append, List.length_cons, List.length_nil]
    omega
  rw [hlength, List.append_nil, List.append_assoc] at hsubstring
  simpa using hsubstring

theorem zipFile_eq {text : List Char} (hfile : s.find f.location = some (.file content))
    (hpath : f.path = base.path ++ '/' :: text) (hnew : text ∉ zos.entries.map (·.1)) :
    zipFile reads s base f zos = some (.ok ⟨(text, content) :: zos.entries⟩) := by
  have hput : putFile s base f zos = .ok (content, ⟨(text, []) :: zos.entries⟩) := by
    rw [putFile, fileInputStream, hfile]
    simp only [Except.bind]
    rw [hpath, substring_rest]
    simp only [ZipOutputStream.putNextEntry, if_neg hnew]
    rfl
  rw [zipFile, hput]
  simp only
  rw [copy_eq (by omega)]
  simp

/-! ### The files below a directory -/

def relative (p : Path) : List Char := join '/' (p.map String.toList)

def IsZipped (s : FileStore) (d p : Path) (content : List UInt8) : Prop :=
  s.find (d ++ p) = some (.file content) ∧
    ∀ name, p.getLast? = some name → ¬ ".zip".toList <:+ name.toList

def EntryBelow (s : FileStore) (d : Path) (pre : List Char) (name : String)
    (e : List Char × List UInt8) : Prop :=
  ∃ p, IsZipped s d (name :: p) e.2 ∧ e.1 = pre ++ relative (name :: p)

theorem relative_cons (hp : p ≠ []) (name : String) :
    relative (name :: p) = name.toList ++ '/' :: relative p := by
  rw [relative, List.map_cons, join_cons (by simpa using hp), relative]

theorem relative_singleton (name : String) : relative [name] = name.toList := by
  simp [relative, join]

theorem slash_not_mem (h : isName name) : '/' ∉ name.toList := by
  simp only [isName, Bool.and_eq_true, decide_eq_true_eq] at h
  exact h.1.2

theorem relative_inj (hp : ∀ name ∈ p, isName name) (hq : ∀ name ∈ q, isName name) (hpne : p ≠ [])
    (hqne : q ≠ []) (h : relative p = relative q) : p = q := by
  have hparts (r : Path) (hr : ∀ name ∈ r, isName name) (hne : r ≠ []) :
      (relative r).splitOn '/' = r.map String.toList := by
    refine splitOn_join (by simpa using hne) fun part hpart => ?_
    obtain ⟨name, hname, rfl⟩ := List.mem_map.mp hpart
    exact slash_not_mem (hr name hname)
  have hmap : p.map String.toList = q.map String.toList := by
    rw [← hparts p hp hpne, ← hparts q hq hqne, h]
  exact List.map_injective_iff.mpr (fun _ _ => String.toList_inj.mp) hmap

theorem IsZipped.isName (h : IsZipped s d p content) : ∀ name ∈ p, isName name := by
  intro name hname
  exact s.named _ (FileStore.find_eq_some.mp h.1).1 name (List.mem_append_right _ hname)

theorem IsZipped.cons_iff :
    IsZipped s (d ++ [name]) p content ∧ p ≠ [] ↔ IsZipped s d (name :: p) content ∧ p ≠ [] := by
  refine and_congr_left fun hp => ?_
  obtain ⟨first, rest, rfl⟩ := List.exists_cons_of_ne_nil hp
  rw [IsZipped, IsZipped, List.append_assoc, List.singleton_append, List.getLast?_cons_cons]

theorem isDirectory_of_zipped (h : IsZipped s d (name :: p) content) (hp : p ≠ []) :
    s.isDirectory (d ++ [name]) := by
  obtain ⟨hmem, -⟩ := FileStore.find_eq_some.mp h.1
  obtain ⟨other, hother, -⟩ := FileStore.exists_mem_list (p := d ++ [name]) hmem
    ⟨p, by simp⟩ (by simpa using hp)
  exact FileStore.isDirectory_of_mem_list hother

theorem entryBelow_names {e' : List Char × List UInt8} {name' : String}
    (h : EntryBelow s d pre name e) (h' : EntryBelow s d pre name' e') (hsame : e.1 = e'.1) :
    name = name' := by
  obtain ⟨p, hp, he⟩ := h
  obtain ⟨p', hp', he'⟩ := h'
  rw [he, he'] at hsame
  have hpath := relative_inj hp.isName hp'.isName (by simp) (by simp)
    (List.append_cancel_left hsame)
  exact (List.cons.inj hpath).1

theorem ne_nil_of_zipped (hdir : s.isDirectory d) (h : IsZipped s d p content) : p ≠ [] := by
  rintro rfl
  have hfile := h.1
  rw [List.append_nil, FileStore.isDirectory_iff_find.mp hdir] at hfile
  cases hfile

theorem entryBelow_iff (hdir : s.isDirectory d) :
    (∃ name ∈ s.list d, EntryBelow s d pre name e) ↔
      ∃ p, IsZipped s d p e.2 ∧ e.1 = pre ++ relative p := by
  constructor
  · intro ⟨name, _, p, hp, he⟩
    exact ⟨name :: p, hp, he⟩
  · intro ⟨p, hp, he⟩
    obtain ⟨name, rest, rfl⟩ := List.exists_cons_of_ne_nil (ne_nil_of_zipped hdir hp)
    have hname : d ++ [name] ∈ s.paths :=
      FileStore.front_mem_paths (FileStore.find_eq_some.mp hp.1).1 ⟨rest, by simp⟩
    exact ⟨name, FileStore.mem_list.mpr hname, rest, hp, he⟩

theorem entryBelow_directory (pre : List Char) (e : List Char × List UInt8)
    (hdir : s.isDirectory (d ++ [name])) :
    EntryBelow s d pre name e ↔ ∃ other ∈ s.list (d ++ [name]),
      EntryBelow s (d ++ [name]) (pre ++ name.toList ++ ['/']) other e := by
  rw [entryBelow_iff hdir]
  constructor
  · intro ⟨p, hp, he⟩
    have hne : p ≠ [] := by
      rintro rfl
      exact ne_nil_of_zipped (p := []) hdir ⟨by simpa using hp.1, by simp⟩ rfl
    refine ⟨p, (IsZipped.cons_iff.mpr ⟨hp, hne⟩).1, ?_⟩
    rw [he, relative_cons hne]
    simp
  · intro ⟨p, hp, he⟩
    have hne := ne_nil_of_zipped hdir hp
    refine ⟨p, (IsZipped.cons_iff.mp ⟨hp, hne⟩).1, ?_⟩
    rw [he, relative_cons hne]
    simp

theorem entryBelow_file (pre : List Char) (e : List Char × List UInt8)
    (hfile : s.find (d ++ [name]) = some (.file content))
    (hzip : ¬ ".zip".toList <:+ name.toList) :
    EntryBelow s d pre name e ↔ e = (pre ++ name.toList, content) := by
  constructor
  · intro ⟨p, hp, he⟩
    by_cases hne : p = []
    · subst hne
      have hcontent := hp.1
      rw [hfile] at hcontent
      cases hcontent
      rw [relative_singleton] at he
      exact Prod.ext he rfl
    · have hdir := (FileStore.isDirectory_iff.mp (isDirectory_of_zipped hp hne)).2
      rw [(FileStore.find_eq_some.mp hfile).2] at hdir
      cases hdir
  · rintro rfl
    refine ⟨[], ⟨hfile, fun other hother => ?_⟩, by rw [relative_singleton]⟩
    rw [List.getLast?_singleton, Option.some_inj] at hother
    rwa [← hother]

theorem not_entryBelow_zip (hdir : ¬ s.isDirectory (d ++ [name]))
    (hzip : ".zip".toList <:+ name.toList) : ¬ EntryBelow s d pre name e := by
  intro ⟨p, hp, _⟩
  by_cases hne : p = []
  · subst hne
    exact hp.2 name List.getLast?_singleton hzip
  · exact hdir (isDirectory_of_zipped hp hne)

/-! ### The recursion -/

/-- The archive has grown by these entries, under names of their own. -/
structure Grown (zos : ZipOutputStream) (r : Option (Except Throwable ZipOutputStream))
    (P : List Char × List UInt8 → Prop) (new : List (List Char × List UInt8)) : Prop where
  result : r = some (.ok ⟨new ++ zos.entries⟩)
  nodup : (new.map (·.1)).Nodup
  mem : ∀ e, e ∈ new ↔ P e

def Fresh (zos : ZipOutputStream) (P : List Char × List UInt8 → Prop) : Prop :=
  ∀ e, P e → e.1 ∉ zos.entries.map (·.1)

theorem zipChildren_grown
    {call : File → ZipOutputStream → Option (Except Throwable ZipOutputStream)}
    {names : List String}
    (hcall : ∀ name ∈ names, ∀ zos, Fresh zos (EntryBelow s f.location pre name) →
      ∃ new, Grown zos (call (f.child name) zos) (EntryBelow s f.location pre name) new)
    (hnames : names.Nodup)
    (hfresh : Fresh zos fun e => ∃ name ∈ names, EntryBelow s f.location pre name e) :
    ∃ new, Grown zos (zipChildren call (names.map f.child) zos)
      (fun e => ∃ name ∈ names, EntryBelow s f.location pre name e) new := by
  induction names using List.reverseRecOn with
  | nil => exact ⟨[], rfl, by simp, by simp⟩
  | append_singleton names name ih =>
    obtain ⟨hnodup, -, hnew⟩ := List.nodup_append.mp hnames
    obtain ⟨front, hfront⟩ := ih (fun other hother => hcall other (List.mem_append_left _ hother))
      hnodup fun e ⟨other, hother, he⟩ => hfresh e ⟨other, List.mem_append_left _ hother, he⟩
    -- the entries so far are of other names in the directory
    have hapart (e e' : List Char × List UInt8) (he : EntryBelow s f.location pre name e)
        (he' : e' ∈ front) : e.1 ≠ e'.1 := by
      intro hsame
      obtain ⟨other, hother, hbelow⟩ := (hfront.mem e').mp he'
      exact hnew other hother name (by simp) (entryBelow_names he hbelow hsame).symm
    have hfresh' : Fresh ⟨front ++ zos.entries⟩ (EntryBelow s f.location pre name) := by
      intro e he hmem
      rw [List.map_append, List.mem_append] at hmem
      obtain hmem | hmem := hmem
      · obtain ⟨e', he', hsame⟩ := List.mem_map.mp hmem
        exact hapart e e' he he' hsame.symm
      · exact hfresh e ⟨name, by simp, he⟩ hmem
    obtain ⟨new, hgrown⟩ := hcall name (by simp) _ hfresh'
    refine ⟨new ++ front, ?_, ?_, fun e => ?_⟩
    · have hbefore := hfront.result
      rw [zipChildren] at hbefore ⊢
      rw [List.map_append, List.foldlM_append, hbefore, List.append_assoc]
      simpa using hgrown.result
    · rw [List.map_append, List.nodup_append]
      refine ⟨hgrown.nodup, hfront.nodup, fun text htext other hother => ?_⟩
      obtain ⟨e, he, rfl⟩ := List.mem_map.mp htext
      obtain ⟨e', he', rfl⟩ := List.mem_map.mp hother
      exact hapart e e' ((hgrown.mem e).mp he) he'
    · rw [List.mem_append, hgrown.mem, hfront.mem]
      simp only [List.mem_append, List.mem_singleton]
      constructor
      · rintro (he | ⟨other, hother, he⟩)
        · exact ⟨name, .inr rfl, he⟩
        · exact ⟨other, .inl hother, he⟩
      · rintro ⟨other, hother | rfl, he⟩
        · exact .inr ⟨other, hother, he⟩
        · exact .inl he

theorem child_path (hroot : f.path ≠ ['/']) (name : String) :
    (f.child name).path = f.path ++ '/' :: name.toList := by
  rw [File.child, if_neg hroot]

theorem child_path_ne (hroot : f.path ≠ ['/']) (hname : isName name) :
    (f.child name).path ≠ ['/'] := by
  have hne : name.toList ≠ [] := by
    intro hempty
    simp [isName, String.toList_eq_nil_iff.mp hempty] at hname
  intro hsame
  have hlength := congrArg List.length hsame
  have hpos := List.length_pos_of_ne_nil hne
  rw [child_path hroot, List.length_append, List.length_cons, List.length_singleton] at hlength
  omega

theorem getName_child (hroot : f.path ≠ ['/']) (hname : isName name) :
    (f.child name).getName = name.toList := by
  rw [File.getName, child_path hroot, List.rtakeWhile, List.reverse_append, List.reverse_cons,
    List.append_assoc, List.takeWhile_append_of_pos]
  · simp
  · intro c hc
    have hne : c ≠ '/' := fun hslash =>
      slash_not_mem hname (hslash ▸ List.mem_reverse.mp hc)
    simpa using hne

/-- The files below a directory are put under their paths from the base on. -/
theorem zip_grown {fuel : Nat} (hdepth : s.DepthWithin f.location fuel)
    (hdir : s.isDirectory f.location) (hroot : f.path ≠ ['/'])
    (hpre : f.path ++ ['/'] = base.path ++ '/' :: pre)
    (hfresh : Fresh zos fun e => ∃ name ∈ s.list f.location, EntryBelow s f.location pre name e) :
    ∃ new, Grown zos (zip reads s base fuel f zos)
      (fun e => ∃ name ∈ s.list f.location, EntryBelow s f.location pre name e) new := by
  induction fuel generalizing f pre zos with
  | zero => exact absurd (hdepth.pos (FileStore.isDirectory_iff.mp hdir).1) (Nat.lt_irrefl 0)
  | succ fuel ih =>
    rw [zip, listFiles, if_pos hdir, Option.getD_some]
    refine zipChildren_grown (fun name hmem zos hfresh => ?_) (FileStore.list_nodup s f.location)
      hfresh
    have hname := FileStore.isName_of_mem_list hmem
    have hpath : (f.child name).path = base.path ++ '/' :: (pre ++ name.toList) := by
      rw [child_path hroot, ← List.cons_append, ← List.append_assoc, ← hpre]
      simp
    by_cases hchild : s.isDirectory (f.child name).location
    · rw [if_pos hchild]
      have hbelow (e) := entryBelow_directory pre e hchild
      obtain ⟨new, hgrown⟩ : ∃ new, Grown zos (zip reads s base fuel (f.child name) zos)
          (fun e => ∃ other ∈ s.list (f.child name).location,
            EntryBelow s (f.child name).location (pre ++ name.toList ++ ['/']) other e) new := by
        refine ih (hdepth.child name) hchild ?_ ?_ fun e he => hfresh e ((hbelow e).mpr he)
        · exact child_path_ne hroot hname
        · rw [hpath]
          simp
      exact ⟨new, hgrown.result, hgrown.nodup, fun e => (hgrown.mem e).trans (hbelow e).symm⟩
    · rw [if_neg hchild]
      by_cases hzip : ".zip".toList <:+ name.toList
      · rw [getName_child hroot hname, if_pos (List.isSuffixOf_iff_suffix.mpr hzip)]
        refine ⟨[], rfl, by simp, fun e => ?_⟩
        simpa using not_entryBelow_zip hchild hzip
      · rw [getName_child hroot hname, if_neg (by rwa [List.isSuffixOf_iff_suffix])]
        obtain ⟨content, hfile⟩ := FileStore.exists_content (FileStore.mem_list.mp hmem) hchild
        have hbelow (e) := entryBelow_file pre e hfile hzip
        refine ⟨[(pre ++ name.toList, content)], ?_, by simp, fun e => ?_⟩
        · exact zipFile_eq hfile hpath (hfresh _ ((hbelow _).mpr rfl))
        · rw [List.mem_singleton, hbelow]

theorem zip_succ {fuel : Nat} {r : Except Throwable ZipOutputStream}
    (h : zip reads s base fuel f zos = some r) : zip reads s base (fuel + 1) f zos = some r := by
  induction fuel generalizing f zos r with
  | zero => cases h
  | succ fuel ih =>
    rw [zip] at h ⊢
    refine foldlM_some_mono (fun r f r' hr' => ?_) h
    cases r with
    | error e => exact hr'
    | ok zos =>
      simp only at hr' ⊢
      split at hr'
      · rename_i hdir
        rw [if_pos hdir]
        exact ih hr'
      · rename_i hdir
        rwa [if_neg hdir]

/-- The archive of a directory has one entry for each file in it, whatever its depth, that is no
archive by its name: the entry's name is the file's path from the directory on, and its bytes are
the file's. -/
theorem zipDirectory_entries (reads : Reads) {s s' : FileStore} {directory archive : File}
    (hdir : s.isDirectory directory.location) (hroot : directory.path ≠ ['/'])
    (hopen : s.openFile archive.location = some s')
    (houtside : directory.location <+: archive.location →
      ∃ name, archive.location.getLast? = some name ∧ ".zip".toList <:+ name.toList) :
    ∃ zos, (∃ enough, ∀ fuel ≥ enough,
        zipDirectory reads s directory archive fuel = some (.ok zos)) ∧
      (zos.entries.map (·.1)).Nodup ∧
      ∀ name content, (name, content) ∈ zos.entries ↔
        ∃ p, IsZipped s directory.location p content ∧ name = relative p := by
  obtain ⟨harchive, hfind⟩ := FileStore.openFile_eq_some hopen
  have hdir' : s'.isDirectory directory.location := by
    rw [FileStore.isDirectory_iff_find] at hdir ⊢
    rwa [hfind]
    rintro hsame
    exact harchive (hsame ▸ hdir)
  -- the archive itself is passed over
  have hzipped (p : Path) (content : List UInt8) :
      IsZipped s' directory.location p content ↔ IsZipped s directory.location p content := by
    by_cases hp : directory.location ++ p = archive.location
    · obtain ⟨name, hlast, hzip⟩ := houtside ⟨p, hp⟩
      have hexcluded (store : FileStore) (hstore : store.isDirectory directory.location) :
          ¬ IsZipped store directory.location p content := by
        intro h
        have hlast' : p.getLast? = some name := by
          rw [← hlast, ← hp, List.getLast?_append_of_ne_nil _ (ne_nil_of_zipped hstore h)]
        exact h.2 name hlast' hzip
      exact iff_of_false (hexcluded s' hdir') (hexcluded s hdir)
    · rw [IsZipped, hfind _ hp, IsZipped]
  obtain ⟨enough, hdepth⟩ := s'.exists_depthWithin directory.location
  obtain ⟨new, hgrown⟩ : ∃ new, Grown ⟨[]⟩ (zip reads s' directory enough directory ⟨[]⟩)
      (fun e => ∃ name ∈ s'.list directory.location,
        EntryBelow s' directory.location [] name e) new :=
    zip_grown (hdepth enough (Nat.le_refl _)) hdir' hroot (by simp) fun e _ hmem => by cases hmem
  refine ⟨⟨new⟩, ⟨enough, fun fuel hfuel => ?_⟩, hgrown.nodup, fun name content => ?_⟩
  · rw [zipDirectory, hopen]
    simp only
    induction fuel, hfuel using Nat.le_induction with
    | base => simpa using hgrown.result
    | succ fuel _ ih => exact zip_succ ih
  · rw [hgrown.mem, entryBelow_iff hdir']
    simp only [hzipped, List.nil_append]

/-- Two bytes at a time, as far as there are two. -/
def pairs : Reads := ⟨fun _ _ => 2, fun _ _ => Nat.two_pos, fun _ _ => by decide⟩

def seven : File := ⟨"/tmp/7".toList, ["tmp", "7"]⟩

def report : File := ⟨"/tmp/7/out/report.zip".toList, ["tmp", "7", "out", "report.zip"]⟩

theorem zipDirectory_entries_work :
    ∃ zos, (∃ enough, ∀ fuel ≥ enough,
        zipDirectory pairs work seven report fuel = some (.ok zos)) ∧
      (zos.entries.map (·.1)).Nodup ∧
      ∀ name content, (name, content) ∈ zos.entries ↔
        ∃ p, IsZipped work seven.location p content ∧ name = relative p :=
  have hopen : (work.openFile report.location).isSome := by decide +kernel
  zipDirectory_entries pairs (by decide) (by decide) (Option.some_get hopen).symm
    fun _ => ⟨"report.zip", rfl, by decide +kernel⟩

example : zipDirectory pairs work seven report 3 =
    some (.ok ⟨[("in.txt".toList, [1, 2, 3])]⟩) := by decide +kernel

end InsightsAssist.TempFileUtil
