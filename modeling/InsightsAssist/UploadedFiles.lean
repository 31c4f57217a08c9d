import InsightsAssist.FileSecurity
import InsightsAssist.JavaStrings

/-! What an upload leaves behind: the first file of a multipart request, and the map of the form
parameters, in which the name of that file has a key among the names that clients choose. -/
namespace InsightsAssist.UploadedFiles
open FileSecurity Java

def FILE_NAME : String := "__fname_"

/-- An item that is a file. `opens` and `writes` tell whether its stream opens, and whether the
disk takes it under its name. -/
structure Upload where
  getName : Except Throwable (Option String)
  contentType : Option String
  isInMemory : Bool
  content : List UInt8
  opens : Bool
  writes : Bool

/-- A request has no fields without a name, but the name may be empty. -/
inductive FileItem where
  | formField (fieldName value : String)
  | file (item : Upload)

structure LocalFile where
  tempDir : String
  fileName : String
  deriving DecidableEq, Repr

/-- What `get` answers for each key of the map, and the files written. -/
structure State where
  formParams : String → Option String
  files : List (LocalFile × List UInt8)

def State.put (k : String) (v : Option String) (s : State) : State :=
  { s with formParams := Function.update s.formParams k v }

def isSeparator (c : Char) : Bool := c = '/' || c = '\\'

/-- What stands behind the last separator, of either kind. -/
def baseName (path : String) : String :=
  String.ofList (path.toList.rtakeWhile fun c => !isSeparator c)

/-- These resolve to directories, which cannot be written. -/
def namesDirectory (fileName : String) : Bool := fileName ∈ ["", ".", ".."]

def Upload.inputStream (item : Upload) : InputStream := ⟨item.isInMemory, item.content, 0⟩

def Upload.getInputStream (item : Upload) : Java State InputStream :=
  if item.opens then pure item.inputStream else throw (.external "IOException")

def Upload.write (item : Upload) (localFile : LocalFile) : Java State Unit :=
  if item.writes && !namesDirectory localFile.fileName then
    modify fun s => { s with files := s.files ++ [(localFile, item.content)] }
  else throw (.external "FileNotFoundException")

def announcement (tempDir : String) (item : Upload) (fileName : Option String) : String :=
  let filename := fileName.getD "null"
  let contentType := item.contentType.getD "null"
  s!"User uploaded file [filename={filename}, contentType={contentType}" ++
    s!", isInMemory={item.isInMemory}, sizeInBytes={item.content.length}" ++
    s!", datadir={baseName tempDir}]"

/-- The try block of `writeLocalFile`. -/
def writeChecked (item : Upload) (localFile : LocalFile) : Java State (Option LocalFile) := do
  let is ← item.getInputStream
  if isFileSecure is localFile.fileName then do
    item.write localFile
    return some localFile
  else return none

def writeLocalFile (fileKey tempDir : String) (item : Upload) (fileName : Option String) :
    Java State (Option LocalFile) := do
  let fileName := fileName.map baseName
  modify (State.put fileKey fileName)
  info (announcement tempDir item fileName).toList
  let fileName ← deref fileName
  tryCatch (writeChecked item ⟨tempDir, fileName⟩) fun _ => throw (.external "IAException")

/-- What the log gets of a form field; not those whose name starts with an underscore. -/
def logEntry (fieldName value : String) : List Char :=
  if fieldName.toList.head? = some '_' then []
  else fieldName.toList ++ "=".toList ++ value.toList ++ ";".toList

/-- The first file of the loop: null, or an exception that is caught, ends it. -/
def writeUpload (tempDir : String) (item : Upload) : Java State (Option LocalFile) :=
  tryCatch (do
      let fileName ← MonadExcept.ofExcept item.getName
      writeLocalFile FILE_NAME tempDir item fileName)
    fun e => if e = .external "IAException" then return none else throw e

/-- The loop; none where the method returns false in it. -/
def processItems (tempDir : String) : List FileItem → Bool → List Char →
    Java State (Option (Bool × List Char))
  | [], fileWritten, sb => return some (fileWritten, sb)
  | .formField k v :: items, fileWritten, sb => do
    modify (State.put k (some v))
    if k.toList = [] then throw (.indexOutOfBounds "String index out of range: 0")
    else processItems tempDir items fileWritten (sb ++ logEntry k v)
  | .file _ :: items, true, sb => processItems tempDir items true sb
  | .file item :: items, false, sb => do
    match ← writeUpload tempDir item with
    | none => return none
    | some _ => processItems tempDir items true sb

def writeLocal (tempDir : String) (items : List FileItem) : Java State Bool :=
  match items with
  | [] => return false
  | items => do
    match ← processItems tempDir items false [] with
    | none => return false
    | some (fileWritten, sb) => do
      info ("File upload form params:".toList ++ sb)
      return fileWritten

/-! ### What an upload should leave -/

def lastValue (k : String) : List FileItem → Option String
  | [] => none
  | .formField fieldName v :: items =>
    (lastValue k items).or (if fieldName = k then some v else none)
  | .file _ :: items => lastValue k items

def firstFile : List FileItem → Option Upload
  | [] => none
  | .formField _ _ :: items => firstFile items
  | .file item :: _ => some item

def behindFirstFile : List FileItem → List FileItem
  | [] => []
  | .formField _ _ :: items => behindFirstFile items
  | .file _ :: items => items

/-- One file is written, the first of the request, in the directory under its base name; it has
passed the check, and the map has its name and the last value of every other field. -/
structure Stored (tempDir : String) (items : List FileItem) (s : State) (item : Upload)
    (fileName : String) : Prop where
  first : firstFile items = some item
  name : item.getName = .ok (some fileName)
  files : s.files = [(⟨tempDir, baseName fileName⟩, item.content)]
  within : (∀ c ∈ (baseName fileName).toList, ¬ isSeparator c) ∧
    ¬ namesDirectory (baseName fileName)
  secure : isFileSecure item.inputStream (baseName fileName)
  stored : s.formParams FILE_NAME = some (baseName fileName)
  fields : ∀ k v, k ≠ FILE_NAME → lastValue k items = some v → s.formParams k = some v

def StoresUpload (tempDir : String) (formParams : String → Option String)
    (items : List FileItem) : Prop :=
  let r := (writeLocal tempDir items).run ⟨formParams, []⟩
  r.1 = .ok true → ∃ item fileName, Stored tempDir items r.2 item fileName

def logged : List FileItem → List Char
  | [] => []
  | .formField k v :: items => logEntry k v ++ logged items
  | .file _ :: items => logged items

/-- A file that has a name, opens, passes the check and can be written, and whose announcement can
be formatted. -/
structure Upload.Taken (tempDir : String) (item : Upload) (fileName : String) : Prop where
  name : item.getName = .ok (some fileName)
  announced : formats (announcement tempDir item (some (baseName fileName))).toList
  opens : item.opens
  secure : isFileSecure item.inputStream (baseName fileName)
  writes : item.writes && !namesDirectory (baseName fileName)

/-- The requests for which the method returns true: every field has a name, the first file is
taken, and the log of the fields can be formatted. -/
structure Accepted (tempDir : String) (items : List FileItem) (item : Upload)
    (fileName : String) : Prop where
  named : ∀ v, .formField "" v ∉ items
  first : firstFile items = some item
  taken : item.Taken tempDir fileName
  reported : formats ("File upload form params:".toList ++ logged items)

variable {tempDir fileName k v : String} {item : Upload} {items : List FileItem} {s t : State}
  {sb : List Char}

/-! ### The file -/

def State.written (tempDir : String) (item : Upload) (fileName : String) (s : State) : State :=
  { s.put FILE_NAME (some (baseName fileName)) with
    files := s.files ++ [(⟨tempDir, baseName fileName⟩, item.content)] }

theorem getInputStream_eq_ok {is : InputStream} : item.getInputStream.run s = (.ok is, t) ↔
    item.opens ∧ item.inputStream = is ∧ s = t := by
  by_cases h : item.opens <;> simp [Upload.getInputStream, h]

theorem write_eq_ok {localFile : LocalFile} {u : Unit} :
    (item.write localFile).run s = (.ok u, t) ↔
      (item.writes && !namesDirectory localFile.fileName) ∧
        { s with files := s.files ++ [(localFile, item.content)] } = t := by
  rw [Upload.write, Prog.run_ite]
  by_cases h : item.writes && !namesDirectory localFile.fileName
  · simp [h]
  · simp [h]

theorem writeChecked_eq_ok {localFile localFile' : LocalFile} :
    (writeChecked item localFile).run s = (.ok (some localFile'), t) ↔
      item.opens ∧ isFileSecure item.inputStream localFile.fileName ∧
        (item.writes && !namesDirectory localFile.fileName) ∧ localFile = localFile' ∧
        { s with files := s.files ++ [(localFile, item.content)] } = t := by
  constructor
  · intro h
    obtain ⟨is, _, hget, h⟩ := Prog.run_bind_eq_ok.mp h
    obtain ⟨hopens, rfl, rfl⟩ := getInputStream_eq_ok.mp hget
    rw [Prog.run_ite] at h
    split at h
    · obtain ⟨_, _, hwrite, h⟩ := Prog.run_bind_eq_ok.mp h
      obtain ⟨hwrites, rfl⟩ := write_eq_ok.mp hwrite
      cases h
      exact ⟨hopens, ‹_›, hwrites, rfl, rfl⟩
    · cases h
  · intro ⟨hopens, hsecure, hwrites, hlocal, ht⟩
    refine Prog.run_bind_eq_ok.mpr ⟨_, _, getInputStream_eq_ok.mpr ⟨hopens, rfl, rfl⟩, ?_⟩
    rw [if_pos hsecure]
    exact Prog.run_bind_eq_ok.mpr ⟨(), t, write_eq_ok.mpr ⟨hwrites, ht⟩, by rw [hlocal]; rfl⟩

theorem writeLocalFile_eq_ok {localFile : LocalFile} {name : Option String} :
    (writeLocalFile FILE_NAME tempDir item name).run s = (.ok (some localFile), t) ↔
      ∃ fileName, name = some fileName ∧
        formats (announcement tempDir item (some (baseName fileName))).toList ∧ item.opens ∧
        isFileSecure item.inputStream (baseName fileName) ∧
        (item.writes && !namesDirectory (baseName fileName)) ∧
        localFile = ⟨tempDir, baseName fileName⟩ ∧ t = s.written tempDir item fileName := by
  rw [writeLocalFile, Prog.run_bind_ok (Prog.run_modify _ s)]
  constructor
  · intro h
    obtain ⟨_, _, hinfo, h⟩ := Prog.run_bind_eq_ok.mp h
    obtain ⟨hformats, rfl⟩ := info_eq_ok.mp hinfo
    obtain ⟨base, _, hderef, h⟩ := Prog.run_bind_eq_ok.mp h
    obtain ⟨hbase, rfl⟩ := deref_eq_ok.mp hderef
    obtain ⟨fileName, rfl, rfl⟩ := Option.map_eq_some_iff.mp hbase
    obtain h | ⟨e, u, -, h⟩ := Prog.run_tryCatch_eq_ok.mp h
    · obtain ⟨hopens, hsecure, hwrites, hlocal, ht⟩ := writeChecked_eq_ok.mp h
      exact ⟨fileName, rfl, hformats, hopens, hsecure, hwrites, hlocal.symm, ht.symm⟩
    · cases h
  · intro ⟨fileName, hname, hformats, hopens, hsecure, hwrites, hlocal, ht⟩
    subst hname
    rw [Option.map_some, Prog.run_bind_ok (info_of_formats hformats _),
      Prog.run_bind_ok (deref_some _ _)]
    refine Prog.run_tryCatch_eq_ok.mpr (.inl ?_)
    exact writeChecked_eq_ok.mpr ⟨hopens, hsecure, hwrites, hlocal.symm, ht.symm⟩

theorem writeUpload_eq_ok {localFile : LocalFile} :
    (writeUpload tempDir item).run s = (.ok (some localFile), t) ↔
      ∃ fileName, item.Taken tempDir fileName ∧ localFile = ⟨tempDir, baseName fileName⟩ ∧
        t = s.written tempDir item fileName := by
  rw [writeUpload, Prog.run_tryCatch_eq_ok]
  constructor
  · intro h
    obtain h | ⟨e, u, -, h⟩ := h
    · obtain ⟨name, u, hget, h⟩ := Prog.run_bind_eq_ok.mp h
      obtain ⟨fileName, rfl, hformats, hopens, hsecure, hwrites, rfl, rfl⟩ :=
        writeLocalFile_eq_ok.mp h
      obtain ⟨hname, rfl⟩ := ofExcept_eq_ok.mp hget
      exact ⟨fileName, ⟨hname, hformats, hopens, hsecure, hwrites⟩, rfl, rfl⟩
    · rw [Prog.run_ite] at h
      split at h <;> cases h
  · intro ⟨fileName, htaken, hlocal, ht⟩
    refine .inl (Prog.run_bind_eq_ok.mpr ⟨some fileName, s, ?_, ?_⟩)
    · exact ofExcept_eq_ok.mpr ⟨htaken.name, rfl⟩
    · exact writeLocalFile_eq_ok.mpr ⟨fileName, rfl, htaken.announced, htaken.opens,
        htaken.secure, htaken.writes, hlocal, ht⟩

/-! ### The items one by one -/

def State.putFields (items : List FileItem) (s : State) : State :=
  { s with formParams := fun k => (lastValue k items).or (s.formParams k) }

def State.store (tempDir : String) (items : List FileItem) (item : Upload) (fileName : String)
    (s : State) : State where
  formParams k :=
    if k = FILE_NAME then
      (lastValue FILE_NAME (behindFirstFile items)).or (some (baseName fileName))
    else (lastValue k items).or (s.formParams k)
  files := s.files ++ [(⟨tempDir, baseName fileName⟩, item.content)]

theorem store_formParams (k : String) : (s.store tempDir items item fileName).formParams k =
    if k = FILE_NAME then
      (lastValue FILE_NAME (behindFirstFile items)).or (some (baseName fileName))
    else (lastValue k items).or (s.formParams k) := rfl

theorem or_update (k k' v : String) (formParams : String → Option String) (o : Option String) :
    o.or (Function.update formParams k (some v) k') =
      (o.or (if k = k' then some v else none)).or (formParams k') := by
  by_cases hk : k = k'
  · subst hk
    cases o <;> simp
  · rw [Function.update_of_ne (Ne.symm hk), if_neg hk, Option.or_none]

theorem putFields_cons (k v : String) (items : List FileItem) (s : State) :
    (s.put k (some v)).putFields items = s.putFields (.formField k v :: items) := by
  have hparams : ∀ k', _ = _ := fun k' => or_update k k' v s.formParams (lastValue k' items)
  simp only [State.putFields, State.put, lastValue, hparams]

theorem store_cons (k v : String) (items : List FileItem) (s : State) :
    (s.put k (some v)).store tempDir items item fileName =
      s.store tempDir (.formField k v :: items) item fileName := by
  have hparams : ∀ k', _ = _ := fun k' => or_update k k' v s.formParams (lastValue k' items)
  simp only [State.store, State.put, lastValue, hparams, behindFirstFile]

theorem store_file (items : List FileItem) (s : State) :
    (s.written tempDir item fileName).putFields items =
      s.store tempDir (.file item :: items) item fileName := by
  have hparams : ∀ k, (lastValue k items).or
      (Function.update s.formParams FILE_NAME (some (baseName fileName)) k) =
      if k = FILE_NAME then (lastValue FILE_NAME items).or (some (baseName fileName))
      else (lastValue k items).or (s.formParams k) := by
    intro k
    by_cases hk : k = FILE_NAME
    · rw [if_pos hk, hk, Function.update_self]
    · rw [if_neg hk, Function.update_of_ne hk]
  simp only [State.putFields, State.written, State.put, State.store, lastValue, hparams,
    behindFirstFile]

theorem named_cons : (∀ v', .formField "" v' ∉ FileItem.formField k v :: items) ↔
    k ≠ "" ∧ ∀ v', .formField "" v' ∉ items := by
  simp only [List.mem_cons, FileItem.formField.injEq, not_or, not_and, forall_and]
  refine and_congr_left fun _ => ⟨fun h hk => h v hk.symm rfl, fun h v' hk => absurd hk.symm h⟩

theorem processItems_formField (written : Bool) {r : Option (Bool × List Char)} :
    (processItems tempDir (.formField k v :: items) written sb).run s = (.ok r, t) ↔
      k ≠ "" ∧ (processItems tempDir items written (sb ++ logEntry k v)).run (s.put k (some v)) =
        (.ok r, t) := by
  have hempty : k.toList = [] ↔ k = "" := by simp
  rw [processItems, Prog.run_bind_ok (Prog.run_modify _ s), Prog.run_ite]
  by_cases hk : k = ""
  · rw [if_pos (hempty.mpr hk)]
    simp [hk]
  · rw [if_neg fun h => hk (hempty.mp h)]
    simp [hk]

theorem processItems_written {r : Option (Bool × List Char)} :
    (processItems tempDir items true sb).run s = (.ok r, t) ↔
      (∀ v, .formField "" v ∉ items) ∧ r = some (true, sb ++ logged items) ∧
        t = s.putFields items := by
  induction items generalizing sb s with
  | nil =>
    have hnone : s.putFields [] = s := rfl
    simp [processItems, logged, hnone, eq_comm]
  | cons i items ih =>
    cases i with
    | formField k v =>
      rw [processItems_formField, ih, named_cons, putFields_cons, and_assoc, logged,
        List.append_assoc]
    | file item =>
      have hnamed : (∀ v, .formField "" v ∉ FileItem.file item :: items) ↔
          ∀ v, .formField "" v ∉ items := by simp
      rw [hnamed]
      exact ih

theorem processItems_eq_ok {sb' : List Char} :
    (processItems tempDir items false sb).run s = (.ok (some (true, sb')), t) ↔
      ∃ item fileName, (∀ v, .formField "" v ∉ items) ∧ firstFile items = some item ∧
        item.Taken tempDir fileName ∧ sb' = sb ++ logged items ∧
        t = s.store tempDir items item fileName := by
  induction items generalizing sb s with
  | nil => simp [processItems, firstFile]
  | cons i items ih =>
    cases i with
    | formField k v =>
      rw [processItems_formField, ih, named_cons]
      simp only [store_cons, logged, firstFile, List.append_assoc, and_assoc, exists_and_left]
    | file item =>
      have hnamed : (∀ v, .formField "" v ∉ FileItem.file item :: items) ↔
          ∀ v, .formField "" v ∉ items := by simp
      rw [hnamed, processItems]
      constructor
      · intro h
        obtain ⟨localFile, u, hwrite, h⟩ := Prog.run_bind_eq_ok.mp h
        cases localFile with
        | none => cases h
        | some localFile =>
          obtain ⟨fileName, htaken, rfl, rfl⟩ := writeUpload_eq_ok.mp hwrite
          obtain ⟨hempty, hlogged, rfl⟩ := processItems_written.mp h
          cases hlogged
          exact ⟨item, fileName, hempty, rfl, htaken, rfl, store_file items s⟩
      · intro ⟨first, fileName, hempty, hfirst, htaken, hlogged, ht⟩
        cases hfirst
        have hwrite := (writeUpload_eq_ok (s := s)).mpr ⟨fileName, htaken, rfl, rfl⟩
        refine Prog.run_bind_eq_ok.mpr ⟨_, _, hwrite, ?_⟩
        exact processItems_written.mpr ⟨hempty, by rw [hlogged]; rfl, by rw [ht, store_file]⟩

theorem writeLocal_eq_true : (writeLocal tempDir items).run s = (.ok true, t) ↔
    ∃ item fileName, Accepted tempDir items item fileName ∧
      t = s.store tempDir items item fileName := by
  cases items with
  | nil =>
    simp only [writeLocal, Prog.run_pure, Prod.mk.injEq, Except.ok.injEq, Bool.false_eq_true,
      false_and, false_iff]
    rintro ⟨item, fileName, haccepted, -⟩
    cases haccepted.first
  | cons i items =>
    constructor
    · intro h
      obtain ⟨r, u, hitems, h⟩ := Prog.run_bind_eq_ok.mp h
      match r with
      | none => cases h
      | some (written, sb) =>
        obtain ⟨_, _, hinfo, h⟩ := Prog.run_bind_eq_ok.mp h
        obtain ⟨hformats, rfl⟩ := info_eq_ok.mp hinfo
        cases h
        obtain ⟨item, fileName, hnamed, hfirst, htaken, rfl, rfl⟩ := processItems_eq_ok.mp hitems
        exact ⟨item, fileName, ⟨hnamed, hfirst, htaken, hformats⟩, rfl⟩
    · intro ⟨item, fileName, haccepted, ht⟩
      refine Prog.run_bind_eq_ok.mpr ⟨some (true, logged (i :: items)), t, ?_, ?_⟩
      · exact processItems_eq_ok.mpr ⟨item, fileName, haccepted.named, haccepted.first,
          haccepted.taken, rfl, ht⟩
      · exact Prog.run_bind_eq_ok.mpr ⟨(), t, info_eq_ok.mpr ⟨haccepted.reported, rfl⟩, rfl⟩

/-! ### What is stored -/

theorem not_isSeparator_of_mem_baseName {c : Char} (h : c ∈ (baseName fileName).toList) :
    ¬ isSeparator c := by
  rw [baseName, String.toList_ofList] at h
  have hc := List.mem_rtakeWhile_imp h
  simpa using hc

/-- All of it but the key of the file's name holds whenever the method returns true. -/
theorem stored_iff (formParams : String → Option String)
    (h : Accepted tempDir items item fileName) :
    Stored tempDir items (State.store tempDir items item fileName ⟨formParams, []⟩) item fileName ↔
      ∀ v, lastValue FILE_NAME (behindFirstFile items) = some v → v = baseName fileName := by
  have hkey : (State.store tempDir items item fileName ⟨formParams, []⟩).formParams FILE_NAME =
      (lastValue FILE_NAME (behindFirstFile items)).or (some (baseName fileName)) := by
    rw [store_formParams, if_pos rfl]
  constructor
  · intro hstored v hv
    have hget := hstored.stored
    rw [hkey, hv] at hget
    exact Option.some.inj hget
  · intro hlast
    obtain ⟨hwrites, hdirectory⟩ := Bool.and_eq_true_iff.mp h.taken.writes
    refine ⟨h.first, h.taken.name, rfl, ⟨fun c hc => not_isSeparator_of_mem_baseName hc, ?_⟩,
      h.taken.secure, ?_, fun k v hk hv => ?_⟩
    · simpa using hdirectory
    · rw [hkey]
      cases hv : lastValue FILE_NAME (behindFirstFile items) with
      | none => rfl
      | some v => rw [hlast v hv]; rfl
    · have hother : (State.store tempDir items item fileName ⟨formParams, []⟩).formParams k =
          (lastValue k items).or (formParams k) := by
        rw [store_formParams, if_neg hk]
      rw [hother, hv]
      rfl

theorem Stored.accepted_eq {item' : Upload} {fileName' : String}
    (h : Stored tempDir items s item fileName) (h' : Accepted tempDir items item' fileName') :
    item = item' ∧ fileName = fileName' := by
  have hitem : item = item' := Option.some.inj (h.first.symm.trans h'.first)
  subst hitem
  have hname := h.name.symm.trans h'.taken.name
  simpa using hname

/-- For every request: the file and the map are as they should be iff no later field has taken
the key of the file's name, in the requests for which the method returns true. -/
theorem storesUpload_iff (tempDir : String) (formParams : String → Option String)
    (items : List FileItem) : StoresUpload tempDir formParams items ↔
      ∀ item fileName, Accepted tempDir items item fileName →
        ∀ v, lastValue FILE_NAME (behindFirstFile items) = some v → v = baseName fileName := by
  constructor
  · intro h item fileName haccepted
    have hrun : (writeLocal tempDir items).run ⟨formParams, []⟩ = (.ok true, _) :=
      writeLocal_eq_true.mpr ⟨item, fileName, haccepted, rfl⟩
    rw [StoresUpload, hrun] at h
    obtain ⟨item', fileName', hstored⟩ := h rfl
    obtain ⟨rfl, rfl⟩ := hstored.accepted_eq haccepted
    exact (stored_iff formParams haccepted).mp hstored
  · intro h htrue
    obtain ⟨item, fileName, haccepted, ht⟩ := writeLocal_eq_true.mp (Prod.ext htrue rfl)
    refine ⟨item, fileName, ?_⟩
    simp only [ht]
    exact (stored_iff formParams haccepted).mpr (h item fileName haccepted)

def note : Upload where
  getName := .ok (some "C:\\notes\\a.txt")
  contentType := some "text/plain"
  isInMemory := true
  content := [0x61]
  opens := true
  writes := true

/-- A field behind the file that has the key of its name. -/
def spoofed : List FileItem := [.file note, .formField "__fname_" "b.txt"]

theorem spoofed_not_stored : ¬ StoresUpload "/tmp/up" (fun _ => none) spoofed := by
  have hrun : ((writeLocal "/tmp/up" spoofed).run ⟨fun _ => none, []⟩).1 = .ok true ∧
      ((writeLocal "/tmp/up" spoofed).run ⟨fun _ => none, []⟩).2.files =
        [(⟨"/tmp/up", "a.txt"⟩, [0x61])] ∧
      ((writeLocal "/tmp/up" spoofed).run ⟨fun _ => none, []⟩).2.formParams FILE_NAME =
        some "b.txt" := by decide +kernel
  intro h
  obtain ⟨item, fileName, hstored⟩ := h hrun.1
  have hfiles := hstored.files
  have hname := hstored.stored
  simp only [hrun.2.1, List.cons.injEq, Prod.mk.injEq, LocalFile.mk.injEq] at hfiles
  rw [hrun.2.2, ← hfiles.1.1.2] at hname
  exact absurd hname (by decide)

end InsightsAssist.UploadedFiles
