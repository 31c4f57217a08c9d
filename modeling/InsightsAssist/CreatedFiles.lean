import InsightsAssist.ExportOrganisation
import InsightsAssist.FileTree
import InsightsAssist.PostProcessing

/-! The directories and files that the ids and names of requests lead to: of the report that a
completedReport callback asks for, and of the export of an organisation. -/
namespace InsightsAssist.CreatedFiles
open FileTree RetrieveReportPostProcess

def reportDir (clientTransactionId : Option String) : Path :=
  segments (filePath ++ clientTransactionId.getD "null")

def reportFile (clientTransactionId : Option String) : Path :=
  segments (fileName clientTransactionId "pdf")

/-- `autheticate` for an id, of which the retrieval of a report comes to one call at most;
`received` tells whether the stream of the report can be read. -/
def autheticate (clientTransactionId : Option String) (received : Bool) (fs : FileSystem) :
    FileSystem :=
  match fs.mkdirs (reportDir clientTransactionId) with
  | (true, fs') => if received then fs'.openOutputStream (reportFile clientTransactionId) else fs'
  | (false, fs') => fs'

variable {ρ : Type} (p : ExportOrganisation.Platform ρ) (workingDir : String)

/-- A path without a slash in front starts at the working directory. -/
def absolute (path : String) : Path :=
  if path.toList.head? = some '/' then segments path else segments (workingDir ++ "/" ++ path)

def tempDir (nextDirName : Int) : Path :=
  absolute workingDir (p.rootDir ++ "/" ++ toString nextDirName)

/-- The temporary directory, null if it cannot be made. -/
def createTempDir (nextDirName : Int) (fs : FileSystem) : Option Int × FileSystem :=
  match fs.create (tempDir p workingDir nextDirName) .directory with
  | some fs' => (some nextDirName, fs')
  | none => (none, fs)

def exportFile (fileName : Option Int) (name : String) : Path :=
  absolute workingDir (ExportOrganisation.path p fileName name)

/-- The export of an organisation; `executed` tells whether the query is. -/
def exportOrganisation (nextDirName : Int) (organization : Option String) (executed : Bool)
    (fs : FileSystem) : FileSystem :=
  match organization with
  | none => fs
  | some name =>
    if name.isEmpty || !executed then fs
    else
      let (fileName, fs') := createTempDir p workingDir nextDirName fs
      (fs'.create (exportFile p workingDir fileName name) .file).getD fs'

/-! ### What should be created -/

def ReportContained (clientTransactionId : Option String) (received : Bool) (fs : FileSystem) :
    Prop :=
  NewWithin (segments filePath) fs.node (autheticate clientTransactionId received fs).node

/-- All that an export creates is in its temporary directory; without one, nothing is. -/
def ExportContained (nextDirName : Int) (organization : Option String) (executed : Bool)
    (fs : FileSystem) : Prop :=
  let created := exportOrganisation p workingDir nextDirName organization executed fs
  if fs.node.creatable (tempDir p workingDir nextDirName) then
    NewWithin (resolve (tempDir p workingDir nextDirName)) fs.node created.node
  else ∀ q, fs.node q = none → created.node q = none

/-- The directory is there already or blocked; or it is one of reports, and the file's path leads
there too. -/
def ReportInside (clientTransactionId : Option String) (received : Bool) (t : Tree) : Prop :=
  t.Blocked (reportDir clientTransactionId) ∨
    (segments filePath <+: resolve (reportDir clientTransactionId) ∧
      t (segments filePath).dropLast ≠ none ∧
      (received → FileContained (segments filePath)
        (t.withDirectories (resolve (reportDir clientTransactionId)))
        (reportFile clientTransactionId)))

/-- The file cannot be created, or its path resolves to one in the temporary directory. -/
def ExportInside (nextDirName : Int) (name : String) (t : Tree) : Prop :=
  let dir := tempDir p workingDir nextDirName
  if t.creatable dir then
    (t.withDirectories (resolve dir)).creatable (exportFile p workingDir (some nextDirName) name) →
      resolve dir <+: resolve (exportFile p workingDir (some nextDirName) name)
  else ¬ t.creatable (exportFile p workingDir none name)

variable {p workingDir} {clientTransactionId : Option String} {received executed : Bool}
  {fs : FileSystem} {nextDirName : Int} {name : String}

/-! ### The report -/

theorem filePath_segments : segments filePath = ["perfios", "data"] := by decide +kernel

theorem reportFile_eq (clientTransactionId : Option String) : ∃ init name,
    reportFile clientTransactionId = init ++ [name ++ ".pdf"] := by
  have hname : fileName clientTransactionId "pdf" =
      filePath ++ clientTransactionId.getD "null" ++ "/" ++ clientTransactionId.getD "null" ++
        ".pdf" := by
    rw [fileName, String.append_assoc]
    rfl
  rw [reportFile, hname]
  exact segments_concat _ (by decide) (by decide)

theorem append_ne {name text : String} {c : Char} (h : text.toList.getLast? = some c)
    (hc : c ≠ 'f') : name ++ ".pdf" ≠ text := by
  rintro rfl
  have hlast : (name ++ ".pdf").toList.getLast? = some 'f' := by
    rw [String.toList_append]
    simp
  rw [hlast] at h
  exact hc (Option.some.inj h).symm

theorem append_ne_empty (name : String) : name ++ ".pdf" ≠ "" := by
  intro h
  have hlist := congrArg String.toList h
  simp [String.toList_append] at hlist

theorem isInvalid_reportFile (h : isInvalid (reportDir clientTransactionId) = false) :
    isInvalid (reportFile clientTransactionId) = false := by
  rw [Bool.eq_false_iff] at h ⊢
  simp only [reportDir, reportFile, ne_eq, isInvalid_segments, fileName] at h ⊢
  have hpdf : '\x00' ∉ "pdf".toList := by decide
  have hdot : '\x00' ∉ ".".toList := by decide
  have hslash : '\x00' ∉ "/".toList := by decide
  simp only [String.toList_append, List.mem_append, not_or] at h ⊢
  exact ⟨⟨⟨⟨h, hslash⟩, h.2⟩, hdot⟩, hpdf⟩

theorem reportContained_iff : ReportContained clientTransactionId received fs ↔
    ReportInside clientTransactionId received fs.node := by
  rw [ReportContained, ReportInside, autheticate]
  by_cases hblocked : fs.node.Blocked (reportDir clientTransactionId)
  · rw [(fs.mkdirs_spec _).1 hblocked]
    simp [hblocked, newWithin_refl]
  · obtain ⟨hmade, hnode⟩ := (fs.mkdirs_spec _).2 hblocked
    have hresult : fs.mkdirs (reportDir clientTransactionId) =
        (true, (fs.mkdirs (reportDir clientTransactionId)).2) := by rw [← hmade]
    have hfree : fs.node (resolve (reportDir clientTransactionId)) = none := by
      by_contra hthere
      exact hblocked (.inr (.inl hthere))
    have hroot : segments filePath ≠ [] := by simp [filePath_segments]
    have hdirs := newWithin_withDirectories hroot hfree
    rw [← hnode] at hdirs
    rw [hresult, or_iff_right hblocked]
    cases received with
    | false => simp [hdirs]
    | true =>
      simp only [if_true, true_imp_iff]
      rw [newWithin_trans_iff (extends_mkdirs fs _) (extends_openOutputStream _ _), hdirs,
        and_assoc]
      refine and_congr_right fun hunder => and_congr_right fun hthere => ?_
      have hvalid : isInvalid (reportDir clientTransactionId) = false := by
        rw [Bool.eq_false_iff]
        exact fun hinvalid => hblocked (.inl hinvalid)
      have hvalid' := isInvalid_reportFile hvalid
      obtain ⟨init, name, hfile⟩ := reportFile_eq clientTransactionId
      rw [hfile] at hvalid' ⊢
      rw [← hnode]
      refine newWithin_openOutputStream hroot ?_ hvalid' ⟨append_ne rfl (by decide),
        append_ne rfl (by decide)⟩ ?_
      · rwa [extends_mkdirs fs _ _ hthere]
      · rw [filePath_segments]
        exact fun hlast => append_ne rfl (by decide) (Option.some.inj hlast).symm

theorem reportInside_of_name {id : String} (hslash : '/' ∉ id.toList)
    (hname : id ≠ "" ∧ id ≠ "." ∧ id ≠ "..") (hthere : fs.node ["perfios"] ≠ none) :
    ReportInside (some id) received fs.node := by
  have hone (s : String) (hs : '/' ∉ s.toList) (hne : s ≠ "") : segments s = [s] := by
    simp [segments, List.splitOn_eq_singleton hs, hne]
  have hroot : segments "/perfios/data" = ["perfios", "data"] := by decide +kernel
  have hdir : reportDir (some id) = ["perfios", "data", id] := by
    have happend : filePath ++ id = "/perfios/data" ++ "/" ++ id := rfl
    rw [reportDir, Option.getD_some, happend, segments_append, hroot, hone id hslash hname.1]
    rfl
  have hfile : reportFile (some id) = ["perfios", "data", id, id ++ ".pdf"] := by
    have happend : fileName (some id) "pdf" =
        "/perfios/data" ++ "/" ++ id ++ "/" ++ (id ++ ".pdf") := by
      have hdot : ".pdf" = "." ++ "pdf" := rfl
      rw [hdot, ← String.append_assoc, ← String.append_assoc]
      rfl
    have hpdf : '/' ∉ (id ++ ".pdf").toList := by
      have hdot : '/' ∉ ".pdf".toList := by decide
      rw [String.toList_append, List.mem_append, not_or]
      exact ⟨hslash, hdot⟩
    rw [reportFile, happend, segments_append, segments_append, hroot, hone id hslash hname.1,
      hone _ hpdf (append_ne_empty id)]
    rfl
  have hcanonical : IsCanonical ["perfios", "data", id] := by
    simp [IsCanonical, hname]
  refine .inr ⟨?_, ?_, fun _ => .inl ?_⟩
  · rw [hdir, hcanonical.resolve_eq, filePath_segments]
    exact ⟨[id], rfl⟩
  · rw [filePath_segments]
    exact hthere
  · rw [hfile, filePath_segments]
    exact ⟨[id], hcanonical.resolve_eq.symm⟩

/-! ### The export -/

theorem nothing_created (fs : FileSystem) (q : Path) (kind : Node) :
    (∀ other, fs.node other = none → ((fs.create q kind).getD fs).node other = none) ↔
      ¬ fs.node.creatable q := by
  cases hcreate : fs.create q kind with
  | none =>
    rw [FileSystem.create_eq_none] at hcreate
    simp [hcreate]
  | some fs' =>
    obtain ⟨hcreatable, hnode⟩ := FileSystem.create_eq_some hcreate
    refine iff_of_false (fun h => ?_) (not_not_intro hcreatable)
    have hnew := h _ (FileSystem.creatable_parent hcreatable).2.1
    rw [Option.getD_some, hnode, Function.update_self] at hnew
    cases hnew

theorem newWithin_createTempDir (fs : FileSystem)
    (h : fs.node.creatable (tempDir p workingDir nextDirName)) : ∃ fs',
      createTempDir p workingDir nextDirName fs = (some nextDirName, fs') ∧
        fs'.node = fs.node.withDirectories (resolve (tempDir p workingDir nextDirName)) ∧
        NewWithin (resolve (tempDir p workingDir nextDirName)) fs.node fs'.node ∧
        fs.node.Extends fs'.node := by
  obtain ⟨hdir, hfree, -⟩ := FileSystem.creatable_parent h
  cases hcreate : fs.create (tempDir p workingDir nextDirName) .directory with
  | none => simp [FileSystem.create_eq_none.mp hcreate] at h
  | some fs' =>
    have hnode := (FileSystem.create_eq_some hcreate).2
    refine ⟨fs', by rw [createTempDir, hcreate], ?_, ?_, ?_⟩
    · rw [withDirectories_eq_update hdir hfree, hnode]
    · rw [hnode, newWithin_update hfree]
    · rw [hnode]
      exact extends_update hfree

theorem exportContained_of_nothing {organization : Option String}
    (h : exportOrganisation p workingDir nextDirName organization executed fs = fs) :
    ExportContained p workingDir nextDirName organization executed fs := by
  rw [ExportContained, h]
  split
  · exact newWithin_refl _ _
  · exact fun _ hnone => hnone

theorem exportContained_iff : ExportContained p workingDir nextDirName (some name) executed fs ↔
    name = "" ∨ executed = false ∨ ExportInside p workingDir nextDirName name fs.node := by
  by_cases hstop : name.isEmpty || !executed
  · have hnothing : exportOrganisation p workingDir nextDirName (some name) executed fs = fs := by
      rw [exportOrganisation, if_pos hstop]
    have hcase : name = "" ∨ executed = false := by simpa using hstop
    exact iff_of_true (exportContained_of_nothing hnothing) (hcase.imp_right .inl)
  · obtain ⟨hname, rfl⟩ : ¬ name = "" ∧ executed = true := by simpa using hstop
    have hrun : exportOrganisation p workingDir nextDirName (some name) true fs =
        ((createTempDir p workingDir nextDirName fs).2.create (exportFile p workingDir
          (createTempDir p workingDir nextDirName fs).1 name) .file).getD
          (createTempDir p workingDir nextDirName fs).2 := by
      rw [exportOrganisation, if_neg hstop]
    rw [or_iff_right hname, or_iff_right (by decide), ExportContained, ExportInside, hrun]
    by_cases hdir : fs.node.creatable (tempDir p workingDir nextDirName)
    · obtain ⟨fs', hcreate, hnode, hwithin, hextends⟩ := newWithin_createTempDir fs hdir
      rw [hcreate, if_pos hdir, if_pos hdir, newWithin_trans_iff hextends (extends_create fs' _ _),
        newWithin_create, ← hnode]
      exact and_iff_right hwithin
    · have hcreate : createTempDir p workingDir nextDirName fs = (none, fs) := by
        rw [createTempDir, FileSystem.create_eq_none.mpr (Bool.not_eq_true _ ▸ hdir)]
      rw [hcreate, if_neg hdir, if_neg hdir]
      exact nothing_created fs _ _

/-- For every request and every file system: what a callback and an export create is inside iff
it is where the paths of their directory and their file resolve to. -/
theorem created_inside_iff (p : ExportOrganisation.Platform ρ) (workingDir : String)
    (fs : FileSystem) :
    (∀ clientTransactionId received, ReportContained clientTransactionId received fs ↔
      ReportInside clientTransactionId received fs.node) ∧
    (∀ nextDirName executed, ExportContained p workingDir nextDirName none executed fs) ∧
    ∀ nextDirName executed name,
      ExportContained p workingDir nextDirName (some name) executed fs ↔
        name = "" ∨ executed = false ∨ ExportInside p workingDir nextDirName name fs.node :=
  ⟨fun _ _ => reportContained_iff, fun _ _ => exportContained_of_nothing rfl,
    fun _ _ _ => exportContained_iff⟩

def server : FileSystem where
  node q := if q ∈ [[], ["perfios"], ["perfios", "data"], ["tmp"], ["tmp", "up"]] then
    some .directory else none
  root := rfl
  closed := by
    intro q name hthere
    have hmem : q ++ [name] ∈ [[], ["perfios"], ["perfios", "data"], ["tmp"], ["tmp", "up"]] := by
      by_contra hnot
      exact hthere (if_neg hnot)
    have hinit : q = (q ++ [name]).dropLast := List.dropLast_concat.symm
    simp only [List.mem_cons, List.not_mem_nil, or_false] at hmem
    obtain h | h | h | h | h := hmem <;> rw [hinit, h] <;> simp at h ⊢

def exporter : ExportOrganisation.Platform String where
  server := .plain
  toJson _ := "[]"
  rootDir := "/tmp/up"
  file path := path

theorem server_not_blocked {q : Path} (hvalid : isInvalid q = false)
    (hfree : server.node (resolve q) = none) : ¬ server.node.Blocked q := by
  rintro (hinvalid | hthere | ⟨other, -, hfile⟩)
  · rw [hvalid] at hinvalid
    cases hinvalid
  · exact hthere hfree
  · simp only [server] at hfile
    split at hfile <;> cases hfile

/-- Two dots in front of an id lead to a directory beside those of the reports, and in front of a
name to a file beside the temporary directory. -/
theorem dots_lead_outside : ¬ ReportContained (some "../x") true server ∧
    ¬ ExportContained exporter "/srv" 1 (some "../x") true server := by
  rw [reportContained_iff, exportContained_iff]
  constructor
  · have hdir : resolve (reportDir (some "../x")) = ["perfios", "x"] := by decide +kernel
    rintro (hblocked | ⟨hunder, -⟩)
    · refine server_not_blocked (by decide +kernel) ?_ hblocked
      rw [hdir]
      decide
    · rw [hdir, filePath_segments] at hunder
      exact absurd hunder (by decide)
  · rintro (hempty | hexecuted | hinside)
    · exact absurd hempty (by decide)
    · cases hexecuted
    · rw [ExportInside, if_pos (by decide +kernel)] at hinside
      exact absurd (hinside (by decide +kernel)) (by decide +kernel)

end InsightsAssist.CreatedFiles
