import Mathlib.Algebra.Group.Nat.Defs
import Mathlib.Logic.Function.Basic
import InsightsAssist.Organisations
import InsightsAssist.Runs
import InsightsAssist.Threads

/-! Concurrent exports of organisations. There is one ExportOrganisation, which keeps the list it
has queried and the directory it has created in fields. -/
namespace InsightsAssist.ExportOrganisation
open Runs

/-- What the export takes from outside: how the database compares strings, what Gson writes of a
list of organisations, the root of the temporary directories, and the file that a path leads to. -/
structure Platform (ρ : Type) where
  server : Server
  toJson : List IaOrganisation → String
  rootDir : String
  file : String → ρ

inductive Progress (ρ : Type) where
  | querying
  | serialising
  | creatingDir (jsonInString : String)
  | writing (jsonInString : String)
  | opening
  | streaming (file : ρ)
  | received (content : String)
  /-- no name was given -/
  | refused
  /-- the file could not be opened -/
  | failed
  deriving DecidableEq, Repr

def Progress.jsonInString {ρ : Type} : Progress ρ → Option String
  | .creatingDir jsonInString | .writing jsonInString => some jsonInString
  | _ => none

def Progress.content {ρ : Type} : Progress ρ → Option String
  | .received content => some content
  | _ => none

structure Thread (ρ : Type) where
  name : String
  progress : Progress ρ
  deriving DecidableEq, Repr

/-- `nextDirName` is the counter of TempFileUtil. -/
structure State (ρ : Type) where
  organisationList : List IaOrganisation
  fileName : Option Int
  nextDirName : Int
  files : ρ → Option String
  threads : List (Thread ρ)

/-- What fails on the way is logged, up to the opening of the file. -/
inductive Step where
  | start (organization : Option String)
  | query (thread : Nat) (executed : Bool)
  | serialise (thread : Nat)
  /-- `mkdir` returns `made`, or something throws -/
  | createTempDir (thread : Nat) (made : Option Bool)
  /-- another action creates a directory -/
  | createOther
  | write (thread : Nat) (written : Bool)
  | openFile (thread : Nat) (opened : Bool)
  | stream (thread : Nat)
  deriving DecidableEq, Repr

variable {ρ : Type} (p : Platform ρ) (t : IaOrganisations)

def selectFrom (name : String) : List IaOrganisation :=
  t.rows.filter (IaOrganisations.named p.server name)

/-- `fileName + "/" + name + ".json"`. -/
def path (fileName : Option Int) (name : String) : String :=
  let dir := match fileName with
    | some n => p.rootDir ++ "/" ++ toString n
    | none => "null"
  dir ++ "/" ++ name ++ ".json"

/-- An int overflows. -/
def next (nextDirName : Int) : Int := Int.bmod (nextDirName + 1) (2 ^ 32)

def State.advance (s : State ρ) (i : Nat) (progress : Progress ρ) : State ρ :=
  { s with threads := s.threads.modify i fun thread => { thread with progress } }

def step [DecidableEq ρ] (s : State ρ) : Step → Option (State ρ)
  | .start organization =>
    let thread := match organization with
      | none => ⟨"", .refused⟩
      | some name => ⟨name, if name.isEmpty then .refused else .querying⟩
    some { s with threads := s.threads ++ [thread] }
  | .query i executed => s.threads[i]?.bind fun thread =>
    match thread.progress with
    | .querying =>
      if executed then
        some ({ s with organisationList := selectFrom p t thread.name }.advance i .serialising)
      else some (s.advance i .opening)
    | _ => none
  | .serialise i => s.threads[i]?.bind fun thread =>
    match thread.progress with
    | .serialising => some (s.advance i (.creatingDir (p.toJson s.organisationList)))
    | _ => none
  | .createTempDir i made => s.threads[i]?.bind fun thread =>
    match thread.progress with
    | .creatingDir jsonInString =>
      match made with
      | some made => some ({ s with
          fileName := if made then some s.nextDirName else none
          nextDirName := next s.nextDirName }.advance i (.writing jsonInString))
      | none => some (s.advance i .opening)
    | _ => none
  | .createOther => some { s with nextDirName := next s.nextDirName }
  | .write i written => s.threads[i]?.bind fun thread =>
    match thread.progress with
    | .writing jsonInString =>
      if written then
        let file := p.file (path p s.fileName thread.name)
        let files := Function.update s.files file (some jsonInString)
        some ({ s with files }.advance i .opening)
      else some (s.advance i .opening)
    | _ => none
  | .openFile i opened => s.threads[i]?.bind fun thread =>
    match thread.progress with
    | .opening =>
      let file := p.file (path p s.fileName thread.name)
      if opened && (s.files file).isSome then some (s.advance i (.streaming file))
      else some (s.advance i .failed)
    | _ => none
  | .stream i => s.threads[i]?.bind fun thread =>
    match thread.progress with
    | .streaming file => (s.files file).map fun content => s.advance i (.received content)
    | _ => none

def start (nextDirName : Int) : State ρ := ⟨[], none, nextDirName, fun _ => none, []⟩

/-- The name that the list was queried for which the field holds, which a thread has serialised,
which a file was written from, and which a thread has received. -/
structure Source (ρ : Type) where
  list : Option String
  serialised : Nat → Option String
  file : ρ → Option String
  received : Nat → Option String

def observe [DecidableEq ρ] (s : State ρ) (o : Source ρ) : Step → Source ρ
  | .query i true => { o with list := s.threads[i]?.map Thread.name }
  | .serialise i => { o with serialised := Function.update o.serialised i o.list }
  | .write i true =>
    match s.threads[i]? with
    | some thread =>
      let file := p.file (path p s.fileName thread.name)
      { o with file := Function.update o.file file (o.serialised i) }
    | none => o
  | .stream i =>
    match s.threads[i]?.map Thread.progress with
    | some (.streaming file) => { o with received := Function.update o.received i (o.file file) }
    | _ => o
  | _ => o

def source [DecidableEq ρ] (nextDirName : Int) (h : List Step) : Source ρ :=
  observation (step p t) (observe p) (start nextDirName)
    ⟨none, fun _ => none, fun _ => none, fun _ => none⟩ h

/-- The list of a source; before the first query it is empty. -/
def queried (name : Option String) : List IaOrganisation := name.elim [] (selectFrom p t)

/-- Every request that receives a file receives that of the organisation it asked for. -/
def OwnData (s : State ρ) : Prop :=
  ∀ (i : Nat) (thread : Thread ρ) content, s.threads[i]? = some thread →
    thread.progress = .received content → content = p.toJson (selectFrom p t thread.name)

/-- The list, the texts and the files are those of their sources. -/
structure Inv (s : State ρ) (o : Source ρ) : Prop where
  list : s.organisationList = queried p t o.list
  files : ∀ file content, s.files file = some content →
    content = p.toJson (queried p t (o.file file))
  jsonInString : ∀ (i : Nat) (thread : Thread ρ) json, s.threads[i]? = some thread →
    thread.progress.jsonInString = some json → json = p.toJson (queried p t (o.serialised i))
  content : ∀ (i : Nat) (thread : Thread ρ) content, s.threads[i]? = some thread →
    thread.progress.content = some content → content = p.toJson (queried p t (o.received i))

variable {p t} {s s' : State ρ} {o : Source ρ} {a : Step} {i : Nat} {thread : Thread ρ}
  {progress : Progress ρ} {serialised received : Nat → Option String}

theorem Inv.advance (h : Inv p t s o)
    (hserialised : ∀ j ≠ i, serialised j = o.serialised j)
    (hreceived : ∀ j ≠ i, received j = o.received j)
    (hjson : ∀ json, progress.jsonInString = some json →
      json = p.toJson (queried p t (serialised i)))
    (hcontent : ∀ content, progress.content = some content →
      content = p.toJson (queried p t (received i))) :
    Inv p t (s.advance i progress) { o with serialised, received } where
  list := h.list
  files := h.files
  jsonInString j thread json hj hprogress := by
    obtain ⟨rfl, old, _, rfl⟩ | ⟨hne, hold⟩ := Threads.getElem?_modify_cases hj
    · exact hjson json hprogress
    · show json = p.toJson (queried p t (serialised j))
      rw [hserialised j hne]
      exact h.jsonInString j thread json hold hprogress
  content j thread content hj hprogress := by
    obtain ⟨rfl, old, _, rfl⟩ | ⟨hne, hold⟩ := Threads.getElem?_modify_cases hj
    · exact hcontent content hprogress
    · show content = p.toJson (queried p t (received j))
      rw [hreceived j hne]
      exact h.content j thread content hold hprogress

theorem Inv.move (h : Inv p t s o) (hjson : progress.jsonInString = none)
    (hcontent : progress.content = none) : Inv p t (s.advance i progress) o := by
  apply h.advance (fun _ _ => rfl) (fun _ _ => rfl)
  · intro json hsome
    cases hjson.symm.trans hsome
  · intro content hsome
    cases hcontent.symm.trans hsome

theorem Inv.start (h : Inv p t s o) (hjson : thread.progress.jsonInString = none)
    (hcontent : thread.progress.content = none) :
    Inv p t { s with threads := s.threads ++ [thread] } o where
  list := h.list
  files := h.files
  jsonInString j old json hj hprogress := by
    obtain hold | ⟨_, rfl⟩ := Threads.getElem?_concat_cases hj
    · exact h.jsonInString j old json hold hprogress
    · cases hjson.symm.trans hprogress
  content j old content hj hprogress := by
    obtain hold | ⟨_, rfl⟩ := Threads.getElem?_concat_cases hj
    · exact h.content j old content hold hprogress
    · cases hcontent.symm.trans hprogress

theorem Inv.query (h : Inv p t s o) (name : String) :
    Inv p t { s with organisationList := selectFrom p t name } { o with list := some name } :=
  ⟨rfl, h.files, h.jsonInString, h.content⟩

theorem Inv.serialise (h : Inv p t s o) :
    Inv p t (s.advance i (.creatingDir (p.toJson s.organisationList)))
      { o with serialised := Function.update o.serialised i o.list } := by
  apply h.advance
  · exact fun j hj => Function.update_of_ne hj _ _
  · exact fun _ _ => rfl
  · intro json hjson
    cases hjson
    rw [Function.update_self, h.list]
  · exact fun _ hcontent => nomatch hcontent

theorem Inv.write [DecidableEq ρ] (h : Inv p t s o) (ht : s.threads[i]? = some thread) {json : String}
    (hwriting : thread.progress = .writing json) (file : ρ) :
    Inv p t { s with files := Function.update s.files file (some json) }
      { o with file := Function.update o.file file (o.serialised i) } where
  list := h.list
  files file' content hcontent := by
    have hjson := h.jsonInString i thread json ht (by rw [hwriting]; rfl)
    by_cases heq : file' = file
    · subst heq
      simp only [Function.update_self, Option.some.injEq] at hcontent ⊢
      rw [← hcontent, hjson]
    · simp only [Function.update_of_ne heq] at hcontent ⊢
      exact h.files file' content hcontent
  jsonInString := h.jsonInString
  content := h.content

theorem Inv.stream (h : Inv p t s o) {file : ρ} {content : String}
    (hfile : s.files file = some content) :
    Inv p t (s.advance i (.received content))
      { o with received := Function.update o.received i (o.file file) } := by
  apply h.advance
  · exact fun _ _ => rfl
  · exact fun j hj => Function.update_of_ne hj _ _
  · exact fun _ hjson => nomatch hjson
  · intro content' hcontent
    cases hcontent
    rw [Function.update_self]
    exact h.files file content hfile

variable [DecidableEq ρ]

theorem Inv.step (h : Inv p t s o) (hs : step p t s a = some s') : Inv p t s' (observe p s o a) := by
  cases a with
  | start organization =>
    cases hs
    cases organization with
    | none => exact h.start rfl rfl
    | some name =>
      apply h.start <;> dsimp only <;> split <;> rfl
  | query i executed =>
    obtain ⟨thread, ht, hs⟩ := Option.bind_eq_some_iff.mp hs
    split at hs
    · cases executed with
      | true =>
        cases hs
        rw [observe, ht]
        exact (h.query thread.name).move rfl rfl
      | false =>
        cases hs
        exact h.move rfl rfl
    · cases hs
  | serialise i =>
    obtain ⟨thread, ht, hs⟩ := Option.bind_eq_some_iff.mp hs
    split at hs <;> cases hs
    exact h.serialise
  | createTempDir i made =>
    obtain ⟨thread, ht, hs⟩ := Option.bind_eq_some_iff.mp hs
    split at hs
    · rename_i json hcreating
      have hjson := h.jsonInString i thread json ht (by rw [hcreating]; rfl)
      split at hs <;> cases hs
      · rename_i made
        have hfield : Inv p t { s with
            fileName := if made then some s.nextDirName else none
            nextDirName := next s.nextDirName } o := ⟨h.list, h.files, h.jsonInString, h.content⟩
        apply hfield.advance (fun _ _ => rfl) (fun _ _ => rfl)
        · intro json' hsome
          cases hsome
          exact hjson
        · exact fun _ hcontent => nomatch hcontent
      · exact h.move rfl rfl
    · cases hs
  | createOther =>
    cases hs
    exact ⟨h.list, h.files, h.jsonInString, h.content⟩
  | write i written =>
    obtain ⟨thread, ht, hs⟩ := Option.bind_eq_some_iff.mp hs
    split at hs
    · rename_i json hwriting
      cases written with
      | true =>
        cases hs
        rw [observe, ht]
        exact (h.write ht hwriting _).move rfl rfl
      | false =>
        cases hs
        exact h.move rfl rfl
    · cases hs
  | openFile i opened =>
    obtain ⟨thread, ht, hs⟩ := Option.bind_eq_some_iff.mp hs
    split at hs
    · dsimp only at hs
      split at hs <;> cases hs <;> exact h.move rfl rfl
    · cases hs
  | stream i =>
    obtain ⟨thread, ht, hs⟩ := Option.bind_eq_some_iff.mp hs
    split at hs
    · rename_i file hstreaming
      obtain ⟨content, hfile, rfl⟩ := Option.map_eq_some_iff.mp hs
      simp only [observe, ht, Option.map_some, hstreaming]
      exact h.stream hfile
    · cases hs

theorem inv_of_run {nextDirName : Int} {h : List Step}
    (hr : Run (ExportOrganisation.step p t) AnyStep (start nextDirName) h s) :
    Inv p t s (source p t nextDirName h) := by
  apply Run.observed (fun _ => Inv p t) ?_ ?_ hr
  · refine ⟨rfl, fun _ _ hcontent => (nomatch hcontent), ?_, ?_⟩
    · intro i thread json hi
      cases hi
    · intro i thread content hi
      cases hi
  · intro h s o a s' hinv _ hs
    exact hinv.step hs

/-- However the exports are interleaved, and wherever they fail: each request that has received a
file has received its own organisation exactly if the list in it was queried for a name that
selects the same. -/
theorem ownData_iff {nextDirName : Int} {h : List Step}
    (hr : Run (ExportOrganisation.step p t) AnyStep (start nextDirName) h s) :
    OwnData p t s ↔ ∀ (i : Nat) (thread : Thread ρ) content, s.threads[i]? = some thread →
      thread.progress = .received content →
        p.toJson (queried p t ((source p t nextDirName h).received i)) =
          p.toJson (selectFrom p t thread.name) := by
  have hinv := inv_of_run hr
  refine forall₃_congr fun i thread content => ?_
  refine forall₂_congr fun hi hreceived => ?_
  rw [hinv.content i thread content hi (by rw [hreceived]; rfl)]

def json (row : IaOrganisation) : String :=
  "\x7b\"organisation_name\":\"" ++ row.organisationName ++ "\",\"key\":\"" ++ row.key ++
    "\",\"insights_key\":\"" ++ row.insightsKey ++ "\"\x7d"

@[irreducible] def listJson (rows : List IaOrganisation) : String :=
  "[" ++ ",".intercalate (rows.map json) ++ "]"

def Platform.plain : Platform String where
  server := .plain
  toJson := listJson
  rootDir := "tmp"
  file path := path

def export' (i : Nat) (name : String) : List Step :=
  [.start (some name), .query i true, .serialise i, .createTempDir i (some true), .write i true,
    .openFile i true, .stream i]

theorem exec_export' (p : Platform ρ) (t : IaOrganisations) {name : String} (hname : name ≠ "")
    (nextDirName : Int) : ∃ s, exec (step p t) (start nextDirName) (export' 0 name) = some s ∧
      s.threads = [⟨name, .received (p.toJson (selectFrom p t name))⟩] := by
  simp [exec, export', step, start, State.advance, hname]

def inTurn : List Step := export' 0 "acme" ++ export' 1 "beta"

theorem ownData_in_turn :
    ∃ s, Run (step .plain StoreOrganisation.acmeAndBeta) AnyStep (start 1) inTurn s ∧
      s.threads.all (fun thread => thread.progress.content.isSome) ∧
      OwnData .plain StoreOrganisation.acmeAndBeta s := by
  have hexec : (exec (step .plain StoreOrganisation.acmeAndBeta) (start 1) inTurn).any fun s =>
      s.threads.map Thread.name = ["acme", "beta"] &&
        s.threads.all fun thread => thread.progress.content.isSome := by decide +kernel
  obtain ⟨s, hs, hcheck⟩ := (Option.any_eq_true _ _).mp hexec
  rw [Bool.and_eq_true, decide_eq_true_eq] at hcheck
  have hr := run_anyStep_iff.mpr hs
  refine ⟨s, hr, hcheck.2, (ownData_iff hr).mpr fun i thread content hi _ => ?_⟩
  have hname : ["acme", "beta"][i]? = some thread.name := by
    rw [← hcheck.1, List.getElem?_map, hi]
    rfl
  have hacme : (source .plain StoreOrganisation.acmeAndBeta 1 inTurn).received 0 =
      some "acme" := by decide +kernel
  have hbeta : (source .plain StoreOrganisation.acmeAndBeta 1 inTurn).received 1 =
      some "beta" := by decide +kernel
  match i with
  | 0 =>
    rw [hacme, ← show "acme" = thread.name from Option.some.inj hname]
    rfl
  | 1 =>
    rw [hbeta, ← show "beta" = thread.name from Option.some.inj hname]
    rfl
  | i + 2 => cases hname

/-- Both have queried before the first of them serialises the list. -/
def overtaken : List Step :=
  [.start (some "acme"), .start (some "beta"), .query 0 true, .query 1 true, .serialise 0,
    .createTempDir 0 (some true), .write 0 true, .openFile 0 true, .stream 0]

theorem other_keys_received :
    ∃ s, Run (step .plain StoreOrganisation.acmeAndBeta) AnyStep (start 1) overtaken s ∧
      s.threads[0]? = some ⟨"acme", .received (Platform.plain.toJson
        (selectFrom .plain StoreOrganisation.acmeAndBeta "beta"))⟩ ∧
      ¬ OwnData .plain StoreOrganisation.acmeAndBeta s := by
  have hr : Run (step .plain StoreOrganisation.acmeAndBeta) AnyStep (start 1) overtaken _ :=
    run_anyStep_iff.mpr rfl
  refine ⟨_, hr, rfl, fun hown => ?_⟩
  have hsame : Platform.plain.toJson (selectFrom .plain StoreOrganisation.acmeAndBeta "beta") =
      Platform.plain.toJson (selectFrom .plain StoreOrganisation.acmeAndBeta "acme") :=
    hown 0 _ _ rfl rfl
  exact absurd hsame (by decide +kernel)

end InsightsAssist.ExportOrganisation
