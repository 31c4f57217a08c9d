import Mathlib.Logic.Function.Basic
import InsightsAssist.Threads
import InsightsAssist.TransactionWrites

/-! The expiry dates that link generations store while they share one field for them. A trace
records which thread's date the field held at each update. -/
namespace InsightsAssist.TransactionStatus
open Runs

/-- `parsed` is the date a thread has read in its answer, `assigner` the thread that assigned the
field last, and `source` the one that had when the thread's last update was carried out. -/
structure Trace where
  parsed : Nat → Option Int
  assigner : Option Nat
  source : Nat → Option Nat

def Trace.start : Trace := ⟨fun _ => none, none, fun _ => none⟩

def Trace.after (readers : Readers) (tr : Trace) : Step → Trace
  | .answer t xml _ =>
    match GenerateLinkPostProcess.read readers xml with
    | .success _ expires => { tr with parsed := Function.update tr.parsed t (some expires) }
    | _ => tr
  | .assign t => { tr with assigner := some t }
  | .firstUpdate t true | .secondUpdate t true =>
    { tr with source := Function.update tr.source t tr.assigner }
  | _ => tr

def trace (readers : Readers) (h : List Step) : Trace := h.foldl (Trace.after readers) .start

def Updates (t : Nat) (a : Step) : Prop := a = .firstUpdate t true ∨ a = .secondUpdate t true

/-- The row is the transaction's that the thread, an update of which was carried out, is for. -/
structure Owns (db : Database) (h : List Step) (s : State) (t : Nat) (row : Transaction) :
    Prop where
  updated : ∃ a ∈ h, Updates t a
  stored : row ∈ s.iaTransactions
  thread : ∃ thread, s.links[t]? = some thread ∧
    DatabaseUtil.hasId db thread.clientTransactionId row

/-- The links are asked for under ids that the database tells apart. -/
def Distinct (db : Database) (s : State) : Step → Prop
  | .request clientTransactionId _ _ _ =>
    ∀ thread ∈ s.links, ¬ db.equal thread.clientTransactionId clientTransactionId
  | _ => True

instance (db : Database) (s : State) : (a : Step) → Decidable (Distinct db s a)
  | .request .. => inferInstanceAs (Decidable (∀ thread ∈ s.links, ¬ _))
  | .answer .. | .refusal .. | .assign _ | .firstUpdate .. | .mail .. | .secondUpdate .. | .status ..
  | .callback .. | .reportStored .. | .reportFailed .. | .sweep .. => inferInstanceAs (Decidable True)

def start (iaTransactions : Table) : State := ⟨iaTransactions, none, [], []⟩

def ids (links : List LinkThread) : List String := links.map (·.clientTransactionId)

structure Follows (db : Database) (tr : Trace) (links : List LinkThread)
    (expiryDate : Option Int) : Prop where
  field : expiryDate = tr.assigner.bind tr.parsed
  assigner : ∀ t, tr.assigner = some t → tr.parsed t ≠ none
  source : ∀ t t', tr.source t = some t' → tr.parsed t' ≠ none ∧ t < links.length
  requested : ∀ (t : Nat) (thread : LinkThread), links[t]? = some thread →
    thread.progress = .requested → tr.parsed t = none
  parsed : ∀ (t : Nat) (thread : LinkThread) url expires, links[t]? = some thread →
    thread.progress = .parsed url expires → tr.parsed t = some expires
  unused : ∀ t, links.length ≤ t → tr.parsed t = none
  distinct : ∀ (t t' : Nat) (id id' : String), (ids links)[t]? = some id →
    (ids links)[t']? = some id' → db.equal id id' → t = t'

variable {db : Database} {readers : Readers} {tr : Trace} {links : List LinkThread}
  {expiryDate : Option Int} {t : Nat} {thread : LinkThread} {p : LinkProgress}

theorem ids_modify : ids (links.modify t fun thread => { thread with progress := p }) =
    ids links :=
  Threads.map_modify fun _ => rfl

theorem getElem?_advanced {i : Nat} {thread' : LinkThread}
    (h : (links.modify t fun thread => { thread with progress := p })[i]? = some thread') :
    (i = t ∧ thread'.progress = p) ∨ (i ≠ t ∧ links[i]? = some thread') := by
  obtain ⟨hi, thread, _, rfl⟩ | hold := Threads.getElem?_modify_cases h
  · exact .inl ⟨hi, rfl⟩
  · exact .inr hold

theorem Follows.start : Follows db .start [] none where
  field := rfl
  assigner _ h := nomatch h
  source _ _ h := nomatch h
  requested _ _ h := nomatch h
  parsed _ _ _ _ h := nomatch h
  unused _ _ := rfl
  distinct _ _ _ _ h := nomatch h

theorem Follows.advance (h : Follows db tr links expiryDate) (hp : p ≠ .requested)
    (hparsed : ∀ url expires, p ≠ .parsed url expires) :
    Follows db tr (links.modify t fun thread => { thread with progress := p }) expiryDate where
  field := h.field
  assigner := h.assigner
  source := by simpa using h.source
  requested i thread hi hprogress := by
    obtain ⟨-, hnew⟩ | ⟨-, hold⟩ := getElem?_advanced hi
    · exact absurd (hnew.symm.trans hprogress) hp
    · exact h.requested i thread hold hprogress
  parsed i thread url expires hi hprogress := by
    obtain ⟨-, hnew⟩ | ⟨-, hold⟩ := getElem?_advanced hi
    · exact absurd (hnew.symm.trans hprogress) (hparsed url expires)
    · exact h.parsed i thread url expires hold hprogress
  unused := by simpa using h.unused
  distinct := by simpa only [ids_modify] using h.distinct

theorem Follows.answer (h : Follows db tr links expiryDate) (ht : links[t]? = some thread)
    (hprogress : thread.progress = .requested) {url : Option String} {expires : Int} :
    Follows db { tr with parsed := Function.update tr.parsed t (some expires) }
      (links.modify t fun thread => { thread with progress := .parsed url expires })
      expiryDate where
  field := by
    rw [h.field]
    cases ha : tr.assigner with
    | none => rfl
    | some i =>
      have hi : i ≠ t := by
        rintro rfl
        exact h.assigner i ha (h.requested i thread ht hprogress)
      simp [hi]
  assigner i hi := by
    have hold := h.assigner i hi
    by_cases hit : i = t <;> simp [hit, hold]
  source i j hij := by
    obtain ⟨hold, hlt⟩ := h.source i j hij
    refine ⟨?_, by simpa using hlt⟩
    by_cases hjt : j = t <;> simp [hjt, hold]
  requested i thread' hi hnew := by
    obtain ⟨-, hp⟩ | ⟨hit, hold⟩ := getElem?_advanced hi
    · cases hp.symm.trans hnew
    · simpa [hit] using h.requested i thread' hold hnew
  parsed i thread' url' expires' hi hnew := by
    obtain ⟨rfl, hp⟩ | ⟨hit, hold⟩ := getElem?_advanced hi
    · cases hp.symm.trans hnew
      simp
    · simpa [hit] using h.parsed i thread' url' expires' hold hnew
  unused i hi := by
    rw [List.length_modify] at hi
    have hit : i ≠ t := by
      have hlt := (List.getElem?_eq_some_iff.mp ht).1
      omega
    simpa [hit] using h.unused i hi
  distinct := by simpa only [ids_modify] using h.distinct

theorem Follows.assign (h : Follows db tr links expiryDate) (ht : links[t]? = some thread)
    {url : Option String} {expires : Int} (hprogress : thread.progress = .parsed url expires) :
    Follows db { tr with assigner := some t }
      (links.modify t fun thread => { thread with progress := .assigned url }) (some expires) := by
  have hparsed := h.parsed t thread url expires ht hprogress
  have hmoved : Follows db tr (links.modify t fun thread =>
      { thread with progress := .assigned url }) expiryDate :=
    h.advance (fun hp => nomatch hp) fun _ _ hp => nomatch hp
  refine { hmoved with field := hparsed.symm, assigner := ?_ }
  intro i hi
  cases hi
  simp [hparsed]

theorem Follows.carry (h : Follows db tr links expiryDate) (ht : t < links.length) :
    Follows db { tr with source := Function.update tr.source t tr.assigner } links expiryDate := by
  refine { h with source := ?_ }
  intro i j hij
  by_cases hit : i = t
  · subst hit
    exact ⟨h.assigner j (by simpa using hij), ht⟩
  · exact h.source i j (by simpa [hit] using hij)

theorem Follows.request (h : Follows db tr links expiryDate)
    (hdb : Equivalence fun a b => db.equal a b = true) {clientTransactionId : String}
    (hnew : ∀ thread ∈ links, ¬ db.equal thread.clientTransactionId clientTransactionId) :
    Follows db tr (links ++ [⟨clientTransactionId, .requested⟩]) expiryDate where
  field := h.field
  assigner := h.assigner
  source i j hij := by
    obtain ⟨hparsed, hlt⟩ := h.source i j hij
    exact ⟨hparsed, by simp; omega⟩
  requested i thread hi hprogress := by
    obtain hold | ⟨rfl, -⟩ := Threads.getElem?_concat_cases hi
    · exact h.requested i thread hold hprogress
    · exact h.unused _ (Nat.le_refl _)
  parsed i thread url expires hi hprogress := by
    obtain hold | ⟨-, rfl⟩ := Threads.getElem?_concat_cases hi
    · exact h.parsed i thread url expires hold hprogress
    · cases hprogress
  unused i hi := by
    apply h.unused
    rw [List.length_append] at hi
    omega
  distinct i j id id' hi hj heq := by
    have hother {i : Nat} {id : String} (hi : (ids links)[i]? = some id) :
        ¬ db.equal id clientTransactionId := by
      obtain ⟨thread, hmem, rfl⟩ := List.mem_map.mp (List.mem_of_getElem? hi)
      exact hnew thread hmem
    simp only [ids, List.map_append, List.map_cons, List.map_nil] at hi hj
    obtain hold | ⟨rfl, rfl⟩ := Threads.getElem?_concat_cases hi <;>
      obtain hold' | ⟨rfl, rfl⟩ := Threads.getElem?_concat_cases hj
    · exact h.distinct i j id id' hold hold' heq
    · exact absurd heq (hother hold)
    · exact absurd (hdb.symm heq) (hother hold')
    · rfl

/-- The rows of a thread whose update was carried out hold the date of the thread that had
assigned the field. -/
def Stored (db : Database) (tr : Trace) (s : State) : Prop :=
  ∀ (t t' : Nat) (id : String) (row : Transaction), (ids s.links)[t]? = some id →
    tr.source t = some t' → row ∈ s.iaTransactions → DatabaseUtil.hasId db id row →
    row.expiryDate = tr.parsed t'

variable {s s' : State} {a : Step}

theorem parsed_after (h : Follows db tr s.links s.expiryDate)
    (hs : step db readers s a = some s') {i : Nat} (hi : tr.parsed i ≠ none) :
    (tr.after readers a).parsed i = tr.parsed i := by
  cases a with
  | answer t xml executed =>
    obtain ⟨thread, ht, hs⟩ := Option.bind_eq_some_iff.mp hs
    split at hs
    · rename_i hprogress
      have hit : i ≠ t := by
        rintro rfl
        exact hi (h.requested i thread ht hprogress)
      simp only [Trace.after]
      split
      · simp [hit]
      · rfl
    · cases hs
  | firstUpdate t executed | secondUpdate t executed => cases executed <;> rfl
  | _ => rfl

theorem source_of_updates (ha : Updates t a) :
    (tr.after readers a).source t = tr.assigner := by
  obtain rfl | rfl := ha <;> simp [Trace.after]

theorem source_of_not_updates (ha : ¬ Updates t a) :
    (tr.after readers a).source t = tr.source t := by
  cases a with
  | answer t' xml executed =>
    simp only [Trace.after]
    split <;> rfl
  | firstUpdate t' executed =>
    cases executed with
    | false => rfl
    | true =>
      have htt : t ≠ t' := fun heq => ha (.inl (heq ▸ rfl))
      simp [Trace.after, htt]
  | secondUpdate t' executed =>
    cases executed with
    | false => rfl
    | true =>
      have htt : t ≠ t' := fun heq => ha (.inr (heq ▸ rfl))
      simp [Trace.after, htt]
  | _ => rfl

theorem threads_of_step (hdb : Equivalence fun a b => db.equal a b = true)
    (h : Follows db tr s.links s.expiryDate) (hd : Distinct db s a)
    (hs : step db readers s a = some s') :
    Follows db (tr.after readers a) s'.links s'.expiryDate := by
  cases a with
  | request id userId formDataJson executed =>
    cases hs
    exact h.request hdb hd
  | answer t xml executed =>
    obtain ⟨thread, ht, hs⟩ := Option.bind_eq_some_iff.mp hs
    split at hs
    · rename_i hprogress
      split at hs <;> rename_i hread <;> cases hs <;> simp only [Trace.after, hread]
      · exact h.answer ht hprogress
      · exact h.advance (fun hp => nomatch hp) fun _ _ hp => nomatch hp
      · exact h.advance (fun hp => nomatch hp) fun _ _ hp => nomatch hp
      · exact h.advance (fun hp => nomatch hp) fun _ _ hp => nomatch hp
    · cases hs
  | refusal t response executed =>
    obtain ⟨thread, ht, hs⟩ := Option.bind_eq_some_iff.mp hs
    split at hs <;> cases hs
    exact h.advance (fun hp => nomatch hp) fun _ _ hp => nomatch hp
  | assign t =>
    obtain ⟨thread, ht, hs⟩ := Option.bind_eq_some_iff.mp hs
    split at hs <;> cases hs
    exact h.assign ht ‹_›
  | firstUpdate t executed | secondUpdate t executed =>
    obtain ⟨thread, ht, hs⟩ := Option.bind_eq_some_iff.mp hs
    split at hs <;> cases hs
    have hcarried := h.carry (List.getElem?_eq_some_iff.mp ht).1
    cases executed with
    | false => exact h.advance (fun hp => nomatch hp) fun _ _ hp => nomatch hp
    | true => exact hcarried.advance (fun hp => nomatch hp) fun _ _ hp => nomatch hp
  | mail t sent =>
    obtain ⟨thread, ht, hs⟩ := Option.bind_eq_some_iff.mp hs
    split at hs <;> cases hs
    cases sent <;> exact h.advance (fun hp => nomatch hp) fun _ _ hp => nomatch hp
  | status | callback | sweep =>
    cases hs
    exact h
  | reportStored | reportFailed =>
    obtain ⟨retrieval, hr, rfl⟩ := Option.map_eq_some_iff.mp hs
    exact h

theorem ids_of_step (hs : step db readers s a = some s')
    (ha : ∀ id userId formDataJson executed, a ≠ .request id userId formDataJson executed) :
    ids s'.links = ids s.links := by
  cases a
  case request id userId formDataJson executed =>
    exact absurd rfl (ha id userId formDataJson executed)
  case status | callback | sweep =>
    cases hs
    rfl
  case reportStored | reportFailed =>
    obtain ⟨_, _, rfl⟩ := Option.map_eq_some_iff.mp hs
    rfl
  all_goals
    obtain ⟨thread, ht, hs⟩ := Option.bind_eq_some_iff.mp hs
    repeat' split at hs
    all_goals cases hs <;> exact ids_modify

theorem hasId_iff {id : String} {row : Transaction} :
    DatabaseUtil.hasId db id row ↔ db.equal row.transactionId id := by
  simp [DatabaseUtil.hasId]

theorem Follows.unique (h : Follows db tr links expiryDate)
    (hdb : Equivalence fun a b => db.equal a b = true) {t t' : Nat} {id id' : String}
    {row : Transaction} (hi : (ids links)[t]? = some id) (hi' : (ids links)[t']? = some id')
    (hrow : DatabaseUtil.hasId db id row) (hrow' : DatabaseUtil.hasId db id' row) : t = t' :=
  h.distinct t t' id id' hi hi' (hdb.trans (hdb.symm (hasId_iff.mp hrow)) (hasId_iff.mp hrow'))

theorem written_of_updates {id : String} {row : Transaction} (ha : Updates t a)
    (hid : (ids s.links)[t]? = some id) (hrow : DatabaseUtil.hasId db id row) :
    (a.executed && selects db s a row) ∧ expiryDateWritten s a = s.expiryDate := by
  rw [ids, List.getElem?_map] at hid
  obtain ⟨thread, ht, rfl⟩ := Option.map_eq_some_iff.mp hid
  obtain rfl | rfl := ha <;> simp [Step.executed, selects, expiryDateWritten, ht, hrow]

theorem not_written (h : Follows db tr s.links s.expiryDate)
    (hdb : Equivalence fun a b => db.equal a b = true) {id : String} {row : Transaction}
    (ha : ¬ Updates t a) (hid : (ids s.links)[t]? = some id)
    (hrow : DatabaseUtil.hasId db id row) (hsel : a.executed && selects db s a row) :
    expiryDateWritten s a = none := by
  have other {t' : Nat} (hany : s.links[t']?.any fun thread =>
      DatabaseUtil.hasId db thread.clientTransactionId row) : t = t' := by
    obtain ⟨thread, ht, hrow'⟩ := (Option.any_eq_true _ _).mp hany
    exact h.unique hdb hid (by rw [ids, List.getElem?_map, ht]; rfl) hrow hrow'
  rw [Bool.and_eq_true] at hsel
  cases a with
  | firstUpdate t' executed =>
    obtain ⟨rfl, hsel⟩ := hsel
    exact absurd (.inl (other hsel ▸ rfl)) ha
  | secondUpdate t' executed =>
    obtain ⟨rfl, hsel⟩ := hsel
    exact absurd (.inr (other hsel ▸ rfl)) ha
  | _ => rfl

theorem stored_of_step (hdb : Equivalence fun a b => db.equal a b = true)
    (h : Follows db tr s.links s.expiryDate) (hd : Distinct db s a) (hst : Stored db tr s)
    (hs : step db readers s a = some s') : Stored db (tr.after readers a) s' := by
  intro t i id row' hid hi hrow' hasid
  by_cases ha : ∃ id userId formDataJson executed, a = .request id userId formDataJson executed
  · obtain ⟨id', userId, formDataJson, executed, rfl⟩ := ha
    cases hs
    have ht := (h.source t i hi).2
    have hid' : (ids s.links)[t]? = some id := by
      simpa [State.write, ids, List.getElem?_append_left, ht] using hid
    obtain hold | hnew := DatabaseUtil.mem_insert db hrow'
    · exact hst t i id row' hid' hi hold hasid
    · -- the new row has another id
      obtain ⟨thread, hmem, rfl⟩ := List.mem_map.mp (List.mem_of_getElem? hid')
      rw [hasId_iff, hnew] at hasid
      exact absurd (hdb.symm hasid) (hd thread hmem)
  · have hne : ∀ id userId formDataJson executed, a ≠ .request id userId formDataJson executed :=
      fun id userId formDataJson executed heq => ha ⟨id, userId, formDataJson, executed, heq⟩
    rw [ids_of_step hs hne] at hid
    obtain ⟨row, hrow, hsame, hwritten⟩ := (updated_of_step hs hne).row hrow'
    have hasid' : DatabaseUtil.hasId db id row := by
      rw [hasId_iff, ← hsame]
      exact hasId_iff.mp hasid
    by_cases hu : Updates t a
    · obtain ⟨hsel, hdate⟩ := written_of_updates hu hid hasid'
      rw [source_of_updates hu] at hi
      have hparsed := h.assigner i hi
      rw [if_pos hsel, hdate, h.field, hi, Option.bind_some] at hwritten
      rw [parsed_after h hs hparsed, hwritten.2]
      obtain ⟨d, hd⟩ := Option.ne_none_iff_exists'.mp hparsed
      rw [hd, Option.some_or]
    · rw [source_of_not_updates hu] at hi
      rw [parsed_after h hs (h.source t i hi).1, ← hst t i id row hid hi hrow hasid']
      split at hwritten
      · rename_i hsel
        rw [hwritten.2, not_written h hdb hu hid hasid' hsel, Option.none_or]
      · rw [hwritten]

theorem trace_append (h : List Step) (a : Step) :
    trace readers (h ++ [a]) = (trace readers h).after readers a := by
  simp [trace]

structure Traced (db : Database) (readers : Readers) (h : List Step) (s : State) : Prop where
  threads : Follows db (trace readers h) s.links s.expiryDate
  stored : Stored db (trace readers h) s
  sources : ∀ t, (∃ a ∈ h, Updates t a) → (trace readers h).source t ≠ none

theorem assigned_of_updates (h : Follows db tr s.links s.expiryDate) (ha : Updates t a)
    (hs : step db readers s a = some s') : tr.assigner ≠ none := by
  intro hnone
  have hfield : s.expiryDate = none := by rw [h.field, hnone, Option.bind_none]
  obtain rfl | rfl := ha
  · obtain ⟨thread, ht, hs⟩ := Option.bind_eq_some_iff.mp hs
    simp [hfield] at hs
  · obtain ⟨thread, ht, hs⟩ := Option.bind_eq_some_iff.mp hs
    simp [hfield] at hs

theorem traced_of_run (hdb : Equivalence fun a b => db.equal a b = true) {table : Table}
    {h : List Step} {s : State}
    (hr : Run (step db readers) (fun _ s a => Distinct db s a) (start table) h s) :
    Traced db readers h s := by
  refine Run.invariant (Traced db readers) ⟨.start, ?_, ?_⟩ ?_ hr
  · intro t t' id row hid
    cases hid
  · intro t ⟨a, ha, _⟩
    cases ha
  intro h s a s' _ hinv hd hs
  refine ⟨?_, ?_, ?_⟩ <;> rw [trace_append]
  · exact threads_of_step hdb hinv.threads hd hs
  · exact stored_of_step hdb hinv.threads hd hinv.stored hs
  · intro t ⟨b, hb, hu⟩
    by_cases ha : Updates t a
    · rw [source_of_updates ha]
      exact assigned_of_updates hinv.threads ha hs
    · rw [source_of_not_updates ha]
      have hold : b ∈ h := by
        obtain hb | hb := List.mem_append.mp hb
        · exact hb
        · rw [List.mem_singleton.mp hb] at hu
          exact absurd hu ha
      exact hinv.sources t ⟨b, hold, hu⟩

/-- After any run of link generations for distinct transactions, beside whatever else writes the
table, the rows hold the dates of their own answers exactly if for each thread the one that had
assigned the field when its last update was carried out had read the same date. -/
theorem own_dates_stored_iff (hdb : Equivalence fun a b => db.equal a b = true) {table : Table}
    {h : List Step} {s : State}
    (hr : Run (step db readers) (fun _ s a => Distinct db s a) (start table) h s) :
    (∀ t row, Owns db h s t row → row.expiryDate = (trace readers h).parsed t) ↔
      ∀ t row, Owns db h s t row → ∀ t', (trace readers h).source t = some t' →
        (trace readers h).parsed t' = (trace readers h).parsed t := by
  have hinv := traced_of_run hdb hr
  have stored {t t' : Nat} {row : Transaction} (hown : Owns db h s t row)
      (hsource : (trace readers h).source t = some t') :
      row.expiryDate = (trace readers h).parsed t' := by
    obtain ⟨thread, ht, hrow⟩ := hown.thread
    have hid : (ids s.links)[t]? = some thread.clientTransactionId := by
      rw [ids, List.getElem?_map, ht, Option.map_some]
    exact hinv.stored t t' _ row hid hsource hown.stored hrow
  constructor
  · intro hdates t row hown t' hsource
    rw [← stored hown hsource]
    exact hdates t row hown
  · intro hsources t row hown
    obtain ⟨t', hsource⟩ := Option.ne_none_iff_exists'.mp (hinv.sources t hown.updated)
    rw [stored hown hsource]
    exact hsources t row hown t' hsource

def januaryXml : String := "<Success>2018-01-01</Success>"

def februaryXml : String := "<Success>2018-02-01</Success>"

def datedReaders : Readers where
  generateUrlSuccess xml := some ⟨some "https://link", some xml⟩
  errorResponse _ := none
  transactionStatus _ := none
  convert date := if date = some januaryXml then some 1514764800000 else some 1517443200000

def linkGeneration (t : Nat) (clientTransactionId xml : String) : List Step :=
  [.request clientTransactionId 1 none true, .answer t xml true, .assign t, .firstUpdate t true,
    .mail t true, .secondUpdate t true]

theorem plain_equivalence : Equivalence fun a b => Database.plain.equal a b = true where
  refl _ := by simp [Database.plain]
  symm h := by simp_all [Database.plain]
  trans h h' := by simp_all [Database.plain]

theorem run_of_exec_distinct {h : List Step} {s₀ s : State}
    (he : exec (fun s a => if decide (Distinct .plain s a) then step .plain datedReaders s a
      else none) s₀ h = some s) :
    Run (step .plain datedReaders) (fun _ s a => Distinct .plain s a) s₀ h s :=
  run_of_exec_checked (fun _ _ _ hc => of_decide_eq_true hc) he

/-- One link generation after the other. -/
theorem own_dates_stored_in_turn :
    ∃ s, Run (step .plain datedReaders) (fun _ s a => Distinct .plain s a) (start [])
        (linkGeneration 0 "T1" januaryXml ++ linkGeneration 1 "T2" februaryXml) s ∧
      (∀ thread ∈ s.links, thread.progress = .done) ∧
      ∀ t row, Owns .plain (linkGeneration 0 "T1" januaryXml ++ linkGeneration 1 "T2" februaryXml)
        s t row → row.expiryDate = (trace datedReaders (linkGeneration 0 "T1" januaryXml ++
          linkGeneration 1 "T2" februaryXml)).parsed t := by
  have hr : Run (step .plain datedReaders) (fun _ s a => Distinct .plain s a) (start [])
      (linkGeneration 0 "T1" januaryXml ++ linkGeneration 1 "T2" februaryXml) _ :=
    run_of_exec_distinct rfl
  refine ⟨_, hr, by decide +kernel, (own_dates_stored_iff plain_equivalence hr).mpr ?_⟩
  intro t row hown t' hsource
  have ht : t = 0 ∨ t = 1 := by
    obtain ⟨a, ha, rfl | rfl⟩ := hown.updated <;> simpa [linkGeneration] using ha
  obtain rfl | rfl := ht <;> cases hsource <;> rfl

/-- Both threads have assigned the field before either of them updates its row. -/
def overtaken : List Step :=
  [.request "T1" 1 none true, .request "T2" 1 none true, .answer 0 januaryXml true,
    .answer 1 februaryXml true, .assign 0, .assign 1, .firstUpdate 0 true, .firstUpdate 1 true,
    .mail 0 true, .mail 1 true, .secondUpdate 0 true, .secondUpdate 1 true]

theorem dates_exchanged :
    ∃ s, Run (step .plain datedReaders) (fun _ s a => Distinct .plain s a) (start []) overtaken s ∧
      (∀ thread ∈ s.links, thread.progress = .done) ∧
      ∃ t row, Owns .plain overtaken s t row ∧
        row.expiryDate ≠ (trace datedReaders overtaken).parsed t := by
  refine ⟨_, run_of_exec_distinct rfl, by decide +kernel, 0, _, ⟨⟨.firstUpdate 0 true, ?_, .inl rfl⟩,
    List.mem_cons_self, _, rfl, ?_⟩, ?_⟩
  · decide +kernel
  · decide +kernel
  · decide +kernel

end InsightsAssist.TransactionStatus
