import Mathlib.Data.Nat.Find
import InsightsAssist.ApiCalls
import InsightsAssist.PostProcessing

/-! One link request by itself: the row that is inserted, and the up to ten attempts of the
thread that asks the provider for the link. -/
namespace InsightsAssist

/-- The transactions table, and the field of the GenerateLinkPostProcess. -/
structure LinkStore where
  iaTransactions : Table
  expiryDate : Option Int
  deriving DecidableEq

namespace LinkStore

def onTable {α : Type} (m : Java Table α) : Java LinkStore α :=
  Prog.zoom iaTransactions (fun iaTransactions s => { s with iaTransactions }) m

end LinkStore

/-- Which of the statements and mails of an attempt are carried out. -/
structure Effects where
  firstUpdate : Bool
  mail : Bool
  secondUpdate : Bool
  error : Bool
  deriving DecidableEq, Repr

namespace GenerateLinkPostProcess
variable (db : Database) (readers : Readers) (clientTransactionId : Option String)

/-- A link update with the date that is in the field. -/
def update (statement : Int → Table → Table) : Java LinkStore Unit := do
  let s ← get
  let expiryDate ← Java.deref s.expiryDate
  set { s with iaTransactions := statement expiryDate s.iaTransactions }

def sendMail (sent : Bool) : Java LinkStore Unit :=
  if sent then pure () else throw (.external "mail")

def autheticate (effects : Effects) (xml : String) : Java LinkStore Unit :=
  match read readers xml with
  | .success url expires => tryCatch (do
      modify fun s => { s with expiryDate := some expires }
      update fun expiryDate =>
        firstUpdate db clientTransactionId url expiryDate effects.firstUpdate
      sendMail effects.mail
      update fun expiryDate =>
        secondUpdate db clientTransactionId url expiryDate effects.secondUpdate)
    fun _ => pure ()
  | .error => LinkStore.onTable (modify (errorUpdate db clientTransactionId effects.error))
  | .caught | .neither => pure ()

end GenerateLinkPostProcess

namespace LinkRequests
open ApiCalls

structure Attempt where
  exchange : Exchange
  effects : Effects

variable (db : Database) (readers : Readers) (clientTransactionId : String)

/-- `MakeInsightsApiRequest.call` with its post-processing. -/
def call (a : Attempt) : Java (State LinkStore) Bool :=
  MakeInsightsApiRequest.call a.exchange
    (GenerateLinkPostProcess.autheticate db readers clientTransactionId a.effects)
    fun response => LinkStore.onTable
      (GenerateLinkPostProcess.logError db readers response clientTransactionId a.effects.error)

def attempt (a : Attempt) : Java LinkStore Bool := fun s =>
  let r := (call db readers clientTransactionId a).run ⟨0, [], s⟩
  (r.1, r.2.app)

/-- `executeAsync`, its thread run to the end; the n-th attempt meets `attempts n`. -/
def executeAsync (attempts : Nat → Attempt) : LinkStore → List Attempt × LinkStore :=
  Retryer.call (attempt db readers clientTransactionId) 10 ((List.range 10).map attempts)

/-- The end of `GenerateInsightsStatementUploadUrl.execute`. -/
def execute (userId : Int) (formDataJson : Option String) (executed : Bool)
    (attempts : Nat → Attempt) (s : LinkStore) : List Attempt × LinkStore :=
  executeAsync db readers clientTransactionId attempts { s with
    iaTransactions := DatabaseUtil.insertIntoTransactions db clientTransactionId userId .INITIATED
      formDataJson 0 (some "Initial Request sent") executed s.iaTransactions }

/-- The response with status 200, 400 or 404 that an attempt processes; none where every response
has another status, and an error where an exchange throws. -/
def received (exchange : Exchange) : Except Throwable (Option HttpResponse) := do
  let _ ← exchange 0
  let first ← exchange 1
  if first.status = 200 then return some (← exchange 2)
  let second ← exchange 2
  if second.status = 400 then return some (← exchange 3)
  let third ← exchange 3
  if third.status = 404 then return some (← exchange 4)
  return none

def Attempt.Answered (a : Attempt) : Prop := ∃ response, received a.exchange = .ok (some response)

def Attempt.Other (a : Attempt) : Prop := received a.exchange = .ok none

/-- An attempt that throws or gets another status is followed by another one unless it is the
tenth. -/
def Retried (attempts : Nat → Attempt) (made : List Attempt) : Prop :=
  ∀ i < made.length, ¬ (attempts i).Answered → i + 1 < 10 → i + 1 < made.length

/-- When no attempt gets one of the three statuses, the transaction inserted at place `n` is
recorded as an error. -/
def Recorded (attempts : Nat → Attempt) (n : Nat) (r : List Attempt × LinkStore) : Prop :=
  (∀ i < r.1.length, ¬ (attempts i).Answered) →
    ∃ row, r.2.iaTransactions[n]? = some row ∧ row.status = .ERROR

/-! ### How one attempt ends -/
section Ends
variable {σ : Type} {exchange : Exchange} {app : σ} {n : Nat}

def answer : Except Throwable (Option HttpResponse) → Bool
  | .ok none => false
  | _ => true

/-- From the n-th exchange on, an attempt that receives `r` ends the loop unless every status is
another one, and works on `app` only where a response is processed. -/
def Ends (m : Java (State σ) Bool) (n : Nat) (app : σ)
    (r : Except Throwable (Option HttpResponse)) : Prop :=
  ∃ t, (logged m).run ⟨n, [], app⟩ = (.ok (answer r), t) ∧
    ((∃ response, r = .ok (some response)) ∨ t.app = app)

theorem logged_bind {α : Type} (m : Java (State σ) α) (f : α → Java (State σ) Bool)
    (s : State σ) : (logged (m >>= f)).run s = match m.run s with
      | (.ok a, t) => (logged (f a)).run t
      | (.error _, t) => (.ok true, t) := by
  simp only [logged, Prog.run_tryCatch, Prog.run_bind]
  obtain ⟨e | a, t⟩ := m.run s <;> rfl

theorem ends_asString {f : Response → Java (State σ) Bool}
    {r : HttpResponse → Except Throwable (Option HttpResponse)}
    (h : ∀ response, Ends (f { response with number := n }) (n + 1) app (r response)) :
    Ends (asString exchange >>= f) n app (exchange n >>= r) := by
  have hrun := logged_bind (asString exchange) f ⟨n, [], app⟩
  rw [asString_run] at hrun
  cases hx : exchange n with
  | error e =>
    simp only [hx] at hrun
    exact ⟨_, hrun, .inr rfl⟩
  | ok response =>
    simp only [hx] at hrun
    obtain ⟨t, ht, hkept⟩ := h response
    exact ⟨t, hrun.trans ht, hkept⟩

theorem ends_anyStatus {status : Nat} {rest : List Nat}
    {f : Option Response → Java (State σ) Bool} {r r' : Except Throwable (Option HttpResponse)}
    (hyes : ∀ selected, Ends (f (some selected)) (n + 1) app r)
    (hno : Ends (anyStatus exchange rest >>= f) (n + 1) app r') :
    Ends (anyStatus exchange (status :: rest) >>= f) n app
      (exchange n >>= fun response => if response.status = status then r else r') := by
  rw [anyStatus, Prog.bind_assoc]
  apply ends_asString
  intro response
  by_cases hs : response.status = status
  · simp only [if_pos hs]
    exact hyes _
  · simp only [if_neg hs]
    exact hno

theorem ends_handOver {selected : Response} {process : Response → Java σ Unit} :
    Ends (handOver exchange selected process >>= fun _ => pure true) n app
      (exchange n >>= fun response => pure (some response)) := by
  rw [handOver, Prog.bind_assoc]
  apply ends_asString
  intro response
  have ends (m : Java (State σ) Unit) :
      Ends (m >>= fun _ => pure true) (n + 1) app (.ok (some response)) := by
    have hrun := logged_bind m (fun _ => pure true) ⟨n + 1, [], app⟩
    rcases hm : m.run ⟨n + 1, [], app⟩ with ⟨e | u, t⟩ <;> rw [hm] at hrun
    · exact ⟨t, hrun, .inl ⟨response, rfl⟩⟩
    · exact ⟨t, hrun, .inl ⟨response, rfl⟩⟩
  exact ends _

theorem ends_call (autheticate logError : String → Java σ Unit) :
    ∃ m, MakeInsightsApiRequest.call exchange autheticate logError = logged m ∧
      Ends m 0 app (received exchange) := by
  have other : Ends (pure false : Java (State σ) Bool) 4 app (.ok none) := ⟨_, rfl, .inr rfl⟩
  refine ⟨_, rfl, ends_asString fun _ => ends_anyStatus (fun _ => ends_handOver) ?_⟩
  apply ends_anyStatus (fun _ => ends_handOver)
  exact ends_anyStatus (fun _ => ends_handOver) other

end Ends

theorem attempt_run (a : Attempt) (s : LinkStore) :
    ∃ t, (attempt db readers clientTransactionId a).run s =
      (.ok (answer (received a.exchange)), t) ∧ (a.Answered ∨ t = s) := by
  obtain ⟨m, hcall, t, ht, hkept⟩ : ∃ m, call db readers clientTransactionId a = logged m ∧
      Ends m 0 s (received a.exchange) := ends_call _ _
  rw [← hcall] at ht
  exact ⟨t.app, congrArg (fun r => (r.1, r.2.app)) ht, hkept⟩

/-! ### The loop -/

theorem call_others {earlier : List Attempt} (h : ∀ a ∈ earlier, a.Other) (rest : List Attempt)
    (n : Nat) (s : LinkStore) :
    let r := Retryer.call (attempt db readers clientTransactionId) n rest s
    Retryer.call (attempt db readers clientTransactionId) (earlier.length + n) (earlier ++ rest)
      s = (earlier ++ r.1, r.2) := by
  induction earlier with
  | nil => simp
  | cons a earlier ih =>
    obtain ⟨ha, hrest⟩ := List.forall_mem_cons.mp h
    have hrun : (attempt db readers clientTransactionId a).run s = (.ok false, s) := by
      obtain ⟨t, ht, hanswered | rfl⟩ := attempt_run db readers clientTransactionId a s
      · obtain ⟨response, hr⟩ := hanswered
        cases ha.symm.trans hr
      · rw [ha] at ht
        exact ht
    rw [List.length_cons, Nat.add_right_comm, List.cons_append, Retryer.call, hrun]
    simp only [ih hrest, List.cons_append]

theorem call_last {a : Attempt} (h : ¬ a.Other) (rest : List Attempt) (n : Nat) (s : LinkStore) :
    ∃ t, Retryer.call (attempt db readers clientTransactionId) (n + 1) (a :: rest) s = ([a], t) ∧
      (a.Answered ∨ t = s) := by
  obtain ⟨t, ht, hkept⟩ := attempt_run db readers clientTransactionId a s
  have hanswer : answer (received a.exchange) = true := by
    unfold answer
    split
    · exact absurd ‹_› h
    · rfl
  rw [hanswer] at ht
  refine ⟨t, ?_, hkept⟩
  rw [Retryer.call, ht]

variable {attempts : Nat → Attempt} {k : Nat}

theorem others_of_lt (h : ∀ i < k, (attempts i).Other) :
    ∀ a ∈ (List.range k).map attempts, a.Other := by
  intro a ha
  obtain ⟨i, hi, rfl⟩ := List.mem_map.mp ha
  exact h i (List.mem_range.mp hi)

theorem executeAsync_others (h : ∀ i < 10, (attempts i).Other) (s : LinkStore) :
    executeAsync db readers clientTransactionId attempts s = ((List.range 10).map attempts, s) := by
  have hcall := call_others db readers clientTransactionId (others_of_lt h) [] 0 s
  simpa [executeAsync, Retryer.call] using hcall

theorem executeAsync_last (hk : k < 10) (h : ∀ i < k, (attempts i).Other)
    (hlast : ¬ (attempts k).Other) (s : LinkStore) :
    ∃ t, executeAsync db readers clientTransactionId attempts s =
      ((List.range (k + 1)).map attempts, t) ∧ ((attempts k).Answered ∨ t = s) := by
  obtain ⟨m, hm⟩ : ∃ m, 10 = k + (m + 1) := ⟨9 - k, by omega⟩
  have hsplit : (List.range 10).map attempts = (List.range k).map attempts ++
      attempts k :: (List.range m).map fun i => attempts (k + (i + 1)) := by
    rw [hm, List.range_add, List.range_succ_eq_map]
    simp
  have hlength : 10 = ((List.range k).map attempts).length + (m + 1) := by simpa using hm
  obtain ⟨t, ht, hkept⟩ := call_last db readers clientTransactionId hlast
    ((List.range m).map fun i => attempts (k + (i + 1))) m s
  refine ⟨t, ?_, hkept⟩
  rw [executeAsync, hsplit, hlength, call_others db readers clientTransactionId (others_of_lt h), ht,
    List.range_succ, List.map_append]
  rfl

variable {db readers clientTransactionId}

theorem inserted_not_error {table : Table} {userId : Int} {formDataJson message : Option String}
    {executed : Bool} :
    ¬ ∃ row, (DatabaseUtil.insertIntoTransactions db clientTransactionId userId .INITIATED
      formDataJson 0 message executed table)[table.length]? = some row ∧ row.status = .ERROR := by
  intro ⟨row, hrow, hstatus⟩
  cases executed with
  | false => simp [DatabaseUtil.insertIntoTransactions] at hrow
  | true =>
    simp only [DatabaseUtil.insertIntoTransactions, if_true, List.getElem?_concat_length] at hrow
    cases hrow
    cases hstatus

theorem Attempt.Other.not_answered {a : Attempt} (h : a.Other) : ¬ a.Answered := by
  intro ⟨response, hr⟩
  cases h.symm.trans hr

theorem exists_first (h : ¬ ∀ i < 10, (attempts i).Other) :
    ∃ k < 10, ¬ (attempts k).Other ∧ ∀ i < k, (attempts i).Other := by
  classical
  have hex : ∃ k, k < 10 ∧ ¬ (attempts k).Other := by simpa using h
  obtain ⟨hk, hlast⟩ := Nat.find_spec hex
  refine ⟨Nat.find hex, hk, hlast, fun i hi => ?_⟩
  have hmin := Nat.find_min hex hi
  by_contra hother
  exact hmin ⟨by omega, hother⟩

theorem not_met_of_thrown {n : Nat} {r : List Attempt × LinkStore}
    (hmade : r.1 = (List.range (k + 1)).map attempts) (hk : k < 10)
    (hbefore : ∀ i < k, (attempts i).Other) (hthrown : ¬ (attempts k).Answered)
    (hrow : ¬ ∃ row, r.2.iaTransactions[n]? = some row ∧ row.status = .ERROR) :
    ¬ (Retried attempts r.1 ∧ Recorded attempts n r) := by
  intro ⟨hretried, hrecorded⟩
  have hlength : r.1.length = k + 1 := by simp [hmade]
  have hten : ¬ k + 1 < 10 := by
    intro hlt
    have := hretried k (by omega) hthrown hlt
    omega
  apply hrow
  apply hrecorded
  intro i hi
  have hi' : i < k ∨ i = k := by omega
  obtain hlt | rfl := hi'
  · exact (hbefore i hlt).not_answered
  · exact hthrown

/-- A run of the thread meets the contract exactly if one of the ten attempts gets a response with
status 200, 400 or 404 and every attempt before it gets one with another status: none throws. -/
theorem retried_and_recorded_iff (userId : Int) (formDataJson : Option String) (executed : Bool)
    (s : LinkStore) :
    let r := execute db readers clientTransactionId userId formDataJson executed attempts s
    Retried attempts r.1 ∧ Recorded attempts s.iaTransactions.length r ↔
      ∃ k < 10, (attempts k).Answered ∧ ∀ i < k, (attempts i).Other := by
  intro r
  by_cases hall : ∀ i < 10, (attempts i).Other
  · have hr : r = _ := executeAsync_others db readers clientTransactionId hall _
    apply iff_of_false
    · intro ⟨_, hrecorded⟩
      rw [hr] at hrecorded
      apply inserted_not_error (hrecorded fun i hi => ?_)
      exact (hall i (by simpa using hi)).not_answered
    · intro ⟨k, hk, hanswered, _⟩
      exact (hall k hk).not_answered hanswered
  -- otherwise the first attempt that does not have another status decides
  obtain ⟨k, hk, hlast, hbefore⟩ := exists_first hall
  obtain ⟨t, ht, hkept⟩ := executeAsync_last db readers clientTransactionId hk hbefore hlast { s with
    iaTransactions := DatabaseUtil.insertIntoTransactions db clientTransactionId userId .INITIATED
      formDataJson 0 (some "Initial Request sent") executed s.iaTransactions }
  have hr : r = ((List.range (k + 1)).map attempts, t) := ht
  by_cases hanswered : (attempts k).Answered
  · have hlength : r.1.length = k + 1 := by simp [hr]
    refine iff_of_true ⟨?_, ?_⟩ ⟨k, hk, hanswered, hbefore⟩
    · intro i hi hno _
      have hik : i ≠ k := fun heq => hno (heq ▸ hanswered)
      omega
    · intro hno
      exact absurd hanswered (hno k (by omega))
  · obtain rfl := hkept.resolve_left hanswered
    apply iff_of_false
    · rw [hr]
      exact not_met_of_thrown rfl hk hbefore hanswered inserted_not_error
    · intro ⟨j, hj, hanswered', hbefore'⟩
      obtain hlt | rfl | hgt := Nat.lt_trichotomy j k
      · exact (hbefore j hlt).not_answered hanswered'
      · exact hanswered hanswered'
      · exact hlast (hbefore' k hgt)

def unreadable : Readers := ⟨fun _ => none, fun _ => none, fun _ => none, fun _ => none⟩

/-- The first attempt times out; later ones would be accepted. -/
def timedOut (i : Nat) : Attempt where
  exchange _ := if i = 0 then .error (.external "timeout") else .ok ⟨200, "<Success/>", []⟩
  effects := ⟨true, true, true, true⟩

def unavailable (_ : Nat) : Attempt where
  exchange _ := .ok ⟨503, "unavailable", []⟩
  effects := ⟨true, true, true, true⟩

/-- A time-out is not retried, and ten other answers are recorded nowhere. -/
theorem request_left_initiated :
    ¬ Retried timedOut (execute .plain unreadable "T1" 1 none true timedOut ⟨[], none⟩).1 ∧
      ¬ Recorded unavailable 0
        (execute .plain unreadable "T1" 1 none true unavailable ⟨[], none⟩) := by
  constructor
  · intro hretried
    have hthrown : ¬ (timedOut 0).Answered := by
      intro ⟨response, hr⟩
      cases hr
    exact absurd (hretried 0 (by decide) hthrown (by decide)) (by decide)
  · intro hrecorded
    have hother : ∀ i < 10, ¬ (unavailable i).Answered := by
      intro i _ ⟨response, hr⟩
      cases hr
    obtain ⟨row, hrow, hstatus⟩ := hrecorded hother
    cases hrow
    cases hstatus

end LinkRequests
end InsightsAssist
