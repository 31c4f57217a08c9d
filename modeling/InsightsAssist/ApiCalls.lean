import InsightsAssist.Java

/-! One attempt of each call to the provider. Every `asString()` is an exchange of its own, so
the status that chooses a branch and the body that is handed over come from different ones. -/
namespace InsightsAssist.ApiCalls
variable {σ : Type}

structure HttpResponse where
  status : Nat
  body : String
  rawBody : List UInt8
  deriving DecidableEq, Repr

/-- What the n-th exchange brings: a response, or the exception it ends with. -/
abbrev Exchange := Nat → Except Throwable HttpResponse

/-- A response object, by the exchange it came from. -/
structure Response extends HttpResponse where
  number : Nat

/-- A body given to the post-processing: the exchange whose status chose the branch, and the
exchange the body is of. -/
structure Handover where
  selectedBy : Nat
  bodyOf : Nat
  deriving DecidableEq, Repr

structure State (σ : Type) where
  posts : Nat
  handovers : List Handover
  app : σ

def asString (exchange : Exchange) : Java (State σ) Response := do
  let s ← get
  set { s with posts := s.posts + 1 }
  match exchange s.posts with
  | .ok response => return { response with number := s.posts }
  | .error e => throw e

/-- `asString().getStatus() == a || asString().getStatus() == b || …`: an exchange for each
comparison up to the one that succeeds, whose response is returned. -/
def anyStatus (exchange : Exchange) : List Nat → Java (State σ) (Option Response)
  | [] => return none
  | status :: rest => do
    let response ← asString exchange
    if response.status = status then return some response else anyStatus exchange rest

/-- The argument `asString().getBody()` of a post-processing call, and the call. -/
def handOver (exchange : Exchange) (selected : Response) (postProcess : Response → Java σ Unit) :
    Java (State σ) Unit := do
  let read ← asString exchange
  modify fun s => { s with handovers := s.handovers ++ [⟨selected.number, read.number⟩] }
  Prog.zoom State.app (fun app s => { s with app }) (postProcess read)

/-- What is thrown is logged, and the attempt answers true. -/
def logged (attempt : Java (State σ) Bool) : Java (State σ) Bool :=
  tryCatch attempt fun _ => return true

variable (exchange : Exchange)

namespace MakeInsightsApiRequest

def call (autheticate logError : String → Java σ Unit) : Java (State σ) Bool := logged do
  let _ ← asString exchange
  match ← anyStatus exchange [200] with
  | some selected =>
    handOver exchange selected fun read => autheticate read.body
    return true
  | none =>
    match ← anyStatus exchange [400, 404] with
    | some selected =>
      handOver exchange selected fun read => logError read.body
      return true
    | none => return false

end MakeInsightsApiRequest

namespace InsightsTransactionStatusCall

def call (autheticate : String → Java σ Unit) : Java (State σ) Bool := logged do
  let _ ← asString exchange
  match ← anyStatus exchange [200, 400, 404] with
  | some selected =>
    handOver exchange selected fun read => autheticate read.body
    return true
  | none => return false

end InsightsTransactionStatusCall

namespace RetrieveReportCall

/-- The rest of an attempt whose status is not 200. A refusal is retried: the answer is false. -/
def refused (logError : String → Java σ Unit) : Java (State σ) Bool := do
  match ← anyStatus exchange [404, 400] with
  | some selected =>
    handOver exchange selected fun read => logError read.body
    return false
  | none => return false

def call (autheticate : List UInt8 → Java σ Unit) (logError : String → Java σ Unit) :
    Java (State σ) Bool := logged do
  match ← anyStatus exchange [200] with
  | some selected =>
    handOver exchange selected fun read => autheticate read.rawBody
    return true
  | none => refused exchange logError

end RetrieveReportCall

/-- `retryer.call(callable)` with so many attempts at most: a result of false and an exception
are retried. The attempts that were made, and the state they lead to. -/
def Retryer.call {ι σ : Type} (callable : ι → Java σ Bool) : Nat → List ι → σ → List ι × σ
  | 0, _, s | _, [], s => ([], s)
  | n + 1, a :: rest, s =>
    match (callable a).run s with
    | (.ok true, t) => ([a], t)
    | (_, t) => let r := Retryer.call callable n rest t; (a :: r.1, r.2)

inductive Caller where
  | MakeInsightsApiRequest | InsightsTransactionStatusCall | RetrieveReportCall
  deriving DecidableEq, Repr

structure PostProcessing (σ : Type) where
  linkAutheticate : String → Java σ Unit
  linkLogError : String → Java σ Unit
  statusAutheticate : String → Java σ Unit
  reportAutheticate : List UInt8 → Java σ Unit
  reportLogError : String → Java σ Unit

variable (post : PostProcessing σ)

def Caller.call : Caller → Java (State σ) Bool
  | .MakeInsightsApiRequest =>
    MakeInsightsApiRequest.call exchange post.linkAutheticate post.linkLogError
  | .InsightsTransactionStatusCall =>
    InsightsTransactionStatusCall.call exchange post.statusAutheticate
  | .RetrieveReportCall =>
    RetrieveReportCall.call exchange post.reportAutheticate post.reportLogError

/-- The state after an attempt that starts when `posts` exchanges have been made. -/
def Caller.attempt (c : Caller) (posts : Nat) (app : σ) : State σ :=
  ((c.call exchange post).run ⟨posts, [], app⟩).2

/-- The attempt makes one exchange, and hands over a body only of the response that chose the
branch. -/
def OneExchange (posts : Nat) (s : State σ) : Prop :=
  s.posts = posts + 1 ∧ ∀ x ∈ s.handovers, x.selectedBy = x.bodyOf

def answered (n status : Nat) : Bool :=
  match exchange n with
  | .ok response => response.status = status
  | .error _ => false

/-- At least `k` exchanges since the start, and no body handed over but of a later exchange
than the one that chose its branch. -/
def After (posts k : Nat) (s : State σ) : Prop :=
  posts + k ≤ s.posts ∧ ∀ x ∈ s.handovers, x.selectedBy < x.bodyOf

variable {exchange post} {posts k : Nat}

theorem Retryer.call_eq_cons {ι σ : Type} {callable : ι → Java σ Bool} {n : Nat}
    {attempts made : List ι} {s : σ} {a : ι} (h : (call callable n attempts s).1 = a :: made) :
    ∃ r t, (callable a).run s = (r, t) ∧
      (r = .ok true ∧ made = [] ∧ (call callable n attempts s).2 = t ∨
        r ≠ .ok true ∧ ∃ m rest, (call callable m rest t).1 = made ∧
          (call callable n attempts s).2 = (call callable m rest t).2) := by
  match n, attempts with
  | 0, _ => cases h
  | n + 1, [] => cases h
  | n + 1, b :: rest =>
    simp only [call] at h ⊢
    split at h
    · rename_i t hrun
      cases h
      exact ⟨_, t, hrun, .inl ⟨rfl, rfl, rfl⟩⟩
    · rename_i r t hr hrun
      cases h
      exact ⟨r, t, hrun, .inr ⟨hr, n, rest, rfl, rfl⟩⟩

theorem asString_run (s : State σ) : (asString exchange).run s =
    match exchange s.posts with
    | .ok response => (.ok { response with number := s.posts }, { s with posts := s.posts + 1 })
    | .error e => (.error e, { s with posts := s.posts + 1 }) := by
  simp only [asString, Prog.run_bind, Prog.run_get, Prog.run_set]
  cases exchange s.posts <;> rfl

theorem asString_eq_ok {s t : State σ} {r : Response} : (asString exchange).run s = (.ok r, t) ↔
    ∃ response, exchange s.posts = .ok response ∧ r = { response with number := s.posts } ∧
      t = { s with posts := s.posts + 1 } := by
  rw [asString_run]
  cases exchange s.posts with
  | error e => simp
  | ok response => simp [eq_comm]

theorem anyStatus_eq_ok {s t : State σ} {status : Nat} {rest : List Nat} {r : Option Response} :
    (anyStatus exchange (status :: rest)).run s = (.ok r, t) ↔
      ∃ response, exchange s.posts = .ok response ∧
        (if response.status = status then
          r = some { response with number := s.posts } ∧ t = { s with posts := s.posts + 1 }
        else (anyStatus exchange rest).run { s with posts := s.posts + 1 } = (.ok r, t)) := by
  simp only [anyStatus, Prog.run_bind_eq_ok, asString_eq_ok]
  constructor
  · rintro ⟨_, _, ⟨response, hx, rfl, rfl⟩, h⟩
    refine ⟨response, hx, ?_⟩
    rw [Prog.run_ite] at h
    split at h
    · rw [if_pos ‹_›]
      simpa [eq_comm] using h
    · rwa [if_neg ‹_›]
  · rintro ⟨response, hx, h⟩
    refine ⟨_, _, ⟨response, hx, rfl, rfl⟩, ?_⟩
    rw [Prog.run_ite]
    split
    · rw [if_pos ‹_›] at h
      simp [h]
    · rwa [if_neg ‹_›] at h

theorem handOver_eq_ok {s t : State σ} {selected : Response} {process : Response → Java σ Unit}
    {u : Unit} : (handOver exchange selected process).run s = (.ok u, t) ↔
      ∃ response app, exchange s.posts = .ok response ∧
        (process { response with number := s.posts }).run s.app = (.ok u, app) ∧
        t = ⟨s.posts + 1, s.handovers ++ [⟨selected.number, s.posts⟩], app⟩ := by
  simp only [handOver, Prog.run_bind_eq_ok, asString_eq_ok, Prog.run_modify, Prog.run_zoom]
  constructor
  · rintro ⟨_, _, ⟨response, hx, rfl, rfl⟩, _, _, ⟨⟩, h⟩
    obtain ⟨hr, rfl⟩ := Prod.mk.inj h
    exact ⟨response, _, hx, Prod.ext hr rfl, rfl⟩
  · rintro ⟨response, app, hx, hp, rfl⟩
    exact ⟨_, _, ⟨response, hx, rfl, rfl⟩, _, _, rfl, by rw [hp]⟩

theorem answered_of_ok {n status : Nat} {response : HttpResponse} (h : exchange n = .ok response) :
    answered exchange n status = decide (response.status = status) := by
  rw [answered, h]

theorem exists_of_answered {n status : Nat} (h : answered exchange n status) :
    ∃ response, exchange n = .ok response ∧ response.status = status := by
  unfold answered at h
  split at h
  · exact ⟨_, ‹_›, of_decide_eq_true h⟩
  · cases h

theorem refused_eq_ok {logError : String → Java σ Unit} {s t : State σ} {answer : Bool}
    (h : (RetrieveReportCall.refused exchange logError).run s = (.ok answer, t)) :
    if answered exchange s.posts 404 || answered exchange (s.posts + 1) 400 then
      ∃ body, (logError body).run s.app = (.ok (), t.app)
    else t.app = s.app := by
  obtain ⟨selected, u, htest, hrest⟩ := Prog.run_bind_eq_ok.mp h
  have handed : ∀ {selected : Response}, u.app = s.app →
      ((handOver exchange selected fun read => logError read.body) >>= fun _ => pure false).run u =
        (.ok answer, t) → ∃ body, (logError body).run s.app = (.ok (), t.app) := by
    intro selected happ hrun
    obtain ⟨_, _, hover, hpure⟩ := Prog.run_bind_eq_ok.mp hrun
    obtain ⟨read, app, _, hlog, rfl⟩ := handOver_eq_ok.mp hover
    cases hpure
    exact ⟨_, happ ▸ hlog⟩
  obtain ⟨first, hx, htest⟩ := anyStatus_eq_ok.mp htest
  rw [answered_of_ok hx]
  by_cases h404 : first.status = 404
  · rw [if_pos h404] at htest
    obtain ⟨rfl, rfl⟩ := htest
    simpa [h404] using handed rfl hrest
  · rw [if_neg h404] at htest
    obtain ⟨second, hx, htest⟩ := anyStatus_eq_ok.mp htest
    rw [answered_of_ok hx]
    by_cases h400 : second.status = 400
    · rw [if_pos h400] at htest
      obtain ⟨rfl, rfl⟩ := htest
      simpa [h400] using handed rfl hrest
    · rw [if_neg h400] at htest
      cases htest
      cases hrest
      simp [h404, h400]

theorem logged_of_ok {attempt : Java (State σ) Bool} {s t : State σ} {answer : Bool}
    (h : attempt.run s = (.ok answer, t)) : (logged attempt).run s = (.ok answer, t) := by
  rw [logged, Prog.run_tryCatch, h]

theorem call_of_accepted {autheticate : List UInt8 → Java σ Unit} {logError : String → Java σ Unit}
    {s : State σ} {app : σ} {read : HttpResponse} (h200 : answered exchange s.posts 200)
    (hread : exchange (s.posts + 1) = .ok read)
    (hpost : (autheticate read.rawBody).run s.app = (.ok (), app)) :
    (RetrieveReportCall.call exchange autheticate logError).run s =
      (.ok true, ⟨s.posts + 2, s.handovers ++ [⟨s.posts, s.posts + 1⟩], app⟩) := by
  obtain ⟨first, hx, hstatus⟩ := exists_of_answered h200
  have htest : (anyStatus exchange [200]).run s =
      (.ok (some { first with number := s.posts }), { s with posts := s.posts + 1 }) :=
    anyStatus_eq_ok.mpr ⟨first, hx, by simp [hstatus]⟩
  have hover : (handOver exchange { first with number := s.posts } fun read =>
      autheticate read.rawBody).run { s with posts := s.posts + 1 } =
        (.ok (), ⟨s.posts + 2, s.handovers ++ [⟨s.posts, s.posts + 1⟩], app⟩) :=
    handOver_eq_ok.mpr ⟨read, app, hread, hpost, rfl⟩
  refine logged_of_ok ?_
  rw [Prog.run_bind_ok htest]
  exact Prog.run_bind_ok hover _

theorem logged_eq_false {attempt : Java (State σ) Bool} {s t : State σ}
    {r : Except Throwable Bool} (h : (logged attempt).run s = (r, t)) (hr : r ≠ .ok true) :
    attempt.run s = (.ok false, t) := by
  rw [logged, Prog.run_tryCatch] at h
  split at h
  · rename_i answer t' hrun
    cases h
    cases answer with
    | false => exact hrun
    | true => exact absurd rfl hr
  · cases h
    exact absurd rfl hr

theorem after_asString : Prog.Triple (After posts k) (asString exchange)
    (fun r s => After posts (k + 1) s ∧ r.number < s.posts) (After (σ := σ) posts (k + 1)) := by
  rintro s ⟨hposts, hlater⟩
  rw [asString_run]
  cases exchange s.posts with
  | ok response => exact ⟨⟨by simp only; omega, hlater⟩, by simp only; omega⟩
  | error e => exact ⟨by simp only; omega, hlater⟩

theorem After.mono {m : Nat} {s : State σ} (h : After posts k s) (hm : m ≤ k) : After posts m s :=
  ⟨by have := h.1; omega, h.2⟩

theorem after_handOver {selected : Response} {process : Response → Java σ Unit} {retry : Bool} :
    Prog.Triple (fun s => After posts k s ∧ selected.number < s.posts)
      (handOver exchange selected process >>= fun _ => pure retry)
      (fun _ => After posts (k + 1)) (After posts (k + 1)) := by
  refine .bind (Q := fun _ => After posts (k + 1)) ?_ fun _ => .pure fun _ hs => hs
  rintro s ⟨⟨hposts, hlater⟩, hsel⟩
  have hmore : ∀ x ∈ s.handovers ++ [⟨selected.number, s.posts⟩], x.selectedBy < x.bodyOf := by
    intro x hx
    obtain hx | hx := List.mem_append.mp hx
    · exact hlater x hx
    · rw [List.mem_singleton.mp hx]
      exact hsel
  simp only [handOver, Prog.run_bind, asString_run]
  cases exchange s.posts with
  | error e => exact ⟨by simp only; omega, hlater⟩
  | ok response =>
    simp only [Prog.run_modify, Prog.run_zoom]
    obtain ⟨e | u, app⟩ := (process _).run s.app <;> exact ⟨by simp only; omega, hmore⟩

theorem after_comparison {response : Response} {status : Nat} {E : State σ → Prop}
    {others : Java (State σ) (Option Response)}
    (h : Prog.Triple (After posts k) others
      (fun r s => After posts k s ∧ ∀ selected ∈ r, selected.number < s.posts) E) :
    Prog.Triple (fun s => After posts k s ∧ response.number < s.posts)
      (if response.status = status then return some response else others)
      (fun r s => After posts k s ∧ ∀ selected ∈ r, selected.number < s.posts) E := by
  refine .ite (fun _ => .pure fun s hs => ⟨hs.1, ?_⟩) fun _ => ?_
  · rintro selected ⟨⟩
    exact hs.2
  · exact h.consequence (fun _ hs => hs.1) (fun _ _ h => h) fun _ h => h

theorem after_noStatus {E : State σ → Prop} :
    Prog.Triple (After posts k) (anyStatus exchange [])
      (fun r s => After posts k s ∧ ∀ selected ∈ r, selected.number < s.posts) E :=
  .pure fun _ hs => ⟨hs, by simp⟩

theorem after_anyStatus (status : Nat) (rest : List Nat) :
    Prog.Triple (After posts k) (anyStatus exchange (status :: rest))
      (fun r s => After posts (k + 1) s ∧ ∀ selected ∈ r, selected.number < s.posts)
      (After (σ := σ) posts (k + 1)) := by
  induction rest generalizing status k with
  | nil => exact .bind after_asString fun response => after_comparison after_noStatus
  | cons next rest ih =>
    refine .bind after_asString fun response => after_comparison ?_
    exact (ih next).consequence (fun _ hs => hs) (fun _ _ h => ⟨h.1.mono (by omega), h.2⟩)
      fun _ h => h.mono (by omega)

theorem first_asString {response : HttpResponse} (h : exchange posts = .ok response) (app : σ)
    (E : State σ → Prop) :
    Prog.Triple (fun s => s = ⟨posts, [], app⟩) (asString exchange)
      (fun r s => After posts 1 s ∧ r.number < s.posts) E := by
  rintro s rfl
  rw [asString_run, h]
  exact ⟨⟨Nat.le_refl _, by simp⟩, Nat.lt_succ_self _⟩

theorem after_branch {process : Response → Java σ Unit} {retry : Bool}
    {others : Java (State σ) Bool} {r : Option Response}
    (h : Prog.Triple (After posts k) others (fun _ => After posts 2) (After posts 2))
    (hk : 1 ≤ k) :
    Prog.Triple (fun s => After posts k s ∧ ∀ selected ∈ r, selected.number < s.posts)
      (match r with
        | some selected => handOver exchange selected process >>= fun _ => pure retry
        | none => others)
      (fun _ => After posts 2) (After posts 2) := by
  cases r with
  | none => exact h.consequence (fun _ hs => hs.1) (fun _ _ h => h) fun _ h => h
  | some selected =>
    exact after_handOver.consequence (fun s hs => ⟨hs.1, hs.2 selected rfl⟩)
      (fun _ _ h => h.mono (by omega)) fun _ h => h.mono (by omega)

theorem after_call (post : PostProcessing σ) {response : HttpResponse}
    (h : exchange posts = .ok response) (app : σ)
    (c : Caller) :
    Prog.Triple (fun s => s = ⟨posts, [], app⟩) (c.call exchange post)
      (fun _ => After posts 2) (After posts 2) := by
  have stop : ∀ {k : Nat} {retry : Bool}, 2 ≤ k → Prog.Triple (After posts k)
      (pure retry : Java (State σ) Bool) (fun _ => After posts 2) (After posts 2) :=
    fun hk => .pure fun _ hs => hs.mono hk
  have first : Prog.Triple (fun s => s = ⟨posts, [], app⟩) (asString exchange)
      (fun _ => After posts 1) (After (σ := σ) posts 2) :=
    (first_asString h app _).consequence (fun _ hs => hs) (fun _ _ hs => hs.1) fun _ hs => hs
  cases c <;> refine .tryCatch ?_ fun _ => .pure fun _ hs => hs
  · refine .bind first fun _ => .bind (after_anyStatus 200 []) fun _ => after_branch ?_ (by omega)
    refine .bind ((after_anyStatus 400 [404]).consequence (fun _ hs => hs) (fun _ _ hs => hs)
      fun _ hs => hs.mono (by omega)) fun _ => after_branch (stop (by omega)) (by omega)
  · refine .bind first fun _ => .bind (after_anyStatus 200 [400, 404]) fun _ =>
      after_branch (stop (by omega)) (by omega)
  · refine .bind (.bind (first_asString h app _) fun _ => after_comparison after_noStatus) fun _ =>
      after_branch ?_ (by omega)
    refine .bind (after_anyStatus 404 [400]) fun _ => after_branch (stop (by omega)) (by omega)

theorem attempt_of_error {e : Throwable} (h : exchange posts = .error e) (app : σ) (c : Caller) :
    c.attempt exchange post posts app = ⟨posts + 1, [], app⟩ := by
  have first : (asString exchange).run (σ := State σ) ⟨posts, [], app⟩ =
      (.error e, ⟨posts + 1, [], app⟩) := by
    rw [asString_run, h]
  cases c with
  | MakeInsightsApiRequest =>
    simp [Caller.attempt, Caller.call, MakeInsightsApiRequest.call, logged, Prog.run_tryCatch,
      Prog.run_bind_error first]
  | InsightsTransactionStatusCall =>
    simp [Caller.attempt, Caller.call, InsightsTransactionStatusCall.call, logged,
      Prog.run_tryCatch, Prog.run_bind_error first]
  | RetrieveReportCall =>
    have test : (anyStatus exchange [200]).run (σ := State σ) ⟨posts, [], app⟩ =
        (.error e, ⟨posts + 1, [], app⟩) := Prog.run_bind_error first _
    simp [Caller.attempt, Caller.call, RetrieveReportCall.call, logged, Prog.run_tryCatch,
      Prog.run_bind_error test]

theorem after_attempt (post : PostProcessing σ) {response : HttpResponse}
    (h : exchange posts = .ok response) (app : σ) (c : Caller) :
    After posts 2 (c.attempt exchange post posts app) := by
  have hcall := after_call post h app c _ rfl
  rw [Caller.attempt]
  rcases hr : (c.call exchange post).run ⟨posts, [], app⟩ with ⟨e | answer, s⟩ <;>
    rw [hr] at hcall <;> exact hcall

/-- An attempt makes a single exchange, handing over no other body than that of the response it
chose the branch by, exactly when that exchange brings no response; and every body that is handed
over is of a later exchange. -/
theorem oneExchange_iff (c : Caller) (exchange : Exchange) (post : PostProcessing σ) (posts : Nat)
    (app : σ) :
    (OneExchange posts (c.attempt exchange post posts app) ↔
        ∃ e, exchange posts = .error e) ∧
      ∀ x ∈ (c.attempt exchange post posts app).handovers, x.selectedBy < x.bodyOf := by
  cases h : exchange posts with
  | error e =>
    rw [attempt_of_error h]
    exact ⟨⟨fun _ => ⟨e, rfl⟩, fun _ => ⟨rfl, by simp⟩⟩, by simp⟩
  | ok response =>
    have hafter := after_attempt post h app c
    refine ⟨⟨fun hone => ?_, by simp⟩, hafter.2⟩
    have htwo := hafter.1
    rw [hone.1] at htwo
    omega

/-- The first exchanges are accepted and the next one is refused: every caller exchanges more than
once, and a report body is handed over with another status than the one that was tested. -/
theorem body_of_another_response :
    let flaky : Exchange := fun n =>
      .ok (if n < 1 then ⟨200, "<Status/>", [60]⟩ else ⟨503, "unavailable", [117]⟩)
    let post : PostProcessing (List (List UInt8)) :=
      ⟨fun _ => pure (), fun _ => pure (), fun _ => pure (), fun is => modify (· ++ [is]),
        fun _ => pure ()⟩
    let s := Caller.RetrieveReportCall.attempt flaky post 0 []
    (∀ c : Caller, ¬ OneExchange 0 (c.attempt flaky post 0 [])) ∧
      s.handovers = [⟨0, 1⟩] ∧ s.app = [[117]] := by
  refine ⟨fun c => ?_, rfl, rfl⟩
  rintro ⟨hposts, -⟩
  cases c <;> exact absurd hposts (by decide)

end InsightsAssist.ApiCalls
