import InsightsAssist.Formats

/-! The filter that logs each request. Its line is written with one format and then used as another
one by the logger. -/
namespace InsightsAssist.RequestLogger
open Java

structure Request where
  remoteAddr : List Char
  sessionId : List Char
  method : List Char
  servletPath : List Char
  pathInfo : Option (List Char)
  deriving DecidableEq, Repr

structure State where
  logged : List (List Char)
  forwarded : Bool
  deriving DecidableEq, Repr

def start : State := ⟨[], false⟩

def getRequestDetails (request : Request) : List Char :=
  request.servletPath ++ request.pathInfo.getD "null".toList

/-- What the line has in front of the request details and a blank. -/
def beforeDetails (request : Request) : List Char :=
  "RemoteAddress=".toList ++ request.remoteAddr ++ "; SessionId=".toList ++ request.sessionId ++
    "; ".toList ++ request.method

def generateLogString (request : Request) : List Char :=
  beforeDetails request ++ ' ' :: getRequestDetails request

def logMessagePrefix : List Char := "[RequestLogger] ".toList

def info (template : List Char) : Java State Unit := do
  match format template with
  | some text => modify fun s => { s with logged := s.logged ++ [logMessagePrefix ++ text] }
  | none => throw (.external "IllegalFormatException")

def doFilter (request : Request) : Java State Unit := do
  info (generateLogString request)
  modify fun s => { s with forwarded := true }

def path (request : Request) : List Char := request.servletPath ++ request.pathInfo.getD []

/-- One line is logged, the path is in it, and the request is passed on. -/
def LogsPath (request : Request) : Prop :=
  ∃ line, (doFilter request).run start = (.ok (), ⟨[line], true⟩) ∧ path request <:+: line

/-- The same with the request details where the line should have them, at its end. -/
def EndsInDetails (request : Request) : Prop :=
  ∃ line, (doFilter request).run start = (.ok (), ⟨[line], true⟩) ∧
    getRequestDetails request <:+ line

variable {request : Request} {line text : List Char}

theorem run_doFilter : (doFilter request).run start = (.ok (), ⟨[line], true⟩) ↔
    ∃ text, Formatted (generateLogString request) text ∧ line = logMessagePrefix ++ text := by
  simp only [← format_eq_some, doFilter, info]
  cases format (generateLogString request) with
  | none =>
    simp only [reduceCtorEq, false_and, exists_false, iff_false]
    intro h
    cases h
  | some text =>
    simp only [Option.some.injEq, exists_eq_left']
    constructor
    · intro h
      cases h
      rfl
    · rintro rfl
      rfl

theorem mem_details : '%' ∈ getRequestDetails request ↔ '%' ∈ path request := by
  unfold getRequestDetails path
  cases request.pathInfo <;> simp

theorem count_details :
    (getRequestDetails request).count '%' = (path request).count '%' := by
  unfold getRequestDetails path
  cases request.pathInfo <;> simp

theorem path_infix_details : path request <:+: getRequestDetails request := by
  unfold getRequestDetails path
  cases request.pathInfo with
  | none => exact ⟨[], "null".toList, by simp⟩
  | some pathInfo => exact List.infix_refl _

theorem logsPath_of_endsInDetails (h : EndsInDetails request) : LogsPath request := by
  obtain ⟨line, hrun, hline⟩ := h
  exact ⟨line, hrun, path_infix_details.trans hline.isInfix⟩

/-- A text that starts in what comes in front of its own formatted form has no specifier: by
induction on the percent signs. -/
theorem ne_append_formatted {n : Nat} {f f' x y : List Char} (hn : f.count '%' ≤ n)
    (hf : Formatted f f') (hx : Formatted x y) : f ≠ y ++ ' ' :: f' := by
  induction n generalizing f f' x y with
  | zero =>
    have hmem : '%' ∉ f := List.count_eq_zero.mp (Nat.le_zero.mp hn)
    rw [eq_of_no_percent hmem hf]
    intro heq
    have hlength := congrArg List.length heq
    rw [List.length_append, List.length_cons] at hlength
    omega
  | succ n ih =>
    intro heq
    by_cases hmem : '%' ∈ f
    · have hlt := (count_formatted hf).2 hmem
      rw [heq, formatted_append] at hf
      obtain ⟨z, f'', hz, hf', hsplit⟩ := hf
      exact ih (by omega) hf' hz hsplit
    · rw [eq_of_no_percent hmem hf] at heq
      have hlength := congrArg List.length heq
      rw [List.length_append, List.length_cons] at hlength
      omega

theorem no_percent_of_suffix {w f before : List Char} (hf : Formatted w f)
    (h : w <:+ before ++ ' ' :: f) : '%' ∉ w := by
  intro hmem
  have hlt := (count_formatted hf).2 hmem
  obtain ⟨front, hfront⟩ := h
  have hfront : front ++ w = (before ++ [' ']) ++ f := by simpa using hfront
  rcases List.append_eq_append_iff.mp hfront with ⟨c, hc, rfl⟩ | ⟨c, -, rfl⟩
  · rcases List.eq_nil_or_concat c with rfl | ⟨y, d, rfl⟩
    · exact absurd hlt (lt_irrefl _)
    · rw [List.concat_eq_append] at hc hf hlt
      rw [← List.append_assoc] at hc
      have hd : [' '] = [d] := (List.append_inj' hc rfl).2
      cases hd
      rw [List.append_assoc, List.singleton_append, formatted_append] at hf
      obtain ⟨x, f', hx, hf', heq⟩ := hf
      exact ne_append_formatted (le_refl _) hf' hx heq
  · rw [List.count_append] at hlt
    omega

theorem endsInDetails_iff : EndsInDetails request ↔
    formats (beforeDetails request) ∧ '%' ∉ path request := by
  rw [← mem_details]
  constructor
  · rintro ⟨line, hrun, hline⟩
    obtain ⟨text, htext, rfl⟩ := run_doFilter.mp hrun
    obtain ⟨x, f, hx, hf, rfl⟩ := formatted_append.mp htext
    rw [← List.append_assoc] at hline
    exact ⟨formats_iff.mpr ⟨x, hx⟩, no_percent_of_suffix hf hline⟩
  · rintro ⟨hformats, hmem⟩
    obtain ⟨x, hx⟩ := formats_iff.mp hformats
    have htext := formatted_append.mpr ⟨x, _, hx, formatted_of_no_percent hmem, rfl⟩
    refine ⟨_, run_doFilter.mpr ⟨_, htext, rfl⟩, ?_⟩
    rw [← List.append_assoc]
    exact (List.suffix_cons _ _).trans (List.suffix_append _ _)

theorem formats_of_logsPath (h : LogsPath request) : formats (beforeDetails request) := by
  obtain ⟨line, hrun, -⟩ := h
  obtain ⟨text, htext, -⟩ := run_doFilter.mp hrun
  obtain ⟨x, f, hx, -⟩ := formatted_append.mp htext
  exact formats_iff.mpr ⟨x, hx⟩

/-- Without percent signs in front of it, a path with one is nowhere in the line, which has fewer
of them. -/
theorem no_percent_of_logsPath (hbefore : '%' ∉ beforeDetails request) (h : LogsPath request) :
    '%' ∉ path request := by
  intro hmem
  obtain ⟨line, hrun, hline⟩ := h
  obtain ⟨text, htext, rfl⟩ := run_doFilter.mp hrun
  obtain ⟨x, f, hx, hf, rfl⟩ := formatted_append.mp htext
  rw [eq_of_no_percent hbefore hx] at hline
  have hle := hline.sublist.count_le '%'
  have hlt := (count_formatted hf).2 (mem_details.mpr hmem)
  have hbefore : (beforeDetails request).count '%' = 0 := List.count_eq_zero.mpr hbefore
  have hlabel : logMessagePrefix.count '%' = 0 := by decide
  rw [count_details] at hlt
  rw [List.count_append, List.count_append, List.count_cons_of_ne (by decide)] at hle
  omega

theorem logsPath_iff (request : Request) :
    (EndsInDetails request ↔ formats (beforeDetails request) ∧ '%' ∉ path request) ∧
    ('%' ∉ beforeDetails request ∨ '%' ∉ path request →
      (LogsPath request ↔ formats (beforeDetails request) ∧ '%' ∉ path request)) := by
  refine ⟨endsInDetails_iff, fun hone => ⟨fun h => ⟨formats_of_logsPath h, ?_⟩, ?_⟩⟩
  · exact hone.elim (no_percent_of_logsPath · h) id
  · exact fun h => logsPath_of_endsInDetails (endsInDetails_iff.mpr h)

def requestOf (pathInfo : String) : Request where
  remoteAddr := "10.0.0.1".toList
  sessionId := "A1".toList
  method := "GET".toList
  servletPath := "/ia".toList
  pathInfo := some pathInfo.toList

theorem status_logged : LogsPath (requestOf "/status") :=
  ((logsPath_iff (requestOf "/status")).2 (.inl (by decide))).mpr ⟨by decide, by decide⟩

def discounts : Request := requestOf "/100%"

theorem discounts_not_logged : ¬LogsPath discounts := fun h =>
  no_percent_of_logsPath (by decide) h (by decide)

end InsightsAssist.RequestLogger
