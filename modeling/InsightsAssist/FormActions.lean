import InsightsAssist.QueryStrings

/-! The URL that a form is sent to: that of the request, with the CSRF token as a parameter if the
form is multipart. -/
namespace InsightsAssist.HttpUtil
open CryptHandler (JavaString)
open Unicode (utf16)
open Uris UrlEncodedQueryString

/-- The attributes of a request, all of which are strings. -/
abbrev Attributes := String → Option JavaString

def ATTR_CSRF_TOKEN : String := "csrfValidator.csrfToken"
def ATTR_CSRF_TOKEN_NAME : String := "csrfValidator.csrfToken.name"
def ATTR_ORIGINAL_QS : String := "urlrewrite.originalQueryString"
def ATTR_ORIGINAL_URI : String := "urlrewrite.originalURI"
def MSG_ORIGINAL_URI_MUST_BE_NON_EMPTY : String := "originalURI must be non empty."
def MSG_REQUEST_NON_NULL : String := "HttpServletRequest must not be null."

/-- A string that is there and has a char beside whitespace, which a surrogate is not. -/
def isNotBlank (s : Option JavaString) : Bool :=
  s.any fun s => s.any fun c => !Java.isWhitespace (.ofNat c.toNat)

def nonNull (request : Option Attributes) : Except Throwable Attributes :=
  match request with
  | some attributes => .ok attributes
  | none => .error (.illegalArgument MSG_REQUEST_NON_NULL)

def getOriginalUri (request : Option Attributes) : Except Throwable (Option JavaString) := do
  return (← nonNull request) ATTR_ORIGINAL_URI

def getOriginalRequestUri (request : Option Attributes) : Except Throwable JavaString := do
  let originalURI ← getOriginalUri request
  let attributes ← nonNull request
  if isNotBlank originalURI then
    let originalQueryString := attributes ATTR_ORIGINAL_QS
    let url := originalURI.getD []
    return if isNotBlank originalQueryString then url ++ code '?' :: originalQueryString.getD []
      else url
  else .error (.illegalState MSG_ORIGINAL_URI_MUST_BE_NON_EMPTY)

def newURI (s : JavaString) : Except Throwable Uri :=
  match Uris.parse s with
  | some uri => .ok uri
  | none => .error (.external "URISyntaxException")

def setCsrfToken (attributes : Attributes) (formIsMultipart : Bool)
    (encodedQueryString : QueryMap) : Except Throwable QueryMap :=
  if formIsMultipart then
    set encodedQueryString (attributes ATTR_CSRF_TOKEN_NAME) (attributes ATTR_CSRF_TOKEN)
  else .ok encodedQueryString

def getFormActionUrl (request : Option Attributes) (formIsMultipart : Bool) :
    Except Throwable JavaString := do
  let attributes ← nonNull request
  let uri ← newURI (← getOriginalRequestUri request)
  let encodedQueryString ← parse uri.getRawQuery
  let encodedQueryString ← setCsrfToken attributes formIsMultipart encodedQueryString
  return (← apply encodedQueryString uri).string

/-- The parameters in their order, but of the CSRF parameter the token alone if the form is
multipart. -/
def SameParameters (attributes : Attributes) (formIsMultipart : Bool) (l l' : List Parameter) :
    Prop :=
  if formIsMultipart then
    ∃ name token, attributes ATTR_CSRF_TOKEN_NAME = some name ∧
      attributes ATTR_CSRF_TOKEN = some token ∧
      l'.filter (·.1 ≠ name) = l.filter (·.1 ≠ name) ∧
      l'.filter (·.1 = name) = [(name, some token)]
  else l' = l

/-- A URL is returned that differs from the URI in the CSRF parameter only. -/
def KeepsUri (attributes : Attributes) (formIsMultipart : Bool) (uri : Uri) : Prop :=
  ∃ url uri' l l', getFormActionUrl (some attributes) formIsMultipart = .ok url ∧
    Uris.parse url = some uri' ∧ SameParts uri uri' ∧ parameters uri.getRawQuery = .ok l ∧
    parameters uri'.getRawQuery = .ok l' ∧ SameParameters attributes formIsMultipart l l'

/-- Text without single surrogates. -/
def Readable (p : Parameter) : Prop := IsText p.1 ∧ ∀ value ∈ p.2, IsText value

/-- The parameters of one name stand together, and all are text. -/
def Retained (l : List Parameter) : Prop := MultiMap.Contiguous l ∧ ∀ p ∈ l, Readable p

/-- The CSRF parameter may stand anywhere, but it must be there. -/
def RetainedParameters (attributes : Attributes) (formIsMultipart : Bool) (l : List Parameter) :
    Prop :=
  if formIsMultipart then
    ∃ name token, attributes ATTR_CSRF_TOKEN_NAME = some name ∧
      attributes ATTR_CSRF_TOKEN = some token ∧ Readable (name, some token) ∧
      Retained (l.filter (·.1 ≠ name))
  else Retained l

section Retained
variable {attributes : Attributes} {formIsMultipart : Bool} {l : List Parameter} {p : Parameter}
  {name : JavaString} {value : Option JavaString} {queryMap : QueryMap}

theorem reread_eq_iff : reread p = p ↔ Readable p := by
  obtain ⟨name, value⟩ := p
  rw [reread, Readable, Prod.mk.injEq, replaceSurrogates_eq_iff]
  cases value with
  | none => simp
  | some value => simp [replaceSurrogates_eq_iff]

theorem readable_reread (p : Parameter) : Readable (reread p) := by
  rw [← reread_eq_iff]
  obtain ⟨name, value⟩ := p
  cases value with
  | none => simp [reread, replaceSurrogates_idem]
  | some value => simp [reread, replaceSurrogates_idem]

theorem map_reread (h : ∀ p ∈ l, Readable p) : l.map reread = l := by
  exact (List.map_congr_left fun p hp => reread_eq_iff.mpr (h p hp)).trans (List.map_id l)

theorem readable_of_map_reread {l' : List Parameter} (h : l'.map reread = l) :
    ∀ p ∈ l, Readable p := by
  intro p hp
  rw [← h] at hp
  obtain ⟨q, _, rfl⟩ := List.mem_map.mp hp
  exact readable_reread q

theorem map_reread_ofPairs_iff : (MultiMap.ofPairs l).pairs.map reread = l ↔ Retained l := by
  have hreadable (h : ∀ p ∈ l, Readable p) :
      (MultiMap.ofPairs l).pairs.map reread = (MultiMap.ofPairs l).pairs :=
    map_reread fun p hp => h p (MultiMap.mem_pairs_ofPairs.mp hp)
  constructor
  · intro h
    have hall := readable_of_map_reread h
    rw [hreadable hall, MultiMap.pairs_ofPairs_iff] at h
    exact ⟨h, hall⟩
  · rintro ⟨hcontiguous, hall⟩
    rw [hreadable hall, MultiMap.pairs_ofPairs_iff]
    exact hcontiguous

theorem filter_map_reread (hnames : ∀ p ∈ l, (reread p).1 = name ↔ p.1 = name) :
    (l.map reread).filter (·.1 ≠ name) = (l.filter (·.1 ≠ name)).map reread ∧
      (l.map reread).filter (·.1 = name) = (l.filter (·.1 = name)).map reread := by
  rw [List.filter_map, List.filter_map]
  constructor
  · refine congrArg (List.map reread) (List.filter_congr fun p hp => ?_)
    simp [hnames p hp]
  · refine congrArg (List.map reread) (List.filter_congr fun p hp => ?_)
    simp [hnames p hp]

theorem eq_of_filter (hset : l.filter (·.1 = name) = [(name, value)]) (hp : p ∈ l)
    (hname : p.1 = name) : p = (name, value) := by
  have hmem : p ∈ l.filter (·.1 = name) := List.mem_filter.mpr ⟨hp, by simpa using hname⟩
  rwa [hset, List.mem_singleton] at hmem

theorem names_of_filter (hset : l.filter (·.1 = name) = [(name, value)])
    (hfilter : (l.map reread).filter (·.1 = name) = [(name, value)]) :
    Readable (name, value) ∧ ∀ p ∈ l, (reread p).1 = name ↔ p.1 = name := by
  have hmem : (name, value) ∈ (l.map reread).filter (·.1 = name) := by
    rw [hfilter]
    exact List.mem_singleton_self _
  obtain ⟨p, _, hp⟩ := List.mem_map.mp (List.mem_of_mem_filter hmem)
  have hreadable : Readable (name, value) := hp ▸ readable_reread p
  have hfixed : reread (name, value) = (name, value) := reread_eq_iff.mpr hreadable
  refine ⟨hreadable, fun p hp => ⟨fun hname => ?_, fun hname => ?_⟩⟩
  · rw [List.filter_map] at hfilter
    obtain ⟨q, hq, -⟩ := List.map_eq_singleton_iff.mp hfilter
    have hone {p : Parameter} (hp : p ∈ l) (hname : (reread p).1 = name) : p = q := by
      have hmem : p ∈ l.filter ((fun p => decide (p.1 = name)) ∘ reread) :=
        List.mem_filter.mpr ⟨hp, by simpa using hname⟩
      rwa [hq, List.mem_singleton] at hmem
    have hthere : (name, value) ∈ l := by
      refine List.mem_of_mem_filter (p := fun p => decide (p.1 = name)) ?_
      rw [hset]
      exact List.mem_singleton_self _
    rw [hone hp hname, ← hone hthere (by rw [hfixed])]
  · rw [eq_of_filter hset hp hname, hfixed]

theorem filter_reread_set_iff :
    ((((MultiMap.ofPairs l).set name value).pairs.map reread).filter (·.1 ≠ name) =
        l.filter (·.1 ≠ name) ∧
      (((MultiMap.ofPairs l).set name value).pairs.map reread).filter (·.1 = name) =
        [(name, value)]) ↔
      Readable (name, value) ∧ Retained (l.filter (·.1 ≠ name)) := by
  have hothers : ((MultiMap.ofPairs l).set name value).pairs.filter (·.1 ≠ name) =
      (MultiMap.ofPairs (l.filter (·.1 ≠ name))).pairs := by
    rw [MultiMap.filter_pairs_set_ne, ← MultiMap.pairs_remove, MultiMap.remove_ofPairs]
  have hset : ((MultiMap.ofPairs l).set name value).pairs.filter (·.1 = name) = [(name, value)] :=
    MultiMap.filter_pairs_set_eq
  rw [← map_reread_ofPairs_iff, ← hothers]
  generalize ((MultiMap.ofPairs l).set name value).pairs = pairs at hset
  constructor
  · rintro ⟨hrest, hfilter⟩
    obtain ⟨hreadable, hnames⟩ := names_of_filter hset hfilter
    rw [(filter_map_reread hnames).1] at hrest
    exact ⟨hreadable, hrest⟩
  · rintro ⟨hreadable, hrest⟩
    have hfixed : reread (name, value) = (name, value) := reread_eq_iff.mpr hreadable
    have hnames : ∀ p ∈ pairs, (reread p).1 = name ↔ p.1 = name := by
      intro p hp
      by_cases hname : p.1 = name
      · rw [eq_of_filter hset hp hname, hfixed]
      · have hmem : reread p ∈ (pairs.filter (·.1 ≠ name)).map reread :=
          List.mem_map_of_mem (List.mem_filter.mpr ⟨hp, by simpa using hname⟩)
        rw [hrest] at hmem
        exact iff_of_false (by simpa using (List.mem_filter.mp hmem).2) hname
    rw [(filter_map_reread hnames).1, (filter_map_reread hnames).2, hset, List.map_singleton,
      hfixed]
    exact ⟨hrest, rfl⟩

theorem setCsrfToken_same_iff :
    (∃ queryMap, setCsrfToken attributes formIsMultipart (.ofPairs l) = .ok queryMap ∧
      SameParameters attributes formIsMultipart l (queryMap.pairs.map reread)) ↔
      RetainedParameters attributes formIsMultipart l := by
  cases formIsMultipart with
  | false =>
    constructor
    · rintro ⟨queryMap, hset, hsame⟩
      obtain rfl : MultiMap.ofPairs l = queryMap := Except.ok.inj hset
      exact map_reread_ofPairs_iff.mp hsame
    · intro hretained
      exact ⟨_, rfl, map_reread_ofPairs_iff.mpr hretained⟩
  | true =>
    constructor
    · rintro ⟨queryMap, hset, name, token, hname, htoken, hsame⟩
      rw [setCsrfToken, if_pos rfl, hname, htoken] at hset
      obtain rfl : (MultiMap.ofPairs l).set name (some token) = queryMap := Except.ok.inj hset
      obtain ⟨hreadable, hretained⟩ := filter_reread_set_iff.mp hsame
      exact ⟨name, token, hname, htoken, hreadable, hretained⟩
    · rintro ⟨name, token, hname, htoken, hreadable, hretained⟩
      refine ⟨(MultiMap.ofPairs l).set name (some token), ?_, name, token, hname, htoken,
        filter_reread_set_iff.mpr ⟨hreadable, hretained⟩⟩
      rw [setCsrfToken, if_pos rfl, hname, htoken]
      rfl

theorem written_of_setCsrfToken (hl : ∀ p ∈ l, Written p)
    (hset : setCsrfToken attributes formIsMultipart (.ofPairs l) = .ok queryMap) :
    ∀ p ∈ queryMap.pairs, Written p := by
  have hpairs : ∀ p ∈ (MultiMap.ofPairs l).pairs, Written p :=
    fun p hp => hl p (MultiMap.mem_pairs_ofPairs.mp hp)
  rw [setCsrfToken] at hset
  split at hset
  · rw [set.eq_def] at hset
    split at hset
    · cases hset
    · cases hset
      rw [MultiMap.pairs_remove]
      exact fun p hp => hpairs p (List.mem_of_mem_filter hp)
    · cases hset
      intro p hp
      obtain hp | rfl := MultiMap.mem_pairs_set hp
      · exact hpairs p hp
      · simp [Written]
  · cases hset
    exact hpairs

end Retained

section FormActionUrl
variable {attributes : Attributes} {formIsMultipart : Bool} {l : List Parameter}
  {text : JavaString} {uri : Uri}

theorem getFormActionUrl_eq (htext : getOriginalRequestUri (some attributes) = .ok text)
    (hparse : Uris.parse text = some uri) (hl : parameters uri.getRawQuery = .ok l) :
    getFormActionUrl (some attributes) formIsMultipart =
      (do
        let queryMap ← setCsrfToken attributes formIsMultipart (.ofPairs l)
        return (← apply queryMap uri).string) := by
  have hnew : newURI text = .ok uri := by rw [newURI, hparse]
  have hparameters : parse uri.getRawQuery = .ok (.ofPairs l) := by
    rw [parse_eq, hl]
    rfl
  simp only [getFormActionUrl, nonNull, htext, bind, Except.bind, hnew, hparameters]

theorem exists_of_getFormActionUrl {url : JavaString} {uri' : Uri}
    (htext : getOriginalRequestUri (some attributes) = .ok text)
    (hparse : Uris.parse text = some uri) (hl : parameters uri.getRawQuery = .ok l)
    (hurl : getFormActionUrl (some attributes) formIsMultipart = .ok url)
    (hparse' : Uris.parse url = some uri') :
    ∃ queryMap, setCsrfToken attributes formIsMultipart (.ofPairs l) = .ok queryMap ∧
      apply queryMap uri = .ok uri' := by
  rw [getFormActionUrl_eq htext hparse hl] at hurl
  cases hset : setCsrfToken attributes formIsMultipart (.ofPairs l) with
  | error e =>
    rw [hset] at hurl
    cases hurl
  | ok queryMap =>
    rw [hset] at hurl
    change (do return (← apply queryMap uri).string) = _ at hurl
    cases happly : apply queryMap uri with
    | error e =>
      rw [happly] at hurl
      cases hurl
    | ok applied =>
      rw [happly] at hurl
      obtain rfl : applied.string = url := Except.ok.inj hurl
      have hbuilder := apply_eq_ok_iff.mp happly
      rw [string_of_parse hbuilder] at hparse'
      obtain rfl : applied = uri' := Option.some.inj (hbuilder.symm.trans hparse')
      exact ⟨queryMap, rfl, happly⟩

theorem hierarchy_ne_none {queryMap : QueryMap} {uri' : Uri} {l' : List Parameter}
    (hl : parameters uri.getRawQuery = .ok l) (hl' : parameters uri'.getRawQuery = .ok l')
    (hset : setCsrfToken attributes formIsMultipart (.ofPairs l) = .ok queryMap)
    (happly : apply queryMap uri = .ok uri') (hsame : SameParts uri uri')
    (hparameters : SameParameters attributes formIsMultipart l l') : uri.hierarchy ≠ none := by
  intro hnone
  obtain ⟨hne, hquery'⟩ := toString_ne_nil_of_apply hnone happly hsame
  have hquery : uri.getRawQuery = none := by
    rw [Uri.getRawQuery, hnone]
    rfl
  rw [hquery'] at hl'
  obtain rfl : [] = l' := Except.ok.inj hl'
  cases formIsMultipart with
  | true =>
    obtain ⟨name, token, -, -, -, htoken⟩ := hparameters
    cases htoken
  | false =>
    rw [hquery] at hl
    obtain rfl : [] = l := Except.ok.inj hl
    obtain rfl : MultiMap.ofPairs [] = queryMap := Except.ok.inj hset
    exact hne rfl

theorem exists_parameters (hparse : Uris.parse text = some uri) :
    ∃ l, parameters uri.getRawQuery = .ok l ∧ ∀ p ∈ l, Written p := by
  refine @parameters_of_allowed isUric _ ?_
  cases hh : uri.hierarchy with
  | none =>
    rw [Uri.getRawQuery, hh]
    rfl
  | some h =>
    obtain ⟨h', -, haccepted⟩ := exists_of_parse hparse hh
    obtain ⟨-, hchars, -, hquery, -⟩ := parseHierarchy_cases haccepted.hierarchy
    rw [Uri.getRawQuery, hh, Option.bind_some, hquery]
    exact hchars

/-- A URI of which nothing is lost, and parameters that are retained. -/
def Restored (attributes : Attributes) (formIsMultipart : Bool) (uri : Uri) : Prop :=
  (∃ h, uri.hierarchy = some h ∧ Rewritable uri h) ∧
    ∃ l, parameters uri.getRawQuery = .ok l ∧ RetainedParameters attributes formIsMultipart l

/-- The URL is right iff nothing has to be decoded, and the parameters are grouped and are text. -/
theorem getFormActionUrl_keeps_iff (htext : getOriginalRequestUri (some attributes) = .ok text)
    (hparse : Uris.parse text = some uri) :
    KeepsUri attributes formIsMultipart uri ↔ Restored attributes formIsMultipart uri := by
  obtain ⟨l, hl, hwritten⟩ := exists_parameters hparse
  constructor
  · rintro ⟨url, uri', l', after, hurl, hparse', hsame, hl', hafter, hparameters⟩
    obtain rfl : l = l' := Except.ok.inj (hl.symm.trans hl')
    obtain ⟨queryMap, hset, happly⟩ := exists_of_getFormActionUrl htext hparse hl hurl hparse'
    obtain ⟨h, hh⟩ := Option.ne_none_iff_exists'.mp
      (hierarchy_ne_none hl hafter hset happly hsame hparameters)
    obtain ⟨hrewritable, hquery⟩ := rewritable_of_apply hparse hh happly hsame
    rw [hquery, parameters_queryOf (written_of_setCsrfToken hwritten hset)] at hafter
    obtain rfl := Except.ok.inj hafter
    exact ⟨⟨h, hh, hrewritable⟩, l, hl, setCsrfToken_same_iff.mp ⟨queryMap, hset, hparameters⟩⟩
  · rintro ⟨⟨h, hh, hrewritable⟩, l', hl', hretained⟩
    obtain rfl : l = l' := Except.ok.inj (hl.symm.trans hl')
    obtain ⟨queryMap, hset, hsame⟩ := setCsrfToken_same_iff.mpr hretained
    obtain ⟨uri', happly, hparts, hquery⟩ := apply_of_rewritable hparse hh hrewritable queryMap
    refine ⟨uri'.string, uri', l, queryMap.pairs.map reread, ?_, ?_, hparts, hl, ?_, hsame⟩
    · rw [getFormActionUrl_eq htext hparse hl, hset]
      simp only [bind, Except.bind, happly]
      rfl
    · have hbuilder := apply_eq_ok_iff.mp happly
      rwa [string_of_parse hbuilder]
    · rw [hquery, parameters_queryOf (written_of_setCsrfToken hwritten hset)]

def requestOf (originalURI originalQueryString : String) : Attributes := fun name =>
  if name = ATTR_ORIGINAL_URI then some (utf16 originalURI.toList)
  else if name = ATTR_ORIGINAL_QS then some (utf16 originalQueryString.toList)
  else if name = ATTR_CSRF_TOKEN_NAME then some (utf16 "csrf".toList)
  else if name = ATTR_CSRF_TOKEN then some (utf16 "t0".toList)
  else none

def plainUri : Uri where
  string := utf16 "/p?a=1&csrf=old&b=2".toList
  scheme := none
  hierarchy := some ⟨none, utf16 "/p".toList, some (utf16 "a=1&csrf=old&b=2".toList)⟩
  fragment := none

theorem getFormActionUrl_keeps_plain :
    KeepsUri (requestOf "/p" "a=1&csrf=old&b=2") true plainUri := by
  let l : List Parameter := [(utf16 "a".toList, some (utf16 "1".toList)),
    (utf16 "csrf".toList, some (utf16 "old".toList)), (utf16 "b".toList, some (utf16 "2".toList))]
  have hl : parameters plainUri.getRawQuery = .ok l := by decide +kernel
  have hreadable : Readable (utf16 "csrf".toList, some (utf16 "t0".toList)) := by
    rw [← reread_eq_iff]
    decide +kernel
  have hretained : Retained (l.filter (·.1 ≠ utf16 "csrf".toList)) := by
    rw [← map_reread_ofPairs_iff]
    decide +kernel
  have hrewritable : Rewritable plainUri
      ⟨none, utf16 "/p".toList, some (utf16 "a=1&csrf=old&b=2".toList)⟩ := by
    refine ⟨by simp, by unfold Plain; decide +kernel, ?_, fun _ => by decide +kernel⟩
    intro f hf
    cases hf
  have htext : getOriginalRequestUri (some (requestOf "/p" "a=1&csrf=old&b=2")) =
      .ok (utf16 "/p?a=1&csrf=old&b=2".toList) := by decide +kernel
  exact (getFormActionUrl_keeps_iff htext (by decide +kernel)).mpr
    ⟨⟨_, rfl, hrewritable⟩, l, hl, utf16 "csrf".toList, utf16 "t0".toList, by decide +kernel,
      by decide +kernel, hreadable, hretained⟩

theorem escaped_path_throws : ∃ uri,
    getOriginalRequestUri (some (requestOf "/a%20b" "")) = .ok (utf16 "/a%20b".toList) ∧
      Uris.parse (utf16 "/a%20b".toList) = some uri ∧
      ¬KeepsUri (requestOf "/a%20b" "") true uri := by
  obtain ⟨uri, hparse⟩ := Option.isSome_iff_exists.mp
    (show (Uris.parse (utf16 "/a%20b".toList)).isSome by decide +kernel)
  refine ⟨uri, by decide +kernel, hparse, ?_⟩
  rintro ⟨url, uri', l, l', hurl, -⟩
  have herror : getFormActionUrl (some (requestOf "/a%20b" "")) true =
      .error (.external "RuntimeException") := by decide +kernel
  rw [herror] at hurl
  cases hurl

example : getFormActionUrl (some (requestOf "/p" "a=1&b=2&a=3")) false =
    .ok (utf16 "/p?a=1&a=3&b=2".toList) := by decide +kernel

end FormActionUrl
end InsightsAssist.HttpUtil
