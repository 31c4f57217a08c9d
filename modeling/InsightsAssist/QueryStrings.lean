import InsightsAssist.Java
import InsightsAssist.MultiMaps
import InsightsAssist.Uris

/-! The lists of parameters that are parsed from query strings, changed and written again. -/
namespace InsightsAssist.UrlEncodedQueryString
open CryptHandler (JavaString)
open Uris

/-- A name with its value, which is none if there is no equals sign. -/
abbrev Parameter := JavaString × Option JavaString

abbrev QueryMap := MultiMap JavaString (Option JavaString)

/-- `PARSE_PARAMETER_SEPARATORS`. -/
def isSeparator (c : UInt16) : Bool := c = code '&' || c = code ';'

def nonEmpty (token : JavaString) : List JavaString := if token = [] then [] else [token]

/-- With the token that has begun. -/
def tokensFrom (token : JavaString) : JavaString → List JavaString
  | [] => nonEmpty token
  | c :: s =>
    if isSeparator c then nonEmpty token ++ tokensFrom [] s else tokensFrom (token ++ [c]) s

/-- `StringTokenizer`: what stands between separators, if it is not empty. -/
def tokens (s : JavaString) : List JavaString := tokensFrom [] s

/-- `URLDecoder.decode`. -/
def decode (s : JavaString) : Except Throwable JavaString :=
  match urlDecode s with
  | some s => .ok s
  | none => .error (.external "IllegalArgumentException")

def parameter (token : JavaString) : Except Throwable Parameter := do
  let (name, value) := cutAt (code '=') token
  let name ← decode name
  let value ← value.mapM decode
  return (name, value)

def parameters (query : Option JavaString) : Except Throwable (List Parameter) :=
  (tokens (query.getD [])).mapM parameter

/-- Each parameter is appended as it is parsed. -/
def parse (query : Option JavaString) : Except Throwable QueryMap :=
  match query with
  | none => .ok .empty
  | some query => (tokens query).foldlM (fun queryMap token => do
      let (name, value) ← parameter token
      return queryMap.append name value) .empty

/-- Null is not a name; a parameter that is set to null is removed. -/
def set (queryMap : QueryMap) (name value : Option JavaString) : Except Throwable QueryMap :=
  match name, value with
  | none, _ => .error .nullPointer
  | some name, none => .ok (queryMap.remove name)
  | some name, some value => .ok (queryMap.set name (some value))

def parameterText (p : Parameter) : JavaString :=
  urlEncode p.1 ++ p.2.elim [] fun value => code '=' :: urlEncode value

def appendParameter (builder : JavaString) (p : Parameter) : JavaString :=
  (if builder.length ≠ 0 then builder ++ [code '&'] else builder) ++ parameterText p

def toString (queryMap : QueryMap) : JavaString := queryMap.pairs.foldl appendParameter []

/-- What is written for the authority: that of a server part by part. -/
def authority (uri : Uri) : JavaString :=
  match uri.getHost with
  | some host =>
    [code '/', code '/'] ++ userInfoText uri.getUserInfo ++ host ++ portText uri.getPort
  | none => authorityText uri.getAuthority

def apply (queryMap : QueryMap) (uri : Uri) : Except Throwable Uri :=
  let query := toString queryMap
  let builder := schemeText uri.scheme ++ authority uri ++ uri.getPath.getD [] ++
    (if query.length ≠ 0 then code '?' :: query else []) ++ fragmentText uri.getFragment
  match Uris.parse builder with
  | some uri => .ok uri
  | none => .error (.external "RuntimeException")

section Tokens
variable {chars : UInt16 → Bool} {s token : JavaString}

theorem isSeparator_delimits {d : UInt16} (h : isSeparator d) :
    d ≠ code '%' ∧ isHex d = false := by
  rw [isSeparator, Bool.or_eq_true, decide_eq_true_eq, decide_eq_true_eq] at h
  obtain rfl | rfl := h <;> decide

theorem mem_nonEmpty {t : JavaString} : t ∈ nonEmpty token ↔ t = token ∧ token ≠ [] := by
  rw [nonEmpty]
  split <;> simp_all

theorem allowed_tokensFrom (h : allowed chars (token ++ s)) :
    ∀ t ∈ tokensFrom token s, t ≠ [] ∧ allowed chars t := by
  induction s generalizing token with
  | nil =>
    intro t ht
    obtain ⟨rfl, hne⟩ := mem_nonEmpty.mp ht
    rw [List.append_nil] at h
    exact ⟨hne, h⟩
  | cons c s ih =>
    rw [tokensFrom]
    split
    · rename_i hc
      obtain ⟨hpercent, hhex⟩ := isSeparator_delimits hc
      obtain ⟨htoken, hs⟩ := allowed_of_append hpercent hhex h
      intro t ht
      obtain ht | ht := List.mem_append.mp ht
      · obtain ⟨rfl, hne⟩ := mem_nonEmpty.mp ht
        exact ⟨hne, htoken⟩
      · exact @ih [] hs t ht
    · exact ih (by rwa [List.append_assoc])

theorem tokensFrom_append {a : JavaString} (ha : ∀ c ∈ a, isSeparator c = false) :
    tokensFrom token (a ++ s) = tokensFrom (token ++ a) s := by
  induction a generalizing token with
  | nil => rw [List.nil_append, List.append_nil]
  | cons c a ih =>
    rw [List.forall_mem_cons] at ha
    rw [List.cons_append, tokensFrom, ha.1, if_neg Bool.false_ne_true, ih ha.2, List.append_assoc]
    rfl

end Tokens

section Parse
variable {chars : UInt16 → Bool} {query : Option JavaString} {token : JavaString}

def Written (p : Parameter) : Prop := p ≠ ([], none)

theorem foldlM_append (tokens : List JavaString) (queryMap : QueryMap) :
    tokens.foldlM (fun queryMap token => do
      let (name, value) ← parameter token
      return queryMap.append name value) queryMap =
    (tokens.mapM parameter).map fun l => l.foldl (fun m p => m.append p.1 p.2) queryMap := by
  induction tokens generalizing queryMap with
  | nil => rfl
  | cons token tokens ih =>
    rw [List.foldlM_cons, List.mapM_cons]
    cases parameter token with
    | error e => rfl
    | ok p =>
      refine (ih _).trans ?_
      cases tokens.mapM parameter <;> rfl

theorem parse_eq (query : Option JavaString) : parse query = (parameters query).map .ofPairs := by
  cases query with
  | none => rfl
  | some query => exact foldlM_append (tokens query) .empty

theorem decode_of_allowed {s : JavaString} (h : allowed chars s) : ∃ t, decode s = .ok t := by
  obtain ⟨t, ht⟩ := urlDecodeFrom_of_allowed h []
  exact ⟨t, by rw [decode, urlDecode, ht]⟩

theorem decode_ne_nil {s t : JavaString} (h : decode s = .ok t) (hne : s ≠ []) : t ≠ [] := by
  rw [decode] at h
  split at h
  · rename_i t' ht
    cases h
    exact urlDecodeFrom_ne_nil (.inr hne) ht
  · cases h

theorem parameter_of_allowed (hne : token ≠ []) (h : allowed chars token) :
    ∃ p, parameter token = .ok p ∧ Written p := by
  have hjoin := joinAt_cutAt (code '=') token
  rw [parameter]
  generalize cutAt (code '=') token = parts at hjoin
  obtain ⟨name, value⟩ := parts
  cases value with
  | none =>
    obtain rfl : name = token := (List.append_nil name).symm.trans hjoin
    obtain ⟨t, ht⟩ := decode_of_allowed h
    refine ⟨(t, none), by simp [ht], fun hwritten => ?_⟩
    exact decode_ne_nil ht hne (Prod.mk.inj hwritten).1
  | some value =>
    change name ++ code '=' :: value = token at hjoin
    rw [← hjoin] at h
    obtain ⟨hname, hvalue⟩ := allowed_of_append (by decide) (by decide) h
    obtain ⟨t, ht⟩ := decode_of_allowed hname
    obtain ⟨u, hu⟩ := decode_of_allowed hvalue
    refine ⟨(t, some u), ?_, by simp [Written]⟩
    simp only [Option.mapM_some, ht, hu]
    rfl

theorem mapM_parameter {tokens : List JavaString}
    (h : ∀ t ∈ tokens, ∃ p, parameter t = .ok p ∧ Written p) :
    ∃ l, tokens.mapM parameter = .ok l ∧ ∀ p ∈ l, Written p := by
  induction tokens with
  | nil => exact ⟨[], rfl, by simp⟩
  | cons t tokens ih =>
    rw [List.forall_mem_cons] at h
    obtain ⟨p, hp, hwritten⟩ := h.1
    obtain ⟨l, hl, hall⟩ := ih h.2
    refine ⟨p :: l, ?_, List.forall_mem_cons.mpr ⟨hwritten, hall⟩⟩
    rw [List.mapM_cons, hp, hl]
    rfl

theorem parameters_of_allowed (h : query.all (allowed chars)) :
    ∃ l, parameters query = .ok l ∧ ∀ p ∈ l, Written p := by
  have hquery : allowed chars ([] ++ query.getD []) := by
    cases query with
    | none => rfl
    | some query => exact h
  refine mapM_parameter fun t ht => ?_
  obtain ⟨hne, hchars⟩ := allowed_tokensFrom hquery t ht
  exact parameter_of_allowed hne hchars

end Parse

section ToString
variable {p : Parameter} {l : List Parameter} {queryMap : QueryMap}

/-- What is left of a parameter that is written and parsed again. -/
def reread (p : Parameter) : Parameter := (replaceSurrogates p.1, p.2.map replaceSurrogates)

theorem not_mem_urlEncode {c : UInt16} (hc : c ≠ code '%' ∧ isHex c = false)
    (hclass : isEncoded c = false ∧ isOther c = false) (s : JavaString) : c ∉ urlEncode s := by
  intro hmem
  obtain h | h | h | h := mem_allowed (allowed_urlEncode s) hmem
  · exact hc.1 h
  · rw [hc.2] at h
    cases h
  · rw [hclass.1] at h
    cases h
  · rw [hclass.2] at h
    cases h

theorem cutAt_parameterText (p : Parameter) :
    cutAt (code '=') (parameterText p) = (urlEncode p.1, p.2.map urlEncode) := by
  have hname : code '=' ∉ urlEncode p.1 := not_mem_urlEncode (by decide) (by decide) _
  obtain ⟨name, value⟩ := p
  cases value with
  | none =>
    rw [parameterText, Option.elim_none, List.append_nil]
    exact cutAt_of_not_mem hname
  | some value => exact cutAt_append hname

theorem decode_urlEncode (s : JavaString) : decode (urlEncode s) = .ok (replaceSurrogates s) := by
  rw [decode, urlDecode_urlEncode]

theorem parameter_parameterText (p : Parameter) : parameter (parameterText p) = .ok (reread p) := by
  obtain ⟨name, value⟩ := p
  rw [parameter, cutAt_parameterText]
  cases value with
  | none => simp [decode_urlEncode, reread]
  | some value =>
    simp only [Option.map_some, Option.mapM_some, decode_urlEncode]
    rfl

theorem parameterText_ne_nil (h : Written p) : parameterText p ≠ [] := by
  obtain ⟨name, value⟩ := p
  cases value with
  | none =>
    have hname : name ≠ [] := by
      rintro rfl
      exact h rfl
    exact List.append_ne_nil_of_left_ne_nil (urlEncode_ne_nil hname) _
  | some value => simp [parameterText]

theorem isSeparator_parameterText (p : Parameter) :
    ∀ c ∈ parameterText p, isSeparator c = false := by
  have hencoded (s : JavaString) : ∀ c ∈ urlEncode s, isSeparator c = false := by
    intro c hc
    rw [Bool.eq_false_iff]
    intro hseparator
    rw [isSeparator, Bool.or_eq_true, decide_eq_true_eq, decide_eq_true_eq] at hseparator
    obtain rfl | rfl := hseparator
    · exact not_mem_urlEncode (by decide) (by decide) s hc
    · exact not_mem_urlEncode (by decide) (by decide) s hc
  obtain ⟨name, value⟩ := p
  intro c hc
  obtain hc | hc := List.mem_append.mp hc
  · exact hencoded name c hc
  · cases value with
    | none => cases hc
    | some value =>
      obtain rfl | hc := List.mem_cons.mp hc
      · decide
      · exact hencoded value c hc

theorem foldl_appendParameter {builder : JavaString} (hne : builder ≠ []) (l : List Parameter) :
    l.foldl appendParameter builder =
      builder ++ l.flatMap fun p => code '&' :: parameterText p := by
  induction l generalizing builder with
  | nil => simp
  | cons p l ih =>
    have happend : appendParameter builder p = builder ++ code '&' :: parameterText p := by
      rw [appendParameter, if_pos (by simpa using hne), List.append_assoc]
      rfl
    rw [List.foldl_cons, happend, ih (by simp), List.flatMap_cons, List.append_assoc]

theorem tokensFrom_flatMap {token : JavaString} (l : List Parameter) (h : ∀ p ∈ l, Written p) :
    tokensFrom token (l.flatMap fun p => code '&' :: parameterText p) =
      nonEmpty token ++ l.map parameterText := by
  induction l generalizing token with
  | nil => simp [tokensFrom]
  | cons p l ih =>
    rw [List.forall_mem_cons] at h
    have hne : nonEmpty (parameterText p) = [parameterText p] := if_neg (parameterText_ne_nil h.1)
    rw [List.flatMap_cons, List.cons_append, tokensFrom, if_pos (by decide),
      tokensFrom_append (isSeparator_parameterText p), ih h.2, List.nil_append, hne]
    rfl

theorem tokens_foldl (h : ∀ p ∈ l, Written p) :
    tokens (l.foldl appendParameter []) = l.map parameterText := by
  cases l with
  | nil => rfl
  | cons p l =>
    rw [List.forall_mem_cons] at h
    have hne := parameterText_ne_nil h.1
    have hfirst : appendParameter [] p = parameterText p := rfl
    rw [List.foldl_cons, hfirst, foldl_appendParameter hne, tokens,
      tokensFrom_append (isSeparator_parameterText p), List.nil_append, tokensFrom_flatMap l h.2,
      nonEmpty, if_neg hne]
    rfl

theorem parameters_toString (h : ∀ p ∈ queryMap.pairs, Written p) :
    parameters (some (toString queryMap)) = .ok (queryMap.pairs.map reread) := by
  rw [parameters, Option.getD_some, toString, tokens_foldl h]
  induction queryMap.pairs with
  | nil => rfl
  | cons p l ih =>
    rw [List.map_cons, List.mapM_cons, parameter_parameterText, ih]
    rfl

theorem allowed_toString (queryMap : QueryMap) : allowed isUric (toString queryMap) := by
  have hencoded (s : JavaString) : allowed isUric (urlEncode s) :=
    allowed_mono (fun c => oneOf_mono (by decide)) (allowed_urlEncode s)
  have htext (p : Parameter) : allowed isUric (parameterText p) := by
    obtain ⟨name, value⟩ := p
    refine allowed_append (hencoded name) ?_
    cases value with
    | none => rfl
    | some value => exact allowed_append (a := [code '=']) (by decide) (hencoded value)
  have hfold (l : List Parameter) (builder : JavaString) (hbuilder : allowed isUric builder) :
      allowed isUric (l.foldl appendParameter builder) := by
    induction l generalizing builder with
    | nil => exact hbuilder
    | cons p l ih =>
      refine ih _ (allowed_append ?_ (htext p))
      split
      · exact allowed_append hbuilder (by decide)
      · exact hbuilder
  exact hfold _ [] rfl

end ToString
/-- What is written for an authority is its text: nothing is decoded, and of the port nothing is
left out. -/
def Canonical (a : Authority) : Prop :=
  match a.server with
  | some server => (∀ u ∈ server.userInfo, Plain u) ∧ server.text = a.text
  | none => Plain a.text

/-- The parts of a URI that come back when it is written without its escapes. -/
def Rewritable (uri : Uri) (h : Hierarchy Authority) : Prop :=
  (∀ a ∈ h.authority, Canonical a) ∧ Plain h.path ∧ (∀ f ∈ uri.fragment, Plain f) ∧
    (h.authority = none → ¬[code '/', code '/'] <+: h.path ∧ (uri.scheme ≠ none → h.path ≠ []))

/-- All but the query. -/
structure SameParts (uri uri' : Uri) : Prop where
  scheme : uri'.scheme = uri.scheme
  authority : uri'.getRawAuthority = uri.getRawAuthority
  path : uri'.getRawPath = uri.getRawPath
  fragment : uri'.fragment = uri.fragment

section Apply
variable {queryMap : QueryMap} {uri uri' : Uri} {s : JavaString} {a : Authority}
  {h : Hierarchy Authority}

def written (a : Authority) : JavaString :=
  match a.server with
  | some server =>
    userInfoText (server.userInfo.map Uris.decode) ++ server.host ++ portText server.port
  | none => Uris.decode a.text

theorem authority_eq (hh : uri.hierarchy = some h) :
    authority uri = authorityText (h.authority.map written) := by
  have hserver : uri.getServer = h.authority.bind Authority.server := by
    rw [Uri.getServer, hh]
    rfl
  have hraw : uri.getRawAuthority = h.authority.map Authority.text := by
    rw [Uri.getRawAuthority, hh]
    rfl
  rw [authority, Uri.getHost, Uri.getUserInfo, Uri.getPort, Uri.getAuthority, hserver, hraw]
  cases h.authority with
  | none => rfl
  | some a =>
    obtain ⟨text, server⟩ := a
    cases server with
    | none => rfl
    | some server => simp [written, authorityText]

theorem getPath_eq (hh : uri.hierarchy = some h) :
    uri.getPath.getD [] = Uris.decode h.path := by
  rw [Uri.getPath, Uri.getRawPath, hh]
  rfl

theorem written_of_canonical (hcanonical : Canonical a) : written a = a.text := by
  obtain ⟨text, server⟩ := a
  cases server with
  | none => exact decode_of_plain hcanonical
  | some server =>
    obtain ⟨userInfo, host, port⟩ := server
    obtain ⟨hplain, htext⟩ := hcanonical
    cases userInfo with
    | none => exact htext
    | some u =>
      change userInfoText (some (Uris.decode u)) ++ host ++ portText port = text
      rw [decode_of_plain (hplain u rfl)]
      exact htext

theorem length_written_lt (ha : parseAuthority a.text = some a) (hno : ¬Canonical a) :
    (written a).length < a.text.length := by
  obtain ⟨text, server⟩ := a
  dsimp only at ha ⊢
  cases server with
  | none => exact length_decode_lt hno
  | some server =>
    have hparse : parseServer text = some server := by
      rw [parseAuthority] at ha
      split at ha
      · rename_i server' hserver
        obtain rfl : server' = server := by simpa using ha
        exact hserver
      · split at ha <;> simp at ha
    have htext := text_of_parseServer hparse
    obtain ⟨userInfo, host, port⟩ := server
    cases userInfo with
    | none =>
      refine htext.resolve_left fun heq => hno ⟨fun u hu => ?_, heq⟩
      cases hu
    | some u =>
      have hlengths (u : JavaString) : (userInfoText (some u) ++ host ++ portText port).length =
          u.length + 1 + host.length + (portText port).length := by
        simp only [userInfoText, Option.elim_some, List.length_append, List.length_singleton]
      have hle := length_decode_le u
      rw [Server.text, hlengths] at htext
      change (userInfoText (some (Uris.decode u)) ++ host ++ portText port).length < text.length
      rw [hlengths]
      by_cases hplain : Plain u
      · have hlt := htext.resolve_left fun heq =>
          hno ⟨fun u' hu => Option.some.inj hu ▸ hplain, heq⟩
        omega
      · have hlt := length_decode_lt hplain
        obtain heq | hlt' := htext
        · rw [← heq, hlengths]
          omega
        · omega

theorem map_written {authority : Option Authority} (hcanonical : ∀ a ∈ authority, Canonical a) :
    authority.map written = authority.map Authority.text := by
  cases authority with
  | none => rfl
  | some a => rw [Option.map_some, written_of_canonical (hcanonical a rfl), Option.map_some]

theorem length_written_le (ha : parseAuthority a.text = some a) :
    (written a).length ≤ a.text.length := by
  by_cases hcanonical : Canonical a
  · exact Nat.le_of_eq (congrArg _ (written_of_canonical hcanonical))
  · exact Nat.le_of_lt (length_written_lt ha hcanonical)

/-- An authority and a path that are written at their full length are written as they are. -/
theorem canonical_of_length {authority : Option Authority} {text : Option JavaString}
    {path : JavaString} (ha : ∀ a ∈ authority, parseAuthority a.text = some a)
    (htext : text = authority.map Authority.text ∨ authority = none ∧ text = some [])
    (hle : (authorityText text).length + path.length ≤
      (authorityText (authority.map written)).length + (Uris.decode path).length) :
    (∀ a ∈ authority, Canonical a) ∧ Plain path ∧ text = authority.map Authority.text := by
  have hdecode := length_decode_le path
  have hplain (hle : path.length ≤ (Uris.decode path).length) : Plain path := by
    by_contra hno
    have hlt := length_decode_lt hno
    omega
  cases authority with
  | none =>
    obtain rfl | ⟨-, rfl⟩ := htext
    · exact ⟨by simp, hplain (by simpa [authorityText] using hle), rfl⟩
    · simp only [authorityText, Option.elim_some, List.length_append, List.length_cons,
        Option.map_none, Option.elim_none, List.length_nil] at hle
      omega
  | some a =>
    obtain rfl | ⟨hnone, -⟩ := htext
    · have hwritten := length_written_le (ha a rfl)
      simp only [Option.map_some, authorityText, Option.elim_some, List.length_append] at hle
      refine ⟨fun a' ha' => ?_, hplain (by omega), rfl⟩
      obtain rfl := Option.some.inj ha'
      by_contra hno
      have hlt := length_written_lt (ha a rfl) hno
      omega
    · cases hnone

/-- None if there are no parameters. -/
def queryOf (queryMap : QueryMap) : Option JavaString :=
  if (toString queryMap).length ≠ 0 then some (toString queryMap) else none

theorem queryText_queryOf (queryMap : QueryMap) : queryText (queryOf queryMap) =
    if (toString queryMap).length ≠ 0 then code '?' :: toString queryMap else [] := by
  rw [queryOf]
  split <;> rfl

theorem allowed_queryOf (queryMap : QueryMap) : (queryOf queryMap).all (allowed isUric) := by
  rw [queryOf]
  split
  · exact allowed_toString queryMap
  · rfl

theorem parameters_queryOf (hwritten : ∀ p ∈ queryMap.pairs, Written p) :
    parameters (queryOf queryMap) = .ok (queryMap.pairs.map reread) := by
  rw [← parameters_toString hwritten, queryOf]
  split
  · rfl
  · rename_i hnil
    have hnil : toString queryMap = [] := by simpa using hnil
    rw [hnil]
    rfl

def builder (queryMap : QueryMap) (uri : Uri) : JavaString :=
  schemeText uri.scheme ++ authority uri ++ uri.getPath.getD [] ++
    queryText (queryOf queryMap) ++ fragmentText uri.getFragment

theorem apply_eq_ok_iff : apply queryMap uri = .ok uri' ↔
    Uris.parse (builder queryMap uri) = some uri' := by
  rw [apply, ← queryText_queryOf, ← builder]
  cases Uris.parse (builder queryMap uri) <;> simp

theorem apply_of_rewritable (hparse : Uris.parse s = some uri) (hh : uri.hierarchy = some h)
    (hrewritable : Rewritable uri h) (queryMap : QueryMap) :
    ∃ uri', apply queryMap uri = .ok uri' ∧ SameParts uri uri' ∧
      uri'.getRawQuery = queryOf queryMap := by
  obtain ⟨hcanonical, hpath, hfragment, hbare⟩ := hrewritable
  obtain ⟨h', -, haccepted⟩ := exists_of_parse hparse hh
  have hagain := haccepted.again hbare (allowed_queryOf queryMap)
  have hbuilder : builder queryMap uri = Parts.text ⟨uri.scheme,
      .inr ⟨h.authority.map Authority.text, h.path, queryOf queryMap⟩, uri.fragment⟩ := by
    have hfragment' : uri.getFragment = uri.fragment := by
      rw [Uri.getFragment]
      cases hf : uri.fragment with
      | none => rfl
      | some f => rw [Option.map_some, decode_of_plain (hfragment f hf)]
    rw [builder, authority_eq hh, getPath_eq hh, decode_of_plain hpath, hfragment',
      map_written hcanonical]
    simp [Parts.text, hierarchyText]
  have happly := parse_text hagain
  rw [← hbuilder] at happly
  refine ⟨_, apply_eq_ok_iff.mpr happly, ⟨rfl, ?_, ?_, rfl⟩, rfl⟩
  · rw [Uri.getRawAuthority, Uri.getRawAuthority, hh]
    rfl
  · rw [Uri.getRawPath, Uri.getRawPath, hh]
    rfl

theorem length_le_of_append_eq {P : UInt16 → Prop} {a b s t : JavaString} (heq : a ++ s = b ++ t)
    (hb : ∀ c ∈ b, ¬P c) (hs : ∀ c ∈ s.head?, P c) : b.length ≤ a.length := by
  obtain ⟨more, rfl, rfl⟩ | ⟨more, rfl, -⟩ := List.append_eq_append_iff.mp heq
  · cases more with
    | nil => simp
    | cons c more => exact absurd (hs c rfl) (hb c (by simp))
  · simp

theorem head_queryText {c : UInt16} (query fragment : Option JavaString)
    (hc : c ∈ (queryText query ++ fragmentText fragment).head?) : c = code '?' ∨ c = code '#' := by
  cases query with
  | some q => exact .inl (Option.some.inj hc).symm
  | none =>
    cases fragment with
    | some f => exact .inr (Option.some.inj hc).symm
    | none => cases hc

/-- What is written before the query is not longer than the text, so it is as long only if nothing
was decoded. -/
theorem rewritable_of_apply (hparse : Uris.parse s = some uri) (hh : uri.hierarchy = some h)
    (happly : apply queryMap uri = .ok uri') (hsame : SameParts uri uri') :
    Rewritable uri h ∧ uri'.getRawQuery = queryOf queryMap := by
  obtain ⟨h₀, -, haccepted₀⟩ := exists_of_parse hparse hh
  obtain ⟨h', hh', hpath'⟩ : ∃ h', uri'.hierarchy = some h' ∧ h'.path = h.path := by
    have hpath := hsame.path
    rw [Uri.getRawPath, Uri.getRawPath, hh] at hpath
    exact Option.map_eq_some_iff.mp hpath
  obtain ⟨h₁, htext, haccepted⟩ := exists_of_parse (apply_eq_ok_iff.mp happly) hh'
  rw [hsame.scheme, hsame.fragment] at htext haccepted
  obtain ⟨-, -, hpath₁, hquery₁, -⟩ := parseHierarchy_cases haccepted.hierarchy
  have hpath₁ : h₁.path = h.path := hpath₁.symm.trans hpath'
  have hraw : h'.authority.map Authority.text = h.authority.map Authority.text := by
    have hauthority := hsame.authority
    rwa [Uri.getRawAuthority, Uri.getRawAuthority, hh, hh'] at hauthority
  have hnone : h'.authority = none → h.authority = none := by
    intro hno
    rwa [hno, Option.map_none, eq_comm, Option.map_eq_none_iff] at hraw
  have hproper := haccepted.proper
  have hfronts : (authorityText (h.authority.map written) ++ Uris.decode h.path) ++
      (queryText (queryOf queryMap) ++ fragmentText uri.getFragment) =
      (authorityText h₁.authority ++ h₁.path) ++
        (queryText h₁.query ++ fragmentText uri.fragment) := by
    rw [builder, authority_eq hh, getPath_eq hh] at htext
    refine (List.append_right_inj (schemeText uri.scheme)).mp ?_
    simpa [Parts.text, hierarchyText] using htext
  have hle := length_le_of_append_eq hfronts hproper.no_delimiter fun c => head_queryText _ _
  rw [List.length_append, List.length_append, hpath₁] at hle
  obtain ⟨hcanonical, hplain, hfound⟩ := canonical_of_length
    (parseAuthority_found haccepted₀.hierarchy)
    ((authority_of_parseHierarchy haccepted.hierarchy).imp (·.trans hraw) (·.imp_left hnone)) hle
  have hagain : Parts.text ⟨uri.scheme, .inr ⟨h₁.authority, h₁.path, queryOf queryMap⟩,
      uri.getFragment⟩ = Parts.text ⟨uri.scheme, .inr h₁, uri.fragment⟩ := by
    rw [← htext, builder, authority_eq hh, getPath_eq hh, map_written hcanonical, ← hfound,
      decode_of_plain hplain, hpath₁]
    simp [Parts.text, hierarchyText]
  have hsplit := congrArg Uris.split hagain
  rw [split_text hproper, split_text (hproper.withQuery
    (hash_not_mem_of_allowed (allowed_queryOf queryMap)))] at hsplit
  simp only [Parts.mk.injEq, Sum.inr.injEq, true_and] at hsplit
  refine ⟨⟨hcanonical, hplain, fun f hf => ?_, fun hnone => ?_⟩, ?_⟩
  · rw [Uri.getFragment, hf] at hsplit
    by_contra hno
    have hlt := length_decode_lt hno
    rw [Option.some.inj hsplit.2] at hlt
    omega
  · have hnone₁ : h₁.authority = none := by rw [hfound, hnone, Option.map_none]
    rw [← hpath₁]
    refine ⟨hproper.bare hnone₁, fun hscheme hnil => ?_⟩
    have hhead := hproper.absolute hnone₁ hscheme
    rw [hnil] at hhead
    cases hhead
  · rw [Uri.getRawQuery, hh', Option.bind_some, hquery₁]
    exact (congrArg Hierarchy.query hsplit.1).symm

theorem toString_ne_nil_of_apply (hnone : uri.hierarchy = none)
    (happly : apply queryMap uri = .ok uri') (hsame : SameParts uri uri') :
    toString queryMap ≠ [] ∧ uri'.getRawQuery = none := by
  have hnone' : uri'.hierarchy = none := by
    have hpath := hsame.path
    rw [Uri.getRawPath, Uri.getRawPath, hnone] at hpath
    exact Option.map_eq_none_iff.mp hpath
  refine ⟨fun hnil => ?_, by rw [Uri.getRawQuery, hnone']; rfl⟩
  obtain ⟨part, hpart, htext⟩ := exists_of_parse_none (apply_eq_ok_iff.mp happly) hnone'
  have hquery : queryOf queryMap = none := if_neg (by simp [hnil])
  have hauthority : authority uri = [] := by
    simp [authority, Uri.getHost, Uri.getServer, Uri.getAuthority, Uri.getRawAuthority, hnone,
      authorityText]
  have hpath : uri.getPath.getD [] = [] := by
    rw [Uri.getPath, Uri.getRawPath, hnone]
    rfl
  have hfragment : (fragmentText uri.getFragment).length ≤ (fragmentText uri.fragment).length := by
    rw [Uri.getFragment]
    cases uri.fragment with
    | none => exact Nat.le_refl _
    | some f => exact Nat.succ_le_succ (length_decode_le f)
  have hlength := congrArg List.length htext
  rw [builder, hquery, hauthority, hpath, hsame.scheme, hsame.fragment] at hlength
  simp only [queryText, Option.elim_none, List.append_nil, List.length_append] at hlength
  have hpos := List.length_pos_of_ne_nil hpart
  omega

end Apply
end InsightsAssist.UrlEncodedQueryString
