import InsightsAssist.Credentials
import InsightsAssist.PercentCoding
import InsightsAssist.SharedFields

/-! The action that starts an income tax request with the provider. It is a singleton that keeps
what it works on in its fields, which all requests share. Reading or writing a field is a step, and
what a library does with the object in it, as a Matcher, belongs to that step. -/
namespace InsightsAssist.ITOnlineStartRequest
open Runs SharedFields Unicode Uris
open CryptHandler (JavaString)

inductive Pattern where
  | emailPattern | panPattern
  deriving DecidableEq, Repr

/-- `^[A-Z]{5}[0-9]{4}[A-Z]$` -/
def matchesPanPattern (pan : String) : Bool :=
  pan.toList.length = 10 && (pan.toList.take 5).all Char.isUpper &&
    ((pan.toList.drop 5).take 4).all Char.isDigit && (pan.toList.drop 9).all Char.isUpper

def Pattern.matches : Pattern → String → Bool
  | .emailPattern => matchesEmailPattern
  | .panPattern => matchesPanPattern

/-- What is asked of the beans, whose class is not among the sources. -/
structure ITOnlineStartRequestBean (β : Type) where
  getPan : β → Option String
  getRedirectUrl : β → Option String
  getDob : β → Option String
  getClientTxnId : β → Option String
  getFetchForm26AS : β → Option String
  getFetchITR : β → Option String
  getNoOfYearsForForm26AS : β → Option String
  getNoOfYearsForITR : β → Option String
  getType : β → Option String
  setPan : String → β → β

def ITOnlineStartRequestBean.hasEmpty {β : Type} (c : ITOnlineStartRequestBean β) (bean : β) :
    Bool :=
  [c.getPan bean, c.getRedirectUrl bean, c.getDob bean, c.getClientTxnId bean,
    c.getFetchForm26AS bean, c.getFetchITR bean, c.getNoOfYearsForForm26AS bean,
    c.getNoOfYearsForITR bean, c.getType bean].any isEmpty

/-- The key of the organisation acme. `throws` if there is no such organisation or its key is none
of a pair, `absent` if the key cannot be read. -/
inductive SignatureKey (κ : Type) where
  | throws | absent
  | key (k : κ)

/-- Gson on the beans (none for null and for what it throws), the classes of keys, which moduli and
exponents the cipher takes, what a key decrypts, and the url in a response. -/
structure Platform (κ β : Type) extends ITOnlineStartRequestBean β where
  fromJson : Option String → Option β
  toJson : β → String
  isCrt : κ → Bool
  accepts : κ × κ → Bool
  decrypts : κ → List UInt8 → Bool
  urlOf : String → Option String

/-- The parameters, and what happens to the request outside of the action: the key found, the
encryption with its padding, and the lines the provider answers to what is posted. -/
structure Request (κ : Type) where
  email : Option String
  json : Option String
  found : SignatureKey κ
  encrypt : κ × κ → String → Option (List UInt8)
  post : JavaString → Option (List String)

inductive Reply where
  /-- an exception leaves `execute` -/
  | thrown
  | nothing
  | result (message : Option String) (success : Bool)
  | text (responseString : String)
  deriving DecidableEq, Repr

structure Outcome where
  reply : Reply
  posted : Option JavaString
  mailed : Option (String × String)
  deriving DecidableEq, Repr

def ended (reply : Reply) : Outcome := ⟨reply, none, none⟩

inductive Field where
  | pattern | matcher | privateKey | pvt | jstring
  deriving DecidableEq

abbrev Value (κ : Type) : Field → Type
  | .pattern => Option Pattern
  | .matcher => Option (Pattern × String)
  | .privateKey => Option κ
  | .pvt => Option κ
  | .jstring => Option String

def hexEncode (data : List UInt8) : String :=
  .ofList (data.flatMap fun b => [(b.toNat / 16).digitChar, (b.toNat % 16).digitChar])

def postData (jstring : String) : JavaString :=
  utf16 "json=".toList ++ urlEncode (utf16 jstring.toList)

variable {κ β : Type} (p : Platform κ β) (r : Request κ)

/-- None where it throws. -/
def validate (hex : Option String) : Program (Value κ) (Option Bool) := do
  let pattern : Option Pattern ← .get Field.pattern
  match pattern, hex with
  | some pattern, some hex =>
    .set Field.matcher (some (pattern, hex))
    let matcher : Option (Pattern × String) ← .get Field.matcher
    return matcher.map fun m => m.1.matches m.2
  | _, _ => return none

/-- The first `try`; false where the look-up before it throws. -/
def readKey : Program (Value κ) Bool := do
  match r.found with
  | .throws => return false
  | .absent => return true
  | .key k =>
    .set Field.privateKey (some k)
    let privateKey : Option κ ← .get Field.privateKey
    if privateKey.all p.isCrt then .set Field.pvt privateKey
    return true

/-- From the writing of the request to its end. The result is a success already. -/
def send (email jstring : String) : Outcome :=
  let data := postData jstring
  match r.post data with
  | none => ⟨.result none true, some data, none⟩
  | some lines =>
    match p.urlOf (String.join lines) with
    | none => ⟨.result none true, some data, none⟩
    | some responseUrl => ⟨.text (String.join lines), some data,
        some (email, "Please click the insights link to proceed:" ++ responseUrl)⟩

def encryptAndSend (email : String) (publicKey : κ × κ) (bean : β)
    (pan : String) : Program (Value κ) Outcome := do
  match r.encrypt publicKey pan with
  | none => return ended (.result none false)
  | some encryptedPan =>
    .set Field.jstring (some (p.toJson (p.setPan (hexEncode encryptedPan) bean)))
    let privateKey : Option κ ← .get Field.privateKey
    if privateKey.any fun k => p.decrypts k encryptedPan then
      let jstring : Option String ← .get Field.jstring
      match jstring with
      | none => return ended (.result none true)
      | some jstring => return send p r email jstring
    else return ended (.result none false)

/-- The second `try`. -/
def start (email : String) (publicKey : κ × κ) : Program (Value κ) Outcome := do
  if p.accepts publicKey then
    match p.fromJson r.json with
    | none => return ended (.result none false)
    | some bean =>
      if p.hasEmpty bean then return ended (.result (some "Field is null") false)
      else
        match ← validate (p.getPan bean), p.getPan bean with
        | some true, some pan => encryptAndSend p r email publicKey bean pan
        | some false, some _ => return ended .nothing
        | _, _ => return ended (.result none false)
  else return ended (.result none false)

def execute : Program (Value κ) Outcome := do
  .set Field.pattern (some .emailPattern)
  match ← validate r.email, r.email with
  | some true, some email =>
    .set Field.pattern (some .panPattern)
    if ← readKey p r then
      -- the modulus and the exponent are read from the field one after the other
      let modulus : Option κ ← .get Field.pvt
      match modulus with
      | none => return ended .thrown
      | some modulus =>
        let exponent : Option κ ← .get Field.pvt
        match exponent with
        | none => return ended .thrown
        | some exponent => start p r email (modulus, exponent)
    else return ended .thrown
  | some false, some _ => return ended .nothing
  | _, _ => return ended .thrown

/-! ### What a request is to be answered -/

def noFields : (f : Field) → Value κ f
  | .pattern | .matcher | .privateKey | .pvt | .jstring => none

variable {p r} {fields : (f : Field) → Value κ f}

variable {ι : Type} (requests : ι → Request κ)

def received (p : Platform κ β) : State (Value κ) ι Outcome :=
  ⟨noFields, fun t => execute p (requests t)⟩

/-- The text is that of one request: of a bean with nothing missing, with the PAN encrypted under
keys that were found. -/
structure IsRequestText (p : Platform κ β) (u : ι) (text : String) : Prop where
  made : ∃ bean pan modulus exponent encryptedPan,
    p.fromJson (requests u).json = some bean ∧ p.hasEmpty bean = false ∧ p.getPan bean = some pan ∧
      (requests u).encrypt (modulus, exponent) pan = some encryptedPan ∧
      text = p.toJson (p.setPan (hexEncode encryptedPan) bean)

def Valid (p : Platform κ β) : (f : Field) → Value κ f → Prop
  | .jstring, jstring => ∀ text, jstring = some text → ∃ u, IsRequestText requests p u text
  | .pattern, _ | .matcher, _ | .privateKey, _ | .pvt, _ => True

/-- What is posted is the text of some request, and the mail goes to the address of this one. -/
structure Regular (p : Platform κ β) (t : ι) (o : Outcome) : Prop where
  posted : ∀ data, o.posted = some data → ∃ u text, IsRequestText requests p u text ∧
    data = postData text
  mailed : ∀ address body, o.mailed = some (address, body) →
    (requests t).email = some address ∧ o.posted.isSome

variable {requests}

theorem regular_ended {t : ι} (reply : Reply) : Regular requests p t (ended reply) :=
  ⟨nofun, nofun⟩

theorem regular_send {t u : ι} {email text : String} (hemail : (requests t).email = some email)
    (htext : IsRequestText requests p u text) :
    Regular requests p t (send p (requests t) email text) := by
  rw [send]
  split
  · exact ⟨fun data hdata => ⟨u, text, htext, (Option.some.inj hdata).symm⟩, nofun⟩
  · split
    · exact ⟨fun data hdata => ⟨u, text, htext, (Option.some.inj hdata).symm⟩, nofun⟩
    · refine ⟨fun data hdata => ⟨u, text, htext, (Option.some.inj hdata).symm⟩, ?_⟩
      intro address body hmailed
      cases hmailed
      exact ⟨hemail, rfl⟩

theorem keeps_validate (hex : Option String) :
    (validate (κ := κ) hex).Keeps (Valid requests p) fun _ => True := by
  refine .bind Program.keeps_get fun pattern _ => ?_
  cases pattern with
  | none => exact trivial
  | some pattern =>
    cases hex with
    | none => exact trivial
    | some hex =>
      refine .bind (Program.keeps_set trivial) fun _ _ => ?_
      exact .bind Program.keeps_get fun _ _ => trivial

theorem keeps_readKey (t : ι) :
    (readKey p (requests t)).Keeps (Valid requests p) fun _ => True := by
  rw [readKey]
  split
  · exact trivial
  · exact trivial
  · refine .bind (Program.keeps_set trivial) fun _ _ => ?_
    refine .bind Program.keeps_get fun privateKey _ => ?_
    split
    · exact .bind (Program.keeps_set trivial) fun _ _ => trivial
    · exact trivial

theorem keeps_encryptAndSend {t : ι} {email pan : String} {publicKey : κ × κ}
    {bean : β} (hemail : (requests t).email = some email)
    (hbean : p.fromJson (requests t).json = some bean) (hempty : p.hasEmpty bean = false)
    (hpan : p.getPan bean = some pan) :
    (encryptAndSend p (requests t) email publicKey bean pan).Keeps (Valid requests p)
      (Regular requests p t) := by
  rw [encryptAndSend]
  split
  · exact regular_ended _
  · rename_i encryptedPan hencrypt
    refine .bind (Program.keeps_set ?_) fun _ _ => ?_
    · intro text htext
      cases htext
      exact ⟨t, bean, pan, _, _, encryptedPan, hbean, hempty, hpan, hencrypt, rfl⟩
    · refine .bind Program.keeps_get fun privateKey _ => ?_
      split
      · refine .bind Program.keeps_get fun jstring hjstring => ?_
        cases jstring with
        | none => exact regular_ended _
        | some jstring =>
          obtain ⟨u, htext⟩ := hjstring jstring rfl
          exact regular_send hemail htext
      · exact regular_ended _

theorem keeps_start {t : ι} {email : String} (publicKey : κ × κ)
    (hemail : (requests t).email = some email) :
    (start p (requests t) email publicKey).Keeps (Valid requests p) (Regular requests p t) := by
  rw [start]
  split
  · split
    · exact regular_ended _
    · rename_i bean hbean
      split
      · exact regular_ended _
      · rename_i hempty
        refine .bind (keeps_validate _) fun valid _ => ?_
        split
        · rename_i pan hpan
          exact keeps_encryptAndSend hemail hbean (by simpa using hempty) hpan
        · exact regular_ended _
        · exact regular_ended _
  · exact regular_ended _

theorem keeps_execute (t : ι) :
    (execute p (requests t)).Keeps (Valid requests p) (Regular requests p t) := by
  refine .bind (Program.keeps_set trivial) fun _ _ => ?_
  refine .bind (keeps_validate _) fun valid _ => ?_
  split
  · rename_i email hemail
    refine .bind (Program.keeps_set trivial) fun _ _ => ?_
    refine .bind (keeps_readKey t) fun found _ => ?_
    split
    · refine .bind Program.keeps_get fun modulus _ => ?_
      cases modulus with
      | none => exact regular_ended _
      | some modulus =>
        refine .bind Program.keeps_get fun exponent _ => ?_
        cases exponent with
        | none => exact regular_ended _
        | some exponent => exact keeps_start _ hemail
    · exact regular_ended _
  · exact regular_ended _
  · exact regular_ended _

variable [DecidableEq ι] {h : List ι} {s : State (Value κ) ι Outcome} {t : ι} {o : Outcome}

/-- A class whose beans have a PAN only, the other values being the same for all. -/
def panOnly : Platform Unit String where
  getPan := some
  getRedirectUrl _ := some "https://acme.com"
  getDob _ := some "01/01/1990"
  getClientTxnId _ := some "T1"
  getFetchForm26AS _ := some "y"
  getFetchITR _ := some "y"
  getNoOfYearsForForm26AS _ := some "3"
  getNoOfYearsForITR _ := some "3"
  getType _ := some "P"
  setPan pan _ := pan
  fromJson json := json
  toJson bean := "\"" ++ bean ++ "\""
  isCrt _ := true
  accepts _ := true
  decrypts _ _ := true
  urlOf responseString := some responseString

/-- Two requests; the encryption leaves the PAN as it is. -/
def two : Bool → Request Unit := fun second =>
  { email := some (if second then "bob@acme.com" else "ann@acme.com")
    json := some (if second then "BBBBB2222B" else "AAAAA1111A")
    found := .key ()
    encrypt _ pan := some (pan.toList.map fun c => .ofNat c.toNat)
    post _ := some ["https://acme.com/", "start"] }

def apart : List Bool := [true, true] ++ List.replicate 16 false ++ [true]

/-- However the requests interleave, each text that is posted is that of one request, which need not
be the one that posts it. -/
theorem interleaved_regular (hr : Run step AnyStep (received requests p) h s)
    (hdone : s.threads t = .done o) : Regular requests p t o := by
  have hfields (f : Field) : Valid requests p f (noFields f) := by
    cases f with
    | jstring => exact nofun
    | pattern => exact trivial
    | matcher => exact trivial
    | privateKey => exact trivial
    | pvt => exact trivial
  have hkeeps := (keeps_run hfields keeps_execute hr).2 t
  rwa [hdone] at hkeeps

/-- The second request assigns its text before the first one reads the field. -/
def mixed : List Bool := List.replicate 14 false ++ List.replicate 14 true ++ [false, false]

def textOfSecond : String := "\"42424242423232323242\""

theorem mixed_regular : ∃ s o, Run step AnyStep (received two panOnly) mixed s ∧
    s.threads false = .done o ∧
      o.posted = some (postData textOfSecond) ∧ Regular two panOnly false o := by
  obtain ⟨o, ho, hposted⟩ : ∃ o, (exec step (received two panOnly) mixed).bind
      (fun s => (s.threads false).result?) = some o ∧
        o.posted = some (postData textOfSecond) := ⟨_, rfl, by decide +kernel⟩
  obtain ⟨s, hr, hdone⟩ := run_of_result? ho
  exact ⟨s, o, hr, hdone, hposted, interleaved_regular hr hdone⟩

end InsightsAssist.ITOnlineStartRequest
