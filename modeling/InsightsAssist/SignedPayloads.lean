import InsightsAssist.Markup

/-! The payloads that are signed and sent to the provider: XStream's text of a payload, less its
newlines and spaces. The clean-up reaches into the texts of the fields. -/
namespace InsightsAssist.SignedPayloads
open Markup

/-- The fields of an object in the order of their declaration, each with its text; null is none. -/
abbrev Fields := List (String × Option String)

/-- XStream with the payload classes' alias "payload". -/
structure XStream where
  escape : Char → List Char
  toXML : Fields → List Char
  fromXML : List Char → Option (List Element)

def payload : List Char := "payload".toList

/-- Null fields are not written. -/
def elements (fields : Fields) : List Element :=
  fields.filterMap fun field => field.2.map fun text => (field.1.toList, text.toList)

/-- One element a line, indented by two spaces. -/
def pretty (escape : Char → List Char) (fields : Fields) : List Char :=
  startTag payload ++ (elements fields).flatMap (fun e => "\n  ".toList ++ element escape e) ++
    '\n' :: endTag payload

/-- `payload.replaceAll("\n", "")`, then `payload.replace(" ", "")`. -/
def cleaned (text : List Char) : List Char := (text.filter (· ≠ '\n')).filter (· ≠ ' ')

/-- The object of a class with these fields that a text is read as. -/
def parse (x : XStream) (names : List String) (text : List Char) : Option Fields :=
  (x.fromXML text).map fun elements =>
    names.map fun name => (name, (elements.lookup name.toList).map String.ofList)

/-- What is known of XStream: its layout, that spaces and newlines are written as they are and
other characters without them, and which documents can be read. -/
structure XStream.Documented (x : XStream) : Prop where
  toXML_eq : ∀ fields, x.toXML fields = pretty x.escape fields
  escape_blank : ∀ c, c = ' ' ∨ c = '\n' → x.escape c = [c]
  escape_other : ∀ c, c ≠ ' ' → c ≠ '\n' → ' ' ∉ x.escape c ∧ '\n' ∉ x.escape c
  reads : ∀ es, (∀ e ∈ es, IsName e.1) → (∀ e ∈ es, ∀ c ∈ e.2, Xml.isChar c) →
    x.fromXML (document x.escape payload es) = some es
  refuses : ∀ es, (∀ e ∈ es, IsName e.1) → (∃ e ∈ es, ∃ c ∈ e.2, Xml.isChar c = false) →
    x.fromXML (document x.escape payload es) = none

/-! ### The three senders -/

/-- The double is kept as its text. -/
structure InsightsGenerateURLPayload where
  apiVersion : String
  vendorId : Option String
  txnId : Option String
  destination : Option String
  loanAmount : Int32
  loanType : Option String
  loanDuration : Int32
  acceptancePolicy : Option String
  returnUrl : Option String
  transactionCompleteCallbackUrl : Option String
  yearMonthFrom : Option String
  yearMonthTo : Option String
  deriving DecidableEq, Repr

def InsightsGenerateURLPayload.fields (p : InsightsGenerateURLPayload) : Fields :=
  [("apiVersion", some p.apiVersion), ("vendorId", p.vendorId), ("txnId", p.txnId),
    ("destination", p.destination), ("loanAmount", some (toString p.loanAmount)),
    ("loanType", p.loanType), ("loanDuration", some (toString p.loanDuration)),
    ("acceptancePolicy", p.acceptancePolicy), ("returnUrl", p.returnUrl),
    ("transactionCompleteCallbackUrl", p.transactionCompleteCallbackUrl),
    ("yearMonthFrom", p.yearMonthFrom), ("yearMonthTo", p.yearMonthTo)]

structure TransactionStatusPayload where
  apiVersion : String
  txnId : Option String
  vendorId : Option String
  deriving DecidableEq, Repr

def TransactionStatusPayload.fields (p : TransactionStatusPayload) : Fields :=
  [("apiVersion", some p.apiVersion), ("txnId", p.txnId), ("vendorId", p.vendorId)]

structure RetrievePayload where
  apiVersion : String
  perfiosTransactionId : Option String
  reportType : Option String
  txnId : Option String
  vendorId : Option String
  deriving DecidableEq, Repr

def RetrievePayload.fields (p : RetrievePayload) : Fields :=
  [("apiVersion", some p.apiVersion), ("perfiosTransactionId", p.perfiosTransactionId),
    ("reportType", p.reportType), ("txnId", p.txnId), ("vendorId", p.vendorId)]

/-- `GenerateInsightsStatementUploadUrl.getInsightsPayload`, before it is written. -/
def insightsPayload (transactioncompleteUrl : String) (vendor clientTransactionId : Option String)
    (loanAmount loanDuration : Int32) (loanType returnURL : Option String) :
    InsightsGenerateURLPayload where
  apiVersion := "2.0"
  vendorId := vendor
  txnId := clientTransactionId
  destination := some "statement"
  loanAmount := loanAmount
  loanType := loanType
  loanDuration := loanDuration
  acceptancePolicy := some "atLeastOneTransactionInRange"
  returnUrl := returnURL
  transactionCompleteCallbackUrl := some (transactioncompleteUrl ++ "/acme")
  yearMonthFrom := some "2017-01"
  yearMonthTo := some "2018-01"

/-- `HandleInsightsReturnUrl.getTransactionStatusPayload`, before it is written. -/
def transactionStatusPayload (vendor clientTransactionId : Option String) :
    TransactionStatusPayload := ⟨"2.0", clientTransactionId, vendor⟩

/-- `RetrieveReport.getRetrievePayloadXml`, before it is written. -/
def retrievePayload (perfiosTransactionId clientTransactionId : Option String) : RetrievePayload :=
  ⟨"2.0", perfiosTransactionId, some "pdf", clientTransactionId, some "acme"⟩

/-- What is signed and sent of an object is read as the same object. -/
def Recovered (x : XStream) (fields : Fields) : Prop :=
  parse x (fields.map Prod.fst) (cleaned (x.toXML fields)) = some fields

/-- Null, or a text without spaces and newlines that XML has all characters of. -/
def Plain (text : Option String) : Prop :=
  ∀ s ∈ text, ∀ c ∈ s.toList, c ≠ ' ' ∧ c ≠ '\n' ∧ Xml.isChar c

instance (text : Option String) : Decidable (Plain text) :=
  match text with
  | none => .isTrue fun _ h => by simp at h
  | some s => @decidable_of_iff _ (∀ c ∈ s.toList, c ≠ ' ' ∧ c ≠ '\n' ∧ Xml.isChar c)
    (by simp [Plain]) (List.decidableBAll _ s.toList)

/-! ### The clean-up -/

def kept (c : Char) : Bool := c ≠ ' ' && c ≠ '\n'

variable {x : XStream} {fields : Fields} {c : Char}

theorem cleaned_eq (text : List Char) : cleaned text = text.filter kept := by
  rw [cleaned, List.filter_filter]
  rfl

theorem filter_isName {name : List Char} (h : IsName name) : name.filter kept = name := by
  rw [List.filter_eq_self]
  intro c hc
  have halpha := h.2 c hc
  by_contra hblank
  simp only [kept, ne_eq, decide_not, Bool.and_eq_true, Bool.not_eq_true',
    decide_eq_false_iff_not, not_and, not_not] at hblank
  by_cases hspace : c = ' '
  · simp [hspace] at halpha
  · simp [hblank hspace] at halpha

theorem filter_flatMap_escape (hx : x.Documented) (text : List Char) :
    (text.flatMap x.escape).filter kept = (text.filter kept).flatMap x.escape := by
  induction text with
  | nil => rfl
  | cons c text ih =>
    rw [List.flatMap_cons, List.filter_append, ih]
    by_cases hc : c = ' ' ∨ c = '\n'
    · have hdrop : kept c = false := by
        obtain rfl | rfl := hc <;> rfl
      rw [hx.escape_blank c hc, List.filter_cons_of_neg (by simp [hdrop]),
        List.filter_cons_of_neg (by simp [hdrop])]
      simp
    · rw [not_or] at hc
      obtain ⟨hspace, hline⟩ := hx.escape_other c hc.1 hc.2
      have hself : (x.escape c).filter kept = x.escape c := by
        rw [List.filter_eq_self]
        intro d hd
        have h1 : d ≠ ' ' := fun heq => hspace (heq ▸ hd)
        have h2 : d ≠ '\n' := fun heq => hline (heq ▸ hd)
        simp [kept, h1, h2]
      rw [hself, List.filter_cons_of_pos (by simp [kept, hc]), List.flatMap_cons]

def cleanedElements (fields : Fields) : List Element :=
  (elements fields).map fun e => (e.1, e.2.filter kept)

theorem filter_startTag {name : List Char} (h : IsName name) :
    (startTag name).filter kept = startTag name := by
  simp [startTag, filter_isName h, kept]

theorem filter_endTag {name : List Char} (h : IsName name) :
    (endTag name).filter kept = endTag name := by
  simp [endTag, filter_isName h, kept]

theorem isName_payload : IsName payload := by decide

theorem cleaned_toXML (hx : x.Documented) (hnames : ∀ e ∈ elements fields, IsName e.1) :
    cleaned (x.toXML fields) = document x.escape payload (cleanedElements fields) := by
  have helements : ((elements fields).flatMap fun e => "\n  ".toList ++ element x.escape e).filter
      kept = (cleanedElements fields).flatMap (element x.escape) := by
    rw [cleanedElements]
    generalize elements fields = es at hnames
    induction es with
    | nil => rfl
    | cons e es ih =>
      have hname := hnames e (by simp)
      have hindent : "\n  ".toList.filter kept = [] := by decide
      rw [List.flatMap_cons, List.filter_append, ih fun e he => hnames e (by simp [he]),
        List.map_cons, List.flatMap_cons]
      congr 1
      simp only [element, List.filter_append, filter_startTag hname, filter_endTag hname,
        filter_flatMap_escape hx, hindent, List.nil_append]
  have hline : ('\n' :: endTag payload).filter kept = endTag payload := by
    rw [List.filter_cons_of_neg (by decide), filter_endTag isName_payload]
  rw [cleaned_eq, hx.toXML_eq, pretty, List.filter_append, List.filter_append, helements, hline,
    filter_startTag isName_payload, document]

/-! ### Reading the fields again -/

theorem mem_elements {e : Element} : e ∈ elements fields ↔
    ∃ field ∈ fields, ∃ s, field.2 = some s ∧ (field.1.toList, s.toList) = e := by
  simp [elements, Option.map_eq_some_iff]

theorem mem_cleanedElements {e : Element} : e ∈ cleanedElements fields ↔
    ∃ field ∈ fields, ∃ s, field.2 = some s ∧ (field.1.toList, s.toList.filter kept) = e := by
  constructor
  · intro he
    obtain ⟨e', he', rfl⟩ := List.mem_map.mp he
    obtain ⟨field, hfield, s, hs, rfl⟩ := mem_elements.mp he'
    exact ⟨field, hfield, s, hs, rfl⟩
  · rintro ⟨field, hfield, s, hs, rfl⟩
    exact List.mem_map.mpr ⟨_, mem_elements.mpr ⟨field, hfield, s, hs, rfl⟩, rfl⟩

theorem lookup_cleanedElements_none {name : String} (h : name ∉ fields.map Prod.fst) :
    (cleanedElements fields).lookup name.toList = none := by
  rw [List.lookup_eq_none_iff]
  intro e he
  obtain ⟨field, hfield, s, _, rfl⟩ := mem_cleanedElements.mp he
  have hne : name ≠ field.1 := fun heq => h (heq ▸ List.mem_map_of_mem hfield)
  simpa [String.toList_inj] using hne

theorem lookup_cleanedElements (hnodup : (fields.map Prod.fst).Nodup)
    {field : String × Option String} (hmem : field ∈ fields) :
    (cleanedElements fields).lookup field.1.toList =
      field.2.map fun s => s.toList.filter kept := by
  induction fields with
  | nil => cases hmem
  | cons f fields ih =>
    rw [List.map_cons, List.nodup_cons] at hnodup
    have hcons : cleanedElements (f :: fields) = match f.2 with
        | some s => (f.1.toList, s.toList.filter kept) :: cleanedElements fields
        | none => cleanedElements fields := by
      cases hf : f.2 <;> simp [cleanedElements, elements, hf]
    obtain rfl | hmem := List.mem_cons.mp hmem
    · cases hf : field.2 with
      | none => simp only [hcons, hf, lookup_cleanedElements_none hnodup.1, Option.map_none]
      | some s => simp [hcons, hf]
    · have hne : field.1 ≠ f.1 := fun heq => hnodup.1 (heq ▸ List.mem_map_of_mem hmem)
      have hnames : (field.1.toList == f.1.toList) = false := by
        simpa [String.toList_inj] using hne
      rw [hcons, ← ih hnodup.2 hmem]
      cases f.2 with
      | none => rfl
      | some s => simp only [List.lookup_cons, hnames]

def Readable (fields : Fields) : Prop :=
  ∀ field ∈ fields, ∀ s ∈ field.2, ∀ c ∈ s.toList.filter kept, Xml.isChar c

structure WellNamed (names : List String) : Prop where
  nodup : names.Nodup
  isName : ∀ name ∈ names, IsName name.toList

instance (names : List String) : Decidable (WellNamed names) :=
  decidable_of_iff (names.Nodup ∧ ∀ name ∈ names, IsName name.toList)
    ⟨fun h => ⟨h.1, h.2⟩, fun h => ⟨h.1, h.2⟩⟩

theorem parse_cleaned (hx : x.Documented) (hfields : WellNamed (fields.map Prod.fst)) :
    (Readable fields → parse x (fields.map Prod.fst) (cleaned (x.toXML fields)) =
      some (fields.map fun field =>
        (field.1, field.2.map fun s => .ofList (s.toList.filter kept)))) ∧
    (¬ Readable fields → parse x (fields.map Prod.fst) (cleaned (x.toXML fields)) = none) := by
  have hnames : ∀ field ∈ fields, IsName field.1.toList := fun field hfield =>
    hfields.isName _ (List.mem_map_of_mem hfield)
  have helements : ∀ e ∈ elements fields, IsName e.1 := by
    intro e he
    obtain ⟨field, hfield, s, _, rfl⟩ := mem_elements.mp he
    exact hnames field hfield
  have hcleaned : ∀ e ∈ cleanedElements fields, IsName e.1 := by
    intro e he
    obtain ⟨field, hfield, s, _, rfl⟩ := mem_cleanedElements.mp he
    exact hnames field hfield
  rw [parse, cleaned_toXML hx helements]
  constructor
  · intro hread
    have hchars : ∀ e ∈ cleanedElements fields, ∀ c ∈ e.2, Xml.isChar c := by
      intro e he
      obtain ⟨field, hfield, s, hs, rfl⟩ := mem_cleanedElements.mp he
      exact hread field hfield s hs
    rw [hx.reads _ hcleaned hchars, Option.map_some, List.map_map]
    refine congrArg some (List.map_congr_left fun field hfield => ?_)
    simp [lookup_cleanedElements hfields.nodup hfield, Function.comp_def]
  · intro hread
    simp only [Readable, not_forall, Bool.not_eq_true] at hread
    obtain ⟨field, hfield, s, hs, c, hc, hchar⟩ := hread
    have hmem : (field.1.toList, s.toList.filter kept) ∈ cleanedElements fields :=
      mem_cleanedElements.mpr ⟨field, hfield, s, hs, rfl⟩
    rw [hx.refuses _ hcleaned ⟨_, hmem, c, hc, hchar⟩, Option.map_none]

theorem plain_iff {text : Option String} : Plain text ↔
    (text.map fun s => .ofList (s.toList.filter kept)) = text ∧
      ∀ s ∈ text, ∀ c ∈ s.toList.filter kept, Xml.isChar c := by
  cases text with
  | none => simp [Plain]
  | some s =>
    have hsame : String.ofList (s.toList.filter kept) = s ↔ ∀ c ∈ s.toList, kept c := by
      rw [← String.toList_inj, String.toList_ofList, List.filter_eq_self]
    simp only [Option.map_some, Option.some_inj, hsame, Plain, Option.mem_some, forall_eq']
    constructor
    · intro hplain
      have hkept : ∀ c ∈ s.toList, kept c := fun c hc => by
        simp [kept, (hplain c hc).1, (hplain c hc).2.1]
      exact ⟨hkept, fun c hc => (hplain c (List.mem_of_mem_filter hc)).2.2⟩
    · intro ⟨hkept, hchars⟩ c hc
      have hparts : c ≠ ' ' ∧ c ≠ '\n' := by simpa [kept] using hkept c hc
      exact ⟨hparts.1, hparts.2, hchars c (List.mem_filter.mpr ⟨hc, hkept c hc⟩)⟩

theorem recovered_iff (hx : x.Documented) (hfields : WellNamed (fields.map Prod.fst)) :
    Recovered x fields ↔ ∀ field ∈ fields, Plain field.2 := by
  obtain ⟨hread, hunread⟩ := parse_cleaned hx hfields
  have hsame : (fields.map fun field =>
      (field.1, field.2.map fun s => String.ofList (s.toList.filter kept))) = fields ↔
      ∀ field ∈ fields, (field.2.map fun s => String.ofList (s.toList.filter kept)) = field.2 := by
    conv_lhs => rhs; rw [← List.map_id fields]
    rw [List.map_inj_left]
    exact forall₂_congr fun field _ => by simp [Prod.ext_iff]
  by_cases h : Readable fields
  · rw [Recovered, hread h, Option.some_inj, hsame]
    exact forall₂_congr fun field hfield => (plain_iff.trans (and_iff_left (h field hfield))).symm
  · rw [Recovered, hunread h]
    refine iff_of_false (by simp) fun hplain => h fun field hfield => ?_
    exact (plain_iff.mp (hplain field hfield)).2

theorem plain_append {s t : String} : Plain (some (s ++ t)) ↔ Plain (some s) ∧ Plain (some t) := by
  simp only [Plain, Option.mem_some, forall_eq', String.toList_append, List.mem_append]
  exact ⟨fun h => ⟨fun c hc => h c (.inl hc), fun c hc => h c (.inr hc)⟩,
    fun h c hc => hc.elim (h.1 c) (h.2 c)⟩

theorem plain_repr (n : Nat) : Plain (some n.repr) := by
  simp only [Plain, Option.mem_some, forall_eq', Nat.toList_repr]
  intro c hc
  have hdigit := Nat.isDigit_of_mem_toDigits (by decide) (by decide) hc
  have hbounds : 48 ≤ c.toNat ∧ c.toNat ≤ 57 := Char.isDigit_iff_toNat.mp hdigit
  refine ⟨?_, ?_, ?_⟩
  · rintro rfl
    exact absurd hdigit (by decide)
  · rintro rfl
    exact absurd hdigit (by decide)
  · simp only [Xml.isChar, Bool.or_eq_true, Bool.and_eq_true, decide_eq_true_eq]
    omega

theorem plain_toString (n : Int32) : Plain (some (toString n)) := by
  change Plain (some n.toInt.repr)
  cases n.toInt with
  | ofNat m => exact plain_repr m
  | negSucc m => exact plain_append.mpr ⟨by decide, plain_repr _⟩

theorem insightsPayload_recovered_iff (hx : x.Documented) {transactioncompleteUrl : String}
    {vendor clientTransactionId loanType returnURL : Option String}
    {loanAmount loanDuration : Int32} :
    Recovered x (insightsPayload transactioncompleteUrl vendor clientTransactionId loanAmount
        loanDuration loanType returnURL).fields ↔
      Plain vendor ∧ Plain clientTransactionId ∧ Plain loanType ∧ Plain returnURL ∧
        Plain (some transactioncompleteUrl) := by
  have hnames : WellNamed ["apiVersion", "vendorId", "txnId", "destination", "loanAmount",
    "loanType", "loanDuration", "acceptancePolicy", "returnUrl",
    "transactionCompleteCallbackUrl", "yearMonthFrom", "yearMonthTo"] := by decide
  have hversion : Plain (some "2.0") := by decide
  have hdestination : Plain (some "statement") := by decide
  have hpolicy : Plain (some "atLeastOneTransactionInRange") := by decide
  have hacme : Plain (some "/acme") := by decide
  have hfrom : Plain (some "2017-01") := by decide
  have hto : Plain (some "2018-01") := by decide
  refine Iff.trans (recovered_iff hx ?_) ?_
  · exact hnames
  simp only [InsightsGenerateURLPayload.fields, insightsPayload, List.forall_mem_cons,
    List.not_mem_nil, plain_toString, plain_append, hversion, hdestination, hpolicy, hacme, hfrom,
    hto, true_and, and_true, false_imp_iff, implies_true]

theorem transactionStatusPayload_recovered_iff (hx : x.Documented)
    {vendor clientTransactionId : Option String} :
    Recovered x (transactionStatusPayload vendor clientTransactionId).fields ↔
      Plain clientTransactionId ∧ Plain vendor := by
  have hnames : WellNamed ["apiVersion", "txnId", "vendorId"] := by decide
  have hversion : Plain (some "2.0") := by decide
  refine Iff.trans (recovered_iff hx ?_) ?_
  · exact hnames
  simp [TransactionStatusPayload.fields, transactionStatusPayload, hversion]

theorem retrievePayload_recovered_iff (hx : x.Documented)
    {perfiosTransactionId clientTransactionId : Option String} :
    Recovered x (retrievePayload perfiosTransactionId clientTransactionId).fields ↔
      Plain perfiosTransactionId ∧ Plain clientTransactionId := by
  have hnames : WellNamed ["apiVersion", "perfiosTransactionId", "reportType", "txnId",
    "vendorId"] := by decide
  have hversion : Plain (some "2.0") := by decide
  have hpdf : Plain (some "pdf") := by decide
  have hacme : Plain (some "acme") := by decide
  refine Iff.trans (recovered_iff hx ?_) ?_
  · exact hnames
  simp [RetrievePayload.fields, retrievePayload, hversion, hpdf, hacme]

/-- Each of the three senders sends a payload that is read as it was built iff the texts it was
built with are plain. -/
theorem sent_recovered_iff (hx : x.Documented) :
    (∀ transactioncompleteUrl vendor clientTransactionId loanAmount loanDuration loanType returnURL,
      Recovered x (insightsPayload transactioncompleteUrl vendor clientTransactionId loanAmount
        loanDuration loanType returnURL).fields ↔
      Plain vendor ∧ Plain clientTransactionId ∧ Plain loanType ∧ Plain returnURL ∧
        Plain (some transactioncompleteUrl)) ∧
    (∀ vendor clientTransactionId,
      Recovered x (transactionStatusPayload vendor clientTransactionId).fields ↔
        Plain clientTransactionId ∧ Plain vendor) ∧
    ∀ perfiosTransactionId clientTransactionId,
      Recovered x (retrievePayload perfiosTransactionId clientTransactionId).fields ↔
        Plain perfiosTransactionId ∧ Plain clientTransactionId :=
  ⟨fun _ _ _ _ _ _ _ => insightsPayload_recovered_iff hx,
    fun _ _ => transactionStatusPayload_recovered_iff hx,
    fun _ _ => retrievePayload_recovered_iff hx⟩

/-! ### An XStream -/

/-- Writes with the entities of XML and reads flat documents. -/
def flatXStream : XStream where
  escape := Xml.escape
  toXML := pretty Xml.escape
  fromXML := Markup.read Xml.unescape payload

theorem mapM_readable (es : List Element) :
    (es.mapM fun e => (Xml.unescape (e.2.flatMap Xml.escape)).map (e.1, ·)) =
      if es.all fun e => e.2.all Xml.isChar then some es else none := by
  induction es with
  | nil => simp
  | cons e es ih =>
    rw [List.mapM_cons, ih, Xml.unescape_flatMap_escape]
    cases he : e.2.all Xml.isChar with
    | true =>
      cases hes : es.all fun e => e.2.all Xml.isChar with
      | true => simp only [if_true, List.all_cons, he, hes, Bool.and_self]; rfl
      | false => simp [List.all_cons, he, hes]
    | false => simp only [List.all_cons, he, Bool.false_and, if_neg Bool.false_ne_true]; rfl

theorem flatXStream_documented : flatXStream.Documented := by
  have hread (es : List Element) (hnames : ∀ e ∈ es, IsName e.1) :
      flatXStream.fromXML (document Xml.escape payload es) =
        if es.all fun e => e.2.all Xml.isChar then some es else none :=
    (read_document Xml.bracket_not_mem_escape isName_payload hnames).trans (mapM_readable es)
  refine ⟨fun _ => rfl, ?_, ?_, ?_, ?_⟩
  · rintro c (rfl | rfl) <;> rfl
  · intro c hspace hline
    constructor
    · intro hmem
      exact (Xml.mem_escape hmem).elim (fun heq => hspace heq.symm) fun hother => hother.1 rfl
    · intro hmem
      exact (Xml.mem_escape hmem).elim (fun heq => hline heq.symm) fun hother => hother.2 rfl
  · intro es hnames hchars
    exact (hread es hnames).trans (if_pos (by simpa using hchars))
  · intro es hnames ⟨e, he, c, hc, hchar⟩
    refine (hread es hnames).trans (if_neg fun hall => ?_)
    have hchars : ∀ e ∈ es, ∀ c ∈ e.2, Xml.isChar c := by simpa using hall
    simp [hchars e he c hc] at hchar

theorem acme_recovered : flatXStream.Documented ∧
    Recovered flatXStream (insightsPayload "https://acme.com/complete" (some "acme")
      (some "P4X7") 500000 24 (some "Home&Car") (some "https://acme.com/return?id=P4X7")).fields :=
  ⟨flatXStream_documented, ((sent_recovered_iff flatXStream_documented).1 _ _ _ _ _ _ _).mpr
    (by decide)⟩

/-- The space is taken out of the organisation's name. -/
theorem spaced_not_recovered : flatXStream.Documented ∧
    ¬ Recovered flatXStream (insightsPayload "https://acme.com/complete" (some "Acme Bank")
      (some "P4X7") 500000 24 (some "Home") (some "https://acme.com/return?id=P4X7")).fields := by
  refine ⟨flatXStream_documented, ?_⟩
  rw [insightsPayload_recovered_iff flatXStream_documented]
  decide

end InsightsAssist.SignedPayloads
