import Mathlib.Data.List.Induction
import InsightsAssist.PercentCoding

/-! The URIs of `java.net.URI`: the strings that its parser accepts, and the parts it finds in
them. -/
namespace InsightsAssist.Uris
open CryptHandler (JavaString)

/-! The division into parts, by the first of each delimiter. -/

structure Hierarchy (α : Type) where
  authority : Option α
  path : JavaString
  query : Option JavaString
  deriving DecidableEq, Repr

structure Parts where
  scheme : Option JavaString
  /-- without one the scheme is followed by a string that has no parts -/
  body : JavaString ⊕ Hierarchy JavaString
  fragment : Option JavaString

def schemeText (scheme : Option JavaString) : JavaString := scheme.elim [] (· ++ [code ':'])

def authorityText (authority : Option JavaString) : JavaString :=
  authority.elim [] ([code '/', code '/'] ++ ·)

def queryText (query : Option JavaString) : JavaString := query.elim [] (code '?' :: ·)

def fragmentText (fragment : Option JavaString) : JavaString := fragment.elim [] (code '#' :: ·)

def hierarchyText (h : Hierarchy JavaString) : JavaString :=
  authorityText h.authority ++ h.path ++ queryText h.query

def Parts.text (p : Parts) : JavaString :=
  schemeText p.scheme ++ p.body.elim id hierarchyText ++ fragmentText p.fragment

/-- The first of the delimiters is the colon. -/
def splitScheme (s : JavaString) : Option JavaString × JavaString :=
  match cutAt (code ':') s with
  | (a, some rest) => if code '/' ∈ a ∨ code '?' ∈ a then (none, s) else (some a, rest)
  | (_, none) => (none, s)

def splitAuthority (s : JavaString) : Option JavaString × JavaString :=
  match s with
  | c :: d :: s =>
    if c = code '/' ∧ d = code '/' then
      (some (cutAt (code '/') s).1, (cutAt (code '/') s).2.elim [] (code '/' :: ·))
    else (none, c :: d :: s)
  | s => (none, s)

def splitHierarchy (s : JavaString) : Hierarchy JavaString :=
  let (front, query) := cutAt (code '?') s
  let (authority, path) := splitAuthority front
  ⟨authority, path, query⟩

def split (s : JavaString) : Parts :=
  let (front, fragment) := cutAt (code '#') s
  let (scheme, rest) := splitScheme front
  let isHierarchical := scheme = none ∨ rest.head? = some (code '/')
  ⟨scheme, if isHierarchical then .inr (splitHierarchy rest) else .inl rest, fragment⟩

/-- A scheme and a hierarchy that come back from their text. -/
structure Proper (prior : Option JavaString) (h : Hierarchy JavaString) : Prop where
  scheme : ∀ a ∈ prior, code ':' ∉ a ∧ code '/' ∉ a ∧ code '?' ∉ a ∧ code '#' ∉ a
  authority : ∀ a ∈ h.authority, code '/' ∉ a ∧ code '?' ∉ a ∧ code '#' ∉ a ∧
    (h.path = [] ∨ h.path.head? = some (code '/'))
  path : code '?' ∉ h.path ∧ code '#' ∉ h.path
  query : ∀ q ∈ h.query, code '#' ∉ q
  /-- the path does not look like an authority -/
  bare : h.authority = none → ¬[code '/', code '/'] <+: h.path
  absolute : h.authority = none → prior ≠ none → h.path.head? = some (code '/')
  /-- the path does not look like a scheme -/
  relative : h.authority = none → prior = none →
    ∀ a b, h.path = a ++ code ':' :: b → code ':' ∉ a → code '/' ∈ a

section Split
variable {s a : JavaString} {scheme fragment : Option JavaString} {h : Hierarchy JavaString}

theorem text_splitScheme (s : JavaString) :
    schemeText (splitScheme s).1 ++ (splitScheme s).2 = s := by
  have hjoin := joinAt_cutAt (code ':') s
  rw [splitScheme]
  split
  · rename_i a rest hcut
    split
    · rfl
    · rw [hcut] at hjoin
      rw [← hjoin]
      simp [schemeText, joinAt]
  · rfl

theorem text_splitAuthority (s : JavaString) :
    authorityText (splitAuthority s).1 ++ (splitAuthority s).2 = s := by
  rw [splitAuthority.eq_def]
  split
  · split
    · rename_i c d s hcd
      obtain ⟨rfl, rfl⟩ := hcd
      exact congrArg ([code '/', code '/'] ++ ·) (joinAt_cutAt (code '/') s)
    · rfl
  · rfl

theorem text_splitHierarchy (s : JavaString) : hierarchyText (splitHierarchy s) = s := by
  have hjoin := joinAt_cutAt (code '?') s
  rw [joinAt] at hjoin
  rw [hierarchyText, splitHierarchy, text_splitAuthority]
  exact hjoin

theorem split_eq (s : JavaString) : split s = ⟨(splitScheme (cutAt (code '#') s).1).1,
    if (splitScheme (cutAt (code '#') s).1).1 = none ∨
        (splitScheme (cutAt (code '#') s).1).2.head? = some (code '/') then
      .inr (splitHierarchy (splitScheme (cutAt (code '#') s).1).2)
    else .inl (splitScheme (cutAt (code '#') s).1).2, (cutAt (code '#') s).2⟩ := rfl

theorem text_split (s : JavaString) : (split s).text = s := by
  have hbody (s : JavaString) (b : Prop) [Decidable b] :
      (if b then .inr (splitHierarchy s) else .inl s : JavaString ⊕ Hierarchy JavaString).elim id
        hierarchyText = s := by
    split
    · exact text_splitHierarchy s
    · rfl
  rw [split_eq, Parts.text, hbody, text_splitScheme]
  exact joinAt_cutAt (code '#') s

theorem splitScheme_of_some (ha : code ':' ∉ a ∧ code '/' ∉ a ∧ code '?' ∉ a) (s : JavaString) :
    splitScheme (schemeText (some a) ++ s) = (some a, s) := by
  have hcut : cutAt (code ':') (schemeText (some a) ++ s) = (a, some s) := by
    rw [schemeText, Option.elim_some, List.append_assoc]
    exact cutAt_append ha.1
  rw [splitScheme, hcut]
  simp [ha.2]

theorem splitScheme_of_none
    (h : ∀ a b, s = a ++ code ':' :: b → code ':' ∉ a → code '/' ∈ a ∨ code '?' ∈ a) :
    splitScheme s = (none, s) := by
  have hjoin := joinAt_cutAt (code ':') s
  have hmem := not_mem_cutAt (code ':') s
  rw [splitScheme]
  split
  · rename_i a rest hcut
    rw [hcut] at hjoin hmem
    rw [if_pos (h a rest hjoin.symm hmem)]
  · rfl

theorem splitAuthority_of_some (ha : code '/' ∉ a) {path : JavaString}
    (hpath : path = [] ∨ path.head? = some (code '/')) :
    splitAuthority (authorityText (some a) ++ path) = (some a, path) := by
  change splitAuthority (code '/' :: code '/' :: (a ++ path)) = _
  rw [splitAuthority, if_pos ⟨rfl, rfl⟩]
  obtain rfl | hpath := hpath
  · rw [List.append_nil, cutAt_of_not_mem ha]
    rfl
  · obtain ⟨p, rfl⟩ := List.head?_eq_some_iff.mp hpath
    rw [cutAt_append ha]
    rfl

theorem splitAuthority_of_none (hs : ¬[code '/', code '/'] <+: s) :
    splitAuthority s = (none, s) := by
  rw [splitAuthority.eq_def]
  split
  · rename_i c d s
    rw [if_neg]
    rintro ⟨rfl, rfl⟩
    exact hs ⟨s, rfl⟩
  · rfl

theorem mem_schemeText {c : UInt16} :
    c ∈ schemeText scheme ↔ ∃ a ∈ scheme, c ∈ a ∨ c = code ':' := by
  cases scheme <;> simp [schemeText]

theorem mem_authorityText {c : UInt16} {authority : Option JavaString} :
    c ∈ authorityText authority ↔ ∃ a ∈ authority, c = code '/' ∨ c ∈ a := by
  cases authority <;> simp [authorityText]

theorem mem_queryText {c : UInt16} {query : Option JavaString} :
    c ∈ queryText query ↔ ∃ q ∈ query, c = code '?' ∨ c ∈ q := by
  cases query <;> simp [queryText]

theorem Proper.question_not_mem (hproper : Proper scheme h) :
    code '?' ∉ authorityText h.authority ++ h.path := by
  rw [List.mem_append, not_or, mem_authorityText]
  refine ⟨?_, hproper.path.1⟩
  rintro ⟨a, ha, hmem | hmem⟩
  · exact absurd hmem (by decide)
  · exact (hproper.authority a ha).2.1 hmem

theorem splitHierarchy_text (hproper : Proper scheme h) : splitHierarchy (hierarchyText h) = h := by
  have hfront := hproper.question_not_mem
  obtain ⟨authority, path, query⟩ := h
  have hcut : cutAt (code '?') (hierarchyText ⟨authority, path, query⟩) =
      (authorityText authority ++ path, query) := @cutAt_joinAt _ (_, query) hfront
  have hauthority : splitAuthority (authorityText authority ++ path) = (authority, path) := by
    cases authority with
    | none => exact splitAuthority_of_none (hproper.bare rfl)
    | some a =>
      exact splitAuthority_of_some (hproper.authority a rfl).1 (hproper.authority a rfl).2.2.2
  simp only [splitHierarchy, hcut, hauthority]

theorem Proper.hash_not_mem (hproper : Proper scheme h) :
    code '#' ∉ schemeText scheme ++ hierarchyText h := by
  have hcolon : code '#' ≠ code ':' := by decide
  have hslash : code '#' ≠ code '/' := by decide
  have hquestion : code '#' ≠ code '?' := by decide
  rw [hierarchyText]
  simp only [List.mem_append, mem_schemeText, mem_authorityText, mem_queryText, not_or]
  refine ⟨?_, ⟨?_, hproper.path.2⟩, ?_⟩
  · rintro ⟨a, ha, hmem | hmem⟩
    · exact (hproper.scheme a ha).2.2.2 hmem
    · exact hcolon hmem
  · rintro ⟨a, ha, hmem | hmem⟩
    · exact hslash hmem
    · exact (hproper.authority a ha).2.2.1 hmem
  · rintro ⟨q, hq, hmem | hmem⟩
    · exact hquestion hmem
    · exact hproper.query q hq hmem

theorem Proper.no_delimiter (hproper : Proper scheme h) :
    ∀ c ∈ authorityText h.authority ++ h.path, ¬(c = code '?' ∨ c = code '#') := by
  rintro c hc (rfl | rfl)
  · exact hproper.question_not_mem hc
  · exact hproper.hash_not_mem (List.mem_append_right _ (List.mem_append_left _ hc))

theorem Proper.withQuery (hproper : Proper scheme h) {query : Option JavaString}
    (hquery : ∀ q ∈ query, code '#' ∉ q) : Proper scheme ⟨h.authority, h.path, query⟩ :=
  ⟨hproper.scheme, hproper.authority, hproper.path, hquery, hproper.bare, hproper.absolute,
    hproper.relative⟩

theorem Proper.before_colon (hproper : Proper none h) {a b : JavaString}
    (htext : hierarchyText h = a ++ code ':' :: b) (ha : code ':' ∉ a) :
    code '/' ∈ a ∨ code '?' ∈ a := by
  obtain ⟨authority, path, query⟩ := h
  cases authority with
  | some authority =>
    left
    change code '/' :: _ = _ at htext
    cases a with
    | nil => exact absurd (List.cons.inj htext).1 (by decide)
    | cons c a =>
      rw [(List.cons.inj htext).1]
      exact List.mem_cons_self
  | none =>
    change path ++ queryText query = _ at htext
    obtain ⟨a', rfl, hquery⟩ | ⟨c', hpath, hcolon⟩ := List.append_eq_append_iff.mp htext
    · right
      cases query with
      | none =>
        change [] = _ at hquery
        simp at hquery
      | some q =>
        change code '?' :: q = _ at hquery
        cases a' with
        | nil => exact absurd (List.cons.inj hquery).1 (by decide)
        | cons c a' =>
          rw [(List.cons.inj hquery).1]
          simp
    · cases c' with
      | nil =>
        right
        cases query with
        | none =>
          change _ = [] at hcolon
          simp at hcolon
        | some q =>
          change _ = code '?' :: q at hcolon
          exact absurd (List.cons.inj hcolon).1 (by decide)
      | cons c c' =>
        obtain rfl := (List.cons.inj hcolon).1
        exact .inl (hproper.relative rfl rfl a c' hpath ha)

theorem split_text (hproper : Proper scheme h) (fragment : Option JavaString) :
    split (Parts.text ⟨scheme, .inr h, fragment⟩) = ⟨scheme, .inr h, fragment⟩ := by
  have hcut : cutAt (code '#') (Parts.text ⟨scheme, .inr h, fragment⟩) =
      (schemeText scheme ++ hierarchyText h, fragment) :=
    @cutAt_joinAt _ (_, fragment) hproper.hash_not_mem
  have hscheme : splitScheme (schemeText scheme ++ hierarchyText h) =
      (scheme, hierarchyText h) := by
    cases scheme with
    | none => exact splitScheme_of_none fun a b => hproper.before_colon
    | some a =>
      have ha := hproper.scheme a rfl
      exact splitScheme_of_some ⟨ha.1, ha.2.1, ha.2.2.1⟩ _
  have hhierarchical : scheme = none ∨ (hierarchyText h).head? = some (code '/') := by
    by_cases hnone : scheme = none
    · exact .inl hnone
    · right
      obtain ⟨authority, path, query⟩ := h
      cases authority with
      | some a => rfl
      | none =>
        obtain ⟨p, hp⟩ := List.head?_eq_some_iff.mp (hproper.absolute rfl hnone)
        change path = _ at hp
        rw [hp]
        rfl
  rw [split_eq, hcut, hscheme, if_pos hhierarchical, splitHierarchy_text hproper]

theorem splitScheme_some (hs : (splitScheme s).1 = some a) :
    code ':' ∉ a ∧ code '/' ∉ a ∧ code '?' ∉ a := by
  have hmem := not_mem_cutAt (code ':') s
  rw [splitScheme] at hs
  split at hs
  · rename_i a' rest hcut
    split at hs
    · cases hs
    · rename_i hno
      obtain rfl : a' = a := by simpa using hs
      rw [hcut] at hmem
      exact ⟨hmem, not_or.mp hno⟩
  · cases hs

theorem splitScheme_none (hs : (splitScheme s).1 = none) {b : JavaString}
    (hcolon : s = a ++ code ':' :: b) (ha : code ':' ∉ a) : code '/' ∈ a ∨ code '?' ∈ a := by
  rw [splitScheme, hcolon, cutAt_append ha] at hs
  by_contra hno
  simp [hno] at hs

theorem splitAuthority_some (hs : (splitAuthority s).1 = some a) :
    code '/' ∉ a ∧ ((splitAuthority s).2 = [] ∨ (splitAuthority s).2.head? = some (code '/')) := by
  rw [splitAuthority.eq_def] at hs ⊢
  split at hs
  · rename_i c d s
    split at hs
    · obtain rfl := Option.some.inj hs
      rename_i hcd
      rw [if_pos hcd]
      refine ⟨not_mem_cutAt _ s, ?_⟩
      cases (cutAt (code '/') s).2 with
      | none => exact .inl rfl
      | some p => exact .inr rfl
    · cases hs
  · cases hs

theorem splitAuthority_none (hs : (splitAuthority s).1 = none) :
    ¬[code '/', code '/'] <+: (splitAuthority s).2 := by
  have htext := text_splitAuthority s
  rw [hs] at htext
  change (splitAuthority s).2 = s at htext
  rw [htext]
  rintro ⟨p, rfl⟩
  rw [List.cons_append, List.cons_append, splitAuthority, if_pos ⟨rfl, rfl⟩] at hs
  cases hs

theorem question_not_mem_splitHierarchy (s : JavaString) :
    code '?' ∉ authorityText (splitHierarchy s).authority ++ (splitHierarchy s).path := by
  rw [splitHierarchy, text_splitAuthority]
  exact not_mem_cutAt _ s

theorem proper_split (hsplit : (split s).body = .inr h) : Proper (split s).scheme h := by
  have hhash := not_mem_cutAt (code '#') s
  rw [split_eq] at hsplit ⊢
  generalize (cutAt (code '#') s).1 = front at hsplit hhash ⊢
  have hfront := text_splitScheme front
  have hscheme (a : JavaString) := splitScheme_some (s := front) (a := a)
  have hnone := @splitScheme_none front
  generalize hparts : splitScheme front = parts at hsplit hfront hscheme hnone ⊢
  obtain ⟨scheme, rest⟩ := parts
  dsimp only at hsplit hfront hscheme hnone ⊢
  split at hsplit
  case isFalse => cases hsplit
  case isTrue hhierarchical =>
    obtain rfl := Sum.inr.inj hsplit
    have hrest := text_splitHierarchy rest
    have hquestion := question_not_mem_splitHierarchy rest
    have hsome (a : JavaString) := splitAuthority_some (s := (cutAt (code '?') rest).1) (a := a)
    have hbare := splitAuthority_none (s := (cutAt (code '?') rest).1)
    change ∀ a, (splitHierarchy rest).authority = some a → code '/' ∉ a ∧
      ((splitHierarchy rest).path = [] ∨ (splitHierarchy rest).path.head? = some (code '/'))
        at hsome
    change (splitHierarchy rest).authority = none →
      ¬[code '/', code '/'] <+: (splitHierarchy rest).path at hbare
    generalize splitHierarchy rest = h at hrest hquestion hsome hbare
    rw [← hfront, ← hrest, hierarchyText] at hhash
    simp only [List.mem_append, mem_schemeText, mem_authorityText, mem_queryText, not_or,
      not_exists, not_and] at hhash hquestion
    obtain ⟨hhashScheme, ⟨hhashAuthority, hhashPath⟩, hhashQuery⟩ := hhash
    refine ⟨fun a ha => ?_, fun a ha => ?_, ⟨hquestion.2, hhashPath⟩,
      fun q hq => (hhashQuery q hq).2, hbare, fun hauthority habsolute => ?_,
      fun hauthority hrelative a b hpath ha => ?_⟩
    · obtain ⟨hcolon, hslash, hno⟩ := hscheme a ha
      exact ⟨hcolon, hslash, hno, (hhashScheme a ha).1⟩
    · exact ⟨(hsome a ha).1, (hquestion.1 a ha).2, (hhashAuthority a ha).2, (hsome a ha).2⟩
    · have hslash := hhierarchical.resolve_left habsolute
      rw [← hrest, hierarchyText, hauthority] at hslash
      change (h.path ++ queryText h.query).head? = _ at hslash
      cases hpath : h.path with
      | cons c path => rwa [hpath] at hslash
      | nil =>
        rw [hpath] at hslash
        cases hquery : h.query with
        | none => simp [hquery, queryText] at hslash
        | some q =>
          rw [hquery] at hslash
          exact absurd (Option.some.inj hslash) (by decide)
    · have htext : rest = a ++ code ':' :: (b ++ queryText h.query) := by
        rw [← hrest, hierarchyText, hauthority, hpath]
        simp [authorityText]
      have hfront' : front = rest := by
        rw [← hfront, hrelative]
        rfl
      refine (hnone hrelative (hfront'.trans htext) ha).resolve_right fun hmem => ?_
      rw [hpath] at hquestion
      exact hquestion.2 (List.mem_append_left _ hmem)

end Split

/-! Authorities. One that is no server with a port is a name of a registry. -/

def value (digits : JavaString) : Nat := digits.foldl (fun n c => 10 * n + (c.toNat - 0x30)) 0

/-- A number that is appended to a string. -/
def decimal (n : Nat) : JavaString := (Nat.toDigits 10 n).map code

def isByte (digits : JavaString) : Bool := digits ≠ [] && digits.all isDigit && value digits ≤ 255

def isIPv4 (s : JavaString) : Bool :=
  (s.splitOn (code '.')).length = 4 && (s.splitOn (code '.')).all isByte

/-- Letters, digits and hyphens, of which none stands at an end. -/
def isLabel (s : JavaString) : Bool :=
  s.head?.any isAlphaNum && s.getLast?.any isAlphaNum &&
    s.all fun c => isAlphaNum c || c = code '-'

/-- The last of several labels begins with a letter. A dot may follow it. -/
def isHostname (s : JavaString) : Bool :=
  let s := if s.getLast? = some (code '.') then s.dropLast else s
  let labels := s.splitOn (code '.')
  labels.all isLabel && (labels.length = 1 || (labels.getLastD []).head?.any isAlpha)

def isHexGroup (s : JavaString) : Bool := s ≠ [] && s.length ≤ 4 && s.all isHex

/-- The number of bytes of a sequence of groups, of which the last may be an IPv4 address. -/
def bytesOf (s : JavaString) : Option Nat :=
  let groups := s.splitOn (code ':')
  if groups.all isHexGroup then some (2 * groups.length)
  else if groups.dropLast.all isHexGroup && isIPv4 (groups.getLastD []) then
    some (2 * groups.length + 2)
  else none

/-- What stands before the first pair of colons, and what follows it. -/
def cutAtColons : JavaString → JavaString × Option JavaString
  | c :: d :: s =>
    if c = code ':' ∧ d = code ':' then ([], some s)
    else (c :: (cutAtColons (d :: s)).1, (cutAtColons (d :: s)).2)
  | s => (s, none)

/-- A pair of colons stands for as many zeros as are missing. No IPv4 address precedes it. -/
def isIPv6 (s : JavaString) : Bool :=
  match cutAtColons s with
  | (s, none) => bytesOf s = some 16
  | (a, some b) =>
    let front := if a = [] then some 0
      else if (a.splitOn (code ':')).all isHexGroup then bytesOf a else none
    let rest := if b = [] then some 0 else bytesOf b
    (front.bind fun m => rest.map (m + ·)).any (· < 16)

/-- What stands between brackets, with a scope behind a percent sign. -/
def isIPv6Reference (s : JavaString) : Bool :=
  match cutAt (code '%') s with
  | (s, none) => isIPv6 s
  | (s, some scope) => isIPv6 s && scope ≠ [] && scope.all isAlphaNum

structure Server where
  userInfo : Option JavaString
  host : JavaString
  port : Option Nat
  deriving DecidableEq, Repr

structure Authority where
  text : JavaString
  server : Option Server
  deriving DecidableEq, Repr

def parseHost (s : JavaString) : Option (JavaString × JavaString) :=
  if s.head? = some (code '[') then
    match cutAt (code ']') s.tail with
    | (s, some rest) =>
      if isIPv6Reference s then some (code '[' :: s ++ [code ']'], rest) else none
    | (_, none) => none
  else
    let (host, port) := cutAt (code ':') s
    if isIPv4 host || isHostname host then some (host, port.elim [] (code ':' :: ·)) else none

/-- A colon without a number is no port. -/
def parsePort : JavaString → Option (Option Nat)
  | [] => some none
  | c :: digits =>
    if c = code ':' ∧ digits.all isDigit ∧ value digits ≤ 2147483647 then
      some (if digits = [] then none else some (value digits))
    else none

def splitUserInfo (s : JavaString) : Option JavaString × JavaString :=
  match cutAt (code '@') s with
  | (userInfo, some rest) => (some userInfo, rest)
  | (_, none) => (none, s)

def parseServer (s : JavaString) : Option Server :=
  let (userInfo, s) := splitUserInfo s
  if userInfo.all (allowed isUserInfo) then do
    let (host, s) ← parseHost s
    let port ← parsePort s
    return ⟨userInfo, host, port⟩
  else none

def parseAuthority (s : JavaString) : Option Authority :=
  match parseServer s with
  | some server => some ⟨s, some server⟩
  | none => if allowed isRegName s then some ⟨s, none⟩ else none

def userInfoText (userInfo : Option JavaString) : JavaString := userInfo.elim [] (· ++ [code '@'])

def portText (port : Option Nat) : JavaString := port.elim [] (code ':' :: decimal ·)

def Server.text (server : Server) : JavaString :=
  userInfoText server.userInfo ++ server.host ++ portText server.port

section Authority
variable {s : JavaString} {digits : JavaString}

theorem decimal_digit {c : UInt16} (h : isDigit c) : decimal (c.toNat - 0x30) = [c] := by
  have hwritten : ∀ d < 10, decimal d = [.ofNat (0x30 + d)] := by decide
  rw [isDigit, decide_eq_true_eq] at h
  rw [hwritten _ (by omega), Nat.add_sub_cancel' h.1, UInt16.ofNat_toNat]

theorem decimal_value (hne : digits ≠ []) (h : ∀ c ∈ digits, isDigit c) :
    decimal (value digits) = digits ∨ (decimal (value digits)).length < digits.length := by
  induction digits using List.reverseRecOn with
  | nil => exact absurd rfl hne
  | append_singleton digits c ih =>
    have hc : isDigit c := h c (by simp)
    have hvalue : value (digits ++ [c]) = 10 * value digits + (c.toNat - 0x30) := List.foldl_append
    have hlast := decimal_digit hc
    rw [isDigit, decide_eq_true_eq] at hc
    rw [hvalue, List.length_append, List.length_singleton]
    by_cases hzero : value digits = 0
    · rw [hzero, Nat.mul_zero, Nat.zero_add, hlast]
      cases digits with
      | nil => exact .inl rfl
      | cons d digits => exact .inr (by simp)
    · have happend : decimal (10 * value digits + (c.toNat - 0x30)) =
          decimal (value digits) ++ [c] := by
        rw [← hlast, decimal, decimal, decimal, ← List.map_append,
          Nat.toDigits_append_toDigits (by omega) (by omega) (by omega)]
      have hne' : digits ≠ [] := by
        rintro rfl
        exact hzero rfl
      rw [happend, List.append_cancel_right_eq, List.length_append, List.length_singleton]
      exact (ih hne' fun d hd => h d (List.mem_append_left _ hd)).imp_right Nat.succ_lt_succ

theorem portText_of_parsePort {port : Option Nat} (h : parsePort s = some port) :
    portText port = s ∨ (portText port).length < s.length := by
  cases s with
  | nil =>
    cases h
    exact .inl rfl
  | cons c digits =>
    rw [parsePort] at h
    split at h
    · rename_i hdigits
      obtain ⟨rfl, hall, _⟩ := hdigits
      obtain rfl := Option.some.inj h
      by_cases hne : digits = []
      · right
        simp [hne, portText]
      · rw [if_neg hne, portText, Option.elim_some]
        obtain heq | hlt := decimal_value hne (by simpa using hall)
        · exact .inl (by rw [heq])
        · exact .inr (Nat.succ_lt_succ hlt)
    · cases h

theorem text_of_parseHost {host rest : JavaString} (h : parseHost s = some (host, rest)) :
    host ++ rest = s := by
  rw [parseHost] at h
  split at h
  · rename_i hbracket
    have hjoin := joinAt_cutAt (code ']') s.tail
    obtain ⟨inner, rfl⟩ := List.head?_eq_some_iff.mp hbracket
    rw [List.tail_cons] at h hjoin
    split at h
    · rename_i reference after hcut
      rw [hcut, joinAt] at hjoin
      split at h
      · obtain ⟨rfl, rfl⟩ : _ ∧ _ := by simpa using h
        rw [← hjoin]
        simp
      · cases h
    · cases h
  · have hjoin := joinAt_cutAt (code ':') s
    rw [joinAt] at hjoin
    split at h
    rename_i host' port hcut
    rw [hcut] at hjoin
    split at h
    · obtain ⟨rfl, rfl⟩ : _ ∧ _ := by simpa using h
      exact hjoin
    · cases h

theorem text_splitUserInfo (s : JavaString) :
    userInfoText (splitUserInfo s).1 ++ (splitUserInfo s).2 = s := by
  have hjoin := joinAt_cutAt (code '@') s
  rw [splitUserInfo]
  split
  · rename_i userInfo rest hcut
    rw [hcut, joinAt] at hjoin
    rw [← hjoin]
    simp [userInfoText]
  · rfl

/-- Of a server only the port may be written otherwise, and shorter. -/
theorem text_of_parseServer {server : Server} (h : parseServer s = some server) :
    server.text = s ∨ server.text.length < s.length := by
  have huser := text_splitUserInfo s
  rw [parseServer] at h
  generalize splitUserInfo s = parts at h huser
  obtain ⟨userInfo, s'⟩ := parts
  dsimp only at h huser
  split at h
  · simp only [Option.bind_eq_bind, Option.bind_eq_some_iff, Option.pure_def,
      Option.some.injEq] at h
    obtain ⟨⟨host, rest⟩, hhost, port, hport, rfl⟩ := h
    dsimp only at hport
    rw [← huser, ← text_of_parseHost hhost, Server.text, ← List.append_assoc]
    obtain heq | hlt := portText_of_parsePort hport
    · exact .inl (by rw [heq])
    · right
      simp only [List.length_append]
      omega
  · cases h

end Authority

/-! The parser. -/

structure Uri where
  string : JavaString
  scheme : Option JavaString
  /-- none if the scheme is not followed by a path -/
  hierarchy : Option (Hierarchy Authority)
  fragment : Option JavaString
  deriving DecidableEq, Repr

/-- A letter, and then letters, digits and three marks. -/
def isScheme (s : JavaString) : Bool := s.head?.any isAlpha && s.all (oneOf "+-.")

/-- An empty authority is left out, unless nothing follows it. -/
def parseHierarchy (h : Hierarchy JavaString) (fragment : Option JavaString) :
    Option (Hierarchy Authority) :=
  if allowed isPath h.path && h.query.all (allowed isUric) then
    match h.authority with
    | none => some ⟨none, h.path, h.query⟩
    | some [] =>
      if h.path ≠ [] ∨ h.query ≠ none ∨ fragment ≠ none then some ⟨none, h.path, h.query⟩ else none
    | some a => (parseAuthority a).map fun authority => ⟨some authority, h.path, h.query⟩
  else none

/-- `new URI`; none where it throws. -/
def parse (s : JavaString) : Option Uri :=
  let p := split s
  if p.scheme.all isScheme && p.fragment.all (allowed isUric) then
    match p.body with
    | .inl specificPart =>
      if specificPart ≠ [] ∧ allowed isUric specificPart then some ⟨s, p.scheme, none, p.fragment⟩
      else none
    | .inr h => (parseHierarchy h p.fragment).map fun h => ⟨s, p.scheme, some h, p.fragment⟩
  else none

namespace Uri

def getRawAuthority (uri : Uri) : Option JavaString :=
  (uri.hierarchy.bind Hierarchy.authority).map Authority.text

def getRawPath (uri : Uri) : Option JavaString := uri.hierarchy.map Hierarchy.path

def getRawQuery (uri : Uri) : Option JavaString := uri.hierarchy.bind Hierarchy.query

def getServer (uri : Uri) : Option Server :=
  (uri.hierarchy.bind Hierarchy.authority).bind Authority.server

def getUserInfo (uri : Uri) : Option JavaString :=
  (uri.getServer.bind Server.userInfo).map decode

def getHost (uri : Uri) : Option JavaString := uri.getServer.map Server.host

/-- none for -1 -/
def getPort (uri : Uri) : Option Nat := uri.getServer.bind Server.port

def getAuthority (uri : Uri) : Option JavaString := uri.getRawAuthority.map decode

def getPath (uri : Uri) : Option JavaString := uri.getRawPath.map decode

def getFragment (uri : Uri) : Option JavaString := uri.fragment.map decode

end Uri

section Parse
variable {s a : JavaString} {uri : Uri} {scheme fragment : Option JavaString}
  {h : Hierarchy JavaString} {found : Hierarchy Authority}

structure Accepted (scheme : Option JavaString) (h : Hierarchy JavaString)
    (fragment : Option JavaString) (found : Hierarchy Authority) : Prop where
  proper : Proper scheme h
  chars : scheme.all isScheme ∧ fragment.all (allowed isUric)
  hierarchy : parseHierarchy h fragment = some found

theorem text_of_parseAuthority {authority : Authority} (ha : parseAuthority a = some authority) :
    authority.text = a := by
  rw [parseAuthority] at ha
  split at ha
  · cases ha
    rfl
  · split at ha
    · cases ha
      rfl
    · cases ha

theorem string_of_parse (hparse : parse s = some uri) : uri.string = s := by
  rw [parse] at hparse
  split at hparse
  · split at hparse
    · split at hparse
      · cases hparse
        rfl
      · cases hparse
    · obtain ⟨h, _, rfl⟩ := Option.map_eq_some_iff.mp hparse
      rfl
  · cases hparse

theorem parse_text (haccepted : Accepted scheme h fragment found) :
    parse (Parts.text ⟨scheme, .inr h, fragment⟩) =
      some ⟨Parts.text ⟨scheme, .inr h, fragment⟩, scheme, some found, fragment⟩ := by
  have hchars : (scheme.all isScheme && fragment.all (allowed isUric)) = true := by
    rw [haccepted.chars.1, haccepted.chars.2]
    rfl
  rw [parse, split_text haccepted.proper, if_pos hchars]
  exact congrArg (Option.map _) haccepted.hierarchy

theorem exists_of_parse (hparse : parse s = some uri) (hfound : uri.hierarchy = some found) :
    ∃ h, s = Parts.text ⟨uri.scheme, .inr h, uri.fragment⟩ ∧
      Accepted uri.scheme h uri.fragment found := by
  have htext := text_split s
  have hproper (h : Hierarchy JavaString) := proper_split (s := s) (h := h)
  rw [parse] at hparse
  generalize split s = p at hparse htext hproper
  obtain ⟨scheme, body, fragment⟩ := p
  split at hparse
  · rename_i hall
    rw [Bool.and_eq_true] at hall
    split at hparse
    · split at hparse
      · cases hparse
        cases hfound
      · cases hparse
    · rename_i h hbody
      obtain rfl : body = .inr h := hbody
      obtain ⟨found', hhierarchy, rfl⟩ := Option.map_eq_some_iff.mp hparse
      cases hfound
      exact ⟨h, htext.symm, hproper h rfl, hall, hhierarchy⟩
  · cases hparse

theorem parseHierarchy_cases (hfound : parseHierarchy h fragment = some found) :
    allowed isPath h.path ∧ h.query.all (allowed isUric) ∧ found.path = h.path ∧
      found.query = h.query ∧
      ((found.authority = none ∧ (h.authority = none ∨ h.authority = some [])) ∨
        ∃ authority, found.authority = some authority ∧ h.authority = some authority.text ∧
          authority.text ≠ [] ∧ parseAuthority authority.text = some authority) := by
  rw [parseHierarchy] at hfound
  split at hfound
  · rename_i hchars
    rw [Bool.and_eq_true] at hchars
    refine ⟨hchars.1, hchars.2, ?_⟩
    split at hfound
    · rename_i hnone
      cases hfound
      exact ⟨rfl, rfl, .inl ⟨rfl, .inl hnone⟩⟩
    · rename_i hempty
      split at hfound
      · cases hfound
        exact ⟨rfl, rfl, .inl ⟨rfl, .inr hempty⟩⟩
      · cases hfound
    · rename_i a hne hsome
      obtain ⟨authority, hauthority, rfl⟩ := Option.map_eq_some_iff.mp hfound
      obtain rfl := text_of_parseAuthority hauthority
      exact ⟨rfl, rfl, .inr ⟨authority, rfl, hsome, hne, hauthority⟩⟩
  · cases hfound

theorem authority_of_parseHierarchy (hfound : parseHierarchy h fragment = some found) :
    h.authority = found.authority.map Authority.text ∨
      found.authority = none ∧ h.authority = some [] := by
  obtain ⟨-, -, -, -, ⟨hnone, hno | hempty⟩ | ⟨authority, hsome, htext, -⟩⟩ :=
    parseHierarchy_cases hfound
  · exact .inl (by rw [hno, hnone, Option.map_none])
  · exact .inr ⟨hnone, hempty⟩
  · exact .inl (by rw [htext, hsome, Option.map_some])

theorem parseAuthority_found (hfound : parseHierarchy h fragment = some found) :
    ∀ a ∈ found.authority, parseAuthority a.text = some a := by
  intro a ha
  obtain ⟨-, -, -, -, ⟨hnone, -⟩ | ⟨authority, hsome, -, -, hparse⟩⟩ := parseHierarchy_cases hfound
  · rw [hnone] at ha
    cases ha
  · obtain rfl : authority = a := Option.some.inj (hsome.symm.trans ha)
    exact hparse

theorem parseHierarchy_found (hfound : parseHierarchy h fragment = some found)
    {query : Option JavaString} (hquery : query.all (allowed isUric)) (other : Option JavaString) :
    parseHierarchy ⟨found.authority.map Authority.text, found.path, query⟩ other =
      some ⟨found.authority, found.path, query⟩ := by
  obtain ⟨hpath, -, hsame, -, hauthority⟩ := parseHierarchy_cases hfound
  have hchars : (allowed isPath found.path && query.all (allowed isUric)) = true := by
    rw [hsame, hpath, hquery]
    rfl
  rw [parseHierarchy, if_pos hchars]
  obtain ⟨hnone, -⟩ | ⟨authority, hsome, -, hne, hparse⟩ := hauthority
  · rw [hnone]
    rfl
  · rw [hsome, Option.map_some]
    split
    · rename_i hnone
      cases hnone
    · rename_i hnil
      exact absurd (Option.some.inj hnil) hne
    · rename_i a _ htext
      obtain rfl := Option.some.inj htext
      rw [hparse]
      rfl

theorem hash_not_mem_of_allowed {query : Option JavaString} (hquery : query.all (allowed isUric)) :
    ∀ q ∈ query, code '#' ∉ q := by
  rintro q rfl hmem
  obtain hno | hno | hno | hno := mem_allowed hquery hmem
  · exact absurd hno (by decide)
  · exact absurd hno (by decide)
  · exact absurd hno (by decide)
  · exact absurd hno (by decide)

/-- The parts that were found are found again with another query and without the empty authority,
if their text does not look like other parts. -/
theorem Accepted.again (haccepted : Accepted scheme h fragment found)
    (hbare : found.authority = none →
      ¬[code '/', code '/'] <+: found.path ∧ (scheme ≠ none → found.path ≠ []))
    {query : Option JavaString} (hquery : query.all (allowed isUric)) :
    Accepted scheme ⟨found.authority.map Authority.text, found.path, query⟩ fragment
      ⟨found.authority, found.path, query⟩ := by
  obtain ⟨-, -, hpath, -, hauthority⟩ := parseHierarchy_cases haccepted.hierarchy
  have hproper := haccepted.proper
  have hslash (hnone : found.authority = none) :
      h.authority = none ∨ found.path = [] ∨ found.path.head? = some (code '/') := by
    obtain ⟨-, hno | hempty⟩ | ⟨authority, hsome, -⟩ := hauthority
    · exact .inl hno
    · exact .inr (hpath ▸ (hproper.authority [] hempty).2.2.2)
    · rw [hnone] at hsome
      cases hsome
  refine ⟨⟨hproper.scheme, fun a ha => ?_, hpath ▸ hproper.path, fun q hq hmem => ?_,
    fun hnone => (hbare (Option.map_eq_none_iff.mp hnone)).1, fun hnone habsolute => ?_,
    fun hnone hrelative a b hcolon ha => ?_⟩, haccepted.chars,
    parseHierarchy_found haccepted.hierarchy hquery fragment⟩
  · obtain ⟨authority, hauthority', rfl⟩ := Option.map_eq_some_iff.mp ha
    obtain ⟨hnone, -⟩ | ⟨authority', hsome, htext, -⟩ := hauthority
    · rw [hnone] at hauthority'
      cases hauthority'
    · obtain rfl : authority' = authority := Option.some.inj (hsome.symm.trans hauthority')
      exact hpath ▸ hproper.authority _ htext
  · exact hash_not_mem_of_allowed hquery q hq hmem
  · have hnone := Option.map_eq_none_iff.mp hnone
    obtain hno | hnil | hhead := hslash hnone
    · exact hpath ▸ hproper.absolute hno habsolute
    · exact absurd hnil ((hbare hnone).2 habsolute)
    · exact hhead
  · obtain hno | hnil | hhead := hslash (Option.map_eq_none_iff.mp hnone)
    · exact hproper.relative hno hrelative a b (hpath ▸ hcolon) ha
    · rw [show found.path = _ from hcolon] at hnil
      simp at hnil
    · -- what stands before the colon begins with the slash
      rw [show found.path = _ from hcolon] at hhead
      cases a with
      | nil => exact absurd (Option.some.inj hhead) (by decide)
      | cons c a =>
        rw [← Option.some.inj hhead]
        exact List.mem_cons_self

theorem exists_of_parse_none (hparse : parse s = some uri) (hnone : uri.hierarchy = none) :
    ∃ part, part ≠ [] ∧ s = schemeText uri.scheme ++ part ++ fragmentText uri.fragment := by
  have htext := text_split s
  rw [parse] at hparse
  generalize split s = p at hparse htext
  obtain ⟨scheme, body, fragment⟩ := p
  split at hparse
  · split at hparse
    · rename_i part hbody
      obtain rfl : body = .inl part := hbody
      split at hparse
      · rename_i hpart
        cases hparse
        exact ⟨part, hpart.1, htext.symm⟩
      · cases hparse
    · obtain ⟨found, _, rfl⟩ := Option.map_eq_some_iff.mp hparse
      cases hnone
  · cases hparse

example : ((parse (Unicode.utf16 "http://[1::2%eth0]:080/a?b#c".toList)).bind Uri.getPort) =
    some 80 := by decide +kernel

end Parse
end InsightsAssist.Uris
