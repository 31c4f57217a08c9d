import InsightsAssist.CryptHandler
import InsightsAssist.JavaStrings
import InsightsAssist.Quoting
import InsightsAssist.Split

/-! The escaping of quotes by two replacements, and the splitting of a text at the delimiters that
are not escaped. -/
namespace InsightsAssist.StringUtil
open CryptHandler (JavaString)
open Unicode (utf16)

def backslash : UInt16 := 0x5C

def quote : UInt16 := 0x27

/-! ### escapeQuote -/

/-- The chars that mean something else than themselves in a regular expression. -/
def metacharacters : JavaString := utf16 "\\^$.|?*+()[\x7b".toList

/-- A letter behind a backslash is no escaped char. -/
def isLetter (c : UInt16) : Bool := (0x41 ≤ c && c ≤ 0x5A) || (0x61 ≤ c && c ≤ 0x7A)

/-- The char that a regular expression matches if it matches a single one. -/
def patternChar : JavaString → Option UInt16
  | [c] => if c ∈ metacharacters then none else some c
  | [b, c] => if b = backslash ∧ !isLetter c ∧ !(0x30 ≤ c && c ≤ 0x39) then some c else none
  | _ => none

/-- `Matcher.appendReplacement`: a char behind a backslash is taken as it stands. There are no
groups to refer to. -/
def replacementText : JavaString → Except Throwable JavaString
  | [] => .ok []
  | [c] =>
    if c = backslash then .error (.illegalArgument (some "character to be escaped is missing"))
    else if c = 0x24 then .error (.illegalArgument (some "Illegal group reference"))
    else .ok [c]
  | c :: d :: replacement =>
    if c = backslash then (d :: ·) <$> replacementText replacement
    else if c = 0x24 then .error (.illegalArgument (some "Illegal group reference"))
    else (c :: ·) <$> replacementText (d :: replacement)

/-- `String.replaceAll` for the expressions that match a single char. -/
def replaceAll (str regex replacement : JavaString) : Except Throwable JavaString :=
  match patternChar regex with
  | none => .error (.external "not a single char")
  | some c =>
    if c ∈ str then do
      let text ← replacementText replacement
      return str.flatMap fun d => if d = c then text else [d]
    else .ok str

def escapeQuote (str : Option JavaString) : Except Throwable (Option JavaString) :=
  match str with
  | none => .ok none
  | some [] => .ok (some [])
  | some str =>
    (if backslash ∈ str then replaceAll str (utf16 "\\\\".toList) (utf16 "\\\\\\\\".toList)
      else .ok str).bind fun str =>
    if quote ∈ str then (replaceAll str (utf16 "'".toList) (utf16 "\\\\'".toList)).map some
    else .ok (some str)

/-- Behind a backslash there is a backslash or a quote. -/
def escaped : JavaString → Option (JavaString × JavaString)
  | d :: rest => if d = backslash ∨ d = quote then some ([d], rest) else none
  | [] => none

def token : JavaString → Option (JavaString × JavaString)
  | [] => none
  | c :: text =>
    if c = quote then none
    else if c = backslash then escaped text
    else some ([c], text)

inductive IsToken : JavaString → JavaString → Prop where
  | escape {d : UInt16} : d = backslash ∨ d = quote → IsToken [backslash, d] [d]
  | plain {c : UInt16} : c ≠ quote → c ≠ backslash → IsToken [c] [c]

section Quotes
variable {t v text rest str : JavaString}

theorem IsToken.takes (h : IsToken t v) : Takes token t v := by
  cases h with
  | escape hd =>
    refine ⟨by simp, fun rest => ?_⟩
    simp only [List.cons_append, List.nil_append, token, escaped, if_pos hd]
    rfl
  | plain hquote hbackslash =>
    exact ⟨by simp, fun rest => by simp [token, hquote, hbackslash]⟩

theorem isToken_of_token (h : token text = some (v, rest)) :
    ∃ t, IsToken t v ∧ text = t ++ rest := by
  cases text with
  | nil => cases h
  | cons c text =>
    rw [token] at h
    split at h
    · cases h
    · rename_i hquote
      split at h
      · rename_i hbackslash
        unfold escaped at h
        split at h
        · obtain ⟨hd, heq⟩ := Option.ite_none_right_eq_some.mp h
          cases heq
          exact ⟨_, .escape hd, hbackslash ▸ rfl⟩
        · cases h
      · rename_i hbackslash
        cases h
        exact ⟨_, .plain hquote hbackslash, rfl⟩

theorem takes_iff : Takes token t v ↔ IsToken t v :=
  takes_iff_of IsToken.takes isToken_of_token

/-- A text between single quotes, in which a backslash escapes a backslash and a quote. -/
def literal : Quoting UInt16 where
  close := quote
  token := token
  decided h := by
    obtain ⟨t, htoken, heq⟩ := isToken_of_token h
    exact ⟨t, htoken.takes, heq⟩
  shortens h := by
    cases takes_iff.mp h with
    | escape => exact Nat.le_succ 1
    | plain => exact Nat.le_refl _
  verbatim h hlength := by
    cases takes_iff.mp h with
    | escape => cases hlength
    | plain => rfl

theorem ends (rest : JavaString) : literal.Ends rest := rfl

/-- What both replacements together make of a char. -/
def escape (c : UInt16) : JavaString :=
  if c = backslash ∨ c = quote then [backslash, c] else [c]

theorem encodes_escape (str : JavaString) : literal.Encodes (str.flatMap escape) str := by
  induction str with
  | nil => exact .nil
  | cons c str ih =>
    have htoken : IsToken (escape c) [c] := by
      rw [escape]
      split
      · exact .escape ‹_›
      · rename_i hplain
        rw [not_or] at hplain
        exact .plain hplain.2 hplain.1
    exact .cons htoken.takes ih

theorem flatMap_of_not_mem {str text : JavaString} {c : UInt16} (h : c ∉ str) :
    (str.flatMap fun d => if d = c then text else [d]) = str := by
  have hkept (d : UInt16) (hd : d ∈ str) : (if d = c then text else [d]) = [d] := by
    rw [if_neg]
    rintro rfl
    exact h hd
  rw [List.flatMap_congr hkept, List.flatMap_singleton']

theorem replaceAll_eq {regex replacement text : JavaString} {c : UInt16}
    (hpattern : patternChar regex = some c) (htext : replacementText replacement = .ok text)
    (str : JavaString) :
    replaceAll str regex replacement = .ok (str.flatMap fun d => if d = c then text else [d]) := by
  rw [replaceAll, hpattern]
  simp only [htext]
  split
  · rfl
  · rename_i hmem
    rw [flatMap_of_not_mem hmem]

theorem replaceAll_backslash (str : JavaString) :
    replaceAll str (utf16 "\\\\".toList) (utf16 "\\\\\\\\".toList) =
      .ok (str.flatMap fun d => if d = backslash then [backslash, backslash] else [d]) :=
  replaceAll_eq rfl rfl str

theorem replaceAll_quote (str : JavaString) :
    replaceAll str (utf16 "'".toList) (utf16 "\\\\'".toList) =
      .ok (str.flatMap fun d => if d = quote then [backslash, quote] else [d]) :=
  replaceAll_eq rfl rfl str

/-- The quotes come second, so that their backslashes are not escaped again. -/
theorem escapeQuote_eq (str : JavaString) :
    escapeQuote (some str) = .ok (some (str.flatMap escape)) := by
  have hfirst (str : JavaString) : (if backslash ∈ str then
      replaceAll str (utf16 "\\\\".toList) (utf16 "\\\\\\\\".toList) else .ok str) =
        .ok (str.flatMap fun d => if d = backslash then [backslash, backslash] else [d]) := by
    split
    · exact replaceAll_backslash str
    · rename_i hmem
      rw [flatMap_of_not_mem hmem]
  have hsecond (str : JavaString) : (if quote ∈ str then
      (replaceAll str (utf16 "'".toList) (utf16 "\\\\'".toList)).map some else .ok (some str)) =
        .ok (some (str.flatMap fun d => if d = quote then [backslash, quote] else [d])) := by
    split
    · rw [replaceAll_quote]
      rfl
    · rename_i hmem
      rw [flatMap_of_not_mem hmem]
  have hboth (c : UInt16) : ((if c = backslash then [backslash, backslash] else [c]).flatMap
      fun d => if d = quote then [backslash, quote] else [d]) = escape c := by
    have hne : backslash ≠ quote := by decide
    by_cases hc : c = backslash
    · simp [escape, hc, hne]
    · by_cases hquote : c = quote <;> simp [escape, hc, hquote, hne.symm]
  cases str with
  | nil => rfl
  | cons c str =>
    rw [escapeQuote, hfirst, Except.bind, hsecond, List.flatMap_assoc]
    · simp only [hboth]
    · exact List.cons_ne_nil c str

theorem escapeQuote_literal :
    (∀ str, ∃ text, escapeQuote (some str) = .ok (some text) ∧ literal.Encodes text str ∧
      literal.read (text ++ [quote]) = some (str, [])) ∧
    Function.Injective escapeQuote := by
  have hread (str : JavaString) : literal.read (str.flatMap escape ++ [quote]) = some (str, []) :=
    Quoting.read_of_encodes (encodes_escape str) (ends [])
  refine ⟨fun str => ⟨_, escapeQuote_eq str, encodes_escape str, hread str⟩, ?_⟩
  intro str other h
  cases str with
  | none =>
    cases other with
    | none => rfl
    | some other =>
      rw [escapeQuote_eq] at h
      cases h
  | some str =>
    cases other with
    | none =>
      rw [escapeQuote_eq] at h
      cases h
    | some other =>
      rw [escapeQuote_eq, escapeQuote_eq, Except.ok.injEq, Option.some.injEq] at h
      have hsame := hread str
      rw [h, hread other] at hsame
      cases hsame
      rfl

end Quotes
/-! ### split -/

def isTrimmed (c : UInt16) : Bool := c ≤ 0x20

def trim (str : JavaString) : JavaString := (str.dropWhile isTrimmed).rdropWhile isTrimmed

def isEmpty : Option JavaString → Bool
  | none => true
  | some str => (trim str).length == 0

def join (delimeter : JavaString) (args : List JavaString) : JavaString :=
  delimeter.intercalate args

/-- The variables of the loop in `split`. -/
structure Tokens where
  list : List JavaString
  lastChar : UInt16
  lastToken : JavaString
  deriving DecidableEq, Repr

def Tokens.next (ch : UInt16) (s : Tokens) (c : UInt16) : Tokens :=
  if c = ch ∧ s.lastChar ≠ backslash then ⟨s.list ++ [s.lastToken], c, []⟩
  else ⟨s.list, c, s.lastToken ++ [c]⟩

def Tokens.all (s : Tokens) : List JavaString := s.list ++ [s.lastToken]

def split (str : Option JavaString) (ch : UInt16) : List JavaString :=
  match str with
  | none => []
  | some str =>
    if isEmpty (some str) then [] else (str.foldl (Tokens.next ch) ⟨[], 0x20, []⟩).all

def escapeDelimiter (ch : UInt16) (token : JavaString) : JavaString :=
  token.flatMap fun c => if c = ch then [backslash, c] else [c]

/-- A delimiter behind the token would count as escaped. -/
def EndsInBackslash (token : JavaString) : Prop := token.getLast? = some backslash

instance : DecidablePred EndsInBackslash := fun _ => inferInstanceAs (Decidable (_ = _))

section Delimiters
variable {ch c : UInt16} {s : Tokens} {token : JavaString} {tokens : List JavaString}

theorem isEmpty_some_iff {str : JavaString} : isEmpty (some str) ↔ ∀ c ∈ str, isTrimmed c := by
  rw [isEmpty, beq_iff_eq, List.length_eq_zero_iff, trim, Java.dropWhile_rdropWhile_eq_nil_iff]

theorem escapeDelimiter_concat (ch c : UInt16) (token : JavaString) :
    escapeDelimiter ch (token ++ [c]) =
      escapeDelimiter ch token ++ if c = ch then [backslash, c] else [c] := by
  simp [escapeDelimiter]

theorem foldl_escapeDelimiter (hch : ch ≠ backslash) (s : Tokens) (token : JavaString) :
    (escapeDelimiter ch token).foldl (Tokens.next ch) s =
      ⟨s.list, token.getLast?.getD s.lastChar, s.lastToken ++ escapeDelimiter ch token⟩ := by
  induction token using List.reverseRecOn with
  | nil => simp [escapeDelimiter]
  | append_singleton token c ih =>
    rw [escapeDelimiter_concat, List.foldl_append, ih]
    by_cases hc : c = ch
    · subst hc
      simp [Tokens.next, hch.symm]
    · simp [Tokens.next, hc]

theorem foldl_delimiter (hch : ch ≠ backslash) (hs : s.lastChar ≠ backslash) (token : JavaString) :
    (escapeDelimiter ch token ++ [ch]).foldl (Tokens.next ch) s =
      if EndsInBackslash token then ⟨s.list, ch, s.lastToken ++ escapeDelimiter ch token ++ [ch]⟩
      else ⟨s.list ++ [s.lastToken ++ escapeDelimiter ch token], ch, []⟩ := by
  have hlast : token.getLast?.getD s.lastChar = backslash ↔ EndsInBackslash token := by
    rw [EndsInBackslash]
    cases token.getLast? <;> simp [hs]
  rw [List.foldl_append, foldl_escapeDelimiter hch]
  simp [Tokens.next, hlast]

theorem join_cons (h : tokens ≠ []) (token : JavaString) :
    join [ch] (token :: tokens) = token ++ [ch] ++ join [ch] tokens :=
  List.intercalate_cons_of_ne_nil h

theorem length_list (hch : ch ≠ backslash) (hne : tokens ≠ []) (hs : s.lastChar ≠ backslash) :
    ((join [ch] (tokens.map (escapeDelimiter ch))).foldl (Tokens.next ch) s).list.length =
      s.list.length + tokens.dropLast.countP fun token => ¬EndsInBackslash token := by
  induction tokens generalizing s with
  | nil => exact absurd rfl hne
  | cons token tokens ih =>
    cases tokens with
    | nil => simp [join, foldl_escapeDelimiter hch]
    | cons other tokens =>
      rw [List.map_cons, join_cons (by simp), List.foldl_append, foldl_delimiter hch hs,
        List.dropLast_cons_cons, List.countP_cons]
      split
      · rename_i hends
        rw [ih (by simp) hch]
        simp [hends]
      · rename_i hends
        rw [ih (by simp) hch]
        simp [hends]
        omega

theorem foldl_join (hch : ch ≠ backslash) (hne : tokens ≠ []) (hs : s.lastChar ≠ backslash)
    (hnew : s.lastToken = []) (hends : ∀ token ∈ tokens.dropLast, ¬EndsInBackslash token) :
    ((join [ch] (tokens.map (escapeDelimiter ch))).foldl (Tokens.next ch) s).all =
      s.list ++ tokens.map (escapeDelimiter ch) := by
  induction tokens generalizing s with
  | nil => exact absurd rfl hne
  | cons token tokens ih =>
    cases tokens with
    | nil => simp [join, foldl_escapeDelimiter hch, hnew, Tokens.all]
    | cons other tokens =>
      rw [List.dropLast_cons_cons, List.forall_mem_cons] at hends
      rw [List.map_cons, join_cons (by simp), List.foldl_append, foldl_delimiter hch hs,
        if_neg hends.1]
      rw [ih (by simp) hch rfl hends.2]
      simp [hnew]

theorem join_foldl (ch : UInt16) (str : JavaString) (s : Tokens) :
    join [ch] (str.foldl (Tokens.next ch) s).all = join [ch] s.all ++ str := by
  induction str generalizing s with
  | nil => simp
  | cons c str ih =>
    rw [List.foldl_cons, ih, Tokens.next]
    split
    · rename_i hc
      rw [Tokens.all, join, intercalate_concat_nil (by simp), hc.1]
      simp [join, Tokens.all]
    · rw [Tokens.all, join, intercalate_concat_append]
      simp [join, Tokens.all]

theorem mem_join (htoken : token ∈ tokens) (hc : c ∈ token) :
    c ∈ join [ch] (tokens.map (escapeDelimiter ch)) := by
  induction tokens with
  | nil => cases htoken
  | cons other tokens ih =>
    have hescaped (h : token = other) : c ∈ escapeDelimiter ch other := by
      refine List.mem_flatMap.mpr ⟨c, h ▸ hc, ?_⟩
      split <;> simp
    cases tokens with
    | nil => simpa [join] using hescaped (List.mem_singleton.mp htoken)
    | cons next tokens =>
      rw [List.map_cons, join_cons (by simp), List.append_assoc, List.mem_append]
      obtain h | h := List.mem_cons.mp htoken
      · exact .inl (hescaped h)
      · exact .inr (List.mem_append_right _ (ih h))

/-- A text is split at the delimiters between escaped tokens iff none but the last token ends in
a backslash. Joining the parts of a text gives the text. -/
theorem split_join_iff (hch : ch ≠ backslash) :
    (∀ tokens, tokens ≠ [] → isEmpty (some tokens.flatten) = false →
      (split (some (join [ch] (tokens.map (escapeDelimiter ch)))) ch =
          tokens.map (escapeDelimiter ch) ↔
        ∀ token ∈ tokens.dropLast, ¬EndsInBackslash token)) ∧
    (∀ str, isEmpty (some str) = false → join [ch] (split (some str) ch) = str) := by
  constructor
  · intro tokens hne hblank
    have htext : isEmpty (some (join [ch] (tokens.map (escapeDelimiter ch)))) = false := by
      rw [Bool.eq_false_iff, Ne, isEmpty_some_iff] at hblank ⊢
      intro hall
      refine hblank fun c hc => ?_
      obtain ⟨token, htoken, hc⟩ := List.mem_flatten.mp hc
      exact hall c (mem_join htoken hc)
    have hlength := length_list (s := ⟨[], 0x20, []⟩) hch hne (by decide)
    have hjoin := foldl_join (s := ⟨[], 0x20, []⟩) hch hne (by decide) rfl
    rw [split, htext]
    constructor
    · intro h
      have hcount := congrArg List.length h
      simp only [Bool.false_eq_true, if_false, Tokens.all, List.length_append, List.length_map,
        List.length_singleton, hlength, List.length_nil, Nat.zero_add] at hcount
      have hall : tokens.dropLast.countP (fun token => ¬EndsInBackslash token) =
          tokens.dropLast.length := by
        rw [List.length_dropLast]
        omega
      simpa using List.countP_eq_length.mp hall
    · exact hjoin
  · intro str hblank
    rw [split, hblank]
    have hjoin := join_foldl ch str ⟨[], 0x20, []⟩
    simpa [join, Tokens.all] using hjoin

/-- A token with a delimiter, an empty one, and a last one that ends in a backslash. -/
theorem split_join_commas :
    let tokens := [utf16 "a,b".toList, [], utf16 "c\\".toList]
    split (some (join [0x2C] (tokens.map (escapeDelimiter 0x2C)))) 0x2C =
        tokens.map (escapeDelimiter 0x2C) ∧
      join [0x2C] (split (some (utf16 "a,b".toList)) 0x2C) = utf16 "a,b".toList :=
  have hcomma : (0x2C : UInt16) ≠ backslash := by decide
  have h := split_join_iff hcomma
  ⟨(h.1 _ (by decide) (by decide +kernel)).mpr (by decide +kernel), h.2 _ (by decide +kernel)⟩

/-- The backslash at the end of the first token escapes the delimiter behind it. -/
theorem split_backslash : let tokens := [utf16 "a\\".toList, utf16 "b".toList]
    split (some (join [0x2C] (tokens.map (escapeDelimiter 0x2C)))) 0x2C ≠
      tokens.map (escapeDelimiter 0x2C) := by
  decide +kernel

end Delimiters
end InsightsAssist.StringUtil
