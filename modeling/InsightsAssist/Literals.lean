import Mathlib.Data.Nat.Digits.Defs
import InsightsAssist.Quoting

/-! String literals of SQL and of JSON, as quotings. -/
namespace InsightsAssist

namespace Sql

def unescape (c : Char) : List Char :=
  if c = '%' ∨ c = '_' then ['\\', c]
  else if c = '0' then ['\x00']
  else if c = 'b' then ['\x08']
  else if c = 'n' then ['\n']
  else if c = 'r' then ['\r']
  else if c = 't' then ['\t']
  else if c = 'Z' then ['\x1a']
  else [c]

/-- Behind a quote only another one makes a token. -/
def doubled : List Char → Option (List Char × List Char)
  | '\'' :: rest => some (['\''], rest)
  | _ => none

def escaped : List Char → Option (List Char × List Char)
  | c :: rest => some (unescape c, rest)
  | [] => none

/-- A quote is written as two, and a backslash escapes the character behind it. -/
def token : List Char → Option (List Char × List Char)
  | [] => none
  | c :: text =>
    if c = '\'' then doubled text
    else if c = '\\' then escaped text
    else some ([c], text)

/-- A text without quotes that escapes nothing but `%` and `_`, which stay escaped. -/
def standsForItself : List Char → Bool
  | [] => true
  | ['\\'] => false
  | '\\' :: c :: text => (c = '%' || c = '_') && standsForItself text
  | c :: text => c ≠ '\'' && standsForItself text

inductive IsToken : List Char → List Char → Prop where
  | quote : IsToken ['\'', '\''] ['\'']
  | escape (c : Char) : IsToken ['\\', c] (unescape c)
  | plain {c : Char} : c ≠ '\'' → c ≠ '\\' → IsToken [c] [c]

variable {t v text rest value : List Char} {c : Char}

theorem IsToken.takes (h : IsToken t v) : Takes token t v := by
  cases h with
  | quote => exact ⟨by simp, fun _ => rfl⟩
  | escape c => exact ⟨by simp, fun _ => rfl⟩
  | @plain c hquote hbackslash => exact ⟨by simp, fun rest => by simp [token, hquote, hbackslash]⟩

theorem isToken_of_token (h : token text = some (v, rest)) :
    ∃ t, IsToken t v ∧ text = t ++ rest := by
  cases text with
  | nil => cases h
  | cons c text =>
    rw [token] at h
    split at h
    · rename_i hquote
      unfold doubled at h
      split at h <;> cases h
      exact ⟨_, .quote, hquote ▸ rfl⟩
    · rename_i hquote
      split at h
      · rename_i hbackslash
        unfold escaped at h
        split at h <;> cases h
        exact ⟨_, .escape _, hbackslash ▸ rfl⟩
      · rename_i hbackslash
        cases h
        exact ⟨_, .plain hquote hbackslash, rfl⟩

theorem takes_iff : Takes token t v ↔ IsToken t v :=
  takes_iff_of IsToken.takes isToken_of_token

theorem unescape_cases (c : Char) :
    ((c = '%' ∨ c = '_') ∧ unescape c = ['\\', c]) ∨
      ∃ d, unescape c = [d] ∧ (d = ',' → c = ',') := by
  unfold unescape
  split
  · exact .inl ⟨‹_›, rfl⟩
  · refine .inr ?_
    split_ifs
    iterate 6 exact ⟨_, rfl, fun h => absurd h (by decide)⟩
    exact ⟨c, rfl, id⟩

def literal : Quoting Char where
  close := '\''
  token := token
  decided h := by
    obtain ⟨t, htoken, heq⟩ := isToken_of_token h
    exact ⟨t, htoken.takes, heq⟩
  shortens h := by
    cases takes_iff.mp h with
    | quote => decide
    | escape c => obtain ⟨_, h⟩ | ⟨d, h, _⟩ := unescape_cases c <;> simp [h]
    | plain => exact Nat.le_refl _
  verbatim h hlength := by
    cases takes_iff.mp h with
    | quote => cases hlength
    | escape c =>
      obtain ⟨_, h⟩ | ⟨d, h, _⟩ := unescape_cases c
      · exact h
      · rw [h] at hlength
        cases hlength
    | plain => rfl

theorem count_comma_le (h : Takes token t v) : v.count ',' ≤ t.count ',' := by
  cases takes_iff.mp h with
  | quote => decide
  | escape c =>
    obtain ⟨_, h⟩ | ⟨d, h, hcomma⟩ := unescape_cases c <;> rw [h]
    by_cases hd : d = ','
    · rw [hd, hcomma hd]
      decide
    · rw [List.count_eq_zero_of_not_mem (by simpa using Ne.symm hd)]
      exact Nat.zero_le _
  | plain => exact Nat.le_refl _

theorem separates {separator : List Char} (h : separator.head?.any (· ≠ '\'')) :
    literal.Separates separator := by
  intro rest
  cases separator with
  | nil => cases h
  | cons c separator =>
    show doubled (c :: (separator ++ rest)) = none
    unfold doubled
    split
    · rename_i heq
      cases heq
      cases h
    · rfl

theorem encodes_self (h : standsForItself text) : literal.Encodes text text := by
  fun_induction standsForItself text with
  | case1 => exact .nil
  | case2 => cases h
  | case3 c text ih =>
    rw [Bool.and_eq_true, Bool.or_eq_true, decide_eq_true_eq, decide_eq_true_eq] at h
    have htakes : Takes literal.token ['\\', c] ['\\', c] := by
      have := (IsToken.escape c).takes
      rwa [unescape, if_pos h.1] at this
    exact .cons htakes (ih h.2)
  | case4 c text hend hescape ih =>
    rw [Bool.and_eq_true, decide_eq_true_eq] at h
    have hbackslash : c ≠ '\\' := by
      rintro rfl
      cases text with
      | nil => exact hend rfl rfl
      | cons d text => exact hescape d text rfl rfl
    exact .cons (IsToken.plain h.1 hbackslash).takes (ih h.2)

theorem standsForItself_of_encodes (h : literal.Encodes text value) (hsame : value = text) :
    standsForItself text := by
  induction h with
  | nil => rfl
  | @cons t v text value htakes hrest ih =>
    have hlength := congrArg List.length hsame
    have hv := literal.shortens htakes
    have hvalue := hrest.length_le
    rw [List.length_append, List.length_append] at hlength
    have hverbatim := literal.verbatim htakes (by omega)
    have htext := ih (hrest.verbatim (by omega))
    cases takes_iff.mp htakes with
    | quote => cases hverbatim
    | escape c =>
      obtain ⟨hc, _⟩ | ⟨d, hd, _⟩ := unescape_cases c
      · simpa [standsForItself, htext] using hc
      · rw [hd] at hverbatim
        cases hverbatim
    | @plain c hquote hbackslash =>
      rw [List.singleton_append, standsForItself]
      · simp [hquote, htext]
      · exact fun h => absurd h hbackslash
      · exact fun _ _ h => absurd h hbackslash

theorem encodes_self_iff : literal.Encodes text text ↔ standsForItself text :=
  ⟨fun h => standsForItself_of_encodes h rfl, encodes_self⟩

example : standsForItself "100\\%".toList ∧ ¬ standsForItself "it's".toList := by decide

theorem standsForItself_of_plain (h : ∀ c ∈ text, c ≠ '\'' ∧ c ≠ '\\') : standsForItself text := by
  rw [← encodes_self_iff]
  induction text with
  | nil => exact .nil
  | cons c text ih =>
    rw [List.forall_mem_cons] at h
    exact .cons (IsToken.plain h.1.1 h.1.2).takes (ih h.2)

end Sql

namespace Json

/-- The character behind a backslash that is not `u`. -/
def unescape (c : Char) : Option Char :=
  if c = '"' ∨ c = '\\' ∨ c = '/' ∨ c = '\'' then some c
  else if c = 'b' then some '\x08'
  else if c = 'f' then some '\x0c'
  else if c = 'n' then some '\n'
  else if c = 'r' then some '\r'
  else if c = 't' then some '\t'
  else none

def hexDigit (c : Char) : Option Nat :=
  if '0' ≤ c ∧ c ≤ '9' then some (c.toNat - 48)
  else if 'a' ≤ c ∧ c ≤ 'f' then some (c.toNat - 87)
  else if 'A' ≤ c ∧ c ≤ 'F' then some (c.toNat - 55)
  else none

/-- The character of a code point; none of them is a surrogate. -/
def character (n : Nat) : Option Char := if n.isValidChar then some (Char.ofNat n) else none

def codePoint (a b c d : Char) : Option Nat := do
  return (((← hexDigit a) * 16 + (← hexDigit b)) * 16 + (← hexDigit c)) * 16 + (← hexDigit d)

def escaped : List Char → Option (List Char × List Char)
  | 'u' :: a :: b :: c :: d :: rest => do
    let n ← codePoint a b c d
    let c ← character n
    return ([c], rest)
  | c :: rest => (unescape c).map fun c => ([c], rest)
  | [] => none

def token : List Char → Option (List Char × List Char)
  | [] => none
  | c :: text =>
    if c = '"' then none
    else if c = '\\' then escaped text
    else some ([c], text)

/-- The four digits of a character of the basic plane. -/
def unicode (c : Char) : List Char :=
  let digit (n : Nat) := Nat.digitChar (n % 16)
  let n := c.toNat
  ['\\', 'u', digit (n / 4096), digit (n / 256), digit (n / 16), digit n]

/-- How Gson writes a character, by default so that it is safe within HTML. -/
def escape (c : Char) : List Char :=
  if c = '"' ∨ c = '\\' then ['\\', c]
  else if c = '\x08' then ['\\', 'b']
  else if c = '\x0c' then ['\\', 'f']
  else if c = '\n' then ['\\', 'n']
  else if c = '\r' then ['\\', 'r']
  else if c = '\t' then ['\\', 't']
  else if c.toNat < 32 ∨ c ∈ ['<', '>', '&', '=', '\'', '\u2028', '\u2029'] then unicode c
  else [c]

inductive IsToken : List Char → List Char → Prop where
  | escape {c d : Char} : unescape c = some d → IsToken ['\\', c] [d]
  | unicode {a b c d ch : Char} {n : Nat} : codePoint a b c d = some n → character n = some ch →
      IsToken ['\\', 'u', a, b, c, d] [ch]
  | plain {c : Char} : c ≠ '"' → c ≠ '\\' → IsToken [c] [c]

variable {t v text rest value : List Char} {c : Char}

theorem IsToken.takes (h : IsToken t v) : Takes token t v := by
  cases h with
  | @escape c d hd =>
    refine ⟨by simp, fun rest => ?_⟩
    show escaped (c :: rest) = _
    unfold escaped
    split
    · rename_i heq
      cases heq
      cases hd
    · rename_i heq
      cases heq
      rw [hd]
      rfl
    · rename_i heq
      cases heq
  | @unicode a b c d ch n hn hch =>
    refine ⟨by simp, fun rest => ?_⟩
    show escaped ('u' :: a :: b :: c :: d :: rest) = _
    simp [escaped, hn, hch]
  | @plain c hquote hbackslash => exact ⟨by simp, fun rest => by simp [token, hquote, hbackslash]⟩

theorem isToken_of_token (h : token text = some (v, rest)) :
    ∃ t, IsToken t v ∧ text = t ++ rest := by
  cases text with
  | nil => cases h
  | cons c text =>
    rw [token] at h
    split at h
    · cases h
    · rename_i hquote
      split at h
      · rename_i hbackslash
        subst hbackslash
        unfold escaped at h
        split at h
        · obtain ⟨n, hn, h⟩ := Option.bind_eq_some_iff.mp h
          obtain ⟨ch, hch, h⟩ := Option.bind_eq_some_iff.mp h
          cases h
          exact ⟨_, .unicode hn hch, rfl⟩
        · obtain ⟨d, hd, h⟩ := Option.map_eq_some_iff.mp h
          cases h
          exact ⟨_, .escape hd, rfl⟩
        · cases h
      · rename_i hbackslash
        cases h
        exact ⟨_, .plain hquote hbackslash, rfl⟩

theorem takes_iff : Takes token t v ↔ IsToken t v :=
  takes_iff_of IsToken.takes isToken_of_token

def string : Quoting Char where
  close := '"'
  token := token
  decided h := by
    obtain ⟨t, htoken, heq⟩ := isToken_of_token h
    exact ⟨t, htoken.takes, heq⟩
  shortens h := by cases takes_iff.mp h <;> simp
  verbatim h hlength := by
    cases takes_iff.mp h with
    | escape => cases hlength
    | unicode => cases hlength
    | plain => rfl

theorem ends (rest : List Char) : string.Ends rest := rfl

theorem hexDigit_digitChar (n : Nat) : hexDigit (Nat.digitChar (n % 16)) = some (n % 16) := by
  have h : ∀ d < 16, hexDigit (Nat.digitChar d) = some d := by decide
  exact h _ (Nat.mod_lt n (by decide))

theorem takes_unicode (h : c.toNat < 65536) : Takes token (unicode c) [c] := by
  apply IsToken.takes
  apply IsToken.unicode (n := c.toNat)
  · simp only [codePoint, hexDigit_digitChar, Option.bind_eq_bind, Option.bind_some]
    congr 1
    omega
  · rw [character, if_pos, Char.ofNat_toNat]
    exact c.valid

theorem takes_escape (c : Char) : Takes token (escape c) [c] := by
  have hbasic : ['<', '>', '&', '=', '\'', '\u2028', '\u2029'].all (·.toNat < 65536) := by decide
  unfold escape
  split_ifs with hself hb hf hn hr ht hunicode
  · have hc : unescape c = some c := by rcases hself with rfl | rfl <;> rfl
    exact (IsToken.escape hc).takes
  · exact hb ▸ (IsToken.escape rfl).takes
  · exact hf ▸ (IsToken.escape rfl).takes
  · exact hn ▸ (IsToken.escape rfl).takes
  · exact hr ▸ (IsToken.escape rfl).takes
  · exact ht ▸ (IsToken.escape rfl).takes
  · apply takes_unicode
    obtain hcontrol | hhtml := hunicode
    · omega
    · exact of_decide_eq_true (List.all_eq_true.mp hbasic c hhtml)
  · rw [not_or] at hself
    exact (IsToken.plain hself.1 hself.2).takes

theorem encodes_flatMap_escape (text : List Char) : string.Encodes (text.flatMap escape) text := by
  induction text with
  | nil => exact .nil
  | cons c text ih => exact .cons (takes_escape c) ih

example : "a\"<\n".toList.flatMap escape = "a\\\"\\u003c\\n".toList := by decide

/-- A bracket is written as it is, and nothing else is written as one. -/
theorem bracket_mem_escape : ']' ∈ escape c ↔ c = ']' := by
  have hdigit : ∀ n, ']' ≠ Nat.digitChar (n % 16) := by
    have h : ∀ d < 16, ']' ≠ Nat.digitChar d := by decide
    exact fun n => h _ (Nat.mod_lt n (by decide))
  unfold escape
  split_ifs with hself hb hf hn hr ht hunicode
  · obtain rfl | rfl := hself <;> decide
  · subst hb; decide
  · subst hf; decide
  · subst hn; decide
  · subst hr; decide
  · subst ht; decide
  · have hc : c ≠ ']' := by
      rintro rfl
      revert hunicode
      decide
    simp [unicode, hdigit, hc]
  · simp [eq_comm]

theorem bracket_mem_flatMap_escape : ']' ∈ text.flatMap escape ↔ ']' ∈ text := by
  simp [List.mem_flatMap, bracket_mem_escape]

theorem dot_alone : string.Alone '.' := by
  intro t v h hdot
  cases takes_iff.mp h with
  | @escape c d hd =>
    obtain rfl : '.' = c := by simpa using hdot
    cases hd
  | @unicode a b c d ch n hn =>
    have hnone : hexDigit '.' = none := by decide
    have hdigits : '.' = a ∨ '.' = b ∨ '.' = c ∨ '.' = d := by simpa using hdot
    obtain rfl | rfl | rfl | rfl := hdigits <;> simp [codePoint, hnone] at hn
  | @plain c => simpa [eq_comm] using hdot

end Json
end InsightsAssist
