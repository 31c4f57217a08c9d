import InsightsAssist.Literals

/-! Python's string literals between single quotes. -/
namespace InsightsAssist.Python
open Json (hexDigit character)

/-- The character behind a backslash that stands for one character. -/
def unescape (c : Char) : Option Char :=
  if c = '\\' ∨ c = '\'' ∨ c = '"' then some c
  else if c = 'a' then some '\x07'
  else if c = 'b' then some '\x08'
  else if c = 'f' then some '\x0c'
  else if c = 'n' then some '\n'
  else if c = 'r' then some '\r'
  else if c = 't' then some '\t'
  else if c = 'v' then some '\x0b'
  else none

def hexNumber (digits : List Char) : Option Nat :=
  digits.foldl (fun value c => value.bind fun n => (hexDigit c).map (16 * n + ·)) (some 0)

/-- So many hexadecimal digits of a character, which is no surrogate here. -/
def hexEscape (count : Nat) (text : List Char) : Option (List Char × List Char) :=
  if text.length < count then none
  else do
    let n ← hexNumber (text.take count)
    let c ← character n
    return ([c], text.drop count)

def isOctal (c : Char) : Bool := '0' ≤ c && c ≤ '7'

/-- Up to three octal digits. -/
def octalEscape (text : List Char) : Option (List Char × List Char) :=
  let digits := (text.takeWhile isOctal).take 3
  let n := digits.foldl (fun value c => 8 * value + (c.toNat - 48)) 0
  (character n).map fun c => ([c], text.drop digits.length)

/-- Behind a backslash. A character that is no escape keeps the backslash; names of characters are
not looked up. -/
def escaped : List Char → Option (List Char × List Char)
  | [] => none
  | c :: text =>
    if c = '\n' then some ([], text)
    else if c = 'x' then hexEscape 2 text
    else if c = 'u' then hexEscape 4 text
    else if c = 'U' then hexEscape 8 text
    else if c = 'N' then none
    else if isOctal c then octalEscape (c :: text)
    else some (((unescape c).map ([·])).getD ['\\', c], text)

def ends (c : Char) : Bool := c = '\'' || c = '\n' || c = '\r' || c = '\x00'

/-- What the first character of the value is, and the rest of the literal. -/
def token : List Char → Option (List Char × List Char)
  | [] => none
  | c :: text =>
    if ends c then none
    else if c = '\\' then escaped text
    else some ([c], text)

/-- `n` bounds the length. -/
def literalWithin : Nat → List Char → Option (List Char × List Char)
  | 0, _ => none
  | n + 1, text =>
    if text.head? = some '\'' then some ([], text.tail)
    else
      match token text with
      | some (v, rest) => (literalWithin n rest).map fun r => (v ++ r.1, r.2)
      | none => none

/-- The value of a literal, from behind its opening quote on, and what is left of the text. -/
def literal (text : List Char) : Option (List Char × List Char) :=
  literalWithin (text.length + 1) text

inductive Encodes : List Char → List Char → Prop where
  | nil : Encodes [] []
  | cons {t v text value : List Char} : Takes token t v → Encodes text value →
      Encodes (t ++ text) (v ++ value)

variable {t v text value a b rest : List Char} {c : Char}

theorem Encodes.append (ha : Encodes a v) (hb : Encodes b value) :
    Encodes (a ++ b) (v ++ value) := by
  induction ha with
  | nil => exact hb
  | cons htakes _ ih =>
    rw [List.append_assoc, List.append_assoc]
    exact .cons htakes ih

theorem Encodes.flatMap {α : Type} {write verbatim : α → List Char} {xs : List α}
    (h : ∀ x ∈ xs, Encodes (write x) (verbatim x)) :
    Encodes (xs.flatMap write) (xs.flatMap verbatim) := by
  induction xs with
  | nil => exact .nil
  | cons x xs ih =>
    rw [List.forall_mem_cons] at h
    exact h.1.append (ih h.2)

theorem takes_plain (hends : ends c = false) (hbackslash : c ≠ '\\') : Takes token [c] [c] :=
  ⟨by simp, fun rest => by simp [token, hends, hbackslash]⟩

theorem encodes_self (h : ∀ c ∈ text, ends c = false ∧ c ≠ '\\') : Encodes text text := by
  induction text with
  | nil => exact .nil
  | cons c text ih =>
    rw [List.forall_mem_cons] at h
    exact .cons (takes_plain h.1.1 h.1.2) (ih h.2)

theorem takes_escape_of (hc : unescape c = some d)
    (hother : c ∉ ['\n', 'x', 'u', 'U', 'N'] ∧ isOctal c = false) :
    Takes token ['\\', c] [d] := by
  refine ⟨by simp, fun rest => ?_⟩
  obtain ⟨hother, hoctal⟩ := hother
  simp only [List.mem_cons, List.not_mem_nil, or_false, not_or] at hother
  show escaped (c :: rest) = _
  simp [escaped, hother, hoctal, hc]

theorem takes_unicode (h : c.toNat < 65536) : Takes token (Json.unicode c) [c] := by
  refine ⟨by simp [Json.unicode], fun rest => ?_⟩
  have hnumber : hexNumber [Nat.digitChar (c.toNat / 4096 % 16), Nat.digitChar (c.toNat / 256 % 16),
      Nat.digitChar (c.toNat / 16 % 16), Nat.digitChar (c.toNat % 16)] = some c.toNat := by
    simp only [hexNumber, List.foldl_cons, List.foldl_nil, Option.bind_some,
      Json.hexDigit_digitChar, Option.map_some]
    congr 1
    omega
  have hcharacter : character c.toNat = some c := by
    rw [character, if_pos, Char.ofNat_toNat]
    exact c.valid
  simp [Json.unicode, token, ends, escaped, hexEscape, hnumber, hcharacter]

/-- What JSON escapes in a text that is safe within HTML, Python takes for the same character. -/
theorem takes_escape (c : Char) : Takes token (Json.escape c) [c] := by
  have hbasic : ['<', '>', '&', '=', '\'', '\u2028', '\u2029'].all (·.toNat < 65536) := by decide
  unfold Json.escape
  split_ifs with hself hb hf hn hr ht hunicode
  · obtain rfl | rfl := hself
    · exact takes_escape_of rfl (by decide)
    · exact takes_escape_of rfl (by decide)
  · exact hb ▸ takes_escape_of rfl (by decide)
  · exact hf ▸ takes_escape_of rfl (by decide)
  · exact hn ▸ takes_escape_of rfl (by decide)
  · exact hr ▸ takes_escape_of rfl (by decide)
  · exact ht ▸ takes_escape_of rfl (by decide)
  · apply takes_unicode
    obtain hcontrol | hhtml := hunicode
    · omega
    · exact of_decide_eq_true (List.all_eq_true.mp hbasic c hhtml)
  · rw [not_or] at hself hunicode
    have hnul : c ≠ '\x00' := by
      rintro rfl
      exact hunicode.1 (by decide)
    have hquote : c ≠ '\'' := by
      rintro rfl
      exact hunicode.2 (by decide)
    exact takes_plain (by simp [ends, hnul, hquote, hn, hr]) hself.2

theorem encodes_flatMap_escape (text : List Char) : Encodes (text.flatMap Json.escape) text := by
  induction text with
  | nil => exact .nil
  | cons c text ih => exact .cons (takes_escape c) ih

example : literal "it\\'s \\x41\\101\\q\\n') ".toList = some ("it's AA\\q\n".toList, ") ".toList) := by
  decide +kernel

end InsightsAssist.Python
