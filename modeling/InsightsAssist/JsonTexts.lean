import InsightsAssist.Literals

/-! JSON values and their texts. A text is a sequence of lexemes with blanks in between, and a value
is known by its lexemes. -/
namespace InsightsAssist.Json

inductive Value (ν : Type) where
  | null
  | bool (b : Bool)
  | number (n : ν)
  | string (s : List Char)
  | array (elements : List (Value ν))
  | object (members : List (List Char × Value ν))

inductive Sign where
  | openArray
  | closeArray
  | openObject
  | closeObject
  | comma
  | colon
  | null
  | true
  | false
  deriving DecidableEq, Repr

def Sign.text : Sign → List Char
  | .openArray => ['[']
  | .closeArray => [']']
  | .openObject => ['\x7b']
  | .closeObject => ['\x7d']
  | .comma => [',']
  | .colon => [':']
  | .null => "null".toList
  | .true => "true".toList
  | .false => "false".toList

inductive Lexeme (ν : Type) where
  | sign (g : Sign)
  | number (n : ν)
  | string (s : List Char)
  deriving DecidableEq, Repr

variable {ν : Type}

mutual

def Value.lexemes : Value ν → List (Lexeme ν)
  | .null => [.sign .null]
  | .bool b => [.sign (if b then .true else .false)]
  | .number n => [.number n]
  | .string s => [.string s]
  | .array elements => .sign .openArray :: (elementLexemes elements ++ [.sign .closeArray])
  | .object members => .sign .openObject :: (memberLexemes members ++ [.sign .closeObject])

def elementLexemes : List (Value ν) → List (Lexeme ν)
  | [] => []
  | [v] => v.lexemes
  | v :: vs => v.lexemes ++ .sign .comma :: elementLexemes vs

def memberLexemes : List (List Char × Value ν) → List (Lexeme ν)
  | [] => []
  | [(name, v)] => .string name :: .sign .colon :: v.lexemes
  | (name, v) :: members =>
    .string name :: .sign .colon :: (v.lexemes ++ .sign .comma :: memberLexemes members)

end

structure Numbers (ν : Type) where
  text : ν → List Char
  value : List Char → Option ν
  value_text : ∀ n, value (text n) = some n
  plain : ∀ {t n}, value t = some n → ∀ c ∈ t, c ∈ "0123456789+-.eE".toList

/-! ### Reading -/

def isBlank (c : Char) : Bool := c = ' ' || c = '\t' || c = '\n' || c = '\r'

/-- A character that stands for itself in a string. -/
def Plain (c : Char) : Prop := 32 ≤ c.toNat ∧ c ≠ '"' ∧ c ≠ '\\'

instance : DecidablePred Plain := fun _ => inferInstanceAs (Decidable (_ ∧ _))

/-- What may stand for a character in a string. -/
inductive Spells : List Char → Char → Prop where
  | plain {c : Char} : Plain c → Spells [c] c
  | escape {c d : Char} : unescape c = some d → c ≠ '\'' → Spells ['\\', c] d
  | unicode {a b c d ch : Char} {n : Nat} : codePoint a b c d = some n → character n = some ch →
      Spells ['\\', 'u', a, b, c, d] ch
  | surrogates {a b c d a' b' c' d' ch : Char} {high low : Nat} :
      codePoint a b c d = some (0xD800 + high) → codePoint a' b' c' d' = some (0xDC00 + low) →
      high < 0x400 → low < 0x400 → ch.toNat = 0x10000 + high * 0x400 + low →
      Spells ['\\', 'u', a, b, c, d, '\\', 'u', a', b', c', d'] ch

inductive SpellsAll : List Char → List Char → Prop where
  | nil : SpellsAll [] []
  | cons {t text s : List Char} {c : Char} :
      Spells t c → SpellsAll text s → SpellsAll (t ++ text) (c :: s)

inductive Denotes (numbers : Numbers ν) : List Char → Lexeme ν → Prop where
  | sign (g : Sign) : Denotes numbers g.text (.sign g)
  | number {t : List Char} {n : ν} : numbers.value t = some n → Denotes numbers t (.number n)
  | string {t s : List Char} : SpellsAll t s → Denotes numbers ('"' :: (t ++ ['"'])) (.string s)

inductive Lexes (numbers : Numbers ν) : List Char → List (Lexeme ν) → Prop where
  | nil {blanks : List Char} : blanks.all isBlank → Lexes numbers blanks []
  | cons {blanks t text : List Char} {l : Lexeme ν} {ls : List (Lexeme ν)} :
      blanks.all isBlank → Denotes numbers t l → Lexes numbers text ls →
      Lexes numbers (blanks ++ (t ++ text)) (l :: ls)

def Reads (numbers : Numbers ν) (text : List Char) (v : Value ν) : Prop :=
  Lexes numbers text v.lexemes

/-! ### Writing -/

def Lexeme.write (numbers : Numbers ν) : Lexeme ν → List Char
  | .sign g => g.text
  | .number n => numbers.text n
  | .string s => '"' :: (s.flatMap escape ++ ['"'])

/-- `Gson.toJson`, with its defaults. -/
def Value.write (numbers : Numbers ν) (v : Value ν) : List Char :=
  v.lexemes.flatMap (Lexeme.write numbers)

/-! ### Texts that escape nothing -/

def Lexeme.verbatim (numbers : Numbers ν) : Lexeme ν → List Char
  | .sign g => g.text
  | .number n => numbers.text n
  | .string s => '"' :: (s ++ ['"'])

def Lexeme.Plain : Lexeme ν → Prop
  | .string s => ∀ c ∈ s, Json.Plain c
  | .sign _ | .number _ => True

/-- What an escape has and no character that needs one has: backslashes and the letter `u`. -/
def weight (text : List Char) : Nat := text.count '\\' + text.count 'u'

variable {numbers : Numbers ν} {t text s : List Char} {c : Char} {l : Lexeme ν}
  {ls : List (Lexeme ν)}

theorem weight_append (a b : List Char) : weight (a ++ b) = weight a + weight b := by
  simp only [weight, List.count_append]
  omega

theorem weight_cons (c : Char) (s : List Char) : weight (c :: s) = weight [c] + weight s :=
  weight_append [c] s

theorem weight_quoted (s : List Char) : weight ('"' :: (s ++ ['"'])) = weight s := by
  rw [weight_cons, weight_append]
  simp [weight]

theorem weight_numbers {n : ν} (h : numbers.value t = some n) : weight t = 0 := by
  have hplain := numbers.plain h
  have hbackslash : '\\' ∉ t := fun hmem => absurd (hplain _ hmem) (by decide)
  have hu : 'u' ∉ t := fun hmem => absurd (hplain _ hmem) (by decide)
  simp [weight, List.count_eq_zero_of_not_mem hbackslash, List.count_eq_zero_of_not_mem hu]

theorem weight_singleton_le (c : Char) : weight [c] ≤ 1 := by
  simp only [weight, List.count_singleton, beq_iff_eq]
  split_ifs with hbackslash hu
  · rw [hbackslash] at hu
    exact absurd hu (by decide)
  all_goals omega

theorem Spells.weight_le (h : Spells t c) :
    weight [c] ≤ weight t ∧ (weight t ≤ weight [c] → Plain c) := by
  have hone := weight_singleton_le c
  have hlarger (hlt : weight [c] < weight t) :
      weight [c] ≤ weight t ∧ (weight t ≤ weight [c] → Plain c) :=
    ⟨hlt.le, fun hle => absurd hle (not_le.mpr hlt)⟩
  cases h with
  | plain hplain => exact ⟨le_rfl, fun _ => hplain⟩
  | @escape b _ hescape hquote =>
    apply hlarger
    have htext : weight ['\\', b] = 1 + weight [b] := weight_cons _ _
    unfold unescape at hescape
    split_ifs at hescape <;> cases hescape
    · omega
    all_goals
      rw [htext]
      exact Nat.lt_add_right _ (by decide)
  | @unicode a b c d =>
    apply hlarger
    have htext : weight ['\\', 'u', a, b, c, d] = 2 + weight [a, b, c, d] :=
      weight_append ['\\', 'u'] _
    omega
  | @surrogates a b c d a' b' c' d' =>
    apply hlarger
    have htext : weight ['\\', 'u', a, b, c, d, '\\', 'u', a', b', c', d'] =
        2 + weight [a, b, c, d, '\\', 'u', a', b', c', d'] := weight_append ['\\', 'u'] _
    omega

theorem SpellsAll.weight_le (h : SpellsAll text s) :
    weight s ≤ weight text ∧ (weight text ≤ weight s → ∀ c ∈ s, Plain c) := by
  induction h with
  | nil => exact ⟨le_rfl, fun _ c hc => by cases hc⟩
  | @cons t text s c hspells _ ih =>
    obtain ⟨hle, hplain⟩ := hspells.weight_le
    rw [weight_append, weight_cons]
    refine ⟨by omega, fun hweight => List.forall_mem_cons.mpr ⟨?_, ?_⟩⟩
    · exact hplain (by omega)
    · exact ih.2 (by omega)

theorem Denotes.weight_le (h : Denotes numbers t l) :
    weight (l.verbatim numbers) ≤ weight t ∧
      (weight t ≤ weight (l.verbatim numbers) → l.Plain) := by
  cases h with
  | sign g => exact ⟨le_rfl, fun _ => trivial⟩
  | @number _ n hvalue =>
    have hwritten : weight (numbers.text n) = 0 := weight_numbers (numbers.value_text n)
    exact ⟨by simp [Lexeme.verbatim, hwritten], fun _ => trivial⟩
  | @string t s hspells =>
    obtain ⟨hle, hplain⟩ := hspells.weight_le
    rw [Lexeme.verbatim, weight_quoted, weight_quoted]
    exact ⟨hle, hplain⟩

theorem Lexes.weight_le (h : Lexes numbers text ls) :
    weight (ls.flatMap (Lexeme.verbatim numbers)) ≤ weight text ∧
      (weight text ≤ weight (ls.flatMap (Lexeme.verbatim numbers)) → ∀ l ∈ ls, l.Plain) := by
  induction h with
  | nil => exact ⟨by simp [weight], fun _ l hl => by cases hl⟩
  | @cons blanks t text l ls _ hdenotes _ ih =>
    obtain ⟨hle, hplain⟩ := hdenotes.weight_le
    rw [List.flatMap_cons, weight_append, weight_append, weight_append]
    refine ⟨by omega, fun hweight => List.forall_mem_cons.mpr ⟨?_, ?_⟩⟩
    · exact hplain (by omega)
    · exact ih.2 (by omega)

end InsightsAssist.Json
