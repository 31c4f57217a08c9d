import Mathlib.Data.List.DropRight
import InsightsAssist.Java

/-! What the administration actions do with strings. A list of characters is a list of Java's
chars: each char of a pair of surrogates counts, and stands for some character outside the basic
plane. -/
namespace InsightsAssist.Java

/-- The letter that a character is compared as, beside the Kelvin sign, the long s and the two
Turkish letters ASCII letters only. -/
def fold (c : Char) : Char :=
  if c = '\u212A' then 'k'
  else if c = '\u017F' then 's'
  else if c = '\u0130' ∨ c = '\u0131' then 'i'
  else c.toLower

/-- `equalsIgnoreCase` with a string of ASCII letters. -/
def equalsIgnoreCase (s ascii : String) : Bool := s.toList.map fold = ascii.toList.map fold

def isTrimmed (c : Char) : Bool := c ≤ ' '

def trim (s : String) : String :=
  String.ofList ((s.toList.dropWhile isTrimmed).rdropWhile isTrimmed)

/-- The code points of the digit zero in the scripts that have decimal digits; characters outside
the basic plane are read as two that are no digits. -/
def zeros : List Nat :=
  [0x30, 0x660, 0x6F0, 0x7C0, 0x966, 0x9E6, 0xA66, 0xAE6, 0xB66, 0xBE6, 0xC66, 0xCE6, 0xD66,
    0xE50, 0xED0, 0xF20, 0x1040, 0x1090, 0x17E0, 0x1810, 0x1946, 0x19D0, 0x1A80, 0x1A90, 0x1B50,
    0x1BB0, 0x1C40, 0x1C50, 0xA620, 0xA8D0, 0xA900, 0xA9D0, 0xAA50, 0xABF0, 0xFF10]

def digit (c : Char) : Option Nat :=
  (zeros.find? fun first => first ≤ c.toNat && c.toNat < first + 10).map (c.toNat - ·)

/-- At least one digit. -/
def digits : List Char → Option Nat
  | [] => none
  | cs => cs.foldl (fun value c => value.bind fun n => (digit c).map (10 * n + ·)) (some 0)

/-- `Integer.parseInt`; none where it throws. -/
def parseInt (s : String) : Option Int :=
  let value : Option Int := match s.toList with
    | '-' :: cs => (digits cs).map fun n => -n
    | '+' :: cs => (digits cs).map fun n => n
    | cs => (digits cs).map fun n => n
  value.filter fun n => -2147483648 ≤ n ∧ n ≤ 2147483647

/-- -1 if there is none. -/
def indexOf (s : List Char) (c : Char) : Int := if c ∈ s then s.idxOf c else -1

def substring (s : List Char) (beginIndex endIndex : Int) : Except Throwable (List Char) :=
  let outOfRange (index : Int) := .error (.indexOutOfBounds s!"String index out of range: {index}")
  if beginIndex < 0 then outOfRange beginIndex
  else if s.length < endIndex then outOfRange endIndex
  else if endIndex < beginIndex then outOfRange (endIndex - beginIndex)
  else .ok ((s.take endIndex.toNat).drop beginIndex.toNat)

def isFlag (c : Char) : Bool := c ∈ ['-', '#', '+', ' ', '0', ',', '(', '<']

/-- A width that is no int is ignored. -/
def hasWidth (width : List Char) : Bool := (digits width).any (· ≤ 2147483647)

/-- A format specifier, from after its percent sign on: the rest of the format if it is one that
needs no argument, `%%` or `%n`, and none if it throws. -/
def specifier (cs : List Char) : Option (List Char) :=
  let cs := match cs.span Char.isDigit with
    | (_ :: _, '$' :: rest) => rest
    | _ => cs
  let (flags, cs) := cs.span isFlag
  let (width, cs) := cs.span Char.isDigit
  match cs with
  | '%' :: rest =>
    if flags = [] ∨ (flags = ['-'] ∧ hasWidth width) then some rest else none
  | 'n' :: rest => if flags = [] ∧ !hasWidth width then some rest else none
  | _ => none

/-- `n` bounds the length. -/
def formatsWithin : Nat → List Char → Bool
  | _, [] => true
  | 0, _ => false
  | n + 1, '%' :: cs =>
    match specifier cs with
    | some rest => formatsWithin n rest
    | none => false
  | n + 1, _ :: cs => formatsWithin n cs

/-- `String.format` without arguments returns. -/
def formats (template : List Char) : Bool := formatsWithin template.length template

theorem formats_of_no_percent {template : List Char} (h : '%' ∉ template) : formats template := by
  have hwithin : ∀ n, template.length ≤ n → formatsWithin n template := by
    intro n hn
    induction template generalizing n with
    | nil => cases n <;> rfl
    | cons c template ih =>
      cases n with
      | zero => cases hn
      | succ n =>
        rw [List.mem_cons, not_or] at h
        rw [formatsWithin]
        · exact ih h.2 n (Nat.le_of_succ_le_succ hn)
        · exact fun heq => h.1 heq.symm
  exact hwithin _ (Nat.le_refl _)

/-- A message that is logged as a format. -/
def info {σ : Type} (template : List Char) : Java σ Unit :=
  if formats template then pure () else throw (.external "IllegalFormatException")

@[simp] theorem info_of_formats {σ : Type} {template : List Char} (h : formats template) (s : σ) :
    (info template).run s = (.ok (), s) := by
  rw [info, if_pos h]
  rfl

@[simp] theorem info_of_not_formats {σ : Type} {template : List Char}
    (h : formats template = false) (s : σ) :
    (info template).run s = (.error (.external "IllegalFormatException"), s) := by
  rw [info, h]
  rfl

theorem info_eq_ok {σ : Type} {template : List Char} {s t : σ} {u : Unit} :
    (info template).run s = (.ok u, t) ↔ formats template ∧ s = t := by
  by_cases h : formats template <;> simp [h]

theorem indexOf_append_cons {a : List Char} {c : Char} (h : c ∉ a) (b : List Char) :
    indexOf (a ++ c :: b) c = a.length := by
  rw [indexOf, if_pos (by simp), List.idxOf_append_of_notMem h, List.idxOf_cons_self]
  simp

theorem append_cons_inj {a b a' b' : List Char} {c : Char} (ha : c ∉ a) (ha' : c ∉ a')
    (h : a ++ c :: b = a' ++ c :: b') : a = a' ∧ b = b' := by
  have hindex := indexOf_append_cons ha b
  rw [h, indexOf_append_cons ha'] at hindex
  obtain ⟨rfl, hrest⟩ := List.append_inj h (by omega)
  exact ⟨rfl, (List.cons.inj hrest).2⟩

theorem substring_append (a b c : List Char) :
    substring (a ++ (b ++ c)) a.length (a.length + b.length : Nat) = .ok b := by
  rw [substring, if_neg (by omega), if_neg, if_neg (by omega), Int.toNat_natCast,
    Int.toNat_natCast, ← List.append_assoc, ← List.length_append, List.take_left, List.drop_left]
  simp only [List.length_append]
  omega

theorem trim_ne_blank (s : String) : trim s ≠ " " := by
  intro h
  have hlist : (s.toList.dropWhile isTrimmed).rdropWhile isTrimmed = [' '] := by
    have := congrArg String.toList h
    simpa [trim] using this
  have hne : (s.toList.dropWhile isTrimmed).rdropWhile isTrimmed ≠ [] := by simp [hlist]
  have hlast := List.rdropWhile_last_not _ _ hne
  simp [hlist, isTrimmed] at hlast

theorem dropWhile_rdropWhile_eq_nil_iff {α : Type*} {p : α → Bool} {l : List α} :
    (l.dropWhile p).rdropWhile p = [] ↔ ∀ a ∈ l, p a := by
  rw [List.rdropWhile_eq_nil_iff]
  constructor
  · intro h a ha
    rw [← List.takeWhile_append_dropWhile (p := p) (l := l)] at ha
    obtain hfront | hrest := List.mem_append.mp ha
    · exact List.mem_takeWhile_imp hfront
    · exact h a hrest
  · intro h a ha
    exact h a (List.dropWhile_suffix _ |>.mem ha)

theorem trim_eq_empty_iff {s : String} : trim s = "" ↔ ∀ c ∈ s.toList, isTrimmed c := by
  have hempty : trim s = "" ↔ (s.toList.dropWhile isTrimmed).rdropWhile isTrimmed = [] := by
    rw [trim, ← String.toList_inj]
    simp
  rw [hempty, dropWhile_rdropWhile_eq_nil_iff]

theorem digit_of_isDigit {c : Char} (h : c.isDigit) : digit c = some (c.toNat - '0'.toNat) := by
  have hbounds : 48 ≤ c.toNat ∧ c.toNat ≤ 57 := Char.isDigit_iff_toNat.mp h
  have hfirst : zeros.find? (fun first => first ≤ c.toNat && c.toNat < first + 10) = some 48 := by
    rw [zeros, List.find?_cons_of_pos]
    simp only [Bool.and_eq_true, decide_eq_true_eq]
    omega
  rw [digit, hfirst]
  rfl

theorem digits_eq_ofDigitChars {cs : List Char} (hne : cs ≠ []) (h : ∀ c ∈ cs, c.isDigit) :
    digits cs = some (Nat.ofDigitChars 10 cs 0) := by
  have hfold (init : Nat) (cs : List Char) (h : ∀ c ∈ cs, c.isDigit) :
      cs.foldl (fun value c => value.bind fun n => (digit c).map (10 * n + ·)) (some init) =
        some (Nat.ofDigitChars 10 cs init) := by
    induction cs generalizing init with
    | nil => rfl
    | cons c cs ih =>
      rw [List.forall_mem_cons] at h
      rw [List.foldl_cons, Option.bind_some, digit_of_isDigit h.1, Option.map_some, ih _ h.2,
        Nat.ofDigitChars_cons]
  cases cs with
  | nil => exact absurd rfl hne
  | cons c cs => exact hfold 0 (c :: cs) h

theorem digits_toDigits (n : Nat) : digits (Nat.toDigits 10 n) = some n := by
  rw [digits_eq_ofDigitChars Nat.toDigits_ne_nil, Nat.ofDigitChars_ten_toDigits]
  exact fun c hc => Nat.isDigit_of_mem_toDigits (by decide) (by decide) hc

theorem parseInt_toString {n : Int} (hle : -2147483648 ≤ n) (hge : n ≤ 2147483647) :
    parseInt (toString n) = some n := by
  unfold parseInt
  cases n with
  | ofNat m =>
    have hlist : (toString (Int.ofNat m)).toList = Nat.toDigits 10 m := Nat.toList_repr
    have hdigit (c : Char) (cs : List Char) (h : Nat.toDigits 10 m = c :: cs) : c.isDigit :=
      Nat.isDigit_of_mem_toDigits (by decide) (by decide) (h ▸ List.mem_cons_self)
    rw [hlist]
    split
    · rename_i h
      exact absurd (hdigit _ _ h) (by decide)
    · rename_i h
      exact absurd (hdigit _ _ h) (by decide)
    · rw [digits_toDigits]
      exact Option.filter_eq_some_iff.mpr ⟨rfl, decide_eq_true ⟨hle, hge⟩⟩
  | negSucc m =>
    have hlist : (toString (Int.negSucc m)).toList = '-' :: Nat.toDigits 10 (m + 1) := by
      change ("-" ++ Nat.repr (m + 1)).toList = _
      rw [String.toList_append, Nat.toList_repr]
      rfl
    rw [hlist]
    simp only [digits_toDigits]
    exact Option.filter_eq_some_iff.mpr ⟨rfl, decide_eq_true ⟨hle, hge⟩⟩

example : formats "100%% of %5%, %n".toList ∧ ¬ formats "100% of".toList := by decide

example : parseInt "-0042" = some (-42) ∧ parseInt "2147483648" = none ∧ parseInt "+" = none := by
  decide

end InsightsAssist.Java
