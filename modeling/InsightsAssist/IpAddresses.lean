import Mathlib.Data.List.Forall2
import InsightsAssist.JavaStrings
import InsightsAssist.Split

/-! The ranges of addresses that an organisation is called from, and how an address is read. -/
namespace InsightsAssist.IpAddresses
open Java

/-- `Long.parseLong`; none where it throws. -/
def parseLong (s : List Char) : Option Int64 :=
  let value : Option Int := match s with
    | '-' :: cs => (digits cs).map fun n => -n
    | '+' :: cs => (digits cs).map fun n => n
    | cs => (digits cs).map fun n => n
  (value.filter fun n => -9223372036854775808 ≤ n ∧ n ≤ 9223372036854775807).map Int64.ofInt

def number (part : List Char) : Except Throwable Int64 :=
  match parseLong part with
  | some n => .ok n
  | none => .error (.illegalArgument (some ("For input string: \"" ++ .ofList part ++ "\"")))

def convertRemoteAddressToLong (remoteAddress : Option (List Char)) : Except Throwable Int64 :=
  match remoteAddress with
  | none => .error (.illegalArgument none)
  | some remoteAddress =>
    match split remoteAddress '.' with
    | [part0, part1, part2, part3] => do
      let n0 ← number part0
      let n1 ← number part1
      let n2 ← number part2
      let n3 ← number part3
      return n0 * 16777216 + n1 * 65536 + n2 * 256 + n3
    | _ => .error (.illegalState s!"Invalid remoteAddress {String.ofList remoteAddress}")

structure OrganisationIpAddressRange where
  ipAddressRangeStart : Int64
  ipAddressRangeEnd : Int64
  deriving DecidableEq, Repr

/-- An address that cannot be converted is in no range. -/
def OrganisationIpAddressRange.contains (range : OrganisationIpAddressRange)
    (remoteAddress : Option (List Char)) : Bool :=
  match convertRemoteAddressToLong remoteAddress with
  | .ok ipAddress =>
    range.ipAddressRangeStart ≤ ipAddress && ipAddress ≤ range.ipAddressRangeEnd
  | .error _ => false

structure Quad where
  a : Fin 256
  b : Fin 256
  c : Fin 256
  d : Fin 256
  deriving DecidableEq, Repr

def Quad.octets (q : Quad) : List Nat := [q.a, q.b, q.c, q.d]

/-- The 32-bit value: the octets are its digits in base 256. -/
def Quad.value (q : Quad) : Nat := ((q.a * 256 + q.b) * 256 + q.c) * 256 + q.d

/-- A decimal numeral; leading zeros are allowed. -/
structure Decimal (part : List Char) (n : Nat) : Prop where
  ne_nil : part ≠ []
  isDigit : part.all Char.isDigit
  value : Nat.ofDigitChars 10 part 0 = n

def IsQuad (s : List Char) (q : Quad) : Prop :=
  ∃ parts, List.Forall₂ Decimal parts q.octets ∧ s = join '.' parts

/-- The range tells the addresses in it from every other text, and from null. -/
def Exact (range : OrganisationIpAddressRange) (remoteAddress : Option (List Char)) : Prop :=
  range.contains remoteAddress ↔ ∃ s q, remoteAddress = some s ∧ IsQuad s q ∧
    range.ipAddressRangeStart.toInt ≤ q.value ∧ q.value ≤ range.ipAddressRangeEnd.toInt

/-- What a text can be read as: four numerals with dots between them and any number of dots behind
them. A numeral may have a sign, digits of any script and a value of 64 bits. -/
def ReadAs (s : List Char) (n0 n1 n2 n3 : Int64) : Prop :=
  ∃ parts dots, List.Forall₂ (fun part n => parseLong part = some n) parts [n0, n1, n2, n3] ∧
    s = join '.' parts ++ List.replicate dots '.'

/-- The text is read as an address of the range, with an overflow of the sum ignored. -/
def Mistaken (range : OrganisationIpAddressRange) (s : List Char) : Prop :=
  ∃ n0 n1 n2 n3, ReadAs s n0 n1 n2 n3 ∧
    range.ipAddressRangeStart ≤ n0 * 16777216 + n1 * 65536 + n2 * 256 + n3 ∧
    n0 * 16777216 + n1 * 65536 + n2 * 256 + n3 ≤ range.ipAddressRangeEnd

section Numerals
variable {part : List Char} {n : Nat} {m : Int64}

theorem digits_decimal (h : Decimal part n) : digits part = some n := by
  rw [digits_eq_ofDigitChars h.ne_nil (List.all_eq_true.mp h.isDigit), h.value]

theorem parseLong_decimal (h : Decimal part n) (hn : n ≤ 255) :
    parseLong part = some (Int64.ofInt n) := by
  have hdigits := digits_decimal h
  have hsign : ∀ sign cs, sign.isDigit = false → part ≠ sign :: cs := by
    rintro sign cs hsign rfl
    have hall := h.isDigit
    simp [hsign] at hall
  have hrange : (-9223372036854775808 : Int) ≤ n ∧ (n : Int) ≤ 9223372036854775807 := by omega
  unfold parseLong
  split
  · exact absurd rfl (hsign '-' _ (by decide))
  · exact absurd rfl (hsign '+' _ (by decide))
  · simp [hdigits, Option.filter, hrange]

theorem digit_isSome_of_mem {value : Option Nat}
    (h : (part.foldl (fun value c => value.bind fun n => (digit c).map (10 * n + ·))
      value).isSome) : value.isSome ∧ ∀ c ∈ part, (digit c).isSome := by
  induction part generalizing value with
  | nil => simpa using h
  | cons c part ih =>
    rw [List.foldl_cons] at h
    obtain ⟨hvalue, hpart⟩ := ih h
    cases value with
    | none => simp at hvalue
    | some n =>
      refine ⟨rfl, ?_⟩
      intro d hd
      rcases List.mem_cons.mp hd with rfl | hd
      · simpa using hvalue
      · exact hpart d hd

theorem dotless_of_digits (h : (digits part).isSome) : part ≠ [] ∧ '.' ∉ part := by
  cases part with
  | nil => cases h
  | cons c cs =>
    refine ⟨List.cons_ne_nil c cs, ?_⟩
    intro hdot
    have hsome := (digit_isSome_of_mem h).2 '.' hdot
    exact absurd hsome (by decide)

theorem dotless_of_parseLong (h : parseLong part = some m) : part ≠ [] ∧ '.' ∉ part := by
  unfold parseLong at h
  obtain ⟨n, hn, -⟩ := Option.map_eq_some_iff.mp h
  rw [Option.filter_eq_some_iff] at hn
  split at hn
  · rename_i cs
    have hdigits : (digits cs).isSome := by
      cases hcs : digits cs <;> simp [hcs] at hn ⊢
    simpa using (dotless_of_digits hdigits).2
  · rename_i cs
    have hdigits : (digits cs).isSome := by
      cases hcs : digits cs <;> simp [hcs] at hn ⊢
    simpa using (dotless_of_digits hdigits).2
  · refine dotless_of_digits ?_
    cases hcs : digits part <;> simp [hcs] at hn ⊢

end Numerals

section Readings
variable {s : List Char} {n0 n1 n2 n3 : Int64} {q : Quad} {range : OrganisationIpAddressRange}

theorem forall₂_four {α β : Type*} {R : α → β → Prop} {l : List α} {a b c d : β} :
    List.Forall₂ R l [a, b, c, d] ↔
      ∃ p0 p1 p2 p3, l = [p0, p1, p2, p3] ∧ R p0 a ∧ R p1 b ∧ R p2 c ∧ R p3 d := by
  constructor
  · rintro (_ | ⟨h0, _ | ⟨h1, _ | ⟨h2, _ | ⟨h3, _ | _⟩⟩⟩⟩)
    exact ⟨_, _, _, _, rfl, h0, h1, h2, h3⟩
  · rintro ⟨p0, p1, p2, p3, rfl, h0, h1, h2, h3⟩
    exact .cons h0 (.cons h1 (.cons h2 (.cons h3 .nil)))

theorem readAs_iff : ReadAs s n0 n1 n2 n3 ↔
    List.Forall₂ (fun part n => parseLong part = some n) (split s '.') [n0, n1, n2, n3] := by
  constructor
  · rintro ⟨parts, dots, hparts, rfl⟩
    obtain ⟨p0, p1, p2, p3, rfl, h0, h1, h2, h3⟩ := forall₂_four.mp hparts
    have hdotless : ∀ p ∈ [p0, p1, p2] ++ [p3], '.' ∉ p := by
      simp [(dotless_of_parseLong h0).2, (dotless_of_parseLong h1).2, (dotless_of_parseLong h2).2,
        (dotless_of_parseLong h3).2]
    have hsplit := split_join_append_replicate (dotless_of_parseLong h3).1 (by simp) hdotless dots
    rw [List.cons_append, List.cons_append, List.cons_append, List.nil_append] at hsplit
    rw [hsplit]
    exact .cons h0 (.cons h1 (.cons h2 (.cons h3 .nil)))
  · intro h
    refine ⟨split s '.', (s.rtakeWhile (· = '.')).length, h, ?_⟩
    rw [join_split, ← rtakeWhile_eq_replicate, List.rdropWhile_append_rtakeWhile]

theorem number_bind_eq_ok {part : List Char} {f : Int64 → Except Throwable Int64} {m : Int64} :
    (number part >>= f) = .ok m ↔ ∃ n, parseLong part = some n ∧ f n = .ok m := by
  unfold number
  cases parseLong part with
  | none => simp [bind, Except.bind]
  | some n => simp [bind, Except.bind]

theorem convertRemoteAddressToLong_eq_ok {ipAddress : Int64} :
    convertRemoteAddressToLong (some s) = .ok ipAddress ↔ ∃ n0 n1 n2 n3, ReadAs s n0 n1 n2 n3 ∧
      n0 * 16777216 + n1 * 65536 + n2 * 256 + n3 = ipAddress := by
  simp only [readAs_iff]
  constructor
  · intro h
    unfold convertRemoteAddressToLong at h
    dsimp only at h
    split at h
    · rename_i p0 p1 p2 p3 hsplit
      obtain ⟨n0, h0, h⟩ := number_bind_eq_ok.mp h
      obtain ⟨n1, h1, h⟩ := number_bind_eq_ok.mp h
      obtain ⟨n2, h2, h⟩ := number_bind_eq_ok.mp h
      obtain ⟨n3, h3, h⟩ := number_bind_eq_ok.mp h
      rw [hsplit]
      exact ⟨n0, n1, n2, n3, forall₂_four.mpr ⟨p0, p1, p2, p3, rfl, h0, h1, h2, h3⟩,
        Except.ok.inj h⟩
    · cases h
  · rintro ⟨n0, n1, n2, n3, hparts, rfl⟩
    obtain ⟨p0, p1, p2, p3, hsplit, h0, h1, h2, h3⟩ := forall₂_four.mp hparts
    simp only [convertRemoteAddressToLong, hsplit]
    exact number_bind_eq_ok.mpr ⟨n0, h0, number_bind_eq_ok.mpr ⟨n1, h1,
      number_bind_eq_ok.mpr ⟨n2, h2, number_bind_eq_ok.mpr ⟨n3, h3, rfl⟩⟩⟩⟩

theorem contains_iff : range.contains (some s) ↔ Mistaken range s := by
  unfold OrganisationIpAddressRange.contains Mistaken
  cases hconvert : convertRemoteAddressToLong (some s) with
  | ok ipAddress =>
    obtain ⟨n0, n1, n2, n3, hread, rfl⟩ := convertRemoteAddressToLong_eq_ok.mp hconvert
    rw [Bool.and_eq_true, decide_eq_true_eq, decide_eq_true_eq]
    constructor
    · exact fun hin => ⟨n0, n1, n2, n3, hread, hin⟩
    · rintro ⟨m0, m1, m2, m3, hread', hin⟩
      have hsame := convertRemoteAddressToLong_eq_ok.mpr ⟨m0, m1, m2, m3, hread', rfl⟩
      rw [hconvert] at hsame
      rwa [Except.ok.inj hsame]
  | error e =>
    refine iff_of_false (by simp) ?_
    rintro ⟨n0, n1, n2, n3, hread, -⟩
    rw [convertRemoteAddressToLong_eq_ok.mpr ⟨n0, n1, n2, n3, hread, rfl⟩] at hconvert
    cases hconvert

end Readings

section Quads
variable {s : List Char} {q q' : Quad} {range : OrganisationIpAddressRange}

theorem value_lt (q : Quad) : q.value < 4294967296 := by
  obtain ⟨a, b, c, d⟩ := q
  simp only [Quad.value]
  omega

theorem octets_lt_iff : q.octets < q'.octets ↔ q.value < q'.value := by
  obtain ⟨a, b, c, d⟩ := q
  obtain ⟨a', b', c', d'⟩ := q'
  simp only [Quad.octets, Quad.value, List.cons_lt_cons_iff, List.lt_irrefl, and_false, or_false]
  omega

theorem readAs_of_isQuad (h : IsQuad s q) : ReadAs s (.ofInt q.a) (.ofInt q.b) (.ofInt q.c)
    (.ofInt q.d) := by
  obtain ⟨parts, hparts, rfl⟩ := h
  refine ⟨parts, 0, ?_, by simp⟩
  obtain ⟨p0, p1, p2, p3, rfl, h0, h1, h2, h3⟩ := forall₂_four.mp hparts
  exact .cons (parseLong_decimal h0 (by omega)) (.cons (parseLong_decimal h1 (by omega))
    (.cons (parseLong_decimal h2 (by omega)) (.cons (parseLong_decimal h3 (by omega)) .nil)))

theorem convertRemoteAddressToLong_quad (h : IsQuad s q) :
    ∃ ipAddress, convertRemoteAddressToLong (some s) = .ok ipAddress ∧
      ipAddress.toInt = q.value := by
  refine ⟨_, convertRemoteAddressToLong_eq_ok.mpr ⟨_, _, _, _, readAs_of_isQuad h, rfl⟩, ?_⟩
  have hsum : Int64.ofInt q.a * 16777216 + .ofInt q.b * 65536 + .ofInt q.c * 256 + .ofInt q.d =
      .ofInt q.value := by
    have hcast : (q.value : Int) = q.a * 16777216 + q.b * 65536 + q.c * 256 + q.d := by
      simp only [Quad.value]
      omega
    rw [hcast, Int64.ofInt_add, Int64.ofInt_add, Int64.ofInt_add, Int64.ofInt_mul, Int64.ofInt_mul,
      Int64.ofInt_mul]
    rfl
  have hlt := value_lt q
  rw [hsum, Int64.toInt_ofInt_of_le (by omega) (by omega)]

theorem contains_quad (h : IsQuad s q) : range.contains (some s) ↔
    range.ipAddressRangeStart.toInt ≤ q.value ∧ q.value ≤ range.ipAddressRangeEnd.toInt := by
  obtain ⟨ipAddress, hconvert, hvalue⟩ := convertRemoteAddressToLong_quad h
  simp only [OrganisationIpAddressRange.contains, hconvert]
  rw [Bool.and_eq_true, decide_eq_true_eq, decide_eq_true_eq, Int64.le_iff_toInt_le,
    Int64.le_iff_toInt_le, hvalue]

theorem value_unique (h : IsQuad s q) (h' : IsQuad s q') : q.value = q'.value := by
  obtain ⟨ipAddress, hconvert, hvalue⟩ := convertRemoteAddressToLong_quad h
  obtain ⟨ipAddress', hconvert', hvalue'⟩ := convertRemoteAddressToLong_quad h'
  rw [hconvert] at hconvert'
  have hsame : ipAddress = ipAddress' := Except.ok.inj hconvert'
  rw [← hsame, hvalue] at hvalue'
  exact_mod_cast hvalue'

theorem exact_iff_of_some : Exact range (some s) ↔ (∃ q, IsQuad s q) ∨ ¬Mistaken range s := by
  unfold Exact
  by_cases hquad : ∃ q, IsQuad s q
  · obtain ⟨q, hq⟩ := hquad
    refine iff_of_true ?_ (.inl ⟨q, hq⟩)
    rw [contains_quad hq]
    constructor
    · exact fun hin => ⟨s, q, rfl, hq, hin⟩
    · rintro ⟨s', q', hs, hq', hin⟩
      cases hs
      rwa [value_unique hq hq']
  · have hnone : ¬∃ s' q, some s = some s' ∧ IsQuad s' q ∧
        range.ipAddressRangeStart.toInt ≤ q.value ∧ q.value ≤ range.ipAddressRangeEnd.toInt := by
      rintro ⟨s', q, hs, hq, -⟩
      cases hs
      exact hquad ⟨q, hq⟩
    rw [iff_false_right hnone, contains_iff, or_iff_right hquad]

end Quads

theorem contains_exact_iff (range : OrganisationIpAddressRange)
    (remoteAddress : Option (List Char)) :
    (Exact range remoteAddress ↔
      ∀ s, remoteAddress = some s → (∃ q, IsQuad s q) ∨ ¬Mistaken range s) ∧
    ∀ s q, remoteAddress = some s → IsQuad s q → ∃ ipAddress,
      convertRemoteAddressToLong remoteAddress = .ok ipAddress ∧
      ipAddress.toInt = q.value ∧ 0 ≤ ipAddress.toInt ∧ ipAddress.toInt < 4294967296 ∧
      ∀ s' q', IsQuad s' q' → ∀ ipAddress', convertRemoteAddressToLong (some s') = .ok ipAddress' →
        (q.octets < q'.octets ↔ ipAddress < ipAddress') := by
  constructor
  · cases remoteAddress with
    | none => simp [Exact, OrganisationIpAddressRange.contains, convertRemoteAddressToLong]
    | some s => simpa using exact_iff_of_some
  · rintro s q rfl hq
    obtain ⟨ipAddress, hconvert, hvalue⟩ := convertRemoteAddressToLong_quad hq
    have hlt := value_lt q
    refine ⟨ipAddress, hconvert, hvalue, by omega, by omega, ?_⟩
    intro s' q' hq' ipAddress' hconvert'
    obtain ⟨_, hquad', hvalue'⟩ := convertRemoteAddressToLong_quad hq'
    rw [hconvert'] at hquad'
    cases hquad'
    rw [octets_lt_iff, Int64.lt_iff_toInt_lt, hvalue, hvalue', Int.ofNat_lt]

theorem dotless_of_decimal {part : List Char} {n : Nat} (h : Decimal part n) : '.' ∉ part := by
  intro hdot
  have hdigit := List.all_eq_true.mp h.isDigit '.' hdot
  exact absurd hdigit (by decide)

theorem splitOn_of_isQuad {s : List Char} {q : Quad} (h : IsQuad s q) :
    List.Forall₂ Decimal (s.splitOn '.') q.octets := by
  obtain ⟨parts, hparts, rfl⟩ := h
  obtain ⟨p0, p1, p2, p3, rfl, h0, h1, h2, h3⟩ := forall₂_four.mp hparts
  rwa [splitOn_join (by simp)]
  simp [dotless_of_decimal h0, dotless_of_decimal h1, dotless_of_decimal h2, dotless_of_decimal h3]

def network : OrganisationIpAddressRange := ⟨16909056, 16909311⟩

theorem dot_behind_accepted : ¬Exact network (some "1.2.3.4.".toList) := by
  intro h
  obtain ⟨s, q, hs, hq, -⟩ := h.mp (by decide)
  cases hs
  have hlength := (splitOn_of_isQuad hq).length_eq
  exact absurd hlength (by simp [Quad.octets]; decide)

end InsightsAssist.IpAddresses
