import InsightsAssist.CryptHandler

/-! Chars and escapes of URIs, as `java.net.URI` allows and decodes them, and the coding of
parameters by `java.net.URLEncoder` and `java.net.URLDecoder`. -/
namespace InsightsAssist.Uris
open CryptHandler (JavaString newString digitValue)
open Unicode

/-- The char of a character of the basic plane. -/
def code (c : Char) : UInt16 := .ofNat c.toNat

section Cut
variable {d : UInt16} {a b s : JavaString}

/-- What stands before the first of a char, and what follows it. -/
def cutAt (d : UInt16) : JavaString → JavaString × Option JavaString
  | [] => ([], none)
  | c :: s => if c = d then ([], some s) else (c :: (cutAt d s).1, (cutAt d s).2)

def joinAt (d : UInt16) (parts : JavaString × Option JavaString) : JavaString :=
  parts.1 ++ parts.2.elim [] (d :: ·)

theorem joinAt_cutAt (d : UInt16) (s : JavaString) : joinAt d (cutAt d s) = s := by
  induction s with
  | nil => rfl
  | cons c s ih =>
    rw [cutAt]
    split
    · rename_i hc
      rw [hc]
      rfl
    · change c :: joinAt d (cutAt d s) = _
      rw [ih]

theorem not_mem_cutAt (d : UInt16) (s : JavaString) : d ∉ (cutAt d s).1 := by
  induction s with
  | nil => simp [cutAt]
  | cons c s ih =>
    rw [cutAt]
    split
    · simp
    · rename_i hc
      exact List.not_mem_cons_of_ne_of_not_mem (Ne.symm hc) ih

theorem cutAt_of_not_mem (h : d ∉ s) : cutAt d s = (s, none) := by
  induction s with
  | nil => rfl
  | cons c s ih =>
    rw [List.mem_cons, not_or] at h
    rw [cutAt, if_neg (Ne.symm h.1), ih h.2]

theorem cutAt_append (h : d ∉ a) : cutAt d (a ++ d :: b) = (a, some b) := by
  induction a with
  | nil => simp [cutAt]
  | cons c a ih =>
    rw [List.mem_cons, not_or] at h
    rw [List.cons_append, cutAt, if_neg (Ne.symm h.1), ih h.2]

theorem cutAt_joinAt {parts : JavaString × Option JavaString} (h : d ∉ parts.1) :
    cutAt d (joinAt d parts) = parts := by
  obtain ⟨a, b⟩ := parts
  cases b with
  | none => exact (congrArg (cutAt d) (List.append_nil a)).trans (cutAt_of_not_mem h)
  | some b => exact cutAt_append h

end Cut

def isAlpha (c : UInt16) : Bool :=
  (0x41 ≤ c.toNat ∧ c.toNat ≤ 0x5A) ∨ (0x61 ≤ c.toNat ∧ c.toNat ≤ 0x7A)

def isDigit (c : UInt16) : Bool := 0x30 ≤ c.toNat ∧ c.toNat ≤ 0x39

def isAlphaNum (c : UInt16) : Bool := isAlpha c || isDigit c

def isHex (c : UInt16) : Bool := (digitValue c).isSome

def isSpaceChar (c : UInt16) : Bool :=
  let n := c.toNat
  n = 0x20 || n = 0xA0 || n = 0x1680 || n = 0x180E || (0x2000 ≤ n && n ≤ 0x200A) || n = 0x2028 ||
    n = 0x2029 || n = 0x202F || n = 0x205F || n = 0x3000

/-- Visible and not of ASCII: neither a space nor a control character, which end at 0x9F. -/
def isOther (c : UInt16) : Bool := 0x9F < c.toNat && !isSpaceChar c

/-- The chars of a class, beside those that are allowed in each: letters and digits. -/
def oneOf (marks : String) (c : UInt16) : Bool := isAlphaNum c || c ∈ marks.toList.map code

def unreserved : String := "-_.!~'()*"

def isUserInfo : UInt16 → Bool := oneOf (unreserved ++ ";:&=+$,")

def isRegName : UInt16 → Bool := oneOf (unreserved ++ "$,;:@&=+")

def isPath : UInt16 → Bool := oneOf (unreserved ++ ":@&=+$,;/")

def isUric : UInt16 → Bool := oneOf (unreserved ++ ";/?:@&=+$,[]")

section Escapes
variable {chars : UInt16 → Bool} {a b s : JavaString}

/-- The chars of a class, other visible ones and escapes, which are a percent sign and two
hexadecimal digits. -/
def allowed (chars : UInt16 → Bool) : JavaString → Bool
  | [] => true
  | c :: s =>
    if c = code '%' then
      match s with
      | h :: l :: s => isHex h && isHex l && allowed chars s
      | _ => false
    else (chars c || isOther c) && allowed chars s

theorem allowed_escape (h l : UInt16) (s : JavaString) :
    allowed chars (code '%' :: h :: l :: s) = (isHex h && isHex l && allowed chars s) := by
  simp [allowed]

theorem allowed_cons {c : UInt16} (hc : c ≠ code '%') (s : JavaString) :
    allowed chars (c :: s) = ((chars c || isOther c) && allowed chars s) := by
  rw [allowed.eq_def]
  simp [hc]

theorem allowed_mono {chars' : UInt16 → Bool} (hmono : ∀ c, chars c → chars' c)
    (h : allowed chars s) : allowed chars' s := by
  fun_induction allowed chars s with
  | case1 => rfl
  | case2 x y s ih =>
    rw [Bool.and_eq_true] at h
    rw [allowed_escape, Bool.and_eq_true]
    exact ⟨h.1, ih h.2⟩
  | case3 => cases h
  | case4 c s hc ih =>
    rw [Bool.and_eq_true, Bool.or_eq_true] at h
    rw [allowed_cons hc, Bool.and_eq_true, Bool.or_eq_true]
    exact ⟨h.1.imp (hmono c) id, ih h.2⟩

theorem allowed_append (ha : allowed chars a) (hb : allowed chars b) : allowed chars (a ++ b) := by
  fun_induction allowed chars a with
  | case1 => exact hb
  | case2 h l s ih =>
    rw [Bool.and_eq_true] at ha
    rw [List.cons_append, List.cons_append, List.cons_append, allowed_escape, Bool.and_eq_true]
    exact ⟨ha.1, ih ha.2⟩
  | case3 => cases ha
  | case4 c s hc ih =>
    rw [Bool.and_eq_true] at ha
    rw [List.cons_append, allowed_cons hc, Bool.and_eq_true]
    exact ⟨ha.1, ih ha.2⟩

theorem allowed_flatMap {α : Type*} {f : α → JavaString} (l : List α)
    (h : ∀ a, allowed chars (f a)) : allowed chars (l.flatMap f) := by
  induction l with
  | nil => rfl
  | cons a l ih => exact allowed_append (h a) ih

theorem mem_allowed {c : UInt16} (h : allowed chars s) (hc : c ∈ s) :
    c = code '%' ∨ isHex c ∨ chars c ∨ isOther c := by
  fun_induction allowed chars s with
  | case1 => cases hc
  | case2 x y s ih =>
    rw [Bool.and_eq_true, Bool.and_eq_true] at h
    simp only [List.mem_cons] at hc
    obtain hc | rfl | rfl | hc := hc
    · exact .inl hc
    · exact .inr (.inl h.1.1)
    · exact .inr (.inl h.1.2)
    · exact ih h.2 hc
  | case3 => cases h
  | case4 d s hd ih =>
    rw [Bool.and_eq_true, Bool.or_eq_true] at h
    obtain rfl | hc := List.mem_cons.mp hc
    · exact .inr (.inr h.1)
    · exact ih h.2 hc

theorem allowed_of_append {d : UInt16} (hpercent : d ≠ code '%') (hhex : isHex d = false)
    (h : allowed chars (a ++ d :: b)) : allowed chars a ∧ allowed chars b := by
  fun_induction allowed chars a with
  | case1 =>
    rw [List.nil_append, allowed_cons hpercent, Bool.and_eq_true] at h
    exact ⟨rfl, h.2⟩
  | case2 x y s ih =>
    rw [List.cons_append, List.cons_append, List.cons_append, allowed_escape,
      Bool.and_eq_true] at h
    obtain ⟨hs, hb⟩ := ih h.2
    exact ⟨by rw [h.1, hs]; rfl, hb⟩
  | case3 s hs =>
    -- the escape would have the char
    match s, hs with
    | [], _ =>
      cases b with
      | nil => simp [allowed] at h
      | cons y b => simp [allowed, hhex] at h
    | [x], _ => simp [allowed, hhex] at h
    | x :: y :: s, hs => exact absurd rfl (hs x y s)
  | case4 c s hc ih =>
    rw [List.cons_append, allowed_cons hc, Bool.and_eq_true] at h
    obtain ⟨hs, hb⟩ := ih h.2
    exact ⟨by rw [h.1, hs]; rfl, hb⟩

def escapedByte (h l : UInt16) : UInt8 :=
  .ofNat (16 * (digitValue h).getD 15 + (digitValue l).getD 15)

/-- The bytes of a run of escapes are decoded together; those between brackets stay. -/
def decodeFrom (betweenBrackets : Bool) (bytes : List UInt8) : JavaString → JavaString
  | [] => newString bytes
  | c :: s =>
    if c = code '%' ∧ ¬betweenBrackets then
      match s with
      | h :: l :: s => decodeFrom betweenBrackets (bytes ++ [escapedByte h l]) s
      | s => newString bytes ++ c :: s
    else newString bytes ++
      c :: decodeFrom (c = code '[' || (betweenBrackets && c ≠ code ']')) [] s

/-- What the getters return of a part. -/
def decode (s : JavaString) : JavaString := decodeFrom false [] s

def plainFrom (betweenBrackets : Bool) : JavaString → Bool
  | [] => true
  | c :: s =>
    if c = code '%' ∧ ¬betweenBrackets then s.length < 2
    else plainFrom (c = code '[' || (betweenBrackets && c ≠ code ']')) s

/-- There is no escape outside brackets. -/
def Plain (s : JavaString) : Prop := plainFrom false s

theorem length_utf16Char_le (c : Char) : (utf16Char c).length ≤ c.utf8Size := by
  have hpos := c.utf8Size_pos
  rw [utf16Char]
  split
  · exact hpos
  · rename_i hbig
    have hne : c.utf8Size ≠ 1 := by
      intro hone
      have hsmall : c.toNat ≤ 127 := Char.utf8Size_eq_one_iff.mp hone
      omega
    simp only [List.length_cons, List.length_nil]
    omega

theorem length_newString_le (bytes : List UInt8) : (newString bytes).length ≤ bytes.length := by
  induction h : bytes.length using Nat.strongRecOn generalizing bytes with
  | _ n ih =>
    cases bytes with
    | nil => exact Nat.zero_le _
    | cons b bs =>
      subst h
      have hnewString : newString (b :: bs) =
          utf16Char (next b bs).1 ++ newString (bs.drop ((next b bs).2 - 1)) := by
        rw [newString, Unicode.decode_cons]
        rfl
      have hrest := ih _ (by rw [List.length_drop, List.length_cons]; omega)
        (bs.drop ((next b bs).2 - 1)) rfl
      have hfirst : (utf16Char (next b bs).1).length ≤ min (next b bs).2 (bs.length + 1) := by
        rw [next]
        split
        · rename_i c hc
          obtain ⟨rest, hbytes⟩ := decodeChar_eq_some hc
          have hlength := congrArg List.length hbytes
          have hle := length_utf16Char_le c
          rw [List.length_cons, List.length_append, String.length_utf8EncodeChar] at hlength
          exact Nat.le_min.mpr ⟨hle, show (utf16Char c).length ≤ _ by omega⟩
        · have hone : (utf16Char replacement).length = 1 := by decide
          have hpos : 1 ≤ malformedLength b bs := by
            fun_cases malformedLength b bs <;> simp
          rw [hone]
          exact Nat.le_min.mpr ⟨hpos, by omega⟩
      rw [List.length_drop] at hrest
      rw [hnewString, List.length_append, List.length_cons]
      omega

theorem newString_nil : newString [] = [] := rfl

theorem decodeFrom_char {betweenBrackets : Bool} {c : UInt16}
    (hc : ¬(c = code '%' ∧ ¬betweenBrackets)) (bytes : List UInt8) (s : JavaString) :
    decodeFrom betweenBrackets bytes (c :: s) = newString bytes ++
      c :: decodeFrom (c = code '[' || (betweenBrackets && c ≠ code ']')) [] s := by
  rw [decodeFrom.eq_def]
  exact if_neg hc

theorem length_decodeFrom_le (betweenBrackets : Bool) (bytes : List UInt8) (s : JavaString) :
    (decodeFrom betweenBrackets bytes s).length ≤ bytes.length + s.length := by
  fun_induction decodeFrom betweenBrackets bytes s with
  | case1 betweenBrackets bytes =>
    have hle := length_newString_le bytes
    simpa using hle
  | case2 betweenBrackets bytes c hc h l s ih =>
    simp only [List.length_append, List.length_cons, List.length_nil] at ih ⊢
    omega
  | case3 betweenBrackets bytes c s hc hs =>
    have hle := length_newString_le bytes
    simp only [List.length_append, List.length_cons]
    omega
  | case4 betweenBrackets bytes c s hc ih =>
    have hle := length_newString_le bytes
    simp only [List.length_append, List.length_cons, List.length_nil] at ih ⊢
    omega

theorem decodeFrom_of_plain {betweenBrackets : Bool} (h : plainFrom betweenBrackets s) :
    decodeFrom betweenBrackets [] s = s := by
  induction s generalizing betweenBrackets with
  | nil => rfl
  | cons c s ih =>
    rw [plainFrom] at h
    split at h
    · rename_i hc
      match s, h with
      | [], _ => simp [decodeFrom, newString_nil]
      | [_], _ => simp [decodeFrom, newString_nil]
      | x :: y :: s, h =>
        simp only [List.length_cons, decide_eq_true_eq] at h
        omega
    · rename_i hc
      rw [decodeFrom_char hc, ih h, newString_nil, List.nil_append]

theorem length_decodeFrom_lt {betweenBrackets : Bool} (h : ¬plainFrom betweenBrackets s) :
    (decodeFrom betweenBrackets [] s).length < s.length := by
  induction s generalizing betweenBrackets with
  | nil => exact absurd rfl h
  | cons c s ih =>
    rw [plainFrom] at h
    split at h
    · rename_i hc
      match s, h with
      | [], h => simp at h
      | [_], h => simp at h
      | x :: y :: s, _ =>
        have hle := length_decodeFrom_le betweenBrackets [escapedByte x y] s
        have hescape : decodeFrom betweenBrackets [] (c :: x :: y :: s) =
            decodeFrom betweenBrackets [escapedByte x y] s := by
          rw [decodeFrom.eq_def]
          exact if_pos hc
        rw [hescape]
        simp only [List.length_cons, List.length_nil] at hle ⊢
        omega
    · rename_i hc
      rw [decodeFrom_char hc, newString_nil, List.nil_append, List.length_cons, List.length_cons]
      exact Nat.succ_lt_succ (ih h)

theorem decode_of_plain (h : Plain s) : decode s = s := decodeFrom_of_plain h

theorem length_decode_lt (h : ¬Plain s) : (decode s).length < s.length := length_decodeFrom_lt h

theorem length_decode_le (s : JavaString) : (decode s).length ≤ s.length := by
  have hle := length_decodeFrom_le false [] s
  rwa [List.length_nil, Nat.zero_add] at hle

end Escapes
section UrlCoding
variable {chars : UInt16 → Bool} {s : JavaString}

/-- `Integer.parseInt` of two ASCII chars to the base 16; none where it throws or is negative. -/
def parseByte (h l : UInt16) : Option UInt8 :=
  match digitValue h, digitValue l with
  | some high, some low => some (.ofNat (16 * high + low))
  | none, some low =>
    if h = code '+' ∨ h = code '-' ∧ low = 0 then some (.ofNat low) else none
  | _, none => none

/-- The bytes of a run of escapes are decoded together. -/
def urlDecodeFrom (bytes : List UInt8) : JavaString → Option JavaString
  | [] => some (newString bytes)
  | c :: s =>
    if c = code '%' then
      match s with
      | h :: l :: s => (parseByte h l).bind fun b => urlDecodeFrom (bytes ++ [b]) s
      | _ => none
    else
      (urlDecodeFrom [] s).map fun t =>
        newString bytes ++ (if c = code '+' then code ' ' else c) :: t

/-- `URLDecoder.decode` in UTF-8; none where it throws. -/
def urlDecode (s : JavaString) : Option JavaString := urlDecodeFrom [] s

def hexDigits : List UInt16 := "0123456789ABCDEF".toList.map code

def escape (b : UInt8) : JavaString :=
  [code '%', hexDigits.getD (b.toNat / 16) 0, hexDigits.getD (b.toNat % 16) 0]

def isSafe (c : Char) : Bool := c.toNat < 0x80 && oneOf "-_.*" (code c)

def urlEncodePoint : Option Char → JavaString
  | some c =>
    if isSafe c then [code c]
    else if c = ' ' then [code '+']
    else (String.utf8EncodeChar c).flatMap escape
  | none => escape (.ofNat '?'.toNat)

/-- `URLEncoder.encode` in UTF-8, which is given a question mark for a surrogate without its
partner. -/
def urlEncode (s : JavaString) : JavaString := (codePoints s).flatMap urlEncodePoint

def replaceSurrogates (s : JavaString) : JavaString := utf16 ((codePoints s).map (·.getD '?'))

def IsText (s : JavaString) : Prop := none ∉ codePoints s

theorem urlDecodeFrom_char {c : UInt16} (hc : c ≠ code '%') (bytes : List UInt8) (s : JavaString) :
    urlDecodeFrom bytes (c :: s) = (urlDecodeFrom [] s).map fun t =>
      newString bytes ++ (if c = code '+' then code ' ' else c) :: t := by
  rw [urlDecodeFrom.eq_def]
  exact if_neg hc

theorem urlDecodeFrom_escape (h l : UInt16) (bytes : List UInt8) (s : JavaString) :
    urlDecodeFrom bytes (code '%' :: h :: l :: s) =
      (parseByte h l).bind fun b => urlDecodeFrom (bytes ++ [b]) s := by
  rw [urlDecodeFrom.eq_def]
  exact if_pos rfl

theorem urlDecodeFrom_of_allowed (h : allowed chars s) (bytes : List UInt8) :
    ∃ t, urlDecodeFrom bytes s = some t := by
  fun_induction allowed chars s generalizing bytes with
  | case1 => exact ⟨_, rfl⟩
  | case2 x y s ih =>
    rw [Bool.and_eq_true, Bool.and_eq_true, isHex, isHex] at h
    obtain ⟨high, hhigh⟩ := Option.isSome_iff_exists.mp h.1.1
    obtain ⟨low, hlow⟩ := Option.isSome_iff_exists.mp h.1.2
    rw [urlDecodeFrom_escape, parseByte, hhigh, hlow]
    exact ih h.2 _
  | case3 => cases h
  | case4 c s hc ih =>
    rw [Bool.and_eq_true] at h
    obtain ⟨t, ht⟩ := ih h.2 []
    exact ⟨_, by rw [urlDecodeFrom_char hc, ht]; rfl⟩

theorem parseByte_hexDigits (b : UInt8) :
    parseByte (hexDigits.getD (b.toNat / 16) 0) (hexDigits.getD (b.toNat % 16) 0) = some b := by
  have hdigit : ∀ n < 16, digitValue (hexDigits.getD n 0) = some n := by decide
  have hlt := b.toNat_lt
  rw [parseByte, hdigit _ (by omega), hdigit _ (by omega)]
  simp [Nat.div_add_mod]

theorem urlDecodeFrom_escapes (bytes more : List UInt8) (s : JavaString) :
    urlDecodeFrom bytes (more.flatMap escape ++ s) = urlDecodeFrom (bytes ++ more) s := by
  induction more generalizing bytes with
  | nil => simp
  | cons b more ih =>
    have hcons : (b :: more).flatMap escape ++ s = code '%' ::
      hexDigits.getD (b.toNat / 16) 0 :: hexDigits.getD (b.toNat % 16) 0 ::
        (more.flatMap escape ++ s) := rfl
    rw [hcons, urlDecodeFrom_escape, parseByte_hexDigits, Option.bind_some, ih]
    simp

theorem newString_encode (cs : List Char) : newString (encode cs) = utf16 cs := by
  rw [newString, decode_encode]

theorem utf16_cons (c : Char) (cs : List Char) : utf16 (c :: cs) = utf16Char c ++ utf16 cs := rfl

theorem urlDecodeFrom_points (cs : List Char) (points : List (Option Char)) :
    urlDecodeFrom (encode cs) (points.flatMap urlEncodePoint) =
      some (utf16 (cs ++ points.map (·.getD '?'))) := by
  induction points generalizing cs with
  | nil => simp [urlDecodeFrom, newString_encode]
  | cons p points ih =>
    have hescaped (c : Char) : urlDecodeFrom (encode cs)
        ((String.utf8EncodeChar c).flatMap escape ++ points.flatMap urlEncodePoint) =
          some (utf16 (cs ++ c :: points.map (·.getD '?'))) := by
      have hbytes : encode cs ++ String.utf8EncodeChar c = encode (cs ++ [c]) := by
        simp [encode]
      rw [urlDecodeFrom_escapes, hbytes, ih]
      simp
    have hliteral (c : Char) (u : UInt16) (hu : u ≠ code '%')
        (hc : utf16Char c = [if u = code '+' then code ' ' else u]) :
        urlDecodeFrom (encode cs) ([u] ++ points.flatMap urlEncodePoint) =
          some (utf16 (cs ++ c :: points.map (·.getD '?'))) := by
      have hrest : urlDecodeFrom [] (points.flatMap urlEncodePoint) =
          some (utf16 (points.map (·.getD '?'))) := ih []
      rw [List.singleton_append, urlDecodeFrom_char hu, hrest, Option.map_some, newString_encode,
        utf16_append, utf16_cons, hc]
      rfl
    rw [List.flatMap_cons, List.map_cons]
    cases p with
    | none => exact hescaped '?'
    | some c =>
      rw [urlEncodePoint, Option.getD_some]
      split
      · rename_i hsafe
        rw [isSafe, Bool.and_eq_true, decide_eq_true_eq] at hsafe
        have hne {d : Char} (hno : oneOf "-_.*" (code d) = false) : code c ≠ code d := by
          intro hcode
          rw [hcode, hno] at hsafe
          cases hsafe.2
        refine hliteral c (code c) (hne (by decide)) ?_
        rw [if_neg (hne (by decide)), utf16Char, if_pos (by omega)]
        rfl
      · split
        · rename_i hspace
          exact hliteral c (code '+') (by decide) (by rw [hspace]; decide)
        · exact hescaped c

theorem urlDecode_urlEncode (s : JavaString) :
    urlDecode (urlEncode s) = some (replaceSurrogates s) := urlDecodeFrom_points [] (codePoints s)

theorem replaceSurrogates_idem (s : JavaString) :
    replaceSurrogates (replaceSurrogates s) = replaceSurrogates s := by
  rw [replaceSurrogates, replaceSurrogates, codePoints_utf16, List.map_map]
  simp [Function.comp_def]

theorem replaceSurrogates_eq_iff : replaceSurrogates s = s ↔ IsText s := by
  constructor
  · intro h
    rw [IsText, ← h, replaceSurrogates, codePoints_utf16]
    simp
  · intro h
    have hpoints : codePoints s = ((codePoints s).map (·.getD '?')).map some := by
      rw [List.map_map, List.map_congr_left (g := id), List.map_id]
      intro p hp
      cases p with
      | none => exact absurd hp h
      | some c => rfl
    exact (eq_utf16 hpoints).symm

def isEncoded : UInt16 → Bool := oneOf "-_.*+"

theorem allowed_escape_byte (b : UInt8) : allowed isEncoded (escape b) := by
  have hdigit : ∀ n < 16, isHex (hexDigits.getD n 0) := by decide
  have hlt := b.toNat_lt
  rw [escape, allowed_escape, hdigit _ (by omega), hdigit _ (by omega)]
  rfl

theorem oneOf_mono {marks marks' : String} (h : marks.toList ⊆ marks'.toList) {c : UInt16}
    (hc : oneOf marks c) : oneOf marks' c := by
  rw [oneOf, Bool.or_eq_true, decide_eq_true_eq] at hc ⊢
  exact hc.imp_right fun hc => List.map_subset code h hc

theorem isEncoded_ne_percent {c : UInt16} (h : oneOf "-_.*" c) : c ≠ code '%' := by
  rintro rfl
  exact absurd h (by decide)

theorem allowed_urlEncode (s : JavaString) : allowed isEncoded (urlEncode s) := by
  refine allowed_flatMap _ fun p => ?_
  fun_cases urlEncodePoint p with
  | case1 c hsafe =>
    rw [isSafe, Bool.and_eq_true] at hsafe
    rw [allowed_cons (isEncoded_ne_percent hsafe.2), Bool.and_eq_true, Bool.or_eq_true]
    exact ⟨.inl (oneOf_mono (by decide) hsafe.2), rfl⟩
  | case2 => decide
  | case3 c => exact allowed_flatMap _ allowed_escape_byte
  | case4 => exact allowed_escape_byte _

theorem utf16Char_ne_nil (c : Char) : utf16Char c ≠ [] := by
  rw [utf16Char]
  split <;> simp

theorem newString_ne_nil {bytes : List UInt8} (h : bytes ≠ []) : newString bytes ≠ [] := by
  obtain ⟨b, bs, rfl⟩ := List.exists_cons_of_ne_nil h
  rw [newString, Unicode.decode_cons, utf16_cons]
  exact List.append_ne_nil_of_left_ne_nil (utf16Char_ne_nil _) _

theorem urlDecodeFrom_ne_nil {bytes : List UInt8} {t : JavaString} (hne : bytes ≠ [] ∨ s ≠ [])
    (h : urlDecodeFrom bytes s = some t) : t ≠ [] := by
  fun_induction urlDecodeFrom bytes s generalizing t with
  | case1 bytes =>
    obtain rfl := Option.some.inj h
    exact newString_ne_nil (hne.resolve_right fun hnil => hnil rfl)
  | case2 bytes x y s ih =>
    obtain ⟨b, _, h⟩ := Option.bind_eq_some_iff.mp h
    exact ih b (.inl (by simp)) h
  | case3 => cases h
  | case4 bytes c s hc ih =>
    obtain ⟨t, _, rfl⟩ := Option.map_eq_some_iff.mp h
    simp

theorem urlEncodePoint_ne_nil (p : Option Char) : urlEncodePoint p ≠ [] := by
  fun_cases urlEncodePoint p with
  | case1 => simp
  | case2 => simp
  | case3 c =>
    obtain ⟨b, bs, hbytes, _⟩ := encodeChar_cons c
    rw [hbytes]
    simp [escape]
  | case4 => simp [escape]

theorem urlEncode_ne_nil (h : s ≠ []) : urlEncode s ≠ [] := by
  intro hnil
  have hpoints : codePoints s = [] := by
    rw [List.eq_nil_iff_forall_not_mem]
    intro p hp
    exact urlEncodePoint_ne_nil p (List.flatMap_eq_nil_iff.mp hnil p hp)
  exact h (@eq_utf16 s [] hpoints)

end UrlCoding
end InsightsAssist.Uris
