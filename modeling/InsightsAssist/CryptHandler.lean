import InsightsAssist.Java
import InsightsAssist.Unicode

/-! Hexadecimal texts and the encryption of user data, which is done in blocks of bytes. A Java
string is a list of code units, a byte array a list of bytes. -/
namespace InsightsAssist.CryptHandler
open Unicode

abbrev JavaString := List UInt16

/-- In UTF-8, with a question mark for a surrogate without its partner. -/
def pointBytes : Option Char → List UInt8
  | some c => String.utf8EncodeChar c
  | none => [0x3F]

/-- `getBytes` in UTF-8. -/
def getBytes (s : JavaString) : List UInt8 := (codePoints s).flatMap pointBytes

/-- `new String` of bytes in UTF-8. -/
def newString (bytes : List UInt8) : JavaString := utf16 (decode bytes)

def HexChars : List UInt16 := utf16 "0123456789abcdef".toList

def toHex (bytes : List UInt8) : JavaString :=
  bytes.flatMap fun c => [HexChars.getD (c.toNat / 16) 0, HexChars.getD (c.toNat % 16) 0]

/-- The value of a char below 'a' is counted from '0'. -/
def hexValue (c : UInt16) : Int :=
  if 'a'.toNat ≤ c.toNat then c.toNat - 'a'.toNat + 10 else c.toNat - '0'.toNat

def toByte (n : Int) : UInt8 := .ofNat (n % 256).toNat

def fromHexPairs : JavaString → List UInt8
  | c1 :: c2 :: str => toByte (16 * hexValue c1 + hexValue c2) :: fromHexPairs str
  | _ => []

/-- The last char of an odd number has no partner. -/
def fromHex (str : JavaString) : Except Throwable (List UInt8) :=
  if str.length % 2 = 0 then .ok (fromHexPairs str)
  else .error (.indexOutOfBounds s!"String index out of range: {str.length}")

theorem hexValue_HexChars {n : Nat} (hn : n < 16) : hexValue (HexChars.getD n 0) = n := by
  revert n
  decide +kernel

theorem length_toHex (bytes : List UInt8) : (toHex bytes).length = 2 * bytes.length := by
  induction bytes with
  | nil => rfl
  | cons c bytes ih =>
    rw [toHex, List.flatMap_cons, List.length_append, ← toHex, ih, List.length_cons]
    simp only [List.length_cons, List.length_nil]
    omega

theorem toByte_digits (c : UInt8) :
    toByte (16 * hexValue (HexChars.getD (c.toNat / 16) 0) +
      hexValue (HexChars.getD (c.toNat % 16) 0)) = c := by
  have hlt := c.toNat_lt
  rw [hexValue_HexChars (by omega), hexValue_HexChars (by omega), toByte]
  have hvalue : ((16 * ((c.toNat / 16 : Nat) : Int) + ((c.toNat % 16 : Nat) : Int)) % 256).toNat =
      c.toNat := by omega
  rw [hvalue, UInt8.ofNat_toNat]

theorem fromHexPairs_toHex (bytes : List UInt8) : fromHexPairs (toHex bytes) = bytes := by
  induction bytes with
  | nil => rfl
  | cons c bytes ih =>
    have hcons : toHex (c :: bytes) = HexChars.getD (c.toNat / 16) 0 ::
        HexChars.getD (c.toNat % 16) 0 :: toHex bytes := rfl
    rw [hcons, fromHexPairs, toByte_digits, ih]

theorem fromHex_toHex (bytes : List UInt8) : fromHex (toHex bytes) = .ok bytes := by
  have heven : (toHex bytes).length % 2 = 0 := by
    rw [length_toHex]
    omega
  rw [fromHex, if_pos heven, fromHexPairs_toHex]

def digitValue (c : UInt16) : Option Nat :=
  if '0'.toNat ≤ c.toNat ∧ c.toNat ≤ '9'.toNat then some (c.toNat - '0'.toNat)
  else if 'a'.toNat ≤ c.toNat ∧ c.toNat ≤ 'f'.toNat then some (c.toNat - 'a'.toNat + 10)
  else if 'A'.toNat ≤ c.toNat ∧ c.toNat ≤ 'F'.toNat then some (c.toNat - 'A'.toNat + 10)
  else none

/-- The bytes that a hexadecimal text denotes; none if it is not one. -/
def denoted : JavaString → Option (List UInt8)
  | [] => some []
  | [_] => none
  | c1 :: c2 :: str => do
    let high ← digitValue c1
    let low ← digitValue c2
    return .ofNat (16 * high + low) :: (← denoted str)

def ReturnsDenoted (str : JavaString) : Prop :=
  ∀ bytes, fromHex str = .ok bytes → denoted str = some bytes

theorem mem_HexChars {c : UInt16} : c ∈ HexChars ↔
    ('0'.toNat ≤ c.toNat ∧ c.toNat ≤ '9'.toNat) ∨ ('a'.toNat ≤ c.toNat ∧ c.toNat ≤ 'f'.toNat) := by
  have hlist : HexChars = [48, 49, 50, 51, 52, 53, 54, 55, 56, 57, 97, 98, 99, 100, 101, 102] := rfl
  have hbounds : '0'.toNat = 48 ∧ '9'.toNat = 57 ∧ 'a'.toNat = 97 ∧ 'f'.toNat = 102 := by decide
  obtain ⟨h0, h9, ha, hf⟩ := hbounds
  simp only [hlist, List.mem_cons, List.not_mem_nil, or_false, ← UInt16.toNat_inj, h0, h9, ha, hf]
  simp only [UInt16.reduceToNat]
  omega

theorem hexValue_of_digitValue {c : UInt16} {n : Nat} (h : digitValue c = some n) :
    n < 16 ∧ (c ∈ HexChars ∧ hexValue c = n ∨ c ∉ HexChars ∧ hexValue c = n + 7) := by
  have hbounds : '0'.toNat = 48 ∧ '9'.toNat = 57 ∧ 'a'.toNat = 97 ∧ 'f'.toNat = 102 ∧
      'A'.toNat = 65 ∧ 'F'.toNat = 70 := by decide
  obtain ⟨h0, h9, ha, hf, hA, hF⟩ := hbounds
  rw [digitValue, h0, h9, ha, hf, hA, hF] at h
  rw [mem_HexChars, hexValue, h0, h9, ha, hf]
  split_ifs at h <;> cases h <;> split <;> omega

theorem digitValue_of_mem {c : UInt16} (h : c ∈ HexChars) :
    ∃ n, digitValue c = some n := by
  rw [mem_HexChars] at h
  obtain h | h := h
  · exact ⟨_, if_pos h⟩
  · refine ⟨c.toNat - 'a'.toNat + 10, ?_⟩
    have hbounds : '9'.toNat = 57 ∧ 'a'.toNat = 97 := by decide
    rw [digitValue, if_neg (by omega), if_pos h]

theorem toByte_natCast (n : Nat) : toByte n = .ofNat n := by
  rw [toByte, ← UInt8.toNat_inj]
  simp
  omega

theorem toByte_eq_iff {c1 c2 : UInt16} {high low : Nat} (h1 : digitValue c1 = some high)
    (h2 : digitValue c2 = some low) :
    toByte (16 * hexValue c1 + hexValue c2) = .ofNat (16 * high + low) ↔
      c1 ∈ HexChars ∧ c2 ∈ HexChars := by
  obtain ⟨hhigh, hvalue1⟩ := hexValue_of_digitValue h1
  obtain ⟨hlow, hvalue2⟩ := hexValue_of_digitValue h2
  rw [← toByte_natCast, toByte, toByte, ← UInt8.toNat_inj, UInt8.toNat_ofNat', UInt8.toNat_ofNat']
  obtain ⟨hc1, hvalue1⟩ | ⟨hc1, hvalue1⟩ := hvalue1 <;>
    obtain ⟨hc2, hvalue2⟩ | ⟨hc2, hvalue2⟩ := hvalue2 <;>
    simp only [hc1, hc2, hvalue1, hvalue2, and_self, and_false, false_and, iff_true, iff_false] <;>
    omega

/-- Of an even length the pairs are what the text denotes iff no digit is of the upper case. -/
theorem denoted_eq_pairs_iff (str : JavaString) (heven : str.length % 2 = 0) :
    denoted str = some (fromHexPairs str) ↔ ∀ c ∈ str, c ∈ HexChars := by
  fun_induction denoted str with
  | case1 => simp [fromHexPairs]
  | case2 => simp at heven
  | case3 c1 c2 str ih =>
    simp only [List.length_cons] at heven
    have ih := ih (by omega)
    have hnone {c : UInt16} (hc : digitValue c = none) : c ∉ HexChars := fun hmem => by
      obtain ⟨n, hn⟩ := digitValue_of_mem hmem
      rw [hc] at hn
      cases hn
    rw [List.forall_mem_cons, List.forall_mem_cons, ← ih, fromHexPairs]
    cases h1 : digitValue c1 with
    | none => simp [hnone h1]
    | some high =>
      cases h2 : digitValue c2 with
      | none => simp [hnone h2]
      | some low =>
        rw [← and_assoc, ← toByte_eq_iff h1 h2]
        simp only [Option.bind_eq_bind, Option.bind_some, Option.pure_def, Option.bind_eq_some_iff,
          Option.some.injEq, List.cons.injEq]
        constructor
        · rintro ⟨bytes, hbytes, hbyte, rfl⟩
          exact ⟨hbyte.symm, hbytes⟩
        · rintro ⟨hbyte, hbytes⟩
          exact ⟨_, hbytes, hbyte.symm, rfl⟩

/-- Of a text of an even length the bytes are right iff its digits are of the lower case. -/
theorem fromHex_denoted_iff (str : JavaString) :
    (∀ bytes, fromHex (toHex bytes) = .ok bytes) ∧
    (ReturnsDenoted str ↔ str.length % 2 = 1 ∨ ∀ c ∈ str, c ∈ HexChars) := by
  refine ⟨fromHex_toHex, ?_⟩
  by_cases heven : str.length % 2 = 0
  · have hreturns : ReturnsDenoted str ↔ denoted str = some (fromHexPairs str) := by
      simp [ReturnsDenoted, fromHex, heven]
    rw [hreturns, denoted_eq_pairs_iff str heven, or_iff_right (by omega)]
  · have hthrows : ReturnsDenoted str := by
      intro bytes h
      rw [fromHex, if_neg heven] at h
      cases h
    exact iff_of_true hthrows (.inl (by omega))

theorem upper_case_misread : ¬ ReturnsDenoted (utf16 "A1".toList) := by
  intro h
  have hbytes := h [0x11] rfl
  revert hbytes
  decide +kernel

theorem getBytes_utf16 (cs : List Char) : getBytes (utf16 cs) = encode cs := by
  rw [getBytes, codePoints_utf16, List.flatMap_map]
  rfl

theorem pointBytes_pos (p : Option Char) : 0 < (pointBytes p).length := by
  cases p with
  | none => decide
  | some c =>
    rw [pointBytes, String.length_utf8EncodeChar]
    exact c.utf8Size_pos

theorem length_le_getBytes (s : JavaString) : s.length ≤ (getBytes s).length := by
  unfold getBytes
  fun_induction codePoints s with
  | case1 => exact Nat.zero_le _
  | case2 u =>
    have hpos := pointBytes_pos (unit u)
    simp only [List.flatMap_cons, List.flatMap_nil, List.append_nil, List.length_cons,
      List.length_nil]
    omega
  | case3 u v s hpair ih =>
    -- a pair is one character, of four bytes
    rw [Bool.and_eq_true] at hpair
    have hpair := utf16Char_of_pair hpair.1 hpair.2
    generalize Char.ofNat _ = c at hpair ⊢
    have htwo : c.utf8Size ≠ 1 := by
      intro hone
      have hsmall : c.toNat ≤ 127 := Char.utf8Size_eq_one_iff.mp hone
      rw [utf16Char, if_pos (by omega)] at hpair
      cases hpair
    have hpos := c.utf8Size_pos
    rw [List.flatMap_cons, List.length_append, pointBytes, String.length_utf8EncodeChar,
      List.length_cons, List.length_cons]
    omega
  | case4 u v s hpair ih =>
    have hpos := pointBytes_pos (unit u)
    rw [List.flatMap_cons, List.length_append, List.length_cons]
    omega

/-- The cipher RSA/NONE/PKCS1Padding of the provider: `init` and `doFinal` in both modes. The
padding takes from a source of random bytes. -/
structure Cipher (Key Random : Type*) where
  encrypt : Key → List UInt8 → Random → Except Throwable (List UInt8 × Random)
  decrypt : Key → List UInt8 → Except Throwable (List UInt8)

def MAX_INPUT_BYTES_LEN : Nat := 53

section
variable {Key Random : Type*} (userDataDecipher : Cipher Key Random)

/-- The loop of `encryptUserData`; the last item may be shorter. What the cipher throws is thrown
again. -/
def encryptItems (pubKey : Key) (bytes : List UInt8) (random : Random) :
    Except Throwable (JavaString × Random) :=
  if bytes = [] then .ok ([], random)
  else do
    let item := bytes.take MAX_INPUT_BYTES_LEN
    let (cipher, random) ← userDataDecipher.encrypt pubKey item random
    let (encryptedStr, random) ← encryptItems pubKey (bytes.drop MAX_INPUT_BYTES_LEN) random
    .ok (toHex cipher ++ encryptedStr, random)
termination_by bytes.length
decreasing_by
  rename_i hne
  have hpos := List.length_pos_of_ne_nil hne
  rw [List.length_drop, MAX_INPUT_BYTES_LEN]
  omega

def encryptUserData (pubKey : Key) (str : JavaString) (random : Random) :
    Except Throwable (JavaString × Random) :=
  encryptItems userDataDecipher pubKey (getBytes str) random

def decryptUserData (privKey : Key) (str : JavaString) : Except Throwable JavaString :=
  if str = [] then .ok []
  else do
    let item := str.take 128
    let decryptedBytes ← userDataDecipher.decrypt privKey (← fromHex item)
    let decryptedStr ← decryptUserData privKey (str.drop 128)
    .ok (newString decryptedBytes ++ decryptedStr)
termination_by str.length
decreasing_by
  rename_i hne
  have hpos := List.length_pos_of_ne_nil hne
  rw [List.length_drop]
  omega

def RoundTrips (pubKey privKey : Key) (random : Random) (str : JavaString) : Prop :=
  ((encryptUserData userDataDecipher pubKey str random).bind fun encrypted =>
    decryptUserData userDataDecipher privKey encrypted.1) = .ok str

/-- Blocks of at most 53 bytes have encryptions of 64 bytes, which decrypt to them. -/
structure Cipher.Correct (pubKey privKey : Key) : Prop where
  decrypts : ∀ block random, block.length ≤ MAX_INPUT_BYTES_LEN → ∃ cipher random',
    userDataDecipher.encrypt pubKey block random = .ok (cipher, random') ∧ cipher.length = 64 ∧
      userDataDecipher.decrypt privKey cipher = .ok block

variable {userDataDecipher : Cipher Key Random} {pubKey privKey : Key}

theorem decryptUserData_append (cipher : List UInt8) (hcipher : cipher.length = 64)
    (encryptedStr : JavaString) :
    decryptUserData userDataDecipher privKey (toHex cipher ++ encryptedStr) =
      (userDataDecipher.decrypt privKey cipher).bind fun decryptedBytes =>
        (decryptUserData userDataDecipher privKey encryptedStr).bind fun decryptedStr =>
          .ok (newString decryptedBytes ++ decryptedStr) := by
  have hitem : (toHex cipher).length = 128 := by rw [length_toHex, hcipher]
  have hne : toHex cipher ++ encryptedStr ≠ [] := by
    intro h
    rw [(List.append_eq_nil_iff.mp h).1] at hitem
    cases hitem
  rw [decryptUserData, if_neg hne, ← hitem, List.take_left, List.drop_left]
  simp only [fromHex_toHex]
  rfl

/-- What the loops do to the bytes: each block is read as a string of its own. -/
theorem decryptUserData_encryptItems (hrsa : userDataDecipher.Correct pubKey privKey)
    (bytes : List UInt8) (random : Random) : ∃ encryptedStr random',
      encryptItems userDataDecipher pubKey bytes random = .ok (encryptedStr, random') ∧
        decryptUserData userDataDecipher privKey encryptedStr =
          .ok (utf16 (decodeBlocks MAX_INPUT_BYTES_LEN bytes)) := by
  induction hlength : bytes.length using Nat.strongRecOn generalizing bytes random with
  | _ n ih =>
    by_cases hnil : bytes = []
    · subst hnil
      refine ⟨[], random, by rw [encryptItems, if_pos rfl], ?_⟩
      rw [decryptUserData, if_pos rfl, decodeBlocks, blocks, if_pos (.inr rfl)]
      rfl
    · have hpos := List.length_pos_of_ne_nil hnil
      have hmax : MAX_INPUT_BYTES_LEN = 53 := rfl
      have hfewer : (bytes.drop MAX_INPUT_BYTES_LEN).length < n := by
        rw [List.length_drop]
        omega
      obtain ⟨cipher, random₁, hencrypt, hcipher, hdecrypt⟩ :=
        hrsa.decrypts (bytes.take MAX_INPUT_BYTES_LEN) random (List.length_take_le _ _)
      obtain ⟨encryptedStr, random₂, hitems, hdecrypted⟩ := ih _ hfewer _ random₁ rfl
      refine ⟨toHex cipher ++ encryptedStr, random₂, ?_, ?_⟩
      · rw [encryptItems, if_neg hnil]
        simp only [hencrypt]
        change (encryptItems userDataDecipher pubKey _ random₁).bind _ = _
        rw [hitems]
        rfl
      · have hne : ¬ (MAX_INPUT_BYTES_LEN = 0 ∨ bytes = []) := by
          rw [not_or]
          exact ⟨by decide, hnil⟩
        have hblocks : decodeBlocks MAX_INPUT_BYTES_LEN bytes =
            decode (bytes.take MAX_INPUT_BYTES_LEN) ++
              decodeBlocks MAX_INPUT_BYTES_LEN (bytes.drop MAX_INPUT_BYTES_LEN) := by
          rw [decodeBlocks, blocks, if_neg hne, List.flatMap_cons]
          rfl
        rw [decryptUserData_append cipher hcipher, hdecrypt, hdecrypted, hblocks]
        exact congrArg _ (utf16_append _ _).symm

theorem roundTrips_iff_decodeBlocks (hrsa : userDataDecipher.Correct pubKey privKey)
    (random : Random) (cs : List Char) :
    RoundTrips userDataDecipher pubKey privKey random (utf16 cs) ↔
      decodeBlocks MAX_INPUT_BYTES_LEN (encode cs) = cs := by
  obtain ⟨encryptedStr, random', hencrypt, hdecrypt⟩ :=
    decryptUserData_encryptItems hrsa (encode cs) random
  have hresult : (encryptUserData userDataDecipher pubKey (utf16 cs) random).bind (fun encrypted =>
      decryptUserData userDataDecipher privKey encrypted.1) =
        .ok (utf16 (decodeBlocks MAX_INPUT_BYTES_LEN (encode cs))) := by
    rw [encryptUserData, getBytes_utf16, hencrypt]
    exact hdecrypt
  rw [RoundTrips, hresult, Except.ok.injEq]
  exact utf16_injective.eq_iff

/-- User data comes back exactly if no character lies across the end of a block. -/
theorem roundTrips_iff (hrsa : userDataDecipher.Correct pubKey privKey) (random : Random)
    (cs : List Char) :
    RoundTrips userDataDecipher pubKey privKey random (utf16 cs) ↔
      Aligned MAX_INPUT_BYTES_LEN cs := by
  rw [roundTrips_iff_decodeBlocks hrsa]
  exact decodeBlocks_encode_iff (by decide)

end

/-- The padding of PKCS#1, with the exponent 1 for both keys. -/
def pkcs1 : Cipher Unit UInt8 where
  encrypt _ block random :=
    if block.length ≤ MAX_INPUT_BYTES_LEN then
      let ps := List.replicate (61 - block.length) (if random = 0 then 1 else random)
      .ok (0 :: 2 :: ps ++ 0 :: block, random + 1)
    else .error (.external "too much data for RSA block")
  decrypt _ cipher := .ok (((cipher.drop 2).dropWhile (· ≠ 0)).drop 1)

theorem pkcs1_correct : pkcs1.Correct () () where
  decrypts block random hshort := by
    have hmax : MAX_INPUT_BYTES_LEN = 53 := rfl
    refine ⟨_, _, if_pos hshort, ?_, ?_⟩
    · simp only [List.length_append, List.length_cons, List.length_replicate]
      omega
    · have hnonzero : (if random = 0 then 1 else random) ≠ 0 := by
        split
        · decide
        · assumption
      have hps (n : Nat) (rest : List UInt8) :
          (List.replicate n (if random = 0 then 1 else random) ++ rest).dropWhile (· ≠ 0) =
            rest.dropWhile (· ≠ 0) := by
        apply List.dropWhile_append_of_pos
        intro x hx
        rw [List.eq_of_mem_replicate hx]
        exact decide_eq_true hnonzero
      simp only [pkcs1, List.cons_append, List.drop_succ_cons, List.drop_zero, hps]
      rfl

theorem password_roundTrips :
    Aligned MAX_INPUT_BYTES_LEN "s3cret".toList ∧
      RoundTrips pkcs1 () () 7 (utf16 "s3cret".toList) := by
  have haligned : Aligned MAX_INPUT_BYTES_LEN "s3cret".toList :=
    alignedFrom_of_short (by decide +kernel)
  exact ⟨haligned, (roundTrips_iff pkcs1_correct 7 _).mpr haligned⟩

theorem accent_lost : pkcs1.Correct () () ∧
    ¬ RoundTrips pkcs1 () () 7 (utf16 (List.replicate 52 'a' ++ ['é'])) := by
  refine ⟨pkcs1_correct, ?_⟩
  rw [roundTrips_iff_decodeBlocks pkcs1_correct, decodeBlocks_encode_iff (by decide)]
  intro haligned
  have hdiv := haligned (List.replicate 52 'a') 'é' [] rfl
  revert hdiv
  decide +kernel

end InsightsAssist.CryptHandler
