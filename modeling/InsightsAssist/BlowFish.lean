import InsightsAssist.CryptHandler
import Mathlib.Order.Bounds.Basic

/-! Blowfish encryption of a text, which is padded with spaces to whole blocks of 8 bytes, and its
decryption. -/
namespace InsightsAssist
open Unicode CryptHandler

/-- The Blowfish cipher on one block, of the platform to encrypt and of the library's engine to
decrypt. -/
structure Blowfish where
  encrypt (key block : List UInt8) : Except Throwable (List UInt8)
  decrypt (key block : List UInt8) : Except Throwable (List UInt8)

variable (blowfish : Blowfish)

/-- Under each key the blocks of 8 bytes are encrypted one to one. -/
structure Blowfish.Correct : Prop where
  decrypts : ∀ key block, key ≠ [] → block.length = 8 → ∃ cipher,
    blowfish.encrypt key block = .ok cipher ∧ cipher.length = 8 ∧
      blowfish.decrypt key cipher = .ok block

namespace BlowFishEncryptor

def SecretKeySpec (key : List UInt8) : Except Throwable (List UInt8) :=
  if key = [] then .error (.illegalArgument (some "Empty key")) else .ok key

/-- `System.arraycopy` from and to the first position. -/
def arraycopy (src dest : List UInt8) (length : Nat) : Except Throwable (List UInt8) :=
  if length ≤ src.length ∧ length ≤ dest.length then .ok (src.take length ++ dest.drop length)
  else .error (.indexOutOfBounds "")

def encryptBlocks (key : List UInt8) : Nat → List UInt8 → Except Throwable (List UInt8)
  | 0, _ => .ok []
  | blocks + 1, data => do
    let cipher ← blowfish.encrypt key (data.take 8)
    let rest ← encryptBlocks key blocks (data.drop 8)
    .ok (cipher ++ rest)

/-- `doFinal` of Blowfish/ECB/NoPadding. -/
def doFinal (key data : List UInt8) : Except Throwable (List UInt8) :=
  if data.length % 8 = 0 then encryptBlocks blowfish key (data.length / 8) data
  else .error (.external "IllegalBlockSizeException")

def padRightLength (totalLength : Nat) : Nat :=
  if totalLength % 8 ≠ 0 then 8 - totalLength % 8 else totalLength % 8

def encrypt (data secretKey : JavaString) : Except Throwable JavaString := do
  let key ← SecretKeySpec (getBytes secretKey)
  let totalLength := data.length
  let initialData := getBytes data
  let finalData := List.replicate (totalLength + padRightLength totalLength) 0
  let finalData ← arraycopy initialData finalData totalLength
  -- the loop that sets the last bytes
  let finalData := finalData.take totalLength ++ List.replicate (padRightLength totalLength) 0x20
  let encrypted ← doFinal blowfish key finalData
  .ok (toHex encrypted)

end BlowFishEncryptor

def BlowFishDecryptor.decrypt (key block : List UInt8) (index : Nat) :
    Except Throwable (List UInt8) := do
  let decrypted ← blowfish.decrypt key ((block.drop index).take 8)
  .ok (block.take index ++ decrypted ++ block.drop (index + 8))

/-- The loop of `decryptBlowfish`; what is over after the last whole block stays as it is. -/
def CryptHandler.decryptBlocks (key cipherBytes : List UInt8) : Except Throwable (List UInt8) :=
  let blocks := cipherBytes.length / 8
  (List.range blocks).foldlM
    (fun cipherBytes i => BlowFishDecryptor.decrypt blowfish key cipherBytes (i * 8)) cipherBytes

/-- Null for every exception. -/
def CryptHandler.decryptBlowfish (cipher key : JavaString) : Option JavaString :=
  match (fromHex cipher).bind (decryptBlocks blowfish (getBytes key)) with
  | .ok cipherBytes => some (newString cipherBytes)
  | .error _ => none

namespace BlowFishEncryptor

/-- The data with the fewest spaces after it that make its bytes whole blocks. -/
def IsPadded (data result : JavaString) : Prop :=
  ∃ k, IsLeast {k | 8 ∣ (getBytes (data ++ List.replicate k 0x20)).length} k ∧
    result = data ++ List.replicate k 0x20

/-- Encrypting and decrypting with a key pads the data. -/
def Recovers (data secretKey : JavaString) : Prop :=
  ∃ encrypted decrypted, encrypt blowfish data secretKey = .ok encrypted ∧
    decryptBlowfish blowfish encrypted secretKey = some decrypted ∧ IsPadded data decrypted

/-- What is cut from a text, one byte for each that it has more than chars, are spaces, and the
blocks suffice for all bytes. -/
structure Fits (data : JavaString) : Prop where
  wellFormed : ∃ cs, data = utf16 cs
  spaces : List.replicate ((getBytes data).length - data.length) 0x20 <:+ data
  blocks : ((getBytes data).length + 7) / 8 = (data.length + 7) / 8

theorem encode_spaces (k : Nat) : encode (List.replicate k ' ') = List.replicate k 0x20 := by
  induction k with
  | zero => rfl
  | succ k ih =>
    rw [List.replicate_succ, encode_cons, ih]
    rfl

theorem utf16_spaces (k : Nat) : utf16 (List.replicate k ' ') = List.replicate k 0x20 := by
  induction k with
  | zero => rfl
  | succ k ih =>
    rw [List.replicate_succ, List.replicate_succ, ← ih]
    rfl

theorem codePoints_append_spaces (s : JavaString) (k : Nat) :
    codePoints (s ++ List.replicate k 0x20) = codePoints s ++ (List.replicate k ' ').map some := by
  rw [← codePoints_utf16, utf16_spaces]
  cases k with
  | zero => simp [codePoints]
  | succ k => exact codePoints_append (by decide) _ _

theorem getBytes_append_spaces (s : JavaString) (k : Nat) :
    getBytes (s ++ List.replicate k 0x20) = getBytes s ++ List.replicate k 0x20 := by
  rw [getBytes, codePoints_append_spaces, List.flatMap_append, List.flatMap_map]
  exact congrArg _ (encode_spaces k)

section Padding
variable {n k : Nat}

theorem padRightLength_spec (n : Nat) : 8 ∣ n + padRightLength n ∧ padRightLength n < 8 := by
  unfold padRightLength
  split <;> omega

theorem isLeast_iff : IsLeast {k | 8 ∣ n + k} k ↔ 8 ∣ n + k ∧ k < 8 := by
  constructor
  · intro hleast
    have hle := hleast.2 (padRightLength_spec n).1
    have hlt := (padRightLength_spec n).2
    exact ⟨hleast.1, by omega⟩
  · intro hk
    refine ⟨hk.1, fun m hm => ?_⟩
    have hm : 8 ∣ n + m := hm
    omega

theorem isPadded_iff {data result : JavaString} : IsPadded data result ↔
    ∃ k, (8 ∣ (getBytes data).length + k ∧ k < 8) ∧ result = data ++ List.replicate k 0x20 := by
  have hset : {k | 8 ∣ (getBytes (data ++ List.replicate k 0x20)).length} =
      {k | 8 ∣ (getBytes data).length + k} := by
    ext k
    rw [Set.mem_ofPred_eq, getBytes_append_spaces, List.length_append, List.length_replicate]
    rfl
  unfold IsPadded
  rw [hset]
  simp only [isLeast_iff]

end Padding

/-! The blocks come back one after the other. -/
section Blocks
variable {blowfish : Blowfish} {key : List UInt8}

theorem foldlM_range {ε σ : Type*} {body : σ → Nat → Except ε σ} {P : Nat → σ → Prop} {s : σ}
    {n : Nat} (hinit : P 0 s)
    (hstep : ∀ i s, i < n → P i s → ∃ s', body s i = .ok s' ∧ P (i + 1) s') :
    ∃ s', (List.range n).foldlM body s = .ok s' ∧ P n s' := by
  induction n with
  | zero => exact ⟨s, rfl, hinit⟩
  | succ n ih =>
    obtain ⟨s₁, hrun, hs₁⟩ := ih fun i s hi => hstep i s (by omega)
    obtain ⟨s₂, hbody, hs₂⟩ := hstep n s₁ (Nat.lt_succ_self n) hs₁
    refine ⟨s₂, ?_, hs₂⟩
    rw [List.range_succ, List.foldlM_append, hrun]
    change (body s₁ n).bind _ = _
    rw [hbody]
    rfl

theorem encryptBlocks_ok (hblowfish : blowfish.Correct) (hkey : key ≠ []) {blocks : Nat}
    {data : List UInt8} (hdata : data.length = 8 * blocks) : ∃ cipher,
      encryptBlocks blowfish key blocks data = .ok cipher ∧ cipher.length = 8 * blocks ∧
        ∀ i < blocks, blowfish.decrypt key ((cipher.drop (i * 8)).take 8) =
          .ok ((data.drop (i * 8)).take 8) := by
  induction blocks generalizing data with
  | zero => exact ⟨[], rfl, rfl, fun i hi => absurd hi (Nat.not_lt_zero i)⟩
  | succ blocks ih =>
    have hblock : (data.take 8).length = 8 := by
      rw [List.length_take]
      omega
    have hrest : (data.drop 8).length = 8 * blocks := by
      rw [List.length_drop]
      omega
    obtain ⟨cipher, hencrypt, hcipher, hdecrypt⟩ := hblowfish.decrypts key _ hkey hblock
    obtain ⟨rest, hencrypts, hlength, hdecrypts⟩ := ih hrest
    refine ⟨cipher ++ rest, ?_, ?_, fun i hi => ?_⟩
    · rw [encryptBlocks, hencrypt]
      change (encryptBlocks blowfish key blocks (data.drop 8)).bind _ = _
      rw [hencrypts]
      rfl
    · rw [List.length_append]
      omega
    · cases i with
      | zero =>
        rw [Nat.zero_mul, List.drop_zero, List.drop_zero, ← hcipher, List.take_left, hcipher]
        exact hdecrypt
      | succ i =>
        have hoffset : (i + 1) * 8 = 8 + i * 8 := by omega
        rw [hoffset, ← List.drop_drop, ← List.drop_drop, List.drop_left' hcipher]
        exact hdecrypts i (by omega)

theorem decrypt_step {data cipher : List UInt8} {i : Nat} (hdata : i * 8 ≤ data.length)
    (hblock : blowfish.decrypt key ((cipher.drop (i * 8)).take 8) =
      .ok ((data.drop (i * 8)).take 8)) :
    BlowFishDecryptor.decrypt blowfish key (data.take (i * 8) ++ cipher.drop (i * 8)) (i * 8) =
      .ok (data.take ((i + 1) * 8) ++ cipher.drop ((i + 1) * 8)) := by
  have hprefix : (data.take (i * 8)).length = i * 8 := by
    rw [List.length_take]
    omega
  have hnext : (i + 1) * 8 = i * 8 + 8 := by omega
  rw [BlowFishDecryptor.decrypt, List.drop_left' hprefix, hblock, hnext, List.take_add,
    ← List.drop_drop, ← List.drop_drop, List.drop_left' hprefix, List.take_left' hprefix]
  rfl

theorem decryptBlocks_ok {data cipher : List UInt8} {blocks : Nat}
    (hdata : data.length = 8 * blocks) (hcipher : cipher.length = 8 * blocks)
    (hdecrypt : ∀ i < blocks, blowfish.decrypt key ((cipher.drop (i * 8)).take 8) =
      .ok ((data.drop (i * 8)).take 8)) :
    decryptBlocks blowfish key cipher = .ok data := by
  have hblocks : cipher.length / 8 = blocks := by omega
  obtain ⟨s, hrun, hs⟩ : ∃ s, decryptBlocks blowfish key cipher = .ok s ∧
      s = data.take (blocks * 8) ++ cipher.drop (blocks * 8) := by
    rw [decryptBlocks, hblocks]
    refine foldlM_range (P := fun i s => s = data.take (i * 8) ++ cipher.drop (i * 8)) (by simp) ?_
    intro i s hi hs
    exact ⟨_, hs ▸ decrypt_step (by omega) (hdecrypt i hi), rfl⟩
  rw [hrun, hs, List.take_of_length_le (by omega), List.drop_eq_nil_of_le (by omega),
    List.append_nil]

theorem decryptBlowfish_encrypt (hblowfish : blowfish.Correct) (data : JavaString)
    {secretKey : JavaString} (hkey : secretKey ≠ []) : ∃ encrypted,
      encrypt blowfish data secretKey = .ok encrypted ∧
        decryptBlowfish blowfish encrypted secretKey =
          some (newString ((getBytes data).take data.length ++
            List.replicate (padRightLength data.length) 0x20)) := by
  have hbytes : getBytes secretKey ≠ [] := by
    have hpos := List.length_pos_of_ne_nil hkey
    have hle := length_le_getBytes secretKey
    exact List.ne_nil_of_length_pos (by omega)
  have hle := length_le_getBytes data
  have htake : ((getBytes data).take data.length).length = data.length := by
    rw [List.length_take]
    omega
  have hmod := (padRightLength_spec data.length).1
  generalize hfinal : (getBytes data).take data.length ++
    List.replicate (padRightLength data.length) 0x20 = finalData
  have hlength : finalData.length = data.length + padRightLength data.length := by
    rw [← hfinal, List.length_append, htake, List.length_replicate]
  have hblocks : finalData.length = 8 * (finalData.length / 8) := by omega
  obtain ⟨cipher, hencrypt, hcipher, hdecrypt⟩ := encryptBlocks_ok hblowfish hbytes hblocks
  refine ⟨toHex cipher, ?_, ?_⟩
  · have hcopy : arraycopy (getBytes data)
        (List.replicate (data.length + padRightLength data.length) 0) data.length =
          .ok ((getBytes data).take data.length ++
            List.replicate (padRightLength data.length) 0) := by
      have hfits : data.length ≤ (getBytes data).length ∧ data.length ≤
          (List.replicate (data.length + padRightLength data.length) (0 : UInt8)).length := by
        rw [List.length_replicate]
        omega
      rw [arraycopy, if_pos hfits, List.drop_replicate, Nat.add_sub_cancel_left]
    simp only [encrypt, SecretKeySpec, if_neg hbytes, hcopy]
    change (doFinal blowfish (getBytes secretKey) (List.take data.length (_ ++ _) ++ _)).bind _ = _
    rw [List.take_left' htake, hfinal, doFinal, if_pos (by omega), hencrypt]
    rfl
  · rw [decryptBlowfish, fromHex_toHex]
    change (match decryptBlocks blowfish (getBytes secretKey) cipher with
      | Except.ok cipherBytes => some (newString cipherBytes)
      | .error _ => none) = _
    rw [decryptBlocks_ok hblocks hcipher hdecrypt]

end Blocks

/-! What the bytes that are left decode to. -/
section Cut
variable {cs : List Char} {n k K : Nat}

theorem utf16_eq_append_spaces {s : JavaString} :
    utf16 cs = s ++ List.replicate k 0x20 ↔
      ∃ p, s = utf16 p ∧ cs = p ++ List.replicate k ' ' := by
  constructor
  · intro h
    have hpoints := congrArg codePoints h
    rw [codePoints_utf16, codePoints_append_spaces] at hpoints
    obtain ⟨p, spaces, rfl, hp, hspaces⟩ := List.map_eq_append_iff.mp hpoints
    have hspaces := List.map_injective_iff.mpr (fun _ _ h => Option.some.inj h) hspaces
    exact ⟨p, eq_utf16 hp.symm, by rw [hspaces]⟩
  · intro ⟨p, hs, hcs⟩
    rw [hs, hcs, utf16_append, utf16_spaces]

theorem take_encode_spaces {p : List Char} (hn : n ≤ (encode cs).length)
    (hcs : cs = p ++ List.replicate ((encode cs).length - n) ' ') :
    (encode cs).take n = encode p := by
  have hbytes : encode cs = encode p ++ List.replicate ((encode cs).length - n) 0x20 := by
    rw [← encode_spaces, ← encode_append]
    exact congrArg encode hcs
  have hlength := congrArg List.length hbytes
  rw [List.length_append, List.length_replicate] at hlength
  rw [hbytes]
  exact List.take_left' (by omega)

theorem spaces_of_append {b : List Char}
    (h : List.replicate k ' ' = b ++ List.replicate K ' ') :
    b = List.replicate b.length ' ' ∧ k = b.length + K := by
  have hlength := congrArg List.length h
  rw [List.length_append, List.length_replicate, List.length_replicate] at hlength
  refine ⟨List.eq_replicate_iff.mpr ⟨rfl, fun c hc => ?_⟩, hlength⟩
  have hmem : c ∈ List.replicate k ' ' := by
    rw [h]
    exact List.mem_append_left _ hc
  exact List.eq_of_mem_replicate hmem

/-- The text is read from its first bytes and spaces exactly if the bytes that are cut are spaces as
well and as many as come in their place. A replacement character in the text cannot make up for a
character that is cut, as its own bytes have another number. -/
theorem decode_padded_iff (hn : n ≤ (encode cs).length) (hk : 8 ∣ n + k)
    (hK : 8 ∣ (encode cs).length + K) :
    decode ((encode cs).take n ++ List.replicate k 0x20) = cs ++ List.replicate K ' ' ↔
      (∃ p, cs = p ++ List.replicate ((encode cs).length - n) ' ') ∧
        n + k = (encode cs).length + K := by
  constructor
  · intro hsame
    obtain ⟨a, b, rfl, hfull⟩ | ⟨a, c, b, pre, post, rfl, hcut, hpre, hpost, hfull⟩ :=
      cut_cases cs hn
    · rw [encode_append, List.take_left' hfull, ← encode_spaces, decode_encode_append,
        decode_encode, List.append_assoc, List.append_cancel_left_eq] at hsame
      obtain ⟨hb, hk⟩ := spaces_of_append hsame
      have hlength : (encode b).length = b.length := by
        rw [hb, encode_spaces, List.length_replicate, List.length_replicate]
      rw [encode_append, List.length_append, hlength, hfull, Nat.add_sub_cancel_left, ← hb]
      exact ⟨⟨a, rfl⟩, by omega⟩
    · exfalso
      have hbytes : (encode (a ++ c :: b)).take n = encode a ++ pre := by
        rw [encode_append, encode_cons, hcut, List.append_assoc, ← List.append_assoc]
        exact List.take_left' (by rw [List.length_append, hfull])
      have hspace : ∀ x ∈ (List.replicate k 0x20).head?, isTail x = false := by
        intro x hx
        rw [List.eq_of_mem_replicate (List.mem_of_mem_head? hx)]
        rfl
      rw [hbytes, List.append_assoc, decode_encode_append, decode_cut hcut hpre hpost _ hspace,
        ← encode_spaces, decode_encode, List.append_assoc, List.append_cancel_left_eq,
        List.cons_append, List.cons.injEq] at hsame
      obtain ⟨rfl, hrest⟩ := hsame
      obtain ⟨hb, hk⟩ := spaces_of_append hrest
      have hlength : (encode b).length = b.length := by
        rw [hb, encode_spaces, List.length_replicate, List.length_replicate]
      have hthree : pre.length + post.length = 3 := by
        rw [← List.length_append, ← hcut]
        rfl
      have hprepos := List.length_pos_of_ne_nil hpre
      have hpostpos := List.length_pos_of_ne_nil hpost
      rw [encode_append, List.length_append, length_encode_cons, hlength] at hK
      have hsize : replacement.utf8Size = 3 := rfl
      omega
  · intro ⟨⟨p, hp⟩, hblocks⟩
    have hspaces : k = (encode cs).length - n + K := by omega
    rw [take_encode_spaces hn hp, ← encode_spaces, decode_encode_append, decode_encode, hspaces,
      List.replicate_add, ← List.append_assoc, ← hp]

end Cut

section Claims
variable {blowfish : Blowfish} {data secretKey : JavaString}

theorem recovers_iff_isPadded (hblowfish : blowfish.Correct) (hkey : secretKey ≠ []) :
    Recovers blowfish data secretKey ↔
      IsPadded data (newString ((getBytes data).take data.length ++
        List.replicate (padRightLength data.length) 0x20)) := by
  obtain ⟨encrypted, hencrypt, hdecrypt⟩ := decryptBlowfish_encrypt hblowfish data hkey
  constructor
  · intro ⟨encrypted', decrypted, hencrypt', hdecrypt', hpadded⟩
    cases hencrypt.symm.trans hencrypt'
    cases hdecrypt.symm.trans hdecrypt'
    exact hpadded
  · intro hpadded
    exact ⟨encrypted, _, hencrypt, hdecrypt, hpadded⟩

theorem isPadded_iff_fits : IsPadded data (newString ((getBytes data).take data.length ++
    List.replicate (padRightLength data.length) 0x20)) ↔ Fits data := by
  have hle := length_le_getBytes data
  have hshort := padRightLength_spec data.length
  rw [isPadded_iff]
  constructor
  · intro ⟨K, hK, hsame⟩
    obtain ⟨cs, rfl, hdecode⟩ := utf16_eq_append_spaces.mp hsame
    rw [getBytes_utf16] at hle hK hdecode
    obtain ⟨⟨p, hp⟩, hblocks⟩ := (decode_padded_iff hle hshort.1 hK.1).mp hdecode
    refine ⟨⟨cs, rfl⟩, ?_, ?_⟩
    · exact ⟨utf16 p, (utf16_eq_append_spaces.mpr ⟨p, rfl, by rwa [getBytes_utf16]⟩).symm⟩
    · rw [getBytes_utf16]
      omega
  · intro ⟨⟨cs, hcs⟩, ⟨s, hs⟩, hblocks⟩
    subst hcs
    have hfull := padRightLength_spec (getBytes (utf16 cs)).length
    obtain ⟨p, _, hp⟩ := utf16_eq_append_spaces.mp hs.symm
    refine ⟨_, hfull, utf16_eq_append_spaces.mpr ⟨cs, rfl, ?_⟩⟩
    rw [getBytes_utf16] at hle hfull hp hblocks ⊢
    exact (decode_padded_iff hle hshort.1 hfull.1).mpr ⟨⟨p, hp⟩, by omega⟩

/-- The data comes back padded exactly if there is a key and no more than spaces is cut. -/
theorem recovers_iff (hblowfish : blowfish.Correct) (data secretKey : JavaString) :
    Recovers blowfish data secretKey ↔ secretKey ≠ [] ∧ Fits data := by
  by_cases hkey : secretKey = []
  · refine ⟨fun ⟨encrypted, _, hencrypt, _⟩ => ?_, fun h => absurd hkey h.1⟩
    subst hkey
    cases hencrypt
  · rw [recovers_iff_isPadded hblowfish hkey, isPadded_iff_fits]
    exact ⟨fun hfits => ⟨hkey, hfits⟩, fun h => h.2⟩

end Claims

def mask : Blowfish where
  encrypt key block := .ok (block.map (· ^^^ key.headD 0))
  decrypt key block := .ok (block.map (· ^^^ key.headD 0))

theorem mask_correct : mask.Correct where
  decrypts key block _ hblock := by
    refine ⟨_, rfl, by rw [List.length_map, hblock], ?_⟩
    have hback : ((· ^^^ key.headD 0) ∘ (· ^^^ key.headD 0) : UInt8 → UInt8) = id := by
      funext x
      exact (UInt8.xor_assoc x _ _).trans (by rw [UInt8.xor_self, UInt8.xor_zero]; rfl)
    simp only [mask, List.map_map, hback, List.map_id]

theorem recovers_cafe : (utf16 "k".toList ≠ [] ∧ Fits (utf16 "café ".toList)) ∧
    Recovers mask (utf16 "café ".toList) (utf16 "k".toList) := by
  have hfits : utf16 "k".toList ≠ [] ∧ Fits (utf16 "café ".toList) :=
    ⟨by decide +kernel, ⟨_, rfl⟩, by decide +kernel, by decide +kernel⟩
  exact ⟨hfits, (recovers_iff mask_correct _ _).mpr hfits⟩

theorem accent_cut : mask.Correct ∧ ¬ Recovers mask (utf16 ['é']) (utf16 ['k']) := by
  refine ⟨mask_correct, ?_⟩
  rw [recovers_iff_isPadded mask_correct (by decide +kernel), isPadded_iff_fits]
  intro hfits
  have hspaces := hfits.spaces
  revert hspaces
  decide +kernel

end BlowFishEncryptor

end InsightsAssist
