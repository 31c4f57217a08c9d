import InsightsAssist.CryptHandler

/-! The check of uploaded files for denied signatures and extensions. After each read the stream
is to go back to its start by a skip, which depends on the kind of stream. -/
namespace InsightsAssist.FileSecurity
open CryptHandler Unicode

def BYTES_TO_READ : List Nat := [4, 2, 1]

def DENY_FILE_EXTENSION : List String := ["exe", "dll", "msi", "so"]

def DENY_FILES_SIGNATURE : List (List String) :=
  [["4d5a9000", "7f454c46"], ["4d5a", "7f45"], ["e8", "e9", "eb"]]

/-- A ByteArrayInputStream where `inMemory`, otherwise a FileInputStream. -/
structure InputStream where
  inMemory : Bool
  content : List UInt8
  position : Nat
  deriving DecidableEq, Repr

/-- A new array of so many bytes with what is left of the stream, and the stream behind it. -/
def InputStream.read (readBytes : Nat) (s : InputStream) : List UInt8 × InputStream :=
  let bytes := (s.content.drop s.position).take readBytes
  (bytes ++ List.replicate (readBytes - bytes.length) 0,
    { s with position := s.position + bytes.length })

/-- In memory a negative number is none; a file goes back, but not before its start. -/
def InputStream.skip (n : Int) (s : InputStream) : Except Throwable InputStream :=
  if s.inMemory then
    .ok { s with position := s.position + min n.toNat (s.content.length - s.position) }
  else if 0 ≤ s.position + n then .ok { s with position := (s.position + n).toNat }
  else .error (.external "IOException")

/-- Of a string of ASCII characters. -/
def toLowerCase (s : JavaString) : JavaString :=
  s.map fun c => if 'A'.toNat ≤ c.toNat ∧ c.toNat ≤ 'Z'.toNat then c + 32 else c

/-- The loop over the lengths and their signatures: false where one of them is found. -/
def checkSignatures : List (Nat × List String) → InputStream → Except Throwable Bool
  | [], _ => .ok true
  | (readBytes, compareBytes) :: rest, s =>
    let (b, s) := s.read readBytes
    let signature := toLowerCase (toHex b)
    if signature = [] then checkSignatures rest s
    else if compareBytes.any fun compareByte => signature = utf16 compareByte.toList then .ok false
    else do
      let s ← s.skip (-1 * readBytes)
      checkSignatures rest s

/-- The text behind the last dot, none without a dot. No other characters than the capital letters
become letters of the extensions. -/
def fileExtension (fileName : String) : Option (List Char) :=
  if '.' ∈ fileName.toList then
    some ((fileName.toList.reverse.takeWhile (· ≠ '.')).reverse.map Char.toLower)
  else none

def hasDeniedExtension (fileName : String) : Bool :=
  DENY_FILE_EXTENSION.any fun element => fileExtension fileName = some element.toList

/-- An exception is logged, and the extension decides. -/
def isFileSecure (s : InputStream) (fileName : String) : Bool :=
  match checkSignatures (BYTES_TO_READ.zip DENY_FILES_SIGNATURE) s with
  | .ok false => false
  | _ => !hasDeniedExtension fileName

/-! ### What should be denied -/

def signatureBytes (signature : String) : List UInt8 := fromHexPairs (utf16 signature.toList)

def StartsDenied (content : List UInt8) : Prop :=
  ∃ signature ∈ DENY_FILES_SIGNATURE.flatten, signatureBytes signature <+: content

instance (content : List UInt8) : Decidable (StartsDenied content) :=
  inferInstanceAs (Decidable (∃ signature ∈ _, _))

def CheckRight (inMemory : Bool) (content : List UInt8) (fileName : String) : Prop :=
  isFileSecure ⟨inMemory, content, 0⟩ fileName = false ↔
    StartsDenied content ∨ hasDeniedExtension fileName

def padded (n : Nat) (content : List UInt8) : List UInt8 :=
  content.take n ++ List.replicate (n - (content.take n).length) 0

def Matches (compareBytes : List String) (bytes : List UInt8) : Prop :=
  ∃ compareByte ∈ compareBytes, bytes = signatureBytes compareByte

instance (compareBytes : List String) (bytes : List UInt8) :
    Decidable (Matches compareBytes bytes) := inferInstanceAs (Decidable (∃ compareByte ∈ _, _))

variable {content bytes : List UInt8} {s : InputStream} {n : Nat} {compareBytes : List String}
  {rounds : List (Nat × List String)}

theorem digit_lower {n : Nat} (hn : n < 16) :
    toLowerCase [HexChars.getD n 0] = [HexChars.getD n 0] := by
  revert n
  decide +kernel

theorem toLowerCase_toHex (bytes : List UInt8) : toLowerCase (toHex bytes) = toHex bytes := by
  induction bytes with
  | nil => rfl
  | cons c bytes ih =>
    have hlt := c.toNat_lt
    have hcons : toHex (c :: bytes) = [HexChars.getD (c.toNat / 16) 0] ++
        [HexChars.getD (c.toNat % 16) 0] ++ toHex bytes := rfl
    have happend (s t : JavaString) : toLowerCase (s ++ t) = toLowerCase s ++ toLowerCase t :=
      List.map_append
    rw [hcons, happend, happend, digit_lower (by omega), digit_lower (by omega), ih]

theorem toHex_signatureBytes {signature : String} (h : signature ∈ DENY_FILES_SIGNATURE.flatten) :
    toHex (signatureBytes signature) = utf16 signature.toList := by
  have hall : ∀ signature ∈ DENY_FILES_SIGNATURE.flatten,
      toHex (signatureBytes signature) = utf16 signature.toList := by decide
  exact hall signature h

def WellFormed (rounds : List (Nat × List String)) : Prop :=
  ∀ round ∈ rounds, 0 < round.1 ∧
    ∀ compareByte ∈ round.2, compareByte ∈ DENY_FILES_SIGNATURE.flatten

theorem matches_iff (h : ∀ compareByte ∈ compareBytes, compareByte ∈ DENY_FILES_SIGNATURE.flatten) :
    (compareBytes.any fun compareByte =>
      toLowerCase (toHex bytes) = utf16 compareByte.toList) ↔ Matches compareBytes bytes := by
  simp only [List.any_eq_true, decide_eq_true_eq, Matches, toLowerCase_toHex]
  refine exists_congr fun compareByte => and_congr_right fun hmem => ?_
  rw [← toHex_signatureBytes (h compareByte hmem)]
  constructor
  · intro heq
    rw [← fromHexPairs_toHex bytes, heq, fromHexPairs_toHex]
  · exact congrArg toHex

theorem padded_ne_nil (hn : 0 < n) (content : List UInt8) :
    toLowerCase (toHex (padded n content)) ≠ [] := by
  intro hnil
  have hlength := congrArg List.length hnil
  rw [toLowerCase_toHex, length_toHex, padded, List.length_append, List.length_replicate,
    List.length_nil] at hlength
  omega

theorem checkSignatures_cons (hrounds : WellFormed ((n, compareBytes) :: rounds)) :
    checkSignatures ((n, compareBytes) :: rounds) s =
      if Matches compareBytes (padded n (s.content.drop s.position)) then .ok false
      else (s.read n).2.skip (-1 * n) >>= checkSignatures rounds := by
  obtain ⟨hn, hsigs⟩ := hrounds (n, compareBytes) (by simp)
  have hread : (s.read n).1 = padded n (s.content.drop s.position) := rfl
  rw [checkSignatures]
  simp only [hread]
  rw [if_neg (padded_ne_nil hn _)]
  by_cases hmatch : Matches compareBytes (padded n (s.content.drop s.position))
  · rw [if_pos hmatch, if_pos ((matches_iff hsigs).mpr hmatch)]
  · rw [if_neg hmatch, if_neg fun hany => hmatch ((matches_iff hsigs).mp hany)]

theorem WellFormed.tail {round : Nat × List String} (h : WellFormed (round :: rounds)) :
    WellFormed rounds := fun r hr => h r (by simp [hr])

/-- In memory each round reads on where the one before it has stopped. -/
def Passes : List (Nat × List String) → List UInt8 → Prop
  | [], _ => True
  | (n, compareBytes) :: rounds, rest =>
    ¬ Matches compareBytes (padded n rest) ∧ Passes rounds (rest.drop n)

instance : (rounds : List (Nat × List String)) → (rest : List UInt8) →
    Decidable (Passes rounds rest)
  | [], _ => .isTrue trivial
  | (n, _) :: rounds, rest =>
    have := instDecidablePasses rounds (rest.drop n)
    inferInstanceAs (Decidable (_ ∧ _))

theorem skip_memory (n : Nat) (s : InputStream) (h : s.inMemory) : s.skip (-1 * n) = .ok s := by
  have hnone : (-1 * (n : Int)).toNat = 0 := by omega
  rw [InputStream.skip, if_pos h, hnone, Nat.zero_min, Nat.add_zero]

theorem drop_length_take (n : Nat) (rest : List UInt8) :
    rest.drop (rest.take n).length = rest.drop n := by
  rw [List.length_take, List.drop_eq_drop_iff]
  omega

theorem checkSignatures_memory (hrounds : WellFormed rounds) (content : List UInt8)
    (position : Nat) : checkSignatures rounds ⟨true, content, position⟩ =
      .ok (Passes rounds (content.drop position)) := by
  induction rounds generalizing position with
  | nil => rfl
  | cons round rounds ih =>
    obtain ⟨n, compareBytes⟩ := round
    rw [checkSignatures_cons hrounds]
    by_cases hmatch : Matches compareBytes (padded n (content.drop position))
    · rw [if_pos hmatch]
      simp [Passes, hmatch]
    · have hrest : content.drop (position + ((content.drop position).take n).length) =
          (content.drop position).drop n := by
        rw [← List.drop_drop, drop_length_take]
      have hread : (InputStream.read n ⟨true, content, position⟩).2 =
          ⟨true, content, position + ((content.drop position).take n).length⟩ := rfl
      rw [if_neg hmatch, hread, skip_memory n _ rfl]
      change checkSignatures rounds _ = _
      rw [ih hrounds.tail, hrest]
      simp [Passes, hmatch]

theorem skip_disk (n : Nat) (content : List UInt8) :
    (InputStream.read n ⟨false, content, 0⟩).2.skip (-1 * n) =
      if n ≤ content.length then .ok ⟨false, content, 0⟩
      else .error (.external "IOException") := by
  have hread : (InputStream.read n ⟨false, content, 0⟩).2 =
      ⟨false, content, min n content.length⟩ := by
    simp [InputStream.read]
  rw [hread, InputStream.skip, if_neg Bool.false_ne_true]
  simp only
  by_cases hlength : n ≤ content.length
  · have hback : ((min n content.length : Nat) : Int) + -1 * n = 0 := by omega
    rw [if_pos hlength, hback]
    rfl
  · rw [if_neg hlength, if_neg (by omega)]

theorem checkSignatures_disk (hrounds : WellFormed rounds)
    (hlength : ∀ round ∈ rounds, round.1 ≤ content.length) :
    checkSignatures rounds ⟨false, content, 0⟩ =
      .ok (∀ round ∈ rounds, ¬ Matches round.2 (padded round.1 content)) := by
  induction rounds with
  | nil => simp [checkSignatures]
  | cons round rounds ih =>
    obtain ⟨n, compareBytes⟩ := round
    have hn : n ≤ content.length := hlength (n, compareBytes) (by simp)
    rw [checkSignatures_cons hrounds, skip_disk, if_pos hn, List.drop_zero]
    by_cases hmatch : Matches compareBytes (padded n content)
    · simp [hmatch]
    · rw [if_neg hmatch]
      change checkSignatures rounds _ = _
      rw [ih hrounds.tail fun round hmem => hlength round (by simp [hmem])]
      simp [hmatch]

theorem checkSignatures_disk_short (hrounds : WellFormed ((n, compareBytes) :: rounds))
    (hlength : content.length < n) : checkSignatures ((n, compareBytes) :: rounds)
      ⟨false, content, 0⟩ = if Matches compareBytes (padded n content) then .ok false
        else .error (.external "IOException") := by
  rw [checkSignatures_cons hrounds, skip_disk, if_neg (Nat.not_le.mpr hlength), List.drop_zero]
  rfl

/-! ### The three rounds of the check -/

theorem wellFormed : WellFormed (BYTES_TO_READ.zip DENY_FILES_SIGNATURE) := by
  unfold WellFormed
  decide

theorem isFileSecure_eq_false {fileName : String} : isFileSecure s fileName = false ↔
    checkSignatures (BYTES_TO_READ.zip DENY_FILES_SIGNATURE) s = .ok false ∨
      hasDeniedExtension fileName := by
  rw [isFileSecure]
  split
  · exact iff_of_true rfl (.inl ‹_›)
  · rename_i hchecked
    rw [or_iff_right hchecked]
    simp

theorem startsDenied_of_matches (h : Matches ["4d5a9000", "7f454c46"] (padded 4 content)) :
    StartsDenied content := by
  have hpe : signatureBytes "4d5a9000" = [0x4d, 0x5a, 0x90, 0x00] := by decide
  have helf : signatureBytes "7f454c46" = [0x7f, 0x45, 0x4c, 0x46] := by decide
  simp only [Matches, List.mem_cons, List.not_mem_nil, or_false, exists_eq_or_imp,
    exists_eq_left, hpe, helf] at h
  cases content with
  | nil => simp [padded] at h
  | cons a content =>
    cases content with
    | nil => simp [padded] at h
    | cons b rest =>
      simp only [padded, List.take_succ_cons, List.cons_append, List.cons.injEq] at h
      obtain ⟨rfl, rfl, _⟩ | ⟨rfl, rfl, _⟩ := h
      · exact ⟨"4d5a", by decide, rest, rfl⟩
      · exact ⟨"7f45", by decide, rest, rfl⟩

theorem length_signatureBytes {round : Nat × List String} {signature : String}
    (hround : round ∈ BYTES_TO_READ.zip DENY_FILES_SIGNATURE) (hmem : signature ∈ round.2) :
    (signatureBytes signature).length = round.1 := by
  have hall : ∀ round ∈ BYTES_TO_READ.zip DENY_FILES_SIGNATURE, ∀ signature ∈ round.2,
      (signatureBytes signature).length = round.1 := by decide
  exact hall round hround signature hmem

theorem padded_eq_take (h : n ≤ content.length) : padded n content = content.take n := by
  simp [padded, h]

theorem startsDenied_iff (hlength : 4 ≤ content.length) : StartsDenied content ↔
    ∃ round ∈ BYTES_TO_READ.zip DENY_FILES_SIGNATURE,
      Matches round.2 (padded round.1 content) := by
  have hflatten : ∀ signature, signature ∈ DENY_FILES_SIGNATURE.flatten ↔
      ∃ round ∈ BYTES_TO_READ.zip DENY_FILES_SIGNATURE, signature ∈ round.2 := by
    simp [BYTES_TO_READ, DENY_FILES_SIGNATURE, or_assoc]
  have hshort : ∀ round ∈ BYTES_TO_READ.zip DENY_FILES_SIGNATURE, round.1 ≤ 4 := by decide
  have hbegins {round : Nat × List String} {signature : String}
      (hround : round ∈ BYTES_TO_READ.zip DENY_FILES_SIGNATURE) (hmem : signature ∈ round.2) :
      signatureBytes signature <+: content ↔ padded round.1 content = signatureBytes signature := by
    rw [padded_eq_take (Nat.le_trans (hshort round hround) hlength), List.prefix_iff_eq_take,
      length_signatureBytes hround hmem, eq_comm]
  constructor
  · intro ⟨signature, hmem, hstarts⟩
    obtain ⟨round, hround, hmem⟩ := (hflatten signature).mp hmem
    exact ⟨round, hround, signature, hmem, (hbegins hround hmem).mp hstarts⟩
  · intro ⟨round, hround, signature, hmem, hbytes⟩
    exact ⟨signature, (hflatten signature).mpr ⟨round, hround, hmem⟩,
      (hbegins hround hmem).mpr hbytes⟩

theorem checkRight_iff {inMemory : Bool} {fileName : String} {found : Prop}
    (hfound : checkSignatures (BYTES_TO_READ.zip DENY_FILES_SIGNATURE) ⟨inMemory, content, 0⟩ =
      .ok false ↔ found) :
    CheckRight inMemory content fileName ↔
      hasDeniedExtension fileName ∨ (found ↔ StartsDenied content) := by
  rw [CheckRight, isFileSecure_eq_false, hfound]
  by_cases hdenied : hasDeniedExtension fileName
  · simp [hdenied]
  · simp [hdenied]

theorem checkRight_disk_iff {fileName : String} : CheckRight false content fileName ↔
    hasDeniedExtension fileName ∨ 4 ≤ content.length ∨
      Matches ["4d5a9000", "7f454c46"] (padded 4 content) ∨ ¬ StartsDenied content := by
  by_cases hlength : 4 ≤ content.length
  · have hshort : ∀ round ∈ BYTES_TO_READ.zip DENY_FILES_SIGNATURE, round.1 ≤ 4 := by decide
    have hall := checkSignatures_disk wellFormed
      fun round hround => Nat.le_trans (hshort round hround) hlength
    have hfound : checkSignatures (BYTES_TO_READ.zip DENY_FILES_SIGNATURE) ⟨false, content, 0⟩ =
        .ok false ↔ StartsDenied content := by
      rw [hall, startsDenied_iff hlength]
      simp
    rw [checkRight_iff hfound]
    simp [hlength]
  · have hone := checkSignatures_disk_short wellFormed (Nat.not_le.mp hlength)
    have hfound : checkSignatures (BYTES_TO_READ.zip DENY_FILES_SIGNATURE) ⟨false, content, 0⟩ =
        .ok false ↔ Matches ["4d5a9000", "7f454c46"] (padded 4 content) := by
      refine (iff_of_eq (congrArg (· = .ok false) hone)).trans ?_
      split <;> simp_all
    rw [checkRight_iff hfound, or_iff_right hlength]
    by_cases hmatch : Matches ["4d5a9000", "7f454c46"] (padded 4 content)
    · simp [hmatch, startsDenied_of_matches hmatch]
    · simp [hmatch]

/-- In memory the second round reads behind four bytes and the third behind six. -/
theorem checkRight_memory_iff {fileName : String} : CheckRight true content fileName ↔
    hasDeniedExtension fileName ∨ Matches ["4d5a9000", "7f454c46"] (padded 4 content) ∨
      (StartsDenied content ↔ Matches ["4d5a", "7f45"] (padded 2 (content.drop 4)) ∨
        Matches ["e8", "e9", "eb"] (padded 1 (content.drop 6))) := by
  have hfound : checkSignatures (BYTES_TO_READ.zip DENY_FILES_SIGNATURE) ⟨true, content, 0⟩ =
      .ok false ↔ Matches ["4d5a9000", "7f454c46"] (padded 4 content) ∨
        Matches ["4d5a", "7f45"] (padded 2 (content.drop 4)) ∨
        Matches ["e8", "e9", "eb"] (padded 1 (content.drop 6)) := by
    rw [checkSignatures_memory wellFormed]
    simp only [BYTES_TO_READ, DENY_FILES_SIGNATURE, List.zip_cons_cons, Passes, List.drop_zero,
      List.drop_drop, Except.ok.injEq, decide_eq_false_iff_not, List.zip_nil_right, and_true,
      not_and_or, not_not]
  rw [checkRight_iff hfound]
  by_cases hmatch : Matches ["4d5a9000", "7f454c46"] (padded 4 content)
  · simp [hmatch, startsDenied_of_matches hmatch]
  · simp only [hmatch, false_or]
    rw [iff_comm (a := StartsDenied content)]

/-- Where the check is right, for an item on disk and for one in memory. -/
theorem isFileSecure_right_iff (content : List UInt8) (fileName : String) :
    (CheckRight false content fileName ↔ hasDeniedExtension fileName ∨ 4 ≤ content.length ∨
      Matches ["4d5a9000", "7f454c46"] (padded 4 content) ∨ ¬ StartsDenied content) ∧
    (CheckRight true content fileName ↔ hasDeniedExtension fileName ∨
      Matches ["4d5a9000", "7f454c46"] (padded 4 content) ∨
      (StartsDenied content ↔ Matches ["4d5a", "7f45"] (padded 2 (content.drop 4)) ∨
        Matches ["e8", "e9", "eb"] (padded 1 (content.drop 6)))) :=
  ⟨checkRight_disk_iff, checkRight_memory_iff⟩

/-- A program that is let through from memory and not from disk, harmless content that is refused
from memory, and a jump of one byte that is let through from disk. -/
theorem isFileSecure_wrong :
    StartsDenied [0x4d, 0x5a, 0x50, 0x00] ∧
      isFileSecure ⟨true, [0x4d, 0x5a, 0x50, 0x00], 0⟩ "setup.dat" ∧
      isFileSecure ⟨false, [0x4d, 0x5a, 0x50, 0x00], 0⟩ "setup.dat" = false ∧
      ¬ StartsDenied [0x61, 0x62, 0x63, 0x64, 0x4d, 0x5a] ∧
      isFileSecure ⟨true, [0x61, 0x62, 0x63, 0x64, 0x4d, 0x5a], 0⟩ "notes.txt" = false ∧
      StartsDenied [0xe8] ∧ isFileSecure ⟨false, [0xe8], 0⟩ "a.bin" := by
  decide

end InsightsAssist.FileSecurity
