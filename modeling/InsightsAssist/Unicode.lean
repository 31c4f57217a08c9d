import Mathlib.Data.List.Basic

/-! Text as UTF-8 bytes and as UTF-16 code units: decoding that puts U+FFFD for what it cannot read,
and what becomes of an encoded text that is cut. -/
namespace InsightsAssist.Unicode

def replacement : Char := '\uFFFD'

def encode (cs : List Char) : List UInt8 := cs.flatMap String.utf8EncodeChar

theorem encode_append (a b : List Char) : encode (a ++ b) = encode a ++ encode b :=
  List.flatMap_append

theorem encode_cons (c : Char) (cs : List Char) :
    encode (c :: cs) = String.utf8EncodeChar c ++ encode cs := rfl

theorem length_encode_cons (c : Char) (cs : List Char) :
    (encode (c :: cs)).length = c.utf8Size + (encode cs).length := by
  rw [encode_cons, List.length_append, String.length_utf8EncodeChar]

/-- A byte that goes on with a character. -/
def isTail (b : UInt8) : Bool := 0x80 ≤ b.toNat ∧ b.toNat < 0xC0

/-- The second byte can go on with a character of at least three bytes. -/
def isSecond (b b2 : UInt8) : Bool :=
  isTail b2 ∧
    (b.toNat = 0xE0 ∧ 0xA0 ≤ b2.toNat ∨ 0xE0 < b.toNat ∧ b.toNat < 0xF0 ∨
      b.toNat = 0xF0 ∧ 0x90 ≤ b2.toNat ∨ 0xF0 < b.toNat ∧ b.toNat < 0xF4 ∨
      b.toNat = 0xF4 ∧ b2.toNat < 0x90)

/-- How many bytes one replacement stands for: those that begin a character, at least one. -/
def malformedLength (b : UInt8) : List UInt8 → Nat
  | [] => 1
  | b2 :: bs =>
    if isSecond b b2 then
      match bs with
      | [] => 2
      | b3 :: _ => if isTail b3 then 3 else 2
    else 1

/-- The next character and its number of bytes. -/
def next (b : UInt8) (bs : List UInt8) : Char × Nat :=
  match (b :: bs).toByteArray.utf8DecodeChar? 0 with
  | some c => (c, c.utf8Size)
  | none => (replacement, malformedLength b bs)

def decodeFrom : Nat → List UInt8 → List Char
  | _, [] => []
  | skip + 1, _ :: bs => decodeFrom skip bs
  | 0, b :: bs => (next b bs).1 :: decodeFrom ((next b bs).2 - 1) bs

def decode (bytes : List UInt8) : List Char := decodeFrom 0 bytes

theorem decodeFrom_eq (skip : Nat) (bytes : List UInt8) :
    decodeFrom skip bytes = decode (bytes.drop skip) := by
  induction bytes generalizing skip with
  | nil => simp [decodeFrom, decode]
  | cons b bs ih =>
    cases skip with
    | zero => rfl
    | succ skip => simp [decodeFrom, ih]

theorem decode_cons (b : UInt8) (bs : List UInt8) :
    decode (b :: bs) = (next b bs).1 :: decode (bs.drop ((next b bs).2 - 1)) := by
  rw [← decodeFrom_eq]
  rfl

inductive CharBytes : List UInt8 → Prop
  | one {b : UInt8} : b.toNat < 0x80 → CharBytes [b]
  | two {b x : UInt8} : 0xC0 ≤ b.toNat → b.toNat < 0xE0 → isTail x → CharBytes [b, x]
  | three {b x y : UInt8} :
      0xE0 ≤ b.toNat → b.toNat < 0xF0 → isSecond b x → isTail x → isTail y → CharBytes [b, x, y]
  | four {b x y z : UInt8} : 0xF0 ≤ b.toNat → isSecond b x → isTail x → isTail y → isTail z →
      CharBytes [b, x, y, z]

theorem toNat_ofNat {n : Nat} (h : n < 256) : (UInt8.ofNat n).toNat = n :=
  UInt8.toNat_ofNat_of_lt' h

theorem isTail_ofNat (n : Nat) : isTail (UInt8.ofNat (n % 64 + 128)) = true := by
  rw [isTail, toNat_ofNat (by omega)]
  simp
  omega

theorem charBytes (c : Char) : CharBytes (String.utf8EncodeChar c) := by
  have hvalid : c.val.toNat < 0x110000 := by
    have hvalid := c.valid
    simp only [UInt32.isValidChar, Nat.isValidChar] at hvalid
    omega
  fun_cases String.utf8EncodeChar c
  case case1 v h =>
    have hb : (UInt8.ofNat v).toNat = v := toNat_ofNat (by omega)
    exact .one (by omega)
  case case2 v _ h =>
    have hb : (UInt8.ofNat (v / 64 % 0x20 + 0xC0)).toNat = _ := toNat_ofNat (by omega)
    exact .two (by omega) (by omega) (isTail_ofNat _)
  case case3 v _ hv h =>
    have hb : (UInt8.ofNat (v / 4096 % 0x10 + 0xE0)).toNat = _ := toNat_ofNat (by omega)
    have hx : (UInt8.ofNat (v / 64 % 0x40 + 0x80)).toNat = _ := toNat_ofNat (by omega)
    refine .three (by omega) (by omega) ?_ (isTail_ofNat _) (isTail_ofNat _)
    rw [isSecond, isTail_ofNat, hb, hx]
    simp
    omega
  case case4 v _ _ hv =>
    have hb : (UInt8.ofNat (v / 262144 % 0x08 + 0xF0)).toNat = _ := toNat_ofNat (by omega)
    have hx : (UInt8.ofNat (v / 4096 % 0x40 + 0x80)).toNat = _ := toNat_ofNat (by omega)
    refine .four (by omega) ?_ (isTail_ofNat _) (isTail_ofNat _) (isTail_ofNat _)
    rw [isSecond, isTail_ofNat, hb, hx]
    simp
    omega

namespace CharBytes
variable {b : UInt8} {bs : List UInt8}

theorem head (h : CharBytes (b :: bs)) : isTail b = false := by
  cases h with
  | one hb => simp [isTail]; omega
  | two hb _ _ => simp [isTail]; omega
  | three hb _ _ _ _ => simp [isTail]; omega
  | four hb _ _ _ _ => simp [isTail]; omega

theorem tails (h : CharBytes (b :: bs)) : ∀ x ∈ bs, isTail x = true := by
  cases h with
  | one _ => simp
  | two _ _ hx => simpa using hx
  | three _ _ _ hx hy => simp [hx, hy]
  | four _ _ hx hy hz => simp [hx, hy, hz]

theorem isSecond_le {x : UInt8} (h : isSecond b x = true) : 0xE0 ≤ b.toNat ∧ b.toNat < 0xF5 := by
  simp only [isSecond, decide_eq_true_eq] at h
  omega

theorem length_eq {bs' : List UInt8} (h : CharBytes (b :: bs)) (h' : CharBytes (b :: bs')) :
    bs.length = bs'.length := by
  cases h <;> cases h' <;> first | rfl | omega

theorem isSecond_false {x : UInt8} (h : isTail x = false) : isSecond b x = false := by
  simp [isSecond, h]

theorem malformedLength_tail (h : isTail b = true) (rest : List UInt8) :
    malformedLength b rest = 1 := by
  cases rest with
  | nil => rfl
  | cons x rest =>
    have hno : ¬ isSecond b x = true := by
      intro hsecond
      have hge := (isSecond_le hsecond).1
      simp only [isTail, decide_eq_true_eq] at h
      omega
    simp [malformedLength, hno]

theorem malformedLength_eq {pre post rest : List UInt8} (h : CharBytes (b :: (pre ++ post)))
    (hpost : post ≠ []) (hrest : ∀ x ∈ rest.head?, isTail x = false) :
    malformedLength b (pre ++ rest) = pre.length + 1 := by
  have hstop (hno : ∀ x ∈ rest.head?, isSecond b x = false) : malformedLength b rest = 1 := by
    cases rest with
    | nil => rfl
    | cons r rest => simp [malformedLength, hno r rfl]
  have hnone : malformedLength b rest = 1 := hstop fun x hx => isSecond_false (hrest x hx)
  have hone {x : UInt8} (hx : isSecond b x = true) : malformedLength b (x :: rest) = 2 := by
    cases rest with
    | nil => simp [malformedLength, hx]
    | cons r rest => simp [malformedLength, hx, hrest r rfl]
  generalize hbs : pre ++ post = bs at h
  cases h with
  | one _ => exact absurd (List.append_eq_nil_iff.mp hbs).2 hpost
  | two _ _ _ =>
    match pre, hbs with
    | [], _ => exact hnone
    | x :: pre, hbs => simp [hpost] at hbs
  | three _ _ hsecond _ _ =>
    match pre, hbs with
    | [], _ => exact hnone
    | [x], hbs =>
      obtain ⟨rfl, _⟩ := List.cons.inj hbs
      exact hone hsecond
    | x :: y :: pre, hbs => simp [hpost] at hbs
  | four _ hsecond _ hy _ =>
    match pre, hbs with
    | [], _ => exact hnone
    | [x], hbs =>
      obtain ⟨rfl, _⟩ := List.cons.inj hbs
      exact hone hsecond
    | [x, y], hbs =>
      simp only [List.cons_append, List.cons.injEq] at hbs
      obtain ⟨rfl, rfl, _⟩ := hbs
      simp [malformedLength, hsecond, hy]
    | x :: y :: z :: pre, hbs => simp [hpost] at hbs

end CharBytes

section Decode
variable {c : Char} {b : UInt8} {bs rest : List UInt8}

theorem encodeChar_cons (c : Char) : ∃ b bs, String.utf8EncodeChar c = b :: bs ∧
    CharBytes (b :: bs) ∧ bs.length + 1 = c.utf8Size := by
  have hbytes := charBytes c
  have hlength := String.length_utf8EncodeChar c
  generalize String.utf8EncodeChar c = bytes at hbytes hlength
  cases bytes with
  | nil => cases hbytes
  | cons b bs => exact ⟨b, bs, rfl, hbytes, hlength⟩

theorem decodeChar_eq_some {bytes : List UInt8}
    (h : bytes.toByteArray.utf8DecodeChar? 0 = some c) :
    ∃ rest, bytes = String.utf8EncodeChar c ++ rest := by
  obtain ⟨l, hl⟩ := ByteArray.exists_of_utf8DecodeChar?_eq_some h
  exact ⟨l.data.toList, by simpa using congrArg (fun b => b.data.toList) hl⟩

theorem decode_append (c : Char) (rest : List UInt8) :
    decode (String.utf8EncodeChar c ++ rest) = c :: decode rest := by
  obtain ⟨b, bs, hbytes, _, hlength⟩ := encodeChar_cons c
  have hnext : next b (bs ++ rest) = (c, c.utf8Size) := by
    have hdecode : (b :: (bs ++ rest)).toByteArray.utf8DecodeChar? 0 = some c := by
      rw [← List.cons_append, ← hbytes, List.toByteArray_append]
      exact ByteArray.utf8DecodeChar?_utf8EncodeChar_append
    rw [next, hdecode]
  have hsize : c.utf8Size - 1 = bs.length := by omega
  rw [hbytes, List.cons_append, decode_cons, hnext, hsize, List.drop_left]

theorem decode_encode_append (cs : List Char) (rest : List UInt8) :
    decode (encode cs ++ rest) = cs ++ decode rest := by
  induction cs with
  | nil => rfl
  | cons c cs ih =>
    rw [encode_cons, List.append_assoc, decode_append, ih, List.cons_append]

theorem decode_encode (cs : List Char) : decode (encode cs) = cs := by
  simpa [decode, decodeFrom] using decode_encode_append cs []

/-- Each tail that no character precedes is one replacement. -/
theorem decode_tails {tails : List UInt8} (h : ∀ x ∈ tails, isTail x = true) (rest : List UInt8) :
    decode (tails ++ rest) = List.replicate tails.length replacement ++ decode rest := by
  induction tails with
  | nil => rfl
  | cons x tails ih =>
    have hx : isTail x = true := h x List.mem_cons_self
    have hnone : (x :: (tails ++ rest)).toByteArray.utf8DecodeChar? 0 = none := by
      rw [Option.eq_none_iff_forall_ne_some]
      intro c hc
      obtain ⟨rest', hrest'⟩ := decodeChar_eq_some hc
      obtain ⟨b, bs, hbytes, hform, _⟩ := encodeChar_cons c
      rw [hbytes, List.cons_append] at hrest'
      obtain ⟨rfl, _⟩ := List.cons.inj hrest'
      rw [hform.head] at hx
      cases hx
    have hlength : malformedLength x (tails ++ rest) = 1 := CharBytes.malformedLength_tail hx _
    have hnext : next x (tails ++ rest) = (replacement, 1) := by
      rw [next, hnone, hlength]
    rw [List.cons_append, decode_cons, hnext, Nat.sub_self, List.drop_zero,
      ih fun y hy => h y (List.mem_cons_of_mem _ hy)]
    rfl

theorem tails_of_cut {pre post : List UInt8} (hbytes : String.utf8EncodeChar c = pre ++ post)
    (hpre : pre ≠ []) : ∀ x ∈ post, isTail x = true := by
  obtain ⟨b, pre, rfl⟩ := List.exists_cons_of_ne_nil hpre
  have hform : CharBytes (b :: (pre ++ post)) := by
    rw [← List.cons_append, ← hbytes]
    exact charBytes c
  exact fun x hx => hform.tails x (List.mem_append_right _ hx)

theorem decode_cut {pre post : List UInt8} (hbytes : String.utf8EncodeChar c = pre ++ post)
    (hpre : pre ≠ []) (hpost : post ≠ []) (rest : List UInt8)
    (hrest : ∀ x ∈ rest.head?, isTail x = false) :
    decode (pre ++ rest) = replacement :: decode rest := by
  obtain ⟨b, pre, rfl⟩ := List.exists_cons_of_ne_nil hpre
  have hform : CharBytes (b :: (pre ++ post)) := by
    rw [← List.cons_append, ← hbytes]
    exact charBytes c
  have hnone : (b :: (pre ++ rest)).toByteArray.utf8DecodeChar? 0 = none := by
    rw [Option.eq_none_iff_forall_ne_some]
    intro d hd
    obtain ⟨rest', hrest'⟩ := decodeChar_eq_some hd
    obtain ⟨b', bs, hbytes', hform', _⟩ := encodeChar_cons d
    rw [hbytes', List.cons_append] at hrest'
    obtain ⟨rfl, hsame⟩ := List.cons.inj hrest'
    -- the character has as many bytes as the one that was cut, so the next byte would be a tail
    have hlength := hform.length_eq hform'
    rw [List.length_append] at hlength
    have hpos := List.length_pos_of_ne_nil hpost
    have hlt : pre.length < bs.length := by omega
    have hnext : rest.head? = some bs[pre.length] := by
      have hget := congrArg (fun l => l[pre.length]?) hsame
      simp only [List.getElem?_append_right (Nat.le_refl _), Nat.sub_self,
        List.getElem?_append_left hlt, List.getElem?_eq_getElem hlt] at hget
      rw [List.head?_eq_getElem?, hget]
    have htail := hform'.tails _ (List.getElem_mem hlt)
    rw [hrest _ hnext] at htail
    cases htail
  have hnext : next b (pre ++ rest) = (replacement, pre.length + 1) := by
    rw [next, hnone, hform.malformedLength_eq hpost hrest]
  rw [List.cons_append, decode_cons, hnext, Nat.add_sub_cancel, List.drop_left]

end Decode

section Blocks
variable {n : Nat} {cs : List Char}

/-- Bytes cut into blocks of a size, of which the last may be shorter. -/
def blocks (n : Nat) (bytes : List UInt8) : List (List UInt8) :=
  if n = 0 ∨ bytes = [] then [] else bytes.take n :: blocks n (bytes.drop n)
termination_by bytes.length
decreasing_by
  rename_i h
  rw [not_or] at h
  have hpos := List.length_pos_of_ne_nil h.2
  rw [List.length_drop]
  omega

def decodeBlocks (n : Nat) (bytes : List UInt8) : List Char := (blocks n bytes).flatMap decode

/-- From an offset on, each character has its first and its last byte in one block. -/
def AlignedFrom (n offset : Nat) (cs : List Char) : Prop :=
  ∀ a c b, cs = a ++ c :: b →
    (offset + (encode a).length) / n = (offset + (encode a).length + c.utf8Size - 1) / n

def Aligned (n : Nat) (cs : List Char) : Prop := AlignedFrom n 0 cs

theorem decodeBlocks_append {head rest : List UInt8} (hn : 0 < n) (hhead : head.length = n) :
    decodeBlocks n (head ++ rest) = decode head ++ decodeBlocks n rest := by
  have hne : ¬ (n = 0 ∨ head ++ rest = []) := by
    intro h
    obtain h | h := h
    · omega
    · rw [(List.append_eq_nil_iff.mp h).1] at hhead
      simp at hhead
      omega
  rw [decodeBlocks, blocks, if_neg hne, ← hhead, List.take_left, List.drop_left, List.flatMap_cons]
  rfl

theorem decodeBlocks_short {bytes : List UInt8} (hn : 0 < n) (hshort : bytes.length ≤ n) :
    decodeBlocks n bytes = decode bytes := by
  by_cases hnil : bytes = []
  · subst hnil
    rw [decodeBlocks, blocks, if_pos (.inr rfl)]
    rfl
  · have hne : ¬ (n = 0 ∨ bytes = []) := by
      rw [not_or]
      exact ⟨by omega, hnil⟩
    rw [decodeBlocks, blocks, if_neg hne, List.take_of_length_le hshort,
      List.drop_eq_nil_of_le hshort, blocks, if_pos (.inr rfl)]
    simp

theorem exists_fitting (k : Nat) (cs : List Char) : ∃ a b, cs = a ++ b ∧ (encode a).length ≤ k ∧
    ∀ c ∈ b.head?, k < (encode a).length + c.utf8Size := by
  induction cs generalizing k with
  | nil => exact ⟨[], [], rfl, Nat.zero_le k, by simp⟩
  | cons c cs ih =>
    by_cases hfits : c.utf8Size ≤ k
    · obtain ⟨a, b, rfl, hle, hnext⟩ := ih (k - c.utf8Size)
      refine ⟨c :: a, b, rfl, ?_, fun d hd => ?_⟩
      · rw [length_encode_cons]
        omega
      · have hlt := hnext d hd
        rw [length_encode_cons]
        omega
    · refine ⟨[], c :: cs, rfl, Nat.zero_le k, fun d hd => ?_⟩
      cases hd
      exact Nat.lt_of_not_le (by simpa [encode] using hfits)

theorem cut_cases (cs : List Char) {k : Nat} (hk : k ≤ (encode cs).length) :
    (∃ a b, cs = a ++ b ∧ (encode a).length = k) ∨
      ∃ a c b pre post, cs = a ++ c :: b ∧ String.utf8EncodeChar c = pre ++ post ∧ pre ≠ [] ∧
        post ≠ [] ∧ (encode a).length + pre.length = k := by
  obtain ⟨a, b, rfl, hfits, hnext⟩ := exists_fitting k cs
  by_cases hclean : (encode a).length = k
  · exact .inl ⟨a, b, rfl, hclean⟩
  · cases b with
    | nil =>
      rw [List.append_nil] at hk
      omega
    | cons c b =>
      have hover := hnext c rfl
      let j := k - (encode a).length
      have hpre : ((String.utf8EncodeChar c).take j).length = j := by
        rw [List.length_take, String.length_utf8EncodeChar]
        omega
      have hpost : 0 < ((String.utf8EncodeChar c).drop j).length := by
        rw [List.length_drop, String.length_utf8EncodeChar]
        omega
      exact .inr ⟨a, c, b, _, _, rfl, (List.take_append_drop j _).symm,
        List.ne_nil_of_length_pos (by omega), List.ne_nil_of_length_pos hpost, by omega⟩

theorem alignedFrom_of_short {offset : Nat} (hshort : offset + (encode cs).length ≤ n) :
    AlignedFrom n offset cs := by
  intro a c b hcs
  have hpos := c.utf8Size_pos
  rw [hcs, encode_append, List.length_append, length_encode_cons] at hshort
  rw [Nat.div_eq_of_lt (by omega), Nat.div_eq_of_lt (by omega)]

theorem alignedFrom_append {offset : Nat} {a b : List Char} (hn : 0 < n)
    (hfull : offset + (encode a).length = n) :
    AlignedFrom n offset (a ++ b) ↔ AlignedFrom n 0 b := by
  have hshift (x : Nat) : (n + x) / n = x / n + 1 := Nat.add_div_left x hn
  constructor
  · intro haligned a' c b' hb
    have hdiv := haligned (a ++ a') c b' (by rw [hb, List.append_assoc])
    have hpos := c.utf8Size_pos
    rw [encode_append, List.length_append, ← Nat.add_assoc, hfull, Nat.add_assoc,
      Nat.add_sub_assoc (by omega), hshift, hshift] at hdiv
    rw [Nat.zero_add]
    omega
  · intro haligned a' c b' hcs
    have hpos := c.utf8Size_pos
    obtain ⟨d, ha', hb⟩ | ⟨d, ha, hd⟩ := List.append_eq_append_iff.mp hcs
    · have hdiv := haligned d c b' hb
      rw [ha', encode_append, List.length_append, ← Nat.add_assoc, hfull, Nat.add_assoc,
        Nat.add_sub_assoc (by omega), hshift, hshift]
      rw [Nat.zero_add] at hdiv
      omega
    · cases d with
      | nil =>
        have hdiv := haligned [] c b' (by simpa using hd.symm)
        rw [ha, List.append_nil] at hfull
        have hzero : (encode []).length = 0 := rfl
        rw [hzero, Nat.zero_add, Nat.zero_add, Nat.zero_div] at hdiv
        rw [hfull, Nat.add_sub_assoc (by omega), hshift, Nat.div_self hn, ← hdiv]
      | cons c' d =>
        obtain ⟨rfl, _⟩ := List.cons.inj hd
        have hshort : offset + (encode a).length ≤ n := Nat.le_of_eq hfull
        exact alignedFrom_of_short hshort a' c d ha

theorem not_alignedFrom_of_cut {offset : Nat} {a b : List Char} {c : Char} {pre post : List UInt8}
    (hn : 0 < n) (hcut : String.utf8EncodeChar c = pre ++ post) (hpre : pre ≠ [])
    (hpost : post ≠ []) (hfull : offset + (encode a).length + pre.length = n) :
    ¬ AlignedFrom n offset (a ++ c :: b) := by
  intro haligned
  have hsize := String.length_utf8EncodeChar c
  have hprepos := List.length_pos_of_ne_nil hpre
  have hpostpos := List.length_pos_of_ne_nil hpost
  rw [hcut, List.length_append] at hsize
  have hlow : (offset + (encode a).length) / n = 0 := Nat.div_eq_of_lt (by omega)
  have hhigh : 0 < (offset + (encode a).length + c.utf8Size - 1) / n :=
    Nat.div_pos (by omega) hn
  have hdiv := haligned a c b rfl
  omega

/-- Texts that follow at most three tails: if their characters are aligned they read back, else
there are more characters than there were. -/
theorem decodeBlocks_tails (hn : 3 < n) (tails : List UInt8) (htails : ∀ x ∈ tails, isTail x = true)
    (hfew : tails.length < 4) (cs : List Char) :
    (AlignedFrom n tails.length cs → decodeBlocks n (tails ++ encode cs) =
        List.replicate tails.length replacement ++ cs) ∧
      (¬ AlignedFrom n tails.length cs →
        tails.length + cs.length < (decodeBlocks n (tails ++ encode cs)).length) := by
  induction hbytes : (tails ++ encode cs).length using Nat.strongRecOn
    generalizing tails cs with
  | _ m ih =>
    rw [List.length_append] at hbytes
    by_cases hshort : tails.length + (encode cs).length ≤ n
    · refine ⟨fun _ => ?_, fun hno => absurd (alignedFrom_of_short hshort) hno⟩
      rw [decodeBlocks_short (by omega) (by rwa [List.length_append]), decode_tails htails,
        decode_encode]
    obtain ⟨a, b, rfl, hfull⟩ | ⟨a, c, b, pre, post, rfl, hcut, hpre, hpost, hfull⟩ :=
      cut_cases cs (k := n - tails.length) (by omega)
    · have hhead : (tails ++ encode a).length = n := by
        rw [List.length_append]
        omega
      rw [encode_append, List.length_append] at hbytes
      obtain ⟨hgood, hbad⟩ := ih (encode b).length (by omega) [] (by simp) (by simp) b rfl
      rw [encode_append, ← List.append_assoc, decodeBlocks_append (by omega) hhead,
        decode_tails htails, decode_encode, alignedFrom_append (by omega) (by omega)]
      refine ⟨fun haligned => ?_, fun hno => ?_⟩
      · rw [List.append_assoc]
        exact congrArg _ (congrArg _ (hgood haligned))
      · have hlonger := hbad hno
        simp only [List.length_nil, List.nil_append, Nat.zero_add] at hlonger
        simp only [List.length_append, List.length_replicate]
        omega
    · have hsize := c.utf8Size_le_four
      have hlength := String.length_utf8EncodeChar c
      have hprepos := List.length_pos_of_ne_nil hpre
      rw [hcut, List.length_append] at hlength
      have hhead : (tails ++ (encode a ++ pre)).length = n := by
        rw [List.length_append, List.length_append]
        omega
      have hsplit : tails ++ encode (a ++ c :: b) =
          tails ++ (encode a ++ pre) ++ (post ++ encode b) := by
        rw [encode_append, encode_cons, hcut]
        simp only [List.append_assoc]
      have hrest : (post ++ encode b).length < m := by
        rw [← List.length_append, hsplit, List.length_append, hhead] at hbytes
        omega
      have hreplaced := decode_cut hcut hpre hpost [] (by simp)
      rw [List.append_nil] at hreplaced
      obtain ⟨hgood, hbad⟩ := ih _ hrest post (tails_of_cut hcut hpre) (by omega) b rfl
      -- the bytes after the cut give at least one character each
      have hmany : post.length + b.length ≤ (decodeBlocks n (post ++ encode b)).length := by
        by_cases haligned : AlignedFrom n post.length b
        · have hread := congrArg List.length (hgood haligned)
          rw [List.length_append, List.length_replicate] at hread
          exact Nat.le_of_eq hread.symm
        · exact Nat.le_of_lt (hbad haligned)
      have hpostpos := List.length_pos_of_ne_nil hpost
      refine ⟨fun haligned => ?_, fun _ => ?_⟩
      · exact absurd haligned
          (not_alignedFrom_of_cut (by omega) hcut hpre hpost (by omega))
      · rw [hsplit, decodeBlocks_append (by omega) hhead, decode_tails htails,
          decode_encode_append, hreplaced]
        simp only [List.length_append, List.length_replicate, List.length_cons]
        omega

/-- A text is read back block by block exactly if no block cuts a character. -/
theorem decodeBlocks_encode_iff (hn : 3 < n) : decodeBlocks n (encode cs) = cs ↔ Aligned n cs := by
  obtain ⟨hgood, hbad⟩ := decodeBlocks_tails hn [] (by simp) (by simp) cs
  constructor
  · intro hsame
    by_contra hno
    have hlonger := hbad hno
    rw [List.nil_append, hsame] at hlonger
    simp at hlonger
  · exact hgood

end Blocks

section Units
variable {c : Char} {s rest : List UInt16}

def isHigh (u : UInt16) : Bool := 0xD800 ≤ u.toNat ∧ u.toNat < 0xDC00

def isLow (u : UInt16) : Bool := 0xDC00 ≤ u.toNat ∧ u.toNat < 0xE000

/-- One code unit, or two for a character outside the basic plane. -/
def utf16Char (c : Char) : List UInt16 :=
  if c.toNat < 0x10000 then [.ofNat c.toNat]
  else
    [.ofNat (0xD800 + (c.toNat - 0x10000) / 0x400), .ofNat (0xDC00 + (c.toNat - 0x10000) % 0x400)]

def utf16 (cs : List Char) : List UInt16 := cs.flatMap utf16Char

theorem utf16_append (a b : List Char) : utf16 (a ++ b) = utf16 a ++ utf16 b :=
  List.flatMap_append

/-- A code unit on its own; a surrogate is no character. -/
def unit (u : UInt16) : Option Char :=
  if isHigh u || isLow u then none else some (.ofNat u.toNat)

/-- The characters of a sequence of code units, with `none` for a surrogate without its partner. -/
def codePoints : List UInt16 → List (Option Char)
  | [] => []
  | [u] => [unit u]
  | u :: v :: rest =>
    if isHigh u && isLow v then
      some (.ofNat (0x10000 + (u.toNat - 0xD800) * 0x400 + (v.toNat - 0xDC00))) :: codePoints rest
    else unit u :: codePoints (v :: rest)

theorem codePoints_cons {u : UInt16} (h : isHigh u = false) :
    codePoints (u :: rest) = unit u :: codePoints rest := by
  cases rest with
  | nil => rfl
  | cons v rest => simp [codePoints, h]

theorem codePoints_append {u : UInt16} (hu : isLow u = false) (s rest : List UInt16) :
    codePoints (s ++ u :: rest) = codePoints s ++ codePoints (u :: rest) := by
  fun_induction codePoints s with
  | case1 => rfl
  | case2 v => simp [codePoints, hu]
  | case3 v w s hpair ih => simpa [codePoints, hpair] using ih
  | case4 v w s hpair ih => simpa [codePoints, hpair] using ih

theorem toNat_valid (c : Char) : c.toNat < 0xD800 ∨ 0xDFFF < c.toNat ∧ c.toNat < 0x110000 :=
  c.valid

theorem toNat_charOfNat {n : Nat} (h : n < 0xD800 ∨ 0xDFFF < n ∧ n < 0x110000) :
    (Char.ofNat n).toNat = n := by
  rw [Char.ofNat, dif_pos h]
  rfl

theorem codePoints_utf16Char_append (c : Char) (rest : List UInt16) :
    codePoints (utf16Char c ++ rest) = some c :: codePoints rest := by
  have hvalid := toNat_valid c
  by_cases hbasic : c.toNat < 0x10000
  · have hu : (UInt16.ofNat c.toNat).toNat = c.toNat := UInt16.toNat_ofNat_of_lt' hbasic
    have hhigh : isHigh (.ofNat c.toNat) = false := by
      simp [isHigh, hu]
      omega
    have hlow : isLow (.ofNat c.toNat) = false := by
      simp [isLow, hu]
      omega
    rw [utf16Char, if_pos hbasic, List.cons_append, codePoints_cons hhigh]
    simp [unit, hhigh, hlow, hu]
  · have hu : (UInt16.ofNat (0xD800 + (c.toNat - 0x10000) / 0x400)).toNat = _ :=
      UInt16.toNat_ofNat_of_lt' (show _ < 65536 by omega)
    have hv : (UInt16.ofNat (0xDC00 + (c.toNat - 0x10000) % 0x400)).toNat = _ :=
      UInt16.toNat_ofNat_of_lt' (show _ < 65536 by omega)
    have hhigh : isHigh (.ofNat (0xD800 + (c.toNat - 0x10000) / 0x400)) = true := by
      rw [isHigh, hu, decide_eq_true_eq]
      omega
    have hlow : isLow (.ofNat (0xDC00 + (c.toNat - 0x10000) % 0x400)) = true := by
      rw [isLow, hv, decide_eq_true_eq]
      omega
    have hback : 0x10000 + (0xD800 + (c.toNat - 0x10000) / 0x400 - 0xD800) * 0x400 +
        (0xDC00 + (c.toNat - 0x10000) % 0x400 - 0xDC00) = c.toNat := by omega
    simp only [utf16Char, if_neg hbasic, List.cons_append, List.nil_append, codePoints, hhigh, hlow,
      Bool.and_self, if_true, hu, hv, hback, Char.ofNat_toNat]

theorem codePoints_utf16_append (cs : List Char) (rest : List UInt16) :
    codePoints (utf16 cs ++ rest) = cs.map some ++ codePoints rest := by
  induction cs with
  | nil => rfl
  | cons c cs ih =>
    have hcons : utf16 (c :: cs) ++ rest = utf16Char c ++ (utf16 cs ++ rest) :=
      List.append_assoc _ _ _
    rw [hcons, codePoints_utf16Char_append, ih]
    rfl

theorem codePoints_utf16 (cs : List Char) : codePoints (utf16 cs) = cs.map some := by
  simpa [codePoints] using codePoints_utf16_append cs []

theorem utf16_injective : Function.Injective utf16 := by
  intro a b h
  have hpoints := congrArg codePoints h
  rw [codePoints_utf16, codePoints_utf16] at hpoints
  exact List.map_injective_iff.mpr (fun _ _ h => Option.some.inj h) hpoints

theorem utf16Char_of_unit {u : UInt16} (h : unit u = some c) : utf16Char c = [u] := by
  have hu := u.toNat_lt
  unfold unit at h
  split at h
  · cases h
  · rename_i hbasic
    cases h
    simp only [isHigh, isLow, Bool.or_eq_true, decide_eq_true_eq] at hbasic
    have hc := toNat_charOfNat (n := u.toNat) (by omega)
    rw [utf16Char, hc, if_pos hu, UInt16.ofNat_toNat]

theorem utf16Char_of_pair {u v : UInt16} (hhigh : isHigh u = true) (hlow : isLow v = true) :
    utf16Char (.ofNat (0x10000 + (u.toNat - 0xD800) * 0x400 + (v.toNat - 0xDC00))) = [u, v] := by
  simp only [isHigh, isLow, decide_eq_true_eq] at hhigh hlow
  have hc := toNat_charOfNat
    (n := 0x10000 + (u.toNat - 0xD800) * 0x400 + (v.toNat - 0xDC00)) (by omega)
  have hu : 0xD800 + (0x10000 + (u.toNat - 0xD800) * 0x400 + (v.toNat - 0xDC00) - 0x10000) / 0x400 =
      u.toNat := by omega
  have hv : 0xDC00 + (0x10000 + (u.toNat - 0xD800) * 0x400 + (v.toNat - 0xDC00) - 0x10000) % 0x400 =
      v.toNat := by omega
  rw [utf16Char, hc, if_neg (by omega), hu, hv, UInt16.ofNat_toNat, UInt16.ofNat_toNat]

theorem eq_utf16 {cs : List Char} (h : codePoints s = cs.map some) : s = utf16 cs := by
  have hcons (c : Char) (cs : List Char) : utf16 (c :: cs) = utf16Char c ++ utf16 cs := rfl
  fun_induction codePoints s generalizing cs with
  | case1 =>
    rw [List.map_eq_nil_iff.mp h.symm]
    rfl
  | case2 u =>
    obtain ⟨c, cs, rfl, hc, hcs⟩ := List.map_eq_cons_iff.mp h.symm
    rw [List.map_eq_nil_iff.mp hcs, hcons, utf16Char_of_unit hc.symm]
    rfl
  | case3 u v rest hpair ih =>
    obtain ⟨c, cs, rfl, hc, hcs⟩ := List.map_eq_cons_iff.mp h.symm
    rw [Bool.and_eq_true] at hpair
    rw [hcons, Option.some.inj hc, utf16Char_of_pair hpair.1 hpair.2, ih hcs.symm]
    rfl
  | case4 u v rest hpair ih =>
    obtain ⟨c, cs, rfl, hc, hcs⟩ := List.map_eq_cons_iff.mp h.symm
    rw [hcons, utf16Char_of_unit hc.symm, ih hcs.symm]
    rfl

end Units

example : decode [0x61, 0xC3, 0xA9, 0xC3] = ['a', 'é', replacement] := by decide +kernel

end InsightsAssist.Unicode
