import Mathlib.Algebra.GroupWithZero.Nat
import Mathlib.Data.List.Basic

/-! Quoted texts. A text is taken token by token, each of them standing for some characters, up to
a closing character at which no token begins; then lists of quoted texts behind separators. -/
namespace InsightsAssist
variable {α : Type}

/-- The text `t` is a token that stands for `v`, whatever follows. -/
def Takes (token : List α → Option (List α × List α)) (t v : List α) : Prop :=
  t ≠ [] ∧ ∀ rest, token (t ++ rest) = some (v, rest)

/-- How texts are quoted: the value of the first token of a text and what is left of the text. -/
structure Quoting (α : Type) where
  close : α
  token : List α → Option (List α × List α)
  decided : ∀ {text v rest}, token text = some (v, rest) → ∃ t, Takes token t v ∧ text = t ++ rest
  shortens : ∀ {t v}, Takes token t v → v.length ≤ t.length
  verbatim : ∀ {t v}, Takes token t v → v.length = t.length → v = t

/-- What the tokens are, if every text begins with one of them or with none. -/
theorem takes_iff_of {token : List α → Option (List α × List α)} {isToken : List α → List α → Prop}
    (htakes : ∀ {t v}, isToken t v → Takes token t v)
    (hdecided : ∀ {text v rest}, token text = some (v, rest) → ∃ t, isToken t v ∧ text = t ++ rest)
    {t v : List α} : Takes token t v ↔ isToken t v := by
  constructor
  · intro h
    obtain ⟨t', htoken, heq⟩ := hdecided (h.2 [])
    rw [List.append_nil, List.append_nil] at heq
    exact heq ▸ htoken
  · exact htakes

namespace Quoting
variable (q : Quoting α)

/-- The tokens of `text` stand for `value`. -/
inductive Encodes : List α → List α → Prop where
  | nil : Encodes [] []
  | cons {t v text value : List α} : Takes q.token t v → Encodes text value →
      Encodes (t ++ text) (v ++ value)

/-- Before `rest` the closing character closes. -/
def Ends (rest : List α) : Prop := q.token (q.close :: rest) = none

def writeList (encode : List α → List α) : List (List α) → List (List α) → List α
  | separator :: separators, value :: values =>
    separator ++ encode value ++ q.close :: writeList encode separators values
  | _, _ => []

/-- No token ends beyond the closing character before this separator. -/
def Separates (separator : List α) : Prop := ∀ rest, q.Ends (separator ++ rest)

/-- No token takes `x` together with other characters. -/
def Alone (x : α) : Prop := ∀ t v, Takes q.token t v → x ∈ t → t = [x]

/-- Each value is the text it was written as, or this text is free of `x` and quoted by itself. -/
def Recovers (x : α) : List (List α) → List (List α) → Prop :=
  List.Forall₂ fun text value => value = text ∨ q.Encodes text text ∧ x ∉ text

variable {q} {t v text value rest more : List α}

theorem Encodes.measure {μ : List α → Nat} (hadd : ∀ a b, μ (a ++ b) = μ a + μ b)
    (htakes : ∀ t v, Takes q.token t v → μ v ≤ μ t) (h : q.Encodes text value) :
    μ value ≤ μ text := by
  induction h with
  | nil => exact Nat.le_refl _
  | @cons t v text value htake _ ih =>
    rw [hadd, hadd]
    exact Nat.add_le_add (htakes t v htake) ih

theorem Encodes.length_le (h : q.Encodes text value) : value.length ≤ text.length :=
  h.measure (fun _ _ => List.length_append) fun _ _ => q.shortens

theorem Encodes.verbatim (h : q.Encodes text value) (hlength : value.length = text.length) :
    value = text := by
  induction h with
  | nil => rfl
  | @cons t v text value htake hrest ih =>
    have hv := q.shortens htake
    have hvalue := hrest.length_le
    rw [List.length_append, List.length_append] at hlength
    rw [q.verbatim htake (by omega), ih (by omega)]

theorem Encodes.split {x : α} (halone : q.Alone x) {a b : List α}
    (h : q.Encodes (a ++ x :: b) value) : ∃ v, q.Encodes (x :: b) v := by
  generalize htext : a ++ x :: b = text at h
  induction h generalizing a with
  | nil => simp at htext
  | @cons t v text value htake hrest ih =>
    obtain ⟨c, rfl, heq⟩ | ⟨c, rfl, heq⟩ := List.append_eq_append_iff.mp htext
    · cases c with
      | nil => exact ih (a := []) heq
      | cons y c =>
        cases heq
        have hx := halone _ v htake (by simp)
        obtain ⟨rfl, rfl⟩ : a = [] ∧ c = [] := by
          have hlength := congrArg List.length hx
          simp only [List.length_append, List.length_cons, List.length_nil] at hlength
          exact ⟨List.eq_nil_of_length_eq_zero (by omega), List.eq_nil_of_length_eq_zero (by omega)⟩
        exact ⟨v ++ value, .cons htake hrest⟩
    · exact ih heq.symm

theorem length_rest (h : q.token text = some (v, rest)) : rest.length < text.length := by
  obtain ⟨t, ⟨hne, _⟩, rfl⟩ := q.decided h
  have hpos := List.length_pos_of_ne_nil hne
  rw [List.length_append]
  omega

theorem ends_written {encode : List α → List α} {separators values : List (List α)}
    (hseparates : ∀ separator ∈ separators, q.Separates separator) (hends : q.Ends rest) :
    q.Ends (q.writeList encode separators values ++ rest) := by
  cases separators with
  | nil => exact hends
  | cons separator separators =>
    cases values with
    | nil => exact hends
    | cons value values =>
      rw [writeList, List.append_assoc, List.append_assoc]
      exact hseparates separator (by simp) _

theorem measure_written {μ : List α → Nat} (hadd : ∀ a b, μ (a ++ b) = μ a + μ b)
    {separators values : List (List α)} (hlength : separators.length = values.length) :
    μ (q.writeList id separators values) = μ values.flatten +
      (separators.map fun separator => μ separator + μ [q.close]).sum := by
  induction separators generalizing values with
  | nil =>
    cases values with
    | nil => simp [writeList]
    | cons => cases hlength
  | cons separator separators ih =>
    cases values with
    | nil => cases hlength
    | cons value values =>
      have hclose : μ (q.close :: q.writeList id separators values) =
        μ [q.close] + μ (q.writeList id separators values) := hadd [q.close] _
      have hrest := ih (Nat.succ.inj hlength)
      simp only [writeList, id, List.flatten_cons, List.map_cons, List.sum_cons, hadd, hclose,
        hrest]
      omega

theorem mem_written {encode : List α → List α} {separators values : List (List α)} {x : α}
    (h : x ∈ q.writeList encode separators values) :
    (∃ separator ∈ separators, x ∈ separator) ∨ (∃ value ∈ values, x ∈ encode value) ∨
      x = q.close := by
  induction separators generalizing values with
  | nil => cases h
  | cons separator separators ih =>
    cases values with
    | nil => cases h
    | cons value values =>
      simp only [writeList, List.mem_append, List.mem_cons] at h
      obtain (hseparator | hvalue) | rfl | hrest := h
      · exact .inl ⟨separator, by simp, hseparator⟩
      · exact .inr (.inl ⟨value, by simp, hvalue⟩)
      · exact .inr (.inr rfl)
      · obtain ⟨s, hs, hx⟩ | ⟨v, hv, hx⟩ | rfl := ih hrest
        · exact .inl ⟨s, List.mem_cons_of_mem _ hs, hx⟩
        · exact .inr (.inl ⟨v, List.mem_cons_of_mem _ hv, hx⟩)
        · exact .inr (.inr rfl)

theorem mem_written_of_value {encode : List α → List α} {separators values : List (List α)} {x : α}
    (hlength : separators.length = values.length) (hvalue : value ∈ values)
    (hx : x ∈ encode value) : x ∈ q.writeList encode separators values := by
  induction separators generalizing values with
  | nil =>
    cases values with
    | nil => cases hvalue
    | cons => cases hlength
  | cons separator separators ih =>
    cases values with
    | nil => cases hvalue
    | cons first values =>
      rw [writeList, List.mem_append, List.mem_append, List.mem_cons]
      obtain rfl | hrest := List.mem_cons.mp hvalue
      · exact .inl (.inr hx)
      · exact .inr (.inr (ih (Nat.succ.inj hlength) hrest))

variable (q) [DecidableEq α]

def finish : List α → Option (List α × List α)
  | [] => none
  | a :: rest => if a = q.close then some ([], rest) else none

/-- The value of a quoted text, from after its opening on, and what follows its end. -/
def read (text : List α) : Option (List α × List α) :=
  match _htoken : q.token text with
  | some (v, rest) => (read rest).map fun (value, rest) => (v ++ value, rest)
  | none => q.finish text
termination_by text.length
decreasing_by exact length_rest _htoken

def readList : List (List α) → List α → Option (List (List α) × List α)
  | [], text => some ([], text)
  | separator :: separators, text => do
    let text ← text.dropPrefix? separator
    let (value, text) ← q.read text
    let (values, rest) ← readList separators text
    return (value :: values, rest)

def readWhole (separators : List (List α)) (foot text : List α) : Option (List (List α)) := do
  let (values, rest) ← q.readList separators text
  if rest = foot then some values else none

variable {q}

theorem read_of_token (h : q.token text = some (v, rest)) :
    q.read text = (q.read rest).map fun (value, rest) => (v ++ value, rest) := by
  rw [read]
  split
  · rename_i htoken
    cases h.symm.trans htoken
    rfl
  · rename_i htoken
    cases h.symm.trans htoken

theorem read_of_no_token (h : q.token text = none) : q.read text = q.finish text := by
  rw [read]
  split
  · rename_i htoken
    cases h.symm.trans htoken
  · rfl

theorem read_of_encodes (h : q.Encodes text value) (hends : q.Ends rest) :
    q.read (text ++ q.close :: rest) = some (value, rest) := by
  induction h with
  | nil =>
    rw [List.nil_append, read_of_no_token hends]
    exact if_pos rfl
  | cons htakes _ ih =>
    rw [List.append_assoc, read_of_token (htakes.2 _), ih]
    rfl

theorem encodes_of_read (h : q.read text = some (value, rest)) :
    ∃ t, q.Encodes t value ∧ q.Ends rest ∧ text = t ++ q.close :: rest := by
  induction text using Quoting.read.induct q generalizing value with
  | case1 text v rest' htoken ih =>
    rw [read_of_token htoken, Option.map_eq_some_iff] at h
    obtain ⟨⟨value', rest⟩, hread, heq⟩ := h
    cases heq
    obtain ⟨t, hencodes, hends, rfl⟩ := ih hread
    obtain ⟨t', htakes, rfl⟩ := q.decided htoken
    exact ⟨t' ++ t, .cons htakes hencodes, hends, (List.append_assoc ..).symm⟩
  | case2 text htoken =>
    rw [read_of_no_token htoken] at h
    cases text with
    | nil => cases h
    | cons a text =>
      obtain ⟨rfl, heq⟩ := ite_eq_iff.mp h |>.resolve_right (by simp)
      cases heq
      exact ⟨[], .nil, htoken, rfl⟩

/-- A text is read up to the first closing character between its tokens. -/
theorem read_eq_some_iff : q.read text = some (value, rest) ↔
    ∃ t, q.Encodes t value ∧ q.Ends rest ∧ text = t ++ q.close :: rest := by
  constructor
  · exact encodes_of_read
  · rintro ⟨t, hencodes, hends, rfl⟩
    exact read_of_encodes hencodes hends

theorem read_append (hclose : ∀ rest, q.Ends rest) (h : q.read text = some (value, rest))
    (more : List α) : q.read (text ++ more) = some (value, rest ++ more) := by
  obtain ⟨t, hencodes, _, rfl⟩ := read_eq_some_iff.mp h
  rw [List.append_assoc, List.cons_append]
  exact read_of_encodes hencodes (hclose _)

theorem read_self (h : q.read (value ++ q.close :: more) = some (value, rest)) :
    (q.Encodes value value ∧ rest = more) ∨ (rest <:+ more ∧ rest.length < more.length) := by
  obtain ⟨t, hencodes, _, heq⟩ := read_eq_some_iff.mp h
  have hle := hencodes.length_le
  have hlength := congrArg List.length heq
  simp only [List.length_append, List.length_cons] at hlength
  by_cases hsame : value.length = t.length
  · obtain ⟨rfl, hrest⟩ := List.append_inj heq hsame
    cases hrest
    exact .inl ⟨hencodes, rfl⟩
  · have hrest : rest <:+ value ++ q.close :: more := heq ▸ ⟨t ++ [q.close], by simp⟩
    have hmore : more <:+ value ++ q.close :: more := ⟨value ++ [q.close], by simp⟩
    have hshort : rest.length < more.length := by omega
    exact .inr ⟨List.suffix_of_suffix_length_le hrest hmore (Nat.le_of_lt hshort), hshort⟩

/-! ### Lists of quoted texts -/

theorem readList_cons {separator : List α} {separators values : List (List α)} :
    q.readList (separator :: separators) text = some (values, rest) ↔
      ∃ text' value text'' values', text = separator ++ text' ∧
        q.read text' = some (value, text'') ∧
        q.readList separators text'' = some (values', rest) ∧ values = value :: values' := by
  simp only [readList, Option.bind_eq_bind, Option.bind_eq_some_iff,
    List.dropPrefix?_eq_some_iff, Prod.exists, beq_iff_eq]
  constructor
  · rintro ⟨text', ⟨_, htext, rfl⟩, value, text'', hread, values', rest', hlist, heq⟩
    cases heq
    exact ⟨text', value, text'', values', htext, hread, hlist, rfl⟩
  · rintro ⟨text', value, text'', values', htext, hread, hlist, rfl⟩
    exact ⟨text', ⟨_, htext, rfl⟩, value, text'', hread, values', rest, hlist, rfl⟩

theorem readList_written {encode : List α → List α} {separators values : List (List α)}
    (hlength : separators.length = values.length)
    (hseparates : ∀ separator ∈ separators, q.Separates separator)
    (hencodes : ∀ value ∈ values, q.Encodes (encode value) value) (hends : q.Ends rest) :
    q.readList separators (q.writeList encode separators values ++ rest) = some (values, rest) := by
  induction separators generalizing values with
  | nil =>
    cases values with
    | nil => rfl
    | cons => cases hlength
  | cons separator separators ih =>
    cases values with
    | nil => cases hlength
    | cons value values =>
      rw [List.forall_mem_cons] at hseparates hencodes
      refine readList_cons.mpr
        ⟨encode value ++ q.close :: (q.writeList encode separators values ++ rest), value, _, _,
          ?_, ?_, ih (Nat.succ.inj hlength) hseparates.2 hencodes.2, rfl⟩
      · simp [writeList]
      · exact read_of_encodes hencodes.1 (ends_written hseparates.2 hends)

theorem readList_measure {μ : List α → Nat} (hadd : ∀ a b, μ (a ++ b) = μ a + μ b)
    (htakes : ∀ t v, Takes q.token t v → μ v ≤ μ t) {separators values : List (List α)}
    (h : q.readList separators text = some (values, rest)) :
    μ values.flatten + (separators.map fun separator => μ separator + μ [q.close]).sum + μ rest ≤
      μ text := by
  induction separators generalizing text values with
  | nil =>
    cases h
    have hnil : μ [] = 0 := by have := hadd [] []; simpa using this
    simp [hnil]
  | cons separator separators ih =>
    obtain ⟨text', value, text'', values', rfl, hread, hlist, rfl⟩ := readList_cons.mp h
    obtain ⟨t, hencodes, _, rfl⟩ := read_eq_some_iff.mp hread
    have hvalue := hencodes.measure hadd htakes
    have hrest := ih hlist
    have hclose : μ (q.close :: text'') = μ [q.close] + μ text'' := hadd [q.close] text''
    simp only [List.flatten_cons, hadd, List.map_cons, List.sum_cons, hclose]
    omega

theorem readWhole_eq_some {separators values : List (List α)} {foot : List α} :
    q.readWhole separators foot text = some values ↔
      q.readList separators text = some (values, foot) := by
  rw [readWhole, Option.bind_eq_bind, Option.bind_eq_some_iff]
  constructor
  · rintro ⟨⟨values', rest⟩, hlist, h⟩
    obtain ⟨rfl, heq⟩ := (ite_eq_iff.mp h).resolve_right (by simp)
    cases heq
    exact hlist
  · intro hlist
    exact ⟨_, hlist, if_pos rfl⟩

theorem readList_append (hclose : ∀ rest, q.Ends rest) {separators values : List (List α)}
    (h : q.readList separators text = some (values, rest)) (more : List α) :
    q.readList separators (text ++ more) = some (values, rest ++ more) := by
  induction separators generalizing text values with
  | nil =>
    cases h
    rfl
  | cons separator separators ih =>
    obtain ⟨text', value, text'', values', rfl, hread, hlist, rfl⟩ := readList_cons.mp h
    exact readList_cons.mpr ⟨text' ++ more, value, text'' ++ more, values',
      List.append_assoc .., read_append hclose hread more, ih hlist, rfl⟩

theorem readList_length {separators values : List (List α)}
    (h : q.readList separators text = some (values, rest)) :
    values.length = separators.length := by
  induction separators generalizing text values with
  | nil =>
    cases h
    rfl
  | cons separator separators ih =>
    obtain ⟨_, _, _, _, _, _, hlist, rfl⟩ := readList_cons.mp h
    exact congrArg (· + 1) (ih hlist)

/-- A character that stands alone, and in no separator, is left over or stands in a value; what
follows this value is read on. -/
theorem readList_alone {x : α} (halone : q.Alone x) (hx : x ≠ q.close)
    {separators values : List (List α)} (hseparators : ∀ separator ∈ separators, x ∉ separator)
    {a b : List α} (h : q.readList separators (a ++ x :: b) = some (values, rest)) :
    x ∈ rest ∨ ∃ value rest', q.read (x :: b) = some (value, rest') ∧
      (rest' = rest ∨ ∃ separator ∈ separators, separator <+: rest') := by
  induction separators generalizing a values with
  | nil =>
    cases h
    exact .inl (by simp)
  | cons separator separators ih =>
    rw [List.forall_mem_cons] at hseparators
    obtain ⟨text', value, text'', values', htext, hread, hlist, rfl⟩ := readList_cons.mp h
    obtain ⟨c, rfl, rfl⟩ : ∃ c, a = separator ++ c ∧ text' = c ++ x :: b := by
      obtain ⟨c, rfl, heq⟩ | ⟨c, rfl, heq⟩ := List.append_eq_append_iff.mp htext
      · cases c with
        | nil => exact ⟨[], by simp, heq.symm⟩
        | cons y c =>
          cases heq
          exact absurd (by simp) hseparators.1
      · exact ⟨c, rfl, heq⟩
    obtain ⟨t, hencodes, hends, htoken⟩ := read_eq_some_iff.mp hread
    obtain ⟨d, rfl, heq⟩ | ⟨d, rfl, heq⟩ := List.append_eq_append_iff.mp htoken
    · cases d with
      | nil => cases heq; exact absurd rfl hx
      | cons y d =>
        cases heq
        obtain ⟨v, hv⟩ := hencodes.split halone
        refine .inr ⟨v, text'', read_of_encodes hv hends, ?_⟩
        cases separators with
        | nil =>
          cases hlist
          exact .inl rfl
        | cons separator' separators =>
          obtain ⟨text₃, _, _, _, rfl, _⟩ := readList_cons.mp hlist
          exact .inr ⟨separator', by simp, List.prefix_append _ _⟩
    · cases d with
      | nil => cases heq; exact absurd rfl hx
      | cons y d =>
        cases heq
        obtain hrest | ⟨value, rest', hvalue, hnext⟩ := ih hseparators.2 hlist
        · exact .inl hrest
        · refine .inr ⟨value, rest', hvalue, hnext.imp_right ?_⟩
          intro ⟨separator', hmem, hprefix⟩
          exact ⟨separator', List.mem_cons_of_mem _ hmem, hprefix⟩

theorem count_lt_of_suffix {x : α} {a b : List α} (h : a <:+ x :: b)
    (hshort : a.length < (x :: b).length) : a.count x < (x :: b).count x := by
  obtain rfl | hsuffix := List.suffix_cons_iff.mp h
  · exact absurd hshort (Nat.lt_irrefl _)
  · rw [List.count_cons_self]
    exact Nat.lt_succ_of_le (hsuffix.sublist.count_le x)

theorem count_values_le {x : α} {texts values : List (List α)}
    (h : q.Recovers x texts values) : texts.flatten.count x ≤ values.flatten.count x := by
  induction h with
  | nil => exact Nat.le_refl _
  | @cons text value texts values hvalue _ ih =>
    have hle : text.count x ≤ value.count x := by
      obtain rfl | ⟨_, hnot⟩ := hvalue
      · exact Nat.le_refl _
      · rw [List.count_eq_zero_of_not_mem hnot]
        exact Nat.zero_le _
    rw [List.flatten_cons, List.flatten_cons, List.count_append, List.count_append]
    exact Nat.add_le_add hle ih

theorem not_overrun {x : α} (hx : ∀ t v, Takes q.token t v → v.count x ≤ t.count x)
    {separators texts values : List (List α)} (hlength : separators.length = texts.length)
    (hstarts : ∀ separator ∈ separators, separator.head? = some x)
    (hvalues : q.Recovers x texts values)
    (hsuffix : text <:+ q.writeList id separators texts ++ rest)
    (hshort : text.length < (q.writeList id separators texts ++ rest).length) :
    q.readList separators text ≠ some (values, rest) := by
  intro hlist
  cases separators with
  | nil =>
    cases hlist
    exact Nat.lt_irrefl _ hshort
  | cons separator separators =>
    cases texts with
    | nil => cases hlength
    | cons first texts =>
      obtain ⟨more, hmore⟩ : ∃ more,
          q.writeList id (separator :: separators) (first :: texts) ++ rest = x :: more := by
        obtain ⟨behind, hhead⟩ := List.head?_eq_some_iff.mp (hstarts separator (by simp))
        simp [writeList, hhead]
      have hlost : text.count x <
          (q.writeList id (separator :: separators) (first :: texts) ++ rest).count x := by
        rw [hmore] at hsuffix hshort ⊢
        exact count_lt_of_suffix hsuffix hshort
      have hread := readList_measure (fun _ _ => List.count_append) hx hlist
      have hwritten : (q.writeList id (separator :: separators) (first :: texts)).count x =
          (first :: texts).flatten.count x + ((separator :: separators).map fun separator =>
            separator.count x + [q.close].count x).sum :=
        measure_written (fun _ _ => List.count_append) hlength
      have hcount := count_values_le hvalues
      rw [List.count_append, hwritten] at hlost
      omega

/-- Texts that are written as they stand, behind separators that begin with `x`. If they are
recovered, none of them needs a quotation: a reading that went beyond a text would take a separator
too many. -/
theorem encodes_of_readList {x : α} (hx : ∀ t v, Takes q.token t v → v.count x ≤ t.count x)
    {separators texts values : List (List α)} (hlength : separators.length = texts.length)
    (hseparates : ∀ separator ∈ separators, q.Separates separator)
    (hstarts : ∀ separator ∈ separators.tail, separator.head? = some x) (hends : q.Ends rest)
    (hvalues : q.Recovers x texts values)
    (h : q.readList separators (q.writeList id separators texts ++ rest) = some (values, rest)) :
    ∀ text ∈ texts, q.Encodes text text := by
  induction hvalues generalizing separators with
  | nil => exact fun _ htext => nomatch htext
  | @cons text value texts values hvalue hvalues ih =>
    cases separators with
    | nil => cases hlength
    | cons separator separators =>
      rw [List.forall_mem_cons] at hseparates
      rw [List.tail_cons] at hstarts
      obtain ⟨text', value', text'', values', htext, hread, hlist, heq⟩ := readList_cons.mp h
      cases heq
      have hthis : text' = text ++ q.close :: (q.writeList id separators texts ++ rest) := by
        rw [writeList, List.append_assoc, List.append_assoc, List.append_cancel_left_eq] at htext
        exact htext.symm
      rw [hthis] at hread
      have hrest : q.Encodes text text ∧ text'' = q.writeList id separators texts ++ rest := by
        obtain rfl | ⟨hencodes, _⟩ := hvalue
        swap
        · rw [read_of_encodes hencodes (ends_written hseparates.2 hends)] at hread
          cases hread
          exact ⟨hencodes, rfl⟩
        obtain hdone | ⟨hsuffix, hshort⟩ := read_self hread
        · exact hdone
        · exact absurd hlist (not_overrun hx (Nat.succ.inj hlength) hstarts hvalues hsuffix hshort)
      rw [List.forall_mem_cons]
      refine ⟨hrest.1, ih (Nat.succ.inj hlength) hseparates.2
        (fun s hs => hstarts s (List.mem_of_mem_tail hs)) ?_⟩
      rw [hrest.2] at hlist
      exact hlist

end Quoting
end InsightsAssist
