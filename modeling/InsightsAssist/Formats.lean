import Mathlib.Data.List.TakeDrop
import InsightsAssist.JavaStrings

/-! What `String.format` returns without arguments. -/
namespace InsightsAssist.Java

/-- What stands for a specifier: its conversion is the last character in front of the rest. A
percent sign is written without its width. -/
def conversion (cs rest : List Char) : Char :=
  if cs[cs.length - rest.length - 1]? = some '%' then '%' else '\n'

/-- `n` bounds the length. -/
def formatWithin : Nat → List Char → Option (List Char)
  | _, [] => some []
  | 0, _ => none
  | n + 1, '%' :: cs =>
    match specifier cs with
    | some rest => (formatWithin n rest).map (conversion cs rest :: ·)
    | none => none
  | n + 1, c :: cs => (formatWithin n cs).map (c :: ·)

/-- None where it throws. -/
def format (template : List Char) : Option (List Char) := formatWithin template.length template

inductive Formatted : List Char → List Char → Prop where
  | nil : Formatted [] []
  | char {c : Char} {cs text : List Char} (hc : c ≠ '%') (h : Formatted cs text) :
      Formatted (c :: cs) (c :: text)
  | specifier {cs rest text : List Char} (hrest : specifier cs = some rest)
      (h : Formatted rest text) : Formatted ('%' :: cs) (conversion cs rest :: text)

section Specifiers
variable {cs rest a b u v : List Char} {p : Char → Bool} {c : Char}

def afterIndex (cs : List Char) : List Char :=
  match cs.span Char.isDigit with
  | (_ :: _, '$' :: rest) => rest
  | _ => cs

theorem afterIndex_cases (cs : List Char) :
    (∃ index rest, cs = index ++ '$' :: rest ∧ afterIndex cs = rest) ∨ afterIndex cs = cs := by
  unfold afterIndex
  rw [List.span_eq_takeWhile_dropWhile]
  split
  · rename_i d ds rest heq
    simp only [Prod.mk.injEq] at heq
    refine .inl ⟨cs.takeWhile Char.isDigit, rest, ?_, rfl⟩
    rw [← heq.2, List.takeWhile_append_dropWhile]
  · exact .inr rfl

theorem takeWhile_append_cons (hc : p c = false) :
    (u ++ c :: v).takeWhile p = u.takeWhile p := by
  induction u with
  | nil => simp [hc]
  | cons d u ih =>
    rw [List.cons_append, List.takeWhile_cons, List.takeWhile_cons, ih]

theorem dropWhile_append_cons (hc : p c = false) :
    (u ++ c :: v).dropWhile p = u.dropWhile p ++ c :: v := by
  induction u with
  | nil => simp [hc]
  | cons d u ih =>
    rw [List.cons_append, List.dropWhile_cons, List.dropWhile_cons, ih]
    split <;> rfl

theorem afterIndex_append (a b : List Char) :
    afterIndex (a ++ ' ' :: b) = afterIndex a ++ ' ' :: b := by
  unfold afterIndex
  rw [List.span_eq_takeWhile_dropWhile, List.span_eq_takeWhile_dropWhile,
    takeWhile_append_cons (by decide), dropWhile_append_cons (by decide)]
  cases htake : a.takeWhile Char.isDigit with
  | nil => rfl
  | cons d ds =>
    cases hdrop : a.dropWhile Char.isDigit with
    | nil => rfl
    | cons c cs =>
      by_cases hc : c = '$'
      · subst hc
        rfl
      · simp [hc]

def flags (cs : List Char) : List Char := ((afterIndex cs).span isFlag).1

def width (cs : List Char) : List Char := (((afterIndex cs).span isFlag).2.span Char.isDigit).1

def afterWidth (cs : List Char) : List Char :=
  (((afterIndex cs).span isFlag).2.span Char.isDigit).2

theorem specifier_eq (cs : List Char) : specifier cs =
    match afterWidth cs with
    | '%' :: rest =>
      if flags cs = [] ∨ (flags cs = ['-'] ∧ hasWidth (width cs)) then some rest else none
    | 'n' :: rest => if flags cs = [] ∧ !hasWidth (width cs) then some rest else none
    | _ => none := rfl

theorem flags_eq : flags cs = (afterIndex cs).takeWhile isFlag := by
  rw [flags, List.span_eq_takeWhile_dropWhile]

theorem width_eq : width cs = ((afterIndex cs).dropWhile isFlag).takeWhile Char.isDigit := by
  rw [width, List.span_eq_takeWhile_dropWhile, List.span_eq_takeWhile_dropWhile]

theorem afterWidth_eq :
    afterWidth cs = ((afterIndex cs).dropWhile isFlag).dropWhile Char.isDigit := by
  rw [afterWidth, List.span_eq_takeWhile_dropWhile, List.span_eq_takeWhile_dropWhile]

theorem specifier_append (a b : List Char) :
    specifier (a ++ ' ' :: b) = (specifier a).map (· ++ ' ' :: b) := by
  rw [specifier_eq, specifier_eq]
  by_cases hall : ∀ c ∈ afterIndex a, isFlag c
  · have hnone : afterWidth a = [] := by
      rw [afterWidth_eq, List.dropWhile_eq_nil_iff.mpr hall]
      rfl
    have hblank : ' ' ∈ flags (a ++ ' ' :: b) := by
      rw [flags_eq, afterIndex_append, List.takeWhile_append_of_pos hall]
      simp [isFlag]
    have hflags : flags (a ++ ' ' :: b) ≠ [] ∧ flags (a ++ ' ' :: b) ≠ ['-'] := by
      constructor <;>
      · intro hflags
        rw [hflags] at hblank
        simp at hblank
    rw [hnone]
    simp only [hflags.1, hflags.2, false_and, or_self, if_false]
    split <;> rfl
  · obtain ⟨u, c, v, hsplit, hc⟩ : ∃ u c v, afterIndex a = u ++ c :: v ∧ isFlag c = false := by
      simp only [not_forall] at hall
      obtain ⟨c, hmem, hc⟩ := hall
      obtain ⟨u, v, huv⟩ := List.append_of_mem hmem
      exact ⟨u, c, v, huv, by simpa using hc⟩
    have hindex : afterIndex (a ++ ' ' :: b) = u ++ c :: (v ++ ' ' :: b) := by
      rw [afterIndex_append, hsplit, List.append_assoc, List.cons_append]
    have hflags : flags (a ++ ' ' :: b) = flags a := by
      rw [flags_eq, flags_eq, hindex, hsplit, takeWhile_append_cons hc, takeWhile_append_cons hc]
    have hdrop : (afterIndex (a ++ ' ' :: b)).dropWhile isFlag =
        (afterIndex a).dropWhile isFlag ++ ' ' :: b := by
      rw [hindex, hsplit, dropWhile_append_cons hc, dropWhile_append_cons hc, List.append_assoc,
        List.cons_append]
    have hwidth : width (a ++ ' ' :: b) = width a := by
      rw [width_eq, width_eq, hdrop, takeWhile_append_cons (by decide)]
    have hafter : afterWidth (a ++ ' ' :: b) = afterWidth a ++ ' ' :: b := by
      rw [afterWidth_eq, afterWidth_eq, hdrop, dropWhile_append_cons (by decide)]
    rw [hflags, hwidth, hafter]
    cases hrest : afterWidth a with
    | nil => rfl
    | cons c cs =>
      rw [List.cons_append]
      split
      · rename_i heq
        cases heq
        split <;> rfl
      · rename_i heq
        cases heq
        split <;> rfl
      · rename_i hpercent hn
        split
        · rename_i heq
          cases heq
          exact absurd rfl (hpercent _)
        · rename_i heq
          cases heq
          exact absurd rfl (hn _)
        · rfl

theorem specifier_split (h : specifier cs = some rest) :
    ∃ front, cs = front ++ '%' :: rest ∨ cs = front ++ 'n' :: rest := by
  have hafter : ∃ front, cs = front ++ afterWidth cs := by
    have hparts : (afterIndex cs).takeWhile isFlag ++ (width cs ++ afterWidth cs) =
        afterIndex cs := by
      rw [width_eq, afterWidth_eq, List.takeWhile_append_dropWhile, List.takeWhile_append_dropWhile]
    rcases afterIndex_cases cs with ⟨index, rest, hcs, hindex⟩ | hindex
    · refine ⟨index ++ '$' :: ((afterIndex cs).takeWhile isFlag ++ width cs), ?_⟩
      rw [List.append_assoc, List.cons_append, List.append_assoc, hparts, hindex]
      exact hcs
    · refine ⟨(afterIndex cs).takeWhile isFlag ++ width cs, ?_⟩
      rw [List.append_assoc, hparts, hindex]
  obtain ⟨front, hfront⟩ := hafter
  rw [specifier_eq] at h
  refine ⟨front, ?_⟩
  split at h
  · rename_i heq
    rw [heq] at hfront
    split at h
    · cases h
      exact .inl hfront
    · cases h
  · rename_i heq
    rw [heq] at hfront
    split at h
    · cases h
      exact .inr hfront
    · cases h
  · cases h

theorem conversion_split (c : Char) (a rest : List Char) :
    conversion (a ++ c :: rest) rest = if c = '%' then '%' else '\n' := by
  have hindex : (a ++ c :: rest).length - rest.length - 1 = a.length := by
    rw [List.length_append, List.length_cons]
    omega
  rw [conversion, hindex, List.getElem?_append_right (le_refl _)]
  simp

theorem length_specifier (h : specifier cs = some rest) : rest.length < cs.length := by
  obtain ⟨front, rfl | rfl⟩ := specifier_split h <;>
  · rw [List.length_append, List.length_cons]
    omega

end Specifiers

section Texts
variable {template text a b : List Char} {n : Nat}

theorem formatWithin_isSome : (formatWithin n template).isSome = formatsWithin n template := by
  induction n generalizing template with
  | zero => cases template <;> rfl
  | succ n ih =>
    cases template with
    | nil => rfl
    | cons c cs =>
      by_cases hc : c = '%'
      · subst hc
        rw [formatWithin, formatsWithin]
        cases specifier cs with
        | none => rfl
        | some rest => simp [ih]
      · rw [formatWithin, formatsWithin]
        · simp [ih]
        · exact hc
        · exact hc

theorem formatted_of_formatWithin (h : formatWithin n template = some text) :
    Formatted template text := by
  induction n generalizing template text with
  | zero =>
    cases template with
    | nil =>
      cases h
      exact .nil
    | cons c cs => cases h
  | succ n ih =>
    cases template with
    | nil =>
      cases h
      exact .nil
    | cons c cs =>
      by_cases hc : c = '%'
      · subst hc
        rw [formatWithin] at h
        cases hrest : specifier cs with
        | none => simp [hrest] at h
        | some rest =>
          simp only [hrest] at h
          obtain ⟨text', htext', rfl⟩ := Option.map_eq_some_iff.mp h
          exact .specifier hrest (ih htext')
      · rw [formatWithin] at h
        · obtain ⟨text', htext', rfl⟩ := Option.map_eq_some_iff.mp h
          exact .char hc (ih htext')
        · exact hc

theorem formatWithin_of_formatted (h : Formatted template text) (hn : template.length ≤ n) :
    formatWithin n template = some text := by
  induction h generalizing n with
  | nil => cases n <;> rfl
  | @char c cs text hc _ ih =>
    cases n with
    | zero => cases hn
    | succ n =>
      rw [formatWithin, ih (Nat.le_of_succ_le_succ hn)]
      · rfl
      · exact hc
  | @specifier cs rest text hrest _ ih =>
    cases n with
    | zero => cases hn
    | succ n =>
      have hcs : cs.length ≤ n := Nat.le_of_succ_le_succ hn
      have hlength : rest.length ≤ n := le_trans (le_of_lt (length_specifier hrest)) hcs
      rw [formatWithin, hrest]
      simp only [ih hlength, Option.map_some]

theorem format_eq_some : format template = some text ↔ Formatted template text :=
  ⟨formatted_of_formatWithin, fun h => formatWithin_of_formatted h (le_refl _)⟩

theorem formats_iff : formats template ↔ ∃ text, Formatted template text := by
  rw [formats, ← formatWithin_isSome, Option.isSome_iff_exists]
  exact exists_congr fun text => format_eq_some

theorem formatted_of_no_percent (h : '%' ∉ template) : Formatted template template := by
  induction template with
  | nil => exact .nil
  | cons c template ih =>
    rw [List.mem_cons, not_or] at h
    exact .char (Ne.symm h.1) (ih h.2)

theorem eq_of_no_percent (h : '%' ∉ template) (htext : Formatted template text) :
    text = template := by
  have hsame := format_eq_some.mpr (formatted_of_no_percent h)
  rw [format_eq_some.mpr htext] at hsame
  exact Option.some.inj hsame

theorem count_formatted (h : Formatted template text) :
    text.count '%' ≤ template.count '%' ∧
      ('%' ∈ template → text.count '%' < template.count '%') := by
  induction h with
  | nil => simp
  | @char c cs text hc _ ih =>
    rw [List.count_cons_of_ne hc, List.count_cons_of_ne hc]
    refine ⟨ih.1, fun hmem => ih.2 ?_⟩
    exact (List.mem_cons.mp hmem).resolve_left (Ne.symm hc)
  | @specifier cs rest text hrest _ ih =>
    have hlt : (conversion cs rest :: text).count '%' < ('%' :: cs).count '%' := by
      obtain ⟨front, rfl | rfl⟩ := specifier_split hrest
      · rw [conversion_split, if_pos rfl, List.count_cons_self, List.count_cons_self,
          List.count_append, List.count_cons_self]
        omega
      · rw [conversion_split, if_neg (by decide), List.count_cons_of_ne (by decide),
          List.count_cons_self, List.count_append, List.count_cons_of_ne (by decide)]
        omega
    exact ⟨le_of_lt hlt, fun _ => hlt⟩

theorem formatted_append : Formatted (a ++ ' ' :: b) text ↔
    ∃ x y, Formatted a x ∧ Formatted b y ∧ text = x ++ ' ' :: y := by
  constructor
  · intro h
    generalize htemplate : a ++ ' ' :: b = template at h
    induction h generalizing a with
    | nil => simp at htemplate
    | @char c cs text hc h ih =>
      cases a with
      | nil =>
        rw [List.nil_append, List.cons.injEq] at htemplate
        obtain ⟨rfl, rfl⟩ := htemplate
        exact ⟨[], text, .nil, h, rfl⟩
      | cons d a =>
        rw [List.cons_append, List.cons.injEq] at htemplate
        obtain ⟨rfl, htemplate⟩ := htemplate
        obtain ⟨x, y, hx, hy, rfl⟩ := ih htemplate
        exact ⟨d :: x, y, .char hc hx, hy, rfl⟩
    | @specifier cs rest text hrest _ ih =>
      cases a with
      | nil => simp at htemplate
      | cons d a =>
        rw [List.cons_append, List.cons.injEq] at htemplate
        obtain ⟨rfl, rfl⟩ := htemplate
        rw [specifier_append] at hrest
        obtain ⟨r, hr, rfl⟩ := Option.map_eq_some_iff.mp hrest
        obtain ⟨x, y, hx, hy, rfl⟩ := ih rfl
        refine ⟨conversion a r :: x, y, .specifier hr hx, hy, ?_⟩
        obtain ⟨front, rfl | rfl⟩ := specifier_split hr <;>
        · rw [List.append_assoc, List.cons_append, conversion_split, conversion_split]
          rfl
  · rintro ⟨x, y, hx, hy, rfl⟩
    induction hx with
    | nil => exact .char (by decide) hy
    | char hc _ ih => exact .char hc ih
    | @specifier cs rest text hrest _ ih =>
      have happend := specifier_append cs b
      rw [hrest, Option.map_some] at happend
      have hconversion : conversion cs rest = conversion (cs ++ ' ' :: b) (rest ++ ' ' :: b) := by
        obtain ⟨front, rfl | rfl⟩ := specifier_split hrest <;>
        · rw [List.append_assoc, List.cons_append, conversion_split, conversion_split]
      rw [List.cons_append, List.cons_append, hconversion]
      exact .specifier happend ih

end Texts
end InsightsAssist.Java
