import Mathlib.Data.List.Basic

/-! Flat documents of markup: a root element whose elements hold text. The text is written
character by character and read between the tags. -/
namespace InsightsAssist.Markup

/-- The name and the text of an element. -/
abbrev Element := List Char × List Char

def startTag (name : List Char) : List Char := '<' :: (name ++ ['>'])

def endTag (name : List Char) : List Char := '<' :: '/' :: (name ++ ['>'])

def element (escape : Char → List Char) (e : Element) : List Char :=
  startTag e.1 ++ e.2.flatMap escape ++ endTag e.1

def document (escape : Char → List Char) (root : List Char) (elements : List Element) :
    List Char :=
  startTag root ++ elements.flatMap (element escape) ++ endTag root

def IsName (name : List Char) : Prop := name ≠ [] ∧ ∀ c ∈ name, c.isAlpha

-- by the list: left to be found, the instance may go through every character there is
instance (name : List Char) : Decidable (IsName name) :=
  @instDecidableAnd _ _ _ (List.decidableBAll _ name)

/-! ### Reading -/

/-- The text before the first `sep` and the text behind it. -/
def cut (sep : Char) (text : List Char) : Option (List Char × List Char) :=
  if sep ∈ text then some (text.takeWhile (· ≠ sep), (text.dropWhile (· ≠ sep)).tail) else none

/-- The elements up to the end tag of the root, from the pieces behind the opening brackets. -/
def readElements (unescape : List Char → Option (List Char)) (close : List Char) :
    List (List Char) → Option (List Element)
  | [] => none
  | [last] => if last = close then some [] else none
  | first :: second :: rest => do
    let (name, text) ← cut '>' first
    if second = '/' :: (name ++ ['>']) then
      let value ← unescape text
      let elements ← readElements unescape close rest
      return (name, value) :: elements
    else none

def read (unescape : List Char → Option (List Char)) (root text : List Char) :
    Option (List Element) :=
  match text.splitOn '<' with
  | [] :: first :: rest =>
    if first = root ++ ['>'] then readElements unescape ('/' :: (root ++ ['>'])) rest else none
  | _ => none

section Documents
variable {escape : Char → List Char} {unescape : List Char → Option (List Char)}
  {root name a b : List Char} {elements : List Element} {c sep : Char}

theorem IsName.not_mem (h : IsName name) (hc : c.isAlpha = false) : c ∉ name := by
  intro hmem
  simp [h.2 c hmem] at hc

theorem cut_append (h : sep ∉ a) : cut sep (a ++ sep :: b) = some (a, b) := by
  have hall : ∀ x ∈ a, decide (x ≠ sep) = true := by
    intro x hx
    rw [decide_eq_true_iff]
    exact fun heq => h (heq ▸ hx)
  rw [cut, if_pos (by simp), List.takeWhile_append_of_pos hall, List.dropWhile_append_of_pos hall]
  simp

def pieces (escape : Char → List Char) (e : Element) : List (List Char) :=
  [e.1 ++ '>' :: e.2.flatMap escape, '/' :: (e.1 ++ ['>'])]

theorem splitOn_cons_tag (a b : List Char) (h : '<' ∉ a) :
    (a ++ '<' :: b).splitOn '<' = a :: b.splitOn '<' :=
  List.splitOn_append_cons_self_of_not_mem h b

theorem splitOn_elements (hescape : ∀ c, '<' ∉ escape c) (hnames : ∀ e ∈ elements, IsName e.1)
    (ha : '<' ∉ a) (hb : '<' ∉ b) :
    (a ++ elements.flatMap (element escape) ++ '<' :: b).splitOn '<' =
      a :: (elements.flatMap (pieces escape) ++ [b]) := by
  induction elements generalizing a with
  | nil =>
    rw [List.flatMap_nil, List.append_nil, splitOn_cons_tag a b ha, List.splitOn_eq_singleton hb]
    rfl
  | cons e elements ih =>
    have hname := (hnames e (by simp)).not_mem (c := '<') rfl
    have htext : '<' ∉ e.1 ++ '>' :: e.2.flatMap escape := by simp [hname, hescape]
    have hclose : '<' ∉ '/' :: (e.1 ++ ['>']) := by simp [hname]
    have hsplit := ih (fun e he => hnames e (by simp [he])) hclose
    have hshape : a ++ (e :: elements).flatMap (element escape) ++ '<' :: b =
        a ++ '<' :: ((e.1 ++ '>' :: e.2.flatMap escape) ++ '<' :: ('/' :: (e.1 ++ ['>']) ++
          elements.flatMap (element escape) ++ '<' :: b)) := by
      simp [element, startTag, endTag]
    rw [hshape, splitOn_cons_tag a _ ha, splitOn_cons_tag _ _ htext, hsplit]
    simp [pieces]

theorem readElements_pieces (close : List Char) (hnames : ∀ e ∈ elements, IsName e.1) :
    readElements unescape close (elements.flatMap (pieces escape) ++ [close]) =
      elements.mapM fun e => (unescape (e.2.flatMap escape)).map (e.1, ·) := by
  induction elements with
  | nil => simp [readElements]
  | cons e elements ih =>
    have hname := (hnames e (by simp)).not_mem (c := '>') rfl
    have hrest := ih fun e he => hnames e (by simp [he])
    simp only [List.flatMap_cons, pieces, List.cons_append, List.nil_append, readElements,
      cut_append hname, List.mapM_cons, ← hrest, Option.bind_eq_bind, Option.bind_some, if_true]
    cases unescape (e.2.flatMap escape) <;> rfl

theorem read_document (hescape : ∀ c, '<' ∉ escape c) (hroot : IsName root)
    (hnames : ∀ e ∈ elements, IsName e.1) :
    read unescape root (document escape root elements) =
      elements.mapM fun e => (unescape (e.2.flatMap escape)).map (e.1, ·) := by
  have hname := hroot.not_mem (c := '<') rfl
  have hshape : document escape root elements = [] ++ '<' :: (root ++ ['>'] ++
      elements.flatMap (element escape) ++ '<' :: ('/' :: (root ++ ['>']))) := by
    simp [document, startTag, endTag]
  rw [read, hshape, splitOn_cons_tag _ _ List.not_mem_nil,
    splitOn_elements hescape hnames (by simp [hname]) (by simp [hname])]
  simp only [if_true]
  exact readElements_pieces _ hnames

end Documents

/-! ### The characters and entities of XML -/
namespace Xml
variable {c : Char}

/-- The production Char of XML 1.0. -/
def isChar (c : Char) : Bool :=
  let n := c.toNat
  n = 0x9 || n = 0xA || n = 0xD || (0x20 ≤ n && n ≤ 0xD7FF) || (0xE000 ≤ n && n ≤ 0xFFFD)
    || 0x10000 ≤ n

def escape (c : Char) : List Char :=
  if c = '&' then "&amp;".toList
  else if c = '<' then "&lt;".toList
  else if c = '>' then "&gt;".toList
  else if c = '"' then "&quot;".toList
  else if c = '\'' then "&apos;".toList
  else if c = '\r' then "&#x0D;".toList
  else if c = '\x00' then "&#x0;".toList
  else [c]

/-- A reference to another character than these is not read. -/
def unescape : List Char → Option (List Char)
  | [] => some []
  | '&' :: 'a' :: 'm' :: 'p' :: ';' :: rest => (unescape rest).map ('&' :: ·)
  | '&' :: 'l' :: 't' :: ';' :: rest => (unescape rest).map ('<' :: ·)
  | '&' :: 'g' :: 't' :: ';' :: rest => (unescape rest).map ('>' :: ·)
  | '&' :: 'q' :: 'u' :: 'o' :: 't' :: ';' :: rest => (unescape rest).map ('"' :: ·)
  | '&' :: 'a' :: 'p' :: 'o' :: 's' :: ';' :: rest => (unescape rest).map ('\'' :: ·)
  | '&' :: '#' :: 'x' :: '0' :: 'D' :: ';' :: rest => (unescape rest).map ('\r' :: ·)
  | c :: rest => if c ≠ '&' ∧ isChar c then (unescape rest).map (c :: ·) else none

theorem unescape_cons (h : c ≠ '&') (rest : List Char) :
    unescape (c :: rest) = if isChar c then (unescape rest).map (c :: ·) else none := by
  rw [unescape] <;> simp_all

theorem unescape_escape (c : Char) (rest : List Char) :
    unescape (escape c ++ rest) = if isChar c then (unescape rest).map (c :: ·) else none := by
  by_cases hspecial : c ∈ ['&', '<', '>', '"', '\'', '\r', '\x00']
  · simp only [List.mem_cons, List.not_mem_nil, or_false] at hspecial
    obtain rfl | rfl | rfl | rfl | rfl | rfl | rfl := hspecial <;> rfl
  · simp only [List.mem_cons, List.not_mem_nil, or_false, not_or] at hspecial
    have hself : escape c = [c] := by simp [escape, hspecial]
    rw [hself]
    exact unescape_cons hspecial.1 rest

theorem unescape_flatMap_escape (text : List Char) :
    unescape (text.flatMap escape) = if text.all isChar then some text else none := by
  induction text with
  | nil => simp [unescape]
  | cons c text ih =>
    rw [List.flatMap_cons, unescape_escape, ih]
    by_cases hc : isChar c <;> by_cases htext : text.all isChar <;> simp_all

theorem bracket_not_mem_escape (c : Char) : '<' ∉ escape c := by
  unfold escape
  split_ifs <;> simp_all [eq_comm]

theorem mem_escape {d : Char} (h : d ∈ escape c) : d = c ∨ (d ≠ ' ' ∧ d ≠ '\n') := by
  unfold escape at h
  split_ifs at h <;> simp at h <;> grind

end Xml
end InsightsAssist.Markup
