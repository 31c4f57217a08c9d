import InsightsAssist.BiMap
import InsightsAssist.Java
import InsightsAssist.JsonTexts
import Mathlib.Data.List.Induction

/-! Values of several classes below one base class as JSON elements: an object is written with the
label of its class, and the label says whose adapter reads it. -/
namespace InsightsAssist.RuntimeTypeAdapterFactory
open Json
variable {κ ρ ν : Type}

/-! ### JSON elements -/

mutual

def getAsString (numbers : Numbers ν) : Value ν → Except Throwable (List Char)
  | .string s => .ok s
  | .number n => .ok (numbers.text n)
  | .bool b => .ok (if b then "true".toList else "false".toList)
  | .array elements => onlyAsString numbers elements
  | .null | .object _ => .error (.external "UnsupportedOperationException")

/-- An array of one element stands for it. -/
def onlyAsString (numbers : Numbers ν) : List (Value ν) → Except Throwable (List Char)
  | [element] => getAsString numbers element
  | _ => .error (.external "IllegalStateException")

end

def getAsJsonObject : Value ν → Except Throwable (List (List Char × Value ν))
  | .object members => .ok members
  | _ => .error (.external "IllegalStateException: Not a JSON Object")

def isJsonNull : Value ν → Bool
  | .null => true
  | _ => false

mutual

/-- `Streams.write`: unless they are asked for, members that are null are left out. -/
def streamed (serializeNulls : Bool) : Value ν → Value ν
  | .array elements => .array (streamedElements serializeNulls elements)
  | .object members => .object (streamedMembers serializeNulls members)
  | .null => .null
  | .bool b => .bool b
  | .number n => .number n
  | .string s => .string s

def streamedElements (serializeNulls : Bool) : List (Value ν) → List (Value ν)
  | [] => []
  | v :: vs => streamed serializeNulls v :: streamedElements serializeNulls vs

def streamedMembers (serializeNulls : Bool) :
    List (List Char × Value ν) → List (List Char × Value ν)
  | [] => []
  | (name, v) :: members =>
    if isJsonNull v && !serializeNulls then streamedMembers serializeNulls members
    else (name, streamed serializeNulls v) :: streamedMembers serializeNulls members

end

def add (members : List (List Char × Value ν)) (name : List Char) (v : Value ν) :
    List (List Char × Value ν) :=
  if (members.lookup name).isSome then members.map fun m => if m.1 = name then (name, v) else m
  else members ++ [(name, v)]

/-! ### Registration -/

structure Classes (κ ρ : Type) where
  getClass : ρ → κ
  getName : κ → String
  toString : κ → String

/-- An adapter of Gson's. An object that it makes has each name once. -/
structure TypeAdapter (ν ρ : Type) where
  toJsonTree : ρ → Except Throwable (Value ν)
  fromJsonTree : Value ν → Except Throwable ρ
  nodup : ∀ r members, toJsonTree r = .ok (.object members) → (members.map Prod.fst).Nodup

structure Factory (κ : Type) where
  baseType : κ
  typeFieldName : List Char
  labelToSubtype : AList fun _ : List Char => κ
  subtypeToLabel : AList fun _ : κ => List Char

variable [DecidableEq κ]

def of (baseType : κ) : Factory κ := ⟨baseType, "type".toList, ∅, ∅⟩

def registerSubtype (type : Option κ) (label : Option (List Char)) : Java (Factory κ) Unit := do
  match type, label with
  | some type, some label =>
    let f ← get
    if type ∈ f.subtypeToLabel ∨ label ∈ f.labelToSubtype then
      throw (.illegalArgument (some "types and labels must be unique"))
    set { f with
      labelToSubtype := f.labelToSubtype.insert label type
      subtypeToLabel := f.subtypeToLabel.insert type label }
  | _, _ => throw .nullPointer

abbrev Registration (κ : Type) := Option κ × Option (List Char)

/-- One call after the other, whether it is refused or not. -/
def registerAll (f : Factory κ) (calls : List (Registration κ)) : Factory κ :=
  calls.foldl (fun f call => ((registerSubtype call.1 call.2).run f).2) f

structure Adapter (κ ν ρ : Type) where
  labelToDelegate : List Char → Option (TypeAdapter ν ρ)
  subtypeToDelegate : κ → Option (TypeAdapter ν ρ)

/-- The maps are copied; the delegates are Gson's for the classes. -/
def create (delegates : κ → TypeAdapter ν ρ) (f : Factory κ) (type : κ) :
    Option (Adapter κ ν ρ) :=
  if type ≠ f.baseType then none
  else some {
    labelToDelegate label := (f.labelToSubtype.lookup label).map delegates
    subtypeToDelegate subtype :=
      if subtype ∈ f.labelToSubtype.entries.map Sigma.snd then some (delegates subtype)
      else none }

/-! ### Reading and writing -/

def read (classes : Classes κ ρ) (numbers : Numbers ν) (f : Factory κ) (a : Adapter κ ν ρ)
    (jsonElement : Value ν) : Except Throwable (Option ρ) :=
  if isJsonNull jsonElement then .ok none
  else do
    let members ← getAsJsonObject jsonElement
    match members.lookup f.typeFieldName with
    | none =>
      throw (.external (s!"cannot deserialize {classes.toString f.baseType} because it does not " ++
        s!"define a field named {String.ofList f.typeFieldName}"))
    | some labelJsonElement =>
      let label ← getAsString numbers labelJsonElement
      match a.labelToDelegate label with
      | none =>
        throw (.external (s!"cannot deserialize {classes.toString f.baseType} subtype named " ++
          s!"{String.ofList label}; did you forget to register a subtype?"))
      | some delegate =>
        let r ← delegate.fromJsonTree (.object (members.filter (·.1 ≠ f.typeFieldName)))
        return some r

/-- The labels are those that the factory has by now. -/
def write (classes : Classes κ ρ) (serializeNulls : Bool) (f : Factory κ) (a : Adapter κ ν ρ)
    (value : Option ρ) : Except Throwable (Value ν) :=
  match value with
  | none => .ok .null
  | some value => do
    let srcType := classes.getClass value
    let label := f.subtypeToLabel.lookup srcType
    match a.subtypeToDelegate srcType with
    | none =>
      throw (.external (s!"cannot serialize {classes.getName srcType}" ++
        "; did you forget to register a subtype?"))
    | some delegate =>
      let jsonTree ← delegate.toJsonTree value
      let jsonObject ← getAsJsonObject jsonTree
      if (jsonObject.lookup f.typeFieldName).isSome then
        throw (.external (s!"cannot serialize {classes.getName srcType} because it already " ++
          s!"defines a field named {String.ofList f.typeFieldName}"))
      match label with
      | none => throw .nullPointer
      | some label =>
        let clone := jsonObject.foldl (fun clone e => add clone e.1 e.2)
          (add [] f.typeFieldName (.string label))
        return streamed serializeNulls (.object clone)

section Registration
variable {f : Factory κ} {calls : List (Registration κ)} {call : Registration κ}

/-- Each label has one class and each class one label. -/
def OneToOne (f : Factory κ) : Prop :=
  ∀ label type, f.labelToSubtype.lookup label = some type ↔
    f.subtypeToLabel.lookup type = some label

structure Extends (f f' : Factory κ) : Prop where
  baseType : f'.baseType = f.baseType
  typeFieldName : f'.typeFieldName = f.typeFieldName
  label : ∀ type label, f.subtypeToLabel.lookup type = some label →
    f'.subtypeToLabel.lookup type = some label

theorem register_cases (f : Factory κ) (call : Registration κ) :
    registerAll f [call] = f ∨ ∃ type label, call = (some type, some label) ∧
      f.subtypeToLabel.lookup type = none ∧ f.labelToSubtype.lookup label = none ∧
      registerAll f [call] = { f with
        labelToSubtype := f.labelToSubtype.insert label type
        subtypeToLabel := f.subtypeToLabel.insert type label } := by
  obtain ⟨_ | type, _ | label⟩ := call
  · exact .inl rfl
  · exact .inl rfl
  · exact .inl rfl
  · by_cases hknown : type ∈ f.subtypeToLabel ∨ label ∈ f.labelToSubtype
    · left
      simp [registerAll, registerSubtype, Prog.run_bind, hknown]
    · right
      refine ⟨type, label, rfl, ?_, ?_, ?_⟩
      · exact AList.lookup_eq_none.mpr fun h => hknown (.inl h)
      · exact AList.lookup_eq_none.mpr fun h => hknown (.inr h)
      · simp [registerAll, registerSubtype, Prog.run_bind, hknown]

theorem registerAll_append {other : List (Registration κ)} :
    registerAll f (calls ++ other) = registerAll (registerAll f calls) other := List.foldl_append

theorem OneToOne.registerAll (h : OneToOne f) (calls : List (Registration κ)) :
    OneToOne (registerAll f calls) := by
  induction calls using List.reverseRecOn with
  | nil => exact h
  | append_singleton calls call ih =>
    rw [registerAll_append]
    generalize RuntimeTypeAdapterFactory.registerAll f calls = g at ih
    rcases register_cases g call with hsame | ⟨type, label, -, htype, hlabel, hnew⟩
    · rwa [hsame]
    · rw [hnew]
      intro l c
      by_cases hl : l = label <;> by_cases hc : c = type
      · subst hl hc
        simp
      · subst hl
        simp only [AList.lookup_insert, AList.lookup_insert_ne hc]
        refine ⟨fun h => absurd (Option.some.inj h).symm hc, fun h => ?_⟩
        rw [(ih l c).mpr h] at hlabel
        cases hlabel
      · subst hc
        simp only [AList.lookup_insert, AList.lookup_insert_ne hl]
        refine ⟨fun h => ?_, fun h => absurd (Option.some.inj h).symm hl⟩
        rw [(ih l c).mp h] at htype
        cases htype
      · simp only [AList.lookup_insert_ne hl, AList.lookup_insert_ne hc]
        exact ih l c

theorem oneToOne_of (baseType : κ) : OneToOne (of baseType) := by simp [OneToOne, of]

theorem OneToOne.exists_biMap (h : OneToOne f) : ∃ m : BiMap (List Char) κ,
    (∀ label, f.labelToSubtype.lookup label = m.get label) ∧
      ∀ type, f.subtypeToLabel.lookup type = m.getKey type := by
  refine ⟨⟨f.labelToSubtype, fun {l l' c} hl hl' => ?_⟩, fun _ => rfl, fun type => ?_⟩
  · rw [h] at hl hl'
    exact Option.some.inj (hl.symm.trans hl')
  · ext label
    rw [BiMap.getKey_eq_some]
    exact (h label type).symm

theorem extends_registerAll (f : Factory κ) (calls : List (Registration κ)) :
    Extends f (registerAll f calls) := by
  induction calls using List.reverseRecOn with
  | nil => exact ⟨rfl, rfl, fun _ _ h => h⟩
  | append_singleton calls call ih =>
    rw [registerAll_append]
    generalize registerAll f calls = g at ih
    rcases register_cases g call with hsame | ⟨type, label, -, htype, -, hnew⟩
    · rwa [hsame]
    · rw [hnew]
      refine ⟨ih.baseType, ih.typeFieldName, fun c l hl => ?_⟩
      have hg := ih.label c l hl
      have hne : c ≠ type := by
        rintro rfl
        rw [htype] at hg
        cases hg
      simpa [AList.lookup_insert_ne hne] using hg

end Registration

section Members
variable {members clone : List (List Char × Value ν)} {name : List Char} {v : Value ν}

theorem lookup_eq_none : members.lookup name = none ↔ name ∉ members.map Prod.fst := by
  simp only [List.lookup_eq_none_iff, bne_iff_ne, List.mem_map, not_exists, not_and]
  exact ⟨fun h p hp he => h p hp he.symm, fun h p hp he => h p hp he.symm⟩

theorem add_of_new (h : name ∉ clone.map Prod.fst) : add clone name v = clone ++ [(name, v)] := by
  rw [add, lookup_eq_none.mpr h]
  exact if_neg Bool.false_ne_true

theorem foldl_add (h : ((clone ++ members).map Prod.fst).Nodup) :
    members.foldl (fun clone e => add clone e.1 e.2) clone = clone ++ members := by
  induction members generalizing clone with
  | nil => rw [List.append_nil]; rfl
  | cons e members ih =>
    have hnew : e.1 ∉ clone.map Prod.fst := by
      rw [List.map_append, List.nodup_append] at h
      exact fun hmem => h.2.2 _ hmem _ (by simp) rfl
    rw [List.foldl_cons, add_of_new hnew, ih (by simpa using h), List.append_assoc]
    rfl

theorem streamedMembers_subset (serializeNulls : Bool) (members : List (List Char × Value ν)) :
    (streamedMembers serializeNulls members).map Prod.fst ⊆ members.map Prod.fst := by
  induction members with
  | nil => exact List.Subset.refl _
  | cons m members ih =>
    obtain ⟨n, v⟩ := m
    rw [streamedMembers]
    split
    · exact List.subset_cons_of_subset _ ih
    · exact List.cons_subset_cons _ ih

end Members

section RoundTrip
variable {classes : Classes κ ρ} {numbers : Numbers ν} {delegates : κ → TypeAdapter ν ρ}
  {f f' : Factory κ} {a : Adapter κ ν ρ} {serializeNulls : Bool} {r : ρ} {element : Value ν}

theorem create_eq_some {type : κ} (h : create delegates f type = some a) :
    (∀ label, a.labelToDelegate label = (f.labelToSubtype.lookup label).map delegates) ∧
      ∀ subtype, a.subtypeToDelegate subtype =
        if subtype ∈ f.labelToSubtype.entries.map Sigma.snd then some (delegates subtype)
        else none := by
  rw [create] at h
  split at h
  · cases h
  · cases h
    exact ⟨fun _ => rfl, fun _ => rfl⟩

theorem mem_subtypes (h : OneToOne f) {type : κ} :
    type ∈ f.labelToSubtype.entries.map Sigma.snd ↔
      ∃ label, f.subtypeToLabel.lookup type = some label := by
  simp only [← h _ type, List.mem_map]
  constructor
  · rintro ⟨⟨label, c⟩, he, rfl⟩
    exact ⟨label, AList.mem_lookup_iff.mpr he⟩
  · rintro ⟨label, he⟩
    exact ⟨⟨label, type⟩, AList.mem_lookup_iff.mp he, rfl⟩

theorem subtypeToDelegate_eq_some (h : OneToOne f) {type subtype : κ} {delegate : TypeAdapter ν ρ}
    (ha : create delegates f type = some a) :
    a.subtypeToDelegate subtype = some delegate ↔
      (∃ label, f.subtypeToLabel.lookup subtype = some label) ∧ delegate = delegates subtype := by
  obtain ⟨-, hsubtypes⟩ := create_eq_some ha
  simp only [hsubtypes, Option.ite_none_right_eq_some, mem_subtypes h, Option.some.injEq]
  exact and_congr_right fun _ => eq_comm

theorem bind_eq_ok {α β : Type} {x : Except Throwable α} {g : α → Except Throwable β} {b : β} :
    x >>= g = .ok b ↔ ∃ a, x = .ok a ∧ g a = .ok b := by
  cases x with
  | error e => simp [bind, Except.bind]
  | ok a => simp [bind, Except.bind]

theorem getAsJsonObject_eq_ok {members : List (List Char × Value ν)} :
    getAsJsonObject element = .ok members ↔ element = .object members := by
  cases element <;> simp [getAsJsonObject]

theorem clone_eq {members : List (List Char × Value ν)} {name label : List Char}
    (hnodup : (members.map Prod.fst).Nodup) (hfield : name ∉ members.map Prod.fst) :
    members.foldl (fun clone e => add clone e.1 e.2) (add [] name (.string label)) =
      (name, .string label) :: members := by
  have hfirst : add [] name (.string label : Value ν) = [(name, .string label)] := rfl
  rw [hfirst, foldl_add]
  · rfl
  · exact List.nodup_cons.mpr ⟨hfield, hnodup⟩

theorem write_eq_ok_iff (h : OneToOne f) (hext : Extends f f') {type : κ}
    (ha : create delegates f type = some a) :
    write classes serializeNulls f' a (some r) = .ok element ↔ ∃ label members,
      f.subtypeToLabel.lookup (classes.getClass r) = some label ∧
      (delegates (classes.getClass r)).toJsonTree r = .ok (.object members) ∧
      f.typeFieldName ∉ members.map Prod.fst ∧
      element = .object ((f.typeFieldName, .string label) ::
        streamedMembers serializeNulls members) := by
  rw [write]
  cases hdelegate : a.subtypeToDelegate (classes.getClass r) with
  | none =>
    have hnone : ∀ label, f.subtypeToLabel.lookup (classes.getClass r) ≠ some label := by
      intro label hlabel
      have hsome := (subtypeToDelegate_eq_some h ha).mpr ⟨⟨label, hlabel⟩, rfl⟩
      rw [hdelegate] at hsome
      cases hsome
    simp [hnone]
  | some delegate =>
    obtain ⟨⟨label, hlabel⟩, rfl⟩ := (subtypeToDelegate_eq_some h ha).mp hdelegate
    simp only [bind_eq_ok, getAsJsonObject_eq_ok, hext.label _ _ hlabel, hext.typeFieldName, hlabel,
      Option.some.injEq]
    constructor
    · rintro ⟨tree, htree, members, rfl, hwritten⟩
      split at hwritten
      · cases hwritten
      · rename_i hfield
        rw [Option.isSome_iff_ne_none, not_not, lookup_eq_none] at hfield
        refine ⟨label, members, rfl, htree, hfield, ?_⟩
        have hnodup := (delegates (classes.getClass r)).nodup r members htree
        rw [clone_eq hnodup hfield] at hwritten
        exact (Except.ok.inj hwritten).symm
    · rintro ⟨l, members, rfl, htree, hfield, rfl⟩
      refine ⟨_, htree, members, rfl, ?_⟩
      have hnodup := (delegates (classes.getClass r)).nodup r members htree
      rw [lookup_eq_none.mpr hfield, clone_eq hnodup hfield]
      rfl

theorem read_written (h : OneToOne f) (hext : Extends f f') {type : κ} {label : List Char}
    {members : List (List Char × Value ν)} (ha : create delegates f type = some a)
    (hlabel : f.subtypeToLabel.lookup (classes.getClass r) = some label)
    (hfield : f.typeFieldName ∉ members.map Prod.fst) :
    read classes numbers f' a (.object ((f.typeFieldName, .string label) ::
      streamedMembers serializeNulls members)) =
    ((delegates (classes.getClass r)).fromJsonTree
      (streamed serializeNulls (.object members))).map some := by
  obtain ⟨hlabels, -⟩ := create_eq_some ha
  have hdelegate : a.labelToDelegate label = some (delegates (classes.getClass r)) := by
    rw [hlabels, (h label _).mpr hlabel, Option.map_some]
  have hrest : (streamedMembers serializeNulls members).filter (·.1 ≠ f.typeFieldName) =
      streamedMembers serializeNulls members := by
    rw [List.filter_eq_self]
    intro p hp
    rw [decide_eq_true_eq]
    rintro hname
    exact hfield (hname ▸ streamedMembers_subset _ _ (List.mem_map_of_mem hp))
  have hlookup : ((f.typeFieldName, Value.string label) ::
      streamedMembers serializeNulls members).lookup f.typeFieldName = some (.string label) := by
    rw [List.lookup_cons_self]
  simp only [read, isJsonNull, Bool.false_eq_true, if_false, getAsJsonObject, hext.typeFieldName,
    bind, Except.bind, hlookup, getAsString, hdelegate]
  rw [List.filter_cons_of_neg (by simp), hrest, streamed]
  cases (delegates (classes.getClass r)).fromJsonTree
    (.object (streamedMembers serializeNulls members)) <;> rfl

theorem exists_create (delegates : κ → TypeAdapter ν ρ) (f : Factory κ) :
    ∃ a, create delegates f f.baseType = some a :=
  ⟨_, if_neg (not_not.mpr rfl)⟩

theorem labelToDelegate_eq_some (h : OneToOne f) {type : κ} {label : List Char}
    {delegate : TypeAdapter ν ρ} (ha : create delegates f type = some a) :
    a.labelToDelegate label = some delegate ↔
      ∃ c, f.subtypeToLabel.lookup c = some label ∧ delegates c = delegate := by
  rw [(create_eq_some ha).1, Option.map_eq_some_iff]
  exact exists_congr fun c => and_congr_left fun _ => h label c

theorem read_eq_some_iff (h : OneToOne f) (hext : Extends f f') {type : κ}
    (ha : create delegates f type = some a) :
    read classes numbers f' a element = .ok (some r) ↔
      ∃ members labelElement label subtype, element = .object members ∧
        members.lookup f.typeFieldName = some labelElement ∧
        getAsString numbers labelElement = .ok label ∧
        f.subtypeToLabel.lookup subtype = some label ∧
        (delegates subtype).fromJsonTree (.object (members.filter (·.1 ≠ f.typeFieldName))) =
          .ok r := by
  cases element with
  | object members =>
    simp only [read, isJsonNull, Bool.false_eq_true, if_false, bind_eq_ok, getAsJsonObject_eq_ok,
      hext.typeFieldName, Value.object.injEq]
    constructor
    · rintro ⟨members, rfl, hread⟩
      cases hlookup : members.lookup f.typeFieldName with
      | none => simp [hlookup] at hread
      | some labelElement =>
        simp only [hlookup, bind_eq_ok] at hread
        obtain ⟨label, hlabel, hread⟩ := hread
        cases hdelegate : a.labelToDelegate label with
        | none => simp [hdelegate] at hread
        | some delegate =>
          obtain ⟨subtype, hsubtype, rfl⟩ := (labelToDelegate_eq_some h ha).mp hdelegate
          simp only [hdelegate, bind_eq_ok] at hread
          obtain ⟨r', hr', hsame⟩ := hread
          cases hsame
          exact ⟨members, labelElement, label, subtype, rfl, hlookup, hlabel, hsubtype, hr'⟩
    · rintro ⟨members, labelElement, label, subtype, rfl, hlookup, hlabel, hsubtype, hr⟩
      refine ⟨members, rfl, ?_⟩
      have hdelegate := (labelToDelegate_eq_some h ha).mpr ⟨subtype, hsubtype, rfl⟩
      simp only [hlookup, bind_eq_ok]
      refine ⟨label, hlabel, ?_⟩
      simp only [hdelegate, bind_eq_ok]
      exact ⟨r, hr, rfl⟩
  | _ => simp [read, isJsonNull, getAsJsonObject, bind, Except.bind]

/-- Whatever is registered before an adapter is made, before it writes and before it reads: it
writes the values of the classes that were registered in time, each under its label, and what it
writes it reads as the adapter of the value's own class reads its own object. -/
theorem written_read_back (classes : Classes κ ρ) (numbers : Numbers ν)
    (delegates : κ → TypeAdapter ν ρ) (serializeNulls : Bool) (baseType : κ)
    (calls meanwhile later : List (Registration κ)) :
    ∃ a, create delegates (registerAll (of baseType) calls) baseType = some a ∧
      (∀ r element, write classes serializeNulls (registerAll (of baseType) (calls ++ meanwhile)) a
          (some r) = .ok element ↔
        ∃ label members,
          (registerAll (of baseType) calls).subtypeToLabel.lookup (classes.getClass r) =
            some label ∧
          (delegates (classes.getClass r)).toJsonTree r = .ok (.object members) ∧
          "type".toList ∉ members.map Prod.fst ∧
          element = .object (("type".toList, .string label) ::
            streamedMembers serializeNulls members)) ∧
      ∀ r element, write classes serializeNulls (registerAll (of baseType) (calls ++ meanwhile)) a
          (some r) = .ok element →
        read classes numbers (registerAll (of baseType) (calls ++ meanwhile ++ later)) a element =
          ((delegates (classes.getClass r)).toJsonTree r >>= fun tree =>
            (delegates (classes.getClass r)).fromJsonTree (streamed serializeNulls tree)).map
              some := by
  have hone := (oneToOne_of baseType).registerAll calls
  have hbase := extends_registerAll (of baseType) calls
  have hmeanwhile := extends_registerAll (registerAll (of baseType) calls) meanwhile
  have hlater := extends_registerAll (registerAll (of baseType) calls) (meanwhile ++ later)
  rw [← registerAll_append] at hmeanwhile hlater
  obtain ⟨a, ha⟩ := exists_create delegates (registerAll (of baseType) calls)
  rw [hbase.baseType] at ha
  have hfield : (registerAll (of baseType) calls).typeFieldName = "type".toList :=
    hbase.typeFieldName
  refine ⟨a, ha, fun r element => ?_, fun r element hwrite => ?_⟩
  · rw [write_eq_ok_iff hone hmeanwhile ha, hfield]
  · obtain ⟨label, members, hlabel, htree, hfresh, rfl⟩ :=
      (write_eq_ok_iff hone hmeanwhile ha).mp hwrite
    rw [List.append_assoc, read_written hone hlater ha hlabel hfresh, htree]
    rfl

/-- A form that has a name only, as its text. -/
def nameAdapter : TypeAdapter Empty (List Char) where
  toJsonTree name := .ok (.object [("name".toList, .string name)])
  fromJsonTree
    | .object [(_, .string name)] => .ok name
    | _ => .error (.external "JsonSyntaxException")
  nodup := by
    rintro name _ ⟨⟩
    exact List.nodup_singleton _

def noNumbers : Numbers Empty := ⟨nofun, fun _ => none, nofun, nofun⟩

def loanForms : Classes String (List Char) := ⟨fun _ => "LoanFormImpl", id, id⟩

theorem loanForm_read_back : ∃ a,
    create (fun _ => nameAdapter) (registerAll (of "LoanForm") [(some "LoanFormImpl",
      some "IA".toList)]) "LoanForm" = some a ∧
    ∀ name, (write loanForms false (registerAll (of "LoanForm") [(some "LoanFormImpl",
      some "IA".toList)]) a (some name)).bind (read loanForms noNumbers
        (registerAll (of "LoanForm") [(some "LoanFormImpl", some "IA".toList)]) a) =
          .ok (some name) := by
  obtain ⟨a, ha, hwritten, hread⟩ := written_read_back loanForms noNumbers (fun _ => nameAdapter)
    false "LoanForm" [(some "LoanFormImpl", some "IA".toList)] [] []
  refine ⟨a, ha, fun name => ?_⟩
  have hwrite := (hwritten name _).mpr ⟨"IA".toList, _, rfl, rfl, by simp, rfl⟩
  have hname := hread name _ hwrite
  rw [List.append_nil, List.append_nil] at hname
  rw [List.append_nil] at hwrite
  rw [hwrite, Except.bind, hname]
  rfl

/-- No text from outside is read by an adapter of a class that was not registered in time, whatever
label it has: what is left of the object without its label goes to the class of the label. -/
theorem read_registered_iff (classes : Classes κ ρ) (numbers : Numbers ν)
    (delegates : κ → TypeAdapter ν ρ) (baseType : κ) (calls later : List (Registration κ)) :
    ∃ a, create delegates (registerAll (of baseType) calls) baseType = some a ∧
      ∀ element r,
        read classes numbers (registerAll (of baseType) (calls ++ later)) a element =
            .ok (some r) ↔
          ∃ members labelElement label type, element = .object members ∧
            members.lookup "type".toList = some labelElement ∧
            getAsString numbers labelElement = .ok label ∧
            (registerAll (of baseType) calls).subtypeToLabel.lookup type = some label ∧
            (delegates type).fromJsonTree (.object (members.filter (·.1 ≠ "type".toList))) =
              .ok r := by
  have hone := (oneToOne_of baseType).registerAll calls
  have hbase := extends_registerAll (of baseType) calls
  have hlater := extends_registerAll (registerAll (of baseType) calls) later
  rw [← registerAll_append] at hlater
  obtain ⟨a, ha⟩ := exists_create delegates (registerAll (of baseType) calls)
  rw [hbase.baseType] at ha
  refine ⟨a, ha, fun element r => ?_⟩
  rw [read_eq_some_iff hone hlater ha, hbase.typeFieldName]
  rfl

end RoundTrip

/-! ### The forms that `FormBuilderImpl.fromJson` reads -/

inductive FormClass where
  | LoginForm | LoanForm | LoginFormImpl | LoanFormImpl
  deriving DecidableEq, Repr

/-- A form has one class, labelled IA. -/
def formTypeFactory (form impl : FormClass) : Factory FormClass :=
  registerAll (of form) [(some impl, some "IA".toList)]

def loginFormTypeFactory : Factory FormClass := formTypeFactory .LoginForm .LoginFormImpl

def userFormTypeFactory : Factory FormClass := formTypeFactory .LoanForm .LoanFormImpl

/-- A form is read from an object of the type IA only, by the adapter of the form's one class. -/
theorem form_read_iff {classes : Classes FormClass ρ} {numbers : Numbers ν}
    {delegates : FormClass → TypeAdapter ν ρ} {form impl : FormClass} {a : Adapter FormClass ν ρ}
    (ha : create delegates (formTypeFactory form impl) form = some a) {element : Value ν} {r : ρ} :
    read classes numbers (formTypeFactory form impl) a element = .ok (some r) ↔
      ∃ members labelElement, element = .object members ∧
        members.lookup "type".toList = some labelElement ∧
        getAsString numbers labelElement = .ok "IA".toList ∧
        (delegates impl).fromJsonTree (.object (members.filter (·.1 ≠ "type".toList))) =
          .ok r := by
  have hone : OneToOne (formTypeFactory form impl) := (oneToOne_of form).registerAll _
  have hfield : (formTypeFactory form impl).typeFieldName = "type".toList := rfl
  have hlabels : (formTypeFactory form impl).subtypeToLabel =
      (∅ : AList fun _ : FormClass => List Char).insert impl "IA".toList := rfl
  rw [read_eq_some_iff hone ⟨rfl, rfl, fun _ _ h => h⟩ ha, hfield]
  constructor
  · rintro ⟨members, labelElement, label, subtype, helement, hlookup, hlabel, hsubtype, hr⟩
    rw [hlabels] at hsubtype
    by_cases hc : subtype = impl
    · subst hc
      rw [AList.lookup_insert] at hsubtype
      exact ⟨members, labelElement, helement, hlookup, Option.some.inj hsubtype ▸ hlabel, hr⟩
    · rw [AList.lookup_insert_ne hc, AList.lookup_empty] at hsubtype
      cases hsubtype
  · rintro ⟨members, labelElement, helement, hlookup, hlabel, hr⟩
    refine ⟨members, labelElement, "IA".toList, impl, helement, hlookup, hlabel, ?_, hr⟩
    rw [hlabels, AList.lookup_insert]

end InsightsAssist.RuntimeTypeAdapterFactory
