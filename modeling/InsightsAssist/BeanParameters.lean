import InsightsAssist.GroupedParameters
import InsightsAssist.Puts

/-! The map of names and values that the attributes of a form are set from: the parameters of a
request, or the fields and the attached files of a multi-part one. -/
namespace InsightsAssist.HttpBeanUtil
open GroupedParameters

structure FileItem where
  /-- tells objects apart -/
  id : Nat
  fieldName : List Char
  isFormField : Bool
  string : String
  deriving DecidableEq, Repr

inductive Value where
  | parameter (values : List String)
  | field (string : String)
  | attachment (item : FileItem)
  | attachments (items : List FileItem)
  deriving DecidableEq, Repr

def Value.items : Value → List FileItem
  | .attachment item => [item]
  | .attachments items => items
  | _ => []

abbrev NameValueMap := Finmap fun _ : List Char => Value

def createNameValueMap (parameterMap : List (List Char × List String)) : NameValueMap :=
  parameterMap.foldl (fun nameValueMap me =>
    nameValueMap.insert (attributeName me.1) (.parameter me.2)) ∅

def createFieldMap (formFields : List FileItem) : NameValueMap :=
  formFields.foldl (fun nameValueMap item =>
    nameValueMap.insert (attributeName item.fieldName) (.field item.string)) ∅

def containsBracket (fieldName : List Char) : Bool := fieldName.any (· ∈ ['[', ']'])

/-- The attachments with this field name, of which there are some. -/
def attachmentValue (attachments : List FileItem) (fieldName : List Char) : Value :=
  match attachments.filter (·.fieldName = fieldName) with
  | first :: rest =>
    if containsBracket fieldName then .attachment first else .attachments (first :: rest)
  | [] => .attachments []

/-- The keys are the field names of the attachments, each as often as it has attachments. -/
def addAttachments (nameValueMap : NameValueMap) (attachments : List FileItem)
    (keys : List (List Char)) : NameValueMap :=
  keys.foldl (fun nameValueMap fieldName =>
    nameValueMap.insert fieldName (attachmentValue attachments fieldName)) nameValueMap

inductive Request where
  | singlePart (parameterMap : ParameterMap (List String))
  | multiPart (fileItems : List FileItem)

def formFields (fileItems : List FileItem) : List FileItem := fileItems.filter (·.isFormField)

def attached (fileItems : List FileItem) : List FileItem := fileItems.filter (!·.isFormField)

/-- The map in some order of iteration over the parameters, or over the fields and the names of
the attachments. -/
inductive Builds : Request → NameValueMap → Prop where
  | singlePart {m : ParameterMap (List String)} {parameters : List (List Char × List String)}
      (hparameters : parameters.Perm m.entries) :
      Builds (.singlePart m) (createNameValueMap parameters)
  | multiPart {fileItems fields : List FileItem} {keys : List (List Char)}
      (hfields : fields.Perm (formFields fileItems))
      (hkeys : keys.Perm ((attached fileItems).map FileItem.fieldName)) :
      Builds (.multiPart fileItems)
        (addAttachments (createFieldMap fields) (attached fileItems) keys)

/-- Each parameter and each attachment is found under its name, and different names have entries
of their own. -/
def Holds (nameValueMap : NameValueMap) : Request → Prop
  | .singlePart m =>
    (∀ me ∈ m.entries, nameValueMap.lookup (attributeName me.1) = some (.parameter me.2)) ∧
      nameValueMap.keys.card = m.entries.length
  | .multiPart fileItems =>
    (∀ item ∈ formFields fileItems,
      nameValueMap.lookup (attributeName item.fieldName) = some (.field item.string)) ∧
    (∀ item ∈ attached fileItems, ∃ value, nameValueMap.lookup item.fieldName = some value ∧
      item ∈ value.items) ∧
    nameValueMap.keys.card = ((formFields fileItems).map FileItem.fieldName).toFinset.card +
      ((attached fileItems).map FileItem.fieldName).toFinset.card

def Lossless (request : Request) : Prop :=
  ∃ nameValueMap, Holds nameValueMap request ∧ ∀ other, Builds request other → other = nameValueMap

/-- No two parameters differ by a leading _ only. In a multi-part request, moreover, fields of one
name have one value, no attachment has the name of a field's attribute, and a name with a bracket
has one attachment. -/
def Clear : Request → Prop
  | .singlePart m => ∀ a ∈ m.entries, ∀ b ∈ m.entries,
      attributeName a.1 = attributeName b.1 → a.1 = b.1
  | .multiPart fileItems =>
    (∀ a ∈ formFields fileItems, ∀ b ∈ formFields fileItems,
      attributeName a.fieldName = attributeName b.fieldName →
        a.fieldName = b.fieldName ∧ a.string = b.string) ∧
    (∀ field ∈ formFields fileItems, ∀ item ∈ attached fileItems,
      attributeName field.fieldName ≠ item.fieldName) ∧
    ∀ a ∈ attached fileItems, ∀ b ∈ attached fileItems,
      a.fieldName = b.fieldName → containsBracket a.fieldName → a = b

section SinglePart
variable {parameters : List (List Char × List String)} {m : ParameterMap (List String)}

def parameterPuts (parameters : List (List Char × List String)) : List (List Char × Value) :=
  parameters.map fun me => (attributeName me.1, .parameter me.2)

theorem createNameValueMap_eq :
    createNameValueMap parameters = putAll ∅ (parameterPuts parameters) := by
  rw [putAll, parameterPuts, List.foldl_map]
  rfl

theorem keys_createNameValueMap : (createNameValueMap parameters).keys =
    (parameters.map fun me => attributeName me.1).toFinset := by
  rw [createNameValueMap_eq, keys_putAll, Finmap.keys_empty, Finset.empty_union, parameterPuts,
    List.map_map]
  rfl

theorem clear_singlePart_iff : Clear (.singlePart m) ↔
    (m.entries.map fun me => attributeName me.1).Nodup := by
  rw [List.nodup_map_iff_inj_on (List.Nodup.of_map _ m.nodup)]
  constructor
  · intro h a ha b hb hname
    exact List.inj_on_of_nodup_map m.nodup ha hb (h a ha b hb hname)
  · intro h a ha b hb hname
    rw [h a ha b hb hname]

theorem agree_parameterPuts (h : (m.entries.map fun me => attributeName me.1).Nodup) :
    Agree (parameterPuts m.entries) := by
  intro p hp q hq hname
  obtain ⟨a, ha, rfl⟩ := List.mem_map.mp hp
  obtain ⟨b, hb, rfl⟩ := List.mem_map.mp hq
  rw [List.inj_on_of_nodup_map h ha hb hname]

theorem holds_singlePart (h : Clear (.singlePart m)) :
    Holds (createNameValueMap m.entries) (.singlePart m) := by
  have hnodup := clear_singlePart_iff.mp h
  constructor
  · intro me hme
    rw [createNameValueMap_eq]
    exact lookup_putAll (agree_parameterPuts hnodup) (List.mem_map_of_mem hme)
  · rw [keys_createNameValueMap, List.toFinset_card_of_nodup hnodup, List.length_map]

theorem clear_singlePart (h : Holds (createNameValueMap m.entries) (.singlePart m)) :
    Clear (.singlePart m) := by
  have hcard := h.2
  rw [keys_createNameValueMap] at hcard
  rw [clear_singlePart_iff, ← Multiset.coe_nodup, ← Multiset.toFinset_card_eq_card_iff_nodup]
  rw [Multiset.coe_card, List.length_map]
  exact hcard

end SinglePart

section MultiPart
variable {fields attachments fileItems : List FileItem} {keys : List (List Char)}
  {fieldName : List Char} {item : FileItem} {nameValueMap : NameValueMap}

def fieldPuts (fields : List FileItem) : List (List Char × Value) :=
  fields.map fun item => (attributeName item.fieldName, .field item.string)

def attachmentPuts (attachments : List FileItem) (keys : List (List Char)) :
    List (List Char × Value) :=
  keys.map fun fieldName => (fieldName, attachmentValue attachments fieldName)

theorem createFieldMap_eq : createFieldMap fields = putAll ∅ (fieldPuts fields) := by
  rw [putAll, fieldPuts, List.foldl_map]
  rfl

theorem addAttachments_eq : addAttachments nameValueMap attachments keys =
    putAll nameValueMap (attachmentPuts attachments keys) := by
  rw [putAll, attachmentPuts, List.foldl_map]
  rfl

theorem agree_attachmentPuts : Agree (attachmentPuts attachments keys) := by
  intro p hp q hq hname
  obtain ⟨a, -, rfl⟩ := List.mem_map.mp hp
  obtain ⟨b, -, rfl⟩ := List.mem_map.mp hq
  exact congrArg (attachmentValue attachments) hname

theorem map_fst_attachmentPuts : (attachmentPuts attachments keys).map Prod.fst = keys := by
  rw [attachmentPuts, List.map_map]
  exact List.map_id keys

theorem lookup_attachment (h : fieldName ∈ keys) :
    (addAttachments nameValueMap attachments keys).lookup fieldName =
      some (attachmentValue attachments fieldName) := by
  rw [addAttachments_eq]
  exact lookup_putAll agree_attachmentPuts (List.mem_map_of_mem h)

theorem mem_attachmentValue (h : item ∈ attachments) :
    item ∈ (attachmentValue attachments item.fieldName).items ↔
      (containsBracket item.fieldName →
        (attachments.filter (·.fieldName = item.fieldName)).head? = some item) := by
  have hmem : item ∈ attachments.filter (·.fieldName = item.fieldName) :=
    List.mem_filter.mpr ⟨h, by simp⟩
  unfold attachmentValue
  split
  · rename_i first rest heq
    rw [heq] at hmem ⊢
    split
    · rename_i hbracket
      simp [Value.items, hbracket, eq_comm]
    · rename_i hbracket
      simpa [Value.items, hbracket] using hmem
  · rename_i heq
    rw [heq] at hmem
    cases hmem

def builtMap (fileItems : List FileItem) : NameValueMap :=
  addAttachments (createFieldMap (formFields fileItems)) (attached fileItems)
    ((attached fileItems).map FileItem.fieldName)

theorem keys_builtMap : (builtMap fileItems).keys =
    (((formFields fileItems).map FileItem.fieldName).toFinset.image attributeName) ∪
      ((attached fileItems).map FileItem.fieldName).toFinset := by
  rw [builtMap, addAttachments_eq, keys_putAll, map_fst_attachmentPuts, createFieldMap_eq,
    keys_putAll, Finmap.keys_empty, Finset.empty_union, fieldPuts, List.map_map]
  congr 1
  ext name
  simp

theorem card_builtMap : (builtMap fileItems).keys.card =
      ((formFields fileItems).map FileItem.fieldName).toFinset.card +
        ((attached fileItems).map FileItem.fieldName).toFinset.card ↔
    (∀ a ∈ formFields fileItems, ∀ b ∈ formFields fileItems,
      attributeName a.fieldName = attributeName b.fieldName → a.fieldName = b.fieldName) ∧
    ∀ field ∈ formFields fileItems, ∀ item ∈ attached fileItems,
      attributeName field.fieldName ≠ item.fieldName := by
  have hinj : (((formFields fileItems).map FileItem.fieldName).toFinset.image attributeName).card =
        ((formFields fileItems).map FileItem.fieldName).toFinset.card ↔
      ∀ a ∈ formFields fileItems, ∀ b ∈ formFields fileItems,
        attributeName a.fieldName = attributeName b.fieldName → a.fieldName = b.fieldName := by
    rw [Finset.card_image_iff]
    simp [Set.InjOn]
  have hdisjoint : Disjoint
        (((formFields fileItems).map FileItem.fieldName).toFinset.image attributeName)
        ((attached fileItems).map FileItem.fieldName).toFinset ↔
      ∀ field ∈ formFields fileItems, ∀ item ∈ attached fileItems,
        attributeName field.fieldName ≠ item.fieldName := by
    simp only [Finset.disjoint_left, Finset.mem_image, List.mem_toFinset, List.mem_map]
    constructor
    · intro h field hfield item hitem hname
      exact h ⟨_, ⟨field, hfield, rfl⟩, hname⟩ ⟨item, hitem, rfl⟩
    · rintro h _ ⟨_, ⟨field, hfield, rfl⟩, rfl⟩ ⟨item, hitem, hname⟩
      exact h field hfield item hitem hname.symm
  rw [keys_builtMap, ← hinj, ← hdisjoint]
  constructor
  · intro h
    have hunion := Finset.card_union_le
      (((formFields fileItems).map FileItem.fieldName).toFinset.image attributeName)
      ((attached fileItems).map FileItem.fieldName).toFinset
    have himage := Finset.card_image_le (f := attributeName)
      (s := ((formFields fileItems).map FileItem.fieldName).toFinset)
    have hcard : (((formFields fileItems).map FileItem.fieldName).toFinset.image
        attributeName).card = ((formFields fileItems).map FileItem.fieldName).toFinset.card := by
      omega
    refine ⟨hcard, ?_⟩
    rw [← Finset.card_union_eq_card_add_card, h, hcard]
  · rintro ⟨hcard, hdisj⟩
    rw [Finset.card_union_of_disjoint hdisj, hcard]

theorem agree_fieldPuts (h : Clear (.multiPart fileItems)) :
    Agree (fieldPuts (formFields fileItems)) := by
  intro p hp q hq hname
  obtain ⟨a, ha, rfl⟩ := List.mem_map.mp hp
  obtain ⟨b, hb, rfl⟩ := List.mem_map.mp hq
  exact congrArg Value.field (h.1 a ha b hb hname).2

theorem lookup_field {name : List Char}
    (h : ∀ item ∈ attached fileItems, name ≠ item.fieldName) :
    (builtMap fileItems).lookup name =
      (createFieldMap (formFields fileItems)).lookup name := by
  rw [builtMap, addAttachments_eq]
  refine lookup_putAll_of_not_mem ?_
  rw [map_fst_attachmentPuts]
  intro hmem
  obtain ⟨item, hitem, hname⟩ := List.mem_map.mp hmem
  exact h item hitem hname.symm

theorem holds_multiPart (h : Clear (.multiPart fileItems)) :
    Holds (builtMap fileItems) (.multiPart fileItems) := by
  refine ⟨?_, ?_, card_builtMap.mpr ⟨?_, h.2.1⟩⟩
  · intro field hfield
    rw [lookup_field (h.2.1 field hfield), createFieldMap_eq]
    exact lookup_putAll (agree_fieldPuts h) (List.mem_map_of_mem hfield)
  · intro item hitem
    refine ⟨_, lookup_attachment (List.mem_map_of_mem hitem), ?_⟩
    rw [mem_attachmentValue hitem]
    intro hbracket
    have hmem : item ∈ (attached fileItems).filter (·.fieldName = item.fieldName) :=
      List.mem_filter.mpr ⟨hitem, by simp⟩
    obtain ⟨first, hfirst⟩ := List.isSome_head?.mpr (List.ne_nil_of_mem hmem) |>
      Option.isSome_iff_exists.mp
    obtain ⟨hfirst', hname⟩ := List.mem_filter.mp (List.mem_of_mem_head? hfirst)
    simp only [decide_eq_true_eq] at hname
    rw [hfirst, h.2.2 item hitem first hfirst' hname.symm hbracket]
  · exact fun a ha b hb hname => (h.1 a ha b hb hname).1

theorem clear_multiPart (h : Holds (builtMap fileItems) (.multiPart fileItems)) :
    Clear (.multiPart fileItems) := by
  obtain ⟨hfields, hattached, hcard⟩ := h
  obtain ⟨hnames, hdisjoint⟩ := card_builtMap.mp hcard
  refine ⟨?_, hdisjoint, ?_⟩
  · intro a ha b hb hname
    refine ⟨hnames a ha b hb hname, ?_⟩
    have hlookup := hfields a ha
    rw [hname, hfields b hb] at hlookup
    exact (Value.field.inj (Option.some.inj hlookup)).symm
  · intro a ha b hb hname hbracket
    have hfirst : ∀ item ∈ attached fileItems, containsBracket item.fieldName →
        ((attached fileItems).filter (·.fieldName = item.fieldName)).head? = some item := by
      intro item hitem
      obtain ⟨value, hvalue, hmem⟩ := hattached item hitem
      rw [builtMap, lookup_attachment (List.mem_map_of_mem hitem)] at hvalue
      cases hvalue
      exact (mem_attachmentValue hitem).mp hmem
    have ha' := hfirst a ha hbracket
    have hb' := hfirst b hb (hname ▸ hbracket)
    rw [hname, hb'] at ha'
    exact (Option.some.inj ha').symm

end MultiPart

theorem builds_once {request : Request} (h : Clear request) : Lossless request := by
  cases request with
  | singlePart m =>
    refine ⟨_, holds_singlePart h, ?_⟩
    rintro _ ⟨hparameters⟩
    rw [createNameValueMap_eq, createNameValueMap_eq]
    exact putAll_perm (hparameters.map _) (agree_parameterPuts (clear_singlePart_iff.mp h))
  | multiPart fileItems =>
    refine ⟨_, holds_multiPart h, ?_⟩
    rintro _ (_ | @⟨_, fields, _, hfields, hkeys⟩)
    have hsame : createFieldMap fields = createFieldMap (formFields fileItems) := by
      rw [createFieldMap_eq, createFieldMap_eq]
      exact putAll_perm (hfields.map _) (agree_fieldPuts h)
    rw [builtMap, hsame, addAttachments_eq, addAttachments_eq]
    exact putAll_perm (hkeys.map _) agree_attachmentPuts

theorem lossless_iff (request : Request) : Lossless request ↔ Clear request := by
  refine ⟨?_, builds_once⟩
  rintro ⟨nameValueMap, hholds, hbuilds⟩
  cases request with
  | singlePart m =>
    rw [← hbuilds _ (.singlePart (.refl _))] at hholds
    exact clear_singlePart hholds
  | multiPart fileItems =>
    rw [← hbuilds _ (.multiPart (.refl _) (.refl _))] at hholds
    exact clear_multiPart hholds

def twoAttachments : List FileItem :=
  [⟨0, "statements[]".toList, false, "a"⟩, ⟨1, "statements[]".toList, false, "b"⟩]

theorem second_attachment_lost : ¬Lossless (.multiPart twoAttachments) := by
  rintro ⟨nameValueMap, hholds, hbuilds⟩
  rw [← hbuilds _ (.multiPart (.refl _) (.refl _))] at hholds
  have hsame := (clear_multiPart hholds).2.2 ⟨0, "statements[]".toList, false, "a"⟩ (by decide)
    ⟨1, "statements[]".toList, false, "b"⟩ (by decide) rfl (by decide)
  exact absurd hsame (by decide)

end InsightsAssist.HttpBeanUtil
