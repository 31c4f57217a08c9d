import Mathlib.Data.List.Nodup

/-! The organisations table and the statements that the administration actions run on it, each
of them by itself: there is no transaction around the statements of an action. -/
namespace InsightsAssist

/-- A row of ia_organisations; times are in milliseconds, the end of the license in days. -/
structure IaOrganisation where
  organisationId : Int
  organisationName : String
  key : String
  insightsKey : String
  enabled : Int
  updated : Int
  created : Int
  licenseEndDate : Int
  deriving DecidableEq, Repr

/-- What the statements take from the database server: its comparison of strings, whether it
refuses null for a column that is not nullable, and the values of a row inserted without them. -/
structure Server where
  equal : String → String → Bool
  equal_refl : ∀ a, equal a a
  strict : Bool
  defaultCreated : Int
  day : Int → Int

def Server.plain : Server where
  equal a b := a = b
  equal_refl := by simp
  strict := true
  defaultCreated := 0
  day now := now / 86400000

/-- The rows, and the AUTO_INCREMENT counter. -/
structure IaOrganisations where
  rows : List IaOrganisation
  autoIncrement : Int
  deriving DecidableEq, Repr

/-- How the server meets a statement: whether it carries it out, and at what time. -/
structure Execution where
  executed : Bool
  now : Int
  deriving DecidableEq, Repr

namespace IaOrganisations
variable (server : Server)

/-- `on update current_timestamp`: a row that a statement leaves as it is keeps its time. -/
def touch (now : Int) (set : IaOrganisation → IaOrganisation) (row : IaOrganisation) :
    IaOrganisation :=
  if set row = row then row else { set row with updated := now }

/-- `organisation_name = ?`. -/
def named (name : String) (row : IaOrganisation) : Bool := server.equal row.organisationName name

def newRow (name : String) (now id : Int) : IaOrganisation where
  organisationId := id
  organisationName := name
  key := ""
  insightsKey := ""
  enabled := 1
  updated := now
  created := server.defaultCreated
  licenseEndDate := server.day now

/-- The insert of a row, which gets the next id; a name that is taken violates the unique key.
None where a statement throws. -/
def insertRow (row : IaOrganisation) (x : Execution) (t : IaOrganisations) :
    Option IaOrganisations :=
  if x.executed && t.rows.all fun old => !named server row.organisationName old then
    some ⟨t.rows ++ [{ row with organisationId := t.autoIncrement }], t.autoIncrement + 1⟩
  else none

def insertInto (name : String) (x : Execution) (t : IaOrganisations) : Option IaOrganisations :=
  insertRow server (newRow server name x.now t.autoIncrement) x t

/-- What a column that is not nullable is set to by the subselect of a column by name: without a
row it is null, which becomes the empty string or is refused, and with more than one an error. -/
def selected (column : IaOrganisation → String) (name : String) (t : IaOrganisations) :
    Option String :=
  match t.rows.filter (named server name) with
  | [] => if server.strict && !t.rows.isEmpty then none else some ""
  | [row] => some (column row)
  | _ => none

def updateAll (column : IaOrganisation → String) (set : String → IaOrganisation → IaOrganisation)
    (name : String) (x : Execution) (t : IaOrganisations) : Option IaOrganisations :=
  if x.executed then
    (selected server column name t).map fun value =>
      { t with rows := t.rows.map (touch x.now (set value)) }
  else none

def setEnabled (enabled : Int) (name : String) (x : Execution) (t : IaOrganisations) :
    Option IaOrganisations :=
  if x.executed then
    let set row := if named server name row then touch x.now ({ · with enabled }) row else row
    some { t with rows := t.rows.map set }
  else none

def delete (name : String) (x : Execution) (t : IaOrganisations) : Option IaOrganisations :=
  if x.executed then some { t with rows := t.rows.filter fun row => !named server name row }
  else none

/-- The rows are listed by their ids, which are below the counter, and have different names. -/
structure WellFormed (t : IaOrganisations) : Prop where
  sorted : (t.rows.map IaOrganisation.organisationId).Pairwise (· < ·)
  below : ∀ row ∈ t.rows, row.organisationId < t.autoIncrement
  names : (t.rows.map IaOrganisation.organisationName).Nodup

variable {server} {t t' : IaOrganisations} {x : Execution}

theorem WellFormed.map (h : WellFormed t) {set : IaOrganisation → IaOrganisation}
    (hid : ∀ row, (set row).organisationId = row.organisationId)
    (hname : ∀ row, (set row).organisationName = row.organisationName) :
    WellFormed { t with rows := t.rows.map set } where
  sorted := by simpa [Function.comp_def, hid] using h.sorted
  below row hrow := by
    obtain ⟨old, hold, rfl⟩ := List.mem_map.mp hrow
    rw [hid]
    exact h.below old hold
  names := by simpa [Function.comp_def, hname] using h.names

theorem touch_name {now : Int} {set : IaOrganisation → IaOrganisation}
    (hset : ∀ row, (set row).organisationName = row.organisationName) (row : IaOrganisation) :
    (touch now set row).organisationName = row.organisationName := by
  unfold touch
  split
  · rfl
  · exact hset row

theorem touch_id {now : Int} {set : IaOrganisation → IaOrganisation}
    (hset : ∀ row, (set row).organisationId = row.organisationId) (row : IaOrganisation) :
    (touch now set row).organisationId = row.organisationId := by
  unfold touch
  split
  · rfl
  · exact hset row

theorem WellFormed.filter (h : WellFormed t) (keep : IaOrganisation → Bool) :
    WellFormed { t with rows := t.rows.filter keep } where
  sorted := h.sorted.sublist (List.filter_sublist.map _)
  below row hrow := h.below row (List.mem_of_mem_filter hrow)
  names := h.names.sublist (List.filter_sublist.map _)

theorem insertRow_eq_some {row : IaOrganisation} :
    IaOrganisations.insertRow server row x t = some t' ↔
      (x.executed ∧ ∀ old ∈ t.rows, named server row.organisationName old = false) ∧
      t' = ⟨t.rows ++ [{ row with organisationId := t.autoIncrement }], t.autoIncrement + 1⟩ := by
  have hcondition : (x.executed && t.rows.all fun old => !named server row.organisationName old) ↔
      x.executed ∧ ∀ old ∈ t.rows, named server row.organisationName old = false := by simp
  rw [IaOrganisations.insertRow, ← hcondition]
  split
  · rename_i hins
    rw [Option.some_inj, eq_comm, and_iff_right hins]
  · rename_i hins
    exact iff_of_false (by simp) fun h => hins h.1

theorem WellFormed.insertRow (h : WellFormed t) {row : IaOrganisation}
    (hi : IaOrganisations.insertRow server row x t = some t') : WellFormed t' := by
  obtain ⟨⟨_, hins⟩, rfl⟩ := insertRow_eq_some.mp hi
  have hbelow : ∀ id ∈ t.rows.map IaOrganisation.organisationId, id < t.autoIncrement := by
    intro id hid
    obtain ⟨old, hold, rfl⟩ := List.mem_map.mp hid
    exact h.below old hold
  have hfree : row.organisationName ∉ t.rows.map IaOrganisation.organisationName := by
    intro hmem
    obtain ⟨old, hold, hname⟩ := List.mem_map.mp hmem
    have hno := hins old hold
    rw [named, hname, server.equal_refl] at hno
    cases hno
  refine ⟨?_, ?_, ?_⟩
  · rw [List.map_append, List.pairwise_append]
    refine ⟨h.sorted, by simp, fun id hid id' hid' => ?_⟩
    rw [List.mem_singleton.mp hid']
    exact hbelow id hid
  · intro row' hrow'
    obtain hold | hnew := List.mem_append.mp hrow'
    · have := h.below row' hold
      show row'.organisationId < t.autoIncrement + 1
      omega
    · rw [List.mem_singleton.mp hnew]
      exact Int.lt_succ t.autoIncrement
  · rw [List.map_append]
    exact h.names.append (by simp) (by simpa using hfree)

end IaOrganisations

/-- Statements one after the other up to the first that throws, whose exception is logged: true
if none does, and the table they leave. -/
def runStatements {σ : Type} : List (σ → Option σ) → σ → Bool × σ
  | [], t => (true, t)
  | statement :: rest, t =>
    match statement t with
    | some t' => runStatements rest t'
    | none => (false, t)

theorem runStatements_pair {σ : Type} (f g : σ → Option σ) (t : σ) :
    (∃ t', (f t).bind g = some t' ∧ runStatements [f, g] t = (true, t')) ∨
      ((f t).bind g = none ∧ ∃ t', runStatements [f, g] t = (false, t') ∧
        (t' = t ∨ f t = some t')) := by
  simp only [runStatements]
  cases f t with
  | none => exact .inr ⟨rfl, t, rfl, .inl rfl⟩
  | some u =>
    cases hg : g u with
    | none => exact .inr ⟨hg, u, by simp [hg], .inr rfl⟩
    | some t' => exact .inl ⟨t', hg, by simp [hg]⟩

theorem runStatements_of_bind {σ : Type} {f g : σ → Option σ} {t t' : σ}
    (h : (f t).bind g = some t') : runStatements [f, g] t = (true, t') := by
  obtain ⟨u, hu, hr⟩ | ⟨hnone, _⟩ := runStatements_pair f g t
  · rw [h] at hu
    cases hu
    exact hr
  · rw [h] at hnone
    cases hnone

theorem runStatements_keeps {σ : Type} {P : σ → Prop} {statements : List (σ → Option σ)}
    (h : ∀ statement ∈ statements, ∀ t t', P t → statement t = some t' → P t') {t : σ} (ht : P t) :
    P (runStatements statements t).2 := by
  induction statements generalizing t with
  | nil => exact ht
  | cons statement rest ih =>
    simp only [runStatements]
    cases hs : statement t with
    | none => exact ht
    | some t' =>
      apply ih (fun statement hmem => h statement (List.mem_cons_of_mem _ hmem))
      exact h statement List.mem_cons_self t t' ht hs

namespace StoreOrganisation
open IaOrganisations
variable (server : Server)

def setInsightsKey (insightsKey : String) (row : IaOrganisation) : IaOrganisation :=
  { row with insightsKey }

def setKey (key : String) (row : IaOrganisation) : IaOrganisation := { row with key }

/-- There is no where clause but that of the subselect. -/
def updateInsightsKey : Execution → IaOrganisations → Option IaOrganisations :=
  updateAll server IaOrganisation.insightsKey setInsightsKey "acme"

def updateKey : Execution → IaOrganisations → Option IaOrganisations :=
  updateAll server IaOrganisation.key setKey "acme"

/-- `connected` is whether `connectDatabase` returns. -/
def addOrganisation (organisationName : String) (connected : Bool) (first second third : Execution)
    (t : IaOrganisations) : Bool × IaOrganisations :=
  if connected then
    runStatements [insertInto server organisationName first, updateInsightsKey server second,
      updateKey server third] t
  else (false, t)

/-- Nothing changes but for the new row, which carries acme's keys; without success nothing
changes at all. -/
def AddsOnly (organisationName : String) (t : IaOrganisations) (r : Bool × IaOrganisations) :
    Prop :=
  if r.1 then
    ∃ row acme, r.2.rows = t.rows ++ [row] ∧ row.organisationName = organisationName ∧
      acme ∈ r.2.rows ∧ named server "acme" acme ∧ row.key = acme.key ∧
      row.insightsKey = acme.insightsKey
  else r.2.rows = t.rows

/-- The insert is carried out: the name is free. -/
def Inserts (organisationName : String) (connected : Bool) (first : Execution)
    (t : IaOrganisations) : Prop :=
  connected ∧ first.executed ∧ ∀ row ∈ t.rows, ¬ named server organisationName row

/-- Both updates are carried out, there is one acme, and the other rows have its keys already. -/
def KeysShared (second third : Execution) (before after : IaOrganisations) : Prop :=
  second.executed ∧ third.executed ∧ ∃ acme, after.rows.filter (named server "acme") = [acme] ∧
    ∀ row ∈ before.rows, row.key = acme.key ∧ row.insightsKey = acme.insightsKey

def inserted (organisationName : String) (first : Execution) (t : IaOrganisations) :
    IaOrganisations :=
  ⟨t.rows ++ [newRow server organisationName first.now t.autoIncrement], t.autoIncrement + 1⟩

variable {server} {organisationName : String} {connected : Bool} {first second third : Execution}
  {t t' : IaOrganisations}

theorem insert_of_inserts (h : Inserts server organisationName connected first t) :
    insertInto server organisationName first t =
      some (inserted server organisationName first t) := by
  obtain ⟨-, hx, hfree⟩ := h
  have hall : t.rows.all fun row => !named server
      (newRow server organisationName first.now t.autoIncrement).organisationName row := by
    simpa [newRow] using hfree
  rw [insertInto, insertRow, hx, hall]
  rfl

theorem addOrganisation_of_not_inserts (h : ¬ Inserts server organisationName connected first t) :
    addOrganisation server organisationName connected first second third t = (false, t) := by
  cases connected with
  | false => rfl
  | true =>
    have hnone : insertInto server organisationName first t = none := by
      rw [insertInto, insertRow, if_neg]
      intro hins
      rw [Bool.and_eq_true, List.all_eq_true] at hins
      exact h ⟨rfl, hins.1, by simpa [newRow] using hins.2⟩
    simp [addOrganisation, runStatements, hnone]

theorem filter_named_touch {name : String} {now : Int} (set : IaOrganisation → IaOrganisation)
    (hset : ∀ row, (set row).organisationName = row.organisationName)
    (rows : List IaOrganisation) :
    (rows.map (touch now set)).filter (named server name) =
      (rows.filter (named server name)).map (touch now set) := by
  rw [List.filter_map]
  congr 1
  apply List.filter_congr
  intro row _
  simp only [Function.comp_apply, named, touch_name hset]

theorem updateAll_eq_some {column : IaOrganisation → String}
    {set : String → IaOrganisation → IaOrganisation} {name : String} {x : Execution} :
    updateAll server column set name x t = some t' ↔
      x.executed ∧ ∃ value, selected server column name t = some value ∧
        t' = { t with rows := t.rows.map (touch x.now (set value)) } := by
  unfold updateAll
  cases x.executed with
  | false => simp
  | true =>
    rw [if_pos rfl, Option.map_eq_some_iff]
    simp [eq_comm]

theorem selected_eq {column : IaOrganisation → String} {name : String} {row : IaOrganisation}
    (h : t.rows.filter (named server name) = [row]) :
    selected server column name t = some (column row) := by
  rw [selected, h]

theorem touch_setKey (now : Int) (key : String) (row : IaOrganisation) :
    (touch now (setKey key) row).key = key ∧
      (touch now (setKey key) row).insightsKey = row.insightsKey := by
  unfold touch
  split
  · rename_i hsame
    exact ⟨congrArg IaOrganisation.key hsame.symm, rfl⟩
  · exact ⟨rfl, rfl⟩

theorem touch_setInsightsKey (now : Int) (insightsKey : String) (row : IaOrganisation) :
    (touch now (setInsightsKey insightsKey) row).insightsKey = insightsKey ∧
      (touch now (setInsightsKey insightsKey) row).key = row.key := by
  unfold touch
  split
  · rename_i hsame
    exact ⟨congrArg IaOrganisation.insightsKey hsame.symm, rfl⟩
  · exact ⟨rfl, rfl⟩

def rewritten (second third : Execution) (insightsKey key : String) (row : IaOrganisation) :
    IaOrganisation :=
  touch third.now (setKey key) (touch second.now (setInsightsKey insightsKey) row)

theorem rewritten_keys (second third : Execution) (insightsKey key : String)
    (row : IaOrganisation) :
    (rewritten second third insightsKey key row).insightsKey = insightsKey ∧
      (rewritten second third insightsKey key row).key = key := by
  unfold rewritten
  rw [(touch_setKey ..).1, (touch_setKey ..).2, (touch_setInsightsKey ..).1]
  exact ⟨rfl, rfl⟩

theorem rewritten_name {insightsKey key : String} (row : IaOrganisation) :
    (rewritten second third insightsKey key row).organisationName = row.organisationName := by
  have hkey : ∀ row, (setKey key row).organisationName = row.organisationName := fun _ => rfl
  have hinsights : ∀ row, (setInsightsKey insightsKey row).organisationName =
      row.organisationName := fun _ => rfl
  rw [rewritten, touch_name hkey, touch_name hinsights]

theorem rewritten_eq_iff {insightsKey key : String} {row : IaOrganisation} :
    rewritten second third insightsKey key row = row ↔
      row.insightsKey = insightsKey ∧ row.key = key := by
  constructor
  · intro h
    have hkeys := rewritten_keys second third insightsKey key row
    rwa [h] at hkeys
  · intro ⟨hinsights, hkey⟩
    simp [rewritten, touch, setKey, setInsightsKey, ← hinsights, ← hkey]

/-- The first update changes nothing that the second one reads. -/
theorem selected_key_touched {name insightsKey : String} {now : Int} :
    selected server IaOrganisation.key name
        { t with rows := t.rows.map (touch now (setInsightsKey insightsKey)) } =
      selected server IaOrganisation.key name t := by
  simp only [selected, filter_named_touch (setInsightsKey insightsKey) fun _ => rfl]
  cases t.rows.filter (named server name) with
  | nil => simp
  | cons row rest =>
    cases rest with
    | nil => exact congrArg some (touch_setInsightsKey now insightsKey row).2
    | cons row' rest => rfl

theorem updates_eq_some {t₁ t₃ : IaOrganisations} :
    (updateInsightsKey server second t₁).bind (updateKey server third) = some t₃ ↔
      second.executed ∧ third.executed ∧ ∃ insightsKey key,
        selected server IaOrganisation.insightsKey "acme" t₁ = some insightsKey ∧
        selected server IaOrganisation.key "acme" t₁ = some key ∧
        t₃ = { t₁ with rows := t₁.rows.map (rewritten second third insightsKey key) } := by
  simp only [Option.bind_eq_some_iff, updateInsightsKey, updateKey, updateAll_eq_some]
  constructor
  · rintro ⟨t₂, ⟨hsecond, insightsKey, hinsights, rfl⟩, hthird, key, hkey, rfl⟩
    rw [selected_key_touched] at hkey
    refine ⟨hsecond, hthird, insightsKey, key, hinsights, hkey, ?_⟩
    simp [rewritten, Function.comp_def]
  · rintro ⟨hsecond, hthird, insightsKey, key, hinsights, hkey, rfl⟩
    refine ⟨_, ⟨hsecond, insightsKey, hinsights, rfl⟩, hthird, key, ?_, ?_⟩
    · rwa [selected_key_touched]
    · simp [rewritten, Function.comp_def]

theorem keysShared_iff {before after : IaOrganisations} {insightsKey key : String}
    (hsecond : second.executed) (hthird : third.executed)
    (hinsights : selected server IaOrganisation.insightsKey "acme" after = some insightsKey)
    (hkey : selected server IaOrganisation.key "acme" after = some key) :
    KeysShared server second third before after ↔
      (∃ acme ∈ after.rows, named server "acme" acme) ∧
        ∀ row ∈ before.rows, row.insightsKey = insightsKey ∧ row.key = key := by
  unfold selected at hinsights hkey
  cases hacme : after.rows.filter (named server "acme") with
  | nil =>
    have hnone : ¬ ∃ acme ∈ after.rows, named server "acme" acme := by
      intro ⟨acme, hmem, hnamed⟩
      have := List.mem_filter.mpr ⟨hmem, hnamed⟩
      rw [hacme] at this
      cases this
    apply iff_of_false
    · intro ⟨_, _, acme, hone, _⟩
      cases hacme.symm.trans hone
    · exact fun h => hnone h.1
  | cons acme rest =>
    cases rest with
    | nil =>
      simp only [hacme, Option.some.injEq] at hinsights hkey
      subst hinsights hkey
      have hmem : acme ∈ after.rows.filter (named server "acme") := by simp [hacme]
      have hex : ∃ acme ∈ after.rows, named server "acme" acme :=
        ⟨acme, List.mem_filter.mp hmem⟩
      constructor
      · intro ⟨_, _, acme', hone, hrows⟩
        cases hacme.symm.trans hone
        exact ⟨hex, fun row hrow => (hrows row hrow).symm⟩
      · intro ⟨_, hrows⟩
        exact ⟨hsecond, hthird, acme, hacme, fun row hrow => (hrows row hrow).symm⟩
    | cons acme' rest => simp [hacme] at hkey

theorem addOrganisation_of_inserts (h : Inserts server organisationName connected first t) :
    addOrganisation server organisationName connected first second third t =
      runStatements [updateInsightsKey server second, updateKey server third]
        (inserted server organisationName first t) := by
  rw [addOrganisation, if_pos h.1, runStatements, insert_of_inserts h]

theorem addsOnly_rewritten_iff {insightsKey key : String} :
    AddsOnly server organisationName t (true,
        { inserted server organisationName first t with
          rows := (inserted server organisationName first t).rows.map
            (rewritten second third insightsKey key) }) ↔
      (∃ acme ∈ (inserted server organisationName first t).rows, named server "acme" acme) ∧
        ∀ row ∈ t.rows, row.insightsKey = insightsKey ∧ row.key = key := by
  have hmap : (inserted server organisationName first t).rows.map
      (rewritten second third insightsKey key) =
        t.rows.map (rewritten second third insightsKey key) ++ [rewritten second third insightsKey
          key (newRow server organisationName first.now t.autoIncrement)] := by
    simp [inserted]
  have hkept : t.rows.map (rewritten second third insightsKey key) = t.rows ↔
      ∀ row ∈ t.rows, row.insightsKey = insightsKey ∧ row.key = key := by
    conv_lhs => rhs; rw [← List.map_id t.rows]
    rw [List.map_inj_left]
    simp only [id, rewritten_eq_iff]
  simp only [AddsOnly, if_true]
  constructor
  · intro ⟨row, acme, hrows, _, hacme, hnamed, _⟩
    obtain ⟨acme₀, hmem, rfl⟩ := List.mem_map.mp hacme
    rw [named, rewritten_name] at hnamed
    rw [hmap] at hrows
    exact ⟨⟨acme₀, hmem, hnamed⟩, hkept.mp (List.append_inj_left' hrows rfl)⟩
  · intro ⟨⟨acme, hmem, hnamed⟩, hkeys⟩
    have hnew := rewritten_keys second third insightsKey key
    refine ⟨rewritten second third insightsKey key
      (newRow server organisationName first.now t.autoIncrement),
      rewritten second third insightsKey key acme, ?_, ?_, List.mem_map_of_mem hmem, ?_, ?_, ?_⟩
    · rw [hmap, hkept.mpr hkeys]
    · exact rewritten_name _
    · rw [named, rewritten_name]
      exact hnamed
    · rw [(hnew _).2, (hnew _).2]
    · rw [(hnew _).1, (hnew _).1]

theorem length_of_updateInsightsKey (h : updateInsightsKey server second t = some t') :
    t'.rows.length = t.rows.length := by
  obtain ⟨-, insightsKey, -, rfl⟩ := updateAll_eq_some.mp h
  simp

theorem addOrganisation_succeeds_iff (h : Inserts server organisationName connected first t)
    (second third : Execution) :
    (addOrganisation server organisationName connected first second third t).1 = true ↔
      second.executed ∧ third.executed ∧ ∃ insightsKey key,
        selected server IaOrganisation.insightsKey "acme"
          (inserted server organisationName first t) = some insightsKey ∧
        selected server IaOrganisation.key "acme"
          (inserted server organisationName first t) = some key := by
  rw [addOrganisation_of_inserts h]
  rcases runStatements_pair (updateInsightsKey server second) (updateKey server third)
    (inserted server organisationName first t) with ⟨t₃, hboth, hr⟩ | ⟨hnone, t', hr, _⟩
  · rw [hr]
    obtain ⟨hsecond, hthird, insightsKey, key, hinsights, hkey, _⟩ := updates_eq_some.mp hboth
    exact iff_of_true rfl ⟨hsecond, hthird, insightsKey, key, hinsights, hkey⟩
  · rw [hr]
    apply iff_of_false Bool.false_ne_true
    intro ⟨hsecond, hthird, insightsKey, key, hinsights, hkey⟩
    have hboth := updates_eq_some.mpr ⟨hsecond, hthird, insightsKey, key, hinsights, hkey, rfl⟩
    rw [hnone] at hboth
    cases hboth

theorem rows_ne_of_failed (h : Inserts server organisationName connected first t)
    (hfailed : (addOrganisation server organisationName connected first second third t).1 = false) :
    (addOrganisation server organisationName connected first second third t).2.rows ≠ t.rows := by
  rw [addOrganisation_of_inserts h] at hfailed ⊢
  rcases runStatements_pair (updateInsightsKey server second) (updateKey server third)
    (inserted server organisationName first t) with ⟨t₃, _, hr⟩ | ⟨_, t', hr, hleft⟩
  · rw [hr] at hfailed
    cases hfailed
  · rw [hr]
    have hinserted : (inserted server organisationName first t).rows.length =
        t.rows.length + 1 := by simp [inserted]
    have hlength : t'.rows.length = t.rows.length + 1 := by
      obtain rfl | hfirst := hleft
      · exact hinserted
      · rw [length_of_updateInsightsKey hfirst, hinserted]
    intro hsame
    have hsame' : t'.rows.length = t.rows.length := congrArg List.length hsame
    omega

/-- Adding an organisation changes nothing but its own row exactly if the insert is not carried
out, or both updates are and find every other row with the keys they write. -/
theorem addsOnly_iff :
    AddsOnly server organisationName t
        (addOrganisation server organisationName connected first second third t) ↔
      (Inserts server organisationName connected first t →
        KeysShared server second third t (inserted server organisationName first t)) := by
  by_cases hins : Inserts server organisationName connected first t
  swap
  · rw [addOrganisation_of_not_inserts hins]
    exact iff_of_true rfl fun h => absurd h hins
  rw [imp_iff_right hins]
  cases hr : (addOrganisation server organisationName connected first second third t).1 with
  | true =>
    obtain ⟨hsecond, hthird, insightsKey, key, hinsights, hkey⟩ :=
      (addOrganisation_succeeds_iff hins second third).mp hr
    have hboth := updates_eq_some.mpr ⟨hsecond, hthird, insightsKey, key, hinsights, hkey, rfl⟩
    rw [addOrganisation_of_inserts hins, runStatements_of_bind hboth,
      keysShared_iff hsecond hthird hinsights hkey, addsOnly_rewritten_iff]
  | false =>
    apply iff_of_false
    · intro hsame
      rw [AddsOnly, hr, if_neg Bool.false_ne_true] at hsame
      exact rows_ne_of_failed hins hr hsame
    · -- with one acme and both updates carried out neither of them would have thrown
      intro ⟨hsecond, hthird, acme, hacme, _⟩
      have hsucceeds := (addOrganisation_succeeds_iff hins second third).mpr ⟨hsecond, hthird,
        acme.insightsKey, acme.key, selected_eq hacme, selected_eq hacme⟩
      rw [hr] at hsucceeds
      cases hsucceeds

def acmeAndBeta : IaOrganisations where
  rows := [⟨1, "acme", "acme key", "acme insights key", 1, 0, 0, 17600⟩,
    ⟨2, "beta", "beta key", "beta insights key", 1, 0, 0, 17600⟩]
  autoIncrement := 3

/-- Success gives acme's keys to the other organisation as well, and a failure of the last
statement leaves the new row behind. -/
theorem others_overwritten :
    ¬ AddsOnly .plain "gamma" acmeAndBeta
        (addOrganisation .plain "gamma" true ⟨true, 5⟩ ⟨true, 6⟩ ⟨true, 7⟩ acmeAndBeta) ∧
      ¬ AddsOnly .plain "gamma" acmeAndBeta
        (addOrganisation .plain "gamma" true ⟨true, 5⟩ ⟨true, 6⟩ ⟨false, 7⟩ acmeAndBeta) := by
  constructor
  · intro ⟨row, acme, hrows, _⟩
    have hbeta : (addOrganisation .plain "gamma" true ⟨true, 5⟩ ⟨true, 6⟩ ⟨true, 7⟩
        acmeAndBeta).2.rows[1]? = acmeAndBeta.rows[1]? := by
      rw [hrows]
      rfl
    exact absurd hbeta (by decide)
  · intro hsame
    have hrows : (addOrganisation .plain "gamma" true ⟨true, 5⟩ ⟨true, 6⟩ ⟨false, 7⟩
      acmeAndBeta).2.rows = acmeAndBeta.rows := hsame
    exact absurd hrows (by decide)

end StoreOrganisation

namespace DeleteOrganisation
open IaOrganisations
variable (server : Server)

def deleteOrganisation (organisationName : String) (enabled : Int) (first second : Execution)
    (t : IaOrganisations) : Bool × IaOrganisations :=
  runStatements [setEnabled server enabled organisationName first,
    delete server organisationName second] t

end DeleteOrganisation
end InsightsAssist
