import Mathlib.Logic.Function.Basic
import InsightsAssist.BiMap
import InsightsAssist.Java
import InsightsAssist.Organisations
import InsightsAssist.Runs
import InsightsAssist.Threads

/-! The organisation service's cache beside the table that it is filled from: a restart reads the
table before it takes the lock under which it replaces the cache. -/
namespace InsightsAssist.OrganisationCache
open Runs IaOrganisations

structure OrganisationImpl where
  organisationId : Int
  organisationName : String
  key : String
  enabled : Bool
  deriving DecidableEq, Repr

/-- A row as an OrganisationImpl; of the numbers only 1 is read as true. -/
def OrganisationImpl.ofRow (row : IaOrganisation) : OrganisationImpl :=
  ⟨row.organisationId, row.organisationName, row.key, row.enabled = 1⟩

def fetchOrganisations (t : IaOrganisations) : List OrganisationImpl := t.rows.map .ofRow

structure Cache where
  idToOrganisationMap : AList fun _ : Int => OrganisationImpl
  nameToIdMap : BiMap String Int

namespace Cache

def empty : Cache := ⟨∅, BiMap.empty⟩

def getOrganisationById (cache : Cache) (id : Int) : Option OrganisationImpl :=
  cache.idToOrganisationMap.lookup id

def getOrganisation (cache : Cache) (name : String) : Option OrganisationImpl :=
  match cache.nameToIdMap.get name with
  | none => none
  | some organisationId => cache.idToOrganisationMap.lookup organisationId

def isOrganisationEnabled (cache : Cache) (id : Int) : Bool :=
  match cache.idToOrganisationMap.lookup id with
  | none => false
  | some organisation => organisation.enabled

/-- A round of the loop of `cacheOrganisations`; the bimap refuses an id that it holds under
another name. -/
def add (organisation : OrganisationImpl) : Java Cache Unit := do
  modify fun cache => { cache with idToOrganisationMap :=
    cache.idToOrganisationMap.insert organisation.organisationId organisation }
  let cache ← get
  match cache.nameToIdMap.put organisation.organisationName organisation.organisationId with
  | some nameToIdMap => set { cache with nameToIdMap }
  | none => throw (.illegalArgument (some "value already present"))

def addAll : List OrganisationImpl → Java Cache Unit
  | [] => pure ()
  | organisation :: rest => do
    add organisation
    addAll rest

def cacheOrganisations (listOfOrganisations : List OrganisationImpl) : Java Cache Unit := do
  set empty
  addAll listOfOrganisations

/-- `restart`; `fetched` is whether its query returns. -/
def restart (fetched : Bool) (t : IaOrganisations) : Java Cache Unit :=
  if fetched then cacheOrganisations (fetchOrganisations t)
  else throw (.external "DataAccessException")

end Cache

structure Answers (cache : Cache) (organisations : List OrganisationImpl) : Prop where
  byId : ∀ id, cache.getOrganisationById id = organisations.find? (·.organisationId = id)
  byName : ∀ name, cache.getOrganisation name = organisations.find? (·.organisationName = name)
  enabled : ∀ id, cache.isOrganisationEnabled id =
    (organisations.find? (·.organisationId = id)).any (·.enabled)

/-! ### Actions -/

inductive Statement where
  | insertInto (name : String)
  | updateInsightsKey
  | updateKey
  | setEnabled (enabled : Int) (name : String)
  | delete (name : String)
  | insertRow (row : IaOrganisation)
  deriving DecidableEq, Repr

def Statement.run (server : Server) : Statement → Execution → IaOrganisations →
    Option IaOrganisations
  | .insertInto name => IaOrganisations.insertInto server name
  | .updateInsightsKey => StoreOrganisation.updateInsightsKey server
  | .updateKey => StoreOrganisation.updateKey server
  | .setEnabled enabled name => IaOrganisations.setEnabled server enabled name
  | .delete name => IaOrganisations.delete server name
  | .insertRow row => IaOrganisations.insertRow server row

/-- An import whose upload is rejected runs no statement; `restart` is that of the refresh. -/
inductive Action where
  | StoreOrganisation (name : String)
  | DeleteOrganisation (name : String)
  | ImportOrganisation (row : Option IaOrganisation)
  | restart
  deriving DecidableEq, Repr

def Action.statements : Action → List Statement
  | .StoreOrganisation name => [.insertInto name, .updateInsightsKey, .updateKey]
  | .DeleteOrganisation name => [.setEnabled 0 name, .delete name]
  | .ImportOrganisation row => row.toList.map .insertRow
  | .restart => []

inductive Progress where
  | running (rest : List Statement)
  /-- an import that has not looked at `status` yet -/
  | uploaded
  | restarting
  /-- the table is read, the lock not yet taken -/
  | caching (listOfOrganisations : List OrganisationImpl)
  | done
  deriving DecidableEq, Repr

structure Thread where
  action : Action
  progress : Progress
  deriving DecidableEq, Repr

/-- `status` is the field of the one ImportOrganisation. -/
structure State where
  iaOrganisations : IaOrganisations
  cache : Cache
  status : Bool
  threads : List Thread

inductive Step where
  | start (action : Action)
  | statement (thread : Nat) (x : Execution)
  | checkStatus (thread : Nat)
  /-- `fetchOrganisations`, which returns or throws -/
  | fetch (thread : Nat) (returns : Bool)
  | install (thread : Nat)
  deriving DecidableEq, Repr

def Action.imports : Action → Bool
  | .ImportOrganisation _ => true
  | _ => false

def Action.finished (action : Action) (succeeded : Bool) : Progress :=
  if action.imports then .uploaded else if succeeded then .restarting else .done

def State.advance (s : State) (t : Nat) (p : Progress) : State :=
  { s with threads := s.threads.modify t fun thread => { thread with progress := p } }

variable (server : Server)

def step (s : State) : Step → Option State
  | .start action =>
    let progress := match action.statements with
      | [] => action.finished true
      | statements => .running statements
    some { s with threads := s.threads ++ [⟨action, progress⟩] }
  | .statement t x => s.threads[t]?.bind fun thread =>
    match thread.progress with
    | .running (statement :: rest) =>
      match statement.run server x s.iaOrganisations with
      | some iaOrganisations =>
        let status := s.status || thread.action.imports
        let progress := match rest with
          | [] => thread.action.finished true
          | rest => .running rest
        some ({ s with iaOrganisations, status }.advance t progress)
      | none => some (s.advance t (thread.action.finished false))
    | _ => none
  | .checkStatus t => s.threads[t]?.bind fun thread =>
    match thread.progress with
    | .uploaded => some (s.advance t (if s.status then .restarting else .done))
    | _ => none
  | .fetch t returns => s.threads[t]?.bind fun thread =>
    match thread.progress with
    | .restarting =>
      some (s.advance t (if returns then .caching (fetchOrganisations s.iaOrganisations) else .done))
    | _ => none
  | .install t => s.threads[t]?.bind fun thread =>
    match thread.progress with
    | .caching listOfOrganisations =>
      some ({ s with cache := ((Cache.cacheOrganisations listOfOrganisations).run s.cache).2
        }.advance t .done)
    | _ => none

def started (t : IaOrganisations) : State where
  iaOrganisations := t
  cache := ((Cache.cacheOrganisations (fetchOrganisations t)).run Cache.empty).2
  status := false
  threads := []

def Current (s : State) : Prop := Answers s.cache (fetchOrganisations s.iaOrganisations)

/-- The tables that the threads have read, and the one that the cache was last filled from. -/
structure Seen where
  read : Nat → IaOrganisations
  shown : IaOrganisations

def observe (s : State) (seen : Seen) : Step → Seen
  | .fetch t true => { seen with read := Function.update seen.read t s.iaOrganisations }
  | .install t => { seen with shown := seen.read t }
  | _ => seen

def seen (t : IaOrganisations) (h : List Step) : Seen :=
  observation (step server) observe (started t) ⟨fun _ => t, t⟩ h

def SameOrganisations (t t' : IaOrganisations) : Prop :=
  ∀ organisation, organisation ∈ fetchOrganisations t ↔ organisation ∈ fetchOrganisations t'

/-! ### Filling the cache -/

theorem find?_concat {α : Type} {p : α → Bool} {xs : List α} {x : α}
    (h : p x → xs.find? p = none) :
    (xs ++ [x]).find? p = if p x then some x else xs.find? p := by
  rw [List.find?_append]
  by_cases hp : p x
  · simp [hp, h hp]
  · simp [hp]

theorem find?_eq_none_of_not_mem {α β : Type} [DecidableEq β] {f : α → β} {xs : List α} {b : β}
    (h : b ∉ xs.map f) : xs.find? (fun x => f x = b) = none := by
  rw [List.find?_eq_none]
  intro x hx hb
  exact h (List.mem_map.mpr ⟨x, hx, of_decide_eq_true hb⟩)

theorem find?_eq_some_iff_of_nodup {α β : Type} [DecidableEq β] {f : α → β} {xs : List α}
    (h : (xs.map f).Nodup) {b : β} {x : α} :
    xs.find? (fun x => f x = b) = some x ↔ x ∈ xs ∧ f x = b := by
  constructor
  · intro hfind
    have hkey := List.find?_some hfind
    exact ⟨List.mem_of_find?_eq_some hfind, of_decide_eq_true hkey⟩
  · intro ⟨hx, hb⟩
    cases hfind : xs.find? (fun x => f x = b) with
    | none =>
      have hno := List.find?_eq_none.mp hfind x hx
      simp [hb] at hno
    | some y =>
      have hy := List.find?_some hfind
      have hsame : f y = f x := (of_decide_eq_true hy).trans hb.symm
      rw [List.inj_on_of_nodup_map h (List.mem_of_find?_eq_some hfind) hx hsame]

namespace Cache

structure Filled (cache : Cache) (organisations : List OrganisationImpl) : Prop where
  byId : ∀ id, cache.idToOrganisationMap.lookup id =
    organisations.find? (·.organisationId = id)
  byName : ∀ name, cache.nameToIdMap.get name =
    (organisations.find? (·.organisationName = name)).map (·.organisationId)

variable {cache : Cache} {organisations rest : List OrganisationImpl}
  {organisation : OrganisationImpl}

theorem filled_empty : Filled empty [] where
  byId id := by simp [empty]
  byName name := by simp [empty]

theorem Filled.add (h : Filled cache organisations)
    (hid : organisation.organisationId ∉ organisations.map (·.organisationId))
    (hname : organisation.organisationName ∉ organisations.map (·.organisationName)) :
    ∃ cache', (add organisation).run cache = (.ok ⟨⟩, cache') ∧
      Filled cache' (organisations ++ [organisation]) := by
  have hfree : ∀ name, cache.nameToIdMap.get name = some organisation.organisationId →
      name = organisation.organisationName := by
    intro name hget
    rw [h.byName] at hget
    obtain ⟨other, hfind, hother⟩ := Option.map_eq_some_iff.mp hget
    exact absurd (List.mem_map.mpr ⟨other, List.mem_of_find?_eq_some hfind, hother⟩) hid
  obtain ⟨nameToIdMap, hput, hget⟩ := cache.nameToIdMap.put_of_free _ _ hfree
  refine ⟨⟨cache.idToOrganisationMap.insert organisation.organisationId organisation,
    nameToIdMap⟩, ?_, ?_, ?_⟩
  · simp only [Cache.add, Prog.run_bind, Prog.run_modify, Prog.run_get, hput]
    rfl
  · intro id
    rw [find?_concat fun hp => by
      rw [← of_decide_eq_true hp]
      exact find?_eq_none_of_not_mem hid]
    by_cases heq : organisation.organisationId = id
    · subst heq
      simp
    · have hne : id ≠ organisation.organisationId := Ne.symm heq
      simp [heq, AList.lookup_insert_ne hne, h.byId]
  · intro name
    rw [hget, find?_concat fun hp => by
      rw [← of_decide_eq_true hp]
      exact find?_eq_none_of_not_mem hname]
    by_cases heq : organisation.organisationName = name
    · simp [heq]
    · have hne : name ≠ organisation.organisationName := Ne.symm heq
      simp [heq, hne, h.byName]

theorem Filled.addAll (h : Filled cache organisations)
    (hids : ((organisations ++ rest).map (·.organisationId)).Nodup)
    (hnames : ((organisations ++ rest).map (·.organisationName)).Nodup) :
    ∃ cache', (addAll rest).run cache = (.ok ⟨⟩, cache') ∧
      Filled cache' (organisations ++ rest) := by
  induction rest generalizing cache organisations with
  | nil => exact ⟨cache, rfl, by simpa using h⟩
  | cons organisation rest ih =>
    have hid : organisation.organisationId ∉ organisations.map (·.organisationId) := by
      simp only [List.map_append, List.map_cons] at hids
      exact fun hmem => List.disjoint_of_nodup_append hids hmem List.mem_cons_self
    have hname : organisation.organisationName ∉ organisations.map (·.organisationName) := by
      simp only [List.map_append, List.map_cons] at hnames
      exact fun hmem => List.disjoint_of_nodup_append hnames hmem List.mem_cons_self
    obtain ⟨cache₁, hadd, hfilled⟩ := h.add hid hname
    rw [List.append_cons] at hids hnames ⊢
    obtain ⟨cache', hrest, hfilled'⟩ := ih hfilled hids hnames
    exact ⟨cache', by rw [Cache.addAll, Prog.run_bind_ok hadd, hrest], hfilled'⟩

theorem Filled.answers (h : Filled cache organisations)
    (hids : (organisations.map (·.organisationId)).Nodup) : Answers cache organisations where
  byId := h.byId
  byName name := by
    rw [getOrganisation, h.byName]
    cases hfind : organisations.find? (·.organisationName = name) with
    | none => rfl
    | some organisation =>
      show cache.idToOrganisationMap.lookup organisation.organisationId = some organisation
      rw [h.byId, find?_eq_some_iff_of_nodup hids]
      exact ⟨List.mem_of_find?_eq_some hfind, rfl⟩
  enabled id := by
    rw [isOrganisationEnabled, h.byId]
    cases organisations.find? (·.organisationId = id) <;> rfl

theorem nodup_ids {t : IaOrganisations} (h : WellFormed t) :
    ((fetchOrganisations t).map (·.organisationId)).Nodup := by
  have hmap : (fetchOrganisations t).map (·.organisationId) =
      t.rows.map IaOrganisation.organisationId := by
    simp [fetchOrganisations, OrganisationImpl.ofRow]
  rw [hmap]
  exact h.sorted.imp fun hlt => Int.ne_of_lt hlt

theorem nodup_names {t : IaOrganisations} (h : WellFormed t) :
    ((fetchOrganisations t).map (·.organisationName)).Nodup := by
  have hmap : (fetchOrganisations t).map (·.organisationName) =
      t.rows.map IaOrganisation.organisationName := by
    simp [fetchOrganisations, OrganisationImpl.ofRow]
  rw [hmap]
  exact h.names

theorem cacheOrganisations_of_wellFormed {t : IaOrganisations} (h : WellFormed t) (cache : Cache) :
    ∃ cache', (cacheOrganisations (fetchOrganisations t)).run cache = (.ok ⟨⟩, cache') ∧
      Filled cache' (fetchOrganisations t) := by
  obtain ⟨cache', hrun, hfilled⟩ := filled_empty.addAll (by simpa using nodup_ids h)
    (by simpa using nodup_names h)
  refine ⟨cache', ?_, hfilled⟩
  rw [cacheOrganisations, Prog.run_bind_ok (Prog.run_set empty cache)]
  simpa using hrun

theorem restart_of_wellFormed {t : IaOrganisations} (h : WellFormed t) (cache : Cache) :
    ∃ cache', (restart true t).run cache = (.ok ⟨⟩, cache') := by
  obtain ⟨cache', hcached, _⟩ := cacheOrganisations_of_wellFormed h cache
  exact ⟨cache', hcached⟩

theorem answers_cacheOrganisations {t : IaOrganisations} (h : WellFormed t) (cache : Cache) :
    Answers ((cacheOrganisations (fetchOrganisations t)).run cache).2 (fetchOrganisations t) := by
  obtain ⟨cache', hcached, hfilled⟩ := cacheOrganisations_of_wellFormed h cache
  rw [hcached]
  exact hfilled.answers (nodup_ids h)

end Cache

/-! ### Runs -/
variable {server : Server} {s s' : State} {a : Step} {t t' : IaOrganisations}

theorem wellFormed_run {statement : Statement} {x : Execution} (h : WellFormed t)
    (hs : statement.run server x t = some t') : WellFormed t' := by
  cases statement with
  | insertInto name => exact h.insertRow hs
  | insertRow row => exact h.insertRow hs
  | updateInsightsKey =>
    obtain ⟨_, insightsKey, _, rfl⟩ := StoreOrganisation.updateAll_eq_some.mp hs
    exact h.map (touch_id fun _ => rfl) (touch_name fun _ => rfl)
  | updateKey =>
    obtain ⟨_, key, _, rfl⟩ := StoreOrganisation.updateAll_eq_some.mp hs
    exact h.map (touch_id fun _ => rfl) (touch_name fun _ => rfl)
  | setEnabled enabled name =>
    obtain ⟨_, hs⟩ := Option.ite_none_right_eq_some.mp hs
    cases hs
    apply h.map <;> intro row <;> split
    · apply touch_id
      exact fun _ => rfl
    · rfl
    · apply touch_name
      exact fun _ => rfl
    · rfl
  | delete name =>
    obtain ⟨_, hs⟩ := Option.ite_none_right_eq_some.mp hs
    cases hs
    exact h.filter _

/-- The table is well formed, the cache answers as the one that it was filled from, and the lists
that are about to be cached are those of the tables that were read. -/
structure Inv (s : State) (o : Seen) : Prop where
  table : WellFormed s.iaOrganisations
  wellFormed : WellFormed o.shown
  answers : Answers s.cache (fetchOrganisations o.shown)
  reads : ∀ (i : Nat) (thread : Thread) listOfOrganisations, s.threads[i]? = some thread →
    thread.progress = .caching listOfOrganisations →
    WellFormed (o.read i) ∧ listOfOrganisations = fetchOrganisations (o.read i)

variable {o : Seen} {i : Nat} {thread : Thread} {p : Progress}

theorem Inv.advance (h : Inv s o) (hp : ∀ list, p ≠ .caching list) : Inv (s.advance i p) o where
  table := h.table
  wellFormed := h.wellFormed
  answers := h.answers
  reads j thread list hj hcaching := by
    obtain ⟨_, old, _, rfl⟩ | ⟨_, hold⟩ := Threads.getElem?_modify_cases hj
    · exact absurd hcaching (hp list)
    · exact h.reads j thread list hold hcaching

theorem Inv.start (h : Inv s o) {action : Action} (hp : ∀ list, p ≠ .caching list) :
    Inv { s with threads := s.threads ++ [⟨action, p⟩] } o where
  table := h.table
  wellFormed := h.wellFormed
  answers := h.answers
  reads j thread list hj hcaching := by
    obtain hold | ⟨_, rfl⟩ := Threads.getElem?_concat_cases hj
    · exact h.reads j thread list hold hcaching
    · exact absurd hcaching (hp list)

theorem finished_ne {action : Action} {succeeded : Bool} (list : List OrganisationImpl) :
    action.finished succeeded ≠ .caching list := by
  unfold Action.finished
  repeat' split
  all_goals exact fun h => nomatch h

theorem Inv.write (h : Inv s o) {status : Bool} (ht : WellFormed t) :
    Inv { s with iaOrganisations := t, status } o :=
  ⟨ht, h.wellFormed, h.answers, h.reads⟩

theorem Inv.fetch (h : Inv s o) :
    Inv (s.advance i (.caching (fetchOrganisations s.iaOrganisations)))
      { o with read := Function.update o.read i s.iaOrganisations } where
  table := h.table
  wellFormed := h.wellFormed
  answers := h.answers
  reads j thread list hj hcaching := by
    obtain ⟨rfl, old, _, rfl⟩ | ⟨hne, hold⟩ := Threads.getElem?_modify_cases hj
    · cases hcaching
      simpa using h.table
    · simpa [hne] using h.reads j thread list hold hcaching

theorem Inv.install (h : Inv s o) {list : List OrganisationImpl} (ht : s.threads[i]? = some thread)
    (hcaching : thread.progress = .caching list) :
    Inv { s with cache := ((Cache.cacheOrganisations list).run s.cache).2 }
      { o with shown := o.read i } := by
  obtain ⟨hread, rfl⟩ := h.reads i thread list ht hcaching
  exact ⟨h.table, hread, Cache.answers_cacheOrganisations hread s.cache, h.reads⟩

theorem Inv.step (h : Inv s o) (hs : step server s a = some s') : Inv s' (observe s o a) := by
  cases a with
  | start action =>
    cases hs
    apply h.start
    intro list
    split
    · exact finished_ne list
    · exact fun h => nomatch h
  | statement t x =>
    obtain ⟨thread, ht, hs⟩ := Option.bind_eq_some_iff.mp hs
    split at hs
    · split at hs
      · rename_i hrun
        cases hs
        apply (h.write (wellFormed_run h.table hrun)).advance
        intro list
        split
        · exact finished_ne list
        · exact fun h => nomatch h
      · cases hs
        exact h.advance finished_ne
    · cases hs
  | checkStatus t =>
    obtain ⟨thread, ht, hs⟩ := Option.bind_eq_some_iff.mp hs
    split at hs <;> cases hs
    apply h.advance
    intro list
    split <;> exact fun h => nomatch h
  | fetch t returns =>
    obtain ⟨thread, ht, hs⟩ := Option.bind_eq_some_iff.mp hs
    split at hs <;> cases hs
    cases returns with
    | false => exact h.advance fun _ h => nomatch h
    | true => exact h.fetch
  | install t =>
    obtain ⟨thread, ht, hs⟩ := Option.bind_eq_some_iff.mp hs
    split at hs
    · rename_i list hcaching
      cases hs
      exact (h.install ht hcaching).advance fun _ h => nomatch h
    · cases hs

theorem inv_of_run (ht : WellFormed t) {h : List Step}
    (hr : Run (step server) AnyStep (started t) h s) : Inv s (seen server t h) := by
  apply Run.observed (fun _ => Inv) ⟨ht, ht, Cache.answers_cacheOrganisations ht _, ?_⟩ ?_ hr
  · intro i thread list hi
    cases hi
  · intro h s o a s' hinv _ hs
    exact hinv.step hs

theorem find?_eq_of_same (ht : WellFormed t) (ht' : WellFormed t') (h : SameOrganisations t t') :
    (∀ id, (fetchOrganisations t).find? (·.organisationId = id) =
        (fetchOrganisations t').find? (·.organisationId = id)) ∧
      ∀ name, (fetchOrganisations t).find? (·.organisationName = name) =
        (fetchOrganisations t').find? (·.organisationName = name) := by
  constructor
  · intro id
    apply Option.ext
    intro organisation
    rw [find?_eq_some_iff_of_nodup (Cache.nodup_ids ht),
      find?_eq_some_iff_of_nodup (Cache.nodup_ids ht'), h organisation]
  · intro name
    apply Option.ext
    intro organisation
    rw [find?_eq_some_iff_of_nodup (Cache.nodup_names ht),
      find?_eq_some_iff_of_nodup (Cache.nodup_names ht'), h organisation]

theorem same_of_answers (ht : WellFormed t) (ht' : WellFormed t') {cache : Cache}
    (h : Answers cache (fetchOrganisations t)) (h' : Answers cache (fetchOrganisations t')) :
    SameOrganisations t t' := by
  intro organisation
  have hfind := find?_eq_some_iff_of_nodup (Cache.nodup_ids ht)
    (b := organisation.organisationId) (x := organisation)
  have hfind' := find?_eq_some_iff_of_nodup (Cache.nodup_ids ht')
    (b := organisation.organisationId) (x := organisation)
  rw [← h.byId, h'.byId, hfind'] at hfind
  simpa using hfind.symm

/-- Whatever the order of the steps, and wherever the actions fail: the cache answers as the table
does exactly if the table that the last restart to replace the cache had read, or the one that the
service was started on, has the organisations that the table has now. -/
theorem current_iff (ht : WellFormed t) {h : List Step}
    (hr : Run (step server) AnyStep (started t) h s) :
    Current s ↔ SameOrganisations (seen server t h).shown s.iaOrganisations := by
  have hinv := inv_of_run ht hr
  constructor
  · exact fun hcurrent => same_of_answers hinv.wellFormed hinv.table hinv.answers hcurrent
  · intro hsame
    obtain ⟨hids, hnames⟩ := find?_eq_of_same hinv.wellFormed hinv.table hsame
    have hold := hinv.answers
    refine ⟨fun id => ?_, fun name => ?_, fun id => ?_⟩
    · rw [hold.byId, hids]
    · rw [hold.byName, hnames]
    · rw [hold.enabled, hids]

/-- An action whose statements are all carried out, and its restart. -/
def inTurn : List Step :=
  [.start (.StoreOrganisation "gamma"), .statement 0 ⟨true, 5⟩, .statement 0 ⟨true, 6⟩,
    .statement 0 ⟨true, 7⟩, .fetch 0 true, .install 0]

theorem current_in_turn :
    ∃ s, Run (step .plain) AnyStep (started StoreOrganisation.acmeAndBeta) inTurn s ∧
      (∀ thread ∈ s.threads, thread.progress = .done) ∧ Current s := by
  have hr : Run (step .plain) AnyStep (started StoreOrganisation.acmeAndBeta) inTurn _ :=
    run_anyStep_iff.mpr rfl
  have ht : WellFormed StoreOrganisation.acmeAndBeta := ⟨by decide, by decide, by decide⟩
  exact ⟨_, hr, by decide, (current_iff ht hr).mpr fun _ => Iff.rfl⟩

/-- The restart of the first action has read the table before the second one deletes a row, and
installs its list last. -/
def overtaken : List Step :=
  [.start (.StoreOrganisation "gamma"), .start (.DeleteOrganisation "beta"),
    .statement 0 ⟨true, 5⟩, .statement 0 ⟨true, 6⟩, .statement 0 ⟨true, 7⟩, .fetch 0 true,
    .statement 1 ⟨true, 8⟩, .statement 1 ⟨true, 9⟩, .fetch 1 true, .install 1, .install 0]

/-- The organisation is disabled, but cannot be deleted. -/
def halfDeleted : List Step :=
  [.start (.DeleteOrganisation "beta"), .statement 0 ⟨true, 5⟩, .statement 0 ⟨false, 6⟩]

/-- A deleted organisation that the cache still has, and a disabled one that it says is enabled. -/
theorem cache_not_current :
    (∃ s, Run (step .plain) AnyStep (started StoreOrganisation.acmeAndBeta) overtaken s ∧
      (∀ thread ∈ s.threads, thread.progress = .done) ∧ ¬ Current s) ∧
    (∃ s, Run (step .plain) AnyStep (started StoreOrganisation.acmeAndBeta) halfDeleted s ∧
      (∀ thread ∈ s.threads, thread.progress = .done) ∧ ¬ Current s) := by
  refine ⟨⟨_, run_anyStep_iff.mpr rfl, by decide, fun hcurrent => ?_⟩,
    ⟨_, run_anyStep_iff.mpr rfl, by decide, fun hcurrent => ?_⟩⟩
  · exact absurd (hcurrent.byId 2) (by decide)
  · exact absurd (hcurrent.enabled 2) (by decide)

end InsightsAssist.OrganisationCache
