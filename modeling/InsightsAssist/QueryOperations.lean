import InsightsAssist.QueryStrings

/-! A query string that is changed by any sequence of its operations, and read again as it is
written. -/
namespace InsightsAssist.UrlEncodedQueryString
open CryptHandler (JavaString)
open Uris

/-! ### The operations -/

/-- `appendOrSet(name, value, append)`. A null value that is appended is stored. -/
def appendOrSet (name value : Option JavaString) (append : Bool) : Java QueryMap Unit := do
  match name with
  | none => throw .nullPointer
  | some name =>
    if append then modify fun queryMap => queryMap.append name value
    else match value with
      | none => modify fun queryMap => queryMap.remove name
      | some value => modify fun queryMap => queryMap.set name (some value)

/-- The loop of `appendOrSet(parameters, append)`, with the names that it has seen. -/
def appendOrSetTokens (append : Bool) (setAlreadyParsed : List JavaString) :
    List JavaString → Java QueryMap Unit
  | [] => return
  | parameter :: rest => do
    let (name, value) := cutAt (code '=') parameter
    let name ← MonadExcept.ofExcept (decode name)
    if !append && !setAlreadyParsed.contains name then appendOrSet (some name) none false
    let value ← MonadExcept.ofExcept (value.mapM decode)
    appendOrSet (some name) value true
    appendOrSetTokens append (if append then setAlreadyParsed else name :: setAlreadyParsed) rest

def appendOrSetQuery (parameters : Option JavaString) (append : Bool) : Java QueryMap Unit :=
  match parameters with
  | none => return
  | some parameters => appendOrSetTokens append [] (tokens parameters)

inductive Separator where
  | AMPERSAND | SEMICOLON
  deriving DecidableEq, Repr

def Separator.char : Separator → UInt16
  | .AMPERSAND => code '&'
  | .SEMICOLON => code ';'

/-- The public operations. A number comes as its text. -/
inductive Operation where
  | append (query : Option JavaString)
  | appendValue (name value : Option JavaString)
  | appendNumber (name value : Option JavaString)
  | set (query : Option JavaString)
  | setValue (name value : Option JavaString)
  | setNumber (name value : Option JavaString)
  | remove (name : Option JavaString)
  deriving Repr

def Operation.run : Operation → Java QueryMap Unit
  | .append query => appendOrSetQuery query true
  | .appendValue name value => appendOrSet name value true
  | .appendNumber name value => do
    let value ← Java.deref value
    appendOrSet name (some value) true
  | .set query => appendOrSetQuery query false
  | .setValue name value => appendOrSet name value false
  | .setNumber name value =>
    match value with
    | none => appendOrSet name none false
    | some value => appendOrSet name (some value) false
  | .remove name => appendOrSet name none false

/-- One operation after the other, whether it throws or not. -/
def runAll (queryMap : QueryMap) (operations : List Operation) : QueryMap :=
  operations.foldl (fun queryMap operation => (operation.run.run queryMap).2) queryMap

def getValues (queryMap : QueryMap) (name : JavaString) : Option (List (Option JavaString)) :=
  queryMap.find name

def contains (queryMap : QueryMap) (name : JavaString) : Bool :=
  (queryMap.find name).isSome

def get (queryMap : QueryMap) (name : JavaString) : Option JavaString :=
  match getValues queryMap name with
  | none => none
  | some parameters => parameters.head?.join

def getNames (queryMap : QueryMap) : List JavaString := queryMap.entries.map Prod.fst

def isEmpty (queryMap : QueryMap) : Bool := queryMap.entries.isEmpty

def appendSeparated (separator : Separator) (builder : JavaString) (p : Parameter) : JavaString :=
  (if builder.length ≠ 0 then builder ++ [separator.char] else builder) ++ parameterText p

def toStringWith (separator : Separator) (queryMap : QueryMap) : JavaString :=
  queryMap.pairs.foldl (appendSeparated separator) []

def equals (queryMap other : QueryMap) : Bool := toString queryMap = toString other

/-! ### What the operations are for -/

/-- The parameters in front of the first one that cannot be read. -/
def readable : List JavaString → List Parameter
  | [] => []
  | token :: tokens =>
    match parameter token with
    | .ok p => p :: readable tokens
    | .error _ => []

/-- The name of the first parameter that cannot be read, where only its value cannot. -/
def halfRead : List JavaString → Option JavaString
  | [] => none
  | token :: tokens =>
    match parameter token with
    | .ok _ => halfRead tokens
    | .error _ => (decode (cutAt (code '=') token).1).toOption

abbrev Shown := Listing JavaString (Option JavaString)

def queryTokens (query : Option JavaString) : List JavaString := query.elim [] tokens

def Operation.names : Operation → List JavaString
  | .append query => (readable (queryTokens query)).map Prod.fst
  | .set query =>
    (readable (queryTokens query)).map Prod.fst ++ (halfRead (queryTokens query)).toList
  | .appendValue name _ | .appendNumber name _ | .setValue name _ | .setNumber name _
  | .remove name => name.toList

/-- What is set takes the place of what its names have; the rest of a query behind a parameter that
cannot be read is lost. -/
def Operation.effect (l : Shown) : Operation → Shown
  | .append query => l.added (readable (queryTokens query))
  | .appendValue (some name) value => l.append name value
  | .appendNumber (some name) (some value) => l.append name (some value)
  | .set query => l.replaced (readable (queryTokens query)) (Operation.set query).names
  | .setValue (some name) (some value) => l.set name (some value)
  | .setNumber (some name) (some value) => l.set name (some value)
  | .setValue (some name) none | .setNumber (some name) none | .remove (some name) => l.remove name
  | _ => l

section Operations
variable {queryMap : QueryMap} {name value : Option JavaString} {n : JavaString} {token : JavaString}
  {rest seen : List JavaString} {append : Bool} {p : Parameter}

theorem run_append (n : JavaString) (value : Option JavaString) :
    (appendOrSet (some n) value true).run queryMap = (.ok (), queryMap.append n value) := rfl

theorem run_remove (n : JavaString) :
    (appendOrSet (some n) none false).run queryMap = (.ok (), queryMap.remove n) := rfl

theorem parameter_eq_ok : parameter token = .ok p ↔
    decode (cutAt (code '=') token).1 = .ok p.1 ∧
      (cutAt (code '=') token).2.mapM decode = .ok p.2 := by
  obtain ⟨n, v⟩ := p
  rw [parameter]
  generalize cutAt (code '=') token = parts
  obtain ⟨name, value⟩ := parts
  cases hname : decode name with
  | error e => simp [hname, bind, Except.bind]
  | ok name' =>
    cases hvalue : value.mapM decode with
    | error e => simp [hname, hvalue, bind, Except.bind]
    | ok value' => simp [hname, hvalue, bind, Except.bind, pure, Except.pure]

def named (append : Bool) (seen : List JavaString) (queryMap : QueryMap) (n : JavaString) :
    QueryMap :=
  if append ∨ n ∈ seen then queryMap else queryMap.remove n

def nowSeen (append : Bool) (seen : List JavaString) (n : JavaString) : List JavaString :=
  if append then seen else n :: seen

theorem run_named (next : Java QueryMap Unit) :
    (if (!append && !seen.contains n) = true then
      appendOrSet (some n) none false >>= fun _ => next else next).run queryMap =
      next.run (named append seen queryMap n) := by
  by_cases h : append ∨ n ∈ seen
  · have hkept : ¬(!append && !seen.contains n) = true := by
      rcases h with h | h <;> simp [h]
    rw [if_neg hkept, named, if_pos h]
  · have hremoved : (!append && !seen.contains n) = true := by
      simpa [not_or] using h
    rw [if_pos hremoved, named, if_neg h, Prog.run_bind_ok (run_remove n)]

theorem run_readable (h : parameter token = .ok p) :
    (appendOrSetTokens append seen (token :: rest)).run queryMap =
      (appendOrSetTokens append (nowSeen append seen p.1) rest).run
        ((named append seen queryMap p.1).append p.1 p.2) := by
  obtain ⟨hname, hvalue⟩ := parameter_eq_ok.mp h
  rw [appendOrSetTokens]
  simp only [hname, hvalue]
  rw [Prog.run_bind_ok (Java.ofExcept_ok p.1 queryMap), run_named,
    Prog.run_bind_ok (Java.ofExcept_ok p.2 _), Prog.run_bind_ok (run_append p.1 p.2)]
  rfl

theorem run_unreadable {e : Throwable} (append : Bool) (seen rest : List JavaString)
    (queryMap : QueryMap) (h : parameter token = .error e) :
    ∃ e', (appendOrSetTokens append seen (token :: rest)).run queryMap = (.error e',
      match decode (cutAt (code '=') token).1 with
      | .ok n => named append seen queryMap n
      | .error _ => queryMap) := by
  rw [appendOrSetTokens]
  cases hname : decode (cutAt (code '=') token).1 with
  | error e' =>
    simp only [hname]
    exact ⟨e', Prog.run_bind_error (Java.ofExcept_error e' queryMap) _⟩
  | ok n =>
    cases hvalue : (cutAt (code '=') token).2.mapM decode with
    | error e' =>
      simp only [hname, hvalue]
      refine ⟨e', ?_⟩
      rw [Prog.run_bind_ok (Java.ofExcept_ok n queryMap), run_named,
        Prog.run_bind_error (Java.ofExcept_error e' _)]
    | ok v =>
      have hok : parameter token = .ok (n, v) := parameter_eq_ok.mpr ⟨hname, hvalue⟩
      rw [hok] at h
      cases h

theorem listing_named :
    (named false seen queryMap n).listing = queryMap.listing.makeRoom seen n := by
  rw [named]
  by_cases hn : n ∈ seen
  · rw [if_pos (.inr hn), Listing.makeRoom, if_pos hn]
  · rw [if_neg (by simpa using hn), Listing.makeRoom, if_neg hn, MultiMap.listing_remove]

theorem run_tokens_append (seen ts : List JavaString) (queryMap : QueryMap) :
    ((appendOrSetTokens true seen ts).run queryMap).2.listing =
      queryMap.listing.appendAll (readable ts) := by
  induction ts generalizing queryMap with
  | nil => rfl
  | cons token ts ih =>
    cases h : parameter token with
    | ok p =>
      have hnamed : named true seen queryMap p.1 = queryMap := if_pos (.inl rfl)
      rw [run_readable h, hnamed, readable, h]
      exact (ih _).trans (by rw [MultiMap.listing_append]; rfl)
    | error e =>
      obtain ⟨e', hrun⟩ := run_unreadable true seen ts queryMap h
      rw [hrun, readable, h]
      cases decode (cutAt (code '=') token).1 <;> rfl

/-- A name of which only the value cannot be read is removed all the same. -/
theorem run_tokens_set (seen ts : List JavaString) (queryMap : QueryMap) :
    ((appendOrSetTokens false seen ts).run queryMap).2.listing =
      (halfRead ts).elim (queryMap.listing.replaceAll seen (readable ts))
        ((queryMap.listing.replaceAll seen (readable ts)).makeRoom
          ((readable ts).map Prod.fst ++ seen)) := by
  induction ts generalizing queryMap seen with
  | nil => rfl
  | cons token ts ih =>
    cases h : parameter token with
    | ok p =>
      have hlisting : ((named false seen queryMap p.1).append p.1 p.2).listing =
          (queryMap.listing.makeRoom seen p.1).append p.1 p.2 := by
        rw [MultiMap.listing_append, listing_named]
      rw [run_readable h, readable, halfRead, h]
      change ((appendOrSetTokens false (p.1 :: seen) ts).run _).2.listing = _
      rw [ih, hlisting]
      cases halfRead ts with
      | none => rfl
      | some n =>
        apply Listing.makeRoom_congr
        simp only [List.mem_append, List.map_cons, List.mem_cons]
        tauto
    | error e =>
      obtain ⟨e', hrun⟩ := run_unreadable false seen ts queryMap h
      rw [hrun, readable, halfRead, h]
      cases decode (cutAt (code '=') token).1 with
      | error e => rfl
      | ok n => exact listing_named

theorem run_query_append (query : Option JavaString) (queryMap : QueryMap) :
    ((appendOrSetQuery query true).run queryMap).2.listing =
      queryMap.listing.added (readable (queryTokens query)) := by
  rw [← Listing.appendAll_eq]
  cases query with
  | none => rfl
  | some query => exact run_tokens_append [] (tokens query) queryMap

theorem run_query_set (query : Option JavaString) (queryMap : QueryMap) :
    ((appendOrSetQuery query false).run queryMap).2.listing =
      (Operation.set query).effect queryMap.listing := by
  cases query with
  | none =>
    rw [Operation.effect, Operation.names, queryTokens, Option.elim_none, readable, halfRead,
      Option.toList_none, List.append_nil, ← Listing.replaceAll_eq]
    rfl
  | some query =>
    change ((appendOrSetTokens false [] (tokens query)).run queryMap).2.listing = _
    rw [run_tokens_set, Listing.replaceAll_eq, List.append_nil, Operation.effect, Operation.names,
      queryTokens, Option.elim_some]
    cases halfRead (tokens query) with
    | none =>
      rw [Option.elim_none, Option.toList_none, List.append_nil]
    | some n => exact Listing.makeRoom_replaced _ _ n

theorem listing_run (operation : Operation) (queryMap : QueryMap) :
    (operation.run.run queryMap).2.listing = operation.effect queryMap.listing := by
  cases operation with
  | append query => exact run_query_append query queryMap
  | set query => exact run_query_set query queryMap
  | appendValue name value =>
    cases name with
    | none => rfl
    | some n => exact MultiMap.listing_append
  | appendNumber name value =>
    cases value with
    | none => cases name <;> rfl
    | some v =>
      cases name with
      | none => rfl
      | some n => exact MultiMap.listing_append
  | setValue name value =>
    cases name with
    | none => cases value <;> rfl
    | some n =>
      cases value with
      | none => exact MultiMap.listing_remove
      | some v => exact MultiMap.listing_set
  | setNumber name value =>
    cases name with
    | none => cases value <;> rfl
    | some n =>
      cases value with
      | none => exact MultiMap.listing_remove
      | some v => exact MultiMap.listing_set
  | remove name =>
    cases name with
    | none => rfl
    | some n => exact MultiMap.listing_remove

theorem listing_runAll (operations : List Operation) (queryMap : QueryMap) :
    (runAll queryMap operations).listing = operations.foldl Operation.effect queryMap.listing := by
  induction operations generalizing queryMap with
  | nil => rfl
  | cons operation operations ih =>
    rw [List.foldl_cons, ← listing_run]
    exact ih _

theorem effect_congr {l l' : Shown} (operation : Operation) (h : l.values n = l'.values n) :
    (operation.effect l).values n = (operation.effect l').values n := by
  have hupdate (k : JavaString) (f : List (Option JavaString) → List (Option JavaString)) :
      Function.update l.values k (f (l.values k)) n =
        Function.update l'.values k (f (l'.values k)) n := by
    by_cases hk : n = k
    · subst hk
      simp [h]
    · rwa [Function.update_of_ne hk, Function.update_of_ne hk]
  rcases operation with query | ⟨_ | k, value⟩ | ⟨_ | k, _ | value⟩ | query | ⟨_ | k, _ | value⟩ |
    ⟨_ | k, _ | value⟩ | _ | k
  case append => exact congrArg (· ++ _) h
  case set => exact Listing.values_replaced_congr h
  case appendValue.some | appendNumber.some.some => exact hupdate k (· ++ [_])
  case setValue.some.some | setNumber.some.some => exact hupdate k fun _ => [_]
  case setValue.some.none | setNumber.some.none | remove.some => exact hupdate k fun _ => []
  all_goals exact h

theorem effect_of_not_mem {l : Shown} {operation : Operation} (h : n ∉ operation.names) :
    (operation.effect l).values n = l.values n := by
  have hupdate (k : JavaString) (vs : List (Option JavaString)) (hk : n ∉ (some k).toList) :
      Function.update l.values k vs n = l.values n :=
    Function.update_of_ne (by simpa using hk) _ _
  rcases operation with query | ⟨_ | k, value⟩ | ⟨_ | k, _ | value⟩ | query | ⟨_ | k, _ | value⟩ |
    ⟨_ | k, _ | value⟩ | _ | k
  case append =>
    change _ ++ Listing.valuesOf n _ = _
    rw [Listing.valuesOf_of_not_mem h, List.append_nil]
  case set => exact if_neg h
  case appendValue.some | appendNumber.some.some | setValue.some.some | setNumber.some.some
    | setValue.some.none | setNumber.some.none | remove.some => exact hupdate k _ h
  all_goals rfl

theorem values_foldl_effect {l l' : Shown} (operations : List Operation)
    (h : l.values n = l'.values n) : (operations.foldl Operation.effect l).values n =
      ((operations.filter (n ∈ ·.names)).foldl Operation.effect l').values n := by
  induction operations generalizing l l' with
  | nil => exact h
  | cons operation operations ih =>
    rw [List.foldl_cons, List.filter_cons]
    split
    · exact ih (effect_congr operation h)
    · rename_i hn
      exact ih ((effect_of_not_mem (by simpa using hn)).trans h)

/-- Whatever is done to a query string, in any order and with any texts, its names and their values
are those of the abstract list, also behind operations that throw; of the operations a name feels
those only that come with it. -/
theorem run_shows (operations : List Operation) (n : JavaString) :
    getNames (runAll .empty operations) =
        (operations.foldl Operation.effect Listing.empty).keys ∧
      getValues (runAll .empty operations) n =
        (if n ∈ getNames (runAll .empty operations) then
          some ((operations.foldl Operation.effect Listing.empty).values n) else none) ∧
      (operations.foldl Operation.effect Listing.empty).values n =
        ((operations.filter (n ∈ ·.names)).foldl Operation.effect Listing.empty).values n := by
  have hshown : (runAll .empty operations).listing =
      operations.foldl Operation.effect Listing.empty := listing_runAll operations .empty
  refine ⟨congrArg Listing.keys hshown, ?_, values_foldl_effect operations rfl⟩
  rw [← hshown]
  by_cases hn : n ∈ getNames (runAll .empty operations)
  · rw [if_pos hn]
    exact (MultiMap.find_eq _ n).trans (if_pos hn)
  · rw [if_neg hn]
    exact (MultiMap.find_eq _ n).trans (if_neg hn)

end Operations

/-! ### Writing and parsing -/

section RoundTrip
variable {queryMap other : QueryMap} {separator : Separator} {p : Parameter} {l : List Parameter}

/-- Every name and value is a text, and no empty name stands alone. -/
def Faithful (queryMap : QueryMap) : Prop :=
  ∀ p ∈ queryMap.pairs, Written p ∧ IsText p.1 ∧ ∀ v ∈ p.2, IsText v

instance : DecidablePred Written := fun p => inferInstanceAs (Decidable (p ≠ ([], none)))

theorem reread_eq_self_iff : reread p = p ↔ IsText p.1 ∧ ∀ v ∈ p.2, IsText v := by
  obtain ⟨n, v⟩ := p
  cases v with
  | none => simp [reread, replaceSurrogates_eq_iff]
  | some v => simp [reread, replaceSurrogates_eq_iff]

theorem reread_reread (p : Parameter) : reread (reread p) = reread p := by
  obtain ⟨n, v⟩ := p
  cases v <;> simp [reread, replaceSurrogates_idem]

theorem replaceSurrogates_ne_nil {s : JavaString} (h : s ≠ []) : replaceSurrogates s ≠ [] :=
  decode_ne_nil (decode_urlEncode s) (urlEncode_ne_nil h)

theorem written_reread (h : Written p) : Written (reread p) := by
  obtain ⟨n, v⟩ := p
  cases v with
  | none =>
    have hn : n ≠ [] := fun hn => h (by rw [hn])
    exact fun hnone => replaceSurrogates_ne_nil hn (Prod.mk.inj hnone).1
  | some v => simp [Written, reread]

theorem parameterText_eq_nil : parameterText p = [] ↔ ¬Written p := by
  constructor
  · intro h hwritten
    exact parameterText_ne_nil hwritten h
  · intro h
    obtain rfl : p = ([], none) := not_not.mp h
    rfl

theorem tokensFrom_texts {token : JavaString} (l : List Parameter) :
    tokensFrom token (l.flatMap fun p => code '&' :: parameterText p) =
      nonEmpty token ++ (l.filter Written).map parameterText := by
  induction l generalizing token with
  | nil => simp [tokensFrom]
  | cons p l ih =>
    rw [List.flatMap_cons, List.cons_append, tokensFrom, if_pos (by decide),
      tokensFrom_append (isSeparator_parameterText p), ih, List.nil_append, List.filter_cons]
    by_cases hp : Written p
    · have hone : nonEmpty (parameterText p) = [parameterText p] := if_neg (parameterText_ne_nil hp)
      rw [if_pos (by simpa using hp), hone]
      rfl
    · have hnone : nonEmpty (parameterText p) = [] := if_pos (parameterText_eq_nil.mpr hp)
      rw [if_neg (by simpa using hp), hnone]
      rfl

theorem tokens_texts (l : List Parameter) :
    tokens (l.foldl appendParameter []) = (l.filter Written).map parameterText := by
  induction l with
  | nil => rfl
  | cons p l ih =>
    have hfirst : appendParameter [] p = parameterText p := rfl
    rw [List.foldl_cons, hfirst, List.filter_cons]
    by_cases hp : Written p
    · rw [foldl_appendParameter (parameterText_ne_nil hp), tokens,
        tokensFrom_append (isSeparator_parameterText p), List.nil_append, tokensFrom_texts,
        if_pos (by simpa using hp), nonEmpty, if_neg (parameterText_ne_nil hp)]
      rfl
    · rw [parameterText_eq_nil.mpr hp, ih, if_neg (by simpa using hp)]

def separated (separator : Separator) (c : UInt16) : UInt16 :=
  if c = code '&' then separator.char else c

theorem tokensFrom_separated (token s : JavaString) :
    tokensFrom token (s.map (separated separator)) = tokensFrom token s := by
  induction s generalizing token with
  | nil => rfl
  | cons c s ih =>
    rw [List.map_cons, tokensFrom, tokensFrom, ih, ih]
    by_cases hc : c = code '&'
    · subst hc
      have hother : isSeparator (separated separator (code '&')) = true := by
        cases separator <;> decide
      have hampersand : isSeparator (code '&') = true := by decide
      rw [hother, hampersand, if_pos rfl, if_pos rfl]
    · have hsame : separated separator c = c := if_neg hc
      rw [hsame]

theorem map_parameterText (p : Parameter) :
    (parameterText p).map (separated separator) = parameterText p := by
  conv_rhs => rw [← List.map_id (parameterText p)]
  refine List.map_congr_left fun c hc => if_neg ?_
  rintro rfl
  exact absurd (isSeparator_parameterText p _ hc) (by decide)

theorem foldl_separated (l : List Parameter) (builder : JavaString) :
    l.foldl (appendSeparated separator) (builder.map (separated separator)) =
      (l.foldl appendParameter builder).map (separated separator) := by
  induction l generalizing builder with
  | nil => rfl
  | cons p l ih =>
    have hfirst : appendSeparated separator (builder.map (separated separator)) p =
        (appendParameter builder p).map (separated separator) := by
      rw [appendParameter, appendSeparated, List.map_append, map_parameterText, List.length_map]
      split
      · rw [List.map_append]
        rfl
      · rfl
    rw [List.foldl_cons, List.foldl_cons, hfirst, ih]

theorem toStringWith_eq (separator : Separator) (queryMap : QueryMap) :
    toStringWith separator queryMap = (toString queryMap).map (separated separator) :=
  foldl_separated queryMap.pairs []

theorem parse_toStringWith (separator : Separator) (queryMap : QueryMap) :
    parse (some (toStringWith separator queryMap)) =
      .ok (.ofPairs ((queryMap.pairs.filter Written).map reread)) := by
  rw [parse_eq, parameters, Option.getD_some, toStringWith_eq, tokens, tokensFrom_separated]
  have htokens : tokensFrom [] (toString queryMap) =
      (queryMap.pairs.filter Written).map parameterText := tokens_texts queryMap.pairs
  rw [htokens]
  have hread (l : List Parameter) : (l.map parameterText).mapM parameter = .ok (l.map reread) := by
    induction l with
    | nil => rfl
    | cons p l ih =>
      rw [List.map_cons, List.mapM_cons, parameter_parameterText, ih]
      rfl
  rw [hread]
  rfl

theorem faithful_iff : Faithful queryMap ↔ ∀ p ∈ queryMap.pairs, Written p ∧ reread p = p := by
  simp only [Faithful, reread_eq_self_iff]

/-- Whatever a query string has been made to hold, what is written of it with either separator is
parsed; the outcome is the query string itself just if it is faithful, and always faithful. -/
theorem parsed_again (queryMap : QueryMap) (separator : Separator) :
    ∃ queryMap', parse (some (toStringWith separator queryMap)) = .ok queryMap' ∧
      Faithful queryMap' ∧ (queryMap' = queryMap ↔ Faithful queryMap) := by
  refine ⟨_, parse_toStringWith separator queryMap, ?_, ?_, ?_⟩
  · rw [faithful_iff]
    intro p hp
    obtain ⟨q, hq, rfl⟩ := List.mem_map.mp (MultiMap.mem_pairs_ofPairs.mp hp)
    have hwritten : Written q := by simpa using (List.mem_filter.mp hq).2
    exact ⟨written_reread hwritten, reread_reread q⟩
  · intro hsame
    rw [faithful_iff]
    intro p hp
    rw [← hsame, MultiMap.mem_pairs_ofPairs] at hp
    obtain ⟨q, hq, rfl⟩ := List.mem_map.mp hp
    have hwritten : Written q := by simpa using (List.mem_filter.mp hq).2
    exact ⟨written_reread hwritten, reread_reread q⟩
  · intro hfaithful
    rw [faithful_iff] at hfaithful
    have hall : queryMap.pairs.filter Written = queryMap.pairs := by
      rw [List.filter_eq_self]
      exact fun p hp => by simpa using (hfaithful p hp).1
    have hself : queryMap.pairs.map reread = queryMap.pairs := by
      conv_rhs => rw [← List.map_id queryMap.pairs]
      exact List.map_congr_left fun p hp => (hfaithful p hp).2
    rw [hall, hself, MultiMap.ofPairs_pairs]

/-- Equal are the faithful query strings that hold the same parameters in the same order. -/
theorem equals_iff (h : Faithful queryMap) (h' : Faithful other) :
    equals queryMap other ↔ queryMap = other := by
  rw [equals, decide_eq_true_eq]
  constructor
  · intro htext
    obtain ⟨m, hm, -, hself⟩ := parsed_again queryMap .AMPERSAND
    obtain ⟨m', hm', -, hself'⟩ := parsed_again other .AMPERSAND
    have hsame : toStringWith .AMPERSAND queryMap = toStringWith .AMPERSAND other := htext
    rw [hsame, hm'] at hm
    rw [← hself.mpr h, ← hself'.mpr h']
    exact (Except.ok.inj hm).symm
  · rintro rfl
    rfl

end RoundTrip
end InsightsAssist.UrlEncodedQueryString
