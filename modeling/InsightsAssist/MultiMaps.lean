import Mathlib.Data.List.Induction
import Mathlib.Data.List.Nodup

/-! Maps of a key to several values in the order of insertion of the keys, and the lists of pairs
that come back from them in their order. -/
namespace InsightsAssist

@[ext] structure MultiMap (κ β : Type*) where
  entries : List (κ × List β)
  nodup : (entries.map Prod.fst).Nodup
  nonempty : ∀ e ∈ entries, e.2 ≠ []

namespace MultiMap
variable {κ β : Type*}

def pairsOf (entries : List (κ × List β)) : List (κ × β) :=
  entries.flatMap fun e => e.2.map (e.1, ·)

def pairs (m : MultiMap κ β) : List (κ × β) := pairsOf m.entries

/-- Between two pairs of one key there is no other key. -/
def Contiguous (l : List (κ × β)) : Prop :=
  ∀ x y z, [x, y, z].Sublist l → x.1 = z.1 → y.1 = x.1

theorem pairsOf_cons (e : κ × List β) (entries : List (κ × List β)) :
    pairsOf (e :: entries) = e.2.map (e.1, ·) ++ pairsOf entries := rfl

theorem fst_mem_of_mem_pairsOf {entries : List (κ × List β)} {p : κ × β}
    (h : p ∈ pairsOf entries) : p.1 ∈ entries.map Prod.fst := by
  obtain ⟨e, he, hp⟩ := List.mem_flatMap.mp h
  obtain ⟨v, _, rfl⟩ := List.mem_map.mp hp
  exact List.mem_map_of_mem he

theorem Contiguous.sublist {l l' : List (κ × β)} (h : Contiguous l) (hsub : l'.Sublist l) :
    Contiguous l' :=
  fun x y z hxyz => h x y z (hxyz.trans hsub)

theorem contiguous_pairs (m : MultiMap κ β) : Contiguous m.pairs := by
  obtain ⟨entries, hnodup, hnonempty⟩ := m
  change Contiguous (pairsOf entries)
  clear hnonempty
  induction entries with
  | nil => intro x y z hsub; simp [pairsOf] at hsub
  | cons e entries ih =>
    rw [List.map_cons, List.nodup_cons] at hnodup
    intro x y z hsub hkey
    have hfst {p : κ × β} {vs : List β} (h : p ∈ vs.map (e.1, ·)) : p.1 = e.1 := by
      obtain ⟨v, _, rfl⟩ := List.mem_map.mp h
      rfl
    rw [pairsOf_cons] at hsub
    obtain ⟨front, rest, hxyz, hfront, hrest⟩ := List.sublist_append_iff.mp hsub
    match front, hxyz with
    | [], hxyz =>
      rw [List.nil_append] at hxyz
      exact ih hnodup.2 x y z (hxyz ▸ hrest) hkey
    | [_], hxyz =>
      -- the key of the first would be a later key as well
      obtain ⟨rfl, rfl⟩ := List.cons.inj hxyz
      have hz := fst_mem_of_mem_pairsOf (hrest.subset (List.mem_cons_of_mem _ List.mem_cons_self))
      rw [← hkey, hfst (hfront.subset List.mem_cons_self)] at hz
      exact absurd hz hnodup.1
    | x' :: y' :: front, hxyz =>
      simp only [List.cons_append, List.cons.injEq] at hxyz
      obtain ⟨rfl, rfl, _⟩ := hxyz
      rw [hfst (hfront.subset List.mem_cons_self),
        hfst (hfront.subset (List.mem_cons_of_mem _ List.mem_cons_self))]

variable [DecidableEq κ]

/-- A key that is there keeps its place, a new one is the last. -/
def alterEntry (k : κ) (f : Option (List β) → List β) : List (κ × List β) → List (κ × List β)
  | [] => [(k, f none)]
  | e :: m => if e.1 = k then (e.1, f (some e.2)) :: m else e :: alterEntry k f m

section Entries
variable {k k' : κ} {f : Option (List β) → List β} {m : List (κ × List β)}

theorem mem_alterEntry {e : κ × List β} (h : e ∈ alterEntry k f m) :
    e ∈ m ∨ e.1 = k ∧ ∃ vs, e.2 = f vs := by
  induction m with
  | nil =>
    obtain rfl := List.mem_singleton.mp h
    exact .inr ⟨rfl, none, rfl⟩
  | cons d m ih =>
    rw [alterEntry] at h
    split at h
    · rename_i hd
      obtain rfl | h := List.mem_cons.mp h
      · exact .inr ⟨hd, some d.2, rfl⟩
      · exact .inl (List.mem_cons_of_mem _ h)
    · obtain rfl | h := List.mem_cons.mp h
      · exact .inl List.mem_cons_self
      · exact (ih h).imp (List.mem_cons_of_mem _) id

theorem nodup_alterEntry (h : (m.map Prod.fst).Nodup) :
    ((alterEntry k f m).map Prod.fst).Nodup := by
  induction m with
  | nil => simp [alterEntry]
  | cons d m ih =>
    rw [List.map_cons, List.nodup_cons] at h
    rw [alterEntry]
    split
    · rw [List.map_cons, List.nodup_cons]
      exact h
    · rename_i hd
      rw [List.map_cons, List.nodup_cons]
      refine ⟨fun hmem => ?_, ih h.2⟩
      obtain ⟨e, he, hkey⟩ := List.mem_map.mp hmem
      obtain he | ⟨he, _⟩ := mem_alterEntry he
      · exact h.1 (List.mem_map.mpr ⟨e, he, hkey⟩)
      · exact hd (hkey ▸ he)

theorem filter_alterEntry_self :
    (alterEntry k f m).filter (·.1 ≠ k) = m.filter (·.1 ≠ k) := by
  induction m with
  | nil => simp [alterEntry]
  | cons d m ih =>
    rw [alterEntry]
    split
    · rename_i hd
      simp [hd]
    · rw [List.filter_cons, List.filter_cons, ih]

theorem filter_alterEntry_of_ne (h : k' ≠ k) :
    (alterEntry k' f m).filter (·.1 ≠ k) = alterEntry k' f (m.filter (·.1 ≠ k)) := by
  induction m with
  | nil => simp [alterEntry, h]
  | cons d m ih =>
    rw [alterEntry]
    split
    · rename_i hd
      simp [hd, h, alterEntry]
    · rename_i hd
      rw [List.filter_cons, List.filter_cons, ih]
      split
      · rw [alterEntry, if_neg hd]
      · rfl

end Entries

def alter (m : MultiMap κ β) (k : κ) (f : Option (List β) → List β) (hf : ∀ vs, f vs ≠ []) :
    MultiMap κ β where
  entries := alterEntry k f m.entries
  nodup := nodup_alterEntry m.nodup
  nonempty e he := by
    obtain he | ⟨_, vs, hvs⟩ := mem_alterEntry he
    · exact m.nonempty e he
    · rw [hvs]
      exact hf vs

def empty : MultiMap κ β := ⟨[], by simp, by simp⟩

def append (m : MultiMap κ β) (k : κ) (v : β) : MultiMap κ β :=
  m.alter k (fun vs => vs.getD [] ++ [v]) (by simp)

def set (m : MultiMap κ β) (k : κ) (v : β) : MultiMap κ β := m.alter k (fun _ => [v]) (by simp)

def remove (m : MultiMap κ β) (k : κ) : MultiMap κ β where
  entries := m.entries.filter (·.1 ≠ k)
  nodup := m.nodup.sublist (List.filter_sublist.map _)
  nonempty e he := m.nonempty e (List.mem_of_mem_filter he)

def ofPairs (l : List (κ × β)) : MultiMap κ β := l.foldl (fun m p => m.append p.1 p.2) empty

variable {m : MultiMap κ β} {k k' : κ} {v : β} {l : List (κ × β)} {p : κ × β}

theorem ofPairs_concat (l : List (κ × β)) (p : κ × β) :
    ofPairs (l ++ [p]) = (ofPairs l).append p.1 p.2 := List.foldl_append

theorem remove_append_self : (m.append k v).remove k = m.remove k :=
  MultiMap.ext filter_alterEntry_self

theorem remove_append_of_ne (h : k' ≠ k) :
    (m.append k' v).remove k = (m.remove k).append k' v :=
  MultiMap.ext (filter_alterEntry_of_ne h)

theorem remove_set_self : (m.set k v).remove k = m.remove k :=
  MultiMap.ext filter_alterEntry_self

theorem remove_ofPairs (l : List (κ × β)) (k : κ) :
    (ofPairs l).remove k = ofPairs (l.filter (·.1 ≠ k)) := by
  induction l using List.reverseRecOn with
  | nil => rfl
  | append_singleton l p ih =>
    rw [ofPairs_concat, List.filter_append]
    by_cases hp : p.1 = k
    · rw [hp, remove_append_self, ih]
      simp [hp]
    · rw [remove_append_of_ne hp, ih]
      simp [hp, ofPairs_concat]

theorem pairs_remove : (m.remove k).pairs = m.pairs.filter (·.1 ≠ k) := by
  change pairsOf (m.entries.filter _) = (pairsOf m.entries).filter _
  induction m.entries with
  | nil => rfl
  | cons e entries ih =>
    rw [pairsOf_cons, List.filter_append, ← ih, List.filter_cons]
    by_cases he : e.1 = k
    · have hnone : (e.2.map (e.1, ·)).filter (·.1 ≠ k) = [] := by simp [he]
      rw [if_neg (by simp [he]), hnone, List.nil_append]
    · have hall : (e.2.map (e.1, ·)).filter (·.1 ≠ k) = e.2.map (e.1, ·) := by simp [he]
      rw [if_pos (by simp [he]), hall, pairsOf_cons]

theorem filter_pairs_set_ne :
    (m.set k v).pairs.filter (·.1 ≠ k) = m.pairs.filter (·.1 ≠ k) := by
  rw [← pairs_remove, remove_set_self, pairs_remove]

theorem filter_pairs_set_eq : (m.set k v).pairs.filter (·.1 = k) = [(k, v)] := by
  obtain ⟨entries, hnodup, hnonempty⟩ := m
  change (pairsOf (alterEntry k _ entries)).filter _ = _
  clear hnonempty
  induction entries with
  | nil => simp [alterEntry, pairsOf]
  | cons e entries ih =>
    rw [List.map_cons, List.nodup_cons] at hnodup
    rw [alterEntry]
    split
    · rename_i he
      have hrest : (pairsOf entries).filter (·.1 = k) = [] := by
        rw [List.filter_eq_nil_iff]
        intro p hp hkey
        have hkey : p.1 = k := by simpa using hkey
        exact hnodup.1 (he ▸ hkey ▸ fst_mem_of_mem_pairsOf hp)
      rw [pairsOf_cons, List.filter_append, hrest]
      simp [he]
    · rename_i he
      have hnone : (e.2.map (e.1, ·)).filter (·.1 = k) = [] := by simp [he]
      rw [pairsOf_cons, List.filter_append, hnone, List.nil_append, ih hnodup.2]

theorem mem_pairs_append : p ∈ (m.append k v).pairs ↔ p ∈ m.pairs ∨ p = (k, v) := by
  change p ∈ pairsOf (alterEntry k _ m.entries) ↔ p ∈ pairsOf m.entries ∨ _
  induction m.entries with
  | nil => simp [alterEntry, pairsOf]
  | cons e entries ih =>
    rw [alterEntry]
    split
    · rename_i he
      subst he
      rw [pairsOf_cons, pairsOf_cons, List.mem_append, List.mem_append, Option.getD_some,
        List.map_append, List.mem_append, List.map_singleton, List.mem_singleton]
      tauto
    · rw [pairsOf_cons, pairsOf_cons, List.mem_append, List.mem_append, ih, or_assoc]

theorem mem_pairs_ofPairs : p ∈ (ofPairs l).pairs ↔ p ∈ l := by
  induction l using List.reverseRecOn with
  | nil => rfl
  | append_singleton l q ih =>
    rw [ofPairs_concat, mem_pairs_append, ih, List.mem_append, List.mem_singleton]

theorem mem_pairs_set (h : p ∈ (m.set k v).pairs) : p ∈ m.pairs ∨ p = (k, v) := by
  by_cases hp : p.1 = k
  · have hmem : p ∈ (m.set k v).pairs.filter (·.1 = k) := List.mem_filter.mpr ⟨h, by simpa⟩
    rw [filter_pairs_set_eq, List.mem_singleton] at hmem
    exact .inr hmem
  · have hmem : p ∈ (m.set k v).pairs.filter (·.1 ≠ k) := List.mem_filter.mpr ⟨h, by simpa⟩
    rw [filter_pairs_set_ne] at hmem
    exact .inl (List.mem_of_mem_filter hmem)

theorem pairs_append (h : Contiguous (m.pairs ++ [(k, v)])) :
    (m.append k v).pairs = m.pairs ++ [(k, v)] := by
  obtain ⟨entries, hnodup, hnonempty⟩ := m
  change Contiguous (pairsOf entries ++ _) at h
  change pairsOf (alterEntry k _ entries) = pairsOf entries ++ _
  induction entries with
  | nil => rfl
  | cons e entries ih =>
    rw [List.map_cons, List.nodup_cons] at hnodup
    rw [List.forall_mem_cons] at hnonempty
    rw [alterEntry]
    split
    · rename_i he
      subst he
      have hlast : pairsOf entries = [] := by
        obtain ⟨w, ws, hws⟩ := List.exists_cons_of_ne_nil hnonempty.1
        rw [List.eq_nil_iff_forall_not_mem]
        intro y hy
        have hsub : [(e.1, w), y, (e.1, v)].Sublist (pairsOf (e :: entries) ++ [(e.1, v)]) := by
          rw [pairsOf_cons, hws, List.map_cons, List.cons_append, List.cons_append]
          have hmiddle : [y].Sublist (ws.map (e.1, ·) ++ pairsOf entries) :=
            (List.singleton_sublist.mpr hy).trans (List.sublist_append_right _ _)
          exact .cons_cons _ (hmiddle.append (.refl _))
        have hy' := fst_mem_of_mem_pairsOf hy
        rw [h _ _ _ hsub rfl] at hy'
        exact hnodup.1 hy'
      rw [pairsOf_cons, pairsOf_cons, hlast]
      simp
    · rw [pairsOf_cons, pairsOf_cons, List.append_assoc]
      rw [pairsOf_cons, List.append_assoc] at h
      rw [ih hnodup.2 hnonempty.2 (h.sublist (List.sublist_append_right _ _))]

/-- The pairs come back in their order iff equal keys stand together. -/
theorem pairs_ofPairs_iff (l : List (κ × β)) : (ofPairs l).pairs = l ↔ Contiguous l := by
  constructor
  · intro h
    rw [← h]
    exact contiguous_pairs _
  · intro h
    induction l using List.reverseRecOn with
    | nil => rfl
    | append_singleton l p ih =>
      have hl := ih (h.sublist (List.sublist_append_left _ _))
      rw [ofPairs_concat, pairs_append (by rwa [hl]), hl]

end MultiMap

/-- What a map shows: its keys in their order, and the values of each. -/
@[ext] structure Listing (κ β : Type*) where
  keys : List κ
  values : κ → List β

namespace Listing
variable {κ β : Type*} [DecidableEq κ]

def empty : Listing κ β := ⟨[], fun _ => []⟩

def withKey (keys : List κ) (k : κ) : List κ := if k ∈ keys then keys else keys ++ [k]

def append (l : Listing κ β) (k : κ) (v : β) : Listing κ β :=
  ⟨withKey l.keys k, Function.update l.values k (l.values k ++ [v])⟩

def set (l : Listing κ β) (k : κ) (v : β) : Listing κ β :=
  ⟨withKey l.keys k, Function.update l.values k [v]⟩

def remove (l : Listing κ β) (k : κ) : Listing κ β :=
  ⟨l.keys.filter (· ≠ k), Function.update l.values k []⟩

def valuesOf (k : κ) (ps : List (κ × β)) : List β := (ps.filter (·.1 = k)).map Prod.snd

/-- The keys as they come, each once, without those that are known. -/
def newKeys (known : List κ) : List (κ × β) → List κ
  | [] => []
  | p :: ps => if p.1 ∈ known then newKeys known ps else p.1 :: newKeys (p.1 :: known) ps

def appendAll (l : Listing κ β) (ps : List (κ × β)) : Listing κ β :=
  ps.foldl (fun l p => l.append p.1 p.2) l

/-- A key that is not known gives up the values that it has. -/
def makeRoom (l : Listing κ β) (known : List κ) (k : κ) : Listing κ β :=
  if k ∈ known then l else l.remove k

/-- Pairs that come one after the other: before its first one a key gives up what it has. -/
def replaceAll (l : Listing κ β) (seen : List κ) : List (κ × β) → Listing κ β
  | [] => l
  | p :: ps => ((l.makeRoom seen p.1).append p.1 p.2).replaceAll (p.1 :: seen) ps

/-- What comes stands behind what is there. -/
def added (l : Listing κ β) (ps : List (κ × β)) : Listing κ β where
  keys := l.keys ++ newKeys l.keys ps
  values k := l.values k ++ valuesOf k ps

/-- What comes takes the place of what the given keys have, and stands behind the other keys. -/
def replaced (l : Listing κ β) (ps : List (κ × β)) (given : List κ) : Listing κ β where
  keys := l.keys.filter (· ∉ given) ++ newKeys [] ps
  values k := if k ∈ given then valuesOf k ps else l.values k

variable {l : Listing κ β} {k : κ} {p : κ × β} {ps : List (κ × β)} {known seen : List κ}

theorem valuesOf_cons :
    valuesOf k (p :: ps) = (if p.1 = k then [p.2] else []) ++ valuesOf k ps := by
  by_cases h : p.1 = k <;> simp [valuesOf, h]

theorem newKeys_congr {known' : List κ} (h : ∀ k, k ∈ known ↔ k ∈ known') :
    newKeys known ps = newKeys known' ps := by
  induction ps generalizing known known' with
  | nil => rfl
  | cons p ps ih =>
    have hcons : newKeys (p.1 :: known) ps = newKeys (p.1 :: known') ps := ih (by simp [h])
    rw [newKeys, newKeys, ih h, hcons]
    simp only [h]

theorem values_append :
    (l.append p.1 p.2).values k = l.values k ++ if p.1 = k then [p.2] else [] := by
  by_cases h : p.1 = k
  · subst h
    simp [append]
  · simp [append, h, Function.update_of_ne (Ne.symm h)]

theorem values_appendAll : (l.appendAll ps).values k = l.values k ++ valuesOf k ps := by
  induction ps generalizing l with
  | nil => exact (List.append_nil _).symm
  | cons p ps ih =>
    change ((l.append p.1 p.2).appendAll ps).values k = _
    rw [ih, values_append, valuesOf_cons, List.append_assoc]

theorem keys_append_of_mem {v : β} (h : k ∈ l.keys) : (l.append k v).keys = l.keys := if_pos h

theorem keys_append_of_not_mem {v : β} (h : k ∉ l.keys) : (l.append k v).keys = l.keys ++ [k] :=
  if_neg h

theorem keys_appendAll : (l.appendAll ps).keys = l.keys ++ newKeys l.keys ps := by
  induction ps generalizing l with
  | nil => exact (List.append_nil _).symm
  | cons p ps ih =>
    change ((l.append p.1 p.2).appendAll ps).keys = _
    rw [ih, newKeys]
    split
    · rename_i h
      rw [keys_append_of_mem h]
    · rename_i h
      have hknown : newKeys (l.keys ++ [p.1]) ps = newKeys (p.1 :: l.keys) ps :=
        newKeys_congr fun k => by rw [List.mem_append, List.mem_singleton, List.mem_cons, or_comm]
      rw [keys_append_of_not_mem h, hknown, List.append_assoc]
      rfl

theorem appendAll_eq : l.appendAll ps = l.added ps :=
  Listing.ext keys_appendAll (funext fun _ => values_appendAll)

theorem makeRoom_congr {known' : List κ} (h : k ∈ known ↔ k ∈ known') :
    l.makeRoom known k = l.makeRoom known' k := by simp only [makeRoom, h]

theorem values_remove {k' : κ} :
    (l.remove k').values k = if k' = k then [] else l.values k := by
  by_cases h : k' = k
  · subst h
    simp [remove]
  · simp [remove, h, Function.update_of_ne (Ne.symm h)]

theorem values_replaceAll : (l.replaceAll seen ps).values k =
    (if k ∈ ps.map Prod.fst ∧ k ∉ seen then [] else l.values k) ++ valuesOf k ps := by
  induction ps generalizing l seen with
  | nil => simp [replaceAll, valuesOf]
  | cons p ps ih =>
    rw [replaceAll, ih, values_append, valuesOf_cons, ← List.append_assoc]
    congr 1
    by_cases hp : p.1 = k
    · subst hp
      by_cases hseen : p.1 ∈ seen
      · simp [hseen, makeRoom]
      · simp [hseen, makeRoom, values_remove]
    · have hrest : (l.makeRoom seen p.1).values k = l.values k := by
        rw [makeRoom]
        split
        · rfl
        · rw [values_remove, if_neg hp]
      have hk : k ≠ p.1 := Ne.symm hp
      have hcond : (k ∈ ps.map Prod.fst ∧ k ∉ p.1 :: seen) ↔
          k ∈ (p :: ps).map Prod.fst ∧ k ∉ seen := by
        simp [hk]
      rw [if_neg hp, List.append_nil, List.append_nil, hrest, if_congr hcond rfl rfl]

theorem keys_replaceAll (h : ∀ k ∈ seen, k ∈ l.keys) : (l.replaceAll seen ps).keys =
    l.keys.filter (fun k => k ∈ ps.map Prod.fst → k ∈ seen) ++ newKeys seen ps := by
  induction ps generalizing l seen with
  | nil => simp [replaceAll, newKeys]
  | cons p ps ih =>
    rw [replaceAll, newKeys, makeRoom]
    split
    · rename_i hp
      have hkeys : (l.append p.1 p.2).keys = l.keys := keys_append_of_mem (h _ hp)
      have hseen : newKeys (p.1 :: seen) ps = newKeys seen ps :=
        newKeys_congr fun k => by
          rw [List.mem_cons, or_iff_right_of_imp]
          rintro rfl
          exact hp
      rw [ih (by simpa [hkeys, h _ hp] using h), hkeys, hseen]
      congr 1
      refine List.filter_congr fun k _ => ?_
      rw [decide_eq_decide, List.map_cons, List.mem_cons, List.mem_cons]
      by_cases hk : k = p.1
      · simp [hk, hp]
      · simp [hk]
    · rename_i hp
      have hkeys : ((l.remove p.1).append p.1 p.2).keys = l.keys.filter (· ≠ p.1) ++ [p.1] :=
        keys_append_of_not_mem (by simp [remove])
      have hold : ∀ k ∈ p.1 :: seen, k ∈ l.keys.filter (· ≠ p.1) ++ [p.1] := by
        intro k hk
        by_cases hkp : k = p.1
        · simp [hkp]
        · have hmem : k ∈ l.keys := h k ((List.mem_cons.mp hk).resolve_left hkp)
          simp [hkp, hmem]
      rw [ih (by rwa [hkeys]), hkeys, List.filter_append, List.filter_filter, List.append_assoc]
      congr 1
      · refine List.filter_congr fun k _ => ?_
        rw [← Bool.decide_and, decide_eq_decide, List.map_cons, List.mem_cons, List.mem_cons]
        by_cases hk : k = p.1
        · simp [hk, hp]
        · simp [hk]
      · simp

theorem valuesOf_of_not_mem (h : k ∉ ps.map Prod.fst) : valuesOf k ps = [] := by
  have hnone : ps.filter (·.1 = k) = [] := by
    rw [List.filter_eq_nil_iff]
    intro p hp hk
    exact h (List.mem_map.mpr ⟨p, hp, by simpa using hk⟩)
  rw [valuesOf, hnone, List.map_nil]

theorem newKeys_subset : newKeys known ps ⊆ ps.map Prod.fst := by
  induction ps generalizing known with
  | nil => exact List.Subset.refl _
  | cons p ps ih =>
    rw [newKeys]
    split
    · exact List.subset_cons_of_subset _ ih
    · exact List.cons_subset_cons _ ih

theorem replaceAll_eq (l : Listing κ β) (ps : List (κ × β)) :
    l.replaceAll [] ps = l.replaced ps (ps.map Prod.fst) := by
  refine Listing.ext ?_ (funext fun k => ?_)
  · rw [keys_replaceAll (by simp), replaced]
    congr 1
    refine List.filter_congr fun k _ => ?_
    rw [decide_eq_decide]
    simp
  · rw [values_replaceAll]
    change _ = if k ∈ ps.map Prod.fst then valuesOf k ps else l.values k
    by_cases hk : k ∈ ps.map Prod.fst
    · rw [if_pos ⟨hk, List.not_mem_nil⟩, if_pos hk]
      rfl
    · rw [if_neg (fun h => hk h.1), if_neg hk, valuesOf_of_not_mem hk, List.append_nil]

theorem values_replaced_congr {l' : Listing κ β} {given : List κ} (h : l.values k = l'.values k) :
    (l.replaced ps given).values k = (l'.replaced ps given).values k := by
  change (if k ∈ given then valuesOf k ps else l.values k) =
    if k ∈ given then valuesOf k ps else l'.values k
  rw [h]

theorem makeRoom_replaced (l : Listing κ β) (ps : List (κ × β)) (k : κ) :
    (l.replaced ps (ps.map Prod.fst)).makeRoom (ps.map Prod.fst) k =
      l.replaced ps (ps.map Prod.fst ++ [k]) := by
  rw [makeRoom]
  split
  · rename_i hk
    have hmem (k' : κ) : k' ∈ ps.map Prod.fst ++ [k] ↔ k' ∈ ps.map Prod.fst := by
      rw [List.mem_append, List.mem_singleton, or_iff_left_of_imp]
      rintro rfl
      exact hk
    simp only [replaced, hmem]
  · rename_i hk
    have hnew : (newKeys [] ps).filter (· ≠ k) = newKeys [] ps := by
      rw [List.filter_eq_self]
      intro k' hk'
      rw [decide_eq_true_eq]
      rintro rfl
      exact hk (newKeys_subset hk')
    refine Listing.ext ?_ (funext fun k' => ?_)
    · change (l.keys.filter _ ++ newKeys [] ps).filter _ = _
      rw [List.filter_append, hnew, List.filter_filter, replaced]
      congr 1
      refine List.filter_congr fun k' _ => ?_
      rw [← Bool.decide_and, decide_eq_decide, List.mem_append, List.mem_singleton, not_or,
        and_comm]
    · rw [values_remove]
      change _ = if k' ∈ ps.map Prod.fst ++ [k] then valuesOf k' ps else l.values k'
      by_cases hk' : k = k'
      · subst hk'
        rw [if_pos rfl, if_pos (by simp), valuesOf_of_not_mem hk]
      · have hmem : k' ∈ ps.map Prod.fst ++ [k] ↔ k' ∈ ps.map Prod.fst := by
          simp [Ne.symm hk']
        rw [if_neg hk', if_congr hmem rfl rfl]
        rfl

theorem newKeys_append_of_known {qs : List (κ × β)} (h : ∀ p ∈ ps, p.1 ∈ known) :
    newKeys known (ps ++ qs) = newKeys known qs := by
  induction ps with
  | nil => rfl
  | cons p ps ih =>
    rw [List.forall_mem_cons] at h
    rw [List.cons_append, newKeys, if_pos h.1, ih h.2]

end Listing

namespace MultiMap
variable {κ β : Type*} [DecidableEq κ] {m m' : MultiMap κ β} {k : κ} {v : β}
  {entries : List (κ × List β)} {known : List κ} {f : Option (List β) → List β}

def find (m : MultiMap κ β) (k : κ) : Option (List β) := m.entries.lookup k

def listing (m : MultiMap κ β) : Listing κ β where
  keys := m.entries.map Prod.fst
  values k := (m.find k).getD []

theorem keys_alterEntry :
    (alterEntry k f entries).map Prod.fst = Listing.withKey (entries.map Prod.fst) k := by
  induction entries with
  | nil => rfl
  | cons e entries ih =>
    rw [alterEntry, Listing.withKey]
    split
    · rename_i he
      rw [if_pos (by simp [he])]
      rfl
    · rename_i he
      rw [List.map_cons, ih, Listing.withKey]
      simp only [List.map_cons, List.mem_cons, Ne.symm he, false_or]
      split <;> rfl

theorem lookup_cons_ite {e : κ × List β} :
    (e :: entries).lookup k = if k = e.1 then some e.2 else entries.lookup k := by
  rw [List.lookup_cons]
  by_cases h : k = e.1
  · rw [if_pos h, beq_iff_eq.mpr h]
  · rw [if_neg h, beq_eq_false_iff_ne.mpr h]

theorem lookup_alterEntry (k' : κ) : (alterEntry k f entries).lookup k' =
    if k' = k then some (f (entries.lookup k)) else entries.lookup k' := by
  induction entries with
  | nil => exact lookup_cons_ite
  | cons e entries ih =>
    rw [alterEntry]
    split
    · rename_i he
      subst he
      simp only [lookup_cons_ite, if_true]
      split <;> rfl
    · rename_i he
      simp only [lookup_cons_ite, ih, if_neg (Ne.symm he)]
      by_cases hk : k' = k
      · subst hk
        rw [if_neg (Ne.symm he), if_pos rfl, if_pos rfl]
      · rw [if_neg hk, if_neg hk]

theorem listing_alter (hf : ∀ vs, f vs ≠ []) : (m.alter k f hf).listing =
    ⟨Listing.withKey m.listing.keys k,
      Function.update m.listing.values k (f (m.entries.lookup k))⟩ := by
  refine Listing.ext keys_alterEntry (funext fun k' => ?_)
  change ((alterEntry k f m.entries).lookup k').getD [] = Function.update m.listing.values k _ k'
  rw [lookup_alterEntry, Function.update_apply]
  split <;> rfl

theorem listing_append : (m.append k v).listing = m.listing.append k v := listing_alter _

theorem listing_set : (m.set k v).listing = m.listing.set k v := listing_alter _

theorem lookup_filter_ne (k' : κ) : (entries.filter (·.1 ≠ k)).lookup k' =
    if k' = k then none else entries.lookup k' := by
  induction entries with
  | nil => split <;> rfl
  | cons e entries ih =>
    rw [List.filter_cons, lookup_cons_ite]
    by_cases he : e.1 = k
    · rw [if_neg (by simpa using he), ih]
      subst he
      by_cases hk : k' = e.1 <;> simp [hk]
    · rw [if_pos (by simpa using he), lookup_cons_ite, ih]
      by_cases hk : k' = k
      · subst hk
        rw [if_neg (Ne.symm he), if_pos rfl, if_pos rfl]
      · rw [if_neg hk, if_neg hk]

theorem listing_remove : (m.remove k).listing = m.listing.remove k := by
  refine Listing.ext ?_ (funext fun k' => ?_)
  · change (m.entries.filter (·.1 ≠ k)).map Prod.fst = (m.entries.map Prod.fst).filter (· ≠ k)
    rw [List.filter_map]
    rfl
  · change ((m.entries.filter (·.1 ≠ k)).lookup k').getD [] =
      Function.update m.listing.values k [] k'
    rw [lookup_filter_ne, Function.update_apply]
    split <;> rfl

theorem listing_foldl_append (ps : List (κ × β)) :
    (ps.foldl (fun m p => m.append p.1 p.2) m).listing = m.listing.appendAll ps := by
  induction ps generalizing m with
  | nil => rfl
  | cons p ps ih =>
    rw [List.foldl_cons, ih, listing_append]
    rfl

theorem lookup_of_mem {e : κ × List β} (hnodup : (entries.map Prod.fst).Nodup)
    (h : e ∈ entries) : entries.lookup e.1 = some e.2 := by
  induction entries with
  | nil => cases h
  | cons d entries ih =>
    rw [List.map_cons, List.nodup_cons] at hnodup
    rw [lookup_cons_ite]
    obtain rfl | h := List.mem_cons.mp h
    · rw [if_pos rfl]
    · have hne : e.1 ≠ d.1 := fun he => hnodup.1 (he ▸ List.mem_map_of_mem h)
      rw [if_neg hne, ih hnodup.2 h]

theorem find_eq (m : MultiMap κ β) (k : κ) :
    m.find k = if k ∈ m.listing.keys then some (m.listing.values k) else none := by
  change m.entries.lookup k = if k ∈ m.entries.map Prod.fst then
    some ((m.entries.lookup k).getD []) else none
  cases h : m.entries.lookup k with
  | none =>
    rw [List.lookup_eq_none_iff] at h
    rw [if_neg]
    intro hmem
    obtain ⟨e, he, rfl⟩ := List.mem_map.mp hmem
    exact bne_iff_ne.mp (h e he) rfl
  | some vs =>
    obtain ⟨_, _, hsplit, _⟩ := List.lookup_eq_some_iff.mp h
    rw [if_pos (by simp [hsplit]), Option.getD_some]

theorem entries_eq (m : MultiMap κ β) :
    m.entries = m.listing.keys.map fun k => (k, m.listing.values k) := by
  rw [listing, List.map_map]
  conv_lhs => rw [← List.map_id m.entries]
  refine List.map_congr_left fun e he => ?_
  simp [find, lookup_of_mem m.nodup he]

theorem listing_injective (h : m.listing = m'.listing) : m = m' := by
  apply MultiMap.ext
  rw [entries_eq, entries_eq, h]

theorem newKeys_pairsOf (hnodup : (entries.map Prod.fst).Nodup)
    (hnonempty : ∀ e ∈ entries, e.2 ≠ []) (hnew : ∀ e ∈ entries, e.1 ∉ known) :
    Listing.newKeys known (pairsOf entries) = entries.map Prod.fst := by
  induction entries generalizing known with
  | nil => rfl
  | cons e entries ih =>
    rw [List.map_cons, List.nodup_cons] at hnodup
    rw [List.forall_mem_cons] at hnonempty hnew
    obtain ⟨w, ws, hws⟩ := List.exists_cons_of_ne_nil hnonempty.1
    have hknown : ∀ p ∈ ws.map (e.1, ·), p.1 ∈ e.1 :: known := by
      intro p hp
      obtain ⟨v, _, rfl⟩ := List.mem_map.mp hp
      exact List.mem_cons_self
    have hrest : ∀ d ∈ entries, d.1 ∉ e.1 :: known := by
      intro d hd hmem
      obtain he | hmem := List.mem_cons.mp hmem
      · exact hnodup.1 (he ▸ List.mem_map_of_mem hd)
      · exact hnew.2 d hd hmem
    rw [pairsOf_cons, hws, List.map_cons, List.cons_append, Listing.newKeys, if_neg hnew.1,
      Listing.newKeys_append_of_known hknown, ih hnodup.2 hnonempty.2 hrest, List.map_cons]

theorem valuesOf_pairsOf (hnodup : (entries.map Prod.fst).Nodup) :
    Listing.valuesOf k (pairsOf entries) = (entries.lookup k).getD [] := by
  induction entries with
  | nil => rfl
  | cons e entries ih =>
    rw [List.map_cons, List.nodup_cons] at hnodup
    have hsplit : Listing.valuesOf k (pairsOf (e :: entries)) =
        Listing.valuesOf k (e.2.map (e.1, ·)) ++ Listing.valuesOf k (pairsOf entries) := by
      simp [Listing.valuesOf, pairsOf_cons]
    rw [hsplit, lookup_cons_ite, ih hnodup.2]
    by_cases hk : k = e.1
    · subst hk
      have hnone : entries.lookup e.1 = none := by
        rw [List.lookup_eq_none_iff]
        intro d hd
        rw [bne_iff_ne]
        exact fun he => hnodup.1 (he ▸ List.mem_map_of_mem hd)
      rw [if_pos rfl, hnone]
      simp [Listing.valuesOf, List.filter_map, Function.comp_def]
    · have hnil : Listing.valuesOf k (e.2.map (e.1, ·)) = [] := by
        simp [Listing.valuesOf, List.filter_map, Function.comp_def, Ne.symm hk]
      rw [if_neg hk, hnil]
      rfl

theorem ofPairs_pairs (m : MultiMap κ β) : ofPairs m.pairs = m := by
  apply listing_injective
  rw [ofPairs, listing_foldl_append]
  refine Listing.ext ?_ (funext fun k => ?_)
  · rw [Listing.keys_appendAll]
    exact newKeys_pairsOf m.nodup m.nonempty fun _ _ h => by cases h
  · rw [Listing.values_appendAll]
    exact valuesOf_pairsOf m.nodup

end MultiMap
end InsightsAssist
