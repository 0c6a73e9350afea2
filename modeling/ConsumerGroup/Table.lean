/-!
# Finite tables

A finite map kept as a list of its pairs, in the order in which the keys were first inserted.  An
insertion under a key that is present replaces the value there.

Main statements: `get?_insert_self` and `get?_insert_of_ne` say what an insertion does to a look-up,
`get?_ofList` that the last pair counts in a table built from a list, and `nodup_keys_ofList` that a key
is present once.
-/

namespace ConsumerGroup

/-- A finite map, as its pairs in order of first insertion. -/
structure Table (κ ν : Type) where
  /-- the pairs of key and value -/
  entries : List (κ × ν) := []
  deriving Repr, DecidableEq

namespace Table

variable {κ ν : Type}

instance : EmptyCollection (Table κ ν) := ⟨⟨[]⟩⟩

instance : Inhabited (Table κ ν) := ⟨∅⟩

/-- The keys, in order of first insertion. -/
def keys (t : Table κ ν) : List κ := t.entries.map Prod.fst

/-- How many keys there are. -/
def size (t : Table κ ν) : Nat := t.entries.length

variable [DecidableEq κ]

/-- The value in a list of pairs at the first pair with the key. -/
def lookup (k : κ) : List (κ × ν) → Option ν
  | [] => none
  | (k', v) :: rest => if k' = k then some v else lookup k rest

/-- Replaces the value at the first pair with the key, or appends a pair. -/
def upsert (k : κ) (v : ν) : List (κ × ν) → List (κ × ν)
  | [] => [(k, v)]
  | (k', v') :: rest => if k' = k then (k, v) :: rest else (k', v') :: upsert k v rest

/-- The value under a key. -/
def get? (t : Table κ ν) (k : κ) : Option ν := lookup k t.entries

/-- Whether the key is present. -/
def contains (t : Table κ ν) (k : κ) : Bool := (t.get? k).isSome

/-- Puts a value under a key. -/
def insert (t : Table κ ν) (k : κ) (v : ν) : Table κ ν := ⟨upsert k v t.entries⟩

/-- Takes a key out. -/
def erase (t : Table κ ν) (k : κ) : Table κ ν := ⟨t.entries.filter fun e => e.1 ≠ k⟩

/-- The table of a list of pairs, in which later pairs replace earlier ones. -/
def ofList (pairs : List (κ × ν)) : Table κ ν :=
  pairs.foldl (fun t e => t.insert e.1 e.2) ∅

/-! ## Look-up and insertion -/

@[simp] theorem get?_empty (k : κ) : (∅ : Table κ ν).get? k = none := rfl

theorem lookup_upsert_self (k : κ) (v : ν) (l : List (κ × ν)) :
    lookup k (upsert k v l) = some v := by
  induction l with
  | nil => simp [upsert, lookup]
  | cons e l ih =>
    by_cases h : e.1 = k
    · simp [upsert, lookup, h]
    · simp [upsert, lookup, h, ih]

theorem lookup_upsert_of_ne {k k' : κ} (h : k' ≠ k) (v : ν) (l : List (κ × ν)) :
    lookup k' (upsert k v l) = lookup k' l := by
  induction l with
  | nil => simp [upsert, lookup, Ne.symm h]
  | cons e l ih =>
    by_cases he : e.1 = k
    · simp [upsert, lookup, he, Ne.symm h]
    · simp [upsert, lookup, he, ih]

@[simp] theorem get?_insert_self (t : Table κ ν) (k : κ) (v : ν) :
    (t.insert k v).get? k = some v :=
  lookup_upsert_self k v t.entries

@[simp] theorem get?_insert_of_ne (t : Table κ ν) {k k' : κ} (h : k' ≠ k) (v : ν) :
    (t.insert k v).get? k' = t.get? k' :=
  lookup_upsert_of_ne h v t.entries

theorem get?_foldl_insert (pairs : List (κ × ν)) (t : Table κ ν) (k : κ) :
    (pairs.foldl (fun t e => t.insert e.1 e.2) t).get? k =
      ((pairs.reverse.find? (·.1 = k)).map Prod.snd).or (t.get? k) := by
  induction pairs generalizing t with
  | nil => rfl
  | cons e pairs ih =>
    rw [List.foldl_cons, ih, List.reverse_cons, List.find?_append]
    cases pairs.reverse.find? (·.1 = k) with
    | some e' => rfl
    | none =>
      by_cases h : e.1 = k
      · subst h
        simp
      · simp [h, Ne.symm h]

/-- A table that is built from a list has the value of the last pair with the key. -/
theorem get?_ofList (pairs : List (κ × ν)) (k : κ) :
    (ofList pairs).get? k = (pairs.reverse.find? (·.1 = k)).map Prod.snd := by
  rw [ofList, get?_foldl_insert, get?_empty, Option.or_none]

/-! ## Keys -/

theorem mem_keys_upsert (k k' : κ) (v : ν) (l : List (κ × ν)) :
    k' ∈ (upsert k v l).map Prod.fst ↔ k' = k ∨ k' ∈ l.map Prod.fst := by
  induction l with
  | nil => simp [upsert]
  | cons e l ih =>
    by_cases h : e.1 = k
    · simp [upsert, h]
    · simp only [upsert, h, if_false, List.map_cons, List.mem_cons, ih]
      constructor
      · rintro (h | h | h) <;> simp [h]
      · rintro (h | h | h) <;> simp [h]

theorem nodup_keys_upsert (k : κ) (v : ν) {l : List (κ × ν)} (h : (l.map Prod.fst).Nodup) :
    ((upsert k v l).map Prod.fst).Nodup := by
  induction l with
  | nil => simp [upsert]
  | cons e l ih =>
    rw [List.map_cons, List.nodup_cons] at h
    by_cases he : e.1 = k
    · subst he
      simpa [upsert] using h
    · rw [upsert, if_neg he, List.map_cons, List.nodup_cons]
      exact ⟨fun hm => ((mem_keys_upsert k e.1 v l).1 hm).elim he h.1, ih h.2⟩

theorem nodup_keys_foldl (pairs : List (κ × ν)) (t : Table κ ν) (h : t.keys.Nodup) :
    (pairs.foldl (fun t e => t.insert e.1 e.2) t).keys.Nodup := by
  induction pairs generalizing t with
  | nil => exact h
  | cons e pairs ih => exact ih _ (nodup_keys_upsert e.1 e.2 h)

/-- A key is present once in a table built from a list. -/
theorem nodup_keys_ofList (pairs : List (κ × ν)) : (ofList pairs).keys.Nodup :=
  nodup_keys_foldl pairs ∅ List.nodup_nil

theorem mem_keys_insert (t : Table κ ν) (k k' : κ) (v : ν) :
    k' ∈ (t.insert k v).keys ↔ k' = k ∨ k' ∈ t.keys :=
  mem_keys_upsert k k' v t.entries

theorem nodup_keys_insert {t : Table κ ν} (h : t.keys.Nodup) (k : κ) (v : ν) :
    (t.insert k v).keys.Nodup :=
  nodup_keys_upsert k v h

theorem lookup_isSome_iff (k : κ) (l : List (κ × ν)) :
    (lookup k l).isSome = true ↔ k ∈ l.map Prod.fst := by
  induction l with
  | nil => simp [lookup]
  | cons e l ih =>
    by_cases h : e.1 = k
    · simp [lookup, h]
    · simp [lookup, h, ih, Ne.symm h]

theorem lookup_of_mem {k : κ} {v : ν} {l : List (κ × ν)} (hd : (l.map Prod.fst).Nodup)
    (h : (k, v) ∈ l) : lookup k l = some v := by
  induction l with
  | nil => cases h
  | cons e l ih =>
    rw [List.map_cons, List.nodup_cons] at hd
    rcases List.mem_cons.1 h with rfl | h
    · simp [lookup]
    · have hne : e.1 ≠ k := fun he => hd.1 (he ▸ List.mem_map_of_mem h)
      simp [lookup, hne, ih hd.2 h]

/-- A pair of a table is what its key is looked up to, as keys are present once. -/
theorem get?_eq_some_of_mem {t : Table κ ν} (hd : t.keys.Nodup) {k : κ} {v : ν}
    (h : (k, v) ∈ t.entries) : t.get? k = some v :=
  lookup_of_mem hd h

/-- A key is present when it is among the keys. -/
theorem contains_iff_mem_keys (t : Table κ ν) (k : κ) : t.contains k = true ↔ k ∈ t.keys :=
  lookup_isSome_iff k t.entries

/-- A new key comes last. -/
theorem upsert_of_not_mem {k : κ} (v : ν) {l : List (κ × ν)} (h : k ∉ l.map Prod.fst) :
    upsert k v l = l ++ [(k, v)] := by
  induction l with
  | nil => rfl
  | cons e l ih =>
    rw [List.map_cons, List.mem_cons, not_or] at h
    rw [upsert, if_neg (Ne.symm h.1), ih h.2, List.cons_append]

theorem entries_foldl_insert (pairs : List (κ × ν)) (t : Table κ ν)
    (h : (t.entries.map Prod.fst ++ pairs.map Prod.fst).Nodup) :
    (pairs.foldl (fun t e => t.insert e.1 e.2) t).entries = t.entries ++ pairs := by
  induction pairs generalizing t with
  | nil => exact (List.append_nil _).symm
  | cons e pairs ih =>
    have hnew : e.1 ∉ t.entries.map Prod.fst := fun hm =>
      (List.nodup_append.1 h).2.2 _ hm _ List.mem_cons_self rfl
    have hentries : (t.insert e.1 e.2).entries = t.entries ++ [e] := upsert_of_not_mem e.2 hnew
    rw [List.foldl_cons, ih, hentries, List.append_assoc, List.singleton_append]
    rw [hentries, List.map_append, List.append_assoc]
    exact h

/-- A table that is built from pairs with different keys has just these pairs. -/
theorem entries_ofList {pairs : List (κ × ν)} (h : (pairs.map Prod.fst).Nodup) :
    (ofList pairs).entries = pairs :=
  entries_foldl_insert pairs ∅ h

/-! ## Erasure -/

theorem lookup_filter_ne (k k' : κ) (l : List (κ × ν)) :
    lookup k' (l.filter fun e => e.1 ≠ k) = if k' = k then none else lookup k' l := by
  induction l with
  | nil => simp [lookup]
  | cons e l ih =>
    by_cases he : e.1 = k
    · by_cases hk : k' = k
      · rw [if_pos hk] at ih ⊢
        simpa [he] using ih
      · rw [if_neg hk] at ih ⊢
        simpa [he, lookup, Ne.symm hk] using ih
    · by_cases hk : e.1 = k'
      · have hne : k' ≠ k := fun h => he (hk.trans h)
        simp [lookup, hk, hne]
      · simpa [he, lookup, hk] using ih

@[simp] theorem get?_erase (t : Table κ ν) (k k' : κ) :
    (t.erase k).get? k' = if k' = k then none else t.get? k' :=
  lookup_filter_ne k k' t.entries

theorem keys_erase (t : Table κ ν) (k : κ) : (t.erase k).keys = t.keys.filter fun k' => k' ≠ k := by
  simp [keys, erase, List.filter_map, Function.comp_def]

@[simp] theorem mem_keys_erase (t : Table κ ν) (k k' : κ) :
    k' ∈ (t.erase k).keys ↔ k' ∈ t.keys ∧ k' ≠ k := by
  simp [keys_erase]

theorem nodup_keys_erase {t : Table κ ν} (h : t.keys.Nodup) (k : κ) : (t.erase k).keys.Nodup := by
  rw [keys_erase]
  exact h.filter _

end Table

end ConsumerGroup
