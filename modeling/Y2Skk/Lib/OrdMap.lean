import Mathlib.Data.List.Nodup

/-!
# `Y2Skk.Lib.OrdMap`: maps that remember the order of their keys

An `OrdMap` is a list of key-value pairs with distinct keys, in insertion order. The
distinctness is a field, so that a map with two values for a key cannot be built and no
lemma has to ask for it. The order matters where a program iterates over the map: a
document writes its entries in the order in which they were added, and a dictionary lists
its most recent key last.

## The operations

`insert` replaces the value of a known key in place and appends a new key at the end.
`erase` removes a key and keeps the order of the others. `upsert` edits the value of a
key, starting from `default` when the key is new. `mapValues` edits every value. A key is
moved to the end by erasing and inserting it, and `keys_insert_erase` says what that does
to the order.

## The equations

The lookup equations are `get?_insert`, `get?_erase`, `get?_upsert` and `get?_mapValues`,
and the order equations are `keys_insert` and `keys_erase`: a proof uses these and never
the entries. `get?_eq_some_iff` reads a lookup as membership in the entries, which is
where the distinctness of the keys is used.

`getEntry` and `insertEntry` are the lookup and the insertion on bare entry lists. A
structure that nests maps in each other keeps bare lists inside, since an inductive type
cannot carry the invariant through its own recursion, and these are the operations it
uses.
-/

set_option autoImplicit false

universe u v

/-- A map as the list of its entries, in insertion order, with no key twice. -/
structure OrdMap (κ : Type u) (ν : Type v) where
  entries : List (κ × ν)
  nodup : (entries.map Prod.fst).Nodup
  deriving DecidableEq

namespace OrdMap

variable {κ : Type u} {ν : Type v} [DecidableEq κ]

/-- The entry list with the value of `k` replaced in place, or appended when the key is new. The
key of the old entry is replaced too, which matters to no one: the keys are equal. -/
def insertEntry (k : κ) (v : ν) : List (κ × ν) → List (κ × ν)
  | [] => [(k, v)]
  | e :: es => if e.1 = k then (k, v) :: es else e :: insertEntry k v es

/-- An insertion changes the keys only when the key is new, and then adds it at the end. -/
theorem map_fst_insertEntry (k : κ) (v : ν) (es : List (κ × ν)) :
    (insertEntry k v es).map Prod.fst
      = if k ∈ es.map Prod.fst then es.map Prod.fst else es.map Prod.fst ++ [k] := by
  induction es with
  | nil => simp [insertEntry]
  | cons e es ih =>
      by_cases he : e.1 = k
      · simp [insertEntry, he]
      · have hek : ¬ k = e.1 := fun h => he h.symm
        simp only [insertEntry, he, if_false, List.map_cons, ih, List.mem_cons, hek, false_or]
        split <;> rfl

omit [DecidableEq κ] in
/-- A new key may be appended to distinct ones. Stated on bare lists, for the field of
`insert`. -/
theorem nodup_append_singleton {l : List κ} {k : κ} (h : l.Nodup) (hk : k ∉ l) :
    (l ++ [k]).Nodup :=
  List.nodup_append.mpr ⟨h, List.nodup_singleton k, fun a ha b hb => by
    rw [List.mem_singleton] at hb
    subst hb
    rintro rfl
    exact hk ha⟩

/-- The map without entries. -/
def empty : OrdMap κ ν := ⟨[], List.nodup_nil⟩

omit [DecidableEq κ] in
/-- The empty map is the default. -/
instance : Inhabited (OrdMap κ ν) := ⟨empty⟩

/-- The keys, in insertion order. The values are forgotten, so two maps that differ only in
their values have the same keys. -/
def keys (m : OrdMap κ ν) : List κ := m.entries.map Prod.fst

/-- The value of a key, if it has one. -/
def get? (m : OrdMap κ ν) (k : κ) : Option ν := m.entries.lookup k

/-- The value of a key set. A known key keeps its place in the order, and a new one comes
last. -/
def insert (m : OrdMap κ ν) (k : κ) (v : ν) : OrdMap κ ν where
  entries := insertEntry k v m.entries
  nodup := by
    rw [map_fst_insertEntry]
    split
    · exact m.nodup
    · rename_i hk
      exact nodup_append_singleton m.nodup hk

/-- A key removed, with its value. The others keep their order; an absent key changes
nothing. -/
def erase (m : OrdMap κ ν) (k : κ) : OrdMap κ ν where
  entries := m.entries.filter fun e => e.1 ≠ k
  nodup := m.nodup.sublist (List.filter_sublist.map Prod.fst)

/-- The entry API `m.entry(k).or_default()` followed by the edit `f`. A new key starts from the
default of its type, and the edit is applied in both cases. -/
def upsert [Inhabited ν] (m : OrdMap κ ν) (k : κ) (f : ν → ν) : OrdMap κ ν :=
  m.insert k (f ((m.get? k).getD default))

/-- The edit `f` of every value (`values_mut()`). No key changes, so the order stays. -/
def mapValues (m : OrdMap κ ν) (f : ν → ν) : OrdMap κ ν where
  entries := m.entries.map fun e => (e.1, f e.2)
  nodup := by
    rw [List.map_map]
    exact m.nodup

section Lookup

/-- The empty map has no values. -/
@[simp] theorem get?_empty (k : κ) : (empty : OrdMap κ ν).get? k = none := rfl

/-- After an insertion the key has the new value, and every other key what it had. This is the
fact about entry lists from which the equations of the map operations follow. -/
theorem lookup_insertEntry (k k' : κ) (v : ν) (es : List (κ × ν)) :
    (insertEntry k v es).lookup k' = if k' = k then some v else es.lookup k' := by
  induction es with
  | nil =>
      by_cases h : k' = k
      · simp [insertEntry, h]
      · simp [insertEntry, List.lookup_cons, beq_false_of_ne h, h]
  | cons e es ih =>
      obtain ⟨a, b⟩ := e
      -- the entry is replaced in its place when the key is there, else the search goes on
      by_cases ha : a = k
      · subst ha
        by_cases h : k' = a
        · simp [insertEntry, h]
        · simp [insertEntry, List.lookup_cons, beq_false_of_ne h, h]
      · simp only [insertEntry, ha, if_false, List.lookup_cons]
        by_cases hk : k' = a
        · subst hk
          simp [ha]
        · rw [beq_false_of_ne hk]
          exact ih

/-- After an insertion the key has the new value, and every other key what it had. -/
theorem get?_insert (m : OrdMap κ ν) (k k' : κ) (v : ν) :
    (m.insert k v).get? k' = if k' = k then some v else m.get? k' :=
  lookup_insertEntry k k' v m.entries

/-- After the entries of a key are filtered out it has no value, and every other key has what it
had. -/
theorem lookup_filter_ne (k k' : κ) (es : List (κ × ν)) :
    (es.filter fun e => e.1 ≠ k).lookup k' = if k' = k then none else es.lookup k' := by
  induction es with
  | nil => simp
  | cons e es ih =>
      obtain ⟨a, b⟩ := e
      by_cases ha : a = k
      · subst ha
        rw [List.filter_cons_of_neg (by simp), ih]
        by_cases h : k' = a
        · simp [h]
        · simp [List.lookup_cons, beq_false_of_ne h, h]
      · rw [List.filter_cons_of_pos (by simpa using ha)]
        simp only [List.lookup_cons]
        by_cases hk : k' = a
        · subst hk
          simp [ha]
        · rw [beq_false_of_ne hk]
          exact ih

/-- After an erasure the key has no value, and every other key has what it had. -/
theorem get?_erase (m : OrdMap κ ν) (k k' : κ) :
    (m.erase k).get? k' = if k' = k then none else m.get? k' :=
  lookup_filter_ne k k' m.entries

/-- The value of a key in an entry list: the first one, if the list is no map. -/
def getEntry (k : κ) (es : List (κ × ν)) : Option ν := es.lookup k

/-- A lookup looks at the first entry, then at the rest. -/
theorem getEntry_cons (k : κ) (e : κ × ν) (es : List (κ × ν)) :
    getEntry k (e :: es) = if e.1 = k then some e.2 else getEntry k es := by
  obtain ⟨a, b⟩ := e
  show List.lookup k ((a, b) :: es) = _
  by_cases hk : a = k
  · simp [hk]
  · rw [List.lookup_cons, beq_false_of_ne (Ne.symm hk), if_neg hk]
    rfl

/-- The equation of an insertion, on bare entry lists. -/
theorem getEntry_insertEntry (k k' : κ) (v : ν) (es : List (κ × ν)) :
    getEntry k' (insertEntry k v es) = if k' = k then some v else getEntry k' es :=
  lookup_insertEntry k k' v es

/-- The equation of a removal, on bare entry lists. -/
theorem getEntry_filter_ne (k k' : κ) (es : List (κ × ν)) :
    getEntry k' (es.filter fun e => e.1 ≠ k) = if k' = k then none else getEntry k' es :=
  lookup_filter_ne k k' es

/-- After an `upsert` the key has the edited value, made from its old one or from the default,
and every other key has what it had. -/
theorem get?_upsert [Inhabited ν] (m : OrdMap κ ν) (k k' : κ) (f : ν → ν) :
    (m.upsert k f).get? k'
      = if k' = k then some (f ((m.get? k).getD default)) else m.get? k' :=
  get?_insert m k k' _

/-- A lookup after an edit of all values is the edit of the lookup. -/
theorem get?_mapValues (m : OrdMap κ ν) (k : κ) (f : ν → ν) :
    (m.mapValues f).get? k = (m.get? k).map f := by
  show (m.entries.map fun e => (e.1, f e.2)).lookup k = (m.entries.lookup k).map f
  induction m.entries with
  | nil => rfl
  | cons e es ih =>
      rw [List.map_cons, List.lookup_cons, List.lookup_cons, ih]
      cases k == e.1 <;> rfl

/-- A lookup succeeds exactly on the entries. The keys are distinct, so the first entry of a key
is its only one; without that the direction from right to left would fail. -/
theorem get?_eq_some_iff (m : OrdMap κ ν) (k : κ) (v : ν) :
    m.get? k = some v ↔ (k, v) ∈ m.entries := by
  obtain ⟨es, hnd⟩ := m
  show es.lookup k = some v ↔ (k, v) ∈ es
  induction es with
  | nil => simp
  | cons e es ih =>
      obtain ⟨a, b⟩ := e
      rw [List.map_cons, List.nodup_cons] at hnd
      simp only [List.lookup_cons, List.mem_cons, Prod.mk.injEq]
      by_cases hk : k = a
      · subst hk
        have hnot : ∀ w, (k, w) ∉ es := fun w hw => hnd.1 (List.mem_map.mpr ⟨_, hw, rfl⟩)
        simp [hnot v, eq_comm]
      · rw [beq_false_of_ne hk]
        simpa [hk] using ih hnd.2

/-- The keys are those that a lookup finds. -/
theorem mem_keys_iff (m : OrdMap κ ν) (k : κ) : k ∈ m.keys ↔ ∃ v, m.get? k = some v := by
  simp only [keys, List.mem_map, get?_eq_some_iff]
  constructor
  · rintro ⟨⟨a, b⟩, hab, rfl⟩
    exact ⟨b, hab⟩
  · rintro ⟨v, hv⟩
    exact ⟨_, hv, rfl⟩

end Lookup

/-- A known key keeps its place, and a new one comes last. -/
theorem keys_insert (m : OrdMap κ ν) (k : κ) (v : ν) :
    (m.insert k v).keys = if k ∈ m.keys then m.keys else m.keys ++ [k] :=
  map_fst_insertEntry k v m.entries

/-- Setting the value of a known key does not change the order. -/
theorem keys_insert_of_mem {m : OrdMap κ ν} {k : κ} (h : k ∈ m.keys) (v : ν) :
    (m.insert k v).keys = m.keys := by
  rw [keys_insert, if_pos h]

/-- An erasure takes one key out of the order. -/
theorem keys_erase (m : OrdMap κ ν) (k : κ) :
    (m.erase k).keys = m.keys.filter fun k' => k' ≠ k := by
  show (m.entries.filter fun e => e.1 ≠ k).map Prod.fst = (m.entries.map Prod.fst).filter _
  rw [List.filter_map]
  rfl

/-- The entries of a key pushed to the end: erased, then inserted again. Its old place is gone,
so the insertion appends. -/
theorem entries_insert_erase (m : OrdMap κ ν) (k : κ) (v : ν) :
    ((m.erase k).insert k v).entries = (m.entries.filter fun e => e.1 ≠ k) ++ [(k, v)] := by
  show insertEntry k v (m.entries.filter fun e => e.1 ≠ k) = _
  induction m.entries with
  | nil => rfl
  | cons e es ih =>
      by_cases he : e.1 = k
      · rw [List.filter_cons_of_neg (by simpa using he)]
        exact ih
      · rw [List.filter_cons_of_pos (by simpa using he), insertEntry, if_neg he, ih,
          List.cons_append]

/-- A key that is erased and inserted again comes last, and the others keep their order. This is
how a map keeps its keys by their last use. -/
theorem keys_insert_erase (m : OrdMap κ ν) (k : κ) (v : ν) :
    ((m.erase k).insert k v).keys = (m.keys.filter fun k' => k' ≠ k) ++ [k] := by
  show ((m.erase k).insert k v).entries.map Prod.fst = _
  rw [entries_insert_erase, List.map_append, ← keys_erase]
  rfl

end OrdMap
