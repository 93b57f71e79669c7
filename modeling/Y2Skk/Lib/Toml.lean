import Y2Skk.Lib.OrdMap
import Y2Skk.Lib.Text

/-!
# `Y2Skk.Lib.Toml`: TOML documents as editable trees, and records read from them

A `Document` is the root table of a tree of `Item`s. A table is the list of its entries:
header, dotted and implicit tables differ in how they are printed, not in the tree.
Entries are looked up and replaced by their key, which a table has once. The text of a
document, its comments and its layout are not part of the tree, so nothing here speaks of
them.

## Reading

A deserializer sees an item as a string, a number, a flag, a sequence or a map. A record
is read from a map by the names of its fields, or from a sequence by their positions, with
a default for a field that is not there: `fieldItem` is what a field is read from. That a
record can be read from a sequence is what derived deserializers accept, and an editor
that only knows tables does not expect it.

## Editing

An editor sets, keeps or clears the keys of one top-level table (`Edit`, `Edit.onRecord`).
Setting a key replaces anything that is not a table by an empty one first; clearing a key
touches a table only. `getEntry_onRecord` is the law of one edit and `getEntry_editAll` of
many with distinct keys: each entry is edited once, and the other entries of the table
stay.

`Flat` is the condition under which reading and editing agree on where the fields are:
there is a table, or nothing. `Flat.fieldItem` says that a field of a flat record is read
from the entry with its name, which is the entry that an edit writes.
-/

set_option autoImplicit false

namespace Toml

open Utf8 (Str)
open OrdMap (getEntry insertEntry)

/-- A value of a TOML document. Floats and datetimes are their texts, since nothing computes
with them. -/
inductive Value where
  | string (s : Str)
  | integer (i : Int)
  | float (text : Str)
  | boolean (b : Bool)
  | datetime (text : Str)
  | array (values : List Value)
  | inlineTable (entries : List (Str × Value))

/-- What a key stands for: a value, a table, or an array of tables (`[[key]]`). An inline table
is a value, and not a table: an editor of tables does not look into it. -/
inductive Item where
  | value (v : Value)
  | table (entries : List (Str × Item))
  | arrayOfTables (tables : List (List (Str × Item)))

/-- The root table. -/
abbrev Document := List (Str × Item)

namespace Item

/-- Whether an editor finds entries here. An inline table does not count. -/
def isTable : Item → Bool
  | table _ => true
  | _ => false

/-! ### What a deserializer sees -/

/-- The item as a string. -/
def asStr : Item → Option Str
  | value (.string s) => some s
  | _ => none

/-- The item as an integer. -/
def asInteger : Item → Option Int
  | value (.integer i) => some i
  | _ => none

/-- The item as a flag. -/
def asBool : Item → Option Bool
  | value (.boolean b) => some b
  | _ => none

/-- The item as a sequence: an array, or an array of tables. -/
def asSeq : Item → Option (List Item)
  | value (.array values) => some (values.map value)
  | arrayOfTables tables => some (tables.map table)
  | _ => none

/-- The key under which a datetime is handed over as a map. -/
def datetimeKey : Str := "$__toml_private_datetime".toList

/-- The item as a map: a table or an inline table, and a datetime, which the parser hands over
as a map with one private key. -/
def asMap : Item → Option (List (Str × Item))
  | table entries => some entries
  | value (.inlineTable entries) => some (entries.map fun e => (e.1, value e.2))
  | value (.datetime text) => some [(datetimeKey, value (.string text))]
  | _ => none

end Item

/-! ### Records -/

/-- A record can be read from what is there, if anything: a map or a sequence, or nothing, which
gives the defaults. -/
def isRecord : Option Item → Bool
  | none => true
  | some item => item.asMap.isSome || item.asSeq.isSome

/-- The item under a key, when there is a map. -/
def keyItem (record : Option Item) (key : Str) : Option Item :=
  (record.bind Item.asMap).bind fun entries => getEntry key entries

/-- What the field `key` is read from, the record's field number `index`. A map is looked up by
name and a sequence by position; a map is tried first. -/
def fieldItem (record : Option Item) (key : Str) (index : Nat) : Option Item :=
  match record with
  | none => none
  | some item =>
      match item.asMap with
      | some entries => getEntry key entries
      | none => item.asSeq.bind fun items => items[index]?

/-- Reads a field with a default. The default is for a field that is not there; one that is
there and cannot be read is an error. -/
def readField {α : Type} (read : Item → Option α) (default : α) (record : Option Item)
    (key : Str) (index : Nat) : Option α :=
  match fieldItem record key index with
  | none => some default
  | some item => read item

/-- A field that is not there has its default. -/
theorem readField_of_none {α : Type} {read : Item → Option α} {default : α}
    {record : Option Item} {key : Str} {index : Nat} (hnone : fieldItem record key index = none) :
    readField read default record key index = some default := by
  rw [readField, hnone]

/-- A field that is there is read, and its default is not looked at. -/
theorem readField_of_some {α : Type} {read : Item → Option α} {default : α}
    {record : Option Item} {key : Str} {index : Nat} {item : Item}
    (hsome : fieldItem record key index = some item) :
    readField read default record key index = read item := by
  rw [readField, hsome]

/-- Elements that read back one by one read back as a list. -/
theorem mapM_map_eq_some {α β : Type} {read : β → Option α} {write : α → β} {as : List α}
    (hread : ∀ a ∈ as, read (write a) = some a) : (as.map write).mapM read = some as := by
  induction as with
  | nil => rfl
  | cons a as ih =>
      have htail := ih fun b hb => hread b (List.mem_cons_of_mem a hb)
      rw [List.map_cons, List.mapM_cons, hread a List.mem_cons_self, htail]
      rfl

/-! ### Edits of a table within a document -/

/-- The entries of a table; none of anything else. This is what an editor of tables sees of an
item. -/
def tableEntries : Option Item → List (Str × Item)
  | some (.table entries) => entries
  | _ => []

/-- There is a table, or nothing: the editor sees everything that a deserializer does. -/
def Flat (record : Option Item) : Prop := ∀ item, record = some item → item.isTable = true

/-- An absent record is flat. -/
theorem flat_none : Flat none := fun _ h => nomatch h

/-- A table is flat. -/
theorem flat_table (entries : List (Str × Item)) : Flat (some (.table entries)) := by
  rintro item ⟨⟩
  rfl

/-- A flat record is absent, or a table: the two shapes that the editor edits key by key. -/
theorem Flat.cases {record : Option Item} (hflat : Flat record) :
    record = none ∨ ∃ entries, record = some (.table entries) := by
  cases record with
  | none => exact .inl rfl
  | some item =>
      have htable := hflat item rfl
      cases item with
      | table entries => exact .inr ⟨entries, rfl⟩
      | value v => cases htable
      | arrayOfTables tables => cases htable

/-- A record can be read from a table, and from nothing. -/
theorem Flat.isRecord {record : Option Item} (hflat : Flat record) : isRecord record = true := by
  rcases hflat.cases with rfl | ⟨entries, rfl⟩
  · rfl
  · rfl

/-- In a table, a field is read from the entry with its name, and its position does not
matter. -/
theorem Flat.fieldItem {record : Option Item} (hflat : Flat record) (key : Str) (index : Nat) :
    fieldItem record key index = getEntry key (tableEntries record) := by
  rcases hflat.cases with rfl | ⟨entries, rfl⟩
  · rfl
  · rfl

/-- In a table, a key is looked up among the entries. -/
theorem Flat.keyItem {record : Option Item} (hflat : Flat record) (key : Str) :
    keyItem record key = getEntry key (tableEntries record) := by
  rcases hflat.cases with rfl | ⟨entries, rfl⟩
  · rfl
  · rfl

/-- The editor sees no entries in what is neither absent nor a table, although a reader may read
a struct from it. -/
theorem tableEntries_of_not_flat {record : Option Item} (hflat : ¬Flat record) :
    tableEntries record = [] := by
  cases record with
  | none => rfl
  | some item =>
      cases item with
      | table entries => exact absurd (flat_table entries) hflat
      | value v => rfl
      | arrayOfTables tables => rfl

/-- What happens to a key: nothing, a new item, or its removal. -/
inductive Edit where
  | keep
  | set (item : Item)
  | clear

namespace Edit

/-- The edit writes an item. -/
def isSet : Edit → Bool
  | set _ => true
  | _ => false

/-- What an entry becomes. -/
def apply : Edit → Option Item → Option Item
  | keep, entry => entry
  | set item, _ => some item
  | clear, _ => none

/-- A key is set in a table, which takes the place of anything else; it is cleared from a table
only. So an edit that writes a key replaces an inline table, and what that held is gone. -/
def onRecord (key : Str) : Edit → Option Item → Option Item
  | keep, record => record
  | set item, record => some (.table (insertEntry key item (tableEntries record)))
  | clear, some (.table entries) => some (.table (entries.filter fun e => e.1 ≠ key))
  | clear, record => record

/-- The law of one edit: its key is edited, and every other entry stays as the editor saw it. -/
theorem getEntry_onRecord (edit : Edit) (record : Option Item) (key key' : Str) :
    getEntry key' (tableEntries (edit.onRecord key record)) =
      if key' = key then edit.apply (getEntry key (tableEntries record))
      else getEntry key' (tableEntries record) := by
  cases edit with
  | keep =>
      by_cases hkey : key' = key
      · rw [if_pos hkey, hkey]
        rfl
      · rw [if_neg hkey]
        rfl
  | set item => exact OrdMap.getEntry_insertEntry key key' item (tableEntries record)
  | clear =>
      -- Clearing a key looks into tables only, so what is no table keeps its key.
      by_cases hflat : Flat record
      · -- There are entries to take one from, or there is nothing.
        rcases hflat.cases with rfl | ⟨entries, rfl⟩
        · simp [onRecord, tableEntries, apply, getEntry]
        · exact OrdMap.getEntry_filter_ne key key' entries
      · have hsame : onRecord key clear record = record := by
          cases record with
          | none => rfl
          | some item =>
              cases item with
              | table entries => exact absurd (flat_table entries) hflat
              | value v => rfl
              | arrayOfTables tables => rfl
        rw [hsame, tableEntries_of_not_flat hflat]
        simp [apply, getEntry]

/-- After an edit there is a table, or nothing, when it was so before or the edit wrote a
key. -/
theorem flat_onRecord {edit : Edit} {record : Option Item} (key : Str)
    (h : Flat record ∨ edit.isSet = true) : Flat (edit.onRecord key record) := by
  cases edit with
  | keep => exact h.resolve_right (by simp [isSet])
  | set item => exact flat_table _
  | clear =>
      rcases (h.resolve_right (by simp [isSet])).cases with rfl | ⟨entries, rfl⟩
      · exact flat_none
      · exact flat_table _

/-- Without a key to set, anything but a table stays as it is: to clear a key makes no table. -/
theorem onRecord_of_not_flat {edit : Edit} {record : Option Item} (key : Str)
    (hset : edit.isSet = false) (hflat : ¬Flat record) : edit.onRecord key record = record := by
  cases edit with
  | keep => rfl
  | set item => cases hset
  | clear =>
      cases record with
      | none => rfl
      | some item =>
          cases item with
          | table entries => exact absurd (flat_table entries) hflat
          | value v => rfl
          | arrayOfTables tables => rfl

end Edit

/-! ### Many edits of one record -/

section Edits

variable {ι : Type} (key : ι → Str) (edit : ι → Edit)

/-- The edits of a list of fields, one after the other. -/
def editAll (fields : List ι) (record : Option Item) : Option Item :=
  fields.foldl (fun record i => (edit i).onRecord (key i) record) record

variable {key edit}

/-- The entry of a key that no field has is left alone, so keys that the tool does not know
survive in a table. -/
theorem getEntry_editAll_of_ne (fields : List ι) {key' : Str} (hne : ∀ i ∈ fields, key' ≠ key i) :
    ∀ record, getEntry key' (tableEntries (editAll key edit fields record)) =
      getEntry key' (tableEntries record) := by
  induction fields with
  | nil => intro record; rfl
  | cons i fields ih =>
      intro record
      show getEntry key' (tableEntries (editAll key edit fields _)) = _
      rw [ih (fun j hj => hne j (List.mem_cons_of_mem i hj)), Edit.getEntry_onRecord,
        if_neg (hne i List.mem_cons_self)]

/-- With distinct keys, every field's entry is edited once. A key that two fields had would be
edited twice, and the second edit would see the result of the first. -/
theorem getEntry_editAll {fields : List ι} (hnodup : (fields.map key).Nodup) {i : ι}
    (hi : i ∈ fields) :
    ∀ record, getEntry (key i) (tableEntries (editAll key edit fields record)) =
      (edit i).apply (getEntry (key i) (tableEntries record)) := by
  induction fields with
  | nil => cases hi
  | cons j fields ih =>
      rw [List.map_cons, List.nodup_cons] at hnodup
      intro record
      show getEntry (key i) (tableEntries (editAll key edit fields _)) = _
      rcases List.mem_cons.mp hi with rfl | hmem
      · -- The field is edited now, and no later field has its key.
        have hne : ∀ j ∈ fields, key i ≠ key j := fun j hj heq =>
          hnodup.1 (List.mem_map.mpr ⟨j, hj, heq.symm⟩)
        rw [getEntry_editAll_of_ne fields hne, Edit.getEntry_onRecord, if_pos rfl]
      · have hne : key i ≠ key j := fun heq =>
          hnodup.1 (List.mem_map.mpr ⟨i, hmem, heq⟩)
        rw [ih hnodup.2 hmem, Edit.getEntry_onRecord, if_neg hne]

/-- The record is a table when it was one, or when a key is set. Setting a key replaces what is
no table by an empty one first. -/
theorem flat_editAll (fields : List ι) :
    ∀ {record}, Flat record ∨ (∃ i ∈ fields, (edit i).isSet = true) →
      Flat (editAll key edit fields record) := by
  -- Once it is a table it stays one, so a key that was set need not be remembered.
  induction fields with
  | nil =>
      rintro record (hflat | ⟨i, hi, _⟩)
      · exact hflat
      · cases hi
  | cons j fields ih =>
      rintro record (hflat | ⟨i, hi, hset⟩)
      · exact ih (.inl (Edit.flat_onRecord (key j) (.inl hflat)))
      · rcases List.mem_cons.mp hi with rfl | hmem
        · exact ih (.inl (Edit.flat_onRecord (key i) (.inr hset)))
        · exact ih (.inr ⟨i, hmem, hset⟩)

/-- Without a key to set, anything but a table stays as it is. This is the single edit, over all
fields. -/
theorem editAll_of_not_flat {fields : List ι} (hset : ∀ i ∈ fields, (edit i).isSet = false)
    {record : Option Item} (hflat : ¬Flat record) : editAll key edit fields record = record := by
  induction fields with
  | nil => rfl
  | cons j fields ih =>
      show editAll key edit fields ((edit j).onRecord (key j) record) = record
      rw [Edit.onRecord_of_not_flat (key j) (hset j List.mem_cons_self) hflat]
      exact ih fun i hi => hset i (List.mem_cons_of_mem j hi)

end Edits

end Toml
