import Y2Skk.Ipc.Settings

/-!
# `Y2Skk.Proofs.Settings`: writing the configuration back

A configuration that is written into a document reads back, and no key is lost whose value
did not change, exactly when every section is `Writable` (`writtenBack_iff`). A section
that is a table, or is not there, always is. A section of another form, an inline table or
an array, is replaced by a new table as soon as one of its keys is set, and then holds the
changed keys only; a key that is to be removed from it stays. `write_loses_key` is a
document that loses a key.

## Writing

`writeConfig_eq` brings the code's sequence of writes into one form: every field is an
edit, to keep, set or clear its key, and `writeConfig` is the fold of the edits over all
fields. Each section then sees its own edits only (`getEntry_writeConfig`).

## Reading

`read_eq_some_iff` does the same for reading: a document reads as a configuration when
every field reads as its value. For a single field, `read_stored` says that what is
written for a value reads as the value, for each kind of value that a field may have.

## The round trip

Three cases of a section are followed through both: it is written as a table, it stays as
it is, or it is replaced. `readField_writable`, `isRecord_writable` and `keyItem_writable`
are the way from `Writable` to `WrittenBack`, and `writable_of_writtenBack` is the way
back.
-/

set_option autoImplicit false

namespace Y2Skk

open Utf8 (Str)
open Toml
open OrdMap (getEntry insertEntry getEntry_cons getEntry_insertEntry)

/-! ### Equality of values -/

/-- A path equals itself, component by component. -/
instance : ReflBEq Path where
  rfl {path} := decide_eq_true (rfl : path.components = path.components)

deriving instance ReflBEq for DictSource

namespace FieldKind

/-- A value equals itself, whatever its kind. Most kinds compare by `decide`; a path and a list
of sources have an instance of their own. -/
theorem same_refl (kind : FieldKind) (v : kind.Value) : kind.same v v = true := by
  have hpath : ∀ v : Option Path, (v == v) = true := fun _ => BEq.rfl
  have hsources : ∀ v : List DictSource, (v == v) = true := fun _ => BEq.rfl
  have hdecide : ∀ (α : Type) [DecidableEq α] (a : α), decide (a = a) = true :=
    fun _ _ _ => decide_eq_true rfl
  cases kind with
  | text => exact hdecide Str v
  | path => exact hpath v
  | texts => exact hdecide (List Str) v
  | flag => exact hdecide Bool v
  | u32 => exact hdecide UInt32 v
  | usize => exact hdecide Nat v
  | sources => exact hsources v

/-! ### Values that are written and read -/

/-- What is written for a value: no path is written by taking the key away, and everything else
by its item. -/
def stored : (kind : FieldKind) → kind.Value → Edit
  | text, (v : Str) => .set (.value (.string v))
  | path, some (p : Path) => .set (.value (.string p.text))
  | path, none => .clear
  | texts, (vs : List Str) => .set (.value (.array (vs.map .string)))
  | flag, (b : Bool) => .set (.value (.boolean b))
  | u32, (n : UInt32) => .set (.value (.integer n.toNat))
  | usize, (n : Nat) => .set (.value (.integer (asI64 n)))
  | sources, (ss : List DictSource) => .set (.arrayOfTables (ss.map sourceTable))

/-- Something is written for every value, or its key is taken away: only the comparison with the
old configuration can say that a key stays. -/
theorem stored_ne_keep (kind : FieldKind) (v : kind.Value) : kind.stored v ≠ .keep := by
  intro hstored
  cases kind with
  | path =>
      cases v with
      | none => cases hstored
      | some p => cases hstored
  | _ => cases hstored

/-- The value fits the integers of a document. -/
def Storable : (kind : FieldKind) → kind.Value → Prop
  | usize, (n : Nat) => n ≤ 9223372036854775807
  | sources, (ss : List DictSource) =>
      ∀ s ∈ ss, -2147483648 ≤ s.priority ∧ s.priority ≤ 2147483647
  | _, _ => True

end FieldKind

/-- An encoding is read by the name it is written with. -/
theorem fromStr_toStr (encoding : DictEncoding) :
    DictEncoding.fromStr encoding.toStr = some encoding := by
  cases encoding with
  | utf8 => decide +kernel
  | eucJp => decide +kernel

/-- An integer within its bounds is read as it is. -/
theorem readInteger_value {least greatest i : Int} (hleast : least ≤ i) (hgreatest : i ≤ greatest) :
    readInteger least greatest (.value (.integer i)) = some i := by
  show (if least ≤ i ∧ i ≤ greatest then some i else none) = some i
  rw [if_pos ⟨hleast, hgreatest⟩]

/-- So is a number of 32 bits, whose values are all within the integers of a document. -/
theorem readU32_value (n : UInt32) : readU32 (.value (.integer n.toNat)) = some n := by
  have hn : n.toNat ≤ 4294967295 := by
    have hlt := n.toNat_lt
    omega
  have hread : readInteger 0 4294967295 (.value (.integer n.toNat)) = some (n.toNat : Int) :=
    readInteger_value (by omega) (by omega)
  rw [readU32, hread]
  simp

/-- So is a size that the integers of a document can hold. A larger one is written with `as
i64`, which wraps, and does not read back. -/
theorem readUsize_value {n : Nat} (hn : n ≤ 9223372036854775807) :
    readUsize (.value (.integer (asI64 n))) = some n := by
  have hi64 : asI64 n = n := by
    unfold asI64
    exact Int.bmod_eq_of_le (by omega) (by omega)
  have hread : readInteger 0 18446744073709551615 (.value (.integer n)) = some (n : Int) :=
    readInteger_value (by omega) (by omega)
  rw [hi64, readUsize, hread]
  rfl

/-- A source that is written reads as the source: the three keys are there, with the encoding by
its name and the priority as an integer of 32 bits. -/
theorem read_sourceTable {s : DictSource}
    (hpriority : -2147483648 ≤ s.priority ∧ s.priority ≤ 2147483647) :
    DictSource.read (.table (sourceTable s)) = some s := by
  have hpath : fieldItem (some (.table (sourceTable s))) "path".toList 0 =
      some (.value (.string s.path.text)) := rfl
  have hencoding : fieldItem (some (.table (sourceTable s))) "encoding".toList 1 =
      some (.value (.string s.encoding.toStr)) := rfl
  have hnumber : fieldItem (some (.table (sourceTable s))) "priority".toList 2 =
      some (.value (.integer s.priority)) := rfl
  have hread : readI32 (.value (.integer s.priority)) = some s.priority :=
    readInteger_value hpriority.1 hpriority.2
  simp only [DictSource.read, isRecord, Item.asMap, Option.isSome_some, Bool.true_or, if_true,
    readField_of_some hencoding, readField_of_some hnumber, hpath, Option.bind_some, Item.asStr,
    fromStr_toStr, hread]
  rfl

namespace FieldKind

/-- A list of texts is read as it is written. -/
theorem read_texts (vs : List Str) :
    FieldKind.read texts (.value (.array (vs.map .string))) = some vs := by
  show ((vs.map Value.string).map Item.value).mapM Item.asStr = some vs
  rw [List.map_map]
  exact mapM_map_eq_some fun _ _ => rfl

/-- A list of sources is read as it is written. -/
theorem read_sources {ss : List DictSource} (hss : Storable sources ss) :
    FieldKind.read sources (.arrayOfTables (ss.map sourceTable)) = some ss := by
  show ((ss.map sourceTable).map Item.table).mapM DictSource.read = some ss
  rw [List.map_map]
  exact mapM_map_eq_some fun s hs => read_sourceTable (hss s hs)

/-- What is written for a value reads as the value. One case for each kind of field: the numbers
need their bound, and the list of sources that each of them can be written. -/
theorem read_stored (kind : FieldKind) {v : kind.Value} {item : Item}
    (hstorable : kind.Storable v) (hstored : kind.stored v = .set item) :
    kind.read item = some v := by
  cases kind with
  | text =>
      cases hstored
      rfl
  | path =>
      cases v with
      | none => cases hstored
      | some p =>
          cases hstored
          rfl
  | texts =>
      cases hstored
      exact read_texts v
  | flag =>
      cases hstored
      rfl
  | u32 =>
      cases hstored
      exact readU32_value v
  | usize =>
      cases hstored
      exact readUsize_value hstorable
  | sources =>
      cases hstored
      exact read_sources hstorable

end FieldKind

/-! ### Writing, field by field -/

/-- An edit of a key in a section of the document. -/
def editSection (doc : Document) (name key : Str) : Edit → Document
  | .keep => doc
  | .set item => sectionInsert doc name key item
  | .clear => sectionRemove doc name key

/-- A section is edited on its own. What is set goes into the section, and a key that is cleared
is taken out of it. Every other entry of the document is as it was. -/
theorem getEntry_editSection (doc : Document) (name name' key : Str) (edit : Edit) :
    getEntry name' (editSection doc name key edit) =
      if name' = name then edit.onRecord key (getEntry name doc) else getEntry name' doc := by
  have hsame : getEntry name' doc =
      if name' = name then getEntry name doc else getEntry name' doc := by
    split
    · next heq => rw [heq]
    · rfl
  cases edit with
  | keep => exact hsame
  | set item => exact getEntry_insertEntry name name' _ doc
  | clear =>
      -- only a section that is a table has a key to take out
      cases hrecord : getEntry name doc with
      | none =>
          rw [editSection, sectionRemove, hrecord]
          rwa [hrecord] at hsame
      | some item =>
          cases item with
          | table entries =>
              rw [editSection, sectionRemove, hrecord]
              exact getEntry_insertEntry name name' _ doc
          | value v =>
              rw [editSection, sectionRemove, hrecord]
              rwa [hrecord] at hsame
          | arrayOfTables tables =>
              rw [editSection, sectionRemove, hrecord]
              rwa [hrecord] at hsame

namespace ConfigField

/-- What is done to the key of a field. -/
def edit (new old : Config) (f : ConfigField) : Edit :=
  if f.kind.same (new.get f) (old.get f) then .keep else f.kind.stored (new.get f)

/-- The fields of a section. -/
def ofSection (name : Str) : List ConfigField := all.filter fun f => f.sectionKey = name

/-- Every field is among those of its section. -/
theorem mem_ofSection (f : ConfigField) : f ∈ ofSection f.sectionKey := by
  have hall : f ∈ all := by cases f <;> simp [all]
  exact List.mem_filter.mpr ⟨hall, by simp⟩

/-- The fields of a section have its name. -/
theorem sectionKey_of_mem {name : Str} {f : ConfigField} (hf : f ∈ ofSection name) :
    f.sectionKey = name := of_decide_eq_true (List.mem_filter.mp hf).2

/-- The section of a field is one of the sections of the configuration, so a document in which
these are records has records for all fields. -/
theorem sectionKey_mem (f : ConfigField) : f.sectionKey ∈ Config.sectionKeys := by
  cases f with
  | kanaLayout | kanaTable | defaultMode | toggleKeys | rawModeToggleKeys
  | conversionTriggerChars | viEscape => exact .head _
  | userDictPath => exact .tail _ (.head _)
  | lispDirectives | sources => exact .tail _ (.tail _ (.head _))
  | enabled | timeoutMs => exact .tail _ (.tail _ (.tail _ (.head _)))
  | inlineCount | selectionKeys => exact .tail _ (.tail _ (.tail _ (.tail _ (.head _))))
  | logLevel => exact .tail _ (.tail _ (.tail _ (.tail _ (.tail _ (.head _)))))

/-- Within a section, fields have different keys, so the edit of one field does not touch the
key of another. -/
theorem nodup_keys (name : Str) : ((ofSection name).map key).Nodup := by
  -- A field is known by its place in the document.
  have hplaces : (all.map fun f => (f.sectionKey, f.key)).Nodup := by decide +kernel
  refine List.Nodup.map_on (fun f hf g hg heq => ?_) (List.Nodup.filter _ hplaces.of_map)
  have hsection : f.sectionKey = g.sectionKey := by
    rw [sectionKey_of_mem hf, sectionKey_of_mem hg]
  exact List.inj_on_of_nodup_map hplaces (List.mem_filter.mp hf).1 (List.mem_filter.mp hg).1
    (Prod.ext hsection heq)

end ConfigField

/-- The edit of a field in the document. -/
def editField (new old : Config) (doc : Document) (f : ConfigField) : Document :=
  editSection doc f.sectionKey f.key (f.edit new old)

section Steps
variable (doc : Document) (name key : Str)

/-- A write guarded by `!=` is an edit: the key is kept or set. -/
theorem editSection_of_ne {α : Type} [DecidableEq α] (a b : α) (item : Item) :
    (if a ≠ b then sectionInsert doc name key item else doc) =
      editSection doc name key (if decide (a = b) then .keep else .set item) := by
  by_cases heq : a = b
  · simp [heq, editSection]
  · simp [heq, editSection]

/-- The same for a guard that compares by `BEq`. -/
theorem editSection_of_bne {α : Type} [BEq α] (a b : α) (item : Item) :
    (if a != b then sectionInsert doc name key item else doc) =
      editSection doc name key (if a == b then .keep else .set item) := by
  cases heq : a == b with
  | true => simp [bne, heq, editSection]
  | false => simp [bne, heq, editSection]

/-- An optional path is kept, set or cleared. It is the one function of the writing side with
three outcomes, and the general edit covers it. -/
theorem setOptPath_eq (new old : Option Path) :
    setOptPath doc name key new old =
      editSection doc name key (if new == old then .keep else FieldKind.path.stored new) := by
  cases heq : new == old with
  | true => simp [setOptPath, heq, editSection]
  | false =>
      cases new with
      | none => simp [setOptPath, heq, editSection, FieldKind.stored]
      | some p => simp [setOptPath, heq, editSection, FieldKind.stored]

end Steps

/-- The writes of the section `input` are the edits of its fields. -/
theorem writeInput_eq (doc : Document) (new old : Config) :
    writeInput doc new.input old.input =
      (ConfigField.ofSection "input".toList).foldl (editField new old) doc := by
  -- What is left are the same edits in the same order.
  simp only [writeInput, setStr, setStrArray, setOptPath_eq, editSection_of_ne]
  rfl

/-- The writes of the section `dict` are the edits of its fields. -/
theorem writeDict_eq (doc : Document) (new old : Config) :
    writeDict doc new.dict old.dict =
      (ConfigField.ofSection "dict".toList).foldl (editField new old) doc := by
  simp only [writeDict, editSection_of_ne, editSection_of_bne]
  rfl

/-- The writes of the section `indicator` are the edits of its fields. -/
theorem writeIndicator_eq (doc : Document) (new old : Config) :
    writeIndicator doc new.indicator old.indicator =
      (ConfigField.ofSection "indicator".toList).foldl (editField new old) doc := by
  simp only [writeIndicator, editSection_of_ne]
  rfl

/-- The writes of the section `candidates` are the edits of its fields. -/
theorem writeCandidates_eq (doc : Document) (new old : Config) :
    writeCandidates doc new.candidates old.candidates =
      (ConfigField.ofSection "candidates".toList).foldl (editField new old) doc := by
  simp only [writeCandidates, setStr, editSection_of_ne]
  rfl

/-- `writeConfig` edits the fields one after the other. -/
theorem writeConfig_eq (doc : Document) (new old : Config) :
    writeConfig doc new old = ConfigField.all.foldl (editField new old) doc := by
  unfold writeConfig
  simp only [writeInput_eq, writeDict_eq, writeIndicator_eq, writeCandidates_eq, writeUserDict,
    writeDaemon, setStr, setOptPath_eq, editSection_of_ne]
  rfl

/-- What a section becomes: the edits of its fields, one after the other. The fields of other
sections are edited in between and leave it alone. -/
theorem getEntry_writeConfig (doc : Document) (new old : Config) (name : Str) :
    getEntry name (writeConfig doc new old) =
      editAll ConfigField.key (ConfigField.edit new old) (ConfigField.ofSection name)
        (getEntry name doc) := by
  rw [writeConfig_eq]
  unfold ConfigField.ofSection
  have hloop : ∀ (fields : List ConfigField) (doc : Document),
      getEntry name (fields.foldl (editField new old) doc) =
        editAll ConfigField.key (ConfigField.edit new old)
          (fields.filter fun f => f.sectionKey = name) (getEntry name doc) := by
    intro fields
    -- The document changes from field to field, so the induction is over all documents.
    induction fields with
    | nil => intro doc; rfl
    | cons f fields ih =>
        intro doc
        rw [List.foldl_cons, ih, editField, getEntry_editSection]
        -- A field of another section leaves this one alone, and the filter drops it.
        by_cases hname : f.sectionKey = name
        · rw [if_pos hname.symm, List.filter_cons_of_pos (by simpa using hname), hname]
          rfl
        · rw [if_neg (Ne.symm hname), List.filter_cons_of_neg (by simpa using hname)]
  exact hloop ConfigField.all doc

/-! ### Reading, field by field -/

namespace Config

/-- The configuration with the given values, section by section. With `get` it shows that a
configuration is nothing but the values of its fields. -/
def ofFields (v : (f : ConfigField) → f.kind.Value) : Config where
  input := ⟨v .kanaLayout, v .kanaTable, v .defaultMode, v .toggleKeys, v .rawModeToggleKeys,
    v .conversionTriggerChars, v .viEscape⟩
  userDict := ⟨v .userDictPath⟩
  dict := ⟨v .sources, v .lispDirectives⟩
  indicator := ⟨v .enabled, v .timeoutMs⟩
  candidates := ⟨v .inlineCount, v .selectionKeys⟩
  daemon := ⟨v .logLevel⟩

/-- Each field of such a configuration has the value given for it. -/
theorem get_ofFields (v : (f : ConfigField) → f.kind.Value) (f : ConfigField) :
    (ofFields v).get f = v f := by
  cases f <;> rfl

/-- Every section can be read as a struct. -/
def HasRecords (doc : Document) : Prop := ∀ name ∈ sectionKeys, isRecord (getEntry name doc) = true

/-- A document reads as a configuration when every section can be read as a struct and every
field reads as its value. -/
theorem read_eq_some_iff {doc : Document} {config : Config} :
    read doc = some config ↔ HasRecords doc ∧ ∀ f, readField doc f = some (config.get f) := by
  have hrecords : (sectionKeys.all fun name => isRecord (getEntry name doc)) = true ↔
      HasRecords doc := List.all_eq_true
  constructor
  · intro hread
    unfold read at hread
    split at hread
    · next hall =>
        refine ⟨hrecords.mp hall, ?_⟩
        -- The reader binds the fields one after the other.
        obtain ⟨kanaLayout, h₀, hread⟩ := Option.bind_eq_some_iff.mp hread
        obtain ⟨kanaTable, h₁, hread⟩ := Option.bind_eq_some_iff.mp hread
        obtain ⟨defaultMode, h₂, hread⟩ := Option.bind_eq_some_iff.mp hread
        obtain ⟨toggleKeys, h₃, hread⟩ := Option.bind_eq_some_iff.mp hread
        obtain ⟨rawModeToggleKeys, h₄, hread⟩ := Option.bind_eq_some_iff.mp hread
        obtain ⟨conversionTriggerChars, h₅, hread⟩ := Option.bind_eq_some_iff.mp hread
        obtain ⟨viEscape, h₆, hread⟩ := Option.bind_eq_some_iff.mp hread
        obtain ⟨userDictPath, h₇, hread⟩ := Option.bind_eq_some_iff.mp hread
        obtain ⟨sources, h₈, hread⟩ := Option.bind_eq_some_iff.mp hread
        obtain ⟨lispDirectives, h₉, hread⟩ := Option.bind_eq_some_iff.mp hread
        obtain ⟨enabled, h₁₀, hread⟩ := Option.bind_eq_some_iff.mp hread
        obtain ⟨timeoutMs, h₁₁, hread⟩ := Option.bind_eq_some_iff.mp hread
        obtain ⟨inlineCount, h₁₂, hread⟩ := Option.bind_eq_some_iff.mp hread
        obtain ⟨selectionKeys, h₁₃, hread⟩ := Option.bind_eq_some_iff.mp hread
        obtain ⟨logLevel, h₁₄, hread⟩ := Option.bind_eq_some_iff.mp hread
        cases hread
        intro f
        cases f with
        | kanaLayout => exact h₀
        | kanaTable => exact h₁
        | defaultMode => exact h₂
        | toggleKeys => exact h₃
        | rawModeToggleKeys => exact h₄
        | conversionTriggerChars => exact h₅
        | viEscape => exact h₆
        | userDictPath => exact h₇
        | sources => exact h₈
        | lispDirectives => exact h₉
        | enabled => exact h₁₀
        | timeoutMs => exact h₁₁
        | inlineCount => exact h₁₂
        | selectionKeys => exact h₁₃
        | logLevel => exact h₁₄
    · cases hread
  · rintro ⟨hall, hfields⟩
    rw [read, if_pos (hrecords.mpr hall), hfields .kanaLayout, hfields .kanaTable,
      hfields .defaultMode, hfields .toggleKeys, hfields .rawModeToggleKeys,
      hfields .conversionTriggerChars, hfields .viEscape, hfields .userDictPath,
      hfields .sources, hfields .lispDirectives, hfields .enabled, hfields .timeoutMs,
      hfields .inlineCount, hfields .selectionKeys, hfields .logLevel]
    rfl

/-- A document whose fields can all be read, reads. -/
theorem exists_read {doc : Document} (hrecords : HasRecords doc)
    {v : (f : ConfigField) → f.kind.Value} (hfields : ∀ f, readField doc f = some (v f)) :
    ∃ config, read doc = some config ∧ ∀ f, config.get f = v f := by
  refine ⟨ofFields v, read_eq_some_iff.mpr ⟨hrecords, fun f => ?_⟩, get_ofFields v⟩
  rw [hfields, get_ofFields]

end Config

/-! ### The round trip -/

section RoundTrip
variable (doc : Document) (new old : Config)

/-- The field does not change: `new == old`. -/
def Unchanged (f : ConfigField) : Prop := f.kind.same (new.get f) (old.get f) = true

/-- The integers of the configuration are within those of a document, and of their types. -/
def Config.Storable (config : Config) : Prop := ∀ f : ConfigField, f.kind.Storable (config.get f)

/-- The document `doc'` holds the new configuration, and the keys of `doc` that did not change. -/
structure WrittenBack (doc' : Document) : Prop where
  reads : ∃ config, Config.read doc' = some config ∧
    ∀ f : ConfigField, f.kind.same (new.get f) (config.get f) = true
  keeps : ∀ f, Unchanged new old f → ∀ item,
    keyItem (getEntry f.sectionKey doc) f.key = some item →
      keyItem (getEntry f.sectionKey doc') f.key = some item

/-- A section that takes the new values: it is a table or is not there, no field of it changes, or
it is replaced by a new table and does not need what it held. -/
inductive Writable (name : Str) : Prop
  | table : Flat (getEntry name doc) → Writable name
  | unchanged : (∀ f, f.sectionKey = name → Unchanged new old f) → Writable name
  /-- A changed field is set; the others are not there, and have their default. -/
  | replaced : (∃ f : ConfigField, f.sectionKey = name ∧ (f.edit new old).isSet = true) →
      (∀ f, f.sectionKey = name → Unchanged new old f →
        keyItem (getEntry name doc) f.key = none ∧
          f.kind.same (new.get f) (Config.get {} f) = true) → Writable name

end RoundTrip

/-- A field that does not change is kept. -/
theorem edit_of_unchanged {new old : Config} {f : ConfigField} (hsame : Unchanged new old f) :
    f.edit new old = .keep := if_pos hsame

/-- The three edits of a field. -/
inductive EditCases (new old : Config) (f : ConfigField) : Prop
  | keep : Unchanged new old f → f.edit new old = .keep → EditCases new old f
  | set (item : Item) : ¬Unchanged new old f → f.edit new old = .set item →
      f.kind.stored (new.get f) = .set item → EditCases new old f
  | clear : ¬Unchanged new old f → f.edit new old = .clear → new.get f = Config.get {} f →
      EditCases new old f

/-- Only the default is written by taking a key away, so a reader that finds no key and takes
the default has the new value. -/
theorem default_of_stored_clear {f : ConfigField} {v : f.kind.Value}
    (hstored : f.kind.stored v = .clear) : v = Config.get {} f := by
  have hpath : ∀ v : Option Path, FieldKind.path.stored v = .clear → v = none := by
    intro v hv
    cases v with
    | none => rfl
    | some p => cases hv
  cases f with
  | kanaTable => exact hpath v hstored
  | userDictPath => exact hpath v hstored
  | _ => cases hstored

/-- The edit of a field is one of the three: it did not change, its new value is set, or its key
is cleared because the new value is the default. -/
theorem editCases (new old : Config) (f : ConfigField) : EditCases new old f := by
  by_cases hsame : Unchanged new old f
  · exact .keep hsame (edit_of_unchanged hsame)
  · have hedit : f.edit new old = f.kind.stored (new.get f) := if_neg hsame
    cases hstored : f.kind.stored (new.get f) with
    | keep => exact absurd hstored (f.kind.stored_ne_keep _)
    | set item => exact .set item hsame (hedit.trans hstored) hstored
    | clear => exact .clear hsame (hedit.trans hstored) (default_of_stored_clear hstored)

section RoundTrip
variable {doc : Document} {new old : Config}

/-- The entry of a field in the section as it is written. -/
theorem getEntry_written (f : ConfigField) :
    getEntry f.key (tableEntries (getEntry f.sectionKey (writeConfig doc new old))) =
      (f.edit new old).apply (getEntry f.key (tableEntries (getEntry f.sectionKey doc))) := by
  rw [getEntry_writeConfig]
  exact getEntry_editAll (ConfigField.nodup_keys f.sectionKey) (ConfigField.mem_ofSection f) _

/-- A section is written as a table when it was one, or when a field of it is set. -/
theorem flat_written {name : Str} (hflat : Flat (getEntry name doc) ∨
    ∃ f : ConfigField, f.sectionKey = name ∧ (f.edit new old).isSet = true) :
    Flat (getEntry name (writeConfig doc new old)) := by
  rw [getEntry_writeConfig]
  refine flat_editAll _ (hflat.imp_right ?_)
  rintro ⟨f, rfl, hset⟩
  exact ⟨f, ConfigField.mem_ofSection f, hset⟩

/-- Without a field to set, a section that is no table stays as it is. -/
theorem getEntry_unwritten {name : Str} (hflat : ¬Flat (getEntry name doc))
    (hset : ∀ f : ConfigField, f.sectionKey = name → (f.edit new old).isSet = false) :
    getEntry name (writeConfig doc new old) = getEntry name doc := by
  rw [getEntry_writeConfig]
  exact editAll_of_not_flat (fun f hf => hset f (ConfigField.sectionKey_of_mem hf)) hflat

/-- A field that changed, in a section that is a table afterwards: it reads as its new value,
whether it was set or cleared. -/
theorem readField_written {f : ConfigField} (hnew : new.Storable)
    (hflat : Flat (getEntry f.sectionKey (writeConfig doc new old)))
    (hchanged : ¬Unchanged new old f) :
    Config.readField (writeConfig doc new old) f = some (new.get f) := by
  have hitem := hflat.fieldItem f.key f.index
  rw [getEntry_written] at hitem
  cases editCases new old f with
  | keep hsame => exact absurd hsame hchanged
  | set item _ hedit hstored =>
      rw [hedit] at hitem
      rw [Config.readField, readField_of_some hitem]
      exact f.kind.read_stored (hnew f) hstored
  | clear _ hedit hdefault =>
      rw [hedit] at hitem
      rw [Config.readField, readField_of_none hitem, hdefault]

/-- A field reads by its own section alone. -/
theorem readField_congr {doc' : Document} {f : ConfigField}
    (hsection : getEntry f.sectionKey doc' = getEntry f.sectionKey doc) :
    Config.readField doc' f = Config.readField doc f := by
  rw [Config.readField, Config.readField, hsection]

/-- An unchanged field of a section that is replaced is not there any more. -/
theorem getEntry_replaced {f : ConfigField} (hflat : ¬Flat (getEntry f.sectionKey doc))
    (hsame : Unchanged new old f) :
    getEntry f.key (tableEntries (getEntry f.sectionKey (writeConfig doc new old))) = none := by
  rw [getEntry_written, tableEntries_of_not_flat hflat, edit_of_unchanged hsame]
  rfl

/-- So it reads as its default. -/
theorem readField_replaced {f : ConfigField} (hflat : ¬Flat (getEntry f.sectionKey doc))
    (hwritten : Flat (getEntry f.sectionKey (writeConfig doc new old)))
    (hsame : Unchanged new old f) :
    Config.readField (writeConfig doc new old) f = some (Config.get {} f) := by
  have hitem := hwritten.fieldItem f.key f.index
  rw [getEntry_replaced hflat hsame] at hitem
  exact readField_of_none hitem

/-- An unchanged field of a table has the entry it had. -/
theorem getEntry_kept {f : ConfigField} (hsame : Unchanged new old f) :
    getEntry f.key (tableEntries (getEntry f.sectionKey (writeConfig doc new old))) =
      getEntry f.key (tableEntries (getEntry f.sectionKey doc)) := by
  rw [getEntry_written, edit_of_unchanged hsame]
  rfl

/-- So it reads as before: in a table a field that did not change keeps its key and its item, or
is missing as it was. -/
theorem readField_kept {f : ConfigField} (hflat : Flat (getEntry f.sectionKey doc))
    (hsame : Unchanged new old f) :
    Config.readField (writeConfig doc new old) f = Config.readField doc f := by
  have hwritten : Flat (getEntry f.sectionKey (writeConfig doc new old)) :=
    flat_written (.inl hflat)
  have hitem : fieldItem (getEntry f.sectionKey (writeConfig doc new old)) f.key f.index =
      fieldItem (getEntry f.sectionKey doc) f.key f.index := by
    rw [hwritten.fieldItem, hflat.fieldItem, getEntry_kept hsame]
  unfold Config.readField Toml.readField
  rw [hitem]

/-- A section none of whose fields changes, and that is no table, is the same as before. -/
theorem getEntry_unchanged {name : Str} (hflat : ¬Flat (getEntry name doc))
    (hall : ∀ f, f.sectionKey = name → Unchanged new old f) :
    getEntry name (writeConfig doc new old) = getEntry name doc := by
  refine getEntry_unwritten hflat fun f hf => ?_
  rw [edit_of_unchanged (hall f hf)]
  rfl

/-- Every field of a writable section reads as its new value, up to the comparison the tool
makes. There are three kinds of writable sections, and each has its own reason. -/
theorem readField_writable {f : ConfigField} (hread : Config.read doc = some old)
    (hnew : new.Storable) (hwritable : Writable doc new old f.sectionKey) :
    ∃ v, Config.readField (writeConfig doc new old) f = some v ∧
      f.kind.same (new.get f) v = true := by
  have hold : Config.readField doc f = some (old.get f) := (Config.read_eq_some_iff.mp hread).2 f
  have hself : f.kind.same (new.get f) (new.get f) = true := f.kind.same_refl _
  by_cases hflat : Flat (getEntry f.sectionKey doc)
  · -- A table is edited key by key: what does not change reads as before.
    by_cases hsame : Unchanged new old f
    · exact ⟨old.get f, (readField_kept hflat hsame).trans hold, hsame⟩
    · exact ⟨new.get f, readField_written hnew (flat_written (.inl hflat)) hsame, hself⟩
  · cases hwritable with
    | table htable => exact absurd htable hflat
    | unchanged hall =>
        have hsection := getEntry_unchanged hflat hall
        exact ⟨old.get f, (readField_congr hsection).trans hold, hall f rfl⟩
    | replaced hset hothers =>
        -- The new table has the changed keys only; the others read as their defaults.
        have hwritten : Flat (getEntry f.sectionKey (writeConfig doc new old)) :=
          flat_written (.inr hset)
        by_cases hsame : Unchanged new old f
        · exact ⟨_, readField_replaced hflat hwritten hsame, (hothers f rfl hsame).2⟩
        · exact ⟨new.get f, readField_written hnew hwritten hsame, hself⟩

/-- A writable section can still be read as a struct: it is a table afterwards, or nothing has
happened to it. -/
theorem isRecord_writable {name : Str} (hrecord : isRecord (getEntry name doc) = true)
    (hwritable : Writable doc new old name) :
    isRecord (getEntry name (writeConfig doc new old)) = true := by
  by_cases hflat : Flat (getEntry name doc)
  · exact (flat_written (.inl hflat)).isRecord
  · cases hwritable with
    | table htable => exact absurd htable hflat
    | unchanged hall => rwa [getEntry_unchanged hflat hall]
    | replaced hset hothers => exact (flat_written (.inr hset)).isRecord

/-- The keys of a writable section that do not change are still there, with the items they
had. -/
theorem keyItem_writable {f : ConfigField} (hwritable : Writable doc new old f.sectionKey)
    (hsame : Unchanged new old f) {item : Item}
    (hitem : keyItem (getEntry f.sectionKey doc) f.key = some item) :
    keyItem (getEntry f.sectionKey (writeConfig doc new old)) f.key = some item := by
  by_cases hflat : Flat (getEntry f.sectionKey doc)
  · have hwritten : Flat (getEntry f.sectionKey (writeConfig doc new old)) :=
      flat_written (.inl hflat)
    rw [hwritten.keyItem, getEntry_kept hsame, ← hflat.keyItem]
    exact hitem
  · cases hwritable with
    | table htable => exact absurd htable hflat
    | unchanged hall => rwa [getEntry_unchanged hflat hall]
    | replaced hset hothers =>
        rw [(hothers f rfl hsame).1] at hitem
        cases hitem

/-- A section that took the new configuration was writable. If it was not a table and something
in it was set, it was replaced by an empty one; what did not change must then have had no key
and the default value. -/
theorem writable_of_writtenBack {name : Str} (hread : Config.read doc = some old)
    (hback : WrittenBack doc new old (writeConfig doc new old)) : Writable doc new old name := by
  obtain ⟨config, hconfig, hequal⟩ := hback.reads
  have hfields := (Config.read_eq_some_iff.mp hconfig).2
  by_cases hflat : Flat (getEntry name doc)
  · exact .table hflat
  · by_cases hset : ∃ f : ConfigField, f.sectionKey = name ∧ (f.edit new old).isSet = true
    · refine .replaced hset fun f hf hsame => ?_
      subst hf
      have hwritten : Flat (getEntry f.sectionKey (writeConfig doc new old)) :=
        flat_written (.inr hset)
      constructor
      · -- Were the key there, it would have been kept.
        cases hitem : keyItem (getEntry f.sectionKey doc) f.key with
        | none => rfl
        | some item =>
            have hkept := hback.keeps f hsame item hitem
            rw [hwritten.keyItem, getEntry_replaced hflat hsame] at hkept
            cases hkept
      · -- It reads as the default now, and as the new value by assumption.
        have hdefault := readField_replaced hflat hwritten hsame
        rw [hfields f] at hdefault
        rw [← Option.some.inj hdefault]
        exact hequal f
    · -- The section stays as it is, so its fields read as before.
      refine .unchanged fun f hf => ?_
      subst hf
      have hnone : ∀ g : ConfigField, g.sectionKey = f.sectionKey →
          (g.edit new old).isSet = false := by
        intro g hg
        cases hisSet : (g.edit new old).isSet with
        | false => rfl
        | true => exact absurd ⟨g, hg, hisSet⟩ hset
      have hsection := getEntry_unwritten hflat hnone
      have hold := (Config.read_eq_some_iff.mp hread).2 f
      rw [← readField_congr hsection, hfields f] at hold
      have hvalue := hequal f
      rwa [Option.some.inj hold] at hvalue

/-- A new configuration that is written into a document is what the document reads as, and no
unchanged key is lost, exactly when every section is writable. -/
theorem writtenBack_iff (hread : Config.read doc = some old) (hnew : new.Storable) :
    WrittenBack doc new old (writeConfig doc new old) ↔
      ∀ name ∈ Config.sectionKeys, Writable doc new old name := by
  constructor
  · intro hback name _
    exact writable_of_writtenBack hread hback
  · intro hwritable
    have hsections : ∀ f : ConfigField, Writable doc new old f.sectionKey :=
      fun f => hwritable f.sectionKey f.sectionKey_mem
    refine ⟨?_, fun f hsame item hitem => keyItem_writable (hsections f) hsame hitem⟩
    have hrecords : Config.HasRecords (writeConfig doc new old) := fun name hname =>
      isRecord_writable ((Config.read_eq_some_iff.mp hread).1 name hname) (hwritable name hname)
    have hfields : ∀ f : ConfigField, ∃ v, Config.readField (writeConfig doc new old) f = some v ∧
        f.kind.same (new.get f) v = true :=
      fun f => readField_writable hread hnew (hsections f)
    -- The values read make up the configuration that the document reads as.
    choose v hv hsame using hfields
    obtain ⟨config, hconfig, hget⟩ := Config.exists_read hrecords hv
    refine ⟨config, hconfig, fun f => ?_⟩
    rw [hget f]
    exact hsame f

end RoundTrip

/-! ### The file -/

section File
variable {disk : Disk} {path : Path} {file : ConfigFile} {new : Config}

/-- A file that cannot be loaded is left alone, and the error reported. -/
theorem writeConfigPreserving_of_error {e : WriteError} (hload : file.load = .error e) :
    writeConfigPreserving disk path file new = (.error e, file) := by
  rw [writeConfigPreserving, hload]

/-- So is a file that cannot be replaced. -/
theorem writeConfigPreserving_of_io {doc : Document} {old : Config} {e : Str}
    (hload : file.load = .ok (doc, old)) (hdisk : disk.replace path = .error e) :
    writeConfigPreserving disk path file new = (.error (.io e), file) := by
  simp only [writeConfigPreserving, hload, hdisk]

/-- Otherwise the file holds the edited document. -/
theorem writeConfigPreserving_of_ok {doc : Document} {old : Config}
    (hload : file.load = .ok (doc, old)) (hdisk : disk.replace path = .ok ()) :
    writeConfigPreserving disk path file new = (.ok (), .toml (writeConfig doc new old)) := by
  simp only [writeConfigPreserving, hload, hdisk]

/-- What can be loaded to be edited reads as the configuration it is edited from. A missing file
stands for an empty document. -/
theorem read_of_load {doc : Document} {old : Config} (hload : file.load = .ok (doc, old)) :
    Config.read doc = some old := by
  cases file with
  | missing =>
      -- An empty document reads as the default configuration.
      cases hload
      rfl
  | unreadable error => cases hload
  | notToml text error => cases hload
  | toml doc =>
      cases hread : Config.read doc with
      | none => simp [ConfigFile.load, hread] at hload
      | some old =>
          simp only [ConfigFile.load, hread, Except.ok.injEq, Prod.mk.injEq] at hload
          rw [← hload.1, ← hload.2]
          exact hread

variable (disk path file new)

/-- The settings tool stores `new`: when it succeeds, the file holds `new` and all that did not
change; a file that cannot be edited is left alone, and reported. -/
structure StoresConfig : Prop where
  written : ∀ doc old, file.load = .ok (doc, old) →
    (writeConfigPreserving disk path file new).1 = .ok () →
      ∃ doc', (writeConfigPreserving disk path file new).2 = .toml doc' ∧
        WrittenBack doc new old doc'
  refused : ∀ e, file.load = .error e →
    writeConfigPreserving disk path file new = (.error e, file)

variable {new}

/-- The settings tool stores a configuration exactly when every section of the document it edits is
writable, or the file cannot be replaced. -/
theorem storesConfig_iff (hnew : new.Storable) :
    StoresConfig disk path file new ↔
      ∀ doc old, file.load = .ok (doc, old) → disk.replace path = .ok () →
        ∀ name ∈ Config.sectionKeys, Writable doc new old name := by
  constructor
  · intro hwrites doc old hload hdisk
    have hresult : writeConfigPreserving disk path file new =
        (.ok (), .toml (writeConfig doc new old)) := writeConfigPreserving_of_ok hload hdisk
    obtain ⟨doc', hdoc', hback⟩ := hwrites.written doc old hload (by rw [hresult])
    rw [hresult] at hdoc'
    cases hdoc'
    exact (writtenBack_iff (read_of_load hload) hnew).mp hback
  · intro hwritable
    refine ⟨fun doc old hload hok => ?_, fun e he => writeConfigPreserving_of_error he⟩
    cases hdisk : disk.replace path with
    | error e =>
        rw [writeConfigPreserving_of_io hload hdisk] at hok
        cases hok
    | ok =>
        refine ⟨writeConfig doc new old, ?_, ?_⟩
        · rw [writeConfigPreserving_of_ok hload hdisk]
        · exact (writtenBack_iff (read_of_load hload) hnew).mpr (hwritable doc old hload hdisk)

end File

/-! ### An inline table -/

/-- What `[input]` holds. -/
def inputEntries : List (Str × Value) :=
  [("default_mode".toList, .string "hiragana".toList),
    ("kana_layout".toList, .string "romaji".toList)]

/-- `input = { default_mode = "hiragana", kana_layout = "romaji" }`. -/
def inlineInput : Document := [("input".toList, .value (.inlineTable inputEntries))]

/-- The same with a header. -/
def headerInput : Document :=
  [("input".toList, .table (inputEntries.map fun e => (e.1, .value e.2)))]

/-- What both documents read as. -/
def hiraganaConfig : Config := { input := { defaultMode := "hiragana".toList } }

/-- Another kana layout is chosen. -/
def azikConfig : Config :=
  { input := { kanaLayout := "azik".toList, defaultMode := "hiragana".toList } }

/-- It has no integer that does not fit. -/
theorem storable_azikConfig : azikConfig.Storable := by
  intro f
  cases f with
  | inlineCount => exact (by decide : (3 : Nat) ≤ 9223372036854775807)
  | sources => exact fun _ h => nomatch h
  | _ => trivial

/-- A disk on which everything succeeds. -/
def workingDisk : Disk := ⟨.ok (), .ok (), .ok ()⟩

/-- The configuration file. -/
def settingsPath : Path := ⟨"/config.toml".toList⟩

/-- With a header the section is a table, so another kana layout is stored. The default mode
beside it stays. -/
theorem storesConfig_iff_header :
    StoresConfig workingDisk settingsPath (.toml headerInput) azikConfig :=
  (storesConfig_iff workingDisk settingsPath (.toml headerInput) storable_azikConfig).mpr (by
    intro doc old hload _ name _
    have hdoc : headerInput = doc := by
      have hread : (ConfigFile.toml headerInput).load = .ok (headerInput, hiraganaConfig) := rfl
      rw [hread] at hload
      cases hload
      rfl
    rw [← hdoc]
    refine .table fun item hitem => ?_
    by_cases hname : name = "input".toList
    · rw [hname] at hitem
      cases hitem
      rfl
    · rw [headerInput, getEntry_cons, if_neg (Ne.symm hname)] at hitem
      cases hitem)

/-- A platform on which every file exists, and kana tables are empty. No environment variable
and no directory is known on it. -/
@[reducible] def plainPlatform : Platform where
  fromToml _ := .ok {}
  env _ := none
  homeDir := none
  configDir := none
  dataDir := none
  pathExists _ := true
  loadTable _ := .ok ⟨[], [], []⟩
  toLowercase s := s.map Char.toLower
  debug s := s

/-- Choosing another kana layout in an inline table loses the default mode beside it:
`section_mut` does not take an inline table for a table, and replaces it by an empty one. -/
theorem write_loses_key :
    letI := plainPlatform
    ¬∀ (disk : Disk) (path : Path) (file : ConfigFile) (new : Config) (table : KanaTable),
      validate new.normalize = .ok table → new.Storable → StoresConfig disk path file new := by
  intro hall
  have hvalid : @validate plainPlatform (@Config.normalize plainPlatform azikConfig) =
      .ok ⟨[], [], []⟩ := rfl
  have hwrites := hall workingDisk settingsPath (.toml inlineInput) azikConfig ⟨[], [], []⟩
    hvalid storable_azikConfig
  have hload : (ConfigFile.toml inlineInput).load = .ok (inlineInput, hiraganaConfig) := rfl
  obtain ⟨doc', hdoc', hback⟩ := hwrites.written inlineInput hiraganaConfig hload rfl
  cases hdoc'
  have hkept := hback.keeps .defaultMode rfl (.value (.string "hiragana".toList)) rfl
  have hlost : keyItem (getEntry "input".toList (writeConfig inlineInput azikConfig
      hiraganaConfig)) "default_mode".toList = none := rfl
  have hboth := hlost.symm.trans hkept
  cases hboth

end Y2Skk
