/-
What is read from records, and that nothing is lost in them.

The record of a type has two forms at every level: an object, in which keys of no meaning are skipped and a list may be
missing, or an array of the name and up to two lists (`Records`). A type is read exactly from its records. The one that is
written for it is among them, with all supertypes, at every depth, although the lists that are empty are left out. Results:
- `readType_of_records`, `records_of_readType`: a type is read from its records and from nothing else;
- `records_ofType`: what is written is a record of the type;
- `readOutput_ofOutput_iff`: an output is read back if the indices in its path are machine words;
- `records_round_trip`: all of it.
-/
import Mathlib.Tactic.Simproc.ExistsAndEq
import Mathlib.Tactic.SplitIfs
import StepFlow.Record.OutputRecord
import StepFlow.Record.TypeRecord

namespace StepFlow

/-! ## Records of types -/

mutual

/-- in every object of the value each key stands once -/
def Value.Distinct : Value → Prop
  | .array items => Value.DistinctItems items
  | .object fields => (fields.map Prod.fst).Nodup ∧ Value.DistinctFields fields
  | _ => True

def Value.DistinctItems : List Value → Prop
  | [] => True
  | item :: rest => Value.Distinct item ∧ Value.DistinctItems rest

def Value.DistinctFields : List (String × Value) → Prop
  | [] => True
  | (_, value) :: rest => Value.Distinct value ∧ Value.DistinctFields rest

end

namespace Record

mutual

/-- the value is a record of the type: an object with its name and its lists, among other keys, or an array of these; at
every level in either form -/
inductive Records : Value → TypeDesc → Prop
  | fields {fields : List (String × Value)} {name : String} {params supertypes : List TypeDesc}
    (once : (fields.map Prod.fst).Nodup) (named : fields.lookup "name" = some (.str name))
    (takes : RecordsList (fields.lookup "params") params)
    (declares : RecordsList (fields.lookup "supertypes") supertypes) :
    Records (.object fields) ⟨name, params, supertypes⟩
  | items {name : String} {lists : List Value} {params supertypes : List TypeDesc} (short : lists.length ≤ 2)
    (takes : RecordsList lists[0]? params) (declares : RecordsList lists[1]? supertypes) :
    Records (.array (.str name :: lists)) ⟨name, params, supertypes⟩

/-- what stands for a list of types: nothing if there are none, or an array of their records -/
inductive RecordsList : Option Value → List TypeDesc → Prop
  | missing : RecordsList none []
  | given {items : List Value} {types : List TypeDesc} (each : RecordsEach items types) :
    RecordsList (some (.array items)) types

inductive RecordsEach : List Value → List TypeDesc → Prop
  | nil : RecordsEach [] []
  | cons {item : Value} {items : List Value} {type : TypeDesc} {types : List TypeDesc} (first : Records item type)
    (others : RecordsEach items types) : RecordsEach (item :: items) (type :: types)

end

/-! ## What is read at one level -/

theorem bind_eq_ok {A B : Type} {read : Except ReadError A} {next : A → Except ReadError B} {found : B} :
    (read >>= next) = .ok found ↔ ∃ first, read = .ok first ∧ next first = .ok found := by
  cases read with
  | error fault => simp [bind, Except.bind]
  | ok first => simp [bind, Except.bind]

theorem readString_eq_ok_iff {value : Value} {s : String} : readString value = .ok s ↔ value = .str s := by
  cases value <;> simp [readString]

/-- Reads a list of types that may be missing. -/
def readGiven (missing : List TypeDesc) : Option Value → Except ReadError (List TypeDesc)
  | none => .ok missing
  | some value => readTypeList value

theorem lookup_eq_none_of_not_mem {key : String} {fields : List (String × Value)} (h : key ∉ fields.map Prod.fst) :
    fields.lookup key = none := by
  rw [List.lookup_eq_none_iff]
  rintro ⟨other, value⟩ mem
  simp only [bne_iff_ne]
  rintro rfl
  exact h (List.mem_map_of_mem mem)

theorem lookup_cons_of_ne {key other : String} (h : key ≠ other) (value : Value) (fields : List (String × Value)) :
    ((other, value) :: fields).lookup key = fields.lookup key := by
  rw [List.lookup_cons, beq_false_of_ne h]

/-- Of fields with distinct keys those of a type are read, wherever they stand. By induction on the fields: the key that is
met does not come again. -/
theorem readTypeFields_eq_ok_iff {fields : List (String × Value)} (once : (fields.map Prod.fst).Nodup)
    {draft done : TypeDraft} :
    readTypeFields fields draft = .ok done ↔
      (fields.lookup "name" = none ∧ draft.name = done.name ∨
          ∃ name, fields.lookup "name" = some (.str name) ∧ done.name = some name) ∧
        readGiven draft.params (fields.lookup "params") = .ok done.params ∧
          readGiven draft.supertypes (fields.lookup "supertypes") = .ok done.supertypes := by
  induction fields generalizing draft with
  | nil =>
    obtain ⟨name, params, supertypes⟩ := draft
    obtain ⟨others, takes, declares⟩ := done
    simp [readTypeFields, readGiven]
  | cons field rest ih =>
    obtain ⟨key, value⟩ := field
    rw [List.map_cons, List.nodup_cons] at once
    have gone := lookup_eq_none_of_not_mem once.1
    rw [readTypeFields]
    split_ifs with name params supertypes
    · subst name
      rw [bind_eq_ok, List.lookup_cons_self, lookup_cons_of_ne (by decide), lookup_cons_of_ne (by decide)]
      simp only [ih once.2, gone, readString_eq_ok_iff]
      cases value <;> simp [eq_comm]
    · subst params
      rw [bind_eq_ok, List.lookup_cons_self, lookup_cons_of_ne (by decide), lookup_cons_of_ne (by decide)]
      simp only [ih once.2, gone, readGiven]
      cases read : readTypeList value <;> simp
    · subst supertypes
      rw [bind_eq_ok, List.lookup_cons_self, lookup_cons_of_ne (by decide), lookup_cons_of_ne (by decide)]
      simp only [ih once.2, gone, readGiven]
      cases read : readTypeList value <;> simp
    · rw [ih once.2, lookup_cons_of_ne (Ne.symm name), lookup_cons_of_ne (Ne.symm params),
        lookup_cons_of_ne (Ne.symm supertypes)]

theorem finish_eq_ok_iff {draft : TypeDraft} {name : String} {params supertypes : List TypeDesc} :
    draft.finish = .ok ⟨name, params, supertypes⟩ ↔ draft = ⟨some name, params, supertypes⟩ := by
  obtain ⟨read, takes, declares⟩ := draft
  cases read <;> simp [TypeDraft.finish]

/-- **What is read from an object**: its name, which must be there, and its two lists. -/
theorem readType_object_eq_ok_iff {fields : List (String × Value)} (once : (fields.map Prod.fst).Nodup) {name : String}
    {params supertypes : List TypeDesc} :
    readType (.object fields) = .ok ⟨name, params, supertypes⟩ ↔
      fields.lookup "name" = some (.str name) ∧ readGiven [] (fields.lookup "params") = .ok params ∧
        readGiven [] (fields.lookup "supertypes") = .ok supertypes := by
  rw [readType, bind_eq_ok]
  simp only [readTypeFields_eq_ok_iff once, finish_eq_ok_iff, exists_eq_right]
  simp

/-- **What is read from an array**: a name and up to two lists. -/
theorem readType_array_eq_ok_iff {first : Value} {lists : List Value} {name : String}
    {params supertypes : List TypeDesc} :
    readType (.array (first :: lists)) = .ok ⟨name, params, supertypes⟩ ↔
      first = .str name ∧ lists.length ≤ 2 ∧ readGiven [] lists[0]? = .ok params ∧
        readGiven [] lists[1]? = .ok supertypes := by
  match lists with
  | [] =>
    simp only [readType, bind_eq_ok, readString_eq_ok_iff]
    simp [pure, Except.pure, readGiven, eq_comm]
  | [takes] =>
    simp only [readType, bind_eq_ok, readString_eq_ok_iff]
    simp [pure, Except.pure, readGiven]
  | [takes, declares] =>
    simp only [readType, bind_eq_ok, readString_eq_ok_iff]
    simp [pure, Except.pure, readGiven]
  | takes :: declares :: more :: rest =>
    simp only [readType, bind_eq_ok, readString_eq_ok_iff]
    simp

theorem readGiven_eq_ok_iff {given : Option Value} {types : List TypeDesc} :
    readGiven [] given = .ok types ↔
      given = none ∧ types = [] ∨ ∃ items, given = some (.array items) ∧ readTypes items = .ok types := by
  cases given with
  | none => simp [readGiven, eq_comm]
  | some value => cases value <;> simp [readGiven, readTypeList]

theorem readTypes_cons_eq_ok_iff {items : List Value} {type : TypeDesc} {types : List TypeDesc} :
    readTypes items = .ok (type :: types) ↔
      ∃ item rest, items = item :: rest ∧ readType item = .ok type ∧ readTypes rest = .ok types := by
  cases items with
  | nil => simp [readTypes]
  | cons item rest => simp [readTypes, bind_eq_ok, pure, Except.pure]

theorem readTypes_nil_eq_ok_iff {items : List Value} : readTypes items = .ok [] ↔ items = [] := by
  cases items with
  | nil => simp [readTypes]
  | cons item rest => simp [readTypes, bind_eq_ok, pure, Except.pure]

/-! ## A type is read from its records -/

theorem readGiven_of_recordsList {given : Option Value} {types : List TypeDesc}
    (each : ∀ items, RecordsEach items types → readTypes items = .ok types) (h : RecordsList given types) :
    readGiven [] given = .ok types := by
  cases h with
  | missing => rfl
  | given items => exact each _ items

mutual

/-- **A type is read from each of its records**, whatever the form of its parts. By recursion on the type. -/
theorem readType_of_records : ∀ {type : TypeDesc} {value : Value}, Records value type → readType value = .ok type
  | ⟨_, _, _⟩, _, .fields once named takes declares =>
    (readType_object_eq_ok_iff once).2
      ⟨named, readGiven_of_recordsList (fun _ => readTypes_of_records) takes,
        readGiven_of_recordsList (fun _ => readTypes_of_records) declares⟩
  | ⟨_, _, _⟩, _, .items short takes declares =>
    readType_array_eq_ok_iff.2
      ⟨rfl, short, readGiven_of_recordsList (fun _ => readTypes_of_records) takes,
        readGiven_of_recordsList (fun _ => readTypes_of_records) declares⟩

theorem readTypes_of_records : ∀ {types : List TypeDesc} {items : List Value}, RecordsEach items types →
    readTypes items = .ok types
  | [], _, .nil => rfl
  | _ :: _, _, .cons first others =>
    readTypes_cons_eq_ok_iff.2 ⟨_, _, rfl, readType_of_records first, readTypes_of_records others⟩

end

/-! ## and from nothing else -/

theorem distinct_of_lookup {key : String} {value : Value} {fields : List (String × Value)}
    (distinct : Value.DistinctFields fields) (h : fields.lookup key = some value) : value.Distinct := by
  induction fields with
  | nil => cases h
  | cons field rest ih =>
    obtain ⟨other, first⟩ := field
    by_cases same : key = other
    · subst same
      rw [List.lookup_cons_self] at h
      cases h
      exact distinct.1
    · rw [lookup_cons_of_ne same] at h
      exact ih distinct.2 h

theorem distinct_of_getElem? {index : Nat} {value : Value} {items : List Value} (distinct : Value.DistinctItems items)
    (h : items[index]? = some value) : value.Distinct := by
  induction items generalizing index with
  | nil => cases h
  | cons item rest ih =>
    cases index with
    | zero =>
      cases h
      exact distinct.1
    | succ index => exact ih distinct.2 h

theorem recordsList_of_readGiven {given : Option Value} {types : List TypeDesc}
    (distinct : ∀ value ∈ given, value.Distinct)
    (each : ∀ items, Value.DistinctItems items → readTypes items = .ok types → RecordsEach items types)
    (h : readGiven [] given = .ok types) : RecordsList given types := by
  rcases readGiven_eq_ok_iff.1 h with ⟨rfl, rfl⟩ | ⟨items, rfl, reads⟩
  · exact .missing
  · exact .given (each items (distinct _ rfl) reads)

mutual

/-- **Whatever a type is read from is a record of it.** By recursion on the type. -/
theorem records_of_readType : ∀ {type : TypeDesc} {value : Value}, value.Distinct → readType value = .ok type →
    Records value type
  | ⟨name, params, supertypes⟩, .object fields, distinct, h => by
    obtain ⟨named, takes, declares⟩ := (readType_object_eq_ok_iff distinct.1).1 h
    exact .fields distinct.1 named
      (recordsList_of_readGiven (fun _ => distinct_of_lookup distinct.2) (fun _ => records_of_readTypes) takes)
      (recordsList_of_readGiven (fun _ => distinct_of_lookup distinct.2) (fun _ => records_of_readTypes) declares)
  | ⟨name, params, supertypes⟩, .array (first :: lists), distinct, h => by
    obtain ⟨rfl, short, takes, declares⟩ := readType_array_eq_ok_iff.1 h
    exact .items short
      (recordsList_of_readGiven (fun _ => distinct_of_getElem? distinct.2) (fun _ => records_of_readTypes) takes)
      (recordsList_of_readGiven (fun _ => distinct_of_getElem? distinct.2) (fun _ => records_of_readTypes) declares)
  | _, .array [], _, h => nomatch h
  | _, .null, _, h => nomatch h
  | _, .bool _, _, h => nomatch h
  | _, .int _, _, h => nomatch h
  | _, .float _, _, h => nomatch h
  | _, .str _, _, h => nomatch h

theorem records_of_readTypes : ∀ {types : List TypeDesc} {items : List Value}, Value.DistinctItems items →
    readTypes items = .ok types → RecordsEach items types
  | [], items, _, h => by
    rw [readTypes_nil_eq_ok_iff.1 h]
    exact .nil
  | type :: types, items, distinct, h => by
    obtain ⟨item, rest, rfl, first, others⟩ := readTypes_cons_eq_ok_iff.1 h
    exact .cons (records_of_readType distinct.1 first) (records_of_readTypes distinct.2 others)

end

/-! ## What is written -/

/-- what stands for a list that is written: nothing if it is empty -/
def listed (items : List Value) : Option Value :=
  if items.isEmpty then none else some (.array items)

/-- In the record that is written for a type each key stands once, and a key stands for a list only if it is not empty. -/
theorem written_fields (name : String) (params supertypes : List Value) :
    let fields := ("name", Value.str name) :: (listField "params" params ++ listField "supertypes" supertypes)
    (fields.map Prod.fst).Nodup ∧ fields.lookup "name" = some (.str name) ∧ fields.lookup "params" = listed params ∧
      fields.lookup "supertypes" = listed supertypes := by
  cases params <;> cases supertypes <;> simp [listField, listed, List.lookup_cons]

theorem recordsList_listed {types : List TypeDesc} (each : RecordsEach (ofTypes types) types) :
    RecordsList (listed (ofTypes types)) types := by
  cases types with
  | nil => exact .missing
  | cons type rest => exact .given each

mutual

/-- **What is written for a type is a record of it.** -/
theorem records_ofType : ∀ type : TypeDesc, Records (ofType type) type
  | ⟨name, params, supertypes⟩ => by
    obtain ⟨once, named, takes, declares⟩ := written_fields name (ofTypes params) (ofTypes supertypes)
    rw [ofType]
    exact .fields once named (takes ▸ recordsList_listed (recordsEach_ofTypes params))
      (declares ▸ recordsList_listed (recordsEach_ofTypes supertypes))

theorem recordsEach_ofTypes : ∀ types : List TypeDesc, RecordsEach (ofTypes types) types
  | [] => .nil
  | type :: rest => .cons (records_ofType type) (recordsEach_ofTypes rest)

end

theorem readType_ofType (type : TypeDesc) : readType (ofType type) = .ok type :=
  readType_of_records (records_ofType type)

theorem member?_ofType_eq_none_iff (type : TypeDesc) :
    ((ofType type).member? "params" = none ↔ type.params = []) ∧
      ((ofType type).member? "supertypes" = none ↔ type.supertypes = []) := by
  obtain ⟨name, params, supertypes⟩ := type
  obtain ⟨-, -, takes, declares⟩ := written_fields name (ofTypes params) (ofTypes supertypes)
  rw [ofType, Value.member?, Value.member?, takes, declares]
  constructor
  · cases params <;> simp [listed, ofTypes]
  · cases supertypes <;> simp [listed, ofTypes]

/-- **What is read from arrays**: the name with the lists that are there. -/
theorem readType_positional {name : String} {params supertypes : List TypeDesc} {takes declares : List Value}
    (first : RecordsEach takes params) (second : RecordsEach declares supertypes) :
    readType (.array [.str name, .array takes, .array declares]) = .ok ⟨name, params, supertypes⟩ ∧
      readType (.array [.str name, .array takes]) = .ok ⟨name, params, []⟩ ∧
        readType (.array [.str name]) = .ok ⟨name, [], []⟩ :=
  ⟨readType_of_records (.items (by simp) (.given first) (.given second)),
    readType_of_records (.items (by simp) (.given first) .missing),
    readType_of_records (.items (by simp) .missing .missing)⟩

/-! ## Outputs -/

/-- the index of an advancer is a machine word -/
def IsWord (index : Nat) : Prop := index < 18446744073709551616

theorem readIndex_eq_ok_iff {value : Value} {index : Nat} :
    readIndex value = .ok index ↔ value = .int index ∧ IsWord index := by
  cases value with
  | int n =>
    simp only [readIndex, IsWord]
    split_ifs with fits
    · simp only [Except.ok.injEq, Value.int.injEq]
      omega
    · simp only [Value.int.injEq, false_iff]
      omega
  | _ => simp [readIndex]

theorem mapM_readIndex_eq_ok_iff {items : List Value} {path : Path} :
    items.mapM readIndex = .ok path ↔
      items = path.map (fun index : Nat => .int index) ∧ ∀ index ∈ path, IsWord index := by
  induction items generalizing path with
  | nil => cases path <;> simp [pure, Except.pure]
  | cons item rest ih =>
    rw [List.mapM_cons]
    simp only [bind_eq_ok, readIndex_eq_ok_iff, ih]
    cases path with
    | nil => simp [pure, Except.pure]
    | cons index more =>
      simp only [pure, Except.pure, Except.ok.injEq, List.cons.injEq, List.map_cons, List.forall_mem_cons]
      constructor
      · rintro ⟨_, ⟨rfl, word⟩, _, ⟨rfl, words⟩, rfl, rfl⟩
        exact ⟨⟨rfl, rfl⟩, word, words⟩
      · rintro ⟨⟨rfl, rfl⟩, word, words⟩
        exact ⟨index, ⟨rfl, word⟩, more, ⟨rfl, words⟩, rfl, rfl⟩

theorem readPath_eq_ok_iff {value : Value} {path : Path} :
    readPath value = .ok path ↔
      value = .array (path.map fun index : Nat => .int index) ∧ ∀ index ∈ path, IsWord index := by
  cases value with
  | array items => rw [readPath, mapM_readIndex_eq_ok_iff, Value.array.injEq]
  | _ => simp [readPath]

/-- **An output is read back exactly if the indices in its path are machine words.** -/
theorem readOutput_ofOutput_iff (output : Output) :
    readOutput (ofOutput output) = .ok output ↔ ∀ index ∈ output.path, IsWord index := by
  obtain ⟨⟨node⟩, value, path⟩ := output
  have reads : readOutput (ofOutput ⟨⟨node⟩, value, path⟩) = do
      let read ← readPath (.array (path.map fun index : Nat => .int index))
      return ⟨⟨node⟩, value, read⟩ := by
    simp only [ofOutput, readOutput, readOutputFields, readString]
    cases readPath (.array (path.map fun index : Nat => .int index)) <;> rfl
  rw [reads, bind_eq_ok]
  simp only [readPath_eq_ok_iff]
  constructor
  · rintro ⟨read, ⟨-, words⟩, same⟩
    cases same
    exact words
  · intro words
    exact ⟨path, ⟨rfl, words⟩, rfl⟩

theorem readOutputFields_words {fields : List (String × Value)} {draft done : OutputDraft}
    (words : ∀ path ∈ draft.path, ∀ index ∈ path, IsWord index) (h : readOutputFields fields draft = .ok done) :
    ∀ path ∈ done.path, ∀ index ∈ path, IsWord index := by
  induction fields generalizing draft with
  | nil =>
    cases h
    exact words
  | cons field rest ih =>
    obtain ⟨key, value⟩ := field
    rw [readOutputFields] at h
    split_ifs at h
    · obtain ⟨name, -, later⟩ := bind_eq_ok.1 h
      exact ih (by exact words) later
    · exact ih (by exact words) h
    · obtain ⟨path, read, later⟩ := bind_eq_ok.1 h
      refine ih (fun found mem => ?_) later
      cases mem
      exact (readPath_eq_ok_iff.1 read).2
    · exact ih words h

theorem finish_path {draft : OutputDraft} {output : Output} (h : draft.finish = .ok output) :
    draft.path = some output.path := by
  obtain ⟨node, value, path⟩ := draft
  cases node <;> cases value <;> cases path <;> cases h
  rfl

theorem readOutput_words {value : Value} {output : Output} (h : readOutput value = .ok output) :
    ∀ index ∈ output.path, IsWord index := by
  match value with
  | .object fields =>
    obtain ⟨draft, read, finished⟩ := bind_eq_ok.1 h
    exact readOutputFields_words (by simp) read output.path (finish_path finished)
  | .array [] => cases h
  | .array [node] =>
    obtain ⟨name, -, fails⟩ := bind_eq_ok.1 h
    cases fails
  | .array [node, value] =>
    obtain ⟨name, -, fails⟩ := bind_eq_ok.1 h
    cases fails
  | .array (node :: value :: path :: rest) =>
    obtain ⟨name, -, later⟩ := bind_eq_ok.1 h
    obtain ⟨read, words, last⟩ := bind_eq_ok.1 later
    cases rest with
    | nil =>
      cases last
      exact (readPath_eq_ok_iff.1 words).2
    | cons more rest => cases last
  | .null => cases h
  | .bool _ => cases h
  | .int _ => cases h
  | .float _ => cases h
  | .str _ => cases h

/-- **Nothing is lost in records.** What is written for a type, where lists that are empty are left out, is read as the very
type, with the supertypes that it declares at every depth; and so are arrays of its name and its lists, whether those at the
end are left out when they are empty or not. A value whose objects have each key once is read as a type exactly if it is a
record of it, at every level an object, with whatever keys beside its own ones, or an array; and writing the type that has
been read and reading it again makes no difference. An output is read back from what is written for it exactly if the indices
in its path are machine words, whatever its value; and those in what has been read are. -/
theorem records_round_trip :
    (∀ type : TypeDesc, readType (ofType type) = .ok type ∧
        ((ofType type).member? "params" = none ↔ type.params = []) ∧
        ((ofType type).member? "supertypes" = none ↔ type.supertypes = [])) ∧
      (∀ (name : String) (params supertypes : List TypeDesc) (takes declares : List Value), RecordsEach takes params →
        RecordsEach declares supertypes →
          readType (.array [.str name, .array takes, .array declares]) = .ok ⟨name, params, supertypes⟩ ∧
            readType (.array [.str name, .array takes]) = .ok ⟨name, params, []⟩ ∧
              readType (.array [.str name]) = .ok ⟨name, [], []⟩) ∧
      (∀ value : Value, value.Distinct → ∀ type : TypeDesc, readType value = .ok type ↔ Records value type) ∧
      (∀ (value : Value) (type : TypeDesc), readType value = .ok type → readType (ofType type) = readType value) ∧
      (∀ output : Output, readOutput (ofOutput output) = .ok output ↔ ∀ index ∈ output.path, IsWord index) ∧
      ∀ (value : Value) (output : Output), readOutput value = .ok output →
        readOutput (ofOutput output) = readOutput value :=
  ⟨fun type => ⟨readType_ofType type, member?_ofType_eq_none_iff type⟩,
    fun _ _ _ _ _ => readType_positional,
    fun _ distinct _ => ⟨records_of_readType distinct, readType_of_records⟩,
    fun _ type reads => (readType_ofType type).trans reads.symm,
    readOutput_ofOutput_iff,
    fun _ output reads => ((readOutput_ofOutput_iff output).2 (readOutput_words reads)).trans reads.symm⟩

/-- a box of lists of numbers that may be supplied as a thing -/
def box : TypeDesc := ⟨"Box", [TypeDesc.list TypeDesc.int32], [TypeDesc.named "Thing"]⟩

/-- a record of it in both forms, with a key that means nothing and a list that could be left out -/
def mixedRecord : Value :=
  .object [("icon", .null), ("name", .str "Box"),
    ("params", .array [.array [.str "List", .array [.array [.str "Int32"]]]]),
    ("supertypes", .array [.object [("name", .str "Thing"), ("params", .array [])]])]

/-- an output without a value, far out -/
def lastOutput : Output := ⟨⟨"end"⟩, .null, [0, 18446744073709551615]⟩

theorem records_round_trip_mixed :
    mixedRecord.Distinct ∧ readType mixedRecord = .ok box ∧ readType (ofType box) = .ok box ∧
      (ofType box).member? "supertypes" ≠ none ∧ RecordsEach [mixedRecord] [box] ∧
      readType (.array [.str "Crate", .array [mixedRecord], .array []]) = .ok ⟨"Crate", [box], []⟩ ∧
      readType (.array [.str "Crate", .array [mixedRecord]]) = .ok ⟨"Crate", [box], []⟩ ∧
      readOutput (ofOutput lastOutput) = .ok lastOutput := by
  obtain ⟨written, positional, read, again, outputs, -⟩ := records_round_trip
  have distinct : mixedRecord.Distinct := by
    simp [mixedRecord, Value.Distinct, Value.DistinctItems, Value.DistinctFields]
  have int32 : Records (.array [.str "Int32"]) TypeDesc.int32 := .items (by simp) .missing .missing
  have list : Records (.array [.str "List", .array [.array [.str "Int32"]]]) (TypeDesc.list TypeDesc.int32) :=
    .items (by simp) (.given (.cons int32 .nil)) .missing
  have thing : Records (.object [("name", .str "Thing"), ("params", .array [])]) (TypeDesc.named "Thing") :=
    .fields (by simp) rfl (.given .nil) .missing
  have mixed : Records mixedRecord box :=
    .fields distinct.1 rfl (.given (.cons list .nil)) (.given (.cons thing .nil))
  have reads : readType mixedRecord = .ok box := (read mixedRecord distinct box).2 mixed
  have crate := positional "Crate" [box] [] [mixedRecord] [] (.cons mixed .nil) .nil
  refine ⟨distinct, reads, (again _ _ reads).trans reads, ?_, .cons mixed .nil, crate.1, crate.2.1, ?_⟩
  · rw [Ne, (written box).2.2]
    simp [box]
  · exact (outputs lastOutput).2 (by simp [lastOutput, IsWord])

end Record

end StepFlow
