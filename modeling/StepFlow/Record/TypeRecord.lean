/-
Type descriptors as records.

A descriptor is written as an object with its name and those of its two lists that are not empty. It is read from such
an object, in which other fields are skipped and a missing list is empty, or from an array of the name and up to two
lists. The fields of an object are read in their order, and the first fault decides.
-/
import StepFlow.Record.ReadError
import StepFlow.TypeDesc.Basic

namespace StepFlow.Record

/-- the field of a list, left out when the list is empty -/
def listField (key : String) (items : List Value) : List (String × Value) :=
  if items.isEmpty then [] else [(key, .array items)]

mutual

def ofType : TypeDesc → Value
  | ⟨name, params, supertypes⟩ =>
    .object (("name", .str name) ::
      (listField "params" (ofTypes params) ++ listField "supertypes" (ofTypes supertypes)))

def ofTypes : List TypeDesc → List Value
  | [] => []
  | type :: rest => ofType type :: ofTypes rest

end

/-- what has been read of a type while the fields of its record are visited -/
structure TypeDraft where
  name : Option String := none
  params : List TypeDesc := []
  supertypes : List TypeDesc := []

/-- The name is the one field that a type cannot do without. -/
def TypeDraft.finish (draft : TypeDraft) : Except ReadError TypeDesc :=
  match draft.name with
  | some name => .ok ⟨name, draft.params, draft.supertypes⟩
  | none => .error (.missingField "name")

mutual

/-- Reads a type from its record, in either form. -/
def readType : Value → Except ReadError TypeDesc
  | .object fields => do
    let draft ← readTypeFields fields {}
    draft.finish
  | .array [] => .error (.tooShort 0 "struct TypeDescriptor with 3 elements")
  | .array [name] => do
    let name ← readString name
    return ⟨name, [], []⟩
  | .array [name, params] => do
    let name ← readString name
    let params ← readTypeList params
    return ⟨name, params, []⟩
  | .array (name :: params :: supertypes :: rest) => do
    let name ← readString name
    let params ← readTypeList params
    let supertypes ← readTypeList supertypes
    if rest.isEmpty then return ⟨name, params, supertypes⟩ else .error (.tooLong (rest.length + 3))
  | found => .error (.wrongKind found "struct TypeDescriptor")

/-- Visits the fields of a type's record in their order. -/
def readTypeFields : List (String × Value) → TypeDraft → Except ReadError TypeDraft
  | [], draft => .ok draft
  | (key, value) :: rest, draft =>
    if key = "name" then do
      let name ← readString value
      readTypeFields rest { draft with name := some name }
    else if key = "params" then do
      let params ← readTypeList value
      readTypeFields rest { draft with params := params }
    else if key = "supertypes" then do
      let supertypes ← readTypeList value
      readTypeFields rest { draft with supertypes := supertypes }
    else readTypeFields rest draft

def readTypeList : Value → Except ReadError (List TypeDesc)
  | .array items => readTypes items
  | found => .error (.wrongKind found "a sequence")

def readTypes : List Value → Except ReadError (List TypeDesc)
  | [] => .ok []
  | item :: rest => do
    let type ← readType item
    let types ← readTypes rest
    return type :: types

end

end StepFlow.Record
