/-
Outputs as records.

An output is written as an object with its node, path and value. It is read from such an object, in which other fields
are skipped and none of the three may be missing, or from an array of the three in the order node, value, path. A
missing field is reported in that order too, after every fault in the fields that are there.
-/
import StepFlow.Record.ReadError
import StepFlow.Run.Output

namespace StepFlow.Record

def ofOutput (output : Output) : Value :=
  .object [("node", .str output.node.name), ("path", .array (output.path.map fun (index : Nat) => .int index)),
    ("value", output.value)]

/-- Reads the index of an advancer, a number below two to the 64th. -/
def readIndex : Value → Except ReadError Nat
  | .int n =>
    if 0 ≤ n ∧ n < 18446744073709551616 then .ok n.toNat else .error (.outOfRange (.int n) "usize")
  | found => .error (.wrongKind found "usize")

def readPath : Value → Except ReadError Path
  | .array items => items.mapM readIndex
  | found => .error (.wrongKind found "a sequence")

/-- what has been read of an output while the fields of its record are visited -/
structure OutputDraft where
  node : Option NodeId := none
  value : Option Value := none
  path : Option Path := none

/-- An output needs all of its three fields. -/
def OutputDraft.finish (draft : OutputDraft) : Except ReadError Output :=
  match draft.node, draft.value, draft.path with
  | some node, some value, some path => .ok ⟨node, value, path⟩
  | none, _, _ => .error (.missingField "node")
  | _, none, _ => .error (.missingField "value")
  | _, _, none => .error (.missingField "path")

/-- Visits the fields of an output's record in their order. -/
def readOutputFields : List (String × Value) → OutputDraft → Except ReadError OutputDraft
  | [], draft => .ok draft
  | (key, value) :: rest, draft =>
    if key = "node" then do
      let name ← readString value
      readOutputFields rest { draft with node := some ⟨name⟩ }
    else if key = "value" then readOutputFields rest { draft with value := some value }
    else if key = "path" then do
      let path ← readPath value
      readOutputFields rest { draft with path := some path }
    else readOutputFields rest draft

/-- what an array of fewer than three items is compared with -/
def outputArity : String := "struct BranchOutput with 3 elements"

/-- Reads an output from its record, in either form. -/
def readOutput : Value → Except ReadError Output
  | .object fields => do
    let draft ← readOutputFields fields {}
    draft.finish
  | .array [] => .error (.tooShort 0 outputArity)
  | .array [node] => do
    let _ ← readString node
    .error (.tooShort 1 outputArity)
  | .array [node, _] => do
    let _ ← readString node
    .error (.tooShort 2 outputArity)
  | .array (node :: value :: path :: rest) => do
    let name ← readString node
    let path ← readPath path
    if rest.isEmpty then return ⟨⟨name⟩, value, path⟩ else .error (.tooLong (rest.length + 3))
  | found => .error (.wrongKind found "struct BranchOutput")

end StepFlow.Record
