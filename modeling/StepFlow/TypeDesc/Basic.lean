/-
Type descriptors.

A descriptor has a name, parameters and declared supertypes, and every decision about types is made from these alone.
Ten names are built in; any other name is a nominal type of the user's. Two descriptors are the same type when their
names and parameters agree: `TypeDesc.same` looks at no supertype at any level, and `TypeDesc.hashCode` agrees with
it, so that descriptors can be collected in hash sets (`TypeDesc.novelties`).
-/
import Std.Data.HashSet
import StepFlow.Text.Blank

namespace StepFlow

structure TypeDesc where
  name : String
  params : List TypeDesc := []
  supertypes : List TypeDesc := []
  deriving Inhabited

namespace TypeDesc

def named (name : String) : TypeDesc := ⟨name, [], []⟩

def generic (name : String) (params : List TypeDesc) : TypeDesc := ⟨name, params, []⟩

/-- the top type, which every type satisfies -/
def any : TypeDesc := named "Any"

def unit : TypeDesc := named "Unit"

def bool : TypeDesc := named "Bool"

def int32 : TypeDesc := named "Int32"

def int64 : TypeDesc := named "Int64"

def float64 : TypeDesc := named "Float64"

def string : TypeDesc := named "String"

def list (item : TypeDesc) : TypeDesc := generic "List" [item]

def map (key value : TypeDesc) : TypeDesc := generic "Map" [key, value]

def option (inner : TypeDesc) : TypeDesc := generic "Option" [inner]

/-- the type with one more supertype that it may be supplied as -/
def withSupertype (type supertype : TypeDesc) : TypeDesc :=
  { type with supertypes := type.supertypes ++ [supertype] }

/-- A type is undeclared when its name is blank. -/
def isUndeclared (type : TypeDesc) : Bool :=
  Text.isBlankText type.name

/-- whether the type is the top type -/
def isAny (type : TypeDesc) : Bool :=
  type.name == "Any" && type.params.isEmpty

mutual

/-- Identity of types: the names agree and the parameters are the same one by one. -/
def same : TypeDesc → TypeDesc → Bool
  | ⟨name, params, _⟩, other => name == other.name && sameEach params other.params

def sameEach : List TypeDesc → List TypeDesc → Bool
  | [], [] => true
  | param :: rest, other :: others => same param other && sameEach rest others
  | _, _ => false

end

instance : BEq TypeDesc := ⟨same⟩

mutual

/-- a hash of the name and the parameters -/
def hashCode : TypeDesc → UInt64
  | ⟨name, params, _⟩ => mixHash (hash name) (hashEach params)

def hashEach : List TypeDesc → UInt64
  | [] => 7
  | param :: rest => mixHash (hashCode param) (hashEach rest)

end

instance : Hashable TypeDesc := ⟨hashCode⟩

/-- For each type in turn, whether a set of the types before it did not hold it yet. -/
def novelties (types : List TypeDesc) : List Bool :=
  let (flags, _) := types.foldl (fun (flags, seen) type =>
    let (known, seen) := Std.HashSet.containsThenInsert seen type
    (flags ++ [!known], seen)) (([] : List Bool), (∅ : Std.HashSet TypeDesc))
  flags

end TypeDesc

end StepFlow
