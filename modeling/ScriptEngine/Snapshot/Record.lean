import ScriptEngine.Json
/-! How saved records are read. A document comes from outside, so everything in it is checked; it
must not be nested deeper than a number of levels, of which every array and object takes one. -/

namespace ScriptEngine.Snapshot

abbrev Decoder (α : Type) := Nat → Json → Option α

/-- The number of arrays and objects that may be nested. -/
def maxLevels : Nat := 127

abbrev Record := List (String × Json)

/-- The members of an object that have one of the names. No name may be given twice; members of
other names are passed over. -/
def record? (names : List String) : Json → Option Record
  | .object members => do
      let named ← members.mapM fun (key, value) =>
        (Json.unescape? key).map fun name => (name, value)
      let known := named.filter fun member => member.1 ∈ names
      if (known.map Prod.fst).Nodup then some known else none
  | _ => none

namespace Record

def required {α : Type} (record : Record) (name : String) (decode : Json → Option α) : Option α :=
  (record.lookup name).bind decode

def nullable {α : Type} (record : Record) (name : String) (decode : Json → Option α) :
    Option (Option α) :=
  match record.lookup name with
  | none | some .null => some none
  | some json => (decode json).map some

end Record

def items {α : Type} (decode : Decoder α) : Decoder (List α)
  | levels + 1, .array values => values.mapM (decode levels)
  | _, _ => none

/-- One of several named forms: its name, what belongs to it, and the levels left for that. A name
alone is the form that nothing belongs to. -/
def choice? : Nat → Json → Option (String × Json × Nat)
  | levels, .string spelling => (Json.unescape? spelling).map fun name => (name, .null, levels)
  | levels + 1, .object [(key, value)] =>
      (Json.unescape? key).map fun name => (name, value, levels)
  | _, _ => none

def oneOf {α : Type} (name : α → String) (values : List α) : Decoder α := fun levels json =>
  match choice? levels json with
  | some (given, .null, _) => values.find? fun value => name value = given
  | _ => none

def form (name : String) (json : Json) : Json := .ofMembers [(name, json)]

def word? (json : Json) : Option Nat := json.natBelow? UInt32.size

def longWord? (json : Json) : Option Nat := json.natBelow? UInt64.size

end ScriptEngine.Snapshot
