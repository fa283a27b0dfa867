/-! # TOML values

The keys of a table are distinct. Their order has no meaning.
-/

namespace SwiftToKotlin.Toml

/-- A value of a TOML document. Numbers with a fraction and dates are kept as text. -/
inductive Value
  | string (text : String)
  | integer (n : Int)
  | float (text : String)
  | boolean (value : Bool)
  | date (text : String)
  | array (items : List Value)
  | table (entries : List (String × Value))

abbrev Table := List (String × Value)

namespace Table

def get? (table : Table) (key : String) : Option Value :=
  table.lookup key

/-- The table with the key set to the value. -/
def set (table : Table) (key : String) (value : Value) : Table :=
  (key, value) :: table.filter (·.1 != key)

@[simp]
theorem get?_set_self (table : Table) (key : String) (value : Value) :
    (table.set key value).get? key = some value := by
  simp [get?, set]

end Table

mutual

/-- What a value becomes under another one: tables are joined, anything else is replaced. -/
def Value.under : Value → Value → Value
  | .table below, .table above => .table (overlay below above)
  | _, above => above

/-- Two tables laid over each other, key by key. -/
def overlay (below : Table) : Table → Table
  | [] => below
  | (key, above) :: rest =>
    match below.get? key with
    | some value => overlay (below.set key (value.under above)) rest
    | none => overlay (below.set key above) rest

end

end SwiftToKotlin.Toml
