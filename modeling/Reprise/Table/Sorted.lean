import Reprise.Ordered.Map
import Reprise.Table.Basic

set_option autoImplicit false

namespace Reprise

/-- A table with its keys in ascending order, as it is kept in a data directory. -/
structure SortedTable where
  entries : OrderedMap String Bytes
deriving Inhabited

namespace SortedTable

def empty : SortedTable := ⟨OrderedMap.empty⟩

def get? (t : SortedTable) (key : String) : Option Bytes := t.entries.get? key

def put (t : SortedTable) (key : String) (value : Bytes) : SortedTable :=
  ⟨t.entries.insert key value⟩

@[simp] theorem get?_put_self (t : SortedTable) (key : String) (value : Bytes) :
    (t.put key value).get? key = some value := OrderedMap.get?_insert_self t.entries key value

theorem get?_put_of_ne (t : SortedTable) {key other : String} (apart : other ≠ key) (value : Bytes) :
    (t.put key value).get? other = t.get? other := OrderedMap.get?_insert_of_ne t.entries apart value

/-- The keys of a stem stand together from the stem on, so a scan starts there and ends at the first
key of another beginning. -/
def keysMatching (t : SortedTable) (pattern : String) : List String :=
  match Pattern.stem? pattern with
  | none => if (t.get? pattern).isSome then [pattern] else []
  | some stem =>
    (t.entries.keys.dropWhile fun key => compare key stem == .lt).takeWhile (Pattern.begins stem)

instance : Table SortedTable where
  get? t key := .ok (t.get? key)
  put t key value := .ok (t.put key value)
  keysMatching t pattern := .ok (t.keysMatching pattern)

end SortedTable

end Reprise
