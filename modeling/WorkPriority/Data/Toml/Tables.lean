import WorkPriority.Data.Value

/-!
# Tables of TOML

A document builds its tables piece by piece: a table may be opened by a header
of its own, come about because a header names a table within it, or because a
dotted key does. The rules on what may be added where, so that nothing is
defined twice:

* A header opens a table that was not there, or one that came about through the
  header of an inner table. It does not open one that has been opened before,
  or that came about through a dotted key.
* A header in double brackets adds a table to a list that consists of nothing
  but such tables. Where a path goes through a list, it goes on in the last one.
* A dotted key goes through tables that came about through dotted keys only.
* A key is given once, and a value that was given whole is not added to.
-/

namespace WorkPriority
namespace Toml

/-- How a table came about. -/
inductive Origin where
  /-- Through a header of its own. -/
  | header
  /-- Through a header of an inner table. -/
  | implied
  /-- Through a dotted key. -/
  | dotted
deriving DecidableEq

/-- What stands under a key while tables are built. -/
inductive Item where
  /-- A value that was given whole. -/
  | value (v : Value)
  /-- A table that may be added to. -/
  | table (origin : Origin) (fields : List (String × Item))
  /-- A list of tables, of which the last may be added to. -/
  | tables (items : List (Origin × List (String × Item)))

/-- A table while it is built. -/
abbrev Fields := List (String × Item)

namespace Fields

/-- What stands under a key. -/
def get? (fs : Fields) (key : String) : Option Item := (fs.find? fun f => f.1 == key).map Prod.snd

/-- The fields with something else under a key. -/
def set (fs : Fields) (key : String) (item : Item) : Fields :=
  if fs.any fun f => f.1 == key then fs.map fun f => if f.1 == key then (key, item) else f
  else fs ++ [(key, item)]

end Fields

/-- Changes the table at the end of a path, with the tables on the path made
    where they are missing. A path of a dotted key must not go through a table
    with a header. -/
def atPath (made : Origin) (change : Origin → Fields → Option Fields) :
    List String → Origin → Fields → Option Fields
  | [], origin, fs => change origin fs
  | key :: path, _, fs =>
    match fs.get? key with
    | none => do
      let inner ← atPath made change path made []
      return fs.set key (.table made inner)
    | some (.value _) => none
    | some (.table origin inner) =>
      if made == .dotted && origin == .header then none
      else do
        let inner ← atPath made change path origin inner
        return fs.set key (.table origin inner)
    | some (.tables items) =>
      match items.getLast? with
      | none => none
      | some (origin, inner) => do
        let inner ← atPath made change path origin inner
        return fs.set key (.tables (items.dropLast ++ [(origin, inner)]))

/-- Adds a value under a key, which may be dotted: `path` is what stands before
    the last point. -/
def addValue (path : List String) (key : String) (v : Value) (fs : Fields) : Option Fields :=
  atPath .dotted
    (fun origin fs =>
      -- A path may have gone through a table that is only implied, but not ended there.
      if !path.isEmpty && origin != .dotted then none
      else if (fs.get? key).isSome then none
      else some (fs ++ [(key, .value v)]))
    path .header fs

/-- Adds values under keys, one after the other. -/
def addValues (values : List (List String × String × Value)) (fs : Fields) : Option Fields :=
  values.foldlM (fun fs (path, key, v) => addValue path key v fs) fs

/-- Opens the table of a header and adds values to it. -/
def openTable (path : List String) (key : String) (values : List (List String × String × Value))
    (fs : Fields) : Option Fields :=
  atPath .implied
    (fun _ fs =>
      match fs.get? key with
      | none => (addValues values []).map fun inner => fs.set key (.table .header inner)
      -- The header of an inner table came first; the table keeps what it has.
      | some (.table .implied inner) =>
        (addValues values inner).map fun inner => fs.set key (.table .header inner)
      | some _ => none)
    path .header fs

/-- Adds a table with values to a list of tables. -/
def openItem (path : List String) (key : String) (values : List (List String × String × Value))
    (fs : Fields) : Option Fields :=
  atPath .implied
    (fun _ fs => do
      let inner ← addValues values []
      match fs.get? key with
      | none => return fs.set key (.tables [(.header, inner)])
      | some (.tables items) => return fs.set key (.tables (items ++ [(.header, inner)]))
      | some _ => none)
    path .header fs

mutual

/-- What stands under a key, as a value. -/
def Item.toValue : Item → Value
  | .value v => v
  | .table _ fields => .table (fieldValues fields)
  | .tables items => .list (itemValues items)

/-- Fields as values. -/
def fieldValues : List (String × Item) → List (String × Value)
  | [] => []
  | (key, item) :: fs => (key, item.toValue) :: fieldValues fs

/-- Tables of a list as values. -/
def itemValues : List (Origin × List (String × Item)) → List Value
  | [] => []
  | (_, fields) :: is => .table (fieldValues fields) :: itemValues is

end

/-- The value of a table that was written within braces. -/
def inlineTable (values : List (List String × String × Value)) : Option Value :=
  (addValues values []).map fun fs => .table (fieldValues fs)

end Toml
end WorkPriority
