import HealthSignal.Toml.Value

/-!
A TOML document under construction. A table remembers how it was defined, since that decides what may
still be added to it.
-/
namespace HealthSignal.Toml

inductive Origin
  /-- On the way to the table of a header. -/
  | implied
  | header
  | dotted
  deriving DecidableEq, Repr

inductive Item
  | value (v : Value)
  | table (origin : Origin) (items : List (String × Item))
  /-- An array of tables, each begun by a header. -/
  | tables (elements : List (List (String × Item)))

abbrev Items := List (String × Item)

namespace Items

def replace (key : String) (item : Item) (items : Items) : Items :=
  items.map fun (k, i) => if k = key then (k, item) else (k, i)

/-- Changes the table at the end of a header's path. Missing tables on the way are implied; of an
array of tables the last one is meant. -/
def update (f : Items → Except SyntaxError Items) :
    (path : List String) → Items → Except SyntaxError Items
  | [], items => f items
  | key :: path, items =>
    match items.lookup key with
    | none => do return items ++ [(key, .table .implied (← update f path []))]
    | some (.table origin sub) => do
      return items.replace key (.table origin (← update f path sub))
    | some (.tables elements) =>
      match elements.reverse with
      | last :: before => do
        return items.replace key (.tables (before.reverse ++ [← update f path last]))
      | [] => .error .duplicate
    | some (.value _) => .error .duplicate

/-- Begins the table of a header. One that was only implied so far moves to the end. -/
def openTable (key : String) (items : Items) : Except SyntaxError Items :=
  match items.lookup key with
  | none => .ok (items ++ [(key, .table .header [])])
  | some (.table .implied sub) =>
    .ok (items.filter (·.1 ≠ key) ++ [(key, .table .header sub)])
  | some _ => .error .duplicate

def openElement (key : String) (items : Items) : Except SyntaxError Items :=
  match items.lookup key with
  | none => .ok (items ++ [(key, .tables [[]])])
  | some (.tables elements) => .ok (items.replace key (.tables (elements ++ [[]])))
  | some _ => .error .duplicate

/-- Adds a value under a key, after the dotted path before it. The table that gets the value must be one of
dotted keys if there is a path; on the way to it, tables with a header of their own are closed. -/
def define (v : Value) : (path : List String) → (key : String) → Items → Except SyntaxError Items
  | [], key, items =>
    if (items.lookup key).isSome then .error .duplicate else .ok (items ++ [(key, .value v)])
  | [last], key, items =>
    match items.lookup last with
    | none => do return items ++ [(last, .table .dotted (← define v [] key []))]
    | some (.table .dotted sub) => do
      return items.replace last (.table .dotted (← define v [] key sub))
    | some _ => .error .duplicate
  | first :: next :: path, key, items =>
    match items.lookup first with
    | none => do return items ++ [(first, .table .dotted (← define v (next :: path) key []))]
    | some (.table .header _) => .error .duplicate
    | some (.table origin sub) => do
      return items.replace first (.table origin (← define v (next :: path) key sub))
    | some (.tables elements) =>
      match elements.reverse with
      | last :: before => do
        return items.replace first
          (.tables (before.reverse ++ [← define v (next :: path) key last]))
      | [] => .error .duplicate
    | some (.value _) => .error .duplicate

end Items

mutual

def Item.toValue : Item → Value
  | .value v => v
  | .table _ items => .table (Items.toTable items)
  | .tables elements => .array (Items.toTables elements)

def Items.toTable : List (String × Item) → Table
  | [] => []
  | (key, item) :: rest => (key, item.toValue) :: Items.toTable rest

def Items.toTables : List (List (String × Item)) → List Value
  | [] => []
  | items :: rest => .table (Items.toTable items) :: Items.toTables rest

end

end HealthSignal.Toml
