/-!
# TOML values and tables

* `Toml.Value`: the values of the format;
* `Toml.Table`: the entries of a table, in the order in which they came;
* `Table.assign`, `Table.openTable`, `Table.openElement`: what a line of a document does to the
  tables. A table cannot be defined twice, nor a key be given two values.
-/

namespace NotaryPool.Toml

/-- How a table came to be. -/
inductive TableOrigin where
  /-- It is written in braces and is complete. -/
  | inlined
  /-- It stands in the path of a header of another table. -/
  | implied
  /-- It has a header of its own. -/
  | headed
  /-- It stands in the path of a dotted key. -/
  | dotted
deriving DecidableEq, Repr

/-- A value. -/
inductive Value where
  | text (value : String)
  | integer (value : Int)
  | float (value : Float)
  | boolean (value : Bool)
  | moment (text : String)
  | array (items : List Value)
  | table (origin : TableOrigin) (entries : List (String × Value))
  /-- An array of tables, each with a header of its own; the last one comes first. -/
  | elements (tables : List (List (String × Value)))

/-- The entries of a table. -/
abbrev Table := List (String × Value)

namespace Table

/-- The value of a key. -/
def find? (t : Table) (key : String) : Option Value :=
  (List.find? (fun e => e.1 == key) t).map (·.2)

/-- Gives a key a value, in the place of the one it had. -/
def put (key : String) (value : Value) : Table → Table
  | [] => [(key, value)]
  | e :: rest => if e.1 = key then (key, value) :: rest else e :: put key value rest

/-- Gives the key at the end of a dotted path a value. The tables on the way must not be complete
or have headers of their own, and the key must be new. -/
def assign (value : Value) : (path : List String) → Table → Option Table
  | [], _ => none
  | [key], t => if (t.find? key).isSome then none else some (t ++ [(key, value)])
  | key :: rest, t =>
    match t.find? key with
    | none => (assign value rest []).map fun inner => t ++ [(key, .table .dotted inner)]
    | some (.table .implied inner) =>
      (assign value rest inner).map fun inner => put key (.table .implied inner) t
    | some (.table .dotted inner) =>
      (assign value rest inner).map fun inner => put key (.table .dotted inner) t
    | some _ => none

/-- Changes the table at the end of a path of headers with `change`; tables that are missing on
the way are made, and of an array of tables the last one is meant. -/
def descend (change : Table → Option Table) : (path : List String) → Table → Option Table
  | [], t => change t
  | key :: rest, t =>
    match t.find? key with
    | none => (descend change rest []).map fun inner => t ++ [(key, .table .implied inner)]
    | some (.table .inlined _) => none
    | some (.table origin inner) =>
      (descend change rest inner).map fun inner => put key (.table origin inner) t
    | some (.elements (last :: before)) =>
      (descend change rest last).map fun last => put key (.elements (last :: before)) t
    | some _ => none

/-- Gives a table a header. It may be known only from the headers of tables inside it. -/
def openTable (key : String) (t : Table) : Option Table :=
  match t.find? key with
  | none => some (t ++ [(key, .table .headed [])])
  | some (.table .implied inner) => some (put key (.table .headed inner) t)
  | some _ => none

/-- Adds a table to an array of tables. -/
def openElement (key : String) (t : Table) : Option Table :=
  match t.find? key with
  | none => some (t ++ [(key, .elements [[]])])
  | some (.elements tables) => some (put key (.elements ([] :: tables)) t)
  | some _ => none

end Table

end NotaryPool.Toml
