/-
The values of TOML, and the building of its tables: no key is given twice, and no table is defined
in two ways.
-/
namespace ShaderBench.Toml

abbrev Key := List Char

inductive Origin where
  | declared
  /-- On the way of a header to another table. -/
  | passed
  | dotted
  deriving DecidableEq, Repr

inductive Value where
  | string (s : List Char)
  | integer (n : Int)
  | float (text : List Char)
  | boolean (b : Bool)
  | moment (text : List Char)
  | array (items : List Value)
  | inline (entries : List (Key × Value))
  | table (origin : Origin) (entries : List (Key × Value))
  | tables (items : List (List (Key × Value)))

abbrev Entries := List (Key × Value)

namespace Entries

def get? (es : Entries) (key : Key) : Option Value := (es.find? fun e => e.1 = key).map Prod.snd

def put (es : Entries) (key : Key) (v : Value) : Entries :=
  if es.any fun e => e.1 = key then es.map fun e => if e.1 = key then (key, v) else e
  else es ++ [(key, v)]

def updateLast (change : Entries → Option Entries) (items : List Entries) :
    Option (List Entries) := do
  let last ← items.getLast?
  some (items.dropLast ++ [← change last])

/-- Changes the table at the end of a path. Tables that are missing on the way are made; a dotted
    key does not enter a table that has a header. -/
def update (byKey : Bool) (change : Origin → Entries → Option Entries) :
    List Key → Origin → Entries → Option Entries
  | [], origin, es => change origin es
  | key :: path, _, es =>
    match es.get? key with
    | none =>
      let origin := if byKey then .dotted else .passed
      (update byKey change path origin []).map fun inner => es.put key (.table origin inner)
    | some (.table origin inner) =>
      if byKey && origin = .declared then none
      else (update byKey change path origin inner).map fun inner => es.put key (.table origin inner)
    | some (.tables items) =>
      (updateLast (update byKey change path .declared) items).map fun items =>
        es.put key (.tables items)
    | some _ => none

def add (key : Key) (v : Value) (es : Entries) : Option Entries :=
  if (es.get? key).isSome then none else some (es ++ [(key, v)])

def insert (es : Entries) (path : List Key) (key : Key) (v : Value) : Option Entries :=
  update true (fun origin inner =>
    if (origin = .dotted) = path.isEmpty then none else add key v inner) path .declared es

def openTable (es : Entries) (path : List Key) (key : Key) : Option Entries :=
  update false (fun _ inner =>
    match inner.get? key with
    | none => some (inner.put key (.table .declared []))
    | some (.table .passed entries) => some (inner.put key (.table .declared entries))
    | some _ => none) path .declared es

def openItem (es : Entries) (path : List Key) (key : Key) : Option Entries :=
  update false (fun _ inner =>
    match inner.get? key with
    | none => some (inner.put key (.tables [[]]))
    | some (.tables items) => some (inner.put key (.tables (items ++ [[]])))
    | some _ => none) path .declared es

def insertAt (es : Entries) (header path : List Key) (key : Key) (v : Value) : Option Entries :=
  update false (fun _ inner => inner.insert path key v) header .declared es

end Entries
end ShaderBench.Toml
