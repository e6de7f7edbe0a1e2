/-!
# TOML values

A document is a table of values.  A table remembers how it came about, because
that decides where it may be extended.
-/

namespace DataflowTypes.Toml

inductive Origin where
  | inline
  | header
  /-- Named on the way to another table in a header. -/
  | implied
  | dotted
deriving DecidableEq, Repr

inductive Value where
  | string (s : String)
  | integer (n : Int)
  /-- A number with a fraction or an exponent, an infinity or no number; all that counts
  is whether it is in the range of binary floating point with 64 bits. -/
  | float (inRange : Bool)
  | boolean (b : Bool)
  | datetime
  | array (items : List Value)
  | table (origin : Origin) (entries : List (String × Value))
  /-- Tables opened one after the other by headers in double brackets. -/
  | tables (elements : List (List (String × Value)))

namespace Value

def isReadable (n : Int) : Bool := -(Nat.pow 2 127 : Int) ≤ n && n < (Nat.pow 2 128 : Int)

mutual

def inRange : Value → Bool
  | string _ | boolean _ | datetime => true
  | integer n => isReadable n
  | float ok => ok
  | array items => allInRange items
  | table _ entries => entriesInRange entries
  | tables elements => elementsInRange elements

def allInRange : List Value → Bool
  | [] => true
  | v :: vs => v.inRange && allInRange vs

def entriesInRange : List (String × Value) → Bool
  | [] => true
  | (_, v) :: vs => v.inRange && entriesInRange vs

def elementsInRange : List (List (String × Value)) → Bool
  | [] => true
  | e :: es => entriesInRange e && elementsInRange es

end

end Value

structure Table where
  origin : Origin
  entries : List (String × Value)

namespace Table

def get? (t : Table) (key : String) : Option Value := t.entries.lookup key

def put (key : String) (v : Value) : List (String × Value) → List (String × Value)
  | [] => [(key, v)]
  | (k, w) :: rest => if k = key then (k, v) :: rest else (k, w) :: put key v rest

def set (t : Table) (key : String) (v : Value) : Table :=
  { t with entries := put key v t.entries }

/-- Changes the table at a path, where `made` is the origin of tables that are not there
yet.  A dotted key passes through no table that a header opened, and nothing passes
through a table in braces. -/
def atPath (made : Origin) (change : Table → Option Table) : List String → Table → Option Table
  | [], t => change t
  | key :: path, t =>
      match t.get? key with
      | none => do
          let child ← atPath made change path ⟨made, []⟩
          return t.set key (.table child.origin child.entries)
      | some (.table origin entries) =>
          if origin = .inline ∨ made = .dotted ∧ origin = .header then none
          else do
            let child ← atPath made change path ⟨origin, entries⟩
            return t.set key (.table child.origin child.entries)
      | some (.tables elements) => do
          let entries ← elements.getLast?
          let child ← atPath made change path ⟨.header, entries⟩
          return t.set key (.tables (elements.dropLast ++ [child.entries]))
      | some _ => none

/-- Adds a new key with its value; a dotted key ends in a table that dotted keys made. -/
def addValue (path : List String) (key : String) (v : Value) : Table → Option Table :=
  atPath .dotted (fun t =>
    if (t.get? key).isSome then none
    else if path.isEmpty || t.origin == .dotted then some (t.set key v)
    else none) path

/-- Opens a table by a header.  A table that was only implied so far can be opened. -/
def openTable (path : List String) (key : String) : Table → Option Table :=
  atPath .implied (fun t =>
    match t.get? key with
    | none => some (t.set key (.table .header []))
    | some (.table .implied entries) => some (t.set key (.table .header entries))
    | some _ => none) path

def openElement (path : List String) (key : String) : Table → Option Table :=
  atPath .implied (fun t =>
    match t.get? key with
    | none => some (t.set key (.tables [[]]))
    | some (.tables elements) => some (t.set key (.tables (elements ++ [[]])))
    | some _ => none) path

end Table

end DataflowTypes.Toml
