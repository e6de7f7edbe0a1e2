import DataflowTypes.Json.Basic
import DataflowTypes.Ty.Basic

/-!
# Types as JSON values

The whole of a type, declared and resolved components alike.
-/

namespace DataflowTypes

def ObjectClass.toJson : ObjectClass → Json
  | unconstrained => .string "Unconstrained"
  | impossible => .string "Impossible"
  | named path => .object [("Class", .strings path)]

def ObjectClass.ofJson? (j : Json) : Option ObjectClass :=
  match j.unitTag? with
  | some "Unconstrained" => some unconstrained
  | some "Impossible" => some impossible
  | _ =>
      match j.tagged? with
      | some ("Class", content) => content.strings?.map named
      | _ => none

namespace Ty

def componentJson (declared resolved : Json) : Json :=
  .object [("declared", declared), ("resolved", resolved)]

def toJson : Ty → Json
  | base b => .object [("Base", .string b.tag)]
  | matrix k => .object [("Matrix", .string k.tag)]
  | array d r dl l =>
      .object [("Array", .object [("element", componentJson d.toJson r.toJson),
        ("declared_length", .optional .nat dl), ("length", .optional .nat l)])]
  | record ls d r =>
      .object [("Record", .object [("fields", .object (ls.members.map fun m =>
        (m.1, componentJson (d m).toJson (r m).toJson)))])]
  | union ls d r =>
      .object [("Union", .object [("fields", .object (ls.members.map fun m =>
        (m.1, componentJson (d m).toJson (r m).toJson)))])]
  | function n d r dr s =>
      .object [("Function", .object [
        ("args", .array ((List.finRange n).map fun i => componentJson (d i).toJson (r i).toJson)),
        ("ret", componentJson dr.toJson s.toJson)])]
  | object c => .object [("Object", .object [("class", c.toJson)])]

def componentOfJson? (read : Json → Option Ty) (j : Json) : Option Component := do
  match ← j.parts? ["declared", "resolved"] with
  | [some declared, some resolved] => return ⟨← read declared, ← read resolved⟩
  | _ => none

def rowOfJson? (read : Json → Option Ty) (j : Json) : Option (Row Component) := do
  match ← j.parts? ["fields"] with
  | [some fields] =>
      let entries ← (← fields.object?).mapM fun (label, c) =>
        return (label, ← componentOfJson? read c)
      return .ofList entries
  | _ => none

def ofJsonWithin? : (fuel : Nat) → Json → Option Ty
  | 0, _ => none
  | fuel + 1, j => do
      let read := ofJsonWithin? fuel
      let (tag, content) ← j.tagged?
      match tag with
      | "Base" => return base (← BaseType.ofTag? (← content.unitTag?))
      | "Matrix" => return matrix (← MatrixKind.ofTag? (← content.unitTag?))
      | "Array" =>
          match ← content.parts? ["element", "declared_length", "length"] with
          | [some element, declaredLength, length] =>
              let c ← componentOfJson? read element
              return array c.declared c.resolved (← Json.optional? Json.nat? declaredLength)
                (← Json.optional? Json.nat? length)
          | _ => none
      | "Record" =>
          let row ← rowOfJson? read content
          return record row.labels (fun m => (row.value m).declared)
            (fun m => (row.value m).resolved)
      | "Union" =>
          let row ← rowOfJson? read content
          return union row.labels (fun m => (row.value m).declared)
            (fun m => (row.value m).resolved)
      | "Function" =>
          match ← content.parts? ["args", "ret"] with
          | [some args, some ret] =>
              let params ← (← args.array?).mapM (componentOfJson? read)
              let result ← componentOfJson? read ret
              return function params.length (fun i => (params.get i).declared)
                (fun i => (params.get i).resolved) result.declared result.resolved
          | _ => none
      | "Object" =>
          match ← content.parts? ["class"] with
          | [some c] => return object (← ObjectClass.ofJson? c)
          | _ => none
      | _ => none

def ofJson? (j : Json) : Option Ty := ofJsonWithin? j.depth j

end Ty

end DataflowTypes
