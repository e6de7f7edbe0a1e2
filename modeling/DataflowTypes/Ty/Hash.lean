import DataflowTypes.Ty.Basic

/-!
# Hashes of types

A hash sees of a type what `==` sees of it: resolved components and current lengths.
-/

namespace DataflowTypes

deriving instance Hashable for BaseType, MatrixKind, ObjectClass

namespace Ty

def hashParts (kind : UInt64) (parts : List UInt64) : UInt64 := parts.foldl mixHash kind

protected def hash : Ty → UInt64
  | base b => hashParts 0 [hash b]
  | matrix k => hashParts 1 [hash k]
  | array _ x _ n => hashParts 2 [x.hash, hash n]
  | record ls _ x => hashParts 3 (ls.members.flatMap fun m => [hash m.1, (x m).hash])
  | union ls _ x => hashParts 4 (ls.members.flatMap fun m => [hash m.1, (x m).hash])
  | function n _ x _ r => hashParts 5 ((List.finRange n).map (fun i => (x i).hash) ++ [r.hash])
  | object c => hashParts 6 [hash c]

instance : Hashable Ty := ⟨Ty.hash⟩

end Ty

end DataflowTypes
