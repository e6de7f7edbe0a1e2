import DataflowTypes.Order.FinOrder
import DataflowTypes.Ty.Tag

/-!
# The base order

The order of the flat types, with one point for each family of structured types.
Numbers widen upwards, each number lies below its matrices, and all of these lie
below `string`.  The families lie side by side between `unknown` and `general`.
-/

namespace DataflowTypes.BaseOrder

/-- The covering pairs, lower point first. -/
def edges : List (Node × Node) := [
  (.base .unknown, .base .boolean),
  (.base .unknown, .base .unsignedByte),
  (.base .unknown, .base .fixedPoint),
  (.base .unknown, .base .event),
  (.base .unknown, .base .xmlToken),
  (.base .unknown, .base .nil),
  (.base .unknown, .family .array),
  (.base .unknown, .family .record),
  (.base .unknown, .family .union),
  (.base .unknown, .family .function),
  (.base .unknown, .family .object),
  (.base .unsignedByte, .base .short),
  (.base .short, .base .int),
  (.base .short, .base .float),
  (.base .int, .base .long),
  (.base .int, .base .double),
  (.base .float, .base .double),
  (.base .long, .base .scalar),
  (.base .double, .base .complex),
  (.base .complex, .base .scalar),
  (.base .fixedPoint, .base .scalar),
  (.base .boolean, .matrix .boolean),
  (.base .int, .matrix .int),
  (.base .long, .matrix .long),
  (.base .double, .matrix .double),
  (.base .complex, .matrix .complex),
  (.base .fixedPoint, .matrix .fixedPoint),
  (.matrix .int, .matrix .long),
  (.matrix .int, .matrix .double),
  (.matrix .double, .matrix .complex),
  (.matrix .boolean, .matrix .generic),
  (.matrix .long, .matrix .generic),
  (.matrix .complex, .matrix .generic),
  (.matrix .fixedPoint, .matrix .generic),
  (.base .scalar, .matrix .generic),
  (.matrix .generic, .base .string),
  (.base .string, .base .general),
  (.base .event, .base .general),
  (.base .xmlToken, .base .general),
  (.base .nil, .base .general),
  (.family .array, .base .general),
  (.family .record, .base .general),
  (.family .union, .base .general),
  (.family .function, .base .general),
  (.family .object, .base .general)]

def ofEdges (edges : List (Node × Node)) : Except (GraphError Node) (FinOrder Node) := do
  let nodes := edges.foldl (fun g (a, b) => (g.addNode a).addNode b) Digraph.empty
  let graph ← edges.foldlM (fun g (a, b) => g.addEdge a b) nodes
  FinOrder.ofDigraph graph

def order : FinOrder Node :=
  match ofEdges edges with
  | .ok p => p
  | .error _ => ⟨[], [], []⟩

/-- The least point above two points; `general` if there is none. -/
def join (p : FinOrder Node) (a b : Node) : Node := (p.join? a b).getD (.base .general)

/-- The greatest point below two points; `unknown` if there is none. -/
def meet (p : FinOrder Node) (a b : Node) : Node := (p.meet? a b).getD (.base .unknown)

end DataflowTypes.BaseOrder
