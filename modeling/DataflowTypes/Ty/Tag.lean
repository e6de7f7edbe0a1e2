/-!
# Tags of types

The flat types that are single points of the base order, the kinds of matrices,
the five families of structured types, and the classes of objects.
-/

namespace DataflowTypes

inductive BaseType where
  | unknown
  | boolean
  | unsignedByte
  | short
  | int
  | long
  | float
  | double
  | complex
  | fixedPoint
  /-- Abstract type above the numbers. -/
  | scalar
  | string
  | event
  | xmlToken
  | nil
  | general
deriving DecidableEq, Repr

namespace BaseType

def all : List BaseType :=
  [unknown, boolean, unsignedByte, short, int, long, float, double, complex, fixedPoint, scalar,
    string, event, xmlToken, nil, general]

def name : BaseType → String
  | unknown => "unknown"
  | boolean => "boolean"
  | unsignedByte => "unsignedByte"
  | short => "short"
  | int => "int"
  | long => "long"
  | float => "float"
  | double => "double"
  | complex => "complex"
  | fixedPoint => "fixedpoint"
  | scalar => "scalar"
  | string => "string"
  | event => "event"
  | xmlToken => "xmltoken"
  | nil => "niltype"
  | general => "general"

def tag : BaseType → String
  | unknown => "Unknown"
  | boolean => "Boolean"
  | unsignedByte => "UnsignedByte"
  | short => "Short"
  | int => "Int"
  | long => "Long"
  | float => "Float"
  | double => "Double"
  | complex => "Complex"
  | fixedPoint => "FixedPoint"
  | scalar => "Scalar"
  | string => "String"
  | event => "Event"
  | xmlToken => "XmlToken"
  | nil => "Nil"
  | general => "General"

def ofName? (name : String) : Option BaseType := all.find? (·.name == name)

def ofTag? (tag : String) : Option BaseType := all.find? (·.tag == tag)

/-- Whether there are values of exactly this type. -/
def isInstantiable : BaseType → Bool
  | unknown | general | scalar => false
  | _ => true

end BaseType

/-- What the elements of a matrix are; `generic` matrices leave it open. -/
inductive MatrixKind where
  | boolean
  | int
  | long
  | double
  | complex
  | fixedPoint
  | generic
deriving DecidableEq, Repr

namespace MatrixKind

def all : List MatrixKind := [boolean, int, long, double, complex, fixedPoint, generic]

def element? : MatrixKind → Option BaseType
  | boolean => some .boolean
  | int => some .int
  | long => some .long
  | double => some .double
  | complex => some .complex
  | fixedPoint => some .fixedPoint
  | generic => none

/-- The name in the textual form of types: the element in brackets, or `matrix`. -/
def name (k : MatrixKind) : String :=
  match k.element? with
  | some b => "[" ++ b.name ++ "]"
  | none => "matrix"

def tag : MatrixKind → String
  | boolean => "Boolean"
  | int => "Int"
  | long => "Long"
  | double => "Double"
  | complex => "Complex"
  | fixedPoint => "FixedPoint"
  | generic => "Generic"

def ofElementName? (name : String) : Option MatrixKind :=
  (BaseType.ofName? name).bind fun b => all.find? (·.element? == some b)

def ofTag? (tag : String) : Option MatrixKind := all.find? (·.tag == tag)

def isInstantiable (k : MatrixKind) : Bool := k != generic

end MatrixKind

inductive Family where
  | array
  | record
  | union
  | function
  | object
deriving DecidableEq, Repr

namespace Family

def all : List Family := [array, record, union, function, object]

def name : Family → String
  | array => "array"
  | record => "record"
  | union => "union"
  | function => "function"
  | object => "object"

def tag : Family → String
  | array => "Array"
  | record => "Record"
  | union => "Union"
  | function => "Function"
  | object => "Object"

end Family

/-- Where the objects of a type stand in the class hierarchy: anywhere, nowhere, or
at the end of a path of classes with the outermost ancestor first. -/
inductive ObjectClass where
  | unconstrained
  | impossible
  | named (path : List String)
deriving DecidableEq, Repr

/-- The class of the objects themselves, if there is one. -/
def ObjectClass.name? : ObjectClass → Option String
  | named path => path.getLast?
  | _ => none

/-- A point of the base order: a flat type, or a family standing for all its types. -/
inductive Node where
  | base (b : BaseType)
  | matrix (k : MatrixKind)
  | family (f : Family)
deriving DecidableEq, Repr

namespace Node

def all : List Node :=
  BaseType.all.map base ++ MatrixKind.all.map matrix ++ Family.all.map family

def name : Node → String
  | base b => b.name
  | matrix k => k.name
  | family f => "<" ++ f.name ++ ">"

def ofName? (name : String) : Option Node := all.find? (·.name == name)

def listing : Node → String
  | base b => "Base(" ++ b.tag ++ ")"
  | matrix k => "Matrix(" ++ k.tag ++ ")"
  | family f => "Shape(" ++ f.tag ++ ")"

end Node

end DataflowTypes
