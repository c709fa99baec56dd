/-! Names of elements joined by `::` into paths from the root of a model. -/

namespace StructuralModel.QualifiedName

/-- The path of a member of the element with the path `owner`. -/
def join (owner name : String) : String :=
  owner ++ "::" ++ name

/-- The segment that stands for an unnamed element. Its position in the model keeps it apart from
that of other unnamed elements. -/
def anonymous (position : Nat) : String :=
  "__" ++ toString position

def joinAll (segments : List String) : String :=
  "::".intercalate segments

/-- The pieces between the separators, which are found from left to right. -/
def segmentChars : List Char → List (List Char)
  | [] => [[]]
  | [c] => [[c]]
  | ':' :: ':' :: rest => [] :: segmentChars rest
  | c :: next :: rest =>
    match segmentChars (next :: rest) with
    | [] => [[c]]
    | segment :: segments => (c :: segment) :: segments

def segments (path : String) : List String :=
  (segmentChars path.toList).map String.ofList

/-- The characters after the last separator, read from the reversed path. -/
def lastSegmentReversed : List Char → List Char
  | [] => []
  | ':' :: ':' :: _ => []
  | c :: rest => c :: lastSegmentReversed rest

def lastSegment (path : String) : String :=
  String.ofList (lastSegmentReversed path.toList.reverse).reverse

def isQualified (path : String) : Bool :=
  (segmentChars path.toList).length != 1

/-- Orders paths segment by segment, so that the separator takes no part in the comparison. -/
def compare (a b : String) : Ordering :=
  Ord.compare (segments a) (segments b)

end StructuralModel.QualifiedName
