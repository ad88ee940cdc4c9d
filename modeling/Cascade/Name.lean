import Cascade.Text.Split
/-!
Names of definitions. A name is made of segments between `::`, may carry any number of leading
`::`, and is compared up to ASCII case. `Name.normalize` gives the form under which things are kept.
-/
namespace Cascade.Name

/-- Lower case for ASCII letters; every other character stays. -/
def foldCase (s : String) : String := String.ofList (s.toList.map Char.toLower)

def sameFold (a b : String) : Bool := foldCase a == foldCase b

def dropColons : List Char → List Char
  | ':' :: ':' :: s => dropColons s
  | s => s

/-- The name without its leading `::`. -/
def bare (name : String) : String := String.ofList (dropColons name.toList)

def normalize (name : String) : String := foldCase (bare name)

/-- The part before the last `::` and the part after it. -/
def qualifier? (name : String) : Option (String × String) :=
  (Text.rsplitOnce [':', ':'] name.toList).map fun p => (String.ofList p.1, String.ofList p.2)

def isGlobal (name : String) : Bool := (Text.strip? [':', ':'] name.toList).isSome

/-- The segments of the name, leading `::` left out. -/
def segments (name : String) : List String :=
  (Text.splitOn [':', ':'] (dropColons name.toList)).map String.ofList

end Cascade.Name
