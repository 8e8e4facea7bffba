/-!
The JSON values with which programs are described: no truth values and no fractions occur. The
fields of an object stand in the order in which they are written.
-/
namespace Jam

inductive Json where
  | null
  | number (n : Int)
  | string (s : String)
  | array (items : List Json)
  | object (fields : List (String × Json))

end Jam
