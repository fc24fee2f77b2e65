/-! # JSON values

A value of the data format JSON.  Objects keep their members in the order in which
they were written, repeated names included.  Whole numbers are numbers; a number
with a fraction or an exponent is kept as it was written, because nothing here
calculates with one.
-/
namespace SpacingLint

/-- A JSON value. -/
inductive Json where
  | null
  | bool (value : Bool)
  | int (value : Int)
  | real (written : String)
  | str (text : String)
  | arr (items : List Json)
  | obj (members : List (String × Json))
deriving Inhabited

end SpacingLint
