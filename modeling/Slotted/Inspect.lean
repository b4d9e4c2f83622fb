namespace Slotted.Inspect

def fields (name : String) (labelled : List (String × String)) : String :=
  name ++ " \x7b " ++ String.intercalate ", " (labelled.map fun (label, text) => label ++ ": " ++ text) ++ " \x7d"

def wrapped (name text : String) : String := name ++ "(" ++ text ++ ")"

def braced (items : List String) : String := "\x7b" ++ String.intercalate ", " items ++ "\x7d"

def pair (key value : String) : String := key ++ ": " ++ value

end Slotted.Inspect
