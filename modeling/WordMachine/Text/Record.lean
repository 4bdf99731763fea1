namespace WordMachine

/-- Items in brackets, a comma and a blank between them. -/
def listText (items : List String) : String :=
  "[" ++ String.intercalate ", " items ++ "]"

/-- A named record, as in a diagnostic line: every field with its name, in the order given. -/
def recordText (name : String) (fields : List (String × String)) : String :=
  name ++ " \x7b " ++ String.intercalate ", " (fields.map fun field => field.1 ++ ": " ++ field.2) ++ " \x7d"

/-- A named record that shows only some of its fields. -/
def partialRecordText (name : String) (fields : List (String × String)) : String :=
  name ++ " \x7b " ++ String.intercalate ", " (fields.map fun field => field.1 ++ ": " ++ field.2) ++ ", .. \x7d"

end WordMachine
