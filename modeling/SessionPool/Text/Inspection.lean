import SessionPool.Text.Quoted

/-!
# Records for inspection

The text of a record names it and lists its fields in braces, on one line or, expanded, with one
field a line. A record that shows only some of its fields ends in two dots.
-/

namespace SessionPool.Text

/-- What an inspection shows. -/
inductive Inspection where
  /-- A value whose text is known. -/
  | atom (text : String)
  /-- A record and all its fields. -/
  | record (name : String) (fields : List (String × Inspection))
  /-- A record and some of its fields. -/
  | partialRecord (name : String) (fields : List (String × Inspection))

namespace Inspection

def natural (n : Nat) : Inspection := atom (toString n)

def boolean (b : Bool) : Inspection := atom (if b then "true" else "false")

def text (s : String) : Inspection := atom (quoted s)

/-- A text in braces. -/
def braced (s : String) : String := "\x7b" ++ s ++ "\x7d"

mutual

/-- The text on one line. -/
def line : Inspection → String
  | atom text => text
  | record name fields => name ++ " " ++ braced (" " ++ ", ".intercalate (lineFields fields) ++ " ")
  | partialRecord name fields =>
    name ++ " " ++ braced (" " ++ ", ".intercalate (lineFields fields ++ [".."]) ++ " ")

/-- The fields on one line. -/
def lineFields : List (String × Inspection) → List String
  | [] => []
  | (name, value) :: fields => (name ++ ": " ++ line value) :: lineFields fields

end

/-- The start of a line at a depth. -/
def newLine (depth : Nat) : String := "\n" ++ "".pushn ' ' (4 * depth)

mutual

/-- The expanded text, its braces being inside `depth` others. -/
def expandedAt (depth : Nat) : Inspection → String
  | atom text => text
  | record name fields => name ++ " " ++ braced (expandedFields depth fields ++ newLine depth)
  | partialRecord name fields =>
    name ++ " " ++
      braced (expandedFields depth fields ++ newLine (depth + 1) ++ ".." ++ newLine depth)

/-- The fields, each on its own line and followed by a comma. -/
def expandedFields (depth : Nat) : List (String × Inspection) → String
  | [] => ""
  | (name, value) :: fields =>
    newLine (depth + 1) ++ name ++ ": " ++ expandedAt (depth + 1) value ++ "," ++
      expandedFields depth fields

end

/-- The expanded text. -/
def expanded (i : Inspection) : String := i.expandedAt 0

end Inspection

end SessionPool.Text
