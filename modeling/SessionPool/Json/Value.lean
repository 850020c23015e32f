import SessionPool.Json.Quotation

/-!
# JSON values and their texts

The values that are written: their numbers are natural. The compact text has no white space at
all; the pretty text puts every element and every member on a line of its own, two spaces further
in than the bracket around it.
-/

namespace SessionPool.Json

/-- A value to be written. The members of an object keep their order. -/
inductive Value where
  | null
  | boolean (value : Bool)
  | natural (value : Nat)
  | text (value : String)
  | list (elements : List Value)
  | object (members : List (String × Value))

namespace Value

/-- The text of `true` and `false`. -/
def writeBoolean : Bool → List Char
  | true => ['t', 'r', 'u', 'e']
  | false => ['f', 'a', 'l', 's', 'e']

/-- The text of a natural number: decimal digits without leading zeros. -/
def writeNatural (n : Nat) : List Char := Nat.toDigits 10 n

/-! ### Compact texts -/

mutual

/-- The text of a value without white space. -/
def compact : Value → List Char
  | null => ['n', 'u', 'l', 'l']
  | boolean b => writeBoolean b
  | natural n => writeNatural n
  | text s => writeText s
  | list elements => '[' :: compactElements elements
  | object members => '{' :: compactMembers members

/-- The elements of a list and its closing bracket. -/
def compactElements : List Value → List Char
  | [] => [']']
  | [v] => compact v ++ [']']
  | v :: vs => compact v ++ ',' :: compactElements vs

/-- The members of an object and its closing brace. -/
def compactMembers : List (String × Value) → List Char
  | [] => ['}']
  | [(name, v)] => writeText name ++ ':' :: compact v ++ ['}']
  | (name, v) :: ms => writeText name ++ ':' :: compact v ++ ',' :: compactMembers ms

end

/-! ### Pretty texts -/

/-- The start of a line at a depth. -/
def newLine (depth : Nat) : List Char := '\n' :: List.replicate (2 * depth) ' '

mutual

/-- The text of a value, the brackets around it being `depth` many. -/
def pretty (depth : Nat) : Value → List Char
  | null => ['n', 'u', 'l', 'l']
  | boolean b => writeBoolean b
  | natural n => writeNatural n
  | text s => writeText s
  | list [] => ['[', ']']
  | list elements => '[' :: prettyElements depth elements
  | object [] => ['{', '}']
  | object members => '{' :: prettyMembers depth members

/-- The elements of a list, each on its own line, and the closing bracket on the next one. -/
def prettyElements (depth : Nat) : List Value → List Char
  | [] => newLine depth ++ [']']
  | [v] => newLine (depth + 1) ++ pretty (depth + 1) v ++ newLine depth ++ [']']
  | v :: vs => newLine (depth + 1) ++ pretty (depth + 1) v ++ ',' :: prettyElements depth vs

/-- The members of an object, each on its own line, and the closing brace on the next one. -/
def prettyMembers (depth : Nat) : List (String × Value) → List Char
  | [] => newLine depth ++ ['}']
  | [(name, v)] =>
    newLine (depth + 1) ++ writeText name ++ ':' :: ' ' :: pretty (depth + 1) v ++
      newLine depth ++ ['}']
  | (name, v) :: ms =>
    newLine (depth + 1) ++ writeText name ++ ':' :: ' ' :: pretty (depth + 1) v ++
      ',' :: prettyMembers depth ms

end

/-- The compact text as a string. -/
def toCompact (v : Value) : String := String.ofList v.compact

/-- The pretty text as a string. -/
def toPretty (v : Value) : String := String.ofList (v.pretty 0)

/-- A member that is left out when there is no value for it. -/
def optionalMember {α : Type} (name : String) (write : α → Value) (a : Option α) :
    List (String × Value) :=
  (a.map fun a => (name, write a)).toList

end Value

end SessionPool.Json
