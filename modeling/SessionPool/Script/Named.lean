/-!
# Things with names

The things of a script go by names. A result that nobody keeps has no name; it goes to the place of
`none`, which is emptied at the end of every step.
-/

namespace SessionPool.Script

/-- A name, or no name. -/
abbrev Name := Option String

/-- Things of one kind by their names. No name stands for two. -/
structure Named (α : Type) where
  entries : List (Name × α) := []
  deriving DecidableEq, Repr, Inhabited

namespace Named

variable {α : Type}

def get? (n : Named α) (name : Name) : Option α := n.entries.lookup name

def erase (n : Named α) (name : Name) : Named α := ⟨n.entries.filter (·.1 != name)⟩

def insert (n : Named α) (name : Name) (a : α) : Named α := ⟨(name, a) :: (n.erase name).entries⟩

def values (n : Named α) : List α := n.entries.map (·.2)

end Named

end SessionPool.Script
