/-
Files as they are looked up: which paths there are, and the texts of those that can be read.
-/
import TypedTemplate.Path

namespace TypedTemplate

structure Files where
  present : String → Bool
  /-- The text of a file, if it is there and can be read. -/
  read? : String → Option String

namespace Files

/-- Files given one by one; of two with one path the last counts. -/
def ofList (entries : List (String × String)) : Files where
  present path := entries.any fun e => Path.same e.1 path
  read? path := (entries.reverse.find? fun e => Path.same e.1 path).map (·.2)

end Files

end TypedTemplate
