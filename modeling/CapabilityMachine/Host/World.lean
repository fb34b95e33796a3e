/-!
# The world of a host

What host actions share: the console that captures lines, the text handed to writers, and the time
that has passed. It is a value like any other, so a run leaves behind exactly what its actions did.
-/

namespace CapabilityMachine

/-- What is outside a machine, as far as host actions can tell. -/
structure World where
  /-- The lines on the captured console, oldest first. -/
  console : Array String := #[]
  /-- The text that writers have been given. -/
  written : String := ""
  /-- The nanoseconds since the host started. Every look at the time takes one. -/
  elapsed : Nat := 0
  /-- The number of times that a scripted action was performed. -/
  scripted : Nat := 0
deriving DecidableEq, Repr

namespace World

/-- The lines on the captured console, and the world without them. -/
def takeConsole (world : World) : Array String × World :=
  (world.console, { world with console := #[] })

end World

end CapabilityMachine
