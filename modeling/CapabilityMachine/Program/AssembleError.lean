/-!
# Assembly errors

Why code cannot be put into a container.
-/

namespace CapabilityMachine

/-- Why code could not be assembled. -/
inductive AssembleError where
  | unboundLabel (label : Nat)
  | labelRebound (label : Nat)
  /-- A target lies behind the end of the listing. -/
  | targetOutOfRange (index target size : Nat)
  | tooManyCapabilities (count : Nat)
  | codeTooLarge (length : Nat)
deriving DecidableEq, Repr

namespace AssembleError

/-- The error as a text for people. -/
def message : AssembleError → String
  | unboundLabel label => s!"label {label} is never bound"
  | labelRebound label => s!"label {label} bound twice"
  | targetOutOfRange index target size =>
      s!"instruction {index} targets {target}, past the end of {size} instruction(s)"
  | tooManyCapabilities count =>
      s!"{count} capabilities declared, at most 65535 fit in the header"
  | codeTooLarge length => s!"code section of {length} bytes does not fit the container"

instance : ToString AssembleError := ⟨message⟩

end AssembleError

end CapabilityMachine
