/-! # Classification flags -/

namespace ArchivePlan

/-- What an archive entry can be marked as. -/
inductive Flag where
  | configuration
  | documentation
  | readme
  | verifyOwner
  | verifyGroup
  | verifyLink
  | ghost
  deriving DecidableEq, Repr

namespace Flag

/-- Every flag, in the order in which flags are listed. -/
def all : List Flag :=
  [.configuration, .documentation, .readme, .verifyOwner, .verifyGroup, .verifyLink, .ghost]

def name : Flag → String
  | .configuration => "config"
  | .documentation => "doc"
  | .readme => "readme"
  | .verifyOwner => "verify-owner"
  | .verifyGroup => "verify-group"
  | .verifyLink => "verify-linkto"
  | .ghost => "ghost"

def ofName? (text : String) : Option Flag :=
  all.find? (·.name == text)

theorem mem_all (flag : Flag) : flag ∈ all := by
  cases flag <;> decide

end Flag

end ArchivePlan
