/-!
# Build information

Release builds are stamped with a commit and a time.  A build without a stamp
reports both as unknown.
-/

namespace NumericFields

structure Build where
  version : String
  commit : String
  stamp : String
  deriving DecidableEq, Repr

namespace Build

def unknown : String := "unknown"

def stamped (commit stamp : Option String) : Build :=
  ⟨"1.0.0", commit.getD unknown, stamp.getD unknown⟩

def plain : Build := stamped none none

end Build

end NumericFields
