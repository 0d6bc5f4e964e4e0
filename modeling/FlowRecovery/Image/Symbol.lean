import FlowRecovery.Label

/-!
# Symbols of images

Images export names for some of their addresses and have places that wait for the address of a name
in some library.
-/

namespace FlowRecovery

/-- A name that an image exports. -/
structure ExportedSymbol where
  name : String
  address : Option Int64

/-- A place in a file that waits for the address of a name. -/
structure UnresolvedSymbol where
  library : Option String
  name : String
  place : Int
  relative : Bool

abbrev SymbolTable := List (Int64 × String)

end FlowRecovery
