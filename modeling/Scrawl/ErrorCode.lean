/-!
# Scrawl.ErrorCode — stable codes of errors
-/

namespace Scrawl

/-- The kinds of errors that a caller can tell apart. -/
inductive ErrorCode
  | arguments
  | read
  | write
  | description
  | measure
  | layout
  | geometry
  | internal
  deriving DecidableEq

/-- The code as it is shown. -/
def ErrorCode.name : ErrorCode → String
  | arguments => "E_ARGS"
  | read => "E_IO_READ"
  | write => "E_IO_WRITE"
  | description => "E_PARSE"
  | measure => "E_MEASURE"
  | layout => "E_LAYOUT"
  | geometry => "E_GEOMETRY"
  | internal => "E_INTERNAL"

end Scrawl
