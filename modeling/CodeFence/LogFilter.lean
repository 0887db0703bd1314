/-!
# What is logged

The messages that reach the console unless the user asks for others.
-/

namespace CodeFence

/-- The console filter: warnings, and with `debug` everything that the program reports. -/
def consoleFilter (debug : Bool) : String :=
  if debug then "warn,fencelight=debug" else "warn"

end CodeFence
