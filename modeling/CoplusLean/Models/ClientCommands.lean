import CoplusLean.Lib.Decimal
import CoplusLean.Models.Dispatch
import CoplusLean.Models.SplitSpace

/-!
# The commands of the client

The thread that reads the console puts `"cin "` in front of a line and sends it to the mailbox.
The main loop splits what it takes from there into at most four parts: that prefix, the
command, and its arguments, of which the last one is the rest of the line as it was typed.
-/

namespace CoplusLean.Client

open Lib Protocol StringUtil

/-- `"cin "` -/
def cinPrefix : Bytes := [99, 105, 110, 32]

end CoplusLean.Client
