import CoplusLean.Models.Dispatch
import CoplusLean.Proofs.RelayTargets
import CoplusLean.Proofs.TableLayout

/-!
# What a client reads in a list

`OutputDatabase` numbers the clients in the order in which they were accepted and says which of
them were closed. A client that asks for the list prints it as a table, and the number in front
of a row, typed as a relay target, leads to the handle of that row.
-/

namespace CoplusLean.Server

open Lib Protocol

variable {database : List ClientSocketInfo} {id : Nat} {client : ClientSocketInfo}

/-! ## The rows -/

def RelayStep.isAccept : RelayStep → Bool
  | .accept _ _ => true
  | _ => false

/-- The number of connections that a run accepts. -/
def accepts (run : List RelayStep) : Nat := (run.filter RelayStep.isAccept).length

/-- An entry behind steps of which some may have closed it. -/
def ClientSocketInfo.after (client : ClientSocketInfo) (id : Nat) (run : List RelayStep) :
    ClientSocketInfo :=
  { client with status := client.status && decide (RelayStep.closeClient id ∉ run) }

end CoplusLean.Server
