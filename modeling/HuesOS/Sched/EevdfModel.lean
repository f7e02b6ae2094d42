import Mathlib.Data.List.MinMax
import Mathlib.Data.Prod.Lex
import HuesOS.Lib.Exec
import HuesOS.Lib.Slots
import HuesOS.Sched.TaskId

/-! The policy oracle of the fair scheduler: a table of requests that is searched from end to end.
-/

namespace HuesOS.Sched

structure EevdfEntity where
  id : TaskId
  weight : Nat
  requestNs : Nat
  virtualStart : Nat
  virtualFinish : Nat
  serviceNs : Nat
  deriving DecidableEq

inductive EevdfError
  | invalidWeight | invalidRequest | full | duplicate | notFound | overflow
  deriving DecidableEq

structure EevdfModel where
  virtualTime : Nat
  entities : Slots EevdfEntity

abbrev OracleM := Exec EevdfModel EevdfError

namespace EevdfModel

def live (m : EevdfModel) : List EevdfEntity := m.entities.live

/-- The time at which the choice is made: the earliest start when nobody is eligible yet. -/
def snapped (entities : List EevdfEntity) (now : Nat) : Nat :=
  if entities.any (·.virtualStart ≤ now) then now
  else ((entities.map (·.virtualStart)).min?).getD now

/-- Select the eligible request with the earliest finish, the smaller identity winning a tie. -/
def pick : OracleM (Option TaskId) := do
  let m ← Exec.gets fun m => m
  if m.live.isEmpty then return none
  else
    let now := snapped m.live m.virtualTime
    Exec.modify fun m => { m with virtualTime := now }
    let best := (m.live.filter (·.virtualStart ≤ now)).argmin
      fun e => toLex (e.virtualFinish, e.id.raw)
    return best.map (·.id)

end EevdfModel
end HuesOS.Sched
