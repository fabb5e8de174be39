import RegisterMachine.Command.Directory

/-!
# RegisterMachine.Command.Plan

What a command does to files, apart from doing it.

* a `Plan` reads and writes files and then answers; what it does next may
  depend on what it has read;
* `Plan.perform` carries a plan out on a directory that is a value.
-/

namespace RegisterMachine

/-- The answer of a command: its exit code and what it prints. -/
structure Response where
  exit : UInt8
  output : String
deriving DecidableEq, Repr

/-- What a command does to files before it answers. -/
inductive Plan where
  | finish (r : Response)
  | read (path : String) (next : Except FileError (List UInt8) → Plan)
  | write (path : String) (bytes : List UInt8) (next : Except FileError Unit → Plan)

/-- Carries a plan out on a directory. -/
def Plan.perform : Plan → Directory → Response × Directory
  | .finish r, d => (r, d)
  | .read path next, d => (next (d.read path)).perform d
  | .write path bytes next, d =>
    match d.write path bytes with
    | .ok after => (next (.ok ())).perform after
    | .error cause => (next (.error cause)).perform d

end RegisterMachine
