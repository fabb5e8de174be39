import RegisterMachine.Command

/-!
# RegisterMachine.Main

The program: carries out the plan of its command line on the files of the system.
-/

namespace RegisterMachine

/-- The cause that the system gives for a failed access. An error number may come negated. -/
def FileError.ofSystem (e : IO.Error) : FileError :=
  match e with
  | .noFileOrDirectory _ _ _ => .notFound
  | .inappropriateType _ number _ =>
    if number = 20 ∨ number = -20 then .notDirectory
    else if number = 21 ∨ number = -21 then .isDirectory
    else .other (toString e)
  | .invalidArgument _ number _ =>
    if number = 36 ∨ number = -36 then .nameTooLong else .other (toString e)
  | _ => .other (toString e)

/-- Carries a plan out on the files of the system. -/
def Plan.performOnSystem : Plan → IO Response
  | .finish r => pure r
  | .read path next => do
    match ← (IO.FS.readBinFile path).toBaseIO with
    | .ok bytes => (next (.ok bytes.data.toList)).performOnSystem
    | .error e => (next (.error (.ofSystem e))).performOnSystem
  | .write path bytes next => do
    match ← (IO.FS.writeBinFile path ⟨bytes.toArray⟩).toBaseIO with
    | .ok () => (next (.ok ())).performOnSystem
    | .error e => (next (.error (.ofSystem e))).performOnSystem

end RegisterMachine

def main (line : List String) : IO UInt32 := do
  let response ← (RegisterMachine.commandPlan line).performOnSystem
  IO.print response.output
  return response.exit.toUInt32
