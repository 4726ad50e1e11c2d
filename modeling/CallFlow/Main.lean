import CallFlow.CommandLine.Run

/-! The program: the command line over the file system and the clock. -/

namespace CallFlow

def fileFailure (e : IO.Error) : FileFailure :=
  match e with
  | .noFileOrDirectory _ _ _ => .notFound
  | .permissionDenied _ _ _ => .denied
  | .inappropriateType _ code _ => if code.toNat = 21 then .isDirectory else .notDirectory
  | .invalidArgument _ code _ => if code.toNat = 36 then .nameTooLong else .other (toString e)
  | .resourceExhausted _ code _ => if code.toNat = 28 then .noSpace else .other (toString e)
  | e => .other (toString e)

def guarded {α : Type} (action : IO α) : IO (Except FileFailure α) := do
  try
    return .ok (← action)
  catch e => return .error (fileFailure e)

def readText (path : String) : IO (Except FileFailure String) := do
  match ← guarded (IO.FS.readBinFile path) with
  | .error why => return .error why
  | .ok bytes =>
    match String.fromUTF8? bytes with
    | some text => return .ok text
    | none => return .error .notText

def writeText (path text : String) : IO (Except WriteFailure Unit) := do
  match ← guarded (IO.FS.Handle.mk path .write) with
  | .error why => return .error (.creating why)
  | .ok handle =>
    match ← guarded (do handle.putStr text; handle.flush) with
    | .error why => return .error (.writing why)
    | .ok () => return .ok ()

/-- Goes on with a construction while the monitor, asked before each step, lets it. -/
partial def goOn (setup : Setup) (monitor : Monitor) (started : Nat) (c : Construction) :
    IO Analysis := do
  let now ← IO.monoNanosNow
  match c.advance setup (monitor.reason? ((now - started) / 1000)) with
  | (some completion, c) => return c.finish setup completion
  | (none, c) => goOn setup monitor started c

/-- The file system, the standard output and the clock. -/
def system : Host IO where
  read := readText
  write := writeText
  print := IO.println
  analyze setup monitor := do
    let started ← IO.monoNanosNow
    let analysis ← goOn setup monitor started (Construction.start setup)
    let ended ← IO.monoNanosNow
    return (analysis, toString ((ended - started) / 1000000) ++ "ms")

end CallFlow

def main (args : List String) : IO UInt32 := do
  let ending ← CallFlow.Arguments.execute args CallFlow.system
  if ending.text ≠ "" then IO.eprintln ending.text
  return ending.exitCode.toUInt32
