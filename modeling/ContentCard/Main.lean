import ContentCard.Preview

/-!
The preview program.
-/

namespace ContentCard.Preview

/-- The number of a fault, which some calls negate. -/
def faultNumber (code : UInt32) : Nat := (if code < 0x80000000 then code else 0 - code).toNat

def numbered (code : UInt32) (text : String) : FileFault :=
  match faultNumber code with
  | 2 => .missing
  | 13 => .denied
  | 20 => .notDirectory
  | 21 => .directory
  | n => .other (text ++ " (os error " ++ toString n ++ ")")

/-- What the system says of a file. -/
def fileFault : IO.Error → FileFault
  | .noFileOrDirectory .. => .missing
  | .inappropriateType _ code text | .permissionDenied _ code text
  | .invalidArgument _ code text | .resourceExhausted _ code text
  | .otherError code text => numbered code text
  | e => .other e.toString

def guarded (action : IO α) : IO (Except FileFault α) := do
  match ← action.toBaseIO with
  | .ok x => return .ok x
  | .error e => return .error (fileFault e)

/-- The files of the system; the web cannot be reached. -/
def system : Host IO where
  read path := guarded do return (← IO.FS.readBinFile path).data.toList
  write path bytes := guarded (IO.FS.writeBinFile path ⟨bytes.toArray⟩)
  download _ := return none
  print text := do
    (← IO.getStdout).putStr text

end ContentCard.Preview

open ContentCard in
def main (args : List String) : IO UInt32 := do
  match ← (Preview.run Preview.system args).run with
  | .ok () => return 0
  | .error fault =>
    (← IO.getStderr).putStrLn fault.report
    return 1
