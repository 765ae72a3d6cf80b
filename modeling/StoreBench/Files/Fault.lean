/-! Faults of the file system, with the wording and the numbers that the operating system gives
them. -/
namespace StoreBench

inductive FileFault where
  | notFound
  | exists
  | notADirectory
  | isADirectory
  /-- A name, or a whole path, of more bytes than the system takes. -/
  | nameTooLong
  /-- A path with a zero character inside. It is refused before the system sees it. -/
  | zeroCharacter
  /-- Any other fault, with its description and number. -/
  | other (description : String) (code : Nat)
deriving DecidableEq, Repr

namespace FileFault

def description : FileFault → String
  | .notFound => "No such file or directory"
  | .exists => "File exists"
  | .notADirectory => "Not a directory"
  | .isADirectory => "Is a directory"
  | .nameTooLong => "File name too long"
  | .zeroCharacter => "file name contained an unexpected NUL byte"
  | .other text _ => text

/-- The number of the fault, if it is one of the system's. -/
def code? : FileFault → Option Nat
  | .notFound => some 2
  | .exists => some 17
  | .notADirectory => some 20
  | .isADirectory => some 21
  | .nameTooLong => some 36
  | .zeroCharacter => none
  | .other _ n => some n

def message (fault : FileFault) : String :=
  match fault.code? with
  | some code => s!"IO error: {fault.description} (os error {code})"
  | none => s!"IO error: {fault.description}"

end FileFault

end StoreBench
