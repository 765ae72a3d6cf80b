import StoreBench.Command.Arguments
import StoreBench.Command.Perform
import StoreBench.Command.Usage

/-! The program: the command line on a real machine. Nothing is decided here. -/
namespace StoreBench

/-- The number and the wording that the operating system gave a fault. -/
def osFault : IO.Error → Nat × String
  | .alreadyExists _ code text => (code.toNat, text)
  | .otherError code text => (code.toNat, text)
  | .resourceBusy code text => (code.toNat, text)
  | .resourceVanished code text => (code.toNat, text)
  | .unsupportedOperation code text => (code.toNat, text)
  | .hardwareFault code text => (code.toNat, text)
  | .unsatisfiedConstraints code text => (code.toNat, text)
  | .illegalOperation code text => (code.toNat, text)
  | .protocolError code text => (code.toNat, text)
  | .timeExpired code text => (code.toNat, text)
  | .interrupted _ code text => (code.toNat, text)
  | .noFileOrDirectory _ code text => (code.toNat, text)
  | .invalidArgument _ code text => (code.toNat, text)
  | .permissionDenied _ code text => (code.toNat, text)
  | .resourceExhausted _ code text => (code.toNat, text)
  | .inappropriateType _ code text => (code.toNat, text)
  | .noSuchThing _ code text => (code.toNat, text)
  | .unexpectedEof => (0, "end of file")
  | .userError text => (0, text)

def fileFault (e : IO.Error) : FileFault :=
  match osFault e with
  | (2, _) => .notFound
  | (17, _) => .exists
  | (20, _) => .notADirectory
  | (21, _) => .isADirectory
  | (36, _) => .nameTooLong
  | (code, text) => .other text code

/-- A directory can be opened, and fails when it is read. -/
def readFault (e : IO.Error) : ReadFault :=
  match fileFault e with
  | .isADirectory => .reading .isADirectory
  | fault => .opening fault

/-- Runs an action and keeps its fault. -/
def attempted {ε α : Type} (fault : IO.Error → ε) (action : IO α) : IO (Except ε α) := do
  match ← action.toBaseIO with
  | .ok value => return .ok value
  | .error e => return .error (fault e)

/-- The directory that a path lies in, if one is written. -/
def parentText? (path : String) : Option String :=
  (Path.ofText path).parent?.map Path.text

/-- Logical processors as the kernel lists them. -/
def countProcessors : IO Nat := do
  match ← attempted id (IO.FS.lines "/proc/cpuinfo") with
  | .ok lines => return max 1 (lines.filter (·.startsWith "processor")).size
  | .error _ => return 1

def stopwatchTime {α : Type} (_ : Nat) (compute : Unit → α) : IO (α × Window) := do
  let start ← IO.monoNanosNow
  let result ← IO.lazyPure compute
  let finish ← IO.monoNanosNow
  return (result, { start, finish })

/-- One of the words that eight times four bytes stand for, the lowest byte first. -/
def keyWord (bytes : ByteArray) (place : Fin 8) : UInt32 :=
  (bytes.extract (4 * place) (4 * place + 4)).toList.foldr (fun b word => word * 256 + b.toUInt32) 0

instance : Machine IO where
  readFile path := attempted readFault do
    return (← IO.FS.readBinFile path).toList
  makeParents path := attempted fileFault do
    if let some parent := parentText? path then IO.FS.createDirAll parent
  writeFile path content := attempted fileFault do
    IO.FS.writeBinFile path ⟨content.toArray⟩
  freshStream := do
    let bytes ← IO.getRandomBytes 32
    return { key := Vector.ofFn (keyWord bytes), counter := 0, pending := [] }
  host := do
    return { logicalCpus := ← countProcessors
             refusal := fun _ => some "thread pinning is not available" }
  stopwatch := ⟨stopwatchTime⟩
  warn text := IO.eprintln text

def runInvocation (invocation : Invocation) : IO UInt32 := do
  let result : Except (Failure CommandError) String ← (invocation.perform (m := IO)).run
  match result with
  | .ok text =>
    IO.print text
    return 0
  | .error (.error e) =>
    IO.eprintln e.message
    return 1
  | .error (.fault _) =>
    IO.eprintln "the computation was stopped by a fault"
    return 101

end StoreBench

open StoreBench in
def main (arguments : List String) : IO UInt32 := do
  match Arguments.parse arguments with
  | .error _ =>
    IO.eprintln "wrong arguments; for more information, try --help"
    return 2
  | .ok .help =>
    IO.println ("\n".intercalate usage)
    return 0
  | .ok .version =>
    IO.println version
    return 0
  | .ok (.invoke invocation) => runInvocation invocation
