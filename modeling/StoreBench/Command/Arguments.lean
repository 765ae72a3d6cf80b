import StoreBench.Command.Basic

/-! Reading the command line. Arguments are taken from left to right; a call for help or for the
version ends the reading where it stands, and so does the first argument that is wrong. What is
missing is noticed at the end. -/
namespace StoreBench

/-- What a command line asks for. -/
inductive CommandLine where
  | help
  | version
  | invoke (invocation : Invocation)
deriving DecidableEq, Repr

/-- The arguments are wrong. -/
structure UsageError where
deriving DecidableEq, Repr

namespace Arguments

/-- Decimal digits, and at least one. -/
def digits? (text : List Char) : Option Nat :=
  if text.isEmpty || !text.all Char.isDigit then none
  else some (Bytes.extend 0 (text.map Bytes.byte))

/-- A number up to `bound`, with an optional plus sign. -/
def natural? (bound : Nat) (text : String) : Option Nat := do
  let value ← match text.toList with
    | '+' :: rest => digits? rest
    | rest => digits? rest
  if value ≤ bound then some value else none

/-- A 64-bit word. -/
def word? (text : String) : Option Nat := natural? wordMax text

/-- A 32-bit word. It is read as a signed number, so a zero may have a minus sign. -/
def halfWord? (text : String) : Option Nat :=
  match text.toList with
  | '-' :: rest => if digits? rest = some 0 then some 0 else none
  | _ => natural? halfWordMax text

def seed? (text : String) : Option UInt64 := (word? text).map (·.toUInt64)

/-- A path, which must not be empty. -/
def path? (text : String) : Option String := if text.isEmpty then none else some text

def format? : String → Option ReportFormat
  | "text" => some .text
  | "json" => some .json
  | _ => none

/-- The form of one argument. -/
inductive Form where
  /-- Two dashes alone: no options follow. -/
  | separator
  /-- Two dashes and a name, with the value after an equals sign, if there is one. -/
  | long (name : String) (value : Option String)
  /-- A dash and letters. -/
  | short (letters : List Char)
  /-- Anything else, a lone dash included. -/
  | word (text : String)
deriving DecidableEq, Repr

def Form.of (argument : String) : Form :=
  match argument.toList with
  | ['-', '-'] => .separator
  | '-' :: '-' :: rest =>
    let value :=
      match rest.dropWhile (· != '=') with
      | [] => none
      | _ :: value => some (String.ofList value)
    .long (String.ofList (rest.takeWhile (· != '='))) value
  | '-' :: letter :: letters => .short (letter :: letters)
  | _ => .word argument

/-- What an option takes. A value is checked as soon as it is read. -/
inductive Kind where
  | flag
  | value (accepts : String → Bool)

/-- Options by name. -/
abbrev Options := List (String × Kind)

/-- Option values as written, newest first. A flag that was set has an empty one. -/
abbrev Given := List (String × String)

/-- The end of a list of options: all of them, or a call for help before that. -/
inductive Scanned where
  | help
  | given (values : Given)
deriving DecidableEq, Repr

/-- Adds a value. No option may be given twice. -/
def add (given : Given) (name value : String) : Except UsageError Given :=
  if (given.lookup name).isSome then .error {} else .ok ((name, value) :: given)

/-- The letters of one argument: `v` for verbose, and `h`, which ends the reading, for help. -/
def scanLetters (given : Given) : List Char → Except UsageError Scanned
  | [] => .ok (.given given)
  | 'h' :: _ => .ok .help
  | 'v' :: letters => do scanLetters (← add given "verbose" "") letters
  | _ :: _ => .error {}

/-- The options of a command. -/
def scan (options : Options) (given : Given) : List String → Except UsageError Scanned
  | [] => .ok (.given given)
  | argument :: rest =>
    match Form.of argument with
    | .separator => if rest.isEmpty then .ok (.given given) else .error {}
    | .word _ => .error {}
    | .short letters =>
      match scanLetters given letters with
      | .ok (.given given) => scan options given rest
      | ended => ended
    | .long "help" none => .ok .help
    | .long name attached =>
      match options.lookup name, attached, rest with
      | some .flag, none, rest => do scan options (← add given name "") rest
      | some (.value accepts), some value, rest => do
        if accepts value then scan options (← add given name value) rest else .error {}
      | some (.value accepts), none, value :: rest => do
        match Form.of value with
        | .word _ => if accepts value then scan options (← add given name value) rest else .error {}
        | _ => .error {}
      | _, _, _ => .error {}

/-- An option whose values are those that `read` understands. -/
def reads {α : Type} (read : String → Option α) : Kind := .value fun text => (read text).isSome

/-- The value of an option, if it was given. -/
def Given.find {α : Type} (given : Given) (name : String) (read : String → Option α) : Option α :=
  (given.lookup name).bind read

def Given.has (given : Given) (name : String) : Bool := (given.lookup name).isSome

/-- A command: its options, and the request that they make. A request lacks what is required and
was not given. -/
structure Verb where
  options : Options
  request : Given → Option Request

def verbose : String × Kind := ("verbose", .flag)

def samplesVerb : Verb where
  options := [verbose, ("key-size", reads word?), ("value-size", reads word?),
    ("pairs", reads word?), ("output", reads path?), ("seed", reads seed?)]
  request given := do
    let keySize ← given.find "key-size" word?
    let valueSize ← given.find "value-size" word?
    let pairs ← given.find "pairs" word?
    let output ← given.find "output" path?
    return .samples { shape := { keySize, valueSize, pairs }, output,
                      seed := given.find "seed" seed? }

def generateVerb : Verb where
  options := [verbose, ("data", reads path?), ("profile", reads path?), ("output", reads path?),
    ("num-txs", reads word?), ("tx-length-min", reads word?), ("tx-length-max", reads word?),
    ("seed", reads seed?), ("split", reads word?), ("profile-lengths", .flag)]
  request given := do
    let data ← given.find "data" path?
    let profile ← given.find "profile" path?
    let output ← given.find "output" path?
    let config : GenerationConfig :=
      { transactions := (given.find "num-txs" word?).getD 1
        lengthMin := (given.find "tx-length-min" word?).getD 2
        lengthMax := (given.find "tx-length-max" word?).getD 64
        profileLengths := given.has "profile-lengths" }
    return .generate { data, profile, output, config
                       seed := given.find "seed" seed?
                       split := given.find "split" word? }

def runVerb : Verb where
  options := [verbose, ("data", reads path?), ("workload", reads path?), ("pool", .flag),
    ("threads", reads word?), ("retries", reads halfWord?), ("cpu-offset", reads word?),
    ("smt-ratio", reads word?), ("cpus", reads word?), ("no-pin", .flag),
    ("unit", reads TimeUnit.ofSpelling?), ("format", reads format?)]
  request given := do
    let data ← given.find "data" path?
    let workload ← given.find "workload" path?
    let layout : CpuLayout :=
      { offset := (given.find "cpu-offset" word?).getD 0
        smtRatio := (given.find "smt-ratio" word?).getD 2
        logicalCpus := given.find "cpus" word?
        pin := !given.has "no-pin" }
    let config : RunConfig :=
      { threads := (given.find "threads" word?).getD 1
        retries := (given.find "retries" halfWord?).getD 0
        layout }
    return .run { data, workload, config
                  pool := given.has "pool"
                  unit := (given.find "unit" TimeUnit.ofSpelling?).getD .s
                  format := (given.find "format" format?).getD .text }

def baselineVerb : Verb where
  options := [verbose, ("data", reads path?), ("op", reads Operation.ofSpelling?),
    ("repeats", reads word?), ("unit", reads TimeUnit.ofSpelling?), ("seed", reads seed?)]
  request given := do
    let data ← given.find "data" path?
    let operation ← given.find "op" Operation.ofSpelling?
    return .baseline { data, operation
                       repeats := (given.find "repeats" word?).getD 1000
                       unit := (given.find "unit" TimeUnit.ofSpelling?).getD .s
                       seed := given.find "seed" seed? }

def verbs : List (String × Verb) :=
  [("kv-gen", samplesVerb), ("gen", generateVerb), ("run", runVerb), ("baseline", baselineVerb)]

/-- The arguments of a command. It is verbose if either side of its name says so. -/
def invoke (verb : Verb) (outer : Bool) (arguments : List String) :
    Except UsageError CommandLine := do
  match ← scan verb.options [] arguments with
  | .help => return .help
  | .given given =>
    match verb.request given with
    | some request => return .invoke { verbose := outer || given.has "verbose", request }
    | none => throw {}

/-- The arguments of the help command: at most one name of a command. -/
def helpOn : List String → Except UsageError CommandLine
  | [] => .ok .help
  | [name] => if name = "help" || (verbs.lookup name).isSome then .ok .help else .error {}
  | _ => .error {}

/-- Letters before the name of a command. Here the version can be asked for, too. -/
def outerLetters (verbose : Bool) : List Char → Except UsageError (Bool × Option CommandLine)
  | [] => .ok (verbose, none)
  | 'h' :: _ => .ok (verbose, some .help)
  | 'V' :: _ => .ok (verbose, some .version)
  | 'v' :: letters => if verbose then .error {} else outerLetters true letters
  | _ :: _ => .error {}

/-- A whole command line, without the name of the program; `verbose` tells whether that flag was
read already. -/
def parseFrom (verbose : Bool) : List String → Except UsageError CommandLine
  | [] => .error {}
  | argument :: rest =>
    match Form.of argument with
    | .separator => .error {}
    | .word name =>
      if name = "help" then helpOn rest
      else
        match verbs.lookup name with
        | some verb => invoke verb verbose rest
        | none => .error {}
    | .short letters =>
      match outerLetters verbose letters with
      | .error e => .error e
      | .ok (_, some ended) => .ok ended
      | .ok (verbose, none) => parseFrom verbose rest
    | .long "help" none => .ok .help
    | .long "version" none => .ok .version
    | .long "verbose" none => if verbose then .error {} else parseFrom true rest
    | .long _ _ => .error {}

def parse (arguments : List String) : Except UsageError CommandLine := parseFrom false arguments

end Arguments

end StoreBench
