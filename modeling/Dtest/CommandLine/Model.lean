import Dtest.Driver.Model
import Dtest.Net.Address

/-!
# The command line

`parseArguments` goes through the arguments once and carries out each of them as it meets it: an
option changes the driver's context or the variables of the program, and any other argument is a
place where tests are found and loaded.  It ends early with `exit`, with an exception, or where the
program reads past the arguments, writes past a buffer or reads the result of a `stat` that has
failed.

Strings are lists of bytes without their NUL.  The file system, the name service and the dynamic
linker are functions of a `World`.
-/

namespace Dtest

namespace CommandLine

/-- How the program ends before the tests run. -/
inductive Halt
  | exit (code : ℕ) (err : List UInt8)
  | uncaught (what : List UInt8)
  | undefined
  deriving DecidableEq

/-! ## Conversions of the C library -/

/-- `tolower` in the C locale. -/
def toLower (b : UInt8) : UInt8 := if 65 ≤ b ∧ b ≤ 90 then b + 32 else b

/-- `strcasecmp(s, t) == 0`. -/
def sameText (s t : List UInt8) : Bool := s.map toLower == t.map toLower

/-- `isspace` in the C locale. -/
def isSpace (b : UInt8) : Bool := b == 32 || (9 ≤ b && b ≤ 13)

def isDigit (b : UInt8) : Bool := 48 ≤ b && b ≤ 57

/-- The number that the digits at the beginning of a string denote. -/
def digits (s : List UInt8) : ℕ :=
  (s.takeWhile isDigit).foldl (fun n b => 10 * n + (b.toNat - 48)) 0

/-- `strtol(s, NULL, 10)`, which saturates. -/
def strtol (s : List UInt8) : ℤ :=
  match s.dropWhile isSpace with
  | [] => 0
  | b :: rest =>
    if b = 45 then max (-(digits rest : ℤ)) (-2 ^ 63)
    else if b = 43 then min (digits rest) (2 ^ 63 - 1)
    else min (digits (b :: rest)) (2 ^ 63 - 1)

/-- `atoi` converted to an unsigned type of `w` bits. -/
def atoiUnsigned (w : ℕ) (s : List UInt8) : ℕ := ((strtol s) % 2 ^ w).toNat

/-! ## Finding tests -/

mutual

/-- What a path leads to; `missing` is one that `stat` fails for, as it does for a dangling link.  A
directory that cannot be opened is one without entries. -/
inductive FileNode
  | file
  | dir (entries : Entries)
  | missing

/-- The entries of a directory in the order of `readdir`. -/
inductive Entries
  | nil
  | cons (name : List UInt8) (node : FileNode) (rest : Entries)

end

/-- The program's surroundings.  `file` is `none` where `access` fails. -/
structure World where
  file : List UInt8 → Option FileNode
  loads : List UInt8 → Bool
  dlerror : List UInt8
  resolve : List UInt8 → List UInt8 → Option (ℕ × ℕ)
  gaiError : List UInt8

/-- `PATH_MAX`. -/
def pathMax : ℕ := 4096

/-- `'/'`. -/
def slash : UInt8 := 47

/-- The path that `findTests` makes for an entry. -/
def childPath (path name : List UInt8) : List UInt8 := path ++ slash :: name

/-- An entry that `findTests` goes on with. -/
def entered (name : List UInt8) : Bool :=
  name != ascii "." && name != ascii ".." && name != ascii "dtest"

/-- A file that `findTests` loads. -/
def isTestFile (path : List UInt8) : Bool :=
  9 ≤ path.length && sameText (path.drop (path.length - 9)) (ascii ".dtest.so")

/-- `loadTests`, with the files in `dynamicTests`. -/
def loadTests (w : World) (path : List UInt8) (tests : List (List UInt8)) :
    Except Halt (List (List UInt8)) :=
  if w.loads path then .ok (tests ++ [path]) else .error (.exit 1 (w.dlerror ++ ascii "\n"))

mutual

/-- `findTests`, which does not look at the result of `stat` and so reads what it has not set. -/
def findTests (w : World) (path : List UInt8) :
    FileNode → List (List UInt8) → Except Halt (List (List UInt8))
  | .file, tests => if isTestFile path then loadTests w path tests else .ok tests
  | .dir entries, tests => findEntries w path entries tests
  | .missing, _ => .error .undefined

/-- The loop of `findTests` over a directory. -/
def findEntries (w : World) (path : List UInt8) :
    Entries → List (List UInt8) → Except Halt (List (List UInt8))
  | .nil, tests => .ok tests
  | .cons name node rest, tests =>
    if entered name then
      if pathMax < (childPath path name).length + 1 then .error .undefined
      else do findEntries w path rest (← findTests w (childPath path name) node tests)
    else findEntries w path rest tests

end

/-! ## The arguments -/

/-- What `parseArguments` leaves in the context of the driver and in the variables of the program.
An address is a host and a port. -/
structure Setup where
  driver : DriverContext (ℕ × ℕ) Unit := {}
  port : ℕ := 0
  address : Option (ℕ × ℕ) := none
  superAddress : Option (ℕ × ℕ) := none
  runWorker : Bool := false
  workerId : ℕ := 0
  modules : Finset (List UInt8) := ∅
  dynamicTests : List (List UInt8) := []

namespace Setup

/-- `DriverContext::setAddress`. -/
def setAddress (w : World) (s : Setup) (text : List UInt8) : Except Halt Setup :=
  match strToIpv4 text with
  | none => .error .undefined
  | some (.invalidArgument what) => .error (.uncaught what)
  | some (.resolve host port) =>
    match w.resolve host port with
    | none => .error (.exit 1 (ascii "getaddrinfo: " ++ w.gaiError ++ ascii "\n"))
    | some addr =>
      .ok { s with
        port := addr.2
        address := some addr
        superAddress := some (addr.1, if addr.2 = 0 then 0 else (addr.2 + 1) % 2 ^ 16) }

/-- `findTests` on a place given. -/
def findTests (w : World) (s : Setup) (path : List UInt8) (node : FileNode) :
    Except Halt Setup := do
  return { s with dynamicTests := ← CommandLine.findTests w path node s.dynamicTests }

end Setup

/-- The options with a value. -/
inductive ValueOption
  | port
  | workers
  | driver
  | workerId
  | module
  deriving DecidableEq

/-- An option of the command line. -/
inductive CliOption
  | value (o : ValueOption)
  | help
  deriving DecidableEq

/-- The comparisons of `parseArguments`, in their order. -/
def CliOption.ofText (arg : List UInt8) : Option CliOption :=
  if sameText arg (ascii "--port") then some (.value .port)
  else if sameText arg (ascii "--workers") then some (.value .workers)
  else if sameText arg (ascii "--driver") then some (.value .driver)
  else if sameText arg (ascii "--worker-id") then some (.value .workerId)
  else if sameText arg (ascii "--module") then some (.value .module)
  else if sameText arg (ascii "-h") || sameText arg (ascii "--help") then some .help
  else none

/-- An option with its value is carried out. -/
def ValueOption.run (w : World) (s : Setup) (text : List UInt8) : ValueOption → Except Halt Setup
  | .port => .ok { s with port := atoiUnsigned 16 text }
  | .workers => .ok { s with driver := s.driver.addWorkers (atoiUnsigned 32 text) }
  | .driver => { s with runWorker := true }.setAddress w text
  | .workerId => .ok { s with workerId := atoiUnsigned 32 text }
  | .module => .ok { s with modules := insert text s.modules }

/-- `argv[i][0] == '-'`. -/
def isOption (arg : List UInt8) : Bool := arg.head? == some 45

/-- The loop of `parseArguments`, with `gotTestLocation`.  A value that is missing is a null
pointer. -/
def parseLoop (w : World) : List (List UInt8) → Setup → Bool → Except Halt (Setup × Bool)
  | [], s, gotTestLocation => .ok (s, gotTestLocation)
  | arg :: args, s, gotTestLocation =>
    if isOption arg then
      match CliOption.ofText arg, args with
      | none, _ => .error (.exit 1 (ascii "Unknown option '" ++ arg ++ ascii "'\n\n"))
      | some .help, _ => .error (.exit 0 [])
      | some (.value _), [] => .error .undefined
      | some (.value o), text :: args => do parseLoop w args (← o.run w s text) gotTestLocation
    else
      match w.file arg with
      | none => .error (.exit 1
          (ascii "Argument '" ++ arg ++ ascii "' is not a valid option or test location.\n\n"))
      | some node => do parseLoop w args (← s.findTests w arg node) true

/-- `parseArguments`, with what `cwd` leads to. -/
def parseArguments (w : World) (args : List (List UInt8)) (cwd : List UInt8) (cwdNode : FileNode) :
    Except Halt Setup := do
  let (s, gotTestLocation) ← parseLoop w args {} false
  if gotTestLocation then return s else s.findTests w cwd cwdNode

end CommandLine

end Dtest
