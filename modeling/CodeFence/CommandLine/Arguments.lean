import CodeFence.Text.Split

/-!
# Reading arguments

The arguments of a program are options, which begin with a hyphen, and words.  A form says which
options there are at one place and how many plain arguments; or it lists command words, one of which
has to follow, and behind which another form applies.  Behind two hyphens everything is a plain
argument.
-/

namespace CodeFence.CommandLine

/-- Why no command results from arguments. -/
inductive Refusal where
  /-- The arguments are not understood. -/
  | usage
  /-- The version is asked for. -/
  | version
  /-- Help is asked for. -/
  | help
  deriving DecidableEq

/-- What an option is for. -/
inductive OptionKind where
  /-- It is there or not. -/
  | flag
  /-- It has a value, which has to pass a check. -/
  | value (accepts : String → Bool)
  /-- It ends the reading. -/
  | stop (refusal : Refusal)

/-- An option: its name behind two hyphens, and its letter behind one. -/
structure OptionForm where
  name : String
  letter : Option Char := none
  kind : OptionKind := .flag

/-- What may stand in one place. -/
structure Form where
  options : List OptionForm
  /-- The words of which one has to follow. -/
  commands : List String := []
  /-- The checks that the plain arguments have to pass. -/
  arguments : List (String → Bool) := []

/-- What has been read in one place. -/
structure Reading where
  /-- The options with their values; a flag has an empty one. -/
  options : List (String × String) := []
  arguments : List String := []
  /-- The command word, and what follows it. -/
  command : Option (String × List String) := none

namespace Reading

/-- Whether an option is there. -/
def has (r : Reading) (name : String) : Bool :=
  (r.options.lookup name).isSome

/-- Adds an option, which has to be there only once. -/
def addOption (r : Reading) (name value : String) : Except Refusal Reading :=
  if r.has name then .error .usage else .ok { r with options := (name, value) :: r.options }

/-- Adds a plain argument. -/
def addArgument (f : Form) (r : Reading) (arg : String) : Except Refusal Reading :=
  match f.arguments[r.arguments.length]? with
  | some accepts =>
    if accepts arg then .ok { r with arguments := r.arguments ++ [arg] } else .error .usage
  | none => .error .usage

end Reading

/-- Whether an argument is read as an option. -/
def isOption (arg : String) : Bool :=
  Text.startsWith ['-'] arg.toList && arg ≠ "-"

/-- Reads an option with the value attached to it, if there is one, or else the next argument: what
has been read, and how many further arguments that took. -/
def readOption (r : Reading) (o : OptionForm) (attached next : Option String) :
    Except Refusal (Reading × Nat) :=
  match o.kind, attached, next.filter fun v => !isOption v with
  | .flag, none, _ => return (← r.addOption o.name "", 0)
  | .stop refusal, none, _ => .error refusal
  | .value accepts, some v, _ =>
    if accepts v then return (← r.addOption o.name v, 0) else .error .usage
  | .value accepts, none, some v =>
    if accepts v then return (← r.addOption o.name v, 1) else .error .usage
  | _, _, _ => .error .usage

/-- Reads an argument that begins with two hyphens, which are not given. -/
def readLong (f : Form) (r : Reading) (body : List Char) (next : Option String) :
    Except Refusal (Reading × Nat) :=
  let (name, attached) := match Text.cutAt? '=' body with
    | some (name, v) => (name, some (String.ofList v))
    | none => (body, none)
  match f.options.find? fun o => o.name = String.ofList name with
  | some o => readOption r o attached next
  | none => .error .usage

/-- Reads the letters of an argument that begins with one hyphen.  The rest of the letters is the
value of an option that has one. -/
def readLetters (f : Form) (r : Reading) (next : Option String) :
    List Char → Except Refusal (Reading × Nat)
  | [] => return (r, 0)
  | c :: rest =>
    match f.options.find? fun o => o.letter = some c with
    | none => .error .usage
    | some o =>
      match o.kind with
      | .value _ =>
        let attached := match rest with
          | [] => none
          | '=' :: v => some (String.ofList v)
          | v => some (String.ofList v)
        readOption r o attached next
      | _ => do
        let (r, _) ← readOption r o none none
        readLetters f r next rest

/-- Reads one argument that does not end the options, given those behind it: what has been read, and
how many of those belong to it. -/
def readArgument (f : Form) (r : Reading) (arg : String) (rest : List String) :
    Except Refusal (Reading × Nat) :=
  match isOption arg, arg.toList with
  | true, '-' :: '-' :: body => readLong f r body rest.head?
  | true, _ :: letters => readLetters f r rest.head? letters
  | _, _ =>
    if f.commands.contains arg then return ({ r with command := some (arg, rest) }, rest.length)
    else return (← r.addArgument f arg, 0)

/-- Reads all arguments. -/
def readAll (f : Form) (r : Reading) : List String → Except Refusal Reading
  | [] => return r
  | arg :: rest =>
    if arg = "--" then rest.foldlM (Reading.addArgument f) r
    else
      match readArgument f r arg rest with
      | .ok (r, count) => readAll f r (rest.drop count)
      | .error refusal => .error refusal
termination_by args => args.length
decreasing_by
  simp only [List.length_drop, List.length_cons]
  omega

/-- Reads what stands in one place.  All plain arguments have to be there, and a command word where
there are any. -/
def Form.read (f : Form) (args : List String) : Except Refusal Reading := do
  let r ← readAll f {} args
  if r.arguments.length < f.arguments.length then throw .usage
  if !f.commands.isEmpty && r.command.isNone then throw .usage
  return r

end CodeFence.CommandLine
