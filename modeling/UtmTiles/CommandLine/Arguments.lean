/-!
# Arguments of the command line

A command has options with values, and switches. The value of an option stands behind an equals sign
or is the next argument. `Command.parse` reads the arguments of a command; a request for help or for
the version counts as soon as it is met, and other faults only if there is no such request before
them.
-/

namespace UtmTiles
namespace CommandLine

/-- An option of a command. -/
structure Opt where
  name : String
  short : Option Char
  /-- What the value is called; a switch has none. -/
  value : Option String
  isRequired : Bool
  about : String
  deriving DecidableEq, Repr

/-- A command of the program. -/
structure Command where
  name : String
  about : String
  options : List Opt
  /-- The argument after an option is its value, even if it starts with a hyphen. -/
  hyphenValues : Bool
  deriving DecidableEq, Repr

/-- Arguments that make no sense. -/
inductive UsageFault where
  | unknownArgument (arg : String)
  | unknownCommand (name : String)
  | missingValue (option : String)
  | repeated (option : String)
  | missingOption (option : String)
  deriving DecidableEq, Repr

def UsageFault.message : UsageFault → String
  | unknownArgument arg => s!"Found argument '{arg}' which wasn't expected"
  | unknownCommand name => s!"The subcommand '{name}' wasn't recognized"
  | missingValue option => s!"The argument '--{option}' requires a value but none was supplied"
  | repeated option => s!"The argument '--{option}' was provided more than once"
  | missingOption option => s!"The required argument '--{option}' was not provided"

/-- Why arguments are not read to their end. -/
inductive Stop where
  | help
  | version
  | fault (fault : UsageFault)
  deriving DecidableEq, Repr

/-- Values of options, and switches with empty values. -/
abbrev Values := List (String × String)

namespace Command

def byName? (c : Command) (name : String) : Option Opt := c.options.find? (·.name == name)

def byShort? (c : Command) (short : Char) : Option Opt := c.options.find? (·.short == some short)

/-- The name and the value of an argument, without hyphens in front of the name and equals signs in
front of the value. -/
def splitValue (cs : List Char) : List Char × Option (List Char) :=
  let cs := cs.dropWhile (· = '-')
  let name := cs.takeWhile (· ≠ '=')
  let rest := cs.dropWhile (· ≠ '=')
  (name, if rest.isEmpty then none else some (rest.dropWhile (· = '=')))

/-- What an argument is. -/
inductive Reading where
  /-- An option with its value, or a switch. -/
  | given (option : Opt) (value : List Char)
  /-- An option whose value is still to come. -/
  | waiting (option : Opt)
  | stop (reason : Stop)

/-- Reads an argument that starts with two hyphens. -/
def long (c : Command) (arg : List Char) : Reading :=
  let (name, value) := splitValue arg
  let name := String.ofList name
  match c.byName? name, value with
  | some o, some value => .given o (if o.value.isSome then value else [])
  | some o, none => if o.value.isSome then .waiting o else .given o []
  | none, _ =>
    if name = "help" then .stop .help
    else if name = "version" then .stop .version
    else .stop (.fault (.unknownArgument (String.ofList arg)))

/-- Reads an argument that starts with one hyphen: a letter, and the value of its option. Where
values may start with hyphens, such an argument consists of known letters. -/
def short (c : Command) (arg : List Char) : Reading :=
  let isKnown := fun s => (c.byShort? s).isSome || s = 'h' || s = 'V'
  let unknown := Reading.stop (.fault (.unknownArgument (String.ofList arg)))
  match arg.dropWhile (· = '-') with
  | [] => unknown
  | s :: rest =>
    if c.hyphenValues && !(s :: rest).all isKnown then unknown
    else
      match c.byShort? s with
      | some o => if rest.isEmpty then .waiting o else .given o (rest.dropWhile (· = '='))
      | none =>
        if s = 'h' then .stop .help else if s = 'V' then .stop .version else unknown

/-- Reads an argument that is no value. -/
def reading (c : Command) (arg : String) : Reading :=
  match arg.toList with
  | '-' :: '-' :: cs => c.long ('-' :: '-' :: cs)
  | '-' :: x :: cs => c.short ('-' :: x :: cs)
  | _ => .stop (.fault (.unknownArgument arg))

/-- An argument that is no value where values do not start with hyphens. -/
def looksLikeOption (arg : String) : Bool :=
  match arg.toList with
  | '-' :: _ :: _ => true
  | _ => false

/-- Options as they have been met, in reverse order; one that has been left without a value has
none. -/
abbrev Met := List (Opt × Option (List Char))

/-- Reads the arguments. An option may wait for its value. Two hyphens announce arguments that are no
options, of which there are none. -/
def readAll (c : Command) : List String → (waiting : Option Opt) → Met → Except Stop Met
  | [], none, met => .ok met
  | [], some o, met => .ok ((o, none) :: met)
  | arg :: rest, waiting, met =>
    let isValue := c.hyphenValues || !looksLikeOption arg
    match waiting.filter fun _ => isValue with
    | some o => c.readAll rest none ((o, some arg.toList) :: met)
    | none =>
      let met := (waiting.map fun o => (o, none)).toList ++ met
      if arg = "--" then
        match rest with
        | [] => .ok met
        | arg :: _ => .error (.fault (.unknownArgument arg))
      else
        match c.reading arg with
        | .given o value => c.readAll rest none ((o, some value) :: met)
        | .waiting o => c.readAll rest (some o) met
        | .stop reason => .error reason

/-- Every option has a value, comes at most once, and is there if it has to be. -/
def check (c : Command) (met : Met) : Except UsageFault Unit := do
  for (o, value) in met do
    if value.isNone then .error (.missingValue o.name)
    if 1 < (met.filter (·.1.name == o.name)).length then .error (.repeated o.name)
  for o in c.options do
    if o.isRequired && !met.any (·.1.name == o.name) then .error (.missingOption o.name)

def parse (c : Command) (args : List String) : Except Stop Values := do
  let met ← c.readAll args none []
  (c.check met).mapError .fault
  return met.map fun (o, value) => (o.name, String.ofList (value.getD []))

end Command
end CommandLine
end UtmTiles
