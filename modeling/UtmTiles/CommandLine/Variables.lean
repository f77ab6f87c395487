import UtmTiles.Template.Render
import UtmTiles.Text.Blank
import UtmTiles.Text.Fields

/-!
# Files of variables

A file of variables has a line `NAME=value` for each of them, with `export` in front or not. Parts of
a value may stand in quotes; between single quotes all characters are themselves. Elsewhere a
backslash takes away the meaning of the next character, and `$NAME` or `${NAME}` stands for the value
of a variable. A comment starts with `#`, at the start of a line or after white space.

The variables are added to those already set, which they do not change. The first faulty line ends
the reading.
-/

namespace UtmTiles
namespace CommandLine
namespace Variables

open Template (Variables)

/-- How the characters of a value are read. -/
inductive Mode where
  | plain
  | single
  | double
  /-- The value has ended. -/
  | after
  deriving DecidableEq, Repr

/-- A name that is being read after a dollar sign. -/
inductive Pending where
  | none
  | bare (name : List Char)
  | braced (name : List Char)
  deriving DecidableEq, Repr

/-- The value of a variable, which is empty if it is not set. -/
def valueOf (env : Variables) (name : List Char) : List Char :=
  ((env.lookup (String.ofList name)).getD "").toList

/-- What a character after a backslash stands for. -/
def unescape? (c : Char) : Option Char :=
  if c = '\\' ∨ c = '\'' ∨ c = '"' ∨ c = '$' ∨ c = ' ' then some c
  else if c = 'n' then some '\n'
  else none

/-- The value that a text stands for, behind the characters already read in reverse order. -/
def value? (env : Variables) :
    List Char → Mode → (escaped : Bool) → Pending → List Char → Option (List Char)
  | [], mode, _, pending, done =>
    if mode = .single ∨ mode = .double then none
    else
      match pending with
      | .none => some done.reverse
      | .bare name => some (done.reverse ++ valueOf env name)
      | .braced _ => none
  | c :: cs, mode, escaped, pending, done =>
    if mode = .after then
      if c = ' ' ∨ c = '\t' then value? env cs mode false pending done
      else if c = '#' then some done.reverse
      else none
    else if escaped then
      match unescape? c with
      | some c => value? env cs mode false pending (c :: done)
      | none => none
    else if mode = .single then
      if c = '\'' then value? env cs .plain false pending done
      else value? env cs mode false pending (c :: done)
    else
      match pending with
      | .bare name =>
        if c.isAlphanum then value? env cs mode false (.bare (name ++ [c])) done
        else if c = '\x7b' ∧ name.isEmpty then value? env cs mode false (.braced []) done
        else
          let done := (valueOf env name).reverse ++ done
          if c = '$' then value? env cs mode false (.bare []) done
          else value? env cs mode false .none (c :: done)
      | .braced name =>
        if c = '\x7d' then value? env cs mode false .none ((valueOf env name).reverse ++ done)
        else value? env cs mode false (.braced (name ++ [c])) done
      | .none =>
        if c = '$' then value? env cs mode false (.bare []) done
        else if c = '\\' then value? env cs mode true .none done
        else if mode = .double then
          if c = '"' then value? env cs .plain false .none done
          else value? env cs mode false .none (c :: done)
        else if c = '\'' then value? env cs .single false .none done
        else if c = '"' then value? env cs .double false .none done
        else if c = ' ' ∨ c = '\t' then value? env cs .after false .none done
        else value? env cs mode false .none (c :: done)

/-- A name at the start of a text, and what follows it. -/
def name? (cs : List Char) : Option (List Char × List Char) :=
  match cs with
  | c :: _ =>
    if c.isAlpha ∨ c = '_' then
      let isNameChar := fun (c : Char) => c.isAlphanum || c = '_' || c = '.'
      some (cs.takeWhile isNameChar, cs.dropWhile isNameChar)
    else none
  | [] => none

def afterEquals? (cs : List Char) : Option (List Char) :=
  match Text.trimStart cs with
  | '=' :: rest => some (Text.trimStart rest)
  | _ => none

/-- A name and the text of its value. The word `export` may stand in front. -/
def assignment? (cs : List Char) : Option (List Char × List Char) := do
  let (name, rest) ← name? cs
  match afterEquals? rest with
  | some rest => some (name, rest)
  | none =>
    if name = "export".toList then
      let (name, rest) ← name? (Text.trimStart rest)
      let rest ← afterEquals? rest
      some (name, rest)
    else none

/-- The variables after one line; nothing if the line is faulty. -/
def line? (env : Variables) (cs : List Char) : Option Variables :=
  let cs := Text.trimStart cs
  if cs.isEmpty ∨ cs.head? = some '#' then some env
  else do
    let (name, rest) ← assignment? cs
    let value ←
      if rest.head? = some '#' then some [] else value? env rest .plain false .none []
    let name := String.ofList name
    if (env.lookup name).isSome then some env else some (env ++ [(name, String.ofList value)])

def add (env : Variables) : List (List Char) → Variables
  | [] => env
  | l :: rest =>
    match line? env l with
    | some env => add env rest
    | none => env

/-- A line without the carriage return at its end. -/
def withoutReturn (l : List Char) : List Char :=
  if l.getLast? = some '\r' then l.dropLast else l

/-- The variables with those of a file. -/
def addFile (env : Variables) (text : String) : Variables :=
  add env ((Text.fields '\n' text.toList).map withoutReturn)

end Variables
end CommandLine
end UtmTiles
