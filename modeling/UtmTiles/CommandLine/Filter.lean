import UtmTiles.Log
import UtmTiles.Text.Blank

/-!
# Choosing log entries

A filter is a list of directives between commas: `level`, `part` or `part=level`. The directive with
the longest name that the part's name starts with decides, and a directive without a name decides for
all parts that are left. A text after a slash has to be found in the message. Without any directive
only errors are shown.
-/

namespace UtmTiles
namespace CommandLine

/-- Which entries a directive lets through, by rank: 0 lets none through. -/
structure Directive where
  /-- The part's name starts with this text. -/
  name : String
  rank : Nat
  deriving DecidableEq, Repr

/-- A choice of log entries. -/
structure Filter where
  directives : List Directive
  /-- A text that the message contains. -/
  pattern : Option String
  deriving DecidableEq, Repr

def rankOf : Log.Level → Nat
  | .error => 1
  | .warning => 2
  | .info => 3

namespace Filter

/-- The rank that lets all entries through. -/
def maxRank : Nat := 5

/-- The rank that a level's name stands for. Upper and lower case are the same. -/
def rank? (name : String) : Option Nat :=
  ["off", "error", "warn", "info", "debug", "trace"].findIdx? (· == name.map Char.toLower)

/-- The directive that a text stands for. Faulty ones are left out. -/
def directive? (text : String) : Option Directive :=
  match text.splitOn "=" with
  | [one] =>
    if one.isEmpty then none
    else
      match rank? one with
      | some rank => some ⟨"", rank⟩
      | none => some ⟨one, maxRank⟩
  | [name, level] =>
    let level := String.ofList (Text.trim level.toList)
    if level.isEmpty then some ⟨name, maxRank⟩
    else (rank? level).map fun rank => ⟨name, rank⟩
  | _ => none

def read (text : String) : Filter :=
  match text.splitOn "/" with
  | [directives] => ⟨(directives.splitOn ",").filterMap directive?, none⟩
  | [directives, pattern] => ⟨(directives.splitOn ",").filterMap directive?, some pattern⟩
  | _ => ⟨[], none⟩

def contains (text pattern : List Char) : Bool :=
  match text with
  | [] => pattern.isEmpty
  | c :: cs => pattern.isPrefixOf (c :: cs) || contains cs pattern

/-- The directive that decides for a part: of the longest name, and the last of those. -/
def decisive? (f : Filter) (part : String) : Option Directive :=
  (f.directives.filter fun d => d.name.toList.isPrefixOf part.toList).foldl
    (fun (best : Option Directive) d =>
      match best with
      | some b => if d.name.length < b.name.length then best else some d
      | none => some d) none

def shows (f : Filter) (e : Log.Entry) : Bool :=
  let rank := if f.directives.isEmpty then 1 else ((f.decisive? e.part.name).map Directive.rank).getD 0
  rankOf e.level ≤ rank && (f.pattern.all fun p => contains e.message.toList p.toList)

end Filter
end CommandLine
end UtmTiles
