import UtmTiles.Decimal.Reader
import UtmTiles.Template.Reader

/-!
# Filling in templates

The variables are the members of `env`. Texts that stand for values may have to be escaped for a
markup language; the texts of the template itself are never changed.
-/

namespace UtmTiles
namespace Template

/-- What an expression stands for. -/
inductive Datum where
  | text (s : String)
  | number (literal : String)
  | boolean (b : Bool)
  | environment
  deriving Repr

abbrev Variables := List (String × String)

/-- The value of a path, if it has one. -/
def lookup? (env : Variables) : List String → Option Datum
  | ["env"] => some .environment
  | ["env", name] => (env.lookup name).map .text
  | _ => none

def numberOf (literal : String) : Float := (Decimal.read? literal).getD 0.0

/-- A datum that a condition takes for true. -/
def Datum.holds (env : Variables) : Datum → Bool
  | text s => !s.isEmpty
  | number literal => numberOf literal != 0.0
  | boolean b => b
  | environment => !env.isEmpty

def Datum.equal : Datum → Datum → Bool
  | text s, text t => s == t
  | number m, number n => numberOf m == numberOf n
  | boolean b, boolean c => b == c
  | environment, environment => true
  | _, _ => false

/-- What an expression stands for, if all in it that matters has a value. -/
def Expr.eval? (env : Variables) : Expr → Option Datum
  | lookup path => lookup? env path
  | text s => some (.text s)
  | number literal => some (.number literal)
  | boolean b => some (.boolean b)
  | fallback e other =>
    match e.eval? env with
    | some d => some d
    | none => other.eval? env
  | isDefined e => some (.boolean (e.eval? env).isSome)
  | negation e => some (.boolean !(((e.eval? env).map (Datum.holds env)).getD false))
  | conjunction e f =>
    let holds (e : Option Datum) := (e.map (Datum.holds env)).getD false
    some (.boolean (holds (e.eval? env) && holds (f.eval? env)))
  | disjunction e f =>
    let holds (e : Option Datum) := (e.map (Datum.holds env)).getD false
    some (.boolean (holds (e.eval? env) || holds (f.eval? env)))
  | equality e f => do return .boolean ((← e.eval? env).equal (← f.eval? env))

/-- A condition holds; it does not if it has no value. -/
def Expr.holds (env : Variables) (e : Expr) : Bool := ((e.eval? env).map (Datum.holds env)).getD false

/-- A character of a text in a markup language. -/
def escaped : Char → List Char
  | '&' => "&amp;".toList
  | '<' => "&lt;".toList
  | '>' => "&gt;".toList
  | '"' => "&quot;".toList
  | '\'' => "&#x27;".toList
  | '/' => "&#x2F;".toList
  | c => [c]

/-- A datum as it stands in the filled-in template. -/
def Datum.render (escape : Bool) : Datum → List Char
  | text s => if escape then s.toList.flatMap escaped else s.toList
  | number literal => literal.toList
  | boolean b => (if b then "true" else "false").toList
  | environment => "[object]".toList

mutual

def Piece.render (escape : Bool) (env : Variables) : Piece → Except Fault (List Char)
  | .text s => .ok s
  | .value e =>
    match e.eval? env with
    | some d => .ok (d.render escape)
    | none => .error .undefined
  | .choice branches otherwise => do
    match ← renderBranch escape env branches with
    | some s => return s
    | none => renderAll escape env otherwise

/-- The first branch whose condition holds, filled in. -/
def renderBranch (escape : Bool) (env : Variables) :
    List (Expr × List Piece) → Except Fault (Option (List Char))
  | [] => .ok none
  | (condition, pieces) :: rest =>
    if condition.holds env then (renderAll escape env pieces).map some
    else renderBranch escape env rest

/-- Pieces, filled in one after the other. -/
def renderAll (escape : Bool) (env : Variables) : List Piece → Except Fault (List Char)
  | [] => .ok []
  | p :: rest => do
    let first ← p.render escape env
    let others ← renderAll escape env rest
    return first ++ others

end

def render (escape : Bool) (env : Variables) (text : String) : Except Fault String := do
  let pieces ← read text
  return String.ofList (← renderAll escape env pieces)

end Template
end UtmTiles
