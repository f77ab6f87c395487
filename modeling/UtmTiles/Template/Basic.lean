/-!
# Templates

A template is a text with values of variables and with choices. `{{ env.NAME }}` stands for the value
of a variable, `{% if … %} … {% else %} … {% endif %}` chooses between texts, and what stands in
`{# … #}` is left out. Between `{% raw %}` and `{% endraw %}` nothing has a meaning. A hyphen inside
of a tag's bracket takes away the white space next to the tag.

Variables are texts. A variable that is not set has no value: only a choice and the `default` filter
can do with it.
-/

namespace UtmTiles
namespace Template

/-- An expression. -/
inductive Expr where
  /-- Members of members of a name. -/
  | lookup (path : List String)
  | text (s : String)
  /-- A number as it is written. -/
  | number (literal : String)
  | boolean (b : Bool)
  /-- The first expression, or the second if the first one has no value. -/
  | fallback (e other : Expr)
  | isDefined (e : Expr)
  | negation (e : Expr)
  | conjunction (e f : Expr)
  | disjunction (e f : Expr)
  | equality (e f : Expr)
  deriving Repr, Inhabited

/-- A piece of a template. A choice takes the first branch whose condition holds. -/
inductive Piece where
  | text (s : List Char)
  | value (e : Expr)
  | choice (branches : List (Expr × List Piece)) (otherwise : List Piece)
  deriving Inhabited

/-- Why a template gives no text. -/
inductive Fault where
  | malformed
  | undefined
  deriving DecidableEq, Repr

end Template
end UtmTiles
