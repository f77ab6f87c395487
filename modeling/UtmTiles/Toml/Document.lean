import UtmTiles.Toml.Reader

/-!
# The table of a TOML document

All sections whose path starts with the path of a table belong to that table. They are gone through
in order, and the table's keys are those that come next in their paths. A section whose path is the
table's own gives its entries. A key that comes twice, a table with two sections of its own, and an
array of tables that is also a table are faults; the first one met is reported.
-/

namespace UtmTiles
namespace Toml

mutual

def Node.resolve : Node → Except Fault Value
  | .string s => .ok (.string s)
  | .integer n => .ok (.integer n)
  | .float x => .ok (.float x)
  | .boolean b => .ok (.boolean b)
  | .date text =>
    match Date.normal? text with
    | some text => .ok (.date (String.ofList text))
    | none => .error .dateValue
  | .array items => (resolveItems items).map .array
  | .inlineTable entries | .dottedTable entries => (resolveEntries entries []).map .table

def resolveItems : List Node → Except Fault (List Value)
  | [] => .ok []
  | v :: rest => do
    let v ← v.resolve
    return v :: (← resolveItems rest)

/-- Entries with their values behind those already known; no key may come twice. -/
def resolveEntries : List (String × Node) → List (String × Value) →
    Except Fault (List (String × Value))
  | [], done => .ok done
  | (k, v) :: rest, done =>
    if (done.lookup k).isSome then .error (.duplicateKey k)
    else do
      let v ← v.resolve
      resolveEntries rest (done ++ [(k, v)])

end

/-- A section and its place in the text. -/
structure Placed where
  place : Nat
  content : Section

/-- Sections that no table has taken yet. -/
abbrev Pending := List Placed

/-- The first section from some place on and before another whose path starts in a certain way. -/
def Pending.find (pending : Pending) (path : List String) (start limit : Nat) : Option Placed :=
  List.find? (fun s => start ≤ s.place && s.place < limit && path.isPrefixOf s.content.path) pending

def Pending.without (pending : Pending) (s : Placed) : Pending :=
  List.filter (fun t => t.place != s.place) pending

mutual

/-- The entries of the table with a path, behind those already known, and the sections that are left.
The search goes on at `start`; `leader` is the section that the table was first met in, or a later
one with a shorter path. -/
def tableEntries : Nat → List String → (leader : Placed) → (start limit : Nat) →
    List (String × Value) → Pending → Except Fault (List (String × Value) × Pending)
  | 0, _, _, _, _, done, pending => .ok (done, pending)
  | fuel + 1, path, leader, start, limit, done, pending =>
    match pending.find path start limit with
    | none => .ok (done, pending)
    | some s =>
      if s.place ≠ leader.place ∧ s.content.path = leader.content.path then
        .error (.duplicateTable s.content.path)
      else
        let leader := if s.content.path.length < leader.content.path.length then s else leader
        match s.content.path.drop path.length with
        | [] =>
          if s.content.isItem then .error .tableAsArray
          else
            match resolveEntries s.content.entries done with
            | .ok done => tableEntries fuel path leader s.place limit done (pending.without s)
            | .error fault => .error fault
        | k :: more =>
          if (done.lookup k).isSome then .error (.duplicateKey k)
          else
            let found :=
              if s.content.isItem ∧ more.isEmpty then
                (arrayItems fuel s limit [] pending).map fun (items, pending) =>
                  (Value.array items, pending)
              else
                (tableEntries fuel (path ++ [k]) s 0 limit [] pending).map fun (entries, pending) =>
                  (Value.table entries, pending)
            match found with
            | .ok (v, pending) =>
              tableEntries fuel path leader (s.place + 1) limit (done ++ [(k, v)]) pending
            | .error fault => .error fault

/-- The items of an array from a section on, behind those already known in reverse order. An item
reaches up to the next section with the same path. -/
def arrayItems : Nat → Placed → Nat → List Value → Pending →
    Except Fault (List Value × Pending)
  | 0, _, _, done, pending => .ok (done.reverse, pending)
  | fuel + 1, s, limit, done, pending =>
    let next? := List.find? (fun t => s.place < t.place && t.place < limit && t.content.isItem &&
      t.content.path == s.content.path) pending
    let next := (next?.map Placed.place).getD limit
    match resolveEntries s.content.entries [] with
    | .error fault => .error fault
    | .ok entries =>
      match tableEntries fuel s.content.path s 0 next entries (pending.without s) with
      | .error fault => .error fault
      | .ok (entries, pending) =>
        match next? with
        | some t => arrayItems fuel t limit (.table entries :: done) pending
        | none => .ok ((Value.table entries :: done).reverse, pending)

end

/-- The table that sections make up. Each step takes a section or a part of a path. -/
def tableOf (sections : List Section) : Except Fault Value :=
  let sections := sections.filter fun s => !(s.path.isEmpty && s.entries.isEmpty)
  let placed := sections.zipIdx.map fun (s, i) => Placed.mk i s
  let fuel := (sections.map fun s => s.path.length + 2).foldr (· + ·) 1
  match placed with
  | [] => .ok (.table [])
  | leader :: _ =>
    (tableEntries fuel [] leader 0 placed.length [] placed).map fun (entries, _) => .table entries

def read (text : String) : Except Fault Value := do
  tableOf (← sections text)

end Toml
end UtmTiles
