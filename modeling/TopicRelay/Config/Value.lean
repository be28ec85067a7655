/-
  Settings before it is known what they are for.

  A configuration is a table of values by name, and some of the values are tables themselves.  It is
  put together from several sources: what a later source says replaces what an earlier one said, but
  two tables are merged name by name.
-/
namespace TopicRelay.Config

/-- A value in a configuration.  The entries of a table have different names. -/
inductive Value where
  | boolean (b : Bool)
  | integer (n : Int)
  | number (x : Float)
  | text (s : String)
  | list (items : List Value)
  | table (entries : List (String × Value))

/-- The entries of a table, by name. -/
abbrev Table := List (String × Value)

namespace Value

/-- The entries of a table; anything else counts as an empty table. -/
def entries : Value → Table
  | .table entries => entries
  | _ => []

/-- The table with a value at a name, in place of what was there. -/
def replace (name : String) (v : Value) : Table → Table
  | [] => [(name, v)]
  | e :: rest => if e.1 = name then (name, v) :: rest else e :: replace name v rest

mutual

/-- The table with a value at a name, where a table is merged into what was there. -/
def put (name : String) (v : Value) (t : Table) : Table :=
  match v with
  | .table incoming => replace name (mergeInto incoming ((t.lookup name).getD (.table []))) t
  | v => replace name v t
termination_by (sizeOf v, 1)

/-- A value with the entries of a table merged into it. -/
def mergeInto (incoming : Table) (v : Value) : Value :=
  match incoming with
  | [] => v
  | e :: rest => mergeInto rest (.table (put e.1 e.2 v.entries))
termination_by (sizeOf incoming, 0)
decreasing_by
  · obtain ⟨name, v⟩ := e
    apply Prod.Lex.left
    simp only [List.cons.sizeOf_spec, Prod.mk.sizeOf_spec]
    omega
  · apply Prod.Lex.left
    simp only [List.cons.sizeOf_spec]
    omega

end

/-- A value inside of tables that each have one entry. -/
def nested : List String → Value → Value
  | [], v => v
  | name :: rest, v => .table [(name, nested rest v)]

/-- A character that may stand in a name of a path. -/
def isNameChar (c : Char) : Bool := c.isAlphanum || c == ' ' || c == '_' || c == '-'

/-- The names that a path goes through, from its text with points between them.  A text that is no
    path is a single name. -/
def path (text : String) : List String :=
  let names := text.toList.splitOn '.'
  if names.all fun name => !name.isEmpty && name.all isNameChar then names.map String.ofList
  else [text]

/-- The table with a value at a path. -/
def putAt (text : String) (v : Value) (t : Table) : Table :=
  match path text with
  | [] => t
  | name :: rest => put name (nested rest v) t

/-- The tables of some sources merged, the last one having the last word. -/
def merged (sources : List Table) : Table :=
  sources.foldl (fun t source => source.foldl (fun t e => putAt e.1 e.2 t) t) []

end Value
end TopicRelay.Config
