/-
  A settings file as a whole.

  A file is a list of lines: entries, and headers that open a table for the entries after them.
  `Item` is what stands at a name while the file is read.  It remembers how a table came about,
  because that decides whether more may be put into it:

  * a table that a header opened, or that is a value, is closed to all other lines;
  * a table that is only on the way to another one may still be opened by a header of its own, once;
  * a table that the points in a name made may be added to by further such names.
-/
import TopicRelay.Config.Toml.Lexeme

namespace TopicRelay.Config.Toml

/-! ## Tables under construction -/

/-- What stands at a name. -/
inductive Item where
  | value (v : Value)
  /-- A table; whether it is only on the way to another, and whether the points of a name made it. -/
  | table (isImplicit isDotted : Bool) (entries : List (String × Item))
  /-- A list of tables, the last one first. -/
  | series (tables : List Item)

namespace Item

/-- A table that a header opens. -/
def opened : Item := .table false false []

mutual

/-- The value that an item comes to. -/
def toValue : Item → Value
  | .value v => v
  | .table _ _ entries => .table (toEntries entries)
  | .series tables => .list (toValues tables).reverse
termination_by i => sizeOf i

/-- The values of some items by name. -/
def toEntries : List (String × Item) → List (String × Value)
  | [] => []
  | (name, i) :: rest => (name, toValue i) :: toEntries rest
termination_by entries => sizeOf entries

/-- The values of some items. -/
def toValues : List Item → List Value
  | [] => []
  | i :: rest => toValue i :: toValues rest
termination_by items => sizeOf items

end

/-- The entries with an item at a name, in place of what was there. -/
def replace (name : String) (i : Item) : List (String × Item) → List (String × Item)
  | [] => [(name, i)]
  | e :: rest => if e.1 = name then (name, i) :: rest else e :: replace name i rest

/-- Changes the table that a path leads to, through the last table of any list on the way.  Tables
    that are not there are made; a path with points goes only through tables that may be added to. -/
def within {α : Type} (isDotted : Bool) (change : Item → Option (α × Item)) :
    List String → Item → Option (α × Item)
  | [], t => change t
  | name :: path, .table i d entries =>
    match entries.lookup name with
    | none => (within isDotted change path (.table true isDotted [])).map fun (a, t) =>
        (a, .table i d (replace name t entries))
    | some (.value _) => none
    | some (.table i' d' inner) =>
      if isDotted && !i' then none
      else (within isDotted change path (.table i' d' inner)).map fun (a, t) =>
        (a, .table i d (replace name t entries))
    | some (.series []) => none
    | some (.series (last :: earlier)) => (within isDotted change path last).map fun (a, t) =>
        (a, .table i d (replace name (.series (t :: earlier)) entries))
  | _, _ => none

/-- Puts a value at a name that is still free. -/
def add (hasPath : Bool) (name : String) (v : Value) : Item → Option (Unit × Item)
  | .table i d entries =>
    if d != hasPath || (entries.lookup name).isSome then none
    else some ((), .table i d (replace name (.value v) entries))
  | _ => none

/-- Puts a value at a name with points. -/
def addAt (names : List String) (v : Value) (t : Item) : Option Item :=
  match names.reverse with
  | [] => none
  | name :: path => (within true (add (!path.isEmpty) name v) path.reverse t).map Prod.snd

/-- Takes a table out, to put entries into it: one that is on the way to others, or a new one. -/
def takeOut (name : String) : Item → Option (Item × Item)
  | .table i d entries => match entries.lookup name with
    | none => some (opened, .table i d entries)
    | some (.table true false inner) =>
      some (.table false false inner, .table i d (entries.filter (·.1 != name)))
    | _ => none
  | _ => none

/-- Puts a table at a name. -/
def putBack (name : String) (t : Item) : Item → Option (Unit × Item)
  | .table i d entries => some ((), .table i d (replace name t entries))
  | _ => none

/-- Puts a table at the end of the list at a name. -/
def append (name : String) (t : Item) : Item → Option (Unit × Item)
  | .table i d entries => match entries.lookup name with
    | none => some ((), .table i d (replace name (.series [t]) entries))
    | some (.series tables) => some ((), .table i d (replace name (.series (t :: tables)) entries))
    | _ => none
  | _ => none

/-- Whether a list of tables stands at a name, or nothing does. -/
def isSeriesAt (name : String) : Item → Option (Bool × Item)
  | .table i d entries => match entries.lookup name with
    | none => some (true, .table i d entries)
    | some (.series _) => some (true, .table i d entries)
    | _ => some (false, .table i d entries)
  | _ => none

end Item

/-! ## Values -/

/-- How deep lists and tables may be put into one another. -/
def maxDepth : Nat := 79

mutual

/-- A value, at most `depth` lists and tables deep.  The fuel is used up by what is read. -/
def value? (fuel depth : Nat) : Front Value := fun s =>
  match fuel, depth, s with
  | fuel + 1, depth + 1, '[' :: rest =>
    (items? fuel depth [] (skipSpace fuel rest)).map fun (vs, r) => (.list vs, r)
  | fuel + 1, depth + 1, '{' :: rest =>
    match skipBlanks rest with
    -- only a table with no entries may end here; after a comma an entry has to follow
    | '}' :: rest => some (.table [], rest)
    | rest => (pairs? fuel depth .opened rest).map fun (t, r) => (t.toValue, r)
  | _, _, s => match text? s with
    | some (t, rest) => some (.text t, rest)
    | none =>
      let (w, rest) := word s
      (ofWord? w).map fun v => (v, rest)

/-- The rest of a list; `seen` are the values read of it, in reverse. -/
def items? (fuel depth : Nat) (seen : List Value) : Front (List Value) := fun s =>
  match fuel, s with
  -- a list may end after a comma too
  | _, ']' :: rest => some (seen.reverse, rest)
  | fuel + 1, s => (value? fuel depth s).bind fun (v, rest) =>
    match skipSpace fuel rest with
    | ',' :: rest => items? fuel depth (v :: seen) (skipSpace fuel rest)
    | ']' :: rest => some ((v :: seen).reverse, rest)
    | _ => none
  | 0, _ => none

/-- The rest of a table on one line, from an entry on. -/
def pairs? (fuel depth : Nat) (t : Item) : Front Item := fun s =>
  match fuel with
  | fuel + 1 => (assignment? fuel depth s).bind fun ((names, v), rest) =>
    (t.addAt names v).bind fun t => match skipBlanks rest with
      | ',' :: rest => pairs? fuel depth t (skipBlanks rest)
      | '}' :: rest => some (t, rest)
      | _ => none
  | 0 => none

/-- A name, an equals sign and a value. -/
def assignment? (fuel depth : Nat) : Front (List String × Value) := fun s =>
  match fuel with
  | fuel + 1 => (names? (s.length + 1) s).bind fun (names, rest) =>
    match skipBlanks rest with
    | '=' :: rest => (value? fuel depth (skipBlanks rest)).map fun (v, r) => ((names, v), r)
    | _ => none
  | 0 => none

end

/-! ## Lines -/

/-- A file in the middle: the table that is open is kept apart from all others. -/
structure Draft where
  root : Item
  /-- The names that lead to the open table. -/
  path : List String
  /-- Whether the open table will be the last of a list. -/
  isSeries : Bool
  current : Item

namespace Draft

/-- A file of which nothing has been read. -/
def start : Draft := ⟨.opened, [], false, .opened⟩

/-- All tables, the open one put in its place. -/
def close (d : Draft) : Option Item :=
  match d.path.reverse with
  | [] => some d.current
  | name :: path =>
    let change := if d.isSeries then Item.append name d.current else Item.putBack name d.current
    (Item.within false change path.reverse d.root).map Prod.snd

/-- Opens the table that some names lead to. -/
def openTable (d : Draft) (names : List String) : Option Draft :=
  d.close.bind fun root => match names.reverse with
    | [] => none
    | name :: path => (Item.within false (Item.takeOut name) path.reverse root).map fun (t, root) =>
        ⟨root, names, false, t⟩

/-- Opens a new table at the end of the list that some names lead to. -/
def openNext (d : Draft) (names : List String) : Option Draft :=
  d.close.bind fun root => match names.reverse with
    | [] => none
    | name :: path => (Item.within false (Item.isSeriesAt name) path.reverse root).bind
        fun (isFree, root) => if isFree then some ⟨root, names, true, .opened⟩ else none

/-- Takes in one line, and gives the text after it. -/
def line? (d : Draft) (s : List Char) : Option (Draft × List Char) :=
  match s with
  | '[' :: '[' :: rest => do
    let (names, rest) ← names? (rest.length + 1) (skipBlanks rest)
    match skipBlanks rest with
    | ']' :: ']' :: rest => some (← d.openNext names, ← afterLine? rest)
    | _ => none
  | '[' :: rest => do
    let (names, rest) ← names? (rest.length + 1) (skipBlanks rest)
    match skipBlanks rest with
    | ']' :: rest => some (← d.openTable names, ← afterLine? rest)
    | _ => none
  | s => do
    let ((names, v), rest) ← assignment? (4 * s.length + 4) (maxDepth + 1) s
    some ({ d with current := ← d.current.addAt names v }, ← afterLine? rest)

/-- Takes in the lines of a text, at most `fuel` of them. -/
def lines? : Nat → Draft → List Char → Option Draft
  | 0, _, _ => none
  | fuel + 1, d, s => match skipSpace (s.length + 1) (skipBlanks s) with
    | [] => some d
    | s => (d.line? s).bind fun (d, rest) => lines? fuel d rest

end Draft

/-- The table that a file holds, unless the file is malformed.  A byte-order mark may come first. -/
def read? (file : String) : Option Table :=
  let s := match file.toList with
    | '\uFEFF' :: rest => rest
    | s => s
  (Draft.start.lines? (s.length + 1) s).bind fun d => d.close.map fun t => t.toValue.entries

end TopicRelay.Config.Toml
