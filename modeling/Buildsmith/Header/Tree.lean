import Buildsmith.Header.Item

/-!
# Trees of published items

All items of a library form a tree of modules.  Each header adds its items to the tree; modules that
no header documents are added on the way.

A header that fails may have changed the tree already, so the tree survives a failure.
-/

namespace Buildsmith.Header

open Data Fields Text

/-- Why a header adds nothing. -/
inductive Refusal where
  | fault (f : Fault)
  /-- The header is refused with a message. -/
  | refused (text : String)
  deriving Repr

/-- The tree so far, and what was printed. -/
structure Library where
  tree : Value := .record []
  out : String := ""

abbrev LibraryM := ExceptT Refusal (StateM Library)

def orFail {α : Type} : Result α → LibraryM α
  | .ok a => return a
  | .error f => throw (.fault f)

def printLine (s : String) : LibraryM Unit :=
  modify fun l => { l with out := l.out ++ s ++ "\n" }

/-- A header. -/
structure Source where
  code : String
  /-- The name that is shown. -/
  name : Option String := none
  path : Option String := none
  /-- The module at the top. -/
  module_ : String := "maix"
  /-- The keys of the entries that name published items. -/
  tags : List String := ["module"]

def completed (code name : String) (item : Fields) : Except Fault Unit × Fields :=
  (complete code name).run.run item

def inRed (s : String) : String := "\x1b[1;31m" ++ s ++ "\x1b[0m"

def briefOf (item : Fields) : String :=
  match (do (← (Value.record item).field "doc").field "brief" : Result Value) with
  | .ok v => v.display
  | .error _ => ""

def clashText (code name : String) (new old : Fields) : String :=
  let (first, new) := completed code name new
  let (second, old) := match first with
    | .ok _ => completed code name old
    | .error f => (.error f, old)
  let definition (item : Fields) : String :=
    match first, second with
    | .ok _, .ok _ => ((get? item "def").map Value.display).getD ""
    | _, _ => ""
  let section_ (title : String) (item : Fields) : String :=
    inRed title ++ ":\n  \x1b[1;33m" ++ definition item ++ "\x1b[0m\n    brief: " ++ briefOf item ++
      "\n    info: " ++ (Value.record item).literal
  "parse_api error:\n\nAPI " ++ inRed (" " ++ name ++ " ") ++ " multiple defined !!!\n\n" ++
    section_ "One" new ++ ",\n\n" ++ section_ "Another" old ++ "\n"

def addOverload (new old : Fields) : Fields :=
  match get? old "overload" with
  | some (.list xs) => put "overload" (.list (xs ++ [.record new])) old
  | _ => put "overload" (.list [.record new]) old

def collectItems (s : Source) : List NamedItem → List Fields → LibraryM (List NamedItem)
  | items, [] => return items
  | items, comment :: rest => do
    match ← orFail (itemOf? s.tags comment) with
    | none => collectItems s items rest
    | some (name, item) =>
      match items.find? fun i => i.1 == name with
      | none => collectItems s (items ++ [(name, item)]) rest
      | some (_, old) =>
        if s.tags.length = 1 then throw (.refused (clashText s.code name item old))
        printLine ("-- API " ++ name ++ " is overloaded")
        let items := items.map fun i => if i.1 == name then (name, addOverload item old) else i
        collectItems s items rest

def completeItem (s : Source) (name : String) (item : Fields) : LibraryM Fields := do
  match completed s.code name item with
  | (.ok _, item) => return item
  | (.error f, _) => throw (.fault f)

def completeOverload (s : Source) (name : String) : Value → LibraryM Value
  | .record fs => return .record (← completeItem s name fs)
  | v => return v

def finishItem (s : Source) (i : NamedItem) : LibraryM NamedItem := do
  let (name, item) := i
  let item ← completeItem s name item
  let last := (splitOn name ".").getLast?.getD name
  let declared := ((get? item "name").map Value.display).getD ""
  if !startsWith last "__" && declared ≠ last then
    throw (.refused ("API name \x1b[1;31m" ++ name ++
      " \x1b[0m not match with code definition name " ++ inRed declared ++ ", def: " ++
      ((get? item "def").map Value.display).getD ""))
  match get? item "overload" with
  | some (.list xs) =>
    return (name, put "overload" (.list (← xs.mapM (completeOverload s name))) item)
  | _ => return (name, item)

def emptyTree (top : String) : Value :=
  .record [("type", .text "top_module"),
    ("members", .record [(top,
      .record [("type", .text "module"),
        ("doc", .record [("breif", .text "MaixPy C/C++ API from MaixCDK")]),
        ("members", .record [])])])]

def addedModule (key : String) : Fields :=
  [("type", .text "module"), ("doc", .record [("brief", .text (key ++ " module"))]),
    ("members", .record []), ("auto_add", .flag true)]

def leads {α : Type} : List α → List (List α)
  | [] => []
  | x :: xs => [x] :: (leads xs).map (x :: ·)

def addModules (s : Source) (items : List NamedItem) (name : String) :
    LibraryM (List NamedItem × List String) := do
  let keys := (leads (splitOn name ".")).map (String.intercalate ".")
  let missing := keys.filter fun k => items.all fun i => i.1 != k
  missing.forM fun k =>
    if k = s.module_ then return ()
    else printLine ("-- Auto add module " ++ k ++ ", < " ++ s.name.getD "None" ++ " >")
  return (items ++ missing.map fun k => (k, addedModule k), missing)

/-- The items with all modules around them added, and all names in the order in which they enter
the tree. -/
def addAllModules (s : Source) :
    List NamedItem → List String → LibraryM (List NamedItem × List String)
  | items, [] => return (items, [])
  | items, name :: rest => do
    if (splitOn name ".").head? ≠ some s.module_ then
      throw (.refused ("API name must start with " ++ s.module_ ++ ", api: " ++ name ++ " "))
    let (items, added) ← addModules s items name
    let (items, later) ← addAllModules s items rest
    return (items, added ++ name :: later)

def memberAt (tree : Value) : List String → Result Value
  | [] => .ok tree
  | n :: ns => do memberAt (← (← tree.field "members").field n) ns

def putMember (node : Value) (name : String) : List String → Value → Result Value
  | [], tree => do
    tree.withField "members" (← (← tree.field "members").withField name node)
  | n :: ns, tree => do
    let members ← tree.field "members"
    tree.withField "members" (← members.withField n (← putMember node name ns (← members.field n)))

def membersBelow (parents : List String) : LibraryM Value := do
  let tree := (← get).tree
  orFail do (← memberAt tree parents).field "members"

def place (parents : List String) (name : String) (node : Value) : LibraryM Unit := do
  let tree ← orFail (putMember node name parents (← get).tree)
  modify fun l => { l with tree }

def freePlace (s : Source) (key : String) : LibraryM (List String × String) := do
  let names := splitOn key "."
  let parents := names.dropLast
  let name := names.getLast?.getD key
  let members ← membersBelow parents
  if ← orFail (members.holds name) then
    let old ← orFail (members.field name)
    let places ←
      if ← orFail (old.holds "header_path") then do
        let path ← orFail (old.field "header_path")
        pure (": " ++ inRed path.display ++ " and " ++ inRed (s.path.getD "None"))
      else pure ""
    throw (.fault (.rejected ("parse_api error: " ++ inRed key ++
      " multiple define in different headers" ++ places)))
  return (parents, name)

def itemField (item : Fields) (key : String) : LibraryM Value :=
  orFail ((Value.record item).field key)

def itemOption (item : Fields) (key : String) : LibraryM Value := do
  orFail ((← itemField item "kv").fieldOr key (.flag false))

def functionNode (s : Source) (item : Fields) : LibraryM Fields := do
  return [("type", .text "func"), ("name", ← itemField item "name"), ("doc", ← itemField item "doc"),
    ("args", ← itemField item "args"), ("ret_type", ← itemField item "ret_type"),
    ("static", ← itemOption item "static"), ("def", ← itemField item "def"),
    ("header_path", optionalText s.path)]

def placeOverloads (s : Source) (parents : List String) (name : String) (node : Fields) :
    List Value → List Value → LibraryM Unit
  | _, [] => return ()
  | done, o :: rest => do
    let item ← orFail o.fields
    let done := done ++ [.record (← functionNode s item)]
    place parents name (.record (put "overload" (.list done) node))
    placeOverloads s parents name node done rest

def placeFunction (s : Source) (key : String) (item : Fields) : LibraryM Unit := do
  let (parents, name) ← freePlace s key
  let node ← functionNode s item
  place parents name (.record node)
  match get? item "overload" with
  | some (.list xs) =>
    place parents name (.record (put "overload" (.list []) node))
    placeOverloads s parents name node [] xs
  | _ => return ()

/-- Puts a class, an enumeration or a variable into the tree; the fields are those between the
comment and the definition. -/
def placeNode (s : Source) (key kind : String) (item : Fields)
    (between : LibraryM Fields) : LibraryM Unit := do
  let (parents, name) ← freePlace s key
  let head : Fields := [("type", .text kind), ("name", ← itemField item "name"),
    ("doc", ← itemField item "doc")]
  let more ← between
  place parents name (.record (head ++ more ++
    [("def", ← itemField item "def"), ("header_path", optionalText s.path)]))

/-- Visits a module on the way down: it is added if it is not there, and completed if nothing
documented it so far. -/
def visitModule (items : List NamedItem) (names : List String) : LibraryM Unit := do
  let key := String.intercalate "." names
  let parents := names.dropLast
  let name := names.getLast?.getD ""
  match items.find? fun i => i.1 == key with
  | none => throw (.fault (.missing key))
  | some (_, item) =>
    let doc ← itemField item "doc"
    let members ← itemField item "members"
    let isAdded := (get? item "auto_add").getD (.flag false)
    let siblings ← membersBelow parents
    if !(← orFail (siblings.holds name)) then
      place parents name (.record [("type", .text "module"), ("doc", doc), ("members", members),
        ("auto_add", isAdded)])
    else
      let old ← orFail (siblings.field name)
      if ← orFail (old.holds "auto_add") then
        if (← orFail (old.field "auto_add")).isTruthy && !isAdded.isTruthy then
          let merged := putAll (← orFail do (← old.field "members").fields)
            (← orFail members.fields)
          let node ← orFail do (← old.withField "doc" doc).withField "members" (.record merged)
          place parents name node

def placeItem (s : Source) (items : List NamedItem) (key : String) :
    LibraryM (List NamedItem) := do
  match items.find? fun i => i.1 == key with
  | none => throw (.fault (.missing key))
  | some (_, item) =>
    match get? item "type" with
    | some (.text "module") =>
      let item := if has item "name" then item
        else put "name" (.text (replace key "." "::")) item
      let item := if has item "members" then item
        else put "members" (.record []) item
      let items := items.map fun i => if i.1 == key then (key, item) else i
      (leads (splitOn key ".")).forM (visitModule items)
      return items
    | some (.text "var") =>
      placeNode s key "var" item do
        return [("value", ← itemField item "value"), ("static", ← itemOption item "static"),
          ("readonly", ← itemOption item "readonly")]
      return items
    | some (.text "class") =>
      placeNode s key "class" item (pure [("members", .record [])])
      return items
    | some (.text "enum") =>
      placeNode s key "enum" item do return [("values", ← itemField item "values")]
      return items
    | _ =>
      placeFunction s key item
      return items

def placeItems (s : Source) : List NamedItem → List String → LibraryM Unit
  | _, [] => return ()
  | items, key :: rest => do
    let items ← placeItem s items key
    placeItems s items rest

/-- What a header adds: whether it adds anything, and the names of its items. -/
structure Addition where
  isUpdated : Bool
  keys : List String
  deriving Repr

/-- The items that a header documents. -/
def readItems (s : Source) : LibraryM (List NamedItem) := do
  let comments ← orFail (readComments s.code true)
  let items ← collectItems s [] comments
  items.mapM (finishItem s)

def started (s : Source) (l : Library) : Library :=
  match l.tree with
  | .record [] => { l with tree := emptyTree s.module_ }
  | _ => l

/-- Puts items into a tree. -/
def addItems (s : Source) (items : List NamedItem) : LibraryM Addition := do
  let depth (k : String) : Nat := (splitOn k ".").length
  let keys := (items.map Prod.fst).mergeSort fun a b => depth a ≤ depth b
  let (items, order) ← addAllModules s items keys
  placeItems s items order
  return { isUpdated := !order.isEmpty, keys }

def addHeader (s : Source) : LibraryM Addition := do
  let items ← readItems s
  modify (started s)
  addItems s items

end Buildsmith.Header
