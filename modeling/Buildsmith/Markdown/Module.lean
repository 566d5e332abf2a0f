import Buildsmith.Header.Tree

/-!
# Documentation of modules in Markdown

A module becomes one page with sections for its modules, enumerations, variables, functions and
classes.  Every heading has an anchor of its own: a name that was used before, in any case, gets a
number.
-/

namespace Buildsmith.Markdown

open Data String
open Header (Result)

/-- A part of a page: a heading, or other text. -/
inductive Block where
  | heading (mark title : String)
  | text (s : String)

/-- A part of a page once its headings have anchors. -/
inductive Piece where
  | heading (mark title anchor : String)
  | text (s : String)

def Piece.anchor? : Piece → Option String
  | heading _ _ anchor => some anchor
  | text _ => none

def Piece.render : Piece → String
  | heading mark title anchor => mark ++ " " ++ title ++ " \x7b#" ++ anchor ++ "\x7d\n\n"
  | text s => s

/-- How often names were used. -/
abbrev Uses := List (String × Nat)

def uses (a : Uses) (name : String) : Nat :=
  ((a.find? fun u => u.1 == name).map Prod.snd).getD 0

def countUse (name : String) : Uses → Uses
  | [] => [(name, 1)]
  | (k, n) :: rest => if k == name then (k, n + 1) :: rest else (k, n) :: countUse name rest

def anchorText (title : String) (n : Nat) : String :=
  title ++ if n = 1 then "" else "-" ++ Text.Integer.natText n

/-- Gives anchors to headings, where names were used before. -/
def numbered : Uses → List Block → List Piece
  | _, [] => []
  | a, .text s :: rest => .text s :: numbered a rest
  | a, .heading mark title :: rest =>
    let a := countUse (Text.lower title) a
    .heading mark title (anchorText title (uses a (Text.lower title))) :: numbered a rest

def escapeName (name : String) : String := Text.replace name "_" "\\_"

def cellText (s : String) : String := Text.replace s "\n" "<br>"

def cell (v : Value) : Result String := do
  return cellText (← v.textFor "replace")

def addLead (s lead : String) : String :=
  intercalate "\n" ((Text.splitOn s "\n").map (lead ++ ·))

def isHidden (key : String) : Bool :=
  ["maixpy", "maixcdk", "py_doc", "brief"].contains key

def numberedCells : Nat → List Value → Result String
  | _, [] => .ok ""
  | n, v :: rest => do
    let text ← cell v
    return "**" ++ Text.Integer.natText n ++ "**. " ++ text ++ "<br>" ++
      (← numberedCells (n + 1) rest)

def namedCells : Fields → Result String
  | [] => .ok ""
  | (k, v) :: rest => do
    let text ← cell v
    return "**" ++ k ++ "**: " ++ text ++ "<br>" ++ (← namedCells rest)

def entryRow (key : String) (v : Value) : Result String := do
  let lead := "| **" ++ key ++ "** | "
  match v with
  | .list xs => return lead ++ (← numberedCells 1 xs) ++ "|\n"
  | .record fs => return lead ++ (← namedCells fs) ++ "|\n"
  | v => return lead ++ (← cell v) ++ " |\n"

def entryRows (doc : Value) : Result String := do
  let shown := (← doc.fields).filter fun f => !isHidden f.1
  return join (← shown.mapM fun f => entryRow f.1 f.2)

def hasRows (doc : Value) : Result Bool :=
  match doc with
  | .record fs => .ok (fs.any fun f => !isHidden f.1)
  | v => .error (.unsupported v.kindName "keys")

def tableHead (second : String) : String :=
  "| item | " ++ second ++ " |\n| --- | --- |\n"

def briefParagraph (item : Value) : Result String := do
  (← (← item.field "doc").fieldOr "brief" (.text "")).append "\n\n"

def definitionQuote (item : Value) : Result String := do
  let text ← (← item.field "def").textFor "split"
  return "\n> C++ defination code:\n> ```cpp\n" ++ addLead text "> " ++ "\n> ```\n"

def moduleRow (parent key : String) (item : Value) : Result String := do
  let text ← cell (← (← item.field "doc").field "brief")
  return "| [" ++ escapeName key ++ "](./" ++ parent ++ "/" ++ key ++ ".md) | " ++ text ++ " |\n"

def isOfKind (kind : String) (item : Value) : Result Bool := do
  return (← item.field "type").text? == some kind

/-- What the elements of a list give, one after the other. -/
def gather {α β : Type} (f : α → Result (List β)) : List α → Result (List β)
  | [] => return []
  | x :: xs => do
    let ys ← f x
    return ys ++ (← gather f xs)

def eachMember {α : Type} (kind : String) (f : String → Value → Result (List α)) :
    Fields → Result (List α) :=
  gather fun i => do if ← isOfKind kind i.2 then f i.1 i.2 else return []

def moduleSection (name : String) (members : Fields) : Result String := do
  let rows ← eachMember "module" (fun key item => do return [← moduleRow name key item]) members
  return if rows.isEmpty then "No module\n"
    else "| module | brief |\n| --- | --- |\n" ++ join rows

def valueCell (v : Value) : Result String := do
  let name ← v.item 0
  let text ← cell (← v.item 2)
  return "**" ++ name.display ++ "**: " ++ text ++ "<br>"

def under (mark key : String) (text : Result String) : Result (List Block) := do
  return [.heading mark (escapeName key), .text (← text)]

def enumerationText (item : Value) : Result String := do
  let brief ← briefParagraph item
  let rows ← entryRows (← item.field "doc")
  let values ← (← (← item.field "values").elements).mapM valueCell
  return brief ++ tableHead "describe" ++ rows ++ "| **values** | " ++ join values ++
    (← definitionQuote item)

def variableText (item : Value) : Result String := do
  let brief ← briefParagraph item
  let rows ← entryRows (← item.field "doc")
  let value ← item.field "value"
  let valueRow ←
    if value.isTruthy then do pure ("| **value** | **" ++ (← cell value) ++ "** |\n") else pure ""
  let readonly ← item.field "readonly"
  return brief ++ tableHead "description" ++ rows ++ valueRow ++ "| **readonly**| " ++
    readonly.display ++ " |\n" ++ (← definitionQuote item)

def overloadTitle (key : String) : Option Nat → String
  | none => key
  | some n => key ++ " (overload " ++ Text.Integer.natText (n + 1) ++ ")"

def foreignDefinition (item : Value) : Result String := do
  if ← item.holds "py_def" then
    return "```python\n" ++ (← item.field "py_def").display ++ "\n```\n"
  else return ""

def optionalTable (doc : Value) : Result String := do
  if ← hasRows doc then return tableHead "description" ++ (← entryRows doc) else return ""

def functionText (item : Value) : Result String := do
  let foreign ← foreignDefinition item
  let brief ← briefParagraph item
  let table ← optionalTable (← item.field "doc")
  return foreign ++ brief ++ table ++ (← definitionQuote item)

/-- The blocks for a function and its overloads. -/
def withOverloads (mark key : String) (text : Value → Result String) (item : Value) :
    Result (List Block) := do
  let first ← under mark (overloadTitle key none) (text item)
  if ← item.holds "overload" then
    let overloads ← (← item.field "overload").elements
    return first ++ (← gather (fun o => under mark (overloadTitle key (some o.2)) (text o.1))
      overloads.zipIdx)
  else return first

def classMemberText (item : Value) : Result String := do
  let kind ← item.field "type"
  if kind.text? != some "func" && kind.text? != some "var" then
    throw (.rejected ("class member only support ['func', 'var'] now, but got " ++ kind.display))
  let foreign ← foreignDefinition item
  let brief ← briefParagraph item
  let rows ← entryRows (← item.field "doc")
  let static ← item.field "static"
  let readonly ←
    if kind.text? == some "var" then do
      pure ("| **readonly** | " ++ (← item.field "readonly").display ++ " |\n")
    else pure ""
  return foreign ++ brief ++ tableHead "description" ++ "| **type** | " ++ kind.display ++
    " |\n" ++ rows ++ "| **static** | " ++ static.display ++ " |\n" ++ readonly ++
    (← definitionQuote item)

def classText (item : Value) : Result String := do
  let brief ← briefParagraph item
  let table ← optionalTable (← item.field "doc")
  return brief ++ table ++ (← definitionQuote item) ++ "\n"

def members (item : Value) : Result Fields := do
  (← item.field "members").fields

def classBlocks (key : String) (item : Value) : Result (List Block) := do
  let blocks ← under "###" key (classText item)
  return blocks ++ (← gather (fun m => withOverloads "####" m.1 classMemberText m.2) (← members item))

def pageBrief (item : Value) : Result Value := do
  match ← item.field "doc" with
  | .text s => return .text s
  | v => v.field "brief"

def page (parents : List String) (name start join : String) (item : Value) :
    Result (List Block) := do
  let brief ← pageBrief item
  let top := "---\ntitle: " ++ intercalate join parents ++ join ++ name ++ "\n---\n\n" ++
    brief.display ++ "\n\n" ++ start
  let items ← members item
  let modules ← moduleSection name items
  let enums ← eachMember "enum" (fun key item => under "###" key (enumerationText item)) items
  let ownVariables ← eachMember "var" (fun key item => under "###" key (variableText item)) items
  let functions ← eachMember "func" (fun key => withOverloads "###" key functionText) items
  let classes ← eachMember "class" classBlocks items
  let opening (title : String) : List Block := [.text "\n\n", .heading "##" title]
  return [.text top, .heading "##" "Module", .text modules] ++ opening "Enum" ++ enums ++
    opening "Variable" ++ ownVariables ++ opening "Function" ++ functions ++ opening "Class" ++ classes

def moduleText (parents : List String) (name start join : String) (item : Value) :
    Result String := do
  return String.join ((numbered [] (← page parents name start join item)).map Piece.render)

/-! ## Short pages -/

def briefOr (doc : Value) : Result Value :=
  match doc with
  | .record _ => doc.fieldOr "brief" (.text "")
  | _ => .ok (.text "")

def paragraph (v : Value) : String :=
  if v.isTruthy then v.display ++ "\n\n" else ""

def kindMembers (kind : String) (members : Fields) : Result Fields :=
  members.filterM fun f => do return (← f.2.fieldOr "type" .null).text? == some kind

def parameterDoc (doc name : Value) : Result String := do
  match doc with
  | .record _ =>
    match ← doc.fieldOr "param" (.record []), name with
    | .record fs, .text s => return ((Fields.get? fs s).getD (.text "")).display
    | .record _, .list _ => throw (.unsuited "unhashable type: 'list'")
    | .record _, .record _ => throw (.unsuited "unhashable type: 'dict'")
    | .record _, _ => return ""
    | v, _ => throw (.unsupported v.kindName "get")
  | _ => return ""

def parameterLine (doc arg : Value) : Result String := do
  let name ← arg.item 1
  let text ← parameterDoc doc name
  let type ← arg.item 0
  return "- `" ++ name.display ++ "` (" ++ type.display ++ "): " ++ text ++ "\n"

def declaredParameter (arg : Value) : Result String := do
  let type ← arg.item 0
  let name ← arg.item 1
  return type.display ++ " " ++ name.display

def functionOutline (name : String) (item : Value) : Result String := do
  let doc ← item.fieldOr "doc" (.record [])
  let brief ← briefOr doc
  let args ← item.fieldOr "args" (.list [])
  let list := intercalate ", " (← (← args.elements).mapM declaredParameter)
  let type ← item.fieldOr "ret_type" (.text "void")
  let parameters ←
    if args.isTruthy then do
      pure ("**Parameters:**\n\n" ++ join (← (← args.elements).mapM (parameterLine doc)) ++
        "\n")
    else pure ""
  return "### " ++ name ++ "\n\n```cpp\n" ++ type.display ++ " " ++ name ++ "(" ++ list ++
    ")\n```\n\n" ++ paragraph brief ++ parameters

def briefOutline (name : String) (item : Value) : Result String := do
  let brief ← briefOr (← item.fieldOr "doc" (.record []))
  return "### " ++ name ++ "\n\n" ++ paragraph brief

def valueRow (v : Value) : Result String := do
  let name ← v.item 0
  let text ← if (← v.size) > 2 then v.item 2 else pure (.text "")
  return "| `" ++ name.display ++ "` | " ++ text.display ++ " |\n"

def enumerationOutline (name : String) (item : Value) : Result String := do
  let head ← briefOutline name item
  let values ← item.fieldOr "values" (.list [])
  if values.isTruthy then
    let rows ← (← values.elements).mapM valueRow
    return head ++ "| Value | Description |\n| --- | --- |\n" ++ join rows ++ "\n"
  else return head

def outlineSection (title kind : String) (f : String → Value → Result String) (members : Fields) :
    Result String := do
  let found ← kindMembers kind members
  if found.isEmpty then return ""
  return "## " ++ title ++ "\n\n" ++ join (← found.mapM fun m => f m.1 m.2)

def moduleOutline (parents : List String) (name start : String) (item : Value) :
    Result String := do
  let brief ← match ← item.fieldOr "doc" (.record []) with
    | .record fs => (Value.record fs).fieldOr "brief" (.text "")
    | v => pure (.text v.display)
  let members ← (← item.fieldOr "members" (.record [])).fields
  let functions ← outlineSection "Functions" "func" functionOutline members
  let classes ← outlineSection "Classes" "class" briefOutline members
  let enums ← outlineSection "Enums" "enum" enumerationOutline members
  let ownVariables ← outlineSection "Variables" "var" briefOutline members
  return "# " ++ intercalate "." parents ++ "." ++ name ++ "\n\n" ++ start ++
    (if brief.isTruthy then "\n" ++ brief.display ++ "\n\n" else "") ++
    functions ++ classes ++ enums ++ ownVariables

end Buildsmith.Markdown
