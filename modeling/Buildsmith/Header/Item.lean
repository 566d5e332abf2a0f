import Buildsmith.Header.Definition

/-!
# Documented items

An item is a documented definition: the name under which it is published, the comment on it, and
what its definition says.  Items are records, because comments may bring fields of any name.
-/

namespace Buildsmith.Header

open Data Text Fields

/-!
## Comments

A comment holds a brief text and then entries, each with a key behind an at sign and a value that
may take several lines.
-/

/-- The contents of the documentation comments of a text; inside one, `body` is what was read of
it, reversed. -/
def commentBodies : Option (List Char) → List Char → List String
  | none, '/' :: '*' :: '*' :: rest => commentBodies (some []) rest
  | none, _ :: rest => commentBodies none rest
  | some body, '*' :: '/' :: rest => String.ofList body.reverse :: commentBodies none rest
  | some body, c :: rest => commentBodies (some (c :: body)) rest
  | _, [] => []

/-- Drops the stars at the start of lines; with `wide`, only stars in front of blanks, and up to
three of these. -/
def dropMargins (wide : Bool) : Nat → List Char → List Char
  | _, [] => []
  | skip + 1, _ :: cs => dropMargins wide skip cs
  | 0, c :: cs =>
    if c ≠ '\n' then c :: dropMargins wide 0 cs
    else
      let lead := cs.takeWhile isBlank
      match cs.drop lead.length with
      | '*' :: rest =>
        let gap := (rest.take 3).takeWhile isBlank
        if wide then
          if gap.isEmpty then c :: dropMargins wide 0 cs
          else c :: dropMargins wide (lead.length + 1 + gap.length) cs
        else c :: dropMargins wide (lead.length + 1) cs
      | _ => c :: dropMargins wide 0 cs

def commentText (body : String) : String :=
  trim (String.ofList (dropMargins false 0 (dropMargins true 0 body.toList)))

def partsAt (s sep : String) : String × Option String :=
  match cut? s sep with
  | some (a, b) => (a, some b)
  | none => (s, none)

def parameterEntry (key value : String) : Result (String × String × String) :=
  let pieces := splitOn key "["
  let direction := (pieces[1]?.map fun d => slice d 0 (-1)).getD ""
  let byLine := partsAt value "\n"
  let byWord := partsAt value " "
  match if byLine.1.length < byWord.1.length then byLine else byWord with
  | (_, none) => .error (.rejected "param must have detail description, DO NOT lazy!!")
  | (name, some text) =>
    let lead := if direction.isEmpty then "" else "direction [" ++ direction ++ "], "
    .ok (pieces.head?.getD key, name, lead ++ trim text)

def entryParts (key value : String) : Result (String × String × String) :=
  if startsWith key "param" then parameterEntry key value
  else if startsWith key "retval" then
    match cut? value " " with
    | none => .error (.rejected "retval must have detail description, DO NOT lazy!!")
    | some (name, text) => .ok (key, name, text)
  else .ok (key, "", value)

def addEntry (item : Fields) (key value whole : String) : Result Fields := do
  let (key, name, value) ← entryParts key value
  match get? item key with
  | none =>
    if name.isEmpty then return put key (.text value) item
    else return put key (.record [(name, .text value)]) item
  | some old =>
    if name.isEmpty then
      match old with
      | .list xs => return put key (.list (xs ++ [.text value])) item
      | old => return put key (.list [old, .text value]) item
    else
      match old with
      | .record fs => return put key (.record (put name (.text value) fs)) item
      | _ =>
        throw (.rejected ("-- Comment error, check comment format,\nkey: " ++ key ++
          ",\ncomment: " ++ whole))

def entryKey (line : String) : Result String :=
  match (line.toList.drop 1).takeWhile (!isBlank ·) with
  | [] => .error .listRange
  | key => .ok (String.ofList key)

/-- Reads entries line by line; `key` and `value` are those of the entry that is being read. -/
def readEntries (whole : String) :
    Option String → List String → Fields → List String → Result Fields
  | key, value, item, [] =>
    match key with
    | some k => addEntry item k (String.intercalate "\n" value) whole
    | none => .ok item
  | key, value, item, line :: rest => do
    let line := trim line
    if startsWith line "@" then
      let item ← match key with
        | some k => addEntry item k (String.intercalate "\n" value) whole
        | none => pure item
      let value := if key.isSome then [] else value
      let next ← entryKey line
      let text := trim (dropFirst (next.length + 1) line)
      readEntries whole (some next) (value ++ [text]) item rest
    else readEntries whole key (value ++ [line]) item rest

def extend (v : Value) (s : String) : Result Value :=
  match v with
  | .text t => .ok (.text (t ++ s))
  | .list xs => .ok (.list (xs ++ s.toList.map fun c => .text (String.ofList [c])))
  | v => .error (.unsuited ("unsupported operand type(s) for +=: '" ++ v.kindName ++ "' and 'str'"))

def extendByFields (v : Value) : Fields → Result Value
  | [] => .ok v
  | (k, x) :: rest => do
    extendByFields (← extend v ("  - " ++ k ++ ": " ++ x.display ++ "\n")) rest

def helpText (item : Fields) : Result Value := do
  let brief := (get? item "brief").getD (.text "")
  let params := (get? item "param").getD (.record [])
  let returned := (get? item "return").getD (.text "")
  let values := (get? item "retval").getD (.record [])
  let doc ←
    if (← params.size) > 0 then do
      let doc ← extend brief "\n\nArgs:\n"
      extendByFields doc ((← params.fields).filter fun f => f.1 != "brief")
    else pure brief
  if returned.isTruthy || (← values.size) > 0 then
    let doc ← extend doc ("\n\nReturns: " ++ returned.display ++ "\n")
    extendByFields doc (← values.fields)
  else return doc

/-- Adds the text for help systems to a comment; a list of brief texts is shared with it. -/
def addHelpText (item : Fields) : Result Fields := do
  let doc ← helpText item
  let item := match get? item "brief" with
    | some (.list _) => put "brief" doc item
    | _ => item
  return put "py_doc" doc item

def readComment (code body : String) (withHelp : Bool) : Result Fields := do
  let start := (find? code ("/**" ++ body ++ "*/")).getD 0
  let text := commentText body
  let item : Fields := [("start_idx", .number start)]
  match find? text "@" with
  | none => return [("brief", .text text)]
  | some n =>
    let (item, entries) :=
      if n = 0 then (item, text)
      else
        (put "brief" (.text (trim (takeFirst n text))) item, dropFirst n text)
    let item ← readEntries entries none [] item (splitOn entries "\n")
    if withHelp then addHelpText item else return item

def readComments (code : String) (withHelp : Bool) : Result (List Fields) :=
  (commentBodies none code.toList).mapM fun body => readComment code body withHelp

def readApiEntry (entry : String) : String × Fields :=
  let lines := splitOn entry "\n"
  let options := (lines.drop 1).filter fun l => startsWith l ":" && l.length > 1
  let kv := options.foldl
    (fun fs l =>
      match partsAt (trim (dropFirst 1 l)) " " with
      | (key, none) => put key (.flag true) fs
      | (key, some value) => put key (.text value) fs)
    ([] : Fields)
  (trim (lines.head?.getD ""), kv)

/-! ## Items -/

/-- Computations that complete an item; what was found stays if they fail. -/
abbrev ItemM := ExceptT Fault (StateM Fields)

def setField (key : String) (v : Value) : ItemM Unit :=
  modify (put key v)

def setOption (key : String) : ItemM Unit := do
  match get? (← get) "kv" with
  | some options => setField "kv" (← options.withField key (.flag true))
  | none => throw (.missing "kv")

def offsetFrom (s part : String) (start : Int) : Int :=
  let i := placeIn s.length start
  match find? (dropFirst i s) part with
  | some n => n + i
  | none => -1

/-- The text from the line behind a comment on; the comment starts at a position and holds a
name. -/
def codeBehind (code name : String) (start : Int) : String :=
  let text := slice code start code.length
  let named := offset text name
  let closed := offsetFrom text "*/" named + 2
  let line := offsetFrom text "\n" closed + 1
  slice text line text.length

def nameBehind (keywords : List String) (definition : String) : Result String := do
  let words := words (firstLine definition)
  let keyword := (keywords.find? words.contains).getD (keywords.getLast?.getD "")
  match words.findIdx? (· = keyword) with
  | none => throw (.notListed keyword)
  | some i =>
    match words[i + 1]? with
    | none => throw .listRange
    | some word =>
      let word := (partsAt word ":").1
      return (partsAt word "\x7b").1

def optionalText : Option String → Value
  | some s => .text s
  | none => .null

def Parameter.toValue (p : Parameter) : Value :=
  .list [.text p.type, .text p.name, optionalText p.value]

def Enumerator.toValue (e : Enumerator) : Value :=
  .list [.text e.name, .text e.value, .text e.comment]

def completeFrom (d : Definition) : ItemM Unit := do
  setField "type" (.text d.kind.name)
  match d.kind with
  | .classLike => setField "name" (.text (← nameBehind ["class", "struct"] d.text))
  | .enumeration =>
    setField "values" (.list ((enumeratorsOf d.text).map Enumerator.toValue))
    setField "name" (.text (← nameBehind ["class", "enum"] d.text))
  | .function =>
    let s ← Signature.parse d.text
    setField "name" (.text s.name)
    setField "args" (.list (s.parameters.map Parameter.toValue))
    setField "ret_type" (.text s.returns)
  | .value =>
    let (name, value) ← variableParts d.text
    setField "name" (.text name)
    setField "value" (optionalText value)
    if startsWith d.text "const" then setOption "readonly"
  | .space =>
    match (words d.text)[1]? with
    | none => throw .listRange
    | some word => setField "name" (.text ((splitOn word ":").getLast?.getD word))
  if startsWith d.text "static" then setOption "static"
  setField "def" (.text d.text)

def complete (code name : String) : ItemM Unit := do
  match get? (← get) "start_idx" with
  | some (.number start) => completeFrom (← definitionOf (codeBehind code name start))
  | some _ =>
    throw (.unsuited "slice indices must be integers or None or have an __index__ method")
  | none => throw (.missing "start_idx")

abbrev NamedItem := String × Fields

def escapeBrief (s : String) : String :=
  replace (replace (replace (replace s "\"" "\\\"") "\n" "\\n") "\r" "\\r")
    "\t" "\\t"

def itemOf? (tags : List String) (comment : Fields) : Result (Option NamedItem) := do
  match (tags.filter (has comment)).getLast? with
  | none => return none
  | some tag =>
    if tag.isEmpty then return none
    match get? comment "brief" with
    | none =>
      throw (.rejected ("-- Comment error, no brief keyword,\ncomment: " ++
        (Value.record comment).literal))
    | some brief =>
      let entry ← (← (Value.record comment).field tag).textFor "split"
      let (name, options) := readApiEntry entry
      let comment := put "brief" (.text (escapeBrief (← brief.textFor "replace"))) comment
      let start ← (Value.record comment).field "start_idx"
      return some (name,
        [("kv", .record options), ("doc", .record (erase comment "start_idx")),
          ("start_idx", start)])

end Buildsmith.Header
