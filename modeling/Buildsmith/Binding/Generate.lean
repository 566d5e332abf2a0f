import Buildsmith.FileTree.Basic
import Buildsmith.Header.Tree

/-!
# Bindings

The items of a tree are made available to another language by statements that declare modules,
classes, functions, variables and enumerations, each on the variable of the item around it.
-/

namespace Buildsmith.Binding

open Data
open Header (Result)

def docString (item : Value) : Result Value := do
  match ← item.fieldOr "doc" .null with
  | .text s => return .text s
  | _ =>
    let doc ← item.fieldOr "doc" (.record [])
    let text ← doc.fieldOr "py_doc" (.text "")
    if text.isTruthy then return text else doc.fieldOr "brief" (.text "")

def docLiteral (item : Value) : Result String := do
  let s ← (← docString item).textFor "replace"
  return Text.replace (Text.replace s "\n" "\\n") "\"" "\\\""

/-- What statements need to know about the item around them. -/
structure Scope where
  /-- The variable of the item around. -/
  receiver : String
  isClass : Bool := false
  /-- The names of the items around, without the topmost. -/
  names : List String := []
  /-- The names that qualify a name. -/
  spaces : List String

def qualified (spaces : List String) : String :=
  String.intercalate "::" spaces

def Scope.inside (s : Scope) (receiver name : String) (isClass : Bool) : Scope :=
  { receiver, isClass, names := s.names ++ [name], spaces := s.spaces ++ [name] }

def moduleVariable (name : String) : String := "m_" ++ name

def classVariable (around : List String) (name : String) : String :=
  "class_" ++ (if around.isEmpty then "root" else String.intercalate "_" around) ++ "_" ++ name

/-- Declares the variable of a module. -/
def moduleLine (s : Scope) (name doc : String) : String :=
  "auto " ++ moduleVariable name ++ " = " ++ s.receiver ++ ".def_submodule(\"" ++ name ++
    "\", \"" ++ doc ++ "\");"

/-- Declares the variable of a class. -/
def classLine (s : Scope) (name : String) : String :=
  "auto " ++ classVariable s.names name ++ " = py::class_<" ++ qualified (s.spaces ++ [name]) ++
    ">(" ++ s.receiver ++ ", \"" ++ name ++ "\");"

def argumentText (a : Value) : Result String := do
  let name ← a.item 1
  let value ← a.item 2
  let default := match value with
    | .null => ""
    | v => "= " ++ v.display
  return "py::arg(\"" ++ name.display ++ "\") " ++ default

def typeList (args : List Value) : Result String := do
  Value.join ", " (← args.mapM (·.item 0))

def plainFunctionLine (s : Scope) (name doc arguments : String) (item : Value)
    (args : List Value) : Result String := do
  let declared ← item.field "name"
  let type ← (← item.field "ret_type").textFor "endswith"
  let isStatic := (← item.field "static").isTruthy
  let policy := if Text.endsWith type "&" then "reference" else "take_ownership"
  let space := qualified s.spaces
  let reference := if s.spaces.isEmpty then "&" ++ declared.display
    else "&" ++ space ++ "::" ++ declared.display
  let pointer := if s.isClass && !isStatic then space ++ "::*" else "*"
  return s.receiver ++ ".def" ++ (if isStatic then "_static" else "") ++ "(\"" ++ name ++
    "\", static_cast<" ++ type ++ " (" ++ pointer ++ ")(" ++ (← typeList args) ++ ")>(" ++
    reference ++ "), py::return_value_policy::" ++ policy ++ ", \"" ++ doc ++ "\"" ++ arguments ++
    ");"

/-- Constructors and iterators have forms of their own. -/
def functionLine (s : Scope) (name doc : String) (item : Value) : Result String := do
  let args ← (← item.field "args").elements
  let list := String.intercalate ", " (← args.mapM argumentText)
  let arguments := if list.isEmpty then "" else ", " ++ list
  if name = "__init__" then
    return s.receiver ++ ".def(py::init<" ++ (← typeList args) ++ ">()" ++ arguments ++ ");"
  else if name = "__iter__" then
    return s.receiver ++ ".def(\"__iter__\", [](" ++ qualified s.spaces ++
      " &c)\x7breturn py::make_iterator(c.begin(), c.end());\x7d, py::keep_alive<0, 1>());"
  else if name = "__del__" then throw (.rejected "not support __del__ yet")
  else plainFunctionLine s name doc arguments item args

/-- A variable is a field of its class or an attribute of its module. -/
def variableLine (s : Scope) (name : String) (item : Value) : Result String := do
  let full := qualified (s.spaces ++ [name])
  if s.isClass then
    let access := if (← item.field "readonly").isTruthy then "readonly" else "readwrite"
    let suffix := if (← item.field "static").isTruthy then "_static" else ""
    return s.receiver ++ ".def_" ++ access ++ suffix ++ "(\"" ++ name ++ "\", &" ++ full ++ ");"
  else return s.receiver ++ ".attr(\"" ++ name ++ "\") = " ++ full ++ ";"

def enumeratorLine (spaces : List String) (e : Value) : Result String := do
  let name := (← unpack 3 e).head?.getD .null
  let full ← Value.join "::" (spaces.map .text ++ [name])
  return "    .value(\"" ++ name.display ++ "\", " ++ full ++ ")"

def enumerationLines (s : Scope) (name : String) (item : Value) : Result (List String) := do
  let spaces := s.spaces ++ [name]
  let values ← (← (← item.field "values").elements).mapM (enumeratorLine spaces)
  return ("py::enum_<" ++ qualified spaces ++ ">(" ++ s.receiver ++ ", \"" ++ name ++ "\")") ::
    values ++ [";"]

/-- An item with its name and the scope that it is in. -/
structure Place where
  scope : Scope
  name : String
  item : Value

namespace Place

def kind? (p : Place) : Option String := (p.item.field "type").toOption.bind Value.text?

def members (p : Place) : Result Fields := do (← p.item.field "members").fields

/-- The scope inside a module or a class. -/
def inside? (p : Place) : Option Scope :=
  match p.kind? with
  | some "module" => some (p.scope.inside (moduleVariable p.name) p.name false)
  | some "class" => some (p.scope.inside (classVariable p.scope.names p.name) p.name true)
  | _ => none

/-- The statements for an item without those for its members. -/
def lines (p : Place) : Result (List String) := do
  let doc ← docLiteral p.item
  let _ ← p.item.field "type"
  match p.kind? with
  | some "module" => let _ ← p.members; return [moduleLine p.scope p.name doc]
  | some "class" => let _ ← p.members; return [classLine p.scope p.name]
  | some "func" => return [← functionLine p.scope p.name doc p.item]
  | some "var" => return [← variableLine p.scope p.name p.item]
  | some "enum" => enumerationLines p.scope p.name p.item
  | _ => return []

end Place

mutual

/-- The places of items and of all that is below them, from top to bottom. -/
def placesIn (s : Scope) : Fields → List Place
  | [] => []
  | (name, item) :: rest => placesFrom s name item ++ placesIn s rest

def placesFrom (s : Scope) (name : String) : Value → List Place
  | .record fields => ⟨s, name, .record fields⟩ ::
      match Place.inside? ⟨s, name, .record fields⟩ with
      | some inner => placesInside inner fields
      | none => []
  | item => [⟨s, name, item⟩]

def placesInside (s : Scope) : Fields → List Place
  | [] => []
  | (key, value) :: rest =>
    if key == "members" then
      match value with
      | .record members => placesIn s members
      | _ => []
    else placesInside s rest

end

def opening (header name : String) : String :=
  "\n// This file is generated by gen_api.py,\n// !! DO NOT edit this file manually\n\n" ++
    "#include <pybind11/pybind11.h>\n#include <pybind11/stl.h>\n#include <pybind11/complex.h>\n" ++
    "#include <pybind11/functional.h>\n#include <pybind11/chrono.h>\n\n#include \"" ++ header ++
    "\"\n\n\nnamespace py = pybind11;\n\n\nPYBIND11_MODULE(" ++ name ++ ", m) \x7b\n    "

def topScope (name : String) : Scope := { receiver := "m", spaces := [name] }

def topLines (top : Value) (name : String) : Result (List String) := do
  let doc ← docString top
  let members ← (← top.field "members").fields
  let parts ← (placesIn (topScope name) members).mapM Place.lines
  return ("m.doc() = \"" ++ doc.display ++ "\";") :: parts.flatten

/-- The bindings of a module, if the tree has it. -/
def generate (tree : Value) (header name : String) : Result (Option String) := do
  let members ← tree.fieldOr "members" (.record [])
  if !(← members.holds name) then return none
  let top ← (← tree.field "members").field name
  let lines ← topLines top name
  return some (opening (Path.baseName header) name ++ String.intercalate "\n    " lines ++ "\n\x7d\n")

def moduleName (header : String) : String :=
  (Path.splitExtension (Path.baseName header)).1

end Buildsmith.Binding
