import Buildsmith.Kconfig.Model

/-!
# Descriptions of entries

An entry can be written in the description language again.  Dependencies that were added to its
conditions are taken off, and appear as one line `depends on`.

The way items are written in conditions is a parameter.
-/

namespace Buildsmith.Kconfig

/-! ## Names in messages -/

def Choice.displayName (c : Choice) : String :=
  match c.name with
  | some n => if n.isEmpty then "<choice>" else "<choice " ++ n ++ ">"
  | none => "<choice>"

def Choice.heading (c : Choice) : String :=
  ((c.name.filter (!·.isEmpty)).map ("choice " ++ ·)).getD "choice"

def Symbol.displayName (s : Symbol) : String :=
  if s.isConstant && (Tristate.ofLetter? s.name).isNone then
    "\"" ++ Text.Quoted.escape s.name ++ "\""
  else s.name

namespace Model

def itemName (m : Model) : Item → String
  | .symbol i => (m.symbol i).displayName
  | .choice i => (m.choice i).displayName

def exprText (m : Model) (e : Expr) : String :=
  e.render m.itemName

def placeOf (m : Model) (i : EntryId) : String :=
  placeText ((m.entry i).file, (m.entry i).line)

def nameAndPlaces (m : Model) (i : Item) : String :=
  let places := (m.entriesOf i).map m.placeOf
  if places.isEmpty then m.itemName i ++ " (undefined)"
  else m.itemName i ++ " (defined at " ++ String.intercalate ", " places ++ ")"

end Model

/-! ## Entries -/

namespace Entry

def writtenPrompt (e : Entry) : Option (String × Expr) :=
  e.prompt.map fun (text, cond) => (text, cond.stripDep e.dep)

def writtenDefaults (e : Entry) : List (Expr × Expr) :=
  e.defaults.map fun (value, cond) => (value, cond.stripDep e.dep)

def writtenSelects (e : Entry) : List (SymbolId × Expr) :=
  e.selects.map fun (target, cond) => (target, cond.stripDep e.dep)

def writtenImplies (e : Entry) : List (SymbolId × Expr) :=
  e.implies.map fun (target, cond) => (target, cond.stripDep e.dep)

def writtenRanges (e : Entry) : List (SymbolId × SymbolId × Expr) :=
  e.ranges.map fun (low, high, cond) => (low, high, cond.stripDep e.dep)

def referenced (e : Entry) : List Item :=
  e.dep.items ++
    (match e.prompt with | some (_, cond) => cond.items | none => []) ++
    (if e.subject = .menu then e.visibility.items else []) ++
    (e.defaults.flatMap fun (value, cond) => value.items ++ cond.items) ++
    (e.selects.flatMap fun (target, cond) => .symbol target :: cond.items) ++
    (e.implies.flatMap fun (target, cond) => .symbol target :: cond.items) ++
    (e.ranges.flatMap fun (low, high, cond) => .symbol low :: .symbol high :: cond.items)

end Entry

namespace Model

def menuText (name : Item → String) (e : Entry) : String :=
  let head := if e.subject = .menu then "menu" else "comment"
  let title := (e.prompt.map Prod.fst).getD ""
  head ++ " \"" ++ title ++ "\"" ++
    (if e.dep ≠ .yes then "\n\tdepends on " ++ e.dep.render name else "") ++
    (if e.subject = .menu && e.visibility ≠ .yes then
      "\n\tvisible if " ++ e.visibility.render name else "")

def propertyLine (name : Item → String) (s : String) (cond : Expr) : String :=
  if cond ≠ .yes then "\t" ++ s ++ " if " ++ cond.render name else "\t" ++ s

def promptLines (name : Item → String) (kind : Kind) (e : Entry) : List String :=
  match e.writtenPrompt with
  | none => if kind ≠ .unknown then ["\t" ++ kind.name] else []
  | some (text, cond) =>
    let head := if kind ≠ .unknown then kind.name else "prompt"
    [propertyLine name (head ++ " \"" ++ Text.Quoted.escape text ++ "\"") cond]

def defaultLines (name : Item → String) (e : Entry) : List String :=
  e.writtenDefaults.map fun (value, cond) =>
    propertyLine name ("default " ++ value.render name) cond

def closingLines (name : Item → String) (e : Entry) : List String :=
  (if e.dep ≠ .yes then ["\tdepends on " ++ e.dep.render name] else []) ++
    (match e.help with
    | some h => "\thelp" :: (Text.displayLines h).map ("\t  " ++ ·)
    | none => [])

def optionLines (m : Model) (i : SymbolId) : List String :=
  let s := m.symbol i
  (if s.isAllnoconfigY then ["\toption allnoconfig_y"] else []) ++
    (if m.defconfigList = some (.symbol i) then ["\toption defconfig_list"] else []) ++
    s.envVar.toList.map ("\toption env=\"" ++ · ++ "\"") ++
    (if i = SymbolId.modules then ["\toption modules"] else [])

def symbolEntryText (m : Model) (name : Item → String) (i : SymbolId) (e : Entry) : String :=
  let s := m.symbol i
  let range := e.writtenRanges.map fun (low, high, cond) =>
    propertyLine name ("range " ++ name (.symbol low) ++ " " ++ name (.symbol high)) cond
  let select := e.writtenSelects.map fun (target, cond) =>
    propertyLine name ("select " ++ name (.symbol target)) cond
  let imply := e.writtenImplies.map fun (target, cond) =>
    propertyLine name ("imply " ++ name (.symbol target)) cond
  String.intercalate "\n"
    (((if e.isMenuconfig then "menuconfig " else "config ") ++ s.name) ::
      promptLines name s.kind e ++ m.optionLines i ++ range ++ defaultLines name e ++ select ++
      imply ++ closingLines name e)

def choiceEntryText (m : Model) (name : Item → String) (i : ChoiceId) (e : Entry) : String :=
  let c := m.choice i
  String.intercalate "\n"
    (c.heading :: promptLines name c.kind e ++ defaultLines name e ++
      (if c.isOptional then ["\toptional"] else []) ++ closingLines name e)

def entryTextWith (m : Model) (name : Item → String) (i : EntryId) : String :=
  let e := m.entry i
  match e.subject with
  | .symbol s => m.symbolEntryText name s e
  | .choice c => m.choiceEntryText name c e
  | _ => menuText name e

def entryText (m : Model) (i : EntryId) : String :=
  m.entryTextWith m.itemName i

def itemTextWith (m : Model) (name : Item → String) (i : Item) : String :=
  String.intercalate "\n\n" ((m.entriesOf i).map (m.entryTextWith name))

def itemText (m : Model) (i : Item) : String :=
  m.itemTextWith m.itemName i

def bracketName (m : Model) : Item → String
  | .symbol i => "[" ++ (m.symbol i).name ++ "]"
  | .choice i => "[" ++ (m.choice i).name.getD "None" ++ "]"

end Model

end Buildsmith.Kconfig
