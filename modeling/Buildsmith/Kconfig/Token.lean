import Buildsmith.Kconfig.Expr
import Buildsmith.Kconfig.Fault

/-!
# Tokens and conditions

A line of a description starts with a keyword; names, texts and operators follow.
-/

namespace Buildsmith.Kconfig

/-- The keywords of the description language. -/
inductive Keyword where
  | allnoconfigY | bool | choice | comment | config | default | defconfigList | defBool | defHex
  | defInt | defString | defTristate | depends | endchoice | endif | endmenu | env | help | hex
  | ifWord | imply | int | mainmenu | menu | menuconfig | modules | on | option | optional
  | orsource | osource | prompt | range | rsource | select | source | string | tristate | visible
  deriving DecidableEq, Repr

namespace Keyword

def ofWord? (s : String) : Option Keyword :=
  match s with
  | "---help---" => some help
  | "allnoconfig_y" => some allnoconfigY
  | "bool" => some bool
  | "boolean" => some bool
  | "choice" => some choice
  | "comment" => some comment
  | "config" => some config
  | "def_bool" => some defBool
  | "def_hex" => some defHex
  | "def_int" => some defInt
  | "def_string" => some defString
  | "def_tristate" => some defTristate
  | "default" => some default
  | "defconfig_list" => some defconfigList
  | "depends" => some depends
  | "endchoice" => some endchoice
  | "endif" => some endif
  | "endmenu" => some endmenu
  | "env" => some env
  | "grsource" => some orsource
  | "gsource" => some osource
  | "help" => some help
  | "hex" => some hex
  | "if" => some ifWord
  | "imply" => some imply
  | "int" => some int
  | "mainmenu" => some mainmenu
  | "menu" => some menu
  | "menuconfig" => some menuconfig
  | "modules" => some modules
  | "on" => some on
  | "option" => some option
  | "optional" => some optional
  | "orsource" => some orsource
  | "osource" => some osource
  | "prompt" => some prompt
  | "range" => some range
  | "rsource" => some rsource
  | "select" => some select
  | "source" => some source
  | "string" => some string
  | "tristate" => some tristate
  | "visible" => some visible
  | _ => none

/-- Whether a text is expected behind the keyword, so that a bare word is one. -/
def takesText : Keyword → Bool
  | bool | choice | comment | hex | int | mainmenu | menu | orsource | osource | prompt | rsource
  | source | string | tristate => true
  | _ => false

def kind? : Keyword → Option Kind
  | bool => some .bool
  | tristate => some .tristate
  | int => some .int
  | hex => some .hex
  | string => some .string
  | _ => none

def defaultKind? : Keyword → Option Kind
  | defBool => some .bool
  | defTristate => some .tristate
  | defInt => some .int
  | defHex => some .hex
  | defString => some .string
  | _ => none

def isSource : Keyword → Bool
  | source | rsource | osource | orsource => true
  | _ => false

def isRelativeSource : Keyword → Bool
  | rsource | orsource => true
  | _ => false

def isObligatorySource : Keyword → Bool
  | source | rsource => true
  | _ => false

end Keyword

/-- The pieces of a line. -/
inductive Token where
  | keyword (k : Keyword)
  | symbol (i : SymbolId)
  | text (s : String)
  | and
  | or
  | not
  | open
  | close
  | relation (r : Relation)
  deriving DecidableEq, Repr

def Token.takesText : Token → Bool
  | keyword k => k.takesText
  | _ => false

/-!
## Conditions

Conditions follow the grammar

* `expr: term ['||' expr]`
* `term: factor ['&&' term]`
* `factor: symbol [relation symbol] | '!' factor | '(' expr ')'`

so that operators group to the right.  A lone `m` in a condition stands for `m && MODULES`.
-/

mutual

def parseExpr (withModules : Bool) : Nat → List Token → Except Problem (Expr × List Token)
  | 0, _ => .error .malformedExpression
  | fuel + 1, ts => do
    let (a, ts) ← parseTerm withModules fuel ts
    match ts with
    | .or :: ts =>
      let (b, ts) ← parseExpr withModules fuel ts
      return (.or a b, ts)
    | _ => return (a, ts)

def parseTerm (withModules : Bool) : Nat → List Token → Except Problem (Expr × List Token)
  | 0, _ => .error .malformedExpression
  | fuel + 1, ts => do
    let (a, ts) ← parseFactor withModules fuel ts
    match ts with
    | .and :: ts =>
      let (b, ts) ← parseTerm withModules fuel ts
      return (.and a b, ts)
    | _ => return (a, ts)

def parseFactor (withModules : Bool) : Nat → List Token → Except Problem (Expr × List Token)
  | 0, _ => .error .malformedExpression
  | _ + 1, .symbol a :: .relation r :: ts =>
    match ts with
    | .symbol b :: ts => .ok (.rel r a b, ts)
    | _ => .error .expectedSymbol
  | _ + 1, .symbol a :: ts =>
    if withModules && a = SymbolId.mod then
      .ok (.and (.symbol SymbolId.mod) (.symbol SymbolId.modules), ts)
    else .ok (.symbol a, ts)
  | fuel + 1, .not :: ts => do
    let (e, ts) ← parseFactor withModules fuel ts
    return (.not e, ts)
  | fuel + 1, .open :: ts => do
    let (e, ts) ← parseExpr withModules fuel ts
    match ts with
    | .close :: ts => return (e, ts)
    | _ => .error .malformedExpression
  | _ + 1, _ => .error .malformedExpression

end

def readExpr (withModules : Bool) (ts : List Token) : Except Problem (Expr × List Token) :=
  parseExpr withModules (3 * ts.length + 3) ts

def readWholeExpr (ts : List Token) : Except Problem Expr := do
  let (e, ts) ← readExpr true ts
  if ts.isEmpty then return e else .error .extraTokens

def readIfClause (ts : List Token) : Except Problem Expr := do
  let (e, ts) ←
    match ts with
    | .keyword .ifWord :: ts => readExpr true ts
    | _ => pure (Expr.yes, ts)
  if ts.isEmpty then return e else .error .extraTokens

def readWholeText (ts : List Token) : Except Problem String :=
  match ts with
  | [.text s] => .ok s
  | .text _ :: _ => .error .extraTokens
  | _ => .error .expectedString

def readSymbol (ts : List Token) : Except Problem (SymbolId × List Token) :=
  match ts with
  | .symbol i :: ts => .ok (i, ts)
  | _ => .error .expectedSymbol

end Buildsmith.Kconfig
