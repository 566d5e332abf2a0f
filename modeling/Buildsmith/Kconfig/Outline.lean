import Buildsmith.Kconfig.Model

/-!
# From the outline to the menu

The outline becomes the menu in three steps.  Dependencies are handed down from blocks, menus and
choices to the entries inside them.  An entry that depends on the symbol right before it moves
below that symbol.  Entries without a prompt keep no children: these follow behind them instead,
and blocks dissolve into their children.

None of the steps changes the order in which entries are met from top to bottom.
-/

namespace Buildsmith.Kconfig

open Outline Menu

/-- Hands a dependency and the visibility of the menus around it down to an entry. -/
def Entry.inherit (base visibleIf : Expr) (e : Entry) : Entry :=
  let dep := e.dep.both base
  match e.subject with
  | .symbol _ | .choice _ =>
    { e with
      dep
      prompt := e.prompt.map fun (text, cond) => (text, cond.both (visibleIf.both dep))
      defaults := e.defaults.map fun (value, cond) => (value, cond.both dep)
      ranges := e.ranges.map fun (low, high, cond) => (low, high, cond.both dep)
      selects := e.selects.map fun (target, cond) => (target, cond.both dep)
      implies := e.implies.map fun (target, cond) => (target, cond.both dep) }
  | _ => { e with dep, prompt := e.prompt.map fun (text, cond) => (text, cond.both dep) }

def Entry.handsDown (e : Entry) : Expr :=
  match e.subject with
  | .choice c => .item (.choice c)
  | _ => e.dep

def Entry.visibleInside (visibleIf : Expr) (e : Entry) : Expr :=
  if e.subject = .menu then visibleIf.both e.visibility else visibleIf

mutual

def Outline.inherit (base visibleIf : Expr) (entries : Array Entry) : Outline → Array Entry × Outline
  | .entry i children =>
    let entries := entries.modify i (·.inherit base visibleIf)
    match entries[i]? with
    | some e =>
      let (entries, children) :=
        inheritAll e.handsDown (e.visibleInside visibleIf) entries children
      (entries, .entry i children)
    | none => (entries, .entry i children)
  | .block cond children =>
    let cond := cond.both base
    let (entries, children) := inheritAll cond visibleIf entries children
    (entries, .block cond children)

def Outline.inheritAll (base visibleIf : Expr) (entries : Array Entry) :
    List Outline → Array Entry × List Outline
  | [] => (entries, [])
  | o :: os =>
    let (entries, o) := inherit base visibleIf entries o
    let (entries, os) := inheritAll base visibleIf entries os
    (entries, o :: os)

end

/-- A part of a level of the menu before blocks are dissolved. -/
inductive Piece where
  | entry (id : EntryId) (children : List Menu)
  | block (cond : Expr) (children : List Menu)

def Piece.guard (entries : Array Entry) : Piece → Expr
  | .entry i _ =>
    match entries[i]? with
    | some e => (e.prompt.map Prod.snd).getD e.dep
    | none => .yes
  | .block cond _ => cond

def isTransparent (entries : Array Entry) (i : EntryId) : Bool :=
  match entries[i]? with
  | some e =>
    e.prompt.isNone && (match e.subject with | .choice _ => false | _ => true)
  | none => false

def Piece.dissolve (entries : Array Entry) : Piece → List Menu
  | .block _ children => children
  | .entry i children =>
    if isTransparent entries i then .entry i [] :: children else [.entry i children]

def dissolveAll (entries : Array Entry) (pieces : List Piece) : List Menu :=
  pieces.flatMap (·.dissolve entries)

mutual

/-- The level of the menu that consists of a part of the outline and the parts behind it. -/
def Outline.place (entries : Array Entry) (behind : List Piece) : Outline → List Piece
  | .block cond children =>
    .block cond (dissolveAll entries (level entries children)) :: behind
  | .entry i children =>
    match (entries[i]?).map Entry.subject with
    | some (.symbol s) =>
      let under (p : Piece) : Bool := (p.guard entries).hangsUnder (.symbol s)
      .entry i (dissolveAll entries (behind.takeWhile under)) :: behind.dropWhile under
    | _ => .entry i (dissolveAll entries (level entries children)) :: behind

def Outline.level (entries : Array Entry) : List Outline → List Piece
  | [] => []
  | o :: os => place entries (level entries os) o

end

def Outline.toMenu (entries : Array Entry) (os : List Outline) : List Menu :=
  dissolveAll entries (level entries os)

def Menu.id : Menu → EntryId
  | .entry i _ => i

mutual

def Menu.link (parent : EntryId) (m : Model) : Menu → Model
  | .entry i children =>
    let m := { m with
      parents := m.parents.setIfInBounds i (some parent)
      children := m.children.setIfInBounds i (children.map id) }
    linkAll i m children

def Menu.linkAll (parent : EntryId) (m : Model) : List Menu → Model
  | [] => m
  | x :: xs => linkAll parent (link parent m x) xs

end

/-- Gathers the properties of a symbol's definition on the symbol and on the symbols it selects. -/
def Model.gather (m : Model) (i : EntryId) : Model :=
  let e := m.entry i
  match e.subject with
  | .symbol s =>
    let m := m.modifySymbol s fun x =>
      { x with
        directDep := x.directDep.either e.dep
        defaults := x.defaults ++ e.defaults
        ranges := x.ranges ++ e.ranges
        selects := x.selects ++ e.selects
        implies := x.implies ++ e.implies }
    let m := e.selects.foldl
      (fun m (target, cond) => m.modifySymbol target fun x =>
        { x with reverseDep := x.reverseDep.either ((Expr.symbol s).both cond) }) m
    e.implies.foldl
      (fun m (target, cond) => m.modifySymbol target fun x =>
        { x with weakReverseDep := x.weakReverseDep.either ((Expr.symbol s).both cond) }) m
  | _ => m

/-- Gathers the properties of a choice's definition, and the symbols right below it. -/
def Model.gatherChoice (m : Model) (i : EntryId) : Model :=
  let e := m.entry i
  match e.subject with
  | .choice c =>
    let below := (m.childrenOf i).filterMap fun k =>
      match (m.entry k).subject with
      | .symbol s => some s
      | _ => none
    let m := m.modifyChoice c fun x =>
      { x with
        directDep := x.directDep.either e.dep
        defaults := x.defaults ++ e.defaults
        symbols := x.symbols ++ below }
    let m := below.foldl (fun m s => m.modifySymbol s fun x => { x with choice := some c }) m
    let kindOf (s : SymbolId) : Kind := (m.symbol s).kind
    let m :=
      if (m.choice c).kind = .unknown then
        match ((m.choice c).symbols.map kindOf).find? (· ≠ .unknown) with
        | some k => m.modifyChoice c fun x => { x with kind := k }
        | none => m
      else m
    let kind := (m.choice c).kind
    (m.choice c).symbols.foldl
      (fun m s => m.modifySymbol s fun x => if x.kind = .unknown then { x with kind } else x) m
  | _ => m

mutual

def Menu.gatherChoices (m : Model) : Menu → Model
  | .entry i children => (gatherAllChoices m children).gatherChoice i

def Menu.gatherAllChoices (m : Model) : List Menu → Model
  | [] => m
  | x :: xs => gatherAllChoices (gatherChoices m x) xs

end

def orderedUnique {α : Type} [BEq α] (xs : List α) : List α :=
  (xs.foldl (fun seen x => if seen.contains x then seen else x :: seen) []).reverse

/-- Builds the menu and gathers properties. -/
def Model.finish (m : Model) (outline : List Outline) : Model :=
  let (entries, outline) := inheritAll .yes .yes m.entries outline
  let menu := toMenu entries outline
  let m := { m with
    entries
    menu
    parents := Array.replicate entries.size none
    children := (Array.replicate entries.size []).setIfInBounds top (menu.map Menu.id) }
  let m := linkAll top m menu
  let m := (List.range m.entries.size).foldl (fun m i => m.gather i) m
  let m := gatherAllChoices m menu
  { m with
    uniqueDefined := orderedUnique m.defined
    uniqueChoices := orderedUnique m.choiceUses }

end Buildsmith.Kconfig
