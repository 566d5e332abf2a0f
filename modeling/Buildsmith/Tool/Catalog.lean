import Buildsmith.Tool.Ask
import Buildsmith.Tool.Project
import Buildsmith.Tool.Stamp
import Buildsmith.Tool.Undefined

/-!
# The tools by name
-/

namespace Buildsmith.Tool

def tool? : String → Option (Invocation → Outcome)
  | "menuconfig" => some menuconfig
  | "allnoconfig" => some allnoconfig
  | "allyesconfig" => some allyesconfig
  | "allmodconfig" => some allmodconfig
  | "alldefconfig" => some alldefconfig
  | "olddefconfig" => some olddefconfig
  | "defconfig" => some defconfig
  | "savedefconfig" => some savedefconfig
  | "setconfig" => some setconfig
  | "listnewconfig" => some listnewconfig
  | "oldconfig" => some oldconfig
  | "genconfig" => some genconfig
  | "generate" => some projectGenconfig
  | "allnoconfig-walk" => some allnoconfigWalk
  | "defconfig-oldconfig" => some defconfigOldconfig
  | "dumpvars" => some dumpvars
  | "eval-expr" => some evalExpr
  | "find-symbol" => some findSymbolTool
  | "help-grep" => some helpGrep
  | "merge-config" => some mergeConfig
  | "line-menu" => some menuconfigExample
  | "print-config-tree" => some printConfigTree
  | "print-sym-info" => some printSymInfo
  | "print-tree" => some printTree
  | "stamp" => some stamp
  | "sort-components" => some sortComponents
  | "bind" => some bind
  | "document" => some document
  | "package" => some package
  | "project" => some project
  | _ => none

end Buildsmith.Tool
