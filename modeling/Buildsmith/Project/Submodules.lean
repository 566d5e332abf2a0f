import Buildsmith.Publish.Basic

/-!
# Submodules

A development kit may hold other repositories as submodules.  All of them have to be checked out;
one that is at another revision than it should be only causes a warning.
-/

namespace Buildsmith.Project

open Publish

def submodulePaths (text : String) : List String :=
  (Text.splitOn text "\n").filterMap fun l => (Text.cut? l "path = ").map Prod.snd

def missingSubmodule (path : String) : String :=
  "Submodule " ++ path ++
    " not exists, please run `git submodule update --init --recursive` to init all submodules"

def findUnfetched (kit : String) : List String → PublishM (Option String)
  | [] => return none
  | path :: rest => do
    let full := Path.join kit path
    let w ← get
    if !w.pathExists full then
      say ("-- " ++ full ++ " not exists")
      return some path
    match w.files.list w.cwd full with
    | .error f => throw (.file f)
    | .ok names =>
      if !names.contains ".git" then
        say ("-- " ++ full ++ "/.git not exists")
        return some path
      if names.all (Text.startsWith · ".") then
        say ("-- " ++ full ++ " no files")
        return some path
      findUnfetched kit rest

def statusPath (line : String) : PublishM String :=
  match Text.splitOn line " " with
  | _ :: path :: _ => return path
  | _ => throw (.data .listRange)

def readStatus : List String → PublishM (Option String)
  | [] => return none
  | line :: rest => do
    if Text.startsWith line "+" then
      say "\n============================================"
      let path ← statusPath line
      say ("-- [Warning]\n!! Submodule [" ++ path ++
        "] have changes, it maybe cause problems\nif you don't know what this means, please execute:\n" ++
        "    git submodule update --init --recursive`\nto update submodule !")
      say "============================================\n"
      readStatus rest
    else if Text.startsWith line "-" then return some (← statusPath line)
    else readStatus rest

/-- Checks the submodules of a development kit; gives a message if something is wrong.  The error
output of a failing program is given by `complaint`. -/
def checkSubmodules (kit complaint : String) : PublishM (Option String) := do
  let w ← get
  let list := Path.join kit ".gitmodules"
  if !w.pathExists list || !w.pathExists (Path.join kit ".git") then return none
  let paths := submodulePaths (← readText list)
  if paths.isEmpty then return none
  match ← findUnfetched kit paths with
  | some path => return some (missingSubmodule path)
  | none =>
    let (status, output) ← launchIn (Path.absolute w.cwd kit) ["git", "submodule", "status"]
    if status ≠ 0 then
      say "-- git submodule status failed"
      return some complaint
    return (← readStatus (Text.splitOn output "\n")).map missingSubmodule

end Buildsmith.Project
