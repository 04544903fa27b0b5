-- SUMMARY: The restore selection of the browser: decoding, encoding, toggling and the summary.
import Pluton.Js

/-!
# The selection of the restore dialog

`frontend/src/utils/restoreSelection.ts`. A selection is two sets of paths; no includes
means everything. A JavaScript set is the list of its members in the order in which they
were added.
-/
namespace Pluton.Restore

/-! ## Sets -/

/-- `set.add(text)` -/
def addTo (set : List String) (text : String) : List String :=
  if set.contains text then set else set ++ [text]

/-- `set.delete(text)` -/
def deleteFrom (set : List String) (text : String) : List String := set.filter (· != text)

/-- `new Set(texts)` -/
def newSet (texts : List String) : List String := texts.eraseDups

/-! ## Paths -/

/-- `path.replace(/\\/g, '/').replace(/\/$/, '') || '/'` -/
def canonical (path : String) : String :=
  let slashed := String.ofList (path.toList.map fun ch => if ch == '\\' then '/' else ch)
  let bare := if Js.endsWith "/" slashed then String.ofList slashed.toList.dropLast else slashed
  if bare.isEmpty then "/" else bare

def contains (parent child : String) : Bool :=
  canonical parent == canonical child ||
    Js.startsWith ((if canonical parent == "/" then "" else canonical parent) ++ "/")
      (canonical child)

/-! ## Selections -/

structure RestoreEntry where
  path : String
  isDirectory : Bool
  size : Nat
  type : Option String
  deriving DecidableEq

structure RestoreSelection where
  includes : List String
  excludes : List String
  deriving DecidableEq

/-- Select All. -/
def RestoreSelection.all : RestoreSelection := ⟨[], []⟩

/-- An entry that the selection names, or that is below one it names. -/
def RestoreSelection.covers (selection : RestoreSelection) (file : RestoreEntry) : Bool :=
  (selection.includes.isEmpty || selection.includes.any fun path => contains path file.path) &&
    !selection.excludes.any fun path => contains path file.path

def selectedRestorePaths (files : List RestoreEntry) (selection : RestoreSelection) : List String :=
  let result := newSet ((files.filter selection.covers).map RestoreEntry.path)
  (files.filter RestoreEntry.isDirectory).foldl (fun result directory =>
    if files.any fun file => result.contains file.path && contains directory.path file.path then
      addTo result directory.path
    else result) result

/-- The files that are below no other directory of the list. -/
def topmost (files : List RestoreEntry) : List RestoreEntry :=
  files.filter fun file =>
    !files.any fun parent => parent.isDirectory && parent.path != file.path &&
    contains parent.path file.path

/-- `encodeRestoreSelection(files, new Set())` when something is not chosen. -/
def encodeNothing (files : List RestoreEntry) : RestoreSelection :=
  ⟨[], newSet ((topmost files).map RestoreEntry.path)⟩

/-- The chosen files, and of the directories those whose whole subtree is chosen. -/
def complete (files : List RestoreEntry) (chosen : List String) : List RestoreEntry :=
  files.filter fun file => chosen.contains file.path &&
    (!file.isDirectory || files.all fun child => !contains file.path child.path ||
      chosen.contains child.path)

def encodeRestoreSelection (files : List RestoreEntry) (chosen : List String) : RestoreSelection :=
  if !files.isEmpty && files.all fun file => chosen.contains file.path then .all
  else if chosen.isEmpty then encodeNothing files
  -- the source calls itself with the empty set, which is not everything
  else if (complete files chosen).isEmpty then encodeNothing files
  else ⟨newSet ((topmost (complete files chosen)).map RestoreEntry.path), []⟩

inductive SelectionState where
  | all
  | partly
  | none
  deriving DecidableEq

def restoreSelectionState (files : List RestoreEntry) (selected : List String) (pathname : String) :
    SelectionState :=
  let subtree := files.filter fun file => contains pathname file.path
  if !subtree.isEmpty && subtree.all fun file => selected.contains file.path then .all
  else if subtree.any fun file => selected.contains file.path then .partly
  else .none

/-- The first loop of a toggle: the files of the subtree are removed or added. -/
def flipSubtree (files : List RestoreEntry) (remove : Bool) (pathname : String)
    (selected : List String) : List String :=
  files.foldl (fun selected file =>
    if contains pathname file.path then
      if remove then deleteFrom selected file.path else addTo selected file.path
    else selected) selected

def toggleRestoreSelection (files : List RestoreEntry) (selection : RestoreSelection)
    (pathname : String) :
    RestoreSelection :=
  let selected := selectedRestorePaths files selection
  let remove := restoreSelectionState files selected pathname == .all
  let selected := flipSubtree files remove pathname selected
  let selected := (files.filter RestoreEntry.isDirectory).foldl (fun selected directory =>
    if files.any fun child =>
        child.path != directory.path && selected.contains child.path &&
        contains directory.path child.path then
      addTo selected directory.path
    else selected) selected
  encodeRestoreSelection files selected

/-! ## The summary -/

structure Summary where
  files : Nat
  directories : Nat
  entries : Nat
  totalFiles : Nat
  totalDirectories : Nat
  totalEntries : Nat
  otherEntries : Option Nat
  bytes : Nat
  totalBytes : Nat

/-- `!file.isDirectory && (!file.type || file.type === 'file')` -/
def RestoreEntry.isRegular (file : RestoreEntry) : Bool :=
  !file.isDirectory && file.type.all fun type => type == "" || type == "file"

def restoreSelectionSummary (files : List RestoreEntry) (selection : RestoreSelection) : Summary :=
  let selected := selectedRestorePaths files selection
  let isSelected (file : RestoreEntry) : Bool := selected.contains file.path
  let regularFiles := files.filter RestoreEntry.isRegular
  let directories := files.filter RestoreEntry.isDirectory
  let otherEntries :=
    files.countP fun file => !file.isDirectory && !file.isRegular && isSelected file
  { files := regularFiles.countP isSelected
    directories := directories.countP isSelected
    entries := files.countP isSelected
    totalFiles := regularFiles.length
    totalDirectories := directories.length
    totalEntries := files.length
    otherEntries := if otherEntries = 0 then none else some otherEntries
    bytes := (regularFiles.map fun file => if isSelected file then file.size else 0).sum
    totalBytes := (regularFiles.map RestoreEntry.size).sum }

end Pluton.Restore
