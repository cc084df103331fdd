/-!
# Files

What a command finds when it opens a path, and folders held in memory in which paths can be opened.

## Main definitions

* `FileContent`: what stands at a path.
* `Files`: the contents of all paths.
* `Folder`: a folder by the contents of its files; `Folder.files` opens paths in it.
-/

namespace CallAudit

/-- What stands at a path. -/
inductive FileContent where
  | missing
  | directory
  /-- Something that cannot be opened, and why. -/
  | unreadable (cause : String)
  /-- A file that is no text in UTF-8. -/
  | binary
  | text (content : String)
  deriving DecidableEq, Repr

namespace FileContent

/-- Whether there is something at the path. -/
def isPresent : FileContent → Bool
  | .missing => false
  | .directory | .unreadable _ | .binary | .text _ => true

/-- The text of a file, or why it cannot be read. -/
def read : FileContent → Except String String
  | .missing => .error "No such file or directory (os error 2)"
  | .directory => .error "Is a directory (os error 21)"
  | .unreadable cause => .error cause
  | .binary => .error "stream did not contain valid UTF-8"
  | .text content => .ok content

end FileContent

/-- What stands at each path. -/
abbrev Files := String → FileContent

/-- A folder: the places below it that hold something, each with the names on the way to it. -/
structure Folder where
  entries : List (List String × FileContent)

namespace Folder

/-- What stands at a place. A place on the way to another one is a directory. -/
def content (f : Folder) (place : List String) : FileContent :=
  match f.entries.lookup place with
  | some content => content
  | none =>
    if place.isEmpty || f.entries.any (fun entry => place.isPrefixOf entry.1) then .directory
    else .missing

/-- What stands behind some steps from a place. Every step starts in a directory. -/
def follow (f : Folder) (place : List String) : List String → FileContent
  | [] => f.content place
  | step :: steps =>
    if f.content place ≠ .directory then .missing
    else if step = "" ∨ step = "." then f.follow place steps
    else if step = ".." then f.follow place.dropLast steps
    else f.follow (place ++ [step]) steps

/-- The steps of a path. -/
def steps (path : String) : List String := (path.toList.splitOn '/').map String.ofList

/-- What stands at a path from the folder; the empty path leads nowhere. -/
def files (f : Folder) : Files := fun path =>
  if path.isEmpty || path.toList.head? == some '/' then .missing else f.follow [] (steps path)

end Folder

end CallAudit
