import Proctor.Archive.Header
import Proctor.KeyMap

/-!
Packing files into an archive. Every directory above a file has an entry before the first file in it.
-/

namespace Proctor.Archive

/-- Zeros up to the next full block. -/
def fill (length : Nat) : Bytes :=
  List.replicate ((blockSize - length % blockSize) % blockSize) 0

def member (h : Header) (data : Bytes) : Bytes :=
  h.block ++ data ++ fill data.length

/-- A member that holds the name of the next one. -/
def longNameMember (path : Bytes) : Bytes :=
  member
    { name := Utf8.encode "././@LongLink", mode := 0o644, uid := 0, gid := 0,
      size := path.length + 1, mtime := 0, kind := Kind.longName }
    (path ++ [0])

/-- The longest text that `bs` starts with. -/
def textStart (bs : Bytes) : Bytes :=
  Utf8.encode (String.ofList (((Utf8.scan bs).takeWhile Option.isSome).filterMap id))

/-- A member for a path. A long path that a header cannot hold has a member of its own before it, and
the header then holds the start of the path. -/
def entry (path : Bytes) (h : Header) (data : Bytes) : Except PathError Bytes :=
  match storedName false path with
  | .ok name => .ok (member { h with name } data)
  | .error e =>
    if path.length < nameSize then .error e
    else do
      let name ← storedName true (textStart (path.take nameSize))
      .ok (longNameMember path ++ member { h with name } data)

def directoryEntry (uid mtime : Nat) (path : Bytes) : Except PathError Bytes :=
  entry path
    { name := [], mode := 0o777, uid, gid := uid, size := 0, mtime, kind := Kind.directory } []

def fileEntry (uid mtime : Nat) (path data : Bytes) : Except PathError Bytes :=
  entry path
    { name := [], mode := 0o666, uid, gid := uid, size := data.length, mtime, kind := Kind.file }
    data

/-- The components of a directory tell whether it has an entry yet. -/
def directoryKey (path : Bytes) : List Component :=
  (components path).map (·.1)

/-- Entries for the directories that have none yet, and all that have one then. -/
def directoryEntries (uid mtime : Nat) (known : List (List Component)) :
    List Bytes → Except PathError (Bytes × List (List Component))
  | [] => .ok ([], known)
  | path :: paths =>
    if known.contains (directoryKey path) then directoryEntries uid mtime known paths
    else do
      let first ← directoryEntry uid mtime path
      let (rest, known) ← directoryEntries uid mtime (directoryKey path :: known) paths
      .ok (first ++ rest, known)

/-- Entries for files and the directories above them. -/
def fileEntries (uid mtime : Nat) (known : List (List Component)) :
    List (String × Bytes) → Except PathError Bytes
  | [] => .ok []
  | (name, data) :: files => do
    let path := Utf8.encode name
    let (directories, known) ← directoryEntries uid mtime known (parents path)
    let file ← fileEntry uid mtime path data
    let rest ← fileEntries uid mtime known files
    .ok (directories ++ file ++ rest)

/-- The end of an archive: two blocks of zeros. -/
def ending : Bytes :=
  List.replicate (2 * blockSize) 0

def pack (files : KeyMap Bytes) (uid mtime : Nat) : Except PathError Bytes := do
  .ok ((← fileEntries uid mtime [] files.entries) ++ ending)

end Proctor.Archive
