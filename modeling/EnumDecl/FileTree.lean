import EnumDecl.Decimal
import EnumDecl.Text.Hex
import EnumDecl.Text.Split

/-!
# A tree of files

The directories and text files there are, and the one operation on them: writing a whole text to a
path. A path is followed component by component, from the root if it begins with a slash and from
the working directory otherwise; every component but the last has to be a directory, and none may
be longer than 255 bytes.

Writing is done in two steps. The path is opened, which empties the file that is there or adds an
empty one; then the text is encoded and put into it. A text is given by the codes of its
characters. Some codes are those of no character, and a text with one of them has no encoding. That
comes out in the second step.
-/

namespace EnumDecl

/-- Directories and files by the components that lead to them from the root, which is always
there. -/
structure FileTree where
  directories : List (List String)
  files : List (List String × String)
  /-- Where a path without a slash in front begins. -/
  working : List String

namespace FileTree

/-- Why a path cannot be written. -/
inductive Fault
  | notFound
  | notDirectory
  | isDirectory
  | nameTooLong
  | /-- The path holds the character with code zero. -/
    embeddedNull
  | /-- The text holds codes of no character one after another, of which the first is at a
    position. -/
    unencodable (codes : List Nat) (position : Nat)
  deriving DecidableEq

/-- The tree with nothing in it but a directory to work in. -/
def empty : FileTree := ⟨[["work"]], [], ["work"]⟩

/-- The longest component, in bytes. -/
def nameLimit : Nat := 255

/-- The longest path, in bytes. -/
def pathLimit : Nat := 4095

/-- The components of a path between its slashes; any number of slashes counts as one. -/
def components (path : String) : List String :=
  ((Text.pieces '/' path.toList).map String.ofList).filter (· != "")

/-- Tells whether a path begins at the root. -/
def isAbsolute (path : String) : Bool := path.toList.head? == some '/'

/-- Tells whether a path ends in a slash, which says that it leads to no file. -/
def endsInSlash (path : String) : Bool := path.toList.getLast? == some '/'

/-- Tells whether there is a directory at some place. -/
def hasDirectory (t : FileTree) (place : List String) : Bool :=
  place.isEmpty || t.directories.contains place

/-- The text of the file at some place. -/
def file? (t : FileTree) (place : List String) : Option String :=
  (t.files.find? fun f => f.1 == place).map (·.2)

/-- Where a path begins. -/
def start (t : FileTree) (path : String) : List String :=
  if isAbsolute path then [] else t.working

/-- One step along a path from a directory. -/
def enter (t : FileTree) (place : List String) (name : String) : Except Fault (List String) :=
  if name = "." then .ok place
  else if name = ".." then .ok place.dropLast
  else if nameLimit < name.utf8ByteSize then .error .nameTooLong
  else if t.hasDirectory (place ++ [name]) then .ok (place ++ [name])
  else if (t.file? (place ++ [name])).isSome then .error .notDirectory
  else .error .notFound

/-- The directory that a list of components leads to. -/
def follow (t : FileTree) (place : List String) : List String → Except Fault (List String)
  | [] => .ok place
  | name :: rest => do t.follow (← t.enter place name) rest

/-- The directory that some components of a path lead to. The working directory may have gone. -/
def reach (t : FileTree) (path : String) (names : List String) : Except Fault (List String) :=
  if t.hasDirectory (t.start path) then t.follow (t.start path) names else .error .notFound

/-- Where the file of that name in a directory is to be written; a slash after the name says that
it is no file. -/
def target (t : FileTree) (place : List String) (name : String) (slash : Bool) :
    Except Fault (List String) :=
  if name = "." || name = ".." || slash then .error .isDirectory
  else if nameLimit < name.utf8ByteSize then .error .nameTooLong
  else if t.hasDirectory (place ++ [name]) then .error .isDirectory
  else .ok (place ++ [name])

/-- Where a path leads to when it is opened for writing. -/
def locate (t : FileTree) (path : String) : Except Fault (List String) :=
  if path.toList.contains '\x00' then .error .embeddedNull
  else if path = "" then .error .notFound
  else if pathLimit < path.utf8ByteSize then .error .nameTooLong
  else do
    let names := components path
    let place ← t.reach path names.dropLast
    t.target place (names.getLastD "") (endsInSlash path)

/-- The tree with a file's text put at some place. -/
def put (t : FileTree) (place : List String) (text : String) : FileTree :=
  { t with files := (t.files.filter fun f => f.1 != place) ++ [(place, text)] }

/-- The characters of some codes as a text. -/
def encode (codes : List Nat) : Except Fault String :=
  match codes.findIdx? fun c => !decide c.isValidChar with
  | some i => .error (.unencodable ((codes.drop i).takeWhile fun c => !decide c.isValidChar) i)
  | none => .ok (String.ofList (codes.map Char.ofNat))

/-- What writing came to: the files afterwards, and why the text could not be written. -/
structure Writing where
  files : FileTree
  fault : Option Fault

/-- Opens a path and writes the characters of some codes to the file there. -/
def writeCodes (t : FileTree) (path : String) (codes : List Nat) : Writing :=
  match t.locate path with
  | .error fault => ⟨t, some fault⟩
  | .ok place =>
    let opened := t.put place ""
    match encode codes with
    | .error fault => ⟨opened, some fault⟩
    | .ok text => ⟨opened.put place text, none⟩

/-- The codes of the characters of a text. -/
def codesOf (text : String) : List Nat := text.toList.map Char.toNat

/-- Writes a whole text to a path. -/
def write (t : FileTree) (path text : String) : Except Fault FileTree :=
  let writing := t.writeCodes path (codesOf text)
  match writing.fault with
  | some fault => .error fault
  | none => .ok writing.files

/-- The places on the way along some components, each of which is taken to be a directory. -/
def placesAlong (place : List String) : List String → List (List String)
  | [] => []
  | name :: rest =>
    let next :=
      if name = "." then place else if name = ".." then place.dropLast else place ++ [name]
    next :: placesAlong next rest

/-- The tree with a directory and those on the way to it made where they are missing. -/
def makeDirectory (t : FileTree) (path : String) : FileTree :=
  let missing := (placesAlong (t.start path) (components path)).filter fun d => !t.hasDirectory d
  { t with directories := t.directories ++ missing.eraseDups }

/-- A directory and a path from there as one path. A path with a slash in front is from nowhere
else than the root. -/
def join (directory path : String) : String :=
  if isAbsolute path then path
  else if directory = "" || endsInSlash directory then directory ++ path
  else directory ++ "/" ++ path

/-- The files below the working directory by their paths from there. -/
def listing (t : FileTree) : List (String × String) :=
  (t.files.filter fun f => t.working.isPrefixOf f.1).map fun f =>
    (String.intercalate "/" (f.1.drop t.working.length), f.2)

/-- The operating system's number for a fault. -/
def Fault.number : Fault → Nat
  | .notFound => 2
  | .notDirectory => 20
  | .isDirectory => 21
  | .nameTooLong => 36
  | .embeddedNull => 22
  | .unencodable _ _ => 84

/-- The operating system's words for a fault. -/
def Fault.words : Fault → String
  | .notFound => "No such file or directory"
  | .notDirectory => "Not a directory"
  | .isDirectory => "Is a directory"
  | .nameTooLong => "File name too long"
  | .embeddedNull => "Invalid argument"
  | .unencodable _ _ => "Invalid or incomplete multibyte or wide character"

/-- A code that has no character as it is shown in messages. -/
def shownCode (code : Nat) : String := "'\\u" ++ String.ofList (Text.hex 4 code) ++ "'"

/-- What is said of codes that have no encoding. -/
def unencodableWords (codes : List Nat) (position : Nat) : String :=
  let found := match codes with
    | [code] => "character " ++ shownCode code ++ " in position " ++ Decimal.ofNat position
    | codes => "characters in position " ++ Decimal.ofNat position ++ "-" ++
      Decimal.ofNat (position + codes.length - 1)
  "'utf-8' codec can't encode " ++ found ++ ": surrogates not allowed"

end FileTree

end EnumDecl
