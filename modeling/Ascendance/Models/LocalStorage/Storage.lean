import Ascendance.Core.PosixPath

/-!
# Local storage

Images are files below the uploads directory, in a directory of their user or of a folder.
An upload gives the image an identifier of a prefix and a file name, from which it is
deleted later. Texts are lists of characters; errors are their messages, which `wrapError`
keeps.
-/

namespace Ascendance.LocalStorage

open Ascendance.Core Ascendance.Core.PosixPath

/-- The files and directories; there are no symbolic links. -/
structure Disk where
  files : List Path
  directories : List Path

/-- What is done to the disk, at one path. -/
inductive Effect
  | mkdir (path : Path)
  | write (path : Path)
  | unlink (path : Path)
  | rmdir (path : Path)
  deriving DecidableEq, Repr

/-- The path that an effect touches. -/
def Effect.path : Effect → Path
  | .mkdir path | .write path | .unlink path | .rmdir path => path

/-- `fs.existsSync` -/
def Disk.existsSync (disk : Disk) (path : Path) : Bool :=
  path ∈ disk.files || path ∈ disk.directories

/-- The names in a directory. -/
def Disk.names (disk : Disk) (directory : Path) : List Name :=
  (disk.files ++ disk.directories).filterMap fun path =>
    if path.dropLast = directory then path.getLast? else none

/-- The disk after an effect; none if it is not possible there. -/
def Disk.apply (disk : Disk) : Effect → Option Disk
  | .mkdir path =>
    if disk.existsSync path ∨ path.dropLast ∉ disk.directories then none
    else some { disk with directories := disk.directories ++ [path] }
  | .write path =>
    if path ∈ disk.directories ∨ path.dropLast ∉ disk.directories then none
    else some { disk with files := if path ∈ disk.files then disk.files else disk.files ++ [path] }
  | .unlink path =>
    if path ∉ disk.files then none
    else some { disk with files := disk.files.filter (· ≠ path) }
  | .rmdir path =>
    if path ∉ disk.directories ∨ disk.names path ≠ [] then none
    else some { disk with directories := disk.directories.filter (· ≠ path) }

/-- What an action leaves: its result, the disk and the effects that it attempted. -/
structure Outcome (α : Type) where
  result : Except String α
  disk : Disk
  effects : List Effect

/-- An action on the disk; the environment tells which effects the system refuses. -/
def Action (α : Type) := (Effect → Bool) → Disk → Outcome α

namespace Action

variable {α β : Type}

/-- An action that only computes its result. -/
def ofExcept (result : Except String α) : Action α := fun _ disk => ⟨result, disk, []⟩

/-- Run an action, then the one that its result asks for. -/
def andThen (action : Action α) (next : Except String α → Action β) : Action β :=
  fun refused disk =>
    let first := action refused disk
    let second := next first.result refused first.disk
    ⟨second.result, second.disk, first.effects ++ second.effects⟩

/-- An error is thrown on. -/
def onSuccess (next : α → Action β) : Except String α → Action β
  | .ok a => next a
  | .error e => ofExcept (.error e)

instance : Monad Action where
  pure a := ofExcept (.ok a)
  bind action next := action.andThen (onSuccess next)

instance : MonadLift (Except String) Action where
  monadLift := ofExcept

/-- Go on with the result, an error included. -/
def attempt (action : Action α) : Action (Except String α) :=
  action.andThen fun result => ofExcept (.ok result)

/-- The branch of a negated condition. -/
def skipIf (condition : Bool) (action : Action Unit) : Action Unit :=
  if condition then pure () else action

/-- Look at the disk. -/
def read (f : Disk → Except String α) : Action α := fun _ disk => ⟨f disk, disk, []⟩

/-- Perform an effect; the system may refuse it. -/
def perform (effect : Effect) : Action Unit := fun refused disk =>
  if refused effect then ⟨.error "EIO", disk, [effect]⟩
  else
    match disk.apply effect with
    | none => ⟨.error "EPERM", disk, [effect]⟩
    | some disk' => ⟨.ok (), disk', [effect]⟩

/-- Is there something at the path? -/
def existsSync (path : Path) : Action Bool := read fun disk => .ok (disk.existsSync path)

/-- The names in a directory. -/
def readdir (directory : Path) : Action (List Name) := read fun disk =>
  if directory ∈ disk.directories then .ok (disk.names directory) else .error "ENOENT"

/-- Make the directories of a list that are missing. -/
def mkdirs : List Path → Action Unit
  | [] => pure ()
  | path :: paths => do
    if ← read fun disk => .ok (decide (path ∈ disk.directories)) then mkdirs paths
    else
      perform (.mkdir path)
      mkdirs paths

/-- `fs.mkdirSync(path, { recursive: true })` -/
def mkdirSync (path : Path) : Action Unit := mkdirs path.inits

end Action

/-- Without null bytes, and trimmed. -/
def clean (text : List Char) : List Char :=
  (trim (String.ofList (text.filter (· ≠ '\x00')))).toList

/-- The expression for identifiers: five groups of hexadecimal digits, version 4. -/
def isUuidV4 (text : List Char) : Bool :=
  match text.splitOn '-' with
  | [a, b, c, d, e] =>
    a.length == 8 && b.length == 4 && c.length == 4 && d.length == 4 && e.length == 12 &&
      [a, b, c, d, e].all (·.all isHexDigit) && c.head? == some '4' &&
      d.head?.any fun v => "89abAB".toList.contains v
  | _ => false

/-- The extensions of the images. -/
def imageExtensions : List (List Char) :=
  ["png".toList, "jpg".toList, "jpeg".toList, "webp".toList]

/-- The expression for file names: an identifier, a dot and an extension in either case. -/
def isImageName (text : List Char) : Bool :=
  let (stem, extension) := aroundLast '.' text
  isUuidV4 stem && imageExtensions.contains (extension.map Char.toLower)

/-- Accept an identifier of a user. -/
def validateUserId (userId : List Char) : Except String Name :=
  let cleaned := clean userId
  if isUuidV4 cleaned then .ok cleaned else .error "Invalid user identifier format"

/-- Accept the name of an image. -/
def validateFileName (fileName : List Char) : Except String Name :=
  let cleaned := basename (clean fileName)
  if isImageName cleaned then .ok cleaned else .error "Invalid file name format"

/-- Join path segments, without leaving the base. -/
def safeJoin (base : Path) (segments : List (List Char)) : Except String Path :=
  let resolvedPath := resolve base segments
  let relativePath := relative base resolvedPath
  if ['.', '.'].isPrefixOf relativePath || isAbsolute relativePath then
    .error "Path traversal attempt detected"
  else .ok resolvedPath

/-- The extension of each accepted type. -/
def mimeToExt : List (String × String) :=
  [("image/jpeg", ".jpg"), ("image/jpg", ".jpg"), ("image/png", ".png"), ("image/webp", ".webp")]

/-- The properties that an object literal inherits, as texts. -/
def inheritedText : List (String × String) :=
  [("constructor", "function Object() \x7b [native code] \x7d"),
    ("__defineGetter__", "function __defineGetter__() \x7b [native code] \x7d"),
    ("__defineSetter__", "function __defineSetter__() \x7b [native code] \x7d"),
    ("hasOwnProperty", "function hasOwnProperty() \x7b [native code] \x7d"),
    ("__lookupGetter__", "function __lookupGetter__() \x7b [native code] \x7d"),
    ("__lookupSetter__", "function __lookupSetter__() \x7b [native code] \x7d"),
    ("isPrototypeOf", "function isPrototypeOf() \x7b [native code] \x7d"),
    ("propertyIsEnumerable", "function propertyIsEnumerable() \x7b [native code] \x7d"),
    ("toString", "function toString() \x7b [native code] \x7d"),
    ("valueOf", "function valueOf() \x7b [native code] \x7d"),
    ("__proto__", "[object Object]"),
    ("toLocaleString", "function toLocaleString() \x7b [native code] \x7d")]

/-- `mimeToExt[mimeType]`, its own properties first. -/
def lookupExt (mimeType : String) : Option String :=
  (mimeToExt ++ inheritedText).lookup mimeType

/-- The extension of the original name, or the default. -/
def extensionOfName (originalName : Option String) : String :=
  match nonempty originalName with
  | none => ".png"
  | some name =>
    -- no other character has one of these letters as its lower case
    let ext := String.ofList ((extname name.toList).map Char.toLower)
    if ext ∈ [".jpg", ".jpeg", ".png", ".webp"] then if ext = ".jpeg" then ".jpg" else ext
    else ".png"

/-- The extension of an upload, by its type or its name. -/
def getExtension (mimeType originalName : Option String) : String :=
  match (nonempty mimeType).bind lookupExt with
  | some ext => ext
  | none => extensionOfName originalName

/-- A folder, with letters, digits and hyphens only. -/
def isFolderChar (c : Char) : Bool := isDecimalDigit c || isLetter c || c == '-'

/-- The folder without the characters that no folder may have. -/
def sanitizeFolder (folder : List Char) : List Char :=
  join (((folder.splitOn '/').filter (· ≠ [])).map (·.filter isFolderChar))

/-- The directory of an upload, and the prefix that its URL and its identifier share. -/
structure Target where
  userDir : Path
  pathPrefix : List Char

/-- Where an upload goes, and how its public identifier begins. -/
def destination (uploadsDir : Path) (safeUserId : Name) (folder : Option (List Char)) :
    Except String Target := do
  let userDir ← safeJoin uploadsDir [safeUserId]
  let safeFolder := sanitizeFolder (folder.getD [])
  if safeFolder = [] then return { userDir, pathPrefix := safeUserId }
  else
    let userDir ← safeJoin uploadsDir [safeFolder]
    return { userDir, pathPrefix := safeFolder }

/-- What `uuidv4` makes. -/
structure Uuid where
  text : Name
  isV4 : isUuidV4 text = true

/-- What an upload brings. -/
structure ImageUploadInput where
  filePath : Option String
  hasBuffer : Bool
  hasStream : Bool
  mimeType : Option String
  originalName : Option String

/-- What the caller is told of a stored image. -/
structure Uploaded where
  url : List Char
  publicId : List Char
  deriving DecidableEq

/-- Write the file of an upload, if there is a source to write. -/
def writeImage (userDir destFilepath : Path) (hasSource : Bool) : Action Unit := do
  let present ← Action.existsSync userDir
  Action.skipIf present (Action.mkdirSync userDir)
  Action.skipIf hasSource (Action.ofExcept (.error "No image data provided"))
  Action.perform (.write destFilepath)

/-- Validate, write and name an upload. -/
def store (uploadsDir : Path) (userId : List Char) (folder : Option (List Char))
    (filename : Name) (hasSource : Bool) : Action Uploaded := do
  let safeUserId ← validateUserId userId
  let target ← destination uploadsDir safeUserId folder
  let destFilepath ← safeJoin target.userDir [filename]
  writeImage target.userDir destFilepath hasSource
  return { url := "/api/uploads/".toList ++ target.pathPrefix ++ '/' :: filename
           publicId := target.pathPrefix ++ '/' :: filename }

/-- The source is the file at a path, which the system may refuse to read. -/
def uploadImage (uploadsDir : Path) (userId : List Char) (folder : Option (List Char))
    (uuid : Uuid) : Action Uploaded :=
  store uploadsDir userId folder (uuid.text ++ ".png".toList) true

/-- Without a buffer or a stream, a path is left to `uploadImage`. -/
def ImageUploadInput.isLegacy (input : ImageUploadInput) : Bool :=
  (nonempty input.filePath).isSome && !input.hasBuffer && !input.hasStream

/-- Store an upload from a file, from memory or from a stream. -/
def uploadImageStream (uploadsDir : Path) (input : ImageUploadInput) (userId : List Char)
    (folder : Option (List Char)) (uuid : Uuid) : Action Uploaded :=
  if input.isLegacy then uploadImage uploadsDir userId folder uuid
  else
    store uploadsDir userId folder
      (uuid.text ++ (getExtension input.mimeType input.originalName).toList)
      (input.hasBuffer || input.hasStream)

/-- Delete a file in the directory of a user, if it exists. -/
def unlinkExisting (uploadsDir : Path) (userId fileName : Name) : Action Bool := do
  let filePath ← safeJoin uploadsDir [userId, fileName]
  if ← Action.existsSync filePath then
    Action.perform (.unlink filePath)
    return true
  else return false

/-- The loop over the directories of users; errors go on with the next one. -/
def scanLegacy (uploadsDir : Path) (safeFileName : Name) : List Name → Action Unit
  | [] => pure ()
  | userDir :: userDirs => do
    let found ← Action.attempt do
      let safeUserDir ← validateUserId userDir
      unlinkExisting uploadsDir safeUserDir safeFileName
    if found = .ok true then pure () else scanLegacy uploadsDir safeFileName userDirs

/-- Delete an image that is known by its file name alone. -/
def deleteLegacyImage (uploadsDir : Path) (filename : List Char) : Action Unit := do
  let safeFileName ← validateFileName filename
  let userDirs ← Action.readdir uploadsDir
  scanLegacy uploadsDir safeFileName userDirs

/-- Delete an image by its public identifier. -/
def deleteImage (uploadsDir : Path) (publicId : List Char) : Action Unit :=
  match publicId.splitOn '/' with
  | [userId, filename] => do
    let safeUserId ← validateUserId userId
    let safeFileName ← validateFileName filename
    -- with a slash in the identifier there is no scan, whether the file exists or not
    let _ ← unlinkExisting uploadsDir safeUserId safeFileName
    return ()
  | [filename] => deleteLegacyImage uploadsDir filename
  | _ => pure ()

/-- The expression for the path of a URL: its last three names. -/
def extractPublicId (pathname : Option (List Char)) : Option Name :=
  match (pathname.map fun text => (text.splitOn '/').reverse) with
  | some (file :: directory :: uploads :: _ :: _) =>
    if uploads = "uploads".toList ∧ directory ≠ [] ∧ file ≠ [] then some file else none
  | _ => none

/-- Whether an asset was deleted. The path of the URL is what the URL parser and
`decodeURIComponent` make of it, if they do not throw. -/
def deleteAssetByUrl (uploadsDir : Path) (pathnameOf : List Char → Option (List Char))
    (ownerPublicId url : List Char) : Action Bool :=
  match (extractPublicId (pathnameOf url)).map validateFileName with
  | some (.ok safeFileName) => do
    let safeOwner ← validateUserId ownerPublicId
    let assetPath ← safeJoin uploadsDir [safeOwner, safeFileName]
    if ← Action.read fun disk => .ok (decide (assetPath ∈ disk.files)) then
      Action.perform (.unlink assetPath)
      return true
    else return false
  | _ => pure false

/-- Each file of a directory; those that cannot be deleted are skipped. -/
def unlinkAll (userDir : Path) : List Name → Action Unit
  | [] => pure ()
  | file :: files => do
    let _ ← Action.attempt do
      let safeFileName ← validateFileName file
      let filePath ← safeJoin userDir [safeFileName]
      Action.perform (.unlink filePath)
    unlinkAll userDir files

/-- The body of the `try` block. -/
def deleteMany (uploadsDir : Path) (username : List Char) : Action Unit := do
  let safeUsername ← validateUserId username
  let userDir ← safeJoin uploadsDir [safeUsername]
  if ← Action.existsSync userDir then
    let files ← Action.readdir userDir
    if files = [] then return ()
    else
      unlinkAll userDir files
      let remainingFiles ← Action.readdir userDir
      if remainingFiles = [] then Action.perform (.rmdir userDir) else return ()
  else return ()

end Ascendance.LocalStorage
