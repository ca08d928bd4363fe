import Ascendance.Core.Lists
import Ascendance.Models.LocalStorage.Storage
import Mathlib.Data.List.Infix

/-!
# Confinement

Every path that an action of the storage touches lies below the uploads directory: the
join of paths rejects whatever leads out of it, and names of users and files have the form
of identifiers.
-/

namespace Ascendance.LocalStorage

open Ascendance.Core Ascendance.Core.PosixPath

/-- Strictly inside of a directory. -/
def Below (base path : Path) : Prop := base <+: path ∧ path ≠ base

/-- The uploads directory, which the constructor makes, and what leads to it. -/
def Ready (uploadsDir : Path) (disk : Disk) : Prop :=
  ∀ path, path <+: uploadsDir → path ∈ disk.directories

/-- The action stays below the uploads directory and does not remove it. -/
def Confined {α : Type} (uploadsDir : Path) (action : Action α) : Prop :=
  ∀ refused disk, Ready uploadsDir disk →
    (∀ effect ∈ (action refused disk).effects, Below uploadsDir effect.path) ∧
      Ready uploadsDir (action refused disk).disk

/-- A name below a directory leads below it. -/
theorem Below.append {base path : Path} {name : Name} (h : base <+: path) :
    Below base (path ++ [name]) := by
  refine ⟨h.trans (List.prefix_append _ _), fun heq => ?_⟩
  have hlength := h.length_le
  rw [← heq, List.length_append, List.length_singleton] at hlength
  omega

private theorem Below.not_isPrefix {base path : Path} (h : Below base path) : ¬path <+: base :=
  fun hle => h.2 (hle.eq_of_length_le h.1.length_le)

namespace Confined

variable {α β : Type} {uploadsDir : Path}

/-- A computed result touches no file. -/
theorem ofExcept (r : Except String α) : Confined uploadsDir (Action.ofExcept r) :=
  fun _ _ hready => ⟨fun _ h => absurd h List.not_mem_nil, hready⟩

/-- A value touches no file. -/
theorem pure (a : α) : Confined uploadsDir (Pure.pure a : Action α) := ofExcept _

/-- Reading touches no file. -/
theorem read (f : Disk → Except String α) : Confined uploadsDir (Action.read f) :=
  fun _ _ hready => ⟨fun _ h => absurd h List.not_mem_nil, hready⟩

/-- An action and what follows it are confined when both are. -/
theorem andThen {action : Action α} {next : Except String α → Action β}
    (h : Confined uploadsDir action) (hnext : ∀ r, Confined uploadsDir (next r)) :
    Confined uploadsDir (action.andThen next) := by
  intro refused disk hready
  obtain ⟨hfirst, hready'⟩ := h refused disk hready
  obtain ⟨hsecond, hready''⟩ := hnext (action refused disk).result refused _ hready'
  refine ⟨fun effect heffect => ?_, hready''⟩
  rcases List.mem_append.mp heffect with hmem | hmem
  · exact hfirst effect hmem
  · exact hsecond effect hmem

/-- What follows a success is confined when it is for each value. -/
theorem onSuccess {next : α → Action β} {r : Except String α}
    (hnext : ∀ a, r = .ok a → Confined uploadsDir (next a)) :
    Confined uploadsDir (Action.onSuccess next r) := by
  cases r with
  | ok a => exact hnext a rfl
  | error e => exact ofExcept _

/-- A sequence of confined actions is confined. -/
theorem bind {action : Action α} {next : α → Action β} (h : Confined uploadsDir action)
    (hnext : ∀ a, Confined uploadsDir (next a)) : Confined uploadsDir (action >>= next) :=
  h.andThen fun _ => onSuccess fun a _ => hnext a

/-- After a check the rest may rely on its result. -/
theorem check {r : Except String α} {next : α → Action β}
    (hnext : ∀ a, r = .ok a → Confined uploadsDir (next a)) :
    Confined uploadsDir ((liftM r : Action α) >>= next) := by
  intro refused disk hready
  have h := onSuccess hnext refused disk hready
  exact ⟨fun effect heffect => h.1 effect heffect, h.2⟩

/-- An action whose error is caught is confined when it is. -/
theorem attempt {action : Action α} (h : Confined uploadsDir action) :
    Confined uploadsDir action.attempt := h.andThen fun _ => ofExcept _

/-- An action that may be skipped is confined when it is. -/
theorem skipIf {action : Action Unit} (condition : Bool) (h : Confined uploadsDir action) :
    Confined uploadsDir (Action.skipIf condition action) := by
  unfold Action.skipIf
  split
  · exact pure ()
  · exact h

/-- An effect below the uploads directory keeps the directory. -/
theorem ready_apply {disk disk' : Disk} {effect : Effect} (hready : Ready uploadsDir disk)
    (hbelow : Below uploadsDir effect.path) (h : disk.apply effect = some disk') :
    Ready uploadsDir disk' := by
  intro path hpath
  have hmem := hready path hpath
  cases effect with
  | mkdir target =>
    rw [Disk.apply] at h
    split at h
    · cases h
    · cases h
      exact List.mem_append_left _ hmem
  | write target =>
    rw [Disk.apply] at h
    split at h
    · cases h
    · cases h
      exact hmem
  | unlink target =>
    rw [Disk.apply] at h
    split at h
    · cases h
    · cases h
      exact hmem
  | rmdir target =>
    rw [Disk.apply] at h
    split at h
    · cases h
    · cases h
      refine List.mem_filter.mpr ⟨hmem, decide_eq_true fun heq => ?_⟩
      exact hbelow.not_isPrefix (heq ▸ hpath)

/-- An effect below the directory is confined. -/
theorem perform {effect : Effect} (hbelow : Below uploadsDir effect.path) :
    Confined uploadsDir (Action.perform effect) := by
  intro refused disk hready
  unfold Action.perform
  split
  · exact ⟨fun e he => List.mem_singleton.mp he ▸ hbelow, hready⟩
  · split
    · exact ⟨fun e he => List.mem_singleton.mp he ▸ hbelow, hready⟩
    · next happly =>
      exact ⟨fun e he => List.mem_singleton.mp he ▸ hbelow, ready_apply hready hbelow happly⟩

/-- Directories that lead to the uploads directory are not made. -/
theorem mkdirs {paths : List Path}
    (h : ∀ path ∈ paths, path <+: uploadsDir ∨ Below uploadsDir path) :
    Confined uploadsDir (Action.mkdirs paths) := by
  induction paths with
  | nil => exact pure ()
  | cons path paths ih =>
    obtain ⟨hpath, hpaths⟩ := List.forall_mem_cons.mp h
    have hrest := ih hpaths
    intro refused disk hready
    rw [Action.mkdirs]
    by_cases hmem : path ∈ disk.directories
    · have hskip : (Action.read fun disk => .ok (decide (path ∈ disk.directories))) refused disk =
          ⟨.ok true, disk, []⟩ := by simp [Action.read, hmem]
      change _ ∧ _
      simp only [Bind.bind, Action.andThen, hskip, Action.onSuccess, List.nil_append, if_true]
      exact hrest refused disk hready
    · have hmake : (Action.read fun disk => .ok (decide (path ∈ disk.directories))) refused disk =
          ⟨.ok false, disk, []⟩ := by simp [Action.read, hmem]
      have hbelow := hpath.resolve_left fun hle => hmem (hready path hle)
      simp only [Bind.bind, Action.andThen, hmake, Action.onSuccess, List.nil_append]
      have hmkdir : Confined uploadsDir (Action.perform (.mkdir path)) := perform hbelow
      have hboth := hmkdir.bind fun _ => hrest
      exact hboth refused disk hready

/-- Making a directory below the uploads is confined. -/
theorem mkdirSync {path : Path} (h : uploadsDir <+: path) :
    Confined uploadsDir (Action.mkdirSync path) := by
  refine mkdirs fun sub hsub => ?_
  have hle : sub <+: path := (List.mem_inits _ _).mp hsub
  rcases List.prefix_or_prefix_of_prefix hle h with hsub | hsub
  · exact .inl hsub
  · by_cases heq : sub = uploadsDir
    · exact .inl (heq ▸ List.prefix_rfl)
    · exact .inr ⟨hsub, heq⟩

end Confined

/-- The characters of identifiers. -/
def isUuidChar (c : Char) : Bool := isHexDigit c || c == '-'

/-- An identifier consists of hexadecimal digits and hyphens. -/
theorem isUuidChar_of_isUuidV4 {text : List Char} (h : isUuidV4 text = true) :
    ∀ c ∈ text, isUuidChar c = true := by
  rw [isUuidV4] at h
  split at h
  · next a b c d e hparts =>
    simp only [Bool.and_eq_true, List.all_eq_true] at h
    refine forall_mem_of_splitOn '-' rfl fun part hpart ch hch => ?_
    have hhex := h.1.1.2 part (hparts ▸ hpart) ch hch
    rw [isUuidChar, hhex]
    rfl
  · cases h

private theorem ne_nil_of_isUuidV4 {text : List Char} (h : isUuidV4 text = true) : text ≠ [] := by
  rintro rfl
  cases h

/-- An identifier starts a name that is one step down. -/
theorem plain_append {stem rest : Name} (hstem : isUuidV4 stem = true) (hrest : '/' ∉ rest) :
    Plain (stem ++ rest) := by
  have hchars := isUuidChar_of_isUuidV4 hstem
  obtain ⟨c, tail, rfl⟩ := List.exists_cons_of_ne_nil (ne_nil_of_isUuidV4 hstem)
  have hdot : c ≠ '.' := by
    rintro rfl
    exact absurd (hchars '.' List.mem_cons_self) (by decide)
  refine ⟨by simp, by simp [hdot], by simp [hdot], fun hmem => ?_⟩
  rcases List.mem_append.mp hmem with hmem | hmem
  · exact absurd (hchars '/' hmem) (by decide)
  · exact hrest hmem

/-- An identifier is a plain name. -/
theorem plain_of_isUuidV4 {text : Name} (h : isUuidV4 text = true) : Plain text := by
  have hplain : Plain (text ++ []) := plain_append h List.not_mem_nil
  rwa [List.append_nil] at hplain

/-- A file name is an identifier, a dot and an extension. -/
theorem isImageName_iff {text : Name} : isImageName text = true ↔
    ∃ stem extension, text = stem ++ '.' :: extension ∧ '.' ∉ extension ∧
      isUuidV4 stem = true ∧ extension.map Char.toLower ∈ imageExtensions := by
  simp only [isImageName, Bool.and_eq_true, List.contains_iff_mem]
  constructor
  · rintro ⟨hstem, hextension⟩
    by_cases hdot : '.' ∈ text
    · obtain ⟨before, after, rfl, hafter⟩ := exists_eq_append_last hdot
      rw [aroundLast_append hafter] at hstem hextension
      exact ⟨before, after, rfl, hafter, hstem, hextension⟩
    · rw [aroundLast_of_not_mem hdot] at hstem
      cases hstem
  · rintro ⟨stem, extension, rfl, hdot, hstem, hextension⟩
    rw [aroundLast_append hdot]
    exact ⟨hstem, hextension⟩

/-- A validated user identifier is an identifier. -/
theorem validateUserId_ok {userId name : Name} (h : validateUserId userId = .ok name) :
    isUuidV4 name = true := by
  simp only [validateUserId] at h
  split at h
  · next hvalid => exact Except.ok.inj h ▸ hvalid
  · nomatch h

/-- A validated file name is plain. -/
private theorem validateFileName_ok {fileName name : Name}
    (h : validateFileName fileName = .ok name) :
    Plain name := by
  simp only [validateFileName] at h
  split at h
  · next hvalid =>
    obtain ⟨stem, extension, heq, _, hstem, _⟩ := isImageName_iff.mp hvalid
    have hslash := basename_no_slash (clean fileName)
    rw [← Except.ok.inj h]
    rw [heq] at hslash ⊢
    exact plain_append hstem fun hmem => hslash (List.mem_append_right _ hmem)
  · nomatch h

/-- A joined path is inside its base. -/
private theorem safeJoin_ok {base path : Path} {segments : List (List Char)}
    (h : safeJoin base segments = .ok path) : path = resolve base segments ∧ base <+: path := by
  simp only [safeJoin] at h
  split at h
  · cases h
  · next hcheck =>
    rw [Bool.or_eq_true, not_or, Bool.not_eq_true, Bool.not_eq_true] at hcheck
    cases h
    exact ⟨rfl, isPrefix_of_relative hcheck.1⟩

/-- Joining a plain name leads one level down. -/
theorem safeJoin_plain {base path : Path} {name : Name} (hname : Plain name)
    (h : safeJoin base [name] = .ok path) : path = base ++ [name] := by
  rw [(safeJoin_ok h).1, resolve, List.foldl_cons, List.foldl_nil, enter_plain base hname]

/-- Two plain names lead to a file of a directory of the base. -/
private theorem safeJoin_plain_plain {base path : Path} {first second : Name} (hfirst : Plain first)
    (hsecond : Plain second) (h : safeJoin base [first, second] = .ok path) :
    path = base ++ [first] ++ [second] := by
  rw [(safeJoin_ok h).1, resolve, List.foldl_cons, List.foldl_cons, List.foldl_nil,
    enter_plain base hfirst, enter_plain _ hsecond]

/-- An upload goes to the directory of the folder, or to that of the user. -/
theorem destination_ok {uploadsDir : Path} {userId : Name} {folder : Option (List Char)}
    {target : Target} (h : destination uploadsDir userId folder = .ok target) :
    safeJoin uploadsDir [target.pathPrefix] = .ok target.userDir ∧
      target.pathPrefix = if sanitizeFolder (folder.getD []) = [] then userId
        else sanitizeFolder (folder.getD []) := by
  unfold destination at h
  cases hjoin : safeJoin uploadsDir [userId] with
  | error e =>
    rw [hjoin] at h
    cases h
  | ok path =>
    rw [hjoin] at h
    simp only [Except.bind, Bind.bind] at h
    split at h
    · next hnil =>
      cases h
      exact ⟨hjoin, (if_pos hnil).symm⟩
    · next hne =>
      cases hfolder : safeJoin uploadsDir [sanitizeFolder (folder.getD [])] with
      | error e =>
        rw [hfolder] at h
        cases h
      | ok path =>
        rw [hfolder] at h
        cases h
        exact ⟨hfolder, (if_neg hne).symm⟩

/-- The extension of a name is one of three. -/
private theorem extensionOfName_mem (originalName : Option String) :
    extensionOfName originalName ∈ [".jpg", ".png", ".webp"] := by
  unfold extensionOfName
  split
  · decide
  · next name _ =>
    simp only
    split
    · next hmem =>
      split
      · decide
      · next hne =>
        rcases List.mem_cons.mp hmem with heq | hmem
        · simp [heq]
        · rcases List.mem_cons.mp hmem with heq | hmem
          · exact absurd heq hne
          · exact List.mem_cons_of_mem _ hmem
    · decide

/-- The extensions of uploads: three of them, unless the MIME type names an inherited property. -/
theorem getExtension_mem (mimeType originalName : Option String) :
    getExtension mimeType originalName ∈ [".jpg", ".png", ".webp"] ∨
      ∃ name, mimeType = some name ∧
        (name, getExtension mimeType originalName) ∈ inheritedText := by
  unfold getExtension
  cases hext : (nonempty mimeType).bind lookupExt with
  | none => exact .inl (extensionOfName_mem originalName)
  | some ext =>
    obtain ⟨name, hname, hlookup⟩ := Option.bind_eq_some_iff.mp hext
    rcases List.mem_append.mp (mem_of_lookup hlookup) with hown | hinherited
    · have hall : ∀ entry ∈ mimeToExt, entry.2 ∈ [".jpg", ".png", ".webp"] := by decide
      exact .inl (hall _ hown)
    · exact .inr ⟨name, (Option.filter_eq_some_iff.mp hname).1, hinherited⟩

/-- An extension contains no slash. -/
theorem no_slash_getExtension (mimeType originalName : Option String) :
    '/' ∉ (getExtension mimeType originalName).toList := by
  rcases getExtension_mem mimeType originalName with hmem | ⟨name, _, hmem⟩
  · have hall : ∀ ext ∈ [".jpg", ".png", ".webp"], '/' ∉ ext.toList := by decide
    exact hall _ hmem
  · have hall : ∀ entry ∈ inheritedText, '/' ∉ entry.2.toList := by decide +kernel
    exact hall _ hmem

variable {uploadsDir : Path}

/-- Storing a file stays inside. -/
private theorem confined_store (userId : List Char) (folder : Option (List Char)) {filename : Name}
    (hasSource : Bool) (hname : Plain filename) :
    Confined uploadsDir (store uploadsDir userId folder filename hasSource) := by
  unfold store
  refine .check fun safeUserId _ => .check fun target htarget => .check fun path hpath => ?_
  have hinside := (safeJoin_ok (destination_ok htarget).1).2
  have hbelow : Below uploadsDir path := safeJoin_plain hname hpath ▸ Below.append hinside
  refine .bind ?_ fun _ => .pure _
  unfold writeImage
  exact .bind (.read _) fun present => .bind (.skipIf _ (.mkdirSync hinside)) fun _ =>
    .bind (.skipIf _ (.ofExcept _)) fun _ => .perform hbelow

/-- Deleting a file of a user stays inside. -/
private theorem confined_unlinkExisting {userId fileName : Name} (huser : Plain userId)
    (hfile : Plain fileName) : Confined uploadsDir (unlinkExisting uploadsDir userId fileName) := by
  unfold unlinkExisting
  refine .check fun path hpath => .bind (.read _) fun present => ?_
  have hbelow : Below uploadsDir path :=
    safeJoin_plain_plain huser hfile hpath ▸ Below.append (List.prefix_append _ _)
  split
  · exact .bind (.perform hbelow) fun _ => .pure _
  · exact .pure _

/-- Looking for an old file stays inside. -/
private theorem confined_scanLegacy {fileName : Name} (hfile : Plain fileName)
    (userDirs : List Name) :
    Confined uploadsDir (scanLegacy uploadsDir fileName userDirs) := by
  induction userDirs with
  | nil => exact .pure _
  | cons userDir userDirs ih =>
    rw [scanLegacy]
    refine .bind (.attempt (.check fun safeUserDir hvalid => ?_)) fun found => ?_
    · exact confined_unlinkExisting (plain_of_isUuidV4 (validateUserId_ok hvalid)) hfile
    · split
      · exact .pure _
      · exact ih

/-- Deleting an image stays inside. -/
private theorem confined_deleteImage (publicId : List Char) :
    Confined uploadsDir (deleteImage uploadsDir publicId) := by
  unfold deleteImage
  split
  · refine .check fun safeUserId huser => .check fun safeFileName hfile => ?_
    exact .bind (confined_unlinkExisting (plain_of_isUuidV4 (validateUserId_ok huser))
      (validateFileName_ok hfile)) fun _ => .pure _
  · unfold deleteLegacyImage
    refine .check fun safeFileName hfile => .bind (.read _) fun userDirs => ?_
    exact confined_scanLegacy (validateFileName_ok hfile) userDirs
  · exact .pure _

/-- Deleting a file by its URL stays inside. -/
private theorem confined_deleteAssetByUrl (pathnameOf : List Char → Option (List Char))
    (ownerPublicId url : List Char) :
    Confined uploadsDir (deleteAssetByUrl uploadsDir pathnameOf ownerPublicId url) := by
  unfold deleteAssetByUrl
  split
  · next safeFileName hname =>
    obtain ⟨publicId, _, hfile⟩ := Option.map_eq_some_iff.mp hname
    refine .check fun safeOwner howner => .check fun path hpath => .bind (.read _) fun isFile => ?_
    have hbelow : Below uploadsDir path :=
      safeJoin_plain_plain (plain_of_isUuidV4 (validateUserId_ok howner))
        (validateFileName_ok hfile) hpath ▸ Below.append (List.prefix_append _ _)
    split
    · exact .bind (.perform hbelow) fun _ => .pure _
    · exact .pure _
  · exact .pure _

private theorem confined_unlinkAll {userDir : Path} (hinside : uploadsDir <+: userDir)
    (files : List Name) : Confined uploadsDir (unlinkAll userDir files) := by
  induction files with
  | nil => exact .pure _
  | cons file files ih =>
    rw [unlinkAll]
    refine .bind (.attempt (.check fun name hname => .check fun path hpath => ?_)) fun _ => ih
    have hpath := safeJoin_plain (validateFileName_ok hname) hpath
    exact .perform (hpath ▸ Below.append hinside)

/-- Deleting the files of a user stays inside. -/
private theorem confined_deleteMany (username : List Char) :
    Confined uploadsDir (deleteMany uploadsDir username) := by
  unfold deleteMany
  refine .check fun safeUsername huser => .check fun userDir hdir => .bind (.read _) fun present =>
    ?_
  have hdir := safeJoin_plain (plain_of_isUuidV4 (validateUserId_ok huser)) hdir
  have hbelow : Below uploadsDir userDir := hdir ▸ Below.append List.prefix_rfl
  split
  · refine .bind (.read _) fun files => ?_
    split
    · exact .pure _
    · refine .bind (confined_unlinkAll hbelow.1 files) fun _ => .bind (.read _) fun remaining => ?_
      split
      · exact .perform hbelow
      · exact .pure _
  · exact .pure _

/-- The calls of the service, with the identifier that an upload draws. -/
inductive Call
  | uploadImageStream (input : ImageUploadInput) (userId : List Char)
      (folder : Option (List Char)) (uuid : Uuid)
  | uploadImage (userId : List Char) (folder : Option (List Char)) (uuid : Uuid)
  | deleteImage (publicId : List Char)
  | deleteAssetByUrl (ownerPublicId url : List Char)
  | deleteMany (username : List Char)

/-- What a call does to the disk. -/
def Call.run (uploadsDir : Path) (pathnameOf : List Char → Option (List Char)) :
    Call → Action Unit
  | .uploadImageStream input userId folder uuid => do
    let _ ← LocalStorage.uploadImageStream uploadsDir input userId folder uuid
    return ()
  | .uploadImage userId folder uuid => do
    let _ ← LocalStorage.uploadImage uploadsDir userId folder uuid
    return ()
  | .deleteImage publicId => LocalStorage.deleteImage uploadsDir publicId
  | .deleteAssetByUrl ownerPublicId url => do
    let _ ← LocalStorage.deleteAssetByUrl uploadsDir pathnameOf ownerPublicId url
    return ()
  | .deleteMany username => LocalStorage.deleteMany uploadsDir username

/-- An upload stays inside. -/
private theorem confined_uploadImage (userId : List Char) (folder : Option (List Char))
    (uuid : Uuid) :
    Confined uploadsDir (uploadImage uploadsDir userId folder uuid) :=
  confined_store userId folder true (plain_append uuid.isV4 (by decide))

/-- An upload from a stream stays inside. -/
private theorem confined_uploadImageStream (input : ImageUploadInput) (userId : List Char)
    (folder : Option (List Char)) (uuid : Uuid) :
    Confined uploadsDir (uploadImageStream uploadsDir input userId folder uuid) := by
  unfold uploadImageStream
  split
  · exact confined_uploadImage userId folder uuid
  · exact confined_store userId folder _
      (plain_append uuid.isV4 (no_slash_getExtension input.mimeType input.originalName))

/-- Every call stays below the uploads directory. -/
theorem confined_run (pathnameOf : List Char → Option (List Char)) (call : Call) :
    Confined uploadsDir (call.run uploadsDir pathnameOf) := by
  cases call with
  | uploadImageStream input userId folder uuid =>
    exact .bind (confined_uploadImageStream input userId folder uuid) fun _ => .pure _
  | uploadImage userId folder uuid =>
    exact .bind (confined_uploadImage userId folder uuid) fun _ => .pure _
  | deleteImage publicId => exact confined_deleteImage publicId
  | deleteAssetByUrl ownerPublicId url =>
    exact .bind (confined_deleteAssetByUrl pathnameOf ownerPublicId url) fun _ => .pure _
  | deleteMany username => exact confined_deleteMany username

end Ascendance.LocalStorage
