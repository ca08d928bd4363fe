import Ascendance.Models.LocalStorage.Confined

/-!
# Deleting what was uploaded

The identifier of an upload is a prefix, a slash and the file name. `deleteImage` takes it
apart and checks both parts again: it finds the file if the prefix is an identifier of a
user and the name has one of the extensions of images.
-/

namespace Ascendance.LocalStorage

open Ascendance.Core Ascendance.Core.PosixPath

/-- What the effects of an action have in common. -/
def Attempts {α : Type} (P : Effect → Prop) (action : Action α) : Prop :=
  ∀ refused disk, ∀ effect ∈ (action refused disk).effects, P effect

namespace Attempts

variable {α β : Type} {P : Effect → Prop}

/-- A computed result attempts no effect. -/
theorem ofExcept (r : Except String α) : Attempts P (Action.ofExcept r) :=
  fun _ _ _ h => absurd h List.not_mem_nil

/-- Reading attempts no effect. -/
theorem read (f : Disk → Except String α) : Attempts P (Action.read f) :=
  fun _ _ _ h => absurd h List.not_mem_nil

/-- Performing an effect attempts this one. -/
theorem perform {effect : Effect} (h : P effect) : Attempts P (Action.perform effect) := by
  intro refused disk e he
  unfold Action.perform at he
  split at he
  · exact List.mem_singleton.mp he ▸ h
  · split at he
    · exact List.mem_singleton.mp he ▸ h
    · exact List.mem_singleton.mp he ▸ h

/-- A sequence attempts what its parts attempt. -/
theorem bind {action : Action α} {next : α → Action β} (h : Attempts P action)
    (hnext : ∀ a, Attempts P (next a)) : Attempts P (action >>= next) := by
  intro refused disk effect heffect
  rcases List.mem_append.mp heffect with hmem | hmem
  · exact h refused disk effect hmem
  · cases hresult : (action refused disk).result with
    | error e =>
      rw [hresult] at hmem
      cases hmem
    | ok a =>
      rw [hresult] at hmem
      exact hnext a refused _ effect hmem

/-- An action that may be skipped attempts at most its effects. -/
theorem skipIf {action : Action Unit} (condition : Bool) (h : Attempts P action) :
    Attempts P (Action.skipIf condition action) := by
  unfold Action.skipIf
  split
  · exact ofExcept _
  · exact h

/-- Making directories attempts nothing else. -/
theorem mkdirs {paths : List Path} (h : ∀ path, P (.mkdir path)) :
    Attempts P (Action.mkdirs paths) := by
  induction paths with
  | nil => exact ofExcept _
  | cons path paths ih =>
    rw [Action.mkdirs]
    refine bind (read _) fun present => ?_
    split
    · exact ih
    · exact bind (perform (h path)) fun _ => ih

end Attempts

/-- The only file that is written is the one of the image. -/
theorem attempts_writeImage (userDir destFilepath : Path) (hasSource : Bool) :
    Attempts (fun effect => ∀ path, effect = .write path → path = destFilepath)
      (writeImage userDir destFilepath hasSource) := by
  unfold writeImage
  refine .bind (.read _) fun present => .bind (.skipIf _ (.mkdirs fun path written h => ?_))
    fun _ => .bind (.skipIf _ (.ofExcept _)) fun _ => .perform fun path h => ?_
  · cases h
  · exact (Effect.write.inj h).symm

section Checks

variable {α β : Type} {r : Except String α} {next : α → Action β} {refused : Effect → Bool}
  {disk : Disk}

/-- A check that passes goes on. -/
private theorem check_eq {a : α} (h : r = .ok a) :
    ((liftM r : Action α) >>= next) refused disk = next a refused disk := by
  rw [h]
  rfl

/-- A check that fails ends the action and leaves the disk. -/
private theorem check_error {e : String} (h : r = .error e) :
    ((liftM r : Action α) >>= next) refused disk = ⟨.error e, disk, []⟩ := by
  rw [h]
  rfl

/-- A check that an action passed. -/
theorem check_ok {b : β}
    (h : (((liftM r : Action α) >>= next) refused disk).result = .ok b) :
    ∃ a, r = .ok a ∧ ((liftM r : Action α) >>= next) refused disk = next a refused disk := by
  cases r with
  | error e => cases h
  | ok a => exact ⟨a, rfl, rfl⟩

end Checks

variable {uploadsDir : Path}

/-- The file of a successful upload, and the identifier that it got. -/
theorem store_ok {userId : List Char} {folder : Option (List Char)} {filename : Name}
    {hasSource : Bool} {refused : Effect → Bool} {disk : Disk} {uploaded : Uploaded}
    (h : (store uploadsDir userId folder filename hasSource refused disk).result = .ok uploaded) :
    ∃ safeUserId target path, validateUserId userId = .ok safeUserId ∧
      destination uploadsDir safeUserId folder = .ok target ∧
      safeJoin target.userDir [filename] = .ok path ∧
      uploaded.publicId = target.pathPrefix ++ '/' :: filename ∧
      ∀ written, .write written ∈
        (store uploadsDir userId folder filename hasSource refused disk).effects →
        written = path := by
  unfold store at h ⊢
  obtain ⟨safeUserId, huser, heq⟩ := check_ok h
  rw [heq] at h ⊢
  obtain ⟨target, htarget, heq⟩ := check_ok h
  rw [heq] at h ⊢
  obtain ⟨path, hpath, heq⟩ := check_ok h
  rw [heq] at h ⊢
  refine ⟨safeUserId, target, path, huser, htarget, hpath, ?_, fun written hwritten => ?_⟩
  · simp only [Bind.bind, Action.andThen] at h
    cases hwrite : (writeImage target.userDir path hasSource refused disk).result with
    | error e =>
      rw [hwrite] at h
      cases h
    | ok u =>
      rw [hwrite] at h
      exact congrArg Uploaded.publicId (Except.ok.inj h).symm
  · exact (Attempts.bind (attempts_writeImage target.userDir path hasSource) fun _ => .ofExcept _)
      refused disk _ hwritten written rfl

/-- A character of ASCII that is not white space or a control. -/
def Visible (c : Char) : Prop := 0x21 ≤ c.toNat ∧ c.toNat ≤ 0x7E

/-- A text of visible characters is clean. -/
theorem clean_eq {text : List Char} (h : ∀ c ∈ text, Visible c) : clean text = text := by
  have hnull : text.filter (· ≠ '\x00') = text := by
    refine List.filter_eq_self.mpr fun c hc => decide_eq_true fun heq => ?_
    exact absurd (heq ▸ (h c hc).1) (by decide)
  have htrim := trim_padded (List.forall_mem_nil _) fun c hc =>
    isSpace_of_visible (h c ((String.toList_ofList (l := text)) ▸ hc))
  rw [List.nil_append, String.toList_ofList] at htrim
  rw [clean, hnull, htrim, String.toList_ofList]

private theorem visible_of_isFolderChar {c : Char} (h : isFolderChar c = true) : Visible c := by
  simp only [isFolderChar, isDecimalDigit, isLetter, Bool.or_eq_true, Bool.and_eq_true,
    decide_eq_true_eq, beq_iff_eq, Char.le_def, UInt32.le_iff_toNat_le] at h
  rcases h with (⟨hl, hr⟩ | ⟨hl, hr⟩ | ⟨hl, hr⟩) | rfl
  all_goals first
    | exact ⟨Nat.le_trans (by decide) hl, Nat.le_trans hr (by decide)⟩
    | exact ⟨by decide, by decide⟩

private theorem visible_of_isUuidChar {c : Char} (h : isUuidChar c = true) : Visible c := by
  simp only [isUuidChar, isHexDigit, isDecimalDigit, Bool.or_eq_true, Bool.and_eq_true,
    decide_eq_true_eq, beq_iff_eq, Char.le_def, UInt32.le_iff_toNat_le] at h
  rcases h with ((⟨hl, hr⟩ | ⟨hl, hr⟩) | ⟨hl, hr⟩) | rfl
  all_goals first
    | exact ⟨Nat.le_trans (by decide) hl, Nat.le_trans hr (by decide)⟩
    | exact ⟨by decide, by decide⟩

/-- A sanitised folder has letters, digits, hyphens and slashes. -/
theorem visible_sanitizeFolder (folder : List Char) : ∀ c ∈ sanitizeFolder folder, Visible c := by
  intro c hc
  rcases mem_join hc with rfl | ⟨name, hname, hmem⟩
  · exact ⟨by decide, by decide⟩
  · obtain ⟨part, _, rfl⟩ := List.mem_map.mp hname
    exact visible_of_isFolderChar (List.mem_filter.mp hmem).2

/-- The characters of a UUID are visible. -/
private theorem visible_of_isUuidV4 {text : List Char} (h : isUuidV4 text = true) :
    ∀ c ∈ text, Visible c := fun c hc => visible_of_isUuidChar (isUuidChar_of_isUuidV4 h c hc)

/-- A visible text is a valid user identifier when it is a UUID. -/
private theorem validateUserId_eq {text : Name} (h : ∀ c ∈ text, Visible c) :
    validateUserId text = if isUuidV4 text = true then .ok text
      else .error "Invalid user identifier format" := by
  simp only [validateUserId, clean_eq h]

/-- A file name with a proper extension passes its check. -/
theorem validateFileName_eq {text : Name} (h : ∀ c ∈ text, Visible c) (hslash : '/' ∉ text)
    (himage : isImageName text = true) : validateFileName text = .ok text := by
  simp only [validateFileName, clean_eq h, basename_plain hslash, himage, if_true]

/-- A file name without a dot does not pass. -/
theorem validateFileName_of_no_dot {text : Name} (h : '.' ∉ text) :
    validateFileName text = .error "Invalid file name format" := by
  have hbase : '.' ∉ basename (clean text) := by
    intro hmem
    have hclean := mem_of_mem_trim (mem_of_mem_basename hmem)
    rw [String.toList_ofList] at hclean
    exact h (List.mem_filter.mp hclean).1
  have himage : isImageName (basename (clean text)) = false := by
    refine Bool.eq_false_iff.mpr fun himage => hbase ?_
    obtain ⟨stem, extension, heq, _⟩ := isImageName_iff.mp himage
    rw [heq]
    exact List.mem_append_right _ List.mem_cons_self
  simp only [validateFileName, himage]
  rfl

/-- An identifier without slashes in its second part is taken apart at its last slash. -/
theorem splitOn_publicId (pathPrefix : List Char) {filename : Name} (h : '/' ∉ filename) :
    (pathPrefix ++ '/' :: filename).splitOn '/' = pathPrefix.splitOn '/' ++ [filename] := by
  rw [List.splitOn_append_cons_self, List.splitOn_eq_singleton h]

/-- Two plain names are joined below the base. -/
theorem safeJoin_eq {base : Path} {first second : Name} (hfirst : Plain first)
    (hsecond : Plain second) (hhead : first.head? ≠ some '.') :
    safeJoin base [first, second] = .ok (base ++ [first] ++ [second]) := by
  have hresolve : resolve base [first, second] = base ++ [first] ++ [second] := by
    rw [resolve, List.foldl_cons, List.foldl_cons, List.foldl_nil, enter_plain base hfirst,
      enter_plain _ hsecond]
  have hrelative : relative base (base ++ [first] ++ [second]) = first ++ '/' :: second := by
    rw [List.append_assoc, relative_append, List.singleton_append, join,
      List.intercalate_cons_cons, List.intercalate_singleton, List.append_assoc]
    rfl
  obtain ⟨c, rest, rfl⟩ := List.exists_cons_of_ne_nil hfirst.ne_nil
  have hslash : c ≠ '/' := fun heq => hfirst.no_slash (heq ▸ List.mem_cons_self)
  have hdot : c ≠ '.' := fun heq => hhead (heq ▸ rfl)
  have hcheck : (['.', '.'].isPrefixOf (c :: rest ++ '/' :: second) ||
      isAbsolute (c :: rest ++ '/' :: second)) = false := by
    have hdots : (['.', '.'].isPrefixOf (c :: (rest ++ '/' :: second))) = false := by
      rw [List.isPrefixOf, beq_false_of_ne hdot.symm, Bool.false_and]
    simp [isAbsolute, hslash, hdots]
  simp only [safeJoin, hresolve, hrelative, hcheck]
  rfl

/-- Exactly the file at the path is removed. -/
def Removes (path : Path) (before after : Disk) : Prop :=
  after = { before with files := before.files.filter (· ≠ path) }

/-- A file that exists is unlinked. -/
theorem unlinkExisting_eq {userId fileName : Name} {path : Path} {later : Disk}
    (hpath : safeJoin uploadsDir [userId, fileName] = .ok path) (hmem : path ∈ later.files) :
    unlinkExisting uploadsDir userId fileName (fun _ => false) later =
      ⟨.ok true, { later with files := later.files.filter (· ≠ path) }, [.unlink path]⟩ := by
  unfold unlinkExisting
  rw [check_eq hpath]
  have hexists : later.existsSync path = true := by simp [Disk.existsSync, hmem]
  have happly : later.apply (.unlink path) =
      some { later with files := later.files.filter (· ≠ path) } := by
    rw [Disk.apply, if_neg (not_not_intro hmem)]
  simp only [Bind.bind, Action.andThen, Action.existsSync, Action.read, hexists, Action.onSuccess,
    if_true, Action.perform, happly]
  rfl

/-- Both parts pass their checks, and the file is removed. -/
theorem deleteImage_removes {userId filename : Name} (huser : isUuidV4 userId = true)
    (hfile : isImageName filename = true) (hvisible : ∀ c ∈ filename, Visible c)
    (hname : Plain filename) {later : Disk}
    (hmem : uploadsDir ++ [userId] ++ [filename] ∈ later.files) :
    Removes (uploadsDir ++ [userId] ++ [filename]) later
      (deleteImage uploadsDir (userId ++ '/' :: filename) (fun _ => false) later).disk := by
  have hplain := plain_of_isUuidV4 huser
  have hparts : (userId ++ '/' :: filename).splitOn '/' = [userId, filename] := by
    rw [splitOn_publicId userId hname.no_slash, List.splitOn_eq_singleton hplain.no_slash]
    rfl
  have hhead : userId.head? ≠ some '.' := fun h =>
    absurd (isUuidChar_of_isUuidV4 huser '.' (List.mem_of_mem_head? h)) (by decide)
  have hvalid := validateUserId_eq (visible_of_isUuidV4 huser)
  rw [if_pos huser] at hvalid
  unfold deleteImage
  rw [hparts]
  simp only
  rw [check_eq hvalid, check_eq (validateFileName_eq hvisible hname.no_slash hfile)]
  simp only [Bind.bind, Action.andThen, unlinkExisting_eq (safeJoin_eq hplain hname hhead) hmem]
  rfl

/-- One of the parts does not pass its check, or the prefix has several parts. -/
theorem deleteImage_keeps {pathPrefix : List Char} {filename : Name}
    (hpre : ∀ c ∈ pathPrefix, Visible c) (hname : '/' ∉ filename)
    (h : isUuidV4 pathPrefix = false ∨ '.' ∉ filename) (refused : Effect → Bool) (later : Disk) :
    (deleteImage uploadsDir (pathPrefix ++ '/' :: filename) refused later).disk = later := by
  unfold deleteImage
  rw [splitOn_publicId pathPrefix hname]
  cases hparts : pathPrefix.splitOn '/' with
  | nil => exact absurd hparts (List.splitOn_ne_nil _ _)
  | cons first rest =>
    cases rest with
    | cons second rest =>
      cases rest with
      | nil => rfl
      | cons third rest => rfl
    | nil =>
      have hfirst : first = pathPrefix := by
        have hjoin : ['/'].intercalate (pathPrefix.splitOn '/') = pathPrefix :=
          List.intercalate_splitOn '/'
        rw [hparts, List.intercalate_singleton] at hjoin
        exact hjoin
      subst hfirst
      simp only [List.cons_append, List.nil_append]
      have huser := validateUserId_eq hpre
      by_cases hvalid : isUuidV4 first = true
      · rw [if_pos hvalid] at huser
        have hdot := h.resolve_left (by rw [hvalid]; decide)
        rw [check_eq huser, check_error (validateFileName_of_no_dot hdot)]
      · rw [if_neg hvalid] at huser
        rw [check_error huser]

/-- The folder leads to the directory of the user, or to one with the name of an identifier. -/
def folderDeletable (folder : Option (List Char)) : Bool :=
  sanitizeFolder (folder.getD []) = [] || isUuidV4 (sanitizeFolder (folder.getD []))

/-- The MIME type is the name of a property that every object inherits. -/
def namesInherited (mimeType : Option String) : Bool :=
  mimeType.any fun name => (inheritedText.lookup name).isSome

/-- The prefix of an upload is the name of a user exactly if the folder allows it. -/
theorem isUuidV4_pathPrefix {userId safeUserId : Name} {folder : Option (List Char)}
    {target : Target} (huser : validateUserId userId = .ok safeUserId)
    (htarget : destination uploadsDir safeUserId folder = .ok target) :
    isUuidV4 target.pathPrefix = folderDeletable folder ∧ ∀ c ∈ target.pathPrefix, Visible c := by
  have hpre := (destination_ok htarget).2
  have hvalid := validateUserId_ok huser
  unfold folderDeletable
  by_cases hnil : sanitizeFolder (folder.getD []) = []
  · rw [if_pos hnil] at hpre
    rw [hpre, hvalid]
    exact ⟨by simp [hnil], visible_of_isUuidV4 hvalid⟩
  · rw [if_neg hnil] at hpre
    rw [hpre]
    exact ⟨by simp [hnil], visible_sanitizeFolder _⟩

/-- The extensions of images. -/
def knownExtensions : List Name := [".jpg".toList, ".png".toList, ".webp".toList]

/-- A UUID with a known extension is the name of an image. -/
private theorem isImageName_append {stem ext : Name} (hstem : isUuidV4 stem = true)
    (hext : ext ∈ knownExtensions) :
    isImageName (stem ++ ext) = true ∧ ∀ c ∈ stem ++ ext, Visible c := by
  have hall : ∀ ext ∈ knownExtensions, ext = '.' :: ext.tail ∧ '.' ∉ ext.tail ∧
      ext.tail.map Char.toLower ∈ imageExtensions := by decide +kernel
  have hchars : ∀ ext ∈ knownExtensions, ext.all fun c =>
      decide (0x21 ≤ c.toNat) && decide (c.toNat ≤ 0x7E) := by decide +kernel
  obtain ⟨heq, hdot, hmem⟩ := hall ext hext
  refine ⟨isImageName_iff.mpr ⟨stem, ext.tail, by rw [← heq], hdot, hstem, hmem⟩, fun c hc => ?_⟩
  rcases List.mem_append.mp hc with hc | hc
  · exact visible_of_isUuidV4 hstem c hc
  · simpa [Visible] using List.all_eq_true.mp (hchars ext hext) c hc

/-- An upload can be deleted by its identifier exactly if its file name has a dot and its folder
can be taken for a user. -/
theorem store_removes_iff {userId : List Char} {folder : Option (List Char)} {uuid : Uuid}
    {ext : Name} {hasSource : Bool} {refused : Effect → Bool} {disk : Disk} {uploaded : Uploaded}
    {path : Path}
    (hext : ext ∈ knownExtensions ∨ '.' ∉ ext) (hslash : '/' ∉ ext)
    (h : (store uploadsDir userId folder (uuid.text ++ ext) hasSource refused disk).result =
      .ok uploaded)
    (hwrite : .write path ∈
      (store uploadsDir userId folder (uuid.text ++ ext) hasSource refused disk).effects) :
    (∀ later, path ∈ later.files →
      Removes path later (deleteImage uploadsDir uploaded.publicId (fun _ => false) later).disk) ↔
      '.' ∈ ext ∧ folderDeletable folder = true := by
  obtain ⟨safeUserId, target, path', huser, htarget, hpath, hid, hwritten⟩ := store_ok h
  have hname := plain_append uuid.isV4 hslash
  obtain ⟨hpre, hvisible⟩ := isUuidV4_pathPrefix huser htarget
  have hpath : path = target.userDir ++ [uuid.text ++ ext] :=
    (hwritten path hwrite).trans (safeJoin_plain hname hpath)
  rw [hid]
  constructor
  · intro hremoves
    by_contra hnot
    have hkeeps : isUuidV4 target.pathPrefix = false ∨ '.' ∉ uuid.text ++ ext := by
      by_cases hdot : '.' ∈ ext
      · rw [hpre]
        exact .inl (Bool.eq_false_iff.mpr fun hfolder => hnot ⟨hdot, hfolder⟩)
      · refine .inr fun hmem => ?_
        rcases List.mem_append.mp hmem with hmem | hmem
        · exact absurd (isUuidChar_of_isUuidV4 uuid.isV4 '.' hmem) (by decide)
        · exact hdot hmem
    -- a disk with this file only keeps it
    have hafter := hremoves ⟨[path], []⟩ List.mem_cons_self
    rw [Removes, deleteImage_keeps hvisible hname.no_slash hkeeps] at hafter
    simp at hafter
  · rintro ⟨hdot, hfolder⟩ later hmem
    have hknown := hext.resolve_right (not_not_intro hdot)
    obtain ⟨himage, hchars⟩ := isImageName_append uuid.isV4 hknown
    rw [hfolder] at hpre
    have hdir := safeJoin_plain (plain_of_isUuidV4 hpre) (destination_ok htarget).1
    rw [hdir] at hpath
    rw [hpath] at hmem ⊢
    exact deleteImage_removes hpre himage hchars hname hmem

/-- The extension of an upload has a dot unless the MIME type names an inherited property. -/
theorem dot_mem_getExtension_iff (mimeType originalName : Option String) :
    '.' ∈ (getExtension mimeType originalName).toList ↔ namesInherited mimeType = false := by
  have hinherited : ∀ entry ∈ inheritedText,
      lookupExt entry.1 = some entry.2 ∧ entry.1 ≠ "" ∧ '.' ∉ entry.2.toList := by decide +kernel
  cases hnames : namesInherited mimeType with
  | true =>
    obtain ⟨name, rfl⟩ : ∃ name, mimeType = some name := by
      cases mimeType with
      | none => cases hnames
      | some name => exact ⟨name, rfl⟩
    obtain ⟨text, htext⟩ := Option.isSome_iff_exists.mp hnames
    obtain ⟨hext, hne, hdot⟩ := hinherited _ (mem_of_lookup htext)
    have heq : getExtension (some name) originalName = text := by
      simp only [getExtension, nonempty, Option.filter_some, hne, decide_true, if_true,
        Option.bind_some, hext, ne_eq, not_false_eq_true]
    simp [heq, hdot]
  | false =>
    refine iff_of_true ?_ rfl
    rcases getExtension_mem mimeType originalName with hmem | ⟨name, rfl, hmem⟩
    · have hall : ∀ ext ∈ [".jpg", ".png", ".webp"], '.' ∈ ext.toList := by decide
      exact hall _ hmem
    · have hsome : ∀ entry ∈ inheritedText, (inheritedText.lookup entry.1).isSome = true := by
        decide +kernel
      rw [namesInherited, Option.any_some, hsome _ hmem] at hnames
      cases hnames

/-- An extension is a known one or has no dot. -/
private theorem getExtension_known (mimeType originalName : Option String) :
    (getExtension mimeType originalName).toList ∈ knownExtensions ∨
      '.' ∉ (getExtension mimeType originalName).toList := by
  rcases getExtension_mem mimeType originalName with hmem | ⟨name, _, hmem⟩
  · have hall : ∀ ext ∈ [".jpg", ".png", ".webp"], ext.toList ∈ knownExtensions := by
      decide +kernel
    exact .inl (hall _ hmem)
  · have hall : ∀ entry ∈ inheritedText, '.' ∉ entry.2.toList := by decide +kernel
    exact .inr (hall _ hmem)

/-- Every call stays below the uploads directory; and the identifier of a successful upload deletes
its file, exactly if the folder can be taken for a user and the MIME type, where it is looked
at, names no inherited property. -/
theorem localStorage_roundTrip_iff (uploadsDir : Path)
    (pathnameOf : List Char → Option (List Char)) :
    (∀ call : Call, Confined uploadsDir (call.run uploadsDir pathnameOf)) ∧
    (∀ input userId folder uuid refused disk uploaded path,
      (uploadImageStream uploadsDir input userId folder uuid refused disk).result = .ok uploaded →
      .write path ∈ (uploadImageStream uploadsDir input userId folder uuid refused disk).effects →
      ((∀ later, path ∈ later.files → Removes path later
          (deleteImage uploadsDir uploaded.publicId (fun _ => false) later).disk) ↔
        (input.isLegacy = true ∨ namesInherited input.mimeType = false) ∧
          folderDeletable folder = true)) ∧
    ∀ userId folder uuid refused disk uploaded path,
      (uploadImage uploadsDir userId folder uuid refused disk).result = .ok uploaded →
      .write path ∈ (uploadImage uploadsDir userId folder uuid refused disk).effects →
      ((∀ later, path ∈ later.files → Removes path later
          (deleteImage uploadsDir uploaded.publicId (fun _ => false) later).disk) ↔
        folderDeletable folder = true) := by
  have himage : ∀ userId folder uuid refused disk uploaded path,
      (uploadImage uploadsDir userId folder uuid refused disk).result = .ok uploaded →
      .write path ∈ (uploadImage uploadsDir userId folder uuid refused disk).effects →
      ((∀ later, path ∈ later.files → Removes path later
          (deleteImage uploadsDir uploaded.publicId (fun _ => false) later).disk) ↔
        folderDeletable folder = true) := by
    intro userId folder uuid refused disk uploaded path h hwrite
    rw [store_removes_iff (.inl (by decide +kernel)) (by decide) h hwrite]
    exact and_iff_right (by decide)
  refine ⟨confined_run pathnameOf, fun input userId folder uuid refused disk uploaded path h
    hwrite => ?_, himage⟩
  unfold uploadImageStream at h hwrite
  split at h
  · next hlegacy =>
    rw [if_pos hlegacy] at hwrite
    rw [himage userId folder uuid refused disk uploaded path h hwrite]
    simp [hlegacy]
  · next hlegacy =>
    rw [if_neg hlegacy] at hwrite
    rw [store_removes_iff (getExtension_known _ _) (no_slash_getExtension _ _) h hwrite,
      dot_mem_getExtension_iff]
    simp [hlegacy]

/-- A user, and the disk that the constructor leaves. -/
def alice : List Char := "11111111-1111-4111-8111-111111111111".toList

/-- The identifier that is drawn in the examples. -/
def drawn : Uuid where
  text := "22222222-2222-4222-a222-222222222222".toList
  isV4 := by decide +kernel

/-- A disk with an empty directory of uploads. -/
def freshDisk : Disk := ⟨[], [[], ["uploads".toList]]⟩

/-- An upload of a JPEG image from memory. -/
def jpegInput : ImageUploadInput := ⟨none, true, false, some "image/jpeg", none⟩

/-- Without a folder the file is deleted. -/
theorem localStorage_roundTrip_iff_noFolder :
    ∀ later : Disk, ["uploads".toList, alice, drawn.text ++ ".jpg".toList] ∈ later.files →
      Removes ["uploads".toList, alice, drawn.text ++ ".jpg".toList] later
        (deleteImage ["uploads".toList] (alice ++ '/' :: (drawn.text ++ ".jpg".toList))
          (fun _ => false) later).disk :=
  ((localStorage_roundTrip_iff ["uploads".toList] (fun _ => none)).2.1 jpegInput alice none drawn
    (fun _ => false) freshDisk
    ⟨"/api/uploads/".toList ++ alice ++ '/' :: (drawn.text ++ ".jpg".toList),
      alice ++ '/' :: (drawn.text ++ ".jpg".toList)⟩ _ (by decide +kernel) (by decide +kernel)).mpr
    (by decide +kernel)

/-- An upload to a folder succeeds, and the deletion of its identifier keeps the file. -/
theorem deleteImage_keeps_folder :
    (uploadImageStream ["uploads".toList] jpegInput alice (some "communities".toList) drawn
      (fun _ => false) freshDisk).result = .ok
        ⟨"/api/uploads/communities/".toList ++ (drawn.text ++ ".jpg".toList),
          "communities/".toList ++ (drawn.text ++ ".jpg".toList)⟩ ∧
    ["uploads".toList, "communities".toList, drawn.text ++ ".jpg".toList] ∈
      (deleteImage ["uploads".toList] ("communities/".toList ++ (drawn.text ++ ".jpg".toList))
        (fun _ => false)
        (uploadImageStream ["uploads".toList] jpegInput alice (some "communities".toList) drawn
          (fun _ => false) freshDisk).disk).disk.files := by
  constructor
  · decide +kernel
  · decide +kernel

end Ascendance.LocalStorage
