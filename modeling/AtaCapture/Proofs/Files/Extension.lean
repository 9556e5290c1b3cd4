import AtaCapture.Proofs.Files.Frame

/-!
Files next to each other. A path that leads to a file ends in a name, and with another
extension it leads to the same folder; so the new file is the old one only if that had the
extension before. The one name without a stem of its own gives the folder above instead, where
no file can be made.
-/

namespace AtaCapture

namespace Path

/-- What stands behind the last dot of the name that ends a path, unless that dot begins the
name. -/
def extension? (path : String) : Option String :=
  let name := ((trimEnd path.toList.reverse).span (· ≠ '/')).1
  if name = [] ∨ name = ['.'] ∨ name = ['.', '.'] then none
  else match name.dropWhile (· ≠ '.') with
    | '.' :: _ :: _ => some (String.ofList (name.takeWhile (· ≠ '.')).reverse)
    | _ => none

/-- A part of a path that names an entry of a directory. -/
structure Plain (name : List Char) : Prop where
  slash : '/' ∉ name
  blank : name ≠ []
  dot : name ≠ ['.']
  dots : name ≠ ['.', '.']

def Folder (folder : List Char) : Prop := folder = [] ∨ ∃ before, folder = before ++ ['/']

variable {path : String} {folder name stem : List Char}

/-! ### Names and stems -/

theorem exists_folder (path : List Char) :
    ∃ folder name, path = folder ++ name ∧ Folder folder ∧ '/' ∉ name := by
  induction path with
  | nil => exact ⟨[], [], rfl, .inl rfl, by simp⟩
  | cons c path ih =>
      obtain ⟨folder, name, rfl, rfl | ⟨before, rfl⟩, hname⟩ := ih
      · by_cases hc : c = '/'
        · exact ⟨['/'], name, by rw [hc]; rfl, .inr ⟨[], rfl⟩, hname⟩
        · exact ⟨[], c :: name, rfl, .inl rfl, by simp [Ne.symm hc, hname]⟩
      · exact ⟨c :: (before ++ ['/']), name, rfl, .inr ⟨c :: before, rfl⟩, hname⟩

theorem trimEnd_of_plain (hname : Plain name) (folder : List Char) :
    trimEnd (folder ++ name).reverse = (folder ++ name).reverse := by
  rw [List.reverse_append]
  have hslash : '/' ∉ name.reverse := by simpa using hname.slash
  have hdot : name.reverse ≠ ['.'] :=
    fun h => hname.dot (by simpa using congrArg List.reverse h)
  have hblank : name.reverse ≠ [] := by simpa using hname.blank
  generalize name.reverse = last at hslash hdot hblank
  match last with
  | [] => exact absurd rfl hblank
  | c :: rest =>
      have hc : c ≠ '/' := fun h => hslash (by simp [h])
      cases rest with
      | nil =>
          have hc' : c ≠ '.' := fun h => hdot (by rw [h])
          unfold trimEnd
          split <;> simp_all
      | cons d rest =>
          have hd : d ≠ '/' := fun h => hslash (by simp [h])
          unfold trimEnd
          split <;> simp_all

theorem span_of_folder (hfolder : Folder folder) (hname : '/' ∉ name) :
    (folder ++ name).reverse.span (· ≠ '/') = (name.reverse, folder.reverse) := by
  have hall : ∀ c ∈ name.reverse, decide (c ≠ '/') := fun c hc => by
    refine decide_eq_true fun h => hname ?_
    rwa [← h, ← List.mem_reverse]
  rw [List.span_eq_takeWhile_dropWhile, List.reverse_append, List.takeWhile_append_of_pos hall,
    List.dropWhile_append_of_pos hall]
  rcases hfolder with rfl | ⟨before, rfl⟩ <;> simp

/-- A name is its stem, or its stem and an extension without a dot. -/
theorem stemEnd_cases (hname : name ≠ []) :
    stemEnd name ≠ [] ∧
      ((stemEnd name = name ∧ ∀ c stem, name.dropWhile (· ≠ '.') ≠ '.' :: c :: stem) ∨
        (∃ c stem, name.dropWhile (· ≠ '.') = '.' :: c :: stem) ∧
          name = name.takeWhile (· ≠ '.') ++ '.' :: stemEnd name) := by
  rw [stemEnd]
  split
  · rename_i c stem hdrop
    refine ⟨by simp, .inr ⟨⟨c, stem, hdrop⟩, ?_⟩⟩
    rw [← hdrop, List.takeWhile_append_dropWhile]
  · rename_i hdrop
    exact ⟨hname, .inl ⟨rfl, hdrop⟩⟩

theorem withExtension_of_plain (hpath : path.toList = folder ++ name) (hfolder : Folder folder)
    (hname : Plain name) : ∃ stem, stem ≠ [] ∧
      (extension? path = none ∧ name = stem ∨
        ∃ e, extension? path = some e ∧ '.' ∉ e.toList ∧ name = stem ++ '.' :: e.toList) ∧
      ∀ extension : String, (withExtension path extension).toList =
        folder ++ if stem = ['.'] then ['.', '.'] else stem ++ '.' :: extension.toList := by
  have hspan := span_of_folder hfolder hname.slash
  have htrim := trimEnd_of_plain hname folder
  have hplain : ¬ (name.reverse = [] ∨ name.reverse = ['.'] ∨ name.reverse = ['.', '.']) := by
    rintro (h | h | h)
    · exact hname.blank (by simpa using h)
    · exact hname.dot (by simpa using congrArg List.reverse h)
    · exact hname.dots (by simpa using congrArg List.reverse h)
  have hblank : name.reverse ≠ [] := by simpa using hname.blank
  obtain ⟨hstem, hcases⟩ := stemEnd_cases hblank
  refine ⟨(stemEnd name.reverse).reverse, by simpa using hstem, ?_, fun extension => ?_⟩
  · rw [extension?, hpath, htrim, hspan]
    dsimp only
    rw [if_neg hplain]
    rcases hcases with ⟨heq, hnone⟩ | ⟨⟨c, stem, hdrop⟩, hsplit⟩
    · refine .inl ⟨?_, by rw [heq, List.reverse_reverse]⟩
      split
      · exact absurd ‹_› (hnone _ _)
      · rfl
    · refine .inr
        ⟨String.ofList (name.reverse.takeWhile (· ≠ '.')).reverse, by rw [hdrop]; rfl, ?_, ?_⟩
      · rw [String.toList_ofList, List.mem_reverse]
        exact fun h => by simpa using List.mem_takeWhile_imp h
      · rw [String.toList_ofList]
        have hreverse := congrArg List.reverse hsplit
        rwa [List.reverse_reverse, List.reverse_append, List.reverse_cons, List.append_assoc]
            at hreverse
  · rw [withExtension, hpath, htrim, hspan]
    dsimp only
    rw [if_neg hplain]
    have hdots : stemEnd name.reverse = ['.'] ↔ (stemEnd name.reverse).reverse = ['.'] := by
      rw [List.reverse_eq_iff, List.reverse_singleton]
    by_cases hdot : stemEnd name.reverse = ['.']
    · rw [if_pos ⟨hdot, rfl⟩, if_pos (hdots.mp hdot), String.toList_ofList]
      simp
    · rw [if_neg (fun h => hdot h.1), if_neg (hdots.not.mp hdot)]
      simp [String.toList_append, String.toList_ofList]

/-- What begins with a dot behind an extension's own dot is not an extension. -/
theorem extension?_ne_of_dot {extension : String} (h : '.' ∈ extension.toList) :
    extension? path ≠ some extension := by
  rw [extension?]
  split
  · simp
  · split
    · intro heq
      obtain rfl := Option.some.inj heq
      rw [String.toList_ofList, List.mem_reverse] at h
      exact absurd (List.mem_takeWhile_imp h) (by simp)
    · simp

/-! ### Parts -/

theorem components_cons (c : Char) (path : List Char) : components (c :: path) =
    if c = '/' then [] :: components path else
      match components path with
      | part :: rest => (c :: part) :: rest
      | [] => [[c]] := rfl

theorem components_ne_nil (path : List Char) : components path ≠ [] := by
  cases path with
  | nil => decide
  | cons c path =>
      rw [components_cons]
      split
      · simp
      · split <;> simp

theorem components_append_slash (path rest : List Char) :
    components (path ++ '/' :: rest) = components path ++ components rest := by
  induction path with
  | nil => rw [List.nil_append, components_cons, if_pos rfl]; rfl
  | cons c path ih =>
      rw [List.cons_append, components_cons, components_cons, ih]
      obtain ⟨part, parts, hparts⟩ := List.exists_cons_of_ne_nil (components_ne_nil path)
      rw [hparts]
      split <;> rfl

theorem components_of_name (h : '/' ∉ name) : components name = [name] := by
  induction name with
  | nil => rfl
  | cons c name ih =>
      rw [List.mem_cons, not_or] at h
      rw [components_cons, if_neg (Ne.symm h.1), ih h.2]

end Path

namespace Tree

/-- Whatever has something below it is a directory. -/
def Proper (t : Tree) : Prop :=
  ∀ place name, t.isAbove (place ++ [name]) → t.isDirectory place

variable {t : Tree} {place other : List String} {path : String} {folder name stem : List Char}

/-! ### The last part of a path -/

theorem walk_concat (t : Tree) (place : List String) (parts : List (List Char))
    (part : List Char) :
    t.walk place (parts ++ [part]) =
      (t.walk place parts).bind fun q =>
        if t.isDirectory q then some (follow q part) else none := by
  induction parts generalizing place with
  | nil => rfl
  | cons first parts ih =>
      rw [List.cons_append, walk, walk]
      split
      · exact ih _
      · rfl

/-- The folder of a path decides which directory its last part is looked up in. -/
theorem parts_of_folder (t : Tree) (hfolder : Path.Folder folder) : ∃ start parts,
    ∀ (path : String) (name : List Char), path.toList = folder ++ name → '/' ∉ name →
      t.parts path = (start, parts ++ [name]) := by
  rcases hfolder with rfl | ⟨before, rfl⟩
  · refine ⟨t.here, [], fun path name hpath hname => ?_⟩
    rw [Tree.parts, hpath]
    split
    · rename_i rest hslash
      exact absurd (by rw [show name = '/' :: rest from hslash]; simp) hname
    · rw [List.nil_append, List.nil_append, Path.components_of_name hname]
  · cases before with
    | nil =>
        refine ⟨[], [], fun path name hpath hname => ?_⟩
        rw [Tree.parts, hpath]
        exact congrArg (Prod.mk []) (Path.components_of_name hname)
    | cons c before =>
        by_cases hc : c = '/'
        · subst hc
          refine ⟨[], Path.components before, fun path name hpath hname => ?_⟩
          rw [Tree.parts, hpath]
          show ([], Path.components (before ++ ['/'] ++ name)) = _
          rw [List.append_assoc, List.singleton_append, Path.components_append_slash,
            Path.components_of_name hname]
        · refine ⟨t.here, Path.components (c :: before), fun path name hpath hname => ?_⟩
          rw [Tree.parts, hpath]
          split
          · rename_i heq
            exact absurd (List.cons.inj heq).1 hc
          · rw [List.append_assoc, List.singleton_append, Path.components_append_slash,
              Path.components_of_name hname]

/-- Paths that differ in their last part only look it up in one directory. -/
theorem place?_of_folder (t : Tree) (hfolder : Path.Folder folder) :
    ∃ found : Option (List String),
    ∀ (path : String) (name : List Char), path.toList = folder ++ name → '/' ∉ name →
      ∀ place, t.place? path = some place →
        ∃ q, found = some q ∧ t.isDirectory q ∧ place = follow q name := by
  obtain ⟨start, parts, hparts⟩ := t.parts_of_folder hfolder
  refine ⟨t.walk start parts, fun path name hpath hname place hplace => ?_⟩
  rw [place?, hparts path name hpath hname] at hplace
  split at hplace
  · cases hplace
  · rw [walk_concat] at hplace
    obtain ⟨q, hq, hplace⟩ := Option.bind_eq_some_iff.mp hplace
    split at hplace
    · exact ⟨q, hq, ‹_›, (Option.some.inj hplace).symm⟩
    · cases hplace

theorem isAbove_of_isDirectory (h : t.isDirectory place) : t.isAbove place := by
  rw [isDirectory, decide_eq_true_iff, at?] at h
  split at h
  · rename_i entry hentry
    have hplace : entry.1 = place := by simpa using List.find?_some hentry
    rw [isAbove, Bool.or_eq_true]
    refine .inr (List.any_eq_true.mpr ⟨entry, List.mem_of_find?_eq_some hentry, ?_⟩)
    rw [hplace, List.isPrefixOf_iff_prefix]
  · split at h
    · assumption
    · cases h

theorem Proper.isDirectory_dropLast (h : t.Proper) (hplace : t.isDirectory place) :
    t.isDirectory place.dropLast := by
  obtain rfl | ⟨q, name, rfl⟩ := List.eq_nil_or_concat' place
  · exact hplace
  · rw [List.dropLast_concat]
    exact h q name (isAbove_of_isDirectory hplace)

theorem follow_of_plain (hname : Path.Plain name) (place : List String) :
    follow place name = place ++ [String.ofList name] := by
  rw [follow, if_neg (not_or.mpr ⟨hname.blank, hname.dot⟩), if_neg hname.dots]

/-- In a directory only a plain name leads to a file. -/
theorem Proper.plain_of_file (h : t.Proper) (hplace : t.isDirectory place) (hname : '/' ∉ name)
    (hfile : t.isDirectory (follow place name) = false) : Path.Plain name := by
  have hnot {other : List String} (hother : t.isDirectory other) : follow place name ≠ other :=
    fun heq => by
    rw [heq, hother] at hfile
    cases hfile
  refine ⟨hname, fun heq => hnot hplace ?_, fun heq => hnot hplace ?_,
    fun heq => hnot (h.isDirectory_dropLast hplace) ?_⟩
  · rw [follow, if_pos (.inl heq)]
  · rw [follow, if_pos (.inr heq)]
  · rw [heq]
    rfl

/-! ### Files with another extension -/

/-- A file has a place in a folder, and with any extension its path leads to the same folder
and the same stem, if a file can be made there. -/
theorem Proper.beside (h : t.Proper) (hplace : t.place? path = some place)
    (hfile : t.isDirectory place = false) : ∃ (folder : List String) (stem : List Char),
      (Path.extension? path = none ∧ place = folder ++ [String.ofList stem] ∨
        ∃ e, Path.extension? path = some e ∧ '.' ∉ e.toList ∧
          place = folder ++ [String.ofList (stem ++ '.' :: e.toList)]) ∧
      ∀ extension : String, '/' ∉ extension.toList → ∀ other,
        t.place? (Path.withExtension path extension) = some other →
        t.isDirectory other = false →
        other = folder ++ [String.ofList (stem ++ '.' :: extension.toList)] := by
  obtain ⟨front, name, hpath, hfront, hslash⟩ := Path.exists_folder path.toList
  obtain ⟨found, hfound⟩ := t.place?_of_folder hfront
  obtain ⟨q, rfl, hq, rfl⟩ := hfound path name hpath hslash place hplace
  have hname := h.plain_of_file hq hslash hfile
  obtain ⟨stem, hstem, hcases, hwith⟩ := Path.withExtension_of_plain hpath hfront hname
  rw [follow_of_plain hname]
  refine ⟨q, stem, ?_, fun extension hext other hother hotherFile => ?_⟩
  · rcases hcases with ⟨hnone, rfl⟩ | ⟨e, hsome, hdot, rfl⟩
    · exact .inl ⟨hnone, rfl⟩
    · exact .inr ⟨e, hsome, hdot, rfl⟩
  · have hpath' := hwith extension
    split at hpath'
    · -- The two dots lead to a directory, where no file can be made.
      obtain ⟨q', heq, -, rfl⟩ := hfound _ _ hpath' (by decide) other hother
      obtain rfl := Option.some.inj heq
      rw [show follow q ['.', '.'] = q.dropLast from rfl, h.isDirectory_dropLast hq]
          at hotherFile
      cases hotherFile
    · have hslash' : '/' ∉ stem ++ '.' :: extension.toList := by
        have hstemSlash : '/' ∉ stem := by
          rcases hcases with ⟨-, rfl⟩ | ⟨e, -, -, rfl⟩
          · exact hslash
          · exact fun hmem => hslash (List.mem_append_left _ hmem)
        simp [hstemSlash, hext]
      obtain ⟨q', heq, -, rfl⟩ := hfound _ _ hpath' hslash' other hother
      obtain rfl := Option.some.inj heq
      exact follow_of_plain (h.plain_of_file hq hslash' hotherFile) q

theorem Proper.ne_of_extension (h : t.Proper) (hplace : t.place? path = some place)
    (hfile : t.isDirectory place = false) {extension : String}
    (hslash : '/' ∉ extension.toList) (hext : Path.extension? path ≠ some extension)
    (hother : t.place? (Path.withExtension path extension) = some other)
    (hotherFile : t.isDirectory other = false) : other ≠ place := by
  obtain ⟨folder, stem, hcases, hwith⟩ := h.beside hplace hfile
  rw [hwith extension hslash other hother hotherFile]
  rcases hcases with ⟨-, rfl⟩ | ⟨e, he, -, rfl⟩
  · intro heq
    have hname := String.ofList_injective (List.singleton_inj.mp (List.append_cancel_left heq))
    simp at hname
  · intro heq
    have hname := String.ofList_injective (List.singleton_inj.mp (List.append_cancel_left heq))
    have htail := (List.cons.inj (List.append_cancel_left hname)).2
    exact hext (he.trans (congrArg some (String.toList_inj.mp htail.symm)))

/-- Two extensions make two files. -/
theorem Proper.ne_of_extensions (h : t.Proper) (hplace : t.place? path = some place)
    (hfile : t.isDirectory place = false) {extension second : String} {last : List String}
    (hslash : '/' ∉ extension.toList) (hsecond : '/' ∉ second.toList)
    (hne : extension ≠ second)
    (hother : t.place? (Path.withExtension path extension) = some other)
    (hotherFile : t.isDirectory other = false)
    (hlast : t.place? (Path.withExtension path second) = some last)
    (hlastFile : t.isDirectory last = false) : other ≠ last := by
  obtain ⟨folder, stem, -, hwith⟩ := h.beside hplace hfile
  rw [hwith extension hslash other hother hotherFile,
    hwith second hsecond last hlast hlastFile]
  intro heq
  have hname := String.ofList_injective (List.singleton_inj.mp (List.append_cancel_left heq))
  exact hne (String.toList_inj.mp (List.cons.inj (List.append_cancel_left hname)).2)

end Tree

end AtaCapture
