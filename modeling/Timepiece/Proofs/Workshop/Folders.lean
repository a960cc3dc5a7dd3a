import Mathlib
import Timepiece.Workshop.Disk

/-!
# The folder of a file

The path beside a path keeps the names of the folder and replaces the last one.  If the one leads
to a file, or to a place where a file can be written, the other leads to a place in the same
folder.  A file that is written makes no place out of a path that led to none, and moves none.

## Main results

* `Path.cut_intercalate` — names without slashes are read off the path that they make.
* `Path.steps_beside` — **beside a path the last step is another one**, and all others stay.
* `Disk.follow_append`, `Disk.Reached.follow` — steps one after the other, and the folders on the
  way to a place.
* `Disk.place_beside` — **beside a file is the folder of the file.**
* `Disk.place_put` — places stay where they are when a file is written.
-/

namespace Timepiece

/-! ### Paths -/

namespace Path

theorem cut_ne_nil (text : List Char) : cut text ≠ [] := by
  cases text with
  | nil => simp [cut]
  | cons c rest =>
    rw [cut]
    split
    · simp
    · split <;> simp

/-- A text is cut on both sides of a slash by itself. -/
theorem cut_append_slash (text rest : List Char) :
    cut (text ++ '/' :: rest) = cut text ++ cut rest := by
  induction text with
  | nil => simp [cut]
  | cons c text ih =>
    rw [List.cons_append, cut, cut, ih]
    split
    · rfl
    · cases hcut : cut text with
      | nil => exact absurd hcut (cut_ne_nil text)
      | cons piece pieces => rfl

theorem noSlash_of_mem_cut {text piece : List Char} (h : piece ∈ cut text) : '/' ∉ piece := by
  induction text generalizing piece with
  | nil =>
    obtain rfl := List.mem_singleton.1 h
    exact List.not_mem_nil
  | cons c text ih =>
    rw [cut] at h
    split at h
    · rcases List.mem_cons.1 h with rfl | h
      · exact List.not_mem_nil
      · exact ih h
    · next hc =>
      split at h
      · obtain rfl := List.mem_singleton.1 h
        simpa using Ne.symm hc
      · next first pieces hcut =>
        have hfirst : '/' ∉ first := ih (by rw [hcut]; exact List.mem_cons_self)
        rcases List.mem_cons.1 h with rfl | h
        · simpa [hfirst] using Ne.symm hc
        · exact ih (by rw [hcut]; exact List.mem_cons_of_mem _ h)

/-- **Names without slashes are read off the path that they make.** -/
theorem cut_intercalate {pieces : List (List Char)} (hne : pieces ≠ [])
    (h : ∀ piece ∈ pieces, '/' ∉ piece) : cut (List.intercalate ['/'] pieces) = pieces := by
  induction pieces with
  | nil => exact absurd rfl hne
  | cons first rest ih =>
    obtain ⟨hfirst, hrest⟩ := List.forall_mem_cons.1 h
    cases rest with
    | nil => rw [List.intercalate_singleton, cut_of_noSlash hfirst]
    | cons next others =>
      rw [List.intercalate_cons_cons, List.append_assoc, List.singleton_append, cut_append_slash,
        cut_of_noSlash hfirst, ih (by simp) hrest, List.singleton_append]

theorem noSlash_of_mem_names {path name : String} (h : name ∈ names path) :
    '/' ∉ name.toList := by
  obtain ⟨piece, hpiece, rfl⟩ := List.mem_map.1 h
  rw [String.toList_ofList]
  exact noSlash_of_mem_cut hpiece

theorem names_of_noSlash {name : String} (h : '/' ∉ name.toList) : names name = [name] := by
  rw [names, cut_of_noSlash h, List.map_singleton, String.ofList_toList]

/-- The names of a path in a folder are those of the folder and one more. -/
theorem names_within {folder : List String} {file : String} (hne : folder ≠ [])
    (hfolder : ∀ name ∈ folder, '/' ∉ name.toList) (hfile : '/' ∉ file.toList) :
    names ("/".intercalate folder ++ "/" ++ file) = folder ++ [file] := by
  have hpieces : ∀ piece ∈ folder.map String.toList, '/' ∉ piece := by
    intro piece hpiece
    obtain ⟨name, hname, rfl⟩ := List.mem_map.1 hpiece
    exact hfolder name hname
  have htext : ("/".intercalate folder ++ "/" ++ file).toList =
      List.intercalate ['/'] (folder.map String.toList) ++ '/' :: file.toList := by
    simp
  rw [names, htext, cut_append_slash, cut_intercalate (by simpa using hne) hpieces,
    cut_of_noSlash hfile, List.map_append, List.map_map]
  simp

theorem names_ne_nil (path : String) : names path ≠ [] := by
  simpa [names] using cut_ne_nil path.toList

/-- A path starts at the root if its first name is empty and not its only one. -/
theorem isAbsolute_iff {path : String} :
    isAbsolute path = true ↔ ∃ name rest, names path = "" :: name :: rest := by
  have hempty (piece : List Char) : String.ofList piece = "" ↔ piece = [] := by
    simp
  cases htext : path.toList with
  | nil => simp [isAbsolute, names, htext, cut]
  | cons c text =>
    by_cases hc : c = '/'
    · subst hc
      obtain ⟨piece, pieces, hcut⟩ := List.exists_cons_of_ne_nil (cut_ne_nil text)
      simp [isAbsolute, names, htext, cut, hcut]
    · obtain ⟨piece, pieces, hcut⟩ := List.exists_cons_of_ne_nil (cut_ne_nil text)
      simp [isAbsolute, names, htext, cut, hcut, hc]

/-- The folder of a path that does not start at the root does not start there either. -/
theorem head?_ne_of_relative {path last : String} {front : List String}
    (hrelative : isAbsolute path = false) (hnames : names path = front ++ [last]) :
    front.head? ≠ some "" := by
  intro hhead
  obtain ⟨more, rfl⟩ := List.head?_eq_some_iff.1 hhead
  have habsolute : isAbsolute path = true := by
    rw [isAbsolute_iff, hnames]
    cases more with
    | nil => exact ⟨last, [], rfl⟩
    | cons next others => exact ⟨next, others ++ [last], rfl⟩
  rw [hrelative] at habsolute
  cases habsolute

/-! ### Beside a path -/

/-- Idle names are only dropped in front. -/
theorem dropIdle_suffix (names : List String) : dropIdle names <:+ names := by
  fun_induction dropIdle names with
  | case1 => exact List.suffix_refl _
  | case2 => exact List.suffix_refl _
  | case3 name rest _ _ ih => exact ih.trans (List.suffix_cons name rest)
  | case4 => exact List.suffix_refl _

theorem dropIdle_ne_nil {names : List String} (h : names ≠ []) : dropIdle names ≠ [] := by
  fun_induction dropIdle names with
  | case1 => exact absurd rfl h
  | case2 => simp
  | case3 name rest hrest _ ih =>
    refine ih ?_
    rintro rfl
    exact hrest rfl
  | case4 => simp

/-- The names that lead somewhere all stay. -/
theorem filter_dropIdle (names : List String) :
    (dropIdle names).filter (fun name => !isIdle name) =
      names.filter fun name => !isIdle name := by
  fun_induction dropIdle names with
  | case1 => rfl
  | case2 => rfl
  | case3 name rest _ hidle ih => simp [hidle, ih]
  | case4 => rfl

/-- The first name of a folder stays. -/
theorem head?_reverse_dropIdle {front : List String} (h : front ≠ []) :
    (dropIdle front.reverse).reverse.head? = front.head? := by
  have hne : front.reverse ≠ [] := by simpa using h
  obtain ⟨idle, hidle⟩ := dropIdle_suffix front.reverse
  have hlast : front.reverse.getLast? = (dropIdle front.reverse).getLast? := by
    conv_lhs => rw [← hidle, List.getLast?_append_of_ne_nil _ (dropIdle_ne_nil hne)]
  rw [List.head?_reverse, ← hlast, List.getLast?_reverse]

/-- What is beside a path: the names of its folder, without the idle ones at their end, and one
more. -/
theorem names_beside {path file : String} (hends : endsAsFolder path = false)
    (hrelative : isAbsolute path = false) (hfile : '/' ∉ file.toList) :
    ∃ front last, names path = front ++ [last] ∧ isIdle last = false ∧
      names (beside path file) = (dropIdle front.reverse).reverse ++ [file] := by
  obtain hnil | ⟨front, last, hnames⟩ := List.eq_nil_or_concat (names path)
  · exact absurd hnil (names_ne_nil path)
  rw [List.concat_eq_append] at hnames
  have hlast : isIdle last = false := by
    simpa [endsAsFolder, hnames] using hends
  refine ⟨front, last, hnames, hlast, ?_⟩
  cases front with
  | nil =>
    have hbeside : beside path file = file := by simp [beside, hnames, dropIdle]
    rw [hbeside, names_of_noSlash hfile]
    rfl
  | cons first more =>
    have hne : (first :: more).reverse ≠ [] := by simp
    have hfirst : dropIdle (first :: more).reverse ≠ [""] := by
      intro hroot
      have hhead := head?_reverse_dropIdle (List.cons_ne_nil first more)
      rw [hroot] at hhead
      exact head?_ne_of_relative hrelative hnames hhead.symm
    have hdrop : dropIdle (names path).reverse = last :: (first :: more).reverse := by
      rw [hnames, List.reverse_append, List.reverse_singleton, List.singleton_append, dropIdle]
      · rw [hlast]
        rfl
      · exact hne
    have hbeside : beside path file =
        "/".intercalate (dropIdle (first :: more).reverse).reverse ++ "/" ++ file := by
      rw [beside, hdrop]
      dsimp only
      split
      · next hnil => exact absurd hnil (dropIdle_ne_nil hne)
      · next hroot => exact absurd hroot hfirst
      · rfl
    rw [hbeside]
    refine names_within (by simpa using dropIdle_ne_nil hne) ?_ hfile
    intro name hname
    have hmem : name ∈ (first :: more).reverse :=
      (dropIdle_suffix _).subset (List.mem_reverse.1 hname)
    have hpath : name ∈ names path := by
      rw [hnames]
      exact List.mem_append_left _ (List.mem_reverse.1 hmem)
    exact noSlash_of_mem_names hpath

/-- **Beside a path the last step is another one**, and all others stay. -/
theorem steps_beside {path file : String} (hends : endsAsFolder path = false)
    (hrelative : isAbsolute path = false) (hfile : '/' ∉ file.toList)
    (hbusy : isIdle file = false) :
    ∃ folder last, steps path = folder ++ [last] ∧
      steps (beside path file) = folder ++ [file] := by
  obtain ⟨front, last, hnames, hlast, hbeside⟩ := names_beside hends hrelative hfile
  refine ⟨front.filter fun name => !isIdle name, last, ?_, ?_⟩
  · rw [steps, hnames, List.filter_append]
    simp [hlast]
  · rw [steps, hbeside, List.filter_append, List.filter_reverse, filter_dropIdle,
      List.filter_reverse, List.reverse_reverse]
    simp [hbusy]

/-- A path beside a path that starts in the present folder starts there as well, and ends like that
of a file. -/
theorem file_beside {path file : String} (hends : endsAsFolder path = false)
    (hrelative : isAbsolute path = false) (hfile : '/' ∉ file.toList)
    (hbusy : isIdle file = false) :
    isAbsolute (beside path file) = false ∧ endsAsFolder (beside path file) = false := by
  obtain ⟨front, last, hnames, hlast, hbeside⟩ := names_beside hends hrelative hfile
  constructor
  · by_contra habsolute
    obtain ⟨name, rest, hroot⟩ := isAbsolute_iff.1 (Bool.of_not_eq_false habsolute)
    rw [hbeside] at hroot
    by_cases hfront : front = []
    · subst hfront
      simp [dropIdle] at hroot
    · -- the first name is that of the path
      have hhead := head?_reverse_dropIdle hfront
      obtain ⟨first, more, hkept⟩ := List.exists_cons_of_ne_nil
        (List.reverse_ne_nil_iff.2 (dropIdle_ne_nil (List.reverse_ne_nil_iff.2 hfront)))
      rw [hkept, List.cons_append] at hroot
      obtain ⟨rfl, -⟩ := List.cons.inj hroot
      rw [hkept] at hhead
      exact head?_ne_of_relative hrelative hnames hhead.symm
  · rw [endsAsFolder, hbeside, List.getLast?_concat]
    exact hbusy

end Path

/-! ### Places -/

namespace Disk

variable {disk : Disk} {place other : Place} {steps more : List String} {path : String}
  {data : Bytes} {entry : DiskEntry}

@[simp] theorem find?_nil (disk : Disk) : disk.find? [] = some .folder := rfl

theorem find?_put_self (h : place ≠ []) : (disk.put place entry).find? place = some entry := by
  have hempty : place.isEmpty = false := by simpa using h
  simp [find?, put, hempty]

theorem find?_put_of_ne (h : other ≠ place) :
    (disk.put place entry).find? other = disk.find? other := by
  have hother : (other == place) = false := by simpa using h
  have hfilter : (disk.entries.filter fun e => e.1 != place).lookup other =
      disk.entries.lookup other := by
    induction disk.entries with
    | nil => rfl
    | cons e rest ih =>
      obtain ⟨key, kept⟩ := e
      by_cases hkey : key = place
      · subst hkey
        simpa [List.lookup_cons, hother] using ih
      · have hkept : ((key, kept) :: rest).filter (fun e => e.1 != place) =
            (key, kept) :: rest.filter fun e => e.1 != place := by
          simp [hkey]
        rw [hkept, List.lookup_cons, List.lookup_cons, ih]
  simp only [find?, put, List.lookup_cons, hother, hfilter]

/-- Steps one after the other. -/
theorem follow_append (disk : Disk) (place : Place) (steps more : List String) :
    disk.follow place (steps ++ more) =
      match disk.follow place steps with
      | .ok between => disk.follow between more
      | .error fault => .error fault := by
  induction steps generalizing place with
  | nil => rfl
  | cons name rest ih =>
    rw [List.cons_append, follow, follow]
    split
    · split
      · split
        · rfl
        · exact ih _
      · split
        · exact ih _
        · rfl
    · rfl
    · rfl

/-- There are folders on the way to a place. -/
def Reached (disk : Disk) (place : Place) : Prop :=
  ∀ folder, folder <+: place → folder ≠ place → disk.find? folder = some .folder

theorem reached_nil (disk : Disk) : disk.Reached [] := by
  intro folder hfolder hne
  exact absurd (List.prefix_nil.1 hfolder) hne

/-- Wherever steps lead, there are folders on the way. -/
theorem Reached.follow (h : disk.Reached place) (hfollow : disk.follow place steps = .ok other) :
    disk.Reached other := by
  induction steps generalizing place with
  | nil =>
    obtain rfl := Except.ok.inj hfollow
    exact h
  | cons name rest ih =>
    rw [Disk.follow] at hfollow
    split at hfollow
    · next hfolder =>
      split at hfollow
      · split at hfollow
        · cases hfollow
        · -- on the way up there are only folders that were passed on the way down
          refine ih ?_ hfollow
          intro folder hup hne
          have hdown : folder <+: place := hup.trans (List.dropLast_prefix place)
          refine h folder hdown ?_
          rintro rfl
          exact hne (List.IsPrefix.eq_of_length_le hup (by simp))
      · split at hfollow
        · refine ih ?_ hfollow
          intro folder hprefix hne
          rcases List.prefix_concat_iff.1 hprefix with heq | hdown
          · exact absurd heq hne
          · by_cases hplace : folder = place
            · rw [hplace]
              exact hfolder
            · exact h folder hdown hplace
        · cases hfollow
    · cases hfollow
    · cases hfollow

/-- One more step from a folder. -/
theorem follow_name {name : String} (hfolder : disk.find? place = some .folder)
    (hup : name ≠ "..") (hname : Path.isName name = true) :
    disk.follow place [name] = .ok (place ++ [name]) := by
  rw [follow, hfolder]
  simp only [hup, if_false, hname, if_true]
  rfl

/-- The last step to a place that is no folder is a step down. -/
theorem follow_last {name : String} (h : disk.Reached place)
    (hfollow : disk.follow place [name] = .ok other) (hother : disk.find? other ≠ some .folder) :
    disk.find? place = some .folder ∧ other = place ++ [name] := by
  rw [follow] at hfollow
  split at hfollow
  · next hfolder =>
    refine ⟨hfolder, ?_⟩
    split at hfollow
    · split at hfollow
      · cases hfollow
      · next hne =>
        obtain rfl := Except.ok.inj hfollow
        -- what lies above a folder is a folder
        have hup : place.dropLast ≠ place := by
          intro heq
          have hlength := congrArg List.length heq
          rw [List.length_dropLast] at hlength
          have hempty : place = [] := List.eq_nil_of_length_eq_zero (by omega)
          exact hne (by rw [hempty]; rfl)
        exact absurd (h _ (List.dropLast_prefix place) hup) hother
    · split at hfollow
      · exact (Except.ok.inj hfollow).symm
      · cases hfollow
  · cases hfollow
  · cases hfollow

/-- The place of a path is where its steps lead. -/
theorem place_eq_ok_iff : disk.place path = .ok place ↔
    Path.isSpeakable path = true ∧ path ≠ "" ∧ Path.isAbsolute path = false ∧
      disk.follow [] (Path.steps path) = .ok place := by
  unfold Disk.place
  split
  · next hspeak =>
    simp only [Bool.not_eq_true'] at hspeak
    simp [hspeak]
  · next hspeak =>
    simp only [Bool.not_eq_true', Bool.not_eq_false] at hspeak
    split
    · next hnowhere =>
      simp only [reduceCtorEq, false_iff, not_and]
      intro _ hne hrelative
      rcases hnowhere with hempty | habsolute
      · exact absurd hempty hne
      · rw [hrelative] at habsolute
        cases habsolute
    · next hsomewhere =>
      rw [not_or, Bool.not_eq_true] at hsomewhere
      simp [hspeak, hsomewhere]

/-- A name without slashes is that of a place in the present folder. -/
theorem place_name {name : String} (hspeak : Path.isSpeakable name = true)
    (hslash : '/' ∉ name.toList) (hbusy : Path.isIdle name = false) (hup : name ≠ "..")
    (hname : Path.isName name = true) : disk.place name = .ok [name] := by
  have hnames := Path.names_of_noSlash hslash
  have hsteps : Path.steps name = [name] := by simp [Path.steps, hnames, hbusy]
  refine place_eq_ok_iff.2 ⟨hspeak, ?_, ?_, ?_⟩
  · rintro rfl
    exact absurd hbusy (by decide)
  · by_contra habsolute
    obtain ⟨first, rest, hroot⟩ := Path.isAbsolute_iff.1 (Bool.of_not_eq_false habsolute)
    rw [hnames] at hroot
    cases hroot
  · rw [hsteps]
    exact follow_name disk.find?_nil hup hname

/-- **Beside a file is the folder of the file.** -/
theorem place_beside {file : String} (hplace : disk.place path = .ok place)
    (hfile : disk.find? place ≠ some .folder) (hends : Path.endsAsFolder path = false)
    (hspeak : Path.isSpeakable (Path.beside path file) = true) (hslash : '/' ∉ file.toList)
    (hbusy : Path.isIdle file = false) (hup : file ≠ "..") (hname : Path.isName file = true) :
    disk.place (Path.beside path file) = .ok (place.dropLast ++ [file]) := by
  obtain ⟨-, -, hrelative, hfollow⟩ := place_eq_ok_iff.1 hplace
  obtain ⟨folder, last, hsteps, hbeside⟩ := Path.steps_beside hends hrelative hslash hbusy
  obtain ⟨hrelative', hends'⟩ := Path.file_beside hends hrelative hslash hbusy
  rw [hsteps, follow_append] at hfollow
  cases hbetween : disk.follow [] folder with
  | error fault =>
    rw [hbetween] at hfollow
    cases hfollow
  | ok between =>
    rw [hbetween] at hfollow
    obtain ⟨hfolder, rfl⟩ :=
      follow_last ((reached_nil disk).follow hbetween) hfollow hfile
    refine place_eq_ok_iff.2 ⟨hspeak, ?_, hrelative', ?_⟩
    · intro hempty
      rw [hempty] at hends'
      exact absurd hends' (by decide)
    · rw [hbeside, follow_append, hbetween, List.dropLast_concat]
      exact follow_name hfolder hup hname

/-! ### Writing -/

theorem write_eq_ok_iff {next : Disk} : disk.write path data = .ok next ↔
    ∃ place, disk.place path = .ok place ∧ disk.find? place ≠ some .folder ∧
      Path.endsAsFolder path = false ∧ next = disk.put place (.file data) := by
  unfold write
  split
  · next fault hplace => simp [hplace]
  · next place hplace =>
    split
    · next hfolder => simp [hplace, hfolder]
    · next hfile =>
      split
      · next hends => simp [hplace, hends]
      · next hends =>
        rw [Bool.not_eq_true] at hends
        constructor
        · intro h
          exact ⟨place, hplace, hfile, hends, (Except.ok.inj h).symm⟩
        · rintro ⟨other, hother, -, -, rfl⟩
          rw [hplace] at hother
          obtain rfl := Except.ok.inj hother
          rfl

theorem follow_put (hfile : disk.find? place ≠ some .folder) {start : Place} :
    (disk.put place (.file data)).follow start steps = .ok other ↔
      disk.follow start steps = .ok other := by
  induction steps generalizing start with
  | nil => rfl
  | cons name rest ih =>
    rw [follow, follow]
    by_cases hstart : start = place
    · -- there was no folder, and there is none now
      subst hstart
      have hne : start ≠ [] := by
        rintro rfl
        exact hfile rfl
      rw [find?_put_self hne]
      cases hfind : disk.find? start with
      | none => simp
      | some entry =>
        cases entry with
        | folder => exact absurd hfind hfile
        | file kept => simp
    · rw [find?_put_of_ne hstart]
      split
      · split
        · split
          · rfl
          · exact ih
        · split
          · exact ih
          · rfl
      · rfl
      · rfl

/-- **Places stay where they are when a file is written.** -/
theorem place_put (hfile : disk.find? place ≠ some .folder) :
    (disk.put place (.file data)).place path = .ok other ↔ disk.place path = .ok other := by
  rw [place_eq_ok_iff, place_eq_ok_iff, follow_put hfile]

end Disk

end Timepiece
