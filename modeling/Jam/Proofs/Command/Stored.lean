import Jam.Command.Directory

/-!
Reading and writing files. What it takes for a file to be read, to be missing or to be written, said
by the place to which its path leads. A text that is written is read again at the same path, since
a file is no folder on the way to another one, and nothing else is changed.
-/
namespace Jam.Directory

variable {d d' : Directory} {text source : String} {p q : Path}

/-- A path leads to a file with this text. -/
def Holding (d : Directory) (text source : String) : Prop :=
  ∃ folder name, d.locate text = .ok (.name folder name false) ∧ name.utf8ByteSize ≤ nameLimit ∧
    d.entry? (folder ++ [name]) = some (.file source.toUTF8)

/-- A path leads nowhere: a folder on the way is missing, or what it names. -/
def Lacking (d : Directory) (text : String) : Prop :=
  d.locate text = .error .noSuchFile ∨ ∃ folder name slash,
    d.locate text = .ok (.name folder name slash) ∧ name.utf8ByteSize ≤ nameLimit ∧
      d.entry? (folder ++ [name]) = none

/-- A path leads to a place for a file: a name in a folder, at which no folder stands. -/
def Taking (d : Directory) (text : String) (p : Path) : Prop :=
  ∃ folder name, d.locate text = .ok (.name folder name false) ∧ name.utf8ByteSize ≤ nameLimit ∧
    p = folder ++ [name] ∧ d.entry? p ≠ some .folder

section Places

variable {folder : Path} {name : String} {slash : Bool}

theorem find?_eq (h : name.utf8ByteSize ≤ nameLimit) :
    d.find? folder name = .ok (d.entry? (folder ++ [name])) :=
  if_neg (Nat.not_lt_of_le h)

theorem find?_eq_error (h : ¬ name.utf8ByteSize ≤ nameLimit) :
    d.find? folder name = .error .nameTooLong :=
  if_pos (Nat.lt_of_not_le h)

theorem read_of_error {reason : FileError} (h : d.locate text = .error reason) :
    d.read text = .error reason := by
  unfold read
  rw [h]
  rfl

theorem read_of_folder (h : d.locate text = .ok .folder) : d.read text = .error .isAFolder := by
  unfold read
  rw [h]
  rfl

theorem read_of_long (h : d.locate text = .ok (.name folder name slash))
    (hname : ¬ name.utf8ByteSize ≤ nameLimit) : d.read text = .error .nameTooLong := by
  unfold read
  rw [h]
  change (d.find? folder name >>= _) = _
  rw [find?_eq_error hname]
  rfl

theorem read_of_name (h : d.locate text = .ok (.name folder name slash))
    (hname : name.utf8ByteSize ≤ nameLimit) :
    d.read text = match d.entry? (folder ++ [name]) with
      | none => .error .noSuchFile
      | some .folder => .error .isAFolder
      | some (.file bytes) =>
        if slash then .error .notAFolder
        else (String.fromUTF8? bytes).elim (.error .notText) .ok := by
  unfold read
  rw [h]
  change (d.find? folder name >>= _) = _
  rw [find?_eq hname]
  cases d.entry? (folder ++ [name]) with
  | none => rfl
  | some e =>
    cases e with
    | folder => rfl
    | file bytes =>
      cases slash with
      | true => rfl
      | false => cases h : String.fromUTF8? bytes <;> simp [bind, Except.bind, h] <;> rfl

theorem fromUTF8?_eq_some_iff {bytes : ByteArray} {s : String} :
    String.fromUTF8? bytes = some s ↔ bytes = s.toUTF8 := by
  unfold String.fromUTF8?
  constructor
  · intro h
    split at h
    · obtain rfl := Option.some.inj h
      rfl
    · cases h
  · rintro rfl
    exact dif_pos s.isValidUTF8

theorem read_of_holding (h : d.Holding text source) : d.read text = .ok source := by
  obtain ⟨folder, name, hspot, hname, hentry⟩ := h
  have hbytes : String.fromUTF8? source.toUTF8 = some source := fromUTF8?_eq_some_iff.mpr rfl
  rw [read_of_name hspot hname, hentry]
  simp only [hbytes]
  rfl

theorem read_of_lacking (h : d.Lacking text) : d.read text = .error .noSuchFile := by
  rcases h with hspot | ⟨folder, name, slash, hspot, hname, hentry⟩
  · exact read_of_error hspot
  · rw [read_of_name hspot hname, hentry]

/-- A file is read, or it is missing, or it is there and refused for another reason. -/
theorem read_cases (d : Directory) (text : String) :
    (∃ source, d.Holding text source) ∨ d.Lacking text ∨
      ∃ reason, reason ≠ .noSuchFile ∧ d.read text = .error reason := by
  cases hspot : d.locate text with
  | error reason =>
    by_cases hreason : reason = .noSuchFile
    · subst hreason
      exact Or.inr (Or.inl (Or.inl hspot))
    · exact Or.inr (Or.inr ⟨reason, hreason, read_of_error hspot⟩)
  | ok spot =>
    cases spot with
    | folder => exact Or.inr (Or.inr ⟨.isAFolder, nofun, read_of_folder hspot⟩)
    | name folder name slash =>
      by_cases hname : name.utf8ByteSize ≤ nameLimit
      · have hread := read_of_name hspot hname
        cases hentry : d.entry? (folder ++ [name]) with
        | none => exact Or.inr (Or.inl (Or.inr ⟨folder, name, slash, hspot, hname, hentry⟩))
        | some e =>
          rw [hentry] at hread
          cases e with
          | folder => exact Or.inr (Or.inr ⟨.isAFolder, nofun, hread⟩)
          | file bytes =>
            cases slash with
            | true => exact Or.inr (Or.inr ⟨.notAFolder, nofun, hread⟩)
            | false =>
              cases hbytes : String.fromUTF8? bytes with
              | none =>
                simp only [hbytes] at hread
                exact Or.inr (Or.inr ⟨.notText, nofun, hread⟩)
              | some source =>
                obtain rfl := fromUTF8?_eq_some_iff.mp hbytes
                exact Or.inl ⟨source, folder, name, hspot, hname, hentry⟩
      · exact Or.inr (Or.inr ⟨.nameTooLong, nofun, read_of_long hspot hname⟩)

theorem lacking_of_read (h : d.read text = .error .noSuchFile) : d.Lacking text := by
  rcases d.read_cases text with ⟨source, hsource⟩ | hlacking | ⟨reason, hreason, hread⟩
  · rw [read_of_holding hsource] at h
    cases h
  · exact hlacking
  · rw [h] at hread
    cases hread
    exact absurd rfl hreason

theorem write_of_taking (h : d.Taking text p) :
    d.write text source = .ok (d.put p (.file source.toUTF8)) := by
  obtain ⟨folder, name, hspot, hname, rfl, hentry⟩ := h
  unfold write
  rw [hspot]
  change (d.find? folder name >>= _) = _
  rw [find?_eq hname]
  cases he : d.entry? (folder ++ [name]) with
  | none => rfl
  | some e =>
    cases e with
    | folder => exact absurd he hentry
    | file bytes => rfl

/-- Nothing is written where there is no place for a file. -/
theorem taking_of_write (h : d.write text source = .ok d') : ∃ p, d.Taking text p := by
  unfold write at h
  cases hspot : d.locate text with
  | error reason =>
    rw [hspot] at h
    cases h
  | ok spot =>
    rw [hspot] at h
    cases spot with
    | folder => cases h
    | name folder name slash =>
      cases slash with
      | true => cases h
      | false =>
        change (d.find? folder name >>= _) = _ at h
        by_cases hname : name.utf8ByteSize ≤ nameLimit
        · rw [find?_eq hname] at h
          refine ⟨_, folder, name, hspot, hname, rfl, fun hentry => ?_⟩
          rw [hentry] at h
          cases h
        · rw [find?_eq_error hname] at h
          cases h

/-- Whether a path can be written to does not depend on the text. -/
theorem write_eq_error {reason : FileError} (h : d.write text source = .error reason)
    (content : String) : d.write text content = .error reason := by
  unfold write at h ⊢
  cases hspot : d.locate text with
  | error e =>
    rw [hspot] at h
    exact h
  | ok spot =>
    rw [hspot] at h
    cases spot with
    | folder => exact h
    | name folder name slash =>
      cases slash with
      | true => exact h
      | false =>
        change (d.find? folder name >>= _) = _ at h
        change (d.find? folder name >>= _) = _
        by_cases hname : name.utf8ByteSize ≤ nameLimit
        · rw [find?_eq hname] at h ⊢
          cases hentry : d.entry? (folder ++ [name]) with
          | none =>
            rw [hentry] at h
            cases h
          | some e =>
            rw [hentry] at h
            cases e with
            | folder => exact h
            | file bytes => cases h
        · rw [find?_eq_error hname] at h ⊢
          exact h

end Places

section Changes

variable {bytes : ByteArray}

theorem lookup_filter_ne (entries : List (Path × Entry)) (p q : Path) :
    (entries.filter (·.1 != p)).lookup q = if q = p then none else entries.lookup q := by
  induction entries with
  | nil => simp
  | cons entry entries ih =>
    obtain ⟨r, e⟩ := entry
    by_cases hr : r = p
    · subst hr
      rw [List.filter_cons_of_neg (by simp), ih, List.lookup_cons]
      by_cases hq : q = r
      · rw [if_pos hq, if_pos hq]
      · rw [if_neg hq, if_neg hq, beq_eq_false_iff_ne.mpr hq]
    · rw [List.filter_cons_of_pos (by simpa using hr), List.lookup_cons, List.lookup_cons, ih]
      by_cases hq : q = r
      · subst hq
        simp [hr]
      · rw [beq_eq_false_iff_ne.mpr hq]

/-- What is put at a path stands there, and all else is as before. -/
theorem lookup_put (hp : p ≠ []) (e : Entry) (q : Path) :
    Directory.entry? (d.put p e) q = if q = p then some e else d.entry? q := by
  unfold entry? put
  simp only [List.lookup_cons, lookup_filter_ne]
  by_cases hq : q = p
  · subst hq
    simp [hp]
  · simp [hq, beq_eq_false_iff_ne.mpr hq]

/-- A step into a folder does not meet a file that stands where no folder was. -/
theorem enter_put {folder next : Path} {name : String} (hp : p ≠ [])
    (hentry : d.entry? p ≠ some .folder) (h : d.enter folder name = .ok next) :
    (d.put p (.file bytes)).enter folder name = .ok next := by
  unfold enter at h ⊢
  split
  · rwa [if_pos ‹_›] at h
  · rw [if_neg ‹_›] at h
    split
    · rwa [if_pos ‹_›] at h
    · rw [if_neg ‹_›] at h
      by_cases hname : name.utf8ByteSize ≤ nameLimit
      · rw [find?_eq hname] at h ⊢
        cases hfound : d.entry? (folder ++ [name]) with
        | none =>
          rw [hfound] at h
          cases h
        | some e =>
          rw [hfound] at h
          cases e with
          | file bytes => cases h
          | folder =>
            have hne : folder ++ [name] ≠ p := by
              rintro rfl
              exact hentry hfound
            rw [lookup_put hp, if_neg hne, hfound]
            exact h
      · rw [find?_eq_error hname] at h
        cases h

theorem foldlM_enter_put {names : List String} {start folder : Path} (hp : p ≠ [])
    (hentry : d.entry? p ≠ some .folder) (h : names.foldlM d.enter start = .ok folder) :
    names.foldlM (d.put p (.file bytes)).enter start = .ok folder := by
  induction names generalizing start with
  | nil => exact h
  | cons name names ih =>
    rw [List.foldlM_cons] at h ⊢
    cases hstep : d.enter start name with
    | error reason =>
      rw [hstep] at h
      cases h
    | ok next =>
      rw [hstep] at h
      rw [enter_put hp hentry hstep]
      exact ih h

/-- So paths lead where they led before. -/
theorem locate_put {spot : Spot} (hp : p ≠ []) (hentry : d.entry? p ≠ some .folder)
    (h : d.locate text = .ok spot) : (d.put p (.file bytes)).locate text = .ok spot := by
  unfold locate at h ⊢
  by_cases hempty : text.isEmpty = true
  · rw [if_pos hempty] at h
    cases h
  by_cases hlong : pathLimit < text.utf8ByteSize
  · rw [if_neg hempty, if_pos hlong] at h
    cases h
  rw [if_neg hempty, if_neg hlong] at h ⊢
  dsimp only at h ⊢
  -- The working folder is the same, and so is the folder in which the last name is looked up.
  change (List.foldlM d.enter (if text.toList.head? = some '/' then [] else d.home) _ >>= _) = _
    at h
  change (List.foldlM _ (if text.toList.head? = some '/' then [] else d.home) _ >>= _) = _
  generalize (if text.toList.head? = some '/' then [] else d.home) = start at h ⊢
  generalize hsolid : List.dropLast _ = names at h ⊢
  cases hfolder : names.foldlM d.enter start with
  | error reason =>
    rw [hfolder] at h
    cases h
  | ok folder =>
    rw [hfolder] at h
    rw [foldlM_enter_put hp hentry hfolder]
    exact h

/-- What is written at a path is read again there. -/
theorem read_of_write (h : d.Taking text p) :
    (d.put p (.file source.toUTF8)).read text = .ok source := by
  obtain ⟨folder, name, hspot, hname, rfl, hentry⟩ := h
  have hp : folder ++ [name] ≠ [] := by simp
  refine read_of_holding ⟨folder, name, locate_put hp hentry hspot, hname, ?_⟩
  rw [lookup_put hp, if_pos rfl]

end Changes

end Jam.Directory
