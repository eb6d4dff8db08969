import Landscape.Proofs.Files.Entries
import Landscape.Renderer

namespace Landscape
namespace Path

theorem parts_of_last_slash {text name : String} {before : List Char}
    (htext : text.toList = before ++ '/' :: name.toList) (hname : '/' ∉ name.toList) :
    parts text = (before.splitOn '/').map String.ofList ++ [name] := by
  rw [parts, htext, List.splitOn_append_cons_self, List.splitOn_eq_singleton hname,
    List.map_append]
  simp

/-- The text of a folder followed by a name has that name for its last part, and before it the parts of
the folder. -/
theorem exists_parts_joinText (folder : String) {name : String} (hslash : '/' ∉ name.toList) :
    ∃ others, parts (joinText folder name) = others ++ [name] ∧
      others.filter (!stays ·) = steps folder := by
  unfold joinText
  by_cases hempty : folder = ""
  · refine ⟨[], ?_, by rw [hempty]; rfl⟩
    rw [if_pos hempty]
    simp [parts, List.splitOn_eq_singleton hslash]
  · rw [if_neg hempty]
    by_cases hends : folder.endsWith "/"
    · -- The slash is there already: the last part of the folder's text is empty.
      rw [if_pos hends]
      rw [String.endsWith_eq_endsWith_toSlice, String.Slice.endsWith_string_iff] at hends
      obtain ⟨before, hbefore⟩ := hends
      have hfolder : folder.toList = before ++ '/' :: "".toList := by
        simpa using hbefore.symm
      have hjoined : (folder ++ name).toList = before ++ '/' :: name.toList := by
        simp [hfolder]
      refine ⟨_, parts_of_last_slash hjoined hslash, ?_⟩
      rw [steps, parts_of_last_slash hfolder (by decide), List.filter_append]
      simp [stays]
    · rw [if_neg hends]
      have hjoined : (folder ++ "/" ++ name).toList = folder.toList ++ '/' :: name.toList := by
        simp
      exact ⟨_, parts_of_last_slash hjoined hslash, rfl⟩

/-- A name that leads to an entry of its own in any folder. -/
structure IsName (name : String) : Prop where
  slash : '/' ∉ name.toList
  zero : Char.ofNat 0 ∉ name.toList
  goes : stays name = false
  down : name ≠ ".."

theorem turnsFrom_append {name : String} (hdown : name ≠ "..") (before : List String)
    (way : List String) : turnsFrom way (before ++ [name]) = turnsFrom way before := by
  induction before generalizing way with
  | nil => simp [turnsFrom, hdown]
  | cons step rest ih => simp only [List.cons_append, turnsFrom, ih]

section JoinText

variable (folder : String) {name : String} (hname : IsName name)
include hname

theorem steps_joinText : steps (joinText folder name) = steps folder ++ [name] := by
  obtain ⟨others, hparts, hothers⟩ := exists_parts_joinText folder hname.slash
  rw [steps, hparts, List.filter_append, hothers]
  simp [hname.goes]

theorem namesOf_joinText : namesOf (joinText folder name) = namesOf folder ++ [name] := by
  rw [namesOf, steps_joinText folder hname, List.foldl_append, List.foldl_cons, afterStep,
    if_neg hname.down]
  rfl

theorem turnsOf_joinText : turnsOf (joinText folder name) = turnsOf folder := by
  rw [turnsOf, steps_joinText folder hname, turnsFrom_append hname.down]
  rfl

theorem endingOf_joinText : endingOf (joinText folder name) = .name := by
  obtain ⟨others, hparts, -⟩ := exists_parts_joinText folder hname.slash
  have hends : name ≠ "" ∧ name ≠ "." := by
    simpa [stays] using hname.goes
  have hstep : (steps (joinText folder name)).getLast? ≠ some ".." := by
    simp [steps_joinText folder hname, hname.down]
  have hlast : ((others ++ [name]).filter (· ≠ "")).getLast? = some name := by
    simp [hends.1]
  rw [endingOf, if_neg hstep, hparts, hlast]
  simp [hends]

end JoinText

theorem turnsFrom_eq_nil {rest : List String} (h : ".." ∉ rest) (way : List String) :
    turnsFrom way rest = [] := by
  induction rest generalizing way with
  | nil => rfl
  | cons step rest ih =>
    rw [List.mem_cons, not_or] at h
    rw [turnsFrom, ih h.2, if_neg (Ne.symm h.1)]

theorem turnsOf_eq_nil {text : String} (h : ".." ∉ parts text) : turnsOf text = [] :=
  turnsFrom_eq_nil (fun hmem => h (List.mem_filter.mp hmem).1) []

theorem goes_of_mem_foldl {steps way : List String} (hsteps : ∀ step ∈ steps, stays step = false)
    (hway : ∀ name ∈ way, stays name = false ∧ name ≠ "..") :
    ∀ name ∈ steps.foldl afterStep way, stays name = false ∧ name ≠ ".." := by
  induction steps generalizing way with
  | nil => exact hway
  | cons step rest ih =>
    apply ih (fun other hother => hsteps other (List.mem_cons_of_mem _ hother))
    intro name hname
    unfold afterStep at hname
    split at hname
    · exact hway name (List.dropLast_subset _ hname)
    · next hdown =>
      rcases List.mem_append.mp hname with hname | hname
      · exact hway name hname
      · rw [List.mem_singleton.mp hname]
        exact ⟨hsteps step List.mem_cons_self, hdown⟩

/-- There are no dots left on the way to which a text leads. -/
theorem goes_of_mem_namesOf {text name : String} (h : name ∈ namesOf text) :
    stays name = false ∧ name ≠ ".." := by
  have hsteps : ∀ step ∈ steps text, stays step = false := by
    intro step hstep
    simpa using (List.mem_filter.mp hstep).2
  exact goes_of_mem_foldl hsteps (List.forall_mem_nil _) name h

example : namesOf "a/./b/../../c" = ["c"] ∧ turnsOf "a/./b/../../c" = [["a", "b"], ["a"]] := by
  decide

theorem ofText_eq_ok_iff {text : String} {path : Path} :
    ofText text = .ok path ↔ Char.ofNat 0 ∉ text.toList ∧ text.utf8ByteSize ≤ longestText ∧
      path = ⟨turnsOf text, namesOf text, endingOf text⟩ := by
  unfold ofText
  by_cases hzero : Char.ofNat 0 ∈ text.toList
  · simp [hzero]
  · by_cases hlong : longestText < text.utf8ByteSize
    · simp [hzero, hlong, Nat.not_le.mpr hlong]
    · simp [hzero, hlong, Nat.not_lt.mp hlong, eq_comm]

theorem ofText_eq {text : String} (hzero : Char.ofNat 0 ∉ text.toList)
    (hshort : text.utf8ByteSize ≤ longestText) :
    ofText text = .ok ⟨turnsOf text, namesOf text, endingOf text⟩ :=
  ofText_eq_ok_iff.mpr ⟨hzero, hshort, rfl⟩

theorem zero_mem_joinText {folder name : String} (h : Char.ofNat 0 ∈ (joinText folder name).toList) :
    Char.ofNat 0 ∈ folder.toList ∨ Char.ofNat 0 ∈ name.toList := by
  have hslash : Char.ofNat 0 ≠ '/' := by decide
  unfold joinText at h
  split at h
  · exact .inr h
  · split at h
    · simpa using h
    · simpa [hslash] using h

theorem ofText_joinText {folder name : String} {path : Path} (hfolder : ofText folder = .ok path)
    (hname : IsName name) (hshort : (joinText folder name).utf8ByteSize ≤ longestText) :
    ofText (joinText folder name) = .ok ⟨turnsOf folder, namesOf folder ++ [name], .name⟩ := by
  have hjoined : Char.ofNat 0 ∉ (joinText folder name).toList := by
    intro h
    rcases zero_mem_joinText h with h | h
    · exact (ofText_eq_ok_iff.mp hfolder).1 h
    · exact hname.zero h
  rw [ofText_eq hjoined hshort, turnsOf_joinText folder hname, namesOf_joinText folder hname,
    endingOf_joinText folder hname]

theorem joinText_of_open {folder : String} (hempty : folder ≠ "")
    (hends : ¬ "/".toList <:+ folder.toList) (name : String) :
    joinText folder name = folder ++ "/" ++ name := by
  have hslash : ¬ folder.endsWith "/" = true := by
    rwa [String.endsWith_eq_endsWith_toSlice, String.Slice.endsWith_string_iff,
      String.copy_toSlice]
  rw [joinText, if_neg hempty, if_neg hslash]

theorem joinText_dot (name : String) : joinText "." name = "./" ++ name :=
  joinText_of_open (by decide) (by decide) name

end Path

theorem Theme.fileName_injective : Function.Injective Theme.fileName := by
  intro s t h
  cases s <;> cases t
  · rfl
  · exact absurd h (by decide)
  · exact absurd h (by decide)
  · rfl

theorem Theme.tooLong_fileName (theme : Theme) : tooLong theme.fileName = false := by
  cases theme <;> decide

theorem Theme.isName_fileName (theme : Theme) : Path.IsName theme.fileName := by
  cases theme <;> constructor <;> decide

namespace Renderer

theorem namesOf_target (r : Renderer) (theme : Theme) :
    Path.namesOf (r.target theme) = Path.namesOf r.folder ++ [theme.fileName] :=
  Path.namesOf_joinText r.folder theme.isName_fileName

theorem namesOf_target_inj (r : Renderer) {s t : Theme} :
    Path.namesOf (r.target s) = Path.namesOf (r.target t) ↔ s = t := by
  simp [namesOf_target, Theme.fileName_injective.eq_iff]

end Renderer

namespace Node

theorem checkFile_eq_ok_iff {path : Path} {tree : Node} :
    tree.checkFile path = .ok () ↔
      (∀ turn ∈ path.turns, Leads turn tree) ∧ path.ending = .name ∧ Room path.names tree := by
  obtain ⟨turns, names, ending⟩ := path
  rw [← standIn_eq_ok_iff]
  unfold checkFile
  rcases tree.standIn turns with e | done
  · simp [bind, Except.bind]
  · cases ending with
    | name =>
      by_cases hnames : names = []
      · simp [bind, Except.bind, hnames, not_room_nil]
      · simp [bind, Except.bind, hnames, holdsFile_eq_ok_iff]
    | slash =>
      rcases tree.reach names.dropLast with e | node
      · simp [bind, Except.bind]
      · cases node <;> simp [bind, Except.bind]
    | dot | up =>
      rcases tree.reach names with e | node
      · simp [bind, Except.bind]
      · cases node <;> simp [bind, Except.bind]

/-- A file can be created at a text that is the path of a name, where there is room and the folders that
the path leaves are there. -/
theorem wayToFile_eq_ok_iff {text : String} {tree : Node} {way : List String} :
    tree.wayToFile text = .ok way ↔ ∃ turns, Path.ofText text = .ok ⟨turns, way, .name⟩ ∧
      (∀ turn ∈ turns, Leads turn tree) ∧ Room way tree := by
  rcases hpath : Path.ofText text with e | path
  · simp [wayToFile, hpath, bind, Except.bind]
  · have hway : tree.wayToFile text = (tree.checkFile path).bind fun _ => .ok path.names := by
      rw [wayToFile, hpath]
      rfl
    constructor
    · intro h
      rcases hcheck : tree.checkFile path with e | done
      · rw [hway, hcheck] at h
        cases h
      · rw [hway, hcheck] at h
        cases h
        obtain ⟨hturns, hending, hroom⟩ := checkFile_eq_ok_iff.mp hcheck
        refine ⟨path.turns, ?_, hturns, hroom⟩
        rw [← hending]
    · rintro ⟨turns, h, hturns, hroom⟩
      cases h
      rw [hway, checkFile_eq_ok_iff.mpr ⟨hturns, rfl, hroom⟩]
      rfl

theorem room_of_wayToFile {text : String} {tree : Node} {way : List String}
    (h : tree.wayToFile text = .ok way) : Room way tree := by
  obtain ⟨turns, -, -, hroom⟩ := wayToFile_eq_ok_iff.mp h
  exact hroom

theorem SameFolders.wayToFile_iff {tree other : Node} (h : tree.SameFolders other) {text : String}
    {way : List String} : tree.wayToFile text = .ok way ↔ other.wayToFile text = .ok way := by
  simp only [wayToFile_eq_ok_iff, h.leads_iff, h.room_iff]

theorem names_of_wayToFile {text : String} {tree : Node} {way : List String}
    (h : tree.wayToFile text = .ok way) : way = Path.namesOf text := by
  obtain ⟨turns, htext, -, -⟩ := wayToFile_eq_ok_iff.mp h
  exact congrArg Path.names (Path.ofText_eq_ok_iff.mp htext).2.2

/-- The folder that one stands in is always there. -/
theorem makeFolders_dot (entries : List (String × Node)) :
    makeFolders "." (.folder entries) = (.ok (), .folder entries) := by
  have hpath : Path.ofText "." = .ok ⟨Path.turnsOf ".", Path.namesOf ".", Path.endingOf "."⟩ :=
    Path.ofText_eq (by decide) (by decide)
  rw [makeFolders, hpath]
  rfl

variable {tree : Node} {text name : String}

/-- A name in the working folder has room for a file unless it is the name of a folder. -/
theorem wayToFile_of_free (htext : Path.ofText text = .ok ⟨[], [name], .name⟩)
    (hname : tooLong name = false) (hroot : tree.entryAt? [] = some .folder)
    (hfree : tree.entryAt? [name] ≠ some .folder) : tree.wayToFile text = .ok [name] := by
  apply wayToFile_eq_ok_iff.mpr
  refine ⟨[], htext, nofun, room_iff.mpr ⟨List.cons_ne_nil _ _, ?_, hroot, hfree⟩⟩
  intro other hother
  rwa [List.mem_singleton.mp hother]

theorem holdsFile_of_leads {way : List String} (h : Leads way tree) :
    tree.holdsFile way = .error .isFolder := by
  induction h with
  | here => rfl
  | through hname hnode hleads ih =>
    unfold holdsFile
    rw [hname, hnode]
    cases hleads with
    | here => rfl
    | through => simpa using ih

theorem wayToFile_of_leads {turns : List (List String)} {way : List String}
    (htext : Path.ofText text = .ok ⟨turns, way, .name⟩) (hturns : ∀ turn ∈ turns, Leads turn tree)
    (hway : way ≠ []) (h : Leads way tree) : tree.wayToFile text = .error .isFolder := by
  have hcheck : tree.checkFile ⟨turns, way, .name⟩ = .error .isFolder := by
    rw [checkFile, standIn_eq_ok_iff.mpr hturns]
    exact (if_neg hway).trans (holdsFile_of_leads h)
  rw [wayToFile, htext]
  show (tree.checkFile ⟨turns, way, .name⟩).bind _ = _
  rw [hcheck]
  rfl

theorem wayToFile_of_blocked (htext : Path.ofText text = .ok ⟨[], [name], .name⟩)
    (hname : tooLong name = false) (hblocked : tree.entryAt? [name] = some .folder) :
    tree.wayToFile text = .error .isFolder :=
  wayToFile_of_leads htext nofun (List.cons_ne_nil _ _)
    (leads_iff.mpr ⟨List.forall_mem_singleton.mpr hname, hblocked⟩)

end Node
end Landscape
