import Landscape.Proofs.Files.Folders

namespace Landscape
namespace Renderer

variable {folder : String} {s : Settings} {tree : Node} {r : Renderer}

theorem tree_make (folder : String) (s : Settings) (tree : Node) :
    (make folder s tree).2 = (tree.makeFolders folder).2 := by
  unfold make
  rcases tree.makeFolders folder with ⟨e | done, after⟩ <;> rfl

theorem make_eq_ok_iff : (make folder s tree).1 = .ok r ↔
    (tree.makeFolders folder).1 = .ok () ∧ r = ⟨folder, s.pixelWidth, s.pixelHeight, s.stride⟩ := by
  unfold make
  rcases tree.makeFolders folder with ⟨e | done, after⟩ <;> simp [eq_comm]

theorem make_eq_error_iff {f : Failure} : (make folder s tree).1 = .error f ↔
    ∃ e, (tree.makeFolders folder).1 = .error e ∧ f = .problem (.folderNotCreated folder e) := by
  unfold make
  rcases tree.makeFolders folder with ⟨e | done, after⟩ <;> simp [eq_comm]

/-- While the folder of a renderer is there, its pictures are refused their files only by folders. -/
theorem wayToFile_target_eq_error_iff {path : Path} (hpath : Path.ofText r.folder = .ok path)
    (hturns : ∀ turn ∈ Path.turnsOf r.folder, tree.Leads turn)
    (hleads : tree.Leads (Path.namesOf r.folder)) {theme : Theme}
    (hshort : (r.target theme).utf8ByteSize ≤ Path.longestText) {e : FileError} :
    tree.wayToFile (r.target theme) = .error e ↔
      e = .isFolder ∧ tree.entryAt? (Path.namesOf (r.target theme)) = some .folder := by
  rw [namesOf_target]
  have htext := Path.ofText_joinText hpath theme.isName_fileName hshort
  exact Node.wayToFile_eq_error_iff htext hturns hleads theme.tooLong_fileName

/-- How making a renderer ends, for every text of a folder without two dots, all settings and every tree.
What stood anywhere stays, and what is new is a folder on the way to the renderer's. On success that folder is
there, making the renderer again changes nothing, and as long as the folder is there the file of a picture,
whose path must not be too long, is refused exactly where a folder has its name. On failure the folder is
named, and it is not among what is new. A file on the way is a failure; where there is none, where no name is
too long and where the text does not end in a dot for a folder that is missing, it succeeds. -/
theorem make_adds_folders (folder : String) (s : Settings) (tree : Node)
    (hdown : ".." ∉ Path.parts folder) :
    let way := Path.namesOf folder
    let made := make folder s tree
    (∀ other e, tree.entryAt? other = some e → made.2.entryAt? other = some e) ∧
    (∀ other e, tree.entryAt? other = none → made.2.entryAt? other = some e →
      e = .folder ∧ other <+: way) ∧
    (∀ r, made.1 = .ok r →
      made.2.entryAt? way = some .folder ∧
      (∀ t, make folder t made.2 = (.ok ⟨folder, t.pixelWidth, t.pixelHeight, t.stride⟩, made.2)) ∧
      ∀ (later : Node) (theme : Theme), later.entryAt? way = some .folder →
        (r.target theme).utf8ByteSize ≤ Path.longestText →
        ∀ e, later.wayToFile (r.target theme) = .error e ↔
          e = .isFolder ∧ later.entryAt? (Path.namesOf (r.target theme)) = some .folder) ∧
    (∀ f, made.1 = .error f →
      (∃ p : Problem, f = .problem p ∧ p.message = "failed to create output directory " ++ folder) ∧
      ∀ other e, tree.entryAt? other = none → made.2.entryAt? other = some e → other ≠ way) ∧
    ((∃ other bytes, other <+: way ∧ tree.entryAt? other = some (.file bytes)) →
      ∃ f, made.1 = .error f) ∧
    (∀ path, Path.ofText folder = .ok path →
      (path.ending = .dot → tree.entryAt? way = some .folder) →
      (∀ name ∈ way, tooLong name = false) →
      (∀ other bytes, other <+: way → tree.entryAt? other ≠ some (.file bytes)) →
      made.1 = .ok ⟨folder, s.pixelWidth, s.pixelHeight, s.stride⟩) := by
  intro way made
  have hturns : Path.turnsOf folder = [] := Path.turnsOf_eq_nil hdown
  have hfolders := Node.made_makeFolders folder tree
  have htree : made.2 = (tree.makeFolders folder).2 := tree_make folder s tree
  rw [hturns, List.nil_append, ← htree] at hfolders
  refine ⟨hfolders.adds.kept, ?_, ?_, ?_, ?_, ?_⟩
  · intro other e hnone he
    obtain ⟨hfolder, way', hway', hother⟩ := hfolders.adds.added other e hnone he
    rw [List.mem_singleton.mp hway'] at hother
    exact ⟨hfolder, hother⟩
  · intro r hr
    obtain ⟨hok, hmade⟩ := make_eq_ok_iff.mp hr
    obtain ⟨⟨path, hpath⟩, hagain⟩ := Node.makeFolders_again hok
    obtain ⟨hshort, hthere⟩ := Node.leads_iff.mp (hfolders.leads hok way (List.mem_singleton_self way))
    rw [← htree] at hagain
    refine ⟨hthere, ?_, ?_⟩
    · intro t
      apply Prod.ext
      · exact make_eq_ok_iff.mpr ⟨by rw [hagain], rfl⟩
      · rw [tree_make, hagain]
    · intro later theme hlater hlength e
      have hfolder : r.folder = folder := by rw [hmade]
      have hleads : later.Leads (Path.namesOf r.folder) :=
        hfolder ▸ Node.leads_iff.mpr ⟨hshort, hlater⟩
      have hnone : ∀ turn ∈ Path.turnsOf r.folder, later.Leads turn := by
        rw [hfolder, hturns]
        exact nofun
      exact wayToFile_target_eq_error_iff (hfolder ▸ hpath) hnone hleads hlength
  · intro f hf
    obtain ⟨e, he, hmade⟩ := make_eq_error_iff.mp hf
    refine ⟨⟨_, hmade, rfl⟩, ?_⟩
    rintro other entry hnone hentry rfl
    -- A failure leaves the end of the way as it was.
    rw [htree, Node.entryAt?_makeFolders_of_error hturns he, hnone] at hentry
    cases hentry
  · rintro ⟨other, bytes, hother, hfile⟩
    obtain ⟨e, he⟩ := hfolders.exists_error (List.mem_singleton_self way) hother hfile
    exact ⟨_, make_eq_error_iff.mpr ⟨e, he, rfl⟩⟩
  · intro path hpath hdot hshort hfree
    obtain ⟨-, -, rfl⟩ := Path.ofText_eq_ok_iff.mp hpath
    exact make_eq_ok_iff.mpr ⟨Node.makeFolders_of_free hpath hturns hdot hshort hfree, rfl⟩

/-- Beside a file, of two folders named with needless dots and slashes the second is missing. -/
theorem make_adds_folders_deeper :
    let folder := "./out//deep/"
    let tree := Node.folder [("notes", .file ByteArray.empty), ("out", .folder [])]
    let made := make folder {} tree
    ".." ∉ Path.parts folder ∧ made.1 = .ok ⟨folder, 700, 600, 2⟩ ∧
      made.2.entryAt? ["out", "deep"] = some .folder ∧
      made.2.entryAt? ["notes"] = some (.file ByteArray.empty) := by
  intro folder tree made
  have hdown : ".." ∉ Path.parts folder := by decide
  obtain ⟨hkept, -, hok, -, -, hmade⟩ := make_adds_folders folder {} tree hdown
  have hpath : Path.ofText folder = .ok ⟨[], ["out", "deep"], .slash⟩ :=
    Path.ofText_eq_ok_iff.mpr (by decide)
  have hway : Path.namesOf folder = ["out", "deep"] := by decide
  rw [hway] at hok hmade
  have hfree : ∀ other bytes, other <+: ["out", "deep"] → tree.entryAt? other ≠ some (.file bytes) := by
    intro other bytes hother
    rcases List.prefix_cons_iff.mp hother with rfl | ⟨others, rfl, hothers⟩
    · nofun
    · rcases List.prefix_cons_iff.mp hothers with rfl | ⟨others', rfl, hothers'⟩
      · nofun
      · rw [List.prefix_nil.mp hothers']
        nofun
  have hresult := hmade _ hpath nofun (by decide) hfree
  have hsize : ({} : Settings).pixelWidth = 700 ∧ ({} : Settings).pixelHeight = 600 := by decide
  rw [hsize.1, hsize.2] at hresult
  exact ⟨hdown, hresult, (hok _ hresult).1, hkept ["notes"] _ rfl⟩

end Renderer
end Landscape
