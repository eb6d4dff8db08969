import Landscape.Proofs.Rendering.Atomicity

namespace Landscape

def pictureOf? (typeface : Typeface) (width height : UInt32) (stride : Nat) (m : Mesh)
    (relief : Relief) (theme : Theme) : Option Png.Image :=
  let r : Renderer := ⟨"", width, height, stride⟩
  match r.chart typeface m relief theme with
  | .error _ => none
  | .ok chart => some (r.picture chart theme)

def pictureFile (typeface : Typeface) (codec : Png.Codec) (width height : UInt32) (stride : Nat)
    (m : Mesh) (relief : Relief) (theme : Theme) : Option ByteArray :=
  (pictureOf? typeface width height stride m relief theme).bind fun picture =>
    (codec.encode picture).toOption

/-- The folder of a renderer has no part in its pictures. -/
theorem Renderer.pictureOf?_eq (r : Renderer) (typeface : Typeface) (m : Mesh) (relief : Relief)
    (theme : Theme) :
    pictureOf? typeface r.width r.height r.stride m relief theme =
      match r.chart typeface m relief theme with
      | .error _ => none
      | .ok chart => some (r.picture chart theme) := rfl

section Pictures

variable {r : Renderer} {typeface : Typeface} {m : Mesh} {relief : Relief} {theme : Theme}
  {chart : Chart}

theorem Renderer.pictureFile_of_chart (h : r.chart typeface m relief theme = .ok chart)
    (codec : Png.Codec) :
    pictureFile typeface codec r.width r.height r.stride m relief theme =
      (codec.encode (r.picture chart theme)).toOption := by
  rw [pictureFile, r.pictureOf?_eq, h]
  rfl

theorem Renderer.pictureFile_of_error {e : Failure} (h : r.chart typeface m relief theme = .error e)
    (codec : Png.Codec) :
    pictureFile typeface codec r.width r.height r.stride m relief theme = none := by
  rw [pictureFile, r.pictureOf?_eq, h]
  rfl

theorem Renderer.exists_of_pictureFile {codec : Png.LawfulCodec} {file : ByteArray}
    (h : pictureFile typeface codec r.width r.height r.stride m relief theme = some file) :
    ∃ picture, pictureOf? typeface r.width r.height r.stride m relief theme = some picture ∧
      codec.encode picture = .ok file ∧ codec.decode? file = some picture := by
  rcases hchart : r.chart typeface m relief theme with e | chart
  · rw [pictureFile_of_error hchart] at h
    cases h
  · rw [pictureFile_of_chart hchart] at h
    refine ⟨r.picture chart theme, ?_, ?_⟩
    · rw [r.pictureOf?_eq, hchart]
    · rcases hencode : codec.encode (r.picture chart theme) with e | bytes
      · rw [hencode] at h
        cases h
      · rw [hencode] at h
        cases h
        exact ⟨rfl, codec.decode?_of_encode hencode (r.size_picture chart theme)⟩

end Pictures

inductive Request where
  | theme (theme : Theme)
  | named (name : String)

structure Call where
  renderer : Renderer
  mesh : Mesh
  relief : Relief
  request : Request

namespace Call

/-- The theme that is asked for; a text that is no theme's name asks for none. -/
def theme? (c : Call) : Option Theme :=
  match c.request with
  | .theme theme => some theme
  | .named name => Theme.ofName? name

def path? (c : Call) : Option String :=
  c.theme?.map c.renderer.target

def file? (typeface : Typeface) (codec : Png.Codec) (c : Call) : Option ByteArray :=
  c.theme?.bind (pictureFile typeface codec c.renderer.width c.renderer.height c.renderer.stride
    c.mesh c.relief)

def run (typeface : Typeface) (codec : Png.Codec) (c : Call) (tree : Node) : Outcome String :=
  match c.request with
  | .theme theme => c.renderer.render typeface c.mesh c.relief theme tree codec
  | .named name => c.renderer.renderNamed typeface c.mesh c.relief name tree codec

def HasArea (c : Call) : Prop :=
  1 ≤ c.renderer.width ∧ 1 ≤ c.renderer.height

/-- The call writes a file at a path. -/
structure Writes (typeface : Typeface) (codec : Png.Codec) (c : Call) (tree : Node) (path : String)
    (file : ByteArray) : Prop where
  path_eq : c.path? = some path
  file_eq : c.file? typeface codec = some file
  room : ∃ way, tree.wayToFile path = .ok way

variable {typeface : Typeface} {codec : Png.LawfulCodec} {c d : Call} {tree other : Node}
  {path path' : String} {file file' : ByteArray} {theme : Theme}

theorem Writes.unique (h : c.Writes typeface codec tree path file)
    (h' : c.Writes typeface codec tree path' file') : path = path' ∧ file = file' := by
  refine ⟨Option.some.inj ?_, Option.some.inj ?_⟩
  · exact h.path_eq.symm.trans h'.path_eq
  · exact h.file_eq.symm.trans h'.file_eq

theorem Writes.room_namesOf (h : c.Writes typeface codec tree path file) :
    Node.Room (Path.namesOf path) tree := by
  obtain ⟨way, hway⟩ := h.room
  rw [← Node.names_of_wayToFile hway]
  exact Node.room_of_wayToFile hway

theorem run_of_theme (h : c.theme? = some theme) :
    c.run typeface codec tree = c.renderer.render typeface c.mesh c.relief theme tree codec := by
  unfold theme? at h
  unfold run
  cases hrequest : c.request with
  | theme asked =>
    rw [hrequest] at h
    cases h
    rfl
  | named name =>
    simp only [hrequest] at h
    simp only [Renderer.renderNamed, Theme.parse, h]

theorem run_of_no_theme (typeface : Typeface) (codec : Png.Codec) (tree : Node)
    (h : c.theme? = none) : ∃ e, c.run typeface codec tree = ⟨.error e, tree, []⟩ := by
  unfold theme? at h
  unfold run
  cases hrequest : c.request with
  | theme asked =>
    rw [hrequest] at h
    cases h
  | named name =>
    simp only [hrequest] at h
    simp only [Renderer.renderNamed, Theme.parse, h]
    exact ⟨_, rfl⟩

theorem file?_of_theme (typeface : Typeface) (codec : Png.Codec) (h : c.theme? = some theme) :
    c.file? typeface codec = pictureFile typeface codec c.renderer.width c.renderer.height
      c.renderer.stride c.mesh c.relief theme := by
  rw [file?, h]
  rfl

/-- A call writes its file and returns the path, or it fails and leaves the files as they were. -/
theorem run_cases (typeface : Typeface) (codec : Png.LawfulCodec) (harea : c.HasArea) (tree : Node) :
    (∃ path file, c.Writes typeface codec tree path file ∧
      (c.run typeface codec tree).result = .ok path ∧
      (c.run typeface codec tree).tree = tree.put (Path.namesOf path) (.file file)) ∨
    ((¬ ∃ path file, c.Writes typeface codec tree path file) ∧
      (∃ e, (c.run typeface codec tree).result = .error e) ∧
      (c.run typeface codec tree).tree = tree) := by
  rcases htheme : c.theme? with _ | theme
  · -- A text that names no theme is refused before anything is looked at.
    right
    obtain ⟨e, he⟩ := run_of_no_theme typeface codec tree htheme
    rw [he]
    refine ⟨?_, ⟨e, rfl⟩, rfl⟩
    rintro ⟨path, file, h⟩
    have hpath := h.path_eq
    rw [path?, htheme] at hpath
    cases hpath
  · have hpath : c.path? = some (c.renderer.target theme) := by
      rw [path?, htheme]
      rfl
    have hfile := file?_of_theme typeface codec htheme
    rw [run_of_theme htheme]
    -- The four ends of a render: with an area there are no encoding errors, and one end writes.
    have hends := c.renderer.render_ends typeface codec c.mesh c.relief theme tree
    generalize (c.renderer.render typeface c.mesh c.relief theme tree codec).result = result
      at hends ⊢
    generalize (c.renderer.render typeface c.mesh c.relief theme tree codec).tree = after at hends ⊢
    cases hends with
    | notFinished hchart =>
      right
      refine ⟨?_, ⟨_, rfl⟩, rfl⟩
      rintro ⟨path, file, h⟩
      rw [Renderer.pictureFile_of_error hchart] at hfile
      cases hfile.symm.trans h.file_eq
    | notCreated hchart hway =>
      right
      refine ⟨?_, ⟨_, rfl⟩, rfl⟩
      rintro ⟨path, file, h⟩
      obtain ⟨way, hroom⟩ := h.room
      cases hpath.symm.trans h.path_eq
      cases hway.symm.trans hroom
    | notEncoded _ _ hencode =>
      rcases Png.LawfulCodec.side_eq_zero (c.renderer.size_picture _ theme) hencode with
        hside | hside
      · exact absurd harea.1 (by simp [show c.renderer.width = 0 from hside])
      · exact absurd harea.2 (by simp [show c.renderer.height = 0 from hside])
    | written hchart hway hencode =>
      left
      rw [Renderer.pictureFile_of_chart hchart, hencode] at hfile
      refine ⟨_, _, ⟨hpath, hfile, _, hway⟩, rfl, ?_⟩
      rw [Node.names_of_wayToFile hway]

theorem run_of_writes (harea : c.HasArea) (h : c.Writes typeface codec tree path file) :
    (c.run typeface codec tree).result = .ok path ∧
      (c.run typeface codec tree).tree = tree.put (Path.namesOf path) (.file file) := by
  rcases run_cases typeface codec harea tree with ⟨path', file', h', hresult, htree⟩ | ⟨hnone, _⟩
  · obtain ⟨rfl, rfl⟩ := h.unique h'
    exact ⟨hresult, htree⟩
  · exact absurd ⟨path, file, h⟩ hnone

theorem run_of_not_writes (harea : c.HasArea)
    (h : ¬ ∃ path file, c.Writes typeface codec tree path file) :
    (∃ e, (c.run typeface codec tree).result = .error e) ∧
      (c.run typeface codec tree).tree = tree := by
  rcases run_cases typeface codec harea tree with ⟨path, file, h', _⟩ | ⟨_, hrun⟩
  · exact absurd ⟨path, file, h'⟩ h
  · exact hrun

theorem writes_of_result (harea : c.HasArea) (h : (c.run typeface codec tree).result = .ok path) :
    ∃ file, c.Writes typeface codec tree path file := by
  rcases run_cases typeface codec harea tree with ⟨path', file, hwrites, hresult, _⟩ | ⟨_, ⟨e, he⟩, _⟩
  · cases h.symm.trans hresult
    exact ⟨file, hwrites⟩
  · cases h.symm.trans he

/-- What is at the end of a way after a call: its file, where it wrote one, or what was there. -/
theorem entryAt?_run (harea : c.HasArea) (h : c.Writes typeface codec tree path file)
    (way : List String) : (c.run typeface codec tree).tree.entryAt? way =
      if way = Path.namesOf path then some (.file file) else tree.entryAt? way := by
  rw [(run_of_writes harea h).2, Node.entryAt?_put h.room_namesOf]

theorem writes_congr (h : tree.SameFolders other) :
    c.Writes typeface codec tree path file ↔ c.Writes typeface codec other path file := by
  constructor
  · rintro ⟨hpath, hfile, hroom⟩
    exact ⟨hpath, hfile, hroom.imp fun _ => h.wayToFile_iff.mp⟩
  · rintro ⟨hpath, hfile, hroom⟩
    exact ⟨hpath, hfile, hroom.imp fun _ => h.wayToFile_iff.mpr⟩

/-- Whether a call writes is the same before and after every other call. -/
theorem writes_run_iff (harea : d.HasArea) :
    c.Writes typeface codec (d.run typeface codec tree).tree path file ↔
      c.Writes typeface codec tree path file := by
  rcases run_cases typeface codec harea tree with ⟨path', file', hwrites, -, htree⟩ | ⟨-, -, htree⟩
  · rw [htree]
    exact writes_congr (Node.sameFolders_put hwrites.room_namesOf file')
  · rw [htree]

theorem run_run (harea : c.HasArea) :
    (c.run typeface codec (c.run typeface codec tree).tree).tree = (c.run typeface codec tree).tree := by
  by_cases h : ∃ path file, c.Writes typeface codec tree path file
  · obtain ⟨path, file, hwrites⟩ := h
    have hagain : c.Writes typeface codec (c.run typeface codec tree).tree path file :=
      (writes_run_iff harea).mpr hwrites
    rw [(run_of_writes harea hagain).2, (run_of_writes harea hwrites).2,
      Node.put_put hwrites.room_namesOf]
  · have hsame := (run_of_not_writes harea h).2
    rw [hsame, hsame]

theorem run_sameEntries (harea : c.HasArea) (h : tree.SameEntries other) :
    (c.run typeface codec tree).tree.SameEntries (c.run typeface codec other).tree := by
  intro way
  by_cases hwrites : ∃ path file, c.Writes typeface codec tree path file
  · obtain ⟨path, file, hwrites⟩ := hwrites
    have hother := (writes_congr h.sameFolders).mp hwrites
    rw [entryAt?_run harea hwrites, entryAt?_run harea hother, h way]
  · have hother : ¬ ∃ path file, c.Writes typeface codec other path file :=
      fun ⟨path, file, h'⟩ => hwrites ⟨path, file, (writes_congr h.sameFolders).mpr h'⟩
    rw [(run_of_not_writes harea hwrites).2, (run_of_not_writes harea hother).2, h way]

/-- Two calls whose paths lead to different places leave the same entries in either order. -/
theorem run_comm (hc : c.HasArea) (hd : d.HasArea)
    (hpaths : ∀ p q, c.path? = some p → d.path? = some q → Path.namesOf p ≠ Path.namesOf q) :
    (d.run typeface codec (c.run typeface codec tree).tree).tree.SameEntries
      (c.run typeface codec (d.run typeface codec tree).tree).tree := by
  intro way
  by_cases hcwrites : ∃ path file, c.Writes typeface codec tree path file
  · obtain ⟨p, f, hcwrites⟩ := hcwrites
    -- Each call writes after the other one if it writes before it.
    have hcafter := (writes_run_iff hd).mpr hcwrites
    by_cases hdwrites : ∃ path file, d.Writes typeface codec tree path file
    · obtain ⟨q, g, hdwrites⟩ := hdwrites
      have hdafter := (writes_run_iff hc).mpr hdwrites
      have hne := hpaths p q hcwrites.path_eq hdwrites.path_eq
      rw [entryAt?_run hd hdafter, entryAt?_run hc hcwrites, entryAt?_run hc hcafter,
        entryAt?_run hd hdwrites]
      by_cases hp : way = Path.namesOf p
      · rw [if_pos hp, if_pos hp, if_neg (hp ▸ hne)]
      · rw [if_neg hp, if_neg hp]
    · have hdafter : ¬ ∃ q g, d.Writes typeface codec (c.run typeface codec tree).tree q g :=
        fun ⟨q, g, h⟩ => hdwrites ⟨q, g, (writes_run_iff hc).mp h⟩
      rw [(run_of_not_writes hd hdafter).2, (run_of_not_writes hd hdwrites).2]
  · have hcafter : ¬ ∃ p f, c.Writes typeface codec (d.run typeface codec tree).tree p f :=
      fun ⟨p, f, h⟩ => hcwrites ⟨p, f, (writes_run_iff hd).mp h⟩
    rw [(run_of_not_writes hc hcwrites).2, (run_of_not_writes hc hcafter).2]

end Call

end Landscape
