import Landscape.Program
import Landscape.Proofs.Chart.DefaultCanvas
import Landscape.Proofs.Relief.Numbers
import Landscape.Proofs.Rendering.Calls
import Landscape.Proofs.Rendering.Saving
import Landscape.Proofs.Surface.Outcomes

namespace Landscape

/-- The pictures of some themes are in a folder, and everything else in it is as it was. -/
structure Wrote (file : Theme → ByteArray) (themes : List Theme) (tree after : Node) : Prop where
  written : ∀ theme ∈ themes, after.entryAt? [theme.fileName] = some (.file (file theme))
  kept : ∀ way, (∀ theme ∈ themes, way ≠ [theme.fileName]) → after.entryAt? way = tree.entryAt? way

theorem Wrote.folder_iff {file : Theme → ByteArray} {themes : List Theme} {tree after : Node}
    (h : Wrote file themes tree after)
    (hfree : ∀ theme ∈ themes, tree.entryAt? [theme.fileName] ≠ some .folder) (way : List String) :
    after.entryAt? way = some .folder ↔ tree.entryAt? way = some .folder := by
  by_cases hway : ∃ theme ∈ themes, way = [theme.fileName]
  · obtain ⟨theme, hmem, rfl⟩ := hway
    rw [h.written theme hmem]
    exact iff_of_false nofun (hfree theme hmem)
  · rw [h.kept way fun theme hmem heq => hway ⟨theme, hmem, heq⟩]

/-- One picture and then some more. No picture's file stands in another's way. -/
theorem Wrote.cons {file : Theme → ByteArray} {theme : Theme} {rest : List Theme} {tree middle after : Node}
    (h : Wrote file [theme] tree middle) (hrest : Wrote file rest middle after) :
    Wrote file (theme :: rest) tree after where
  written t ht := by
    by_cases hmem : t ∈ rest
    · exact hrest.written t hmem
    · obtain rfl := (List.mem_cons.mp ht).resolve_right hmem
      refine (hrest.kept _ ?_).trans (h.written t List.mem_cons_self)
      intro other hother heq
      have hname : t.fileName = other.fileName := List.singleton_inj.mp heq
      exact hmem (Theme.fileName_injective hname ▸ hother)
  kept way hway := by
    rw [hrest.kept way fun t ht => hway t (List.mem_cons_of_mem _ ht),
      h.kept way (List.forall_mem_singleton.mpr (hway theme List.mem_cons_self))]

namespace Renderer

variable {r : Renderer} {typeface : Typeface} {m : Mesh} {relief : Relief} {theme : Theme} {chart : Chart}

theorem exists_pictureFile (codec : Png.LawfulCodec) (hpixels : r.pixels < UInt32.size / 2)
    (hsides : r.width ≠ 0 ∧ r.height ≠ 0) (hshape : relief.size = m.size)
    (hchart : Chart.of typeface r.width r.height r.stride m relief theme = .ok chart) :
    ∃ file, pictureFile typeface codec r.width r.height r.stride m relief theme = some file := by
  have hchart' : r.chart typeface m relief theme = .ok chart := by
    rw [Renderer.chart, if_neg (not_not.mpr hshape.symm), orCrash_bind (checkCanvas_of_pixels hpixels), hchart]
  obtain ⟨file, hencode⟩ : ∃ file, codec.encode (r.picture chart theme) = .ok file :=
    (codec.exists_encode_iff (r.size_picture chart theme)).mpr hsides
  refine ⟨file, ?_⟩
  rw [pictureFile_of_chart hchart', hencode]
  rfl

end Renderer

def drawing (count : Nat) (theme : Theme) : Note :=
  ⟨.debug, s!"Drawing {count} surface patches ({theme.name} theme)"⟩

/-- A renderer in the working folder that can finish a picture in every theme. -/
structure Renderer.Ready (r : Renderer) (typeface : Typeface) (codec : Png.Codec) (m : Mesh)
    (relief : Relief) (file : Theme → ByteArray) : Prop where
  folder : r.folder = "."
  area : 1 ≤ r.width ∧ 1 ≤ r.height
  file : ∀ theme,
    pictureFile typeface codec r.width r.height r.stride m relief theme = some (file theme)

namespace Renderer.Ready

variable {r : Renderer} {typeface : Typeface} {codec : Png.LawfulCodec} {m : Mesh} {relief : Relief}
  {file : Theme → ByteArray} {tree : Node} {theme : Theme}

theorem target_eq (h : r.Ready typeface codec m relief file) (theme : Theme) :
    r.target theme = "./" ++ theme.fileName := by
  rw [target, h.folder, Path.joinText_dot]

theorem ofText_target (h : r.Ready typeface codec m relief file) (theme : Theme) :
    Path.ofText (r.target theme) = .ok ⟨[], [theme.fileName], .name⟩ := by
  rw [h.target_eq]
  cases theme
  · exact Path.ofText_eq (by decide) (by decide)
  · exact Path.ofText_eq (by decide) (by decide)

theorem render_of_free (h : r.Ready typeface codec m relief file) (hroot : tree.entryAt? [] = some .folder)
    (hfree : tree.entryAt? [theme.fileName] ≠ some .folder) :
    let outcome := r.render typeface m relief theme tree codec
    outcome.result = .ok (r.target theme) ∧ Wrote file [theme] tree outcome.tree := by
  intro outcome
  have hway := Node.wayToFile_of_free (h.ofText_target theme) theme.tooLong_fileName hroot hfree
  let call : Call := ⟨r, m, relief, .theme theme⟩
  have harea : call.HasArea := h.area
  have hwrites : call.Writes typeface codec tree (r.target theme) (file theme) :=
    ⟨rfl, h.file theme, _, hway⟩
  have hentry := Call.entryAt?_run harea hwrites
  rw [← Node.names_of_wayToFile hway] at hentry
  refine ⟨(Call.run_of_writes harea hwrites).1, ?_, ?_⟩
  · intro other hother
    obtain rfl := List.mem_singleton.mp hother
    exact (hentry _).trans (if_pos rfl)
  · intro way hway
    exact (hentry way).trans (if_neg (hway theme (List.mem_singleton_self theme)))

/-- Where a folder has its name, a picture is drawn and then refused. -/
theorem render_of_blocked (h : r.Ready typeface codec m relief file)
    (hblocked : tree.entryAt? [theme.fileName] = some .folder) :
    ∃ count, r.render typeface m relief theme tree codec =
      ⟨.error (.problem (.fileNotCreated ("./" ++ theme.fileName) .isFolder)), tree,
        [drawing count theme]⟩ := by
  have hway := Node.wayToFile_of_blocked (h.ofText_target theme) theme.tooLong_fileName hblocked
  rcases hchart : r.chart typeface m relief theme with e | chart
  · cases (pictureFile_of_error hchart codec).symm.trans (h.file theme)
  · refine ⟨chart.surface.length, ?_⟩
    rw [render, hchart]
    dsimp only
    rw [savePicture_of_size (r.size_picture chart theme) (bytes_lt hchart), hway, h.target_eq]
    rfl

end Renderer.Ready

namespace Program

variable {r : Renderer} {typeface : Typeface} {codec : Png.LawfulCodec} {m : Mesh} {relief : Relief}
  {file : Theme → ByteArray} {tree : Node} {theme : Theme}

theorem renderAll_cons_of_ok {path : String} {rest : List Theme}
    (h : (r.render typeface m relief theme tree codec).result = .ok path) :
    let first := r.render typeface m relief theme tree codec
    let after := renderAll r typeface m relief codec rest first.tree
    renderAll r typeface m relief codec (theme :: rest) tree =
      { after with notes := first.notes ++ after.notes } := by
  rw [renderAll]
  rcases hfirst : r.render typeface m relief theme tree codec with ⟨result, after, notes⟩
  rw [hfirst] at h
  cases h
  rfl

theorem renderAll_cons_of_error {e : Failure} {notes : List Note} {rest : List Theme} {after : Node}
    (h : r.render typeface m relief theme tree codec = ⟨.error e, after, notes⟩) :
    renderAll r typeface m relief codec (theme :: rest) tree = ⟨.error e, after, notes⟩ := by
  rw [renderAll, h]

theorem renderAll_of_free (h : r.Ready typeface codec m relief file) (themes : List Theme)
    (hroot : tree.entryAt? [] = some .folder)
    (hfree : ∀ theme ∈ themes, tree.entryAt? [theme.fileName] ≠ some .folder) :
    let outcome := renderAll r typeface m relief codec themes tree
    outcome.result = .ok () ∧ Wrote file themes tree outcome.tree := by
  induction themes generalizing tree with
  | nil => exact ⟨rfl, nofun, fun _ _ => rfl⟩
  | cons theme rest ih =>
    obtain ⟨hresult, hfirst⟩ := h.render_of_free hroot (hfree theme List.mem_cons_self)
    have hfolder := hfirst.folder_iff (by simpa using hfree theme List.mem_cons_self)
    obtain ⟨hall, hrest⟩ := ih ((hfolder []).mpr hroot) fun t ht hblocked =>
      hfree t (List.mem_cons_of_mem _ ht) ((hfolder _).mp hblocked)
    rw [renderAll_cons_of_ok hresult]
    exact ⟨hall, hfirst.cons hrest⟩

/-- The first picture whose name a folder has ends the run. -/
theorem renderAll_of_blocked (h : r.Ready typeface codec m relief file) (before behind : List Theme)
    (hroot : tree.entryAt? [] = some .folder)
    (hfree : ∀ t ∈ before, tree.entryAt? [t.fileName] ≠ some .folder)
    (hblocked : tree.entryAt? [theme.fileName] = some .folder) :
    let first := renderAll r typeface m relief codec before tree
    ∃ count, renderAll r typeface m relief codec (before ++ theme :: behind) tree =
      ⟨.error (.problem (.fileNotCreated ("./" ++ theme.fileName) .isFolder)), first.tree,
        first.notes ++ [drawing count theme]⟩ := by
  induction before generalizing tree with
  | nil =>
    obtain ⟨count, hrender⟩ := h.render_of_blocked hblocked
    exact ⟨count, renderAll_cons_of_error hrender⟩
  | cons t rest ih =>
    obtain ⟨hresult, hfirst⟩ := h.render_of_free hroot (hfree t List.mem_cons_self)
    have hfolder := hfirst.folder_iff (by simpa using hfree t List.mem_cons_self)
    obtain ⟨count, hrest⟩ := ih ((hfolder []).mpr hroot)
      (fun u hu hu' => hfree u (List.mem_cons_of_mem _ hu) ((hfolder _).mp hu')) ((hfolder _).mpr hblocked)
    refine ⟨count, ?_⟩
    rw [List.cons_append, renderAll_cons_of_ok hresult, renderAll_cons_of_ok hresult, hrest]
    simp

def meshOf (s : Settings) : Mesh :=
  Mesh.ofSpans s.real s.imaginary s.samples

def reliefOf (s : Settings) : Relief :=
  Relief.ofMesh (meshOf s)

def rendererOf (s : Settings) : Renderer :=
  ⟨".", s.pixelWidth, s.pixelHeight, s.stride⟩

/-- In a working folder nothing has to be made before the pictures. -/
theorem runWith_eq {s : Settings} (hcheck : s.check = .ok ()) {entries : List (String × Node)}
    {outcome : Outcome Unit}
    (h : renderAll (rendererOf s) typeface (meshOf s) (reliefOf s) codec Theme.all (.folder entries) =
      outcome) :
    runWith s typeface (.folder entries) codec =
      { outcome with notes := evaluated (meshOf s) (reliefOf s) :: outcome.notes } := by
  have hmake : Renderer.make "." s (.folder entries) = (.ok (rendererOf s), .folder entries) := by
    rw [Renderer.make, Node.makeFolders_dot]
    rfl
  rw [runWith, hcheck]
  dsimp only
  rw [hmake, ← h]
  rfl

section Run

variable {s : Settings} {entries : List (String × Node)} (hcheck : s.check = .ok ())
  (hready : (rendererOf s).Ready typeface codec (meshOf s) (reliefOf s) file)
include hcheck hready

theorem runWith_of_free
    (hfree : ∀ theme : Theme, (Node.folder entries).entryAt? [theme.fileName] ≠ some .folder) :
    let outcome := runWith s typeface (.folder entries) codec
    outcome.result = .ok () ∧ Wrote file Theme.all (.folder entries) outcome.tree := by
  have hroot : (Node.folder entries).entryAt? [] = some .folder := rfl
  rw [runWith_eq hcheck rfl]
  exact renderAll_of_free hready Theme.all hroot fun theme _ => hfree theme

theorem runWith_of_blocked_light
    (hblocked : (Node.folder entries).entryAt? [Theme.light.fileName] = some .folder) :
    ∃ count, runWith s typeface (.folder entries) codec =
      ⟨.error (.problem (.fileNotCreated ("./" ++ Theme.light.fileName) .isFolder)), .folder entries,
        [evaluated (meshOf s) (reliefOf s), drawing count .light]⟩ := by
  obtain ⟨count, h⟩ := renderAll_of_blocked hready [] [.dark] rfl nofun hblocked
  exact ⟨count, runWith_eq hcheck h⟩

theorem runWith_of_blocked_dark
    (hfree : (Node.folder entries).entryAt? [Theme.light.fileName] ≠ some .folder)
    (hblocked : (Node.folder entries).entryAt? [Theme.dark.fileName] = some .folder) :
    let outcome := runWith s typeface (.folder entries) codec
    outcome.result = .error (.problem (.fileNotCreated ("./" ++ Theme.dark.fileName) .isFolder)) ∧
      Wrote file [.light] (.folder entries) outcome.tree := by
  have hroot : (Node.folder entries).entryAt? [] = some .folder := rfl
  have hbefore : ∀ t ∈ [Theme.light], (Node.folder entries).entryAt? [t.fileName] ≠ some .folder :=
    List.forall_mem_singleton.mpr hfree
  obtain ⟨count, h⟩ := renderAll_of_blocked hready [.light] [] hroot hbefore hblocked
  rw [runWith_eq hcheck h]
  exact ⟨rfl, (renderAll_of_free hready [.light] hroot hbefore).2⟩

end Run

def Drawn (typeface : Typeface) : Prop :=
  let s : Settings := {}
  ∀ theme, ∃ chart,
    Chart.of typeface s.pixelWidth s.pixelHeight s.stride (meshOf s) (reliefOf s) theme = .ok chart

theorem drawn_blank : Drawn .blank := by
  let s : Settings := {}
  have hcheck : s.check = .ok () := Settings.check_eq_ok_iff.mpr (by decide)
  obtain ⟨-, -, hnumbers⟩ := accepted_surface_isNumber s hcheck (by decide)
  obtain ⟨-, -, box, hbox, hbounds⟩ := hnumbers (by decide) (by decide)
  obtain ⟨ps, hps, -⟩ := exists_patches_of_le (m := meshOf s) (r := reliefOf s)
    (by decide : 1 ≤ s.samples) (by decide : 1 ≤ s.stride) le_rfl
  intro theme
  exact Chart.exists_of hbox (fun bounds hmem => (hbounds bounds hmem).1) hps theme

theorem exists_ready (codec : Png.LawfulCodec) (hdrawn : Drawn typeface) :
    ∃ file, (rendererOf {}).Ready typeface codec (meshOf {}) (reliefOf {}) file := by
  let r := rendererOf {}
  have hwidth : r.width = 700 := (by decide : ({} : Settings).pixelWidth = 700)
  have hheight : r.height = 600 := (by decide : ({} : Settings).pixelHeight = 600)
  have hpixels : r.pixels < UInt32.size / 2 := by
    rw [Renderer.pixels, hwidth, hheight]
    decide
  have hsides : r.width ≠ 0 ∧ r.height ≠ 0 := by
    rw [hwidth, hheight]
    decide
  have hfile (theme : Theme) : ∃ file, pictureFile typeface codec r.width r.height r.stride
      (meshOf {}) (reliefOf {}) theme = some file := by
    obtain ⟨chart, hchart⟩ := hdrawn theme
    exact Renderer.exists_pictureFile codec hpixels hsides rfl hchart
  choose file hfile using hfile
  refine ⟨file, rfl, ?_, hfile⟩
  show 1 ≤ r.width ∧ 1 ≤ r.height
  rw [hwidth, hheight]
  decide

/-- How the run ends over a working folder with any content, if both pictures can be drawn. It succeeds
exactly if neither name is that of a folder. Then both files are those of a run in an empty folder, and every
other entry is as it was. Where a folder has the name of the light picture, nothing changes and the dark one
is not begun; where one has only that of the dark picture, the light one has been written and nothing else
changes. -/
theorem working_folder_outcome (typeface : Typeface) (codec : Png.LawfulCodec)
    (hdrawn : Drawn typeface) (entries : List (String × Node)) :
    let light := ["z2.light.png"]
    let dark := ["z2.dark.png"]
    let before := Node.folder entries
    let fresh := run typeface .empty codec
    let outcome := run typeface before codec
    (outcome.result = .ok () ↔
      before.entryAt? light ≠ some .folder ∧ before.entryAt? dark ≠ some .folder) ∧
    (outcome.result = .ok () →
      (∀ way ∈ [light, dark], ∃ file, fresh.tree.entryAt? way = some (.file file) ∧
        outcome.tree.entryAt? way = some (.file file)) ∧
      ∀ way ∉ [light, dark], outcome.tree.entryAt? way = before.entryAt? way) ∧
    (before.entryAt? light = some .folder → ∃ count,
      outcome = ⟨.error (.problem (.fileNotCreated "./z2.light.png" .isFolder)), before,
        [evaluated (meshOf {}) (reliefOf {}), drawing count .light]⟩) ∧
    (before.entryAt? light ≠ some .folder → before.entryAt? dark = some .folder →
      outcome.result = .error (.problem (.fileNotCreated "./z2.dark.png" .isFolder)) ∧
      (∃ file, fresh.tree.entryAt? light = some (.file file) ∧
        outcome.tree.entryAt? light = some (.file file)) ∧
      before.SameBut light outcome.tree) := by
  intro light dark before fresh outcome
  obtain ⟨file, hready⟩ := exists_ready codec hdrawn
  have hcheck : ({} : Settings).check = .ok () := Settings.check_eq_ok_iff.mpr (by decide)
  have hfresh : Wrote file Theme.all .empty fresh.tree :=
    (runWith_of_free hcheck hready fun theme => by simp).2
  have hfree (hlight : before.entryAt? light ≠ some .folder)
      (hdark : before.entryAt? dark ≠ some .folder) :
      outcome.result = .ok () ∧ Wrote file Theme.all before outcome.tree := by
    apply runWith_of_free hcheck hready
    intro theme
    cases theme
    · exact hlight
    · exact hdark
  have hlight (h : before.entryAt? light = some .folder) := runWith_of_blocked_light hcheck hready h
  have hdark (h : before.entryAt? light ≠ some .folder) (h' : before.entryAt? dark = some .folder) :=
    runWith_of_blocked_dark hcheck hready h h'
  have hiff : outcome.result = .ok () ↔
      before.entryAt? light ≠ some .folder ∧ before.entryAt? dark ≠ some .folder := by
    constructor
    · intro hresult
      have hfree' : before.entryAt? light ≠ some .folder := by
        intro h
        obtain ⟨count, houtcome⟩ := hlight h
        cases (congrArg Outcome.result houtcome).symm.trans hresult
      refine ⟨hfree', fun h => ?_⟩
      cases (hdark hfree' h).1.symm.trans hresult
    · rintro ⟨h, h'⟩
      exact (hfree h h').1
  refine ⟨hiff, ?_, hlight, ?_⟩
  · intro hresult
    obtain ⟨h, h'⟩ := hiff.mp hresult
    have hwrote := (hfree h h').2
    constructor
    · intro way hway
      simp only [List.mem_cons, List.not_mem_nil, or_false] at hway
      rcases hway with rfl | rfl
      · exact ⟨_, hfresh.written .light (by decide), hwrote.written .light (by decide)⟩
      · exact ⟨_, hfresh.written .dark (by decide), hwrote.written .dark (by decide)⟩
    · intro way hway
      apply hwrote.kept
      rintro theme - rfl
      cases theme <;> exact hway (by decide)
  · intro h h'
    obtain ⟨hresult, hwrote⟩ := hdark h h'
    refine ⟨hresult, ⟨_, hfresh.written .light (by decide), hwrote.written .light (by decide)⟩, ?_⟩
    intro way hway
    exact hwrote.kept way (List.forall_mem_singleton.mpr hway)

/-- Over a folder with an old light picture, a file of another name and a folder in the dark picture's place,
the old picture is replaced and the run fails. -/
theorem working_folder_outcome_dark_blocked :
    let before := Node.folder [("z2.light.png", .file "old".toUTF8), ("notes", .file ByteArray.empty),
      ("z2.dark.png", .folder [])]
    let outcome := run .blank before
    Drawn .blank ∧
      outcome.result = .error (.problem (.fileNotCreated "./z2.dark.png" .isFolder)) ∧
      (∃ file, (run .blank .empty).tree.entryAt? ["z2.light.png"] = some (.file file) ∧
        outcome.tree.entryAt? ["z2.light.png"] = some (.file file)) ∧
      outcome.tree.entryAt? ["notes"] = some (.file ByteArray.empty) := by
  intro before outcome
  have hfree : before.entryAt? ["z2.light.png"] ≠ some .folder := by
    show some (Entry.file "old".toUTF8) ≠ some .folder
    simp
  have hdark : before.entryAt? ["z2.dark.png"] = some .folder := rfl
  have hnotes : before.entryAt? ["notes"] = some (.file ByteArray.empty) := rfl
  obtain ⟨-, -, -, h⟩ := working_folder_outcome .blank .stored drawn_blank
    [("z2.light.png", .file "old".toUTF8), ("notes", .file ByteArray.empty), ("z2.dark.png", .folder [])]
  obtain ⟨hresult, hfile, hsame⟩ := h hfree hdark
  exact ⟨drawn_blank, hresult, hfile, (hsame ["notes"] (by decide)).trans hnotes⟩

end Program
end Landscape
