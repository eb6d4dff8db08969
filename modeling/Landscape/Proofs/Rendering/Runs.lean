import Landscape.Proofs.Rendering.WorkingFolder

namespace Landscape

def outcomes (typeface : Typeface) (codec : Png.Codec) : List Call → Node → List (Outcome String)
  | [], _ => []
  | c :: rest, tree =>
    c.run typeface codec tree :: outcomes typeface codec rest (c.run typeface codec tree).tree

def treeAfter (typeface : Typeface) (codec : Png.Codec) : List Call → Node → Node
  | [], tree => tree
  | c :: rest, tree => treeAfter typeface codec rest (c.run typeface codec tree).tree

/-- The call succeeded, and the path it returned leads along a way. -/
def Outcome.WroteTo (o : Outcome String) (way : List String) : Prop :=
  ∃ path, o.result = .ok path ∧ Path.namesOf path = way

variable {typeface : Typeface} {codec : Png.LawfulCodec}

theorem length_outcomes (typeface : Typeface) (codec : Png.Codec) (calls : List Call) (tree : Node) :
    (outcomes typeface codec calls tree).length = calls.length := by
  induction calls generalizing tree with
  | nil => rfl
  | cons c rest ih => rw [outcomes, List.length_cons, List.length_cons, ih]

theorem treeAfter_append (before behind : List Call) (tree : Node) :
    treeAfter typeface codec (before ++ behind) tree =
      treeAfter typeface codec behind (treeAfter typeface codec before tree) := by
  induction before generalizing tree with
  | nil => rfl
  | cons c rest ih => exact ih _

theorem treeAfter_sameEntries {calls : List Call} (harea : ∀ c ∈ calls, c.HasArea) {tree other : Node}
    (h : tree.SameEntries other) :
    (treeAfter typeface codec calls tree).SameEntries (treeAfter typeface codec calls other) := by
  induction calls generalizing tree other with
  | nil => exact h
  | cons c rest ih =>
    apply ih (fun d hd => harea d (List.mem_cons_of_mem _ hd))
    exact Call.run_sameEntries (harea c List.mem_cons_self) h

theorem Call.entryAt?_run_of_not_wroteTo {c : Call} {tree : Node} {way : List String}
    (harea : c.HasArea) (h : ¬ (c.run typeface codec tree).WroteTo way) :
    (c.run typeface codec tree).tree.entryAt? way = tree.entryAt? way := by
  rcases run_cases typeface codec harea tree with ⟨path, file, hwrites, hresult, -⟩ | ⟨-, -, htree⟩
  · have hway : way ≠ Path.namesOf path := fun heq => h ⟨path, hresult, heq.symm⟩
    rw [entryAt?_run harea hwrites, if_neg hway]
  · rw [htree]

theorem entryAt?_treeAfter_of_not_wroteTo {calls : List Call} (harea : ∀ c ∈ calls, c.HasArea)
    {tree : Node} {way : List String} (h : ∀ o ∈ outcomes typeface codec calls tree, ¬ o.WroteTo way) :
    (treeAfter typeface codec calls tree).entryAt? way = tree.entryAt? way := by
  induction calls generalizing tree with
  | nil => rfl
  | cons c rest ih =>
    rw [treeAfter, ih (fun d hd => harea d (List.mem_cons_of_mem _ hd))
      (fun o ho => h o (List.mem_cons_of_mem _ ho))]
    exact Call.entryAt?_run_of_not_wroteTo (harea c List.mem_cons_self) (h _ List.mem_cons_self)

/-- Where several calls wrote, there is the file of the last. -/
theorem entryAt?_treeAfter_of_last {calls : List Call} (harea : ∀ c ∈ calls, c.HasArea)
    {tree : Node} {i : Nat} {c : Call} {o : Outcome String} {way : List String}
    (hcall : calls[i]? = some c) (houtcome : (outcomes typeface codec calls tree)[i]? = some o)
    (hwrote : o.WroteTo way)
    (hlast : ∀ j o', i < j → (outcomes typeface codec calls tree)[j]? = some o' → ¬ o'.WroteTo way) :
    ∃ path file, c.path? = some path ∧ o.result = .ok path ∧ c.file? typeface codec = some file ∧
      (treeAfter typeface codec calls tree).entryAt? way = some (.file file) := by
  induction calls generalizing tree i with
  | nil => cases hcall
  | cons d rest ih =>
    have hrest : ∀ d ∈ rest, d.HasArea := fun d hd => harea d (List.mem_cons_of_mem _ hd)
    cases i with
    | succ i =>
      apply ih hrest hcall houtcome
      intro j o' hj ho'
      exact hlast (j + 1) o' (Nat.succ_lt_succ hj) ho'
    | zero =>
      cases hcall
      cases houtcome
      have hc := harea c List.mem_cons_self
      obtain ⟨path, hresult, rfl⟩ := hwrote
      obtain ⟨file, hwrites⟩ := Call.writes_of_result hc hresult
      refine ⟨path, file, hwrites.path_eq, hresult, hwrites.file_eq, ?_⟩
      -- The calls after it leave its file alone.
      have hbehind : ∀ o ∈ outcomes typeface codec rest (c.run typeface codec tree).tree,
          ¬ o.WroteTo (Path.namesOf path) := by
        intro o ho
        obtain ⟨j, hj⟩ := List.mem_iff_getElem?.mp ho
        exact hlast (j + 1) o (Nat.succ_pos j) hj
      rw [treeAfter, entryAt?_treeAfter_of_not_wroteTo hrest hbehind, Call.entryAt?_run hc hwrites,
        if_pos rfl]

/-- Whether a call of a run succeeds, and with which path, is settled by the files before the run. -/
theorem result_eq_ok_iff {calls : List Call} (harea : ∀ c ∈ calls, c.HasArea) {tree : Node} {i : Nat}
    {c : Call} {o : Outcome String} {path : String} (hcall : calls[i]? = some c)
    (houtcome : (outcomes typeface codec calls tree)[i]? = some o) :
    o.result = .ok path ↔ ∃ file, c.Writes typeface codec tree path file := by
  induction calls generalizing tree i with
  | nil => cases hcall
  | cons d rest ih =>
    cases i with
    | zero =>
      cases hcall
      cases houtcome
      have hc := harea c List.mem_cons_self
      exact ⟨Call.writes_of_result hc, fun ⟨_, hwrites⟩ => (Call.run_of_writes hc hwrites).1⟩
    | succ i =>
      rw [ih (fun d hd => harea d (List.mem_cons_of_mem _ hd)) hcall houtcome]
      simp only [Call.writes_run_iff (harea d List.mem_cons_self)]

theorem exists_outcome_of_writes {calls : List Call} (harea : ∀ c ∈ calls, c.HasArea) {tree : Node}
    {i : Nat} {c : Call} {path : String} {file : ByteArray} (hcall : calls[i]? = some c)
    (h : c.Writes typeface codec tree path file) :
    ∃ o, (outcomes typeface codec calls tree)[i]? = some o ∧ o.result = .ok path := by
  obtain ⟨hi, -⟩ := List.getElem?_eq_some_iff.mp hcall
  have houtcome := List.getElem?_eq_getElem ((length_outcomes typeface codec calls tree).symm ▸ hi)
  exact ⟨_, houtcome, (result_eq_ok_iff harea hcall houtcome).mpr ⟨file, h⟩⟩

/-- Only calls that ask for a place write to it. -/
theorem not_wroteTo_of_path? {calls : List Call} (harea : ∀ c ∈ calls, c.HasArea) {tree : Node}
    {j : Nat} {o : Outcome String} {way : List String}
    (houtcome : (outcomes typeface codec calls tree)[j]? = some o)
    (hpaths : ∀ c path, calls[j]? = some c → c.path? = some path → Path.namesOf path ≠ way) :
    ¬ o.WroteTo way := by
  rintro ⟨path, hresult, hway⟩
  obtain ⟨hj, -⟩ := List.getElem?_eq_some_iff.mp houtcome
  have hcall := List.getElem?_eq_getElem (length_outcomes typeface codec calls tree ▸ hj)
  obtain ⟨file, hwrites⟩ := (result_eq_ok_iff harea hcall houtcome).mp hresult
  exact hpaths _ path hcall hwrites.path_eq hway

/-- Of the calls that wrote to one place the last wins: there is the file of its picture, which its
size, stride, mesh, relief and theme decide, and from which the picture can be read. What no call wrote to
stays as it was. A call made again changes nothing, and neighbours whose paths lead to different places,
such as those of the two themes in one folder, may change places. -/
theorem last_write_wins (typeface : Typeface) (codec : Png.LawfulCodec) (calls : List Call)
    (tree : Node) (harea : ∀ c ∈ calls, c.HasArea) :
    let outcomes := outcomes typeface codec calls tree
    let after := treeAfter typeface codec calls tree
    outcomes.length = calls.length ∧
    (∀ way, (∀ o ∈ outcomes, ¬ o.WroteTo way) → after.entryAt? way = tree.entryAt? way) ∧
    (∀ (i : Nat) (c : Call) (o : Outcome String) (way : List String), calls[i]? = some c →
      outcomes[i]? = some o → o.WroteTo way →
      (∀ (j : Nat) (o' : Outcome String), i < j → outcomes[j]? = some o' → ¬ o'.WroteTo way) →
      ∃ theme picture file, c.theme? = some theme ∧ o.result = .ok (c.renderer.target theme) ∧
        pictureOf? typeface c.renderer.width c.renderer.height c.renderer.stride c.mesh c.relief
          theme = some picture ∧
        codec.encode picture = .ok file ∧ codec.decode? file = some picture ∧
        after.entryAt? way = some (.file file)) ∧
    (∀ before c behind, calls = before ++ c :: behind →
      treeAfter typeface codec (before ++ c :: c :: behind) tree = after) ∧
    (∀ before c d behind, calls = before ++ c :: d :: behind →
      (∀ p q, c.path? = some p → d.path? = some q → Path.namesOf p ≠ Path.namesOf q) →
      (treeAfter typeface codec (before ++ d :: c :: behind) tree).SameEntries after) ∧
    ∀ r : Renderer, Path.namesOf (r.target .light) ≠ Path.namesOf (r.target .dark) := by
  intro outcomes after
  refine ⟨length_outcomes typeface codec calls tree, ?_, ?_, ?_, ?_, ?_⟩
  · intro way h
    exact entryAt?_treeAfter_of_not_wroteTo harea h
  · intro i c o way hcall houtcome hwrote hlast
    obtain ⟨path, file, hpath, hresult, hfile, hentry⟩ :=
      entryAt?_treeAfter_of_last harea hcall houtcome hwrote hlast
    obtain ⟨theme, htheme, rfl⟩ := Option.map_eq_some_iff.mp hpath
    rw [Call.file?_of_theme typeface codec htheme] at hfile
    obtain ⟨picture, hpicture, hencode, hdecode⟩ := Renderer.exists_of_pictureFile hfile
    exact ⟨theme, picture, file, htheme, hresult, hpicture, hencode, hdecode, hentry⟩
  · rintro before c behind rfl
    have hc : c.HasArea := harea c (by simp)
    show _ = treeAfter typeface codec (before ++ c :: behind) tree
    rw [treeAfter_append, treeAfter_append, treeAfter, treeAfter, treeAfter, Call.run_run hc]
  · rintro before c d behind rfl hpaths
    have hc : c.HasArea := harea c (by simp)
    have hd : d.HasArea := harea d (by simp)
    show Node.SameEntries _ (treeAfter typeface codec (before ++ c :: d :: behind) tree)
    have hbehind : ∀ e ∈ behind, e.HasArea := fun e he => harea e (by simp [he])
    rw [treeAfter_append, treeAfter_append]
    apply treeAfter_sameEntries hbehind
    exact Call.run_comm hd hc fun p q hp hq => (hpaths q p hq hp).symm
  · intro r h
    cases (r.namesOf_target_inj).mp h

def callIn (folder : String) (request : Request) : Call :=
  let s : Settings := {}
  ⟨⟨folder, s.pixelWidth, s.pixelHeight, s.stride⟩, Program.meshOf s, Program.reliefOf s, request⟩

section OneFolder

def outFolder : Node := .folder [("out", .folder [])]

variable {folder : String} (hfolder : folder = "out" ∨ folder = "out/../out")
include hfolder

/-- Two dots leave a folder that was entered: both texts lead to one folder. -/
theorem wayToFile_out (theme : Theme) :
    outFolder.wayToFile (Path.joinText folder theme.fileName) = .ok ["out", theme.fileName] := by
  have hnames : Path.namesOf folder = ["out"] := by
    rcases hfolder with rfl | rfl <;> decide
  have hturns : ∀ turn ∈ Path.turnsOf folder, turn = ["out"] := by
    rcases hfolder with rfl | rfl <;> decide
  have htext : Path.ofText folder =
      .ok ⟨Path.turnsOf folder, Path.namesOf folder, Path.endingOf folder⟩ := by
    rcases hfolder with rfl | rfl <;> exact Path.ofText_eq (by decide) (by decide)
  have hshort : (Path.joinText folder theme.fileName).utf8ByteSize ≤ Path.longestText := by
    rcases hfolder with rfl | rfl <;> rw [Path.joinText_of_open (by decide) (by decide)] <;>
      cases theme <;> decide
  rw [Node.wayToFile_eq_ok_iff]
  refine ⟨_, hnames ▸ Path.ofText_joinText htext theme.isName_fileName hshort, ?_, ?_⟩
  · intro turn hturn
    rw [hturns turn hturn, Node.leads_iff]
    exact ⟨by decide, rfl⟩
  · rw [Node.room_iff]
    refine ⟨List.cons_ne_nil _ _, ?_, rfl, ?_⟩
    · cases theme <;> decide
    · cases theme <;> simp [outFolder]

theorem namesOf_out (theme : Theme) :
    Path.namesOf (Path.joinText folder theme.fileName) = ["out", theme.fileName] :=
  (Node.names_of_wayToFile (wayToFile_out hfolder theme)).symm

theorem exists_writes_out {request : Request} {theme : Theme}
    (htheme : (callIn folder request).theme? = some theme) :
    ∃ file, (callIn folder request).Writes .blank Png.LawfulCodec.stored outFolder
      (Path.joinText folder theme.fileName) file := by
  obtain ⟨file, hready⟩ := Program.exists_ready .stored Program.drawn_blank
  refine ⟨file theme, ?_, ?_, _, wayToFile_out hfolder theme⟩
  · rw [Call.path?, htheme]
    rfl
  · rw [Call.file?_of_theme _ _ htheme]
    exact hready.file theme

end OneFolder

theorem hasArea_callIn (folder : String) (request : Request) : (callIn folder request).HasArea := by
  obtain ⟨_, hready⟩ := Program.exists_ready .stored Program.drawn_blank
  exact hready.area

/-- The pictures of one folder, the light one made twice, the second time by way of the folder above, and
a theme that does not exist. Both pictures are there at the end and can be read, the second light one and
the dark one may be made in either order, and the first light one twice. -/
theorem last_write_wins_both_themes :
    let light := callIn "out" (.theme .light)
    let again := callIn "out/../out" (.theme .light)
    let dark := callIn "out" (.named "dark")
    let blue := callIn "out" (.named "blue")
    let calls := [light, again, dark, blue]
    let after := treeAfter .blank .stored calls outFolder
    (∀ c ∈ calls, c.HasArea) ∧
    (∀ theme : Theme,
      (∃ o ∈ outcomes .blank .stored calls outFolder, o.WroteTo ["out", theme.fileName]) ∧
      ∃ picture file, pictureOf? .blank light.renderer.width light.renderer.height
          light.renderer.stride light.mesh light.relief theme = some picture ∧
        Png.Image.decode? file = some picture ∧
        after.entryAt? ["out", theme.fileName] = some (.file file)) ∧
    (treeAfter .blank .stored [light, dark, again, blue] outFolder).SameEntries after ∧
    treeAfter .blank .stored [light, light, again, dark, blue] outFolder = after := by
  intro light again dark blue calls after
  have harea : ∀ c ∈ calls, c.HasArea := by
    intro c hc
    simp only [calls, List.mem_cons, List.not_mem_nil, or_false] at hc
    rcases hc with rfl | rfl | rfl | rfl <;> exact hasArea_callIn _ _
  obtain ⟨-, -, hlast, hagain, hswap, -⟩ := last_write_wins .blank .stored calls outFolder harea
  have hdark {q : String} (hq : dark.path? = some q) :
      Path.namesOf q ≠ ["out", Theme.light.fileName] := by
    have hpath : dark.path? = some (Path.joinText "out" Theme.dark.fileName) := rfl
    rw [← Option.some.inj (hpath.symm.trans hq), namesOf_out (.inl rfl)]
    decide
  -- What the last call for a place leaves there.
  have hread {i : Nat} {folder : String} {request : Request} {theme : Theme}
      (hfolder : folder = "out" ∨ folder = "out/../out") (hcall : calls[i]? = some (callIn folder request))
      (htheme : (callIn folder request).theme? = some theme)
      (hlater : ∀ j c q, i < j → calls[j]? = some c → c.path? = some q →
        Path.namesOf q ≠ ["out", theme.fileName]) :
      (∃ o ∈ outcomes .blank .stored calls outFolder, o.WroteTo ["out", theme.fileName]) ∧
      ∃ picture file, pictureOf? .blank light.renderer.width light.renderer.height
          light.renderer.stride light.mesh light.relief theme = some picture ∧
        Png.Image.decode? file = some picture ∧
        after.entryAt? ["out", theme.fileName] = some (.file file) := by
    obtain ⟨file, hwrites⟩ := exists_writes_out hfolder htheme
    obtain ⟨o, ho, hresult⟩ := exists_outcome_of_writes harea hcall hwrites
    have hwrote : o.WroteTo ["out", theme.fileName] := ⟨_, hresult, namesOf_out hfolder theme⟩
    obtain ⟨asked, picture, bytes, hasked, -, hpicture, -, hdecode, hentry⟩ :=
      hlast i _ o _ hcall ho hwrote fun j _ hj ho' =>
        not_wroteTo_of_path? harea ho' fun c q => hlater j c q hj
    obtain rfl : theme = asked := Option.some.inj (htheme.symm.trans hasked)
    exact ⟨⟨o, List.mem_of_getElem? ho, hwrote⟩, picture, bytes, hpicture, hdecode, hentry⟩
  refine ⟨harea, ?_, ?_, hagain [] light [again, dark, blue] rfl⟩
  · intro theme
    cases theme with
    | light =>
      apply hread (i := 1) (.inr rfl) rfl rfl
      rintro (_ | _ | _ | _ | j) c q hj hc hq
      · omega
      · omega
      · cases hc
        exact hdark hq
      · cases hc
        cases hq
      · cases hc
    | dark =>
      apply hread (i := 2) (.inl rfl) rfl rfl
      rintro (_ | _ | _ | _ | j) c q hj hc hq
      · omega
      · omega
      · omega
      · cases hc
        cases hq
      · cases hc
  · apply hswap [light] again dark [blue] rfl
    intro p q hp hq
    have hpath : again.path? = some (Path.joinText "out/../out" Theme.light.fileName) := rfl
    rw [← Option.some.inj (hpath.symm.trans hp), namesOf_out (.inr rfl)]
    exact (hdark hq).symm

end Landscape
