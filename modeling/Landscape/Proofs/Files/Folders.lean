import Landscape.Proofs.Files.Targets

namespace Landscape
namespace Node

/-- Everything is as it was, save that there may be new folders on some ways. -/
structure AddsFolders (ways : List (List String)) (tree after : Node) : Prop where
  kept : ∀ other e, tree.entryAt? other = some e → after.entryAt? other = some e
  added : ∀ other e, tree.entryAt? other = none → after.entryAt? other = some e →
    e = .folder ∧ ∃ way ∈ ways, other <+: way

section AddsFolders

variable {ways ways' : List (List String)} {tree middle after : Node}

theorem addsFolders_refl (ways : List (List String)) (tree : Node) : AddsFolders ways tree tree where
  kept _ _ h := h
  added _ _ hnone h := by
    rw [hnone] at h
    cases h

theorem AddsFolders.mono (h : AddsFolders ways tree after)
    (hways : ∀ way ∈ ways, ∃ way' ∈ ways', way <+: way') : AddsFolders ways' tree after where
  kept := h.kept
  added other e hnone he := by
    obtain ⟨hfolder, way, hway, hother⟩ := h.added other e hnone he
    obtain ⟨way', hway', hprefix⟩ := hways way hway
    exact ⟨hfolder, way', hway', hother.trans hprefix⟩

theorem AddsFolders.trans (h : AddsFolders ways tree middle) (h' : AddsFolders ways middle after) :
    AddsFolders ways tree after where
  kept other e he := h'.kept other e (h.kept other e he)
  added other e hnone he := by
    rcases hmiddle : middle.entryAt? other with _ | e'
    · exact h'.added other e hmiddle he
    · -- What the first step made the second left alone.
      obtain rfl : e' = e := Option.some.inj ((h'.kept other e' hmiddle).symm.trans he)
      exact h.added other e' hnone hmiddle

theorem AddsFolders.leads (h : AddsFolders ways tree after) {way : List String}
    (hway : Leads way tree) : Leads way after := by
  obtain ⟨hshort, hfolder⟩ := leads_iff.mp hway
  exact leads_iff.mpr ⟨hshort, h.kept way _ hfolder⟩

end AddsFolders

/-- Below a new folder there is nothing, as there was nothing where it is missing. -/
theorem entryAt?_getD_empty (name : String) {rest : List String} (hrest : rest ≠ [])
    (entries : List (String × Node)) :
    entryAt? rest ((entries.lookup name).getD empty) = entryAt? (name :: rest) (.folder entries) := by
  rw [entryAt?_cons_folder]
  cases entries.lookup name with
  | some node => rfl
  | none =>
    cases rest with
    | nil => exact absurd rfl hrest
    | cons second rest => rfl

theorem entryAt?_setEntry (name first : String) (rest : List String) (node : Node)
    (entries : List (String × Node)) :
    entryAt? (first :: rest) (.folder (setEntry name node entries)) =
      if first = name then entryAt? rest node else entryAt? (first :: rest) (.folder entries) := by
  rw [entryAt?_cons_folder, lookup_setEntry, entryAt?_cons_folder]
  split <;> rfl

theorem AddsFolders.cons {name : String} {way : List String} {entries : List (String × Node)}
    {node : Node} (h : AddsFolders [way] ((entries.lookup name).getD empty) node) :
    AddsFolders [name :: way] (.folder entries) (.folder (setEntry name node entries)) where
  kept other e he := by
    cases other with
    | nil => exact he
    | cons first rest =>
      rw [entryAt?_setEntry]
      by_cases hfirst : first = name
      · subst hfirst
        rw [if_pos rfl]
        apply h.kept
        rw [entryAt?_cons_folder] at he
        obtain ⟨old, hold, he⟩ := Option.bind_eq_some_iff.mp he
        rwa [hold]
      · rwa [if_neg hfirst]
  added other e hnone he := by
    cases other with
    | nil => cases hnone
    | cons first rest =>
      rw [entryAt?_setEntry] at he
      by_cases hfirst : first = name
      · subst hfirst
        rw [if_pos rfl] at he
        by_cases hrest : rest = []
        · -- The name was free, and what is at it now was made empty.
          subst hrest
          rw [entryAt?_cons_folder] at hnone
          rcases hfree : entries.lookup first with _ | old
          · rw [hfree] at h
            obtain rfl : Entry.folder = e := Option.some.inj ((h.kept [] _ rfl).symm.trans he)
            exact ⟨rfl, first :: way, List.mem_singleton_self _, by simp⟩
          · rw [hfree] at hnone
            cases hnone
        · rw [← entryAt?_getD_empty first hrest] at hnone
          obtain ⟨hfolder, other, hother, hprefix⟩ := h.added rest e hnone he
          obtain rfl := List.mem_singleton.mp hother
          exact ⟨hfolder, _, List.mem_singleton_self _, List.cons_prefix_cons.mpr ⟨rfl, hprefix⟩⟩
      · rw [if_neg hfirst, hnone] at he
        cases he

/-- What making folders along some ways comes to, whether it succeeds or fails. -/
structure Made (ways : List (List String)) (tree : Node) (result : Except FileError Unit)
    (after : Node) : Prop where
  adds : AddsFolders ways tree after
  leads : result = .ok () → ∀ way ∈ ways, Leads way after

theorem made_of_error (ways : List (List String)) (tree : Node) (e : FileError) :
    Made ways tree (.error e) tree where
  adds := addsFolders_refl ways tree
  leads := nofun

theorem made_of_leads {ways : List (List String)} {tree : Node} (h : ∀ way ∈ ways, Leads way tree) :
    Made ways tree (.ok ()) tree where
  adds := addsFolders_refl ways tree
  leads _ := h

theorem made_makeAlong (way : List String) (tree : Node) :
    Made [way] tree (tree.makeAlong way).1 (tree.makeAlong way).2 := by
  -- Induction on the way: one step makes its folder if it is missing and goes into it.
  induction way generalizing tree with
  | nil =>
    cases tree with
    | file bytes => exact made_of_error _ _ _
    | folder entries => exact made_of_leads (List.forall_mem_singleton.mpr .here)
  | cons name rest ih =>
    cases tree with
    | file bytes => exact made_of_error _ _ _
    | folder entries =>
      rw [makeAlong]
      by_cases hname : tooLong name = true
      · rw [if_pos hname]
        exact made_of_error _ _ _
      · rw [if_neg hname]
        obtain ⟨hadds, hleads⟩ := ih ((entries.lookup name).getD empty)
        refine ⟨hadds.cons, fun hok => List.forall_mem_singleton.mpr ?_⟩
        refine .through (Bool.eq_false_iff.mpr hname) ?_ (hleads hok rest (List.mem_singleton_self _))
        rw [lookup_setEntry, if_pos rfl]

theorem entryAt?_makeAlong_of_error {way : List String} {tree : Node} {e : FileError}
    (h : (tree.makeAlong way).1 = .error e) :
    (tree.makeAlong way).2.entryAt? way = tree.entryAt? way := by
  induction way generalizing tree with
  | nil => cases tree <;> rfl
  | cons name rest ih =>
    cases tree with
    | file bytes => rfl
    | folder entries =>
      rw [makeAlong] at h ⊢
      by_cases hname : tooLong name = true
      · rw [if_pos hname]
      · rw [if_neg hname] at h ⊢
        rw [entryAt?_setEntry, if_pos rfl, ih h]
        cases rest with
        | cons second rest => exact entryAt?_getD_empty name (List.cons_ne_nil _ _) entries
        | nil =>
          -- A way that ends here fails only at a file, and then nothing is missing.
          rw [entryAt?_cons_folder]
          rcases hlookup : entries.lookup name with _ | node
          · rw [hlookup] at h
            cases h
          · rfl

theorem makeWays_cons (way : List String) (rest : List (List String)) (tree : Node) :
    let first := tree.makeAlong way
    tree.makeWays (way :: rest) =
      match first.1 with
      | .error e => (.error e, first.2)
      | .ok () => first.2.makeWays rest := by
  rw [makeWays]
  rcases tree.makeAlong way with ⟨e | done, after⟩ <;> rfl

theorem made_makeWays (ways : List (List String)) (tree : Node) :
    Made ways tree (tree.makeWays ways).1 (tree.makeWays ways).2 := by
  induction ways generalizing tree with
  | nil => exact made_of_leads nofun
  | cons way rest ih =>
    obtain ⟨hadds, hleads⟩ := made_makeAlong way tree
    have hfirst : AddsFolders (way :: rest) tree (tree.makeAlong way).2 :=
      hadds.mono fun other hother =>
        ⟨way, List.mem_cons_self, List.mem_singleton.mp hother ▸ List.prefix_rfl⟩
    rw [makeWays_cons]
    rcases hresult : (tree.makeAlong way).1 with e | done
    · exact ⟨hfirst, nofun⟩
    · obtain ⟨hadds', hleads'⟩ := ih (tree.makeAlong way).2
      have hrest : AddsFolders (way :: rest) (tree.makeAlong way).2 _ :=
        hadds'.mono fun other hother =>
          ⟨other, List.mem_cons_of_mem _ hother, List.prefix_rfl⟩
      refine ⟨hfirst.trans hrest, fun hok => List.forall_mem_cons.mpr ⟨?_, hleads' hok⟩⟩
      exact hrest.leads (hleads hresult way (List.mem_singleton_self way))

def waysTo (path : Path) : List (List String) :=
  path.turns ++ [path.names]

theorem follow_of_leads {path : Path} {tree : Node} (h : ∀ way ∈ waysTo path, Leads way tree) :
    ∃ entries, tree.follow path = .ok (.folder entries) := by
  obtain ⟨hturns, hnames⟩ := List.forall_mem_append.mp h
  obtain ⟨entries, hreach⟩ := reach_of_leads (hnames path.names (List.mem_singleton_self _))
  refine ⟨entries, ?_⟩
  rw [follow, standIn_eq_ok_iff.mpr hturns]
  exact hreach

theorem leads_of_follow {path : Path} {tree : Node} {entries : List (String × Node)}
    (h : tree.follow path = .ok (.folder entries)) : ∀ way ∈ waysTo path, Leads way tree := by
  unfold follow at h
  rcases hstand : tree.standIn path.turns with e | done
  · rw [hstand] at h
    cases h
  · rw [hstand] at h
    exact List.forall_mem_append.mpr ⟨standIn_eq_ok_iff.mp hstand,
      List.forall_mem_singleton.mpr (leads_of_reach h)⟩

/-- Of a path that ends in a dot only the folders before the last name are made. -/
theorem addsFolders_makeMissing_of_dot {path : Path} (hdot : path.ending = .dot) (tree : Node) :
    AddsFolders (path.turns ++ [path.names.dropLast]) tree (tree.makeMissing path).2 := by
  have hadds := (made_makeWays (path.turns ++ [path.names.dropLast]) tree).adds
  rw [makeMissing, if_pos hdot]
  rcases hmade : tree.makeWays (path.turns ++ [path.names.dropLast]) with ⟨e | done, after⟩
  · rwa [hmade] at hadds
  · rwa [hmade] at hadds

theorem made_makeMissing (path : Path) (tree : Node) :
    Made (waysTo path) tree (tree.makeMissing path).1 (tree.makeMissing path).2 := by
  by_cases hdot : path.ending = .dot
  · refine ⟨(addsFolders_makeMissing_of_dot hdot tree).mono ?_, ?_⟩
    · intro way hway
      rcases List.mem_append.mp hway with hturn | hlast
      · exact ⟨way, List.mem_append_left _ hturn, List.prefix_rfl⟩
      · refine ⟨path.names, List.mem_append_right _ (List.mem_singleton_self _), ?_⟩
        rw [List.mem_singleton.mp hlast]
        exact path.names.dropLast_prefix
    · rw [makeMissing, if_pos hdot]
      rcases tree.makeWays (path.turns ++ [path.names.dropLast]) with ⟨e | done, after⟩
      · exact nofun
      · exact standIn_eq_ok_iff.mp
  · rw [makeMissing, if_neg hdot]
    exact made_makeWays (waysTo path) tree

theorem made_makePath (path : Path) (tree : Node) :
    Made (waysTo path) tree (tree.makePath path).1 (tree.makePath path).2 := by
  unfold makePath
  split
  · next entries hfollow => exact made_of_leads (leads_of_follow hfollow)
  · exact made_of_error _ _ _
  · exact made_makeMissing path tree
  · exact made_of_error _ _ _

theorem makePath_of_leads {path : Path} {tree : Node} (h : ∀ way ∈ waysTo path, Leads way tree) :
    tree.makePath path = (.ok (), tree) := by
  obtain ⟨entries, hfollow⟩ := follow_of_leads h
  rw [makePath, hfollow]

theorem not_prefix_dropLast {way : List String} (h : way ≠ []) : ¬ way <+: way.dropLast := by
  intro hprefix
  have hlength := hprefix.length_le
  have hpos := List.length_pos_iff.mpr h
  rw [List.length_dropLast] at hlength
  omega

theorem entryAt?_makeMissing_of_error {path : Path} {tree : Node} {e : FileError}
    (hturns : path.turns = []) (h : (tree.makeMissing path).1 = .error e) :
    (tree.makeMissing path).2.entryAt? path.names = tree.entryAt? path.names := by
  by_cases hdot : path.ending = .dot
  · have hadds := addsFolders_makeMissing_of_dot hdot tree
    rw [hturns, List.nil_append] at hadds
    rcases hbefore : tree.entryAt? path.names with _ | entry
    · rw [Option.eq_none_iff_forall_ne_some]
      intro entry hentry
      obtain ⟨-, way, hway, hprefix⟩ := hadds.added _ entry hbefore hentry
      rw [List.mem_singleton.mp hway] at hprefix
      refine not_prefix_dropLast ?_ hprefix
      rintro hnil
      rw [hnil] at hbefore
      cases hbefore
    · exact hadds.kept _ entry hbefore
  · rw [makeMissing, if_neg hdot, hturns, List.nil_append, makeWays_cons] at h ⊢
    rcases hmade : (tree.makeAlong path.names).1 with e' | done
    · exact entryAt?_makeAlong_of_error hmade
    · rw [hmade] at h
      cases h

theorem entryAt?_makePath_of_error {path : Path} {tree : Node} {e : FileError}
    (hturns : path.turns = []) (h : (tree.makePath path).1 = .error e) :
    (tree.makePath path).2.entryAt? path.names = tree.entryAt? path.names := by
  unfold makePath at h ⊢
  split at h
  · rfl
  · rfl
  · exact entryAt?_makeMissing_of_error hturns h
  · rfl

theorem made_makeFolders (text : String) (tree : Node) :
    Made (Path.turnsOf text ++ [Path.namesOf text]) tree (tree.makeFolders text).1
      (tree.makeFolders text).2 := by
  unfold makeFolders
  split
  · exact made_of_error _ _ _
  · next path hpath =>
    obtain ⟨-, -, rfl⟩ := Path.ofText_eq_ok_iff.mp hpath
    exact made_makePath ⟨Path.turnsOf text, Path.namesOf text, Path.endingOf text⟩ tree

theorem entryAt?_makeFolders_of_error {text : String} {tree : Node} {e : FileError}
    (hturns : Path.turnsOf text = []) (h : (tree.makeFolders text).1 = .error e) :
    (tree.makeFolders text).2.entryAt? (Path.namesOf text) = tree.entryAt? (Path.namesOf text) := by
  unfold makeFolders at h ⊢
  split at h
  · rfl
  · next path hpath =>
    obtain ⟨-, -, rfl⟩ := Path.ofText_eq_ok_iff.mp hpath
    exact entryAt?_makePath_of_error hturns h

/-- Folders that were made are there when they are to be made again. -/
theorem makeFolders_again {text : String} {tree : Node} (h : (tree.makeFolders text).1 = .ok ()) :
    let after := (tree.makeFolders text).2
    (∃ path, Path.ofText text = .ok path) ∧ after.makeFolders text = (.ok (), after) := by
  intro after
  have hleads := (made_makeFolders text tree).leads h
  rcases hpath : Path.ofText text with e | path
  · rw [makeFolders, hpath] at h
    cases h
  · refine ⟨⟨path, rfl⟩, ?_⟩
    obtain ⟨-, -, rfl⟩ := Path.ofText_eq_ok_iff.mp hpath
    rw [makeFolders, hpath]
    exact makePath_of_leads hleads

/-- Only folders stand on the way to a folder. -/
theorem entryAt?_of_prefix {way other : List String} {tree : Node} (h : other <+: way)
    (hfolder : tree.entryAt? way = some .folder) : tree.entryAt? other = some .folder := by
  induction way generalizing other tree with
  | nil => rwa [List.prefix_nil.mp h]
  | cons name rest ih =>
    cases tree with
    | file bytes => cases hfolder
    | folder entries =>
      rcases List.prefix_cons_iff.mp h with rfl | ⟨other', rfl, hother⟩
      · rfl
      · rw [entryAt?_cons_folder] at hfolder ⊢
        obtain ⟨node, hnode, hfolder⟩ := Option.bind_eq_some_iff.mp hfolder
        rw [hnode]
        exact ih hother hfolder

/-- A file on a way is in the way of every folder there. -/
theorem Made.exists_error {ways : List (List String)} {way other : List String} {tree after : Node}
    {bytes : ByteArray} {result : Except FileError Unit} (h : Made ways tree result after)
    (hway : way ∈ ways) (hother : other <+: way)
    (hfile : tree.entryAt? other = some (.file bytes)) : ∃ e, result = .error e := by
  rcases result with e | done
  · exact ⟨e, rfl⟩
  · have hfolder := entryAt?_of_prefix hother (leads_iff.mp (h.leads rfl way hway)).2
    cases (h.adds.kept _ _ hfile).symm.trans hfolder

section Free

variable {way : List String} {tree : Node} (hshort : ∀ name ∈ way, tooLong name = false)
  (hfree : ∀ other bytes, other <+: way → tree.entryAt? other ≠ some (.file bytes))
include hshort hfree

/-- Where no name is too long and no file stands on the way, either its folder is there or something is
missing. -/
theorem reach_of_free : (∃ entries, tree.reach way = .ok (.folder entries)) ∨
    tree.reach way = .error .missing := by
  fun_induction reach way tree with
  | case1 tree =>
    cases tree with
    | file bytes => exact absurd rfl (hfree [] bytes List.nil_prefix)
    | folder entries => exact .inl ⟨entries, rfl⟩
  | case2 name rest bytes => exact absurd rfl (hfree [] bytes List.nil_prefix)
  | case3 name rest entries hname =>
    rw [hshort name List.mem_cons_self] at hname
    cases hname
  | case4 => exact .inr rfl
  | case5 name rest entries hname node hnode ih =>
    apply ih (fun other hother => hshort other (List.mem_cons_of_mem _ hother))
    intro other bytes hother hfile
    apply hfree (name :: other) bytes (List.cons_prefix_cons.mpr ⟨rfl, hother⟩)
    rwa [entryAt?_cons_folder, hnode]

theorem makeAlong_of_free : (tree.makeAlong way).1 = .ok () := by
  induction way generalizing tree with
  | nil =>
    cases tree with
    | file bytes => exact absurd rfl (hfree [] bytes List.nil_prefix)
    | folder entries => rfl
  | cons name rest ih =>
    cases tree with
    | file bytes => exact absurd rfl (hfree [] bytes List.nil_prefix)
    | folder entries =>
      obtain ⟨hname, hrest⟩ := List.forall_mem_cons.mp hshort
      rw [makeAlong, hname]
      apply ih hrest
      intro other bytes hother hfile
      have hway : name :: other <+: name :: rest := List.cons_prefix_cons.mpr ⟨rfl, hother⟩
      apply hfree (name :: other) bytes hway
      by_cases hend : other = []
      · -- What stands there is a file, so it was not made.
        subst hend
        rw [entryAt?_cons_folder]
        rcases hlookup : entries.lookup name with _ | node
        · rw [hlookup] at hfile
          cases hfile
        · rwa [hlookup] at hfile
      · rwa [← entryAt?_getD_empty name hend]

end Free

/-- A path that ends in a dot needs its folder to be there. -/
theorem makeFolders_of_free {text : String} {tree : Node} {path : Path}
    (hpath : Path.ofText text = .ok path) (hturns : path.turns = [])
    (hdot : path.ending = .dot → tree.entryAt? path.names = some .folder)
    (hshort : ∀ name ∈ path.names, tooLong name = false)
    (hfree : ∀ other bytes, other <+: path.names → tree.entryAt? other ≠ some (.file bytes)) :
    (tree.makeFolders text).1 = .ok () := by
  rw [makeFolders, hpath]
  dsimp only
  by_cases hleads : Leads path.names tree
  · rw [makePath_of_leads]
    rw [waysTo, hturns]
    exact List.forall_mem_singleton.mpr hleads
  · have hfollow : tree.follow path = tree.reach path.names := by
      rw [follow, hturns]
      rfl
    have hmissing : tree.reach path.names = .error .missing := by
      rcases reach_of_free hshort hfree with ⟨entries, hreach⟩ | hmissing
      · exact absurd (leads_of_reach hreach) hleads
      · exact hmissing
    have hending : path.ending ≠ .dot := fun h => hleads (leads_iff.mpr ⟨hshort, hdot h⟩)
    rw [makePath, hfollow, hmissing]
    dsimp only
    rw [makeMissing, if_neg hending, hturns, List.nil_append, makeWays_cons,
      makeAlong_of_free hshort hfree]
    rfl

/-- The folder before the dot has been made when the one that the dot stands for is missing. -/
example : let made := empty.makePath ⟨[], ["a", "b"], .dot⟩
    made.1 = .error .missing ∧ made.2.entryAt? ["a"] = some .folder :=
  ⟨rfl, rfl⟩

theorem wayToFile_eq_error_iff {text name : String} {turns : List (List String)} {way : List String}
    {tree : Node} {e : FileError} (htext : Path.ofText text = .ok ⟨turns, way ++ [name], .name⟩)
    (hturns : ∀ turn ∈ turns, Leads turn tree) (hleads : Leads way tree)
    (hname : tooLong name = false) :
    tree.wayToFile text = .error e ↔
      e = .isFolder ∧ tree.entryAt? (way ++ [name]) = some .folder := by
  obtain ⟨hshort, hway⟩ := leads_iff.mp hleads
  have hnames : ∀ other ∈ way ++ [name], tooLong other = false := by
    rw [List.forall_mem_append, List.forall_mem_singleton]
    exact ⟨hshort, hname⟩
  have hne : way ++ [name] ≠ [] := List.append_ne_nil_of_right_ne_nil _ (List.cons_ne_nil _ _)
  by_cases hfolder : tree.entryAt? (way ++ [name]) = some .folder
  · rw [wayToFile_of_leads htext hturns hne (leads_iff.mpr ⟨hnames, hfolder⟩)]
    simp [hfolder, eq_comm]
  · have hroom : Room (way ++ [name]) tree :=
      room_iff.mpr ⟨hne, hnames, by simpa using hway, hfolder⟩
    rw [wayToFile_eq_ok_iff.mpr ⟨turns, htext, hturns, hroom⟩]
    simp [hfolder]

end Node
end Landscape
