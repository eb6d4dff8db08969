import Landscape.Files.Tree

namespace Landscape

/-- What stands at the end of a way: a file with its bytes, or a folder, whatever it holds. -/
inductive Entry where
  | file (bytes : ByteArray)
  | folder

namespace Node

def entry : Node → Entry
  | .file bytes => .file bytes
  | .folder _ => .folder

def entryAt? (way : List String) (tree : Node) : Option Entry :=
  (tree.find? way).map entry

def SameBut (way : List String) (tree after : Node) : Prop :=
  ∀ other ≠ way, after.entryAt? other = tree.entryAt? other

def SameEntries (tree other : Node) : Prop :=
  ∀ way, tree.entryAt? way = other.entryAt? way

@[simp] theorem entryAt?_nil (tree : Node) : entryAt? [] tree = some tree.entry := rfl

@[simp] theorem entryAt?_cons_file (name : String) (rest : List String) (bytes : ByteArray) :
    entryAt? (name :: rest) (.file bytes) = none := rfl

@[simp] theorem entryAt?_cons_folder (name : String) (rest : List String)
    (entries : List (String × Node)) :
    entryAt? (name :: rest) (.folder entries) = (entries.lookup name).bind (entryAt? rest) := by
  unfold entryAt?
  rw [find?, Option.map_bind]
  rfl

theorem lookup_setEntry (name other : String) (node : Node) (entries : List (String × Node)) :
    (setEntry name node entries).lookup other =
      if other = name then some node else entries.lookup other := by
  induction entries with
  | nil =>
    by_cases h : other = name
    · simp [setEntry, h]
    · simp [setEntry, List.lookup_cons, beq_eq_false_iff_ne.mpr h, h]
  | cons e entries ih =>
    obtain ⟨first, old⟩ := e
    by_cases hfirst : first = name
    · subst hfirst
      by_cases h : other = first
      · simp [setEntry, h]
      · simp [setEntry, List.lookup_cons, beq_eq_false_iff_ne.mpr h, h]
    · rw [setEntry, if_neg hfirst, List.lookup_cons, List.lookup_cons, ih]
      by_cases h : other = first
      · simp [h, hfirst]
      · simp [beq_eq_false_iff_ne.mpr h]

theorem setEntry_setEntry (name : String) (old new : Node) (entries : List (String × Node)) :
    setEntry name new (setEntry name old entries) = setEntry name new entries := by
  induction entries with
  | nil => simp [setEntry]
  | cons e entries ih =>
    obtain ⟨first, node⟩ := e
    by_cases hfirst : first = name
    · simp [setEntry, hfirst]
    · simp [setEntry, hfirst, ih]

/-- There is room for a file at the end of a way: folders lead to it, and it is not one itself. -/
inductive Room : List String → Node → Prop where
  | last {name : String} {entries : List (String × Node)} : tooLong name = false →
      (∀ inside, entries.lookup name ≠ some (.folder inside)) → Room [name] (.folder entries)
  | through {name : String} {rest : List String} {entries : List (String × Node)} {node : Node} :
      tooLong name = false → entries.lookup name = some node → Room rest node →
      Room (name :: rest) (.folder entries)

theorem not_room_nil (tree : Node) : ¬ Room [] tree := nofun

/-- The check before a file is created accepts exactly the ways at whose end there is room. -/
theorem holdsFile_eq_ok_iff {way : List String} {tree : Node} :
    tree.holdsFile way = .ok () ↔ Room way tree := by
  constructor
  · intro h
    -- Five of the ends of the check refuse; the others are those of `Room`.
    fun_induction holdsFile way tree with
    | case1 | case2 | case3 | case6 | case7 => cases h
    | case4 name entries hname hnone =>
      exact .last (Bool.eq_false_iff.mpr hname) (by simp [hnone])
    | case5 name entries hname bytes hfile =>
      exact .last (Bool.eq_false_iff.mpr hname) (by simp [hfile])
    | case8 name entries hname node head tail hnode ih =>
      exact .through (Bool.eq_false_iff.mpr hname) hnode (ih h)
  · intro h
    induction h with
    | @last name entries hname hfree =>
      unfold holdsFile
      rw [hname]
      rcases hlookup : entries.lookup name with _ | node
      · rfl
      · cases node with
        | file bytes => rfl
        | folder inside => exact absurd hlookup (hfree inside)
    | @through name rest entries node hname hnode hroom ih =>
      cases rest with
      | nil => exact absurd hroom (not_room_nil node)
      | cons head tail =>
        unfold holdsFile
        rw [hname, hnode]
        simpa using ih

theorem entryAt?_put {way : List String} {tree : Node} (h : Room way tree) (bytes : ByteArray)
    (other : List String) :
    entryAt? other (tree.put way (.file bytes)) =
      if other = way then some (.file bytes) else entryAt? other tree := by
  -- Induction on the way written to; the other way goes the same way or turns off at once.
  induction h generalizing other with
  | @last name entries hname hfree =>
    cases other with
    | nil => rfl
    | cons first rest =>
      rw [put, entryAt?_cons_folder, lookup_setEntry, entryAt?_cons_folder]
      by_cases hfirst : first = name
      · subst hfirst
        cases rest with
        | nil => simp [put, entry]
        | cons second rest =>
          -- Below a file, or where nothing was, there is nothing before and after.
          rcases hlookup : entries.lookup first with _ | node
          · simp [put]
          · cases node with
            | file old => simp [put]
            | folder inside => exact absurd hlookup (hfree inside)
      · simp [hfirst]
  | @through name rest entries node hname hnode _ ih =>
    cases other with
    | nil => rfl
    | cons first others =>
      rw [put, entryAt?_cons_folder, lookup_setEntry, entryAt?_cons_folder, hnode]
      by_cases hfirst : first = name
      · subst hfirst
        simp [ih, hnode]
      · simp [hfirst]

theorem entryAt?_put_self {way : List String} {tree : Node} (h : Room way tree) (bytes : ByteArray) :
    entryAt? way (tree.put way (.file bytes)) = some (.file bytes) := by
  rw [entryAt?_put h, if_pos rfl]

theorem sameBut_put {way : List String} {tree : Node} (h : Room way tree) (bytes : ByteArray) :
    SameBut way tree (tree.put way (.file bytes)) := by
  intro other hother
  rw [entryAt?_put h, if_neg hother]

/-- Of two files written to one place the first leaves no trace. -/
theorem put_put {way : List String} {tree : Node} (h : Room way tree) (old new : ByteArray) :
    (tree.put way (.file old)).put way (.file new) = tree.put way (.file new) := by
  induction h with
  | last => simp [put, setEntry_setEntry]
  | through _ hnode _ ih => simp [put, lookup_setEntry, setEntry_setEntry, hnode, ih]

/-- Where there is room, in terms of entries alone. -/
theorem room_iff {way : List String} {tree : Node} :
    Room way tree ↔ way ≠ [] ∧ (∀ name ∈ way, tooLong name = false) ∧
      entryAt? way.dropLast tree = some .folder ∧ entryAt? way tree ≠ some .folder := by
  constructor
  · intro h
    induction h with
    | @last name entries hname hfree =>
      refine ⟨by simp, by simpa using hname, rfl, ?_⟩
      rw [entryAt?_cons_folder]
      rcases hlookup : entries.lookup name with _ | node
      · simp
      · cases node with
        | file bytes => simp [entry]
        | folder inside => exact absurd hlookup (hfree inside)
    | @through name rest entries node hname hnode _ ih =>
      obtain ⟨hne, hnames, hbefore, hend⟩ := ih
      refine ⟨by simp, ?_, ?_, ?_⟩
      · intro other hother
        rcases List.mem_cons.mp hother with rfl | hother
        · exact hname
        · exact hnames other hother
      · rw [List.dropLast_cons_of_ne_nil hne]
        simpa [hnode] using hbefore
      · simpa [hnode] using hend
  · rintro ⟨hne, hnames, hbefore, hend⟩
    induction way generalizing tree with
    | nil => exact absurd rfl hne
    | cons name rest ih =>
      have hname := hnames name List.mem_cons_self
      cases rest with
      | nil =>
        cases tree with
        | file bytes => cases hbefore
        | folder entries =>
          refine .last hname ?_
          intro inside hlookup
          exact hend (by simp [hlookup, entry])
      | cons second rest =>
        rw [List.dropLast_cons_of_ne_nil (List.cons_ne_nil _ _)] at hbefore
        cases tree with
        | file bytes => cases hbefore
        | folder entries =>
          rw [entryAt?_cons_folder] at hbefore hend
          obtain ⟨node, hnode, hbefore⟩ := Option.bind_eq_some_iff.mp hbefore
          rw [hnode] at hend
          exact .through hname hnode (ih (List.cons_ne_nil _ _)
            (fun other hother => hnames other (List.mem_cons_of_mem _ hother)) hbefore hend)

inductive Leads : List String → Node → Prop where
  | here {entries : List (String × Node)} : Leads [] (.folder entries)
  | through {name : String} {rest : List String} {entries : List (String × Node)} {node : Node} :
      tooLong name = false → entries.lookup name = some node → Leads rest node →
      Leads (name :: rest) (.folder entries)

theorem leads_iff {way : List String} {tree : Node} :
    Leads way tree ↔ (∀ name ∈ way, tooLong name = false) ∧ entryAt? way tree = some .folder := by
  constructor
  · intro h
    induction h with
    | here => exact ⟨nofun, rfl⟩
    | through hname hnode _ ih =>
      rw [List.forall_mem_cons, entryAt?_cons_folder, hnode]
      exact ⟨⟨hname, ih.1⟩, ih.2⟩
  · rintro ⟨hnames, hfolder⟩
    induction way generalizing tree with
    | nil =>
      cases tree with
      | file bytes => cases hfolder
      | folder entries => exact .here
    | cons name rest ih =>
      cases tree with
      | file bytes => cases hfolder
      | folder entries =>
        obtain ⟨hname, hrest⟩ := List.forall_mem_cons.mp hnames
        rw [entryAt?_cons_folder] at hfolder
        obtain ⟨node, hnode, hfolder⟩ := Option.bind_eq_some_iff.mp hfolder
        exact .through hname hnode (ih hrest hfolder)

theorem reach_of_leads {way : List String} {tree : Node} (h : Leads way tree) :
    ∃ entries, tree.reach way = .ok (.folder entries) := by
  induction h with
  | here => exact ⟨_, rfl⟩
  | through hname hnode _ ih =>
    rw [reach, hname, hnode]
    exact ih

theorem leads_of_reach {way : List String} {tree : Node} {entries : List (String × Node)}
    (h : tree.reach way = .ok (.folder entries)) : Leads way tree := by
  fun_induction reach way tree with
  | case1 tree =>
    cases h
    exact .here
  | case2 | case3 | case4 => cases h
  | case5 name rest inside hname node hnode ih =>
    exact .through (Bool.eq_false_iff.mpr hname) hnode (ih h)

theorem standIn_eq_ok_iff {ways : List (List String)} {tree : Node} :
    tree.standIn ways = .ok () ↔ ∀ way ∈ ways, Leads way tree := by
  induction ways with
  | nil => exact ⟨nofun, fun _ => rfl⟩
  | cons way rest ih =>
    rw [List.forall_mem_cons, ← ih]
    constructor
    · intro h
      rcases hreach : tree.reach way with e | node
      · rw [standIn, hreach] at h
        cases h
      · cases node with
        | file bytes =>
          rw [standIn, hreach] at h
          cases h
        | folder entries =>
          refine ⟨leads_of_reach hreach, ?_⟩
          rw [standIn, hreach] at h
          exact h
    · rintro ⟨hway, hrest⟩
      obtain ⟨entries, hreach⟩ := reach_of_leads hway
      rw [standIn, hreach]
      exact hrest

def SameFolders (tree other : Node) : Prop :=
  ∀ way, tree.entryAt? way = some .folder ↔ other.entryAt? way = some .folder

section SameFolders

variable {tree other : Node}

theorem SameEntries.sameFolders (h : tree.SameEntries other) : tree.SameFolders other := by
  intro way
  rw [h way]

theorem SameFolders.symm (h : tree.SameFolders other) : other.SameFolders tree :=
  fun way => (h way).symm

theorem SameFolders.room_iff (h : tree.SameFolders other) (way : List String) :
    Room way tree ↔ Room way other := by
  simp only [Node.room_iff, ne_eq, h way.dropLast, h way]

theorem SameFolders.leads_iff (h : tree.SameFolders other) (way : List String) :
    Leads way tree ↔ Leads way other := by
  rw [Node.leads_iff, Node.leads_iff, h way]

/-- A file stands where a file was or nothing. -/
theorem sameFolders_put {way : List String} (h : Room way tree) (bytes : ByteArray) :
    (tree.put way (.file bytes)).SameFolders tree := by
  intro w
  rw [entryAt?_put h]
  by_cases hw : w = way
  · subst hw
    simp [(Node.room_iff.mp h).2.2.2]
  · rw [if_neg hw]

end SameFolders

end Node
end Landscape
