import Mathlib.Data.List.AList
import Runlet.Lib.FileName

/-!
The registries of scripts and of modules (`registry.rs`, `modules.rs`). Both walk
a directory tree with a stack of directories still to be listed and keep each file
of their extensions under its path without the extension. The key of a file tells
its directory and its stem, not its extension.
-/

namespace Runlet.Registries

open FileName

/-! ### Directory trees -/

/-- What a directory lists, in the order it does: files with the result of reading them,
and directories. -/
inductive Entry where
  | file (name : OsName) (contents : Except String String)
  | dir (name : OsName) (entries : List Entry)

def Entry.name : Entry → OsName
  | .file name _ => name
  | .dir name _ => name

/-- A file in its directory under the root. -/
structure File where
  dir : List OsName
  name : OsName
  contents : Except String String

/-! ### Loading -/

structure Kind where
  noun : String
  extensions : List String

def moduleKind : Kind := ⟨"module", ["js", "mjs"]⟩

def scriptKind : Kind := ⟨"script", ["js"]⟩

def Kind.wanted (kind : Kind) (name : OsName) : Bool :=
  kind.extensions.any fun ext => extension name == some (ofText ext)

/-- Keys and their sources. -/
abbrev Registry := AList fun _ : String => String

def Registry.get (registry : Registry) (key : String) : Option String := registry.lookup key

def Registry.count (registry : Registry) : Nat := registry.entries.length

/-- A name as it is displayed. -/
def lossy (name : OsName) : String :=
  String.ofList <| name.map fun part =>
    match part with
    | .char c => c
    | .raw _ => Char.ofNat 0xFFFD

noncomputable def pendingWeight : List (List OsName × List Entry) → Nat
  | [] => 0
  | dir :: pending => sizeOf dir.2 + pendingWeight pending

/-- What is left to walk: the entries that are still to come and the pending directories. -/
noncomputable def weight (entries : List Entry) (pending : List (List OsName × List Entry)) : Nat :=
  sizeOf entries + pendingWeight pending

theorem weight_next (path : List OsName) (entries : List Entry)
    (pending : List (List OsName × List Entry)) :
    weight entries pending < weight [] ((path, entries) :: pending) := by
  simp only [weight, pendingWeight, List.nil.sizeOf_spec]
  omega

theorem weight_dir (path : List OsName) (name : OsName) (entries rest : List Entry)
    (pending : List (List OsName × List Entry)) :
    weight rest ((path, entries) :: pending) < weight (.dir name entries :: rest) pending := by
  simp only [weight, pendingWeight, List.cons.sizeOf_spec, Entry.dir.sizeOf_spec]
  omega

theorem weight_file (name : OsName) (contents : Except String String) (rest : List Entry)
    (pending : List (List OsName × List Entry)) :
    weight rest pending < weight (.file name contents :: rest) pending := by
  simp only [weight, List.cons.sizeOf_spec, Entry.file.sizeOf_spec]
  omega

/-- The path below the root without the extension, with `/` between its parts. -/
def deriveKey (kind : Kind) (file : File) : Except String String :=
  match (file.dir ++ [withoutExtension file.name]).mapM toStr with
  | some parts => .ok ((String.singleton '/').intercalate parts)
  | none => .error (kind.noun ++ " path is not valid UTF-8")

section Load

variable (kind : Kind) (root : String) (maxSize : Nat)

def displayed (file : File) : String :=
  (String.singleton '/').intercalate (root :: (file.dir ++ [file.name]).map lossy)

def tooLarge (file : File) (source : String) : String :=
  "registered " ++ kind.noun ++ " " ++ displayed root file ++ " is " ++
    toString source.utf8ByteSize ++ " bytes (max_script_size is " ++ toString maxSize ++ ")"

/-- One file is read, checked and put in; what had its key before is dropped. -/
def register (registry : Registry) (file : File) : Except String Registry := do
  let source ← file.contents
  if maxSize < source.utf8ByteSize then .error (tooLarge kind root maxSize file source)
  else do
    let key ← deriveKey kind file
    pure (registry.insert key source)

/-- The loop over the entries of `current` that are still to come, within the loop over
the pending directories, the last one first. -/
def loadFrom (current : List OsName) :
    List Entry → List (List OsName × List Entry) → Registry → Except String Registry
  | [], [], registry => .ok registry
  | [], (path, entries) :: pending, registry => loadFrom path entries pending registry
  | .dir name entries :: rest, pending, registry =>
      loadFrom current rest ((current ++ [name], entries) :: pending) registry
  | .file name contents :: rest, pending, registry =>
      if kind.wanted name then do
        let registry ← register kind root maxSize registry ⟨current, name, contents⟩
        loadFrom current rest pending registry
      else loadFrom current rest pending registry
termination_by entries pending => weight entries pending
decreasing_by
  · exact weight_next path entries pending
  · exact weight_dir _ name entries rest pending
  · exact weight_file name contents rest pending
  · exact weight_file name contents rest pending

def load (entries : List Entry) : Except String Registry :=
  loadFrom kind root maxSize [] entries [] ∅

end Load

/-- `ModuleRegistry::load`. -/
def loadModules (root : String) (maxSize : Nat) (entries : List Entry) : Except String Registry :=
  load moduleKind root maxSize entries

/-- `ScriptRegistry::load`. -/
def loadScripts (root : String) (maxSize : Nat) (entries : List Entry) : Except String Registry :=
  load scriptKind root maxSize entries

/-! ### The files of a tree -/

mutual

def Entry.files (kind : Kind) (current : List OsName) : Entry → List File
  | .file name contents => if kind.wanted name then [⟨current, name, contents⟩] else []
  | .dir name entries => filesIn kind (current ++ [name]) entries

/-- The files of the wanted extensions, at any depth. -/
def filesIn (kind : Kind) (current : List OsName) : List Entry → List File
  | [] => []
  | entry :: rest => entry.files kind current ++ filesIn kind current rest

end

theorem filesIn_nil (kind : Kind) (current : List OsName) : filesIn kind current [] = [] := rfl

theorem filesIn_dir (kind : Kind) (current : List OsName) (name : OsName)
    (entries rest : List Entry) :
    filesIn kind current (.dir name entries :: rest) =
      filesIn kind (current ++ [name]) entries ++ filesIn kind current rest := rfl

theorem filesIn_file (kind : Kind) (current : List OsName) (name : OsName)
    (contents : Except String String) (rest : List Entry) :
    filesIn kind current (.file name contents :: rest) =
      (if kind.wanted name then [⟨current, name, contents⟩] else []) ++
        filesIn kind current rest := rfl

theorem mem_filesIn (kind : Kind) (current : List OsName) (entries : List Entry) (file : File) :
    file ∈ filesIn kind current entries ↔ ∃ entry ∈ entries, file ∈ entry.files kind current := by
  induction entries with
  | nil =>
      unfold filesIn
      exact ⟨nofun, fun ⟨entry, hentry, _⟩ => nomatch hentry⟩
  | cons entry rest ih =>
      unfold filesIn
      rw [List.mem_append, ih, List.exists_mem_cons_iff]

/-- A name a directory can hold. -/
structure ValidName (name : OsName) : Prop where
  nonempty : name ≠ []
  not_current : name ≠ [dot]
  not_parent : name ≠ parent
  no_separator : Part.char '/' ∉ name

/-- Names that can stand in a directory, each once, at every depth. -/
inductive Listed : List Entry → Prop where
  | mk (entries : List Entry) (distinct : (entries.map Entry.name).Nodup)
      (valid : ∀ entry ∈ entries, ValidName entry.name)
      (below : ∀ name sub, Entry.dir name sub ∈ entries → Listed sub) : Listed entries

/-- A directory tree as it is listed. -/
structure Tree where
  entries : List Entry
  listed : Listed entries

def File.path (file : File) : List OsName := file.dir ++ [file.name]

/-- A file found below a directory has a wanted extension, and its path leads through
names of the tree. -/
theorem Listed.below_root {kind : Kind} {entries : List Entry} (h : Listed entries)
    (current : List OsName) (file : File) (hfile : file ∈ filesIn kind current entries) :
    kind.wanted file.name = true ∧
      ∃ entry ∈ entries, ∃ tail, file.path = current ++ entry.name :: tail ∧
        ∀ name ∈ entry.name :: tail, ValidName name := by
  induction h generalizing current with
  | mk entries _ valid _ ih =>
      obtain ⟨entry, hentry, hmem⟩ := (mem_filesIn kind current entries file).mp hfile
      have hvalid := valid entry hentry
      cases entry with
      | file name contents =>
          unfold Entry.files at hmem
          split at hmem
          · rename_i hwanted
            obtain rfl := List.mem_singleton.mp hmem
            refine ⟨hwanted, _, hentry, [], rfl, ?_⟩
            intro other hother
            rwa [List.mem_singleton.mp hother]
          · cases hmem
      | dir name sub =>
          unfold Entry.files at hmem
          obtain ⟨hwanted, entry', -, tail, hpath, htail⟩ := ih name sub hentry _ hmem
          refine ⟨hwanted, _, hentry, entry'.name :: tail, ?_, ?_⟩
          · rw [hpath, List.append_assoc]
            rfl
          · intro other hother
            rcases List.mem_cons.mp hother with rfl | hother
            · exact hvalid
            · exact htail other hother

theorem Entry.path_start {kind : Kind} {entries : List Entry} (h : Listed entries)
    (current : List OsName) (entry : Entry) (hentry : entry ∈ entries) (file : File)
    (hfile : file ∈ entry.files kind current) :
    ∃ tail, file.path = current ++ entry.name :: tail := by
  cases h with
  | mk _ _ _ below =>
      cases entry with
      | file name contents =>
          unfold Entry.files at hfile
          split at hfile
          · obtain rfl := List.mem_singleton.mp hfile
            exact ⟨[], rfl⟩
          · cases hfile
      | dir name sub =>
          unfold Entry.files at hfile
          obtain ⟨-, entry', -, tail, hpath, -⟩ := (below name sub hentry).below_root _ file hfile
          refine ⟨entry'.name :: tail, ?_⟩
          rw [hpath, List.append_assoc]
          rfl

/-- No path is found twice. -/
theorem Listed.paths_distinct {entries : List Entry} (h : Listed entries) (kind : Kind)
    (current : List OsName) :
    (filesIn kind current entries).Pairwise fun file other => file.path ≠ other.path := by
  have hroot := h
  induction h generalizing current with
  | mk entries distinct _ _ ih =>
      -- the entries still to come are among those of the directory
      have hrest (rest : List Entry) (hsub : rest ⊆ entries)
          (hdistinct : (rest.map Entry.name).Nodup) :
          (filesIn kind current rest).Pairwise fun file other => file.path ≠ other.path := by
        induction rest with
        | nil =>
            unfold filesIn
            exact List.Pairwise.nil
        | cons entry rest ihRest =>
            have hentry : entry ∈ entries := hsub (List.mem_cons_self ..)
            have htail : rest ⊆ entries := fun e he => hsub (List.mem_cons_of_mem _ he)
            obtain ⟨hfresh, hnames⟩ := List.nodup_cons.mp hdistinct
            unfold filesIn
            apply List.pairwise_append.mpr
            refine ⟨?_, ihRest htail hnames, ?_⟩
            · cases entry with
              | file name contents =>
                  unfold Entry.files
                  split
                  · exact List.pairwise_singleton ..
                  · exact List.Pairwise.nil
              | dir name sub =>
                  unfold Entry.files
                  cases hroot with
                  | mk _ _ _ below => exact ih name sub hentry _ (below name sub hentry)
            · intro file hfile other hother hsame
              obtain ⟨entry', hentry', hmem⟩ := (mem_filesIn kind current rest other).mp hother
              obtain ⟨tail, hpath⟩ := Entry.path_start hroot current entry hentry file hfile
              obtain ⟨tail', hpath'⟩ :=
                Entry.path_start hroot current entry' (htail hentry') other hmem
              rw [hpath, hpath', List.append_cancel_left_eq] at hsame
              apply hfresh
              rw [(List.cons.inj hsame).1]
              exact List.mem_map_of_mem hentry'
      exact hrest entries (fun _ he => he) distinct

end Runlet.Registries
