import Runlet.Core.Registries

/-!
What the registries hold after loading. The loop comes to every file of the tree;
files whose keys differ are all found under them, and keys are the same exactly
for files of one directory with the same name up to the extension, the later of
which silently takes the place of the earlier.
-/

namespace Runlet.Registries

open FileName

/-! ### What loading does -/

/-- The files in the order in which the loop comes to them. -/
def walk (kind : Kind) (current : List OsName) :
    List Entry → List (List OsName × List Entry) → List File
  | [], [] => []
  | [], (path, entries) :: pending => walk kind path entries pending
  | .dir name entries :: rest, pending =>
      walk kind current rest ((current ++ [name], entries) :: pending)
  | .file name contents :: rest, pending =>
      if kind.wanted name then ⟨current, name, contents⟩ :: walk kind current rest pending
      else walk kind current rest pending
termination_by entries pending => weight entries pending
decreasing_by
  · exact weight_next path entries pending
  · exact weight_dir _ name entries rest pending
  · exact weight_file name contents rest pending
  · exact weight_file name contents rest pending

/-- The walk comes to the files of the tree, to each once. -/
theorem walk_perm (kind : Kind) (current : List OsName) (rest : List Entry)
    (pending : List (List OsName × List Entry)) :
    (walk kind current rest pending).Perm
      (filesIn kind current rest ++ pending.flatMap fun dir => filesIn kind dir.1 dir.2) := by
  induction current, rest, pending using walk.induct kind with
  | case1 current =>
      unfold walk
      exact List.Perm.nil
  | case2 current path entries pending ih =>
      unfold walk
      rw [filesIn_nil, List.nil_append, List.flatMap_cons]
      exact ih
  | case3 current name entries rest pending ih =>
      unfold walk
      rw [List.flatMap_cons] at ih
      rw [filesIn_dir, List.append_assoc]
      exact ih.trans (List.perm_append_comm_assoc ..)
  | case4 current name contents rest pending hwanted ih =>
      unfold walk
      rw [filesIn_file, if_pos hwanted, if_pos hwanted]
      exact ih.cons _
  | case5 current name contents rest pending hwanted ih =>
      unfold walk
      rw [filesIn_file, if_neg hwanted, if_neg hwanted]
      exact ih

section Loading

variable (kind : Kind) (root : String) (maxSize : Nat)

theorem loadFrom_walk (current : List OsName) (rest : List Entry)
    (pending : List (List OsName × List Entry)) (registry : Registry) :
    loadFrom kind root maxSize current rest pending registry =
      (walk kind current rest pending).foldlM (register kind root maxSize) registry := by
  induction current, rest, pending, registry using loadFrom.induct kind with
  | case1 current registry =>
      unfold loadFrom walk
      rfl
  | case2 current path entries pending registry ih =>
      unfold loadFrom walk
      exact ih
  | case3 current name entries rest pending registry ih =>
      unfold loadFrom walk
      exact ih
  | case4 current name contents rest pending registry hwanted ih =>
      unfold loadFrom walk
      rw [if_pos hwanted, if_pos hwanted, List.foldlM_cons]
      exact bind_congr fun registry => ih registry
  | case5 current name contents rest pending registry hwanted ih =>
      unfold loadFrom walk
      rw [if_neg hwanted, if_neg hwanted]
      exact ih

/-- A file that can be read, is not too large and has a path that is text. -/
structure Loadable (file : File) : Prop where
  readable : ∃ source, file.contents = .ok source ∧ source.utf8ByteSize ≤ maxSize
  text : ∀ name ∈ file.path, (toStr name).isSome = true

theorem deriveKey_ok (file : File) (key : String) :
    deriveKey kind file = .ok key ↔
      ∃ parts : List String, file.dir ++ [withoutExtension file.name] = parts.map ofText ∧
        key = (String.singleton '/').intercalate parts := by
  unfold deriveKey
  constructor
  · intro h
    split at h
    · rename_i parts hparts
      exact ⟨parts, (mapM_toStr _ parts).mp hparts, (Except.ok.inj h).symm⟩
    · cases h
  · rintro ⟨parts, hparts, rfl⟩
    rw [(mapM_toStr _ parts).mpr hparts]

theorem wanted_extension (name : OsName) (h : kind.wanted name = true) :
    ∃ ext, extension name = some (ofText ext) := by
  obtain ⟨ext, -, hext⟩ := List.any_eq_true.mp h
  exact ⟨ext, eq_of_beq hext⟩

/-- There is a key when every name of the path is text. -/
theorem deriveKey_isOk (file : File) (hwanted : kind.wanted file.name = true) :
    (∃ key, deriveKey kind file = .ok key) ↔ ∀ name ∈ file.path, (toStr name).isSome = true := by
  obtain ⟨ext, hext⟩ := wanted_extension kind file.name hwanted
  have hname := toStr_withoutExtension file.name ext hext
  have hparts := exists_texts (file.dir ++ [withoutExtension file.name])
  rw [List.forall_mem_append, List.forall_mem_singleton, hname] at hparts
  unfold File.path
  rw [List.forall_mem_append, List.forall_mem_singleton, ← hparts]
  constructor
  · rintro ⟨key, hkey⟩
    obtain ⟨parts, htexts, -⟩ := (deriveKey_ok kind file key).mp hkey
    exact ⟨parts, htexts⟩
  · rintro ⟨parts, htexts⟩
    exact ⟨_, (deriveKey_ok kind file _).mpr ⟨parts, htexts, rfl⟩⟩

/-- What a file needs to be registered. -/
def Ready (file : File) : Prop :=
  ∃ source key, file.contents = .ok source ∧ source.utf8ByteSize ≤ maxSize ∧
    deriveKey kind file = .ok key

theorem ready_iff (file : File) (hwanted : kind.wanted file.name = true) :
    Ready kind maxSize file ↔ Loadable maxSize file := by
  constructor
  · rintro ⟨source, key, hsource, hsize, hkey⟩
    exact ⟨⟨source, hsource, hsize⟩, (deriveKey_isOk kind file hwanted).mp ⟨key, hkey⟩⟩
  · rintro ⟨⟨source, hsource, hsize⟩, htext⟩
    obtain ⟨key, hkey⟩ := (deriveKey_isOk kind file hwanted).mpr htext
    exact ⟨source, key, hsource, hsize, hkey⟩

theorem register_ok (registry : Registry) (file : File) (registry' : Registry) :
    register kind root maxSize registry file = .ok registry' ↔
      ∃ source key, file.contents = .ok source ∧ source.utf8ByteSize ≤ maxSize ∧
        deriveKey kind file = .ok key ∧ registry' = registry.insert key source := by
  unfold register
  cases hcontents : file.contents with
  | error error => exact ⟨nofun, fun ⟨_, _, h, _⟩ => nomatch h⟩
  | ok source =>
      change (if maxSize < source.utf8ByteSize then _ else _) = _ ↔ _
      split
      · rename_i hsize
        constructor
        · exact nofun
        · rintro ⟨source', key, hsource, hle, -⟩
          obtain rfl := Except.ok.inj hsource
          omega
      · rename_i hsize
        cases hkey : deriveKey kind file with
        | error error => exact ⟨nofun, fun ⟨_, _, _, _, h, _⟩ => nomatch h⟩
        | ok key =>
            constructor
            · intro h
              exact ⟨source, key, rfl, Nat.not_lt.mp hsize, rfl, (Except.ok.inj h).symm⟩
            · rintro ⟨source', key', hsource, -, hsame, rfl⟩
              rw [Except.ok.inj hsource, Except.ok.inj hsame]
              rfl

/-- The first of the files is put in, then the others. -/
theorem foldlM_register_cons (file : File) (files : List File) (registry registry' : Registry) :
    (file :: files).foldlM (register kind root maxSize) registry = .ok registry' ↔
      ∃ source key, file.contents = .ok source ∧ source.utf8ByteSize ≤ maxSize ∧
        deriveKey kind file = .ok key ∧
        files.foldlM (register kind root maxSize) (registry.insert key source) = .ok registry' := by
  rw [List.foldlM_cons]
  constructor
  · intro h
    cases hput : register kind root maxSize registry file with
    | error error =>
        rw [hput] at h
        cases h
    | ok next =>
        rw [hput] at h
        obtain ⟨source, key, hsource, hsize, hkey, rfl⟩ :=
          (register_ok kind root maxSize registry file next).mp hput
        exact ⟨source, key, hsource, hsize, hkey, h⟩
  · rintro ⟨source, key, hsource, hsize, hkey, hrest⟩
    rw [(register_ok kind root maxSize registry file _).mpr ⟨source, key, hsource, hsize, hkey, rfl⟩]
    exact hrest

theorem foldlM_register (files : List File) (registry registry' : Registry)
    (h : files.foldlM (register kind root maxSize) registry = .ok registry') :
    ∀ file ∈ files, Ready kind maxSize file := by
  induction files generalizing registry with
  | nil => exact fun file hfile => nomatch hfile
  | cons file files ih =>
      obtain ⟨source, key, hsource, hsize, hkey, hrest⟩ :=
        (foldlM_register_cons kind root maxSize file files registry registry').mp h
      exact List.forall_mem_cons.mpr ⟨⟨source, key, hsource, hsize, hkey⟩, ih _ hrest⟩

/-- Files that can all be registered are. -/
theorem foldlM_register_ok (files : List File)
    (hfiles : ∀ file ∈ files, Ready kind maxSize file) (registry : Registry) :
    ∃ registry', files.foldlM (register kind root maxSize) registry = .ok registry' := by
  induction files generalizing registry with
  | nil => exact ⟨registry, rfl⟩
  | cons file files ih =>
      obtain ⟨⟨source, key, hsource, hsize, hkey⟩, hrest⟩ := List.forall_mem_cons.mp hfiles
      obtain ⟨registry', hdone⟩ := ih hrest (registry.insert key source)
      refine ⟨registry', (foldlM_register_cons kind root maxSize file files registry registry').mpr ?_⟩
      exact ⟨source, key, hsource, hsize, hkey, hdone⟩

/-- Keys of other files are left alone. -/
theorem foldlM_register_lookup (files : List File) (registry registry' : Registry) (key : String)
    (h : files.foldlM (register kind root maxSize) registry = .ok registry')
    (hother : ∀ file ∈ files, deriveKey kind file ≠ .ok key) :
    registry'.lookup key = registry.lookup key := by
  induction files generalizing registry with
  | nil => rw [Except.ok.inj h]
  | cons file files ih =>
      obtain ⟨hfile, hfiles⟩ := List.forall_mem_cons.mp hother
      obtain ⟨source, key', -, -, hkey, hrest⟩ :=
        (foldlM_register_cons kind root maxSize file files registry registry').mp h
      rw [ih _ hrest hfiles]
      apply AList.lookup_insert_ne
      rintro rfl
      exact hfile hkey

/-- Files with keys of their own are all found, and counted. -/
theorem foldlM_register_distinct (files : List File) (registry registry' : Registry)
    (h : files.foldlM (register kind root maxSize) registry = .ok registry')
    (hkeys : files.Pairwise fun file other => deriveKey kind file ≠ deriveKey kind other)
    (hfresh : ∀ file ∈ files, ∀ key, deriveKey kind file = .ok key → key ∉ registry) :
    (∀ file ∈ files, ∃ key source, deriveKey kind file = .ok key ∧ file.contents = .ok source ∧
      registry'.lookup key = some source) ∧
    registry'.entries.length = registry.entries.length + files.length := by
  induction files generalizing registry with
  | nil =>
      rw [Except.ok.inj h]
      exact ⟨nofun, rfl⟩
  | cons file files ih =>
      obtain ⟨hhead, htail⟩ := List.pairwise_cons.mp hkeys
      obtain ⟨hfile, hfiles⟩ := List.forall_mem_cons.mp hfresh
      obtain ⟨source, key, hsource, -, hkey, hrest⟩ :=
        (foldlM_register_cons kind root maxSize file files registry registry').mp h
      have hnew := hfile key hkey
      have hnext : ∀ other ∈ files, ∀ key', deriveKey kind other = .ok key' →
          key' ∉ registry.insert key source := by
        intro other hother key' hkey' hmem
        rcases (AList.mem_insert registry).mp hmem with rfl | hold
        · exact hhead other hother (hkey.trans hkey'.symm)
        · exact hfiles other hother key' hkey' hold
      obtain ⟨hown, hcount⟩ := ih _ hrest htail hnext
      refine ⟨List.forall_mem_cons.mpr ⟨⟨key, source, hkey, hsource, ?_⟩, hown⟩, ?_⟩
      · rw [foldlM_register_lookup kind root maxSize files _ registry' key hrest
          fun other hother heq => hhead other hother (hkey.trans heq.symm)]
        exact AList.lookup_insert registry
      · rw [hcount, AList.entries_insert_of_notMem hnew, List.length_cons, List.length_cons]
        omega

end Loading

/-! ### The law -/

/-- No two files of one directory have the same name up to the extension. -/
def NoClash (files : List File) : Prop :=
  ∀ file ∈ files, ∀ other ∈ files, file.dir = other.dir →
    withoutExtension file.name = withoutExtension other.name → file.name = other.name

/-- Every file is registered: distinct ones under distinct keys, each with its own source. -/
structure Registered (kind : Kind) (files : List File) (registry : Registry) : Prop where
  distinct : ∀ file ∈ files, ∀ other ∈ files,
    deriveKey kind file = deriveKey kind other → file.path = other.path
  own : ∀ file ∈ files, ∃ key source, deriveKey kind file = .ok key ∧
    file.contents = .ok source ∧ registry.get key = some source
  count : registry.count = files.length

def Tree.files (tree : Tree) (kind : Kind) : List File := filesIn kind [] tree.entries

/-- The same files, listed in any order at any depth. -/
def SameFiles (kind : Kind) (tree other : Tree) : Prop :=
  ∀ file, file ∈ other.files kind ↔ file ∈ tree.files kind

/-- In whatever order the tree is listed, loading fails or registers every file. -/
def RegistersAll (kind : Kind) (load : List Entry → Except String Registry) (tree : Tree) : Prop :=
  ∀ listing : Tree, SameFiles kind tree listing →
    ∀ registry, load listing.entries = .ok registry →
      Registered kind (listing.files kind) registry

/-- The key of a file tells its directory and its name up to the extension. -/
theorem deriveKey_inj (kind : Kind) (file other : File) (key : String)
    (hwanted : kind.wanted file.name = true) (hwanted' : kind.wanted other.name = true)
    (hvalid : ∀ name ∈ file.path, ValidName name) (hvalid' : ∀ name ∈ other.path, ValidName name)
    (h : deriveKey kind file = .ok key) (h' : deriveKey kind other = .ok key) :
    file.dir = other.dir ∧ withoutExtension file.name = withoutExtension other.name := by
  have hseparator (file : File) (hwanted : kind.wanted file.name = true)
      (hvalid : ∀ name ∈ file.path, ValidName name) (parts : List String)
      (hparts : file.dir ++ [withoutExtension file.name] = parts.map ofText) :
      parts ≠ [] ∧ ∀ text ∈ parts, '/' ∉ text.toList := by
    refine ⟨?_, ?_⟩
    · rintro rfl
      cases List.append_eq_nil_iff.mp hparts with
      | intro _ h => cases h
    · intro text htext hmem
      have hname : ofText text ∈ file.dir ++ [withoutExtension file.name] :=
        hparts ▸ List.mem_map_of_mem htext
      have hslash : Part.char '/' ∈ ofText text := List.mem_map_of_mem hmem
      rcases List.mem_append.mp hname with hdir | hlast
      · exact (hvalid _ (List.mem_append_left _ hdir)).no_separator hslash
      · obtain ⟨ext, hext⟩ := wanted_extension kind file.name hwanted
        rw [List.mem_singleton.mp hlast] at hslash
        have hinside := mem_withoutExtension file.name _ hext _ hslash
        exact (hvalid _ (List.mem_append_right _ (List.mem_cons_self ..))).no_separator hinside
  obtain ⟨parts, hparts, hkey⟩ := (deriveKey_ok kind file key).mp h
  obtain ⟨parts', hparts', hkey'⟩ := (deriveKey_ok kind other key).mp h'
  obtain ⟨hne, htexts⟩ := hseparator file hwanted hvalid parts hparts
  obtain ⟨hne', htexts'⟩ := hseparator other hwanted' hvalid' parts' hparts'
  have hsame := intercalate_inj '/' parts parts' hne hne' htexts htexts' (hkey.symm.trans hkey')
  rw [hsame, ← hparts'] at hparts
  obtain ⟨hdir, hlast⟩ := List.append_inj' hparts rfl
  exact ⟨hdir, (List.cons.inj hlast).1⟩

theorem Tree.paths_valid (tree : Tree) (kind : Kind) (file : File) (hfile : file ∈ tree.files kind) :
    kind.wanted file.name = true ∧ ∀ name ∈ file.path, ValidName name := by
  obtain ⟨hwanted, entry, -, tail, hpath, hvalid⟩ := tree.listed.below_root [] file hfile
  rw [List.nil_append] at hpath
  exact ⟨hwanted, hpath ▸ hvalid⟩

/-- Without a clash files of one key are one file. -/
theorem Tree.key_inj (tree : Tree) (kind : Kind) (hclash : NoClash (tree.files kind))
    (file other : File) (hfile : file ∈ tree.files kind) (hother : other ∈ tree.files kind)
    (key : String) (h : deriveKey kind file = .ok key) (h' : deriveKey kind other = .ok key) :
    file.path = other.path := by
  obtain ⟨hwanted, hvalid⟩ := tree.paths_valid kind file hfile
  obtain ⟨hwanted', hvalid'⟩ := tree.paths_valid kind other hother
  obtain ⟨hdir, hstem⟩ := deriveKey_inj kind file other key hwanted hwanted' hvalid hvalid' h h'
  unfold File.path
  rw [hdir, hclash file hfile other hother hdir hstem]

theorem Tree.load_walk (tree : Tree) (kind : Kind) (root : String) (maxSize : Nat) :
    ∃ order : List File, order.Perm (tree.files kind) ∧
      load kind root maxSize tree.entries = order.foldlM (register kind root maxSize) ∅ := by
  refine ⟨walk kind [] tree.entries [], ?_, loadFrom_walk kind root maxSize [] tree.entries [] ∅⟩
  have hperm := walk_perm kind [] tree.entries []
  rwa [List.flatMap_nil, List.append_nil] at hperm

theorem registersAll_iff (kind : Kind) (root : String) (maxSize : Nat) (tree : Tree) :
    RegistersAll kind (load kind root maxSize) tree ↔
      ((∀ file ∈ tree.files kind, Loadable maxSize file) → NoClash (tree.files kind)) := by
  constructor
  · intro hall hloadable file hfile other hother hdir hstem
    obtain ⟨order, hperm, hload⟩ := tree.load_walk kind root maxSize
    obtain ⟨registry, hdone⟩ := foldlM_register_ok kind root maxSize order (by
      intro f hf
      have hmem := hperm.mem_iff.mp hf
      exact (ready_iff kind maxSize f (tree.paths_valid kind f hmem).1).mpr (hloadable f hmem)) ∅
    have hregistered := hall tree (fun _ => Iff.rfl) registry (hload.trans hdone)
    have hkey : deriveKey kind file = deriveKey kind other := by
      unfold deriveKey
      rw [hdir, hstem]
    have hpath := hregistered.distinct file hfile other hother hkey
    exact (List.cons.inj (List.append_inj' hpath rfl).2).1
  · intro hquiet listing hsame registry hok
    obtain ⟨order, hperm, hload⟩ := listing.load_walk kind root maxSize
    rw [hload] at hok
    have hready := foldlM_register kind root maxSize order ∅ registry hok
    have hclash : NoClash (listing.files kind) := by
      have htree := hquiet fun file hfile => by
        have hmem := (hsame file).mpr hfile
        exact (ready_iff kind maxSize file (tree.paths_valid kind file hfile).1).mp
          (hready file (hperm.mem_iff.mpr hmem))
      intro file hfile other hother
      exact htree file ((hsame file).mp hfile) other ((hsame other).mp hother)
    have hdistinct : ∀ file ∈ listing.files kind, ∀ other ∈ listing.files kind,
        deriveKey kind file = deriveKey kind other → file.path = other.path := by
      intro file hfile other hother hsameKey
      obtain ⟨source, key, -, -, hkey⟩ := hready file (hperm.mem_iff.mpr hfile)
      exact listing.key_inj kind hclash file other hfile hother key hkey (hsameKey ▸ hkey)
    have hkeys : order.Pairwise fun file other => deriveKey kind file ≠ deriveKey kind other := by
      have hpaths := listing.listed.paths_distinct kind []
      have horder := (hperm.pairwise_iff fun h heq => h heq.symm).mpr hpaths
      apply horder.imp_of_mem
      intro file other hfile hother hpath hsameKey
      exact hpath (hdistinct file (hperm.mem_iff.mp hfile) other (hperm.mem_iff.mp hother) hsameKey)
    obtain ⟨hown, hcount⟩ := foldlM_register_distinct kind root maxSize order ∅ registry hok hkeys
      (fun _ _ key _ => AList.notMem_empty key)
    refine ⟨hdistinct, fun file hfile => hown file (hperm.mem_iff.mpr hfile), ?_⟩
    unfold Registry.count
    rw [hcount, hperm.length_eq]
    exact Nat.zero_add _

/-- A clash of scripts is one of the names `..js` and `...js`. -/
theorem script_clash (name other : OsName) (hwanted : scriptKind.wanted name = true)
    (hwanted' : scriptKind.wanted other = true)
    (h : withoutExtension name = withoutExtension other) :
    name = other ∨ (name = ofText "..js" ∧ other = ofText "...js") ∨
      (name = ofText "...js" ∧ other = ofText "..js") := by
  have hparts (name : OsName) (hwanted : scriptKind.wanted name = true) :
      ∃ before, name = before ++ ofText ".js" ∧
        withoutExtension name = if before = [dot] then parent else before := by
    obtain ⟨ext, hmem, hext⟩ := List.any_eq_true.mp hwanted
    rw [List.mem_singleton.mp hmem] at hext
    obtain ⟨before, hbefore, hdot, rfl, hparent⟩ := extension_some name _ (eq_of_beq hext)
    exact ⟨before, rfl, withoutExtension_append before _ hbefore hdot hparent⟩
  obtain ⟨before, rfl, hstem⟩ := hparts name hwanted
  obtain ⟨before', rfl, hstem'⟩ := hparts other hwanted'
  rw [hstem, hstem'] at h
  split at h <;> split at h
  · rename_i hone hother
    rw [hone, hother]
    exact .inl rfl
  · rename_i hone _
    rw [hone, ← h]
    exact .inr (.inl ⟨rfl, rfl⟩)
  · rename_i _ hother
    rw [hother, h]
    exact .inr (.inr ⟨rfl, rfl⟩)
  · rw [h]
    exact .inl rfl

/-- Scripts clash when a directory has both `..js` and `...js`. -/
theorem scripts_noClash (tree : Tree) :
    NoClash (tree.files scriptKind) ↔
      ∀ file ∈ tree.files scriptKind, ∀ other ∈ tree.files scriptKind, file.dir = other.dir →
        ¬(file.name = ofText "..js" ∧ other.name = ofText "...js") := by
  constructor
  · rintro hclash file hfile other hother hdir ⟨hname, hname'⟩
    have hstem : withoutExtension file.name = withoutExtension other.name := by
      rw [hname, hname']
      decide
    have hsame := hclash file hfile other hother hdir hstem
    rw [hname, hname'] at hsame
    revert hsame
    decide
  · intro hquiet file hfile other hother hdir hstem
    rcases script_clash file.name other.name (tree.paths_valid _ file hfile).1
      (tree.paths_valid _ other hother).1 hstem with hsame | hpair | hpair
    · exact hsame
    · exact absurd hpair (hquiet file hfile other hother hdir)
    · exact absurd hpair.symm (hquiet other hother file hfile hdir.symm)

/-- Both registries take in every file of every tree, in whatever order it is listed, but for
files of one directory that have the same name up to the extension. -/
theorem registries_iff (root : String) (maxSize : Nat) (tree : Tree) :
    (RegistersAll moduleKind (loadModules root maxSize) tree ↔
      ((∀ file ∈ tree.files moduleKind, Loadable maxSize file) →
        NoClash (tree.files moduleKind))) ∧
    (RegistersAll scriptKind (loadScripts root maxSize) tree ↔
      ((∀ file ∈ tree.files scriptKind, Loadable maxSize file) →
        ∀ file ∈ tree.files scriptKind, ∀ other ∈ tree.files scriptKind, file.dir = other.dir →
          ¬(file.name = ofText "..js" ∧ other.name = ofText "...js"))) := by
  refine ⟨registersAll_iff moduleKind root maxSize tree, ?_⟩
  rw [← scripts_noClash]
  exact registersAll_iff scriptKind root maxSize tree

theorem validName_text (text : String) (h : ofText text ∉ [[], [dot], parent])
    (hslash : Part.char '/' ∉ ofText text) : ValidName (ofText text) := by
  simp only [List.mem_cons, List.not_mem_nil, or_false, not_or] at h
  exact ⟨h.1, h.2.1, h.2.2, hslash⟩

/-- A directory of two readable files. -/
def pair (name other : String) : List Entry :=
  [.file (ofText name) (.ok "one"), .file (ofText other) (.ok "two")]

theorem pair_listed (name other : String) (hne : ofText name ≠ ofText other)
    (hname : ValidName (ofText name)) (hother : ValidName (ofText other)) :
    Listed (pair name other) := by
  refine ⟨_, ?_, ?_, ?_⟩
  · exact List.nodup_cons.mpr ⟨fun h => hne (List.mem_singleton.mp h), List.nodup_singleton _⟩
  · exact List.forall_mem_cons.mpr ⟨hname, List.forall_mem_singleton.mpr hother⟩
  · intro dir sub hmem
    unfold pair at hmem
    simp only [List.mem_cons, List.not_mem_nil, or_false, reduceCtorEq] at hmem

theorem pair_clash (kind : Kind) (root : String) (tree : Tree) (name other : String)
    (hfiles : tree.files kind =
      [⟨[], ofText name, .ok "one"⟩, ⟨[], ofText other, .ok "two"⟩])
    (hstem : withoutExtension (ofText name) = withoutExtension (ofText other))
    (hne : ofText name ≠ ofText other) :
    ¬RegistersAll kind (load kind root 100) tree := by
  intro hall
  have hclash := (registersAll_iff kind root 100 tree).mp hall
  rw [hfiles] at hclash
  have htext (text : String) : ∀ part ∈ [] ++ [ofText text], (toStr part).isSome = true := by
    intro part hpart
    rw [List.mem_singleton.mp hpart, (toStr_eq_some _ text).mpr rfl]
    rfl
  have hloadable : ∀ file ∈ [(⟨[], ofText name, .ok "one"⟩ : File), ⟨[], ofText other, .ok "two"⟩],
      Loadable 100 file := by
    rw [List.forall_mem_cons, List.forall_mem_singleton]
    exact ⟨⟨⟨"one", rfl, by decide⟩, htext name⟩, ⟨⟨"two", rfl, by decide⟩, htext other⟩⟩
  exact hne (hclash hloadable _ (List.mem_cons_self ..) _
    (List.mem_cons_of_mem _ (List.mem_cons_self ..)) rfl hstem)

theorem pricing_listed : Listed (pair "pricing.js" "pricing.mjs") :=
  pair_listed _ _ (by decide) (validName_text _ (by decide) (by decide))
    (validName_text _ (by decide) (by decide))

theorem dotted_listed : Listed (pair "..js" "...js") :=
  pair_listed _ _ (by decide) (validName_text _ (by decide) (by decide))
    (validName_text _ (by decide) (by decide))

/-- Of two files of one key only the one listed last is kept. -/
theorem registries_pair :
    ¬RegistersAll moduleKind (loadModules "modules" 100) ⟨_, pricing_listed⟩ ∧
      ¬RegistersAll scriptKind (loadScripts "scripts" 100) ⟨_, dotted_listed⟩ :=
  ⟨pair_clash moduleKind "modules" _ "pricing.js" "pricing.mjs" rfl (by decide) (by decide),
    pair_clash scriptKind "scripts" _ "..js" "...js" rfl (by decide) (by decide)⟩

end Runlet.Registries
