import Runlet.Lib.Text

/-!
File names of an operating system, with their stem and extension. A name need not
be text: it is made of characters and of stretches of bytes that are none. The
stem goes to the last dot, and a dot in front starts no extension.
-/

namespace Runlet.FileName

/-- A character of a name, or bytes in it that are no text. -/
inductive Part where
  | char (c : Char)
  | raw (bytes : List UInt8)
  deriving DecidableEq

abbrev OsName := List Part

def ofText (text : String) : OsName := text.toList.map Part.char

def dot : Part := .char '.'

/-- The parent directory. -/
def parent : OsName := [dot, dot]

/-! ### Text -/

def charsOf : OsName → Option (List Char)
  | [] => some []
  | .char c :: rest => (charsOf rest).map (c :: ·)
  | .raw _ :: _ => none

def toStr (name : OsName) : Option String := (charsOf name).map String.ofList

theorem charsOf_eq_some (name : OsName) (chars : List Char) :
    charsOf name = some chars ↔ name = chars.map Part.char := by
  induction name generalizing chars with
  | nil =>
      cases chars with
      | nil => exact ⟨fun _ => rfl, fun _ => rfl⟩
      | cons c rest => exact ⟨nofun, nofun⟩
  | cons part rest ih =>
      cases part with
      | raw bytes =>
          cases chars with
          | nil => exact ⟨nofun, nofun⟩
          | cons c chars => exact ⟨nofun, nofun⟩
      | char c =>
          unfold charsOf
          rw [Option.map_eq_some_iff]
          constructor
          · rintro ⟨tail, htail, rfl⟩
            rw [List.map_cons, (ih tail).mp htail]
          · intro h
            cases chars with
            | nil => cases h
            | cons c' tail =>
                obtain ⟨hc, htail⟩ := List.cons.inj h
                obtain rfl := Part.char.inj hc
                exact ⟨tail, (ih tail).mpr htail, rfl⟩

theorem toStr_eq_some (name : OsName) (text : String) :
    toStr name = some text ↔ name = ofText text := by
  unfold toStr ofText
  rw [Option.map_eq_some_iff]
  constructor
  · rintro ⟨chars, hchars, rfl⟩
    rw [String.toList_ofList, (charsOf_eq_some name chars).mp hchars]
  · intro h
    exact ⟨text.toList, (charsOf_eq_some name _).mpr h, String.ofList_toList⟩

theorem mapM_toStr (names : List OsName) (texts : List String) :
    names.mapM toStr = some texts ↔ names = texts.map ofText := by
  induction names generalizing texts with
  | nil =>
      rw [List.mapM_nil]
      cases texts with
      | nil => exact ⟨fun _ => rfl, fun _ => rfl⟩
      | cons text texts => exact ⟨nofun, nofun⟩
  | cons name names ih =>
      rw [List.mapM_cons, Option.bind_eq_bind, Option.bind_eq_some_iff]
      constructor
      · rintro ⟨text, htext, hrest⟩
        obtain ⟨rest, hnames, htexts⟩ := Option.bind_eq_some_iff.mp hrest
        obtain rfl := Option.some.inj htexts
        rw [List.map_cons, ← (toStr_eq_some name text).mp htext, ← (ih rest).mp hnames]
      · intro h
        cases texts with
        | nil => cases h
        | cons text texts =>
            obtain ⟨hname, hnames⟩ := List.cons.inj h
            refine ⟨text, (toStr_eq_some name text).mpr hname, ?_⟩
            rw [(ih texts).mpr hnames]
            rfl

/-- Names without the separator can be told from their texts put together. -/
theorem intercalate_inj (sep : Char) (texts texts' : List String) (hne : texts ≠ [])
    (hne' : texts' ≠ []) (htexts : ∀ text ∈ texts, sep ∉ text.toList)
    (htexts' : ∀ text ∈ texts', sep ∉ text.toList)
    (h : (String.singleton sep).intercalate texts = (String.singleton sep).intercalate texts') :
    texts = texts' := by
  have hpieces (texts : List String) (hne : texts ≠ []) (htexts : ∀ text ∈ texts, sep ∉ text.toList) :
      Text.splitChars sep ((String.singleton sep).intercalate texts).toList =
        texts.map String.toList := by
    rw [String.toList_intercalate, String.toList_singleton]
    apply Text.splitChars_intercalate sep _ (mt List.map_eq_nil_iff.mp hne)
    intro piece hpiece
    obtain ⟨text, htext, rfl⟩ := List.mem_map.mp hpiece
    exact htexts text htext
  have hsame := hpieces texts hne htexts
  rw [h, hpieces texts' hne' htexts'] at hsame
  exact (List.map_injective_iff.mpr (fun _ _ => String.toList_inj.mp) hsame).symm

/-- A name is text when each of its parts is. -/
theorem toStr_isSome (name : OsName) :
    (toStr name).isSome = true ↔ ∀ part ∈ name, ∃ c, part = .char c := by
  rw [Option.isSome_iff_exists]
  constructor
  · rintro ⟨text, htext⟩ part hpart
    rw [(toStr_eq_some name text).mp htext] at hpart
    obtain ⟨c, -, hc⟩ := List.mem_map.mp hpart
    exact ⟨c, hc.symm⟩
  · intro hall
    induction name with
    | nil => exact ⟨"", rfl⟩
    | cons part rest ih =>
        obtain ⟨c, rfl⟩ := hall part (List.mem_cons_self ..)
        obtain ⟨text, htext⟩ := ih fun p hp => hall p (List.mem_cons_of_mem _ hp)
        obtain ⟨chars, hchars, -⟩ := Option.map_eq_some_iff.mp htext
        refine ⟨String.ofList (c :: chars), ?_⟩
        unfold toStr charsOf
        rw [hchars]
        rfl

theorem exists_texts (names : List OsName) :
    (∃ texts : List String, names = texts.map ofText) ↔
      ∀ name ∈ names, (toStr name).isSome = true := by
  constructor
  · rintro ⟨texts, rfl⟩ name hmem
    obtain ⟨text, -, rfl⟩ := List.mem_map.mp hmem
    rw [(toStr_eq_some _ text).mpr rfl]
    rfl
  · intro hall
    induction names with
    | nil => exact ⟨[], rfl⟩
    | cons name names ih =>
        obtain ⟨hname, hnames⟩ := List.forall_mem_cons.mp hall
        obtain ⟨text, htext⟩ := Option.isSome_iff_exists.mp hname
        obtain ⟨texts, htexts⟩ := ih hnames
        refine ⟨text :: texts, ?_⟩
        rw [List.map_cons, ← (toStr_eq_some name text).mp htext, ← htexts]

/-! ### Stem and extension -/

/-- The parts before and behind the last dot. -/
def cutLastDot : OsName → Option (OsName × OsName)
  | [] => none
  | part :: rest =>
      match cutLastDot rest with
      | some (before, after) => some (part :: before, after)
      | none => if part = dot then some ([], rest) else none

/-- What is before the last dot, and what is behind it: all of a name that has no dot
behind its first part is the latter, or the former if there is one in front. -/
def rsplitFileAtDot (file : OsName) : Option OsName × Option OsName :=
  if file = parent then (some file, none)
  else
    match cutLastDot file with
    | none => (none, some file)
    | some (before, after) => if before = [] then (some file, none) else (some before, some after)

def extension (file : OsName) : Option OsName :=
  let (before, after) := rsplitFileAtDot file
  before.bind fun _ => after

def fileStem (file : OsName) : Option OsName :=
  let (before, after) := rsplitFileAtDot file
  before.or after

/-- The last component of a path up to the dot of its extension. -/
def tillDot (file : OsName) : OsName :=
  match extension file with
  | none => file
  | some previous => file.take (file.length - previous.length)

/-- `set_extension` to nothing: the parent directory is no file and stays. -/
def clearExtension (file : OsName) : OsName :=
  if file = parent then file else (fileStem file).getD file

/-- `with_extension` of nothing. -/
def withoutExtension (file : OsName) : OsName := clearExtension (tillDot file)

theorem cutLastDot_none_iff (name : OsName) : cutLastDot name = none ↔ dot ∉ name := by
  induction name with
  | nil => exact ⟨fun _ => List.not_mem_nil, fun _ => rfl⟩
  | cons part rest ih =>
      rw [List.mem_cons, not_or]
      unfold cutLastDot
      cases hrest : cutLastDot rest with
      | some parts =>
          rw [hrest] at ih
          exact ⟨nofun, fun h => nomatch ih.mpr h.2⟩
      | none =>
          rw [hrest] at ih
          dsimp only
          split
          · rename_i hpart
            exact ⟨nofun, fun h => absurd hpart.symm h.1⟩
          · rename_i hpart
            exact ⟨fun _ => ⟨fun heq => hpart heq.symm, ih.mp rfl⟩, fun _ => rfl⟩

theorem cutLastDot_append (before after : OsName) (h : dot ∉ after) :
    cutLastDot (before ++ dot :: after) = some (before, after) := by
  induction before with
  | nil =>
      rw [List.nil_append]
      unfold cutLastDot
      rw [(cutLastDot_none_iff after).mpr h]
      exact if_pos rfl
  | cons part rest ih =>
      rw [List.cons_append]
      unfold cutLastDot
      rw [ih]

theorem cutLastDot_some (name before after : OsName) (h : cutLastDot name = some (before, after)) :
    name = before ++ dot :: after ∧ dot ∉ after := by
  induction name generalizing before with
  | nil => cases h
  | cons part rest ih =>
      unfold cutLastDot at h
      cases hrest : cutLastDot rest with
      | some parts =>
          rw [hrest] at h
          obtain ⟨hbefore, hafter⟩ := Prod.mk.inj (Option.some.inj h)
          obtain ⟨heq, hdot⟩ := ih parts.1 (by rw [hrest, ← hafter])
          exact ⟨by rw [← hbefore, heq, List.cons_append], hdot⟩
      | none =>
          rw [hrest] at h
          dsimp only at h
          split at h
          · rename_i hpart
            obtain ⟨hbefore, hafter⟩ := Prod.mk.inj (Option.some.inj h)
            rw [← hbefore, ← hafter, hpart]
            exact ⟨rfl, (cutLastDot_none_iff rest).mp hrest⟩
          · cases h

/-- A name with an extension: something, a dot, and what has no dot. -/
theorem extension_some (name after : OsName) (h : extension name = some after) :
    ∃ before, before ≠ [] ∧ dot ∉ after ∧ name = before ++ dot :: after ∧ name ≠ parent := by
  unfold extension rsplitFileAtDot at h
  by_cases hparent : name = parent
  · rw [if_pos hparent] at h
    cases h
  · rw [if_neg hparent] at h
    cases hcut : cutLastDot name with
    | none =>
        rw [hcut] at h
        cases h
    | some parts =>
        rw [hcut] at h
        dsimp only at h
        split at h
        · cases h
        · rename_i hbefore
          obtain rfl := Option.some.inj h
          obtain ⟨heq, hdot⟩ := cutLastDot_some name parts.1 parts.2 hcut
          exact ⟨parts.1, hbefore, hdot, heq, hparent⟩

theorem rsplit_append (before after : OsName) (hbefore : before ≠ []) (hdot : dot ∉ after)
    (hparent : before ++ dot :: after ≠ parent) :
    rsplitFileAtDot (before ++ dot :: after) = (some before, some after) := by
  unfold rsplitFileAtDot
  rw [if_neg hparent, cutLastDot_append before after hdot]
  exact if_neg hbefore

/-- Without its extension a name is its stem; only a stem that is a dot becomes the parent
directory, since the dot of the extension is still there. -/
theorem withoutExtension_append (before after : OsName) (hbefore : before ≠ [])
    (hdot : dot ∉ after) (hparent : before ++ dot :: after ≠ parent) :
    withoutExtension (before ++ dot :: after) = if before = [dot] then parent else before := by
  have hextension : extension (before ++ dot :: after) = some after := by
    unfold extension
    rw [rsplit_append before after hbefore hdot hparent]
    rfl
  have htill : tillDot (before ++ dot :: after) = before ++ [dot] := by
    have hlength : (before ++ dot :: after).length - after.length = (before ++ [dot]).length := by
      simp only [List.length_append, List.length_cons, List.length_nil]
      omega
    have hsplit : before ++ dot :: after = (before ++ [dot]) ++ after := by
      rw [List.append_assoc, List.singleton_append]
    unfold tillDot
    rw [hextension]
    dsimp only
    rw [hlength, hsplit, List.take_left]
  have hiff : before ++ [dot] = parent ↔ before = [dot] := by
    change before ++ [dot] = [dot] ++ [dot] ↔ _
    exact List.append_left_inj [dot]
  unfold withoutExtension clearExtension
  rw [htill]
  split
  · rename_i hstem
    rw [hstem, if_pos (hiff.mp hstem)]
  · rename_i hstem
    rw [if_neg (mt hiff.mpr hstem)]
    unfold fileStem
    rw [rsplit_append before [] hbefore List.not_mem_nil hstem]
    rfl

theorem mem_withoutExtension (name after : OsName) (h : extension name = some after) (part : Part)
    (hpart : part ∈ withoutExtension name) : part ∈ name := by
  obtain ⟨before, hbefore, hdot, rfl, hparent⟩ := extension_some name after h
  rw [withoutExtension_append before after hbefore hdot hparent] at hpart
  split at hpart
  · rename_i hstem
    rw [hstem]
    exact List.mem_append_left _ ((List.mem_cons.mp hpart).elim (fun h => h ▸ List.mem_cons_self ..) id)
  · exact List.mem_append_left _ hpart

/-- The stem is text if the name with a text behind it is. -/
theorem toStr_withoutExtension (name : OsName) (text : String)
    (h : extension name = some (ofText text)) :
    (toStr (withoutExtension name)).isSome = true ↔ (toStr name).isSome = true := by
  obtain ⟨before, hbefore, hdot, rfl, hparent⟩ := extension_some name _ h
  have htext (part : Part) (hpart : part ∈ dot :: ofText text) : ∃ c, part = .char c := by
    rcases List.mem_cons.mp hpart with rfl | hmem
    · exact ⟨'.', rfl⟩
    · obtain ⟨c, -, hc⟩ := List.mem_map.mp hmem
      exact ⟨c, hc.symm⟩
  have hname : (∀ part ∈ before ++ dot :: ofText text, ∃ c, part = Part.char c) ↔
      ∀ part ∈ before, ∃ c, part = Part.char c := by
    rw [List.forall_mem_append]
    exact and_iff_left htext
  rw [withoutExtension_append before _ hbefore hdot hparent, toStr_isSome, toStr_isSome, hname]
  split
  · rename_i hstem
    rw [hstem]
    refine ⟨fun _ part hpart => ⟨'.', List.mem_singleton.mp hpart⟩, fun _ part hpart => ?_⟩
    exact ⟨'.', (List.mem_cons.mp hpart).elim id List.mem_singleton.mp⟩
  · exact Iff.rfl

end Runlet.FileName
