import Runlet.Core.Logs
import Runlet.Core.TextPadding
import Runlet.Lib.JsObject
import Runlet.Lib.Placeholders
import Runlet.Lib.TextCodec
import Runlet.Server.Identity

/-!
The loggers of a script (`js/log.js`) over the native `__log` (`inject_log` in
`engine/channels.rs`). `log.with` makes a logger with a context of its own; a call merges
its properties over the context, puts them into the template and hands the texts over. What
a logger is for is said without objects: a chain of fields, the latest in front, and an
entry reads every name at the first of them that has it.
-/

namespace Runlet.Logger

open Identity JsObject Logs Matching Placeholders TextCodec

variable {V : Type}

/-- What the script engine makes of values at the time of a call. -/
structure Engine (V : Type) where
  nullish : V → Bool
  isObject : V → Bool
  /-- `String`; what it throws on is a property `stringifyAll` throws on too -/
  toText : V → CodeUnits
  /-- `JSON.stringify`, where it does not throw (`undefined` as the text that stands for it) -/
  stringify : V → Option CodeUnits
  /-- `JSON.stringify` of the properties; `none` where it throws, as on a cycle or a big
  integer, or gives no text -/
  stringifyAll : Obj V → Option String

def levelNum : LogLevel → Nat
  | .trace => 0
  | .debug => 1
  | .info => 2
  | .warn => 3
  | .error => 4

def levelName : LogLevel → String
  | .trace => "trace"
  | .debug => "debug"
  | .info => "info"
  | .warn => "warn"
  | .error => "error"

theorem parse_levelName (level : LogLevel) : LogLevel.parse (levelName level) = some level := by
  cases level <;> rfl

def copyInto (realm : Realm V) (src : Option (Obj V)) (out : Obj V) : Obj V :=
  match src with
  | some o => copyKeys realm o o.keys out
  | none => out

def merge (realm : Realm V) (bound extra : Option (Obj V)) : Obj V :=
  copyInto realm extra (copyInto realm bound .fresh)

/-! ### Rendering -/

/-- `\w` -/
def isWord (u : UInt16) : Bool :=
  (48 ≤ u && u ≤ 57) || (65 ≤ u && u ≤ 90) || u == 95 || (97 ≤ u && u ≤ 122)

/-- `/\{(\w+)\}/` -/
def placeholder : Pattern UInt16 := hole 123 125 isWord

def Engine.shown (engine : Engine V) (value : V) : CodeUnits :=
  if engine.nullish value then engine.toText value
  else if engine.isObject value then (engine.stringify value).getD (engine.toText value)
  else engine.toText value

/-- The name in a placeholder that was found. -/
def keyOf (found : CodeUnits) : String := (ofUnits found.tail.dropLast).getD ""

/-- A placeholder by a lookup; an unknown one is left. -/
def replacement (engine : Engine V) (lookup : String → Option V) (found : CodeUnits) : CodeUnits :=
  match lookup (keyOf found) with
  | none => found
  | some value => engine.shown value

def render (engine : Engine V) (template : CodeUnits) (props : Obj V) : CodeUnits :=
  placeholder.replaceAll (replacement engine props.get?) template

/-! ### Calls -/

/-- The native side of an execution. -/
structure Sink where
  floor : LogLevel
  limits : LogLimits
  recordTiming : Bool

/-- `__log` -/
def nativeLog (sink : Sink) (acc : LogAccumulator LogLevel)
    (level template propertiesJson message : String) (elapsed : Nat) : LogAccumulator LogLevel :=
  captureLog sink.limits acc
    { level := (LogLevel.parse level).getD .info
      template := template
      propertiesJson := propertiesJson
      message := message
      offsetUs := if sink.recordTiming then some elapsed else none }

/-- A call of `log.<level>`: the template is what `String` makes of the argument, `none`
where it throws. -/
structure Call (V : Type) where
  level : LogLevel
  template : Option CodeUnits
  props : Option (Obj V)
  engine : Engine V
  elapsed : Nat

/-- Where a text cannot be made, or has half a surrogate pair for the bridge, the call
throws and nothing is recorded. -/
def record (realm : Realm V) (sink : Sink) (acc : LogAccumulator LogLevel)
    (bound : Option (Obj V)) (call : Call V) : LogAccumulator LogLevel :=
  if levelNum call.level < levelNum sink.floor then acc
  else
    let merged := merge realm bound call.props
    let message := call.template.map fun template => render call.engine template merged
    match call.template.bind ofUnits, call.engine.stringifyAll merged, message.bind ofUnits with
    | some template, some propertiesJson, some message =>
        nativeLog sink acc (levelName call.level) template propertiesJson message call.elapsed
    | _, _, _ => acc

/-- The contexts of the loggers made so far, the root's first, and the buffer. -/
structure State (V : Type) where
  loggers : List (Option (Obj V))
  buffer : LogAccumulator LogLevel

def State.initial : State V := ⟨[none], .empty⟩

inductive Action (V : Type) where
  | derive (logger : Nat) (fields : Option (Obj V))
  | log (logger : Nat) (call : Call V)

/-- One call of a method of a logger. -/
def step (realm : Realm V) (sink : Sink) (s : State V) : Action V → State V
  | .derive logger fields =>
      match s.loggers[logger]? with
      | some context => { s with loggers := s.loggers ++ [some (merge realm context fields)] }
      | none => s
  | .log logger call =>
      match s.loggers[logger]? with
      | some context => { s with buffer := record realm sink s.buffer context call }
      | none => s

def run (realm : Realm V) (sink : Sink) (actions : List (Action V)) : State V :=
  actions.foldl (step realm sink) .initial

/-! ### Rendering, piece by piece -/

def fillTemplate (engine : Engine V) (lookup : String → Option V) (template : CodeUnits) :
    CodeUnits :=
  fill (holeFront 123 125 isWord) (replacement engine lookup) template

theorem render_eq (engine : Engine V) (template : CodeUnits) (props : Obj V) :
    render engine template props = fillTemplate engine props.get? template :=
  replaceAll_local (hole_local (by decide)) template

def nameUnits (name : String) : CodeUnits := encode16 name.toList

def IsName (name : String) : Prop := nameUnits name ≠ [] ∧ ∀ u ∈ nameUnits name, isWord u = true

def braced (name : String) : CodeUnits := 123 :: (nameUnits name ++ [125])

/-- What stands for a placeholder in the message. -/
def inserted (engine : Engine V) (lookup : String → Option V) (name : String) : CodeUnits :=
  match lookup name with
  | none => braced name
  | some value => engine.shown value

theorem replacement_braced (engine : Engine V) (lookup : String → Option V) (name : String) :
    replacement engine lookup (braced name) = inserted engine lookup name := by
  have hunits : ofUnits (nameUnits name) = some name := ofUnits_eq_some.mpr rfl
  have hkey : keyOf (braced name) = name := by
    simp [keyOf, braced, hunits]
  rw [replacement, hkey]
  rfl

/-- How a template is rendered: it comes apart at every opening brace, a placeholder gives
what its name has, and a brace that opens none is kept. -/
structure Renders (engine : Engine V) (lookup : String → Option V)
    (f : CodeUnits → CodeUnits) : Prop where
  cut : ∀ front back, f (front ++ 123 :: back) = f front ++ f (123 :: back)
  plain : ∀ text, 123 ∉ text → f text = text
  known : ∀ name back, IsName name → f (braced name ++ back) = inserted engine lookup name ++ f back
  stray : ∀ back, (∀ name rest, IsName name → 123 :: back ≠ braced name ++ rest) →
    f (123 :: back) = 123 :: f back

/-- Units of names are texts. -/
theorem text_of_words (units : CodeUnits) (h : ∀ u ∈ units, isWord u = true) :
    ∃ name, nameUnits name = units := by
  suffices hdecode : ∃ chars, decode16 units = some chars by
    obtain ⟨chars, hchars⟩ := hdecode
    refine ⟨String.ofList chars, ?_⟩
    rw [nameUnits, String.toList_ofList]
    exact encode16_of_decode16 hchars
  induction units with
  | nil => exact ⟨[], rfl⟩
  | cons u units ih =>
      obtain ⟨hu, hunits⟩ := List.forall_mem_cons.mp h
      obtain ⟨chars, hchars⟩ := ih hunits
      have hsmall : u.toNat ≤ 122 := by
        simp only [isWord, Bool.or_eq_true, Bool.and_eq_true, decide_eq_true_eq, beq_iff_eq,
          UInt16.le_iff_toNat_le] at hu
        rcases hu with ((⟨-, hu⟩ | ⟨-, hu⟩) | hu) | ⟨-, hu⟩
        · exact hu.trans (by decide)
        · exact hu.trans (by decide)
        · rw [hu]
          decide
        · exact hu
      refine ⟨Char.ofNat u.toNat :: chars, ?_⟩
      rw [decode16_plain, hchars, Option.map_some]
      · unfold isHigh
        omega
      · unfold isLow
        omega

/-- What the pattern takes for a placeholder is one. -/
theorem holeFront_braced {back : CodeUnits} {n : Nat}
    (h : holeFront 123 125 isWord (123 :: back) = some n) :
    ∃ name rest, IsName name ∧ 123 :: back = braced name ++ rest := by
  obtain ⟨⟨-, hrun, hclosing⟩, -⟩ := Option.ite_none_right_eq_some.mp h
  have hclass : ∀ u ∈ back.takeWhile isWord, isWord u = true :=
    fun u hu => List.mem_takeWhile_imp hu
  obtain ⟨name, hname⟩ := text_of_words _ hclass
  obtain ⟨rest, hrest⟩ : ∃ rest, back.drop (back.takeWhile isWord).length = 125 :: rest := by
    cases hdrop : back.drop (back.takeWhile isWord).length with
    | nil => simp [hdrop] at hclosing
    | cons u rest =>
        rw [hdrop, List.head?_cons, Option.some.injEq] at hclosing
        exact ⟨rest, by rw [hclosing]⟩
  refine ⟨name, rest, ⟨by rw [hname]; exact hrun, by rw [hname]; exact hclass⟩, ?_⟩
  have hback : back.takeWhile isWord ++ 125 :: rest = back := by
    rw [← hrest]
    exact List.prefix_iff_eq_append.mp (List.takeWhile_prefix isWord)
  rw [braced, hname, List.cons_append, List.append_assoc, List.singleton_append, hback]

theorem renders_fillTemplate (engine : Engine V) (lookup : String → Option V) :
    Renders engine lookup (fillTemplate engine lookup) where
  cut front back := fill_append (by decide) (by decide) (by decide) front back
  plain text h := fill_plain h
  known name back h := by
    have hshape : braced name ++ back = 123 :: (nameUnits name ++ 125 :: back) := by
      simp [braced]
    rw [fillTemplate, hshape, fill_hole (by decide) h.1 h.2]
    exact congrArg (· ++ fillTemplate engine lookup back) (replacement_braced engine lookup name)
  stray back h := by
    apply fill_miss
    cases hfront : holeFront 123 125 isWord (123 :: back) with
    | none => rfl
    | some n =>
        obtain ⟨name, rest, hname, heq⟩ := holeFront_braced hfront
        exact absurd heq (h name rest hname)

/-- Nothing else renders a template so. -/
theorem Renders.unique {engine : Engine V} {lookup : String → Option V}
    {f g : CodeUnits → CodeUnits} (hf : Renders engine lookup f) (hg : Renders engine lookup g)
    (template : CodeUnits) : f template = g template := by
  induction hlength : template.length using Nat.strongRecOn generalizing template with
  | ind length ih =>
      by_cases hmem : 123 ∈ template
      · obtain ⟨front, back, rfl, hplain⟩ := List.eq_append_cons_of_mem hmem
        have hback : f (123 :: back) = g (123 :: back) := by
          by_cases hplace : ∃ name rest, IsName name ∧ 123 :: back = braced name ++ rest
          · obtain ⟨name, rest, hname, heq⟩ := hplace
            have hshort : rest.length < length := by
              have hsize := congrArg List.length heq
              simp only [braced, List.length_append, List.length_cons] at hsize hlength
              omega
            rw [heq, hf.known name rest hname, hg.known name rest hname, ih _ hshort rest rfl]
          · have hstray : ∀ name rest, IsName name → 123 :: back ≠ braced name ++ rest :=
              fun name rest hname heq => hplace ⟨name, rest, hname, heq⟩
            have hshort : back.length < length := by
              simp only [List.length_append, List.length_cons] at hlength
              omega
            rw [hf.stray back hstray, hg.stray back hstray, ih _ hshort back rfl]
        rw [hf.cut, hg.cut, hf.plain front hplain, hg.plain front hplain, hback]
      · rw [hf.plain template hmem, hg.plain template hmem]

/-- The message of a call is its template, rendered. -/
theorem renders_iff (engine : Engine V) (props : Obj V) (f : CodeUnits → CodeUnits) :
    Renders engine props.get? f ↔ f = fun template => render engine template props := by
  have hrender : (fun template => render engine template props) =
      fillTemplate engine props.get? := by
    funext template
    exact render_eq engine template props
  rw [hrender]
  constructor
  · intro hf
    funext template
    exact hf.unique (renders_fillTemplate engine props.get?) template
  · rintro rfl
    exact renders_fillTemplate engine props.get?

/-! ### What a logger is for -/

/-- The fields given to a logger, the latest first. -/
abbrev Chain (V : Type) := List (Obj V)

/-- The first that has the name; `__proto__` names no property. -/
def find (chain : Chain V) (key : String) : Option V :=
  if key = "__proto__" then none else chain.findSome? fun fields => fields.get? key

structure Entry (V : Type) where
  level : LogLevel
  template : Option CodeUnits
  fields : Chain V
  engine : Engine V
  elapsed : Nat

def Entry.message (entry : Entry V) : Option CodeUnits :=
  entry.template.map (fillTemplate entry.engine (find entry.fields))

/-- An entry, with what writing its properties gave. -/
structure Spoken (V : Type) where
  entry : Entry V
  properties : Option String

/-- It is what the engine makes of an object with the fields of the entry. -/
def Spoken.Written (spoken : Spoken V) : Prop :=
  ∃ merged : Obj V, (∀ key, merged.get? key = find spoken.entry.fields key) ∧
    spoken.entry.engine.stringifyAll merged = spoken.properties

/-- The call reaches the native side: it is at or above the floor, and its three texts
are there and are texts. -/
def Spoken.Accepted (sink : Sink) (spoken : Spoken V) : Bool :=
  decide (levelNum sink.floor ≤ levelNum spoken.entry.level) &&
    (spoken.entry.template.bind ofUnits).isSome && spoken.properties.isSome &&
    (spoken.entry.message.bind ofUnits).isSome

structure Plan (V : Type) where
  chains : List (Chain V)
  entries : List (Entry V)

def planStep (plan : Plan V) : Action V → Plan V
  | .derive logger fields =>
      match plan.chains[logger]? with
      | some chain => { plan with chains := plan.chains ++ [fields.toList ++ chain] }
      | none => plan
  | .log logger call =>
      match plan.chains[logger]? with
      | some chain => { plan with
          entries := plan.entries ++ [⟨call.level, call.template, call.props.toList ++ chain,
            call.engine, call.elapsed⟩] }
      | none => plan

def planOf (actions : List (Action V)) : Plan V := actions.foldl planStep ⟨[[]], []⟩

/-- What is handed over for an entry. -/
structure HandedOver (sink : Sink) (spoken : Spoken V) (pending : PendingLog LogLevel) :
    Prop where
  level : pending.level = spoken.entry.level
  template : spoken.entry.template.bind ofUnits = some pending.template
  message : spoken.entry.message.bind ofUnits = some pending.message
  properties : spoken.properties = some pending.propertiesJson
  offset : pending.offsetUs = if sink.recordTiming then some spoken.entry.elapsed else none

/-! ### Contexts -/

/-- A context with the properties of a chain. -/
def Holds (context : Option (Obj V)) (chain : Chain V) : Prop :=
  ∀ key, (context.bind fun o => o.get? key) = find chain key

theorem find_cons (fields : Obj V) (chain : Chain V) (key : String) :
    find (fields :: chain) key =
      if key = "__proto__" then none else (fields.get? key).or (find chain key) := by
  unfold find
  split
  · rfl
  · rw [List.findSome?_cons]
    cases fields.get? key <;> rfl

/-- A copy over what is there already. -/
theorem copyInto_get? (realm : Realm V) (src : Option (Obj V)) (out : Obj V)
    (hopen : out.Open realm) (key : String) :
    (copyInto realm src out).get? key =
      if key = "__proto__" then none
      else (src.bind fun o => o.get? key).or (out.get? key) := by
  cases src with
  | none =>
      split
      · next hkey =>
          rw [hkey]
          exact hopen.1
      · rfl
  | some o => exact copyKeys_all realm o out hopen key

theorem merge_get? (realm : Realm V) {context : Option (Obj V)} {chain : Chain V}
    (hholds : Holds context chain) (fields : Option (Obj V)) (key : String) :
    (merge realm context fields).get? key = find (fields.toList ++ chain) key := by
  have hproto : ∀ o ∈ context, o.get? "__proto__" = none := by
    intro o ho
    have hget := hholds "__proto__"
    rw [Option.mem_def.mp ho] at hget
    exact hget
  have hopen : (copyInto realm context .fresh).Open realm := by
    cases context with
    | none => exact fresh_open realm
    | some o => exact copyKeys_open realm o (hproto o rfl) o.keys .fresh (fresh_open realm)
  have hbound : ∀ k, (copyInto realm context .fresh).get? k = find chain k := by
    intro k
    rw [copyInto_get? realm context .fresh (fresh_open realm), hholds, fresh_get?,
      Option.or_none]
    unfold find
    split <;> rfl
  rw [merge, copyInto_get? realm fields _ hopen, hbound]
  cases fields with
  | none =>
      unfold find
      split <;> rfl
  | some o =>
      rw [Option.toList_some, List.singleton_append, find_cons]
      rfl

theorem holds_root : Holds (V := V) none [] := by
  intro key
  unfold find
  split <;> rfl

/-! ### One call and whole runs -/

theorem accepted_iff {sink : Sink} {spoken : Spoken V} :
    spoken.Accepted sink = true ↔ levelNum sink.floor ≤ levelNum spoken.entry.level ∧
      (∃ template, spoken.entry.template.bind ofUnits = some template) ∧
      (∃ properties, spoken.properties = some properties) ∧
      ∃ message, spoken.entry.message.bind ofUnits = some message := by
  simp only [Spoken.Accepted, Bool.and_eq_true, decide_eq_true_eq, Option.isSome_iff_exists,
    and_assoc]

/-- A call is captured as the entry it makes, or leaves the buffer as it is. -/
theorem record_entry (realm : Realm V) (sink : Sink) (acc : LogAccumulator LogLevel)
    {context : Option (Obj V)} {chain : Chain V} (hholds : Holds context chain) (call : Call V)
    {entry : Entry V} (hentry : entry =
      ⟨call.level, call.template, call.props.toList ++ chain, call.engine, call.elapsed⟩) :
    ∃ properties, Spoken.Written ⟨entry, properties⟩ ∧
      ((Spoken.Accepted sink ⟨entry, properties⟩ = true ∧
        ∃ pending, HandedOver sink ⟨entry, properties⟩ pending ∧
          record realm sink acc context call = captureLog sink.limits acc pending) ∨
      (Spoken.Accepted sink ⟨entry, properties⟩ = false ∧
        record realm sink acc context call = acc)) := by
  have hmerged := merge_get? realm hholds call.props
  have hmessage : (call.template.map fun template =>
      render call.engine template (merge realm context call.props)) = entry.message := by
    rw [Entry.message, hentry]
    apply congrArg (fun f => call.template.map f)
    funext template
    rw [render_eq]
    exact congrArg (fun lookup => fillTemplate call.engine lookup template) (funext hmerged)
  have htemplate : entry.template = call.template := by rw [hentry]
  have hlevel : entry.level = call.level := by rw [hentry]
  refine ⟨call.engine.stringifyAll (merge realm context call.props), ?_, ?_⟩
  · rw [hentry]
    exact ⟨_, hmerged, rfl⟩
  unfold record
  split
  · next hbelow =>
      right
      refine ⟨?_, rfl⟩
      rw [← Bool.not_eq_true, accepted_iff, hlevel]
      rintro ⟨hle, -⟩
      omega
  · next hfloor =>
      simp only [hmessage]
      split
      · next template propertiesJson message htext hwritten hcrosses =>
          left
          refine ⟨?_, _, ?_, rfl⟩
          · rw [accepted_iff, hlevel, htemplate]
            exact ⟨Nat.le_of_not_lt hfloor, ⟨_, htext⟩, ⟨_, hwritten⟩, _, hcrosses⟩
          · exact
              { level := by rw [parse_levelName, hlevel]; rfl
                template := by rw [htemplate]; exact htext
                message := hcrosses
                properties := hwritten
                offset := by rw [hentry] }
      · next hmissing =>
          right
          refine ⟨?_, rfl⟩
          rw [← Bool.not_eq_true, accepted_iff, htemplate]
          rintro ⟨-, ⟨template, htext⟩, ⟨properties, hwritten⟩, ⟨message, hcrosses⟩⟩
          exact hmissing template properties message htext hwritten hcrosses

/-- The loggers have the fields they were given, and the buffer the accepted calls. -/
structure Follows (sink : Sink) (s : State V) (plan : Plan V) : Prop where
  contexts : List.Forall₂ Holds s.loggers plan.chains
  buffer : ∃ spoken : List (Spoken V), spoken.map Spoken.entry = plan.entries ∧
    (∀ call ∈ spoken, call.Written) ∧
    ∃ pendings, List.Forall₂ (HandedOver sink) (spoken.filter (Spoken.Accepted sink)) pendings ∧
      s.buffer = captureAll sink.limits pendings

theorem initial_follows (sink : Sink) : Follows sink (State.initial : State V) ⟨[[]], []⟩ where
  contexts := .cons holds_root .nil
  buffer := ⟨[], rfl, fun _ h => absurd h List.not_mem_nil, [], .nil, rfl⟩

theorem forall₂_getElem? {α β : Type} {R : α → β → Prop} {xs : List α} {ys : List β}
    (h : List.Forall₂ R xs ys) (i : Nat) :
    (xs[i]? = none ∧ ys[i]? = none) ∨ ∃ x y, xs[i]? = some x ∧ ys[i]? = some y ∧ R x y := by
  induction h generalizing i with
  | nil => exact .inl ⟨rfl, rfl⟩
  | cons hxy _ ih =>
      cases i with
      | zero => exact .inr ⟨_, _, rfl, rfl, hxy⟩
      | succ i => exact ih i

theorem step_follows (realm : Realm V) {sink : Sink} {s : State V} {plan : Plan V}
    (h : Follows sink s plan) (action : Action V) :
    Follows sink (step realm sink s action) (planStep plan action) := by
  cases action with
  | derive logger fields =>
      rcases forall₂_getElem? h.contexts logger with
        ⟨hnone, hnone'⟩ | ⟨context, chain, hcontext, hchain, hholds⟩
      · simp only [step, planStep, hnone, hnone']
        exact h
      · simp only [step, planStep, hcontext, hchain]
        refine ⟨?_, h.buffer⟩
        apply List.rel_append h.contexts
        exact .cons (merge_get? realm hholds fields) .nil
  | log logger call =>
      rcases forall₂_getElem? h.contexts logger with
        ⟨hnone, hnone'⟩ | ⟨context, chain, hcontext, hchain, hholds⟩
      · simp only [step, planStep, hnone, hnone']
        exact h
      · simp only [step, planStep, hcontext, hchain]
        refine ⟨h.contexts, ?_⟩
        obtain ⟨spoken, hspoken, hwritten, pendings, hpendings, hbuffer⟩ := h.buffer
        obtain ⟨properties, hproperties, houtcome⟩ :=
          record_entry realm sink s.buffer hholds call rfl
        refine ⟨spoken ++ [⟨_, properties⟩], by rw [List.map_append, hspoken]; rfl, ?_, ?_⟩
        · intro other hother
          rcases List.mem_append.mp hother with hold | hnew
          · exact hwritten other hold
          · rw [List.mem_singleton.mp hnew]
            exact hproperties
        simp only [List.filter_append]
        rcases houtcome with ⟨haccepted, pending, hpending, hrecord⟩ | ⟨hrefused, hrecord⟩
        · refine ⟨pendings ++ [pending], ?_, ?_⟩
          · rw [List.filter_cons_of_pos haccepted]
            exact List.rel_append hpendings (.cons hpending .nil)
          · rw [hrecord, hbuffer, captureAll_append]
        · refine ⟨pendings, ?_, ?_⟩
          · rw [List.filter_cons_of_neg (by simp [hrefused]), List.filter_nil, List.append_nil]
            exact hpendings
          · rw [hrecord, hbuffer]

/-- What the loggers of a script leave in the buffer. -/
theorem run_follows (realm : Realm V) (sink : Sink) (actions : List (Action V)) :
    Follows sink (run realm sink actions) (planOf actions) := by
  unfold run planOf
  suffices hmore : ∀ (s : State V) (plan : Plan V), Follows sink s plan →
      Follows sink (actions.foldl (step realm sink) s) (actions.foldl planStep plan) by
    exact hmore _ _ (initial_follows sink)
  induction actions with
  | nil => exact fun s plan h => h
  | cons action actions ih => exact fun s plan h => ih _ _ (step_follows realm h action)

end Runlet.Logger
