import ContractDocs.Proofs.LinkLines
import ContractDocs.Proofs.TomlTables
import Mathlib.Data.List.Sort
import Mathlib.Data.String.Basic

/-! Settings and the keys of a document. Every setting has what its own key gives it, whatever else
the document says, and the keys that belong to no setting are reported. -/

namespace ContractDocs.Settings

open Toml (Members Value)

/-- The settings, with the types of their values. -/
inductive Field : Type → Type
  | lookupMode : Field LookupMode
  | overridden : Field String
  | overriddenMarker : Field String
  | extending : Field String
  | derivedContracts : Field String
  | referenceSeparator : Field String
  | listSeparator : Field String
  | buildDir : Field Path
  | template : Field (Option Path)
  | includeAbi : Field Bool
  | writeIndex : Field Bool
  | level : Field LogLevel
  | file : Field (Option Path)

/-- A choice is given by its name, or by a table with the name as its only key and nothing behind
the key. -/
inductive Chooses : Value → String → Prop
  | name (name : String) : Chooses (.string name) name
  | table (outer inner : Toml.Origin) (name : String) :
      Chooses (.table outer [(name, .table inner [])]) name
  | array (outer : Toml.Origin) (name : String) : Chooses (.table outer [(name, .array [])]) name

def modeNames : List (String × LookupMode) :=
  [("exhaustive", .exhaustive), ("firstBranch", .firstBranch)]

def levelNames : List (String × LogLevel) :=
  [("error", .error), ("warn", .warn), ("warning", .warn), ("info", .info), ("debug", .debug),
    ("trace", .trace)]

namespace Field

variable {α : Type}

def value : Field α → Settings → α
  | lookupMode, s => s.lookupMode
  | overridden, s => s.messages.overridden
  | overriddenMarker, s => s.messages.overriddenMarker
  | extending, s => s.messages.extending
  | derivedContracts, s => s.messages.derivedContracts
  | referenceSeparator, s => s.messages.referenceSeparator
  | listSeparator, s => s.messages.listSeparator
  | buildDir, s => s.output.buildDir
  | template, s => s.output.template
  | includeAbi, s => s.output.includeAbi
  | writeIndex, s => s.output.writeIndex
  | level, s => s.logging.level
  | file, s => s.logging.file

/-- The section and the key of a setting. -/
def place : Field α → String × String
  | lookupMode => ("resolve", "lookupMode")
  | overridden => ("messages", "overridden")
  | overriddenMarker => ("messages", "overriddenMarker")
  | extending => ("messages", "extends")
  | derivedContracts => ("messages", "derivedContracts")
  | referenceSeparator => ("messages", "referenceSeparator")
  | listSeparator => ("messages", "listSeparator")
  | buildDir => ("output", "buildDir")
  | template => ("output", "template")
  | includeAbi => ("output", "includeAbi")
  | writeIndex => ("output", "writeIndex")
  | level => ("logging", "level")
  | file => ("logging", "file")

/-- What a value means for a setting. -/
def Means : Field α → Value → α → Prop
  | lookupMode, v, chosen => ∃ name, Chooses v name ∧ (name, chosen) ∈ modeNames
  | level, v, chosen => ∃ name, Chooses v name ∧ (name, chosen) ∈ levelNames
  | overridden, v, text | overriddenMarker, v, text | extending, v, text
  | derivedContracts, v, text | referenceSeparator, v, text | listSeparator, v, text =>
    v = .string text
  | buildDir, v, path => v = .string path.text
  | template, v, path | file, v, path => ∃ text, v = .string text ∧ path = some ⟨text⟩
  | includeAbi, v, flag | writeIndex, v, flag => v = .boolean flag

/-- What makes sense as the value of a setting. -/
def Accepts : Field α → α → Prop
  | overridden, text | extending, text | derivedContracts, text =>
    Text.Holds text "\x7b0\x7d"
  | buildDir, path => path ≠ ⟨""⟩
  | template, path | file, path => path ≠ some ⟨""⟩
  | _, _ => True

end Field

/-- A value under a key of a section. A date is a section too, with its text under a key that marks
it as a date. -/
inductive Inside : Value → String → Value → Prop
  | member {origin : Toml.Origin} {members : Members} {key : String} {v : Value} :
      (key, v) ∈ members → Inside (.table origin members) key v
  | date (text : String) : Inside (.datetime text) "$__toml_private_datetime" (.string text)

/-- A value under a key of a section of the document. -/
def Stands (document : Members) (name key : String) (v : Value) : Prop :=
  ∃ s, (name, s) ∈ document ∧ Inside s key v

/-- The setting has what its key gives, or the default. -/
structure Field.ReadFrom {α : Type} (f : Field α) (document : Members) (s : Settings) : Prop where
  given : ∀ v, Stands document f.place.1 f.place.2 v → ∃ a, f.Means v a ∧
    (f.Accepts a → f.value s = a) ∧ (¬ f.Accepts a → f.value s = f.value {})
  absent : (∀ v, ¬ Stands document f.place.1 f.place.2 v) → f.value s = f.value {}

/-- Two documents give the setting the same value, or both none. -/
def Field.SameIn {α : Type} (f : Field α) (document other : Members) : Prop :=
  ∀ v, Stands document f.place.1 f.place.2 v ↔ Stands other f.place.1 f.place.2 v

theorem setting?_eq_some {α : Type} {decode : Value → Option α} {members : Members} {key : String}
    {o : Option α} (h : setting? decode members key = some o) :
    members.lookup key = none ∧ o = none ∨
      ∃ v a, members.lookup key = some v ∧ decode v = some a ∧ o = some a := by
  unfold setting? at h
  split at h
  next hnone =>
    exact .inl ⟨hnone, (Option.some.inj h).symm⟩
  next v hv =>
    obtain ⟨a, ha, rfl⟩ := Option.map_eq_some_iff.mp h
    exact .inr ⟨v, a, hv, ha, rfl⟩

theorem chooses_of_choiceName? {v : Value} {name : String} (h : choiceName? v = some name) :
    Chooses v name := by
  unfold choiceName? at h
  split at h
  next text =>
    obtain rfl := Option.some.inj h
    exact .name text
  next outer key inner =>
    obtain rfl := Option.some.inj h
    exact .table outer inner key
  next outer key =>
    obtain rfl := Option.some.inj h
    exact .array outer key
  next => cases h

theorem lookupMode?_means {v : Value} {mode : LookupMode} (h : lookupMode? v = some mode) :
    Field.lookupMode.Means v mode := by
  simp only [lookupMode?, bind, Option.bind_eq_some_iff] at h
  obtain ⟨name, hname, hmode⟩ := h
  refine ⟨name, chooses_of_choiceName? hname, ?_⟩
  split at hmode <;> simp_all [modeNames]

theorem logLevel?_means {v : Value} {level : LogLevel} (h : logLevel? v = some level) :
    Field.level.Means v level := by
  simp only [logLevel?, bind, Option.bind_eq_some_iff] at h
  obtain ⟨name, hname, hlevel⟩ := h
  refine ⟨name, chooses_of_choiceName? hname, ?_⟩
  split at hlevel <;> simp_all [levelNames]

theorem eq_of_text? {v : Value} {text : String} (h : text? v = some text) : v = .string text := by
  cases v with
  | string s => rw [Option.some.inj h]
  | _ => cases h

theorem eq_of_flag? {v : Value} {flag : Bool} (h : flag? v = some flag) : v = .boolean flag := by
  cases v with
  | boolean b => rw [Option.some.inj h]
  | _ => cases h

theorem Chooses.unique {v : Value} {a b : String} (ha : Chooses v a) (hb : Chooses v b) :
    a = b := by
  cases ha <;> cases hb <;> rfl

theorem eq_of_chooses {α : Type} {names : List (String × α)} (hnames : (names.map (·.1)).Nodup)
    {v : Value} {a b : α} (ha : ∃ name, Chooses v name ∧ (name, a) ∈ names)
    (hb : ∃ name, Chooses v name ∧ (name, b) ∈ names) : a = b := by
  obtain ⟨name, hname, ha⟩ := ha
  obtain ⟨other, hother, hb⟩ := hb
  obtain rfl := hname.unique hother
  exact eq_of_mem_of_mem hnames ha hb

theorem Field.Means.unique {α : Type} {f : Field α} {v : Value} {a b : α} (ha : f.Means v a)
    (hb : f.Means v b) : a = b := by
  cases f with
  | lookupMode => exact eq_of_chooses (by decide) ha hb
  | level => exact eq_of_chooses (by decide) ha hb
  | buildDir => exact congrArg Path.mk (Value.string.inj (Eq.trans (Eq.symm ha) hb))
  | template | file =>
    obtain ⟨_, hv, rfl⟩ := ha
    obtain ⟨_, hv', rfl⟩ := hb
    rw [Value.string.inj (hv.symm.trans hv')]
  | includeAbi | writeIndex => exact Value.boolean.inj (Eq.trans (Eq.symm ha) hb)
  | _ => exact Value.string.inj (Eq.trans (Eq.symm ha) hb)

theorem inside_iff {s : Value} {key : String} {v : Value} :
    Inside s key v ↔ ∃ members, section? s = some members ∧ (key, v) ∈ members := by
  constructor
  · rintro (hmem | text)
    · exact ⟨_, rfl, hmem⟩
    · exact ⟨_, rfl, List.mem_singleton.mpr rfl⟩
  · rintro ⟨members, hs, hmem⟩
    unfold section? at hs
    split at hs
    next =>
      obtain rfl := Option.some.inj hs
      exact .member hmem
    next text =>
      obtain rfl := Option.some.inj hs
      obtain ⟨rfl, rfl⟩ := Prod.mk.inj (List.mem_singleton.mp hmem)
      exact .date text
    next => cases hs

theorem nodup_section? {s : Value} (h : s.Distinct) {members : Members}
    (hs : section? s = some members) : (members.map (·.1)).Nodup := by
  cases h with
  | table hnodup =>
    obtain rfl := Option.some.inj hs
    exact hnodup
  | datetime text =>
    obtain rfl := Option.some.inj hs
    simp
  | _ => cases hs

def membersOf (document : Members) (name : String) : Members :=
  (sectionOf? document name).getD []

theorem membersOf_of_lookup {document : Members} {name : String} {s : Value}
    (h : document.lookup name = some s) : membersOf document name = (section? s).getD [] := by
  simp only [membersOf, sectionOf?, setting?, h]
  cases section? s with
  | none => rfl
  | some members => rfl

theorem membersOf_of_absent {document : Members} {name : String}
    (h : document.lookup name = none) : membersOf document name = [] := by
  rw [membersOf, sectionOf?, setting?, h]
  rfl

theorem nodup_membersOf {document : Members} (h : document.Distinct) (name : String) :
    ((membersOf document name).map (·.1)).Nodup := by
  cases hlookup : document.lookup name with
  | none => simp [membersOf_of_absent hlookup]
  | some s =>
    rw [membersOf_of_lookup hlookup]
    cases hs : section? s with
    | none => simp
    | some members => exact nodup_section? (h.of_lookup hlookup) hs

theorem stands_iff {document : Members} (h : document.Distinct) {name key : String} {v : Value} :
    Stands document name key v ↔ (key, v) ∈ membersOf document name := by
  have hmem (s : Value) : document.lookup name = some s ↔ (name, s) ∈ document :=
    lookup_eq_some_iff_mem h.nodup
  constructor
  · rintro ⟨s, hs, hinside⟩
    obtain ⟨members, hmembers, hv⟩ := inside_iff.mp hinside
    rwa [membersOf_of_lookup ((hmem s).mpr hs), hmembers]
  · intro hv
    cases hlookup : document.lookup name with
    | none => simp [membersOf_of_absent hlookup] at hv
    | some s =>
      rw [membersOf_of_lookup hlookup] at hv
      cases hmembers : section? s with
      | none => simp [hmembers] at hv
      | some members =>
        rw [hmembers, Option.getD_some] at hv
        exact ⟨s, (hmem s).mp hlookup, inside_iff.mpr ⟨members, hmembers, hv⟩⟩

namespace Field

variable {α β : Type} {f : Field α} {document members : Members} {s : Settings}

/-- A setting that is decoded and then normalised is read from its key. -/
theorem readFrom_of_setting? (hdistinct : document.Distinct)
    (hsection : sectionOf? document f.place.1 = some members) {decode : Value → Option β}
    {o : Option β} (ho : setting? decode members f.place.2 = some o) (wrap : β → α)
    (hmeans : ∀ {v b}, decode v = some b → f.Means v (wrap b))
    (habsent : o = none → f.value s = f.value {})
    (hgiven : ∀ b, o = some b → (f.Accepts (wrap b) → f.value s = wrap b) ∧
      (¬ f.Accepts (wrap b) → f.value s = f.value {})) : f.ReadFrom document s := by
  have hmembers : membersOf document f.place.1 = members := by
    rw [membersOf, hsection, Option.getD_some]
  have hstands (v : Value) : Stands document f.place.1 f.place.2 v ↔
      members.lookup f.place.2 = some v := by
    rw [stands_iff hdistinct, hmembers, lookup_eq_some_iff_mem]
    exact hmembers ▸ nodup_membersOf hdistinct f.place.1
  rcases setting?_eq_some ho with ⟨hnone, rfl⟩ | ⟨v, b, hv, hb, rfl⟩
  · refine ⟨fun v hv => ?_, fun _ => habsent rfl⟩
    rw [hstands, hnone] at hv
    cases hv
  · refine ⟨fun w hw => ?_, fun hno => absurd ((hstands v).mpr hv) (hno v)⟩
    rw [hstands, hv] at hw
    obtain rfl := Option.some.inj hw
    exact ⟨wrap b, hmeans hb, hgiven b rfl⟩

theorem readFrom_of_getD (hdistinct : document.Distinct)
    (hsection : sectionOf? document f.place.1 = some members) {decode : Value → Option α}
    {o : Option α} (ho : setting? decode members f.place.2 = some o)
    (hmeans : ∀ {v a}, decode v = some a → f.Means v a) (haccepts : ∀ a, f.Accepts a)
    (hvalue : f.value s = o.getD (f.value {})) : f.ReadFrom document s := by
  refine readFrom_of_setting? hdistinct hsection ho id hmeans ?_ ?_
  · rintro rfl
    exact hvalue
  · rintro a rfl
    exact ⟨fun _ => hvalue, fun hnot => absurd (haccepts a) hnot⟩

theorem readFrom_of_templateOr {f : Field String} (hdistinct : document.Distinct)
    (hsection : sectionOf? document f.place.1 = some members) {o : Option String}
    (ho : setting? text? members f.place.2 = some o)
    (hmeans : ∀ {v text}, text? v = some text → f.Means v text)
    (haccepts : ∀ text, f.Accepts text ↔ Text.Holds text messagePlaceholder)
    (hvalue : f.value s = templateOr (f.value {}) o) : f.ReadFrom document s := by
  refine readFrom_of_setting? hdistinct hsection ho id hmeans ?_ ?_
  · rintro rfl
    exact hvalue
  · rintro text rfl
    rw [hvalue, templateOr, haccepts, id, ← Text.contains_iff]
    exact ⟨fun h => if_pos h, fun h => if_neg h⟩

theorem path?_some (text : String) :
    path? (some text) = if text = "" then none else some ⟨text⟩ := by
  by_cases h : text = ""
  · simp [path?, h]
  · simp [path?, h]

theorem readFrom_of_path? {f : Field (Option Path)} (hdistinct : document.Distinct)
    (hsection : sectionOf? document f.place.1 = some members) {o : Option String}
    (ho : setting? text? members f.place.2 = some o)
    (hmeans : ∀ {v text}, text? v = some text → f.Means v (some ⟨text⟩))
    (haccepts : ∀ path, f.Accepts path ↔ path ≠ some ⟨""⟩) (hvalue : f.value s = path? o)
    (hdefault : f.value {} = none) : f.ReadFrom document s := by
  refine readFrom_of_setting? hdistinct hsection ho (fun text => some ⟨text⟩) hmeans ?_ ?_
  · rintro rfl
    rw [hvalue, hdefault]
    rfl
  · rintro text rfl
    rw [hvalue, path?_some, hdefault, haccepts]
    by_cases h : text = ""
    · simp [h]
    · simp [h]

end Field

theorem readFrom_of_ofDocument? {document : Members} (hdistinct : document.Distinct) {s : Settings}
    (h : ofDocument? document = some s) {α : Type} (f : Field α) : f.ReadFrom document s := by
  simp only [ofDocument?, bind, Option.bind_eq_some_iff, pure, Option.some.injEq] at h
  obtain ⟨_, hresolve, _, hmode, _, hmessages, m, hm, _, houtput, o, ho, _, hlogging, l, hl, rfl⟩ :=
    h
  simp only [messages?, bind, Option.bind_eq_some_iff, pure, Option.some.injEq] at hm
  obtain ⟨_, hoverridden, _, hmarker, _, hextending, _, hderived, _, hreference, _, hlist, rfl⟩ :=
    hm
  simp only [output?, bind, Option.bind_eq_some_iff, pure, Option.some.injEq] at ho
  obtain ⟨_, hbuild, _, htemplate, _, habi, _, hindex, rfl⟩ := ho
  simp only [logging?, bind, Option.bind_eq_some_iff, pure, Option.some.injEq] at hl
  obtain ⟨_, hlevel, _, hfile, rfl⟩ := hl
  cases f with
  | lookupMode =>
    exact Field.readFrom_of_getD hdistinct hresolve hmode lookupMode?_means (fun _ => trivial) rfl
  | overridden =>
    exact Field.readFrom_of_templateOr hdistinct hmessages hoverridden eq_of_text?
      (fun _ => .rfl) rfl
  | overriddenMarker =>
    exact Field.readFrom_of_getD hdistinct hmessages hmarker eq_of_text? (fun _ => trivial) rfl
  | extending =>
    exact Field.readFrom_of_templateOr hdistinct hmessages hextending eq_of_text?
      (fun _ => .rfl) rfl
  | derivedContracts =>
    exact Field.readFrom_of_templateOr hdistinct hmessages hderived eq_of_text? (fun _ => .rfl) rfl
  | referenceSeparator =>
    exact Field.readFrom_of_getD hdistinct hmessages hreference eq_of_text? (fun _ => trivial) rfl
  | listSeparator =>
    exact Field.readFrom_of_getD hdistinct hmessages hlist eq_of_text? (fun _ => trivial) rfl
  | buildDir =>
    refine Field.readFrom_of_setting? hdistinct houtput hbuild Path.mk eq_of_text? ?_ ?_
    · rintro rfl
      rfl
    · rintro text rfl
      by_cases htext : text = ""
      · simp [Field.value, Field.Accepts, Field.path?_some, htext]
      · simp [Field.value, Field.Accepts, Field.path?_some, htext]
  | template =>
    exact Field.readFrom_of_path? hdistinct houtput htemplate (fun h => ⟨_, eq_of_text? h, rfl⟩)
      (fun _ => .rfl) rfl rfl
  | includeAbi =>
    exact Field.readFrom_of_getD hdistinct houtput habi eq_of_flag? (fun _ => trivial) rfl
  | writeIndex =>
    exact Field.readFrom_of_getD hdistinct houtput hindex eq_of_flag? (fun _ => trivial) rfl
  | level =>
    exact Field.readFrom_of_getD hdistinct hlogging hlevel logLevel?_means (fun _ => trivial) rfl
  | file =>
    exact Field.readFrom_of_path? hdistinct hlogging hfile (fun h => ⟨_, eq_of_text? h, rfl⟩)
      (fun _ => .rfl) rfl rfl

/-- A key of the top level, or one of a section. -/
inductive KeyPlace where
  | top (key : String)
  | inside (name key : String)
deriving DecidableEq

namespace KeyPlace

def text : KeyPlace → String
  | top key => key
  | inside name key => name ++ "." ++ key

/-- The key is there and belongs to no setting. -/
def Ignored (document : Members) : KeyPlace → Prop
  | top key => (∃ v, (key, v) ∈ document) ∧ key ∉ ["resolve", "messages", "output", "logging"]
  | inside name key => name ∈ ["resolve", "messages", "output", "logging"] ∧
      (∃ v, Stands document name key v) ∧ ∀ {α : Type} (f : Field α), f.place ≠ (name, key)

end KeyPlace

theorem mem_known_iff {name : String} {known : List String} (h : (name, known) ∈ sections)
    {key : String} : key ∈ known ↔ ∃ (α : Type) (f : Field α), f.place = (name, key) := by
  constructor
  · intro hkey
    simp only [sections, List.mem_cons, Prod.mk.injEq, List.not_mem_nil, or_false] at h
    rcases h with ⟨rfl, rfl⟩ | ⟨rfl, rfl⟩ | ⟨rfl, rfl⟩ | ⟨rfl, rfl⟩
    · obtain rfl : key = "lookupMode" := by simpa [resolveKeys] using hkey
      exact ⟨_, .lookupMode, rfl⟩
    · simp only [messageKeys, List.mem_cons, List.not_mem_nil, or_false] at hkey
      rcases hkey with rfl | rfl | rfl | rfl | rfl | rfl
      · exact ⟨_, .overridden, rfl⟩
      · exact ⟨_, .overriddenMarker, rfl⟩
      · exact ⟨_, .extending, rfl⟩
      · exact ⟨_, .derivedContracts, rfl⟩
      · exact ⟨_, .referenceSeparator, rfl⟩
      · exact ⟨_, .listSeparator, rfl⟩
    · simp only [outputKeys, List.mem_cons, List.not_mem_nil, or_false] at hkey
      rcases hkey with rfl | rfl | rfl | rfl
      · exact ⟨_, .buildDir, rfl⟩
      · exact ⟨_, .template, rfl⟩
      · exact ⟨_, .includeAbi, rfl⟩
      · exact ⟨_, .writeIndex, rfl⟩
    · simp only [loggingKeys, List.mem_cons, List.not_mem_nil, or_false] at hkey
      rcases hkey with rfl | rfl
      · exact ⟨_, .level, rfl⟩
      · exact ⟨_, .file, rfl⟩
  · rintro ⟨α, f, hf⟩
    obtain ⟨rfl, rfl⟩ := Prod.mk.inj hf
    cases f <;> simp [sections] at h <;> subst h <;> decide

def ignoredPlaces (document : Members) : List KeyPlace :=
  (ignoredIn document (sections.map (·.1))).map (fun m => .top m.1) ++
    sections.flatMap fun (name, known) =>
      (ignoredIn (membersOf document name) known).map fun m => .inside name m.1

theorem map_ignoredPlaces (document : Members) :
    (ignoredPlaces document).map KeyPlace.text = (ignored document).map (·.1) := by
  simp [ignoredPlaces, ignored, membersOf, List.map_flatMap, Function.comp_def, KeyPlace.text]

theorem nodup_ignoredIn {members : Members} (h : (members.map (·.1)).Nodup) (known : List String) :
    ((ignoredIn members known).map (·.1)).Nodup :=
  h.sublist (List.filter_sublist.map _)

theorem mem_ignoredIn {members : Members} {known : List String} {m : String × Value} :
    m ∈ ignoredIn members known ↔ m ∈ members ∧ m.1 ∉ known := by
  simp [ignoredIn]

theorem nodup_ignoredPlaces {document : Members} (h : document.Distinct) :
    (ignoredPlaces document).Nodup := by
  have htop : ((ignoredIn document (sections.map (·.1))).map fun m => KeyPlace.top m.1).Nodup := by
    have hkeys := (nodup_ignoredIn h.nodup (sections.map (·.1))).map
      (f := KeyPlace.top) fun a b hab => by simpa using hab
    rwa [List.map_map] at hkeys
  have hinside (name : String) (known : List String) :
      ((ignoredIn (membersOf document name) known).map
        fun m => KeyPlace.inside name m.1).Nodup := by
    have hkeys := (nodup_ignoredIn (nodup_membersOf h name) known).map
      (f := KeyPlace.inside name) fun a b hab => by simpa using hab
    rwa [List.map_map] at hkeys
  have hnames : sections.Pairwise fun a b => a.1 ≠ b.1 := by decide
  refine htop.append (List.nodup_flatMap.mpr ⟨fun x _ => hinside x.1 x.2, ?_⟩) ?_
  -- places in two sections differ in the section's name
  · refine hnames.imp fun {a b} hab p ha hb => ?_
    simp only [List.mem_map] at ha hb
    obtain ⟨_, -, rfl⟩ := ha
    obtain ⟨_, -, heq⟩ := hb
    exact hab (by simpa using (KeyPlace.inside.inj heq).1.symm)
  · intro p htop hinside
    obtain ⟨_, -, rfl⟩ := List.mem_map.mp htop
    simp at hinside

theorem top_mem_ignoredPlaces {document : Members} {key : String} :
    .top key ∈ ignoredPlaces document ↔
      (∃ v, (key, v) ∈ document) ∧ key ∉ sections.map (·.1) := by
  simp [ignoredPlaces, mem_ignoredIn]

theorem inside_mem_ignoredPlaces {document : Members} {name key : String} :
    .inside name key ∈ ignoredPlaces document ↔
      ∃ known, (name, known) ∈ sections ∧ (∃ v, (key, v) ∈ membersOf document name) ∧
        key ∉ known := by
  simp [ignoredPlaces, mem_ignoredIn]

theorem mem_ignoredPlaces {document : Members} (h : document.Distinct) {p : KeyPlace} :
    p ∈ ignoredPlaces document ↔ p.Ignored document := by
  cases p with
  | top key => exact top_mem_ignoredPlaces
  | inside name key =>
    rw [inside_mem_ignoredPlaces]
    simp only [KeyPlace.Ignored, stands_iff h]
    constructor
    · rintro ⟨known, hknown, hv, hkey⟩
      have hname : name ∈ sections.map (·.1) := List.mem_map_of_mem hknown
      exact ⟨hname, hv, fun f hf => hkey ((mem_known_iff hknown).mpr ⟨_, f, hf⟩)⟩
    · rintro ⟨hname, hv, hfields⟩
      have hname : name ∈ sections.map (·.1) := hname
      obtain ⟨⟨_, known⟩, hknown, rfl⟩ := List.mem_map.mp hname
      refine ⟨known, hknown, hv, fun hkey => ?_⟩
      obtain ⟨α, f, hf⟩ := (mem_known_iff hknown).mp hkey
      exact hfields f hf

theorem pairwise_ignoredKeys (document : Members) : (ignoredKeys document).Pairwise (· ≤ ·) := by
  have horder : (fun a b : String => !decide (b < a)) = fun a b => decide (a ≤ b) := by
    funext a b
    rw [← decide_not, decide_eq_decide, String.not_lt]
  rw [ignoredKeys, horder]
  exact List.pairwise_mergeSort' (· ≤ ·) _

/-- The fields are all that settings have. -/
theorem eq_of_fields {s t : Settings} (h : ∀ {α : Type} (f : Field α), f.value s = f.value t) :
    s = t := by
  obtain ⟨_, ⟨⟩, ⟨⟩, ⟨⟩⟩ := s
  obtain ⟨_, ⟨⟩, ⟨⟩, ⟨⟩⟩ := t
  simp only [Settings.mk.injEq, MessageSettings.mk.injEq, OutputSettings.mk.injEq,
    LoggingSettings.mk.injEq]
  exact ⟨h .lookupMode,
    ⟨h .overridden, h .overriddenMarker, h .extending, h .derivedContracts, h .referenceSeparator,
      h .listSeparator⟩,
    ⟨h .buildDir, h .template, h .includeAbi, h .writeIndex⟩, h .level, h .file⟩

theorem Field.ReadFrom.eq {α : Type} {f : Field α} {document other : Members} {s t : Settings}
    (hs : f.ReadFrom document s) (ht : f.ReadFrom other t) (h : f.SameIn document other) :
    f.value s = f.value t := by
  -- what the key has decides between the three cases, and it is the same in both documents
  by_cases hstands : ∃ v, Stands document f.place.1 f.place.2 v
  · obtain ⟨v, hv⟩ := hstands
    obtain ⟨a, ha, hs, hs'⟩ := hs.given v hv
    obtain ⟨b, hb, ht, ht'⟩ := ht.given v ((h v).mp hv)
    obtain rfl := ha.unique hb
    by_cases haccepts : f.Accepts a
    · rw [hs haccepts, ht haccepts]
    · rw [hs' haccepts, ht' haccepts]
  · have hno := not_exists.mp hstands
    rw [hs.absent hno, ht.absent fun v hv => hno v ((h v).mpr hv)]

theorem exists_document {text : String} {path : Path} {loaded : LoadedSettings}
    (h : ofToml? text path = some loaded) :
    ∃ document, Toml.parse text = some document ∧ ofDocument? document = some loaded.settings ∧
      loaded.ignoredKeys = ignoredKeys document := by
  simp only [ofToml?, bind, Option.bind_eq_some_iff, pure, Option.some.injEq] at h
  obtain ⟨document, hdocument, _, -, s, hs, rfl⟩ := h
  exact ⟨document, hdocument, hs, rfl⟩

/-- Every setting depends on its own key alone, and the keys that belong to no setting are
reported, each once and in order. -/
theorem settings_by_own_keys {text : String} {path : Path} {loaded : LoadedSettings}
    (h : ofToml? text path = some loaded) :
    ∃ document, Toml.parse text = some document ∧
      (∀ {α : Type} (f : Field α), f.ReadFrom document loaded.settings) ∧
      (∀ {otherText otherPath other otherDocument}, ofToml? otherText otherPath = some other →
        Toml.parse otherText = some otherDocument →
        (∀ {α : Type} (f : Field α), f.SameIn document otherDocument →
          f.value loaded.settings = f.value other.settings) ∧
        ((∀ {α : Type} (f : Field α), f.SameIn document otherDocument) →
          loaded.settings = other.settings)) ∧
      ∃ places : List KeyPlace, places.Nodup ∧ (∀ p, p ∈ places ↔ p.Ignored document) ∧
        loaded.ignoredKeys.Perm (places.map KeyPlace.text) ∧
        loaded.ignoredKeys.Pairwise (· ≤ ·) := by
  obtain ⟨document, hparse, hdocument, hkeys⟩ := exists_document h
  have hdistinct := Toml.distinct_parse hparse
  have hread {α : Type} (f : Field α) := readFrom_of_ofDocument? hdistinct hdocument f
  refine ⟨document, hparse, hread, ?_, ignoredPlaces document, nodup_ignoredPlaces hdistinct,
    fun p => mem_ignoredPlaces hdistinct, ?_, ?_⟩
  · intro otherText otherPath other otherDocument hother hotherParse
    obtain ⟨_, hsame, hotherDocument, -⟩ := exists_document hother
    obtain rfl := Option.some.inj (hotherParse.symm.trans hsame)
    have hfield {α : Type} (f : Field α) (hf : f.SameIn document otherDocument) :
        f.value loaded.settings = f.value other.settings :=
      (hread f).eq (readFrom_of_ofDocument? (Toml.distinct_parse hotherParse) hotherDocument f) hf
    exact ⟨hfield, fun hall => eq_of_fields fun f => hfield f (hall f)⟩
  · rw [hkeys, map_ignoredPlaces]
    exact List.mergeSort_perm _ _
  · rw [hkeys]
    exact pairwise_ignoredKeys document

def mixedConfig : String :=
  "theme = 1\n[resolve]\nlookupMode = 'firstBranch'\n" ++
  "[output]\nwriteIndex = true\nincludeAbi = false\n" ++
  "[messages]\nlistSeparator = '; '\nextends = 'none'\n[logging]\nlevel.warning = []\n"

def mixedSettings : Settings where
  lookupMode := .firstBranch
  messages := { listSeparator := "; " }
  output := { includeAbi := false }
  logging := { level := .warn }

theorem settings_by_keys_of_mixedConfig :
    ∃ loaded, ofToml? mixedConfig ⟨"solidoc.toml"⟩ = some loaded ∧
      loaded.settings = mixedSettings ∧
      "theme" ∈ loaded.ignoredKeys ∧ loaded.ignoredKeys.Pairwise (· ≤ ·) := by
  -- both in one evaluation, so that the text is read once
  have hrun : ((ofToml? mixedConfig ⟨"solidoc.toml"⟩).map (·.settings),
      (Toml.parse mixedConfig).map fun d => (d.lookup "theme").isSome) =
        (some mixedSettings, some true) := by decide +kernel
  obtain ⟨hsettings, htheme⟩ := Prod.mk.inj hrun
  obtain ⟨loaded, hloaded, heq⟩ := Option.map_eq_some_iff.mp hsettings
  obtain ⟨document, hparse, -, -, places, -, hplaces, hperm, hsorted⟩ :=
    settings_by_own_keys hloaded
  rw [hparse, Option.map_some, Option.some.injEq] at htheme
  obtain ⟨v, hv⟩ := Option.isSome_iff_exists.mp htheme
  have hmem := (lookup_eq_some_iff_mem (Toml.distinct_parse hparse).nodup).mp hv
  have hignored : KeyPlace.top "theme" ∈ places := (hplaces _).mpr ⟨⟨v, hmem⟩, by decide⟩
  exact ⟨loaded, hloaded, heq, hperm.mem_iff.mpr (List.mem_map_of_mem hignored), hsorted⟩

end ContractDocs.Settings
