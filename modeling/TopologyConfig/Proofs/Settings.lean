import TopologyConfig.Document
import TopologyConfig.Proofs.ConfigMap.Basic
import TopologyConfig.Proofs.Path
import TopologyConfig.Settings

/-!
What the settings hold over whole runs. However they were made and whatever was assigned to them since, each setting
holds a value of its kind; a document is accepted exactly if its path has a format.
-/
namespace TopologyConfig

/-- The value is the path of a document that has a format. -/
def Value.IsDocumentPath (v : Value) : Prop := ∃ path format, v = .str path ∧ DocumentFormat.ofPath path = .ok format

theorem map_eq_error {ε α β : Type} {x : Except ε α} {f : α → β} {e : ε} : x.map f = .error e ↔ x = .error e := by
  cases x <;> simp [Except.map]

namespace Setting

/-- What may stand in a setting. -/
def Admits : Setting → Value → Prop
  | logLevel, v => v ∈ ["DEBUG", "INFO", "WARNING", "ERROR", "CRITICAL"].map Value.str
  | logJson, v | logToFile, v | failFast, v => ∃ b, v = .bool b
  | logFilePath, v => ∃ text, v = .str text
  | defaultsPath, v => v.IsDocumentPath
  | clusterConfigPath, v => v = .null ∨ v.IsDocumentPath

/-- The settings that hold the path of a document. -/
def documents : List Setting := [defaultsPath, clusterConfigPath]

variable {setting other : Setting}

theorem ofName?_name (setting : Setting) : ofName? setting.name = some setting := by
  cases setting <;> rfl

theorem name_of_ofName? {name : String} (h : ofName? name = some setting) : setting.name = name := by
  have hname := List.find?_some h
  exact beq_iff_eq.mp hname

theorem name_injective (h : setting.name = other.name) : setting = other :=
  Option.some_inj.mp (by rw [← ofName?_name setting, ← ofName?_name other, h])

theorem mem_all (setting : Setting) : setting ∈ all := by
  cases setting <;> decide

theorem startsWith_name (setting : Setting) : setting.name.startsWith "_" = false := by
  cases setting <;> decide +kernel

end Setting

namespace Settings

/-- The path of the document that comes with a library in the given directory. -/
def packagedPath (directory : String) : String := directory ++ "/" ++ "defaults.yaml"

/-- The value that a setting shows. -/
def valueOf (directory : String) (s : Settings) : Setting → Value
  | .logLevel => .str s.level.name
  | .logJson => .bool s.logsJson
  | .logToFile => .bool s.logsToFile
  | .logFilePath => .str s.logFile
  | .defaultsPath =>
    match s.defaults with
    | .builtIn => .str (packagedPath directory)
    | .document path => .str path
  | .clusterConfigPath =>
    match s.clusterDocument with
    | none => .null
    | some path => .str path
  | .failFast => .bool s.failFast

/-- Every setting shows a value of its kind. -/
def IsValid (directory : String) (s : Settings) : Prop :=
  ∀ setting : Setting, setting.Admits (s.valueOf directory setting)

/-- The settings after an assignment; one that is refused leaves them as they were. -/
def assigned (s : Settings) (change : String × Value) : Settings :=
  match s.assign change.1 change.2 with
  | .ok s => s
  | .error _ => s

def assignedAll (s : Settings) (changes : List (String × Value)) : Settings := changes.foldl assigned s

/-- What a client can start from. -/
inductive IsMade : Settings → Prop
  | ofValues {values : List (String × Value)} {s : Settings} : Settings.ofValues values = .ok s → IsMade s
  | ofEnvironment {e : Environment} {s : Settings} : Settings.ofEnvironment e = .ok s → IsMade s

/-- Making settings fails, and one of the faults is at this setting. -/
def Faults (made : Except ConfigError Settings) (setting : Setting) : Prop :=
  ∃ faults, made = .error (.faults faults) ∧ ∃ cause, ⟨[setting.name], cause⟩ ∈ faults

variable {directory path : String} {s t : Settings} {setting : Setting} {v : Value} {cause : FaultCause}

/-- The suffixes of documents are the ones that have a format. -/
theorem contains_documentSuffixes (suffix : String) :
    documentSuffixes.contains (Text.lower suffix) = (DocumentFormat.ofSuffix? suffix).isSome := by
  unfold documentSuffixes DocumentFormat.ofSuffix?
  generalize Text.lower suffix = lowered
  by_cases hjson : lowered = ".json"
  · simp [hjson]
  · by_cases hyaml : lowered = ".yaml"
    · simp [hyaml]
    · by_cases hyml : lowered = ".yml" <;> simp [hjson, hyaml, hyml]

theorem isDocumentPath_str : (Value.str path).IsDocumentPath ↔ ∃ format, DocumentFormat.ofPath path = .ok format := by
  constructor
  · rintro ⟨_, format, ⟨⟩, h⟩
    exact ⟨format, h⟩
  · rintro ⟨format, h⟩
    exact ⟨path, format, rfl, h⟩

theorem exists_ofPath_iff :
    (∃ format, DocumentFormat.ofPath path = .ok format) ↔
      documentSuffixes.contains (Text.lower (Path.ofText path).suffix) = true := by
  rw [contains_documentSuffixes]
  unfold DocumentFormat.ofPath
  generalize DocumentFormat.ofSuffix? (Path.ofText path).suffix = format
  cases format <;> simp

theorem isDocumentPath_packaged (directory : String) : (Value.str (packagedPath directory)).IsDocumentPath := by
  have hpart : Path.IsPart "defaults.yaml" := ⟨by decide, by decide, by decide⟩
  have hname : (Path.ofText (packagedPath directory)).name = "defaults.yaml" :=
    Path.name_ofText_append directory hpart
  have hsuffix : (Path.ofText (packagedPath directory)).suffix = ".yaml" := by
    rw [Path.suffix, hname]
    decide
  refine isDocumentPath_str.mpr (exists_ofPath_iff.mpr ?_)
  rw [hsuffix]
  decide +kernel

/-- A text is read as the path of a document exactly if that has a format, and stays as it is. -/
theorem readDocumentPath_str_eq_ok {read : String} :
    readDocumentPath (.str path) = .ok read ↔ read = path ∧ ∃ format, DocumentFormat.ofPath path = .ok format := by
  simp only [exists_ofPath_iff, readDocumentPath, readText, bind, Except.bind]
  split <;> simp_all [eq_comm]

theorem isDocumentPath_of_readDocumentPath (h : readDocumentPath v = .ok path) : (Value.str path).IsDocumentPath := by
  obtain ⟨text, -, h⟩ := bind_eq_ok.mp h
  split at h
  · next hsuffix =>
    cases h
    exact isDocumentPath_str.mpr (exists_ofPath_iff.mpr hsuffix)
  · cases h

theorem admits_level (s : Settings) : Setting.logLevel.Admits (.str s.level.name) := by
  unfold Setting.Admits
  cases s.level <;> simp [LogLevel.name]

theorem admits_cluster_of_readOptionalDocument {document : Option String}
    (h : readOptionalDocument v = .ok document) :
    Setting.clusterConfigPath.Admits (({ s with clusterDocument := document } : Settings).valueOf directory
      .clusterConfigPath) := by
  unfold readOptionalDocument at h
  split at h
  · cases h
    exact .inl rfl
  · obtain ⟨path, hpath, rfl⟩ := map_eq_ok.mp h
    exact .inr (isDocumentPath_of_readDocumentPath hpath)

/-- A setting that was read is of its kind. -/
theorem admits_valueOf_put (h : s.put setting v = .ok t) : setting.Admits (t.valueOf directory setting) := by
  cases setting with
  | logLevel =>
    obtain ⟨level, -, rfl⟩ := map_eq_ok.mp h
    exact admits_level _
  | logJson | logToFile | failFast =>
    obtain ⟨b, -, rfl⟩ := map_eq_ok.mp h
    exact ⟨b, rfl⟩
  | logFilePath =>
    obtain ⟨text, -, rfl⟩ := map_eq_ok.mp h
    exact ⟨text, rfl⟩
  | defaultsPath =>
    obtain ⟨path, hpath, rfl⟩ := map_eq_ok.mp h
    exact isDocumentPath_of_readDocumentPath hpath
  | clusterConfigPath =>
    obtain ⟨document, hdocument, rfl⟩ := map_eq_ok.mp h
    exact admits_cluster_of_readOptionalDocument hdocument

/-- Reading one setting leaves the others. -/
theorem valueOf_put_of_ne {other : Setting} (h : s.put setting v = .ok t) (ho : other ≠ setting) :
    t.valueOf directory other = s.valueOf directory other := by
  cases setting <;> obtain ⟨_, -, rfl⟩ := map_eq_ok.mp h <;> cases other <;> first | rfl | exact absurd rfl ho

theorem IsValid.put (hs : s.IsValid directory) (h : s.put setting v = .ok t) : t.IsValid directory := by
  intro other
  by_cases ho : other = setting
  · subst ho
    exact admits_valueOf_put h
  · rw [valueOf_put_of_ne h ho]
    exact hs other

theorem isValid_default (directory : String) : ({} : Settings).IsValid directory := by
  intro setting
  cases setting with
  | logLevel => exact admits_level _
  | logJson | logToFile | failFast => exact ⟨false, rfl⟩
  | logFilePath => exact ⟨_, rfl⟩
  | defaultsPath => exact isDocumentPath_packaged directory
  | clusterConfigPath => exact .inl rfl

/-- What is wrong with a value does not depend on the other settings. -/
theorem put_eq_error_iff (s t : Settings) : s.put setting v = .error cause ↔ t.put setting v = .error cause := by
  cases setting <;> simp only [Settings.put, map_eq_error]

variable {given : Setting → Option Value} {settings : List Setting}

theorem IsValid.putGiven (hs : s.IsValid directory) : (putGiven given s settings).1.IsValid directory := by
  induction settings generalizing s with
  | nil => exact hs
  | cons setting settings ih =>
    unfold Settings.putGiven
    split
    · exact ih hs
    · split
      · next h => exact ih (hs.put h)
      · exact ih hs

/-- The faults are those of the given values that cannot be read. -/
theorem mem_faults_putGiven {fault : Fault} :
    fault ∈ (putGiven given s settings).2 ↔
      ∃ setting ∈ settings, ∃ v cause, given setting = some v ∧ s.put setting v = .error cause ∧
        fault = ⟨[setting.name], cause⟩ := by
  induction settings generalizing s with
  | nil => simp [Settings.putGiven]
  | cons setting settings ih =>
    rw [List.exists_mem_cons_iff]
    unfold Settings.putGiven
    split
    · next hgiven => simp [ih, hgiven]
    · next v hgiven =>
      split
      · next t hput => simp [ih, hgiven, hput, put_eq_error_iff t s]
      · next cause hput => simp [ih, hgiven, hput]

theorem IsValid.of_ofGiven (h : ofGiven given = .ok s) : s.IsValid directory := by
  have hvalid : (Settings.putGiven given {} Setting.all).1.IsValid directory := (isValid_default directory).putGiven
  unfold ofGiven at h
  split at h
  · next hmade =>
    cases h
    rwa [hmade] at hvalid
  · cases h

theorem IsMade.isValid (h : IsMade s) : s.IsValid directory := by
  cases h with
  | ofValues h => exact .of_ofGiven h
  | ofEnvironment h => exact .of_ofGiven h

theorem ofGiven_eq_error_iff {faults : List Fault} :
    ofGiven given = .error (.faults faults) ↔ faults ≠ [] ∧ (putGiven given {} Setting.all).2 = faults := by
  unfold ofGiven
  split
  · next hmade =>
    rw [hmade]
    exact ⟨nofun, fun h => absurd h.2.symm h.1⟩
  · next found hfound hmade =>
    rw [hmade]
    constructor
    · rintro ⟨⟩
      exact ⟨hfound, rfl⟩
    · rintro ⟨-, rfl⟩
      rfl

/-- A setting is at fault exactly if it was given a value that it cannot be read from. -/
theorem faults_ofGiven_iff (s : Settings) :
    Faults (ofGiven given) setting ↔ ∃ v cause, given setting = some v ∧ s.put setting v = .error cause := by
  constructor
  · rintro ⟨faults, hmade, cause, hmem⟩
    rw [← (ofGiven_eq_error_iff.mp hmade).2] at hmem
    obtain ⟨other, -, v, cause', hgiven, hput, heq⟩ := mem_faults_putGiven.mp hmem
    obtain ⟨hname, rfl⟩ := Fault.mk.inj heq
    obtain rfl := Setting.name_injective (List.singleton_inj.mp hname)
    exact ⟨v, cause, hgiven, (put_eq_error_iff _ s).mp hput⟩
  · rintro ⟨v, cause, hgiven, hput⟩
    have hmem : ⟨[setting.name], cause⟩ ∈ (putGiven given {} Setting.all).2 :=
      mem_faults_putGiven.mpr
        ⟨setting, Setting.mem_all setting, v, cause, hgiven, (put_eq_error_iff s _).mp hput, rfl⟩
    exact ⟨_, ofGiven_eq_error_iff.mpr ⟨List.ne_nil_of_mem hmem, rfl⟩, cause, hmem⟩

theorem assign_name (s : Settings) (setting : Setting) (v : Value) :
    s.assign setting.name v = (s.put setting v).mapError (fun cause => .faults [⟨[setting.name], cause⟩]) := by
  simp [assign, Setting.startsWith_name, Setting.ofName?_name]

/-- An assignment that is accepted gives a value to the setting of its name alone. -/
theorem exists_put_of_assign {name : String} (h : s.assign name v = .ok t) :
    t = s ∨ ∃ setting : Setting, setting.name = name ∧ s.put setting v = .ok t := by
  unfold assign at h
  split at h
  · cases h
    exact .inl rfl
  · split at h
    · cases h
    · next setting hname => exact .inr ⟨setting, Setting.name_of_ofName? hname, mapError_eq_ok.mp h⟩

theorem IsValid.assigned (hs : s.IsValid directory) (change : String × Value) : (s.assigned change).IsValid directory := by
  unfold Settings.assigned
  split
  · next h =>
    obtain rfl | ⟨setting, -, hput⟩ := exists_put_of_assign h
    · exact hs
    · exact hs.put hput
  · exact hs

theorem IsValid.assignedAll (hs : s.IsValid directory) (changes : List (String × Value)) :
    (s.assignedAll changes).IsValid directory := by
  induction changes generalizing s with
  | nil => exact hs
  | cons change changes ih => exact ih (hs.assigned change)

theorem assignedAll_concat (s : Settings) (changes : List (String × Value)) (change : String × Value) :
    s.assignedAll (changes ++ [change]) = (s.assignedAll changes).assigned change :=
  List.foldl_concat ..

/-- A setting for a document takes a text that has a format, and then holds it. -/
theorem put_document (s : Settings) (hd : setting ∈ Setting.documents)
    (h : ∃ format, DocumentFormat.ofPath path = .ok format) :
    ∃ t, s.put setting (.str path) = .ok t ∧ t.valueOf directory setting = .str path := by
  have hread : readDocumentPath (.str path) = .ok path := readDocumentPath_str_eq_ok.mpr ⟨rfl, h⟩
  simp only [Setting.documents, List.mem_cons, List.not_mem_nil, or_false] at hd
  rcases hd with rfl | rfl
  · refine ⟨{ s with defaults := .document path }, ?_, rfl⟩
    simp only [Settings.put, hread, Except.map]
  · refine ⟨{ s with clusterDocument := some path }, ?_, rfl⟩
    simp only [Settings.put, readOptionalDocument, hread, Except.map]

/-- It takes no other text. -/
theorem put_document_of_not (s : Settings) (hd : setting ∈ Setting.documents)
    (h : ¬∃ format, DocumentFormat.ofPath path = .ok format) :
    ∃ cause, s.put setting (.str path) = .error cause := by
  obtain ⟨cause, hread⟩ : ∃ cause, readDocumentPath (.str path) = .error cause := by
    cases hread : readDocumentPath (.str path) with
    | error cause => exact ⟨cause, rfl⟩
    | ok read => exact absurd (readDocumentPath_str_eq_ok.mp hread).2 h
  refine ⟨cause, ?_⟩
  simp only [Setting.documents, List.mem_cons, List.not_mem_nil, or_false] at hd
  rcases hd with rfl | rfl
  · simp only [Settings.put, hread, Except.map]
  · simp only [Settings.put, readOptionalDocument, hread, Except.map]

theorem assign_document_iff (s : Settings) (hd : setting ∈ Setting.documents) :
    (∃ t, s.assign setting.name (.str path) = .ok t ∧ t.valueOf directory setting = .str path) ↔
      ∃ format, DocumentFormat.ofPath path = .ok format := by
  rw [assign_name]
  constructor
  · rintro ⟨t, hassign, -⟩
    by_contra hno
    obtain ⟨cause, hput⟩ := put_document_of_not s hd hno
    rw [hput] at hassign
    cases hassign
  · intro hformat
    obtain ⟨t, hput, hvalue⟩ := put_document s hd hformat
    exact ⟨t, mapError_eq_ok.mpr hput, hvalue⟩

theorem not_faults_document_iff (hd : setting ∈ Setting.documents) (hgiven : given setting = some (.str path)) :
    ¬Faults (ofGiven given) setting ↔ ∃ format, DocumentFormat.ofPath path = .ok format := by
  rw [faults_ofGiven_iff default, not_iff_comm]
  constructor
  · intro hno
    obtain ⟨cause, hput⟩ := put_document_of_not default hd hno
    exact ⟨_, cause, hgiven, hput⟩
  · rintro ⟨v, cause, hv, hput⟩ hformat
    obtain rfl : .str path = v := Option.some_inj.mp (hgiven.symm.trans hv)
    obtain ⟨t, hok, -⟩ : ∃ t, (default : Settings).put setting (.str path) = .ok t ∧ t.valueOf "" setting = .str path :=
      put_document default hd hformat
    rw [hok] at hput
    cases hput

/-- Settings hold values of their kinds over whole runs, a refused assignment changes nothing and an accepted one only
what it names, and the texts that are accepted as the path of a document are those with a format. -/
theorem valid_over_assignments (directory : String) :
    (∀ s, IsMade s → ∀ changes : List (String × Value),
      (s.assignedAll changes).IsValid directory ∧
      (∀ name v e, (s.assignedAll changes).assign name v = .error e →
        ∀ setting, (s.assignedAll (changes ++ [(name, v)])).valueOf directory setting =
          (s.assignedAll changes).valueOf directory setting) ∧
      ∀ name v, ∀ setting : Setting, setting.name ≠ name →
        (s.assignedAll (changes ++ [(name, v)])).valueOf directory setting =
          (s.assignedAll changes).valueOf directory setting) ∧
    ∀ setting ∈ Setting.documents, ∀ path,
      (∀ s : Settings, (∃ t, s.assign setting.name (.str path) = .ok t ∧ t.valueOf directory setting = .str path) ↔
        ∃ format, DocumentFormat.ofPath path = .ok format) ∧
      (∀ values, values.lookup setting.name = some (.str path) →
        (¬Faults (ofValues values) setting ↔ ∃ format, DocumentFormat.ofPath path = .ok format)) ∧
      ∀ e : Environment, e.text? setting.variableName = some path →
        (¬Faults (ofEnvironment e) setting ↔ ∃ format, DocumentFormat.ofPath path = .ok format) := by
  refine ⟨fun s hs changes => ⟨hs.isValid.assignedAll changes, ?_, ?_⟩, fun setting hd path => ⟨?_, ?_, ?_⟩⟩
  · intro name v e hrefused setting
    rw [assignedAll_concat, assigned, hrefused]
  · intro name v setting hname
    rw [assignedAll_concat, assigned]
    split
    · next t h =>
      obtain rfl | ⟨other, hother, hput⟩ := exists_put_of_assign h
      · rfl
      · exact valueOf_put_of_ne hput fun heq => hname (heq ▸ hother)
    · rfl
  · exact fun s => assign_document_iff s hd
  · exact fun values hgiven => not_faults_document_iff hd hgiven
  · intro e htext
    exact not_faults_document_iff hd (by rw [htext]; rfl)

theorem valid_after_refused_assignment :
    (∃ s, ofValues [("log_level", .str "debug"), ("cluster_config_path", .str "conf/cluster.YML")] = .ok s ∧
      s.assign "defaults_path" (.str "conf/.yaml") =
        .error (.faults [⟨["defaults_path"],
          .rejected "Configuration document must be .yaml, .yml or .json: conf/.yaml"⟩]) ∧
      (s.assignedAll [("defaults_path", .str "conf/.yaml"), ("fail_fast", .str "Yes")]).IsValid "/lib" ∧
      (s.assignedAll [("defaults_path", .str "conf/.yaml")]).valueOf "/lib" .defaultsPath =
        .str "/lib/defaults.yaml") ∧
    ¬Faults (ofEnvironment ⟨[("STORMCONF_DEFAULTS_PATH", "a.json/")]⟩) .defaultsPath ∧
    Faults (ofValues [("cluster_config_path", .str "cluster.yaml.")]) .clusterConfigPath := by
  obtain ⟨hruns, hdocuments⟩ := valid_over_assignments "/lib"
  have hmade : ofValues [("log_level", .str "debug"), ("cluster_config_path", .str "conf/cluster.YML")] =
      .ok { chosenLevel := some .debug, clusterDocument := some "conf/cluster.YML" } := by rfl
  have hrefused : ({ chosenLevel := some .debug, clusterDocument := some "conf/cluster.YML" } : Settings).assign
      "defaults_path" (.str "conf/.yaml") =
        .error (.faults [⟨["defaults_path"],
          .rejected "Configuration document must be .yaml, .yml or .json: conf/.yaml"⟩]) :=
    (assign_name _ .defaultsPath _).trans (by rfl)
  have hunknown : DocumentFormat.ofPath "cluster.yaml." = .error (.load (.unknownFormat "cluster.yaml.")) := by rfl
  refine ⟨⟨_, hmade, hrefused, ?_, ?_⟩, ?_, ?_⟩
  · exact (hruns _ (.ofValues hmade) _).1
  · exact (hruns _ (.ofValues hmade) []).2.1 _ _ _ hrefused .defaultsPath
  · exact ((hdocuments .defaultsPath (by decide) "a.json/").2.2 _ (by decide +kernel)).mpr ⟨.json, by rfl⟩
  · by_contra hno
    obtain ⟨format, h⟩ := ((hdocuments .clusterConfigPath (by decide) "cluster.yaml.").2.1 _ (by rfl)).mp hno
    rw [hunknown] at h
    cases h

end Settings
end TopologyConfig
