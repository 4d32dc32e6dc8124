import TopologyConfig.Proofs.ConfigMap.Copying
import TopologyConfig.Proofs.Json.Fault
import TopologyConfig.Proofs.Loader.Layers
import TopologyConfig.Proofs.Yaml.Draft
import TopologyConfig.Proofs.Yaml.Nodes

/-!
What reading a document can fail on. Beside the errors of loading there are the conversions of numbers, words, times,
escapes and bytes, and documents that contain themselves; each of them fails with an error of its own.
-/
namespace TopologyConfig.Document

open Numeral (AreDigits)

/-- What is read has the property, or there is an error of loading, or one of the given others. -/
inductive FailsOnlyBy {α : Type} (Q : α → Prop) (P : ConfigError → Prop) : Except ConfigError α → Prop where
  | ok (a : α) (h : Q a) : FailsOnlyBy Q P (.ok a)
  | load (e : LoadError) : FailsOnlyBy Q P (.error (.load e))
  | other (e : ConfigError) (h : P e) : FailsOnlyBy Q P (.error e)

namespace FailsOnlyBy

variable {α β : Type} {Q : α → Prop} {R : β → Prop} {P P' : ConfigError → Prop} {r : Except ConfigError α}

theorem of_ok {a : α} (h : FailsOnlyBy Q P (.ok a)) : Q a := by
  cases h
  assumption

theorem mono (h : FailsOnlyBy Q P r) (hP : ∀ e, P e → P' e) : FailsOnlyBy Q P' r := by
  cases h with
  | ok a ha => exact .ok a ha
  | load e => exact .load e
  | other e he => exact .other e (hP e he)

theorem bind {k : α → Except ConfigError β} (h : FailsOnlyBy Q P r)
    (hk : ∀ a, r = .ok a → FailsOnlyBy R P (k a)) : FailsOnlyBy R P (r >>= k) := by
  cases h with
  | ok a _ => exact hk a rfl
  | load e => exact .load e
  | other e he => exact .other e he

end FailsOnlyBy

/-- What fails in a text of the format although it is well formed, with its error. -/
inductive FailedReading : DocumentFormat → List Char → ConfigError → Prop where
  /-- A whole number in JSON has too many digits. -/
  | number (text : List Char) (e : NumeralError) (h : Json.LongNumber text e) :
    FailedReading .json text (.numeral e)
  /-- The number of a YAML version has too many digits, or an escape names no character. -/
  | token (text : List Char) (f : Yaml.Fault) (h : Yaml.HiddenFault text f) : FailedReading .yaml text (.yaml f)
  /-- A scalar of the document, or a mapping in its place, has no value under its tag. -/
  | scalar (text : List Char) (n : Yaml.Node) (f : Yaml.Fault)
    (hn : Yaml.Node.ofTokens (Yaml.TokenStream.ofText text) = .ok (some n))
    (hf : f ∈ (Yaml.Draft.ofNode n.tag n).faults) (hform : f ≠ .malformed) : FailedReading .yaml text (.yaml f)
  /-- A key of the root has no text, since it holds a number with too many digits. -/
  | key (format : DocumentFormat) (source : String) (text : List Char) (es : Entries) (k : Value)
    (hread : readValue format source (String.ofList text) = .ok (.map es)) (hk : k ∈ Entries.keys es)
    (hlong : k.isWritable = false) : FailedReading format text (.numeral .tooLongToWrite)
  /-- An alias stands within the node of its own anchor. -/
  | recursion (text : List Char) (hn : Yaml.Node.ofTokens (Yaml.TokenStream.ofText text) = .error .recursive)
    (h : Yaml.HasAliasedAnchor (Yaml.TokenStream.ofText text).tokens) : FailedReading .yaml text (.yaml .recursive)

theorem failedReading_of_readYaml {text : String} {f : Yaml.Fault} (h : Yaml.read text = .error f)
    (hform : f ≠ .malformed) : FailedReading .yaml text.toList (.yaml f) := by
  unfold Yaml.read at h
  dsimp only at h
  split at h
  · cases hn : Yaml.Node.ofTokens (Yaml.TokenStream.ofText text.toList) with
    | error g =>
      rw [hn] at h
      cases h
      rcases Yaml.Node.fault_ofTokens hn with hmalformed | htokens | ⟨rfl, haliased⟩
      · exact absurd hmalformed hform
      · exact .token _ f ((Yaml.TokenStream.fault_ofText htokens).resolve_left hform)
      · exact .recursion _ hn haliased
    | ok o =>
      rw [hn] at h
      cases o with
      | none => cases h
      | some n =>
        cases hc : (Yaml.Draft.ofNode n.tag n).check with
        | error g =>
          simp only [bind, Except.bind, hc] at h
          cases h
          exact .scalar _ n f hn (Yaml.Draft.mem_faults_of_check hc) hform
        | ok u =>
          simp only [bind, Except.bind, hc] at h
          cases h
  · cases h
    exact absurd rfl hform

theorem failsOnlyBy_readValue (format : DocumentFormat) (source text : String) :
    FailsOnlyBy (fun _ => True) (FailedReading format text.toList) (readValue format source text) := by
  cases format with
  | json =>
    unfold readValue readJson
    dsimp only
    split
    · split
      · exact .ok _ trivial
      · exact .load _
      · next e he => exact .other _ (.number _ e (Json.longNumber_of_read he))
    · exact .ok _ trivial
  | yaml =>
    unfold readValue readYaml
    dsimp only
    split
    · exact .ok _ trivial
    · exact .load _
    · next f hform hf => exact .other _ (failedReading_of_readYaml hf hform)

theorem areWritable_eq_false {vs : List Value} (h : Value.areWritable vs = false) : ∃ v ∈ vs, v.isWritable = false := by
  induction vs with
  | nil => cases h
  | cons v vs ih =>
    rw [Value.areWritable, Bool.and_eq_false_iff] at h
    rcases h with hv | hvs
    · exact ⟨v, List.mem_cons_self, hv⟩
    · obtain ⟨w, hw, hlong⟩ := ih hvs
      exact ⟨w, List.mem_cons_of_mem v hw, hlong⟩

/-- A text is read as entries under texts, unless there is an error of loading or a conversion fails. -/
theorem failsOnlyBy_read (format : DocumentFormat) (source text : String) :
    FailsOnlyBy Entries.HasTextKeys (FailedReading format text.toList) (read format source text) := by
  refine (failsOnlyBy_readValue format source text).bind fun v hv => ?_
  cases hroot : rootEntries source v with
  | ok es => exact .ok es (Loader.isString_of_mem_rootEntries hroot)
  | error e =>
    unfold rootEntries at hroot
    split at hroot
    · cases hroot
    · next es =>
      split at hroot
      · cases hroot
      · next ks hks =>
        split at hroot
        · cases hroot
          exact .load _
        · next hlong =>
          cases hroot
          obtain ⟨k, hk, hklong⟩ := areWritable_eq_false (Bool.eq_false_iff.mpr hlong)
          have hmem : k ∈ Entries.keys es := (List.mem_filter.mp hk).1
          exact .other _ (.key format source _ es k (by rw [String.ofList_toList]; exact hv) hmem hklong)
    · cases hroot
      exact .load _

/-- Where the form of a YAML text is right, a scalar without a value under its tag fails the document. -/
theorem read_yaml_of_faults {source text : String} {n : Yaml.Node} (hprintable : text.toList.all Yaml.isPrintable = true)
    (hn : Yaml.Node.ofTokens (Yaml.TokenStream.ofText text.toList) = .ok (some n))
    (hfaults : (Yaml.Draft.ofNode n.tag n).faults ≠ []) (hform : .malformed ∉ (Yaml.Draft.ofNode n.tag n).faults) :
    ∃ f ∈ (Yaml.Draft.ofNode n.tag n).faults, read .yaml source text = .error (.yaml f) := by
  cases hc : (Yaml.Draft.ofNode n.tag n).check with
  | ok u => exact absurd (Yaml.Draft.check_eq_ok_iff.mp hc) hfaults
  | error f =>
    have hf := Yaml.Draft.mem_faults_of_check hc
    have hread : Yaml.read text = .error f := by
      simp only [Yaml.read, hprintable, if_true, hn, bind, Except.bind, hc]
    have hne : f ≠ .malformed := fun h => hform (h ▸ hf)
    have hyaml : readYaml source text = .error (.yaml f) := by
      unfold readYaml
      rw [hread]
      cases f <;> first | rfl | exact absurd rfl hne
    refine ⟨f, hf, ?_⟩
    rw [read, readValue, hyaml]
    rfl

/-- The reading of a document that contains itself. -/
def isRecursive {α : Type} : Except ConfigError α → Bool
  | .error (.yaml .recursive) => true
  | _ => false

example : isRecursive (load Registry.standard .yaml unnamed "a: &x [*x]") = true := by decide +kernel

section

variable {t : FileTree} {p : Path}

/-- What can fail on the way from a path to entries beside loading itself. -/
inductive FailedFile (t : FileTree) (p : Path) : ConfigError → Prop where
  | path (h : p.text.toList.contains '\x00' = true) : FailedFile t p .nullInPath
  | encoding (bs : List UInt8) (e : Text.Utf8Error) (hread : t.read p = .ok (.bytes bs))
    (h : Text.decodeUtf8 bs = .error e) : FailedFile t p (.encoding e)
  | conversion (content : FileContent) (text : String) (format : DocumentFormat) (e : ConfigError)
    (hread : t.read p = .ok content) (htext : content.read = .ok text)
    (hformat : DocumentFormat.ofPath p.text = .ok format) (h : FailedReading format text.toList e) :
    FailedFile t p e

theorem failsOnlyBy_readText (t : FileTree) (p : Path) :
    FailsOnlyBy (fun text => ∃ content, t.read p = .ok content ∧ content.read = .ok text) (FailedFile t p)
      (readText t p) := by
  unfold readText ensureNoNull
  split
  · next hnull => exact .other _ (.path hnull)
  · simp only [bind, Except.bind]
    split
    · next content hread =>
      cases hcontent : content.read with
      | ok text => exact .ok _ ⟨content, hread, hcontent⟩
      | error e =>
        cases content with
        | text s => cases hcontent
        | bytes bs =>
          cases hdecode : Text.decodeUtf8 bs with
          | ok s =>
            simp only [FileContent.read, hdecode] at hcontent
            cases hcontent
          | error e' =>
            simp only [FileContent.read, hdecode] at hcontent
            cases hcontent
            exact .other _ (.encoding bs e' hread hdecode)
    · exact .load _

/-- A file is read as entries under texts, unless there is an error of loading, its bytes are no text, or a conversion
fails. -/
theorem failsOnlyBy_readFile (t : FileTree) (p : Path) :
    FailsOnlyBy Entries.HasTextKeys (FailedFile t p) (readFile t p) := by
  have htext := failsOnlyBy_readText t p
  unfold readFile
  refine htext.bind fun text hread => ?_
  rw [hread] at htext
  obtain ⟨content, hnode, hcontent⟩ := htext.of_ok
  cases hformat : DocumentFormat.ofPath p.text with
  | error e =>
    unfold DocumentFormat.ofPath at hformat
    split at hformat
    · cases hformat
    · cases hformat
      exact .load _
  | ok format =>
    exact (failsOnlyBy_read format p.text text).mono fun e he => .conversion content text format e hnode hcontent hformat he

theorem hasTextKeys_putAll {es ps : Entries} (hes : es.HasTextKeys) (hps : ps.HasTextKeys) :
    (Entries.putAll es ps).HasTextKeys := by
  induction ps generalizing es with
  | nil => exact hes
  | cons p ps ih =>
    obtain ⟨hp, hrest⟩ := List.forall_mem_cons.mp hps
    refine ih (fun e he => ?_) hrest
    rcases Entries.mem_put he with hin | ⟨-, ⟨hkey, -⟩ | hin⟩
    · exact hes e hin
    · exact hkey ▸ hp
    · obtain ⟨d, hd, hkey⟩ := List.mem_map.mp hin
      exact hkey ▸ hes d hd

theorem failsOnlyBy_loadFile (r : Registry) (t : FileTree) (p : Path) :
    FailsOnlyBy (fun c => c.isSealed = false ∧ c.entries.HasTextKeys) (FailedFile t p) (loadFile r t p) := by
  have hfile := failsOnlyBy_readFile t p
  refine hfile.bind fun es hes => ?_
  rw [hes] at hfile
  rw [ConfigMap.ofEntries_of_isString r hfile.of_ok]
  refine .ok _ ⟨rfl, ?_⟩
  have hthawed : Entries.HasTextKeys (Value.mapValues Value.thaw es) := Entries.hasTextKeys_mapValues_iff.mpr hfile.of_ok
  exact hasTextKeys_putAll (by simp [Entries.HasTextKeys]) hthawed

/-- Bytes that are no text have an error of their own. -/
theorem readFile_of_bytes {bs : List UInt8} {e : Text.Utf8Error} (hnull : p.text.toList.contains '\x00' = false)
    (hread : t.read p = .ok (.bytes bs)) (h : Text.decodeUtf8 bs = .error e) : readFile t p = .error (.encoding e) := by
  have htext : readText t p = .error (.encoding e) := by
    rw [readText, ensureNoNull, if_neg (by simpa using hnull), hread]
    simp only [bind, Except.bind, FileContent.read, h]
    rfl
  rw [readFile, htext]
  rfl

end

end Document

namespace Loader

open Document (FailsOnlyBy FailedFile)

variable (l : Loader) (s : Surroundings)

theorem failsOnlyBy_defaultsLayer : FailsOnlyBy Entries.HasTextKeys
    (fun e => ∃ path, l.settings.defaults = .document path ∧ FailedFile s.files (Path.ofText path) e)
    (l.defaultsLayer s) := by
  unfold defaultsLayer
  split
  · refine .ok _ fun e he => ?_
    obtain ⟨d, -, rfl⟩ := List.mem_map.mp he
    rfl
  · next path hpath => exact (Document.failsOnlyBy_readFile _ _).mono fun e he => ⟨path, hpath, he⟩

theorem failsOnlyBy_clusterLayer : FailsOnlyBy Entries.HasTextKeys
    (fun e => ∃ path, l.clusterPath = some path ∧ (FailedFile s.files (Path.ofText path) e ∨
      ∃ f, s.files.exists? (Path.ofText path) = .error f ∧ e = .file ⟨f, (Path.ofText path).text⟩))
    (l.clusterLayer s).result := by
  unfold clusterLayer
  split
  · exact .ok _ (by simp [Entries.HasTextKeys])
  · next path hpath =>
    have hsome : l.clusterPath = some path := (Option.filter_eq_some_iff.mp hpath).1
    dsimp only
    split
    · next f hf => exact .other _ ⟨path, hsome, .inr ⟨f, hf, rfl⟩⟩
    · exact .ok _ (by simp [Entries.HasTextKeys])
    · exact (Document.failsOnlyBy_readFile _ _).mono fun e he => ⟨path, hsome, .inl he⟩

end Loader

namespace Document

/-- Documents in texts and in files, and the layers of a loader that come from them: entries under texts are read, or
there is an error of loading, or a conversion fails, or an alias stands within the node of its own anchor. The last three
parts are readings that do fail. -/
theorem reading_fails_on_loading_conversion_or_recursion (t : FileTree) (l : Loader) (s : Surroundings) :
    (∀ format source text,
      FailsOnlyBy Entries.HasTextKeys (FailedReading format text.toList) (read format source text)) ∧
    (∀ p, FailsOnlyBy Entries.HasTextKeys (FailedFile t p) (readFile t p)) ∧
    (∀ r p, FailsOnlyBy (fun c => c.isSealed = false ∧ c.entries.HasTextKeys) (FailedFile t p) (loadFile r t p)) ∧
    FailsOnlyBy Entries.HasTextKeys
      (fun e => ∃ path, l.settings.defaults = .document path ∧ FailedFile s.files (Path.ofText path) e)
      (l.defaultsLayer s) ∧
    FailsOnlyBy Entries.HasTextKeys
      (fun e => ∃ path, l.clusterPath = some path ∧ (FailedFile s.files (Path.ofText path) e ∨
        ∃ f, s.files.exists? (Path.ofText path) = .error f ∧ e = .file ⟨f, (Path.ofText path).text⟩))
      (l.clusterLayer s).result ∧
    (∀ source n, maxDigits < (Nat.toDigits 10 n).length →
      read .json source (String.ofList (Nat.toDigits 10 n)) =
        .error (.numeral (.tooLongToRead (Nat.toDigits 10 n).length))) ∧
    (∀ source (text : String) n, text.toList.all Yaml.isPrintable = true →
      Yaml.Node.ofTokens (Yaml.TokenStream.ofText text.toList) = .ok (some n) →
      (Yaml.Draft.ofNode n.tag n).faults ≠ [] → .malformed ∉ (Yaml.Draft.ofNode n.tag n).faults →
      ∃ f ∈ (Yaml.Draft.ofNode n.tag n).faults, read .yaml source text = .error (.yaml f)) ∧
    (∀ (p : Path) bs e, p.text.toList.contains '\x00' = false → t.read p = .ok (.bytes bs) →
      Text.decodeUtf8 bs = .error e → readFile t p = .error (.encoding e)) := by
  refine ⟨failsOnlyBy_read, failsOnlyBy_readFile t, fun r => failsOnlyBy_loadFile r t, l.failsOnlyBy_defaultsLayer s,
    l.failsOnlyBy_clusterLayer s, fun source n hlong => ?_, fun source text n => read_yaml_of_faults,
    fun p bs e => readFile_of_bytes⟩
  have hink : Text.hasInk (String.ofList (Nat.toDigits 10 n)) = true := by
    obtain ⟨d, ds, hds⟩ := List.exists_cons_of_ne_nil (Nat.toDigits_ne_nil (n := n) (b := 10))
    have hd : d.isDigit = true := Numeral.areDigits_toDigits n d (by rw [hds]; exact List.mem_cons_self)
    simp [Text.hasInk, hds, Numeral.isBlank_eq_false_of_isDigit hd]
  simp only [read, readValue, readJson, hink, if_true, Json.read_toDigits hlong, bind, Except.bind]

/-- A conversion of a YAML scalar has failed. -/
def isYamlFault {α : Type} : Except ConfigError α → Bool
  | .error (.yaml _) => true
  | _ => false

/-- There is no thirteenth month, and that is no error of loading. -/
theorem thirteenth_month_is_no_load_error :
    ¬ ((∃ es, read .yaml unnamed "a: 2001-13-01" = .ok es ∧ es.HasTextKeys) ∨
      ∃ e, read .yaml unnamed "a: 2001-13-01" = .error (.load e)) := by
  have hyaml : isYamlFault (read .yaml unnamed "a: 2001-13-01") = true := by decide +kernel
  rintro (⟨es, hread, -⟩ | ⟨e, hread⟩)
  · simp [hread, isYamlFault] at hyaml
  · simp [hread, isYamlFault] at hyaml

end Document
end TopologyConfig
