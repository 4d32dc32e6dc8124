import TopologyConfig.Proofs.FileTree
import TopologyConfig.Proofs.Json.Line
import TopologyConfig.Proofs.Json.RoundTrip
import TopologyConfig.Document.File

/-!
Documents that are written to files. Whether one can be written depends on its path alone, and where there is one
already, another one can take its place. A configuration that was written as JSON is read back, by its own path and by
every other path that leads to the same file; all other documents are read as before.
-/
namespace TopologyConfig

theorem Path.suffix_eq_of_name {p q : Path} (h : p.name = q.name) : p.suffix = q.suffix := by
  rw [suffix, suffix, h]

namespace DocumentFormat

variable {s s' : String} {format : DocumentFormat}

theorem ofPath_eq_ok_iff : ofPath s = .ok format ↔ ofSuffix? (Path.ofText s).suffix = some format := by
  unfold ofPath
  split
  · next f hf => simp [hf]
  · next hnone => simp [hnone]

theorem ofPath_text (h : ofPath s = .ok format) : ofPath (Path.ofText s).text = .ok format := by
  rwa [ofPath_eq_ok_iff, Path.ofText_text, ← ofPath_eq_ok_iff]

/-- The format of a document follows from the name of its path. -/
theorem ofPath_text_of_name (hname : (Path.ofText s).name = (Path.ofText s').name)
    (h : ofPath (Path.ofText s').text = .ok format) : ofPath (Path.ofText s).text = .ok format := by
  rw [ofPath_eq_ok_iff, Path.ofText_text] at h ⊢
  rwa [Path.suffix_eq_of_name hname]

end DocumentFormat

namespace Document

variable {t u : FileTree} {p q : Path} {v : Value} {w : Written} {es : Entries} {format : DocumentFormat}
  {text : String}

theorem ensureNoNull_eq_ok_iff : ensureNoNull p = .ok () ↔ '\x00' ∉ p.text.toList := by
  unfold ensureNoNull
  split
  · next h => exact ⟨nofun, fun hnot => absurd (by simpa using h) hnot⟩
  · next h => exact ⟨fun _ => by simpa using h, fun _ => rfl⟩

theorem ensureNoNull_parent (h : ensureNoNull p = .ok ()) : ensureNoNull p.parent = .ok () := by
  rw [ensureNoNull_eq_ok_iff] at h ⊢
  rcases p.text_parent with hdot | ⟨rest, hrest⟩
  · rw [hdot]
    decide
  · rw [hrest, String.toList_append] at h
    exact fun hnull => h (List.mem_append_left _ hnull)

/-- A document can be written at the path. -/
def Writable (t : FileTree) (p : Path) : Prop :=
  ensureNoNull p = .ok () ∧ ∃ u, t.ensureDirectory p.parent = .ok u ∧ ∃ files, u.write p (.text "") = .ok files

theorem writable_of_writeFile (h : writeFile t p v = .ok w) : Writable t p := by
  obtain ⟨format, -, h⟩ := bind_eq_ok.mp h
  obtain ⟨text, -, h⟩ := bind_eq_ok.mp h
  obtain ⟨-, -, h⟩ := bind_eq_ok.mp h
  obtain ⟨u, hu, h⟩ := bind_eq_ok.mp h
  obtain ⟨_, hnull, h⟩ := bind_eq_ok.mp h
  obtain ⟨files, hfiles, -⟩ := bind_eq_ok.mp h
  exact ⟨hnull, u, mapError_eq_ok.mp hu, FileTree.write_any (mapError_eq_ok.mp hfiles) _⟩

theorem read_of_readText (h : readText t p = .ok text) :
    ensureNoNull p = .ok () ∧ ∃ content, t.read p = .ok content ∧ content.read = .ok text := by
  obtain ⟨_, hnull, h⟩ := bind_eq_ok.mp h
  refine ⟨hnull, ?_⟩
  split at h
  · next content hread => exact ⟨content, hread, h⟩
  · cases h

/-- Where a document is, another one can be written. -/
theorem writable_of_readFile (h : readFile t p = .ok es) : Writable t p := by
  obtain ⟨text, htext, -⟩ := bind_eq_ok.mp h
  obtain ⟨hnull, content, hread, -⟩ := read_of_readText htext
  obtain ⟨hdirectory, files, hfiles⟩ := FileTree.write_of_read hread (.text "")
  exact ⟨hnull, t, hdirectory, files, hfiles⟩

/-- A value that has a text is written wherever a document can be. -/
theorem writeFile_of_writable (h : Writable t p) (hformat : DocumentFormat.ofPath p.text = .ok format)
    (htext : write format v = .ok text) : ∃ u files, FileTree.Extends t u ∧ u.write p (.text text) = .ok files ∧
      writeFile t p v = .ok ⟨files, text⟩ := by
  obtain ⟨hnull, u, hu, _, hempty⟩ := h
  obtain ⟨files, hfiles⟩ := FileTree.write_any hempty (.text text)
  refine ⟨u, files, FileTree.ensureDirectory_extends hu, hfiles, ?_⟩
  have hparent := ensureNoNull_parent hnull
  simp only [writeFile, hformat, htext, hparent, hu, hnull, hfiles, bind, Except.bind, Except.mapError]

/-- A document that cannot be written leaves all that was there. -/
theorem filesAfterFailure_extends (t : FileTree) (p : Path) (v : Value) : FileTree.Extends t (filesAfterFailure t p v) := by
  unfold filesAfterFailure
  split
  · exact FileTree.attemptParts_extends t _ _
  · exact fun _ _ hn => hn

/-- If only the file itself cannot be written, its directory is there. -/
theorem filesAfterFailure_of_ensureDirectory (hformat : DocumentFormat.ofPath p.text = .ok format)
    (htext : write format v = .ok text) (hnull : ensureNoNull p.parent = .ok ())
    (hu : t.ensureDirectory p.parent = .ok u) : filesAfterFailure t p v = u := by
  have hwritable : ensureWritable p v = .ok () := by
    simp only [ensureWritable, hformat, htext, hnull, bind, Except.bind]
  unfold filesAfterFailure
  rw [hwritable]
  exact FileTree.attemptParts_of_ensureParts hu

/-- A mapping is written as the plain map of its entries. -/
theorem write_of_mapping? (hes : v.mapping? = some es) (h : es.Distinct) (format : DocumentFormat) :
    write format v = writeValue format (Value.map es).thaw := by
  have hput : Value.putFrom [] v = (es, none) := by
    rw [Value.putFrom, hes]
    exact congrArg (fun es => (es, none)) (Entries.putAll_of_distinct h)
  have hentries : Value.toEntries v = .ok es := by
    rw [Value.toEntries, hput]
  simp only [write, hentries, Except.mapError, bind, Except.bind]

section

variable {c : ConfigMap} {cs : List Char}

/-- A configuration is written as its plain entries are. -/
theorem write_asLayer (h : c.entries.Distinct) (format : DocumentFormat) : write format c.asLayer = c.write format :=
  write_of_mapping? rfl h format

/-- The text of a configuration is a line, and is read as the configuration's plain entries. -/
theorem exists_text (h : c.toValue.IsDocument) : ∃ text, write .json c.asLayer = .ok text ∧
    Text.withUnifiedNewlines text = text ∧
    ∀ source, read .json source text = .ok (Value.mapValues (Value.withNaN (Binary64.nan 1)) c.plainEntries) := by
  obtain ⟨hkeys, hdistinct⟩ : c.plainEntries.HasTextKeys ∧ c.plainEntries.Distinct := by
    cases h with
    | map _ hkeys hdistinct _ => exact ⟨hkeys, hdistinct⟩
  have hentries : c.entries.Distinct := by
    simpa [ConfigMap.plainEntries, Value.thawEntries_eq_mapValues, Entries.Distinct, Value.mapValues,
      List.pairwise_map] using hdistinct
  obtain ⟨cs, htext, hcs⟩ := Json.exists_isText h
  rw [ConfigMap.toValue, Value.withNaN_map] at hcs
  have hhead : cs.head? = some '\x7b' := Json.head?_membersIn htext
  have hjson : Json.write c.toValue = .ok (String.ofList cs) := by
    rw [Json.write, htext]
    rfl
  refine ⟨String.ofList cs, ?_, Json.withUnifiedNewlines_of_write hjson, fun source => ?_⟩
  · rw [write_asLayer hentries, ConfigMap.write, writeValue, hjson]
    rfl
  · rw [read, readValue_of_isText hcs hhead]
    exact rootEntries_map (Entries.hasTextKeys_mapValues_iff.mpr hkeys) source

end

/-- A document that is there is read as what its file holds. -/
theorem readFile_of_read {content : FileContent} (hnull : ensureNoNull p = .ok ()) (hread : t.read p = .ok content)
    (hcontent : content.read = .ok text) (hformat : DocumentFormat.ofPath p.text = .ok format) :
    readFile t p = read format p.text text := by
  have htext : readText t p = .ok text := by
    rw [readText, hnull, hread]
    exact hcontent
  rw [readFile, htext]
  simp only [bind, Except.bind, hformat]

/-- Writing a configuration changes one document: its own path and the paths to the same file read its plain entries,
all others read what they read before. -/
theorem readFile_of_writeFile {c : ConfigMap} (h : c.toValue.IsDocument) {s : String}
    (hpath : Writable t (Path.ofText s)) (hformat : DocumentFormat.ofPath (Path.ofText s).text = .ok .json) :
    ∃ w, writeFile t (Path.ofText s) c.asLayer = .ok w ∧ w.files.exists? (Path.ofText s) = .ok true ∧
      readFile w.files (Path.ofText s) = .ok (Value.mapValues (Value.withNaN (Binary64.nan 1)) c.plainEntries) ∧
      ∀ s' es, readFile t (Path.ofText s') = .ok es → readFile w.files (Path.ofText s') = .ok es ∨
        readFile w.files (Path.ofText s') = readFile w.files (Path.ofText s) := by
  obtain ⟨text, hwrite, hlines, hread⟩ := exists_text h
  obtain ⟨u, files, hextends, hfiles, hdone⟩ := writeFile_of_writable hpath hformat hwrite
  have hcontent : (FileContent.text text).read = .ok text := congrArg Except.ok hlines
  have hself : readFile files (Path.ofText s) =
      .ok (Value.mapValues (Value.withNaN (Binary64.nan 1)) c.plainEntries) := by
    rw [readFile_of_read hpath.1 (FileTree.read_write_self hfiles) hcontent hformat, hread]
  refine ⟨⟨files, text⟩, hdone, ?_, hself, fun s' es hes => ?_⟩
  · obtain ⟨-, above, hfollow, -⟩ := FileTree.write_eq_ok hfiles
    refine FileTree.exists?_of_follow ?_ hfollow
    simpa using ensureNoNull_eq_ok_iff.mp hpath.1
  · obtain ⟨old, hold, hrest⟩ := bind_eq_ok.mp hes
    obtain ⟨hnull, content, hplace, hcontents⟩ := read_of_readText hold
    obtain ⟨format', hformat', hread'⟩ := bind_eq_ok.mp hrest
    rcases FileTree.read_write_other hfiles (hextends.read hplace) with hsame | ⟨hnew, hname⟩
    · exact .inl ((readFile_of_read hnull hsame hcontents hformat').trans hread')
    · right
      rw [readFile_of_read hnull hnew hcontent (DocumentFormat.ofPath_text_of_name hname hformat), hread, hself]

end Document
end TopologyConfig
