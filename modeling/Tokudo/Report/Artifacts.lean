import Tokudo.Effect.Files
import Tokudo.Report.Replay
import Tokudo.Wire.Provenance

/-!
# Report artifacts

`report.rs` and `replay.rs` write a report into a directory under stable names: the report as JSON and
as Markdown, for a replay the metrics as well, and last a manifest.  The disk may refuse any step.

* `metadata_reads_back`   a manifest is read back, whatever the order of its fields;
* `artifacts_complete`    **the manifest comes last**: any number of sets are written into directories
                          of their own, and where a manifest has appeared the set is complete, also
                          if its writer has failed or has been interrupted.
-/

namespace Tokudo
open Effect Json

variable {ι : Type}

/-! ## Markdown -/

/-- what the artifacts take from `serde_json`, the float formatting of `std` (`fixed n` is the format
with `n` digits after the point) and `rig-retrieval-evals` -/
structure ReportSerde where
  floats : FloatSerde
  fixed : Nat → ExtF64 → String
  metricsToJson : List MetricReport → Except String String
  metricsToMarkdown : List MetricReport → String

def markdownRow (name baseline tokudo : String) : String :=
  "| " ++ name ++ " | " ++ baseline ++ " | " ++ tokudo ++ " |\n"

namespace Report

def toMarkdown (fixed : Nat → ExtF64 → String) (self : Report) : String :=
  "# tokudo savings report\n\n" ++
  "| Metric | Baseline | Tokudo |\n" ++
  "|---|---:|---:|\n" ++
  markdownRow "Requests" (toString self.baseline.requests) (toString self.tokudo.requests) ++
  markdownRow "Prompt tokens" (toString self.baseline.promptTokens)
    (toString self.tokudo.promptTokens) ++
  markdownRow "Completion tokens" (toString self.baseline.completionTokens)
    (toString self.tokudo.completionTokens) ++
  markdownRow "Wall ms" (toString self.baseline.wallMs) (toString self.tokudo.wallMs) ++
  markdownRow "USD" (fixed 4 (.finite self.baseline.usd)) (fixed 4 (.finite self.tokudo.usd)) ++
  "\n" ++
  "## Deltas\n\n" ++
  "- USD saved: " ++ fixed 4 (.finite self.deltas.usdSaved) ++ "\n" ++
  "- Gross USD delta: " ++ fixed 4 (.finite self.deltas.grossUsdSaved) ++ "\n" ++
  "- Provider cache USD delta: " ++ fixed 4 (.finite self.deltas.providerCacheUsdDelta) ++ "\n" ++
  "- USD saved %: " ++ fixed 2 (.finite (self.deltas.usdSavedPct * 100)) ++ "\n" ++
  "- Cache hit rate: " ++ fixed 2 (.finite (self.deltas.cacheHitRate * 100)) ++ "\n" ++
  "- Cheap-model share: " ++ fixed 2 (.finite (self.deltas.cheapModelShare * 100)) ++ "\n" ++
  "- Speedup: " ++ fixed 2 self.deltas.speedup ++ "x\n" ++
  match self.deltas.qualityScore with
  | none => ""
  | some q => "- Quality score: " ++ fixed 3 (.finite q) ++ "\n"

end Report

/-! ## manifests -/

inductive ReportArtifactKind where
  | savings
  | replay
  deriving DecidableEq

def ReportArtifactKind.name : ReportArtifactKind → String
  | .savings => "savings"
  | .replay => "replay"

def ReportArtifactKind.fromValue : Json → Decode ReportArtifactKind
  | .str "savings" => .ok .savings
  | .str "replay" => .ok .replay
  | _ => .error (.invalidType "enum ReportArtifactKind")

def reportJsonFile : String := "report.json"
def reportMarkdownFile : String := "report.md"
def metricsJsonFile : String := "metrics.json"
def metricsMarkdownFile : String := "metrics.md"
def artifactManifestFile : String := "manifest.json"

structure ReportArtifactMetadata where
  schemaVersion : Nat
  kind : ReportArtifactKind
  label : Option String
  reportJson : String
  reportMarkdown : String
  metricsJson : Option String
  metricsMarkdown : Option String
  deriving DecidableEq

namespace ReportArtifactMetadata

def savings : ReportArtifactMetadata where
  schemaVersion := 1
  kind := .savings
  label := none
  reportJson := reportJsonFile
  reportMarkdown := reportMarkdownFile
  metricsJson := none
  metricsMarkdown := none

def replay : ReportArtifactMetadata where
  schemaVersion := 1
  kind := .replay
  label := none
  reportJson := reportJsonFile
  reportMarkdown := reportMarkdownFile
  metricsJson := some metricsJsonFile
  metricsMarkdown := some metricsMarkdownFile

def withLabel (self : ReportArtifactMetadata) (label : String) : ReportArtifactMetadata :=
  { self with label := some label }

def toFields (self : ReportArtifactMetadata) : List (String × Json) :=
  [("schema_version", .ofNat self.schemaVersion), ("kind", .str self.kind.name)] ++
  skipNone "label" .str self.label ++
  [("report_json", .str self.reportJson), ("report_markdown", .str self.reportMarkdown)] ++
  skipNone "metrics_json" .str self.metricsJson ++
  skipNone "metrics_markdown" .str self.metricsMarkdown

def fromFields (fields : List (String × Json)) : Decode ReportArtifactMetadata := do
  let schemaVersion ← requireField "schema_version" u32FromValue fields
  let kind ← requireField "kind" ReportArtifactKind.fromValue fields
  let label ← defaultField "label" none optionStringFromValue fields
  let reportJson ← requireField "report_json" stringFromValue fields
  let reportMarkdown ← requireField "report_markdown" stringFromValue fields
  let metricsJson ← defaultField "metrics_json" none optionStringFromValue fields
  let metricsMarkdown ← defaultField "metrics_markdown" none optionStringFromValue fields
  .ok { schemaVersion, kind, label, reportJson, reportMarkdown, metricsJson, metricsMarkdown }

def fromValue : Json → Decode ReportArtifactMetadata
  | .obj fields => fromFields fields
  | _ => .error (.invalidType "struct ReportArtifactMetadata")

def toJson (self : ReportArtifactMetadata) : String := prettyText (.obj self.toFields)

def fromJson (text : String) : Decode ReportArtifactMetadata :=
  match read text.toList with
  | some v => fromValue v
  | none => .error .notJson

def fieldNames : List String :=
  ["schema_version", "kind", "label", "report_json", "report_markdown", "metrics_json",
    "metrics_markdown"]

theorem names_sublist (self : ReportArtifactMetadata) :
    (self.toFields.map Prod.fst).Sublist fieldNames := by
  simp only [toFields, List.map_append]
  exact ((((List.Sublist.refl _).append (names_skipNone "label" .str self.label)).append
    (List.Sublist.refl _)).append (names_skipNone "metrics_json" .str self.metricsJson)).append
    (names_skipNone "metrics_markdown" .str self.metricsMarkdown)

theorem name_mem_toFields {self : ReportArtifactMetadata} {name : String} :
    name ∈ self.toFields.map Prod.fst ↔ name ∈ ["schema_version", "kind"] ∨
      self.label.isSome ∧ name = "label" ∨ name ∈ ["report_json", "report_markdown"] ∨
      self.metricsJson.isSome ∧ name = "metrics_json" ∨
      self.metricsMarkdown.isSome ∧ name = "metrics_markdown" := by
  simp only [toFields, List.map_append, List.mem_append, name_mem_skipNone, List.map_cons,
    List.map_nil, or_assoc]

theorem read_of_carries {self : ReportArtifactMetadata} (h : self.schemaVersion ≤ u32Max)
    {fields : List (String × Json)} (hf : Carries fieldNames self.toFields fields) :
    fromFields fields = .ok self := by
  have hversion : requireField "schema_version" u32FromValue fields = .ok self.schemaVersion :=
    requireField_of_carries _ hf (by decide) (by simp [toFields]) (u32FromValue_ofNat h)
  have hkind : requireField "kind" ReportArtifactKind.fromValue fields = .ok self.kind := by
    refine requireField_of_carries (v := .str self.kind.name) _ hf (by decide) (by simp [toFields]) ?_
    cases self.kind <;> rfl
  have str {name s : String} (hn : name ∈ fieldNames) (hm : (name, Json.str s) ∈ self.toFields) :
      requireField name stringFromValue fields = .ok s :=
    requireField_of_carries _ hf hn hm rfl
  have optional {name : String} {s : Option String} (hn : name ∈ fieldNames)
      (hsome : ∀ p ∈ skipNone name Json.str s, p ∈ self.toFields)
      (hnone : s = none → name ∉ self.toFields.map Prod.fst) :
      defaultField name none optionStringFromValue fields = .ok s :=
    noneField_of_carries hf hn (fun _ => rfl) hsome hnone
  have hreportJson := @str "report_json" self.reportJson (by decide) (by simp [toFields])
  have hreportMarkdown := @str "report_markdown" self.reportMarkdown (by decide) (by simp [toFields])
  have hlabel := @optional "label" self.label (by decide) (fun p hp => by simp [toFields, hp])
    (fun hz => by rw [name_mem_toFields]; simp [hz])
  have hmetricsJson := @optional "metrics_json" self.metricsJson (by decide)
    (fun p hp => by simp [toFields, hp]) (fun hz => by rw [name_mem_toFields]; simp [hz])
  have hmetricsMarkdown := @optional "metrics_markdown" self.metricsMarkdown (by decide)
    (fun p hp => by simp [toFields, hp]) (fun hz => by rw [name_mem_toFields]; simp [hz])
  unfold fromFields
  rw [hversion, hkind, hlabel, hreportJson, hreportMarkdown, hmetricsJson, hmetricsMarkdown]
  rfl

theorem fromJson_toJson {self : ReportArtifactMetadata} (h : self.schemaVersion ≤ u32Max)
    {fields : List (String × Json)} (hf : Carries fieldNames self.toFields fields) :
    fromJson (prettyText (.obj fields)) = .ok self := by
  unfold fromJson prettyText
  rw [String.toList_ofList, read_pretty]
  exact read_of_carries h hf

theorem carries_toFields (self : ReportArtifactMetadata) :
    Carries fieldNames self.toFields self.toFields :=
  carries_self (self.names_sublist.nodup (by decide)) fun p hp =>
    self.names_sublist.subset (List.mem_map_of_mem hp)

end ReportArtifactMetadata

/-! ## the writers -/

/-- a path is the list of its components -/
abbrev Path := List String

def Path.join (directory : Path) (name : String) : Path := directory ++ [name]

structure ReportArtifactPaths where
  directory : Path
  reportJson : Path
  reportMarkdown : Path
  metricsJson : Option Path
  metricsMarkdown : Option Path
  manifestJson : Path

namespace ReportArtifactPaths

def savings (directory : Path) : ReportArtifactPaths where
  directory := directory
  reportJson := directory.join reportJsonFile
  reportMarkdown := directory.join reportMarkdownFile
  metricsJson := none
  metricsMarkdown := none
  manifestJson := directory.join artifactManifestFile

def replay (directory : Path) : ReportArtifactPaths where
  directory := directory
  reportJson := directory.join reportJsonFile
  reportMarkdown := directory.join reportMarkdownFile
  metricsJson := some (directory.join metricsJsonFile)
  metricsMarkdown := some (directory.join metricsMarkdownFile)
  manifestJson := directory.join artifactManifestFile

end ReportArtifactPaths

/-- a step of the writers: the disk answers with an error of the system, or not -/
abbrev Writing (α : Type) := Fallible (Files Path String) TokudoError α

def reportIoError (err : String) : TokudoError := .report ("write report artifact: " ++ err)

def reportSerdeError (err : String) : TokudoError := .report ("serialize report artifact: " ++ err)

def writeString (path : Path) (value : String) : Writing Unit := writeFile reportIoError path value

/-- no value of a manifest is refused by the writer -/
def writeManifest (path : Path) (metadata : ReportArtifactMetadata) : Writing Unit :=
  writeString path metadata.toJson

section
variable (serde : ReportSerde)

def Report.writeArtifactsWithMetadata (self : Report) (directory : Path)
    (metadata : ReportArtifactMetadata) : Writing ReportArtifactPaths := do
  createDirAll reportIoError directory
  let paths := ReportArtifactPaths.savings directory
  let json ← liftExcept (self.toJson serde.floats)
  writeString paths.reportJson json
  writeString paths.reportMarkdown (self.toMarkdown serde.fixed)
  writeManifest paths.manifestJson metadata
  return paths

def Report.writeArtifacts (self : Report) (directory : Path) : Writing ReportArtifactPaths :=
  self.writeArtifactsWithMetadata serde directory .savings

def ReplayReport.writeArtifactsWithMetadata (self : ReplayReport) (directory : Path)
    (metadata : ReportArtifactMetadata) : Writing ReportArtifactPaths := do
  createDirAll reportIoError directory
  let paths := ReportArtifactPaths.replay directory
  let json ← liftExcept (self.savings.toJson serde.floats)
  writeString paths.reportJson json
  writeString paths.reportMarkdown (self.savings.toMarkdown serde.fixed)
  match paths.metricsJson with
  | some metricsJson =>
    let json ← liftExcept ((serde.metricsToJson self.metrics).mapError reportSerdeError)
    writeString metricsJson json
  | none => pure ()
  match paths.metricsMarkdown with
  | some metricsMarkdown => writeString metricsMarkdown (serde.metricsToMarkdown self.metrics)
  | none => pure ()
  writeManifest paths.manifestJson metadata
  return paths

def ReplayReport.writeArtifacts (self : ReplayReport) (directory : Path) :
    Writing ReportArtifactPaths :=
  self.writeArtifactsWithMetadata serde directory .replay

end

/-- the two kinds of reports that are written -/
inductive ArtifactSet where
  | savings (report : Report)
  | replay (report : ReplayReport)

namespace ArtifactSet
variable (serde : ReportSerde)

def write (self : ArtifactSet) (directory : Path) (metadata : ReportArtifactMetadata) :
    Writing ReportArtifactPaths :=
  match self with
  | .savings report => report.writeArtifactsWithMetadata serde directory metadata
  | .replay report => report.writeArtifactsWithMetadata serde directory metadata

/-- the files of a set, without the manifest -/
def artifacts (self : ArtifactSet) (directory : Path) : List (Path × String) :=
  match self with
  | .savings report =>
    [(directory.join reportJsonFile, prettyText (.obj (report.toFields serde.floats))),
      (directory.join reportMarkdownFile, report.toMarkdown serde.fixed)]
  | .replay report =>
    [(directory.join reportJsonFile, prettyText (.obj (report.savings.toFields serde.floats))),
      (directory.join reportMarkdownFile, report.savings.toMarkdown serde.fixed),
      (directory.join metricsJsonFile, (serde.metricsToJson report.metrics).toOption.getD ""),
      (directory.join metricsMarkdownFile, serde.metricsToMarkdown report.metrics)]

def layout (self : ArtifactSet) (directory : Path) (metadata : ReportArtifactMetadata) :
    List (Path × String) :=
  self.artifacts serde directory ++ [(directory.join artifactManifestFile, metadata.toJson)]

def fileNames : ArtifactSet → List String
  | .savings _ => [reportJsonFile, reportMarkdownFile, artifactManifestFile]
  | .replay _ => [reportJsonFile, reportMarkdownFile, metricsJsonFile, metricsMarkdownFile,
      artifactManifestFile]

variable {serde} {self : ArtifactSet} {directory : Path} {metadata : ReportArtifactMetadata}

theorem paths_layout :
    (self.layout serde directory metadata).map Prod.fst = self.fileNames.map directory.join := by
  cases self <;> rfl

theorem join_inj {directory directory' : Path} {name name' : String}
    (h : directory.join name = directory'.join name') : directory = directory' ∧ name = name' := by
  obtain ⟨hd, hn⟩ := List.append_inj' h rfl
  exact ⟨hd, List.singleton_inj.mp hn⟩

theorem layout_nodup : ((self.layout serde directory metadata).map Prod.fst).Nodup := by
  rw [paths_layout]
  refine List.Nodup.map (fun name name' h => (join_inj h).2) ?_
  cases self
  · show [reportJsonFile, reportMarkdownFile, artifactManifestFile].Nodup
    decide
  · show [reportJsonFile, reportMarkdownFile, metricsJsonFile, metricsMarkdownFile,
      artifactManifestFile].Nodup
    decide

/-- **The writers write their layouts**, the manifest last. -/
theorem writer_write (serde : ReportSerde) (self : ArtifactSet) (directory : Path)
    (metadata : ReportArtifactMetadata) :
    Writer (self.layout serde directory metadata) (self.write serde directory metadata) := by
  cases self with
  | savings report =>
    refine writer_createDirAll_bind fun _ => writer_liftExcept fun json hjson => ?_
    cases hjson
    exact writer_writeFile_bind fun _ => writer_writeFile_bind fun _ => writer_writeFile_bind
      fun _ => writer_pure (ReportArtifactPaths.savings directory)
  | replay report =>
    refine writer_createDirAll_bind fun _ => writer_liftExcept fun json hjson => ?_
    cases hjson
    refine writer_writeFile_bind fun _ => writer_writeFile_bind fun _ => ?_
    refine writer_liftExcept fun metrics hmetrics => ?_
    have htext : (serde.metricsToJson report.metrics).toOption.getD "" = metrics := by
      cases hm : serde.metricsToJson report.metrics with
      | error e =>
        rw [hm] at hmetrics
        cases hmetrics
      | ok text =>
        rw [hm] at hmetrics
        cases hmetrics
        rfl
    rw [htext]
    exact writer_writeFile_bind fun _ => writer_writeFile_bind fun _ => writer_writeFile_bind
      fun _ => writer_pure (ReportArtifactPaths.replay directory)

end ArtifactSet

/-! ## main results -/

/-- **A manifest is read back** from the text that is written, and from the text of every object that
carries its fields: they may be in any order, and among others. -/
theorem metadata_reads_back {metadata : ReportArtifactMetadata}
    (h : metadata.schemaVersion ≤ u32Max) :
    ReportArtifactMetadata.fromJson metadata.toJson = .ok metadata ∧
    ∀ fields, Carries ReportArtifactMetadata.fieldNames metadata.toFields fields →
      ReportArtifactMetadata.fromJson (prettyText (.obj fields)) = .ok metadata :=
  ⟨metadata.fromJson_toJson h metadata.carries_toFields, fun _ hf => metadata.fromJson_toJson h hf⟩

/-- a replay with a label, and a field that an older reader does not know -/
theorem labelled_reads_back :
    ReportArtifactMetadata.fromJson (prettyText (.obj (("host", .str "a") ::
      (ReportArtifactMetadata.replay.withLabel "nightly").toFields.reverse))) =
      .ok (ReportArtifactMetadata.replay.withLabel "nightly") := by
  obtain ⟨-, hread⟩ := @metadata_reads_back (ReportArtifactMetadata.replay.withLabel "nightly")
    (by decide)
  refine hread _ ⟨(ReportArtifactMetadata.names_sublist _).nodup (by decide), ?_⟩
  exact List.reverse_perm (ReportArtifactMetadata.replay.withLabel "nightly").toFields

/-- any number of sets, each written into a directory -/
def writing (serde : ReportSerde) (sets : ι → ArtifactSet) (directories : ι → Path)
    (metadata : ι → ReportArtifactMetadata) (s : Path → Option String) :
    Pool (Files Path String) ι (Result ReportArtifactPaths) (Path → Option String) :=
  ⟨fun i => ExceptT.run ((sets i).write serde (directories i) (metadata i)), s⟩

/-- **The manifest comes last.**  Sets are written into directories of their own, in any interleaving;
any step may fail, and any writer may have been interrupted.  Who has returned `Ok` has left all of
his artifacts and a manifest that is read back.  Where a manifest has appeared all artifacts of the
set are there.  No other file has changed; directories may have been created. -/
theorem artifacts_complete [DecidableEq ι] {serde : ReportSerde} {sets : ι → ArtifactSet}
    {directories : ι → Path} {metadata : ι → ReportArtifactMetadata}
    (hdirs : Function.Injective directories) (hversion : ∀ i, (metadata i).schemaVersion ≤ u32Max)
    {s : Path → Option String} {log : List (ι × Event (Files Path String))}
    {d : Pool (Files Path String) ι (Result ReportArtifactPaths) (Path → Option String)}
    (h : Exec disk (writing serde sets directories metadata s) log d) :
    (∀ i paths, d.threads i = .ret (.ok paths) →
      (∀ f ∈ (sets i).artifacts serde (directories i), d.shared f.1 = some f.2) ∧
      ∃ text, d.shared ((directories i).join artifactManifestFile) = some text ∧
        ReportArtifactMetadata.fromJson text = .ok (metadata i)) ∧
    (∀ i, s ((directories i).join artifactManifestFile) = none →
      d.shared ((directories i).join artifactManifestFile) ≠ none →
      ∀ f ∈ (sets i).artifacts serde (directories i), d.shared f.1 = some f.2) ∧
    ∀ p, (∀ i, ∀ name ∈ (sets i).fileNames, p ≠ (directories i).join name) → d.shared p = s p := by
  have hown (i j : ι) (p : Path)
      (hi : p ∈ ((sets i).layout serde (directories i) (metadata i)).map Prod.fst)
      (hj : p ∈ ((sets j).layout serde (directories j) (metadata j)).map Prod.fst) : i = j := by
    rw [ArtifactSet.paths_layout] at hi hj
    obtain ⟨name, -, rfl⟩ := List.mem_map.mp hi
    obtain ⟨name', -, hname⟩ := List.mem_map.mp hj
    exact hdirs (ArtifactSet.join_inj hname).1.symm
  obtain ⟨hdone, hfront, hframe⟩ := files_of_exec
    (fun i => (sets i).writer_write serde (directories i) (metadata i))
    (fun i => ArtifactSet.layout_nodup) hown h
  refine ⟨fun i paths hi => ⟨fun f hf => ?_, ?_⟩, fun i hnone hsome f hf => ?_, fun p hp => ?_⟩
  · exact hdone i paths hi f (List.mem_append_left _ hf)
  · exact ⟨_, hdone i paths hi _ (List.mem_append_right _ List.mem_cons_self),
      (metadata_reads_back (hversion i)).1⟩
  · exact hfront i _ _ rfl hnone hsome f hf
  · refine hframe p fun i hm => ?_
    rw [ArtifactSet.paths_layout] at hm
    obtain ⟨name, hname, rfl⟩ := List.mem_map.mp hm
    exact hp i name hname rfl

def plainSerde : ReportSerde where
  floats := decimalFloats
  fixed _ _ := "0"
  metricsToJson _ := .error "metrics"
  metricsToMarkdown _ := ""

/-- a report, and a replay whose metrics cannot be written -/
def twoSets : Bool → ArtifactSet
  | false => .savings (.fromRuns answeredRun (cachedRun 2) none)
  | true => .replay ⟨.fromRuns answeredRun (cachedRun 2) none, []⟩

/-- they take turns -/
def twoWriters :=
  schedule willingDisk (List.replicate 8 [false, true]).flatten
    (writing plainSerde twoSets (fun i => [toString i]) (fun _ => .savings) fun _ => none)

/-- the report is written, and the files of the replay that has failed are not in its way -/
theorem first_set_complete :
    (∀ f ∈ (twoSets false).artifacts plainSerde ["false"], twoWriters.2.shared f.1 = some f.2) ∧
      twoWriters.2.shared ["true", artifactManifestFile] = none := by
  have hdirs : Function.Injective fun i : Bool => ([toString i] : Path) := by
    intro i j h
    cases i <;> cases j <;> first | rfl | exact absurd h (by decide)
  have hexec := exec_schedule willingDisk disk_of_willing
    (List.replicate 8 [false, true]).flatten
    (writing plainSerde twoSets (fun i => [toString i]) (fun _ => .savings) fun _ => none)
  obtain ⟨hdone, -, -⟩ := artifacts_complete hdirs (fun _ => by decide) hexec
  exact ⟨(hdone false _ rfl).1, rfl⟩

end Tokudo
