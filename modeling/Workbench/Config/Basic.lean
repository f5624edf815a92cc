/-
# Configurations

A configuration is read from a TOML document, every part of which may be absent,
and then checked once. A configuration that passed the check is valid
(`Config.Valid`), and the first thing that is wrong with one that did not is
reported.

* `Config.parse` — reads and checks a configuration.
* `Config.fault?` — what is wrong with a configuration.
-/

import Workbench.Config.Settings
import Workbench.Toml.Document
import Workbench.Code.Language
import Workbench.Files.Path

namespace Workbench

open Workbench.Json Workbench.Config Workbench.Files

/-- A configuration. -/
structure Config where
  /-- Where collections are kept. -/
  runtimeDir : String
  editor : EditorSettings := {}
  index : IndexSettings := {}
  embedding : EmbeddingSettings := {}
  generation : GenerationSettings := {}
  shell : ShellSettings := {}
  /-- Where saved patches go, if not to the default place. -/
  patches : Option String := none
  deriving DecidableEq, Repr

namespace Config

/-- Where saved patches go. -/
def patchDir (c : Config) : String :=
  c.patches.getD (Path.below c.runtimeDir "patches")

/-- Where collections are kept by default, for a user with this home directory. -/
def defaultRuntimeDir (home : String) : String :=
  Path.below home ".local/share/patchwright"

/-- The configuration of a user who configured nothing. -/
def default (home : String) : Config :=
  { runtimeDir := defaultRuntimeDir home }

/-- Where the configuration file of a user is. -/
def defaultPath (home : String) : String :=
  Path.below home ".config/patchwright/config.toml"

/-- How a configuration is read. -/
def shape (home : String) : Shape Config where
  name := "Config"
  blank := default home
  fields := [
    setting "runtime_dir" Decode.text fun c x => { c with runtimeDir := x },
    setting "editor" (EditorSettings.shape.decode false) fun c x => { c with editor := x },
    setting "index" (IndexSettings.shape.decode false) fun c x => { c with index := x },
    setting "embedding" (EmbeddingSettings.shape.decode false) fun c x => { c with embedding := x },
    setting "generation" (GenerationSettings.shape.decode false) fun c x =>
      { c with generation := x },
    setting "shell" (ShellSettings.shape.decode false) fun c x => { c with shell := x },
    setting "patch_dir" (Decode.optional Decode.text) fun c x => { c with patches := x }]

/-- Why a configuration is refused. -/
inductive Refusal where
  | malformed
  | noResponse
  | noEntries
  | noShellLimit
  | noChunkSize
  | overlapTooLarge (overlap size : Nat)
  | noBatch
  | noExtension
  | unknownExtension (extension : String)
  | noDims
  | unknownProvider (provider : String)
  | unknownFormat (format : String)
  deriving DecidableEq, Repr

/-- The wording of a refusal. -/
def Refusal.message : Refusal → String
  | malformed => "Failed to parse config file"
  | noResponse => "editor.max_response_chars must be > 0"
  | noEntries => "editor.max_directory_entries must be > 0"
  | noShellLimit => "shell.timeout_secs and shell.max_output_chars must be > 0"
  | noChunkSize => "index.chunk_size must be > 0"
  | overlapTooLarge overlap size =>
      "index.chunk_overlap (" ++ toString overlap ++
        ") must be smaller than index.chunk_size (" ++ toString size ++ ")"
  | noBatch => "index batch sizes must be > 0"
  | noExtension => "index.extensions must list at least one extension"
  | unknownExtension extension =>
      "index.extensions: no grammar registered for '" ++ extension ++ "'. Known: " ++
        ", ".intercalate Code.Registry.builtinExtensions
  | noDims => "embedding.dims must be > 0 for the hashed provider"
  | unknownProvider provider =>
      "Unknown embedding provider: '" ++ provider ++ "'. Must be openai, fastembed, or hashed."
  | unknownFormat format =>
      "Unknown generation api_format: '" ++ format ++ "'. Must be openai or anthropic."

/-- The first thing that is wrong with the limits of the editor and the shell. -/
def limitFault? (c : Config) : Option Refusal :=
  if c.editor.maxResponseChars = 0 then some .noResponse
  else if c.editor.maxDirectoryEntries = 0 then some .noEntries
  else if c.shell.timeoutSecs = 0 ∨ c.shell.maxOutputChars = 0 then some .noShellLimit
  else none

/-- The first thing that is wrong with the settings of the index. -/
def indexFault? (s : IndexSettings) : Option Refusal :=
  if s.chunkSize = 0 then some .noChunkSize
  else if s.chunkSize ≤ s.chunkOverlap then some (.overlapTooLarge s.chunkOverlap s.chunkSize)
  else if s.fileBatchSize = 0 ∨ s.embedBatchSize = 0 then some .noBatch
  else if s.extensions = [] then some .noExtension
  else (s.extensions.find? fun e =>
      Code.normalExtension e ∉ Code.Registry.builtinExtensions).map .unknownExtension

/-- What is wrong with the choice of embeddings. -/
def embeddingFault? (s : EmbeddingSettings) : Option Refusal :=
  if s.provider = "openai" ∨ s.provider = "fastembed" then none
  else if s.provider = "hashed" then if s.dims = 0 then some .noDims else none
  else some (.unknownProvider s.provider)

/-- What is wrong with the choice of a model. -/
def generationFault? (s : GenerationSettings) : Option Refusal :=
  if s.apiFormat = "openai" ∨ s.apiFormat = "anthropic" then none
  else some (.unknownFormat s.apiFormat)

/-- The first thing that is wrong with a configuration. -/
def fault? (c : Config) : Option Refusal :=
  c.limitFault? <|> indexFault? c.index <|> embeddingFault? c.embedding <|>
    generationFault? c.generation

/-- Nothing is wrong with the configuration. -/
def Valid (c : Config) : Prop :=
  c.fault? = none

/-- Reads and checks the configuration of a user with this home directory. -/
def parse (home text : String) : Except Refusal Config :=
  match Toml.parse? text with
  | none => .error .malformed
  | some document =>
      match (shape home).decode false document with
      | .error _ => .error .malformed
      | .ok c =>
          match c.fault? with
          | some refusal => .error refusal
          | none => .ok c

/-- What is read is valid. -/
theorem valid_of_parse {home text : String} {c : Config} (h : parse home text = .ok c) :
    c.Valid := by
  unfold parse at h
  split at h
  · simp at h
  · split at h
    · simp at h
    · split at h
      · simp at h
      · rename_i hf
        simp only [Except.ok.injEq] at h
        exact h ▸ hf

end Config

end Workbench
