/-
# Settings

The sections of a configuration. Every setting has a default; a section is read
from a record in which each setting may be absent.

* `EditorSettings`, `IndexSettings`, `EmbeddingSettings`, `GenerationSettings`,
  `ShellSettings` — the sections, each with its `shape`.
-/

import Workbench.Json.Decode

namespace Workbench.Config

open Workbench.Json

/-- A setting that may be absent. -/
def setting {α β : Type} (name : String) (read : Value → Except Fault β) (set : α → β → α) :
    Json.Field α :=
  ⟨name, false, fun v record => (read v).map (set record)⟩

/-- Limits of the editor's answers. -/
structure EditorSettings where
  /-- The most bytes of an answer. -/
  maxResponseChars : Nat := 32000
  /-- Lines shown above and below an edit. -/
  snippetContextLines : Nat := 4
  /-- The most entries of a listing. -/
  maxDirectoryEntries : Nat := 50
  /-- Levels shown when a directory is viewed. -/
  directoryViewDepth : Nat := 2
  deriving DecidableEq, Repr

/-- How the limits of the editor are read. -/
def EditorSettings.shape : Shape EditorSettings where
  name := "EditorConfig"
  blank := {}
  fields := [
    setting "max_response_chars" Decode.size fun s n => { s with maxResponseChars := n },
    setting "snippet_context_lines" Decode.size fun s n => { s with snippetContextLines := n },
    setting "max_directory_entries" Decode.size fun s n => { s with maxDirectoryEntries := n },
    setting "directory_view_depth" Decode.size fun s n => { s with directoryViewDepth := n }]

/-- How a project is indexed. -/
structure IndexSettings where
  /-- Extensions of the files to index. -/
  extensions : List String := ["py", "java"]
  /-- The most bytes of a chunk. -/
  chunkSize : Nat := 1000
  /-- The most bytes that neighbouring chunks share. -/
  chunkOverlap : Nat := 256
  /-- Files read and chunked at a time. -/
  fileBatchSize : Nat := 1000
  /-- Texts embedded at a time. -/
  embedBatchSize : Nat := 64
  defaultCollection : String := "project_knowledge_db"
  /-- The key of a collection holds a digest of the indexed files. -/
  contentHashKey : Bool := false
  deriving DecidableEq, Repr

/-- How the settings of an index are read. -/
def IndexSettings.shape : Shape IndexSettings where
  name := "IndexConfig"
  blank := {}
  fields := [
    setting "extensions" (Decode.list Decode.text) fun s x => { s with extensions := x },
    setting "chunk_size" Decode.size fun s n => { s with chunkSize := n },
    setting "chunk_overlap" Decode.size fun s n => { s with chunkOverlap := n },
    setting "file_batch_size" Decode.size fun s n => { s with fileBatchSize := n },
    setting "embed_batch_size" Decode.size fun s n => { s with embedBatchSize := n },
    setting "default_collection" Decode.text fun s x => { s with defaultCollection := x },
    setting "content_hash_key" Decode.bool fun s b => { s with contentHashKey := b }]

/-- Which embeddings to use. -/
structure EmbeddingSettings where
  provider : String := "openai"
  model : Option String := none
  apiUrl : String := "https://api.openai.com/v1/embeddings"
  /-- The environment variable that holds the key. -/
  apiKeyEnv : String := "OPENAI_API_KEY"
  timeoutSecs : Nat := 30
  /-- The components of a hashed embedding. -/
  dims : Nat := 512
  deriving DecidableEq, Repr

namespace EmbeddingSettings

/-- How the settings of embeddings are read. -/
def shape : Shape EmbeddingSettings where
  name := "EmbeddingConfig"
  blank := {}
  fields := [
    setting "provider" Decode.text fun s x => { s with provider := x },
    setting "model" (Decode.optional Decode.text) fun s x => { s with model := x },
    setting "api_url" Decode.text fun s x => { s with apiUrl := x },
    setting "api_key_env" Decode.text fun s x => { s with apiKeyEnv := x },
    setting "timeout_secs" (Decode.word "u64") fun s n => { s with timeoutSecs := n },
    setting "dims" Decode.size fun s n => { s with dims := n }]

/-- The model, or the one that the provider has by default. -/
def modelOrDefault (s : EmbeddingSettings) : String :=
  match s.model with
  | some model => model
  | none =>
      if s.provider = "fastembed" then "bge-small-en-v1.5"
      else if s.provider = "hashed" then "hashed-" ++ toString s.dims
      else "text-embedding-3-small"

end EmbeddingSettings

/-- Which model explains search results. -/
structure GenerationSettings where
  apiFormat : String := "openai"
  apiUrl : String := "https://api.openai.com/v1/chat/completions"
  model : String := "gpt-4o"
  /-- The environment variable that holds the key. -/
  apiKeyEnv : String := "OPENAI_API_KEY"
  maxTokens : Nat := 4096
  timeoutSecs : Nat := 60
  deriving DecidableEq, Repr

/-- How the settings of generation are read. -/
def GenerationSettings.shape : Shape GenerationSettings where
  name := "GenerationConfig"
  blank := {}
  fields := [
    setting "api_format" Decode.text fun s x => { s with apiFormat := x },
    setting "api_url" Decode.text fun s x => { s with apiUrl := x },
    setting "model" Decode.text fun s x => { s with model := x },
    setting "api_key_env" Decode.text fun s x => { s with apiKeyEnv := x },
    setting "max_tokens" Decode.size fun s n => { s with maxTokens := n },
    setting "timeout_secs" (Decode.word "u64") fun s n => { s with timeoutSecs := n }]

/-- Limits of shell commands. -/
structure ShellSettings where
  /-- Seconds that one call may take. -/
  timeoutSecs : Nat := 120
  /-- The most bytes of the output of a call. -/
  maxOutputChars : Nat := 32000
  deriving DecidableEq, Repr

/-- How the limits of shell commands are read. -/
def ShellSettings.shape : Shape ShellSettings where
  name := "ShellConfig"
  blank := {}
  fields := [
    setting "timeout_secs" (Decode.word "u64") fun s n => { s with timeoutSecs := n },
    setting "max_output_chars" Decode.size fun s n => { s with maxOutputChars := n }]

end Workbench.Config
