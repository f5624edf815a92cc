/-
# Written configurations

A configuration as a JSON value. Its fields have the names under which they are read.
-/

import Workbench.Config.Basic

namespace Workbench.Config

open Workbench.Json

/-- The limits of the editor as a value. -/
def EditorSettings.value (s : EditorSettings) : Value :=
  .ofFields [
    ("max_response_chars", .ofNat s.maxResponseChars),
    ("snippet_context_lines", .ofNat s.snippetContextLines),
    ("max_directory_entries", .ofNat s.maxDirectoryEntries),
    ("directory_view_depth", .ofNat s.directoryViewDepth)]

/-- The settings of the index as a value. -/
def IndexSettings.value (s : IndexSettings) : Value :=
  .ofFields [
    ("extensions", .array (s.extensions.map .string)),
    ("chunk_size", .ofNat s.chunkSize),
    ("chunk_overlap", .ofNat s.chunkOverlap),
    ("file_batch_size", .ofNat s.fileBatchSize),
    ("embed_batch_size", .ofNat s.embedBatchSize),
    ("default_collection", .string s.defaultCollection),
    ("content_hash_key", .bool s.contentHashKey)]

/-- The choice of embeddings as a value. -/
def EmbeddingSettings.value (s : EmbeddingSettings) : Value :=
  .ofFields [
    ("provider", .string s.provider),
    ("model", .ofString? s.model),
    ("api_url", .string s.apiUrl),
    ("api_key_env", .string s.apiKeyEnv),
    ("timeout_secs", .ofNat s.timeoutSecs),
    ("dims", .ofNat s.dims)]

/-- The choice of a model as a value. -/
def GenerationSettings.value (s : GenerationSettings) : Value :=
  .ofFields [
    ("api_format", .string s.apiFormat),
    ("api_url", .string s.apiUrl),
    ("model", .string s.model),
    ("api_key_env", .string s.apiKeyEnv),
    ("max_tokens", .ofNat s.maxTokens),
    ("timeout_secs", .ofNat s.timeoutSecs)]

/-- The limits of the shell as a value. -/
def ShellSettings.value (s : ShellSettings) : Value :=
  .ofFields [
    ("timeout_secs", .ofNat s.timeoutSecs),
    ("max_output_chars", .ofNat s.maxOutputChars)]

/-- The fields of a configuration as a value. -/
def fields (c : Config) : List (String × Value) := [
  ("runtime_dir", .string c.runtimeDir),
  ("editor", c.editor.value),
  ("index", c.index.value),
  ("embedding", c.embedding.value),
  ("generation", c.generation.value),
  ("shell", c.shell.value),
  ("patch_dir", .ofString? c.patches)]

end Workbench.Config
