/-
# Embedding services

An embedder turns texts into vectors: one over HTTP, one that runs a model, or one that
hashes. What a response over HTTP says is put into the order of the texts by the index that
each of its items names. Models that are run come from elsewhere.

* `Embedder` — its model, the size of its vectors if that is known, and the vectors
  of a batch of texts.
* `Embedding.vectors` — the vectors of a response.
* `ModelLoader` — where models that are run come from.
* `Embedder.ofSettings` — the embedder that a configuration asks for.
-/

import Workbench.Files.Path
import Workbench.Service.Generator
import Workbench.Vector.Hashed

namespace Workbench.Service

open Workbench.Json Workbench.Config Workbench.Vector

/-- Why there are no embeddings. -/
inductive EmbeddingFault where
  | keyMissing (name : String)
  | unknownProvider (provider : String)
  | unknownModel (model : String)
  | unavailableModel (model reason : String)
  | request (chain : Chain)
  | status (code : Nat) (body : String)
  | malformed (chain : Chain)
  | noData
  | noVector
  | count (expected found : Nat)
  | empty
  | otherModel (collection built current : String)
  | modelFailed (reason : String)
  | modelPanicked (reason : String)
  /-- The fault of an embedder that no configuration asks for. -/
  | other (message : String)
  deriving DecidableEq, Repr

/-- The models that run without a service, with the size of their vectors. -/
def localModels : List (String × Nat) := [
  ("all-minilm-l6-v2", 384), ("bge-small-en-v1.5", 384), ("bge-base-en-v1.5", 768),
  ("bge-large-en-v1.5", 1024), ("nomic-embed-text-v1.5", 768)]

/-- The wording of a fault. -/
def EmbeddingFault.message : EmbeddingFault → String
  | keyMissing name => unsetText name
  | unknownProvider provider => "Unknown embedding provider: " ++ provider
  | unknownModel model =>
      "Unknown fastembed model: '" ++ model ++ "'. Supported: " ++
        ", ".intercalate (localModels.map (·.1))
  | unavailableModel model reason =>
      "Failed to load fastembed model " ++ model ++ ": " ++ reason
  | request chain => "Request failed: " ++ chain.outermost
  | status code body => "API error " ++ statusText code ++ ": " ++ body
  | malformed chain => "Invalid response body: " ++ chain.outermost
  | noData => "Response is missing the data array"
  | noVector => "Response item is missing embedding"
  | count expected found =>
      "Expected " ++ toString expected ++ " embeddings, got " ++ toString found
  | empty => "Empty embedding response"
  | otherModel collection built current =>
      "Collection " ++ collection ++ " was built with embedding model " ++ built ++
        " but the current provider is " ++ current
  | modelFailed reason => "fastembed failed: " ++ reason
  | modelPanicked reason => "Embedding task panicked: " ++ reason
  | other message => message

/-- Turns texts into vectors. -/
structure Embedder (σ : Type) where
  /-- The name of the model, by which collections of one model are told from others. -/
  model : String
  /-- The size of the vectors; 0 if that is not known beforehand. -/
  dims : Nat
  embed : List String → σ → Except EmbeddingFault (List Embedding) × σ

namespace Embedder

variable {σ : Type}

/-- The vector of a query. -/
def embedQuery (e : Embedder σ) (query : String) (state : σ) :
    Except EmbeddingFault Embedding × σ :=
  match e.embed [query] state with
  | (.ok (v :: _), state) => (.ok v, state)
  | (.ok [], state) => (.error .empty, state)
  | (.error fault, state) => (.error fault, state)

/-- The embedder that hashes into so many buckets. -/
def hashed (dims : Nat) : Embedder σ where
  model := Hashed.modelName dims
  dims := Hashed.buckets dims
  embed texts state := (.ok (texts.map (Hashed.embed dims)), state)

end Embedder

/-- The item of a response at a position: the index it names, or else its position, and
its vector. -/
def indexedVector (item : Value) (position : Nat) : Except EmbeddingFault (Nat × Embedding) :=
  match (item.field? "embedding").bind Value.items? with
  | some values =>
      .ok (((item.field? "index").bind Value.natural?).getD position,
        values.map fun v => Single.round (v.double?.getD 0.0))
  | none => .error .noVector

/-- The items of a response with their indices. -/
def indexedVectors (body : Value) : Except EmbeddingFault (List (Nat × Embedding)) :=
  match (body.field? "data").bind Value.items? with
  | some items => items.zipIdx.mapM fun (item, position) => indexedVector item position
  | none => .error .noData

/-- The vectors of a response, in the order of their indices. -/
def vectors (body : Value) : Except EmbeddingFault (List Embedding) :=
  (indexedVectors body).map fun items =>
    (items.mergeSort fun a b => decide (a.1 ≤ b.1)).map (·.2)

/-- The vectors that a response gives for so many texts. -/
def readVectors (count : Nat) (r : Response) : Except EmbeddingFault (List Embedding) :=
  if r.isSuccess then
    match r.json with
    | .error chain => .error (.malformed chain)
    | .ok body => do
        let found ← vectors body
        if found.length = count then return found else throw (.count count found.length)
  else .error (.status r.status r.body)

/-- The size of the vectors of models that are known. -/
def knownDims (model : String) : Nat :=
  if model = "text-embedding-3-small" ∨ model = "text-embedding-ada-002" then 1536
  else if model = "text-embedding-3-large" then 3072
  else 0

/-- The request for the vectors of texts. -/
def embeddingRequest (url key model : String) (texts : List String) : Request :=
  ⟨url, [("authorization", "Bearer " ++ key), ("content-type", "application/json")],
    Value.ofFields [("model", .string model), ("input", .array (texts.map .string))]⟩

/-- Why a model that is run gives no vectors. -/
inductive ModelFault where
  | failed (reason : String)
  | panicked (reason : String)
  deriving DecidableEq, Repr

/-- The fault of an embedder that runs the model. -/
def ModelFault.embeddingFault : ModelFault → EmbeddingFault
  | failed reason => .modelFailed reason
  | panicked reason => .modelPanicked reason

/-- A model that runs without a service: the vectors of texts. -/
abbrev LocalModel (σ : Type) := List String → σ → Except ModelFault (List Embedding) × σ

/-- Loads the model of a name, with a directory to keep it in, or says why it cannot. -/
abbrev ModelLoader (σ : Type) := String → String → Except String (LocalModel σ)

namespace Embedder

variable {σ : Type}

/-- The embedder that runs a model. No texts are not passed to it. -/
def running (name : String) (dims : Nat) (model : LocalModel σ) : Embedder σ where
  model := name
  dims := dims
  embed texts state :=
    if texts = [] then (.ok [], state)
    else
      let (result, state) := model texts state
      (result.mapError ModelFault.embeddingFault, state)

/-- The embedder of a service over HTTP. No texts need no request. -/
def remote (url key model : String) (send : Transport σ) : Embedder σ where
  model := model
  dims := knownDims model
  embed texts state :=
    if texts = [] then (.ok [], state)
    else match send (embeddingRequest url key model texts) state with
      | (.ok response, state) => (readVectors texts.length response, state)
      | (.error chain, state) => (.error (.request chain), state)

/-- The embedder of the model of a name, which is loaded. -/
def loaded (name directory : String) (load : ModelLoader σ) :
    Except EmbeddingFault (Embedder σ) :=
  match localModels.lookup name with
  | none => .error (.unknownModel name)
  | some dims =>
      match load name directory with
      | .error reason => .error (.unavailableModel name reason)
      | .ok model => .ok (running name dims model)

/-- The embedder that a configuration asks for, with what is kept in a directory. -/
def ofSettings (s : EmbeddingSettings) (runtimeDir : String) (env : Environment)
    (send : Transport σ) (load : ModelLoader σ) : Except EmbeddingFault (Embedder σ) :=
  if s.provider = "openai" then
    match env s.apiKeyEnv with
    | some key => .ok (remote s.apiUrl key s.modelOrDefault send)
    | none => .error (.keyMissing s.apiKeyEnv)
  else if s.provider = "fastembed" then
    loaded s.modelOrDefault (Files.Path.below runtimeDir "models") load
  else if s.provider = "hashed" then .ok (hashed s.dims)
  else .error (.unknownProvider s.provider)

end Embedder

end Workbench.Service
