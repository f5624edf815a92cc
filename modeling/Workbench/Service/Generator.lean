/-
# Text generation

A generator answers a prompt with a text. One over HTTP speaks either of two
formats, and the format also decides how the key is sent and where in the response
the text is.

* `Generator` — answers prompts, with a state of its own.
* `Generation.client` — the generator of some settings over a transport.
-/

import Workbench.Config.Settings
import Workbench.Service.Http
import Workbench.Text.Letters

namespace Workbench.Service

open Workbench.Json Workbench.Config Workbench.Text

/-- Answers a system prompt and a message of a user, or says why not. -/
abbrev Generator (σ : Type) := String → String → σ → Except Chain String × σ

/-- The variables of the environment. -/
abbrev Environment := String → Option String

/-- What is said of a variable that is not set. -/
def unsetText (name : String) : String :=
  name ++ " environment variable not set"

namespace Generation

/-- The settings name the format with a list of choices. -/
def usesChoices (s : GenerationSettings) : Bool :=
  s.apiFormat == "openai"

/-- A message of a conversation. -/
def message (role content : String) : Value :=
  Value.ofFields [("role", .string role), ("content", .string content)]

/-- The body of a request. -/
def body (s : GenerationSettings) (system user : String) : Value :=
  let common := [("model", .string s.model), ("max_tokens", Value.ofNat s.maxTokens)]
  Value.ofFields <|
    if usesChoices s then
      common ++ [("messages", .array [message "system" system, message "user" user])]
    else
      common ++ [("system", .string system), ("messages", .array [message "user" user])]

/-- The request for a text. -/
def request (s : GenerationSettings) (key system user : String) : Request :=
  let headers :=
    if usesChoices s then [("authorization", "Bearer " ++ key)]
    else [("x-api-key", key), ("anthropic-version", "2023-06-01")]
  ⟨s.apiUrl, headers ++ [("content-type", "application/json")], body s system user⟩

/-- The text of the first choice. -/
def choiceText (v : Value) : String :=
  let text := do
    let choices ← (← v.field? "choices").items?
    let message ← (← choices.head?).field? "message"
    (← message.field? "content").string?
  trim (text.getD "")

/-- The texts of all blocks. -/
def blocksText (v : Value) : String :=
  let blocks := ((v.field? "content").bind Value.items?).getD []
  trim ("".intercalate (blocks.filterMap fun b => (b.field? "text").bind Value.string?))

/-- The text that a response holds. -/
def read (s : GenerationSettings) (r : Response) : Except Chain String :=
  if r.isSuccess then
    match r.json with
    | .ok v => .ok (if usesChoices s then choiceText v else blocksText v)
    | .error chain => .error ("Generation response was not JSON" :: chain)
  else .error ["Generation API error " ++ statusText r.status ++ ": " ++ r.body]

/-- The generator of some settings with a key. -/
def call {σ : Type} (s : GenerationSettings) (key : String) (send : Transport σ) : Generator σ :=
  fun system user state =>
    match send (request s key system user) state with
    | (.ok response, state) => (read s response, state)
    | (.error chain, state) => (.error ("Generation request failed" :: chain), state)

/-- The generator of some settings, if the key is there. -/
def client {σ : Type} (s : GenerationSettings) (env : Environment) (send : Transport σ) :
    Except Chain (Generator σ) :=
  match env s.apiKeyEnv with
  | some key => .ok (call s key send)
  | none => .error [unsetText s.apiKeyEnv, "environment variable not found"]

/-- The generator of some settings that looks for the key only when it is used. -/
def lazyClient {σ : Type} (s : GenerationSettings) (env : Environment) (send : Transport σ) :
    Generator σ :=
  fun system user state =>
    match client s env send with
    | .ok generate => generate system user state
    | .error chain => (.error chain, state)

end Generation

end Workbench.Service
