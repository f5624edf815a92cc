/-
# Results of calls

A call ends in an output, or in an error and no output, whichever tool it calls and whatever it
does. What is written of a result is one line of JSON, from which the result is read back. A call
that is refused, since there is no such tool or its parameters are not as they should be, has
done nothing.

* `Result.Proper` — a result is an output, or an error and no output.
* `Result.Refused` — a call is refused as no call of a tool.
* `Sound` — a tool has proper results, and does nothing when it refuses a call.
* `Session.sound_tools` — **the tools of a session are sound**.
* `Call.Valid`, `Session.refused_of_not_valid` — **a call that is not valid is refused**.
-/

import Mathlib.Data.List.Basic
import Workbench.Proofs.Attempt
import Workbench.Proofs.Json.Compact
import Workbench.Tool.Session

namespace Workbench.Tool

open Workbench.Json Workbench.Files Workbench.Index

namespace Result

/-- A result is an output, or an error and no output. -/
inductive Proper : Result → Prop where
  | done (output : String) : Proper (.done output)
  | failed (message : String) : Proper (.failed message)

/-- A call is refused: no tool has its name, or its parameters are not as they should be. -/
def Refused (r : Result) : Prop :=
  ∃ kind ∈ ["UnknownToolError", "InvalidParameterError"], ∃ message, r = .failedAs kind message

variable {r : Result} {kind message : String}

theorem Proper.error_iff (h : r.Proper) : r.error.isSome = true ↔ r.ok = false := by
  cases h <;> simp [Result.done, Result.failed]

theorem Proper.output_eq (h : r.Proper) (hfailed : r.ok = false) : r.output = "" := by
  cases h with
  | done => cases hfailed
  | failed => rfl

theorem proper_failedAs (kind message : String) : (failedAs kind message).Proper :=
  .failed _

theorem refused_misused (detail : String) : (misused detail).Refused :=
  ⟨_, by simp, detail, rfl⟩

theorem not_refused_done (output : String) : ¬ (done output).Refused := by
  rintro ⟨kind, -, message, h⟩
  cases h

/-- The kind of an error is what stands before its first colon. -/
theorem kind_eq_of_failedAs {other message' : String}
    (h : failedAs kind message = failedAs other message') (hkind : ':' ∉ kind.toList)
    (hother : ':' ∉ other.toList) : kind = other := by
  have htext : kind ++ ": " ++ message = other ++ ": " ++ message' := by
    simpa [failedAs, failed] using h
  have hbefore {s : List Char} (hs : ':' ∉ s) (rest : List Char) :
      (s ++ ':' :: rest).takeWhile (· != ':') = s := by
    have hall : ∀ c ∈ s, (c != ':') = true := by
      intro c mem
      rw [bne_iff_ne]
      rintro rfl
      exact hs mem
    rw [List.takeWhile_append_of_pos hall]
    simp
  have hsplit := congrArg (fun s : String => s.toList.takeWhile (· != ':')) htext
  simp only [String.toList_append, show ": ".toList = [':', ' '] from rfl, List.append_assoc,
    List.cons_append, hbefore hkind, hbefore hother] at hsplit
  exact String.toList_inj.mp hsplit

/-- An error of another kind is no refusal. -/
theorem not_refused_failedAs (hcolon : ':' ∉ kind.toList)
    (hkind : kind ∉ ["UnknownToolError", "InvalidParameterError"]) (message : String) :
    ¬ (failedAs kind message).Refused := by
  rintro ⟨other, mem, message', h⟩
  have hother : ':' ∉ other.toList := by
    simp only [List.mem_cons, List.not_mem_nil, or_false] at mem
    rcases mem with rfl | rfl <;> decide
  exact hkind (kind_eq_of_failedAs h hcolon hother ▸ mem)

/-! ### Written results -/

theorem textual_json (r : Result) : Textual 1 r.json := by
  refine .object fun f mem => ?_
  cases herror : r.error with
  | none =>
      simp only [herror, Option.map_none, Option.toList_none, List.append_nil, List.mem_cons,
        List.not_mem_nil, or_false] at mem
      rcases mem with rfl | rfl
      · exact .bool ..
      · exact .string ..
  | some e =>
      simp only [herror, Option.map_some, Option.toList_some, List.cons_append, List.nil_append,
        List.mem_cons, List.not_mem_nil, or_false] at mem
      rcases mem with rfl | rfl | rfl
      · exact .bool ..
      · exact .string ..
      · exact .string ..

/-- **A written result is read back**, and has an error where the result has one. -/
theorem parse_json (r : Result) :
    ∃ v, Value.parse r.json.compact = .ok v ∧ Result.shape.decode true v = .ok r ∧
      (v.field? "error").isSome = r.error.isSome := by
  refine ⟨_, Value.parse_compact r.textual_json (by decide), ?_⟩
  obtain ⟨ok, output, error⟩ := r
  cases error with
  | none => exact ⟨rfl, rfl⟩
  | some e => exact ⟨rfl, rfl⟩

/-- **A written result is one line.** -/
theorem newline_not_mem (r : Result) : '\n' ∉ r.json.compact.toList := by
  rw [Value.compact, String.toList_ofList]
  intro mem
  exact absurd (r.textual_json.printable _ mem) (by decide)

end Result

/-! ### Tools -/

section

variable {α β σ : Type}

/-- A call that began in a state has a proper result, and leaves the state as it is when it is
refused. -/
structure Orderly (state : σ) (ended : Result × σ) : Prop where
  proper : ended.1.Proper
  refused : ended.1.Refused → ended.2 = state

/-- All calls of a tool are orderly. -/
def Sound (tool : Callable σ) : Prop :=
  ∀ v state, Orderly state (tool.run v state)

theorem orderly_done (state after : σ) (output : String) : Orderly state (.done output, after) :=
  ⟨.done output, fun h => absurd h (Result.not_refused_done output)⟩

theorem orderly_misused (state : σ) (detail : String) : Orderly state (.misused detail, state) :=
  ⟨.failed _, fun _ => rfl⟩

/-- An error of a kind that is no refusal may leave any state. -/
theorem orderly_failedAs {kind : String} (hcolon : ':' ∉ kind.toList)
    (hkind : kind ∉ ["UnknownToolError", "InvalidParameterError"]) (state after : σ)
    (message : String) : Orderly state (.failedAs kind message, after) :=
  ⟨.failed _, fun h => absurd h (Result.not_refused_failedAs hcolon hkind message)⟩

theorem orderly_withParameters {shape : Shape α} {state : σ} {act : α → σ → Result × σ}
    (h : ∀ p, Orderly state (act p state)) (v : Value) :
    Orderly state (withParameters shape v state act) := by
  unfold withParameters
  cases shape.decode true v with
  | ok p => exact h p
  | error fault => exact orderly_misused state _

/-- A tool is sound on a state of which its own state is a part. -/
theorem Sound.lift {tool : Callable α} (h : Sound tool) {get : β → α} {put : α → β → β}
    (hput : ∀ state, put (get state) state = state) : Sound (tool.lift get put) := by
  intro v state
  obtain ⟨hproper, hrefused⟩ := h v (get state)
  refine ⟨hproper, fun hcall => ?_⟩
  change put (tool.run v (get state)).2 state = state
  rw [hrefused hcall, hput]

end

/-! ### The editor -/

variable {e : Editor} {desk : Editor.Desk}

theorem proper_ofAnswer (answer : Except Editor.Refusal String) : (ofAnswer answer).Proper := by
  cases answer with
  | ok output => exact .done output
  | error refusal => exact Result.proper_failedAs _ _

/-- Of the refusals of the editor only misuses are refusals of a call. -/
theorem exists_misuse_of_refused {answer : Except Editor.Refusal String}
    (h : (ofAnswer answer).Refused) : ∃ misuse, answer = .error (.misuse misuse) := by
  cases answer with
  | ok output => exact absurd h (Result.not_refused_done output)
  | error refusal =>
      cases refusal with
      | misuse misuse => exact ⟨misuse, rfl⟩
      | _ =>
          refine absurd h (Result.not_refused_failedAs ?_ ?_ _) <;>
            dsimp only [Editor.Refusal.kind] <;> decide

section Unchanged

variable {refusal : Editor.Refusal} (haccess : ∀ path fault, refusal ≠ .access path fault)

include haccess

/-- What is written back is remembered, or it fails as an access. -/
theorem desk_eq_of_commit_refused {path : String} {place : Path} {operation : Editor.Operation}
    {content : String} {updated : List Char} {first span : Nat}
    (h : (e.commit desk path place operation content updated first span).1 = .error refusal) :
    (e.commit desk path place operation content updated first span).2 = desk := by
  unfold Editor.commit at h ⊢
  split at h
  · exact absurd (Except.error.inj h).symm (haccess _ _)
  · cases h

theorem desk_eq_of_create_refused {path text : String}
    (h : (e.create desk path text).1 = .error refusal) : (e.create desk path text).2 = desk := by
  unfold Editor.create at h ⊢
  split at h
  · rfl
  · split at h
    · next hthere => rw [if_pos hthere]
    · split at h
      · exact absurd (Except.error.inj h).symm (haccess _ _)
      · split at h
        · exact absurd (Except.error.inj h).symm (haccess _ _)
        · cases h

theorem desk_eq_of_undo_refused {path : String} (h : (e.undo desk path).1 = .error refusal) :
    (e.undo desk path).2 = desk := by
  unfold Editor.undo at h ⊢
  split at h
  · rfl
  · split at h
    · rfl
    · split at h
      · cases h
      · exact absurd (Except.error.inj h).symm (haccess _ _)

/-- **A request that is refused** without an access to the files changes nothing. -/
theorem desk_eq_of_refused {request : Editor.Request}
    (hrefused : (e.answer desk request).1 = .error refusal) :
    (e.answer desk request).2 = desk := by
  cases request with
  | view => rfl
  | viewDirectory => rfl
  | create path text => exact desk_eq_of_create_refused haccess hrefused
  | replace path old new =>
      simp only [Editor.answer, Editor.replace] at hrefused ⊢
      split at hrefused
      · rfl
      · exact desk_eq_of_commit_refused haccess hrefused
  | insert path line text =>
      simp only [Editor.answer, Editor.insert] at hrefused ⊢
      split at hrefused
      · rfl
      · exact desk_eq_of_commit_refused haccess hrefused
  | undo path => exact desk_eq_of_undo_refused haccess hrefused

end Unchanged

theorem orderly_ask (e : Editor) (request : Editor.Request) (desk : Editor.Desk) :
    Orderly desk (ask e request desk) := by
  refine ⟨proper_ofAnswer _, fun h => ?_⟩
  obtain ⟨misuse, hmisuse⟩ := exists_misuse_of_refused h
  exact desk_eq_of_refused (by simp) hmisuse

theorem sound_editing (e : Editor) : Sound (editing e) := by
  intro v desk
  unfold editing
  dsimp only
  refine orderly_withParameters (fun p => ?_) v
  cases p.request with
  | ok request => exact orderly_ask e request desk
  | error misuse => exact orderly_misused desk _

theorem sound_listing (e : Editor) : Sound (listing e) := by
  intro v desk
  unfold listing
  dsimp only
  refine orderly_withParameters (fun p => ?_) v
  exact orderly_ask e (.viewDirectory p.directory p.depth) desk

/-! ### Searches and commands -/

theorem sound_searching {σ : Type} (s : Searcher σ) : Sound (searching s) := by
  intro v state
  unfold searching
  dsimp only
  refine orderly_withParameters (fun p => ?_) v
  split
  · exact orderly_done ..
  · next fault after _ =>
      refine orderly_failedAs ?_ ?_ .. <;> cases fault <;> dsimp only [IndexFault.kind] <;> decide

theorem sound_commanding (shell : Shell) (root : Path) (limits : Config.ShellSettings) :
    Sound (commanding shell root limits) := by
  intro v tree
  unfold commanding
  dsimp only
  refine orderly_withParameters (fun p => ?_) v
  split
  · exact orderly_misused ..
  · split
    · exact orderly_done ..
    · next fault _ _ =>
        refine orderly_failedAs ?_ ?_ .. <;> cases fault <;> dsimp only [ShellFault.kind] <;> decide

/-! ### The tools of a session -/

namespace Registry

variable {σ : Type} {tool other : Callable σ} {tools : List (Callable σ)}

theorem mem_put (h : tool ∈ put other tools) : tool = other ∨ tool ∈ tools := by
  induction tools with
  | nil => exact .inl (List.mem_singleton.mp h)
  | cons first rest ih =>
      rw [put] at h
      split at h
      · exact List.mem_cons.mp h
      · split at h
        · exact (List.mem_cons.mp h).imp_right (List.mem_cons_of_mem _)
        · rcases List.mem_cons.mp h with rfl | h
          · exact .inr (.head _)
          · exact (ih h).imp_right (List.mem_cons_of_mem _)

/-- A tool that is called by a name has that name. -/
theorem get?_eq_some {r : Registry σ} {name : String} (h : r.get? name = some tool) :
    tool ∈ r.tools ∧ tool.name = name :=
  ⟨List.mem_of_find?_eq_some h, by simpa using List.find?_some h⟩

end Registry

namespace Session

variable {σ : Type} {s : Session σ} {tool : Callable (SessionState σ)} {call : Call}

/-- The tools of a session are four. -/
theorem mem_tools (h : tool ∈ s.registry.tools) :
    tool = onDesk (editing s.editor) ∨ tool = onDesk (listing s.editor) ∨
      tool = onSearch (searching ⟨s.index, s.generator, s.project.root, s.stamp⟩) ∨
      tool = onTree (commanding s.shell s.project.root s.config.shell) := by
  rcases Registry.mem_put h with h | h
  · exact .inr (.inr (.inr h))
  rcases Registry.mem_put h with h | h
  · exact .inr (.inr (.inl h))
  rcases Registry.mem_put h with h | h
  · exact .inr (.inl h)
  rcases Registry.mem_put h with h | h
  · exact .inl h
  · cases h

/-- **The tools of a session are sound.** -/
theorem sound_tools (h : tool ∈ s.registry.tools) : Sound tool := by
  rcases mem_tools h with rfl | rfl | rfl | rfl
  · exact (sound_editing s.editor).lift fun _ => rfl
  · exact (sound_listing s.editor).lift fun _ => rfl
  · exact (sound_searching _).lift fun _ => rfl
  · exact (sound_commanding s.shell s.project.root s.config.shell).lift fun _ => rfl

theorem orderly_execute (s : Session σ) (name : String) (v : Value) (state : SessionState σ) :
    Orderly state (s.execute name v state) := by
  unfold execute Registry.execute
  split
  · exact ⟨.failed _, fun _ => rfl⟩
  · next tool htool =>
      split
      · exact sound_tools (Registry.get?_eq_some htool).1 _ state
      · exact orderly_misused state _

/-- **Every written call** has a proper result, and changes nothing when it is refused. -/
theorem orderly_result (s : Session σ) (line : String) (state : SessionState σ) :
    Orderly state (s.result line state) := by
  unfold result
  split
  · exact orderly_execute ..
  · exact orderly_misused state _

end Session

/-! ### Valid calls -/

/-- A call names a tool, and has parameters that make a request to it. -/
inductive Call.Valid : Call → Prop where
  | edit {fs : List (String × Value)} {p : EditParameters} {request : Editor.Request} :
      EditParameters.shape.decode true (.object fs) = .ok p → p.request = .ok request →
      Valid ⟨"str_replace_editor", .object fs⟩
  | list {fs : List (String × Value)} {p : ListParameters} :
      ListParameters.shape.decode true (.object fs) = .ok p →
      Valid ⟨"view_directory", .object fs⟩
  | search {fs : List (String × Value)} {p : SearchParameters} :
      SearchParameters.shape.decode true (.object fs) = .ok p →
      Valid ⟨"search_relevant_files", .object fs⟩
  | command {fs : List (String × Value)} {p : ShellParameters} :
      ShellParameters.shape.decode true (.object fs) = .ok p → p.commands ≠ [] →
      Valid ⟨"run_shell_cmd", .object fs⟩

theorem refused_withParameters {α σ : Type} {shape : Shape α} {v : Value} {state : σ}
    {act : α → σ → Result × σ}
    (h : ∀ p, shape.decode true v = .ok p → (act p state).1.Refused) :
    (withParameters shape v state act).1.Refused := by
  unfold withParameters
  cases hdecode : shape.decode true v with
  | ok p => exact h p hdecode
  | error fault => exact Result.refused_misused _

section

variable {fs : List (String × Value)}

theorem refused_editing (h : ¬ Call.Valid ⟨"str_replace_editor", .object fs⟩) (desk : Editor.Desk) :
    ((editing e).run (.object fs) desk).1.Refused := by
  unfold editing
  refine refused_withParameters fun p hp => ?_
  cases hrequest : p.request with
  | ok request => exact absurd (.edit hp hrequest) h
  | error misuse => exact Result.refused_misused _

theorem refused_listing (h : ¬ Call.Valid ⟨"view_directory", .object fs⟩) (desk : Editor.Desk) :
    ((listing e).run (.object fs) desk).1.Refused := by
  unfold listing
  exact refused_withParameters fun p hp => absurd (.list hp) h

theorem refused_searching {σ : Type} {s : Searcher σ}
    (h : ¬ Call.Valid ⟨"search_relevant_files", .object fs⟩) (state : SearchState σ) :
    ((searching s).run (.object fs) state).1.Refused := by
  unfold searching
  exact refused_withParameters fun p hp => absurd (.search hp) h

theorem refused_commanding {shell : Shell} {root : Path} {limits : Config.ShellSettings}
    (h : ¬ Call.Valid ⟨"run_shell_cmd", .object fs⟩) (tree : Tree) :
    ((commanding shell root limits).run (.object fs) tree).1.Refused := by
  unfold commanding
  refine refused_withParameters fun p hp => ?_
  split
  · exact Result.refused_misused _
  · next hcommands => exact absurd (.command hp hcommands) h

end

namespace Session

variable {σ : Type} {call : Call} {line : String}

/-- **A call that is not valid is refused**, in every state. -/
theorem refused_of_not_valid (s : Session σ) (h : ¬ call.Valid) (state : SessionState σ) :
    (s.execute call.tool call.parameters state).1.Refused := by
  obtain ⟨name, v⟩ := call
  unfold execute Registry.execute
  split
  · exact ⟨_, .head _, _, rfl⟩
  · next tool htool =>
      obtain ⟨hmem, rfl⟩ := Registry.get?_eq_some htool
      dsimp only
      split
      · rcases mem_tools hmem with rfl | rfl | rfl | rfl
        · exact refused_editing h _
        · exact refused_listing h _
        · exact refused_searching h _
        · exact refused_commanding h _
      · exact Result.refused_misused _

/-- A line that is a valid call. -/
def IsCall (line : String) : Prop :=
  ∃ call, Call.parse line = .ok call ∧ call.Valid

theorem refused_of_not_isCall (s : Session σ) (h : ¬ IsCall line) (state : SessionState σ) :
    (s.result line state).1.Refused := by
  unfold result
  split
  · next call hcall => exact s.refused_of_not_valid (fun hvalid => h ⟨call, hcall, hvalid⟩) state
  · exact Result.refused_misused _

end Session

end Workbench.Tool
