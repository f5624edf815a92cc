/-
# Faults of the index

Why building or searching an index fails. Every fault has a kind, by which a caller
tells faults apart, and a message.
-/

import Workbench.Code.Language
import Workbench.Files.Tree
import Workbench.Service.Embedder
import Workbench.Text.Quoted

namespace Workbench.Index

open Workbench.Files Workbench.Service Workbench.Text Workbench.Code

/-- What is wrong with a stored collection. -/
inductive Damage where
  | moment (written reason : String)
  | vector (path : String) (index : Int64) (bytes : Nat)
  | kind (written : String)
  deriving DecidableEq, Repr

/-- The wording of damage. -/
def Damage.message : Damage → String
  | moment written reason => "created_at " ++ quoted written ++ ": " ++ reason
  | vector path index bytes =>
      "embedding of " ++ path ++ " chunk " ++ toString index ++ " is " ++ toString bytes ++ " bytes"
  | kind written => "unknown unit kind " ++ quoted written

/-- Why a collection is not built or not used. -/
inductive BuildFault where
  | unreadable (path : String) (fault : Fault)
  | noGrammar (extension : String)
  | notADirectory (path : String)
  | noDescription (location : String)
  | noCollection (location : String)
  | vanished (location : String)
  | damaged (location : String) (damage : Damage)
  deriving DecidableEq, Repr

/-- The wording of such a fault. -/
def BuildFault.message : BuildFault → String
  | unreadable path fault => "Failed to read " ++ path ++ ": " ++ fault.message
  | noGrammar extension => "No grammar registered for ." ++ extension
  | notADirectory path => "Project path is not a directory: " ++ path
  | noDescription location =>
      "Collection at " ++ location ++ " has no metadata; clear it and rebuild"
  | noCollection location =>
      "Directory " ++ location ++ " exists but holds no collection; clear it and rebuild"
  | vanished location => "Collection vanished from " ++ location
  | damaged location damage =>
      "Collection at " ++ location ++ " is corrupt (" ++ damage.message ++
        "); clear it and rebuild"

/-- Why there are no explanations. -/
inductive ExplanationFault where
  | service (chain : Chain)
  | unreadable (detail reply : String)
  | unknownPath (path : String)
  | unexplained (paths : List String)
  deriving DecidableEq, Repr

/-- A reply as far as a message shows it. -/
def shownReply (reply : String) : String :=
  if 200 < reply.length then String.ofList (reply.toList.take 200) ++ "..." else reply

/-- The wording of such a fault. -/
def ExplanationFault.message : ExplanationFault → String
  | service chain => chain.text
  | unreadable detail reply =>
      "Could not parse explanations (" ++ detail ++ "): " ++ shownReply reply
  | unknownPath path =>
      "Explanation names " ++ path ++ " which is not among the search results"
  | unexplained paths => "No explanation returned for " ++ ", ".intercalate paths

/-- Why a database is not read or not written. -/
inductive StorageFault where
  | unopened (path : String)
  | notADatabase
  /-- The database has no tables yet. -/
  | noTable (name : String)
  /-- The database was moved, removed, or is protected. -/
  | readOnly
  deriving DecidableEq, Repr

/-- The wording of such a fault. -/
def StorageFault.message : StorageFault → String
  | unopened path => "unable to open database file: " ++ path
  | notADatabase => "file is not a database"
  | noTable name => "no such table: " ++ name
  | readOnly => "attempt to write a readonly database"

/-- Why building or searching fails. -/
inductive IndexFault where
  | build (fault : BuildFault)
  | embedding (fault : EmbeddingFault)
  | explanation (fault : ExplanationFault)
  | storage (fault : StorageFault)
  | parse (fault : ParseFault)
  | access (path : String) (fault : Fault)
  deriving DecidableEq, Repr

namespace IndexFault

/-- The kind of a fault. -/
def kind : IndexFault → String
  | build _ => "BuildFailure"
  | embedding _ => "EmbeddingServiceError"
  | explanation _ => "GenerationServiceError"
  | storage _ => "StorageError"
  | parse _ => "ParseError"
  | access _ _ => "IoError"

/-- The wording of a fault. -/
def message : IndexFault → String
  | build fault => "Index build failed: " ++ fault.message
  | embedding fault => "Embedding service error: " ++ fault.message
  | explanation fault => "Generation service error: " ++ fault.message
  | storage fault => "Index storage error: " ++ fault.message
  | parse fault => "Parser error: " ++ fault.message
  | access path fault => "I/O error on " ++ path ++ ": " ++ fault.message

end IndexFault

end Workbench.Index
