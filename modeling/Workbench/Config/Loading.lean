/-
# Configuration files

A configuration comes from the file that a user names, or else from the file at the
default place if there is one; without a file it is the default one.

* `Config.load` — the configuration in a file.
* `Config.loadOrDefault` — the configuration of a user.
-/

import Workbench.Chain
import Workbench.Config.Basic
import Workbench.Files.Access

namespace Workbench.Config

open Workbench.Files

/-- Why there is no configuration. -/
inductive LoadFault where
  | unreadable (path : String) (fault : Files.Fault)
  | refused (refusal : Refusal)
  deriving DecidableEq, Repr

/-- The wording of a fault, with the reasons. -/
def LoadFault.chain : LoadFault → Chain
  | unreadable path fault => ["Failed to read config file: " ++ path, fault.message]
  | refused refusal => [refusal.message]

/-- The configuration in a file. -/
def load (home : String) (tree : Tree) (path : String) : Except LoadFault Config :=
  match tree.readText path with
  | .error fault => .error (.unreadable path fault)
  | .ok text => (parse home text).mapError .refused

/-- The configuration of a user who may name a file. -/
def loadOrDefault (home : String) (tree : Tree) : Option String → Except LoadFault Config
  | some path => load home tree path
  | none =>
      match tree.stat (defaultPath home) with
      | .ok (.file _ _) => load home tree (defaultPath home)
      | _ => .ok (default home)

end Workbench.Config
