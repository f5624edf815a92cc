/-
# SHA-1

The digest by which a repository names its objects: 20 bytes of a byte string,
padded like a message of SHA-256.

* `Sha1.digest` — the 20 bytes of the digest.
-/

import Workbench.Digest.Sha256

namespace Workbench.Digest

open Workbench.Text

namespace Sha1

/-- The state that blocks are folded into. -/
structure State where
  a : UInt32
  b : UInt32
  c : UInt32
  d : UInt32
  e : UInt32

/-- The state before the first block. -/
def State.initial : State :=
  ⟨0x67452301, 0xEFCDAB89, 0x98BADCFE, 0x10325476, 0xC3D2E1F0⟩

/-- The 80 words of the block that starts at byte `start`. -/
def schedule (bytes : Array UInt8) (start : Nat) : Array UInt32 :=
  let first := (List.range 16).toArray.map fun i => wordOf bytes (start + 4 * i)
  (List.range 64).foldl (fun w i =>
    let word (back : Nat) : UInt32 := (w[16 + i - back]?).getD 0
    w.push (rotateLeft (word 3 ^^^ word 8 ^^^ word 14 ^^^ word 16) 1)) first

/-- The mixing function and the constant of a round. -/
def mix (i : Nat) (s : State) : UInt32 × UInt32 :=
  if i < 20 then ((s.b &&& s.c) ||| ((~~~ s.b) &&& s.d), 0x5A827999)
  else if i < 40 then (s.b ^^^ s.c ^^^ s.d, 0x6ED9EBA1)
  else if i < 60 then ((s.b &&& s.c) ||| (s.b &&& s.d) ||| (s.c &&& s.d), 0x8F1BBCDC)
  else (s.b ^^^ s.c ^^^ s.d, 0xCA62C1D6)

/-- One round with a word of the schedule. -/
def State.round (s : State) (i : Nat) (word : UInt32) : State :=
  let (f, constant) := mix i s
  ⟨rotateLeft s.a 5 + f + s.e + constant + word, s.a, rotateLeft s.b 30, s.c, s.d⟩

/-- Folds one block into the state. -/
def State.block (s : State) (words : Array UInt32) : State :=
  let t := (List.range 80).foldl (fun t i => t.round i ((words[i]?).getD 0)) s
  ⟨s.a + t.a, s.b + t.b, s.c + t.c, s.d + t.d, s.e + t.e⟩

/-- The digest of a message. -/
def digest (message : Octets) : Octets :=
  let bytes := (padded message).toArray
  let s := (List.range (bytes.size / 64)).foldl (fun s i => s.block (schedule bytes (64 * i)))
    State.initial
  [s.a, s.b, s.c, s.d, s.e].flatMap bytesOf

end Sha1

end Workbench.Digest
