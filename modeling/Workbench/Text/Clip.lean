/-
# Sizes in bytes

Limits, offsets and sizes of a text count the bytes of its UTF-8 form, while the
text itself is a list of characters; this module relates the two. A cut at a
byte that falls inside a character is either moved to a boundary or refused, and
each function says which.

* `byteLength` — the bytes of a text.
* `takeBytes` — the longest beginning of at most so many bytes.
* `splitAtLeast` — the shortest beginning of at least so many bytes, and the rest.
* `dropBytes?` — the text after exactly so many bytes; none when that many bytes
  end inside a character or beyond the text.
* `clip` — a text cut to a limit, followed by a notice that it was cut.
-/

namespace Workbench.Text

/-- The number of bytes of the UTF-8 form. -/
def byteLength (s : List Char) : Nat :=
  s.foldr (fun c n => c.utf8Size + n) 0

@[simp] theorem byteLength_nil : byteLength [] = 0 := rfl

@[simp] theorem byteLength_cons (c : Char) (s : List Char) :
    byteLength (c :: s) = c.utf8Size + byteLength s := rfl

@[simp] theorem byteLength_append (s t : List Char) :
    byteLength (s ++ t) = byteLength s + byteLength t := by
  induction s with
  | nil => simp
  | cons c rest ih => simp [ih, Nat.add_assoc]

/-- The longest beginning of a text that takes at most `limit` bytes. -/
def takeBytes : Nat → List Char → List Char
  | _, [] => []
  | limit, c :: rest =>
      if c.utf8Size ≤ limit then c :: takeBytes (limit - c.utf8Size) rest else []

/-- The shortest beginning of a text that takes at least `size` bytes (all of a
shorter text), and what follows it. -/
def splitAtLeast : Nat → List Char → List Char × List Char
  | 0, s => ([], s)
  | _ + 1, [] => ([], [])
  | size + 1, c :: rest =>
      let (before, after) := splitAtLeast (size + 1 - c.utf8Size) rest
      (c :: before, after)

/-- The text after exactly `size` bytes. -/
def dropBytes? : Nat → List Char → Option (List Char)
  | 0, s => some s
  | _ + 1, [] => none
  | size + 1, c :: rest =>
      if c.utf8Size ≤ size + 1 then dropBytes? (size + 1 - c.utf8Size) rest else none

theorem takeBytes_append_drop (limit : Nat) (s : List Char) :
    takeBytes limit s ++ s.drop (takeBytes limit s).length = s := by
  induction s generalizing limit with
  | nil => simp [takeBytes]
  | cons c rest ih =>
      unfold takeBytes
      split
      · simp [ih]
      · simp

theorem byteLength_takeBytes_le (limit : Nat) (s : List Char) :
    byteLength (takeBytes limit s) ≤ limit := by
  induction s generalizing limit with
  | nil => simp [takeBytes]
  | cons c rest ih =>
      unfold takeBytes
      split
      · have := ih (limit - c.utf8Size); simp; omega
      · simp

theorem splitAtLeast_append (size : Nat) (s : List Char) :
    (splitAtLeast size s).1 ++ (splitAtLeast size s).2 = s := by
  fun_induction splitAtLeast size s <;> simp_all

/-- Cuts `content` to at most `limit` bytes, on a boundary, and says so with
`notice`; a text within the limit is left alone. -/
def clip (content : String) (limit : Nat) (notice : String) : String :=
  if content.utf8ByteSize ≤ limit then content
  else String.ofList (takeBytes limit content.toList) ++ notice

end Workbench.Text
