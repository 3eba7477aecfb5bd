set_option autoImplicit false

namespace RefMonitor

/-- A text of bounded size that gives up its oldest part, and the number of bytes given up. -/
structure Console where
  contents : List Char
  capacity : Nat
  dropped : Nat
  deriving DecidableEq, Inhabited

def byteSize (text : List Char) : Nat := text.foldl (fun n c => n + c.utf8Size) 0

private theorem foldl_utf8Size (text : List Char) (n : Nat) :
    text.foldl (fun n c => n + c.utf8Size) n = n + byteSize text := by
  induction text generalizing n with
  | nil => rfl
  | cons c text ih =>
    simp only [byteSize, List.foldl_cons, ih (n + c.utf8Size), ih (0 + c.utf8Size)]
    omega

@[simp] theorem byteSize_nil : byteSize [] = 0 := rfl

@[simp] theorem byteSize_cons (c : Char) (text : List Char) :
    byteSize (c :: text) = c.utf8Size + byteSize text := by
  rw [byteSize, List.foldl_cons, foldl_utf8Size, Nat.zero_add]

def dropBytes : (excess : Nat) → List Char → List Char
  | 0, text => text
  | _ + 1, [] => []
  | excess + 1, c :: text => dropBytes (excess + 1 - c.utf8Size) text

theorem byteSize_dropBytes_le (excess : Nat) (text : List Char) :
    byteSize (dropBytes excess text) ≤ byteSize text := by
  induction text generalizing excess with
  | nil => cases excess <;> simp [dropBytes]
  | cons c text ih =>
    cases excess with
    | zero => simp [dropBytes]
    | succ excess =>
      have rest := ih (excess + 1 - c.utf8Size)
      rw [dropBytes, byteSize_cons]
      omega

namespace Console

def logCapacity : Nat := 16 * 1024

def empty (capacity : Nat) : Console := ⟨[], capacity, 0⟩

def size (c : Console) : Nat := byteSize c.contents

def text (c : Console) : String := String.ofList c.contents

def write (c : Console) (text : String) : Console :=
  let whole := c.contents ++ text.toList
  let kept := dropBytes (byteSize whole - c.capacity) whole
  { c with contents := kept, dropped := c.dropped + (byteSize whole - byteSize kept) }

def take (c : Console) : String × Console := (c.text, { c with contents := [] })

inductive Request where
  | write (text : String)
  | take
  deriving DecidableEq

def serve (c : Console) : List Request → List String × Console
  | [] => ([], c)
  | .write text :: requests => (c.write text).serve requests
  | .take :: requests =>
    let (taken, rest) := c.take
    let (more, last) := rest.serve requests
    (taken :: more, last)

def history (capacity : Nat) (requests : List Request) : List String × Console :=
  (empty capacity).serve requests

end Console

end RefMonitor
