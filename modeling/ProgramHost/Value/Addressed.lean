import ProgramHost.Memory.Address
import ProgramHost.Value.Decode
/-!
# Reading a value with addresses of a fixed width

On a machine the reads of a value have addresses and lengths of `w` bits. The end of each
read is checked. The start of the bytes of a text, four behind the pointer, is not checked:
where that sum is no address, it is saturated and the read goes on with the last address.

The start of a text is left open in `decodeBy`, so that it can be said how much depends
on it.
-/

namespace ProgramHost.Value.Addressed

variable {w : Nat}

/-- Reads `len` bytes; a read that is not wholly inside gives the value that names it. -/
def read (m : Image) (offset len : Address w) : Except Value (List UInt8) :=
  match m.sliceAt? offset len with
  | some bs => .ok bs
  | none => .error (.outOfBounds offset.toNat len.toNat)

def readWord (m : Image) (offset : Address w) : Except Value UInt32 :=
  (read m offset 4).map fun bs => UInt32.ofNat (LittleEndian.value bs)

def readText (start : Address w → Address w) (m : Image) (pointer : Address w) :
    Except Value Value := do
  let len ← readWord m pointer
  let bs ← read m (start pointer) (.ofWord len)
  return .text (String.ofList (Text.Utf8.decode bs))

def readTagged (start : Address w → Address w) (m : Image) (tag : UInt32) :
    Except Value Value :=
  match tag.toNat with
  | 0 => .ok .unassigned
  | 1 => .ok .undefined
  | 2 => do
      let bs ← read m (.ofNat w dataOffset) 8
      return .number (UInt64.ofNat (LittleEndian.value bs))
  | 3 => do return .boolean ((← readWord m (.ofNat w dataOffset)) != 0)
  | 4 => do readText start m (.ofWord (← readWord m (.ofNat w dataOffset)))
  | 5 => .ok .function
  | _ => .ok (.invalidTag tag)

def decode? (start : Address w → Address w) (m : Image) : Except Value Value := do
  readTagged start m (← readWord m (.ofNat w tagOffset))

def decodeBy (start : Address w → Address w) (m : Image) : Value :=
  match decode? start m with
  | .ok v => v
  | .error v => v

/-- Where the bytes of a text begin: behind its length, or else at the last address. -/
def textStart (pointer : Address w) : Address w := pointer.saturatingAdd 4

/-- Reads the value region with addresses of `w` bits. -/
def decode (w : Nat) (m : Image) : Value := decodeBy (textStart (w := w)) m

end ProgramHost.Value.Addressed
