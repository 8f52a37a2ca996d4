import Proctor.Bytes

/-!
Frames on a socket: two bytes of flags, opcode and length, more bytes for a longer length, a mask and
the masked payload. Main statement: reading a frame uses up some of the bytes.
-/

namespace Proctor.Socket

inductive Opcode
  | continuation
  | text
  | binary
  | close
  | ping
  | pong
  deriving DecidableEq, Repr

namespace Opcode

def number : Opcode → Nat
  | .continuation => 0
  | .text => 1
  | .binary => 2
  | .close => 8
  | .ping => 9
  | .pong => 10

/-- The other opcodes are reserved. -/
def ofNumber? (n : Nat) : Option Opcode :=
  [continuation, text, binary, close, ping, pong].find? (·.number = n)

def isControl : Opcode → Bool
  | .close | .ping | .pong => true
  | _ => false

end Opcode

structure Frame where
  final : Bool := true
  reserved : Bool := false
  opcode : Opcode
  payload : Bytes
  deriving DecidableEq, Repr

/-- How a client breaks the protocol. -/
inductive Breach
  | reservedOpcode
  | frameTooLong
  | unmasked
  | reservedFlag
  | fragmentedControl
  | controlTooLong
  | malformedClose
  | continuesNothing
  | interruptsFragments
  | messageTooLong
  | notText
  deriving DecidableEq, Repr

/-- What stands at the start of some bytes. -/
inductive Scan
  | incomplete
  | broken (breach : Breach)
  | frame (frame : Frame) (rest : Bytes)
  deriving DecidableEq, Repr

namespace Frame

/-- Bytes that a frame may carry at most. -/
def sizeLimit : Nat := 16 * 1024 * 1024

/-- Bytes that a control frame may carry at most. -/
def controlLimit : Nat := 125

/-- The first bytes, when there are that many, and those after them. -/
def split? (n : Nat) (bs : Bytes) : Option (Bytes × Bytes) :=
  if n ≤ bs.length then some (bs.take n, bs.drop n) else none

/-- The most significant byte comes first. -/
def bigEndian (bs : Bytes) : Nat :=
  bs.foldl (fun n b => 256 * n + b.toNat) 0

/-- Bytes of the length that follow a short length of 126 or 127. -/
def lengthSize (short : Nat) : Nat :=
  if short = 126 then 2 else if short = 127 then 8 else 0

def length? (short : Nat) (bs : Bytes) : Option (Nat × Bytes) :=
  (split? (lengthSize short) bs).map fun (long, rest) =>
    (if long.isEmpty then short else bigEndian long, rest)

def maskSize : Nat := 4

def mask? (isMasked : Bool) (bs : Bytes) : Option (Option Bytes × Bytes) :=
  if isMasked then (split? maskSize bs).map fun (mask, rest) => (some mask, rest)
  else some (none, bs)

def unmask (mask payload : Bytes) : Bytes :=
  payload.zipIdx.map fun (b, i) => b ^^^ mask.getD (i % maskSize) 0

/-- The payload of a frame of an opcode, behind its head. A reserved opcode shows first, then a
length beyond the limit; a missing mask shows only once the frame is complete. -/
def scanPayload (flags : Nat) (length : Nat) (mask : Option Bytes) (bs : Bytes) : Scan :=
  match Opcode.ofNumber? (flags % 16) with
  | none => .broken .reservedOpcode
  | some opcode =>
    if sizeLimit < length then .broken .frameTooLong
    else
      match split? length bs, mask with
      | none, _ => .incomplete
      | some _, none => .broken .unmasked
      | some (payload, rest), some mask =>
        .frame
          { final := 128 ≤ flags, reserved := flags / 16 % 8 ≠ 0, opcode
            payload := unmask mask payload } rest

/-- Reads one frame from the start of some bytes. -/
def scan : Bytes → Scan
  | flags :: short :: bs =>
    match length? (short.toNat % 128) bs with
    | none => .incomplete
    | some (length, bs) =>
      match mask? (128 ≤ short.toNat) bs with
      | none => .incomplete
      | some (mask, bs) => scanPayload flags.toNat length mask bs
  | _ => .incomplete

/-- A number in so many bytes, the most significant first. -/
def bigEndianBytes : Nat → Nat → Bytes
  | 0, _ => []
  | size + 1, n => bigEndianBytes size (n / 256) ++ [UInt8.ofNat n]

/-- The shortest form of a length, with the flag of a mask. -/
def encodeLength (n : Nat) : Bytes :=
  if n < 126 then [UInt8.ofNat (128 + n)]
  else if n < UInt16.size then 254 :: bigEndianBytes 2 n
  else 255 :: bigEndianBytes 8 n

/-- A frame as a client writes it, under a mask. -/
def encode (f : Frame) (mask : Bytes) : Bytes :=
  let flags := (if f.final then 128 else 0) + (if f.reserved then 64 else 0) + f.opcode.number
  UInt8.ofNat flags :: encodeLength f.payload.length ++ mask ++ unmask mask f.payload

theorem length_le_of_split? {n : Nat} {bs head rest : Bytes} (h : split? n bs = some (head, rest)) :
    rest.length ≤ bs.length := by
  unfold split? at h
  split at h
  · simp only [Option.some.injEq, Prod.mk.injEq] at h
    simp [← h.2]
  · simp at h

theorem length_le_of_length? {short n : Nat} {bs rest : Bytes}
    (h : length? short bs = some (n, rest)) : rest.length ≤ bs.length := by
  unfold length? at h
  obtain ⟨⟨long, after⟩, hs, he⟩ := Option.map_eq_some_iff.1 h
  simp only [Prod.mk.injEq] at he
  exact he.2 ▸ length_le_of_split? hs

theorem length_le_of_mask? {isMasked : Bool} {mask : Option Bytes} {bs rest : Bytes}
    (h : mask? isMasked bs = some (mask, rest)) : rest.length ≤ bs.length := by
  unfold mask? at h
  split at h
  · obtain ⟨⟨m, after⟩, hs, he⟩ := Option.map_eq_some_iff.1 h
    simp only [Prod.mk.injEq] at he
    exact he.2 ▸ length_le_of_split? hs
  · simp only [Option.some.injEq, Prod.mk.injEq] at h
    simp [h.2]

theorem length_le_of_scanPayload {flags length : Nat} {mask : Option Bytes} {bs rest : Bytes}
    {f : Frame} (h : scanPayload flags length mask bs = .frame f rest) :
    rest.length ≤ bs.length := by
  unfold scanPayload at h
  repeat' split at h
  all_goals try simp at h
  next hs => exact h.2 ▸ length_le_of_split? hs

/-- A frame has at least two bytes. -/
theorem length_lt_of_scan {bs rest : Bytes} {f : Frame} (h : scan bs = .frame f rest) :
    rest.length < bs.length := by
  unfold scan at h
  split at h
  · split at h
    · simp at h
    · next hl =>
      split at h
      · simp at h
      · next hm =>
        have := length_le_of_length? hl
        have := length_le_of_mask? hm
        have := length_le_of_scanPayload h
        simp only [List.length_cons]
        omega
  · simp at h

end Frame

end Proctor.Socket
