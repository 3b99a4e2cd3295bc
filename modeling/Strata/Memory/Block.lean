import Strata.Color.Channel

/-!
# Memory

A block is a run of bytes that programs read by words. A word remembers whether bits or a channel
were written into it, so a channel reads back as it was stored, and either converts to the other.
Words nobody wrote are zero and take no room.
-/

namespace Strata

inductive Word (α : Type)
  | bits (w : UInt32)
  | channel (x : α)
deriving Repr, DecidableEq

namespace Word

variable {α : Type} [Stored α]

def toBits : Word α → UInt32
  | bits w => w
  | channel x => Stored.bits x

def toChannel : Word α → α
  | bits w => Stored.ofBits w
  | channel x => x

/-- The bytes of a word, least significant first. -/
def byte (w : Word α) (i : Nat) : UInt8 := (w.toBits >>> UInt32.ofNat (8 * i)).toUInt8

/-- The first `count` bytes of one word before the rest of another. -/
def splice (first rest : Word α) (count : Nat) : Word α :=
  if count = 0 then rest
  else if 4 ≤ count then first
  else
    let mask : UInt32 := (1 <<< UInt32.ofNat (8 * count)) - 1
    bits ((first.toBits &&& mask) ||| (rest.toBits &&& ~~~mask))

end Word

/-- `size` bytes, of which the words before `words.size` have been written. -/
structure Block (α : Type) where
  size : Nat
  words : Array (Word α)
deriving Repr, DecidableEq

namespace Block

variable {α : Type}

def zero (size : Nat) : Block α := ⟨size, #[]⟩

def ofWords (words : Array (Word α)) : Block α := ⟨4 * words.size, words⟩

def ofChannels (values : Array α) : Block α := ofWords (values.map .channel)

def ofBytes (bytes : Array UInt8) : Block α :=
  let byte (i : Nat) : UInt32 := (bytes.getD i 0).toUInt32
  ⟨bytes.size, Array.ofFn (n := (bytes.size + 3) / 4) fun i =>
    .bits (byte (4 * i) ||| byte (4 * i + 1) <<< 8 ||| byte (4 * i + 2) <<< 16 ||| byte (4 * i + 3) <<< 24)⟩

def word (block : Block α) (i : Nat) : Word α := block.words.getD i (.bits 0)

/-- Whether a word lies wholly inside. -/
def covers (block : Block α) (i : Nat) : Bool := 4 * i + 4 ≤ block.size

def setWord (block : Block α) (i : Nat) (w : Word α) : Block α :=
  let room := block.words ++ Array.replicate (i + 1 - block.words.size) (.bits 0)
  { block with words := room.setIfInBounds i w }

variable [Stored α]

def byteAt (block : Block α) (i : Nat) : UInt8 :=
  if i < block.size then (block.word (i / 4)).byte (i % 4) else 0

def bytes (block : Block α) : List UInt8 := (List.range block.size).map block.byteAt

/-- The channel at a word index, 0 outside. -/
def channelAt [Zero α] (block : Block α) (i : Nat) : α :=
  if block.covers i then (block.word i).toChannel else 0

def setChannel (block : Block α) (i : Nat) (x : α) : Block α :=
  block.setWord i (.channel (Stored.round x))

/-- Replace the first `count` bytes by those of another block. -/
def overwrite (block source : Block α) (count : Nat) : Block α :=
  let written := max block.words.size (min ((count + 3) / 4) source.words.size)
  { block with words := Array.ofFn (n := written) fun i =>
      (source.word i).splice (block.word i) (count - 4 * i) }

end Block

end Strata
