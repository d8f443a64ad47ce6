import LinuxLikeKernel.Library.PointerList
import LinuxLikeKernel.Library.Run
import Mathlib.Data.Fintype.Basic

/-!
# The blinking characters of the fish

The fish program puts characters on the screen that change between two at given intervals. They are
nodes of a list that `blink.S` keeps, and take their memory from an array of `fish.c`.

## Main definitions

- `Mp1BlinkStruct`, `Fish` — a node, and the program's memory with the screen
- `mp1Malloc`, `mp1Free`, `mp1FindHelper`, `mp1Poke` — the helpers
- `mp1RtcTasklet`, `mp1IoctlAdd`, `mp1IoctlRemove`, `mp1IoctlSync`, `mp1IoctlFind` — the calls
- `BlinkCall`, `blinkStep` — a call of the program, where it ends
-/

namespace LinuxLikeKernel
open Transition PointerList

/-- An index of `blink_array`. -/
abbrev Slot := Fin (80 * 25)

/-- `struct mp1_blink_struct`. -/
structure Mp1BlinkStruct where
  location : UInt16
  onChar : UInt8
  offChar : UInt8
  onLength : UInt16
  offLength : UInt16
  countdown : UInt16
  status : UInt16
  next : Option Slot
  deriving DecidableEq

/-- `blink_array`, `mp1_list_head`, and the bytes from `vmem_base_addr` on. -/
structure Fish where
  blinkArray : Slot → Mp1BlinkStruct
  mp1ListHead : Option Slot
  vmem : Nat → UInt8

/-- The turns that a loop along the pointers is given. A way that ends goes through no slot twice,
so that one more turn than there are slots is enough for it. -/
def loopTurns : Nat := 80 * 25 + 1

/-- What a free slot is filled with. -/
def Mp1BlinkStruct.zero : Mp1BlinkStruct := ⟨0, 0, 0, 0, 0, 0, 0, none⟩

namespace Fish

/-- The program before its first call: `main` has filled the array with zeros. -/
def start (vmem : Nat → UInt8) : Fish := ⟨fun _ => .zero, none, vmem⟩

/-- The pointers between the slots. -/
def next (f : Fish) (i : Slot) : Option Slot := (f.blinkArray i).next

def setBlink (f : Fish) (i : Slot) (b : Mp1BlinkStruct) : Fish :=
  { f with blinkArray := Function.update f.blinkArray i b }

/-- A pointer is stored in `mp1_list_head` or in a slot. -/
def storePointer (f : Fish) : Option Slot → Option Slot → Fish
  | none, p => { f with mp1ListHead := p }
  | some i, p => f.setBlink i { f.blinkArray i with next := p }

/-- `mp1_poke`. -/
def mp1Poke (f : Fish) (cl : UInt8) (eax : Nat) : Fish :=
  { f with vmem := Function.update f.vmem eax cl }

/-- `mp1_malloc`: the first slot whose location is zero. -/
def mp1Malloc (f : Fish) : Option Slot :=
  (List.finRange (80 * 25)).find? fun i => (f.blinkArray i).location = 0

/-- `mp1_free`. -/
def mp1Free (f : Fish) (i : Slot) : Fish := f.setBlink i .zero

/-- `mp1_find_helper`. -/
def mp1FindHelper (f : Fish) (location : UInt16) : Option (Option Slot) :=
  search f.next (fun i => (f.blinkArray i).location = location) loopTurns f.mp1ListHead

/-- A turn of the loop of `mp1_rtc_tasklet`. The count is compared as a signed number. -/
def blink (i : Slot) (f : Fish) : Fish :=
  let b := f.blinkArray i
  let countdown := b.countdown - 1
  if 0 < countdown.toInt16 then f.setBlink i { b with countdown }
  else
    let eax := 2 * b.location.toNat
    if b.status &&& 1 = 0 then
      (f.mp1Poke b.onChar eax).setBlink i
        { b with countdown := b.onLength, status := b.status ^^^ 1 }
    else
      (f.mp1Poke b.offChar eax).setBlink i
        { b with countdown := b.offLength, status := b.status ^^^ 1 }

/-- `mp1_rtc_tasklet`. -/
def mp1RtcTasklet (f : Fish) : Option Fish :=
  forEach next blink loopTurns f.mp1ListHead f

/-- `mp1_ioctl_add`, with the struct it is given a pointer to. -/
def mp1IoctlAdd (f : Fish) (arg : Mp1BlinkStruct) : Fish × Int :=
  if 80 * 25 ≤ arg.location then (f, -1)
  else
    let temp := { arg with status := 1, countdown := arg.onLength }
    match f.mp1Malloc with
    | none => (f, -1)
    | some edx =>
      let f := f.setBlink edx { temp with next := f.mp1ListHead }
      let f := { f with mp1ListHead := some edx }
      (f.mp1Poke temp.onChar (2 * temp.location.toNat), 0)

/-- `mp1_ioctl_remove`. -/
def mp1IoctlRemove (f : Fish) (arg : UInt32) : Option (Fish × Int) := do
  match ← f.mp1FindHelper arg.toUInt16 with
  | none => return (f, -1)
  | some eax =>
    let edx ← holderOf f.next f.mp1ListHead eax loopTurns none
    return ((f.storePointer edx (f.next eax)).mp1Free eax, 0)

/-- What `mp1_ioctl_sync` copies to a node. -/
def syncTo (esi edi : Mp1BlinkStruct) : Mp1BlinkStruct :=
  { edi with
    onLength := esi.onLength
    offLength := esi.offLength
    countdown := esi.countdown
    status := esi.status }

/-- `mp1_ioctl_sync`. After `testb` neither the sign nor the overflow flag is set, so that `cmovl`
moves nothing and the character is the one for off. -/
def mp1IoctlSync (f : Fish) (arg : UInt32) : Option (Fish × Int) := do
  match ← f.mp1FindHelper (arg >>> 16).toUInt16 with
  | none => return (f, -1)
  | some esi =>
    match ← f.mp1FindHelper arg.toUInt16 with
    | none => return (f, -1)
    | some edi =>
      let b := syncTo (f.blinkArray esi) (f.blinkArray edi)
      return ((f.setBlink edi b).mp1Poke b.offChar (2 * b.location.toNat), 0)

/-- `mp1_ioctl_find`: what it copies out for the location it is given. -/
def mp1IoctlFind (f : Fish) (location : UInt16) : Option (Option Mp1BlinkStruct) :=
  (f.mp1FindHelper location).map fun eax => eax.map f.blinkArray

end Fish

/-! ### Calls -/

inductive BlinkCall
  | add (arg : Mp1BlinkStruct)
  | remove (arg : UInt32)
  | sync (arg : UInt32)
  | find (location : UInt16)
  | tasklet
  deriving DecidableEq

/-- A call and what it returns, where its loops end. -/
def Fish.call (f : Fish) : BlinkCall → Option (Fish × Int)
  | .add arg => some (f.mp1IoctlAdd arg)
  | .remove arg => f.mp1IoctlRemove arg
  | .sync arg => f.mp1IoctlSync arg
  | .find location => (f.mp1IoctlFind location).map fun b => (f, if b.isSome then 0 else -1)
  | .tasklet => f.mp1RtcTasklet.map fun f => (f, 0)

def blinkStep (f : Fish) (e : BlinkCall) : Option Fish := (f.call e).map Prod.fst

end LinuxLikeKernel
