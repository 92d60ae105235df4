/-
The buffer of gathered writes (`iovec.c`): the items to be written, and for each the part of it that
is still to be. A caller adds items while there is place, gives those there are to `writev` and
tells the buffer how many bytes went out. The memory of an item does not change before its callback.
-/
import BeehiveIm.Lib.Blocks
import Mathlib.Algebra.Group.Nat.Defs
import Mathlib.Logic.Function.Basic

namespace BeehiveIm.Core

open BeehiveIm.Lib

/-- The most bytes a `writev` is given; it fails when there are more. -/
def SSIZE_MAX : Nat := 0x7fffffffffffffff

/-- `wiov_orig_t`: an item as it was added. -/
structure WiovOrig where
  addr : Nat
  len : Nat
  param : Nat
  succ : Nat
  fail : Nat
  deriving DecidableEq

/-- `struct iovec` -/
structure Iovec where
  iovBase : Nat
  iovLen : Nat
  deriving DecidableEq

/-- `wiov_t` -/
structure Wiov where
  iovMax : Nat
  iovCnt : Nat
  iovIdx : Nat
  orig : Nat → WiovOrig
  iov : Nat → Iovec

/-- A callback of an item, with what it is given. -/
inductive Called where
  | succ (item : WiovOrig)
  | fail (item : WiovOrig)
  deriving DecidableEq

namespace Wiov

def IOV_MAX : Nat := 1024

def wiovInit (max : Nat) : Wiov where
  iovMax := if IOV_MAX < max then IOV_MAX else max
  iovCnt := 0
  iovIdx := 0
  orig _ := ⟨0, 0, 0, 0, 0⟩
  iov _ := ⟨0, 0⟩

def wiovIsfull (W : Wiov) : Bool := W.iovMax = W.iovCnt

/-- `wiov_item_add`; it does not check for a place. -/
def wiovItemAdd (W : Wiov) (item : WiovOrig) : Option Wiov :=
  if W.iovCnt < W.iovMax then
    some { W with
      iov := Function.update W.iov W.iovCnt ⟨item.addr, item.len⟩
      orig := Function.update W.orig W.iovCnt item
      iovCnt := W.iovCnt + 1 }
  else none

/-- `wiov_item_reset` -/
def wiovItemReset (W : Wiov) (idx : Nat) : Wiov :=
  { W with
    iov := Function.update W.iov idx ⟨0, 0⟩
    orig := Function.update W.orig idx ⟨0, 0, 0, 0, 0⟩ }

/-- The loop of `wiov_item_adjust` over `num` items, of which `len` bytes are accounted for. -/
def adjustLoop (n : Nat) : (num len : Nat) → Wiov → Wiov × List Called
  | 0, _, W => (W, [])
  | num + 1, len, W =>
    let v := W.iov W.iovIdx
    if (len + v.iovLen) % 2 ^ 64 ≤ n then
      let r := adjustLoop n num ((len + v.iovLen) % 2 ^ 64) { W.wiovItemReset W.iovIdx with iovIdx := W.iovIdx + 1 }
      (r.1, .succ (W.orig W.iovIdx) :: r.2)
    else ({ W with iov := Function.update W.iov W.iovIdx ⟨v.iovBase + (n - len), len + v.iovLen - n⟩ }, [])

/-- `wiov_item_adjust` -/
def wiovItemAdjust (W : Wiov) (n : Nat) : Wiov × List Called :=
  let r := adjustLoop n (W.iovCnt - W.iovIdx) 0 W
  if r.1.iovIdx = r.1.iovCnt then ({ r.1 with iovIdx := 0, iovCnt := 0 }, r.2) else r

def cleanLoop : (num : Nat) → (idx : Nat) → Wiov → Wiov × List Called
  | 0, _, W => (W, [])
  | num + 1, idx, W =>
    let r := cleanLoop num (idx + 1) (W.wiovItemReset idx)
    (r.1, .fail (W.orig idx) :: r.2)

/-- `wiov_clean` -/
def wiovClean (W : Wiov) : Wiov × List Called :=
  let r := cleanLoop (W.iovCnt - W.iovIdx) W.iovIdx W
  ({ r.1 with iovIdx := 0, iovCnt := 0 }, r.2)

/-- The items given to `writev`, from `wiov_item_begin` on. -/
def items (W : Wiov) : List Iovec := (List.range' W.iovIdx (W.iovCnt - W.iovIdx)).map W.iov

/-- Their bytes, each by the address of its item and its place there. -/
def pending (W : Wiov) : List (Nat × Nat) :=
  (List.range' W.iovIdx (W.iovCnt - W.iovIdx)).flatMap fun i =>
    (List.range' ((W.iov i).iovBase - (W.orig i).addr) (W.iov i).iovLen).map fun off => ((W.orig i).addr, off)

end Wiov

/-! ## A socket behind the buffer -/

/-- The bytes at an address. -/
def bytes (mem : Nat → Byte) (addr len : Nat) : List Byte := (List.range' addr len).map mem

/-- The bytes of the items. -/
def Iovec.bytes (mem : Nat → Byte) (v : Iovec) : List Byte := Core.bytes mem v.iovBase v.iovLen

/-- The buffer, the bytes that went out and the callbacks that were called. -/
structure Sender where
  wiov : Wiov
  sent : List Byte
  called : List Called

inductive WiovOp where
  | add (item : WiovOrig)
  /-- a `writev` that writes `n` bytes -/
  | write (n : Nat)
  deriving DecidableEq

namespace Sender

def init (max : Nat) : Sender := ⟨.wiovInit max, [], []⟩

/-- A caller asks for a place before it adds; a `writev` of too many bytes fails, and none writes
more than it is given. -/
def step (mem : Nat → Byte) (s : Sender) : WiovOp → Option Sender
  | .add item => if s.wiov.wiovIsfull then none else (s.wiov.wiovItemAdd item).map fun W => { s with wiov := W }
  | .write n =>
    let out := s.wiov.items.flatMap (Iovec.bytes mem)
    if n ≤ out.length ∧ out.length ≤ SSIZE_MAX then
      let r := s.wiov.wiovItemAdjust n
      some ⟨r.1, s.sent ++ out.take n, s.called ++ r.2⟩
    else none

def clean (s : Sender) : Sender :=
  let r := s.wiov.wiovClean
  { s with wiov := r.1, called := s.called ++ r.2 }

end Sender

end BeehiveIm.Core
