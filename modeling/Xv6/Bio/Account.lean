import Xv6.Bio.Cache
import Mathlib.Data.Finset.Card
import Mathlib.Data.Finset.Basic

/-!
# A plain block store with buffer accounting

What the buffer cache is for: `Account` is a store that has one current content for every
block of the two drives, `mem`, next to what the drives themselves hold, `disk`.  A block is
read and written in `mem`; only `bwrite` moves it to `disk`.

The rest of the state keeps the books that decide whether the `NBUF` buffers of `bio.c` can
play that store: which blocks are held, and how often (`held`), which are pinned by `B_DIRTY`
(`dirty`), and which hold contents that were changed since they were last pinned or written
(`pend`).  A read that would need more than `NBUF` buffers, counting the held and the pinned
ones, panics as `bget` does.  `accountHandler` halts with `Halt.stray` where the books no longer
balance:

* a buffer is used by somebody who does not hold it;
* the last holder gives up a buffer whose contents are neither pinned nor on the drive;
* a drive other than the two is named.

`Xv6.Bio.Refinement` shows that the cache of `bio.c` plays this store as long as the books
balance, and the code above is verified against the store.
-/

namespace Xv6

open Lib

/-- The block store and its books.  `mem` and `disk` are the contents, and the rest says which
buffers a cache needs to have them: one for every block that is held or dirty, and no other is
promised. -/
structure Account where
  /-- Current contents of every block. -/
  mem : BufRef → Block
  /-- Contents of the drives. -/
  disk : BufRef → Block
  log : Log
  /-- One entry for every reference to a buffer. -/
  held : List BufRef
  /-- Pinned by `B_DIRTY`. -/
  dirty : Finset BufRef
  /-- Changed, and not pinned or written since. -/
  pend : Finset BufRef
  havedisk1 : Bool

namespace Account

/-- Blocks that occupy a buffer no matter what. -/
def used (a : Account) : Finset BufRef := a.held.toFinset ∪ a.dirty

/-- Reading `k` needs no more than `NBUF` buffers. -/
def Fits (a : Account) (k : BufRef) : Prop := (insert k a.used).card ≤ NBUF

instance (a : Account) (k : BufRef) : Decidable (a.Fits k) :=
  inferInstanceAs (Decidable (_ ≤ _))

def write (a : Account) (k : BufRef) (d : Block) : Account :=
  { a with
    mem := Function.update a.mem k d
    pend := if k ∈ a.dirty then a.pend else insert k a.pend }

def flush (a : Account) (k : BufRef) : Account :=
  { a with
    disk := Function.update a.disk k (a.mem k)
    dirty := a.dirty.erase k
    pend := a.pend.erase k }

def pin (a : Account) (k : BufRef) : Account :=
  { a with dirty := insert k a.dirty, pend := a.pend.erase k }

end Account

/-- Only a holder may go on. -/
def asHolder {α : Type} (k : BufRef) (f : EStateM Halt Account α) : EStateM Halt Account α :=
  fun a => if k ∈ a.held then f a else .error .stray a

/-- The meaning of the buffer steps on the block store. -/
def accountHandler : Handler BioOp BioOp.Ret Halt Account
  | .bread k => fun a =>
    if 2 ≤ k.dev then .error .stray a
    else if ¬ a.Fits k then .error (.panic .bgetNoBuffers) a
    else if k.dev ≠ 0 ∧ a.havedisk1 = false then .error (.panic .ideDisk1NotPresent) a
    else if FSSIZE ≤ k.blockno then .error (.panic .incorrectBlockno) a
    else .ok () { a with held := k :: a.held }
  | .brelse k => asHolder k fun a =>
    if k ∈ a.pend ∧ k ∉ a.held.erase k then .error .stray a
    else .ok () { a with held := a.held.erase k }
  | .bwrite k => asHolder k fun a => .ok () (a.flush k)
  | .data k => asHolder k fun a => .ok (a.mem k) a
  | .store k f => asHolder k fun a => .ok () (a.write k (f (a.mem k)))
  | .copy dst src => asHolder dst <| asHolder src fun a => .ok () (a.write dst (a.mem src))
  | .logAdd k => asHolder k fun a =>
    if a.log.full then .error (.panic .tooBigTransaction) a
    else .ok () { a with log := a.log.add k.blockno }
  | .markDirty k => asHolder k fun a => .ok () (a.pin k)
  | .log => fun a => .ok a.log a
  | .setLog f => fun a => .ok () { a with log := f a.log }

/-- What code above the block store runs out of. -/
def Halt.AboveStore : Halt → Prop
  | .panic .ballocOutOfBlocks | .panic .iallocNoInodes => True
  | _ => False

lemma not_aboveStore {e : BioOp} {x : Halt} {a a' : Account}
    (h : accountHandler e a = .error x a') : ¬ x.AboveStore := by
  cases e with
  | bread k | brelse k | bwrite k | data k | store k f | copy k src | logAdd k | markDirty k =>
    simp only [accountHandler, asHolder] at h
    split_ifs at h <;> cases h <;> exact id
  | log | setLog f => cases h

/-- The store after a buffer step that does not halt. -/
def Account.after (a : Account) : BioOp → Account
  | .bread k => { a with held := k :: a.held }
  | .brelse k => { a with held := a.held.erase k }
  | .bwrite k => a.flush k
  | .store k f => a.write k (f (a.mem k))
  | .copy dst src => a.write dst (a.mem src)
  | .logAdd k => { a with log := a.log.add k.blockno }
  | .markDirty k => a.pin k
  | .setLog f => { a with log := f a.log }
  | .data _ | .log => a

lemma eq_after_of_ok {e : BioOp} {a a' : Account} {r : e.Ret}
    (he : accountHandler e a = .ok r a') : a' = a.after e := by
  cases e with
  | bread k | brelse k | bwrite k | data k | store k f | copy k src | logAdd k | markDirty k =>
    simp only [accountHandler, asHolder] at he
    split_ifs at he
    exact (EStateM.Result.ok.inj he).2.symm
  | log | setLog f => exact (EStateM.Result.ok.inj he).2.symm

/-- The store after `binit`: nothing is cached, so every block is what its drive holds. -/
def Account.init (disk : BufRef → Block) (havedisk1 : Bool) (log : Log) : Account where
  mem := disk
  disk := disk
  log := log
  held := []
  dirty := ∅
  pend := ∅
  havedisk1 := havedisk1

end Xv6
