import Landslide.Cache.LRU
import Landslide.Cache.SizedLRU
import Landslide.Comet.Interface

/-! # The block caches of the VM

A wrapped block is a pointer: the caches may hold the same one several times, and
rejecting a block writes to its status through every copy. A pointer is modelled as
its allocation number with the block behind it, and the statuses form a heap over the
allocation numbers.
-/
namespace Landslide
variable {H : Type}

/-- A `*WrappedBlock`. The block never changes; the status is on the heap. -/
structure WrappedBlock (H : Type) where
  addr : ℕ
  block : Block H
  deriving DecidableEq

structure WrappedBlocksStorage (H : Type) where
  verifiedBlocks : H → Option (WrappedBlock H)
  decidedBlocks : SizedLRU H (WrappedBlock H)
  unverifiedBlocks : SizedLRU H (WrappedBlock H)
  missingBlocks : LRU H Unit
  bytesToIDCache : SizedLRU Bytes H
  /-- The `Status` field of every wrapped block allocated so far. -/
  status : ℕ → Status
  nextAddr : ℕ

def decidedCacheSize : ℤ := 10000
def missingCacheSize : ℤ := 10000
def unverifiedCacheSize : ℤ := 10000
def bytesToIDCacheSize : ℤ := 10000
def pointerOverhead : ℤ := 8
def idLen : ℤ := 32

def cachedBlockSize (C : CometBFT H) (_ : H) (bw : WrappedBlock H) : ℤ :=
  idLen + C.jsonLen bw.block + 2 * pointerOverhead

def cachedBlockBytesSize (blockBytes : Bytes) (_ : H) : ℤ := blockBytes.length + idLen

namespace WrappedBlocksStorage

def new (C : CometBFT H) : WrappedBlocksStorage H where
  verifiedBlocks := fun _ => none
  decidedBlocks := .new decidedCacheSize (cachedBlockSize C)
  unverifiedBlocks := .new unverifiedCacheSize (cachedBlockSize C)
  missingBlocks := .new missingCacheSize
  bytesToIDCache := .new bytesToIDCacheSize cachedBlockBytesSize
  status := fun _ => .unspecified
  nextAddr := 0

/-- Flushes each block cache; the verified blocks stay. -/
def flush (s : WrappedBlocksStorage H) : WrappedBlocksStorage H :=
  { s with
    decidedBlocks := s.decidedBlocks.flush
    missingBlocks := s.missingBlocks.flush
    unverifiedBlocks := s.unverifiedBlocks.flush
    bytesToIDCache := s.bytesToIDCache.flush }

/-- The composite literal `&WrappedBlock{Block: b, Status: status}`. -/
def allocate (s : WrappedBlocksStorage H) (b : Block H) (status : Status) :
    WrappedBlock H × WrappedBlocksStorage H :=
  (⟨s.nextAddr,b⟩,
    { s with status := Function.update s.status s.nextAddr status, nextAddr := s.nextAddr + 1 })

variable [DecidableEq H]

def getCachedBlock (s : WrappedBlocksStorage H) (blkID : H) :
    Option (WrappedBlock H) × WrappedBlocksStorage H :=
  match s.verifiedBlocks blkID with
  | some blk => (some blk,s)
  | none =>
    let (found,decided) := s.decidedBlocks.get blkID
    let s := { s with decidedBlocks := decided }
    match found with
    | some blk => (some blk,s)
    | none =>
      let (found,unverified) := s.unverifiedBlocks.get blkID
      (found,{ s with unverifiedBlocks := unverified })

/-- The switch on the status that `ParseBlock` and `GetBlock` end with; `none` is the
error of an unexpected status. -/
def putByStatus (s : WrappedBlocksStorage H) (blkID : H) (blk : WrappedBlock H) (status : Status) :
    Option (WrappedBlocksStorage H) :=
  match status with
  | .accepted | .rejected => some { s with decidedBlocks := s.decidedBlocks.put blkID blk }
  | .processing => some { s with unverifiedBlocks := s.unverifiedBlocks.put blkID blk }
  | _ => none

/-! ## What the caches hold -/

def cached (s : WrappedBlocksStorage H) (blkID : H) : Option (WrappedBlock H) :=
  (s.verifiedBlocks blkID).or
    ((s.decidedBlocks.peek blkID).or (s.unverifiedBlocks.peek blkID))

/-- Some cache holds the wrapped block under this ID. -/
def Held (s : WrappedBlocksStorage H) (blkID : H) (blk : WrappedBlock H) : Prop :=
  s.verifiedBlocks blkID = some blk ∨ s.decidedBlocks.peek blkID = some blk ∨
    s.unverifiedBlocks.peek blkID = some blk

theorem held_of_cached {s : WrappedBlocksStorage H} {blkID : H} {blk : WrappedBlock H}
    (h : s.cached blkID = some blk) : s.Held blkID blk := by
  unfold cached at h
  rcases Option.or_eq_some_iff.mp h with h | ⟨_,h⟩
  · exact .inl h
  · rcases Option.or_eq_some_iff.mp h with h | ⟨_,h⟩
    · exact .inr (.inl h)
    · exact .inr (.inr h)

@[simp] theorem getCachedBlock_fst (s : WrappedBlocksStorage H) (blkID : H) :
    (s.getCachedBlock blkID).1 = s.cached blkID := by
  unfold getCachedBlock cached
  cases hv : s.verifiedBlocks blkID with
  | some blk => rfl
  | none =>
    have hd := s.decidedBlocks.get_fst blkID
    have hu := s.unverifiedBlocks.get_fst blkID
    cases hg : s.decidedBlocks.get blkID with
    | mk found decided =>
      rw [hg] at hd
      dsimp only at hd
      subst hd
      cases s.decidedBlocks.peek blkID with
      | some blk => rfl
      | none => exact hu

structure SameBlocks (s s' : WrappedBlocksStorage H) : Prop where
  verifiedBlocks : s'.verifiedBlocks = s.verifiedBlocks
  decidedBlocks : ∀ id, s'.decidedBlocks.peek id = s.decidedBlocks.peek id
  unverifiedBlocks : ∀ id, s'.unverifiedBlocks.peek id = s.unverifiedBlocks.peek id
  status : s'.status = s.status
  nextAddr : s'.nextAddr = s.nextAddr

/-- What a lookup leaves: it only reorders the caches. -/
structure SameContents (s s' : WrappedBlocksStorage H) : Prop extends SameBlocks s s' where
  missingBlocks : s'.missingBlocks = s.missingBlocks
  bytesToIDCache : ∀ bytes, s'.bytesToIDCache.peek bytes = s.bytesToIDCache.peek bytes

theorem getCachedBlock_sameContents (s : WrappedBlocksStorage H) (blkID : H) :
    SameContents s (s.getCachedBlock blkID).2 := by
  unfold getCachedBlock
  cases hv : s.verifiedBlocks blkID with
  | some blk => exact ⟨⟨rfl,fun _ => rfl,fun _ => rfl,rfl,rfl⟩,rfl,fun _ => rfl⟩
  | none =>
    have hd := s.decidedBlocks.peek_get blkID
    have hu := s.unverifiedBlocks.peek_get blkID
    cases hg : s.decidedBlocks.get blkID with
    | mk found decided =>
      rw [hg] at hd
      cases found with
      | some blk => exact ⟨⟨rfl,hd,fun _ => rfl,rfl,rfl⟩,rfl,fun _ => rfl⟩
      | none => exact ⟨⟨rfl,hd,hu,rfl,rfl⟩,rfl,fun _ => rfl⟩

theorem sameBlocks_bytes (s : WrappedBlocksStorage H) (cache : SizedLRU Bytes H) :
    SameBlocks s { s with bytesToIDCache := cache } :=
  ⟨rfl,fun _ => rfl,fun _ => rfl,rfl,rfl⟩

theorem sameBlocks_missing (s : WrappedBlocksStorage H) (missing : LRU H Unit) :
    SameBlocks s { s with missingBlocks := missing } :=
  ⟨rfl,fun _ => rfl,fun _ => rfl,rfl,rfl⟩

theorem sameContents_getBytes (s : WrappedBlocksStorage H) (bytes : Bytes) :
    SameContents s { s with bytesToIDCache := (s.bytesToIDCache.get bytes).2 } :=
  ⟨s.sameBlocks_bytes _,rfl,fun k => s.bytesToIDCache.peek_get bytes k⟩

theorem SameBlocks.cached {s s' : WrappedBlocksStorage H} (h : SameBlocks s s') (blkID : H) :
    s'.cached blkID = s.cached blkID := by
  unfold WrappedBlocksStorage.cached
  rw [h.verifiedBlocks,h.decidedBlocks,h.unverifiedBlocks]

theorem SameBlocks.held {s s' : WrappedBlocksStorage H} (h : SameBlocks s s') {blkID : H}
    {blk : WrappedBlock H} (hb : s'.Held blkID blk) : s.Held blkID blk := by
  unfold Held at hb ⊢
  rwa [h.verifiedBlocks,h.decidedBlocks,h.unverifiedBlocks] at hb

theorem held_put_decided {s : WrappedBlocksStorage H} {id id' : H} {blk blk' : WrappedBlock H}
    (h : { s with decidedBlocks := s.decidedBlocks.put id blk }.Held id' blk') :
    s.Held id' blk' ∨ (id' = id ∧ blk' = blk) := by
  rcases h with hv | hd | hu
  · exact .inl (.inl hv)
  · rcases SizedLRU.peek_put hd with hnew | ⟨_,hd⟩
    · exact .inr hnew
    · exact .inl (.inr (.inl hd))
  · exact .inl (.inr (.inr hu))

theorem held_put_unverified {s : WrappedBlocksStorage H} {id id' : H} {blk blk' : WrappedBlock H}
    (h : { s with unverifiedBlocks := s.unverifiedBlocks.put id blk }.Held id' blk') :
    s.Held id' blk' ∨ (id' = id ∧ blk' = blk) := by
  rcases h with hv | hd | hu
  · exact .inl (.inl hv)
  · exact .inl (.inr (.inl hd))
  · rcases SizedLRU.peek_put hu with hnew | ⟨_,hu⟩
    · exact .inr hnew
    · exact .inl (.inr (.inr hu))

/-- Storing by status adds the block to one cache and leaves the rest alone. -/
structure Stored (s s' : WrappedBlocksStorage H) (id : H) (blk : WrappedBlock H) : Prop where
  held : ∀ id' blk', s'.Held id' blk' → s.Held id' blk' ∨ (id' = id ∧ blk' = blk)
  missingBlocks : s'.missingBlocks = s.missingBlocks
  bytesToIDCache : s'.bytesToIDCache = s.bytesToIDCache
  status : s'.status = s.status
  nextAddr : s'.nextAddr = s.nextAddr

theorem putByStatus_stored {s s' : WrappedBlocksStorage H} {id : H} {blk : WrappedBlock H}
    {st : Status} (h : s.putByStatus id blk st = some s') : Stored s s' id blk := by
  cases st with
  | unspecified => cases h
  | other n => cases h
  | processing =>
    cases h
    exact ⟨fun _ _ => held_put_unverified,rfl,rfl,rfl,rfl⟩
  | rejected =>
    cases h
    exact ⟨fun _ _ => held_put_decided,rfl,rfl,rfl,rfl⟩
  | accepted =>
    cases h
    exact ⟨fun _ _ => held_put_decided,rfl,rfl,rfl,rfl⟩

theorem putByStatus_eq_none_iff {s : WrappedBlocksStorage H} {id : H} {blk : WrappedBlock H}
    {st : Status} :
    s.putByStatus id blk st = none ↔ st ≠ .accepted ∧ st ≠ .rejected ∧ st ≠ .processing := by
  cases st <;> simp [putByStatus]

/-! ## What an operation can do to the caches -/

/-- The three things an operation can do to what the caches hold. Evictions may happen
in each of them. -/
inductive Change (s s' : WrappedBlocksStorage H) (New : H → Block H → Status → Prop)
    (Rejected : H → Prop) : Prop
  | keep (held : ∀ id blk, s'.Held id blk → s.Held id blk) (status : s'.status = s.status)
      (nextAddr : s'.nextAddr = s.nextAddr)
  | add (id : H) (b : Block H) (st : Status) (hnew : New id b st)
      (held : ∀ id' blk, s'.Held id' blk → s.Held id' blk ∨ (id' = id ∧ blk = ⟨s.nextAddr,b⟩))
      (status : s'.status = Function.update s.status s.nextAddr st)
      (nextAddr : s'.nextAddr = s.nextAddr + 1)
  | reject (id : H) (blk : WrappedBlock H) (hrej : Rejected id) (hblk : s.Held id blk)
      (held : ∀ id' blk', s'.Held id' blk' → s.Held id' blk')
      (status : s'.status = Function.update s.status blk.addr .rejected)
      (nextAddr : s'.nextAddr = s.nextAddr)

variable {New New' : H → Block H → Status → Prop} {Rejected : H → Prop}

theorem SameBlocks.change {s s' : WrappedBlocksStorage H} (h : SameBlocks s s') :
    Change s s' New Rejected :=
  .keep (fun _ _ => h.held) h.status h.nextAddr

theorem SameBlocks.trans_change {s s' s'' : WrappedBlocksStorage H} (h : SameBlocks s s')
    (hc : Change s' s'' New Rejected) : Change s s'' New Rejected := by
  cases hc with
  | keep held status nextAddr =>
    exact .keep (fun id blk hb => h.held (held id blk hb)) (status.trans h.status)
      (nextAddr.trans h.nextAddr)
  | add id b st hnew held status nextAddr =>
    refine .add id b st hnew ?_ (by rw [status,h.status,h.nextAddr]) (by rw [nextAddr,h.nextAddr])
    intro id' blk hb
    rcases held id' blk hb with hb | ⟨hid,hblk⟩
    · exact .inl (h.held hb)
    · exact .inr ⟨hid,by rw [hblk,h.nextAddr]⟩
  | reject id blk hrej hblk held status nextAddr =>
    exact .reject id blk hrej (h.held hblk) (fun id' blk' hb => h.held (held id' blk' hb))
      (by rw [status,h.status]) (nextAddr.trans h.nextAddr)

theorem Change.mono {s s' : WrappedBlocksStorage H} (h : Change s s' New Rejected)
    (hnew : ∀ id b st, New id b st → New' id b st) : Change s s' New' Rejected := by
  cases h with
  | keep held status nextAddr => exact .keep held status nextAddr
  | add id b st hn held status nextAddr => exact .add id b st (hnew id b st hn) held status nextAddr
  | reject id blk hr hb held status nextAddr => exact .reject id blk hr hb held status nextAddr

theorem Stored.change_allocate {s s' : WrappedBlocksStorage H} {id : H} {b : Block H} {st : Status}
    (h : Stored (s.allocate b st).2 s' id (s.allocate b st).1) (hnew : New id b st) :
    Change s s' New Rejected :=
  .add id b st hnew h.held h.status h.nextAddr

theorem Stored.change_held {s s' : WrappedBlocksStorage H} {id : H} {blk : WrappedBlock H}
    (h : Stored s s' id blk) (hb : s.Held id blk) : Change s s' New Rejected := by
  refine .keep ?_ h.status h.nextAddr
  intro id' blk' hb'
  rcases h.held id' blk' hb' with hb' | ⟨rfl,rfl⟩
  · exact hb'
  · exact hb

end WrappedBlocksStorage
end Landslide
