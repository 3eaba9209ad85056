import Landslide.VM.Invariants

/-! # Is parsing transparent to the caches?

A byte string that decodes should parse to the same answer whatever the caches hold.
It does, except when the cache of bytes still knows the ID and no cache holds the
block any more: then nothing was decoded and `ParseBlock` fails.
-/
namespace Landslide
open WrappedBlocksStorage
variable {H : Type} [DecidableEq H] {C : CometBFT H}

def AnswersFor (C : CometBFT H) (b : Block H) (result : Outcome (VMError H) (ParseBlockResponse H)) :
    Prop :=
  ∃ resp, result = .ok resp ∧ resp.id = C.hash b ∧ resp.parentID = b.header.lastBlockID.hash ∧
    resp.height = uint64 b.header.height ∧ resp.timestamp = b.header.time

omit [DecidableEq H] in
theorem answersFor_of_hash (hH : C.HashRules) {b b' : Block H} {id : H} {st : Status}
    (hb : C.hash b = some id) (hb' : C.hash b' = some id) :
    AnswersFor C b (.ok (parseBlockResponse C b' st)) := by
  have hheader := hH.header_eq hb' hb
  refine ⟨_,rfl,hb'.trans hb.symm,?_,?_,?_⟩
  · exact congrArg (fun h => h.lastBlockID.hash) hheader
  · exact congrArg (fun h => uint64 h.height) hheader
  · exact congrArg Header.time hheader

/-- `ParseBlock` of decodable bytes answers for the decoded block exactly when the
block has an ID and the ID is not one that the cache of bytes remembers for a block no
cache holds. -/
theorem answersFor_iff (hH : C.HashRules) {vm : VM H} (h : CacheValid C vm.wrappedBlocks)
    {bytes : Bytes} {b : Block H} {st : Status} (hd : decodeBlockWithStatus C bytes = .ok (b,st))
    (hst : st = .accepted ∨ st = .rejected ∨ st = .processing) :
    AnswersFor C b (parseBlock C vm bytes).1 ↔ ∃ id, C.hash b = some id ∧
      ¬(vm.wrappedBlocks.bytesToIDCache.peek bytes = some id ∧
        vm.wrappedBlocks.cached id = none) := by
  constructor
  · rintro ⟨resp,hr,_⟩
    obtain ⟨id,b',st',hd',hb,hcase⟩ := parseBlock_ok h hr
    rw [hd] at hd'
    cases hd'
    refine ⟨id,hb,?_⟩
    rintro ⟨hpeek,hn⟩
    rcases hcase with ⟨w,hw,_⟩ | ⟨hp,_⟩
    · rw [hn] at hw
      cases hw
    · rw [hp.notCached] at hpeek
      cases hpeek
  · rintro ⟨id,hb,hnot⟩
    cases hw : vm.wrappedBlocks.cached id with
    | some w =>
      rw [parseBlock_of_cached h hd hb hw]
      exact answersFor_of_hash hH hb (h.hash id w (held_of_cached hw))
    | none =>
      -- the bytes were decoded when they entered the cache, so they can only lead to this ID
      have hpeek : vm.wrappedBlocks.bytesToIDCache.peek bytes = none := by
        cases hp : vm.wrappedBlocks.bytesToIDCache.peek bytes with
        | none => rfl
        | some id' =>
          obtain ⟨b',st',hd',hb'⟩ := h.bytes bytes id' hp
          rw [hd] at hd'
          cases hd'
          rw [hb] at hb'
          cases hb'
          exact absurd ⟨hp,hw⟩ hnot
      rw [ParsedBlock.parseBlock_eq ⟨hpeek,hw,hd,hb,hst⟩]
      exact answersFor_of_hash hH hb hb

/-- In every state of every run, `ParseBlock` of bytes that decode with a named status
succeeds with the fields of the decoded block if and only if the block names a
validator set and it is not the case that the cache of bytes knows the bytes while all
block caches have lost the block. -/
theorem parseBlock_transparent_iff (hB : C.BlockRules) (hC : C.CodecRules) (hH : C.HashRules)
    {config : ExecutorConfig} {disk : Disk H} (hdisk : DiskValid C disk) {vm : VM H}
    (h : Reaches (Started C config disk) (fun _ _ => True) (VM.step C) vm) {bytes : Bytes}
    {b : Block H} {st : Status} (hd : decodeBlockWithStatus C bytes = .ok (b,st))
    (hst : st = .accepted ∨ st = .rejected ∨ st = .processing) :
    AnswersFor C b (parseBlock C vm bytes).1 ↔ ∃ id, C.hash b = some id ∧
      ¬(vm.wrappedBlocks.bytesToIDCache.peek bytes = some id ∧
        vm.wrappedBlocks.cached id = none) :=
  answersFor_iff hH (vmValid_of_reaches hB hC hdisk h).caches hd hst

/-! ## A block that never fits -/

namespace Sample

def txBlock (tx : Tx) : Block Digest :=
  Symbolic.makeBlock genesis 1 [tx] ⟨0,0,.zero Digest,[]⟩ proposerAddress

def txID (tx : Tx) : Digest := .header (txBlock tx).header

/-- The wire form of the block with status `PROCESSING`, as long as the real one is for
a transaction of 6800 bytes. -/
def txBytes : Bytes := 1 :: 1 :: List.replicate 9497 0

theorem length_txBytes : txBytes.length = 9499 := by
  rw [txBytes,List.length_cons,List.length_cons,List.length_replicate]

section
variable (tx : Tx)

theorem validateBasic_txBlock : Symbolic.validateBasic (txBlock tx) = none :=
  if_pos ⟨rfl,(by decide : genesis.chainID.utf8ByteSize ≤ CometBFT.maxChainIDLen),
    (by decide : (0 : ℤ) < 1),rfl,
    (by decide : CometBFT.CommitValid (⟨0,0,.zero Digest,[]⟩ : Commit Digest)),rfl,rfl,rfl⟩

theorem decode_txBlock : decodeBlockWithStatus (comet [txBlock tx]) txBytes =
    .ok (txBlock tx,.processing) := by
  have h : (comet [txBlock tx]).blockFromProto (txBlock tx) = .ok (txBlock tx) :=
    Symbolic.blockFromProto_of_valid _ (validateBasic_txBlock tx)
  change (((comet [txBlock tx]).blockFromProto (txBlock tx)).bind
    fun b => .ok (b,Status.processing)) = _
  rw [h]
  rfl

def parsedVM : VM Digest := (vm [txBlock tx]).step (comet [txBlock tx]) (.parseBlock txBytes)

theorem unverifiedCacheSize_lt (htx : 6800 ≤ tx.length) (addr : ℕ) :
    unverifiedCacheSize < cachedBlockSize (comet [txBlock tx]) (txID tx) ⟨addr,txBlock tx⟩ := by
  have hlen : (comet [txBlock tx]).jsonLen (txBlock tx) = 1003 + 4 * ((tx.length + 2) / 3) := by
    simp only [symbolic,Symbolic.jsonLen,txBlock,Symbolic.makeBlock,List.map_cons,List.map_nil,
      List.sum_cons,List.sum_nil,List.length_nil]
    omega
  simp only [cachedBlockSize,unverifiedCacheSize,idLen,pointerOverhead,hlen]
  omega

theorem parsedVM_caches (htx : 6800 ≤ tx.length) :
    (parsedVM tx).wrappedBlocks.bytesToIDCache.peek txBytes = some (txID tx) ∧
      (parsedVM tx).wrappedBlocks.cached (txID tx) = none := by
  have hid : (comet [txBlock tx]).hash (txBlock tx) = some (txID tx) := rfl
  have hput : ∀ addr, ((SizedLRU.new unverifiedCacheSize (cachedBlockSize (comet [txBlock tx]))).put
      (txID tx) ⟨addr,txBlock tx⟩).peek (txID tx) = none := by
    intro addr
    rw [SizedLRU.put_of_lt (unverifiedCacheSize_lt tx htx addr)]
    exact SizedLRU.peek_flush _ _
  have hfits : cachedBlockBytesSize txBytes (txID tx) ≤ bytesToIDCacheSize := by
    unfold cachedBlockBytesSize
    rw [length_txBytes]
    decide
  have hbytes : ((SizedLRU.new bytesToIDCacheSize cachedBlockBytesSize).put txBytes (txID tx)).peek
      txBytes = some (txID tx) :=
    SizedLRU.peek_put_of_le hfits
  simp only [parsedVM,VM.step,parseBlock,vm,WrappedBlocksStorage.new,SizedLRU.get_new,decode_txBlock,
    hid,parseBlockID,getCachedBlock,allocate,putByStatus]
  exact ⟨hbytes,by simp [cached,hput]⟩

theorem not_answersFor_again (htx : 6800 ≤ tx.length) :
    ¬AnswersFor (comet [txBlock tx]) (txBlock tx)
      (parseBlock (comet [txBlock tx]) (parsedVM tx) txBytes).1 := by
  have hvm : VMValid (comet [txBlock tx]) (parsedVM tx) :=
    vmValid_step (Symbolic.codecRules _)
      (vmValid_started (Symbolic.blockRules _) (diskValid _) (started _)) _
  rw [answersFor_iff (Symbolic.hashRules _) hvm.caches (decode_txBlock tx) (.inr (.inr rfl))]
  rintro ⟨id,hid,hnot⟩
  cases hid
  exact hnot (parsedVM_caches tx htx)

end

/-- The bytes of a block with a transaction of 6800 bytes decode, were parsed before,
and cannot be parsed again. -/
theorem parseBlock_not_transparent :
    ∃ vm, Reaches (Started (comet [txBlock (List.replicate 6800 0)]) config disk)
        (fun _ _ => True) (VM.step (comet [txBlock (List.replicate 6800 0)])) vm ∧
      decodeBlockWithStatus (comet [txBlock (List.replicate 6800 0)]) txBytes =
        .ok (txBlock (List.replicate 6800 0),.processing) ∧
      ¬AnswersFor (comet [txBlock (List.replicate 6800 0)]) (txBlock (List.replicate 6800 0))
        (parseBlock (comet [txBlock (List.replicate 6800 0)]) vm txBytes).1 := by
  refine ⟨parsedVM (List.replicate 6800 0),.step (reaches_vm _) trivial,decode_txBlock _,?_⟩
  exact not_answersFor_again _ (by rw [List.length_replicate])

/-- The first parse of the block does answer for it. -/
theorem parseBlock_transparent_first :
    AnswersFor (comet [txBlock []]) (txBlock [])
      (parseBlock (comet [txBlock []]) (vm [txBlock []]) txBytes).1 :=
  (parseBlock_transparent_iff (Symbolic.blockRules _) (Symbolic.codecRules _)
    (Symbolic.hashRules _) (diskValid _) (reaches_vm _) (decode_txBlock []) (.inr (.inr rfl))).mpr
    ⟨txID [],rfl,fun h => nomatch h.1⟩

end Sample
end Landslide
