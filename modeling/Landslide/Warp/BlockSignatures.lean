import Landslide.VM.Missing
import Landslide.Warp.Backend

/-! # Signatures of blocks

`GetBlockSignature` asks `GetBlock` for the height of a block and then the height index
for the block at that height. The first answer may come from a cache that peers have
filled; the second one comes from the block store.
-/
namespace Landslide
open WrappedBlocksStorage
variable {H : Type} [DecidableEq H]

/-! ## Statuses of stored blocks -/

/-- A cached copy of a block that the store has does not make `GetBlock` fail. -/
def StoredNamed (C : CometBFT H) (vm : VM H) : Prop :=
  ∀ id w, vm.wrappedBlocks.Held id w → Unpruned C vm id →
    (vm.wrappedBlocks.status w.addr).Named

section
variable {C : CometBFT H}

omit [DecidableEq H] in
theorem VerifiedBlock.not_unpruned (hB : C.BlockRules) (hH : C.HashRules) {vm : VM H}
    (hs : StoreValid vm.state vm.disk.blockStore) {bytes : Bytes} {id : H} {b : Block H}
    {st : Status} (h : VerifiedBlock C vm bytes id b st) : ¬Unpruned C vm id := by
  rintro ⟨sb,hsb,hid⟩
  have hle := hs.height_le (BlockStore.mem_held_iff.mp hsb).1
  have hlt := h.valid.lastBlockHeight_lt hB
  rw [hH.header_eq h.hash hid] at hlt
  omega

theorem StoredNamed.call (hB : C.BlockRules) (hH : C.HashRules) {vm : VM H} (hvm : VMValid C vm)
    (hs : StoreValid vm.state vm.disk.blockStore) (h : StoredNamed C vm) {op : Op H}
    (hop : op.IsCall) (hg : WritesSucceed op) : StoredNamed C (vm.step C op) := by
  intro id w hw hu
  rcases unpruned_call hvm hop hg hu with hbefore | hacc
  · rcases hvm.caches.held_cases (step_effect vm hop) hw with ⟨hw,he⟩ | ⟨_,_,he⟩ | hadds
    · rw [he]
      exact h id w hw hbefore
    · exact .inr (.inl he)
    · cases op with
      | buildBlock env => exact .inr (.inr hadds.status)
      | parseBlock bytes => exact hadds.named
      | batchedParseBlock request => exact hop.elim
      | getBlock request => exact .inl hadds.status
      | blockVerify bytes => exact absurd hbefore (hadds.not_unpruned hB hH hs)
      | blockAccept env request => exact .inl hadds.status
      | blockReject request => exact hadds.elim
      | flush => exact hadds.elim
  · exact .inl ((permanent_of_acceptedBy hvm hacc).status w hw)

theorem storedNamed_started {config : ExecutorConfig} {disk : Disk H} {vm : VM H}
    (h : Started C config disk vm) : StoredNamed C vm := by
  obtain ⟨resp,h⟩ := h
  intro id w hw
  rw [h.wrappedBlocks] at hw
  exact absurd hw not_held_new

structure Servable (C : CometBFT H) (vm : VM H) : Prop where
  valid : VMValid C vm
  missing : MissingAbsent C vm
  store : StoreValid vm.state vm.disk.blockStore
  named : StoredNamed C vm

theorem servable_of_reaches (hB : C.BlockRules) (hC : C.CodecRules) (hH : C.HashRules)
    {config : ExecutorConfig} {disk : Disk H} (hdisk : DiskValid C disk) (hchain : ChainDisk disk)
    {vm : VM H} (h : Reaches (Started C config disk) (Guarded C (fun _ op => WritesSucceed op))
      (VM.step C) vm) : Servable C vm := by
  refine Guarded.invariant (P := Servable C) ?_ ?_ h
  · exact fun vm hs => ⟨vmValid_started hB hdisk hs,missingAbsent_started hs,
      storeValid_started hB hchain hs,storedNamed_started hs⟩
  · intro vm op hop hvm hg
    exact ⟨hvm.valid.call hC hop,hvm.missing.call hvm.valid hop hg,hvm.store.call hop hg,
      hvm.named.call hB hH hvm.valid hvm.store hop hg⟩

theorem Servable.getBlock_found (hC : C.CodecRules) (hH : C.HashRules) {vm : VM H}
    (h : Servable C vm) {b : Block H} {id : H} (hb : C.hash b = some id) (hu : Unpruned C vm id) :
    ∃ parentID bytes status timestamp, (getBlock C vm (some id)).1 =
      .ok (.found parentID bytes status (uint64 b.header.height) timestamp) := by
  have hmissing : vm.wrappedBlocks.missingBlocks.peek id = none := by
    cases hm : vm.wrappedBlocks.missingBlocks.peek id with
    | none => rfl
    | some u => exact absurd hu (h.missing id hm)
  obtain ⟨b',bytes,st,hb',_,hget⟩ := getBlock_of_unpruned hC h.valid
    (fun w hw => h.named id w hw hu) hmissing hu
  rw [← hH.header_eq hb' hb]
  exact ⟨_,_,_,_,hget⟩

/-! ## The accepted block -/

def GetBlockResponse.height : GetBlockResponse H → ℕ
  | .notFound => 0
  | .found _ _ _ height _ => height

/-- `GetBlockIDAtHeight`; `none` is a response without an ID. -/
def getBlockIDAtHeight (C : CometBFT H) (vm : VM H) (height : ℕ) : Option H :=
  (vm.disk.blockStore.loadBlock (int64 height)).bind C.hash

def getAcceptedBlock (C : CometBFT H) (vm : VM H) (blkID : H) :
    Outcome (VMError H) (GetBlockResponse H) × VM H :=
  match getBlock C vm (some blkID) with
  | (.ok blkResp,vm) =>
    if getBlockIDAtHeight C vm blkResp.height = some blkID then (.ok blkResp,vm)
    else (.error .notFound,vm)
  | (.error e,vm) => (.error e,vm)
  | (.panic p,vm) => (.panic p,vm)

def OnChain (C : CometBFT H) (vm : VM H) (id : H) : Prop :=
  ∃ b, vm.disk.blockStore.loadBlock b.header.height = some b ∧ C.hash b = some id

def Int64Heights (bs : BlockStore H) : Prop :=
  ∀ sb ∈ bs.held, -2 ^ 63 ≤ sb.block.header.height ∧ sb.block.header.height < 2 ^ 63

theorem int64_uint64 {n : ℤ} (hlow : -2 ^ 63 ≤ n) (hhigh : n < 2 ^ 63) : int64 (uint64 n) = n := by
  have hnonneg : 0 ≤ n % 2 ^ 64 := Int.emod_nonneg n (by norm_num)
  unfold int64 uint64
  rw [Int.toNat_of_nonneg hnonneg]
  have hcast : ((2 ^ 64 : ℕ) : ℤ) = 2 ^ 64 := by norm_num
  rw [← hcast,Int.emod_bmod]
  exact Int.bmod_eq_of_le (by omega) (by omega)

theorem getBlock_isPanic (vm : VM H) (id : Option H) : (getBlock C vm id).1.isPanic = false := by
  have hgets := getBlock_gets (C := C) vm id
  generalize getBlock C vm id = r at hgets
  cases hgets with
  | invalid => rfl
  | held id w hw hs hr => cases hr <;> rfl
  | missing id hn hs hm hs' => rfl
  | loaded id b hn hs hm hb hr => cases hr <;> rfl

theorem getAcceptedBlock_isPanic (vm : VM H) (id : H) :
    (getAcceptedBlock C vm id).1.isPanic = false := by
  have hget := getBlock_isPanic (C := C) vm (some id)
  unfold getAcceptedBlock
  split
  · split <;> rfl
  · rfl
  · next hpanic => simp [hpanic] at hget

/-- Whoever gave the height in the response, the block at that height has the hash. -/
theorem getAcceptedBlock_onChain {vm : VM H} {id : H} {resp : GetBlockResponse H}
    (h : (getAcceptedBlock C vm id).1 = .ok resp) : OnChain C vm id := by
  obtain ⟨s,hframe⟩ := (getBlock_gets (C := C) vm (some id)).frame
  have hdisk : (getBlock C vm (some id)).2.disk = vm.disk := by rw [hframe]
  unfold getAcceptedBlock at h
  cases hget : getBlock C vm (some id) with
  | mk outcome vm' =>
    rw [hget] at h hdisk
    cases outcome with
    | error e => cases h
    | panic p => cases h
    | ok blkResp =>
      dsimp only at h hdisk
      split at h
      · next hid =>
        unfold getBlockIDAtHeight at hid
        rw [hdisk] at hid
        obtain ⟨b,hload,hb⟩ := Option.bind_eq_some_iff.mp hid
        obtain ⟨_,_,_,hheight⟩ := BlockStore.loadBlock_eq_some hload
        exact ⟨b,hheight ▸ hload,hb⟩
      · cases h

theorem getAcceptedBlock_ok_iff (hC : C.CodecRules) (hH : C.HashRules) {vm : VM H}
    (h : Servable C vm) (hheights : Int64Heights vm.disk.blockStore) (id : H) :
    (∃ resp, (getAcceptedBlock C vm id).1 = .ok resp) ↔ OnChain C vm id := by
  obtain ⟨s,hframe⟩ := (getBlock_gets (C := C) vm (some id)).frame
  have hdisk : (getBlock C vm (some id)).2.disk = vm.disk := by rw [hframe]
  constructor
  · exact fun ⟨resp,hresp⟩ => getAcceptedBlock_onChain hresp
  · rintro ⟨b,hload,hb⟩
    obtain ⟨sb,hsb,rfl,_⟩ := BlockStore.loadBlock_eq_some hload
    obtain ⟨hlow,hhigh⟩ := hheights sb hsb
    obtain ⟨parentID,bytes,status,timestamp,hfound⟩ := h.getBlock_found hC hH hb ⟨sb,hsb,hb⟩
    unfold getAcceptedBlock
    cases hget : getBlock C vm (some id) with
    | mk outcome vm' =>
      rw [hget] at hfound hdisk
      dsimp only at hfound hdisk
      subst hfound
      have hindex : getBlockIDAtHeight C vm' (GetBlockResponse.found parentID bytes status
          (uint64 sb.block.header.height) timestamp).height = some id := by
        rw [getBlockIDAtHeight,GetBlockResponse.height,int64_uint64 hlow hhigh,hdisk,hload]
        exact hb
      dsimp only
      rw [if_pos hindex]
      exact ⟨_,rfl⟩

end

namespace Warp

/-- What a backend needs to sign blocks. -/
structure BlockSigner (H : Type) where
  computeHash256 : Bytes → ID
  idString : ID → String
  networkID : UInt32
  sourceChainID : ID
  /-- The bytes of a block hash. -/
  toID : H → ID
  sign : UnsignedMessage → Except String Bytes

namespace BlockSigner
variable {C : CometBFT H}

def signBlockMessage (b : BlockSigner H) (blockHashPayload : Hash)
    (unsignedMessage : UnsignedMessage) (acceptedBlock : Except String (GetBlockResponse H)) :
    Except BackendError Bytes :=
  match verifyBlockMessage (b.idString blockHashPayload.hash) acceptedBlock with
  | some err => .error (.validateBlock err.error)
  | none => (b.sign unsignedMessage).mapError .sign

def getBlockSignature (b : BlockSigner H) (C : CometBFT H) (vm : VM H) (blockID : H) :
    Outcome BackendError Bytes × VM H :=
  match newHash (b.toID blockID) with
  | .error e => (.error (.newHash e),vm)
  | .ok blockHashPayload =>
    match newUnsignedMessage b.computeHash256 b.networkID b.sourceChainID blockHashPayload.bytes with
    | .error e => (.error (.newUnsignedMessage e),vm)
    | .ok unsignedMessage =>
      match getAcceptedBlock C vm blockID with
      | (.ok resp,vm) => (.ofExcept id (b.signBlockMessage blockHashPayload unsignedMessage (.ok resp)),vm)
      | (.error e,vm) =>
        (.ofExcept id (b.signBlockMessage blockHashPayload unsignedMessage (.error e.text)),vm)
      | (.panic p,vm) => (.panic p,vm)

omit [DecidableEq H] in
theorem exists_unsignedMessage (b : BlockSigner H) (blockID : H) :
    ∃ p m, newHash (b.toID blockID) = .ok p ∧
      newUnsignedMessage b.computeHash256 b.networkID b.sourceChainID p.bytes = .ok m := by
  refine ⟨_,_,newHash_ok _,newUnsignedMessage_of_le ?_⟩
  simp only [List.length_append,beBytes_length,Hash.body,(b.toID blockID).2]
  decide

/-- No block makes it panic, and a signature is one over the message that names the block. -/
theorem getBlockSignature_spec (b : BlockSigner H) (vm : VM H) (blockID : H) :
    (b.getBlockSignature C vm blockID).1.isPanic = false ∧
      ∀ sig, (b.getBlockSignature C vm blockID).1 = .ok sig → OnChain C vm blockID ∧
        ∃ p m, parsePayload m.payload = .ok (.hash p) ∧ p.hash = b.toID blockID ∧
          b.sign m = .ok sig := by
  have hpanic := getAcceptedBlock_isPanic (C := C) vm blockID
  obtain ⟨p,m,hp,hm⟩ := b.exists_unsignedMessage blockID
  have hpayload : parsePayload m.payload = .ok (.hash p) ∧ p.hash = b.toID blockID := by
    obtain ⟨_,_,hpayload⟩ := bind_eq_ok hm
    cases hpayload
    rw [newHash_ok] at hp
    cases hp
    refine ⟨parsePayload_hash ?_ (List.drop_left' (beBytes_length 2 _)),rfl⟩
    rw [List.length_append,beBytes_length]
    omega
  unfold getBlockSignature
  rw [hp]
  dsimp only
  rw [hm]
  dsimp only
  cases hacc : getAcceptedBlock C vm blockID with
  | mk outcome vm' =>
    cases outcome with
    | panic p => simp [hacc] at hpanic
    | error e =>
      refine ⟨rfl,?_⟩
      intro sig h
      cases h
    | ok resp =>
      have hon : OnChain C vm blockID := getAcceptedBlock_onChain (by rw [hacc])
      refine ⟨by simp,fun sig h => ⟨hon,p,m,hpayload.1,hpayload.2,?_⟩⟩
      exact mapError_eq_ok (Outcome.ofExcept_eq_ok_iff.mp h)

theorem getBlockSignature_ok_iff (b : BlockSigner H) (hsign : ∀ m, ∃ sig, b.sign m = .ok sig)
    (vm : VM H) (blockID : H) : (∃ sig, (b.getBlockSignature C vm blockID).1 = .ok sig) ↔
      ∃ resp, (getAcceptedBlock C vm blockID).1 = .ok resp := by
  obtain ⟨p,m,hp,hm⟩ := b.exists_unsignedMessage blockID
  obtain ⟨sig,hsig⟩ := hsign m
  unfold getBlockSignature
  rw [hp]
  dsimp only
  rw [hm]
  dsimp only
  cases hacc : getAcceptedBlock C vm blockID with
  | mk outcome vm' =>
    cases outcome with
    | ok resp =>
      refine ⟨fun _ => ⟨resp,rfl⟩,fun _ => ⟨sig,?_⟩⟩
      simp [signBlockMessage,verifyBlockMessage,hsig,Except.mapError]
    | error e => exact ⟨fun ⟨_,h⟩ => (nomatch h),fun ⟨_,h⟩ => (nomatch h)⟩
    | panic p => exact ⟨fun ⟨_,h⟩ => (nomatch h),fun ⟨_,h⟩ => (nomatch h)⟩

/-- In every state of every run whose store writes succeed, a block is signed exactly if
it is the block that the store holds at its height. -/
theorem getBlockSignature_iff_onChain (hB : C.BlockRules) (hC : C.CodecRules) (hH : C.HashRules)
    {config : ExecutorConfig} {disk : Disk H} (hdisk : DiskValid C disk) (hchain : ChainDisk disk)
    {vm : VM H} (h : Reaches (Started C config disk) (Guarded C (fun _ op => WritesSucceed op))
      (VM.step C) vm) (hheights : Int64Heights vm.disk.blockStore) (b : BlockSigner H)
    (hsign : ∀ m, ∃ sig, b.sign m = .ok sig) (blockID : H) :
    (∃ sig, (b.getBlockSignature C vm blockID).1 = .ok sig) ↔ OnChain C vm blockID := by
  rw [getBlockSignature_ok_iff b hsign]
  exact getAcceptedBlock_ok_iff hC hH (servable_of_reaches hB hC hH hdisk hchain h) hheights blockID

end BlockSigner

namespace Sample
open Landslide.Sample

def blockSigner : BlockSigner Digest where
  computeHash256 := ID.ofBytes
  idString _ := "block"
  networkID := 1
  sourceChainID := zeroID
  toID _ := zeroID
  sign _ := .ok []

def acceptedVM : VM Digest :=
  secondRun.foldl (VM.step (comet [secondBlock])) (vm [secondBlock])

theorem acceptedVM_reached : Reaches (Started (comet [secondBlock]) config disk)
    (Guarded (comet [secondBlock]) (fun _ op => WritesSucceed op)) (VM.step (comet [secondBlock]))
    acceptedVM := by
  unfold acceptedVM secondRun
  simp only [List.foldl_cons,List.foldl_nil]
  exact .step (.step (.step (reaches_vm _) trivial) rfl) trivial

theorem second_block_signed : OnChain (comet [secondBlock]) acceptedVM secondID ∧
    ∃ sig, (blockSigner.getBlockSignature (comet [secondBlock]) acceptedVM secondID).1 = .ok sig := by
  have hon : OnChain (comet [secondBlock]) acceptedVM secondID :=
    ⟨secondBlock,by decide +kernel,by decide +kernel⟩
  have hheights : ∀ sb ∈ acceptedVM.disk.blockStore.held,
      -2 ^ 63 ≤ sb.block.header.height ∧ sb.block.header.height < 2 ^ 63 := by decide +kernel
  exact ⟨hon,(BlockSigner.getBlockSignature_iff_onChain (Symbolic.blockRules _)
    (Symbolic.codecRules _) (Symbolic.hashRules _) (diskValid _) chainDisk acceptedVM_reached
    hheights blockSigner (fun _ => ⟨_,rfl⟩) secondID).mpr hon⟩

end Sample
end Warp
end Landslide
