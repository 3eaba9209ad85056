import Landslide.VM.Invariants

/-! # Who decides that a block is accepted

The status of a block is in the caches, on the wire and, for an accepted block,
implied by the block store. `ParseBlock` and `BlockVerify` take the status on the wire
as it is. A run in which they are never told an untruth reports only stored blocks as
accepted, and a run in which no stale encoding is parsed keeps reporting them so.
-/
namespace Landslide
open WrappedBlocksStorage
variable {H : Type} [DecidableEq H] {C : CometBFT H}

/-! ## Accepted means stored -/

/-- The bytes do not claim that a block is accepted which is not in the store. Only
those bytes matter whose status the VM takes over. -/
def HonestCall (C : CometBFT H) (vm : VM H) : Op H → Prop
  | .parseBlock bytes => ∀ id b, ParsedBlock C vm bytes id b .accepted → InStore C vm id
  | .blockVerify bytes => ∀ id b, VerifiedBlock C vm bytes id b .accepted → InStore C vm id
  | _ => True

def AcceptedStored (C : CometBFT H) (vm : VM H) : Prop :=
  ∀ id w, vm.wrappedBlocks.Held id w → vm.wrappedBlocks.status w.addr = .accepted → InStore C vm id

theorem AcceptedBlock.inStore {vm : VM H} (hvm : VMValid C vm) {env : AcceptEnv H}
    {request : Option H} {id : H} {b : Block H} {st : Status}
    (h : AcceptedBlock C env vm request id b st) :
    InStore C (vm.step C (.blockAccept env request)) id := by
  obtain ⟨w,hw,rfl⟩ := h.cached
  obtain ⟨next,hok⟩ := h.accepted
  obtain ⟨blockID,_,_,_,_,hp⟩ := acceptBlock_ok hvm.base.le hok
  have hid := hvm.caches.hash id w (held_of_cached hw)
  obtain rfl := h.requested
  have hadv := step_advance (C := C) vm (show (Op.blockAccept env (some id)).IsCall from trivial)
  cases hadv with
  | quiet hstate hdisk hn =>
    rw [hn env id rfl] at hw
    cases hw
  | failed env' id' w' hop hw' ha hstate hdisk =>
    cases hop
    rw [hw] at hw'
    cases hw'
    exact absurd hok (ha next)
  | accepted env' id' w' hop hw' ha hdisk =>
    cases hop
    rw [hw] at hw'
    cases hw'
    refine ⟨storedBlock vm.state w.block blockID,?_,hid⟩
    rw [hdisk,hp.blocks]
    exact List.mem_cons_self

theorem AcceptedStored.call {vm : VM H} (hvm : VMValid C vm) (h : AcceptedStored C vm) {op : Op H}
    (hop : op.IsCall) (hg : HonestCall C vm op) : AcceptedStored C (vm.step C op) := by
  intro id w hw hst
  rcases hvm.caches.held_cases (step_effect vm hop) hw with ⟨hw,he⟩ | ⟨_,_,he⟩ | hadds
  · exact (h id w hw (he ▸ hst)).call hvm hop
  · rw [hst] at he
    cases he
  · rw [hst] at hadds
    cases op with
    | buildBlock env => cases hadds.status
    | parseBlock bytes => exact (hg id w.block hadds).call hvm hop
    | batchedParseBlock request => exact hop.elim
    | getBlock request =>
      obtain ⟨sb,hsb,hb,hid⟩ := BlockStore.loadBlockByHash_eq_some hadds.loaded
      have hin : InStore C vm id := ⟨sb,(BlockStore.mem_held_iff.mp hsb).1,hb ▸ hid⟩
      exact hin.call hvm hop
    | blockVerify bytes => exact (hg id w.block hadds).call hvm hop
    | blockAccept env request => exact hadds.inStore hvm
    | blockReject request => exact hadds.elim
    | flush => exact hadds.elim

theorem acceptedStored_of_reaches (hB : C.BlockRules) (hC : C.CodecRules) {config : ExecutorConfig}
    {disk : Disk H} (hdisk : DiskValid C disk) {vm : VM H}
    (h : Reaches (Started C config disk) (Guarded C (HonestCall C)) (VM.step C) vm) :
    VMValid C vm ∧ AcceptedStored C vm := by
  refine Guarded.invariant (P := fun vm => VMValid C vm ∧ AcceptedStored C vm) ?_ ?_ h
  · intro vm hs
    refine ⟨vmValid_started hB hdisk hs,?_⟩
    obtain ⟨resp,hs⟩ := hs
    intro id w hw
    rw [hs.wrappedBlocks] at hw
    exact absurd hw not_held_new
  · intro vm op hop hvm hg
    exact ⟨hvm.1.call hC hop,hvm.2.call hvm.1 hop hg⟩

def TruthfulParse (C : CometBFT H) (vm : VM H) (bytes : Bytes) : Prop :=
  ∀ resp, (parseBlock C vm bytes).1 = .ok resp → resp.status = .accepted →
    ∃ id, resp.id = some id ∧ InStore C vm id

def TruthfulGet (C : CometBFT H) (vm : VM H) (id : H) : Prop :=
  ∀ parentID bytes height timestamp,
    (getBlock C vm (some id)).1 = .ok (.found parentID bytes .accepted height timestamp) →
    InStore C vm id

/-- In every state of a run of honest calls, `GetBlock` reports only blocks of the store
as accepted, and `ParseBlock` does so exactly for honest bytes. -/
theorem accepted_reports_stored (hB : C.BlockRules) (hC : C.CodecRules) {config : ExecutorConfig}
    {disk : Disk H} (hdisk : DiskValid C disk) {vm : VM H}
    (h : Reaches (Started C config disk) (Guarded C (HonestCall C)) (VM.step C) vm) :
    (∀ id, TruthfulGet C vm id) ∧
      ∀ bytes, TruthfulParse C vm bytes ↔ HonestCall C vm (.parseBlock bytes) := by
  obtain ⟨hvm,hacc⟩ := acceptedStored_of_reaches hB hC hdisk h
  constructor
  · intro id parentID bytes height timestamp hr
    obtain ⟨id',hid,hcase⟩ := getBlock_found hr
    cases hid
    rcases hcase with ⟨w,hw,hst⟩ | ⟨_,b,hb⟩
    · exact hacc id w (held_of_cached hw) hst.symm
    · obtain ⟨sb,hsb,rfl,hid⟩ := BlockStore.loadBlockByHash_eq_some hb
      exact ⟨sb,(BlockStore.mem_held_iff.mp hsb).1,hid⟩
  · intro bytes
    constructor
    · intro ht id b hp
      obtain ⟨id',hid',hin⟩ := ht _ hp.parseBlock_eq rfl
      have hid : some id = some id' := hp.hash.symm.trans hid'
      cases hid
      exact hin
    · intro hg resp hr hst
      obtain ⟨id,b,st,_,hb,hcase⟩ := parseBlock_ok hvm.caches hr
      rcases hcase with ⟨w,hw,rfl⟩ | ⟨hp,rfl⟩
      · exact ⟨id,hvm.caches.hash id w (held_of_cached hw),hacc id w (held_of_cached hw) hst⟩
      · cases hst
        exact ⟨id,hb,hg id b hp⟩

namespace Sample

def claimedBytes : Bytes := [3,1]

/-- Nobody has accepted the second block, but its sender says so. -/
theorem parseBlock_false_acceptance :
    ∃ vm, Reaches (Started (comet [secondBlock]) config disk) (fun _ _ => True)
        (VM.step (comet [secondBlock])) vm ∧
      ¬TruthfulParse (comet [secondBlock]) vm claimedBytes := by
  refine ⟨vm [secondBlock],reaches_vm _,fun h => ?_⟩
  have hparse : (parseBlock (comet [secondBlock]) (vm [secondBlock]) claimedBytes).1 =
      .ok (parseBlockResponse (comet [secondBlock]) secondBlock .accepted) := by decide +kernel
  obtain ⟨id,hid,sb,hsb,hhash⟩ := h _ hparse rfl
  have hne : ∀ sb ∈ (vm [secondBlock]).disk.blockStore.blocks,
      (comet [secondBlock]).hash sb.block ≠ (comet [secondBlock]).hash secondBlock := by
    decide +kernel
  exact hne sb hsb (hhash.trans hid.symm)

/-- The first block is accepted, and its encoding may say so. -/
theorem parseBlock_true_acceptance : TruthfulParse (comet []) (vm []) [3,0] := by
  refine ((accepted_reports_stored (Symbolic.blockRules _) (Symbolic.codecRules _) (diskValid [])
    (reaches_vm [])).2 [3,0]).mpr (fun id b hp => ?_)
  have hd : decodeBlockWithStatus (comet []) [3,0] = .ok (firstBlock,.accepted) := by
    decide +kernel
  have hb : b = firstBlock := by
    have hd' := hp.decoded
    rw [hd] at hd'
    cases hd'
    rfl
  exact ⟨_,List.mem_cons_self,hb ▸ hp.hash⟩

end Sample

/-! ## Accepted stays accepted -/

def Unpruned (C : CometBFT H) (vm : VM H) (id : H) : Prop :=
  ∃ sb ∈ vm.disk.blockStore.held, C.hash sb.block = some id

/-- The engine does not reject an accepted block, and no encoding of an accepted block
that says otherwise gets into the caches. -/
def KeepsAccepted (C : CometBFT H) (accepted : List H) (vm : VM H) : Op H → Prop
  | .parseBlock bytes => ∀ id ∈ accepted, ∀ b st, ParsedBlock C vm bytes id b st → st = .accepted
  | .blockReject request => ∀ id ∈ accepted, request ≠ some id
  | _ => True

structure Permanent (C : CometBFT H) (vm : VM H) (id : H) : Prop where
  status : ∀ w, vm.wrappedBlocks.Held id w → vm.wrappedBlocks.status w.addr = .accepted
  stored : ∃ sb ∈ vm.disk.blockStore.blocks, C.hash sb.block = some id ∧
    sb.block.header.height ≤ vm.state.lastBlockHeight
  notMissing : Unpruned C vm id → vm.wrappedBlocks.missingBlocks.peek id = none

theorem lastBlockHeight_mono (hB : C.BlockRules) {vm : VM H} (hvm : VMValid C vm) {op : Op H}
    (hop : op.IsCall) : vm.state.lastBlockHeight ≤ (vm.step C op).state.lastBlockHeight := by
  cases step_advance (C := C) vm hop with
  | quiet hstate hdisk hn => rw [hstate]
  | failed env id w hop hw ha hstate hdisk => rw [hstate]
  | accepted env id w hop hw ha hdisk =>
    obtain ⟨blockID,_,_,hc,_,_⟩ := acceptBlock_ok hvm.base.le ha
    rw [hc.follows.lastBlockHeight]
    exact (hc.valid.lastBlockHeight_lt hB).le

theorem Permanent.hash_ne (hH : C.HashRules) {vm : VM H} {id : H} (h : Permanent C vm id)
    {b : Block H} (hlt : vm.state.lastBlockHeight < b.header.height) : C.hash b ≠ some id := by
  intro hb
  obtain ⟨sb,_,hsb,hle⟩ := h.stored
  rw [hH.header_eq hb hsb] at hlt
  omega

theorem Permanent.unpruned_of_call (hH : C.HashRules) {vm : VM H} (hvm : VMValid C vm) {op : Op H}
    (hop : op.IsCall) {id : H} (h : Permanent C vm id) (hu : Unpruned C (vm.step C op) id) :
    Unpruned C vm id := by
  obtain ⟨sb,hsb,hid⟩ := h.stored
  obtain ⟨sb',hsb',hid'⟩ := hu
  have hbase := (BlockStore.mem_held_iff.mp hsb').2
  rw [hH.header_eq hid' hid.1] at hbase
  exact ⟨sb,BlockStore.mem_held_iff.mpr ⟨hsb,(hvm.store_grows hop).2.trans hbase⟩,hid.1⟩

theorem Permanent.adds (hB : C.BlockRules) (hH : C.HashRules) (hP : C.ProposalRules)
    {accepted : List H} {vm : VM H} {id : H} (hid : id ∈ accepted) (h : Permanent C vm id)
    {op : Op H} (hg : KeepsAccepted C accepted vm op) {b : Block H} {st : Status}
    (hadds : op.Adds C vm id b st) : st = .accepted := by
  cases op with
  | buildBlock env =>
    obtain ⟨txs,rfl⟩ := createProposalBlock_ok hP hadds.proposed
    exact absurd hadds.hash (h.hash_ne hH (Int.lt_succ _))
  | parseBlock bytes => exact hg id hid b st hadds
  | batchedParseBlock request => exact hadds.elim
  | getBlock request => exact hadds.status
  | blockVerify bytes =>
    exact absurd hadds.hash (h.hash_ne hH (hadds.valid.lastBlockHeight_lt hB))
  | blockAccept env request => exact hadds.status
  | blockReject request => exact hadds.elim
  | flush => exact hadds.elim

theorem MissingBlock.not_unpruned {vm : VM H} {request : Option H} {id : H}
    (h : MissingBlock C vm request id) : ¬Unpruned C vm id := by
  rintro ⟨sb,hsb,hid⟩
  obtain ⟨b,hb⟩ := BlockStore.loadBlockByHash_isSome hsb hid
  rw [h.notLoaded] at hb
  cases hb

theorem missing_before_call {vm : VM H} {op : Op H} (hop : op.IsCall) {id : H}
    (hu : Unpruned C vm id) (hm : (vm.step C op).wrappedBlocks.missingBlocks.peek id = some ()) :
    vm.wrappedBlocks.missingBlocks.peek id = some () := by
  rcases (step_effect (C := C) vm hop).missing id hm with hm | hm
  · exact hm
  · cases op with
    | getBlock request => exact absurd hu hm.not_unpruned
    | _ => exact hm.elim

theorem Permanent.call (hB : C.BlockRules) (hH : C.HashRules) (hP : C.ProposalRules)
    {accepted : List H} {vm : VM H} (hvm : VMValid C vm) {id : H} (hid : id ∈ accepted)
    (h : Permanent C vm id) {op : Op H} (hop : op.IsCall) (hg : KeepsAccepted C accepted vm op) :
    Permanent C (vm.step C op) id := by
  refine ⟨?_,?_,?_⟩
  · intro w hw
    rcases hvm.caches.held_cases (step_effect vm hop) hw with ⟨hw,he⟩ | ⟨_,hrej,_⟩ | hadds
    · exact he.trans (h.status w hw)
    · cases op with
      | blockReject request => exact absurd hrej (hg id hid)
      | _ => exact hrej.elim
    · exact h.adds hB hH hP hid hg hadds
  · obtain ⟨sb,hsb,hhash,hle⟩ := h.stored
    obtain ⟨saved,hblocks⟩ := (hvm.store_grows hop).1
    refine ⟨sb,?_,hhash,hle.trans (lastBlockHeight_mono hB hvm hop)⟩
    rw [hblocks]
    exact List.mem_append_right saved hsb
  · intro hu
    have hbefore := h.unpruned_of_call hH hvm hop hu
    cases hm : (vm.step C op).wrappedBlocks.missingBlocks.peek id with
    | none => rfl
    | some u =>
      have hm := missing_before_call hop hbefore hm
      rw [h.notMissing hbefore] at hm
      cases hm

theorem permanent_of_acceptedBy {vm : VM H} (hvm : VMValid C vm) {op : Op H} {id : H}
    (h : id ∈ acceptedBy C vm op) : Permanent C (vm.step C op) id := by
  obtain ⟨env,w,s,hop,hw,hs,hok,hcaches,hdisk⟩ := mem_acceptedBy h
  refine ⟨?_,?_,?_⟩
  · intro w' hw'
    rw [hcaches] at hw' ⊢
    rw [held_accept_self hw']
    simp [accept,allocate]
  · obtain ⟨sb,hsb,hhash,hheight⟩ := stored_of_acceptedBy hvm h
    exact ⟨sb,hsb,hhash,hheight.le⟩
  · intro _
    rw [hcaches]
    cases hm : (s.accept id w.block).missingBlocks.peek id with
    | none => rfl
    | some u => exact absurd rfl (LRU.peek_evict hm).1

theorem permanent_of_startedWith {config : ExecutorConfig} {disk : Disk H}
    (hdisk : DiskValid C disk) {resp : InitializeResponse H} {vm : VM H} {id : H}
    (h : StartedWith C config disk resp vm) (hid : resp.lastAcceptedID = some id) :
    Permanent C vm id := by
  refine ⟨?_,?_,?_⟩
  · intro w hw
    rw [h.wrappedBlocks] at hw
    exact absurd hw not_held_new
  · obtain ⟨sb,hsb,hhash,hheight⟩ := stored_of_startedWith hdisk h hid
    exact ⟨sb,hsb,hhash,hheight.le⟩
  · intro _
    rw [h.wrappedBlocks]
    rfl

theorem permanent_of_reaches (hB : C.BlockRules) (hC : C.CodecRules) (hH : C.HashRules)
    (hP : C.ProposalRules) {config : ExecutorConfig} {disk : Disk H} (hdisk : DiskValid C disk)
    {h : History H} (hrun : Reaches (History.Started C config disk)
      (fun h op => Guarded C (KeepsAccepted C h.accepted) h.vm op) (History.step C) h) :
    VMValid C h.vm ∧ ∀ id ∈ h.accepted, Permanent C h.vm id := by
  refine History.invariant ?_ ?_ ?_ hrun
  · intro resp vm hs
    exact ⟨vmValid_started hB hdisk ⟨resp,hs⟩,fun id hid => permanent_of_startedWith hdisk hs hid⟩
  · intro accepted vm op hop hvm hper hg
    exact ⟨hvm.call hC hop,fun id hid => (hper id hid).call hB hH hP hvm hid hop hg⟩
  · intro vm op id hvm hid
    exact permanent_of_acceptedBy hvm hid

def GetsAccepted (C : CometBFT H) (vm : VM H) (id : H) : Prop :=
  ∃ parentID bytes height timestamp,
    (getBlock C vm (some id)).1 = .ok (.found parentID bytes .accepted height timestamp)

def ParsesAccepted (C : CometBFT H) (vm : VM H) (bytes : Bytes) : Prop :=
  ∃ resp, (parseBlock C vm bytes).1 = .ok resp ∧ resp.status = .accepted

/-- The statuses for which `GetBlock` answers. -/
def Status.Named (st : Status) : Prop := st = .accepted ∨ st = .rejected ∨ st = .processing

/-- A block of the store is found, unless it is remembered as missing or a cached copy has
a status that `GetBlock` does not expect. -/
theorem getBlock_of_unpruned (hC : C.CodecRules) {vm : VM H} (hvm : VMValid C vm) {id : H}
    (hstatus : ∀ w, vm.wrappedBlocks.Held id w → (vm.wrappedBlocks.status w.addr).Named)
    (hmissing : vm.wrappedBlocks.missingBlocks.peek id = none) (hu : Unpruned C vm id) :
    ∃ b bytes st, C.hash b = some id ∧
      (st = .accepted ∨ ∃ w, vm.wrappedBlocks.Held id w ∧ st = vm.wrappedBlocks.status w.addr) ∧
      (getBlock C vm (some id)).1 = .ok (.found b.header.lastBlockID.hash bytes st
        (uint64 b.header.height) b.header.time) := by
  have hg := getBlock_gets (C := C) vm (some id)
  generalize getBlock C vm (some id) = r at hg ⊢
  cases hg with
  | @held s r _ w hw hs hr =>
    have hheld := held_of_cached hw
    have hst : s.status w.addr = vm.wrappedBlocks.status w.addr := by rw [hs.status]
    cases hr with
    | unexpected hn =>
      have hnamed := hst ▸ hstatus w hheld
      exact absurd hnamed (by unfold Status.Named; tauto)
    | unencodable hs' he =>
      obtain ⟨bytes,hb⟩ := encodeBlockWithStatus_ok hC (hvm.caches.encodable id w hheld)
        (s.status w.addr)
      exact absurd hb (he bytes)
    | found hs' he => exact ⟨w.block,_,_,hvm.caches.hash id w hheld,.inr ⟨w,hheld,hst⟩,rfl⟩
  | missing _ hn hs hm hs' =>
    rcases hm with hm | hm
    · rw [hmissing] at hm
      cases hm
    · obtain ⟨sb,hsb,hid⟩ := hu
      obtain ⟨b,hb⟩ := BlockStore.loadBlockByHash_isSome hsb hid
      rw [hm] at hb
      cases hb
  | @loaded s missing r _ b hn hs hm hb hr =>
    have hst : ({ s with missingBlocks := missing }.allocate b .accepted).2.status
        ({ s with missingBlocks := missing }.allocate b .accepted).1.addr = .accepted := by
      simp [allocate]
    obtain ⟨sb,hsb,rfl,hid⟩ := BlockStore.loadBlockByHash_eq_some hb
    cases hr with
    | unexpected hn => exact absurd hst hn.1
    | unencodable hs' he =>
      obtain ⟨bytes,hbytes⟩ := encodeBlockWithStatus_ok hC
        (hvm.encodable sb (BlockStore.mem_held_iff.mp hsb).1) _
      exact absurd hbytes (he bytes)
    | found hs' he => exact ⟨sb.block,_,_,hid,.inl hst,rfl⟩

theorem Permanent.getsAccepted (hC : C.CodecRules) {vm : VM H} (hvm : VMValid C vm) {id : H}
    (h : Permanent C vm id) (hu : Unpruned C vm id) : GetsAccepted C vm id := by
  obtain ⟨b,bytes,st,_,hst,hget⟩ := getBlock_of_unpruned hC hvm (fun w hw => .inl (h.status w hw))
    (h.notMissing hu) hu
  have haccepted : st = .accepted := by
    rcases hst with rfl | ⟨w,hw,rfl⟩
    · rfl
    · exact h.status w hw
  exact ⟨_,_,_,_,haccepted ▸ hget⟩

theorem Permanent.parsesAccepted_iff {vm : VM H} (hvm : VMValid C vm) {id : H}
    (h : Permanent C vm id) {bytes : Bytes} {b : Block H} {st : Status}
    (hd : decodeBlockWithStatus C bytes = .ok (b,st)) (hb : C.hash b = some id) :
    ParsesAccepted C vm bytes ↔ vm.wrappedBlocks.cached id ≠ none ∨
      (vm.wrappedBlocks.bytesToIDCache.peek bytes = none ∧ st = .accepted) := by
  constructor
  · rintro ⟨resp,hr,hst⟩
    obtain ⟨id',b',st',hd',hb',hcase⟩ := parseBlock_ok hvm.caches hr
    rw [hd] at hd'
    cases hd'
    rw [hb] at hb'
    cases hb'
    rcases hcase with ⟨w,hw,_⟩ | ⟨hp,rfl⟩
    · exact .inl (by simp [hw])
    · exact .inr ⟨hp.notCached,hst⟩
  · intro hcond
    cases hw : vm.wrappedBlocks.cached id with
    | some w => exact ⟨_,parseBlock_of_cached hvm.caches hd hb hw,h.status w (held_of_cached hw)⟩
    | none =>
      obtain ⟨hpeek,rfl⟩ := hcond.resolve_left (fun hne => hne hw)
      have hp : ParsedBlock C vm bytes id b .accepted := ⟨hpeek,hw,hd,hb,.inl rfl⟩
      exact ⟨_,hp.parseBlock_eq,rfl⟩

/-- In every state of a run that never rejects an accepted block and never caches an
encoding that contradicts an acceptance, `GetBlock` reports every accepted block that
is not pruned as accepted. `ParseBlock` of an encoding of it does so exactly when a
cache holds the block, or when the bytes are not remembered and say so themselves. -/
theorem accepted_stays_accepted (hB : C.BlockRules) (hC : C.CodecRules) (hH : C.HashRules)
    (hP : C.ProposalRules) {config : ExecutorConfig} {disk : Disk H} (hdisk : DiskValid C disk)
    {h : History H} (hrun : Reaches (History.Started C config disk)
      (fun h op => Guarded C (KeepsAccepted C h.accepted) h.vm op) (History.step C) h) {id : H}
    (hid : id ∈ h.accepted) :
    (Unpruned C h.vm id → GetsAccepted C h.vm id) ∧
      ∀ bytes b st, decodeBlockWithStatus C bytes = .ok (b,st) → C.hash b = some id →
        (ParsesAccepted C h.vm bytes ↔ h.vm.wrappedBlocks.cached id ≠ none ∨
          (h.vm.wrappedBlocks.bytesToIDCache.peek bytes = none ∧ st = .accepted)) := by
  obtain ⟨hvm,hacc⟩ := permanent_of_reaches hB hC hH hP hdisk hrun
  exact ⟨(hacc id hid).getsAccepted hC hvm,
    fun bytes b st hd hb => (hacc id hid).parsesAccepted_iff hvm hd hb⟩

namespace Sample

def staleBytes : Bytes := [1,0]

def staleVM : VM Digest := (vm []).step (comet []) (.parseBlock staleBytes)

/-- The first block is accepted and stored, and an encoding of it from the time before
brings it back as processing, for `ParseBlock` and for `GetBlock`. -/
theorem parseBlock_forgets_acceptance :
    Reaches (History.Started (comet []) config disk) (fun _ _ => True) (History.step (comet []))
        ⟨staleVM,[firstID]⟩ ∧
      Unpruned (comet []) staleVM firstID ∧
      decodeBlockWithStatus (comet []) staleBytes = .ok (firstBlock,.processing) ∧
      ¬ParsesAccepted (comet []) staleVM staleBytes ∧ ¬GetsAccepted (comet []) staleVM firstID := by
  refine ⟨.step (reaches_history []) trivial,⟨_,List.mem_cons_self,rfl⟩,by decide +kernel,?_,?_⟩
  · rintro ⟨resp,hr,hst⟩
    have hparse : (parseBlock (comet []) staleVM staleBytes).1 =
        .ok (parseBlockResponse (comet []) firstBlock .processing) := by decide +kernel
    rw [hparse] at hr
    cases hr
    cases hst
  · rintro ⟨parentID,bytes,height,timestamp,hr⟩
    have hget : (getBlock (comet []) staleVM (some firstID)).1 =
        .ok (.found none staleBytes .processing 1 1000) := by decide +kernel
    rw [hget] at hr
    cases hr

theorem getBlock_accepted_second :
    GetsAccepted (comet [secondBlock])
      (secondRun.foldl (History.step (comet [secondBlock])) (history [secondBlock])).vm secondID := by
  have hrun : Reaches (History.Started (comet [secondBlock]) config disk)
      (fun h op =>
        Guarded (comet [secondBlock]) (KeepsAccepted (comet [secondBlock]) h.accepted) h.vm op)
      (History.step (comet [secondBlock]))
      (secondRun.foldl (History.step (comet [secondBlock])) (history [secondBlock])) :=
    .step (.step (.step (reaches_history _) trivial) trivial) trivial
  have hunpruned : ∃ sb ∈ (secondRun.foldl (History.step (comet [secondBlock]))
      (history [secondBlock])).vm.disk.blockStore.held,
      (comet [secondBlock]).hash sb.block = some secondID := by decide +kernel
  exact (accepted_stays_accepted (Symbolic.blockRules _) (Symbolic.codecRules _)
    (Symbolic.hashRules _) (Symbolic.proposalRules _) (diskValid _) hrun (by decide +kernel)).1
    hunpruned

end Sample
end Landslide
