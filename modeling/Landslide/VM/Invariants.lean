import Landslide.Chain.Symbolic
import Landslide.VM.Calls

/-! # Invariants of the caches over runs

What every cached block and every cached byte string satisfies in every state of every
run.
-/
namespace Landslide
open WrappedBlocksStorage
variable {H : Type} [DecidableEq H] {C : CometBFT H}

/-! ## What the caches hold -/

/-- Every cached block stands under its own ID and can be encoded, no two wrapped
blocks share an allocation, and cached bytes lead to the ID of what they decode to. -/
structure CacheValid (C : CometBFT H) (s : WrappedBlocksStorage H) : Prop where
  hash : ∀ id w, s.Held id w → C.hash w.block = some id
  encodable : ∀ id w, s.Held id w → Encodable C w.block
  allocated : ∀ id w, s.Held id w → w.addr < s.nextAddr
  unique : ∀ id w id' w', s.Held id w → s.Held id' w' → w.addr = w'.addr → w = w'
  bytes : ∀ bytes id, s.bytesToIDCache.peek bytes = some id →
    ∃ b st, decodeBlockWithStatus C bytes = .ok (b,st) ∧ C.hash b = some id

theorem not_held_new {id : H} {w : WrappedBlock H} :
    ¬(WrappedBlocksStorage.new C).Held id w := by
  rintro (h | h | h) <;> simp [WrappedBlocksStorage.new] at h

theorem cacheValid_new : CacheValid C (WrappedBlocksStorage.new C) where
  hash _ _ h := absurd h not_held_new
  encodable _ _ h := absurd h not_held_new
  allocated _ _ h := absurd h not_held_new
  unique _ _ _ _ h := absurd h not_held_new
  bytes _ _ h := by simp [WrappedBlocksStorage.new] at h

theorem CacheValid.of_effect {s s' : WrappedBlocksStorage H}
    {New : H → Block H → Status → Prop} {Rejected : H → Prop} {NewBytes : Bytes → H → Prop}
    {NewMissing : H → Prop} (h : CacheValid C s)
    (he : Effect s s' New Rejected NewBytes NewMissing)
    (hnew : ∀ id b st, New id b st → C.hash b = some id ∧ Encodable C b)
    (hbytes : ∀ bytes id, NewBytes bytes id →
      ∃ b st, decodeBlockWithStatus C bytes = .ok (b,st) ∧ C.hash b = some id) :
    CacheValid C s' := by
  have hb : ∀ bytes id, s'.bytesToIDCache.peek bytes = some id →
      ∃ b st, decodeBlockWithStatus C bytes = .ok (b,st) ∧ C.hash b = some id := by
    intro bytes id hid
    rcases he.bytes bytes id hid with hid | hid
    · exact h.bytes bytes id hid
    · exact hbytes bytes id hid
  cases he.change with
  | keep held status nextAddr =>
    exact ⟨fun id w hw => h.hash id w (held id w hw),fun id w hw => h.encodable id w (held id w hw),
      fun id w hw => nextAddr ▸ h.allocated id w (held id w hw),
      fun id w id' w' hw hw' => h.unique id w id' w' (held id w hw) (held id' w' hw'),hb⟩
  | reject id₀ w₀ hrej hw₀ held status nextAddr =>
    exact ⟨fun id w hw => h.hash id w (held id w hw),fun id w hw => h.encodable id w (held id w hw),
      fun id w hw => nextAddr ▸ h.allocated id w (held id w hw),
      fun id w id' w' hw hw' => h.unique id w id' w' (held id w hw) (held id' w' hw'),hb⟩
  | add id₀ b₀ st₀ hn held status nextAddr =>
    obtain ⟨hhash,henc⟩ := hnew id₀ b₀ st₀ hn
    refine ⟨?_,?_,?_,?_,hb⟩
    · intro id w hw
      rcases held id w hw with hw | ⟨rfl,rfl⟩
      · exact h.hash id w hw
      · exact hhash
    · intro id w hw
      rcases held id w hw with hw | ⟨rfl,rfl⟩
      · exact h.encodable id w hw
      · exact henc
    · intro id w hw
      rcases held id w hw with hw | ⟨rfl,rfl⟩
      · have := h.allocated id w hw
        omega
      · dsimp only
        omega
    · -- the new allocation number is above all the old ones
      intro id w id' w' hw hw' haddr
      rcases held id w hw with hw | ⟨rfl,rfl⟩
      · rcases held id' w' hw' with hw' | ⟨rfl,rfl⟩
        · exact h.unique id w id' w' hw hw' haddr
        · have := h.allocated id w hw
          dsimp only at haddr
          omega
      · rcases held id' w' hw' with hw' | ⟨rfl,rfl⟩
        · have := h.allocated id' w' hw'
          dsimp only at haddr
          omega
        · rfl

theorem CacheValid.held_cases {s s' : WrappedBlocksStorage H}
    {New : H → Block H → Status → Prop} {Rejected : H → Prop} {NewBytes : Bytes → H → Prop}
    {NewMissing : H → Prop} (h : CacheValid C s)
    (he : Effect s s' New Rejected NewBytes NewMissing) {id : H} {w : WrappedBlock H}
    (hw : s'.Held id w) :
    (s.Held id w ∧ s'.status w.addr = s.status w.addr) ∨
      (s.Held id w ∧ Rejected id ∧ s'.status w.addr = .rejected) ∨
      New id w.block (s'.status w.addr) := by
  cases he.change with
  | keep held status nextAddr => exact .inl ⟨held id w hw,by rw [status]⟩
  | add id₀ b₀ st₀ hn held status nextAddr =>
    rcases held id w hw with hw | ⟨rfl,rfl⟩
    · have hlt := h.allocated id w hw
      exact .inl ⟨hw,by rw [status,Function.update_of_ne hlt.ne]⟩
    · refine .inr (.inr ?_)
      rw [status,Function.update_self]
      exact hn
  | reject id₀ w₀ hrej hw₀ held status nextAddr =>
    have hw := held id w hw
    by_cases haddr : w.addr = w₀.addr
    · -- the same pointer is held under one ID only
      obtain rfl := h.unique id w id₀ w₀ hw hw₀ haddr
      have hid : some id = some id₀ := (h.hash id w hw).symm.trans (h.hash id₀ w hw₀)
      cases hid
      exact .inr (.inl ⟨hw,hrej,by rw [status,Function.update_self]⟩)
    · exact .inl ⟨hw,by rw [status,Function.update_of_ne haddr]⟩

/-! ## What parsing and looking up answer -/

/-- A successful `ParseBlock` answers with the cached copy of the block, or with the
decoded block when there is none. -/
theorem parseBlock_ok {vm : VM H} (h : CacheValid C vm.wrappedBlocks) {bytes : Bytes}
    {resp : ParseBlockResponse H} (hr : (parseBlock C vm bytes).1 = .ok resp) :
    ∃ id b st, decodeBlockWithStatus C bytes = .ok (b,st) ∧ C.hash b = some id ∧
      ((∃ w, vm.wrappedBlocks.cached id = some w ∧
          resp = parseBlockResponse C w.block (vm.wrappedBlocks.status w.addr)) ∨
        (ParsedBlock C vm bytes id b st ∧ resp = parseBlockResponse C b st)) := by
  have hp := parseBlock_parses (C := C) vm bytes
  generalize parseBlock C vm bytes = r at hr hp
  cases hp with
  | @known s r id hid hs hr' =>
    obtain ⟨b,st,hd,hb⟩ := h.bytes bytes id hid
    cases hr' with
    | held w hw hs' =>
      cases hr
      exact ⟨id,b,st,hd,hb,.inl ⟨w,(hs.cached id).symm.trans hw,by rw [hs.status]⟩⟩
    | unexpected hn hs' hd' => cases hr
    | stored b st hn hd' hst hs' hp => cases hd'
  | refused hid hs hd => cases hr
  | @decoded s r id b st hid hs hd hb hr' =>
    refine ⟨id,b,st,hd,hb,?_⟩
    cases hr' with
    | held w hw hs' =>
      cases hr
      exact .inl ⟨w,(hs.cached id).symm.trans hw,by rw [← hs.status]⟩
    | unexpected hn hs' hd' => cases hr
    | stored b' st' hn hd' hst hs' hp =>
      cases hd'
      cases hr
      exact .inr ⟨⟨hid,(hs.cached id).symm.trans hn,hd,hb,hst⟩,rfl⟩

theorem parseBlock_of_cached {vm : VM H} (h : CacheValid C vm.wrappedBlocks) {bytes : Bytes}
    {id : H} {b : Block H} {st : Status} {w : WrappedBlock H}
    (hd : decodeBlockWithStatus C bytes = .ok (b,st)) (hb : C.hash b = some id)
    (hw : vm.wrappedBlocks.cached id = some w) :
    (parseBlock C vm bytes).1 =
      .ok (parseBlockResponse C w.block (vm.wrappedBlocks.status w.addr)) := by
  have hp := parseBlock_parses (C := C) vm bytes
  generalize parseBlock C vm bytes = r at hp ⊢
  have hanswer : ∀ {s : WrappedBlocksStorage H} {decoded : Option (Block H × Status)}
      {r : Outcome (VMError H) (ParseBlockResponse H) × WrappedBlocksStorage H},
      SameBlocks vm.wrappedBlocks s → ParsesID C s id decoded r →
      r.1 = .ok (parseBlockResponse C w.block (vm.wrappedBlocks.status w.addr)) := by
    intro s decoded r hs hr
    have hw' : s.cached id = some w := (hs.cached id).trans hw
    cases hr with
    | held w' hw'' hs' =>
      rw [hw'] at hw''
      cases hw''
      rw [hs.status]
    | unexpected hn hs' hd' =>
      rw [hw'] at hn
      cases hn
    | stored b st hn hd' hst hs' hp =>
      rw [hw'] at hn
      cases hn
  cases hp with
  | @known s r id' hid hs hr =>
    obtain ⟨b',st',hd',hb'⟩ := h.bytes bytes id' hid
    rw [hd] at hd'
    cases hd'
    rw [hb] at hb'
    cases hb'
    exact hanswer hs.toSameBlocks hr
  | refused hid hs hn =>
    rw [hn b st hd] at hb
    cases hb
  | @decoded s r id' b' st' hid hs hd' hb' hr =>
    rw [hd] at hd'
    cases hd'
    rw [hb] at hb'
    cases hb'
    have hsame : SameBlocks vm.wrappedBlocks
        { s with bytesToIDCache := s.bytesToIDCache.put bytes id } :=
      ⟨hs.verifiedBlocks,hs.decidedBlocks,hs.unverifiedBlocks,hs.status,hs.nextAddr⟩
    exact hanswer hsame hr

theorem ParsedBlock.parseBlock_eq {vm : VM H} {bytes : Bytes} {id : H} {b : Block H} {st : Status}
    (h : ParsedBlock C vm bytes id b st) :
    (parseBlock C vm bytes).1 = .ok (parseBlockResponse C b st) := by
  have hp := parseBlock_parses (C := C) vm bytes
  generalize parseBlock C vm bytes = r at hp ⊢
  cases hp with
  | known id' hid hs hr =>
    rw [h.notCached] at hid
    cases hid
  | refused hid hs hn =>
    have hb := hn b st h.decoded
    rw [h.hash] at hb
    cases hb
  | @decoded s r id' b' st' hid hs hd hb hr =>
    have hd' := h.decoded
    rw [hd] at hd'
    cases hd'
    have hb' := h.hash
    rw [hb] at hb'
    cases hb'
    have hn' : vm.wrappedBlocks.cached id = none := h.notHeld
    cases hr with
    | held w hw hs' =>
      have hw' : vm.wrappedBlocks.cached id = some w := (hs.cached id).symm.trans hw
      rw [hn'] at hw'
      cases hw'
    | unexpected hn hs' hunknown =>
      have hnot := hunknown b st rfl
      rcases h.named with h | h | h
      · exact absurd h hnot.1
      · exact absurd h hnot.2.1
      · exact absurd h hnot.2.2
    | stored b' st' hn hd' hst' hs' hp =>
      cases hd'
      rfl

theorem getBlock_found {vm : VM H} {request parentID : Option H} {bytes : Bytes} {st : Status}
    {height : ℕ} {timestamp : ℤ}
    (hr : (getBlock C vm request).1 = .ok (.found parentID bytes st height timestamp)) :
    ∃ id, request = some id ∧
      ((∃ w, vm.wrappedBlocks.cached id = some w ∧ st = vm.wrappedBlocks.status w.addr) ∨
        (st = .accepted ∧ ∃ b, vm.disk.blockStore.loadBlockByHash C id = some b)) := by
  have hg := getBlock_gets (C := C) vm request
  generalize getBlock C vm request = r at hr hg
  cases hg with
  | invalid => cases hr
  | held id w hw hs hr' =>
    cases hr' with
    | unexpected hst => cases hr
    | unencodable hs' he => cases hr
    | found hs' he =>
      cases hr
      exact ⟨id,rfl,.inl ⟨w,hw,by rw [hs.status]⟩⟩
  | missing id hn hs hm hs' => cases hr
  | loaded id b hn hs hm hb hr' =>
    cases hr' with
    | unexpected hst => cases hr
    | unencodable hs' he => cases hr
    | found hs' he =>
      cases hr
      exact ⟨id,rfl,.inr ⟨by simp [allocate],b,hb⟩⟩

/-! ## Runs -/

/-- A disk that a VM may start from: its blocks can be encoded, and the block store
has a base once there is a chain. -/
structure DiskValid (C : CometBFT H) (disk : Disk H) : Prop where
  encodable : ∀ sb ∈ disk.blockStore.blocks, Encodable C sb.block
  base : 0 ≤ disk.blockStore.base
  started : 0 < disk.stateStore.state.lastBlockHeight → 0 < disk.blockStore.base

structure VMValid (C : CometBFT H) (vm : VM H) : Prop where
  caches : CacheValid C vm.wrappedBlocks
  encodable : ∀ sb ∈ vm.disk.blockStore.blocks, Encodable C sb.block
  base : 0 < vm.disk.blockStore.base

/-- An acceptance adds at most its own block to the store, whether it succeeds or not. -/
theorem acceptBlock_blocks {disk : Disk H} (hbase : 0 ≤ disk.blockStore.base) (env : AcceptEnv H)
    (s : State H) (b : Block H) :
    ∃ saved, (disk.replay (acceptBlock C env disk s b).log).blockStore.blocks =
      saved ++ disk.blockStore.blocks ∧
      ∀ sb ∈ saved, sb.block = b ∧ blockIDOf C b = .ok sb.blockID := by
  by_cases hok : ∃ next, (acceptBlock C env disk s b).result = .ok next
  · obtain ⟨next,hok⟩ := hok
    obtain ⟨blockID,_,_,hc,_,hp⟩ := acceptBlock_ok hbase hok
    exact ⟨[storedBlock s b blockID],hp.blocks,by simp [storedBlock,hc.blockID_eq]⟩
  · rcases acceptBlock_not_ok hbase (not_exists.mp hok) with
      ⟨hblocks,_,_⟩ | ⟨blockID,next,_,_,hc,_,hp⟩
    · exact ⟨[],hblocks,by simp⟩
    · exact ⟨[storedBlock s b blockID],hp.blocks,by simp [storedBlock,hc.blockID_eq]⟩

theorem acceptBlock_base {env : AcceptEnv H} {disk : Disk H} {s : State H} {b : Block H}
    (hbase : 0 < disk.blockStore.base) :
    disk.blockStore.base ≤ (disk.replay (acceptBlock C env disk s b).log).blockStore.base := by
  have hne : disk.blockStore.base ≠ 0 := by omega
  by_cases hok : ∃ next, (acceptBlock C env disk s b).result = .ok next
  · obtain ⟨next,hok⟩ := hok
    obtain ⟨blockID,_,_,_,_,hp⟩ := acceptBlock_ok hbase.le hok
    have := hp.base.2 hne
    omega
  · rcases acceptBlock_not_ok hbase.le (not_exists.mp hok) with ⟨_,_,hb⟩ | ⟨_,_,_,_,_,_,hp⟩
    · omega
    · have := hp.base.2 hne
      omega

theorem VMValid.adds (hC : C.CodecRules) {vm : VM H} (h : VMValid C vm) {op : Op H} {id : H}
    {b : Block H} {st : Status} (hadds : op.Adds C vm id b st) :
    C.hash b = some id ∧ Encodable C b := by
  cases op with
  | buildBlock env => exact ⟨hadds.hash,hadds.encodable⟩
  | parseBlock bytes => exact ⟨hadds.hash,decodeBlockWithStatus_encodable hC hadds.decoded⟩
  | batchedParseBlock request => exact hadds.elim
  | getBlock request =>
    obtain ⟨sb,hsb,rfl,hhash⟩ := BlockStore.loadBlockByHash_eq_some hadds.loaded
    exact ⟨hhash,h.encodable sb (BlockStore.mem_held_iff.mp hsb).1⟩
  | blockVerify bytes => exact ⟨hadds.hash,decodeBlockWithStatus_encodable hC hadds.decoded⟩
  | blockAccept env request =>
    obtain ⟨w,hw,rfl⟩ := hadds.cached
    exact ⟨h.caches.hash id w (held_of_cached hw),h.caches.encodable id w (held_of_cached hw)⟩
  | blockReject request => exact hadds.elim
  | flush => exact hadds.elim

theorem VMValid.acceptBlock {vm : VM H} (h : VMValid C vm) {id : H} {w : WrappedBlock H}
    (hw : vm.wrappedBlocks.cached id = some w) (env : AcceptEnv H) {vm' : VM H}
    (hc : CacheValid C vm'.wrappedBlocks)
    (hdisk : vm'.disk = vm.disk.replay (acceptBlock C env vm.disk vm.state w.block).log) :
    VMValid C vm' := by
  refine ⟨hc,?_,?_⟩
  · intro sb hsb
    obtain ⟨saved,hblocks,hsaved⟩ := acceptBlock_blocks (C := C) h.base.le env vm.state w.block
    rw [hdisk,hblocks] at hsb
    rcases List.mem_append.mp hsb with hsb | hsb
    · rw [(hsaved sb hsb).1]
      exact h.caches.encodable id w (held_of_cached hw)
    · exact h.encodable sb hsb
  · rw [hdisk]
    exact h.base.trans_le (acceptBlock_base h.base)

theorem VMValid.call (hC : C.CodecRules) {vm : VM H} (h : VMValid C vm) {op : Op H}
    (hop : op.IsCall) : VMValid C (vm.step C op) := by
  have hcaches : CacheValid C (vm.step C op).wrappedBlocks := by
    refine h.caches.of_effect (step_effect vm hop) (fun id b st => h.adds hC) ?_
    intro bytes id hb
    cases op with
    | parseBlock bytes' =>
      obtain ⟨rfl,hb⟩ := hb
      exact hb
    | _ => exact hb.elim
  cases step_advance (C := C) vm hop with
  | quiet hstate hdisk hn => exact ⟨hcaches,hdisk ▸ h.encodable,hdisk ▸ h.base⟩
  | failed env id w hop hw ha hstate hdisk => exact h.acceptBlock hw env hcaches hdisk
  | accepted env id w hop hw ha hdisk => exact h.acceptBlock hw env hcaches hdisk

theorem VMValid.store_grows {vm : VM H} (h : VMValid C vm) {op : Op H} (hop : op.IsCall) :
    (∃ saved, (vm.step C op).disk.blockStore.blocks = saved ++ vm.disk.blockStore.blocks) ∧
      vm.disk.blockStore.base ≤ (vm.step C op).disk.blockStore.base := by
  cases step_advance (C := C) vm hop with
  | quiet hstate hdisk hn =>
    rw [hdisk]
    exact ⟨⟨[],rfl⟩,le_rfl⟩
  | failed env id w hop hw ha hstate hdisk =>
    rw [hdisk]
    obtain ⟨saved,hblocks,_⟩ := acceptBlock_blocks (C := C) h.base.le env vm.state w.block
    exact ⟨⟨saved,hblocks⟩,acceptBlock_base h.base⟩
  | accepted env id w hop hw ha hdisk =>
    rw [hdisk]
    obtain ⟨saved,hblocks,_⟩ := acceptBlock_blocks (C := C) h.base.le env vm.state w.block
    exact ⟨⟨saved,hblocks⟩,acceptBlock_base h.base⟩

theorem vmValid_step (hC : C.CodecRules) {vm : VM H} (h : VMValid C vm) (op : Op H) :
    VMValid C (vm.step C op) := by
  have hg : Guarded C (fun _ _ => True) vm op := .of_call (fun _ _ => trivial) trivial
  exact hg.keeps (P := VMValid C) (fun _ _ hop hvm _ => hvm.call hC hop) h

theorem vmValid_started (hB : C.BlockRules) {config : ExecutorConfig} {disk : Disk H} {vm : VM H}
    (hdisk : DiskValid C disk) (h : Started C config disk vm) : VMValid C vm := by
  obtain ⟨resp,h⟩ := h
  obtain ⟨penv,aenv,log,hinit,hd⟩ := h.run
  have hcaches : CacheValid C vm.wrappedBlocks := h.wrappedBlocks ▸ cacheValid_new
  cases initializeVM_ok hinit with
  | resumed b hpos hb henc hid hs hlog =>
    subst hlog
    rw [Disk.replay_nil] at hd
    exact ⟨hcaches,hd ▸ hdisk.encodable,hd ▸ hdisk.started hpos⟩
  | created b penv' aenv' hpos hb henc hid ha =>
    have hok : (acceptBlock C aenv' disk disk.stateStore.state b).result = .ok vm.state := by rw [ha]
    have hlog : (acceptBlock C aenv' disk disk.stateStore.state b).log = log := by rw [ha]
    obtain ⟨blockID,_,_,hc,_,hp⟩ := acceptBlock_ok hdisk.base hok
    have hheight : 0 < b.header.height := ((hB.validateBasic_iff b).mp hc.valid.basic).height
    rw [hlog,← hd] at hp
    refine ⟨hcaches,?_,?_⟩
    · intro sb hsb
      rw [hp.blocks] at hsb
      rcases List.mem_cons.mp hsb with rfl | hsb
      · exact henc
      · exact hdisk.encodable sb hsb
    · by_cases hzero : disk.blockStore.base = 0
      · have hbase : vm.disk.blockStore.base = b.header.height ∨ _ := hp.base.1 hzero
        omega
      · have hbase := hp.base.2 hzero
        have := hdisk.base
        omega

theorem vmValid_of_reaches (hB : C.BlockRules) (hC : C.CodecRules) {config : ExecutorConfig}
    {disk : Disk H} (hdisk : DiskValid C disk) {guard : VM H → Op H → Prop} {vm : VM H}
    (h : Reaches (Started C config disk) guard (VM.step C) vm) : VMValid C vm :=
  h.invariant (fun _ hs => vmValid_started hB hdisk hs) (fun _ op hvm _ => vmValid_step hC hvm op)

/-! ## Accepted blocks and the store -/

/-- A block with this ID has been saved in the block store. -/
def InStore (C : CometBFT H) (vm : VM H) (id : H) : Prop :=
  ∃ sb ∈ vm.disk.blockStore.blocks, C.hash sb.block = some id

theorem InStore.call {vm : VM H} (hvm : VMValid C vm) {op : Op H} (hop : op.IsCall) {id : H}
    (h : InStore C vm id) : InStore C (vm.step C op) id := by
  obtain ⟨sb,hsb,hid⟩ := h
  obtain ⟨saved,hblocks⟩ := (hvm.store_grows hop).1
  exact ⟨sb,by rw [hblocks]; exact List.mem_append_right saved hsb,hid⟩

theorem stored_of_acceptedBy {vm : VM H} (hvm : VMValid C vm) {op : Op H} {id : H}
    (h : id ∈ acceptedBy C vm op) :
    ∃ sb ∈ (vm.step C op).disk.blockStore.blocks, C.hash sb.block = some id ∧
      sb.block.header.height = (vm.step C op).state.lastBlockHeight := by
  obtain ⟨env,w,s,hop,hw,hs,hok,hcaches,hdisk⟩ := mem_acceptedBy h
  obtain ⟨blockID,_,_,hc,_,hp⟩ := acceptBlock_ok hvm.base.le hok
  refine ⟨storedBlock vm.state w.block blockID,?_,hvm.caches.hash id w (held_of_cached hw),?_⟩
  · rw [hdisk,hp.blocks]
    exact List.mem_cons_self
  · exact hc.follows.lastBlockHeight.symm

theorem stored_of_startedWith {config : ExecutorConfig} {disk : Disk H} (hdisk : DiskValid C disk)
    {resp : InitializeResponse H} {vm : VM H} {id : H} (h : StartedWith C config disk resp vm)
    (hid : resp.lastAcceptedID = some id) :
    ∃ sb ∈ vm.disk.blockStore.blocks, C.hash sb.block = some id ∧
      sb.block.header.height = vm.state.lastBlockHeight := by
  obtain ⟨penv,aenv,log,hinit,hd⟩ := h.run
  cases initializeVM_ok hinit with
  | resumed b hpos hb henc hid' hs hlog =>
    subst hlog
    rw [Disk.replay_nil] at hd
    obtain ⟨sb,hsb,rfl,hheight⟩ := BlockStore.loadBlock_eq_some hb
    rw [hd,hs]
    exact ⟨sb,(BlockStore.mem_held_iff.mp hsb).1,hid'.symm.trans hid,hheight⟩
  | created b penv' aenv' hpos hb henc hid' ha =>
    have hok : (acceptBlock C aenv' disk disk.stateStore.state b).result = .ok vm.state := by rw [ha]
    obtain ⟨blockID,_,_,hc,_,hp⟩ := acceptBlock_ok hdisk.base hok
    rw [ha,← hd] at hp
    refine ⟨storedBlock disk.stateStore.state b blockID,?_,hid'.symm.trans hid,?_⟩
    · rw [hp.blocks]
      exact List.mem_cons_self
    · exact hc.follows.lastBlockHeight.symm

theorem inStore_of_reaches (hB : C.BlockRules) (hC : C.CodecRules) {config : ExecutorConfig}
    {disk : Disk H} (hdisk : DiskValid C disk) {G : List H → VM H → Op H → Prop}
    {h : History H} (hrun : Reaches (History.Started C config disk)
      (fun h op => Guarded C (G h.accepted) h.vm op) (History.step C) h) :
    VMValid C h.vm ∧ ∀ id ∈ h.accepted, InStore C h.vm id := by
  refine History.invariant ?_ ?_ ?_ hrun
  · intro resp vm hs
    refine ⟨vmValid_started hB hdisk ⟨resp,hs⟩,fun id hid => ?_⟩
    obtain ⟨sb,hsb,hhash,_⟩ := stored_of_startedWith hdisk hs hid
    exact ⟨sb,hsb,hhash⟩
  · intro accepted vm op hop hvm hin _
    exact ⟨hvm.call hC hop,fun id hid => (hin id hid).call hvm hop⟩
  · intro vm op id hvm hid
    obtain ⟨sb,hsb,hhash,_⟩ := stored_of_acceptedBy hvm hid
    exact ⟨sb,hsb,hhash⟩

/-! ## A small network

The VM that `Initialize` returns on the sample chain. The wire format knows the first
block and whatever other blocks a run needs.
-/

namespace Sample

section
variable (others : List (Block Digest))

abbrev comet : CometBFT Digest := symbolic (firstBlock :: others)

def firstLog : List (Write Digest) :=
  [.finalizeBlockResponse 1 (response [] []),.appCommit 1,.state firstState,
    .block ⟨firstBlock,blockID firstBlock,makeCommit 1 1000 [validator] (blockID firstBlock)⟩,
    .state firstState]

def vm : VM Digest := ⟨firstState,.new (comet others),disk.replay firstLog,config⟩

theorem initializeVM_eq : initializeVM (comet others) config proposal (acceptEnv [] 0) disk =
    ⟨.ok (firstState,⟨some firstID,none,1,[3,0],1000⟩),firstLog⟩ := by
  have hpos : ¬disk.stateStore.state.lastBlockHeight > 0 := by decide
  have hpropose : createProposalBlock (comet others) config proposal disk.stateStore
      (disk.stateStore.state.lastBlockHeight + 1) disk.stateStore.state ⟨0,0,.zero Digest,[]⟩
      proposerAddress = .ok firstBlock := rfl
  have haccept : acceptBlock (comet others) (acceptEnv [] 0) disk disk.stateStore.state firstBlock =
      ⟨.ok firstState,firstLog⟩ := rfl
  have hencode : encodeBlockWithStatus (comet others) firstBlock .accepted = .ok [3,0] := rfl
  have hmap : (⟨.ok firstState,firstLog⟩ : Exec (Write Digest) (ExecError Digest) _).mapError
      VMError.exec = ⟨.ok firstState,firstLog⟩ := rfl
  simp only [initializeVM,if_neg hpos,hpropose,haccept,hencode,Outcome.mapError,hmap,
    Exec.lift_ok_bind,Exec.ok_bind,Exec.pure_bind,Exec.pure_result,Exec.pure_log,
    Outcome.ofExcept_ok,List.append_nil]
  rfl

theorem startedWith :
    StartedWith (comet others) config disk ⟨some firstID,none,1,[3,0],1000⟩ (vm others) :=
  ⟨⟨proposal,acceptEnv [] 0,firstLog,initializeVM_eq others,rfl⟩,rfl,rfl⟩

theorem started : Started (comet others) config disk (vm others) := ⟨_,startedWith others⟩

theorem diskValid : DiskValid (comet others) disk where
  encodable _ h := nomatch h
  base := by decide
  started h := absurd h (by decide)

theorem reaches_vm {guard : VM Digest → Op Digest → Prop} :
    Reaches (Started (comet others) config disk) guard (VM.step (comet others)) (vm others) :=
  .start (started others)

def history : History Digest := ⟨vm others,[firstID]⟩

theorem reaches_history {guard : History Digest → Op Digest → Prop} :
    Reaches (History.Started (comet others) config disk) guard (History.step (comet others))
      (history others) :=
  .start ⟨_,startedWith others,rfl⟩

end

def secondVM : VM Digest :=
  (vm [secondBlock]).step (comet [secondBlock]) (.parseBlock [1,1])

/-- The second block is verified and accepted, and the first one is asked for. -/
def secondRun : List (Op Digest) :=
  [.blockVerify [1,1],.blockAccept (acceptEnv [] 0) (some secondID),.getBlock (some firstID)]

def secondLog : List (Write Digest) :=
  [.finalizeBlockResponse 2 (response [] []),.appCommit 2,.state secondState,
    .block ⟨secondBlock,blockID secondBlock,makeCommit 2 2000 [validator] (blockID secondBlock)⟩,
    .state secondState]

end Sample
end Landslide
