import Landslide.Lib.HashChain
import Landslide.VM.Invariants

/-! # The stored chain

`BlockAccept` takes any cached block, so the shape of the stored chain rests on the
validation that `ApplyBlock` repeats. All blocks ever saved form one chain from the
initial height to the state's last block, and the store holds the part of it from its
base on.
-/
namespace Landslide
variable {H : Type}

def storedLinking : Linking (StoredBlock H) (BlockID H) where
  height sb := sb.block.header.height
  id := StoredBlock.blockID
  parent sb := sb.block.header.lastBlockID
  time sb := sb.block.header.time

structure IsTop (s : State H) (sb : StoredBlock H) : Prop where
  height : sb.block.header.height = s.lastBlockHeight
  blockID : sb.blockID = s.lastBlockID
  time : sb.block.header.time = s.lastBlockTime

structure StoreValid (s : State H) (bs : BlockStore H) : Prop where
  positive : 0 < s.initialHeight
  chain : ∃ top rest, bs.blocks = top :: rest ∧ IsTop s top ∧
    storedLinking.ChainFrom s.initialHeight (top :: rest)
  height : bs.height = s.lastBlockHeight
  base : s.initialHeight ≤ bs.base ∧ bs.base ≤ s.lastBlockHeight

/-- A disk to start from: at genesis with an empty store, or with a chain that belongs
to the state. -/
structure ChainDisk (disk : Disk H) : Prop where
  genesis : disk.stateStore.state.lastBlockHeight ≤ 0 →
    disk.stateStore.state.lastBlockHeight = 0 ∧ disk.blockStore = .empty
  resumed : 0 < disk.stateStore.state.lastBlockHeight →
    StoreValid disk.stateStore.state disk.blockStore

theorem StoreValid.lastBlockHeight_pos {s : State H} {bs : BlockStore H} (h : StoreValid s bs) :
    0 < s.lastBlockHeight := by
  have hp := h.positive
  have hb := h.base
  omega

theorem StoreValid.height_le {s : State H} {bs : BlockStore H} (h : StoreValid s bs)
    {sb : StoredBlock H} (hsb : sb ∈ bs.blocks) : sb.block.header.height ≤ s.lastBlockHeight := by
  obtain ⟨top,rest,hblocks,htop,hchain⟩ := h.chain
  rw [hblocks] at hsb
  exact (hchain.height_bounds hsb).2.trans htop.height.le

section
variable [DecidableEq H] {C : CometBFT H}

/-! ## One acceptance -/

theorem StoreValid.acceptBlock {env : AcceptEnv H} {disk : Disk H} {s next : State H} {b : Block H}
    (h : StoreValid s disk.blockStore) (hok : (acceptBlock C env disk s b).result = .ok next) :
    StoreValid next (disk.replay (acceptBlock C env disk s b).log).blockStore := by
  have hpos := h.lastBlockHeight_pos
  have hfirst := h.positive
  have hbase := h.base
  have hheight := h.height
  obtain ⟨blockID,_,_,hc,_,hp⟩ := acceptBlock_ok (by omega) hok
  have hb := hc.valid.nextHeight hpos
  have hf := hc.follows
  obtain ⟨top,rest,hblocks,htop,hchain⟩ := h.chain
  have htopHeight := htop.height
  have hstored : (storedBlock s b blockID).block.header.height = b.header.height := rfl
  refine ⟨hf.initialHeight ▸ hfirst,⟨storedBlock s b blockID,top :: rest,?_,?_,?_⟩,?_,?_⟩
  · rw [hp.blocks,hblocks]
  · exact ⟨hf.lastBlockHeight.symm,hf.lastBlockID.symm,hf.lastBlockTime.symm⟩
  · rw [hf.initialHeight]
    refine .extend _ top rest ⟨?_,?_,?_⟩ hchain
    · exact hb.trans (by rw [← htopHeight]; rfl)
    · exact hc.valid.lastBlockID.trans htop.blockID.symm
    · have hle := hc.valid.time.notBefore (by omega)
      exact htop.time.le.trans hle
  · exact hp.height.trans hf.lastBlockHeight.symm
  · have hnew := hp.base.2 (by omega)
    rw [hf.initialHeight,hf.lastBlockHeight]
    omega

theorem StoreValid.acceptBlock_failed {env : AcceptEnv H} {disk : Disk H} {s : State H}
    {b : Block H} (h : StoreValid s disk.blockStore) (hsave : env.saveStateAgain = none)
    (hfail : ∀ next, (Landslide.acceptBlock C env disk s b).result ≠ .ok next) :
    StoreValid s (disk.replay (Landslide.acceptBlock C env disk s b).log).blockStore := by
  have hfirst := h.positive
  have hbase := h.base
  have hheight := h.height
  rcases acceptBlock_not_ok (by omega) hfail with ⟨hblocks,hh,hb⟩ | ⟨_,_,_,_,_,hagain,_⟩
  · refine ⟨hfirst,hblocks ▸ h.chain,hh.trans hheight,?_⟩
    omega
  · exact absurd hsave hagain

theorem storeValid_first (hB : C.BlockRules) {env : AcceptEnv H} {disk : Disk H} {s next : State H}
    {b : Block H} (hs : s.lastBlockHeight = 0) (hd : disk.blockStore = .empty)
    (hok : (acceptBlock C env disk s b).result = .ok next) :
    StoreValid next (disk.replay (acceptBlock C env disk s b).log).blockStore := by
  have hbase : disk.blockStore.base = 0 := by rw [hd]; rfl
  have hheight : disk.blockStore.height = 0 := by rw [hd]; rfl
  obtain ⟨blockID,_,_,hc,_,hp⟩ := acceptBlock_ok hbase.ge hok
  have hf := hc.follows
  have hb := hc.valid.initialHeight hs
  have hpos := ((hB.validateBasic_iff b).mp hc.valid.basic).height
  have hstored : (storedBlock s b blockID).block.header.height = b.header.height := rfl
  refine ⟨hf.initialHeight ▸ hb ▸ hpos,⟨storedBlock s b blockID,[],?_,?_,?_⟩,?_,?_⟩
  · rw [hp.blocks,hd]
    rfl
  · exact ⟨hf.lastBlockHeight.symm,hf.lastBlockID.symm,hf.lastBlockTime.symm⟩
  · exact .single _ (hb.trans hf.initialHeight.symm)
  · exact hp.height.trans hf.lastBlockHeight.symm
  · have hnew := hp.base.1 hbase
    rw [hf.initialHeight,hf.lastBlockHeight]
    omega

/-! ## Pruning -/

omit [DecidableEq H] in
theorem replay_base_of_not_pruned {log : List (Write H)} {d : Disk H} (hd : d.blockStore.base ≠ 0)
    (h : ∀ r, .pruneBlocks r ∉ log) : (d.replay log).blockStore.base = d.blockStore.base := by
  induction log generalizing d with
  | nil => rfl
  | cons w log ih =>
    have hw : (d.apply w).blockStore.base = d.blockStore.base := by
      cases w with
      | pruneBlocks r => exact absurd List.mem_cons_self (h r)
      | block sb => exact if_neg hd
      | _ => rfl
    rw [Disk.replay_cons,ih (hw ▸ hd) (fun r hr => h r (List.mem_cons_of_mem w hr)),hw]

omit [DecidableEq H] in
theorem not_mem_pruneLog {env : AcceptEnv H} {bs : BlockStore H} {retainHeight : ℤ}
    (h : retainHeight ≤ bs.base) (r : ℤ) : .pruneBlocks r ∉ pruneLog env bs retainHeight := by
  rcases pruneLog_cases env bs retainHeight with hl | ⟨hlt,_,_⟩
  · simp [hl]
  · omega

theorem acceptBlock_base_eq {env : AcceptEnv H} {disk : Disk H} {s : State H} {b : Block H}
    (hbase : disk.blockStore.base ≠ 0)
    (h : ∀ retainHeight, env.commit = .ok retainHeight → retainHeight ≤ disk.blockStore.base) :
    (disk.replay (acceptBlock C env disk s b).log).blockStore.base = disk.blockStore.base := by
  refine replay_base_of_not_pruned hbase (fun r => ?_)
  have hacc := acceptBlock_accepts C env disk s b
  generalize acceptBlock C env disk s b = m at hacc
  have hlog : ∀ {blockID resp next retainHeight},
      Committed C env disk.stateStore s b blockID resp next retainHeight →
      .pruneBlocks r ∉ appliedLog env disk.blockStore b resp next retainHeight := by
    intro blockID resp next retainHeight hc
    simp [appliedLog,not_mem_pruneLog (h _ hc.commit) r]
  cases hacc with
  | stopped hr hc hl =>
    rcases hl with rfl | ⟨resp,rfl⟩
    · simp
    · simp
  | unsaved hc hf => simp
  | refused hc hp => exact hlog hc
  | unfinished hc hs he => simp [hlog hc]
  | done hc hs => simp [hlog hc]

/-! ## Runs -/

/-- Writing to the stores succeeds. Only the second save of the state matters: all
other failures leave the chain as it was. -/
def WritesSucceed : Op H → Prop
  | .blockAccept env _ => env.saveStateAgain = none
  | _ => True

def RetainsAll (vm : VM H) : Op H → Prop
  | .blockAccept env _ =>
    ∀ retainHeight, env.commit = .ok retainHeight → retainHeight ≤ vm.state.initialHeight
  | _ => True

theorem StoreValid.call {vm : VM H} (h : StoreValid vm.state vm.disk.blockStore) {op : Op H}
    (hop : op.IsCall) (hg : WritesSucceed op) :
    StoreValid (vm.step C op).state (vm.step C op).disk.blockStore := by
  cases step_advance (C := C) vm hop with
  | quiet hstate hdisk hn =>
    rw [hstate,hdisk]
    exact h
  | failed env id w hop hw ha hstate hdisk =>
    subst hop
    rw [hstate,hdisk]
    exact h.acceptBlock_failed hg ha
  | accepted env id w hop hw ha hdisk =>
    rw [hdisk]
    exact h.acceptBlock ha

theorem storeValid_started (hB : C.BlockRules) {config : ExecutorConfig} {disk : Disk H}
    (hdisk : ChainDisk disk) {vm : VM H} (h : Started C config disk vm) :
    StoreValid vm.state vm.disk.blockStore := by
  obtain ⟨resp,h⟩ := h
  obtain ⟨penv,aenv,log,hinit,hd⟩ := h.run
  cases initializeVM_ok hinit with
  | resumed b hpos hb henc hid hs hlog =>
    subst hlog
    rw [hd,hs,Disk.replay_nil]
    exact hdisk.resumed hpos
  | created b penv' aenv' hpos hb henc hid ha =>
    obtain ⟨hzero,hempty⟩ := hdisk.genesis hpos
    have hok : (acceptBlock C aenv' disk disk.stateStore.state b).result = .ok vm.state := by
      rw [ha]
    have hfirst := storeValid_first hB hzero hempty hok
    rwa [ha,← hd] at hfirst

theorem storeValid_of_reaches (hB : C.BlockRules) {config : ExecutorConfig} {disk : Disk H}
    (hdisk : ChainDisk disk) {h : History H} (hrun : Reaches (History.Started C config disk)
      (fun h op => Guarded C (fun _ op => WritesSucceed op) h.vm op) (History.step C) h) :
    StoreValid h.vm.state h.vm.disk.blockStore := by
  refine History.vm_invariant (Q := fun vm => StoreValid vm.state vm.disk.blockStore) ?_ ?_ hrun
  · exact fun resp vm hs => storeValid_started hB hdisk ⟨resp,hs⟩
  · exact fun vm op hop hvm hg => hvm.call hop hg

theorem StoreValid.base_call {vm : VM H} (h : StoreValid vm.state vm.disk.blockStore)
    (hbase : vm.disk.blockStore.base = vm.state.initialHeight) {op : Op H} (hop : op.IsCall)
    (hg : RetainsAll vm op) :
    (vm.step C op).disk.blockStore.base = (vm.step C op).state.initialHeight := by
  have hne : vm.disk.blockStore.base ≠ 0 := by
    have := h.positive
    omega
  cases step_advance (C := C) vm hop with
  | quiet hstate hdisk hn =>
    rw [hstate,hdisk]
    exact hbase
  | failed env id w hop hw ha hstate hdisk =>
    subst hop
    rw [hstate,hdisk,acceptBlock_base_eq hne (fun r hr => hbase ▸ hg r hr)]
    exact hbase
  | accepted env id w hop hw ha hdisk =>
    subst hop
    obtain ⟨blockID,_,_,hc,_,_⟩ := acceptBlock_ok (by have := h.positive; omega) ha
    rw [hc.follows.initialHeight,hdisk,acceptBlock_base_eq hne (fun r hr => hbase ▸ hg r hr)]
    exact hbase

theorem base_of_startedWith (hB : C.BlockRules) {config : ExecutorConfig} {disk : Disk H}
    (hdisk : ChainDisk disk) (hbase : 0 < disk.stateStore.state.lastBlockHeight →
      disk.blockStore.base = disk.stateStore.state.initialHeight)
    {resp : InitializeResponse H} {vm : VM H} (h : StartedWith C config disk resp vm) :
    vm.disk.blockStore.base = vm.state.initialHeight := by
  have hvalid := storeValid_started hB hdisk ⟨resp,h⟩
  obtain ⟨penv,aenv,log,hinit,hd⟩ := h.run
  cases initializeVM_ok hinit with
  | resumed b hpos hb henc hid hs hlog =>
    subst hlog
    rw [hd,hs,Disk.replay_nil]
    exact hbase hpos
  | created b penv' aenv' hpos hb henc hid ha =>
    -- the only block is the initial one, so there is nothing to prune
    obtain ⟨hzero,hempty⟩ := hdisk.genesis hpos
    have hok : (acceptBlock C aenv' disk disk.stateStore.state b).result = .ok vm.state := by
      rw [ha]
    obtain ⟨blockID,_,_,hc,_,_⟩ := acceptBlock_ok (by rw [hempty]; exact le_rfl) hok
    have hfirst := hc.valid.initialHeight hzero
    have hb := hvalid.base
    rw [hc.follows.initialHeight,hc.follows.lastBlockHeight,hfirst] at hb
    rw [hc.follows.initialHeight]
    omega

theorem base_of_reaches (hB : C.BlockRules) {config : ExecutorConfig} {disk : Disk H}
    (hdisk : ChainDisk disk) (hbase : 0 < disk.stateStore.state.lastBlockHeight →
      disk.blockStore.base = disk.stateStore.state.initialHeight) {h : History H}
    (hrun : Reaches (History.Started C config disk)
      (fun h op => Guarded C (fun vm op => WritesSucceed op ∧ RetainsAll vm op) h.vm op)
      (History.step C) h) :
    h.vm.disk.blockStore.base = h.vm.state.initialHeight := by
  have hinv := History.vm_invariant (Q := fun vm => StoreValid vm.state vm.disk.blockStore ∧
    vm.disk.blockStore.base = vm.state.initialHeight) ?_ ?_ hrun
  · exact hinv.2
  · intro resp vm hs
    exact ⟨storeValid_started hB hdisk ⟨resp,hs⟩,base_of_startedWith hB hdisk hbase hs⟩
  · intro vm op hop hvm hg
    exact ⟨hvm.1.call hop hg.1,hvm.1.base_call hvm.2 hop hg.2⟩

/-! ## Hashes -/

/-- Every saved block stands under the ID that its hash and its part set give. -/
def Hashed (C : CometBFT H) (bs : BlockStore H) : Prop :=
  ∀ sb ∈ bs.blocks, blockIDOf C sb.block = .ok sb.blockID

theorem Hashed.acceptBlock {disk : Disk H} (h : Hashed C disk.blockStore)
    (hbase : 0 ≤ disk.blockStore.base) (env : AcceptEnv H) (s : State H) (b : Block H) :
    Hashed C (disk.replay (acceptBlock C env disk s b).log).blockStore := by
  obtain ⟨saved,hblocks,hsaved⟩ := acceptBlock_blocks (C := C) hbase env s b
  intro sb hsb
  rw [hblocks] at hsb
  rcases List.mem_append.mp hsb with hnew | hold
  · rw [(hsaved sb hnew).1]
    exact (hsaved sb hnew).2
  · exact h sb hold

theorem Hashed.call {vm : VM H} (h : Hashed C vm.disk.blockStore) (hbase : 0 ≤ vm.disk.blockStore.base)
    {op : Op H} (hop : op.IsCall) : Hashed C (vm.step C op).disk.blockStore := by
  cases step_advance (C := C) vm hop with
  | quiet hstate hdisk hn =>
    rw [hdisk]
    exact h
  | failed env id w hop hw ha hstate hdisk =>
    rw [hdisk]
    exact h.acceptBlock hbase env _ _
  | accepted env id w hop hw ha hdisk =>
    rw [hdisk]
    exact h.acceptBlock hbase env _ _

theorem hashed_startedWith {config : ExecutorConfig} {disk : Disk H} (hdisk : DiskValid C disk)
    (hhashed : Hashed C disk.blockStore) {resp : InitializeResponse H} {vm : VM H}
    (h : StartedWith C config disk resp vm) : Hashed C vm.disk.blockStore := by
  obtain ⟨penv,aenv,log,hinit,hd⟩ := h.run
  cases initializeVM_ok hinit with
  | resumed b hpos hb henc hid hs hlog =>
    subst hlog
    rw [hd,Disk.replay_nil]
    exact hhashed
  | created b penv' aenv' hpos hb henc hid ha =>
    have hfirst := hhashed.acceptBlock hdisk.base aenv' disk.stateStore.state b
    rwa [ha,← hd] at hfirst

theorem hashed_of_reaches (hB : C.BlockRules) (hC : C.CodecRules) {config : ExecutorConfig}
    {disk : Disk H} (hdisk : DiskValid C disk) (hhashed : Hashed C disk.blockStore) {h : History H}
    (hrun : Reaches (History.Started C config disk)
      (fun h op => Guarded C (fun _ op => WritesSucceed op) h.vm op) (History.step C) h) :
    Hashed C h.vm.disk.blockStore := by
  have hinv := History.vm_invariant
    (Q := fun vm => VMValid C vm ∧ Hashed C vm.disk.blockStore) ?_ ?_ hrun
  · exact hinv.2
  · intro resp vm hs
    exact ⟨vmValid_started hB hdisk ⟨resp,hs⟩,hashed_startedWith hdisk hhashed hs⟩
  · intro vm op hop hvm hg
    exact ⟨hvm.1.call hC hop,hvm.2.call hvm.1.base.le hop⟩

structure SingleChain (C : CometBFT H) (h : History H) : Prop where
  /-- One block for each height from the base to the last block, and no others. -/
  one : ∀ height, h.vm.disk.blockStore.base ≤ height → height ≤ h.vm.state.lastBlockHeight →
    ∃! sb, sb ∈ h.vm.disk.blockStore.held ∧ sb.block.header.height = height
  bounds : ∀ sb ∈ h.vm.disk.blockStore.held, h.vm.disk.blockStore.base ≤ sb.block.header.height ∧
    sb.block.header.height ≤ h.vm.state.lastBlockHeight
  base : h.vm.state.initialHeight ≤ h.vm.disk.blockStore.base ∧
    h.vm.disk.blockStore.base ≤ h.vm.state.lastBlockHeight
  hashed : Hashed C h.vm.disk.blockStore
  linked : ∀ sb ∈ h.vm.disk.blockStore.blocks, ∀ sb' ∈ h.vm.disk.blockStore.blocks,
    sb'.block.header.height = sb.block.header.height + 1 →
    sb'.block.header.lastBlockID = sb.blockID
  times : ∀ sb ∈ h.vm.disk.blockStore.blocks, ∀ sb' ∈ h.vm.disk.blockStore.blocks,
    sb.block.header.height ≤ sb'.block.header.height → sb.block.header.time ≤ sb'.block.header.time
  top : ∃ sb ∈ h.vm.disk.blockStore.held, IsTop h.vm.state sb
  /-- Every accepted block has been saved, and no two saved blocks share a height. -/
  accepted : ∀ id ∈ h.accepted, InStore C h.vm id
  once : ∀ sb ∈ h.vm.disk.blockStore.blocks, ∀ sb' ∈ h.vm.disk.blockStore.blocks,
    sb.block.header.height = sb'.block.header.height → sb = sb'

omit [DecidableEq H] in
theorem StoreValid.singleChain {h : History H}
    (hs : StoreValid h.vm.state h.vm.disk.blockStore) (hhashed : Hashed C h.vm.disk.blockStore)
    (hacc : ∀ id ∈ h.accepted, InStore C h.vm id) : SingleChain C h := by
  obtain ⟨top,rest,hblocks,htop,hchain⟩ := hs.chain
  rw [← hblocks] at hchain
  have hmem : top ∈ h.vm.disk.blockStore.blocks := by
    rw [hblocks]
    exact List.mem_cons_self
  refine ⟨?_,?_,hs.base,hhashed,?_,?_,?_,hacc,?_⟩
  · intro height hlow hhigh
    have hfirst := hs.base.1.trans hlow
    have hlast : height ≤ storedLinking.height top := hhigh.trans htop.height.ge
    have hex : ∃ sb ∈ h.vm.disk.blockStore.blocks, sb.block.header.height = height := by
      rw [hblocks] at hchain ⊢
      exact hchain.exists_height hfirst hlast
    obtain ⟨sb,hsb,hheight⟩ := hex
    refine ⟨sb,⟨BlockStore.mem_held_iff.mpr ⟨hsb,hheight.symm ▸ hlow⟩,hheight⟩,?_⟩
    rintro sb' ⟨hsb',hheight'⟩
    have hsame := hheight'.trans hheight.symm
    exact (hchain.ordered (BlockStore.mem_held_iff.mp hsb').1 hsb hsame.le).2.1 hsame
  · intro sb hsb
    obtain ⟨hsb,hlow⟩ := BlockStore.mem_held_iff.mp hsb
    exact ⟨hlow,hs.height_le hsb⟩
  · intro sb hsb sb' hsb' hnext
    exact (hchain.ordered hsb hsb' (le_of_lt (Int.lt_iff_add_one_le.mpr hnext.ge))).2.2 hnext
  · exact fun sb hsb sb' hsb' hle => (hchain.ordered hsb hsb' hle).1
  · exact ⟨top,BlockStore.mem_held_iff.mpr ⟨hmem,hs.base.2.trans htop.height.ge⟩,htop⟩
  · exact fun sb hsb sb' hsb' hsame => (hchain.ordered hsb hsb' hsame.le).2.1 hsame

/-- In every run whose store writes succeed the store holds a single chain of blocks, linked by
the hashes, from its base to the last block of the state. The base is the initial height as
long as the application never asks for more to be pruned. -/
theorem singleChain_of_reaches (hB : C.BlockRules) (hC : C.CodecRules) {config : ExecutorConfig}
    {disk : Disk H} (hdisk : DiskValid C disk) (hchain : ChainDisk disk)
    (hhashed : Hashed C disk.blockStore) :
    (∀ h, Reaches (History.Started C config disk)
        (fun h op => Guarded C (fun _ op => WritesSucceed op) h.vm op) (History.step C) h →
      SingleChain C h) ∧
    ((0 < disk.stateStore.state.lastBlockHeight →
        disk.blockStore.base = disk.stateStore.state.initialHeight) →
      ∀ h, Reaches (History.Started C config disk)
          (fun h op => Guarded C (fun vm op => WritesSucceed op ∧ RetainsAll vm op) h.vm op)
          (History.step C) h →
        h.vm.disk.blockStore.base = h.vm.state.initialHeight) := by
  refine ⟨fun h hrun => ?_,fun hbase h hrun => base_of_reaches hB hchain hbase hrun⟩
  have hacc := inStore_of_reaches (G := fun _ _ op => WritesSucceed op) hB hC hdisk hrun
  exact (storeValid_of_reaches hB hchain hrun).singleChain
    (hashed_of_reaches hB hC hdisk hhashed hrun) hacc.2

end

namespace Sample

def thirdBlock : Block Digest :=
  Symbolic.makeBlock secondState 3 [] (commit secondBlock 3000) proposer

def thirdID : Digest := .header thirdBlock.header

theorem chainDisk : ChainDisk disk where
  genesis _ := ⟨rfl,rfl⟩
  resumed h := absurd h (by decide)

/-- Two more blocks are parsed and accepted; with the last one the application asks to
retain only the blocks from height two on. -/
def prunedHistory : History Digest :=
  let C := comet [secondBlock,thirdBlock]
  ((((history [secondBlock,thirdBlock]).step C (.parseBlock [1,1])).step C
    (.blockAccept (acceptEnv [] 0) (some secondID))).step C (.parseBlock [1,2])).step C
    (.blockAccept (acceptEnv [] 2) (some thirdID))

/-- All writes succeed and the last block is at height three, but the store has no
block of the initial height any more. -/
theorem prunedHistory_lacks_first :
    Reaches (History.Started (comet [secondBlock,thirdBlock]) config disk)
        (fun h op => Guarded (comet [secondBlock,thirdBlock]) (fun _ op => WritesSucceed op) h.vm op)
        (History.step (comet [secondBlock,thirdBlock])) prunedHistory ∧
      prunedHistory.vm.state.initialHeight = 1 ∧ prunedHistory.vm.state.lastBlockHeight = 3 ∧
      ¬∃ sb ∈ prunedHistory.vm.disk.blockStore.held, sb.block.header.height = 1 := by
  refine ⟨?_,by decide +kernel,by decide +kernel,by decide +kernel⟩
  exact .step (.step (.step (.step (reaches_history _) trivial) rfl) trivial) rfl

theorem singleChain_third : prunedHistory.accepted = [thirdID,secondID,firstID] ∧
    SingleChain (comet [secondBlock,thirdBlock]) prunedHistory := by
  refine ⟨by decide +kernel,?_⟩
  exact (singleChain_of_reaches (Symbolic.blockRules _) (Symbolic.codecRules _) (diskValid _)
    chainDisk (fun sb hsb => nomatch hsb)).1 _
      (.step (.step (.step (.step (reaches_history _) trivial) rfl) trivial) rfl)

end Sample
end Landslide
