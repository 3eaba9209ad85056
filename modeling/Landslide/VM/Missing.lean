import Landslide.VM.SingleChain
import Landslide.VM.Status

/-! # The cache of missing blocks

`GetBlock` remembers the IDs it has not found and then no longer asks the block store for
them. A block gets into the store only by being accepted, and accepting it makes the VM
forget that it was missing, so what is remembered is true in every state.
-/
namespace Landslide
open WrappedBlocksStorage
variable {H : Type} [DecidableEq H] {C : CometBFT H}

def MissingAbsent (C : CometBFT H) (vm : VM H) : Prop :=
  ∀ id, vm.wrappedBlocks.missingBlocks.peek id = some () → ¬Unpruned C vm id

theorem mem_acceptedBy_of_ok {vm : VM H} {env : AcceptEnv H} {id : H} {w : WrappedBlock H}
    {next : State H} (hw : vm.wrappedBlocks.cached id = some w)
    (ha : (acceptBlock C env vm.disk vm.state w.block).result = .ok next) :
    id ∈ acceptedBy C vm (.blockAccept env (some id)) := by
  have hacc := blockAccept_acceptsID (C := C) env vm (some id)
  simp only [acceptedBy]
  generalize blockAccept C env vm (some id) = r at hacc
  cases hacc with
  | refused hn hs =>
    rw [hn id rfl] at hw
    cases hw
  | failed _ w' hw' hs hr ha' hp =>
    rw [hw] at hw'
    cases hw'
    exact absurd ha (ha' next)
  | done _ w' next' hw' hs ha' => exact List.mem_singleton_self id

/-- What is in the store after a call was there before or is the block just accepted. -/
theorem unpruned_call {vm : VM H} (hvm : VMValid C vm) {op : Op H} (hop : op.IsCall)
    (hg : WritesSucceed op) {id : H} (hu : Unpruned C (vm.step C op) id) :
    Unpruned C vm id ∨ id ∈ acceptedBy C vm op := by
  obtain ⟨sb,hsb,hid⟩ := hu
  obtain ⟨hmem,hlow⟩ := BlockStore.mem_held_iff.mp hsb
  have hbase := (hvm.store_grows (C := C) hop).2.trans hlow
  cases step_advance (C := C) vm hop with
  | quiet hstate hdisk hn =>
    rw [hdisk] at hmem
    exact .inl ⟨sb,BlockStore.mem_held_iff.mpr ⟨hmem,hbase⟩,hid⟩
  | failed env id' w hop' hw ha hstate hdisk =>
    subst hop'
    rw [hdisk] at hmem
    rcases acceptBlock_not_ok hvm.base.le ha with ⟨hblocks,_,_⟩ | ⟨_,_,_,_,_,hagain,_⟩
    · rw [hblocks] at hmem
      exact .inl ⟨sb,BlockStore.mem_held_iff.mpr ⟨hmem,hbase⟩,hid⟩
    · exact absurd hg hagain
  | accepted env id' w hop' hw ha hdisk =>
    obtain ⟨blockID,_,_,_,_,hp⟩ := acceptBlock_ok hvm.base.le ha
    rw [hdisk,hp.blocks] at hmem
    rcases List.mem_cons.mp hmem with rfl | hmem
    · have hhash : some id = some id' :=
        hid.symm.trans (hvm.caches.hash id' w (held_of_cached hw))
      cases hhash
      rw [hop']
      exact .inr (mem_acceptedBy_of_ok hw ha)
    · exact .inl ⟨sb,BlockStore.mem_held_iff.mpr ⟨hmem,hbase⟩,hid⟩

theorem MissingAbsent.call {vm : VM H} (hvm : VMValid C vm) (h : MissingAbsent C vm) {op : Op H}
    (hop : op.IsCall) (hg : WritesSucceed op) : MissingAbsent C (vm.step C op) := by
  intro id hm hu
  rcases unpruned_call hvm hop hg hu with hbefore | hacc
  · exact h id (missing_before_call hop hbefore hm) hbefore
  · -- accepting the block has evicted its ID
    have hnot := (permanent_of_acceptedBy hvm hacc).notMissing hu
    rw [hnot] at hm
    cases hm

theorem missingAbsent_started {config : ExecutorConfig} {disk : Disk H} {vm : VM H}
    (h : Started C config disk vm) : MissingAbsent C vm := by
  obtain ⟨resp,h⟩ := h
  intro id hm
  rw [h.wrappedBlocks] at hm
  cases hm

theorem missingAbsent_of_reaches (hB : C.BlockRules) (hC : C.CodecRules) {config : ExecutorConfig}
    {disk : Disk H} (hdisk : DiskValid C disk) {vm : VM H}
    (h : Reaches (Started C config disk) (Guarded C (fun _ op => WritesSucceed op)) (VM.step C) vm) :
    VMValid C vm ∧ MissingAbsent C vm := by
  refine Guarded.invariant (P := fun vm => VMValid C vm ∧ MissingAbsent C vm) ?_ ?_ h
  · exact fun vm hs => ⟨vmValid_started hB hdisk hs,missingAbsent_started hs⟩
  · intro vm op hop hvm hg
    exact ⟨hvm.1.call hC hop,hvm.2.call hvm.1 hop hg⟩

theorem getBlock_eq_notFound_iff {vm : VM H} (h : MissingAbsent C vm) (id : H) :
    (getBlock C vm (some id)).1 = .ok .notFound ↔
      vm.wrappedBlocks.cached id = none ∧ ¬Unpruned C vm id := by
  have hg := getBlock_gets (C := C) vm (some id)
  generalize getBlock C vm (some id) = r at hg ⊢
  constructor
  · intro hr
    cases hg with
    | held _ w hw hs hr' => cases hr' <;> cases hr
    | missing _ hn hs hm hs' =>
      refine ⟨hn,?_⟩
      rcases hm with hm | hm
      · exact h id hm
      · exact (⟨rfl,hn,hm⟩ : MissingBlock C vm (some id) id).not_unpruned
    | loaded _ b hn hs hm hb hr' => cases hr' <;> cases hr
  · rintro ⟨hn,hstore⟩
    cases hg with
    | held _ w hw hs hr' =>
      rw [hn] at hw
      cases hw
    | missing _ hn hs hm hs' => rfl
    | loaded _ b hn hs hm hb hr' =>
      obtain ⟨sb,hsb,rfl,hid⟩ := BlockStore.loadBlockByHash_eq_some hb
      exact absurd ⟨sb,hsb,hid⟩ hstore

/-- In every state of every run whose store writes succeed, `GetBlock` answers that there
is no such block exactly if no cache holds it and the block store does not have it. -/
theorem getBlock_notFound_of_reaches (hB : C.BlockRules) (hC : C.CodecRules)
    {config : ExecutorConfig} {disk : Disk H} (hdisk : DiskValid C disk) {vm : VM H}
    (h : Reaches (Started C config disk) (Guarded C (fun _ op => WritesSucceed op)) (VM.step C) vm)
    (id : H) :
    (getBlock C vm (some id)).1 = .ok .notFound ↔
      (vm.wrappedBlocks.verifiedBlocks id = none ∧ vm.wrappedBlocks.decidedBlocks.peek id = none ∧
        vm.wrappedBlocks.unverifiedBlocks.peek id = none) ∧
      ∀ sb ∈ vm.disk.blockStore.held, C.hash sb.block ≠ some id := by
  have habsent := (missingAbsent_of_reaches hB hC hdisk h).2
  rw [getBlock_eq_notFound_iff habsent]
  simp [WrappedBlocksStorage.cached,Unpruned]

namespace Sample

/-- The second block is asked for before it exists and is then remembered as missing. -/
def askedVM : VM Digest :=
  (vm [secondBlock]).step (comet [secondBlock]) (.getBlock (some secondID))

/-- Once it has been parsed and accepted, it is found. -/
def answeredVM : VM Digest :=
  (askedVM.step (comet [secondBlock]) (.parseBlock [1,1])).step (comet [secondBlock])
    (.blockAccept (acceptEnv [] 0) (some secondID))

theorem missing_block_found :
    askedVM.wrappedBlocks.missingBlocks.peek secondID = some () ∧
      (getBlock (comet [secondBlock]) askedVM (some secondID)).1 = .ok .notFound ∧
      (getBlock (comet [secondBlock]) answeredVM (some secondID)).1 ≠ .ok .notFound := by
  have hasked : Reaches (Started (comet [secondBlock]) config disk)
      (Guarded (comet [secondBlock]) (fun _ op => WritesSucceed op))
      (VM.step (comet [secondBlock])) askedVM := .step (reaches_vm _) trivial
  have hanswered : Reaches (Started (comet [secondBlock]) config disk)
      (Guarded (comet [secondBlock]) (fun _ op => WritesSucceed op))
      (VM.step (comet [secondBlock])) answeredVM := .step (.step hasked trivial) rfl
  refine ⟨by decide +kernel,?_,?_⟩
  · refine (getBlock_notFound_of_reaches (Symbolic.blockRules _) (Symbolic.codecRules _)
      (diskValid _) hasked secondID).mpr ⟨⟨rfl,by decide +kernel,by decide +kernel⟩,?_⟩
    decide +kernel
  · intro hr
    have hstored := ((getBlock_notFound_of_reaches (Symbolic.blockRules _) (Symbolic.codecRules _)
      (diskValid _) hanswered secondID).mp hr).2
    have hheld : ∃ sb ∈ answeredVM.disk.blockStore.held,
        (comet [secondBlock]).hash sb.block = some secondID := by decide +kernel
    obtain ⟨sb,hsb,hid⟩ := hheld
    exact hstored sb hsb hid

end Sample
end Landslide
